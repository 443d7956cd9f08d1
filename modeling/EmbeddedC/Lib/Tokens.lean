import Mathlib.Data.List.TakeWhile
import Mathlib.Data.Nat.Notation

/-!
# Tokens of a text

`strtok` skips delimiters, takes what comes before the next one, and goes on after it at the next
call.  `tokens` are the maximal pieces without delimiters.

* `strtok_none`, `strtok_some`, `strtokCalls_eq`: the calls of `strtok` give the tokens in their
  order;
* `mem_of_mem_tokens`: what tokens are made of.
-/

namespace Tokens

variable {α : Type} (isDelim : α → Bool) {text token rest : List α}

/-- One call of `strtok`: the next token, and the text after it. -/
def strtok (text : List α) : Option (List α × List α) :=
  match text.dropWhile isDelim with
  | [] => none
  | a :: rest =>
    some ((a :: rest).takeWhile fun b => !isDelim b,
      ((a :: rest).dropWhile fun b => !isDelim b).tail)

/-- What is returned by calls of `strtok` until it returns `NULL`, at most `n`. -/
def strtokCalls : ℕ → List α → List (List α)
  | 0, _ => []
  | n + 1, text =>
    match strtok isDelim text with
    | none => []
    | some (token, rest) => token :: strtokCalls n rest

/-- The maximal pieces without delimiters. -/
def tokens (text : List α) : List (List α) := (text.splitOnP isDelim).filter fun t => !t.isEmpty

variable {isDelim}

theorem tokens_cons_delim {a : α} (ha : isDelim a = true) :
    tokens isDelim (a :: text) = tokens isDelim text := by
  rw [tokens, List.splitOnP_cons_eq_if_modifyHead, if_pos ha]
  rfl

theorem tokens_dropWhile (text : List α) :
    tokens isDelim (text.dropWhile isDelim) = tokens isDelim text := by
  induction text with
  | nil => rfl
  | cons a text ih =>
    by_cases ha : isDelim a = true
    · rw [List.dropWhile_cons_of_pos ha, ih, tokens_cons_delim ha]
    · rw [List.dropWhile_cons_of_neg ha]

/-- The text begins with a token. -/
theorem tokens_takeWhile {a : α} (ha : ¬ isDelim a = true) :
    tokens isDelim (a :: text) =
      ((a :: text).takeWhile fun b => !isDelim b) ::
        tokens isDelim ((a :: text).dropWhile fun b => !isDelim b).tail := by
  have hfree : ∀ b ∈ (a :: text).takeWhile fun b => !isDelim b, isDelim b = false := by
    intro b hb
    simpa using List.mem_takeWhile_imp hb
  have hcut := List.takeWhile_append_dropWhile (p := fun b => !isDelim b) (l := a :: text)
  have hne : ((a :: text).takeWhile fun b => !isDelim b).isEmpty = false := by
    rw [List.takeWhile_cons_of_pos (by simpa using ha)]
    rfl
  cases hrest : (a :: text).dropWhile fun b => !isDelim b with
  | nil =>
    rw [hrest, List.append_nil] at hcut
    rw [hcut] at hfree hne ⊢
    rw [tokens, List.splitOnP_eq_singleton hfree, List.filter_cons_of_pos (by simp)]
    rfl
  | cons d rest =>
    have hd : isDelim d = true := by
      have := List.head_dropWhile_not (fun b => !isDelim b) (l := a :: text) (by simp [hrest])
      simpa [hrest] using this
    rw [hrest] at hcut
    rw [List.tail_cons, ← hcut, tokens, List.splitOnP_append_cons_of_forall_mem hfree _ hd,
      List.filter_cons_of_pos (by rw [hne]; rfl), hcut]
    rfl

/-- `strtok` returns `NULL` when no token is left. -/
theorem strtok_none (h : strtok isDelim text = none) : tokens isDelim text = [] := by
  unfold strtok at h
  split at h
  · rename_i hrest
    rw [← tokens_dropWhile, hrest]
    rfl
  · cases h

/-- Otherwise it returns the next token. -/
theorem strtok_some (h : strtok isDelim text = some (token, rest)) :
    tokens isDelim text = token :: tokens isDelim rest := by
  unfold strtok at h
  split at h
  · cases h
  · rename_i a left hleft
    cases h
    have ha : ¬ isDelim a = true := by
      have := List.head_dropWhile_not isDelim (l := text) (by simp [hleft])
      simpa [hleft] using this
    rw [← tokens_dropWhile, hleft, tokens_takeWhile ha]

theorem length_lt_of_strtok (h : strtok isDelim text = some (token, rest)) :
    rest.length < text.length := by
  unfold strtok at h
  split at h
  · cases h
  · rename_i a left hleft
    cases h
    have hle := (List.dropWhile_suffix (p := fun b => !isDelim b) (l := a :: left)).length_le
    have htext := (List.dropWhile_suffix (p := isDelim) (l := text)).length_le
    rw [hleft] at htext
    rw [List.length_tail]
    rw [List.length_cons] at hle htext
    omega

/-- Enough calls return all tokens. -/
theorem strtokCalls_eq {n : ℕ} (hn : text.length ≤ n) :
    strtokCalls isDelim n text = tokens isDelim text := by
  induction n generalizing text with
  | zero =>
    obtain rfl := List.length_eq_zero_iff.1 (Nat.le_zero.1 hn)
    rfl
  | succ n ih =>
    rw [strtokCalls]
    split
    · rename_i hnone
      exact (strtok_none hnone).symm
    · rename_i token rest hsome
      have hlt := length_lt_of_strtok hsome
      rw [strtok_some hsome, ih (by omega)]

/-- Tokens are made of the characters of the text. -/
theorem mem_of_mem_tokens {b : α} (h : token ∈ tokens isDelim text) (hb : b ∈ token) :
    b ∈ text := by
  have hmem := (List.mem_filter.1 h).1
  clear h
  induction text generalizing token with
  | nil =>
    rw [List.splitOnP_nil, List.mem_singleton] at hmem
    subst hmem
    cases hb
  | cons a text ih =>
    rw [List.splitOnP_cons_eq_if_modifyHead] at hmem
    split at hmem
    · obtain rfl | hmem := List.mem_cons.1 hmem
      · cases hb
      · exact List.mem_cons_of_mem _ (ih hb hmem)
    · cases hsplit : List.splitOnP isDelim text with
      | nil =>
        rw [hsplit] at hmem
        cases hmem
      | cons t ts =>
        rw [hsplit, List.modifyHead_cons] at hmem
        obtain rfl | hmem := List.mem_cons.1 hmem
        · obtain rfl | hb := List.mem_cons.1 hb
          · exact List.mem_cons_self
          · exact List.mem_cons_of_mem _ (ih hb (by rw [hsplit]; exact List.mem_cons_self))
        · exact List.mem_cons_of_mem _ (ih hb (by rw [hsplit]; exact List.mem_cons_of_mem _ hmem))

end Tokens
