import Mathlib.Tactic
import Mathlib.Data.List.TakeWhile

/-!
# Decimal numbers

A decimal number is a sign, which may be missing, and at least one digit.

* `Signed`: the value that such a text denotes;
* `text`: how a number is printed; `signed_text`: it is denoted by what is printed;
* `split_digits`: where the digits of a text end;
* `notMem_text`, `length_text`: the characters of a printed number, and how many they are.
-/

namespace Decimal

/-- There are only digits. -/
def Digits (s : List Char) : Prop := ∀ c ∈ s, c.isDigit = true

/-- The value of a number without a sign. -/
def value (s : List Char) : ℕ := Nat.ofDigitChars 10 s 0

/-- A text denotes a number. -/
inductive Signed : List Char → ℤ → Prop
  | plain {s : List Char} (hne : s ≠ []) (hs : Digits s) : Signed s (value s)
  | plus {s : List Char} (hne : s ≠ []) (hs : Digits s) : Signed ('+' :: s) (value s)
  | minus {s : List Char} (hne : s ≠ []) (hs : Digits s) : Signed ('-' :: s) (-value s)

/-- How a number is printed by `%d`. -/
def text : ℤ → List Char
  | .ofNat n => Nat.toDigits 10 n
  | .negSucc n => '-' :: Nat.toDigits 10 (n + 1)

variable {s rest : List Char}

theorem digits_toDigits (n : ℕ) : Digits (Nat.toDigits 10 n) :=
  fun _ hc => Nat.isDigit_of_mem_toDigits (by decide) (by decide) hc

theorem value_toDigits (n : ℕ) : value (Nat.toDigits 10 n) = n := Nat.ofDigitChars_ten_toDigits

/-- What is printed denotes the number. -/
theorem signed_text (v : ℤ) : Signed (text v) v := by
  cases v with
  | ofNat n =>
    have h := Signed.plain Nat.toDigits_ne_nil (digits_toDigits n)
    rwa [value_toDigits] at h
  | negSucc n =>
    have h := Signed.minus Nat.toDigits_ne_nil (digits_toDigits (n + 1))
    rwa [value_toDigits] at h

/-- The digits at the beginning of a text. -/
theorem split_digits (hs : Digits s) (hrest : ∀ c, rest.head? = some c → c.isDigit = false) :
    (s ++ rest).takeWhile Char.isDigit = s ∧ (s ++ rest).dropWhile Char.isDigit = rest := by
  have hstop : rest.takeWhile Char.isDigit = [] ∧ rest.dropWhile Char.isDigit = rest := by
    cases rest with
    | nil => exact ⟨rfl, rfl⟩
    | cons c rest =>
      have hc : ¬ c.isDigit = true := by simp [hrest c rfl]
      exact ⟨List.takeWhile_cons_of_neg hc, List.dropWhile_cons_of_neg hc⟩
  rw [List.takeWhile_append_of_pos hs, List.dropWhile_append_of_pos hs, hstop.1, hstop.2]
  exact ⟨List.append_nil s, rfl⟩

theorem digits_takeWhile (s : List Char) : Digits (s.takeWhile Char.isDigit) :=
  fun _ hc => List.mem_takeWhile_imp hc

/-- A sign is not a digit, and nor is the newline. -/
theorem Digits.head?_ne (hs : Digits s) {c : Char} (hc : c.isDigit = false) :
    s.head? ≠ some c := by
  intro hhead
  have := hs c (List.mem_of_mem_head? hhead)
  rw [hc] at this
  cases this

/-- What is printed: digits, and maybe the sign `-`. -/
theorem notMem_text {c : Char} (hc : c.isDigit = false) (hminus : c ≠ '-') {v : ℤ} :
    c ∉ text v := by
  have hdigits : ∀ n, c ∉ Nat.toDigits 10 n := by
    intro n hmem
    have := digits_toDigits n c hmem
    rw [hc] at this
    cases this
  cases v with
  | ofNat n => exact hdigits n
  | negSucc n =>
    intro hmem
    rcases List.mem_cons.1 hmem with h | h
    · exact hminus h
    · exact hdigits (n + 1) h

/-- How much is printed. -/
theorem length_text {v : ℤ} {k : ℕ} (h : -10 ^ (k + 1) < v ∧ v < 10 ^ (k + 1)) :
    (text v).length ≤ k + 2 := by
  have hdigits : ∀ n, n < 10 ^ (k + 1) → (Nat.toDigits 10 n).length ≤ k + 1 :=
    fun n hn => Nat.toDigits_length 10 n (k + 1) (Nat.succ_pos k) hn
  cases v with
  | ofNat n =>
    have hn : (n : ℤ) < 10 ^ (k + 1) := h.2
    exact (hdigits n (by exact_mod_cast hn)).trans (Nat.le_succ _)
  | negSucc n =>
    have hn : n + 1 < 10 ^ (k + 1) := by
      have := h.1
      rw [Int.negSucc_eq] at this
      zify
      linarith
    exact Nat.succ_le_succ (hdigits (n + 1) hn)

end Decimal
