import Mathlib.Tactic
import Mathlib.Data.List.TakeWhile

/-!
# Hexadecimal text

Two digits denote a byte.

* `digit`, `value`: the value of a digit and of a number;
* `strtol`: the number at the beginning of a text, as the C library reads it with base 16;
* `decode`: the bytes that a text denotes;
* `bytes`: the bytes of a number, the highest one first;
* `bytes_value`: reading a number and taking its bytes decodes the text.
-/

namespace Hex

/-- The value of a digit. -/
def digit (c : Char) : Option ℕ :=
  if '0'.toNat ≤ c.toNat ∧ c.toNat ≤ '9'.toNat then some (c.toNat - '0'.toNat)
  else if 'a'.toNat ≤ c.toNat ∧ c.toNat ≤ 'f'.toNat then some (c.toNat - 'a'.toNat + 10)
  else if 'A'.toNat ≤ c.toNat ∧ c.toNat ≤ 'F'.toNat then some (c.toNat - 'A'.toNat + 10)
  else none

/-- The value of a digit; other characters count as zeros. -/
def digitValue (c : Char) : ℕ := (digit c).getD 0

/-- There are only digits. -/
def Digits (s : List Char) : Prop := ∀ c ∈ s, (digit c).isSome = true

instance (s : List Char) : Decidable (Digits s) := List.decidableBAll _ _

/-- The value of a number. -/
def value (s : List Char) : ℕ := s.foldl (fun v c => 16 * v + digitValue c) 0

/-- `isspace` -/
def isSpace (c : Char) : Bool := c = ' ' || (9 ≤ c.toNat && c.toNat ≤ 13)

/-- `strtol(s, NULL, 16)`, for a number that is in its range: white space, a sign, `0x` and the
digits. -/
def strtol (s : List Char) : ℤ :=
  let s := s.dropWhile isSpace
  let negative := s[0]? = some '-'
  let s := if s[0]? = some '-' ∨ s[0]? = some '+' then s.drop 1 else s
  let s := if s[0]? = some '0' ∧ (s[1]? = some 'x' ∨ s[1]? = some 'X') ∧
    (s[2]?.bind digit).isSome = true then s.drop 2 else s
  let v : ℤ := value (s.takeWhile fun c => (digit c).isSome)
  if negative then -v else v

/-- The bytes that a text denotes, two digits each. -/
def decode : List Char → List ℕ
  | hi :: lo :: s => (16 * digitValue hi + digitValue lo) :: decode s
  | _ => []

/-- The `n` low bytes of a number, the highest one first. -/
def bytes (n v : ℕ) : List ℕ := (List.range n).map fun i => v / 256 ^ (n - 1 - i) % 256

variable {s : List Char} {n k : ℕ}

/-! ### Reading a number -/

theorem digitValue_lt (c : Char) : digitValue c < 16 := by
  have h0 : '0'.toNat = 48 := rfl
  have h9 : '9'.toNat = 57 := rfl
  have ha : 'a'.toNat = 97 := rfl
  have hf : 'f'.toNat = 102 := rfl
  have hA : 'A'.toNat = 65 := rfl
  have hF : 'F'.toNat = 70 := rfl
  rw [digitValue, digit]
  split_ifs <;> simp only [Option.getD_some, Option.getD_none] <;> omega

/-- Neither white space nor a sign is a digit. -/
theorem digit_of_isSpace {c : Char} (hc : isSpace c = true) : digit c = none := by
  have h0 : '0'.toNat = 48 := rfl
  have ha : 'a'.toNat = 97 := rfl
  have hA : 'A'.toNat = 65 := rfl
  have hlt : c.toNat < 48 := by
    simp only [isSpace, Bool.or_eq_true, decide_eq_true_eq, Bool.and_eq_true] at hc
    rcases hc with rfl | ⟨-, hc⟩
    · decide
    · omega
  rw [digit, if_neg (by omega), if_neg (by omega), if_neg (by omega)]

theorem Digits.getElem?_ne (h : Digits s) {c : Char} (hc : digit c = none) (i : ℕ) :
    s[i]? ≠ some c := by
  intro hi
  have := h c (List.mem_of_getElem? hi)
  rw [hc] at this
  cases this

/-- A text of digits is read as a whole. -/
theorem strtol_of_digits (h : Digits s) : strtol s = value s := by
  have hspace : s.dropWhile isSpace = s := by
    cases s with
    | nil => rfl
    | cons c s =>
      refine List.dropWhile_cons_of_neg fun hc => ?_
      have := h c List.mem_cons_self
      rw [digit_of_isSpace hc] at this
      cases this
  have hall : s.takeWhile (fun c => (digit c).isSome) = s :=
    List.takeWhile_eq_self_iff.2 h
  have hne : ∀ {c : Char}, digit c = none → ∀ i : ℕ, s[i]? ≠ some c := h.getElem?_ne
  simp only [strtol, hspace, hne (show digit '-' = none by decide),
    hne (show digit '+' = none by decide), hne (show digit 'x' = none by decide),
    hne (show digit 'X' = none by decide), or_self, false_and, and_false, if_false, hall]

/-! ### The bytes of a number -/

theorem length_decode (s : List Char) : (decode s).length = s.length / 2 := by
  induction s using decode.induct with
  | case1 hi lo s ih =>
    rw [decode, List.length_cons, ih, List.length_cons, List.length_cons]
    omega
  | case2 s h =>
    rcases s with _ | ⟨c, _ | ⟨d, s⟩⟩
    · rfl
    · simp [decode]
    · exact absurd rfl (h c d s)

theorem lt_of_mem_decode {b : ℕ} (hb : b ∈ decode s) : b < 256 := by
  induction s using decode.induct with
  | case1 hi lo s ih =>
    rcases List.mem_cons.1 hb with rfl | hb
    · have := digitValue_lt hi
      have := digitValue_lt lo
      omega
    · exact ih hb
  | case2 s h =>
    rw [decode] at hb
    · cases hb
    · exact h

/-- The first `2 * k` digits, and the others. -/
theorem decode_take_append (s : List Char) (k : ℕ) :
    decode (s.take (2 * k)) ++ decode (s.drop (2 * k)) = decode s := by
  induction k generalizing s with
  | zero => simp [decode]
  | succ k ih =>
    rcases s with _ | ⟨hi, _ | ⟨lo, s⟩⟩
    · simp [decode]
    · simp [decode, Nat.mul_succ]
    · rw [Nat.mul_succ, List.take_succ_cons, List.take_succ_cons, List.drop_succ_cons,
        List.drop_succ_cons, decode, List.cons_append, ih, decode]

/-- A text is decoded piece by piece. -/
theorem decode_pieces (s : List Char) (k n : ℕ) :
    (List.range n).flatMap (fun j => decode ((s.drop (2 * k * j)).take (2 * k))) =
      decode (s.take (2 * k * n)) := by
  induction n with
  | zero => simp [decode]
  | succ n ih =>
    have hsplit := decode_take_append (s.take (2 * k * (n + 1))) (k * n)
    rw [List.take_take, List.drop_take, ← Nat.mul_assoc, Nat.min_eq_left (by
      exact Nat.mul_le_mul_left _ n.le_succ), Nat.mul_succ, Nat.add_sub_cancel_left] at hsplit
    rw [List.range_succ, List.flatMap_append, ih, List.flatMap_singleton, hsplit, Nat.mul_succ]

theorem bytes_succ (n v : ℕ) {b : ℕ} (hb : b < 256) :
    bytes (n + 1) (256 * v + b) = bytes n v ++ [b] := by
  rw [bytes, List.range_succ, List.map_append]
  congr 1
  · refine List.map_congr_left fun i hi => ?_
    have hlt := List.mem_range.1 hi
    have hexp : n + 1 - 1 - i = (n - 1 - i) + 1 := by omega
    have hdiv : (256 * v + b) / 256 = v := by omega
    rw [hexp, Nat.pow_succ', ← Nat.div_div_eq_div_mul, hdiv]
  · simp [Nat.mod_eq_of_lt hb]

theorem value_append_two (s : List Char) (hi lo : Char) :
    value (s ++ [hi, lo]) = 256 * value s + (16 * digitValue hi + digitValue lo) := by
  have hfold : value (s ++ [hi, lo]) =
      16 * (16 * value s + digitValue hi) + digitValue lo := List.foldl_append ..
  rw [hfold]
  ring

/-- **Decoding by way of a number.** The bytes of the value are those that the text denotes. -/
theorem bytes_value (h : s.length = 2 * n) : bytes n (value s) = decode s := by
  induction n generalizing s with
  | zero =>
    obtain rfl := List.length_eq_zero_iff.1 h
    rfl
  | succ n ih =>
    have hlast : (s.drop (2 * n)).length = 2 := by
      rw [List.length_drop]
      omega
    have hfront : (s.take (2 * n)).length = 2 * n := List.length_take_of_le (by omega)
    obtain ⟨hi, lo, hdigits⟩ := List.length_eq_two.1 hlast
    have hb : 16 * digitValue hi + digitValue lo < 256 := by
      have := digitValue_lt hi
      have := digitValue_lt lo
      omega
    have hvalue : value s =
        256 * value (s.take (2 * n)) + (16 * digitValue hi + digitValue lo) := by
      rw [← value_append_two, ← hdigits, List.take_append_drop]
    rw [hvalue, bytes_succ n _ hb, ih hfront, ← decode_take_append s n, hdigits]
    rfl

/-- `0041ff` is three bytes. -/
example : decode "0041ff".toList = [0, 65, 255] := rfl

end Hex
