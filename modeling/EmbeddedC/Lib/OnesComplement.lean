import Mathlib.Tactic

/-!
# One's complement sums

Words below a base `B` are added with an end-around carry.  Such a sum is the ordinary sum modulo
`B - 1`, where the two representations `0` and `B - 1` of zero are kept apart: a sum is `0` only if
all words are.

* `ocAdd`, `ocSum`: one addition, and the sum of a list of words;
* `ocSum_modEq`, `ocSum_eq_zero`: what a sum is;
* `ocSum_eq_max_iff`: when a sum is `B - 1`, as that of checked data;
* `ocSum_swap`: whether it is does not depend on the order of the two digits of every word.
-/

namespace OnesComplement

variable {B : ℕ} {a b : ℕ} {ws : List ℕ}

/-- Addition with an end-around carry. -/
def ocAdd (B a b : ℕ) : ℕ := (a + b) % B + (a + b) / B

/-- The sum of a list of words. -/
def ocSum (B : ℕ) (ws : List ℕ) : ℕ := ws.foldr (ocAdd B) 0

@[simp] theorem ocSum_cons (w : ℕ) (ws : List ℕ) :
    ocSum B (w :: ws) = ocAdd B w (ocSum B ws) := rfl

theorem ocAdd_lt (ha : a < B) (hb : b < B) : ocAdd B a b < B := by
  unfold ocAdd
  rcases lt_or_ge (a + b) B with h | h
  · rwa [Nat.mod_eq_of_lt h, Nat.div_eq_of_lt h, Nat.add_zero]
  · -- the carry is 1
    rw [Nat.mod_eq_sub_mod h, Nat.div_eq_sub_div (by omega) h, Nat.mod_eq_of_lt (by omega),
      Nat.div_eq_of_lt (by omega)]
    omega

theorem ocAdd_modEq (hB : 0 < B) (a b : ℕ) : ocAdd B a b ≡ a + b [MOD B - 1] := by
  have hB' : B ≡ 1 [MOD B - 1] := (Nat.modEq_iff_dvd' (by omega)).2 dvd_rfl |>.symm
  calc ocAdd B a b = (a + b) % B + 1 * ((a + b) / B) := by rw [ocAdd, Nat.one_mul]
    _ ≡ (a + b) % B + B * ((a + b) / B) [MOD B - 1] := (hB'.symm.mul_right _).add_left _
    _ = a + b := Nat.mod_add_div _ _

theorem ocAdd_eq_zero : ocAdd B a b = 0 ↔ a = 0 ∧ b = 0 := by
  constructor
  · intro h
    obtain ⟨hmod, hdiv⟩ := Nat.add_eq_zero_iff.1 h
    rw [← Nat.add_eq_zero_iff, ← Nat.mod_add_div (a + b) B, hmod, hdiv, Nat.mul_zero]
  · rintro ⟨rfl, rfl⟩
    simp [ocAdd]

theorem ocSum_lt (hB : 0 < B) (hws : ∀ w ∈ ws, w < B) : ocSum B ws < B := by
  induction ws with
  | nil => exact hB
  | cons w ws ih =>
    exact ocAdd_lt (hws w List.mem_cons_self) (ih fun v hv => hws v (List.mem_cons_of_mem _ hv))

/-- A sum is the ordinary sum modulo `B - 1`. -/
theorem ocSum_modEq (hB : 0 < B) (ws : List ℕ) : ocSum B ws ≡ ws.sum [MOD B - 1] := by
  induction ws with
  | nil => rfl
  | cons w ws ih => exact (ocAdd_modEq hB w _).trans (by rw [List.sum_cons]; exact ih.add_left w)

/-- A sum is 0 only if all words are. -/
theorem ocSum_eq_zero : ocSum B ws = 0 ↔ ws.sum = 0 := by
  induction ws with
  | nil => simp [ocSum]
  | cons w ws ih => rw [ocSum_cons, ocAdd_eq_zero, ih, List.sum_cons, Nat.add_eq_zero_iff]

/-- When a sum is the other zero. -/
theorem ocSum_eq_max_iff (hB : 1 < B) (hws : ∀ w ∈ ws, w < B) :
    ocSum B ws = B - 1 ↔ B - 1 ∣ ws.sum ∧ ws.sum ≠ 0 := by
  have hlt := ocSum_lt (Nat.zero_lt_of_lt hB) hws
  have hzero : ocSum B ws = 0 ↔ ws.sum = 0 := ocSum_eq_zero
  rw [← (ocSum_modEq (Nat.zero_lt_of_lt hB) ws).dvd_iff dvd_rfl, ne_eq, ← hzero]
  constructor
  · intro h
    rw [h]
    exact ⟨dvd_rfl, by omega⟩
  · rintro ⟨hdvd, hne⟩
    exact (Nat.le_of_dvd (Nat.pos_of_ne_zero hne) hdvd).antisymm' (by omega)

/-- Exchange the two digits of a word, in base `b`. -/
def swap (b w : ℕ) : ℕ := w % b * b + w / b

theorem swap_lt (hw : a < b * b) : swap b a < b * b := by
  have hb : 0 < b := by
    rcases Nat.eq_zero_or_pos b with rfl | hb
    · simp at hw
    · exact hb
  have hmod := Nat.mod_lt a hb
  have hdiv : a / b < b := Nat.div_lt_of_lt_mul hw
  calc swap b a < a % b * b + b := Nat.add_lt_add_left hdiv _
    _ = (a % b + 1) * b := by ring
    _ ≤ b * b := Nat.mul_le_mul_right b hmod

/-- Exchanging the digits is multiplication by the base. -/
theorem swap_modEq (hb : 0 < b) (w : ℕ) : swap b w ≡ b * w [MOD b * b - 1] := by
  have hb' : b * b ≡ 1 [MOD b * b - 1] :=
    (Nat.modEq_iff_dvd' (Nat.one_le_iff_ne_zero.2 (by positivity))).2 dvd_rfl |>.symm
  calc swap b w = w % b * b + 1 * (w / b) := by rw [swap, Nat.one_mul]
    _ ≡ w % b * b + b * b * (w / b) [MOD b * b - 1] := (hb'.symm.mul_right _).add_left _
    _ = b * (w % b + b * (w / b)) := by ring
    _ = b * w := by rw [Nat.mod_add_div]

theorem swap_eq_zero (hb : 0 < b) (w : ℕ) : swap b w = 0 ↔ w = 0 := by
  constructor
  · intro h
    obtain ⟨hmod, hdiv⟩ := Nat.add_eq_zero_iff.1 h
    rw [← Nat.mod_add_div w b, hdiv, (Nat.mul_eq_zero.1 hmod).resolve_right hb.ne', Nat.mul_zero]
  · rintro rfl
    simp [swap]

theorem sum_map_swap_modEq (hb : 0 < b) (ws : List ℕ) :
    (ws.map (swap b)).sum ≡ b * ws.sum [MOD b * b - 1] := by
  induction ws with
  | nil => rfl
  | cons w ws ih =>
    rw [List.map_cons, List.sum_cons, List.sum_cons, Nat.mul_add]
    exact (swap_modEq hb w).add ih

/-- Data that checks in one order of the digits checks in the other. -/
theorem ocSum_swap (hb : 1 < b) (hws : ∀ w ∈ ws, w < b * b) :
    ocSum (b * b) (ws.map (swap b)) = b * b - 1 ↔ ocSum (b * b) ws = b * b - 1 := by
  have hB : 1 < b * b := by nlinarith
  have hsum := sum_map_swap_modEq (Nat.zero_lt_of_lt hb) ws
  have hzero : (ws.map (swap b)).sum = 0 ↔ ws.sum = 0 := by
    simp only [List.sum_eq_zero_iff, List.forall_mem_map, swap_eq_zero (Nat.zero_lt_of_lt hb)]
  have hcop : Nat.Coprime (b * b - 1) b := by
    refine Nat.Coprime.coprime_dvd_right (Nat.dvd_mul_left b b) ?_
    have hnext : Nat.Coprime (b * b - 1) (b * b - 1 + 1) := by simp
    rwa [Nat.sub_add_cancel hB.le] at hnext
  rw [ocSum_eq_max_iff hB hws, ocSum_eq_max_iff hB, hsum.dvd_iff dvd_rfl, hcop.dvd_mul_left,
    ne_eq, hzero]
  simpa using fun w hw => swap_lt (hws w hw)

end OnesComplement
