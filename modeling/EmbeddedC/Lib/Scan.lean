import EmbeddedC.Lib.Slots

/-!
# Searching an array upwards

Some slots of an array are full.  Any number of searchers walk through it from slot 0 upwards,
each until it finds a full slot that no other one keeps; slots are filled and emptied meanwhile,
anywhere.  A searcher or keeper at slot `p` claims a full slot at `p` or above.

* `Covers claims full`: from every position on there are enough full slots for the claims;
* `Covers.join`, `Covers.pass`, `Covers.skip`, `Covers.leave`, `Covers.fill`: a search begins,
  walks past an empty slot or past one that is kept, and ends; a slot is filled;
* `Covers.lt_length`: no search runs past the end.
-/

/-- From every position on there are enough full slots for the claims. -/
def Covers (claims : List ℕ) (full : List Bool) : Prop :=
  ∀ p, claims.countP (p ≤ ·) ≤ (full.drop p).count true

namespace Covers

variable {claims rest : List ℕ} {full : List Bool} {p : ℕ}

theorem perm {claims' : List ℕ} (h : Covers claims full) (hperm : claims'.Perm claims) :
    Covers claims' full := fun p => (hperm.countP_eq _).trans_le (h p)

theorem nil (full : List Bool) : Covers [] full := fun _ => Nat.zero_le _

/-- The full slots from `p` on are those from `p + 1` on, and `p` itself. -/
theorem count_drop (full : List Bool) (p : ℕ) :
    (full.drop p).count true = (full.drop (p + 1)).count true + (full[p]?.getD false).toNat := by
  by_cases hp : p < full.length
  · rw [List.drop_eq_getElem_cons hp, List.count_cons, List.getElem?_eq_getElem hp]
    cases full[p] <;> simp
  · rw [List.drop_eq_nil_of_le (by omega), List.drop_eq_nil_of_le (by omega),
      List.getElem?_eq_none (by omega)]
    simp

/-- Overwriting slot `p` matters for the positions up to `p`. -/
theorem count_drop_set {b : Bool} (hp : full[p]? = some b) (b' : Bool) (q : ℕ) :
    ((full.set p b').drop q).count true + (if q ≤ p then b.toNat else 0) =
      (full.drop q).count true + if q ≤ p then b'.toNat else 0 := by
  by_cases hq : q ≤ p
  · have hslot : (full.drop q)[p - q]? = some b := by rw [List.getElem?_drop, ← hp]; congr 1; omega
    have hcount := List.countP_set_add hslot (· == true) b'
    rw [List.drop_set, if_neg (by omega)]
    cases b <;> cases b' <;> simp_all [List.count]
  · rw [List.drop_set_of_lt (by omega)]
    simp [hq]

/-- A searcher is at a slot of the array. -/
theorem lt_length (h : Covers (p :: rest) full) : p < full.length := by
  by_contra hlen
  have := h p
  rw [List.drop_eq_nil_of_le (by omega)] at this
  simp at this

/-- A search begins when there is a full slot more than there are claims. -/
theorem join (h : Covers claims full) (hlt : claims.length < full.count true) :
    Covers (0 :: claims) full := by
  intro q
  cases q with
  | zero => simpa [List.countP_true] using hlt
  | succ q => simpa using h (q + 1)

/-- Moving up a claim from `p` matters for position `p + 1` only. -/
theorem of_succ (h : Covers (p :: rest) full)
    (hp : rest.countP (p + 1 ≤ ·) + 1 ≤ (full.drop (p + 1)).count true) :
    Covers ((p + 1) :: rest) full := by
  intro q
  have hq := h q
  rw [List.countP_cons] at hq ⊢
  by_cases hlt : q = p + 1
  · subst hlt
    simpa using hp
  · refine le_trans (Nat.add_le_add_left ?_ _) hq
    by_cases hle : q ≤ p
    · simp [hle, Nat.le_succ_of_le hle]
    · have : ¬ q ≤ p + 1 := by omega
      simp [this]

theorem countP_succ_le (claims : List ℕ) (p : ℕ) :
    claims.countP (p + 1 ≤ ·) ≤ claims.countP (p ≤ ·) :=
  List.countP_mono_left fun _ _ hk => decide_eq_true (Nat.le_of_succ_le (of_decide_eq_true hk))

/-- A searcher walks past an empty slot. -/
theorem pass (h : Covers (p :: rest) full) (hp : full[p]? ≠ some true) :
    Covers ((p + 1) :: rest) full := by
  refine h.of_succ ?_
  have hq := h p
  have hempty : full[p]?.getD false = false := by
    cases hb : full[p]? with
    | none => rfl
    | some b => cases b <;> simp_all
  have hmono := countP_succ_le rest p
  rw [List.countP_cons, if_pos (by simp), count_drop full p, hempty, Bool.toNat_false] at hq
  omega

/-- A searcher walks past a slot that another one keeps. -/
theorem skip (h : Covers (p :: rest) full) (hkept : p ∈ rest) : Covers ((p + 1) :: rest) full := by
  refine h.of_succ ?_
  have hq := h p
  have hmono : rest.countP (p + 1 ≤ ·) + 1 ≤ rest.countP (p ≤ ·) := by
    obtain ⟨l, r, rfl⟩ := List.append_of_mem hkept
    have hl := countP_succ_le l p
    have hr := countP_succ_le r p
    rw [List.countP_append, List.countP_append, List.countP_cons, List.countP_cons,
      if_neg (by simp), if_pos (by simp)]
    omega
  have hslot : (full[p]?.getD false).toNat ≤ 1 := Bool.toNat_le _
  rw [List.countP_cons, if_pos (by simp), count_drop full p] at hq
  omega

/-- A keeper empties its slot and leaves. -/
theorem leave (h : Covers (p :: rest) full) (hp : full[p]? = some true) :
    Covers rest (full.set p false) := by
  intro q
  have hq := h q
  have hset := count_drop_set hp false q
  rw [List.countP_cons] at hq
  by_cases hle : q ≤ p
  · simp [hle] at hq hset
    omega
  · simp [hle] at hq hset
    omega

/-- An empty slot is filled. -/
theorem fill (h : Covers claims full) (hp : full[p]? = some false) :
    Covers claims (full.set p true) := by
  intro q
  have hset := count_drop_set hp true q
  have hq := h q
  simp only [Bool.toNat_false] at hset
  split at hset <;> omega

end Covers
