import Mathlib.Tactic

/-!
# Arrays of slots

Threads, clients and table entries are lists updated in place with `List.set`.  Overwriting
the slot `i` changes a count, or the values collected from all slots, by what slot `i`
contributed before and contributes now.

* `set_forall`, `modify_forall`, `concat_forall`: what holds of every slot;
* `countP_set_add`, `countP_set_le`, `sum_map_set_add`: counts and sums, also for `List.modify`;
* `filterMap_set_perm`, `filterMap_zipIdx_set_perm`: collected values;
* `countP_eq_one_iff`, `count_filterMap_eq_one_iff`: a count is one iff exactly one slot is
  counted.
-/

namespace List

variable {α β : Type} {l : List α} {i : ℕ} {a : α}

theorem lt_length_of_getElem?_eq_some (h : l[i]? = some a) : i < l.length :=
  (getElem?_eq_some_iff.1 h).1

theorem getElem?_concat_eq_some {b : α} :
    (l ++ [b])[i]? = some a ↔ l[i]? = some a ∨ i = l.length ∧ b = a := by
  rcases lt_trichotomy i l.length with h | rfl | h
  · simp [getElem?_append_left h, h.ne]
  · simp
  · simp [h.le, h.ne', getElem?_eq_none, Nat.succ_le_of_lt h]

/-- An update of a slot between others. -/
theorem modify_append_cons (l r : List α) (a : α) (f : α → α) :
    (l ++ a :: r).modify l.length f = l ++ f a :: r := by
  induction l with
  | nil => rfl
  | cons x l ih => simp [ih]

/-- An update of the last slot. -/
theorem modify_concat (l : List α) (a : α) (f : α → α) :
    (l ++ [a]).modify l.length f = l ++ [f a] := modify_append_cons l [] a f

theorem set_concat (l : List α) (a b : α) : (l ++ [a]).set l.length b = l ++ [b] := by
  rw [set_append_right _ _ le_rfl, Nat.sub_self, set_cons_zero]

/-- What holds of every slot, and of the new content of slot `i`, holds after it is overwritten. -/
theorem set_forall {P : ℕ → α → Prop} (h : ∀ (j : ℕ) (b : α), l[j]? = some b → P j b) (ha : P i a) :
    ∀ (j : ℕ) (b : α), (l.set i a)[j]? = some b → P j b := by
  intro j b hb
  rw [getElem?_set] at hb
  split at hb
  · rename_i hij
    subst hij
    split at hb
    · exact Option.some.inj hb ▸ ha
    · cases hb
  · exact h j b hb

/-- What holds of every slot, and of the new content of slot `i`, holds after an update. -/
theorem modify_forall {P : ℕ → α → Prop} {f : α → α} (h : ∀ (j : ℕ) (b : α), l[j]? = some b → P j b)
    (hi : ∀ b, l[i]? = some b → P i (f b)) :
    ∀ (j : ℕ) (b : α), (l.modify i f)[j]? = some b → P j b := by
  intro j b hb
  rw [getElem?_modify] at hb
  obtain ⟨b', hb', rfl⟩ := Option.map_eq_some_iff.1 hb
  by_cases hj : i = j
  · subst hj
    rw [if_pos rfl]
    exact hi b' hb'
  · rw [if_neg hj]
    exact h j b' hb'

/-- What holds of every slot, and of the one that is added, holds afterwards. -/
theorem concat_forall {P : ℕ → α → Prop} (h : ∀ (j : ℕ) (b : α), l[j]? = some b → P j b)
    (ha : P l.length a) : ∀ (j : ℕ) (b : α), (l ++ [a])[j]? = some b → P j b := by
  intro j b hb
  obtain hb | ⟨rfl, rfl⟩ := getElem?_concat_eq_some.1 hb
  · exact h j b hb
  · exact ha

/-- Overwriting slot `i` with an entry of the same value leaves the list of values alone. -/
theorem map_set_of_eq (h : l[i]? = some a) {f : α → β} {b : α} (hf : f b = f a) :
    (l.set i b).map f = l.map f := by
  obtain ⟨hi, rfl⟩ := getElem?_eq_some_iff.1 h
  rw [map_set, hf, ← getElem_map f (h := by simpa using hi), set_getElem_self]

/-- Overwriting slot `i` moves a count from the old content to the new one. -/
theorem countP_set_add (h : l[i]? = some a) (p : α → Bool) (b : α) :
    (l.set i b).countP p + (if p a then 1 else 0) = l.countP p + (if p b then 1 else 0) := by
  obtain ⟨hi, rfl⟩ := getElem?_eq_some_iff.1 h
  have hle : (if p l[i] then 1 else 0) ≤ l.countP p := by
    split
    · exact countP_pos_iff.2 ⟨l[i], getElem_mem hi, ‹_›⟩
    · exact Nat.zero_le _
  rw [countP_set hi]
  omega

/-- An update of slot `i` overwrites it. -/
theorem modify_eq_set_of_getElem? (h : l[i]? = some a) (f : α → α) :
    l.modify i f = l.set i (f a) := by
  refine ext_getElem? fun j => ?_
  by_cases hj : i = j
  · subst hj
    rw [getElem?_modify_eq, h, getElem?_set_self (lt_length_of_getElem?_eq_some h)]
    rfl
  · rw [getElem?_modify_ne _ _ hj, getElem?_set_ne hj]

/-- An update that keeps the value of a slot leaves the list of values alone. -/
theorem map_modify_of_eq {f : α → α} {g : α → β} (hf : ∀ a, g (f a) = g a) :
    (l.modify i f).map g = l.map g := by
  cases h : l[i]? with
  | none => rw [modify_eq_self (getElem?_eq_none_iff.1 h)]
  | some a => rw [modify_eq_set_of_getElem? h, map_set_of_eq h (hf a)]

/-- The same for an update. -/
theorem countP_modify_add (h : l[i]? = some a) (p : α → Bool) (f : α → α) :
    (l.modify i f).countP p + (if p a then 1 else 0) = l.countP p + (if p (f a) then 1 else 0) := by
  rw [modify_eq_set_of_getElem? h]
  exact countP_set_add h p (f a)

/-- A count does not grow if slot `i` is counted afterwards only if it was before. -/
theorem countP_set_le (h : l[i]? = some a) {p : α → Bool} {b : α} (hp : p b = true → p a = true) :
    (l.set i b).countP p ≤ l.countP p := by
  have hcount := countP_set_add h p b
  by_cases hb : p b = true
  · rw [if_pos hb, if_pos (hp hb)] at hcount
    omega
  · rw [if_neg hb] at hcount
    omega

theorem countP_modify_le (h : l[i]? = some a) {p : α → Bool} {f : α → α}
    (hp : p (f a) = true → p a = true) : (l.modify i f).countP p ≤ l.countP p := by
  rw [modify_eq_set_of_getElem? h]
  exact countP_set_le h hp

/-- Overwriting slot `i` moves a sum from the old content to the new one. -/
theorem sum_map_set_add {M : Type} [AddCommMonoid M] (h : l[i]? = some a) (f : α → M) (b : α) :
    ((l.set i b).map f).sum + f a = (l.map f).sum + f b := by
  induction l generalizing i with
  | nil => cases h
  | cons x l ih =>
    cases i with
    | zero =>
      obtain rfl : x = a := by simpa using h
      simp only [set_cons_zero, map_cons, sum_cons]
      abel
    | succ i =>
      have := ih (i := i) (by simpa using h)
      simp only [set_cons_succ, map_cons, sum_cons, add_assoc, this]

/-- A slot that is counted makes the count positive. -/
theorem countP_pos_of_getElem? (h : l[i]? = some a) {p : α → Bool} (ha : p a = true) :
    0 < l.countP p :=
  countP_pos_iff.2 ⟨a, mem_of_getElem? h, ha⟩

/-- Overwriting slot `i` exchanges what slot `i` contributes to the collected values. -/
theorem filterMap_set_perm (h : l[i]? = some a) (f : α → Option β) :
    ∃ rest, (l.filterMap f).Perm ((f a).toList ++ rest) ∧
      ∀ b, ((l.set i b).filterMap f).Perm ((f b).toList ++ rest) := by
  induction l generalizing i with
  | nil => simp at h
  | cons x l ih =>
    have hcons : ∀ (y : α) (m : List α), (y :: m).filterMap f = (f y).toList ++ m.filterMap f := by
      intro y m
      cases hy : f y <;> simp [hy]
    cases i with
    | zero =>
      obtain rfl : x = a := by simpa using h
      exact ⟨l.filterMap f, by rw [hcons], fun b => by rw [set_cons_zero, hcons]⟩
    | succ i =>
      obtain ⟨rest, hl, hset⟩ := ih (by simpa using h)
      refine ⟨(f x).toList ++ rest, ?_, fun b => ?_⟩
      · rw [hcons]
        exact (hl.append_left _).trans (perm_append_comm_assoc _ _ _)
      · rw [set_cons_succ, hcons]
        exact ((hset b).append_left _).trans (perm_append_comm_assoc _ _ _)

theorem zipIdx_set (l : List α) (i : ℕ) (b : α) : (l.set i b).zipIdx = l.zipIdx.set i (b, i) := by
  refine ext_getElem? fun j => ?_
  rw [getElem?_zipIdx, getElem?_set, getElem?_set, getElem?_zipIdx, length_zipIdx, Nat.zero_add]
  split
  · rename_i hij
    subst hij
    split <;> rfl
  · rfl

/-- The same for values that depend on the slot's number. -/
theorem filterMap_zipIdx_set_perm (h : l[i]? = some a) (f : α × ℕ → Option β) :
    ∃ rest, (l.zipIdx.filterMap f).Perm ((f (a, i)).toList ++ rest) ∧
      ∀ b, ((l.set i b).zipIdx.filterMap f).Perm ((f (b, i)).toList ++ rest) := by
  have hi : l.zipIdx[i]? = some (a, i) := by rw [getElem?_zipIdx, h, Nat.zero_add]; rfl
  obtain ⟨rest, hl, hset⟩ := filterMap_set_perm hi f
  exact ⟨rest, hl, fun b => zipIdx_set l i b ▸ hset (b, i)⟩

/-- Overwriting slot `i` moves the number of times `x` is collected. -/
theorem count_filterMap_set_add [DecidableEq β] (h : l[i]? = some a) (f : α → Option β) (b : α)
    (x : β) : ((l.set i b).filterMap f).count x + (f a).toList.count x =
      (l.filterMap f).count x + (f b).toList.count x := by
  obtain ⟨rest, hl, hset⟩ := filterMap_set_perm h f
  rw [(hset b).count_eq, hl.count_eq, count_append, count_append]
  omega

/-- A count is one iff exactly one slot is counted. -/
theorem countP_eq_one_iff {p : α → Bool} :
    l.countP p = 1 ↔ ∃! i : ℕ, ∃ a, l[i]? = some a ∧ p a = true := by
  induction l with
  | nil => simp
  | cons x l ih =>
    rw [countP_cons]
    by_cases hx : p x = true
    · have h0 : l.countP p = 0 ↔ ∀ (i : ℕ) (a : α), l[i]? = some a → ¬ p a = true := by
        rw [countP_eq_zero]
        exact ⟨fun h i a ha => h a (mem_of_getElem? ha), fun h a ha =>
          (getElem?_of_mem ha).elim fun i hi => h i a hi⟩
      simp only [hx, if_true, Nat.add_eq_right, h0]
      constructor
      · intro h
        refine ⟨0, ⟨x, rfl, hx⟩, fun j ⟨a, ha, hp⟩ => ?_⟩
        cases j with
        | zero => rfl
        | succ j => exact absurd hp (h j a (by simpa using ha))
      · rintro ⟨k, -, huniq⟩ i a ha hp
        have h1 := huniq 0 ⟨x, rfl, hx⟩
        have h2 := huniq (i + 1) ⟨a, by simpa using ha, hp⟩
        omega
    · simp only [hx, Bool.false_eq_true, if_false, Nat.add_zero, ih]
      constructor
      · rintro ⟨k, ⟨a, ha, hp⟩, huniq⟩
        refine ⟨k + 1, ⟨a, by simpa using ha, hp⟩, fun j ⟨b, hb, hq⟩ => ?_⟩
        cases j with
        | zero =>
          obtain rfl : x = b := by simpa using hb
          exact absurd hq hx
        | succ j => exact congrArg (· + 1) (huniq j ⟨b, by simpa using hb, hq⟩)
      · rintro ⟨k, ⟨a, ha, hp⟩, huniq⟩
        cases k with
        | zero =>
          obtain rfl : x = a := by simpa using ha
          exact absurd hp hx
        | succ k =>
          refine ⟨k, ⟨a, by simpa using ha, hp⟩, fun j ⟨b, hb, hq⟩ => ?_⟩
          have := huniq (j + 1) ⟨b, by simpa using hb, hq⟩
          omega

/-- The number of slots from which `b` is collected. -/
theorem count_filterMap_eq_one_iff [DecidableEq β] {f : α → Option β} {b : β} :
    (l.filterMap f).count b = 1 ↔ ∃! i : ℕ, (l[i]?).bind f = some b := by
  rw [count_filterMap, countP_eq_one_iff]
  refine existsUnique_congr fun i => ?_
  rw [Option.bind_eq_some_iff]
  simp

end List
