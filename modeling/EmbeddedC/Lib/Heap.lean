import Mathlib.Logic.Function.Basic
import Mathlib.Data.Nat.Notation

/-!
# Heaps of arrays

A heap gives the elements of the live block at an address, and `none` where no live block begins;
an element that was never written is `none`.  Where `malloc` puts a block, and whether `realloc`
leaves it in place, is an argument: a new place must not be that of a live block.

* `malloc`, `realloc`, `load`, `store`: each is `none` where it is undefined;
* `capacity`: the number of elements of a live block;
* `load_realloc`, `realloc_of_ne`: elements move with the block, and the old place is dead.
-/

/-- The live blocks by their addresses. -/
abbrev Heap (α : Type) : Type := ℕ → Option (List (Option α))

namespace Heap

variable {α : Type} {H H' : Heap α} {p q n i j : ℕ}

/-- A block of `n` elements at `place`. -/
def malloc (H : Heap α) (n place : ℕ) : Option (Heap α) :=
  match H place with
  | none => some (Function.update H place (some (List.replicate n none)))
  | some _ => none

/-- The first `n` elements, and as many unwritten ones as are missing. -/
def resize (n : ℕ) (elems : List (Option α)) : List (Option α) :=
  elems.take n ++ List.replicate (n - elems.length) none

/-- The block at `p` gets `n` elements, and is afterwards at `place`. -/
def realloc (H : Heap α) (p n place : ℕ) : Option (Heap α) :=
  match H p with
  | none => none
  | some elems =>
    if place = p ∨ H place = none then
      some (Function.update (Function.update H p none) place (some (resize n elems)))
    else none

/-- Element `i` of the block at `p`. -/
def load (H : Heap α) (p i : ℕ) : Option α := ((H p).bind (·[i]?)).join

/-- Write element `i` of the block at `p`. -/
def store (H : Heap α) (p i : ℕ) (a : α) : Option (Heap α) :=
  match H p with
  | none => none
  | some elems =>
    if i < elems.length then some (Function.update H p (some (elems.set i (some a)))) else none

/-- The number of elements of the block at `p`. -/
def capacity (H : Heap α) (p : ℕ) : Option ℕ := (H p).map List.length

/-- Outside of a block there is nothing. -/
theorem load_of_le {c : ℕ} (hc : H.capacity p = some c) (hi : c ≤ i) : H.load p i = none := by
  obtain ⟨elems, helems, rfl⟩ := Option.map_eq_some_iff.1 hc
  rw [load, helems, Option.bind_some, List.getElem?_eq_none hi]
  rfl

/-- Where no live block begins there is nothing. -/
theorem load_of_dead (hc : H.capacity p = none) (i : ℕ) : H.load p i = none := by
  rw [capacity, Option.map_eq_none_iff] at hc
  rw [load, hc]
  rfl

/-! ### `malloc` -/

theorem capacity_malloc (h : H.malloc n p = some H') : H'.capacity p = some n := by
  unfold malloc at h
  split at h
  · obtain rfl := Option.some.inj h
    rw [capacity, Function.update_self, Option.map_some, List.length_replicate]
  · cases h

/-! ### `realloc` -/

@[simp]
theorem length_resize (n : ℕ) (elems : List (Option α)) : (resize n elems).length = n := by
  rw [resize, List.length_append, List.length_take, List.length_replicate]
  omega

theorem getElem?_resize {elems : List (Option α)} (hi : i < elems.length) (hn : i < n) :
    (resize n elems)[i]? = elems[i]? := by
  rw [resize, List.getElem?_append_left (by rw [List.length_take]; omega),
    List.getElem?_take_of_lt hn]

/-- What `realloc` does to the block. -/
theorem realloc_eq (h : H.realloc p n q = some H') :
    ∃ elems, H p = some elems ∧ H' q = some (resize n elems) ∧ (q ≠ p → H' p = none) := by
  unfold realloc at h
  split at h
  · cases h
  · rename_i elems helems
    split at h
    · obtain rfl := Option.some.inj h
      refine ⟨elems, helems, Function.update_self .., fun hne => ?_⟩
      rw [Function.update_of_ne hne.symm, Function.update_self]
    · cases h

theorem capacity_realloc (h : H.realloc p n q = some H') : H'.capacity q = some n := by
  obtain ⟨elems, -, hq, -⟩ := realloc_eq h
  rw [capacity, hq, Option.map_some, length_resize]

/-- The elements there is still room for are kept. -/
theorem load_realloc (h : H.realloc p n q = some H') {c : ℕ} (hc : H.capacity p = some c)
    (hi : i < c) (hn : i < n) : H'.load q i = H.load p i := by
  obtain ⟨elems, hp, hq, -⟩ := realloc_eq h
  rw [capacity, hp, Option.map_some] at hc
  obtain rfl := Option.some.inj hc
  rw [load, load, hp, hq, Option.bind_some, Option.bind_some, getElem?_resize hi hn]

/-- The elements that are added were never written. -/
theorem load_realloc_new (h : H.realloc p n q = some H') {c : ℕ} (hc : H.capacity p = some c)
    (hi : c ≤ i) : H'.load q i = none := by
  obtain ⟨elems, hp, hq, -⟩ := realloc_eq h
  rw [capacity, hp, Option.map_some] at hc
  obtain rfl := Option.some.inj hc
  rw [load, hq, Option.bind_some, resize, List.getElem?_append_right (by
    rw [List.length_take]
    omega), List.getElem?_replicate]
  split <;> rfl

/-- A block that was moved is no longer at its old place. -/
theorem realloc_of_ne (h : H.realloc p n q = some H') (hne : q ≠ p) : H'.capacity p = none := by
  obtain ⟨-, -, -, hdead⟩ := realloc_eq h
  rw [capacity, hdead hne, Option.map_none]

/-! ### `store` -/

/-- Inside a live block there is room to write. -/
theorem exists_store {c : ℕ} (hc : H.capacity p = some c) (hi : i < c) (a : α) :
    ∃ H', H.store p i a = some H' := by
  obtain ⟨elems, helems, rfl⟩ := Option.map_eq_some_iff.1 hc
  refine ⟨Function.update H p (some (elems.set i (some a))), ?_⟩
  unfold store
  rw [helems]
  exact if_pos hi

theorem store_eq {a : α} (h : H.store p i a = some H') :
    ∃ elems, H p = some elems ∧ i < elems.length ∧ H' p = some (elems.set i (some a)) := by
  unfold store at h
  split at h
  · cases h
  · rename_i elems helems
    split at h
    · rename_i hi
      obtain rfl := Option.some.inj h
      exact ⟨elems, helems, hi, Function.update_self ..⟩
    · cases h

theorem capacity_store {a : α} (h : H.store p i a = some H') : H'.capacity p = H.capacity p := by
  obtain ⟨elems, hp, -, hp'⟩ := store_eq h
  rw [capacity, capacity, hp, hp', Option.map_some, Option.map_some, List.length_set]

theorem load_store_self {a : α} (h : H.store p i a = some H') : H'.load p i = some a := by
  obtain ⟨elems, -, hi, hp'⟩ := store_eq h
  rw [load, hp', Option.bind_some, List.getElem?_set_self hi]
  rfl

theorem load_store_ne {a : α} (h : H.store p i a = some H') (hne : j ≠ i) :
    H'.load p j = H.load p j := by
  obtain ⟨elems, hp, -, hp'⟩ := store_eq h
  rw [load, load, hp, hp', Option.bind_some, Option.bind_some, List.getElem?_set_ne hne.symm]

end Heap
