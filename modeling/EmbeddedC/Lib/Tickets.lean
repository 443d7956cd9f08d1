import Mathlib.Tactic

/-!
# Tickets

A dispenser gives out the numbers `1, 2, …` one after the other.  The tickets in circulation
pass through queues and hands; some may get lost, but none is copied.

* `Tickets.Step`: a ticket moves, the next one is given out, or one is dropped, which is possible
  only under a condition;
* `Tickets.Valid`: no ticket is in two places, and all were given out;
* `Tickets.Complete`: no ticket is missing.
-/

namespace Tickets

/-- One step, from `n` tickets given out and `ts` in circulation; tickets are dropped only if
`dropped` holds. -/
inductive Step (dropped : Prop) (n : ℕ) (ts : List ℕ) : ℕ → List ℕ → Prop
  | move {ts' : List ℕ} (h : ts'.Perm ts) : Step dropped n ts n ts'
  | give {ts' : List ℕ} (h : ts'.Perm ((n + 1) :: ts)) : Step dropped n ts (n + 1) ts'
  | drop {ts' : List ℕ} {k : ℕ} (hdropped : dropped) (h : ts.Perm (k :: ts')) :
      Step dropped n ts n ts'

/-- The tickets in circulation are different ones that were given out. -/
structure Valid (n : ℕ) (ts : List ℕ) : Prop where
  nodup : ts.Nodup
  given : ∀ k ∈ ts, 0 < k ∧ k ≤ n

/-- Every ticket given out is in circulation. -/
def Complete (n : ℕ) (ts : List ℕ) : Prop := ∀ k, 0 < k → k ≤ n → k ∈ ts

variable {dropped : Prop} {n n' : ℕ} {ts ts' : List ℕ}

theorem valid_nil : Valid 0 [] := ⟨List.nodup_nil, by simp⟩

theorem complete_nil : Complete 0 [] := fun k hk hk' => by omega

theorem Step.valid (hs : Step dropped n ts n' ts') (h : Valid n ts) : Valid n' ts' := by
  cases hs with
  | move hperm => exact ⟨hperm.nodup_iff.2 h.nodup, fun k hk => h.given k (hperm.mem_iff.1 hk)⟩
  | give hperm =>
    constructor
    · refine hperm.nodup_iff.2 (List.nodup_cons.2 ⟨fun hmem => ?_, h.nodup⟩)
      have := h.given _ hmem
      omega
    · intro k hk
      obtain rfl | hk := List.mem_cons.1 (hperm.mem_iff.1 hk)
      · omega
      · have := h.given k hk
        omega
  | drop _ hperm =>
    exact ⟨(List.nodup_cons.1 (hperm.nodup_iff.1 h.nodup)).2,
      fun k hk => h.given k (hperm.mem_iff.2 (List.mem_cons_of_mem _ hk))⟩

/-- A step that cannot drop a ticket keeps them all. -/
theorem Step.complete (hs : Step dropped n ts n' ts') (hd : ¬ dropped) (h : Complete n ts) :
    Complete n' ts' := by
  cases hs with
  | move hperm => exact fun k h0 hk => hperm.mem_iff.2 (h k h0 hk)
  | give hperm =>
    intro k h0 hk
    refine hperm.mem_iff.2 ?_
    by_cases hkn : k = n + 1
    · exact hkn ▸ List.mem_cons_self
    · exact List.mem_cons_of_mem _ (h k h0 (by omega))
  | drop hdropped => exact absurd hdropped hd

theorem Step.mono {dropped' : Prop} (hs : Step dropped n ts n' ts') (h : dropped → dropped') :
    Step dropped' n ts n' ts' := by
  cases hs with
  | move hperm => exact .move hperm
  | give hperm => exact .give hperm
  | drop hdropped hperm => exact .drop (h hdropped) hperm

/-- The step leaves other tickets alone. -/
theorem Step.append_right (hs : Step dropped n ts n' ts') (others : List ℕ) :
    Step dropped n (ts ++ others) n' (ts' ++ others) := by
  cases hs with
  | move hperm => exact .move (hperm.append_right others)
  | give hperm => exact .give (hperm.append_right others)
  | drop hdropped hperm => exact .drop hdropped (hperm.append_right others)

end Tickets
