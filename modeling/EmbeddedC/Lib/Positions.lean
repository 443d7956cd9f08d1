import Mathlib.Tactic

/-!
# Subsequences of a growing sequence

A sequencer appends entries to a log and passes them on; a receiver may miss entries.  What
a receiver has is described by the positions of its entries in the log: they are a subsequence
of `0, …, n - 1` iff the receiver has the entries in the order of the log, each at most once.

* `PositionsIn n q`: the positions `q` are a subsequence of the first `n`;
* `PositionsIn.concat`: the receiver gets the newest entry;
* `PositionsIn.agree`: two receivers have any two common entries in the same order.
-/

/-- `q` is a subsequence of the positions below `n`. -/
def PositionsIn (n : ℕ) (q : List ℕ) : Prop := q.Sublist (List.range n)

namespace PositionsIn

variable {n m i j : ℕ} {p q : List ℕ}

theorem nil : PositionsIn n [] := List.nil_sublist _

theorem of_sublist (h : PositionsIn n q) (hp : p.Sublist q) : PositionsIn n p := hp.trans h

theorem mono (h : PositionsIn n q) (hnm : n ≤ m) : PositionsIn m q :=
  h.trans (List.range_sublist.2 hnm)

/-- Without the newest position, the positions are among the earlier ones. -/
theorem of_succ (h : PositionsIn (n + 1) q) (hn : n ∉ q) : PositionsIn n q := by
  unfold PositionsIn at h
  rw [List.range_succ, List.sublist_append_iff] at h
  obtain ⟨l, r, rfl, hl, hr⟩ := h
  cases r with
  | nil => simpa [PositionsIn] using hl
  | cons a r =>
    have ha : a ∈ [n] := hr.subset List.mem_cons_self
    exact absurd (List.mem_append_right l (List.mem_singleton.1 ha ▸ List.mem_cons_self)) hn

/-- A receiver that does not have the newest entry gets it. -/
theorem concat (h : PositionsIn (n + 1) q) (hn : n ∉ q) : PositionsIn (n + 1) (q ++ [n]) := by
  unfold PositionsIn
  rw [List.range_succ]
  exact (h.of_succ hn).append (List.Sublist.refl [n])

/-- Two receivers have any two common entries in the same order. -/
theorem agree (hp : PositionsIn n p) (hq : PositionsIn n q) (hij : [i, j].Sublist p)
    (hi : i ∈ q) (hj : j ∈ q) : [i, j].Sublist q := by
  have hlt : i < j := by
    have h : [i, j].Pairwise (· < ·) := List.pairwise_lt_range.sublist (hij.trans hp)
    simpa using h
  have hsorted : q.Pairwise (· < ·) := List.pairwise_lt_range.sublist hq
  obtain ⟨l, r, rfl⟩ := List.append_of_mem hi
  have hjr : j ∈ r := by
    rw [List.pairwise_append] at hsorted
    obtain hj | hj := List.mem_append.1 hj
    · have := hsorted.2.2 j hj i List.mem_cons_self
      omega
    · obtain rfl | hj := List.mem_cons.1 hj
      · exact absurd hlt (lt_irrefl _)
      · exact hj
  exact ((List.singleton_sublist.2 hjr).cons_cons i).trans (List.sublist_append_right l _)

end PositionsIn
