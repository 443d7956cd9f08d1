import Mathlib.Tactic

/-!
# Ledgers

A ledger is a list of entries, each of one party.  Every party is at some stage, and has the
entries of that stage; an event takes entries of one party out, and enters others.

* `Ledger.of`: the entries of one party;
* `Ledger.Kept`: every party has the entries of a stage that fits it;
* `Kept.stage`: what an entry tells about the stage of its party;
* `Kept.exchange`: an event of one party; `Kept.congr`: an event that enters nothing.
-/

namespace Ledger

variable {τ κ σ : Type} [DecidableEq κ] {party : τ → κ} {entries : κ → σ → List τ}
  {Fits Fits' : κ → σ → Prop} {l l' : List τ}

/-- The entries of party `k`. -/
def of (party : τ → κ) (k : κ) (l : List τ) : List τ := l.filter fun x => party x = k

@[simp] theorem mem_of {k : κ} {x : τ} : x ∈ of party k l ↔ x ∈ l ∧ party x = k := by
  simp [of]

/-- Every party has the entries of a stage that fits it. -/
def Kept (party : τ → κ) (entries : κ → σ → List τ) (Fits : κ → σ → Prop) (l : List τ) : Prop :=
  ∀ k, ∃ st, Fits k st ∧ (of party k l).Perm (entries k st)

/-- An entry tells about the stage of its party, and the stage about other entries. -/
theorem Kept.stage (h : Kept party entries Fits l) {x : τ} (hx : x ∈ l) :
    ∃ st, Fits (party x) st ∧ x ∈ entries (party x) st ∧ entries (party x) st ⊆ l := by
  obtain ⟨st, hfits, hperm⟩ := h (party x)
  exact ⟨st, hfits, hperm.subset (mem_of.2 ⟨hx, rfl⟩),
    fun y hy => (mem_of.1 (hperm.symm.subset hy)).1⟩

theorem Kept.congr (h : Kept party entries Fits l) (hperm : l'.Perm l)
    (hfits : ∀ k st, Fits k st → Fits' k st) : Kept party entries Fits' l' := by
  intro k
  obtain ⟨st, hst, hof⟩ := h k
  exact ⟨st, hfits k st hst, (hperm.filter _).trans hof⟩

variable [DecidableEq τ]

theorem count_of (k : κ) (l : List τ) (x : τ) :
    (of party k l).count x = if party x = k then l.count x else 0 := by
  split
  · exact List.count_filter (decide_eq_true ‹_›)
  · exact List.count_eq_zero.2 fun hx => ‹¬ party x = k› (mem_of.1 hx).2

/-- An event of party `k` takes `old` out and enters `new`. -/
theorem Kept.exchange (h : Kept party entries Fits l) (k : κ) (old new : List τ)
    (hcount : ∀ x, l.count x + new.count x = l'.count x + old.count x) (hmem : old ⊆ l)
    (hold : ∀ x ∈ old, party x = k) (hnew : ∀ x ∈ new, party x = k)
    (hothers : ∀ k' ≠ k, ∀ st, Fits k' st → Fits' k' st)
    (hstage : ∀ st, Fits k st → old ⊆ entries k st → ∃ st' more, Fits' k st' ∧
      (entries k st).Perm (old ++ more) ∧ (entries k st').Perm (new ++ more)) :
    Kept party entries Fits' l' := by
  intro k'
  obtain ⟨st, hfits, hperm⟩ := h k'
  by_cases hk : k' = k
  · subst hk
    obtain ⟨st', more, hst', hentries, hentries'⟩ := hstage st hfits fun x hx =>
      hperm.subset (mem_of.2 ⟨hmem hx, hold x hx⟩)
    refine ⟨st', hst', List.perm_iff_count.2 fun x => ?_⟩
    have hx := hperm.count_eq x
    have hbefore := hentries.count_eq x
    have hafter := hentries'.count_eq x
    have hmove := hcount x
    rw [count_of] at hx ⊢
    rw [List.count_append] at hbefore hafter
    split at hx
    · rw [if_pos ‹_›]
      omega
    · have hnone : new.count x = 0 :=
        List.count_eq_zero.2 fun hmem => ‹¬ party x = k'› (hnew x hmem)
      rw [if_neg ‹_›]
      omega
  · refine ⟨st, hothers k' hk st hfits, (List.perm_iff_count.2 fun x => ?_).trans hperm⟩
    rw [count_of, count_of]
    split
    · rename_i hx
      have hnone : ∀ l'' : List τ, (∀ y ∈ l'', party y = k) → l''.count x = 0 := fun l'' hl'' =>
        List.count_eq_zero.2 fun hmem => hk (hx ▸ hl'' x hmem)
      have := hnone old hold
      have := hnone new hnew
      have := hcount x
      omega
    · rfl

end Ledger
