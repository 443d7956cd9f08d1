import EmbeddedC.Lib.Machine
import Mathlib.Tactic

/-!
# What a machine cannot avoid

Whatever order the steps of the parties are taken in, some things come about.  A step that changes
nothing, as a poll that fails, does not count.

* `Moves`, `Rests`: a step that changes the state, and a state without one;
* `Inevitable P`: a state in which `P` holds is reached on every run that goes on as long as
  something can change;
* `inevitable_of_measure`: something can change until `P` holds, and every change is towards it;
* `Inevitable.of_rests`: a run that ends ends where `P` holds, if `P` is kept;
* `Diamond`, `descent`, `inevitable_of_diamond`: where two changes never exclude each other, one run
  that ends stands for all of them.
-/

namespace Machine

variable {σ α : Type} {M : Machine σ α} {I P Q : σ → Prop} {s t u f : σ} {n : ℕ}

/-- A step that changes the state. -/
def Moves (M : Machine σ α) (s t : σ) : Prop := t ≠ s ∧ ∃ a, M.step s a = some t

/-- Nothing can change any more. -/
def Rests (M : Machine σ α) (s : σ) : Prop := ∀ t, ¬ M.Moves s t

theorem Path.single {C : σ → α → Prop} {a : α} (hc : C s a) (h : M.step s a = some t) :
    M.Path C s t := .tail .refl hc h

theorem Reachable.moves (h : M.Reachable s) (hst : M.Moves s t) : M.Reachable t := by
  obtain ⟨-, a, ha⟩ := hst
  exact h.step ha

/-- `P` comes about on every run that goes on as long as something can change. -/
inductive Inevitable (M : Machine σ α) (P : σ → Prop) : σ → Prop
  | now {s : σ} (h : P s) : Inevitable M P s
  | next {s : σ} (hex : ∃ t, M.Moves s t) (hall : ∀ t, M.Moves s t → Inevitable M P t) :
    Inevitable M P s

theorem Inevitable.mono (h : M.Inevitable P s) (hPQ : ∀ s, P s → Q s) : M.Inevitable Q s := by
  induction h with
  | now hP => exact .now (hPQ _ hP)
  | next hex _ ih => exact .next hex ih

/-- One thing after another. -/
theorem Inevitable.trans (h : M.Inevitable P s) (hPQ : ∀ s, P s → M.Inevitable Q s) :
    M.Inevitable Q s := by
  induction h with
  | now hP => exact hPQ _ hP
  | next hex _ ih => exact .next hex ih

/-- What comes about is a state that is reached. -/
theorem Inevitable.and_reachable (h : M.Inevitable P s) (hs : M.Reachable s) :
    M.Inevitable (fun t => P t ∧ M.Reachable t) s := by
  induction h with
  | now hP => exact .now ⟨hP, hs⟩
  | next hex _ ih => exact .next hex fun t ht => ih t ht (hs.moves ht)

/-- What is kept by every change stays inevitable along a run. -/
theorem Inevitable.path (h : M.Inevitable P s) (hkeep : ∀ s t, P s → M.Moves s t → P t)
    {C : σ → α → Prop} (hpath : M.Path C s t) : M.Inevitable P t := by
  refine hpath.invariant (I := M.Inevitable P) h fun u a v _ hu _ hstep => ?_
  by_cases hne : v = u
  · exact hne ▸ hu
  · have hmove : M.Moves u v := ⟨hne, a, hstep⟩
    cases hu with
    | now hP => exact .now (hkeep u v hP hmove)
    | next _ hall => exact hall v hmove

/-- It holds where a run ends. -/
theorem Inevitable.of_rests (h : M.Inevitable P s) (hkeep : ∀ s t, P s → M.Moves s t → P t)
    {C : σ → α → Prop} (hpath : M.Path C s t) (hrest : M.Rests t) : P t := by
  cases h.path hkeep hpath with
  | now hP => exact hP
  | next hex _ =>
    obtain ⟨v, hv⟩ := hex
    exact absurd hv (hrest v)

/-- `P` can come about. -/
theorem Inevitable.exists_path (h : M.Inevitable P s) : ∃ t, M.Path anyStep s t ∧ P t := by
  induction h with
  | now hP => exact ⟨_, .refl, hP⟩
  | next hex _ ih =>
    obtain ⟨t, hne, a, ha⟩ := hex
    obtain ⟨u, hpath, hu⟩ := ih t ⟨hne, a, ha⟩
    exact ⟨u, (Path.single trivial ha).trans hpath, hu⟩

/-- **Progress.** Something can change until `P` holds, and every change makes `measure` smaller. -/
theorem inevitable_of_measure (measure : σ → ℕ)
    (hprogress : ∀ s, I s → ¬ P s → ∃ t, M.Moves s t)
    (hmove : ∀ s t, I s → M.Moves s t → I t ∧ measure t < measure s) (hs : I s) :
    M.Inevitable P s := by
  induction hn : measure s using Nat.strong_induction_on generalizing s with
  | _ n ih =>
    by_cases hP : P s
    · exact .now hP
    · refine .next (hprogress s hs hP) fun t ht => ?_
      obtain ⟨htI, hlt⟩ := hmove s t hs ht
      exact ih (measure t) (hn ▸ hlt) htI rfl

/-! ### Changes that do not exclude each other -/

/-- `n` changes. -/
inductive Changes (M : Machine σ α) : ℕ → σ → σ → Prop
  | zero {s : σ} : Changes M 0 s s
  | succ {n : ℕ} {s t u : σ} (h : M.Moves s t) (hrest : Changes M n t u) : Changes M (n + 1) s u

theorem Changes.trans {m : ℕ} (h : M.Changes m s t) (h' : M.Changes n t u) :
    M.Changes (m + n) s u := by
  induction h with
  | zero => rwa [Nat.zero_add]
  | @succ k _ _ _ hmove _ ih =>
    rw [Nat.add_right_comm]
    exact .succ hmove (ih h')

theorem Changes.path (h : M.Changes n s t) : M.Path anyStep s t := by
  induction h with
  | zero => exact .refl
  | succ hmove _ ih =>
    obtain ⟨-, a, ha⟩ := hmove
    exact (Path.single trivial ha).trans ih

/-- Two different changes can be made one after the other, in both orders. -/
def Diamond (M : Machine σ α) (I : σ → Prop) : Prop :=
  ∀ s t u, I s → M.Moves s t → M.Moves s u → t = u ∨ ∃ v, M.Moves t v ∧ M.Moves u v

/-- **Descent.** When some run of `n` changes ends, any first change is one of `n` that lead to its
end. -/
theorem descent (hd : M.Diamond I) (hI : ∀ s t, I s → M.Moves s t → I t) (hs : I s)
    (hrun : M.Changes n s f) (hrest : M.Rests f) (hst : M.Moves s t) :
    ∃ m, n = m + 1 ∧ M.Changes m t f := by
  induction hrun generalizing t with
  | zero => exact absurd hst (hrest t)
  | @succ n s u _ hsu hrun ih =>
    obtain rfl | ⟨v, htv, huv⟩ := hd s t u hs hst hsu
    · exact ⟨n, rfl, hrun⟩
    · obtain ⟨m, rfl, hv⟩ := ih (hI s u hs hsu) hrest huv
      exact ⟨m + 1, rfl, .succ htv hv⟩

/-- **One run stands for all.** -/
theorem inevitable_of_diamond (hd : M.Diamond I) (hI : ∀ s t, I s → M.Moves s t → I t) (hs : I s)
    (hrun : M.Changes n s f) (hrest : M.Rests f) : M.Inevitable (fun t => t = f) s := by
  induction n generalizing s with
  | zero =>
    cases hrun
    exact .now rfl
  | succ n ih =>
    refine .next ?_ fun t hst => ?_
    · cases hrun with
      | succ hmove _ => exact ⟨_, hmove⟩
    · obtain ⟨m, hm, ht⟩ := descent hd hI hs hrun hrest hst
      obtain rfl := Nat.succ_injective hm
      exact ih (hI s t hs hst) ht

end Machine
