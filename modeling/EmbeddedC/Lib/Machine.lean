import Mathlib.Logic.Function.Basic
import Mathlib.Data.Nat.Notation

/-!
# Machines with partial labelled steps

A machine has initial states and a partial step function: `step s a` is the state after
action `a`, and `none` says that `a` cannot happen in `s` (its party is blocked, or its
guard fails).  Interleavings of several parties are runs of one machine whose actions name
the party.

* `Path C s t`: some run leads from `s` to `t`, every step of which satisfies the condition
  `C` on the state before it and its action;
* `Reachable`, `ReachableUnder C`: reachable from an initial state;
* `ReachableUnder.invariant`: the induction over a run, stated once;
* `run`, `runUnder`: executable runs of given actions, which exhibit paths.
-/

/-- A machine: initial states and a partial step for every action. -/
structure Machine (σ α : Type) where
  init : σ → Prop
  step : σ → α → Option σ

namespace Machine

variable {σ α : Type} {M : Machine σ α} {C D : σ → α → Prop}

/-- A run from `s`, every step of which satisfies `C`. -/
inductive Path (M : Machine σ α) (C : σ → α → Prop) (s : σ) : σ → Prop
  | refl : Path M C s s
  | tail {t u : σ} {a : α} : Path M C s t → C t a → M.step t a = some u → Path M C s u

/-- No condition on the steps. -/
def anyStep (_ : σ) (_ : α) : Prop := True

/-- Reached from an initial state by steps that all satisfy `C`. -/
def ReachableUnder (M : Machine σ α) (C : σ → α → Prop) (s : σ) : Prop :=
  ∃ s₀, M.init s₀ ∧ M.Path C s₀ s

/-- Reached from an initial state. -/
def Reachable (M : Machine σ α) (s : σ) : Prop := M.ReachableUnder anyStep s

theorem Path.mono (h : ∀ s a, C s a → D s a) {s t : σ} (hp : M.Path C s t) : M.Path D s t := by
  induction hp with
  | refl => exact .refl
  | tail _ hc hs ih => exact .tail ih (h _ _ hc) hs

theorem Path.trans {s t u : σ} (h₁ : M.Path C s t) (h₂ : M.Path C t u) : M.Path C s u := by
  induction h₂ with
  | refl => exact h₁
  | tail _ hc hs ih => exact .tail ih hc hs

theorem ReachableUnder.step {s t : σ} {a : α} (h : M.ReachableUnder C s) (hc : C s a)
    (hs : M.step s a = some t) : M.ReachableUnder C t := by
  obtain ⟨s₀, h₀, hp⟩ := h
  exact ⟨s₀, h₀, .tail hp hc hs⟩

theorem ReachableUnder.path {s t : σ} (h : M.ReachableUnder C s) (hp : M.Path C s t) :
    M.ReachableUnder C t := by
  obtain ⟨s₀, h₀, hp₀⟩ := h
  exact ⟨s₀, h₀, hp₀.trans hp⟩

theorem ReachableUnder.mono (h : ∀ s a, C s a → D s a) {s : σ} (hs : M.ReachableUnder C s) :
    M.ReachableUnder D s := by
  obtain ⟨s₀, h₀, hp⟩ := hs
  exact ⟨s₀, h₀, hp.mono h⟩

/-- The new condition may be shown with the help of the old one on the steps before. -/
theorem ReachableUnder.mono_of_reachable (h : ∀ s a, M.ReachableUnder C s → C s a → D s a) {s : σ}
    (hs : M.ReachableUnder C s) : M.ReachableUnder D s := by
  obtain ⟨s₀, h₀, hp⟩ := hs
  refine ⟨s₀, h₀, ?_⟩
  induction hp with
  | refl => exact .refl
  | tail hp hc hstep ih => exact .tail ih (h _ _ ⟨s₀, h₀, hp⟩ hc) hstep

theorem ReachableUnder.reachable {s : σ} (hs : M.ReachableUnder C s) : M.Reachable s :=
  hs.mono fun _ _ _ => trivial

theorem Reachable.step {s t : σ} {a : α} (h : M.Reachable s) (hs : M.step s a = some t) :
    M.Reachable t := ReachableUnder.step h trivial hs

/-- **Invariants of a path.** What holds at its start and is kept by every step holds at its
end; a step may use that its source lies on the path. -/
theorem Path.invariant {I : σ → Prop} {s : σ} (h0 : I s)
    (hstep : ∀ t a u, M.Path C s t → I t → C t a → M.step t a = some u → I u) {t : σ}
    (h : M.Path C s t) : I t := by
  induction h with
  | refl => exact h0
  | tail hp hc hs ih => exact hstep _ _ _ hp ih hc hs

/-- **Invariants of a machine.** What holds initially and is kept by every allowed step holds
in every state reached; a step may use that its source is reached. -/
theorem ReachableUnder.invariant {I : σ → Prop} (hinit : ∀ s, M.init s → I s)
    (hstep : ∀ t a u, M.ReachableUnder C t → I t → C t a → M.step t a = some u → I u) {s : σ}
    (h : M.ReachableUnder C s) : I s := by
  obtain ⟨s₀, h₀, hp⟩ := h
  exact hp.invariant (hinit s₀ h₀) fun t a u ht => hstep t a u ⟨s₀, h₀, ht⟩

/-- The unconditional form of `ReachableUnder.invariant`. -/
theorem Reachable.invariant {I : σ → Prop} (hinit : ∀ s, M.init s → I s)
    (hstep : ∀ t a u, M.Reachable t → I t → M.step t a = some u → I u) {s : σ}
    (h : M.Reachable s) : I s :=
  ReachableUnder.invariant hinit (fun t a u ht hi _ => hstep t a u ht hi) h

/-! ### Executable runs -/

/-- Perform the given actions in turn, as long as each satisfies `C` and is enabled. -/
def runUnder (M : Machine σ α) (C : σ → α → Prop) [∀ s a, Decidable (C s a)] (s : σ) :
    List α → Option σ
  | [] => some s
  | a :: as => if C s a then (M.step s a).bind fun t => M.runUnder C t as else none

instance (s : σ) (a : α) : Decidable (anyStep s a) := .isTrue trivial

/-- Perform the given actions in turn, as long as each is enabled. -/
def run (M : Machine σ α) (s : σ) (as : List α) : Option σ := M.runUnder anyStep s as

theorem run_cons (s : σ) (a : α) (as : List α) :
    M.run s (a :: as) = (M.step s a).bind fun t => M.run t as := by
  have hany : anyStep s a := trivial
  rw [run, runUnder, if_pos hany]
  rfl

theorem path_of_runUnder [∀ s a, Decidable (C s a)] {s t : σ} {as : List α}
    (h : M.runUnder C s as = some t) : M.Path C s t := by
  suffices ∀ r, M.Path C r s → M.Path C r t from this s .refl
  induction as generalizing s with
  | nil => cases h; exact fun _ hr => hr
  | cons a as ih =>
    intro r hr
    rw [runUnder] at h
    split at h
    · obtain ⟨u, hu, hrun⟩ := Option.bind_eq_some_iff.1 h
      exact ih hrun r (.tail hr ‹_› hu)
    · cases h

/-- A state exhibited by running actions from an initial state is reached. -/
theorem reachableUnder_of_run [∀ s a, Decidable (C s a)] {s t : σ} {as : List α}
    (h₀ : M.init s) (h : M.runUnder C s as = some t) : M.ReachableUnder C t :=
  ⟨s, h₀, path_of_runUnder h⟩

theorem reachable_of_run {s t : σ} {as : List α} (h₀ : M.init s) (h : M.run s as = some t) :
    M.Reachable t := reachableUnder_of_run h₀ h

end Machine
