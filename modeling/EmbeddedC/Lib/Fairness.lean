import EmbeddedC.Lib.Machine
import Mathlib.Tactic

/-!
# What a fair run of a machine comes to

A machine can have steps that lead nowhere, as the rounds of a loop that polls, and a run can be
made of them alone.  Something comes about only if no party is kept waiting for ever.

* `Run C s`: an endless run from `s`, at some times of which nothing happens;
* `Enabled`, `Run.Fair`: a party that can act, and a run in which each party acts again and again
  unless it is blocked;
* `Run.eventually`: in every state some party can help, and until it does, nothing is lost;
* `exists_fair`: a finite run after which all parties are blocked can be gone on with fairly.

`owner a` is the party that takes action `a`; fairness asks nothing of actions without an owner.
-/

namespace Machine

variable {σ α ι : Type} {M : Machine σ α} {C : σ → α → Prop} {owner : α → Option ι} {s t : σ}

/-! ### Endless runs -/

/-- What happens at one time: an allowed step, or nothing. -/
def Next (M : Machine σ α) (C : σ → α → Prop) (s : σ) : Option α → σ → Prop
  | some a, t => C s a ∧ M.step s a = some t
  | none, t => t = s

/-- An endless run from `s`. -/
structure Run (M : Machine σ α) (C : σ → α → Prop) (s : σ) where
  state : ℕ → σ
  action : ℕ → Option α
  start : state 0 = s
  next : ∀ n, M.Next C (state n) (action n) (state (n + 1))

theorem Run.path (r : M.Run C s) (n : ℕ) : M.Path C s (r.state n) := by
  induction n with
  | zero =>
    rw [r.start]
    exact .refl
  | succ n ih =>
    have hnext := r.next n
    cases ha : r.action n with
    | none =>
      rw [ha] at hnext
      rwa [show r.state (n + 1) = r.state n from hnext]
    | some a =>
      rw [ha] at hnext
      exact .tail ih hnext.1 hnext.2

/-- The run of which `r` is what comes after a first step. -/
def Run.cons {a : α} (hc : C s a) (hs : M.step s a = some t) (r : M.Run C t) : M.Run C s where
  state
    | 0 => s
    | n + 1 => r.state n
  action
    | 0 => some a
    | n + 1 => r.action n
  start := rfl
  next
    | 0 => ⟨hc, hs.trans (congrArg some r.start.symm)⟩
    | n + 1 => r.next n

/-- Nothing happens. -/
def Run.rest (s : σ) : M.Run C s where
  state _ := s
  action _ := none
  start := rfl
  next _ := rfl

/-! ### Fairness -/

/-- Party `p` can take an allowed step. -/
def Enabled (M : Machine σ α) (C : σ → α → Prop) (owner : α → Option ι) (p : ι) (s : σ) : Prop :=
  ∃ a t, owner a = some p ∧ C s a ∧ M.step s a = some t

/-- No party can go on for ever without a step of its own. -/
def Run.Fair (owner : α → Option ι) (r : M.Run C s) : Prop :=
  ∀ p n, ∃ m, n ≤ m ∧
    ((∃ a, r.action m = some a ∧ owner a = some p) ∨ ¬ M.Enabled C owner p (r.state m))

theorem Run.Fair.cons {a : α} (hc : C s a) (hs : M.step s a = some t) {r : M.Run C t}
    (h : r.Fair owner) : (Run.cons hc hs r).Fair owner := by
  intro p n
  obtain ⟨m, hnm, hm⟩ := h p n
  exact ⟨m + 1, Nat.le_succ_of_le hnm, hm⟩

theorem Run.Fair.rest (h : ∀ p, ¬ M.Enabled C owner p s) :
    (Run.rest s : M.Run C s).Fair owner := fun p n => ⟨n, le_rfl, .inr (h p)⟩

/-- A run that ends with all parties blocked can be gone on with. -/
theorem exists_fair (hpath : M.Path C s t) (hrest : ∀ p, ¬ M.Enabled C owner p t) :
    ∃ r : M.Run C s, r.Fair owner := by
  suffices ∀ u, M.Path C s u → ∀ r : M.Run C u, r.Fair owner → ∃ r : M.Run C s, r.Fair owner from
    this t hpath (Run.rest t) (Run.Fair.rest hrest)
  intro u hu
  induction hu with
  | refl => exact fun r hfair => ⟨r, hfair⟩
  | tail _ hc hs ih => exact fun r hfair => ih (Run.cons hc hs r) (hfair.cons hc hs)

/-! ### Helpers -/

section Helpers

variable {I P : σ → Prop} {r : M.Run C s} {measure : σ → ℕ} {delay : ι → σ → ℕ}
  {Helps : ι → σ → Prop}

/-- What a step can do while party `p` helps: it comes nearer to the end, or else nearer to the
party's next useful step, or it leaves the party where it is. -/
def Advances (M : Machine σ α) (C : σ → α → Prop) (owner : α → Option ι) (measure : σ → ℕ)
    (delay : ι → σ → ℕ) (Helps : ι → σ → Prop) (p : ι) (s : σ) : Prop :=
  ∀ a t, C s a → M.step s a = some t → measure t < measure s ∨
    measure t = measure s ∧ Helps p t ∧
      (delay p t < delay p s ∨ delay p t = delay p s ∧ owner a ≠ some p)

/-- One time of a run. -/
theorem Run.advance {p : ι} {n : ℕ} (h : M.Advances C owner measure delay Helps p (r.state n))
    (hp : Helps p (r.state n)) : measure (r.state (n + 1)) < measure (r.state n) ∨
      measure (r.state (n + 1)) = measure (r.state n) ∧ Helps p (r.state (n + 1)) ∧
        (delay p (r.state (n + 1)) < delay p (r.state n) ∨
          delay p (r.state (n + 1)) = delay p (r.state n) ∧
            ∀ a, r.action n = some a → owner a ≠ some p) := by
  have hnext := r.next n
  cases ha : r.action n with
  | none =>
    rw [ha] at hnext
    rw [show r.state (n + 1) = r.state n from hnext]
    exact .inr ⟨rfl, hp, .inr ⟨rfl, by simp⟩⟩
  | some a =>
    rw [ha] at hnext
    simpa using h a _ hnext.1 hnext.2

/-- A party that helps brings the run nearer to the end. -/
theorem Run.lower (hfair : r.Fair owner) (hI : ∀ n, I (r.state n))
    (henabled : ∀ s p, I s → Helps p s → M.Enabled C owner p s)
    (hstep : ∀ s p, I s → Helps p s → M.Advances C owner measure delay Helps p s) {p : ι} {n : ℕ}
    (hp : Helps p (r.state n)) : ∃ m, measure (r.state m) < measure (r.state n) := by
  induction hd : delay p (r.state n) using Nat.strong_induction_on generalizing n with
  | _ d ih =>
    by_contra hno
    -- otherwise the party only waits, as soon as its delay does not get smaller either
    have hwait : ∀ j, measure (r.state j) = measure (r.state n) → Helps p (r.state j) →
        delay p (r.state j) = d → measure (r.state (j + 1)) = measure (r.state n) ∧
          Helps p (r.state (j + 1)) ∧ delay p (r.state (j + 1)) = d ∧
            ∀ a, r.action j = some a → owner a ≠ some p := by
      intro j hmeasure hhelps hdelay
      rcases r.advance (hstep _ p (hI j) hhelps) hhelps with hlt | ⟨heq, hhelps', hlt | hother⟩
      · exact absurd ⟨j + 1, hmeasure ▸ hlt⟩ hno
      · obtain ⟨m, hm⟩ := ih _ (hdelay ▸ hlt) hhelps' rfl
        exact absurd ⟨m, heq.trans hmeasure ▸ hm⟩ hno
      · exact ⟨heq.trans hmeasure, hhelps', hother.1.trans hdelay, hother.2⟩
    have hkept : ∀ j, n ≤ j → measure (r.state j) = measure (r.state n) ∧ Helps p (r.state j) ∧
        delay p (r.state j) = d := by
      intro j hj
      induction j, hj using Nat.le_induction with
      | base => exact ⟨rfl, hp, hd⟩
      | succ j _ ih =>
        obtain ⟨hmeasure, hhelps, hdelay, -⟩ := hwait j ih.1 ih.2.1 ih.2.2
        exact ⟨hmeasure, hhelps, hdelay⟩
    obtain ⟨m, hnm, hm⟩ := hfair p n
    obtain ⟨hmeasure, hhelps, hdelay⟩ := hkept m hnm
    rcases hm with ⟨a, ha, howner⟩ | hblocked
    · exact (hwait m hmeasure hhelps hdelay).2.2.2 a ha howner
    · exact hblocked (henabled _ p (hI m) hhelps)

/-- **Eventually.** As long as `P` does not hold, some party helps, and it is able to. -/
theorem Run.eventually (hfair : r.Fair owner) (hI : ∀ n, I (r.state n))
    (henabled : ∀ s p, I s → Helps p s → M.Enabled C owner p s)
    (hstep : ∀ s p, I s → Helps p s → M.Advances C owner measure delay Helps p s)
    (hhelps : ∀ s, I s → ¬ P s → ∃ p, Helps p s) : ∃ n, P (r.state n) := by
  suffices ∀ k n, measure (r.state n) = k → ∃ m, P (r.state m) from this _ 0 rfl
  intro k
  induction k using Nat.strong_induction_on with
  | _ k ih =>
    intro n hn
    by_cases hP : P (r.state n)
    · exact ⟨n, hP⟩
    · obtain ⟨p, hp⟩ := hhelps _ (hI n) hP
      obtain ⟨m, hm⟩ := Run.lower hfair hI henabled hstep hp
      exact ih _ (hn ▸ hm) m rfl

end Helpers

end Machine
