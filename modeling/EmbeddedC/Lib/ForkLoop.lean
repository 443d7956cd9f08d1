import Mathlib.Data.List.Range

/-!
# Loops that fork

A process goes through a loop; in every round it forks a child that tries to become another program,
and waits for it.  A child that fails stays in the loop, and goes on with the next round itself.
The waiting makes the order of the attempts that of the program text.

* `ForkLoop`, `run`: what the child and those that stay do to their state, and all attempts;
* `length_le_run`, `length_lt_run`, `run_eq`: how many attempts there are, and when one a round;
* `forall_run`, `exists_run`, `exists_run_failed`: invariants of all processes, the attempts of the
  process that entered the loop, and those of a child that failed.
-/

/-- What a child does to its copy of the state before the attempt, and what every process that stays
in the loop does at the end of a round. -/
structure ForkLoop (σ : Type) where
  enter : ℕ → σ → σ
  leave : ℕ → σ → σ

namespace ForkLoop

variable {σ : Type}

/-- An attempt: the round, the process that forked, given by the rounds in which it and its
ancestors in the loop were forked themselves, and the state of the child. -/
structure Attempt (σ : Type) where
  index : ℕ
  parent : List ℕ
  state : σ

/-- The attempts of the `left` rounds from `index` on, with all that failed children go on to do. -/
def run (L : ForkLoop σ) (fails : ℕ → Bool) : ℕ → ℕ → List ℕ → σ → List (Attempt σ)
  | 0, _, _, _ => []
  | left + 1, index, proc, s =>
    let child := L.enter index s
    ⟨index, proc, child⟩ ::
      ((if fails index then L.run fails left (index + 1) (index :: proc) (L.leave index child)
        else []) ++ L.run fails left (index + 1) proc (L.leave index s))

variable {L : ForkLoop σ} {fails : ℕ → Bool} {left index : ℕ} {proc : List ℕ} {s : σ}

/-- Every round has its attempt. -/
theorem length_le_run : left ≤ (L.run fails left index proc s).length := by
  induction left generalizing index proc s with
  | zero => exact Nat.zero_le _
  | succ left ih =>
    rw [run, List.length_cons, List.length_append]
    have hrest : left ≤ (L.run fails left (index + 1) proc (L.leave index s)).length := ih
    omega

/-- A failure before the last round causes further attempts. -/
theorem length_lt_run {i : ℕ} (hfail : fails i = true) (hle : index ≤ i)
    (hlt : i + 1 < index + left) : left < (L.run fails left index proc s).length := by
  induction left generalizing index proc s with
  | zero => omega
  | succ left ih =>
    rw [run, List.length_cons, List.length_append]
    obtain rfl | hne := eq_or_ne i index
    · rw [if_pos hfail]
      have hchild : left ≤ (L.run fails left (i + 1) (i :: proc)
        (L.leave i (L.enter i s))).length := length_le_run
      have hrest : left ≤ (L.run fails left (i + 1) proc (L.leave i s)).length := length_le_run
      omega
    · have hrest : left < (L.run fails left (index + 1) proc (L.leave index s)).length :=
        ih (by omega) (by omega)
      omega

/-- Without such a failure there is one attempt a round, and none by a child. -/
theorem run_eq (hok : ∀ i, index ≤ i → i + 1 < index + left → fails i = false) :
    (L.run fails left index proc s).map Attempt.index = List.range' index left ∧
      ∀ a ∈ L.run fails left index proc s, a.parent = proc := by
  induction left generalizing index s with
  | zero => exact ⟨rfl, fun a ha => by cases ha⟩
  | succ left ih =>
    have hnext : ∀ i, index + 1 ≤ i → i + 1 < index + 1 + left → fails i = false :=
      fun i hi hlt => hok i (by omega) (by omega)
    obtain ⟨hindex, hparent⟩ := @ih (index + 1) (L.leave index s) hnext
    have hchild : (if fails index then L.run fails left (index + 1) (index :: proc)
        (L.leave index (L.enter index s)) else []) = [] := by
      cases left with
      | zero => exact ite_self _
      | succ left =>
        rw [if_neg]
        rw [hok index le_rfl (by omega)]
        exact Bool.false_ne_true
    rw [run, hchild, List.nil_append]
    refine ⟨?_, fun a ha => ?_⟩
    · rw [List.map_cons, hindex, List.range'_succ]
    · obtain rfl | ha := List.mem_cons.1 ha
      · rfl
      · exact hparent a ha

/-- **Invariants of the loop.** `I` holds of every process at the head of a round, and `Q` of the
child's state in every attempt. -/
theorem forall_run {I Q : ℕ → σ → Prop} (hI : I index s)
    (henter : ∀ i s, i < index + left → I i s → Q i (L.enter i s))
    (hleave : ∀ i s, I i s → I (i + 1) (L.leave i s))
    (hfail : ∀ i s, i + 1 < index + left → fails i = true → I i s →
      I (i + 1) (L.leave i (L.enter i s))) :
    ∀ a ∈ L.run fails left index proc s, Q a.index a.state := by
  induction left generalizing index proc s with
  | zero => exact fun a ha => by cases ha
  | succ left ih =>
    have hnext : ∀ {proc : List ℕ} {s : σ}, I (index + 1) s →
        ∀ a ∈ L.run fails left (index + 1) proc s, Q a.index a.state := fun hI =>
      ih hI (fun i s hi => henter i s (by omega)) fun i s hi => hfail i s (by omega)
    intro a ha
    rw [run] at ha
    obtain rfl | ha := List.mem_cons.1 ha
    · exact henter index s (by omega) hI
    · obtain ha | ha := List.mem_append.1 ha
      · split at ha
        · rename_i hfails
          cases left with
          | zero => cases ha
          | succ left => exact hnext (hfail index s (by omega) hfails hI) a ha
        · cases ha
      · exact hnext (hleave index s hI) a ha

/-- The process that entered the loop makes an attempt in every round. -/
theorem exists_run {I : ℕ → σ → Prop} (hI : I index s)
    (hleave : ∀ i s, I i s → I (i + 1) (L.leave i s)) {i : ℕ} (hle : index ≤ i)
    (hlt : i < index + left) :
    ∃ s', I i s' ∧ ⟨i, proc, L.enter i s'⟩ ∈ L.run fails left index proc s := by
  induction left generalizing index s with
  | zero => omega
  | succ left ih =>
    rw [run]
    obtain rfl | hne := eq_or_ne i index
    · exact ⟨s, hI, List.mem_cons_self⟩
    · obtain ⟨s', hI', hmem⟩ := ih (hleave index s hI) (by omega) (by omega)
      exact ⟨s', hI', List.mem_cons_of_mem _ (List.mem_append_right _ hmem)⟩

/-- A child that fails makes an attempt in the next round. -/
theorem exists_run_failed {I : ℕ → σ → Prop} (hI : I index s)
    (hleave : ∀ i s, I i s → I (i + 1) (L.leave i s)) {i : ℕ} (hfail : fails i = true)
    (hle : index ≤ i) (hlt : i + 1 < index + left) :
    ∃ s', I i s' ∧ ⟨i + 1, i :: proc, L.enter (i + 1) (L.leave i (L.enter i s'))⟩ ∈
      L.run fails left index proc s := by
  induction left generalizing index s with
  | zero => omega
  | succ left ih =>
    rw [run]
    obtain rfl | hne := eq_or_ne i index
    · refine ⟨s, hI, List.mem_cons_of_mem _ (List.mem_append_left _ ?_)⟩
      rw [if_pos hfail]
      cases left with
      | zero => omega
      | succ left =>
        rw [run]
        exact List.mem_cons_self
    · obtain ⟨s', hI', hmem⟩ := ih (hleave index s hI) (by omega) (by omega)
      exact ⟨s', hI', List.mem_cons_of_mem _ (List.mem_append_right _ hmem)⟩

end ForkLoop
