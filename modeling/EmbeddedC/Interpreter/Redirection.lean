import EmbeddedC.Interpreter.Lines
import EmbeddedC.Interpreter.RunLoop

/-!
# Homework 9: the redirection of the command interpreter

`redir_cmd` is the index of the last command whose output is redirected, or -1.  The child of
command `index` reads from the pipe if `index - 1` is `redir_cmd`, also for `index` 0.

* `Line.pipeAt`, `redirCmd_line`: the separators, and the `redir_cmd` that is left of them;
* `Redirected`: the child reads from the pipe after a `|`, and writes to it before one;
* `redirection`: all children do exactly if there is one `|`, and the commands next to it are run;
  `no_pipe`: a line without any.
-/

namespace EmbeddedC.Interpreter

variable {syn : Syntax}

/-! ### `redir_cmd` -/

/-- The separator at position `i` redirects. -/
def pipeAt (rest : List (Separator syn × Words syn)) (i : ℕ) : Bool :=
  (rest[i]?).any fun r => syn.isPipe r.1.token

/-- The separator after command `i` redirects. -/
def Line.pipeAt (l : Line syn) (i : ℕ) : Bool := Interpreter.pipeAt l.rest i

/-- `redir_cmd` is the last command before a redirecting separator, if there is one. -/
theorem redirCmd_rest (rest : List (Separator syn × Words syn)) (o : Outline) :
    (∃ k, pipeAt rest k = true ∧
      (∀ j, k < j → pipeAt rest j = false) ∧
      (syn.outline (rest.flatMap fun r => r.1.token :: r.2.tokens) o).redirCmd =
        (o.done.length + k : ℕ)) ∨
    (∀ j, pipeAt rest j = false) ∧
      (syn.outline (rest.flatMap fun r => r.1.token :: r.2.tokens) o).redirCmd = o.redirCmd := by
  induction rest generalizing o with
  | nil => exact .inr ⟨fun j => rfl, by rw [List.flatMap_nil, Syntax.outline]⟩
  | cons r rest ih =>
    rw [List.flatMap_cons, outline_command]
    obtain ⟨k, hpipe, hlast, hredir⟩ | ⟨hnone, hredir⟩ := ih ⟨o.commands, r.2.command,
      if syn.isPipe r.1.token then o.done.length else o.redirCmd⟩
    · refine .inl ⟨k + 1, hpipe, fun j hj => ?_, hredir.trans ?_⟩
      · obtain ⟨j, rfl⟩ : ∃ i, j = i + 1 := ⟨j - 1, by omega⟩
        exact hlast j (by omega)
      · dsimp only
        rw [Outline.commands, List.length_append, List.length_singleton]
        congr 1
        omega
    · by_cases hpipe : syn.isPipe r.1.token = true
      · refine .inl ⟨0, hpipe, fun j hj => ?_, hredir.trans (if_pos hpipe)⟩
        obtain ⟨j, rfl⟩ : ∃ i, j = i + 1 := ⟨j - 1, by omega⟩
        exact hnone j
      · refine .inr ⟨fun j => ?_, hredir.trans (if_neg hpipe)⟩
        cases j with
        | zero => exact Bool.eq_false_of_not_eq_true hpipe
        | succ j => exact hnone j

/-- The `redir_cmd` of a line. -/
theorem redirCmd_line (l : Line syn) :
    (∃ k : ℕ, l.pipeAt k = true ∧ (∀ j, k < j → l.pipeAt j = false) ∧
      (syn.parse l.tokens).redirCmd = k) ∨
    (∀ j, l.pipeAt j = false) ∧ (syn.parse l.tokens).redirCmd = -1 := by
  have hfin := finished syn l.tokens
  rw [hfin.redirCmd, commands_tokens]
  obtain ⟨k, hpipe, hlast, hredir⟩ | ⟨hnone, hredir⟩ := redirCmd_rest l.rest
    ⟨[], l.first.command, -1⟩
  · exact .inl ⟨k, hpipe, hlast, hredir.trans (by simp)⟩
  · exact .inr ⟨hnone, hredir⟩

theorem Line.pipeAt_lt {l : Line syn} {i : ℕ} (h : l.pipeAt i = true) : i < l.rest.length := by
  by_contra hle
  rw [Line.pipeAt, Interpreter.pipeAt, List.getElem?_eq_none (Nat.le_of_not_lt hle)] at h
  cases h

theorem curCmd_line (l : Line syn) : (syn.parse l.tokens).curCmd = l.rest.length := by
  have hlen := congrArg List.length l.commands
  rw [Outline.commands, List.length_append, List.length_map] at hlen
  have hwords : l.words.length = l.rest.length + 1 := by
    rw [Line.words, List.length_cons, List.length_map]
  rw [(finished syn l.tokens).curCmd]
  exact Nat.succ.inj (hlen.trans hwords)

/-! ### The streams of the children -/

/-- Standard input is the pipe if the command comes after a `|`, and standard output if it comes
before one. -/
def Redirected (l : Line syn) (index : ℕ) (fds : Fds) : Prop :=
  (fds.stdin = .pipe ↔ 0 < index ∧ l.pipeAt (index - 1) = true) ∧
    (fds.stdout = .pipe ↔ l.pipeAt index = true)

/-- What holds of a process with its own streams at the head of round `index`, when the output of
command `k` is redirected: it has the ends of the pipe that are still needed. -/
structure Clean (k : ℤ) (index : ℕ) (fds : Fds) : Prop where
  stdin : fds.stdin = .own
  stdout : fds.stdout = .own
  writeEnd : index ≤ k → fds.writeEnd = true
  readEnd : index ≤ k + 1 → fds.readEnd = true

theorem clean_initial (k : ℤ) : Clean k 0 .initial := ⟨rfl, rfl, fun _ => rfl, fun _ => rfl⟩

variable {k : ℤ} {index : ℕ} {fds : Fds}

/-- What a child of such a process gets. -/
theorem Clean.enter (h : Clean k index fds) :
    (((thirdTaskLoop k).enter index fds).stdin = .pipe ↔ (index : ℤ) = k + 1) ∧
      (((thirdTaskLoop k).enter index fds).stdout = .pipe ↔ (index : ℤ) = k) := by
  have hstdin : fds.stdin ≠ .pipe := by rw [h.stdin]; decide
  have hstdout : fds.stdout ≠ .pipe := by rw [h.stdout]; decide
  unfold thirdTaskLoop
  dsimp only
  split
  · rename_i hk
    rw [Fds.dupStdout, if_pos (h.writeEnd hk.le)]
    exact ⟨⟨fun hpipe => absurd hpipe hstdin, fun hk' => by omega⟩, fun _ => hk, fun _ => rfl⟩
  · rename_i hk
    split
    · rename_i hk'
      rw [Fds.dupStdin, if_pos (h.readEnd (by omega))]
      exact ⟨⟨fun _ => by omega, fun _ => rfl⟩, fun hpipe => absurd hpipe hstdout,
        fun hk'' => absurd hk'' hk⟩
    · rename_i hk'
      exact ⟨⟨fun hpipe => absurd hpipe hstdin, fun hk'' => absurd hk'' (by omega)⟩,
        fun hpipe => absurd hpipe hstdout, fun hk'' => absurd hk'' hk⟩

theorem Clean.leave (h : Clean k index fds) :
    Clean k (index + 1) ((thirdTaskLoop k).leave index fds) := by
  unfold thirdTaskLoop
  dsimp only
  split
  · rename_i hk
    refine ⟨h.stdin, h.stdout, fun hle => ?_, fun hle => h.readEnd (by omega)⟩
    push_cast at hle
    omega
  · split
    · rename_i hk
      refine ⟨h.stdin, h.stdout, fun hle => h.writeEnd ?_, fun hle => ?_⟩
      · push_cast at hle
        omega
      · push_cast at hle
        omega
    · refine ⟨h.stdin, h.stdout, fun hle => h.writeEnd ?_, fun hle => h.readEnd ?_⟩
      · push_cast at hle
        omega
      · push_cast at hle
        omega

/-- A child whose streams are not redirected is such a process itself. -/
theorem thirdTaskLoop_enter_of_ne (hk : (index : ℤ) ≠ k) (hk' : (index : ℤ) ≠ k + 1) (fds : Fds) :
    (thirdTaskLoop k).enter index fds = fds := by
  unfold thirdTaskLoop
  dsimp only
  rw [if_neg hk, if_neg (by omega)]

theorem thirdTaskLoop_leave (k : ℤ) (index : ℕ) (fds : Fds) :
    ((thirdTaskLoop k).leave index fds).stdin = fds.stdin ∧
      ((thirdTaskLoop k).leave index fds).stdout = fds.stdout := by
  unfold thirdTaskLoop
  dsimp only
  split
  · exact ⟨rfl, rfl⟩
  · split <;> exact ⟨rfl, rfl⟩

/-- What is redirected stays so in the children of a child. -/
theorem thirdTaskLoop_enter_pipe (k : ℤ) (index : ℕ) (fds : Fds) :
    (fds.stdin = .pipe → ((thirdTaskLoop k).enter index fds).stdin = .pipe) ∧
      (fds.stdout = .pipe → ((thirdTaskLoop k).enter index fds).stdout = .pipe) := by
  unfold thirdTaskLoop Fds.dupStdout Fds.dupStdin
  dsimp only
  split
  · split
    · exact ⟨id, fun _ => rfl⟩
    · exact ⟨id, id⟩
  · split
    · split
      · exact ⟨fun _ => rfl, id⟩
      · exact ⟨id, id⟩
    · exact ⟨id, id⟩

/-! ### All children -/

variable {l : Line thirdTask} {fails : ℕ → Bool}

/-- What is known of `redir_cmd` if the interpreter's own children are redirected as they should
be. -/
theorem pipeAt_iff_of_redirected
    (h : ∀ a ∈ (thirdTask.parse l.tokens).runThirdTask fails, Redirected l a.index a.state) :
    ∃ k : ℕ, (thirdTask.parse l.tokens).redirCmd = k ∧ ∀ i, l.pipeAt i = true ↔ i = k := by
  have hmain : ∀ i ≤ l.rest.length,
      ((i : ℤ) = (thirdTask.parse l.tokens).redirCmd + 1 ↔ 0 < i ∧ l.pipeAt (i - 1) = true) ∧
        ((i : ℤ) = (thirdTask.parse l.tokens).redirCmd ↔ l.pipeAt i = true) := by
    intro i hi
    have hlt : i < 0 + ((thirdTask.parse l.tokens).curCmd + 1) := by rw [curCmd_line]; omega
    obtain ⟨fds, hclean, hmem⟩ := ForkLoop.exists_run
      (clean_initial (thirdTask.parse l.tokens).redirCmd) (fun i fds h => h.leave)
      (Nat.zero_le i) hlt
    obtain ⟨hstdin, hstdout⟩ := h _ hmem
    exact ⟨hclean.enter.1.symm.trans hstdin, hclean.enter.2.symm.trans hstdout⟩
  obtain ⟨k, hpipe, -, hredir⟩ | ⟨-, hredir⟩ := redirCmd_line l
  · refine ⟨k, hredir, fun i => ?_⟩
    by_cases hi : i ≤ l.rest.length
    · have := (hmain i hi).2
      rw [hredir] at this
      exact this.symm.trans Nat.cast_inj
    · refine ⟨fun hpipe => absurd (Line.pipeAt_lt hpipe) (by omega), ?_⟩
      rintro rfl
      exact hpipe
  · -- command 0 is taken for the one after a `|`
    have := ((hmain 0 (Nat.zero_le _)).1.1 (by rw [hredir]; rfl)).1
    exact absurd this (lt_irrefl 0)

/-- A child that fails makes the next attempt with the streams it was given. -/
theorem redirected_of_failed {k : ℕ}
    (h : ∀ a ∈ (thirdTask.parse l.tokens).runThirdTask fails, Redirected l a.index a.state)
    (hredir : (thirdTask.parse l.tokens).redirCmd = k) {i : ℕ} (hfail : fails i = true)
    (hi : i < l.rest.length) :
    ∃ fds, Clean k i fds ∧ Redirected l (i + 1) ((thirdTaskLoop k).enter (i + 1)
      ((thirdTaskLoop k).leave i ((thirdTaskLoop k).enter i fds))) := by
  have hlt : i + 1 < 0 + ((thirdTask.parse l.tokens).curCmd + 1) := by rw [curCmd_line]; omega
  obtain ⟨fds, hclean, hmem⟩ := ForkLoop.exists_run_failed (clean_initial k)
    (fun i fds h => h.leave) hfail (Nat.zero_le i) hlt
  rw [State.runThirdTask, hredir] at h
  exact ⟨fds, hclean, h _ hmem⟩

/-- The only `|` of a line is the one that is remembered. -/
theorem redirCmd_of_pipeAt_iff {k : ℕ} (hpipe : ∀ i, l.pipeAt i = true ↔ i = k) :
    (thirdTask.parse l.tokens).redirCmd = k := by
  obtain ⟨k', hk', -, hredir⟩ | ⟨hnone, -⟩ := redirCmd_line l
  · rw [hredir, (hpipe k').1 hk']
  · have hk := (hpipe k).2 rfl
    rw [hnone] at hk
    cases hk

/-- With one `|`, and no failure before or after it, all children are redirected as they should
be. -/
theorem redirected_of_pipeAt_iff {k : ℕ} (hpipe : ∀ i, l.pipeAt i = true ↔ i = k)
    (hbefore : fails k = false) (hafter : k + 1 < l.rest.length → fails (k + 1) = false) :
    ∀ a ∈ (thirdTask.parse l.tokens).runThirdTask fails, Redirected l a.index a.state := by
  rw [State.runThirdTask, redirCmd_of_pipeAt_iff hpipe]
  refine ForkLoop.forall_run (I := Clean k) (Q := Redirected l) (clean_initial k) ?_
    (fun i fds h => h.leave) ?_
  · intro i fds _ hclean
    obtain ⟨hstdin, hstdout⟩ := hclean.enter
    refine ⟨hstdin.trans ?_, hstdout.trans ?_⟩
    · rw [hpipe]
      omega
    · rw [hpipe]
      omega
  · intro i fds hi hfail hclean
    rw [curCmd_line] at hi
    have hne : i ≠ k := by
      rintro rfl
      rw [hbefore] at hfail
      cases hfail
    have hne' : i ≠ k + 1 := by
      rintro rfl
      rw [hafter (by omega)] at hfail
      cases hfail
    rw [thirdTaskLoop_enter_of_ne (by omega) (by omega)]
    exact hclean.leave

/-- **The redirection of homework 9.** Every child that calls `execv` has its streams redirected as
its separators say, and no others, exactly if the line has one `|`, and `execv` succeeds for the
command before it, and for the command after it unless this is the last one. -/
theorem redirection (l : Line thirdTask) (fails : ℕ → Bool) :
    (∀ a ∈ (thirdTask.parse l.tokens).runThirdTask fails, Redirected l a.index a.state) ↔
      ∃ k, (∀ i, l.pipeAt i = true ↔ i = k) ∧ fails k = false ∧
        (k + 1 < l.rest.length → fails (k + 1) = false) := by
  constructor
  · intro h
    obtain ⟨k, hredir, hpipe⟩ := pipeAt_iff_of_redirected h
    have hk : k < l.rest.length := Line.pipeAt_lt ((hpipe k).2 rfl)
    refine ⟨k, hpipe, ?_, fun hlast => ?_⟩
    · -- the child that fails passes its output on
      by_contra hfail
      obtain ⟨fds, hclean, -, hstdout⟩ :=
        redirected_of_failed h hredir (Bool.eq_true_of_not_eq_false hfail) hk
      have hchild : ((thirdTaskLoop k).leave k ((thirdTaskLoop k).enter k fds)).stdout = .pipe :=
        (thirdTaskLoop_leave k k _).2.trans (hclean.enter.2.2 rfl)
      have := (hpipe (k + 1)).1 (hstdout.1 ((thirdTaskLoop_enter_pipe k (k + 1) _).2 hchild))
      omega
    · -- and here its input
      by_contra hfail
      obtain ⟨fds, hclean, hstdin, -⟩ :=
        redirected_of_failed h hredir (Bool.eq_true_of_not_eq_false hfail) hlast
      have hchild : ((thirdTaskLoop k).leave (k + 1)
          ((thirdTaskLoop k).enter (k + 1) fds)).stdin = .pipe :=
        (thirdTaskLoop_leave k (k + 1) _).1.trans (hclean.enter.1.2 (by push_cast; rfl))
      have := (hpipe _).1 (hstdin.1 ((thirdTaskLoop_enter_pipe k (k + 1 + 1) _).1 hchild)).2
      omega
  · rintro ⟨k, hpipe, hbefore, hafter⟩
    exact redirected_of_pipeAt_iff hpipe hbefore hafter

/-- `ls` -/
def bare : Line thirdTask := ⟨⟨"ls".toList, [], by decide⟩, []⟩

/-- The only command of a line reads from the pipe. -/
theorem no_pipe : ¬ ∀ (l : Line thirdTask) (fails : ℕ → Bool),
    ∀ a ∈ (thirdTask.parse l.tokens).runThirdTask fails, Redirected l a.index a.state := by
  intro hall
  obtain ⟨k, -, hpipe⟩ := pipeAt_iff_of_redirected (hall bare fun _ => false)
  have hk := (hpipe k).2 rfl
  cases hk

end EmbeddedC.Interpreter
