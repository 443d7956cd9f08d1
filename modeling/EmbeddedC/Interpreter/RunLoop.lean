import EmbeddedC.Lib.ForkLoop
import EmbeddedC.Interpreter.Parsing

/-!
# Homeworks 6 and 9: running the commands

For every command the interpreter forks a child, which calls `execv`, and waits for it.  There is no
`exit` after a failing `execv`: the child goes on with the next command itself.

* `Fds`: the standard streams of a process and its ends of the pipe;
* `secondTaskLoop`, `thirdTaskLoop`: the loops of the two programs;
* `OnceEach`, `each_once`: every command is tried once, by a child of the interpreter, exactly if no
  `execv` but the last fails; `tried_twice`: a line with an unknown command.

Which commands' `execv` fails is an argument.  A program that `execv` starts ends at some time, so
that `wait` returns.
-/

namespace EmbeddedC.Interpreter

/-! ### The loops -/

/-- What a standard stream is: that of the interpreter, or an end of the pipe. -/
inductive Stream
  | own
  | pipe
  deriving DecidableEq

/-- The file descriptors of a process: the streams, and whether the ends of the pipe are open. -/
structure Fds where
  stdin : Stream
  stdout : Stream
  readEnd : Bool
  writeEnd : Bool
  deriving DecidableEq

/-- `dup2(pipe_fds[1], STDOUT_FILENO)` -/
def Fds.dupStdout (fds : Fds) : Fds := if fds.writeEnd then { fds with stdout := .pipe } else fds

/-- `dup2(pipe_fds[0], STDIN_FILENO)` -/
def Fds.dupStdin (fds : Fds) : Fds := if fds.readEnd then { fds with stdin := .pipe } else fds

/-- The interpreter's file descriptors after `pipe`. -/
def Fds.initial : Fds := ⟨.own, .own, true, true⟩

/-- The loop of `second_task` of homework 6. -/
def secondTaskLoop : ForkLoop Unit where
  enter _ s := s
  leave _ s := s

/-- The loop of `third_task` of homework 9. -/
def thirdTaskLoop (redirCmd : ℤ) : ForkLoop Fds where
  enter index fds :=
    if index = redirCmd then fds.dupStdout
    else if index - 1 = redirCmd then fds.dupStdin
    else fds
  leave index fds :=
    if index = redirCmd then { fds with writeEnd := false }
    else if index - 1 = redirCmd then { fds with readEnd := false }
    else fds

namespace State

/-- The calls of `execv` in `second_task`. -/
def runSecondTask (s : State) (fails : ℕ → Bool) : List (ForkLoop.Attempt Unit) :=
  secondTaskLoop.run fails (s.curCmd + 1) 0 [] ()

/-- The calls of `execv` in `third_task`. -/
def runThirdTask (s : State) (fails : ℕ → Bool) : List (ForkLoop.Attempt Fds) :=
  (thirdTaskLoop s.redirCmd).run fails (s.curCmd + 1) 0 [] .initial

end State

/-! ### How often a command is tried -/

/-- Each of the `n` commands is tried once, in their order, by a child of the interpreter. -/
def OnceEach {σ : Type} (n : ℕ) (attempts : List (ForkLoop.Attempt σ)) : Prop :=
  attempts.map ForkLoop.Attempt.index = List.range n ∧ ∀ a ∈ attempts, a.parent = []

/-- A command that fails, and is not the last one, makes the next one be tried twice. -/
theorem not_onceEach {σ : Type} {L : ForkLoop σ} {fails : ℕ → Bool} {n i : ℕ} {s : σ}
    (hfail : fails i = true) (hi : i < n) : ¬ OnceEach (n + 1) (L.run fails (n + 1) 0 [] s) := by
  rintro ⟨hindex, -⟩
  have hlen := congrArg List.length hindex
  rw [List.length_map, List.length_range] at hlen
  have hlt : n + 1 < (L.run fails (n + 1) 0 [] s).length :=
    ForkLoop.length_lt_run hfail (Nat.zero_le i) (by omega)
  omega

theorem onceEach_iff {σ : Type} (L : ForkLoop σ) (fails : ℕ → Bool) (n : ℕ) (s : σ) :
    OnceEach (n + 1) (L.run fails (n + 1) 0 [] s) ↔ ∀ i < n, fails i = false := by
  refine ⟨fun honce i hi => ?_, fun hok => ?_⟩
  · by_contra hfail
    exact not_onceEach (Bool.eq_true_of_not_eq_false hfail) hi honce
  · have hbefore : ∀ i, 0 ≤ i → i + 1 < 0 + (n + 1) → fails i = false :=
      fun i _ hi => hok i (by omega)
    obtain ⟨hindex, hparent⟩ := @ForkLoop.run_eq σ L fails (n + 1) 0 [] s hbefore
    exact ⟨hindex.trans List.range_eq_range'.symm, hparent⟩

/-- **Every command once.** In both programs, every command is tried once, in the order of the line
and by a child of the interpreter itself, exactly if `execv` fails for no command but the last. -/
theorem each_once (s : State) (fails : ℕ → Bool) :
    (OnceEach (s.curCmd + 1) (s.runSecondTask fails) ↔ ∀ i < s.curCmd, fails i = false) ∧
      (OnceEach (s.curCmd + 1) (s.runThirdTask fails) ↔ ∀ i < s.curCmd, fails i = false) :=
  ⟨onceEach_iff _ fails _ _, onceEach_iff _ fails _ _⟩

/-- `nosuch && ls` -/
def nosuch : List Text := ["nosuch".toList, "&&".toList, "ls".toList]

theorem lineTokens_nosuch : lineTokens "nosuch && ls\n".toList = nosuch := by decide

/-- The first command of `nosuch && ls` is not found: the second one is run twice. -/
theorem tried_twice :
    (¬ ∀ input fails, OnceEach ((secondTask.parse (lineTokens input)).curCmd + 1)
      ((secondTask.parse (lineTokens input)).runSecondTask fails)) ∧
    ¬ ∀ input fails, OnceEach ((thirdTask.parse (lineTokens input)).curCmd + 1)
      ((thirdTask.parse (lineTokens input)).runThirdTask fails) := by
  constructor
  · intro hall
    have honce := hall "nosuch && ls\n".toList fun i => i == 0
    rw [lineTokens_nosuch, State.runSecondTask] at honce
    have hcurCmd : (secondTask.parse nosuch).curCmd = 1 := (finished secondTask nosuch).curCmd
    exact not_onceEach (i := 0) rfl (by omega) honce
  · intro hall
    have honce := hall "nosuch && ls\n".toList fun i => i == 0
    rw [lineTokens_nosuch, State.runThirdTask] at honce
    have hcurCmd : (thirdTask.parse nosuch).curCmd = 1 := (finished thirdTask nosuch).curCmd
    exact not_onceEach (i := 0) rfl (by omega) honce

end EmbeddedC.Interpreter
