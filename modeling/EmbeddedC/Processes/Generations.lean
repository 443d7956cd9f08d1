import EmbeddedC.Lib.Family

/-!
# Homework 6: `first_task`, six processes

The main process creates two children, the first one of which creates two grandchildren and the
second one a third.  Everybody prints its process ID and that of its parent, and waits for those it
has created.

* `Process`, `calls`: the processes, and the system calls of each;
* `idsText`, `resultText`: what is printed;
* `firstTask`: the family;
* `generations_print`: all processes end, with the right process IDs, and exactly the orders of the
  lines are possible in which the result comes last.
-/

namespace EmbeddedC.Processes

open Family (Call Line State)

/-- The process that calls `first_task`, and those that are named after the variables with the
results of `fork`. -/
inductive Process
  | main
  | frstChild
  | scndChild
  | frstGrandchild
  | scndGrandchild
  | thrdGrandchild
  deriving DecidableEq

instance : Fintype Process where
  elems := {.main, .frstChild, .scndChild, .frstGrandchild, .scndGrandchild, .thrdGrandchild}
  complete i := by cases i <;> decide

/-- The calls in each branch of `first_task`.  The main process returns from it at the end. -/
def calls : Process → List (Call Process)
  | .main => [.fork .frstChild, .fork .scndChild, .put, .waitpid .frstChild, .waitpid .scndChild,
      .result, .exit 0]
  | .frstChild => [.fork .frstGrandchild, .fork .scndGrandchild, .put, .waitpid .frstGrandchild,
      .waitpid .scndGrandchild, .exit 0]
  | .scndChild => [.fork .thrdGrandchild, .put, .waitpid .thrdGrandchild, .exit 0]
  | .frstGrandchild | .scndGrandchild | .thrdGrandchild => [.put, .exit 0]

/-- Who calls `fork`. -/
def creator : Process → Option Process
  | .main => none
  | .frstChild | .scndChild => some .main
  | .frstGrandchild | .scndGrandchild => some .frstChild
  | .thrdGrandchild => some .scndChild

/-- The line of a process. -/
def idsText (i : Process) (pid ppid : ℕ) : String :=
  match i with
  | .main => s!"1 Main process pid is equal to {pid}\n"
  | .frstChild => s!"2 First child pid is equal to {pid}, it's ppid = {ppid}\n"
  | .scndChild => s!"3 Second child pid is equal to {pid}, it's ppid = {ppid}\n"
  | .frstGrandchild => s!"4 First grandchild pid is equal to {pid}, it's ppid = {ppid}\n"
  | .scndGrandchild => s!"5 Second grandchild pid is equal to {pid}, it's ppid = {ppid}\n"
  | .thrdGrandchild => s!"6 Third grandchild pid is equal to {pid}, it's ppid = {ppid}\n"

/-- The last line, for the two results. -/
def resultText (frstChildRes scndChildRes : ℕ) : String :=
  s!"The result for a program is {frstChildRes} + {scndChildRes} (1st child + 2nd child)\n"

/-- The text of a line; a variable that `waitpid` has not set may have any value, `unset`. -/
def text (unset : ℕ) : Line Process → String
  | .ids i pid ppid => idsText i pid ppid
  | .result statuses =>
    resultText ((statuses.getD 0 none).getD unset) ((statuses.getD 1 none).getD unset)

/-- The processes of `first_task`. -/
def firstTask : Family Process where
  root := .main
  script := calls
  status := fun _ => 0
  depth
    | .main => 0
    | .frstChild | .scndChild => 1
    | .frstGrandchild | .scndGrandchild | .thrdGrandchild => 2
  nodup := by decide
  sorted := by decide
  put_mem := by decide
  waited := by decide
  result_iff := by decide
  exits := by
    intro i st
    cases i <;> simp [calls]
  creator := by decide
  no_creator := by decide
  once := by decide
  deeper := by decide

/-- All lines have been printed, in this order, and then the result. -/
def Lines (outside unset : ℕ) (s : State Process) (order : List Process) : Prop :=
  s.output.map (text unset) =
    order.map (fun i => idsText i (s.pid i) ((creator i).elim outside s.pid)) ++ [resultText 0 0]

theorem fork_mem_calls (p c : Process) : .fork c ∈ calls p ↔ creator c = some p := by
  revert p c
  decide

theorem lines_of_final {outside : ℕ} (unset : ℕ) {s : State Process}
    (h : (firstTask.machine outside).Reachable s) (hfinal : firstTask.Final s) :
    Lines outside unset s s.order := by
  obtain ⟨-, ppid, hroot, hcreator, houtput⟩ := hfinal.output h
  have hppid : ∀ i, ppid i = (creator i).elim outside s.pid := by
    intro i
    cases hi : creator i with
    | none => cases i <;> first | exact hroot | cases hi
    | some p => exact hcreator p i ((fork_mem_calls p i).2 hi)
  rw [Lines, houtput, List.map_append, List.map_map]
  congr 1
  refine List.map_congr_left fun i _ => ?_
  rw [Function.comp_apply, text, hppid]

/-- **`first_task`.** Whatever the order of the calls is, all six processes end, everybody has
printed its process ID and that of the process that has created it, and the result comes after these
lines.  Every order of them is possible. -/
theorem generations_print (outside unset : ℕ) :
    (∀ s, (firstTask.machine outside).Reachable s →
      (firstTask.machine outside).Inevitable (fun t => firstTask.Final t ∧
        ∃ order, order.Perm Finset.univ.toList ∧ Lines outside unset t order) s) ∧
    ∀ pid order, order.Perm Finset.univ.toList → ∃ t,
      (firstTask.machine outside).Path Machine.anyStep (firstTask.initial pid) t ∧
        firstTask.Final t ∧ Lines outside unset t order := by
  constructor
  · intro s hs
    refine ((Family.inevitable_final hs).and_reachable hs).mono fun t ht => ?_
    exact ⟨ht.1, t.order, (ht.1.output ht.2).order, lines_of_final unset ht.2 ht.1⟩
  · intro pid order horder
    obtain ⟨t, hpath, hfinal, rfl⟩ := firstTask.exists_order outside pid horder
    have hreach : (firstTask.machine outside).Reachable t := ⟨_, ⟨pid, rfl⟩, hpath⟩
    exact ⟨t, hpath, hfinal, lines_of_final unset hreach hfinal⟩

/-- The main process has the process ID 100, and was started by 99. -/
theorem generations_print_main :
    (firstTask.machine 99).Inevitable (fun t => firstTask.Final t ∧
      ∃ order, order.Perm Finset.univ.toList ∧ Lines 99 0 t order) (firstTask.initial 100) ∧
    ∃ t, (firstTask.machine 99).Path Machine.anyStep (firstTask.initial 100) t ∧
      firstTask.Final t ∧ Lines 99 0 t Finset.univ.toList :=
  ⟨(generations_print 99 0).1 _ ⟨_, ⟨100, rfl⟩, .refl⟩, (generations_print 99 0).2 100 _ (.refl _)⟩

end EmbeddedC.Processes
