import EmbeddedC.Lib.Duet

/-!
# Homework 13: shared memory and a System V semaphore

A message goes through shared memory to the child, and the child's answer back.  One semaphore says
whose turn it is: the parent adds one when it is zero, and the child subtracts one; the child adds
two when it is zero, and the parent subtracts two.

* `semop`: the operations of one call, all of them or none;
* `parentCalls`, `childCalls`: the system calls of `first_task`, in their order;
* `Turns`: whose turn it is, in every reachable state;
* `semop_exchange`: both processes end in every order of the calls, each having read what the other
  one has written, exactly if no earlier run has left a semaphore that is not zero.
-/

namespace EmbeddedC.Semaphores.SystemV

open Duet (Side)

/-- `sem_op`: to wait for zero, to add, or to subtract, which waits until there is enough. -/
def operate (n : ℤ) (value : ℕ) : Option ℕ :=
  if n = 0 then if value = 0 then some value else none
  else if 0 ≤ value + n then some (value + n).toNat else none

/-- The operations of one `semop`. -/
def semop : List ℤ → ℕ → Option ℕ
  | [], value => some value
  | n :: ops, value => (operate n value).bind (semop ops)

/-- The segment and the semaphore, if there are any, what the processes have printed, and whether
the child has exited. -/
structure Store where
  shm : Option (List Char)
  sem : Option ℕ
  parentOut : Option (List Char)
  childOut : Option (List Char)
  exited : Bool

inductive Call
  /-- `shmget` and `shmat`, with `IPC_CREAT` -/
  | createShm
  /-- the loop around `shmget`, and `shmat` -/
  | findShm
  | createSem
  | findSem
  /-- `snprintf` to the segment -/
  | write (msg : List Char)
  | semop (ops : List ℤ)
  | print
  | exit
  | wait
  | removeShm
  | removeSem

/-- What a call leaves.  A loop around `shmget` or `semget` goes on until there is something to
find. -/
def perform (side : Side) (c : Call) (k : Store) : Option Store :=
  match c with
  | .createShm => some { k with shm := some (k.shm.getD []) }
  | .findShm => k.shm.map fun _ => k
  | .createSem => some { k with sem := some (k.sem.getD 0) }
  | .findSem => k.sem.map fun _ => k
  | .write msg => k.shm.map fun _ => { k with shm := some msg }
  | .semop ops => k.sem.bind fun value => (semop ops value).map fun value =>
      { k with sem := some value }
  | .print => k.shm.map fun msg => match side with
      | .left => { k with parentOut := some msg }
      | .right => { k with childOut := some msg }
  | .exit => some { k with exited := true }
  | .wait => if k.exited then some k else none
  | .removeShm => some { k with shm := none }
  | .removeSem => some { k with sem := none }

def hello : List Char := "Hello".toList

def hi : List Char := "Hi".toList

/-- `shmdt` is not among the calls, as nothing depends on it. -/
def parentCalls : List Call :=
  [.createShm, .createSem, .write hello, .semop [0, 1], .semop [-2], .print, .wait,
    .removeShm, .removeSem]

def childCalls : List Call :=
  [.findShm, .findSem, .semop [-1], .print, .write hi, .semop [0, 2], .exit]

def task : Duet Call Store := Duet.once parentCalls childCalls perform

/-- The child has been forked; an earlier run may have left a segment or a semaphore. -/
def forked (shm : Option (List Char)) (sem : Option ℕ) : Store := ⟨shm, sem, none, none, false⟩

variable {value : ℕ} {shm : Option (List Char)} {sem : Option ℕ} {s t : Duet.State Store}
  {n m : ℕ} {k k' : Store} {c : Call}

/-- To wait for zero, and to add. -/
theorem semop_unlock {d : ℤ} (hd : 0 < d) :
    semop [0, d] value = if value = 0 then some d.toNat else none := by
  by_cases hzero : value = 0
  · simp [semop, operate, hzero, hd.ne', hd.le]
  · simp [semop, operate, hzero]

/-- To subtract. -/
theorem semop_lock {d : ℤ} (hd : 0 < d) :
    semop [-d] value = if d ≤ value then some (value - d).toNat else none := by
  have hne : -d ≠ 0 := by omega
  by_cases hle : d ≤ value
  · have hpos : 0 ≤ (value : ℤ) + -d := by omega
    simp [semop, operate, hne, hle, hpos, sub_eq_add_neg]
  · have hneg : ¬ 0 ≤ (value : ℤ) + -d := by omega
    simp [semop, operate, hne, hle, hneg]

/-! ### No semaphore, or one that is zero -/

/-- The value of the semaphore. -/
def turn (n m : ℕ) : ℕ :=
  if n ≤ 3 then 0 else if m ≤ 2 then 1 else if m ≤ 5 then 0 else if n ≤ 4 then 2 else 0

/-- Whose turn it is. -/
structure Turns (s : Duet.State Store) : Prop where
  unused : s.left ≤ 1 → s.store.sem.getD 0 = 0
  sem : 1 < s.left → s.left ≤ 8 → s.store.sem = some (turn s.left s.right)
  shm : 0 < s.left → s.left ≤ 2 → s.store.shm ≠ none
  msg : 2 < s.left → s.left ≤ 7 → s.store.shm = some (if s.right ≤ 4 then hello else hi)
  child : 2 < s.right → 3 < s.left
  parent : 4 < s.left → 5 < s.right
  exited : s.store.exited = true ↔ 6 < s.right
  waited : 6 < s.left → 6 < s.right
  childOut : s.store.childOut = if 3 < s.right then some hello else none
  parentOut : s.store.parentOut = if 5 < s.left then some hi else none
  removedShm : 7 < s.left → s.store.shm = none
  removedSem : 8 < s.left → s.store.sem = none

theorem turns_forked (hsem : sem.getD 0 = 0) : Turns ⟨0, 0, forked shm sem⟩ := by
  constructor <;> simp [forked, hsem]

theorem Turns.left (hs : Turns ⟨n, m, k⟩) (hc : parentCalls[n]? = some c)
    (hstore : perform .left c k = some k') : Turns ⟨n + 1, m, k'⟩ := by
  obtain ⟨hunused, hsem, hshm, hmsg, hchild, hparent, hexited, hwaited, hchildOut, hparentOut,
    hremovedShm, hremovedSem⟩ := hs
  dsimp only at *
  match n with
  | 0 | 1 | 7 | 8 =>
    obtain rfl := Option.some.inj hc
    obtain rfl := Option.some.inj hstore
    constructor <;> grind [turn]
  | 2 =>
    obtain rfl := Option.some.inj hc
    obtain ⟨_, -, rfl⟩ := Option.map_eq_some_iff.1 hstore
    constructor <;> grind [turn]
  | 3 =>
    obtain rfl := Option.some.inj hc
    rw [perform, hsem (by omega) (by omega), Option.bind_some, semop_unlock one_pos] at hstore
    split at hstore
    · obtain rfl := Option.some.inj hstore
      constructor <;> grind [turn]
    · cases hstore
  | 4 =>
    obtain rfl := Option.some.inj hc
    rw [perform, hsem (by omega) (by omega), Option.bind_some, semop_lock two_pos] at hstore
    split at hstore
    · rename_i hle
      have hanswered : 5 < m := by
        by_contra hlt
        have hturn : turn 4 m ≤ 1 := by
          rw [turn, if_neg (by omega)]
          split_ifs <;> omega
        omega
      obtain rfl := Option.some.inj hstore
      constructor <;> grind [turn]
    · cases hstore
  | 5 =>
    obtain rfl := Option.some.inj hc
    rw [perform, hmsg (by omega) (by omega), if_neg (by omega)] at hstore
    obtain rfl := Option.some.inj hstore
    constructor <;> grind [turn]
  | 6 =>
    obtain rfl := Option.some.inj hc
    rw [perform] at hstore
    split at hstore
    · rename_i hdone
      have hend := hexited.1 hdone
      obtain rfl := Option.some.inj hstore
      constructor <;> grind [turn]
    · cases hstore
  | n + 9 => cases hc

theorem Turns.right (hs : Turns ⟨n, m, k⟩) (hc : childCalls[m]? = some c)
    (hstore : perform .right c k = some k') : Turns ⟨n, m + 1, k'⟩ := by
  obtain ⟨hunused, hsem, hshm, hmsg, hchild, hparent, hexited, hwaited, hchildOut, hparentOut,
    hremovedShm, hremovedSem⟩ := hs
  dsimp only at *
  match m with
  | 0 =>
    obtain rfl := Option.some.inj hc
    obtain ⟨_, -, rfl⟩ := Option.map_eq_some_iff.1 hstore
    constructor <;> grind [turn]
  | 1 =>
    obtain rfl := Option.some.inj hc
    obtain ⟨_, -, rfl⟩ := Option.map_eq_some_iff.1 hstore
    constructor <;> grind [turn]
  | 2 =>
    obtain rfl := Option.some.inj hc
    obtain ⟨value, hvalue, hstore⟩ := Option.bind_eq_some_iff.1 hstore
    rw [semop_lock one_pos] at hstore
    split at hstore
    · rename_i hle
      -- the semaphore is one after the parent's call only
      have hgreeted : 3 < n := by grind [turn]
      obtain rfl := Option.some.inj hstore
      constructor <;> grind [turn]
    · cases hstore
  | 3 =>
    obtain rfl := Option.some.inj hc
    have hthree := hchild (by omega)
    rw [perform, hmsg (by omega) (by omega), if_pos (by omega)] at hstore
    obtain rfl := Option.some.inj hstore
    constructor <;> grind [turn]
  | 4 =>
    obtain rfl := Option.some.inj hc
    obtain ⟨_, -, rfl⟩ := Option.map_eq_some_iff.1 hstore
    constructor <;> grind [turn]
  | 5 =>
    obtain rfl := Option.some.inj hc
    rw [perform, hsem (by omega) (by omega), Option.bind_some, semop_unlock two_pos] at hstore
    split at hstore
    · obtain rfl := Option.some.inj hstore
      constructor <;> grind [turn]
    · cases hstore
  | 6 =>
    obtain rfl := Option.some.inj hc
    obtain rfl := Option.some.inj hstore
    constructor <;> grind [turn]
  | m + 7 => cases hc

theorem Turns.call (hs : Turns s) (h : Duet.Call task s t) : Turns t := by
  obtain ⟨c, k', hc, hstore, rfl⟩ | ⟨c, k', hc, hstore, rfl⟩ := h.of_once
  · exact hs.left hc hstore
  · exact hs.right hc hstore

/-- While the parent waits for its turn, the child goes on. -/
theorem Turns.child_call (hs : Turns ⟨4, m, k⟩) (hm : m ≤ 5) :
    ∃ t, Duet.Call task ⟨4, m, k⟩ t := by
  have hsem : k.sem = some (turn 4 m) := hs.sem (by simp) (by simp)
  have hmsg : k.shm = some (if m ≤ 4 then hello else hi) := hs.msg (by simp) (by simp)
  match m with
  | 0 => exact Duet.exists_call_right rfl (by simp [perform, hmsg])
  | 1 => exact Duet.exists_call_right rfl (by simp [perform, hsem])
  | 2 => exact Duet.exists_call_right rfl (by simp [perform, hsem, turn, semop_lock])
  | 3 => exact Duet.exists_call_right rfl (by simp [perform, hmsg])
  | 4 => exact Duet.exists_call_right rfl (by simp [perform, hmsg])
  | 5 => exact Duet.exists_call_right rfl (by simp [perform, hsem, turn, semop_unlock])
  | m + 6 => omega

/-- Nobody waits in vain. -/
theorem Turns.progress (hs : Turns s) (hwithin : task.Within s) (hend : ¬ task.Ended s) :
    ∃ t, Duet.Call task s t := by
  obtain ⟨n, m, k⟩ := s
  have hn : n ≤ 9 := hwithin.1
  have hm : m ≤ 7 := hwithin.2
  have ⟨_, hsem, hshm, hmsg, _, hparent, hexited, hwaited, _, _, _, _⟩ := hs
  dsimp only at *
  match n with
  | 0 | 1 | 7 | 8 => exact Duet.exists_call_left rfl rfl
  | 2 => exact Duet.exists_call_left rfl (by simpa [perform, Option.isSome_iff_ne_none] using hshm)
  | 3 => exact Duet.exists_call_left rfl (by simp [perform, hsem, turn, semop_unlock])
  | 4 =>
    by_cases hturn : m ≤ 5
    · exact hs.child_call hturn
    · have htwo : k.sem = some 2 := by
        rw [hsem (by omega) (by omega)]
        grind [turn]
      exact Duet.exists_call_left rfl (by simp [perform, htwo, semop_lock])
  | 5 => exact Duet.exists_call_left rfl (by simp [perform, hmsg])
  | 6 =>
    by_cases hdone : 6 < m
    · exact Duet.exists_call_left rfl (by simp [perform, hexited.2 hdone])
    · obtain rfl : m = 6 := by omega
      exact Duet.exists_call_right rfl rfl
  | n + 9 =>
    have := hwaited (by omega)
    have hended : n + 9 = 9 ∧ m = 7 := by omega
    exact absurd hended hend

/-- Both processes have printed the other's message, and the segment and the semaphore are gone. -/
def final : Store := ⟨none, none, some hi, some hello, true⟩

theorem Turns.ended (hs : Turns s) (hend : task.Ended s) : s = ⟨9, 7, final⟩ := by
  obtain ⟨n, m, ⟨shm, sem, parentOut, childOut, exited⟩⟩ := s
  obtain ⟨rfl, rfl⟩ : n = 9 ∧ m = 7 := hend
  obtain ⟨-, -, -, -, -, -, hexited, -, hchildOut, hparentOut, hremovedShm, hremovedSem⟩ := hs
  simp_all [final]

/-! ### A semaphore that is not zero -/

/-- What becomes of it. -/
def rest (value n m : ℕ) : ℕ :=
  if m ≤ 2 then value else if 5 < m then 2 else if n ≤ 3 then value - 1 else 1

/-- The parent waits for zero, or for two. -/
structure Stuck (value : ℕ) (s : Duet.State Store) : Prop where
  left_le : s.left ≤ 4
  sem : s.store.sem = some (rest value s.left s.right)
  untouched : s.right ≤ 2 → s.left ≤ 3
  answered : 5 < s.right → s.left ≤ 3

theorem Stuck.left (hvalue : 0 < value) (hs : Stuck value ⟨n, m, k⟩)
    (hc : parentCalls[n]? = some c) (hstore : perform .left c k = some k') :
    Stuck value ⟨n + 1, m, k'⟩ := by
  obtain ⟨hle, hsem, huntouched, hanswered⟩ := hs
  dsimp only at *
  match n with
  | 0 =>
    obtain rfl := Option.some.inj hc
    obtain rfl := Option.some.inj hstore
    constructor <;> simp [rest, *]
  | 1 =>
    obtain rfl := Option.some.inj hc
    obtain rfl := Option.some.inj hstore
    constructor <;> simp [rest, *]
  | 2 =>
    obtain rfl := Option.some.inj hc
    obtain ⟨_, -, rfl⟩ := Option.map_eq_some_iff.1 hstore
    constructor <;> simp [rest, *]
  | 3 =>
    obtain rfl := Option.some.inj hc
    rw [perform, hsem, Option.bind_some, semop_unlock one_pos] at hstore
    split at hstore
    · -- it is zero only after the child has subtracted
      rename_i hzero
      obtain rfl := Option.some.inj hstore
      constructor <;> grind [rest]
    · cases hstore
  | 4 =>
    obtain rfl := Option.some.inj hc
    rw [perform, hsem, Option.bind_some, semop_lock two_pos] at hstore
    split at hstore
    · grind [rest]
    · cases hstore
  | n + 5 => omega

theorem Stuck.right (hs : Stuck value ⟨n, m, k⟩) (hc : childCalls[m]? = some c)
    (hstore : perform .right c k = some k') : Stuck value ⟨n, m + 1, k'⟩ := by
  obtain ⟨hle, hsem, huntouched, hanswered⟩ := hs
  dsimp only at *
  match m with
  | 0 | 1 | 3 | 4 =>
    obtain rfl := Option.some.inj hc
    obtain ⟨_, -, rfl⟩ := Option.map_eq_some_iff.1 hstore
    constructor <;> grind [rest]
  | 2 =>
    obtain rfl := Option.some.inj hc
    rw [perform, hsem, Option.bind_some, semop_lock one_pos] at hstore
    split at hstore
    · obtain rfl := Option.some.inj hstore
      constructor <;> grind [rest]
    · cases hstore
  | 5 =>
    obtain rfl := Option.some.inj hc
    rw [perform, hsem, Option.bind_some, semop_unlock two_pos] at hstore
    split at hstore
    · obtain rfl := Option.some.inj hstore
      constructor <;> grind [rest]
    · cases hstore
  | 6 =>
    obtain rfl := Option.some.inj hc
    obtain rfl := Option.some.inj hstore
    constructor <;> grind [rest]
  | m + 7 => cases hc

/-- The parent never gets past its semaphore. -/
theorem left_le_of_reachable {value : ℕ} (hvalue : 0 < value)
    (h : (task.machine (forked shm (some value))).Reachable s) : s.left ≤ 4 := by
  have hstuck : Stuck value s := by
    refine h.invariant (I := Stuck value) ?_ fun t a u _ ht hstep => ?_
    · rintro _ rfl
      constructor <;> simp [forked, rest]
    · obtain ⟨c, k', hc, hstore, rfl⟩ | ⟨c, k', hc, hstore, rfl⟩ :=
        (Duet.call_iff.2 ⟨a, hstep⟩).of_once
      · exact ht.left hvalue hc hstore
      · exact ht.right hc hstore
  exact hstuck.left_le

/-- **The System V semaphore.**  Both processes end in whatever order the calls are made, each
having printed the other's message, exactly if there was no semaphore before or its value was zero;
the segment and the semaphore are gone then. -/
theorem semop_exchange (shm : Option (List Char)) (sem : Option ℕ) :
    (task.machine (forked shm sem)).Inevitable (fun s => s = ⟨9, 7, final⟩)
      ⟨0, 0, forked shm sem⟩ ↔ sem.getD 0 = 0 := by
  constructor
  · intro h
    by_contra hne
    obtain ⟨value, rfl⟩ : ∃ value, sem = some value := by
      cases sem with
      | none => exact absurd rfl hne
      | some value => exact ⟨value, rfl⟩
    obtain ⟨t, hpath, rfl⟩ := h.exists_path
    have hle := left_le_of_reachable (Nat.pos_of_ne_zero hne) ⟨_, rfl, hpath⟩
    exact absurd hle (by decide)
  · intro hsem
    exact (Duet.inevitable_ended Duet.once_single (turns_forked hsem) (fun _ _ hs h => hs.call h)
      fun _ hs hwithin hend => hs.progress hwithin hend).mono fun s hs => hs.1.ended hs.2

end EmbeddedC.Semaphores.SystemV
