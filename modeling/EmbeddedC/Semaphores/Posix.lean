import EmbeddedC.Lib.Duet

/-!
# Homework 13: shared memory and two POSIX semaphores

A message goes through shared memory to the child, and the child's answer back.  The semaphore
`ptoc_sem` says that the message is there, and `ctop_sem` that the answer is.

* `parentCalls`, `childCalls`: the system calls of `second_task`, in their order;
* `Posted`: what has been posted and written, in every reachable state;
* `sem_exchange`: both processes end in every order of the calls, each having read what the other
  one has written, exactly if no earlier run has left a semaphore that is not zero.
-/

namespace EmbeddedC.Semaphores.Posix

open Duet (Side)

/-- `ptoc_sem` and `ctop_sem` -/
inductive Sem
  | ptoc
  | ctop
  deriving DecidableEq

/-- The shared memory object, which has no bytes at first, and the semaphores, if there are any,
what the processes have printed, and whether the child has exited. -/
structure Store where
  shm : Option (Option (List Char))
  ptoc : Option ℕ
  ctop : Option ℕ
  parentOut : Option (List Char)
  childOut : Option (List Char)
  exited : Bool

def Store.sem (k : Store) : Sem → Option ℕ
  | .ptoc => k.ptoc
  | .ctop => k.ctop

def Store.setSem (k : Store) (value : Option ℕ) : Sem → Store
  | .ptoc => { k with ptoc := value }
  | .ctop => { k with ctop := value }

inductive Call
  /-- `shm_open` with `O_CREAT` -/
  | createShm
  /-- `ftruncate`, and `mmap` -/
  | resize
  /-- the loop around `shm_open`, and `mmap` -/
  | findShm
  /-- `sem_open` with `O_CREAT` -/
  | create (sem : Sem)
  /-- the loop around `sem_open` -/
  | find (sem : Sem)
  /-- `snprintf` to the memory -/
  | write (msg : List Char)
  | post (sem : Sem)
  | wait (sem : Sem)
  | print
  | exit
  /-- `wait(NULL)` -/
  | join
  | unlinkShm
  | unlink (sem : Sem)

/-- What a call leaves.  A loop around `shm_open` or `sem_open` goes on until there is something to
find; memory without bytes cannot be accessed. -/
def perform (side : Side) (c : Call) (k : Store) : Option Store :=
  match c with
  | .createShm => some { k with shm := some (k.shm.getD none) }
  | .resize => k.shm.map fun bytes => { k with shm := some (some (bytes.getD [])) }
  | .findShm => k.shm.map fun _ => k
  | .create sem => some (k.setSem (some ((k.sem sem).getD 0)) sem)
  | .find sem => (k.sem sem).map fun _ => k
  | .write msg => k.shm.join.map fun _ => { k with shm := some (some msg) }
  | .post sem => (k.sem sem).map fun value => k.setSem (some (value + 1)) sem
  | .wait sem => (k.sem sem).bind fun value =>
      if value = 0 then none else some (k.setSem (some (value - 1)) sem)
  | .print => k.shm.join.map fun msg => match side with
      | .left => { k with parentOut := some msg }
      | .right => { k with childOut := some msg }
  | .exit => some { k with exited := true }
  | .join => if k.exited then some k else none
  | .unlinkShm => some { k with shm := none }
  | .unlink sem => some (k.setSem none sem)

def hello : List Char := "Hello".toList

def hi : List Char := "Hi".toList

/-- `munmap` and `sem_close` are not among the calls, as nothing depends on them. -/
def parentCalls : List Call :=
  [.createShm, .resize, .create .ptoc, .create .ctop, .write hello, .post .ptoc, .wait .ctop,
    .print, .join, .unlinkShm, .unlink .ptoc, .unlink .ctop]

def childCalls : List Call :=
  [.findShm, .find .ptoc, .find .ctop, .wait .ptoc, .print, .write hi, .post .ctop, .exit]

def task : Duet Call Store := Duet.once parentCalls childCalls perform

/-- The child has been forked; an earlier run may have left an object or semaphores. -/
def forked (shm : Option (Option (List Char))) (ptoc ctop : Option ℕ) : Store :=
  ⟨shm, ptoc, ctop, none, none, false⟩

variable {shm : Option (Option (List Char))} {ptoc ctop : Option ℕ} {s t : Duet.State Store}
  {n m : ℕ} {k k' : Store} {c : Call}

/-! ### No semaphores, or such that are zero -/

/-- The value of `ptoc_sem`. -/
def sent (n m : ℕ) : ℕ := if n ≤ 5 then 0 else if m ≤ 3 then 1 else 0

/-- The value of `ctop_sem`. -/
def answered (n m : ℕ) : ℕ := if m ≤ 6 then 0 else if n ≤ 6 then 1 else 0

/-- What has been posted and written. -/
structure Posted (s : Duet.State Store) : Prop where
  unusedPtoc : s.left ≤ 2 → s.store.ptoc.getD 0 = 0
  unusedCtop : s.left ≤ 3 → s.store.ctop.getD 0 = 0
  ptoc : 2 < s.left → s.left ≤ 10 → s.store.ptoc = some (sent s.left s.right)
  ctop : 3 < s.left → s.left ≤ 11 → s.store.ctop = some (answered s.left s.right)
  shm : 0 < s.left → s.left ≤ 1 → s.store.shm ≠ none
  bytes : 1 < s.left → s.left ≤ 4 → s.store.shm.join ≠ none
  msg : 4 < s.left → s.left ≤ 9 → s.store.shm = some (some (if s.right ≤ 5 then hello else hi))
  child : 3 < s.right → 5 < s.left
  parent : 6 < s.left → 6 < s.right
  exited : s.store.exited = true ↔ 7 < s.right
  joined : 8 < s.left → 7 < s.right
  childOut : s.store.childOut = if 4 < s.right then some hello else none
  parentOut : s.store.parentOut = if 7 < s.left then some hi else none
  removedShm : 9 < s.left → s.store.shm = none
  removedPtoc : 10 < s.left → s.store.ptoc = none
  removedCtop : 11 < s.left → s.store.ctop = none

theorem posted_forked (hptoc : ptoc.getD 0 = 0) (hctop : ctop.getD 0 = 0) :
    Posted ⟨0, 0, forked shm ptoc ctop⟩ := by
  constructor <;> simp [forked, hptoc, hctop]

theorem Posted.left (hs : Posted ⟨n, m, k⟩) (hc : parentCalls[n]? = some c)
    (hstore : perform .left c k = some k') : Posted ⟨n + 1, m, k'⟩ := by
  obtain ⟨hunusedPtoc, hunusedCtop, hptoc, hctop, hshm, hbytes, hmsg, hchild, hparent, hexited,
    hjoined, hchildOut, hparentOut, hremovedShm, hremovedPtoc, hremovedCtop⟩ := hs
  dsimp only at *
  match n with
  | 0 | 9 =>
    obtain rfl := Option.some.inj hc
    obtain rfl := Option.some.inj hstore
    constructor <;> grind [sent, answered]
  | 2 | 3 | 10 | 11 =>
    obtain rfl := Option.some.inj hc
    obtain rfl := Option.some.inj hstore
    constructor <;> grind [sent, answered, Store.sem, Store.setSem]
  | 1 | 4 =>
    obtain rfl := Option.some.inj hc
    obtain ⟨_, -, rfl⟩ := Option.map_eq_some_iff.1 hstore
    constructor <;> grind [sent, answered]
  | 5 =>
    obtain rfl := Option.some.inj hc
    obtain ⟨value, hvalue, rfl⟩ := Option.map_eq_some_iff.1 hstore
    constructor <;> grind [sent, answered, Store.sem, Store.setSem]
  | 6 =>
    obtain rfl := Option.some.inj hc
    obtain ⟨value, hvalue, hstore⟩ := Option.bind_eq_some_iff.1 hstore
    split at hstore
    · cases hstore
    · obtain rfl := Option.some.inj hstore
      have hanswered : 6 < m := by grind [answered, Store.sem]
      constructor <;> grind [sent, answered, Store.sem, Store.setSem]
  | 7 =>
    obtain rfl := Option.some.inj hc
    obtain ⟨msg, hprint, rfl⟩ := Option.map_eq_some_iff.1 hstore
    constructor <;> grind [sent, answered]
  | 8 =>
    obtain rfl := Option.some.inj hc
    rw [perform] at hstore
    split at hstore
    · obtain rfl := Option.some.inj hstore
      constructor <;> grind [sent, answered]
    · cases hstore
  | n + 12 => cases hc

theorem Posted.right (hs : Posted ⟨n, m, k⟩) (hc : childCalls[m]? = some c)
    (hstore : perform .right c k = some k') : Posted ⟨n, m + 1, k'⟩ := by
  obtain ⟨hunusedPtoc, hunusedCtop, hptoc, hctop, hshm, hbytes, hmsg, hchild, hparent, hexited,
    hjoined, hchildOut, hparentOut, hremovedShm, hremovedPtoc, hremovedCtop⟩ := hs
  dsimp only at *
  match m with
  | 0 | 1 | 2 | 5 =>
    obtain rfl := Option.some.inj hc
    obtain ⟨_, -, rfl⟩ := Option.map_eq_some_iff.1 hstore
    constructor <;> grind [sent, answered]
  | 3 =>
    obtain rfl := Option.some.inj hc
    obtain ⟨value, hvalue, hstore⟩ := Option.bind_eq_some_iff.1 hstore
    split at hstore
    · cases hstore
    · obtain rfl := Option.some.inj hstore
      have hsent : 5 < n := by grind [sent, Store.sem]
      constructor <;> grind [sent, answered, Store.sem, Store.setSem]
  | 4 =>
    obtain rfl := Option.some.inj hc
    obtain ⟨msg, hprint, rfl⟩ := Option.map_eq_some_iff.1 hstore
    constructor <;> grind [sent, answered]
  | 6 =>
    obtain rfl := Option.some.inj hc
    obtain ⟨value, hvalue, rfl⟩ := Option.map_eq_some_iff.1 hstore
    constructor <;> grind [sent, answered, Store.sem, Store.setSem]
  | 7 =>
    obtain rfl := Option.some.inj hc
    obtain rfl := Option.some.inj hstore
    constructor <;> grind [sent, answered]
  | m + 8 => cases hc

theorem Posted.call (hs : Posted s) (h : Duet.Call task s t) : Posted t := by
  obtain ⟨c, k', hc, hstore, rfl⟩ | ⟨c, k', hc, hstore, rfl⟩ := h.of_once
  · exact hs.left hc hstore
  · exact hs.right hc hstore

/-- While the parent waits for the answer, the child goes on. -/
theorem Posted.child_call (hs : Posted ⟨6, m, k⟩) (hm : m ≤ 6) :
    ∃ t, Duet.Call task ⟨6, m, k⟩ t := by
  have hptoc : k.ptoc = some (sent 6 m) := hs.ptoc (by simp) (by simp)
  have hctop : k.ctop = some (answered 6 m) := hs.ctop (by simp) (by simp)
  have hmsg : k.shm = some (some (if m ≤ 5 then hello else hi)) := hs.msg (by simp) (by simp)
  match m with
  | 0 => exact Duet.exists_call_right rfl (by simp [perform, hmsg])
  | 1 => exact Duet.exists_call_right rfl (by simp [perform, Store.sem, hptoc])
  | 2 => exact Duet.exists_call_right rfl (by simp [perform, Store.sem, hctop])
  | 3 => exact Duet.exists_call_right rfl (by simp [perform, Store.sem, hptoc, sent])
  | 4 => exact Duet.exists_call_right rfl (by simp [perform, hmsg])
  | 5 => exact Duet.exists_call_right rfl (by simp [perform, hmsg])
  | 6 => exact Duet.exists_call_right rfl (by simp [perform, Store.sem, hctop])
  | m + 7 => omega

/-- Nobody waits in vain. -/
theorem Posted.progress (hs : Posted s) (hwithin : task.Within s) (hend : ¬ task.Ended s) :
    ∃ t, Duet.Call task s t := by
  obtain ⟨n, m, k⟩ := s
  have hn : n ≤ 12 := hwithin.1
  have hm : m ≤ 8 := hwithin.2
  have ⟨_, _, hptoc, hctop, hshm, hbytes, hmsg, _, hparent, hexited, hjoined, _, _, _, _, _⟩ := hs
  dsimp only at *
  match n with
  | 0 | 2 | 3 | 9 | 10 | 11 => exact Duet.exists_call_left rfl rfl
  | 1 => exact Duet.exists_call_left rfl (by simpa [perform, Option.isSome_iff_ne_none] using hshm)
  | 4 =>
    exact Duet.exists_call_left rfl (by simpa [perform, Option.isSome_iff_ne_none] using hbytes)
  | 5 => exact Duet.exists_call_left rfl (by simp [perform, Store.sem, hptoc])
  | 6 =>
    by_cases hanswer : m ≤ 6
    · exact hs.child_call hanswer
    · have hone : k.ctop = some 1 := by
        rw [hctop (by omega) (by omega), answered, if_neg hanswer]
        rfl
      exact Duet.exists_call_left rfl (by simp [perform, Store.sem, hone])
  | 7 => exact Duet.exists_call_left rfl (by simp [perform, hmsg])
  | 8 =>
    by_cases hdone : 7 < m
    · exact Duet.exists_call_left rfl (by simp [perform, hexited.2 hdone])
    · obtain rfl : m = 7 := by omega
      exact Duet.exists_call_right rfl rfl
  | n + 12 =>
    have := hjoined (by omega)
    have hended : n + 12 = 12 ∧ m = 8 := by omega
    exact absurd hended hend

/-- Both processes have printed the other's message, and the names are gone. -/
def final : Store := ⟨none, none, none, some hi, some hello, true⟩

theorem Posted.ended (hs : Posted s) (hend : task.Ended s) : s = ⟨12, 8, final⟩ := by
  obtain ⟨n, m, ⟨shm, ptoc, ctop, parentOut, childOut, exited⟩⟩ := s
  obtain ⟨rfl, rfl⟩ : n = 12 ∧ m = 8 := hend
  obtain ⟨-, -, -, -, -, -, -, -, -, hexited, -, hchildOut, hparentOut, hremovedShm, hremovedPtoc,
    hremovedCtop⟩ := hs
  simp_all [final]

/-! ### Semaphores that are not zero -/

/-- The parent has printed its own message; it does not print again. -/
def Misread (s : Duet.State Store) : Prop := 7 < s.left ∧ s.store.parentOut = some hello

theorem parentOut_right (h : perform .right c k = some k') : k'.parentOut = k.parentOut := by
  cases c with
  | createShm | exit | unlinkShm => cases h; rfl
  | create sem | unlink sem => cases sem <;> cases h <;> rfl
  | resize | findShm | find | write | print =>
    obtain ⟨_, -, rfl⟩ := Option.map_eq_some_iff.1 h
    rfl
  | post sem =>
    obtain ⟨_, -, rfl⟩ := Option.map_eq_some_iff.1 h
    cases sem <;> rfl
  | wait sem =>
    obtain ⟨_, -, h⟩ := Option.bind_eq_some_iff.1 h
    split at h
    · cases h
    · cases sem <;> cases h <;> rfl
  | join =>
    rw [perform] at h
    split at h
    · cases h; rfl
    · cases h

theorem Misread.call (hs : Misread s) (h : Duet.Call task s t) : Misread t := by
  obtain ⟨n, m, k⟩ := s
  obtain ⟨hn, hout⟩ := hs
  obtain ⟨c, k', hc, hstore, rfl⟩ | ⟨c, k', hc, hstore, rfl⟩ := h.of_once
  · refine ⟨Nat.lt_add_right 1 hn, ?_⟩
    match n with
    | 0 | 1 | 2 | 3 | 4 | 5 | 6 | 7 => exact absurd hn (by simp)
    | 8 =>
      obtain rfl := Option.some.inj hc
      rw [perform] at hstore
      split at hstore
      · cases hstore; exact hout
      · cases hstore
    | 9 | 10 | 11 =>
      obtain rfl := Option.some.inj hc
      cases hstore
      exact hout
    | n + 12 => cases hc
  · exact ⟨hn, (parentOut_right hstore).trans hout⟩

/-- The answer is not waited for. -/
theorem leads_unanswered (shm : Option (Option (List Char))) (ptoc : Option ℕ) {value : ℕ}
    (hvalue : value ≠ 0) : ∃ u, Misread u ∧
      task.Leads ⟨0, 0, forked shm ptoc (some value)⟩ u := by
  have hrun : task.Leads ⟨0, 0, forked shm ptoc (some value)⟩
      ⟨8, 0, ⟨some (some hello), some (ptoc.getD 0 + 1), some (value - 1), some hello, none,
        false⟩⟩ :=
    Duet.leads_left_play Duet.once_single.productive (l := parentCalls.take 8) rfl (by
      simp [Duet.play, parentCalls, Duet.once, perform, Store.sem, Store.setSem, forked, hvalue])
  exact ⟨_, ⟨by simp, rfl⟩, hrun⟩

/-- The child answers before there is a message. -/
theorem leads_early (shm : Option (Option (List Char))) (ctop : Option ℕ) {value : ℕ}
    (hvalue : value ≠ 0) : ∃ u, Misread u ∧
      task.Leads ⟨0, 0, forked shm (some value) ctop⟩ u := by
  obtain ⟨old, hold⟩ : ∃ old, old = (shm.getD none).getD [] := ⟨_, rfl⟩
  have hopen : task.Leads ⟨0, 0, forked shm (some value) ctop⟩
      ⟨4, 0, ⟨some (some old), some value, some (ctop.getD 0), none, none, false⟩⟩ :=
    Duet.leads_left_play Duet.once_single.productive (l := parentCalls.take 4) rfl (by
      simp [Duet.play, parentCalls, Duet.once, perform, Store.sem, Store.setSem, forked, hold])
  have hanswer : task.Leads
      ⟨4, 0, ⟨some (some old), some value, some (ctop.getD 0), none, none, false⟩⟩
      ⟨4, 7, ⟨some (some hi), some (value - 1), some (ctop.getD 0 + 1), none, some old, false⟩⟩ :=
    Duet.leads_right_play Duet.once_single.productive (l := childCalls.take 7) rfl (by
      simp [Duet.play, childCalls, Duet.once, perform, Store.sem, Store.setSem, hvalue])
  have hread : task.Leads
      ⟨4, 7, ⟨some (some hi), some (value - 1), some (ctop.getD 0 + 1), none, some old, false⟩⟩
      ⟨8, 7, ⟨some (some hello), some (value - 1 + 1), some (ctop.getD 0), some hello, some old,
        false⟩⟩ :=
    Duet.leads_left_play Duet.once_single.productive (l := (parentCalls.drop 4).take 4) rfl (by
      simp [Duet.play, parentCalls, Duet.once, perform, Store.sem, Store.setSem])
  exact ⟨_, ⟨by simp, rfl⟩, hopen.trans (hanswer.trans hread)⟩

theorem not_inevitable (h : ∃ u, Misread u ∧ task.Leads ⟨0, 0, forked shm ptoc ctop⟩ u) :
    ¬ (task.machine (forked shm ptoc ctop)).Inevitable (fun s => s = ⟨12, 8, final⟩)
      ⟨0, 0, forked shm ptoc ctop⟩ := by
  intro hinev
  obtain ⟨u, hu, hleads⟩ := h
  have hkeep : ∀ s t, s = ⟨12, 8, final⟩ → (task.machine (forked shm ptoc ctop)).Moves s t →
      t = ⟨12, 8, final⟩ := by
    rintro _ t rfl hmove
    exact absurd hmove (Duet.Ended.rests ⟨rfl, rfl⟩ t)
  obtain ⟨t, hpath, rfl⟩ := (hinev.path hkeep (hleads.path _)).exists_path
  have hmisread : Misread ⟨12, 8, final⟩ :=
    hpath.invariant (I := Misread) hu fun _ a _ _ hs _ hstep => hs.call (Duet.call_iff.2 ⟨a, hstep⟩)
  exact absurd hmisread.2 (by decide)

/-- **The POSIX semaphores.**  Both processes end in whatever order the calls are made, each having
printed the other's message, exactly if there were no semaphores before or their values were zero;
the memory and the semaphores are gone then. -/
theorem sem_exchange (shm : Option (Option (List Char))) (ptoc ctop : Option ℕ) :
    (task.machine (forked shm ptoc ctop)).Inevitable (fun s => s = ⟨12, 8, final⟩)
      ⟨0, 0, forked shm ptoc ctop⟩ ↔ ptoc.getD 0 = 0 ∧ ctop.getD 0 = 0 := by
  constructor
  · intro h
    constructor <;> by_contra hne
    · obtain ⟨value, rfl⟩ : ∃ value, ptoc = some value := by
        cases ptoc with
        | none => exact absurd rfl hne
        | some value => exact ⟨value, rfl⟩
      exact not_inevitable (leads_early shm ctop hne) h
    · obtain ⟨value, rfl⟩ : ∃ value, ctop = some value := by
        cases ctop with
        | none => exact absurd rfl hne
        | some value => exact ⟨value, rfl⟩
      exact not_inevitable (leads_unanswered shm ptoc hne) h
  · rintro ⟨hptoc, hctop⟩
    refine (Duet.inevitable_ended Duet.once_single (posted_forked hptoc hctop)
      (fun _ _ hs h => hs.call h) ?_).mono fun s hs => hs.1.ended hs.2
    exact fun _ hs hwithin hend => hs.progress hwithin hend

end EmbeddedC.Semaphores.Posix
