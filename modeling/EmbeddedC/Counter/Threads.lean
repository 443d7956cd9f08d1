import EmbeddedC.Lib.Progress
import EmbeddedC.Lib.Slots

/-!
# Homework 7: threads that count

Threads increment one variable; with `MUTEX` they do it under a mutex.  An increment reads the
variable, and then writes it.  A `pthread_create` that fails ends the program.

* `Config`: the constants of `functions.h`, and which threads can be created;
* `counterThread`, `firstTask`, `counter`: the threads, the main thread, and all interleaved;
* `ThreadStep`: what a step can do;
* `Regular`: where the threads and the main thread are, in every reachable state;
* `Guarded`: with `MUTEX`, at most one thread is between its lock and its unlock;
* `ends`: in whatever order the threads run, the main thread returns or exits;
* `ended_of_returned`: where it returns, every thread has made its rounds; `created_iff`: it does if
  all threads can be created, and exits if not.
-/

namespace EmbeddedC.Counter

/-- The constants.  The loop variable is an `int` and the sum a `size_t`, and both are in range.
`creates` says which calls of `pthread_create` succeed. -/
structure Config where
  threadNum : ℕ
  targetVal : ℕ
  mutex : Bool
  creates : ℕ → Bool
  index_lt : targetVal / threadNum < 2 ^ 31
  sum_lt : targetVal < 2 ^ 64

/-- `iter_num` -/
def Config.iterNum (C : Config) : ℕ := C.targetVal / C.threadNum

/-- Every `pthread_create` succeeds. -/
def Config.CreatesAll (C : Config) : Prop := ∀ i < C.threadNum, C.creates i = true

/-- Where a `_counter` thread is. -/
inductive Pc
  /-- at `index < iter_num` -/
  | test
  /-- at `pthread_mutex_lock` -/
  | lock
  /-- before it reads the variable -/
  | load
  /-- before it writes the variable -/
  | store (sum : ℕ)
  /-- at `pthread_mutex_unlock` -/
  | unlock
  | ended
  deriving DecidableEq

structure Thread where
  pc : Pc
  index : ℕ
  deriving DecidableEq

/-- Where the main thread is; `left` counts `pthread_create` calls to come. -/
inductive MainPc
  | create (left : ℕ)
  | join (index : ℕ)
  | returned
  /-- behind `exit(EXIT_FAILURE)` -/
  | exited
  deriving DecidableEq

structure State where
  main : MainPc
  threads : List Thread
  globalVar : ℕ
  locked : Bool
  printed : Option ℕ
  deriving DecidableEq

/-- A step of the main thread, or of thread `i`. -/
inductive Action
  | main
  | thread (i : ℕ)
  deriving DecidableEq

def initial (C : Config) : State := ⟨.create C.threadNum, [], 0, false, none⟩

/-- After `exit` there are no threads and no memory. -/
def exited : State := ⟨.exited, [], 0, false, none⟩

def State.setThread (s : State) (i : ℕ) (th : Thread) : State :=
  { s with threads := s.threads.set i th }

/-- The next step of thread `i`; `none` while it waits for the mutex, and at its end. -/
def counterThread (C : Config) (s : State) (i : ℕ) : Option State :=
  match s.threads[i]? with
  | none | some ⟨.ended, _⟩ => none
  | some ⟨.test, index⟩ =>
    if index < C.iterNum then
      some (s.setThread i ⟨if C.mutex then .lock else .load, index⟩)
    else some (s.setThread i ⟨.ended, index⟩)
  | some ⟨.lock, index⟩ =>
    if s.locked then none else some ({ s with locked := true }.setThread i ⟨.load, index⟩)
  | some ⟨.load, index⟩ => some (s.setThread i ⟨.store (s.globalVar + 1), index⟩)
  | some ⟨.store sum, index⟩ =>
    let s := { s with globalVar := sum }
    some (s.setThread i (if C.mutex then ⟨.unlock, index⟩ else ⟨.test, index + 1⟩))
  | some ⟨.unlock, index⟩ => some ({ s with locked := false }.setThread i ⟨.test, index + 1⟩)

/-- The next step of the main thread; `none` while it waits for a thread, and at its end. -/
def firstTask (C : Config) (s : State) : Option State :=
  match s.main with
  | .create 0 => some { s with main := .join 0 }
  | .create (left + 1) =>
    if C.creates s.threads.length then
      some { s with main := .create left, threads := s.threads ++ [⟨.test, 0⟩] }
    else some exited
  | .join index =>
    match s.threads[index]? with
    | none => some { s with main := .returned, printed := some s.globalVar }
    | some th => if th.pc = .ended then some { s with main := .join (index + 1) } else none
  | .returned | .exited => none

def step (C : Config) (s : State) : Action → Option State
  | .main => firstTask C s
  | .thread i => counterThread C s i

/-- All threads, interleaved. -/
def counter (C : Config) : Machine State Action where
  init s := s = initial C
  step := step C

variable {C : Config} {s t : State} {i index sum : ℕ}

/-! ### What a step does -/

/-- What happens in one step, by cases. -/
inductive ThreadStep (C : Config) (s : State) : State → Prop
  | created (hmain : s.main = .create 0) : ThreadStep C s { s with main := .join 0 }
  | create {left : ℕ} (hmain : s.main = .create (left + 1))
    (hcreates : C.creates s.threads.length = true) :
    ThreadStep C s { s with main := .create left, threads := s.threads ++ [⟨.test, 0⟩] }
  | exit {left : ℕ} (hmain : s.main = .create (left + 1))
    (hcreates : C.creates s.threads.length = false) : ThreadStep C s exited
  | join {index : ℕ} {th : Thread} (hmain : s.main = .join index)
    (hth : s.threads[index]? = some th) (hended : th.pc = .ended) :
    ThreadStep C s { s with main := .join (index + 1) }
  | print {index : ℕ} (hmain : s.main = .join index) (hth : s.threads[index]? = none) :
    ThreadStep C s { s with main := .returned, printed := some s.globalVar }
  | begin {i index : ℕ} (hth : s.threads[i]? = some ⟨.test, index⟩) (hlt : index < C.iterNum) :
    ThreadStep C s (s.setThread i ⟨if C.mutex then .lock else .load, index⟩)
  | finish {i index : ℕ} (hth : s.threads[i]? = some ⟨.test, index⟩) (hle : C.iterNum ≤ index) :
    ThreadStep C s (s.setThread i ⟨.ended, index⟩)
  | lock {i index : ℕ} (hth : s.threads[i]? = some ⟨.lock, index⟩) (hfree : s.locked = false) :
    ThreadStep C s ({ s with locked := true }.setThread i ⟨.load, index⟩)
  | load {i index : ℕ} (hth : s.threads[i]? = some ⟨.load, index⟩) :
    ThreadStep C s (s.setThread i ⟨.store (s.globalVar + 1), index⟩)
  | store {i index sum : ℕ} (hth : s.threads[i]? = some ⟨.store sum, index⟩) :
    ThreadStep C s ({ s with globalVar := sum }.setThread i
      (if C.mutex then ⟨.unlock, index⟩ else ⟨.test, index + 1⟩))
  | unlock {i index : ℕ} (hth : s.threads[i]? = some ⟨.unlock, index⟩) :
    ThreadStep C s ({ s with locked := false }.setThread i ⟨.test, index + 1⟩)

namespace ThreadStep

theorem of_firstTask (h : firstTask C s = some t) : ThreadStep C s t := by
  unfold firstTask at h
  split at h
  · obtain rfl := Option.some.inj h
    exact .created ‹_›
  · split at h <;> obtain rfl := Option.some.inj h
    · exact .create ‹_› ‹_›
    · exact .exit ‹_› (Bool.eq_false_iff.2 ‹_›)
  · rename_i index hmain
    split at h
    · obtain rfl := Option.some.inj h
      exact .print hmain ‹_›
    · split at h
      · obtain rfl := Option.some.inj h
        exact .join hmain ‹_› ‹_›
      · cases h
  · cases h
  · cases h

theorem of_counterThread (h : counterThread C s i = some t) : ThreadStep C s t := by
  unfold counterThread at h
  split at h
  · cases h
  · cases h
  · split at h <;> obtain rfl := Option.some.inj h
    · exact .begin ‹_› ‹_›
    · exact .finish ‹_› (not_lt.1 ‹_›)
  · split at h
    · cases h
    · obtain rfl := Option.some.inj h
      exact .lock ‹_› (Bool.eq_false_iff.2 ‹_›)
  · obtain rfl := Option.some.inj h
    exact .load ‹_›
  · obtain rfl := Option.some.inj h
    exact .store ‹_›
  · obtain rfl := Option.some.inj h
    exact .unlock ‹_›

theorem of_step {a : Action} (h : (counter C).step s a = some t) : ThreadStep C s t := by
  cases a with
  | main => exact of_firstTask h
  | thread i => exact of_counterThread h

end ThreadStep

/-! ### Where the threads are -/

/-- A thread counts up to `iter_num`, and ends there. -/
structure Thread.Ok (C : Config) (th : Thread) : Prop where
  le : th.index ≤ C.iterNum
  lt : th.pc ≠ .test → th.pc ≠ .ended → th.index < C.iterNum
  ended : th.pc = .ended → th.index = C.iterNum

/-- Where the main thread is, as far as the other threads know. -/
def MainOk (C : Config) (s : State) : Prop :=
  match s.main with
  | .create left => s.threads.length + left = C.threadNum ∧ s.printed = none
  | .join index => s.threads.length = C.threadNum ∧ index ≤ C.threadNum ∧ s.printed = none ∧
      ∀ j < index, ∀ th, s.threads[j]? = some th → th.pc = .ended
  | .returned => s.threads.length = C.threadNum ∧ s.printed = some s.globalVar ∧
      ∀ (j : ℕ) th, s.threads[j]? = some th → th.pc = .ended
  | .exited => ¬ C.CreatesAll ∧ s.printed = none ∧ s.threads = []

/-- Where everybody is. -/
structure Regular (C : Config) (s : State) : Prop where
  main : MainOk C s
  created (j : ℕ) : j < s.threads.length → C.creates j = true
  threads (j : ℕ) (th : Thread) : s.threads[j]? = some th → th.Ok C

namespace Regular

/-- A thread that has not ended moves. -/
theorem setThread (h : Regular C s) {th th' : Thread} (hth : s.threads[i]? = some th)
    (hpc : th.pc ≠ .ended) (hmain : t.main = s.main) (hprinted : t.printed = s.printed)
    (hthreads : t.threads = s.threads.set i th') (hok : th'.Ok C) : Regular C t := by
  refine ⟨?_, by rw [hthreads, List.length_set]; exact h.created,
    hthreads ▸ List.set_forall h.threads hok⟩
  have hbefore := h.main
  unfold MainOk at hbefore ⊢
  rw [hmain, hprinted, hthreads, List.length_set]
  split <;> rename_i hcase <;> rw [hcase] at hbefore
  · exact hbefore
  · obtain ⟨hlen, hle, hnone, hended⟩ := hbefore
    refine ⟨hlen, hle, hnone, fun j hj th'' hth'' => ?_⟩
    have hne : i ≠ j := by
      rintro rfl
      exact hpc (hended i hj th hth)
    rw [List.getElem?_set_ne hne] at hth''
    exact hended j hj th'' hth''
  · exact absurd (hbefore.2.2 i th hth) hpc
  · rw [hbefore.2.2] at hth
    cases hth

theorem step (h : Regular C s) (hstep : ThreadStep C s t) : Regular C t := by
  have hmain := h.main
  unfold MainOk at hmain
  cases hstep with
  | created hcase =>
    rw [hcase] at hmain
    exact ⟨⟨hmain.1, Nat.zero_le _, hmain.2, fun j hj => absurd hj (Nat.not_lt_zero j)⟩,
      h.created, h.threads⟩
  | create hcase hcreates =>
    rw [hcase] at hmain
    refine ⟨⟨?_, hmain.2⟩, fun j hj => ?_,
      List.concat_forall h.threads ⟨Nat.zero_le _, nofun, nofun⟩⟩
    · rw [List.length_append, List.length_singleton, add_assoc, add_comm 1]
      exact hmain.1
    · rw [List.length_append, List.length_singleton] at hj
      obtain hlt | rfl := Nat.lt_succ_iff_lt_or_eq.1 hj
      · exact h.created j hlt
      · exact hcreates
  | exit hcase hcreates =>
    rw [hcase] at hmain
    refine ⟨⟨fun hall => ?_, rfl, rfl⟩, nofun, nofun⟩
    have hcreated := hall s.threads.length (by omega)
    rw [hcreates] at hcreated
    cases hcreated
  | @join index th hcase hth hended =>
    rw [hcase] at hmain
    obtain ⟨hlen, -, hnone, hbefore⟩ := hmain
    refine ⟨⟨hlen, ?_, hnone, fun j hj th' hth' => ?_⟩, h.created, h.threads⟩
    · exact hlen ▸ List.lt_length_of_getElem?_eq_some hth
    · obtain hlt | rfl := Nat.lt_succ_iff_lt_or_eq.1 hj
      · exact hbefore j hlt th' hth'
      · obtain rfl := Option.some.inj (hth.symm.trans hth')
        exact hended
  | print hcase hth =>
    rw [hcase] at hmain
    obtain ⟨hlen, -, -, hbefore⟩ := hmain
    refine ⟨⟨hlen, rfl, fun j th' hth' => ?_⟩, h.created, h.threads⟩
    have hj := List.lt_length_of_getElem?_eq_some hth'
    exact hbefore j (hj.trans_le (List.getElem?_eq_none_iff.1 hth)) th' hth'
  | begin hth hlt =>
    exact h.setThread hth nofun rfl rfl rfl ⟨hlt.le, fun _ _ => hlt, by simp; split <;> simp⟩
  | finish hth hle =>
    have hok := h.threads _ _ hth
    exact h.setThread hth nofun rfl rfl rfl ⟨hok.le, nofun, fun _ => le_antisymm hok.le hle⟩
  | lock hth | load hth =>
    have hok := h.threads _ _ hth
    exact h.setThread hth nofun rfl rfl rfl ⟨hok.le, fun _ _ => hok.lt nofun nofun, nofun⟩
  | store hth =>
    have hok := h.threads _ _ hth
    have hlt := hok.lt nofun nofun
    refine h.setThread hth nofun rfl rfl rfl ?_
    split
    · exact ⟨hok.le, fun _ _ => hlt, nofun⟩
    · exact ⟨hlt, nofun, nofun⟩
  | unlock hth =>
    have hok := h.threads _ _ hth
    exact h.setThread hth nofun rfl rfl rfl ⟨hok.lt nofun nofun, nofun, nofun⟩

end Regular

theorem regular_of_reachable (h : (counter C).Reachable s) : Regular C s := by
  refine h.invariant (fun s hs => ?_) fun s a t _ hinv hstep => hinv.step (.of_step hstep)
  obtain rfl := hs
  exact ⟨⟨Nat.zero_add _, rfl⟩, nofun, fun j th hth => by simp [initial] at hth⟩

/-! ### The mutex -/

/-- Between its lock and its unlock, where there is a lock. -/
def Thread.inside (th : Thread) : Bool :=
  match th.pc with
  | .load | .store _ | .unlock => true
  | _ => false

/-- With `MUTEX` at most one thread is inside, and the mutex says so; without, nobody uses it. -/
structure Guarded (C : Config) (s : State) : Prop where
  count : C.mutex = true → s.threads.countP Thread.inside = s.locked.toNat
  unused : C.mutex = false → s.locked = false ∧
    ∀ (j : ℕ) th, s.threads[j]? = some th → th.pc ≠ .lock ∧ th.pc ≠ .unlock

namespace Guarded

/-- A thread moves, and may lock or unlock. -/
theorem setThread (h : Guarded C s) {th th' : Thread} (hth : s.threads[i]? = some th)
    (hthreads : t.threads = s.threads.set i th')
    (hcount : C.mutex = true → th'.inside.toNat + s.locked.toNat =
      th.inside.toNat + t.locked.toNat)
    (hunused : C.mutex = false → t.locked = false ∧ th'.pc ≠ .lock ∧ th'.pc ≠ .unlock) :
    Guarded C t := by
  constructor
  · intro hmutex
    have hset := List.countP_set_add hth Thread.inside th'
    rw [← hthreads] at hset
    have hone (th : Thread) : (if th.inside = true then 1 else 0) = th.inside.toNat := by
      cases th.inside <;> rfl
    rw [hone, hone, h.count hmutex] at hset
    have := hcount hmutex
    omega
  · intro hmutex
    refine ⟨(hunused hmutex).1, ?_⟩
    rw [hthreads]
    exact List.set_forall (h.unused hmutex).2 (hunused hmutex).2

theorem step (h : Guarded C s) (hstep : ThreadStep C s t) : Guarded C t := by
  cases hstep with
  | created | join | print => exact ⟨h.count, h.unused⟩
  | create =>
    refine ⟨fun hmutex => ?_, fun hmutex => ?_⟩
    · simpa [Thread.inside] using h.count hmutex
    · exact ⟨(h.unused hmutex).1, List.concat_forall (h.unused hmutex).2 ⟨nofun, nofun⟩⟩
  | exit => exact ⟨fun _ => rfl, fun _ => ⟨rfl, nofun⟩⟩
  | begin hth =>
    refine h.setThread hth rfl (fun hmutex => ?_) fun hmutex => ⟨(h.unused hmutex).1, ?_⟩
    · rw [if_pos hmutex]
      rfl
    · rw [if_neg (by simp [hmutex])]
      exact ⟨nofun, nofun⟩
  | finish hth | load hth =>
    exact h.setThread hth rfl (fun _ => rfl) fun hmutex => ⟨(h.unused hmutex).1, nofun, nofun⟩
  | lock hth hfree =>
    refine h.setThread hth rfl (fun _ => ?_) fun hmutex => ?_
    · rw [hfree]
      rfl
    · exact absurd rfl ((h.unused hmutex).2 _ _ hth).1
  | store hth =>
    refine h.setThread hth rfl (fun hmutex => ?_) fun hmutex => ⟨(h.unused hmutex).1, ?_⟩
    · rw [if_pos hmutex]
      rfl
    · rw [if_neg (by simp [hmutex])]
      exact ⟨nofun, nofun⟩
  | @unlock i index hth =>
    refine h.setThread hth rfl (fun hmutex => ?_) fun hmutex => ?_
    · -- a thread at its unlock is inside, so the mutex is locked
      have hpos := List.countP_pos_of_getElem? hth (p := Thread.inside) rfl
      rw [h.count hmutex] at hpos
      rw [Nat.le_antisymm (Bool.toNat_le s.locked) hpos]
      rfl
    · exact absurd rfl ((h.unused hmutex).2 _ _ hth).2

end Guarded

theorem guarded_of_reachable (h : (counter C).Reachable s) : Guarded C s := by
  refine h.invariant (fun s hs => ?_) fun s a t _ hinv hstep => hinv.step (.of_step hstep)
  obtain rfl := hs
  exact ⟨fun _ => rfl, fun _ => ⟨rfl, fun j th hth => by simp [initial] at hth⟩⟩

/-! ### The end -/

/-- How many steps thread `th` can still make, and with it those of its rounds. -/
def Thread.left (C : Config) (th : Thread) : ℕ :=
  match th.pc with
  | .test => 5 * (C.iterNum - th.index) + 1
  | .lock => 5 * (C.iterNum - th.index)
  | .load => 5 * (C.iterNum - th.index) - 1
  | .store _ => 5 * (C.iterNum - th.index) - 2
  | .unlock => 5 * (C.iterNum - th.index) - 3
  | .ended => 0

/-- How many steps the main thread can still make, with those of the threads it will create. -/
def MainPc.left (C : Config) : MainPc → ℕ
  | .create left => left * (5 * C.iterNum + 2) + C.threadNum + 2
  | .join index => C.threadNum - index + 1
  | .returned | .exited => 0

/-- How many steps there can still be. -/
def State.left (C : Config) (s : State) : ℕ :=
  s.main.left C + (s.threads.map (Thread.left C)).sum

theorem left_setThread {th th' : Thread} (hth : s.threads[i]? = some th)
    (hlt : th'.left C < th.left C) (hmain : t.main = s.main)
    (hthreads : t.threads = s.threads.set i th') : t.left C < s.left C := by
  have hsum := List.sum_map_set_add hth (Thread.left C) th'
  rw [State.left, State.left, hmain, hthreads]
  omega

/-- Every step is one of those that are left. -/
theorem left_lt (h : Regular C s) (hstep : ThreadStep C s t) : t.left C < s.left C := by
  have hmain := h.main
  unfold MainOk at hmain
  cases hstep with
  | created hcase =>
    simp only [State.left, hcase, MainPc.left]
    omega
  | create hcase =>
    simp only [State.left, hcase, MainPc.left, List.map_append, List.sum_append, List.map_singleton,
      List.sum_singleton, Thread.left, Nat.add_mul]
    omega
  | exit hcase =>
    simp only [State.left, exited, hcase, MainPc.left, List.map_nil, List.sum_nil]
    omega
  | join hcase hth =>
    have hlt := List.lt_length_of_getElem?_eq_some hth
    rw [hcase] at hmain
    simp only [State.left, hcase, MainPc.left]
    omega
  | print hcase =>
    simp only [State.left, hcase, MainPc.left]
    omega
  | begin hth hlt =>
    refine left_setThread hth ?_ rfl rfl
    split <;> simp only [Thread.left] <;> omega
  | finish hth =>
    refine left_setThread hth ?_ rfl rfl
    simp only [Thread.left]
    omega
  | lock hth | load hth | unlock hth =>
    have hlt := (h.threads _ _ hth).lt nofun nofun
    refine left_setThread hth ?_ rfl rfl
    simp only [Thread.left] at hlt ⊢
    omega
  | store hth =>
    have hlt := (h.threads _ _ hth).lt nofun nofun
    refine left_setThread hth ?_ rfl rfl
    split <;> simp only [Thread.left] at hlt ⊢ <;> omega

/-- A thread can move, unless it has ended or waits. -/
theorem exists_thread_step {th : Thread} (hth : s.threads[i]? = some th) (hended : th.pc ≠ .ended)
    (hlock : th.pc = .lock → s.locked = false) : ∃ t, (counter C).step s (.thread i) = some t := by
  obtain ⟨pc, index⟩ := th
  change ∃ t, counterThread C s i = some t
  unfold counterThread
  rw [hth]
  cases pc with
  | ended => exact absurd rfl hended
  | lock =>
    simp only [hlock rfl]
    exact ⟨_, rfl⟩
  | test =>
    simp only
    split <;> exact ⟨_, rfl⟩
  | load | store sum | unlock => exact ⟨_, rfl⟩

/-- The main thread has returned, or the program has exited. -/
def State.Over (s : State) : Prop := s.main = .returned ∨ s.main = .exited

/-- Until the main thread returns or exits, somebody can move. -/
theorem exists_step (hguard : Guarded C s) (hover : ¬ s.Over) :
    ∃ a t, (counter C).step s a = some t := by
  -- a thread that waits for the mutex waits for one that can move
  have hthread {i : ℕ} {th : Thread} (hth : s.threads[i]? = some th) (hended : th.pc ≠ .ended) :
      ∃ a t, (counter C).step s a = some t := by
    by_cases hwait : th.pc = .lock ∧ s.locked = true
    · have hmutex : C.mutex = true := by
        by_contra hno
        exact ((hguard.unused (Bool.eq_false_iff.2 hno)).2 i th hth).1 hwait.1
      have hcount := hguard.count hmutex
      rw [hwait.2] at hcount
      have hpos : 0 < s.threads.countP Thread.inside := by
        rw [hcount]
        exact Nat.one_pos
      obtain ⟨holder, hmem, hinside⟩ := List.countP_pos_iff.1 hpos
      obtain ⟨j, hj⟩ := List.getElem?_of_mem hmem
      refine ⟨.thread j, exists_thread_step hj ?_ ?_⟩ <;> intro hpc <;>
        simp [Thread.inside, hpc] at hinside
    · refine ⟨.thread i, exists_thread_step hth hended fun hpc => ?_⟩
      exact Bool.eq_false_iff.2 fun hlocked => hwait ⟨hpc, hlocked⟩
  have hfirst (hex : ∃ t, firstTask C s = some t) : ∃ a t, (counter C).step s a = some t :=
    ⟨.main, hex⟩
  unfold firstTask at hfirst
  cases hmain : s.main with
  | create left =>
    rw [hmain] at hfirst
    cases left with
    | zero => exact hfirst ⟨_, rfl⟩
    | succ left =>
      simp only at hfirst
      split at hfirst <;> exact hfirst ⟨_, rfl⟩
  | join index =>
    rw [hmain] at hfirst
    cases hth : s.threads[index]? with
    | none =>
      simp only [hth] at hfirst
      exact hfirst ⟨_, rfl⟩
    | some th =>
      by_cases hended : th.pc = .ended
      · simp only [hth, if_pos hended] at hfirst
        exact hfirst ⟨_, rfl⟩
      · exact hthread hth hended
  | returned => exact absurd (.inl hmain) hover
  | exited => exact absurd (.inr hmain) hover

/-- In whatever order the threads run, the main thread returns or exits. -/
theorem ends (h : (counter C).Reachable s) : (counter C).Inevitable State.Over s := by
  refine Machine.inevitable_of_measure (I := (counter C).Reachable) (State.left C)
    (fun s hs hover => ?_) (fun s t hs hmove => ?_) h
  · obtain ⟨a, t, hstep⟩ := exists_step (guarded_of_reachable hs) hover
    refine ⟨t, fun heq => ?_, a, hstep⟩
    exact absurd (left_lt (regular_of_reachable hs) (.of_step hstep)) (heq ▸ lt_irrefl _)
  · obtain ⟨-, a, hstep⟩ := hmove
    exact ⟨hs.step hstep, left_lt (regular_of_reachable hs) (.of_step hstep)⟩

/-- It returns if every thread can be created, and else it exits. -/
theorem created_iff (h : (counter C).Reachable s) (hover : s.Over) :
    (s.main = .returned ↔ C.CreatesAll) ∧ (s.main = .exited ↔ ¬ C.CreatesAll) := by
  have hreg := regular_of_reachable h
  have hmain := hreg.main
  unfold MainOk at hmain
  rcases hover with hret | hexit
  · rw [hret] at hmain
    have hall : C.CreatesAll := fun j hj => hreg.created j (hmain.1.symm ▸ hj)
    simp [hret, hall]
  · rw [hexit] at hmain
    simp [hexit, hmain.1]

/-- In whatever order the threads run, the main thread returns if every thread can be created. -/
theorem returns (hcreates : C.CreatesAll) (h : (counter C).Reachable s) :
    (counter C).Inevitable (fun s => s.main = .returned) s := by
  refine ((ends h).and_reachable h).mono ?_
  rintro t ⟨hover, ht⟩
  exact (created_iff ht hover).1.2 hcreates

theorem initial_reachable (C : Config) : (counter C).Reachable (initial C) := ⟨_, rfl, .refl⟩

/-- Where the main thread has returned, every thread has made its rounds. -/
theorem ended_of_returned (h : (counter C).Reachable s) (hret : s.main = .returned) :
    s.printed = some s.globalVar ∧ s.threads.length = C.threadNum ∧
      ∀ th ∈ s.threads, th.pc = .ended ∧ th.index = C.iterNum := by
  have hreg := regular_of_reachable h
  have hmain := hreg.main
  rw [MainOk, hret] at hmain
  refine ⟨hmain.2.1, hmain.1, fun th hth => ?_⟩
  obtain ⟨j, hj⟩ := List.getElem?_of_mem hth
  have hended := hmain.2.2 j th hj
  exact ⟨hended, (hreg.threads j th hj).ended hended⟩

end EmbeddedC.Counter
