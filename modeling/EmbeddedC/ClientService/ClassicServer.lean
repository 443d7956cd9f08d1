import EmbeddedC.Lib.Machine
import EmbeddedC.ClientService.Acceptor

/-!
# Homework 16: `classic_server`

The main thread writes every accepted fd into a free slot of `clients_q` and posts
`clients_counter`; each `tcp_server_thread` worker waits on that semaphore, walks through the
slots, and serves the first one that is in use and whose mutex it can lock.

* `SemName`: the semaphores are opened by name;
* `TcpClient`, `ThreadPc`, `tcpServerThread`: the slots, and one call of a worker;
* `MainPc`, `classicMain`: one call of the main thread, growth included;
* `classicServer`: the main thread and the workers, interleaved.

A slot's fd is the number of its connection, in the order of `accept`; `NULL` is `none`.
-/

namespace EmbeddedC.ClientService.Classic

/-! ### Semaphores -/

/-- The names under which the semaphores are opened. -/
inductive SemName
  /-- `SERVER_SERVED_TCP_CLIENTS_SEM_NAME` -/
  | servedTcpClients
  /-- `SERVER_TCP_BUSY_THREADS_SEM_NAME` -/
  | busyTcpThreads
  deriving DecidableEq

def clientsCounter : SemName := .servedTcpClients

def busyThreads : SemName := .busyTcpThreads

def servedClients : SemName := .servedTcpClients

/-- The values of the semaphores. -/
abbrev Sems := SemName → ℕ

def Sems.post (sems : Sems) (name : SemName) : Sems :=
  Function.update sems name (sems name + 1)

/-- `sem_trywait`; `sem_wait` where the value is positive. -/
def Sems.take (sems : Sems) (name : SemName) : Sems :=
  Function.update sems name (sems name - 1)

/-! ### Slots and workers -/

/-- `struct tcp_client_t`: a slot of `clients_q`. -/
structure TcpClient where
  clientFd : Option ℕ
  locked : Bool
  deriving DecidableEq

/-- Where a `tcp_server_thread` is; `index` is its loop variable, `c` its `client_fd`. -/
inductive ThreadPc
  /-- at `sem_wait(clients_counter)` -/
  | waitCounter
  /-- at `sem_post(busy_threads)` -/
  | postBusy
  /-- at the head of the loop over `clients_q` -/
  | scan (index : ℕ)
  /-- at `pthread_mutex_trylock` -/
  | tryLock (index : ℕ)
  /-- the slot is locked and its `client_fd` is read next -/
  | readFd (index : ℕ)
  /-- at `send` -/
  | send (index c : ℕ)
  /-- at `recv` -/
  | recv (index c : ℕ)
  /-- at `sem_post(served_clients)` -/
  | postServed (index c : ℕ)
  /-- at `close` -/
  | close (index c : ℕ)
  /-- about to write `NULL` into the slot -/
  | clear (index : ℕ) (c : Option ℕ)
  /-- at `pthread_mutex_unlock` -/
  | unlock (index : ℕ)
  /-- at `sem_trywait(busy_threads)` -/
  | tryBusy
  deriving DecidableEq

/-- Where the main thread is; `left` counts `pthread_create` calls to come. -/
inductive MainPc
  /-- before the main loop: the workers are created -/
  | create (left : ℕ)
  /-- at `accept` -/
  | accept
  /-- at the head of the loop that looks for a free slot for `client_fd` -/
  | store (c index : ℕ)
  /-- at `sem_getvalue(busy_threads)` -/
  | checkBusy
  /-- more workers are created -/
  | growThreads (left : ℕ)
  /-- at `sem_post(clients_counter)` -/
  | post
  deriving DecidableEq

/-- The main thread, the workers and what they share.  `freed` is the history of the connections
whose slots were freed, each with the worker that served it. -/
structure State where
  main : MainPc
  allocThreads : ℕ
  allocClients : ℕ
  threads : List ThreadPc
  clientsQ : List TcpClient
  sems : Sems
  accepted : ℕ
  freed : List (ℕ × ℕ)

/-- What can happen next: a call of the main thread other than `accept`, an `accept`, or a call of
worker `i`.  `junk` is found in the memory that `realloc` adds; `ok` tells whether a `send` or
`recv` succeeds. -/
inductive Action
  | main (junk : TcpClient × TcpClient)
  | accept
  | thread (i : ℕ) (ok : Bool)
  deriving DecidableEq

/-- The semaphores are set to 0, the slots are free. -/
def initial (allocThreads allocClients : ℕ) : State where
  main := .create allocThreads
  allocThreads := allocThreads
  allocClients := allocClients
  threads := []
  clientsQ := List.replicate allocClients ⟨none, false⟩
  sems := fun _ => 0
  accepted := 0
  freed := []

/-- The enlarged `clients_q`.  The loop that initialises the new entries counts `sec_index` down
from `alloc_clients - 1`, and writes to `alloc_clients - sec_index`. -/
def growClients (q : List TcpClient) (junk : TcpClient × TcpClient) : List TcpClient :=
  (List.range serverDefAlloc).foldl (fun q k => q.set (k + 1) ⟨none, false⟩)
    (q ++ [junk.1, junk.2])

/-- The main thread's next call, other than `accept`. -/
def classicMain (s : State) (junk : TcpClient × TcpClient) : Option State :=
  match s.main with
  | .create 0 => some { s with main := .accept }
  | .create (left + 1) =>
    some { s with main := .create left, threads := s.threads ++ [.waitCounter] }
  | .accept => none
  | .store c index =>
    if index < s.allocClients then
      match s.clientsQ[index]? with
      | some ⟨none, locked⟩ =>
        some { s with
          main := .checkBusy
          clientsQ := s.clientsQ.set index ⟨some c, locked⟩ }
      | _ => some { s with main := .store c (index + 1) }
    else
      -- no free slot: the queue grows, and the fd is not stored
      some { s with
        main := .checkBusy
        allocClients := s.allocClients + serverDefAlloc
        clientsQ := growClients s.clientsQ junk }
  | .checkBusy =>
    if s.allocThreads < s.sems busyThreads + serverDefAlloc then
      some { s with
        main := .growThreads serverDefAlloc
        allocThreads := s.allocThreads + serverDefAlloc }
    else some { s with main := .post }
  | .growThreads 0 => some { s with main := .post }
  | .growThreads (left + 1) =>
    some { s with main := .growThreads left, threads := s.threads ++ [.waitCounter] }
  | .post => some { s with main := .accept, sems := s.sems.post clientsCounter }

/-- Move worker `i` to `pc`. -/
def State.setThread (s : State) (i : ℕ) (pc : ThreadPc) : State :=
  { s with threads := s.threads.set i pc }

/-- The next call of worker `i`; `none` while it blocks, or when it writes outside of
`clients_q`. -/
def tcpServerThread (s : State) (i : ℕ) (ok : Bool) : Option State :=
  match s.threads[i]? with
  | none => none
  | some .waitCounter =>
    if s.sems clientsCounter = 0 then none
    else some { s.setThread i .postBusy with sems := s.sems.take clientsCounter }
  | some .postBusy => some { s.setThread i (.scan 0) with sems := s.sems.post busyThreads }
  | some (.scan index) =>
    if index < s.allocClients then
      match s.clientsQ[index]? with
      | some ⟨some _, _⟩ => some (s.setThread i (.tryLock index))
      | _ => some (s.setThread i (.scan (index + 1)))
    else some (s.setThread i (.clear index none))
  | some (.tryLock index) =>
    match s.clientsQ[index]? with
    | some ⟨fd, false⟩ =>
      some { s.setThread i (.readFd index) with clientsQ := s.clientsQ.set index ⟨fd, true⟩ }
    | _ => some (s.setThread i (.scan (index + 1)))
  | some (.readFd index) =>
    match s.clientsQ[index]? with
    | some ⟨some c, _⟩ => some (s.setThread i (.send index c))
    | _ => some (s.setThread i (.clear index none))
  | some (.send index c) =>
    some (s.setThread i (if ok then .recv index c else .close index c))
  | some (.recv index c) =>
    some (s.setThread i (if ok then .postServed index c else .close index c))
  | some (.postServed index c) =>
    some { s.setThread i (.close index c) with sems := s.sems.post servedClients }
  | some (.close index c) => some (s.setThread i (.clear index (some c)))
  | some (.clear index c) =>
    (s.clientsQ[index]?).map fun slot => { s.setThread i (.unlock index) with
      clientsQ := s.clientsQ.set index { slot with clientFd := none }
      freed := s.freed ++ c.toList.map fun c => (i, c) }
  | some (.unlock index) =>
    (s.clientsQ[index]?).map fun slot => { s.setThread i .tryBusy with
      clientsQ := s.clientsQ.set index { slot with locked := false } }
  | some .tryBusy => some { s.setThread i .waitCounter with sems := s.sems.take busyThreads }

def step (s : State) : Action → Option State
  | .main junk => classicMain s junk
  | .accept =>
    match s.main with
    | .accept => some { s with main := .store s.accepted 0, accepted := s.accepted + 1 }
    | _ => none
  | .thread i ok => tcpServerThread s i ok

/-- `classic_server`: the main thread and the workers, interleaved.  The source begins with 20
threads and 2 slots. -/
def classicServer : Machine State Action where
  init s := ∃ allocThreads allocClients, s = initial allocThreads allocClients
  step := step

/-! ### What one call does -/

namespace ThreadPc

/-- The slot from which on a worker that passed `sem_wait` looks for an fd, or which it keeps. -/
def claim : ThreadPc → Option ℕ
  | .postBusy => some 0
  | .scan index | .tryLock index | .readFd index | .send index _ | .recv index _
  | .postServed index _ | .close index _ | .clear index _ => some index
  | .waitCounter | .unlock _ | .tryBusy => none

/-- The slot whose mutex the worker holds. -/
def slot : ThreadPc → Option ℕ
  | .readFd index | .send index _ | .recv index _ | .postServed index _ | .close index _
  | .clear index _ | .unlock index => some index
  | _ => none

/-- The connection in the worker's hand. -/
def conn : ThreadPc → Option ℕ
  | .send _ c | .recv _ c | .postServed _ c | .close _ c => some c
  | .clear _ c => c
  | _ => none

/-- The phases between which a worker moves without a change to the slots. -/
inductive Moves : ThreadPc → ThreadPc → Prop
  | postBusy : Moves .postBusy (.scan 0)
  | scan (index : ℕ) : Moves (.scan index) (.tryLock index)
  | send (index c : ℕ) : Moves (.send index c) (.recv index c)
  | notSent (index c : ℕ) : Moves (.send index c) (.close index c)
  | notReceived (index c : ℕ) : Moves (.recv index c) (.close index c)
  | close (index c : ℕ) : Moves (.close index c) (.clear index (some c))
  | tryBusy : Moves .tryBusy .waitCounter

variable {pc pc' : ThreadPc}

theorem Moves.claim (h : pc.Moves pc') : pc'.claim = pc.claim := by cases h <;> rfl

theorem Moves.slot (h : pc.Moves pc') : pc'.slot = pc.slot := by cases h <;> rfl

end ThreadPc

/-- What one call of worker `i` can do. -/
inductive ThreadStep (s : State) (i : ℕ) : Bool → State → Prop
  | move {ok : Bool} {pc pc' : ThreadPc} {sems : Sems} (hpc : s.threads[i]? = some pc)
      (hmoves : pc.Moves pc') (hsems : sems clientsCounter = s.sems clientsCounter) :
      ThreadStep s i ok { s.setThread i pc' with sems := sems }
  | wake {ok : Bool} (hpc : s.threads[i]? = some .waitCounter) (hpos : s.sems clientsCounter ≠ 0) :
      ThreadStep s i ok { s.setThread i .postBusy with sems := s.sems.take clientsCounter }
  /-- the slot is not in use -/
  | pass {ok : Bool} {index : ℕ} (hpc : s.threads[i]? = some (.scan index))
      (hslot : ∀ slot, s.clientsQ[index]? = some slot → slot.clientFd = none) :
      ThreadStep s i ok (s.setThread i (.scan (index + 1)))
  /-- the scan ends without a slot -/
  | notFound {ok : Bool} {index : ℕ} (hpc : s.threads[i]? = some (.scan index))
      (hend : s.allocClients ≤ index) : ThreadStep s i ok (s.setThread i (.clear index none))
  /-- the slot's mutex is locked -/
  | skip {ok : Bool} {index : ℕ} (hpc : s.threads[i]? = some (.tryLock index))
      (hslot : ∀ slot, s.clientsQ[index]? = some slot → slot.locked = true) :
      ThreadStep s i ok (s.setThread i (.scan (index + 1)))
  | lock {ok : Bool} {index : ℕ} {fd : Option ℕ} (hpc : s.threads[i]? = some (.tryLock index))
      (hslot : s.clientsQ[index]? = some ⟨fd, false⟩) :
      ThreadStep s i ok
        { s.setThread i (.readFd index) with clientsQ := s.clientsQ.set index ⟨fd, true⟩ }
  | read {ok : Bool} {index c : ℕ} {locked : Bool} (hpc : s.threads[i]? = some (.readFd index))
      (hslot : s.clientsQ[index]? = some ⟨some c, locked⟩) :
      ThreadStep s i ok (s.setThread i (.send index c))
  /-- the slot has been freed before it was locked -/
  | readNull {ok : Bool} {index : ℕ} (hpc : s.threads[i]? = some (.readFd index))
      (hslot : ∀ slot, s.clientsQ[index]? = some slot → slot.clientFd = none) :
      ThreadStep s i ok (s.setThread i (.clear index none))
  | received {index c : ℕ} (hpc : s.threads[i]? = some (.recv index c)) :
      ThreadStep s i true (s.setThread i (.postServed index c))
  | served {ok : Bool} {index c : ℕ} (hpc : s.threads[i]? = some (.postServed index c)) :
      ThreadStep s i ok
        { s.setThread i (.close index c) with sems := s.sems.post servedClients }
  | clear {ok : Bool} {index : ℕ} {c : Option ℕ} {slot : TcpClient}
      (hpc : s.threads[i]? = some (.clear index c)) (hslot : s.clientsQ[index]? = some slot) :
      ThreadStep s i ok { s.setThread i (.unlock index) with
        clientsQ := s.clientsQ.set index { slot with clientFd := none }
        freed := s.freed ++ c.toList.map fun c => (i, c) }
  | unlock {ok : Bool} {index : ℕ} {slot : TcpClient}
      (hpc : s.threads[i]? = some (.unlock index)) (hslot : s.clientsQ[index]? = some slot) :
      ThreadStep s i ok { s.setThread i .tryBusy with
        clientsQ := s.clientsQ.set index { slot with locked := false } }

theorem tcpServerThread_step {s t : State} {i : ℕ} {ok : Bool}
    (h : tcpServerThread s i ok = some t) : ThreadStep s i ok t := by
  unfold tcpServerThread at h
  split at h <;> rename_i hpc
  · cases h
  · split at h
    · cases h
    · obtain rfl := Option.some.inj h
      exact .wake hpc ‹_›
  · obtain rfl := Option.some.inj h
    exact .move hpc .postBusy (Function.update_of_ne (by decide) _ _)
  · split at h
    · split at h <;> obtain rfl := Option.some.inj h
      · exact .move hpc (.scan _) rfl
      · rename_i hunused
        refine .pass hpc fun ⟨fd, locked⟩ hslot => ?_
        cases fd with
        | none => rfl
        | some c => exact (hunused c locked hslot).elim
    · obtain rfl := Option.some.inj h
      exact .notFound hpc (by omega)
  · split at h <;> obtain rfl := Option.some.inj h
    · exact .lock hpc ‹_›
    · rename_i hlocked
      refine .skip hpc fun ⟨fd, locked⟩ hslot => ?_
      cases locked with
      | true => rfl
      | false => exact (hlocked fd hslot).elim
  · split at h <;> obtain rfl := Option.some.inj h
    · exact .read hpc ‹_›
    · rename_i hunused
      refine .readNull hpc fun ⟨fd, locked⟩ hslot => ?_
      cases fd with
      | none => rfl
      | some c => exact (hunused c locked hslot).elim
  · obtain rfl := Option.some.inj h
    cases ok with
    | true => exact .move hpc (.send _ _) rfl
    | false => exact .move hpc (.notSent _ _) rfl
  · obtain rfl := Option.some.inj h
    cases ok with
    | true => exact .received hpc
    | false => exact .move hpc (.notReceived _ _) rfl
  · obtain rfl := Option.some.inj h
    exact .served hpc
  · obtain rfl := Option.some.inj h
    exact .move hpc (.close _ _) rfl
  · obtain ⟨slot, hslot, rfl⟩ := Option.map_eq_some_iff.1 h
    exact .clear hpc hslot
  · obtain ⟨slot, hslot, rfl⟩ := Option.map_eq_some_iff.1 h
    exact .unlock hpc hslot
  · obtain rfl := Option.some.inj h
    exact .move hpc .tryBusy (Function.update_of_ne (by decide) _ _)

end EmbeddedC.ClientService.Classic
