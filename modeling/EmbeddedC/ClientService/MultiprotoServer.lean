import EmbeddedC.Lib.Machine
import EmbeddedC.Lib.Slots
import EmbeddedC.ClientService.Acceptor

/-!
# Homework 16: `multiproto_server`, the TCP path

The main thread hands every accepted fd to a pool of `_tcp_server_thread` workers through
`tcp_fds_q`; each worker serves one client at a time, and three semaphores count free threads,
busy threads and served clients.

* `TcpThreadPc`, `tcpServerThread`: one worker, one call a step;
* `tcpServerThread_cases`: what one call of a worker does;
* `State`, `Action`, `multiprotoServer`: the main thread and any number of workers, interleaved.

The UDP half of the main loop touches none of this state and is left out.  `recv` returns a
message, the end of the stream or an error; after each of these the worker goes on to `close`
(`ECONNRESET` calls `exit`, which ends the run).
-/

namespace EmbeddedC.ClientService.Multiproto

/-- Where a `_tcp_server_thread` is; `fd` is the dequeued fd.  After `close` the descriptor is
dead and `c` remembers the connection it named. -/
inductive TcpThreadPc
  /-- opening the queue and the semaphores, then the first `sem_post(free_tcp_threads_sem)` -/
  | starting
  /-- at `mq_receive(tcp_fds_q)` -/
  | receive
  /-- at `sem_wait(free_tcp_threads_sem)` -/
  | waitFree (fd : ℕ)
  /-- at `sem_post(busy_tcp_threads_sem)` -/
  | postBusy (fd : ℕ)
  /-- at `recv` -/
  | recv (fd : ℕ)
  /-- at `close` -/
  | close (fd : ℕ)
  /-- at `sem_wait(busy_tcp_threads_sem)` -/
  | waitBusy (c : Option ℕ)
  /-- at `sem_post(free_tcp_threads_sem)` -/
  | postFree (c : Option ℕ)
  /-- at `sem_post(clients_count_sem)` -/
  | postServed (c : Option ℕ)
  deriving DecidableEq

namespace TcpThreadPc

/-- The fd in the worker's hand. -/
def hand : TcpThreadPc → Option ℕ
  | .waitFree fd | .postBusy fd | .recv fd | .close fd => some fd
  | _ => none

/-- The connection the worker has closed in an iteration it has not completed. -/
def finishing : TcpThreadPc → Option ℕ
  | .waitBusy c | .postFree c | .postServed c => c
  | _ => none

/-- The worker has posted `free_tcp_threads_sem` and not yet taken it back: it is idle, or holds
an fd just dequeued. -/
def isFree : TcpThreadPc → Bool
  | .receive | .waitFree _ | .postServed _ => true
  | _ => false

/-- The worker is between its post of `busy_tcp_threads_sem` and its wait on it. -/
def isBusy : TcpThreadPc → Bool
  | .recv _ | .close _ | .waitBusy _ => true
  | _ => false

end TcpThreadPc

/-- The pool, with the histories of the connections taken from `tcp_fds_q` and closed. -/
structure State extends Pool TcpThreadPc where
  taken : List ℕ
  closed : List ℕ

/-- What can happen next: a call of the main thread, an `accept` that returns `fd`, or a call of
worker `i`. -/
inductive Action
  | main
  | accept (fd : ℕ)
  | thread (i : ℕ)
  deriving DecidableEq

def initial : State where
  toPool := Pool.initial TcpThreadPc
  taken := []
  closed := []

/-- The next call of worker `i`; `none` while it blocks. -/
def tcpServerThread (s : State) (i : ℕ) : Option State :=
  match s.tcpThreads[i]? with
  | none => none
  | some .starting =>
    some { s with
      freeTcpThreadsSem := s.freeTcpThreadsSem + 1
      tcpThreads := s.tcpThreads.set i .receive }
  | some .receive =>
    (MessageQueue.receive (fun _ => 0) s.tcpFdsQ).map fun (fd, q) => { s with
      tcpFdsQ := q
      taken := s.taken ++ (s.conn fd).toList
      tcpThreads := s.tcpThreads.set i (.waitFree fd) }
  | some (.waitFree fd) =>
    if s.freeTcpThreadsSem = 0 then none else some { s with
      freeTcpThreadsSem := s.freeTcpThreadsSem - 1
      tcpThreads := s.tcpThreads.set i (.postBusy fd) }
  | some (.postBusy fd) =>
    some { s with
      busyTcpThreadsSem := s.busyTcpThreadsSem + 1
      tcpThreads := s.tcpThreads.set i (.recv fd) }
  | some (.recv fd) => some { s with tcpThreads := s.tcpThreads.set i (.close fd) }
  | some (.close fd) =>
    some { s with
      conn := Function.update s.conn fd none
      closed := s.closed ++ (s.conn fd).toList
      tcpThreads := s.tcpThreads.set i (.waitBusy (s.conn fd)) }
  | some (.waitBusy c) =>
    if s.busyTcpThreadsSem = 0 then none else some { s with
      busyTcpThreadsSem := s.busyTcpThreadsSem - 1
      tcpThreads := s.tcpThreads.set i (.postFree c) }
  | some (.postFree c) =>
    some { s with
      freeTcpThreadsSem := s.freeTcpThreadsSem + 1
      tcpThreads := s.tcpThreads.set i (.postServed c) }
  | some (.postServed _) =>
    some { s with
      servedTcpClients := s.servedTcpClients + 1
      tcpThreads := s.tcpThreads.set i .receive }

def step (s : State) : Action → Option State
  | .main => (s.toPool.mainStep .starting).map fun p => { s with toPool := p }
  | .accept fd => (s.toPool.accept fd).map fun p => { s with toPool := p }
  | .thread i => tcpServerThread s i

/-- `multiproto_server`, TCP path: the main thread and the workers, interleaved. -/
def multiprotoServer : Machine State Action where
  init s := s = initial
  step := step

/-! ### What one call of a worker does -/

/-- The phases between which a worker moves with the same fd or connection. -/
inductive TcpThreadPc.Moves : TcpThreadPc → TcpThreadPc → Prop
  | starting : Moves .starting .receive
  | waitFree (fd : ℕ) : Moves (.waitFree fd) (.postBusy fd)
  | postBusy (fd : ℕ) : Moves (.postBusy fd) (.recv fd)
  | recv (fd : ℕ) : Moves (.recv fd) (.close fd)
  | waitBusy (c : Option ℕ) : Moves (.waitBusy c) (.postFree c)
  | postFree (c : Option ℕ) : Moves (.postFree c) (.postServed c)

theorem TcpThreadPc.Moves.hand {pc pc' : TcpThreadPc} (h : pc.Moves pc') : pc'.hand = pc.hand := by
  cases h <;> rfl

theorem TcpThreadPc.Moves.finishing {pc pc' : TcpThreadPc} (h : pc.Moves pc') :
    pc'.finishing = pc.finishing := by
  cases h <;> rfl

/-- A worker moves on and changes the semaphores by what its phases count, takes an fd, closes
it, or completes its iteration. -/
theorem tcpServerThread_cases {s t : State} {i : ℕ} (h : tcpServerThread s i = some t) :
    (∃ pc pc' free busy, s.tcpThreads[i]? = some pc ∧ pc.Moves pc' ∧
      free + (if pc.isFree then 1 else 0) = s.freeTcpThreadsSem + (if pc'.isFree then 1 else 0) ∧
      busy + (if pc.isBusy then 1 else 0) = s.busyTcpThreadsSem + (if pc'.isBusy then 1 else 0) ∧
      t = { s with
        freeTcpThreadsSem := free
        busyTcpThreadsSem := busy
        tcpThreads := s.tcpThreads.set i pc' }) ∨
    (∃ fd q, s.tcpThreads[i]? = some .receive ∧ s.tcpFdsQ = fd :: q ∧ t = { s with
      tcpFdsQ := q
      taken := s.taken ++ (s.conn fd).toList
      tcpThreads := s.tcpThreads.set i (.waitFree fd) }) ∨
    (∃ fd, s.tcpThreads[i]? = some (.close fd) ∧ t = { s with
      conn := Function.update s.conn fd none
      closed := s.closed ++ (s.conn fd).toList
      tcpThreads := s.tcpThreads.set i (.waitBusy (s.conn fd)) }) ∨
    ∃ c, s.tcpThreads[i]? = some (.postServed c) ∧ t = { s with
      servedTcpClients := s.servedTcpClients + 1
      tcpThreads := s.tcpThreads.set i .receive } := by
  unfold tcpServerThread at h
  split at h <;> rename_i hpc
  · cases h
  · exact .inl ⟨_, _, _, _, hpc, .starting, rfl, rfl, (Option.some.inj h).symm⟩
  · obtain ⟨⟨fd, q⟩, hq, rfl⟩ := Option.map_eq_some_iff.1 h
    exact .inr (.inl ⟨fd, q, hpc, MessageQueue.receive_const.1 hq, rfl⟩)
  · split at h
    · cases h
    · refine .inl ⟨_, _, _, _, hpc, .waitFree _, ?_, rfl, (Option.some.inj h).symm⟩
      simp only [TcpThreadPc.isFree, if_true, Bool.false_eq_true, if_false]
      omega
  · exact .inl ⟨_, _, _, _, hpc, .postBusy _, rfl, rfl, (Option.some.inj h).symm⟩
  · exact .inl ⟨_, _, _, _, hpc, .recv _, rfl, rfl, (Option.some.inj h).symm⟩
  · exact .inr (.inr (.inl ⟨_, hpc, (Option.some.inj h).symm⟩))
  · split at h
    · cases h
    · refine .inl ⟨_, _, _, _, hpc, .waitBusy _, rfl, ?_, (Option.some.inj h).symm⟩
      simp only [TcpThreadPc.isBusy, if_true, Bool.false_eq_true, if_false]
      omega
  · exact .inl ⟨_, _, _, _, hpc, .postFree _, rfl, rfl, (Option.some.inj h).symm⟩
  · exact .inr (.inr (.inr ⟨_, hpc, (Option.some.inj h).symm⟩))

/-- The state after the pool is created, thread 0 has become free, and one connection has been
accepted under fd 5 and taken by thread 0. -/
def handedOver : State :=
  (multiprotoServer.run initial
    [.main, .main, .main, .thread 0, .accept 5, .main, .main, .thread 0]).get rfl

theorem handedOver_reachable : multiprotoServer.Reachable handedOver :=
  Machine.reachable_of_run rfl (Option.some_get _).symm

end EmbeddedC.ClientService.Multiproto
