import EmbeddedC.Lib.Machine
import EmbeddedC.Lib.Slots
import EmbeddedC.ClientService.Acceptor

/-!
# Homework 16: `producer_server`, the TCP path

The main thread puts every accepted fd into `tcp_fds_q`.  `_tcp_listener` collects these fds in
the array `tcp_pfds`, polls them, and sends each readable one to the workers through
`tcp_clients_q`; a worker receives one message, answers it and returns the fd through
`tcp_ack_clients_q`.

* `tcpListener`: the listener, one queue operation a step (`poll`, one fd, one acknowledgement,
  then the dispatch loop);
* `tcpServerThread`: one worker, one call a step;
* `producerServer`: the main thread, the listener, any number of workers and the clients,
  interleaved;
* `outstanding`: the fds dispatched and not yet acknowledged, and what a step does to them.

Both queues between listener and workers block and hold `SERVER_Q_MAXMSG` messages.  The UDP
half is the same code over other queues and is left out.
-/

namespace EmbeddedC.ClientService.Producer

/-- Where a `_tcp_server_thread` is; `fd` is the dequeued fd. -/
inductive TcpThreadPc
  /-- opening the queues and the semaphores, then the first `sem_post(free_tcp_threads_sem)` -/
  | starting
  /-- at `mq_receive(tcp_clients_q)` -/
  | receive
  /-- at `sem_wait(free_tcp_threads_sem)` -/
  | waitFree (fd : ℕ)
  /-- at `sem_post(busy_tcp_threads_sem)` -/
  | postBusy (fd : ℕ)
  /-- at `recv` -/
  | recv (fd : ℕ)
  /-- at `send` -/
  | send (fd : ℕ)
  /-- at `mq_send(tcp_ack_clients_q)` -/
  | ack (fd : ℕ)
  /-- at `sem_wait(busy_tcp_threads_sem)` -/
  | waitBusy
  /-- at `sem_post(free_tcp_threads_sem)` -/
  | postFree
  deriving DecidableEq

namespace TcpThreadPc

/-- The fd in the worker's hand: dequeued, and not yet returned. -/
def hand : TcpThreadPc → Option ℕ
  | .waitFree fd | .postBusy fd | .recv fd | .send fd | .ack fd => some fd
  | .starting | .receive | .waitBusy | .postFree => none

/-- The fd from which the worker has still to receive. -/
def toRecv : TcpThreadPc → Option ℕ
  | .waitFree fd | .postBusy fd | .recv fd => some fd
  | _ => none

theorem hand_of_toRecv {pc : TcpThreadPc} {fd : ℕ} (h : pc.toRecv = some fd) :
    pc.hand = some fd := by
  cases pc <;> simp_all [toRecv, hand]

end TcpThreadPc

/-- A `struct pollfd`, with the `POLLIN` bit of `events` and `revents`. -/
structure Pollfd where
  fd : ℕ
  events : Bool
  revents : Bool
  deriving DecidableEq

/-- The server's end of a connection: messages not yet received, and whether the client has
closed. -/
structure Socket where
  unread : ℕ
  eof : Bool

/-- `recv` returns at once, and `poll` reports `POLLIN`. -/
def Socket.readable (k : Socket) : Bool := k.eof || 0 < k.unread

/-- Where the listener is in its loop. -/
inductive ListenerPc
  /-- at `poll` -/
  | poll
  /-- at the test of `tcp_pfds[0].revents` -/
  | fds
  /-- at the test of `tcp_pfds[1].revents` -/
  | acks
  /-- in the dispatch loop -/
  | dispatch (index : ℕ)
  deriving DecidableEq

/-- What the listener does with a client's fd: it puts it into `tcp_clients_q`, in a pass in
which `poll` reported it readable or not, or it takes its acknowledgement. -/
inductive Event
  | dispatched (fd : ℕ) (reported : Bool)
  | acked (fd : ℕ)
  deriving DecidableEq

/-- The pool, the listener and the clients.  `fdsReady` and `acksReady` are the `revents` of the
first two entries of `tcp_pfds`; `tcpPfds` holds the entries from index 2 on.  `polled` is what
the last `poll` reported, and `log` the history of the listener. -/
structure State extends Pool TcpThreadPc where
  listener : ListenerPc
  fdsReady : Bool
  acksReady : Bool
  tcpPfds : List Pollfd
  tcpClientsQ : List ℕ
  tcpAckClientsQ : List ℕ
  sock : ℕ → Socket
  polled : List ℕ
  log : List Event

/-- What can happen next: a call of the main thread, an `accept` that returns `fd`, a step of
the listener, a call of worker `i`, or a client sending a message or closing. -/
inductive Action
  | main
  | accept (fd : ℕ)
  | listener (stale : Bool)
  | thread (i : ℕ)
  | clientSend (fd : ℕ)
  | clientClose (fd : ℕ)
  deriving DecidableEq

def initial : State where
  toPool := Pool.initial TcpThreadPc
  listener := .poll
  fdsReady := false
  acksReady := false
  tcpPfds := []
  tcpClientsQ := []
  tcpAckClientsQ := []
  sock := fun _ => ⟨0, false⟩
  polled := []
  log := []

/-- `poll` writes every `revents`. -/
def pollRevents (sock : ℕ → Socket) (pfds : List Pollfd) : List Pollfd :=
  pfds.map fun p => { p with revents := p.events && (sock p.fd).readable }

/-- Set `events` of the first entry of `fd`. -/
def rearm (fd : ℕ) : List Pollfd → List Pollfd
  | [] => []
  | p :: pfds => if p.fd = fd then { p with events := true } :: pfds else p :: rearm fd pfds

/-- The next step of `_tcp_listener`; `none` while it blocks.  `reallocarray` leaves the new
entry's `revents` unset, and `stale` is the `POLLIN` bit found there. -/
def tcpListener (s : State) (stale : Bool) : Option State :=
  match s.listener with
  | .poll =>
    let pfds := pollRevents s.sock s.tcpPfds
    let ready := (pfds.filter (·.revents)).map (·.fd)
    if s.tcpFdsQ = [] ∧ s.tcpAckClientsQ = [] ∧ ready = [] then none else some { s with
      listener := .fds
      fdsReady := !s.tcpFdsQ.isEmpty
      acksReady := !s.tcpAckClientsQ.isEmpty
      tcpPfds := pfds
      polled := ready }
  | .fds =>
    if s.fdsReady then
      (MessageQueue.receive (fun _ => 0) s.tcpFdsQ).map fun (fd, q) => { s with
        listener := .acks
        fdsReady := false
        tcpFdsQ := q
        servedTcpClients := s.servedTcpClients + 1
        tcpPfds := s.tcpPfds ++ [⟨fd, true, stale⟩] }
    else some { s with listener := .acks }
  | .acks =>
    if s.acksReady then
      (MessageQueue.receive (fun _ => 0) s.tcpAckClientsQ).map fun (fd, q) => { s with
        listener := .dispatch 0
        acksReady := false
        tcpAckClientsQ := q
        tcpPfds := rearm fd s.tcpPfds
        log := s.log ++ [.acked fd] }
    else some { s with listener := .dispatch 0 }
  | .dispatch index =>
    match s.tcpPfds[index]? with
    | none => some { s with listener := .poll }
    | some p =>
      if p.revents then
        -- blocks while the queue is full
        (MessageQueue.send serverQMaxmsg s.tcpClientsQ p.fd).map fun q => { s with
          listener := .dispatch (index + 1)
          tcpClientsQ := q
          tcpPfds := s.tcpPfds.set index { p with revents := false }
          log := s.log ++ [.dispatched p.fd (p.fd ∈ s.polled)] }
      else some { s with listener := .dispatch (index + 1) }

/-- The next call of worker `i`; `none` while it blocks. -/
def tcpServerThread (s : State) (i : ℕ) : Option State :=
  match s.tcpThreads[i]? with
  | none => none
  | some .starting =>
    some { s with
      freeTcpThreadsSem := s.freeTcpThreadsSem + 1
      tcpThreads := s.tcpThreads.set i .receive }
  | some .receive =>
    (MessageQueue.receive (fun _ => 0) s.tcpClientsQ).map fun (fd, q) => { s with
      tcpClientsQ := q
      tcpThreads := s.tcpThreads.set i (.waitFree fd) }
  | some (.waitFree fd) =>
    if s.freeTcpThreadsSem = 0 then none else some { s with
      freeTcpThreadsSem := s.freeTcpThreadsSem - 1
      tcpThreads := s.tcpThreads.set i (.postBusy fd) }
  | some (.postBusy fd) =>
    some { s with
      busyTcpThreadsSem := s.busyTcpThreadsSem + 1
      tcpThreads := s.tcpThreads.set i (.recv fd) }
  | some (.recv fd) =>
    -- takes one message, or finds the end of the stream
    if (s.sock fd).readable then some { s with
      sock := Function.update s.sock fd { s.sock fd with unread := (s.sock fd).unread - 1 }
      tcpThreads := s.tcpThreads.set i (.send fd) }
    else none
  | some (.send fd) => some { s with tcpThreads := s.tcpThreads.set i (.ack fd) }
  | some (.ack fd) =>
    (MessageQueue.send serverQMaxmsg s.tcpAckClientsQ fd).map fun q => { s with
      tcpAckClientsQ := q
      tcpThreads := s.tcpThreads.set i .waitBusy }
  | some .waitBusy =>
    if s.busyTcpThreadsSem = 0 then none else some { s with
      busyTcpThreadsSem := s.busyTcpThreadsSem - 1
      tcpThreads := s.tcpThreads.set i .postFree }
  | some .postFree =>
    some { s with
      freeTcpThreadsSem := s.freeTcpThreadsSem + 1
      tcpThreads := s.tcpThreads.set i .receive }

def step (s : State) : Action → Option State
  | .main => (s.toPool.mainStep .starting).map fun p => { s with toPool := p }
  | .accept fd => (s.toPool.accept fd).map fun p => { s with
      toPool := p
      sock := Function.update s.sock fd ⟨0, false⟩ }
  | .listener stale => tcpListener s stale
  | .thread i => tcpServerThread s i
  | .clientSend fd =>
    if s.conn fd = none ∨ (s.sock fd).eof then none else some { s with
      sock := Function.update s.sock fd { s.sock fd with unread := (s.sock fd).unread + 1 } }
  | .clientClose fd =>
    if s.conn fd = none then none else some { s with
      sock := Function.update s.sock fd { s.sock fd with eof := true } }

/-- `producer_server`, TCP path: the main thread, the listener, the workers and the clients,
interleaved. -/
def producerServer : Machine State Action where
  init s := s = initial
  step := step

/-- The main thread creates two workers, and both become free. -/
def startUp : List Action := [.main, .main, .main, .thread 0, .thread 1]

/-- The client with fd `fd` is accepted, and the listener, with `n` entries so far, adds it. -/
def connect (fd n : ℕ) : List Action :=
  [.accept fd, .main, .main] ++ List.replicate (n + 5) (.listener false)

/-! ### What one step does -/

/-- What one step of the listener does; in the last case it only moves on. -/
theorem tcpListener_cases {s t : State} {stale : Bool} (h : tcpListener s stale = some t) :
    (s.listener = .poll ∧ t = { s with
      listener := .fds
      fdsReady := !s.tcpFdsQ.isEmpty
      acksReady := !s.tcpAckClientsQ.isEmpty
      tcpPfds := pollRevents s.sock s.tcpPfds
      polled := ((pollRevents s.sock s.tcpPfds).filter (·.revents)).map (·.fd) }) ∨
    (∃ fd q, s.listener = .fds ∧ s.fdsReady = true ∧ s.tcpFdsQ = fd :: q ∧ t = { s with
      listener := .acks
      fdsReady := false
      tcpFdsQ := q
      servedTcpClients := s.servedTcpClients + 1
      tcpPfds := s.tcpPfds ++ [⟨fd, true, stale⟩] }) ∨
    (∃ fd q, s.listener = .acks ∧ s.acksReady = true ∧ s.tcpAckClientsQ = fd :: q ∧
      t = { s with
        listener := .dispatch 0
        acksReady := false
        tcpAckClientsQ := q
        tcpPfds := rearm fd s.tcpPfds
        log := s.log ++ [.acked fd] }) ∨
    (∃ index p, s.listener = .dispatch index ∧ s.tcpPfds[index]? = some p ∧ p.revents = true ∧
      s.tcpClientsQ.length < serverQMaxmsg ∧ t = { s with
        listener := .dispatch (index + 1)
        tcpClientsQ := s.tcpClientsQ ++ [p.fd]
        tcpPfds := s.tcpPfds.set index { p with revents := false }
        log := s.log ++ [.dispatched p.fd (p.fd ∈ s.polled)] }) ∨
    ∃ pc, t = { s with listener := pc } ∧
      (s.listener = .fds ∧ pc = .acks ∨
        s.listener = .acks ∧ s.acksReady = false ∧ pc = .dispatch 0 ∨
        (∃ index, s.listener = .dispatch index ∧ pc = .poll) ∨
        ∃ index p, s.listener = .dispatch index ∧ s.tcpPfds[index]? = some p ∧
          p.revents = false ∧ pc = .dispatch (index + 1)) := by
  unfold tcpListener at h
  split at h <;> rename_i hl
  · dsimp only at h
    split at h
    · cases h
    · exact .inl ⟨hl, (Option.some.inj h).symm⟩
  · split at h
    · obtain ⟨⟨fd, q⟩, hq, rfl⟩ := Option.map_eq_some_iff.1 h
      exact .inr (.inl ⟨fd, q, hl, ‹_›, MessageQueue.receive_const.1 hq, rfl⟩)
    · exact .inr (.inr (.inr (.inr ⟨_, (Option.some.inj h).symm, .inl ⟨hl, rfl⟩⟩)))
  · split at h <;> rename_i hack
    · obtain ⟨⟨fd, q⟩, hq, rfl⟩ := Option.map_eq_some_iff.1 h
      exact .inr (.inr (.inl ⟨fd, q, hl, hack, MessageQueue.receive_const.1 hq, rfl⟩))
    · exact .inr (.inr (.inr (.inr ⟨_, (Option.some.inj h).symm,
        .inr (.inl ⟨hl, by simpa using hack, rfl⟩)⟩)))
  · split at h <;> rename_i hp
    · exact .inr (.inr (.inr (.inr ⟨_, (Option.some.inj h).symm, .inr (.inr (.inl ⟨_, hl, rfl⟩))⟩)))
    · split at h <;> rename_i hr
      · obtain ⟨q, hq, rfl⟩ := Option.map_eq_some_iff.1 h
        obtain ⟨hlt, rfl⟩ := MessageQueue.send_eq_some hq
        exact .inr (.inr (.inr (.inl ⟨_, _, hl, hp, hr, hlt, rfl⟩)))
      · exact .inr (.inr (.inr (.inr ⟨_, (Option.some.inj h).symm,
          .inr (.inr (.inr ⟨_, _, hl, hp, by simpa using hr, rfl⟩))⟩)))

/-- What one call of worker `i` does. -/
theorem tcpServerThread_cases {s t : State} {i : ℕ} (h : tcpServerThread s i = some t) :
    (∃ pc pc' free busy, s.tcpThreads[i]? = some pc ∧
      t = { s with
        freeTcpThreadsSem := free
        busyTcpThreadsSem := busy
        tcpThreads := s.tcpThreads.set i pc' } ∧
      pc'.hand = pc.hand ∧ ∀ fd, pc'.toRecv = some fd → pc.toRecv = some fd) ∨
    (∃ fd q, s.tcpThreads[i]? = some .receive ∧ s.tcpClientsQ = fd :: q ∧
      t = { s with tcpClientsQ := q, tcpThreads := s.tcpThreads.set i (.waitFree fd) }) ∨
    (∃ fd, s.tcpThreads[i]? = some (.recv fd) ∧ (s.sock fd).readable = true ∧
      t = { s with
        sock := Function.update s.sock fd { s.sock fd with unread := (s.sock fd).unread - 1 }
        tcpThreads := s.tcpThreads.set i (.send fd) }) ∨
    ∃ fd, s.tcpThreads[i]? = some (.ack fd) ∧ s.tcpAckClientsQ.length < serverQMaxmsg ∧
      t = { s with
        tcpAckClientsQ := s.tcpAckClientsQ ++ [fd]
        tcpThreads := s.tcpThreads.set i .waitBusy } := by
  unfold tcpServerThread at h
  split at h <;> rename_i hpc
  · cases h
  · exact .inl ⟨_, _, _, _, hpc, (Option.some.inj h).symm, rfl, by simp [TcpThreadPc.toRecv]⟩
  · obtain ⟨⟨fd, q⟩, hq, rfl⟩ := Option.map_eq_some_iff.1 h
    exact .inr (.inl ⟨fd, q, hpc, MessageQueue.receive_const.1 hq, rfl⟩)
  · split at h
    · cases h
    · exact .inl ⟨_, _, _, _, hpc, (Option.some.inj h).symm, rfl, fun _ hfd => hfd⟩
  · exact .inl ⟨_, _, _, _, hpc, (Option.some.inj h).symm, rfl, fun _ hfd => hfd⟩
  · split at h
    · exact .inr (.inr (.inl ⟨_, hpc, ‹_›, (Option.some.inj h).symm⟩))
    · cases h
  · exact .inl ⟨_, _, _, _, hpc, (Option.some.inj h).symm, rfl, by simp [TcpThreadPc.toRecv]⟩
  · obtain ⟨q, hq, rfl⟩ := Option.map_eq_some_iff.1 h
    obtain ⟨hlt, rfl⟩ := MessageQueue.send_eq_some hq
    exact .inr (.inr (.inr ⟨_, hpc, hlt, rfl⟩))
  · split at h
    · cases h
    · exact .inl ⟨_, _, _, _, hpc, (Option.some.inj h).symm, rfl, by simp [TcpThreadPc.toRecv]⟩
  · exact .inl ⟨_, _, _, _, hpc, (Option.some.inj h).symm, rfl, by simp [TcpThreadPc.toRecv]⟩

/-- The fds between their dispatch and their acknowledgement: in `tcp_clients_q`, in the hand of
a worker, in `tcp_ack_clients_q`. -/
def outstanding (s : State) : List ℕ :=
  s.tcpClientsQ ++ s.tcpThreads.filterMap TcpThreadPc.hand ++ s.tcpAckClientsQ

/-- What the listener sees of the steps of the others: they move the outstanding fds on, towards
the end of `tcp_ack_clients_q`. -/
structure Frame (s t : State) : Prop where
  listener : t.listener = s.listener
  acksReady : t.acksReady = s.acksReady
  tcpPfds : t.tcpPfds = s.tcpPfds
  polled : t.polled = s.polled
  log : t.log = s.log
  outstanding : (outstanding t).Perm (outstanding s)
  acks : s.tcpAckClientsQ <+: t.tcpAckClientsQ
  threads : s.tcpThreads.length ≤ t.tcpThreads.length

theorem frame_tcpServerThread {s t : State} {i : ℕ} (h : tcpServerThread s i = some t) :
    Frame s t := by
  -- the fd of worker `i` before the step, and the hands of the others
  have hands {pc : TcpThreadPc} (hpc : s.tcpThreads[i]? = some pc) :=
    List.filterMap_set_perm hpc TcpThreadPc.hand
  obtain ⟨pc, pc', free, busy, hpc, rfl, hhand, -⟩ | ⟨fd, q, hpc, hq, rfl⟩ |
    ⟨fd, hpc, -, rfl⟩ | ⟨fd, hpc, -, rfl⟩ := tcpServerThread_cases h
  all_goals
    obtain ⟨rest, hs, ht⟩ := hands hpc
    refine ⟨rfl, rfl, rfl, rfl, rfl, ?_, by simp, by simp⟩
    unfold outstanding
  · exact (((ht pc').trans (hhand ▸ hs.symm)).append_left _).append_right _
  · rw [hq]
    refine List.Perm.append_right _ (((ht _).append_left q).trans ?_)
    have hmiddle : (q ++ fd :: rest).Perm (fd :: (q ++ rest)) := List.perm_middle
    exact hmiddle.trans ((hs.symm.append_left q).cons fd)
  · exact (((ht (.send fd)).trans hs.symm).append_left _).append_right _
  · refine (((ht .waitBusy).append_left _).append_right _).trans
      (.trans ?_ (((hs.symm).append_left _).append_right _))
    simp only [TcpThreadPc.hand, Option.toList, List.nil_append, List.append_assoc,
      List.singleton_append]
    refine List.Perm.append_left _ ?_
    rw [← List.append_assoc]
    exact List.perm_append_singleton fd _

theorem frame_of_step {s t : State} {a : Action} (ha : ∀ stale, a ≠ .listener stale)
    (h : producerServer.step s a = some t) : Frame s t := by
  cases a with
  | main =>
    obtain ⟨p, hp, rfl⟩ := Option.map_eq_some_iff.1 h
    obtain ⟨pc, rfl, -⟩ | ⟨pc, rfl, -⟩ | ⟨fd, -, rfl⟩ | ⟨fd, -, -, rfl⟩ :=
      Pool.mainStep_cases hp
    all_goals
      exact ⟨rfl, rfl, rfl, rfl, rfl, by simp [outstanding, List.filterMap_cons, TcpThreadPc.hand],
        by simp, by simp⟩
  | accept fd =>
    obtain ⟨p, hp, rfl⟩ := Option.map_eq_some_iff.1 h
    obtain ⟨-, -, rfl⟩ := Pool.accept_eq_some hp
    exact ⟨rfl, rfl, rfl, rfl, rfl, .refl _, List.prefix_rfl, le_rfl⟩
  | listener stale => exact absurd rfl (ha stale)
  | thread i => exact frame_tcpServerThread h
  | clientSend fd | clientClose fd =>
    simp only [producerServer, step] at h
    split at h
    · cases h
    · obtain rfl := Option.some.inj h
      exact ⟨rfl, rfl, rfl, rfl, rfl, .refl _, List.prefix_rfl, le_rfl⟩

end EmbeddedC.ClientService.Producer
