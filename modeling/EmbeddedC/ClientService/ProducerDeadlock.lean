import EmbeddedC.ClientService.ProducerServer

/-!
# `producer_server`: when listener and workers block each other

The listener drains at most one acknowledgement in a pass and then dispatches every fd of the
pass before it polls again.  Both queues and all workers together have room for
`2 * SERVER_Q_MAXMSG + tcp_threads_count` fds; a pass that has more to place ends in a circular
wait.

* `Deadlocked`, `Deadlocked.blocked`: the circular wait;
* `DispatchFits`: the fds outstanding and those about to be dispatched have room;
* `no_deadlock`: as long as every pass fits, there is no deadlock;
* `deadlock_reachable`: 13 clients that become readable in one pass.
-/

namespace EmbeddedC.ClientService.Producer

/-- The listener is sending to a full `tcp_clients_q`, and every worker to a full
`tcp_ack_clients_q`. -/
structure Deadlocked (s : State) : Prop where
  listener : ∃ index p, s.listener = .dispatch index ∧ s.tcpPfds[index]? = some p ∧
    p.revents = true
  clientsFull : serverQMaxmsg ≤ s.tcpClientsQ.length
  workers : ∀ pc ∈ s.tcpThreads, ∃ fd, pc = .ack fd
  acksFull : serverQMaxmsg ≤ s.tcpAckClientsQ.length

/-- Neither the listener nor any worker can take a step. -/
theorem Deadlocked.blocked {s : State} (h : Deadlocked s) :
    (∀ stale, step s (.listener stale) = none) ∧ ∀ i, step s (.thread i) = none := by
  have full {q : List ℕ} (hq : serverQMaxmsg ≤ q.length) (fd : ℕ) :
      MessageQueue.send serverQMaxmsg q fd = none := if_neg (by omega)
  constructor
  · intro stale
    obtain ⟨index, p, hl, hp, hr⟩ := h.listener
    simp only [step, tcpListener, hl, hp, hr, if_true, full h.clientsFull, Option.map_none]
  · intro i
    simp only [step, tcpServerThread]
    cases hi : s.tcpThreads[i]? with
    | none => rfl
    | some pc =>
      obtain ⟨fd, rfl⟩ := h.workers pc (List.mem_of_getElem? hi)
      simp only [full h.acksFull, Option.map_none]

/-- When the listener is about to dispatch, the outstanding fds (less the acknowledgement it
takes in this pass) and the entries `poll` has marked fit into the two queues and the hands of
the workers. -/
def DispatchFits (s : State) : Action → Prop
  | .listener _ => s.listener = .acks →
      (outstanding s).length + s.tcpPfds.countP (·.revents) ≤
        2 * serverQMaxmsg + s.tcpThreads.length + if s.acksReady then 1 else 0
  | _ => True

instance (s : State) : (a : Action) → Decidable (DispatchFits s a)
  | .listener _ => inferInstanceAs (Decidable (_ → _))
  | .main | .accept _ | .thread _ | .clientSend _ | .clientClose _ => instDecidableTrue

/-- In the dispatch loop there is room for the fds still to be dispatched. -/
def DispatchRoom (s : State) : Prop :=
  ∀ index, s.listener = .dispatch index →
    (outstanding s).length + (s.tcpPfds.drop index).countP (·.revents) ≤
      2 * serverQMaxmsg + s.tcpThreads.length

theorem Frame.dispatchRoom {s t : State} (h : Frame s t) (hs : DispatchRoom s) :
    DispatchRoom t := by
  intro index hl
  have := hs index (h.listener ▸ hl)
  have := h.threads
  rw [h.outstanding.length_eq, h.tcpPfds]
  omega

theorem countP_rearm (fd : ℕ) (pfds : List Pollfd) :
    (rearm fd pfds).countP (·.revents) = pfds.countP (·.revents) := by
  induction pfds with
  | nil => rfl
  | cons p pfds ih =>
    rw [rearm]
    split
    · simp only [List.countP_cons]
    · simp only [List.countP_cons, ih]

/-- The entry at `index` is the first of those from `index` on. -/
theorem countP_drop {pfds : List Pollfd} {index : ℕ} {p : Pollfd}
    (hp : pfds[index]? = some p) : (pfds.drop index).countP (·.revents) =
      (pfds.drop (index + 1)).countP (·.revents) + if p.revents then 1 else 0 := by
  obtain ⟨hi, rfl⟩ := List.getElem?_eq_some_iff.1 hp
  rw [List.drop_eq_getElem_cons hi, List.countP_cons]

theorem dispatchRoom_tcpListener {s t : State} {stale : Bool} (hs : DispatchRoom s)
    (hc : DispatchFits s (.listener stale)) (h : tcpListener s stale = some t) :
    DispatchRoom t := by
  obtain ⟨-, rfl⟩ | ⟨fd, q, -, -, -, rfl⟩ | ⟨fd, q, hl, hack, hq, rfl⟩ |
    ⟨index, p, hl, hp, hr, -, rfl⟩ | ⟨pc, rfl, hpc⟩ := tcpListener_cases h
  · exact fun index hindex => nomatch hindex
  · exact fun index hindex => nomatch hindex
  · -- an acknowledgement is taken, and the loop begins
    have hfits := hc hl
    rintro index hindex
    obtain rfl : 0 = index := by simpa using hindex
    simp only [hack, if_true, outstanding, hq, List.length_append, List.length_cons] at hfits
    simp only [outstanding, List.length_append, List.drop_zero, countP_rearm]
    omega
  · -- one fd moves from the entries to the queue
    have hroom := hs index hl
    have hdrop := countP_drop hp
    rintro _ hindex
    obtain rfl : index + 1 = _ := by simpa using hindex
    simp only [outstanding, List.length_append, List.length_singleton] at hroom ⊢
    rw [List.drop_set_of_lt (by omega : index < index + 1)]
    simp only [hr, if_true] at hdrop
    omega
  · intro index hindex
    obtain rfl : pc = .dispatch index := hindex
    obtain ⟨-, hpc⟩ | ⟨hl, hack, hpc⟩ | ⟨i, -, hpc⟩ | ⟨i, p, hl, hp, hr, hpc⟩ := hpc <;> cases hpc
    · simpa [outstanding, hack] using hc hl
    · simpa [outstanding, countP_drop hp, hr] using hs i hl

theorem dispatchRoom_of_reachable {s : State} (h : producerServer.ReachableUnder DispatchFits s) :
    DispatchRoom s := by
  refine h.invariant (fun s hs => ?_) fun s a t _ hroom hc hstep => ?_
  · obtain rfl := hs
    exact fun index hindex => nomatch hindex
  · cases a with
    | listener stale => exact dispatchRoom_tcpListener hroom hc hstep
    | _ => exact (frame_of_step (by simp) hstep).dispatchRoom hroom

/-- In a deadlock the queues and the hands are full, and there is a further fd to place. -/
theorem Deadlocked.not_dispatchRoom {s : State} (h : Deadlocked s) : ¬ DispatchRoom s := by
  intro hroom
  obtain ⟨index, p, hl, hp, hr⟩ := h.listener
  have hle := hroom index hl
  have hhands : (s.tcpThreads.filterMap TcpThreadPc.hand).length = s.tcpThreads.length := by
    refine List.length_filterMap_eq_countP.trans (List.countP_eq_length.2 fun pc hpc => ?_)
    obtain ⟨fd, rfl⟩ := h.workers pc hpc
    rfl
  rw [countP_drop hp, hr] at hle
  simp only [outstanding, List.length_append, hhands, if_true] at hle
  have := h.clientsFull
  have := h.acksFull
  omega

/-- **No deadlock.** While every pass of the listener has room for what it dispatches, listener
and workers never block each other, whatever the number of clients and workers. -/
theorem no_deadlock {s : State} (h : producerServer.ReachableUnder DispatchFits s) :
    ¬ Deadlocked s := fun hd => hd.not_dispatchRoom (dispatchRoom_of_reachable h)

/-- One client has sent a message, and the listener has dispatched it. -/
def oneDispatched : List Action :=
  startUp ++ connect 5 0 ++ [.clientSend 5] ++ List.replicate 4 (.listener false)

theorem no_deadlock_oneDispatched :
    ¬ Deadlocked ((producerServer.runUnder DispatchFits initial oneDispatched).get
      (by decide +kernel)) :=
  no_deadlock (Machine.reachableUnder_of_run rfl (Option.some_get _).symm)

/-! ### Thirteen clients in one pass -/

/-- The 13 clients with fds 5 to 17 connect, and all send a message.  The listener fills
`tcp_clients_q`, worker 0 serves five clients and fills `tcp_ack_clients_q`, and both workers
serve one more while the listener refills `tcp_clients_q`. -/
def thirteenClients : List Action :=
  startUp ++ (List.range 13).flatMap (fun n => connect (5 + n) n) ++
  (List.range 13).map (fun n => .clientSend (5 + n)) ++ List.replicate 8 (.listener false) ++
  (List.replicate 5 (List.replicate 8 (.thread 0) ++ [.listener false])).flatten ++
  List.replicate 5 (.thread 0) ++ List.replicate 5 (.thread 1) ++
  List.replicate 2 (.listener false)

def deadlock : State := (producerServer.run initial thirteenClients).get (by decide +kernel)

/-- A deadlock is reachable. -/
theorem deadlock_reachable : ¬ ∀ s, producerServer.Reachable s → ¬ Deadlocked s := by
  intro h
  have hrun : producerServer.run initial thirteenClients = some deadlock := by
    rw [deadlock, Option.some_get]
  refine h deadlock (Machine.reachable_of_run rfl hrun) ⟨?_, ?_, ?_, ?_⟩
  · exact ⟨12, ⟨17, true, true⟩, by decide +kernel, by decide +kernel, rfl⟩
  · decide +kernel
  · have hthreads : deadlock.tcpThreads = [.ack 10, .ack 11] := by decide +kernel
    simp [hthreads]
  · decide +kernel

end EmbeddedC.ClientService.Producer
