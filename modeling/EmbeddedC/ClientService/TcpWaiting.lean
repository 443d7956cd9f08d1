import EmbeddedC.ClientService.MultiprotoServer

/-!
# Homework 16: when a client waits behind busy workers

The main thread of `multiproto_server` looks for a free worker before it hands a client over,
and lets the pool grow when all are busy.  A worker counts as free until it takes back its post
of `free_tcp_threads_sem`, some steps after it was sent a client, so several clients may be sent
on account of one free worker.

* `Stuck`: a client waits in `tcp_fds_q`, and every worker is busy with another one;
* `WorkerLeft`: when the main thread sends, a worker is left for this client;
* `no_client_stuck`: then no client gets stuck;
* `client_stuck`: three clients and the two default workers.
-/

namespace EmbeddedC.ClientService

/-- At `mq_send(tcp_fds_q)`. -/
def MainPc.sends : MainPc → Bool
  | .send _ => true
  | _ => false

namespace Multiproto

/-- The worker is not busy with a client: it holds no fd that it has dequeued and not closed. -/
def TcpThreadPc.idle (pc : TcpThreadPc) : Bool := pc.hand.isNone

/-- The main thread is back at `poll`, a client waits, and every worker is busy with another
one. -/
structure Stuck (s : State) : Prop where
  main : s.main = .poll
  waiting : s.tcpFdsQ ≠ []
  busy : ∀ pc ∈ s.tcpThreads, pc.idle = false

/-- When the main thread calls `mq_send`, fewer fds wait in `tcp_fds_q` than there are workers
without a client. -/
def WorkerLeft (s : State) : Action → Prop
  | .main => s.main.sends = true → s.tcpFdsQ.length < s.tcpThreads.countP TcpThreadPc.idle
  | _ => True

instance (s : State) : (a : Action) → Decidable (WorkerLeft s a)
  | .main => inferInstanceAs (Decidable (_ → _))
  | .accept _ | .thread _ => instDecidableTrue

/-- There is a worker without a client for every fd that waits. -/
def Covered (s : State) : Prop := s.tcpFdsQ.length ≤ s.tcpThreads.countP TcpThreadPc.idle

theorem Covered.main {s : State} {p : Pool TcpThreadPc} (h : Covered s)
    (hleft : WorkerLeft s .main) (hp : s.toPool.mainStep .starting = some p) :
    Covered { s with toPool := p } := by
  unfold Covered at h ⊢
  obtain ⟨pc, rfl, -⟩ | ⟨pc, rfl, -⟩ | ⟨fd, -, rfl⟩ | ⟨fd, hm, -, rfl⟩ := Pool.mainStep_cases hp
  · exact h
  · -- a new worker has no client
    simp only [List.countP_append]
    omega
  · exact h
  · have hlt := hleft (by rw [hm]; rfl)
    simp only [List.length_append, List.length_singleton]
    omega

theorem Covered.thread {s t : State} {i : ℕ} (h : Covered s)
    (hs : tcpServerThread s i = some t) : Covered t := by
  unfold Covered at h ⊢
  obtain ⟨pc, pc', free, busy, hpc, hmoves, -, -, rfl⟩ | ⟨fd, q, hpc, hq, rfl⟩ |
    ⟨fd, hpc, rfl⟩ | ⟨c, hpc, rfl⟩ := tcpServerThread_cases hs
  · have hcount := List.countP_set_add hpc TcpThreadPc.idle pc'
    rw [TcpThreadPc.idle, TcpThreadPc.idle, hmoves.hand] at hcount
    dsimp only
    omega
  · -- the worker takes one of the fds that wait
    have hcount := List.countP_set_add hpc TcpThreadPc.idle (.waitFree fd)
    simp only [TcpThreadPc.idle, TcpThreadPc.hand, Option.isNone_none, Option.isNone_some,
      if_true, Bool.false_eq_true, if_false] at hcount
    rw [hq, List.length_cons] at h
    dsimp only
    omega
  · have hcount := List.countP_set_add hpc TcpThreadPc.idle (.waitBusy (s.conn fd))
    simp only [TcpThreadPc.idle, TcpThreadPc.hand, Option.isNone_none, Option.isNone_some,
      if_true, Bool.false_eq_true, if_false] at hcount
    dsimp only
    omega
  · -- the worker has served its fd
    have hcount := List.countP_set_add hpc TcpThreadPc.idle .receive
    simp only [TcpThreadPc.idle, TcpThreadPc.hand, Option.isNone_none, if_true] at hcount
    dsimp only
    omega

theorem covered_of_reachable {s : State} (h : multiprotoServer.ReachableUnder WorkerLeft s) :
    Covered s := by
  refine h.invariant (fun s hs => ?_) fun s a t _ hcovered hleft hstep => ?_
  · obtain rfl := hs
    exact Nat.le_refl 0
  · cases a with
    | main =>
      obtain ⟨p, hp, rfl⟩ := Option.map_eq_some_iff.1 hstep
      exact hcovered.main hleft hp
    | accept fd =>
      obtain ⟨p, hp, rfl⟩ := Option.map_eq_some_iff.1 hstep
      obtain ⟨-, -, rfl⟩ := Pool.accept_eq_some hp
      exact hcovered
    | thread i => exact hcovered.thread hstep

/-- **No client waits behind busy workers** in a run in which the main thread sends a client
only while a worker is left for it. -/
theorem no_client_stuck {s : State} (h : multiprotoServer.ReachableUnder WorkerLeft s) :
    ¬ Stuck s := by
  intro hstuck
  have hcovered := covered_of_reachable h
  have hnone : s.tcpThreads.countP TcpThreadPc.idle = 0 :=
    List.countP_eq_zero.2 fun pc hpc => by simp [hstuck.busy pc hpc]
  rw [Covered, hnone, Nat.le_zero, List.length_eq_zero_iff] at hcovered
  exact hstuck.waiting hcovered

/-- Both default workers become free, and a client is sent. -/
def oneSent : List Action :=
  List.replicate 3 .main ++ [.thread 0, .thread 1, .accept 5, .main, .main]

theorem no_client_stuck_oneSent :
    ¬ Stuck ((multiprotoServer.runUnder WorkerLeft initial oneSent).get (by decide +kernel)) :=
  no_client_stuck (Machine.reachableUnder_of_run rfl (Option.some_get _).symm)

/-- Two more clients are sent before the workers, which have taken the first two, take back their
posts. -/
def threeSent : List Action :=
  oneSent ++ [.thread 0, .accept 6, .main, .main, .thread 1, .accept 7, .main, .main]

def stuck : State := (multiprotoServer.run initial threeSent).get (by decide +kernel)

/-- The third client is stuck. -/
theorem client_stuck : ¬ ∀ s, multiprotoServer.Reachable s → ¬ Stuck s := by
  intro h
  refine h stuck (Machine.reachable_of_run rfl (Option.some_get _).symm) ⟨?_, ?_, ?_⟩ <;>
    decide +kernel

end Multiproto

end EmbeddedC.ClientService
