import EmbeddedC.Lib.MessageQueue

/-!
# Homework 16: the acceptor of the pooled TCP servers

The main threads of `multiproto_server` and `producer_server` accept TCP clients with the same
code: accept, look whether a pool thread is free, let the pool grow when every thread is busy,
and put the client's fd into `tcp_fds_q`.  `Pool τ` is what this code reads and writes; `τ` is
the control state of the pool's threads, which differ.

One step is one call that other threads can observe (`sem_getvalue`, `pthread_create`,
`mq_send`, `accept`), with the local computation around it.  A call of `exit` ends the run.
-/

namespace EmbeddedC.ClientService

/-- `SERVER_DEF_ALLOC` -/
def serverDefAlloc : ℕ := 2

/-- `SERVER_Q_MAXMSG` -/
def serverQMaxmsg : ℕ := 5

/-- Where the main thread is; `fd` is its `client_fd`, `left` counts `pthread_create` calls to
come. -/
inductive MainPc
  /-- before the main loop: the default threads are created -/
  | create (left : ℕ)
  /-- at `poll`, or on the way to `accept` -/
  | poll
  /-- at `sem_getvalue(free_tcp_threads_sem)` -/
  | checkFree (fd : ℕ)
  /-- at `sem_getvalue(busy_tcp_threads_sem)` -/
  | checkBusy (fd : ℕ)
  /-- in the growth branch -/
  | grow (fd left : ℕ)
  /-- at `mq_send(tcp_fds_q)` -/
  | send (fd : ℕ)
  deriving DecidableEq

/-- The accepted fd the main thread still holds. -/
def MainPc.hand : MainPc → Option ℕ
  | .create _ | .poll => none
  | .checkFree fd | .checkBusy fd | .grow fd _ | .send fd => some fd

/-- The main thread, the pool, the queue of accepted fds and the counting semaphores.
`conn fd` is the connection the kernel has open under `fd`; connections are numbered in the
order of `accept`, and a closed fd can be given to a later connection. -/
structure Pool (τ : Type) where
  main : MainPc
  tcpThreadsCount : ℕ
  tcpThreads : List τ
  tcpFdsQ : List ℕ
  freeTcpThreadsSem : ℕ
  busyTcpThreadsSem : ℕ
  servedTcpClients : ℕ
  conn : ℕ → Option ℕ
  accepted : ℕ

namespace Pool

variable {τ : Type}

/-- The pool before the first `pthread_create`: semaphores set to 0, an empty queue. -/
def initial (τ : Type) : Pool τ where
  main := .create serverDefAlloc
  tcpThreadsCount := serverDefAlloc
  tcpThreads := []
  tcpFdsQ := []
  freeTcpThreadsSem := 0
  busyTcpThreadsSem := 0
  servedTcpClients := 0
  conn := fun _ => none
  accepted := 0

/-- `accept` returns the new connection under an fd that is not open. -/
def accept (p : Pool τ) (fd : ℕ) : Option (Pool τ) :=
  match p.main, p.conn fd with
  | .poll, none =>
    some { p with
      main := .checkFree fd
      conn := Function.update p.conn fd (some p.accepted)
      accepted := p.accepted + 1 }
  | _, _ => none

/-- The main thread's next call, other than `accept`; a thread it creates begins at `start`. -/
def mainStep (start : τ) (p : Pool τ) : Option (Pool τ) :=
  match p.main with
  | .create 0 => some { p with main := .poll }
  | .create (left + 1) =>
    some { p with main := .create left, tcpThreads := p.tcpThreads ++ [start] }
  | .poll => none
  | .checkFree fd =>
    some { p with main := if p.freeTcpThreadsSem = 0 then .checkBusy fd else .send fd }
  | .checkBusy fd =>
    -- otherwise `usleep`, and the loop looks at the free threads again
    some { p with main :=
      if p.busyTcpThreadsSem = p.tcpThreadsCount then .grow fd serverDefAlloc else .checkFree fd }
  | .grow fd 0 =>
    some { p with main := .send fd, tcpThreadsCount := p.tcpThreadsCount + serverDefAlloc }
  | .grow fd (left + 1) =>
    some { p with main := .grow fd left, tcpThreads := p.tcpThreads ++ [start] }
  | .send fd =>
    -- blocks while the queue is full
    (MessageQueue.send serverQMaxmsg p.tcpFdsQ fd).map fun q =>
      { p with main := .poll, tcpFdsQ := q }

/-- Move thread `i` to `pc`. -/
def setThread (p : Pool τ) (i : ℕ) (pc : τ) : Pool τ :=
  { p with tcpThreads := p.tcpThreads.set i pc }

/-- `tcp_threads_count` agrees with the threads created, up to those the main thread is
creating. -/
def Created (p : Pool τ) : Prop :=
  match p.main with
  | .create left => p.tcpThreads.length + left = p.tcpThreadsCount
  | .grow _ left => p.tcpThreads.length + left = p.tcpThreadsCount + serverDefAlloc
  | _ => p.tcpThreads.length = p.tcpThreadsCount

/-- What one call of the main thread does. -/
theorem mainStep_cases {start : τ} {p p' : Pool τ} (h : p.mainStep start = some p') :
    (∃ pc, p' = { p with main := pc } ∧ pc.hand = p.main.hand) ∨
    (∃ pc, p' = { p with main := pc, tcpThreads := p.tcpThreads ++ [start] } ∧
      pc.hand = p.main.hand) ∨
    (∃ fd, p.main = .grow fd 0 ∧
      p' = { p with main := .send fd, tcpThreadsCount := p.tcpThreadsCount + serverDefAlloc }) ∨
    ∃ fd, p.main = .send fd ∧ p.tcpFdsQ.length < serverQMaxmsg ∧
      p' = { p with main := .poll, tcpFdsQ := p.tcpFdsQ ++ [fd] } := by
  unfold mainStep at h
  split at h
  · exact .inl ⟨.poll, by simp_all [MainPc.hand]⟩
  · exact .inr (.inl ⟨_, (Option.some.inj h).symm, by simp_all [MainPc.hand]⟩)
  · cases h
  · refine .inl ⟨_, (Option.some.inj h).symm, ?_⟩
    split <;> simp_all [MainPc.hand]
  · refine .inl ⟨_, (Option.some.inj h).symm, ?_⟩
    split <;> simp_all [MainPc.hand]
  · exact .inr (.inr (.inl ⟨_, ‹_›, (Option.some.inj h).symm⟩))
  · exact .inr (.inl ⟨_, (Option.some.inj h).symm, by simp_all [MainPc.hand]⟩)
  · obtain ⟨q, hq, rfl⟩ := Option.map_eq_some_iff.1 h
    obtain ⟨hlt, rfl⟩ := MessageQueue.send_eq_some hq
    exact .inr (.inr (.inr ⟨_, ‹_›, hlt, rfl⟩))

theorem accept_eq_some {p p' : Pool τ} {fd : ℕ} (h : p.accept fd = some p') :
    p.main = .poll ∧ p.conn fd = none ∧
      p' = { p with
        main := .checkFree fd
        conn := Function.update p.conn fd (some p.accepted)
        accepted := p.accepted + 1 } := by
  unfold accept at h
  split at h
  · exact ⟨‹_›, ‹_›, (Option.some.inj h).symm⟩
  · cases h

theorem created_initial : (initial τ).Created := by simp [Created, initial]

theorem Created.setThread {p : Pool τ} (h : p.Created) (i : ℕ) (pc : τ) :
    (p.setThread i pc).Created := by
  unfold Created at h ⊢
  simpa [Pool.setThread] using h

theorem Created.accept {p p' : Pool τ} {fd : ℕ} (h : p.Created) (ha : p.accept fd = some p') :
    p'.Created := by
  obtain ⟨hm, -, rfl⟩ := accept_eq_some ha
  simpa [Created, hm] using h

theorem Created.mainStep {start : τ} {p p' : Pool τ} (h : p.Created)
    (hs : p.mainStep start = some p') : p'.Created := by
  unfold Pool.mainStep at hs
  unfold Created at h
  split at hs <;> rename_i hm <;> simp only [hm] at h
  · obtain rfl := Option.some.inj hs
    simpa [Created] using h
  · obtain rfl := Option.some.inj hs
    simp only [Created, List.length_append, List.length_singleton]
    omega
  · cases hs
  · obtain rfl := Option.some.inj hs
    by_cases hf : p.freeTcpThreadsSem = 0 <;> simpa [Created, hf] using h
  · obtain rfl := Option.some.inj hs
    by_cases hb : p.busyTcpThreadsSem = p.tcpThreadsCount <;> simpa [Created, hb] using h
  · obtain rfl := Option.some.inj hs
    simpa [Created] using h
  · obtain rfl := Option.some.inj hs
    simp only [Created, List.length_append, List.length_singleton]
    omega
  · obtain ⟨q, -, rfl⟩ := Option.map_eq_some_iff.1 hs
    simpa [Created] using h

end Pool

end EmbeddedC.ClientService
