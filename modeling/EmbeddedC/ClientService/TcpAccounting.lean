import EmbeddedC.ClientService.MultiprotoServer

/-!
# Homework 16: the counting semaphores of the TCP pool

The two semaphores count, in every reachable state, the workers in certain phases
(`Accounting`): each worker's post and wait move it in and out of the phases at the same step.
-/

namespace EmbeddedC.ClientService.Multiproto

/-- The semaphores count phases, and `tcp_threads_count` counts the threads. -/
structure Accounting (s : State) : Prop where
  free : s.freeTcpThreadsSem = s.tcpThreads.countP TcpThreadPc.isFree
  busy : s.busyTcpThreadsSem = s.tcpThreads.countP TcpThreadPc.isBusy
  created : s.toPool.Created

theorem accounting_initial : Accounting initial where
  free := rfl
  busy := rfl
  created := Pool.created_initial

/-- A step of worker `i` from `pc` to `pc'` keeps the accounting when it changes the semaphores
by what the two phases count. -/
theorem Accounting.setThread {s : State} (h : Accounting s) {i : ℕ} {pc pc' : TcpThreadPc}
    (hpc : s.tcpThreads[i]? = some pc) {t : State}
    (hthreads : t.tcpThreads = s.tcpThreads.set i pc')
    (hmain : t.main = s.main) (hcount : t.tcpThreadsCount = s.tcpThreadsCount)
    (hfree : t.freeTcpThreadsSem + (if pc.isFree then 1 else 0) =
      s.freeTcpThreadsSem + (if pc'.isFree then 1 else 0))
    (hbusy : t.busyTcpThreadsSem + (if pc.isBusy then 1 else 0) =
      s.busyTcpThreadsSem + (if pc'.isBusy then 1 else 0)) : Accounting t where
  free := by
    have := List.countP_set_add hpc TcpThreadPc.isFree pc'
    have := h.free
    rw [hthreads]
    omega
  busy := by
    have := List.countP_set_add hpc TcpThreadPc.isBusy pc'
    have := h.busy
    rw [hthreads]
    omega
  created := by
    have := h.created
    unfold Pool.Created at this ⊢
    simpa [hmain, hcount, hthreads] using this

theorem Accounting.thread {s t : State} {i : ℕ} (h : Accounting s)
    (hs : tcpServerThread s i = some t) : Accounting t := by
  obtain ⟨pc, pc', free, busy, hpc, -, hfree, hbusy, rfl⟩ | ⟨fd, q, hpc, -, rfl⟩ |
    ⟨fd, hpc, rfl⟩ | ⟨c, hpc, rfl⟩ := tcpServerThread_cases hs
  · exact h.setThread hpc rfl rfl rfl hfree hbusy
  · exact h.setThread hpc rfl rfl rfl rfl rfl
  · exact h.setThread hpc rfl rfl rfl rfl rfl
  · exact h.setThread hpc rfl rfl rfl rfl rfl

theorem Accounting.step {s t : State} {a : Action} (h : Accounting s)
    (hs : step s a = some t) : Accounting t := by
  cases a with
  | main =>
    obtain ⟨p, hp, rfl⟩ := Option.map_eq_some_iff.1 hs
    have hc := h.created.mainStep hp
    rcases Pool.mainStep_cases hp with ⟨pc, rfl, -⟩ | ⟨pc, rfl, -⟩ | ⟨fd, -, rfl⟩ | ⟨fd, -, -, rfl⟩
    · exact ⟨h.free, h.busy, hc⟩
    · refine ⟨?_, ?_, hc⟩
      · simpa [List.countP_append, TcpThreadPc.isFree] using h.free
      · simpa [List.countP_append, TcpThreadPc.isBusy] using h.busy
    · exact ⟨h.free, h.busy, hc⟩
    · exact ⟨h.free, h.busy, hc⟩
  | accept fd =>
    obtain ⟨p, hp, rfl⟩ := Option.map_eq_some_iff.1 hs
    have hc := h.created.accept hp
    obtain ⟨-, -, rfl⟩ := Pool.accept_eq_some hp
    exact ⟨h.free, h.busy, hc⟩
  | thread i => exact h.thread hs

theorem accounting {s : State} (h : multiprotoServer.Reachable s) : Accounting s :=
  h.invariant (fun _ h₀ => h₀ ▸ accounting_initial) fun _ _ _ _ hi hs => hi.step hs

/-- No phase is counted by both semaphores. -/
theorem countP_free_add_busy_le (l : List TcpThreadPc) :
    l.countP TcpThreadPc.isFree + l.countP TcpThreadPc.isBusy ≤ l.length := by
  induction l with
  | nil => simp
  | cons pc l ih =>
    simp only [List.countP_cons, List.length_cons]
    cases pc <;> simp [TcpThreadPc.isFree, TcpThreadPc.isBusy] <;> omega

/-- A worker at `sem_wait(free_tcp_threads_sem)` counts itself, so it passes. -/
theorem Accounting.waitFree_enabled {s : State} (h : Accounting s) {i fd : ℕ}
    (hpc : s.tcpThreads[i]? = some (.waitFree fd)) : ∃ t, tcpServerThread s i = some t := by
  have hpos : s.freeTcpThreadsSem ≠ 0 := by
    rw [h.free]
    exact (List.countP_pos_of_getElem? hpc rfl).ne'
  unfold tcpServerThread
  simp only [hpc, if_neg hpos]
  exact ⟨_, rfl⟩

/-- A worker at `sem_wait(busy_tcp_threads_sem)` counts itself, so it passes. -/
theorem Accounting.waitBusy_enabled {s : State} (h : Accounting s) {i : ℕ} {c : Option ℕ}
    (hpc : s.tcpThreads[i]? = some (.waitBusy c)) : ∃ t, tcpServerThread s i = some t := by
  have hpos : s.busyTcpThreadsSem ≠ 0 := by
    rw [h.busy]
    exact (List.countP_pos_of_getElem? hpc rfl).ne'
  unfold tcpServerThread
  simp only [hpc, if_neg hpos]
  exact ⟨_, rfl⟩

/-- The main thread enters the growth branch only when all workers are busy. -/
theorem Accounting.all_busy_of_grow {s : State} (h : Accounting s) {p : Pool TcpThreadPc}
    {fd left : ℕ} (hs : s.toPool.mainStep .starting = some p) (hp : p.main = .grow fd left) :
    (∃ left', s.main = .grow fd left') ∨ ∀ pc ∈ s.tcpThreads, pc.isBusy = true := by
  unfold Pool.mainStep at hs
  cases hm : s.main with
  | create left' | grow fd' left' =>
    cases left' <;> simp only [hm] at hs <;> obtain rfl := Option.some.inj hs <;> simp_all
  | poll => simp [hm] at hs
  | checkFree fd' =>
    simp only [hm] at hs
    obtain rfl := Option.some.inj hs
    simp only at hp
    split at hp <;> cases hp
  | checkBusy fd' =>
    simp only [hm] at hs
    obtain rfl := Option.some.inj hs
    by_cases hb : s.busyTcpThreadsSem = s.tcpThreadsCount
    · have hlen : s.tcpThreads.length = s.tcpThreadsCount := by
        simpa [Pool.Created, hm] using h.created
      exact .inr (List.countP_eq_length.1 (by rw [← h.busy, hb, hlen]))
    · simp [hb] at hp
  | send fd' =>
    simp only [hm] at hs
    obtain ⟨q, -, rfl⟩ := Option.map_eq_some_iff.1 hs
    cases hp

/-- **Accounting of the TCP pool**, in every state any interleaving reaches: what the two
semaphores count, that no worker blocks on them, and when the pool grows. -/
theorem tcp_pool_accounting {s : State} (h : multiprotoServer.Reachable s) :
    s.freeTcpThreadsSem = s.tcpThreads.countP TcpThreadPc.isFree ∧
    s.busyTcpThreadsSem = s.tcpThreads.countP TcpThreadPc.isBusy ∧
    s.freeTcpThreadsSem + s.busyTcpThreadsSem ≤ s.tcpThreads.length ∧
    (∀ (i fd : ℕ), s.tcpThreads[i]? = some (.waitFree fd) →
      ∃ t, multiprotoServer.step s (.thread i) = some t) ∧
    (∀ (i : ℕ) c, s.tcpThreads[i]? = some (.waitBusy c) →
      ∃ t, multiprotoServer.step s (.thread i) = some t) ∧
    ∀ t fd left, multiprotoServer.step s .main = some t → t.main = .grow fd left →
      (∃ left', s.main = .grow fd left') ∨ ∀ pc ∈ s.tcpThreads, pc.isBusy = true := by
  have hacc := accounting h
  refine ⟨hacc.free, hacc.busy, ?_, fun i fd hpc => hacc.waitFree_enabled hpc,
    fun i c hpc => hacc.waitBusy_enabled hpc, fun t fd left hs ht => ?_⟩
  · rw [hacc.free, hacc.busy]
    exact countP_free_add_busy_le _
  · obtain ⟨p, hp, rfl⟩ := Option.map_eq_some_iff.1 hs
    exact hacc.all_busy_of_grow hp ht

theorem tcp_pool_accounting_handedOver :
    handedOver.freeTcpThreadsSem = handedOver.tcpThreads.countP TcpThreadPc.isFree ∧
      ∃ t, multiprotoServer.step handedOver (.thread 0) = some t :=
  have h := tcp_pool_accounting handedOver_reachable
  ⟨h.1, h.2.2.2.1 0 5 rfl⟩

end EmbeddedC.ClientService.Multiproto
