import EmbeddedC.ClientService.UdpServer

/-!
# Homework 16: the counting semaphores of the UDP pool

A worker whose greeting cannot be sent returns, and its post of `free_udp_threads_sem` is never
taken back; after the other two calls that can fail it goes on to its posts and waits.

* `Accounting`: what the semaphores count, in every reachable state;
* `udp_free_threads_iff`: how many workers must have returned for the main thread to be misled;
* `udp_free_threads`, `udp_free_threads_failed`: runs in which every greeting is sent, and one in
  which a greeting is not.
-/

namespace EmbeddedC.ClientService.Udp

/-- The semaphores count phases. -/
structure Accounting (s : State) : Prop where
  free : s.freeUdpThreadsSem = s.udpThreads.countP UdpThreadPc.posted
  busy : s.busyUdpThreadsSem = s.udpThreads.countP UdpThreadPc.isBusy

/-- A call of worker `i` moves it from one phase to another, changes the semaphores by what the
phases count, and ends the worker only when its greeting is not sent. -/
theorem ThreadStep.phases {s t : State} {i : ℕ} {ok : Bool} (h : ThreadStep s i ok t) :
    ∃ pc pc', s.udpThreads[i]? = some pc ∧ t.udpThreads = s.udpThreads.set i pc' ∧
      t.freeUdpThreadsSem + (if pc.posted then 1 else 0) =
        s.freeUdpThreadsSem + (if pc'.posted then 1 else 0) ∧
      t.busyUdpThreadsSem + (if pc.isBusy then 1 else 0) =
        s.busyUdpThreadsSem + (if pc'.isBusy then 1 else 0) ∧
      (pc' = .returned → ok = false ∧ ∃ e, pc = .greet e) := by
  cases h with
  | move hpc hmoves hfree hbusy =>
    refine ⟨_, _, hpc, rfl, hfree, hbusy, ?_⟩
    rintro rfl
    cases hmoves
  | take hpc | greet hpc | answer hpc => exact ⟨_, _, hpc, rfl, rfl, rfl, fun h => nomatch h⟩
  | recv hpc =>
    refine ⟨_, _, hpc, rfl, ?_, ?_, ?_⟩ <;> split <;> first | rfl | exact fun h => nomatch h
  | fail hpc hfails =>
    refine ⟨_, _, hpc, rfl, ?_, ?_, ?_⟩ <;> cases hfails
    all_goals first | rfl | exact fun _ => ⟨rfl, _, rfl⟩ | exact fun h => nomatch h

/-- A worker's call leaves the main thread where it is. -/
theorem ThreadStep.main {s t : State} {i : ℕ} {ok : Bool} (h : ThreadStep s i ok t) :
    t.main = s.main := by
  cases h <;> rfl

theorem Accounting.thread {s t : State} {i : ℕ} {ok : Bool} (h : Accounting s)
    (hstep : ThreadStep s i ok t) : Accounting t := by
  obtain ⟨pc, pc', hpc, hthreads, hfree, hbusy, -⟩ := hstep.phases
  constructor
  · have := List.countP_set_add hpc UdpThreadPc.posted pc'
    have := h.free
    rw [hthreads]
    omega
  · have := List.countP_set_add hpc UdpThreadPc.isBusy pc'
    have := h.busy
    rw [hthreads]
    omega

/-- A client's call changes nothing of the pool. -/
theorem ClientStep.pool {s t : State} {c : ℕ} {ok : Bool} (h : ClientStep s c ok t) :
    t.main = s.main ∧ t.udpThreads = s.udpThreads ∧ t.udpEndpointsQ = s.udpEndpointsQ ∧
      t.freeUdpThreadsSem = s.freeUdpThreadsSem ∧ t.busyUdpThreadsSem = s.busyUdpThreadsSem := by
  cases h <;> exact ⟨rfl, rfl, rfl, rfl, rfl⟩

theorem Accounting.step {s t : State} {a : Action} (h : Accounting s) (hstep : step s a = some t) :
    Accounting t := by
  cases a with
  | main =>
    cases mainStep_step hstep with
    | create | grow =>
      constructor
      · simpa [List.countP_append, UdpThreadPc.posted] using h.free
      · simpa [List.countP_append, UdpThreadPc.isBusy] using h.busy
    | _ => exact ⟨h.free, h.busy⟩
  | tcp =>
    obtain ⟨-, rfl⟩ := tcpClient_eq_some hstep
    exact ⟨h.free, h.busy⟩
  | contact k =>
    obtain ⟨-, d, net, -, -, rfl⟩ := contact_eq_some hstep
    exact ⟨h.free, h.busy⟩
  | thread i ok k => exact h.thread (udpServerThread_step hstep)
  | client c ok k =>
    obtain ⟨-, hthreads, -, hfree, hbusy⟩ := (udpClient_step hstep).pool
    exact ⟨by rw [hthreads, hfree, h.free], by rw [hthreads, hbusy, h.busy]⟩
  | connect | inject d | lose k =>
    obtain rfl := Option.some.inj hstep
    exact ⟨h.free, h.busy⟩

theorem accounting {s : State} (h : udpService.Reachable s) : Accounting s :=
  h.invariant (fun _ h₀ => h₀ ▸ ⟨rfl, rfl⟩) fun _ _ _ _ hi hs => hi.step hs

/-! ### Trust in the free threads -/

/-- The worker is alive and not between its wait on `free_udp_threads_sem` and its post back. -/
def UdpThreadPc.available : UdpThreadPc → Bool
  | .starting | .receive | .greet _ | .waitFree _ | .postServed => true
  | _ => false

/-- What the main thread takes `free_udp_threads_sem` for. -/
structure Trusted (s : State) : Prop where
  free_le : s.freeUdpThreadsSem ≤ s.udpThreads.countP UdpThreadPc.available
  worker : 0 < s.freeUdpThreadsSem → ∃ pc ∈ s.udpThreads, pc.available = true

/-- A phase in which the worker has posted is one in which it is available, or it is gone. -/
theorem countP_posted (l : List UdpThreadPc) :
    l.countP UdpThreadPc.posted + l.countP (· = .starting) =
      l.countP UdpThreadPc.available + l.countP (· = .returned) := by
  induction l with
  | nil => rfl
  | cons pc l ih =>
    simp only [List.countP_cons]
    cases pc <;> simp [UdpThreadPc.posted, UdpThreadPc.available] <;> omega

theorem trusted_of_free_le {s : State}
    (h : s.freeUdpThreadsSem ≤ s.udpThreads.countP UdpThreadPc.available) : Trusted s :=
  ⟨h, fun hpos => List.countP_pos_iff.1 (hpos.trans_le h)⟩

/-- The main thread is misled iff more workers have returned than are starting. -/
theorem udp_free_threads_iff {s : State} (h : udpService.Reachable s) :
    Trusted s ↔ s.udpThreads.countP (· = .returned) ≤ s.udpThreads.countP (· = .starting) := by
  have hcount := countP_posted s.udpThreads
  have hfree := (accounting h).free
  constructor
  · intro htrusted
    have := htrusted.free_le
    omega
  · exact fun hle => trusted_of_free_le (by omega)

/-- The worker is at the `sendto` of its greeting. -/
def UdpThreadPc.isGreeting : UdpThreadPc → Bool
  | .greet _ => true
  | _ => false

/-- Every greeting is sent. -/
def GreetingSent (s : State) : Action → Prop
  | .thread i ok _ => ∀ pc ∈ s.udpThreads[i]?, pc.isGreeting = true → ok = true
  | _ => True

/-- No worker returns. -/
theorem not_returned {s : State} (h : udpService.ReachableUnder GreetingSent s) :
    .returned ∉ s.udpThreads := by
  refine h.invariant (I := fun s => .returned ∉ s.udpThreads) (fun t ht => ?_)
    fun t a u _ hinv hsent hstep => ?_
  · subst ht
    exact List.not_mem_nil
  · cases a with
    | main =>
      cases mainStep_step hstep with
      | create | grow => simpa using hinv
      | _ => exact hinv
    | tcp =>
      obtain ⟨-, rfl⟩ := tcpClient_eq_some hstep
      exact hinv
    | contact k =>
      obtain ⟨-, d, net, -, -, rfl⟩ := contact_eq_some hstep
      exact hinv
    | thread i ok k =>
      obtain ⟨pc, pc', hpc, hthreads, -, -, hreturned⟩ := (udpServerThread_step hstep).phases
      rw [hthreads]
      intro hmem
      rcases List.mem_or_eq_of_mem_set hmem with hold | hnew
      · exact hinv hold
      · obtain ⟨hok, e, rfl⟩ := hreturned hnew.symm
        cases hok.symm.trans (hsent _ hpc rfl)
    | client c ok k =>
      obtain ⟨-, hthreads, -⟩ := (udpClient_step hstep).pool
      exact hthreads ▸ hinv
    | connect | inject d | lose k =>
      obtain rfl := Option.some.inj hstep
      exact hinv

/-- **Accounting of the UDP pool** in runs in which every greeting is sent, whatever else fails:
`free_udp_threads_sem` does not exceed the workers that will take an endpoint. -/
theorem udp_free_threads {s : State} (h : udpService.ReachableUnder GreetingSent s) :
    Trusted s := by
  refine (udp_free_threads_iff h.reachable).2 ?_
  have hnone : s.udpThreads.countP (· = .returned) = 0 := List.countP_eq_zero.2 fun pc hpc => by
    simpa using fun heq : pc = .returned => not_returned h (heq ▸ hpc)
  omega

instance (s : State) : ∀ a, Decidable (GreetingSent s a)
  | .thread i ok _ =>
    inferInstanceAs (Decidable (∀ pc ∈ s.udpThreads[i]?, pc.isGreeting = true → ok = true))
  | .main | .tcp | .contact _ | .connect | .client .. | .inject _ | .lose _ => instDecidableTrue

/-- Two workers start, and a client's endpoint is handed to the first one. -/
def oneContact : List Action :=
  [.main, .main, .main, .thread 0 true 0, .thread 1 true 0, .connect, .client 0 true 0,
    .contact 0, .main, .main, .thread 0 true 0]

/-- The client is greeted, and the `recvfrom` of its message fails. -/
theorem udp_free_threads_notReceived :
    Trusted ((udpService.runUnder GreetingSent initial (oneContact ++
      List.replicate 3 (.thread 0 true 0) ++ [.thread 0 false 0, .thread 0 true 0])).get
      (by decide +kernel)) :=
  udp_free_threads (Machine.reachableUnder_of_run rfl (Option.some_get _).symm)

/-- The greeting cannot be sent. -/
def notGreeted : State :=
  (udpService.run initial (oneContact ++ [.thread 0 false 0])).get (by decide +kernel)

/-- `free_udp_threads_sem` is 2, and one worker is left. -/
theorem udp_free_threads_failed : ¬ ∀ s, udpService.Reachable s → Trusted s := by
  intro h
  have htrusted := h notGreeted (Machine.reachable_of_run rfl (Option.some_get _).symm)
  exact absurd htrusted.free_le (by decide +kernel)

end EmbeddedC.ClientService.Udp
