import EmbeddedC.ClientService.UdpConversation

/-!
# Homework 16: what a UDP client gets

* `Conversations.outcome`: the histories, by client; `Stage.one_worker`: one worker makes them;
* `Idle`: no worker and no client can go on; `Idle.done`: then every client has had its
  conversation, unless the listener has something to do.
-/

namespace EmbeddedC.ClientService.Udp

/-! ### The histories of one client -/

namespace Entry

/-- The entry is of something that has been done. -/
def past : Entry → Bool
  | .greeted .. | .received .. | .answered .. => true
  | _ => false

def greeter : Entry → Option (ℕ × Endpoint)
  | .greeted i e => some (i, e)
  | _ => none

def receiver : Entry → Option (ℕ × Endpoint × Endpoint)
  | .received i e src => some (i, e, src)
  | _ => none

def answerer : Entry → Option (ℕ × Endpoint)
  | .answered i e => some (i, e)
  | _ => none

end Entry

theorem Datagram.past_entry (d : Datagram) : d.entry.past = false := by
  unfold Datagram.entry
  split <;> rfl

/-- What is past is in the histories only. -/
theorem filterMap_ledger {s : State} {β : Type} {f : Entry → Option β}
    (hf : ∀ x, x.past = false → f x = none) : s.ledger.filterMap f = s.history.filterMap f := by
  have hnet : (s.net.map Datagram.entry).filterMap f = [] := by
    simp [hf _ (Datagram.past_entry _)]
  have hplaces : ((s.main.hand.toList ++ s.udpEndpointsQ).map Entry.pending).filterMap f = [] := by
    rw [List.filterMap_eq_nil_iff]
    intro x hx
    obtain ⟨e, -, rfl⟩ := List.mem_map.1 hx
    exact hf _ rfl
  have hworkers : s.workers.filterMap f = [] := by
    rw [List.filterMap_eq_nil_iff]
    intro x hx
    obtain ⟨i, pc, -, hentry⟩ := mem_workers.1 hx
    exact hf x (by cases pc <;> cases hentry <;> rfl)
  rw [State.ledger, List.filterMap_append, List.filterMap_append, List.filterMap_append, hnet,
    hplaces, hworkers]
  rfl

/-- What is read off the entries of one client is read off its stage. -/
theorem filter_history {s : State} {β : Type} {e : Endpoint} {st : Stage}
    (hperm : (Ledger.of Entry.party e s.ledger).Perm (st.entries e)) {f : Entry → Option β}
    (hf : ∀ x, x.past = false → f x = none) {key : β → Endpoint}
    (hkey : ∀ x b, f x = some b → key b = x.party) :
    ((s.history.filterMap f).filter (key · = e)).Perm ((st.entries e).filterMap f) := by
  refine List.Perm.trans (.of_eq ?_) (hperm.filterMap f)
  rw [← filterMap_ledger hf, Ledger.of, List.filter_filterMap, List.filterMap_filter]
  refine congrArg (List.filterMap · s.ledger) (funext fun x => ?_)
  cases hx : f x with
  | none => simp
  | some b => simp [hkey x b hx, Option.filter]

/-- The histories of one client are those of its stage. -/
theorem Conversations.outcome {s : State} (h : Conversations s) (e : Endpoint) :
    ∃ st, Stage.Fits (s.peer e) st ∧
      (s.greeted.filter (·.2 = e)).Perm ((st.entries e).filterMap Entry.greeter) ∧
      (s.received.filter (·.2.1 = e)).Perm ((st.entries e).filterMap Entry.receiver) ∧
      (s.answered.filter (·.2 = e)).Perm ((st.entries e).filterMap Entry.answerer) := by
  obtain ⟨st, hfits, hperm⟩ := h e
  have hgreeted : s.history.filterMap Entry.greeter = s.greeted := by
    simp [State.history, List.filterMap_append, List.filterMap_map, Function.comp_def,
      Entry.greeter]
  have hreceived : s.history.filterMap Entry.receiver = s.received := by
    simp [State.history, List.filterMap_append, List.filterMap_map, Function.comp_def,
      Entry.receiver]
  have hanswered : s.history.filterMap Entry.answerer = s.answered := by
    simp [State.history, List.filterMap_append, List.filterMap_map, Function.comp_def,
      Entry.answerer]
  refine ⟨st, hfits, ?_, ?_, ?_⟩
  · rw [← hgreeted]
    refine filter_history hperm (fun x hx => ?_) fun x b hb => ?_
    · cases x <;> first | rfl | cases hx
    · cases x <;> cases hb
      rfl
  · rw [← hreceived]
    refine filter_history hperm (fun x hx => ?_) fun x b hb => ?_
    · cases x <;> first | rfl | cases hx
    · cases x <;> cases hb
      rfl
  · rw [← hanswered]
    refine filter_history hperm (fun x hx => ?_) fun x b hb => ?_
    · cases x <;> first | rfl | cases hx
    · cases x <;> cases hb
      rfl

/-- A stage names one worker. -/
theorem Stage.one_worker (st : Stage) (e : Endpoint) : ∃ i,
    (st.entries e).filterMap Entry.greeter <+: [(i, e)] ∧
    (st.entries e).filterMap Entry.receiver <+: [(i, e, e)] ∧
    (st.entries e).filterMap Entry.answerer <+: [(i, e)] := by
  cases st with
  | silent | contacting | pending =>
    exact ⟨0, List.nil_prefix, List.nil_prefix, List.nil_prefix⟩
  | greeting i => exact ⟨i, List.nil_prefix, List.nil_prefix, List.nil_prefix⟩
  | greeted i | speaking i | asked i =>
    exact ⟨i, List.prefix_rfl, List.nil_prefix, List.nil_prefix⟩
  | answering i => exact ⟨i, List.prefix_rfl, List.prefix_rfl, List.nil_prefix⟩
  | answered i | done i => exact ⟨i, List.prefix_rfl, List.prefix_rfl, List.prefix_rfl⟩

theorem prefix_of_perm {α : Type} {l l' : List α} {a : α} (h : l.Perm l') (h' : l' <+: [a]) :
    l <+: [a] := by
  rcases List.prefix_cons_iff.1 h' with rfl | ⟨t, rfl, ht⟩
  · rw [h.eq_nil]
    exact List.nil_prefix
  · rw [List.prefix_nil.1 ht] at h
    rw [List.perm_singleton.1 h]

/-! ### When no worker and no client can go on -/

/-- No worker and no client can go on. -/
structure Idle (s : State) : Prop where
  thread : ∀ i k, udpServerThread s i true k = none
  client : ∀ c k, udpClient s c true k = none

theorem Idle.worker {s : State} (h : Idle s) (hacc : Accounting s) {i : ℕ} {pc : UdpThreadPc}
    (hpc : s.udpThreads[i]? = some pc) : (pc = .receive ∧ s.udpEndpointsQ = []) ∨ pc = .returned ∨
      ∃ e, pc = .recv e ∧ ∀ d ∈ s.net, d.dst ≠ .worker i := by
  have hnext := h.thread i 0
  unfold udpServerThread at hnext
  rw [hpc] at hnext
  cases pc with
  | receive => exact .inl ⟨rfl, (MessageQueue.receive_eq_none _).1 (Option.map_eq_none_iff.1 hnext)⟩
  | waitFree e =>
    have hfree : s.freeUdpThreadsSem ≠ 0 := by
      rw [hacc.free]
      exact (List.countP_pos_of_getElem? hpc rfl).ne'
    simp [hfree] at hnext
  | waitBusy =>
    have hbusy : s.busyUdpThreadsSem ≠ 0 := by
      rw [hacc.busy]
      exact (List.countP_pos_of_getElem? hpc rfl).ne'
    simp [hbusy] at hnext
  | recv e =>
    refine .inr (.inr ⟨e, rfl, fun d hd hdst => ?_⟩)
    obtain ⟨k, net, hk⟩ := recvfrom_of_mem hd
    rw [hdst] at hk
    have := h.thread i k
    simp [udpServerThread, hpc, hk] at this
  | returned => exact .inr (.inl rfl)
  | _ => cases hnext

theorem Idle.waiting {s : State} (h : Idle s) {c : ℕ} {pc : ClientPc}
    (hpc : s.clients[c]? = some pc) : (∀ d ∈ s.net, d.dst ≠ .client c) ∧
      (pc = .recvGreeting ∨ ∃ server, pc = .recvAnswer server) ∨ pc = .done ∨ pc = .exited := by
  have hnext := h.client c 0
  unfold udpClient at hnext
  rw [hpc] at hnext
  cases pc with
  | recvGreeting =>
    refine .inl ⟨fun d hd hdst => ?_, .inl rfl⟩
    obtain ⟨k, net, hk⟩ := recvfrom_of_mem hd
    rw [hdst] at hk
    have := h.client c k
    simp [udpClient, hpc, hk] at this
  | recvAnswer server =>
    refine .inl ⟨fun d hd hdst => ?_, .inr ⟨server, rfl⟩⟩
    obtain ⟨k, net, hk⟩ := recvfrom_of_mem hd
    rw [hdst] at hk
    have := h.client c k
    simp [udpClient, hpc, hk] at this
  | done => exact .inr (.inl rfl)
  | exited => exact .inr (.inr rfl)
  | _ => cases hnext

/-- The entry is of a datagram. -/
def Entry.underWay : Entry → Bool
  | .hello _ | .toClient .. | .toWorker .. | .stray _ => true
  | _ => false

/-- The entry is of a worker. -/
def Entry.atWork : Entry → Bool
  | .greeting .. | .serving .. | .answering .. => true
  | _ => false

theorem UdpThreadPc.atWork_entry {i : ℕ} {pc : UdpThreadPc} {x : Entry}
    (h : pc.entry i = some x) : x.atWork = true := by
  cases pc <;> cases h <;> rfl

/-- Where an entry is. -/
theorem mem_ledger {s : State} {x : Entry} (h : x ∈ s.ledger) :
    (∃ d ∈ s.net, d.entry = x) ∨
    (∃ e, (s.main.hand = some e ∨ e ∈ s.udpEndpointsQ) ∧ .pending e = x) ∨
    (∃ (i : ℕ) (pc : UdpThreadPc), s.udpThreads[i]? = some pc ∧ pc.entry i = some x) ∨
    x.past = true := by
  rcases List.mem_append.1 h with hnet | h
  · exact .inl (List.mem_map.1 hnet)
  rcases List.mem_append.1 h with hplace | h
  · obtain ⟨e, he, rfl⟩ := List.mem_map.1 hplace
    exact .inr (.inl ⟨e, by simpa using he, rfl⟩)
  rcases List.mem_append.1 h with hworker | hpast
  · exact .inr (.inr (.inl (mem_workers.1 hworker)))
  · refine .inr (.inr (.inr ?_))
    simp only [State.history, List.mem_append, List.mem_map] at hpast
    rcases hpast with ⟨g, -, rfl⟩ | ⟨r, -, rfl⟩ | ⟨a, -, rfl⟩ <;> rfl

theorem datagram_of_mem {s : State} {x : Entry} (h : x ∈ s.ledger) (hx : x.underWay = true) :
    ∃ d ∈ s.net, d.entry = x := by
  obtain hnet | ⟨e, -, rfl⟩ | ⟨i, pc, -, hentry⟩ | hpast := mem_ledger h
  · exact hnet
  · cases hx
  · have := UdpThreadPc.atWork_entry hentry
    cases x <;> cases hx <;> cases this
  · cases x <;> cases hx <;> cases hpast

theorem worker_of_mem {s : State} {x : Entry} (h : x ∈ s.ledger) (hx : x.atWork = true) :
    ∃ (i : ℕ) (pc : UdpThreadPc), s.udpThreads[i]? = some pc ∧ pc.entry i = some x := by
  obtain ⟨d, -, rfl⟩ | ⟨e, -, rfl⟩ | hworker | hpast := mem_ledger h
  · revert hx
    unfold Datagram.entry
    split <;> intro hx <;> cases hx
  · cases hx
  · exact hworker
  · cases x <;> cases hx <;> cases hpast

theorem pending_of_mem {s : State} {e : Endpoint} (h : .pending e ∈ s.ledger) :
    s.main.hand = some e ∨ e ∈ s.udpEndpointsQ := by
  obtain ⟨d, -, hentry⟩ | ⟨e, he, heq⟩ | ⟨i, pc, -, hentry⟩ | hpast := mem_ledger h
  · revert hentry
    unfold Datagram.entry
    split <;> intro hentry <;> cases hentry
  · cases heq
    exact he
  · cases UdpThreadPc.atWork_entry hentry
  · cases hpast

theorem Datagram.dst_of_entry {d : Datagram} {i : ℕ} {e : Endpoint} :
    (d.entry = .toClient i e → d.dst = e) ∧ (d.entry = .toWorker i e → d.dst = .worker i) ∧
      (d.entry = .hello e → d.dst = .listener) := by
  unfold Datagram.entry
  split <;> simp_all

/-- The `pthread_create` calls to come before the main loop. -/
def MainPc.left : MainPc → ℕ
  | .create left => left
  | _ => 0

/-- There is a worker, or one will be created. -/
theorem workers_exist {s : State} (h : udpService.Reachable s) :
    0 < s.udpThreads.length + s.main.left := by
  refine h.invariant (I := fun s => 0 < s.udpThreads.length + s.main.left) (fun t ht => ?_)
    fun t a u _ hinv hstep => ?_
  · subst ht
    decide
  · cases a with
    | main =>
      cases mainStep_step hstep with
      | create hmain | grow hmain => simp
      | started hmain | back hmain | free hmain | notFree hmain | allBusy hmain | notBusy hmain
      | grown hmain | send hmain =>
        rw [hmain] at hinv
        exact Nat.lt_add_right _ hinv
    | tcp =>
      obtain ⟨hmain, rfl⟩ := tcpClient_eq_some hstep
      rw [hmain] at hinv
      exact hinv
    | contact k =>
      obtain ⟨hmain, d, net, -, -, rfl⟩ := contact_eq_some hstep
      rcases hmain with hmain | hmain <;> rw [hmain] at hinv <;> exact hinv
    | thread i ok k =>
      obtain ⟨pc, pc', -, hthreads, -⟩ := (udpServerThread_step hstep).phases
      rw [hthreads, List.length_set, (udpServerThread_step hstep).main]
      exact hinv
    | client c ok k =>
      obtain ⟨hmain, hthreads, -⟩ := (udpClient_step hstep).pool
      rw [hmain, hthreads]
      exact hinv
    | connect | inject d | lose k =>
      obtain rfl := Option.some.inj hstep
      exact hinv

/-- A worker that waits for a message is not kept waiting: the greeting, the client's next call
or the message is on its way. -/
theorem Idle.not_recv {s : State} (h : Idle s) (hconv : Conversations s) {i : ℕ} {e : Endpoint}
    (hpc : s.udpThreads[i]? = some (.recv e)) (hnone : ∀ d ∈ s.net, d.dst ≠ .worker i) : False := by
  obtain ⟨st, hfits, hserving, hentries⟩ := hconv.stage (mem_ledger_of_entry hpc rfl)
  obtain ⟨c, rfl⟩ := hfits.client hserving
  change Stage.Fits s.clients[c]? st at hfits
  cases st with
  | greeted j =>
    rcases h.waiting hfits with ⟨hclient, -⟩ | hout | hout
    · obtain ⟨d, hd, hentry⟩ := datagram_of_mem (hentries (List.mem_cons_self ..)) rfl
      exact hclient d hd (Datagram.dst_of_entry.1 hentry)
    · cases hout
    · cases hout
  | speaking j =>
    rcases hfits with hfits | hfits <;>
      rcases h.waiting hfits with ⟨-, hout | ⟨server, hout⟩⟩ | hout | hout <;> cases hout
  | asked j =>
    obtain rfl : i = j := by simpa [Stage.entries, Entry.party] using hserving
    obtain ⟨d, hd, hentry⟩ := datagram_of_mem (hentries (List.mem_cons_self ..)) rfl
    exact hnone d hd (Datagram.dst_of_entry.2.1 hentry)
  | _ => simp [Stage.entries] at hserving

/-- What the parties keep in a run in which no call fails and every datagram arrives. -/
structure Sound (s : State) : Prop where
  conversations : Conversations s
  accounting : Accounting s
  not_returned : .returned ∉ s.udpThreads
  workers_exist : 0 < s.udpThreads.length + s.main.left

theorem sound {s : State} (h : udpService.ReachableUnder Faultless s) : Sound s where
  conversations := conversations h
  accounting := accounting h.reachable
  not_returned := not_returned (h.mono fun _ _ hfault => Faultless.greetingSent hfault)
  workers_exist := workers_exist h.reachable

/-- Workers that cannot go on are back at their queue, and it is empty. -/
theorem Idle.receive {s : State} (h : Idle s) (hs : Sound s) {i : ℕ} {pc : UdpThreadPc}
    (hpc : s.udpThreads[i]? = some pc) : pc = .receive ∧ s.udpEndpointsQ = [] := by
  rcases h.worker hs.accounting hpc with hreceive | rfl | ⟨e, rfl, hnone⟩
  · exact hreceive
  · exact absurd (List.mem_of_getElem? hpc) hs.not_returned
  · exact (h.not_recv hs.conversations hpc hnone).elim

/-- In the main loop there is such a worker. -/
theorem Idle.free {s : State} (h : Idle s) (hs : Sound s) (hleft : s.main.left = 0) :
    s.udpEndpointsQ = [] ∧ s.freeUdpThreadsSem ≠ 0 := by
  have hlt : 0 < s.udpThreads.length := by simpa [hleft] using hs.workers_exist
  have hzero := List.getElem?_eq_getElem hlt
  obtain ⟨hreceive, hq⟩ := h.receive hs hzero
  rw [hreceive] at hzero
  refine ⟨hq, ?_⟩
  rw [hs.accounting.free]
  exact (List.countP_pos_of_getElem? hzero rfl).ne'

/-- When the listener has nothing to do either, every client has had its conversation. -/
theorem Idle.done {s : State} (h : Idle s) (hs : Sound s) (hleft : s.main.left = 0)
    (hhand : s.main.hand = none) (hlistener : ∀ d ∈ s.net, d.dst ≠ .listener) {c : ℕ}
    {pc : ClientPc} (hpc : s.clients[c]? = some pc) : pc = .done := by
  have hwork : ∀ x ∈ s.ledger, x.atWork = false := by
    intro x hx
    by_contra hwork
    obtain ⟨i, pc, hpc, hentry⟩ := worker_of_mem hx (by simpa using hwork)
    rw [(h.receive hs hpc).1] at hentry
    cases hentry
  obtain ⟨st, hfits, hperm⟩ := hs.conversations (.client c)
  have hentries : ∀ x ∈ st.entries (.client c), x ∈ s.ledger := fun x hx =>
    (Ledger.mem_of.1 (hperm.symm.subset hx)).1
  rw [State.peer, hpc] at hfits
  rcases h.waiting hpc with ⟨hclient, hwaits⟩ | hdone | rfl
  · -- at every stage something of the conversation would still be with somebody
    exfalso
    cases st with
    | contacting =>
      obtain ⟨d, hd, hentry⟩ := datagram_of_mem (hentries _ (List.mem_cons_self ..)) rfl
      exact hlistener d hd ((Datagram.dst_of_entry (i := 0)).2.2 hentry)
    | pending =>
      rcases pending_of_mem (hentries _ (List.mem_cons_self ..)) with hmem | hmem
      · cases hhand.symm.trans hmem
      · rw [(h.free hs hleft).1] at hmem
        cases hmem
    | greeting i | answering i => cases hwork _ (hentries _ (List.mem_cons_self ..))
    | asked i => cases hwork _ (hentries _ (List.mem_cons_of_mem _ (List.mem_cons_self ..)))
    | greeted i | answered i =>
      obtain ⟨d, hd, hentry⟩ := datagram_of_mem (hentries _ (List.mem_cons_self ..)) rfl
      exact hclient d hd (Datagram.dst_of_entry.1 hentry)
    | silent | speaking i | done i =>
      rcases hwaits with rfl | ⟨server, rfl⟩ <;> simp [Stage.Fits] at hfits
  · exact hdone
  · cases st <;> simp [Stage.Fits] at hfits

end EmbeddedC.ClientService.Udp
