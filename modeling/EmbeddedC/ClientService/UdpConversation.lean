import EmbeddedC.Lib.Ledger
import EmbeddedC.ClientService.UdpAccounting

/-!
# Homework 16: one UDP client after the other

Greeting, message and answer of many clients are under way at once, and a worker has one socket
for all of them.  A ledger keeps what there is of each client: its datagrams, the places its
endpoint is at, the worker that serves it, and what workers have done for it (`Entry`).  These
are always the entries of one stage of the conversation (`Stage`).

* `Entry`, `ledger`, `Stage`, `Conversations`: the ledger and its invariant;
* `Conversations.threadStep`, `Conversations.clientStep`, `Conversations.mainStep`: one call;
* `conversations`, `correct_endpoints`: runs in which no call fails and every datagram arrives.
-/

namespace EmbeddedC.ClientService.Udp

/-! ### The ledger -/

/-- What there is of a client with endpoint `e`. -/
inductive Entry
  /-- a datagram to the listener is under way -/
  | hello (e : Endpoint)
  /-- the endpoint is in the main thread's hand or in `udp_endpoints_q` -/
  | pending (e : Endpoint)
  /-- worker `i` has taken the endpoint and not yet greeted -/
  | greeting (i : ℕ) (e : Endpoint)
  /-- worker `i` has greeted and waits for a message, or is about to -/
  | serving (i : ℕ) (e : Endpoint)
  /-- worker `i` is about to answer -/
  | answering (i : ℕ) (e : Endpoint)
  /-- a datagram of worker `i` to the client is under way -/
  | toClient (i : ℕ) (e : Endpoint)
  /-- a datagram of the client to worker `i` is under way -/
  | toWorker (i : ℕ) (e : Endpoint)
  /-- any other datagram is under way -/
  | stray (e : Endpoint)
  /-- worker `i` has greeted -/
  | greeted (i : ℕ) (e : Endpoint)
  /-- worker `i` has received a datagram of `src` while it was serving the client -/
  | received (i : ℕ) (e src : Endpoint)
  /-- worker `i` has answered -/
  | answered (i : ℕ) (e : Endpoint)
  deriving DecidableEq

def Entry.party : Entry → Endpoint
  | .hello e | .pending e | .greeting _ e | .serving _ e | .answering _ e | .toClient _ e
  | .toWorker _ e | .stray e | .greeted _ e | .received _ e _ | .answered _ e => e

def Datagram.entry (d : Datagram) : Entry :=
  match d.src, d.dst with
  | .worker i, dst => .toClient i dst
  | src, .listener => .hello src
  | src, .worker i => .toWorker i src
  | src, _ => .stray src

/-- The entry of worker `i`. -/
def UdpThreadPc.entry (i : ℕ) : UdpThreadPc → Option Entry
  | .greet e => some (.greeting i e)
  | .waitFree e | .postBusy e | .recv e => some (.serving i e)
  | .answer e => some (.answering i e)
  | _ => none

namespace State

/-- The entries of the workers. -/
def workers (s : State) : List Entry :=
  s.udpThreads.zipIdx.filterMap fun p => p.1.entry p.2

/-- What workers have done. -/
def history (s : State) : List Entry :=
  s.greeted.map (fun g => .greeted g.1 g.2) ++
    (s.received.map (fun r => .received r.1 r.2.1 r.2.2) ++
      s.answered.map fun a => .answered a.1 a.2)

def ledger (s : State) : List Entry :=
  s.net.map Datagram.entry ++
    ((s.main.hand.toList ++ s.udpEndpointsQ).map Entry.pending ++ (s.workers ++ s.history))

/-- The client with endpoint `e`. -/
def peer (s : State) : Endpoint → Option ClientPc
  | .client c => s.clients[c]?
  | _ => none

end State

/-- How far the conversation with a client is, and with which worker. -/
inductive Stage
  /-- the client has not sent anything -/
  | silent
  | contacting
  | pending
  | greeting (i : ℕ)
  | greeted (i : ℕ)
  /-- the client has received the greeting and not yet sent its message -/
  | speaking (i : ℕ)
  | asked (i : ℕ)
  | answering (i : ℕ)
  | answered (i : ℕ)
  | done (i : ℕ)

namespace Stage

def entries (e : Endpoint) : Stage → List Entry
  | .silent => []
  | .contacting => [.hello e]
  | .pending => [.pending e]
  | .greeting i => [.greeting i e]
  | .greeted i => [.toClient i e, .serving i e, .greeted i e]
  | .speaking i => [.serving i e, .greeted i e]
  | .asked i => [.toWorker i e, .serving i e, .greeted i e]
  | .answering i => [.answering i e, .received i e e, .greeted i e]
  | .answered i => [.toClient i e, .answered i e, .received i e e, .greeted i e]
  | .done i => [.answered i e, .received i e e, .greeted i e]

/-- Where the client is at each stage; `none` for an endpoint that is no client's. -/
def Fits (peer : Option ClientPc) : Stage → Prop
  | .silent => peer = none ∨ peer = some .sendHello
  | .contacting | .pending | .greeting _ | .greeted _ => peer = some .recvGreeting
  | .speaking i => peer = some (.postCounter (.worker i)) ∨ peer = some (.sendMsg (.worker i))
  | .asked i | .answering i | .answered i => peer = some (.recvAnswer (.worker i))
  | .done _ => peer = some .done

end Stage

/-- The ledger has, for every endpoint, the entries of a stage of its conversation. -/
def Conversations (s : State) : Prop :=
  Ledger.Kept Entry.party Stage.entries (fun e => Stage.Fits (s.peer e)) s.ledger

/-- An entry tells about the stage of its conversation, and the stage about other entries. -/
theorem Conversations.stage {s : State} (h : Conversations s) {x : Entry} (hx : x ∈ s.ledger) :
    ∃ st, Stage.Fits (s.peer x.party) st ∧ x ∈ Stage.entries x.party st ∧
      Stage.entries x.party st ⊆ s.ledger := Ledger.Kept.stage h hx

/-- Only clients have a conversation. -/
theorem Stage.Fits.client {s : State} {e : Endpoint} {st : Stage} (h : Stage.Fits (s.peer e) st)
    {x : Entry} (hx : x ∈ st.entries e) : ∃ c, e = .client c := by
  cases e with
  | client c => exact ⟨c, rfl⟩
  | _ => cases st <;> simp_all [Stage.Fits, Stage.entries, State.peer]

theorem Conversations.client {s : State} (h : Conversations s) {x : Entry} (hx : x ∈ s.ledger) :
    ∃ c, x.party = .client c := by
  obtain ⟨st, hfits, hmem, -⟩ := h.stage hx
  exact hfits.client hmem

/-! ### Entries and places -/

theorem mem_ledger_of_mem_net {s : State} {d : Datagram} (hd : d ∈ s.net) : d.entry ∈ s.ledger :=
  List.mem_append_left _ (List.mem_map_of_mem hd)

/-- The entries of the workers other than `i`. -/
theorem workers_setThread {s : State} {i : ℕ} {pc : UdpThreadPc}
    (hpc : s.udpThreads[i]? = some pc) : ∃ rest, s.workers.Perm ((pc.entry i).toList ++ rest) ∧
      ∀ pc', (s.setThread i pc').workers.Perm ((pc'.entry i).toList ++ rest) :=
  List.filterMap_zipIdx_set_perm hpc fun p => p.1.entry p.2

theorem mem_workers {s : State} {x : Entry} : x ∈ s.workers ↔
    ∃ (i : ℕ) (pc : UdpThreadPc), s.udpThreads[i]? = some pc ∧ pc.entry i = some x := by
  rw [State.workers, List.mem_filterMap]
  constructor
  · rintro ⟨⟨pc, i⟩, hmem, hx⟩
    exact ⟨i, pc, List.mk_mem_zipIdx_iff_getElem?.1 hmem, hx⟩
  · rintro ⟨i, pc, hpc, hx⟩
    exact ⟨(pc, i), List.mk_mem_zipIdx_iff_getElem?.2 hpc, hx⟩

theorem mem_ledger_of_entry {s : State} {i : ℕ} {pc : UdpThreadPc} {x : Entry}
    (hpc : s.udpThreads[i]? = some pc) (hx : pc.entry i = some x) : x ∈ s.ledger :=
  List.mem_append_right _ (List.mem_append_right _ (List.mem_append_left _
    (mem_workers.2 ⟨i, pc, hpc, hx⟩)))

/-- Only worker `i` has entries that name it as the one who serves. -/
theorem serving_of_mem {s : State} {i : ℕ} {e : Endpoint} (h : .serving i e ∈ s.ledger) :
    ∃ pc, s.udpThreads[i]? = some pc ∧ pc.entry i = some (.serving i e) := by
  have hworkers : .serving i e ∈ s.workers := by
    simp only [State.ledger, State.history, List.mem_append, List.mem_map, reduceCtorEq, and_false,
      exists_false, or_false, false_or] at h
    rcases h with ⟨d, -, hd⟩ | h
    · revert hd
      unfold Datagram.entry
      split <;> intro hd <;> cases hd
    · exact h
  obtain ⟨j, pc, hpc, hentry⟩ := mem_workers.1 hworkers
  cases pc with
  | waitFree e' | postBusy e' | recv e' =>
    cases hentry
    exact ⟨_, hpc, rfl⟩
  | _ => cases hentry

/-- How often an entry is in the ledger, by places. -/
theorem count_ledger (s : State) (x : Entry) : s.ledger.count x =
    (s.net.map Datagram.entry).count x + ((s.main.hand.toList.map Entry.pending).count x +
      (s.udpEndpointsQ.map Entry.pending).count x + (s.workers.count x + s.history.count x)) := by
  rw [State.ledger, List.map_append, List.count_append, List.count_append, List.count_append,
    List.count_append]

/-- What a datagram that is received takes out of the ledger. -/
theorem count_received {net net' : List Datagram} {d : Datagram} {x' : Entry}
    (hnet : net.Perm (d :: net')) (hentry : d.entry = x') (x : Entry) :
    (net.map Datagram.entry).count x = (net'.map Datagram.entry).count x + [x'].count x := by
  rw [(hnet.map Datagram.entry).count_eq x, List.map_cons, hentry, ← List.singleton_append,
    List.count_append, Nat.add_comm]

/-! ### Calls of a worker -/

theorem UdpThreadPc.Moves.entry {pc pc' : UdpThreadPc} (h : pc.Moves pc') (i : ℕ) :
    pc'.entry i = pc.entry i := by
  cases h <;> rfl

/-- Worker `i` moves on without a change to the ledger. -/
theorem Conversations.threadMove {s : State} (h : Conversations s) {i : ℕ} {pc pc' : UdpThreadPc}
    {free busy served : ℕ} (hpc : s.udpThreads[i]? = some pc) (hmoves : pc.Moves pc') :
    Conversations { s.setThread i pc' with
      freeUdpThreadsSem := free
      busyUdpThreadsSem := busy
      servedUdpClients := served } := by
  obtain ⟨rest, hworkers, hset⟩ := workers_setThread hpc
  have hsame : (s.setThread i pc').workers.Perm s.workers :=
    (hset pc').trans (hmoves.entry i ▸ hworkers.symm)
  refine Ledger.Kept.congr h ?_ fun e st hst => hst
  exact ((hsame.append_right _).append_left _).append_left _

/-- A call of worker `i` that takes entries of one client out, and enters others. -/
theorem Conversations.threadExchange {s t : State} (h : Conversations s) {i : ℕ}
    {pc pc' : UdpThreadPc} (e : Endpoint) (old new : List Entry)
    (hpc : s.udpThreads[i]? = some pc) (hthreads : t.udpThreads = s.udpThreads.set i pc')
    (hmain : t.main = s.main) (hclients : t.clients = s.clients)
    (hcount : ∀ x, (s.net.map Datagram.entry).count x +
        (s.udpEndpointsQ.map Entry.pending).count x + s.history.count x +
        (pc.entry i).toList.count x + new.count x =
      (t.net.map Datagram.entry).count x + (t.udpEndpointsQ.map Entry.pending).count x +
        t.history.count x + (pc'.entry i).toList.count x + old.count x)
    (hmem : old ⊆ s.ledger) (hold : ∀ x ∈ old, x.party = e) (hnew : ∀ x ∈ new, x.party = e)
    (hstage : ∀ st, Stage.Fits (s.peer e) st → old ⊆ Stage.entries e st → ∃ st' more,
      Stage.Fits (s.peer e) st' ∧ (Stage.entries e st).Perm (old ++ more) ∧
        (Stage.entries e st').Perm (new ++ more)) : Conversations t := by
  have hpeer : t.peer = s.peer := by
    funext e
    cases e <;> simp [State.peer, hclients]
  refine Ledger.Kept.exchange h e old new (fun x => ?_) hmem hold hnew
    (fun _ _ _ hst => hpeer ▸ hst) (hpeer ▸ hstage)
  obtain ⟨rest, hworkers, hset⟩ := workers_setThread hpc
  have hafter : t.workers.Perm ((pc'.entry i).toList ++ rest) := by
    rw [State.workers, hthreads]
    exact hset pc'
  have hbefore := hworkers.count_eq x
  have hafter := hafter.count_eq x
  have := hcount x
  rw [List.count_append] at hbefore hafter
  rw [count_ledger, count_ledger, hmain]
  omega

/-- Worker `i` takes an endpoint from `udp_endpoints_q`. -/
theorem Conversations.take {s : State} (h : Conversations s) {i : ℕ} {e : Endpoint}
    {q : List Endpoint} (hpc : s.udpThreads[i]? = some .receive) (hq : s.udpEndpointsQ = e :: q) :
    Conversations { s.setThread i (.greet e) with udpEndpointsQ := q } := by
  refine h.threadExchange e [.pending e] [.greeting i e] hpc rfl rfl rfl (fun x => ?_) ?_
    (by simp [Entry.party]) (by simp [Entry.party]) fun st hfits hold => ?_
  · simp only [State.setThread, State.history, hq, List.map_cons, List.count_cons,
      UdpThreadPc.entry, Option.toList_none, Option.toList_some, List.count_nil]
    omega
  · simp [State.ledger, hq]
  · cases st with
    | pending => exact ⟨.greeting i, [], hfits, .refl _, .refl _⟩
    | _ => simp [Stage.entries] at hold

/-- Worker `i` greets. -/
theorem Conversations.greet {s : State} (h : Conversations s) {i : ℕ} {e : Endpoint}
    (hpc : s.udpThreads[i]? = some (.greet e)) :
    Conversations { s.setThread i (.waitFree e) with
      net := s.net ++ [⟨.worker i, e, .server⟩]
      greeted := s.greeted ++ [(i, e)] } := by
  refine h.threadExchange e [.greeting i e] [.toClient i e, .serving i e, .greeted i e] hpc rfl rfl
    rfl (fun x => ?_) ?_ (by simp [Entry.party]) (by simp [Entry.party]) fun st hfits hold => ?_
  · simp only [State.setThread, State.history, List.map_append, List.map_cons, List.map_nil,
      List.count_append, List.count_cons, UdpThreadPc.entry, Datagram.entry, Option.toList_some,
      List.count_nil]
    omega
  · simpa using mem_ledger_of_entry hpc rfl
  · cases st with
    | greeting j =>
      obtain rfl : i = j := by simpa [Stage.entries] using hold
      exact ⟨.greeted i, [], hfits, .refl _, .refl _⟩
    | _ => simp [Stage.entries] at hold

/-- Worker `i` answers. -/
theorem Conversations.answer {s : State} (h : Conversations s) {i : ℕ} {e : Endpoint}
    (hpc : s.udpThreads[i]? = some (.answer e)) :
    Conversations { s.setThread i .waitBusy with
      net := s.net ++ [⟨.worker i, e, .server⟩]
      answered := s.answered ++ [(i, e)] } := by
  refine h.threadExchange e [.answering i e] [.toClient i e, .answered i e] hpc rfl rfl rfl
    (fun x => ?_) ?_ (by simp [Entry.party]) (by simp [Entry.party]) fun st hfits hold => ?_
  · simp only [State.setThread, State.history, List.map_append, List.map_cons, List.map_nil,
      List.count_append, List.count_cons, UdpThreadPc.entry, Datagram.entry, Option.toList_some,
      Option.toList_none, List.count_nil]
    omega
  · simpa using mem_ledger_of_entry hpc rfl
  · cases st with
    | answering j =>
      obtain rfl : i = j := by simpa [Stage.entries] using hold
      exact ⟨.answered i, [.received i e e, .greeted i e], hfits, .refl _, .refl _⟩
    | _ => simp [Stage.entries] at hold

/-- A datagram on the way to worker `i` is from the client it serves. -/
theorem Conversations.serving {s : State} (h : Conversations s) {i : ℕ} {d : Datagram}
    (hd : d ∈ s.net) (hdst : d.dst = .worker i) :
    d.entry = .toWorker i d.src ∧ .serving i d.src ∈ s.ledger := by
  obtain ⟨src, dst, msg⟩ := d
  obtain rfl : dst = .worker i := hdst
  have hmem := mem_ledger_of_mem_net hd
  obtain ⟨c, hc⟩ := h.client hmem
  cases src with
  | worker j | listener | other n => cases hc
  | client c =>
    refine ⟨rfl, ?_⟩
    obtain ⟨st, -, hasked, hentries⟩ := h.stage hmem
    cases st with
    | asked j =>
      obtain rfl : i = j := by simpa [Stage.entries, Datagram.entry, Entry.party] using hasked
      exact hentries (List.mem_cons_of_mem _ (List.mem_cons_self ..))
    | _ => simp [Stage.entries, Datagram.entry] at hasked

/-- What worker `i` receives is from the client it serves. -/
theorem Conversations.endpoint {s : State} (h : Conversations s) {i : ℕ} {e : Endpoint}
    {d : Datagram} (hpc : s.udpThreads[i]? = some (.recv e)) (hd : d ∈ s.net)
    (hdst : d.dst = .worker i) : e = d.src := by
  obtain ⟨pc, hpc', hentry⟩ := serving_of_mem (h.serving hd hdst).2
  rw [hpc] at hpc'
  obtain rfl := Option.some.inj hpc'
  simpa [UdpThreadPc.entry] using hentry

/-- Worker `i` receives the message of the client it serves. -/
theorem Conversations.recv {s : State} (h : Conversations s) {i : ℕ} {e : Endpoint} {d : Datagram}
    {net : List Datagram} (hpc : s.udpThreads[i]? = some (.recv e)) (hdst : d.dst = .worker i)
    (hnet : s.net.Perm (d :: net)) :
    Conversations { s.setThread i (if e = d.src then .answer e else .incorrectEndpoint) with
      net := net
      received := s.received ++ [(i, e, d.src)] } := by
  have hd : d ∈ s.net := hnet.symm.subset (List.mem_cons_self ..)
  obtain ⟨hentry, hserving⟩ := h.serving hd hdst
  obtain rfl := h.endpoint hpc hd hdst
  rw [if_pos rfl]
  refine h.threadExchange d.src [.toWorker i d.src, .serving i d.src]
    [.answering i d.src, .received i d.src d.src] hpc rfl rfl rfl (fun x => ?_) ?_
    (by simp [Entry.party]) (by simp [Entry.party]) fun st hfits hold => ?_
  · have hcount := count_received hnet hentry x
    simp only [List.count_cons, List.count_nil] at hcount
    simp only [State.setThread, State.history, List.map_append, List.map_cons, List.map_nil,
      List.count_append, List.count_cons, UdpThreadPc.entry, Option.toList_some, List.count_nil]
    omega
  · simpa [hserving] using hentry ▸ mem_ledger_of_mem_net hd
  · cases st with
    | asked j =>
      obtain rfl : i = j := by simpa [Stage.entries] using hold
      exact ⟨.answering i, [.greeted i d.src], hfits, .refl _, .refl _⟩
    | _ => simp [Stage.entries] at hold

/-- One call of worker `i`. -/
theorem Conversations.threadStep {s t : State} {i : ℕ} (h : Conversations s)
    (hstep : ThreadStep s i true t) : Conversations t := by
  cases hstep with
  | move hpc hmoves => exact h.threadMove hpc hmoves
  | take hpc hq => exact h.take hpc hq
  | greet hpc => exact h.greet hpc
  | recv hpc hdst hnet => exact h.recv hpc hdst hnet
  | answer hpc => exact h.answer hpc

/-! ### Calls of a client -/

theorem peer_setClient {s : State} {c : ℕ} {pc : ClientPc} (hpc : s.clients[c]? = some pc)
    (pc' : ClientPc) : (s.setClient c pc').peer (.client c) = some pc' := by
  have hlt := List.lt_length_of_getElem?_eq_some hpc
  rw [State.peer, State.setClient, List.getElem?_set_self hlt]

theorem peer_setClient_of_ne {s : State} {c : ℕ} {e : Endpoint} (he : e ≠ .client c)
    (pc' : ClientPc) : (s.setClient c pc').peer e = s.peer e := by
  cases e with
  | client c' => exact List.getElem?_set_ne fun hc : c = c' => he (hc ▸ rfl)
  | _ => rfl

/-- A call of client `c` that takes a datagram to it out, or enters one it sends. -/
theorem Conversations.clientExchange {s t : State} (h : Conversations s) {c : ℕ}
    {pc pc' : ClientPc} (old new : List Entry) (hpc : s.clients[c]? = some pc)
    (hpeer : t.peer = (s.setClient c pc').peer) (hmain : t.main = s.main)
    (hq : t.udpEndpointsQ = s.udpEndpointsQ) (hworkers : t.workers = s.workers)
    (hhistory : t.history = s.history)
    (hcount : ∀ x, (s.net.map Datagram.entry).count x + new.count x =
      (t.net.map Datagram.entry).count x + old.count x)
    (hmem : old ⊆ s.ledger) (hold : ∀ x ∈ old, x.party = .client c)
    (hnew : ∀ x ∈ new, x.party = .client c)
    (hstage : ∀ st, Stage.Fits (some pc) st → old ⊆ Stage.entries (.client c) st →
      ∃ st' more, Stage.Fits (some pc') st' ∧ (Stage.entries (.client c) st).Perm (old ++ more) ∧
        (Stage.entries (.client c) st').Perm (new ++ more)) : Conversations t := by
  have hself : s.peer (.client c) = some pc := hpc
  refine Ledger.Kept.exchange h (.client c) old new (fun x => ?_) hmem hold hnew
    (fun e he st hst => ?_) ?_
  · have := hcount x
    rw [count_ledger, count_ledger, hmain, hq, hworkers, hhistory]
    omega
  · rw [hpeer, peer_setClient_of_ne he]
    exact hst
  · rw [hself, hpeer, peer_setClient hpc]
    exact hstage

/-- A datagram on the way to a client is from a worker. -/
theorem Conversations.fromWorker {s : State} (h : Conversations s) {c : ℕ} {d : Datagram}
    (hd : d ∈ s.net) (hdst : d.dst = .client c) :
    ∃ i, d.src = .worker i ∧ d.entry = .toClient i (.client c) := by
  obtain ⟨src, dst, msg⟩ := d
  obtain rfl : dst = .client c := hdst
  obtain ⟨st, -, hmem, -⟩ := h.stage (mem_ledger_of_mem_net hd)
  cases src with
  | worker i => exact ⟨i, rfl, rfl⟩
  | _ => cases st <;> simp [Stage.entries, Datagram.entry] at hmem

/-- Client `c` receives a datagram of worker `i`. -/
theorem Conversations.deliver {s : State} (h : Conversations s) {c i : ℕ} {pc pc' : ClientPc}
    {d : Datagram} {net : List Datagram} (hpc : s.clients[c]? = some pc)
    (hnet : s.net.Perm (d :: net)) (hentry : d.entry = .toClient i (.client c))
    (hstage : ∀ st, Stage.Fits (some pc) st → .toClient i (.client c) ∈ st.entries (.client c) →
      ∃ st' more, Stage.Fits (some pc') st' ∧
        (st.entries (.client c)).Perm (.toClient i (.client c) :: more) ∧
        (st'.entries (.client c)).Perm more) :
    Conversations { s.setClient c pc' with net := net } := by
  have hd : d ∈ s.net := hnet.symm.subset (List.mem_cons_self ..)
  have hmem : .toClient i (.client c) ∈ s.ledger := hentry ▸ mem_ledger_of_mem_net hd
  exact h.clientExchange [.toClient i (.client c)] [] hpc rfl rfl rfl rfl rfl
    (count_received hnet hentry) (by simpa using hmem) (by simp [Entry.party]) (by simp)
    fun st hfits hold => hstage st hfits (hold (List.mem_singleton_self _))

/-- The stage of a client's conversation. -/
theorem Conversations.fits {s : State} (h : Conversations s) {c : ℕ} {pc : ClientPc}
    (hpc : s.clients[c]? = some pc) : ∃ st, Stage.Fits (some pc) st := by
  obtain ⟨st, hfits, -⟩ := h (.client c)
  rw [State.peer, hpc] at hfits
  exact ⟨st, hfits⟩

/-- One call of client `c`. -/
theorem Conversations.clientStep {s t : State} {c : ℕ} (h : Conversations s)
    (hstep : ClientStep s c true t) : Conversations t := by
  cases hstep with
  | hello hpc =>
    refine h.clientExchange [] [.hello (.client c)] hpc rfl rfl rfl rfl rfl (fun x => ?_)
      (List.nil_subset _) (by simp) (by simp [Entry.party]) fun st hfits _ => ?_
    · simp [Datagram.entry, List.count_append]
    · cases st with
      | silent => exact ⟨.contacting, [], rfl, .refl _, .refl _⟩
      | _ => simp [Stage.Fits] at hfits
  | @greeting d net hpc hdst hnet =>
    have hd : d ∈ s.net := hnet.symm.subset (List.mem_cons_self ..)
    obtain ⟨i, hsrc, hentry⟩ := h.fromWorker hd hdst
    -- the datagram is in the ledger, so the conversation has come to its greeting
    refine h.deliver hpc hnet hentry fun st hfits hmem => ?_
    cases st with
    | greeted j =>
      obtain rfl : i = j := by simpa [Stage.entries] using hmem
      exact ⟨.speaking i, [.serving i (.client c), .greeted i (.client c)],
        .inl (hsrc ▸ rfl), .refl _, .refl _⟩
    | answered j => simp [Stage.Fits] at hfits
    | _ => simp [Stage.entries] at hmem
  | counter hpc =>
    refine h.clientExchange [] [] hpc rfl rfl rfl rfl rfl (fun x => rfl)
      (List.nil_subset _) (by simp) (by simp) fun st hfits _ => ?_
    cases st with
    | speaking i =>
      refine ⟨.speaking i, _, ?_, .refl _, .refl _⟩
      simpa [Stage.Fits] using hfits
    | _ => simp [Stage.Fits] at hfits
  | @msg server hpc =>
    obtain ⟨i, rfl⟩ : ∃ i, server = .worker i := by
      obtain ⟨st, hfits⟩ := h.fits hpc
      cases st <;> simp_all [Stage.Fits]
    refine h.clientExchange [] [.toWorker i (.client c)] hpc rfl rfl rfl rfl rfl (fun x => ?_)
      (List.nil_subset _) (by simp) (by simp [Entry.party]) fun st hfits _ => ?_
    · simp [Datagram.entry, List.count_append]
    · cases st with
      | speaking j =>
        obtain rfl : i = j := by simpa [Stage.Fits] using hfits
        exact ⟨.asked i, [.serving i (.client c), .greeted i (.client c)], rfl, .refl _, .refl _⟩
      | _ => simp [Stage.Fits] at hfits
  | @answer server d net hpc hdst hnet =>
    have hd : d ∈ s.net := hnet.symm.subset (List.mem_cons_self ..)
    obtain ⟨i, hsrc, hentry⟩ := h.fromWorker hd hdst
    have hmem : Entry.toClient i (.client c) ∈ s.ledger := hentry ▸ mem_ledger_of_mem_net hd
    -- no other worker has anything to do with this client
    obtain rfl : server = .worker i := by
      obtain ⟨st, hfits, hin, -⟩ := h.stage hmem
      rw [Entry.party, State.peer, hpc] at hfits
      cases st <;> simp_all [Stage.Fits, Stage.entries, Entry.party]
    rw [if_pos hsrc]
    refine h.deliver hpc hnet hentry fun st hfits hmem => ?_
    cases st with
    | answered j =>
      obtain rfl : i = j := by simpa [Stage.entries] using hmem
      exact ⟨.done i, [.answered i (.client c), .received i (.client c) (.client c),
        .greeted i (.client c)], rfl, .refl _, .refl _⟩
    | greeted j => simp [Stage.Fits] at hfits
    | _ => simp [Stage.entries] at hmem
  | exit hpc hfail =>
    -- no stage fits a client that has seen an incorrect endpoint
    obtain ⟨st, hfits⟩ := h.fits hpc
    obtain rfl : _ = ClientPc.incorrectEndpoint := hfail.resolve_left (by simp)
    cases st <;> simp [Stage.Fits] at hfits

/-! ### Calls of the main thread -/

/-- A datagram on the way to the listener is from a client that has not been greeted. -/
theorem Conversations.hello {s : State} (h : Conversations s) {d : Datagram} (hd : d ∈ s.net)
    (hdst : d.dst = .listener) : d.entry = .hello d.src := by
  obtain ⟨src, dst, msg⟩ := d
  obtain rfl : dst = .listener := hdst
  obtain ⟨c, hc⟩ := h.client (mem_ledger_of_mem_net hd)
  cases src with
  | worker j => cases hc
  | _ => rfl

/-- The main thread receives the datagram of a new client. -/
theorem Conversations.contact {s : State} (h : Conversations s) {d : Datagram}
    {net : List Datagram} (hmain : s.main = .poll ∨ s.main = .recv) (hdst : d.dst = .listener)
    (hnet : s.net.Perm (d :: net)) :
    Conversations { s with main := .checkFree d.src, net := net } := by
  have hd : d ∈ s.net := hnet.symm.subset (List.mem_cons_self ..)
  have hentry := h.hello hd hdst
  have hhand : s.main.hand = none := by rcases hmain with hpc | hpc <;> rw [hpc] <;> rfl
  refine Ledger.Kept.exchange h d.src [.hello d.src] [.pending d.src] (fun x => ?_) ?_
    (by simp [Entry.party]) (by simp [Entry.party]) (fun _ _ _ hst => hst) fun st hfits hold => ?_
  · have hcount := count_received hnet hentry x
    simp only [List.count_cons, List.count_nil] at hcount
    rw [count_ledger, count_ledger, hhand]
    change _ = (net.map Datagram.entry).count x + (([d.src].map Entry.pending).count x +
      (s.udpEndpointsQ.map Entry.pending).count x + (s.workers.count x + s.history.count x)) + _
    simp only [Option.toList_none, List.map_cons, List.map_nil, List.count_cons,
      List.count_nil]
    omega
  · simpa using hentry ▸ mem_ledger_of_mem_net hd
  · cases st with
    | contacting => exact ⟨.pending, [], hfits, .refl _, .refl _⟩
    | _ => simp [Stage.entries] at hold

/-- A call of the main thread that keeps what it has in hand. -/
theorem Conversations.main {s t : State} (h : Conversations s) (hhand : t.main.hand = s.main.hand)
    (hnet : t.net = s.net) (hq : t.udpEndpointsQ = s.udpEndpointsQ)
    (hworkers : t.workers = s.workers) (hhistory : t.history = s.history)
    (hpeer : t.peer = s.peer) : Conversations t := by
  refine Ledger.Kept.congr h ?_ fun e st hst => ?_
  · rw [State.ledger, State.ledger, hhand, hnet, hq, hworkers, hhistory]
  · rwa [hpeer]

/-- The TCP half has nothing to do with the conversations. -/
theorem Conversations.tcpClient {s t : State} (h : Conversations s)
    (hstep : tcpClient s = some t) : Conversations t := by
  obtain ⟨hmain, rfl⟩ := tcpClient_eq_some hstep
  exact h.main (by rw [hmain]; rfl) rfl rfl rfl rfl rfl

theorem workers_create (s : State) :
    (s.udpThreads ++ [UdpThreadPc.starting]).zipIdx.filterMap (fun p => p.1.entry p.2) =
      s.workers := by
  rw [List.zipIdx_append, List.filterMap_append]
  exact List.append_nil _

theorem Conversations.mainStep {s t : State} (h : Conversations s) (hstep : MainStep s t) :
    Conversations t := by
  cases hstep with
  | create hmain | grow hmain =>
    exact h.main (by rw [hmain]; rfl) rfl rfl (workers_create s) rfl rfl
  | send hmain =>
    refine Ledger.Kept.congr h (List.perm_iff_count.2 fun x => ?_) fun _ _ hst => hst
    rw [count_ledger, count_ledger, hmain, List.map_append, List.count_append]
    change _ + (0 + _ + (s.workers.count x + s.history.count x)) = _
    simp only [MainPc.hand, Option.toList_some]
    omega
  | @back ready hmain =>
    exact h.main (by rw [hmain]; cases ready <;> rfl) rfl rfl rfl rfl rfl
  | started hmain | free hmain | notFree hmain | allBusy hmain | notBusy hmain | grown hmain =>
    exact h.main (by rw [hmain]; rfl) rfl rfl rfl rfl rfl

/-! ### Runs -/

/-- No call fails, and every datagram is from a party and arrives once. -/
def Faultless (_ : State) : Action → Prop
  | .thread _ ok _ | .client _ ok _ => ok = true
  | .inject _ | .lose _ => False
  | .main | .tcp | .contact _ | .connect => True

theorem conversations {s : State} (h : udpService.ReachableUnder Faultless s) :
    Conversations s := by
  refine h.invariant (fun t ht e => ?_) fun t a u _ hinv hfault hstep => ?_
  · subst ht
    exact ⟨.silent, .inl (by cases e <;> rfl), .refl _⟩
  · cases a with
    | main => exact hinv.mainStep (mainStep_step hstep)
    | tcp => exact hinv.tcpClient hstep
    | contact k =>
      obtain ⟨hmain, d, net, hdst, hnet, rfl⟩ := contact_eq_some hstep
      exact hinv.contact hmain hdst hnet
    | thread i ok k =>
      obtain rfl : ok = true := hfault
      exact hinv.threadStep (udpServerThread_step hstep)
    | client c ok k =>
      obtain rfl : ok = true := hfault
      exact hinv.clientStep (udpClient_step hstep)
    | connect =>
      obtain rfl := Option.some.inj hstep
      refine Ledger.Kept.congr hinv (.refl _) fun e st hst => ?_
      cases e with
      | client c =>
        change Stage.Fits (t.clients ++ [ClientPc.sendHello])[c]? st
        have hst : Stage.Fits t.clients[c]? st := hst
        rcases lt_trichotomy c t.clients.length with hc | rfl | hc
        · rwa [List.getElem?_append_left hc]
        · rw [List.getElem?_eq_none (Nat.le_refl _)] at hst
          rw [List.getElem?_concat_length]
          cases st with
          | silent => exact .inr rfl
          | _ => simp [Stage.Fits] at hst
        · rw [List.getElem?_eq_none hc.le] at hst
          rwa [List.getElem?_eq_none (by simpa using hc)]
      | _ => exact hst
    | inject d | lose k => exact hfault.elim

theorem Faultless.greetingSent {s : State} {a : Action} (h : Faultless s a) : GreetingSent s a := by
  cases a with
  | thread i ok k => exact fun _ _ _ => h
  | _ => trivial

/-- No worker is at its "Incorrect endpoint" branch. -/
theorem correct_endpoints {s : State} (h : udpService.ReachableUnder Faultless s) :
    .incorrectEndpoint ∉ s.udpThreads := by
  refine h.invariant (I := fun s => .incorrectEndpoint ∉ s.udpThreads) (fun t ht => ?_)
    fun t a u hreach hinv hfault hstep => ?_
  · subst ht
    exact List.not_mem_nil
  · cases a with
    | main =>
      cases mainStep_step hstep with
      | create | grow => simpa using hinv
      | _ => exact hinv
    | tcp =>
      obtain ⟨-, rfl⟩ := tcpClient_eq_some hstep
      exact hinv
    | contact k =>
      obtain ⟨-, d, net, -, -, rfl⟩ := contact_eq_some hstep
      exact hinv
    | thread i ok k =>
      obtain rfl : ok = true := hfault
      intro hmem
      cases udpServerThread_step hstep with
      | move hpc hmoves =>
        rcases List.mem_or_eq_of_mem_set hmem with hold | rfl
        · exact hinv hold
        · cases hmoves
      | take hpc | greet hpc | answer hpc =>
        rcases List.mem_or_eq_of_mem_set hmem with hold | hnew
        · exact hinv hold
        · cases hnew
      | recv hpc hdst hnet =>
        have hd := hnet.symm.subset (List.mem_cons_self ..)
        rw [if_pos ((conversations hreach).endpoint hpc hd hdst)] at hmem
        rcases List.mem_or_eq_of_mem_set hmem with hold | hnew
        · exact hinv hold
        · cases hnew
    | client c ok k =>
      obtain ⟨-, hthreads, -⟩ := (udpClient_step hstep).pool
      exact hthreads ▸ hinv
    | connect =>
      obtain rfl := Option.some.inj hstep
      exact hinv
    | inject d | lose k => exact hfault.elim

end EmbeddedC.ClientService.Udp
