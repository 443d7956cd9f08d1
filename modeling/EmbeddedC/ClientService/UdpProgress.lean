import EmbeddedC.Lib.Fairness
import EmbeddedC.ClientService.UdpOutcome

/-!
# Homework 16: every UDP client is served

The main thread polls: `poll` itself, and the two semaphores while no worker is free; and a TCP
client takes it away from the UDP path.  Every other call brings the conversations nearer to their
end, and a call that does is always to come, of a worker, of a client, or of the main thread.

* `State.work`: what is left to do; `ThreadStep.work_lt`, `ClientStep.work_lt`, `MainStep.work`;
* `Party`, `Helps`: whose call is to come, and `MainPc.delay`: how far the main thread is from it;
* `all_done`: in a fair run every client gets through; `exists_fair_run`: there are fair runs;
* `udp_conversation`: every client is greeted, heard and answered once, by one worker.

Fairness of the main thread includes that it comes back from the TCP half of its loop.
-/

namespace EmbeddedC.ClientService.Udp

/-! ### What is left to do -/

/-- Every weight is larger than what the next call leaves, datagrams and queue included. -/
def MainPc.weight : MainPc → ℕ
  | .create left => 2 * left + 1
  | .poll | .tcp _ | .recv => 0
  | .checkFree _ | .checkBusy _ => 2 * serverDefAlloc + 13
  | .grow _ left => 2 * left + 12
  | .send _ => 11

def UdpThreadPc.weight : UdpThreadPc → ℕ
  | .starting => 1
  | .receive | .returned => 0
  | .greet _ => 9
  | .waitFree _ => 7
  | .postBusy _ => 6
  | .recv _ | .answer _ => 5
  | .incorrectEndpoint => 4
  | .waitBusy => 3
  | .postFree => 2
  | .postServed => 1

def ClientPc.weight : ClientPc → ℕ
  | .sendHello => 2 * serverDefAlloc + 19
  | .recvGreeting | .postCounter _ => 4
  | .sendMsg _ => 3
  | .recvAnswer _ | .incorrectEndpoint => 1
  | .done | .exited => 0

def Datagram.weight (d : Datagram) : ℕ :=
  if d.dst = .listener then 2 * serverDefAlloc + 14 else 1

/-- What is left to do. -/
def State.work (s : State) : ℕ :=
  s.main.weight + 10 * s.udpEndpointsQ.length + (s.udpThreads.map UdpThreadPc.weight).sum +
    (s.clients.map ClientPc.weight).sum + (s.net.map Datagram.weight).sum

theorem UdpThreadPc.Moves.weight_lt {pc pc' : UdpThreadPc} (h : pc.Moves pc') :
    pc'.weight < pc.weight := by
  cases h <;> simp [UdpThreadPc.weight]

theorem weight_of_dst {d : Datagram} (h : d.dst ≠ .listener) : d.weight = 1 := if_neg h

theorem sum_weight_of_perm {net net' : List Datagram} {d : Datagram} (h : net.Perm (d :: net')) :
    (net.map Datagram.weight).sum = d.weight + (net'.map Datagram.weight).sum := by
  rw [(h.map Datagram.weight).sum_eq, List.map_cons, List.sum_cons]

theorem sum_weight_append (net : List Datagram) (d : Datagram) :
    ((net ++ [d]).map Datagram.weight).sum = (net.map Datagram.weight).sum + d.weight := by
  simp

/-- A worker greets and answers clients only. -/
theorem Conversations.not_listener {s : State} (h : Conversations s) {i : ℕ} {pc : UdpThreadPc}
    {x : Entry} (hpc : s.udpThreads[i]? = some pc) (hx : pc.entry i = some x) :
    x.party ≠ .listener := by
  obtain ⟨c, hc⟩ := h.client (mem_ledger_of_entry hpc hx)
  rw [hc]
  simp

theorem ThreadStep.work_lt {s t : State} {i : ℕ} (h : ThreadStep s i true t)
    (hconv : Conversations s) : t.work < s.work := by
  cases h with
  | @move _ pc pc' free busy served hpc hmoves =>
    have hsum := List.sum_map_set_add hpc UdpThreadPc.weight pc'
    have := hmoves.weight_lt
    simp only [State.work, State.setThread]
    omega
  | @take _ e q hpc hq =>
    have hsum := List.sum_map_set_add hpc UdpThreadPc.weight (.greet e)
    simp only [State.work, State.setThread, hq, List.length_cons, UdpThreadPc.weight] at hsum ⊢
    omega
  | @greet e hpc =>
    have hsum := List.sum_map_set_add hpc UdpThreadPc.weight (.waitFree e)
    have he : e ≠ .listener := hconv.not_listener hpc rfl
    simp only [State.work, State.setThread, sum_weight_append, UdpThreadPc.weight,
      weight_of_dst (d := ⟨.worker i, e, .server⟩) he] at hsum ⊢
    omega
  | @recv e d net hpc hdst hnet =>
    have hsum := List.sum_map_set_add hpc UdpThreadPc.weight
      (if e = d.src then .answer e else .incorrectEndpoint)
    have hnext : (if e = d.src then UdpThreadPc.answer e else .incorrectEndpoint).weight ≤ 5 := by
      split <;> simp [UdpThreadPc.weight]
    have hd : d.weight = 1 := weight_of_dst (by simp [hdst])
    have hrecv : (UdpThreadPc.recv e).weight = 5 := rfl
    simp only [State.work, State.setThread, sum_weight_of_perm hnet, hd]
    omega
  | @answer e hpc =>
    have hsum := List.sum_map_set_add hpc UdpThreadPc.weight .waitBusy
    have he : e ≠ .listener := hconv.not_listener hpc rfl
    simp only [State.work, State.setThread, sum_weight_append, UdpThreadPc.weight,
      weight_of_dst (d := ⟨.worker i, e, .server⟩) he] at hsum ⊢
    omega

theorem ClientStep.work_lt {s t : State} {c : ℕ} (h : ClientStep s c true t)
    (hconv : Conversations s) : t.work < s.work := by
  cases h with
  | hello hpc =>
    have hsum := List.sum_map_set_add hpc ClientPc.weight .recvGreeting
    have hd : (⟨.client c, .listener, .zeros⟩ : Datagram).weight = 2 * serverDefAlloc + 14 := rfl
    simp only [State.work, State.setClient, sum_weight_append, hd, ClientPc.weight] at hsum ⊢
    omega
  | @greeting d net hpc hdst hnet =>
    have hsum := List.sum_map_set_add hpc ClientPc.weight (.postCounter d.src)
    have hd : d.weight = 1 := weight_of_dst (by simp [hdst])
    simp only [State.work, State.setClient, sum_weight_of_perm hnet, hd, ClientPc.weight] at hsum ⊢
    omega
  | @counter _ server hpc =>
    have hsum := List.sum_map_set_add hpc ClientPc.weight (.sendMsg server)
    simp only [State.work, State.setClient, ClientPc.weight] at hsum ⊢
    omega
  | @msg server hpc =>
    have hsum := List.sum_map_set_add hpc ClientPc.weight (.recvAnswer server)
    -- the message goes to a worker
    obtain ⟨st, hfits⟩ := hconv.fits hpc
    have hserver : server ≠ .listener := by cases st <;> simp_all [Stage.Fits]
    simp only [State.work, State.setClient, sum_weight_append, ClientPc.weight,
      weight_of_dst (d := ⟨.client c, server, .client⟩) hserver] at hsum ⊢
    omega
  | @answer server d net hpc hdst hnet =>
    have hsum := List.sum_map_set_add hpc ClientPc.weight
      (if d.src = server then .done else .incorrectEndpoint)
    have hnext : (if d.src = server then ClientPc.done else .incorrectEndpoint).weight ≤ 1 := by
      split <;> decide
    have hd : d.weight = 1 := weight_of_dst (by simp [hdst])
    have hrecv : (ClientPc.recvAnswer server).weight = 1 := rfl
    simp only [State.work, State.setClient, sum_weight_of_perm hnet, hd]
    omega
  | @exit _ pc hpc hfail =>
    obtain rfl : pc = .incorrectEndpoint := hfail.resolve_left (by simp)
    have hsum := List.sum_map_set_add hpc ClientPc.weight .exited
    simp only [State.work, State.setClient, ClientPc.weight] at hsum ⊢
    omega

/-! ### Where the main thread polls -/

/-- How many calls the main thread is away from one that brings it on, when it is not kept busy
with TCP clients and a worker is free. -/
def MainPc.delay : MainPc → ℕ
  | .tcp false => 3
  | .poll => 2
  | .tcp true | .checkBusy _ => 1
  | _ => 0

/-- A call of the main thread is work done, or it only moves the main thread; if a worker is free,
then towards work. -/
theorem MainStep.work {s t : State} (h : MainStep s t) : t.work < s.work ∨
    t.work = s.work ∧ (∃ pc, t = { s with main := pc }) ∧ s.main.left = 0 ∧
      (s.freeUdpThreadsSem ≠ 0 → t.main.delay < s.main.delay) := by
  cases h with
  | started hmain | create hmain | free hmain | allBusy hmain | grown hmain | grow hmain
  | send hmain =>
    refine .inl ?_
    simp only [State.work, hmain, MainPc.weight, UdpThreadPc.weight, List.map_append,
      List.sum_append, List.map_cons, List.map_nil, List.sum_cons, List.sum_nil,
      List.length_append, List.length_cons, List.length_nil]
    omega
  | @back ready hmain =>
    refine .inr ⟨?_, ⟨_, rfl⟩, by rw [hmain]; rfl, fun _ => ?_⟩ <;> cases ready <;>
      simp [State.work, hmain, MainPc.weight, MainPc.delay]
  | notFree hmain hfree =>
    refine .inr ⟨?_, ⟨_, rfl⟩, by rw [hmain]; rfl, fun h => absurd hfree h⟩
    simp [State.work, hmain, MainPc.weight]
  | notBusy hmain =>
    refine .inr ⟨?_, ⟨_, rfl⟩, by rw [hmain]; rfl, fun _ => ?_⟩ <;>
      simp [State.work, hmain, MainPc.weight, MainPc.delay]

theorem contact_work_lt {s t : State} {k : ℕ} (h : contact s k = some t) : t.work < s.work := by
  obtain ⟨-, d, net, hdst, hnet, rfl⟩ := contact_eq_some h
  have hd : d.weight = 2 * serverDefAlloc + 14 := if_pos hdst
  simp only [State.work, sum_weight_of_perm hnet, hd, MainPc.weight]
  omega

theorem tcpClient_work {s t : State} (h : tcpClient s = some t) :
    t.work = s.work ∧ ∃ pc, t = { s with main := pc } := by
  obtain ⟨hmain, rfl⟩ := tcpClient_eq_some h
  exact ⟨by simp [State.work, hmain, MainPc.weight], _, rfl⟩

/-- The main thread is only at `recvfrom`, or on its way there, when a datagram has come. -/
def Expected (s : State) : Prop :=
  s.main = .recv ∨ s.main = .tcp true → ∃ d ∈ s.net, d.dst = .listener

theorem expected {s : State} (h : udpService.ReachableUnder Faultless s) : Expected s := by
  refine h.invariant (fun t ht => ?_) fun t a u _ hinv hfault hstep => ?_
  · subst ht
    rintro (hmain | hmain) <;> cases hmain
  · have hkeep : ∀ d : Datagram, d.dst ≠ .listener → ∀ net, t.net.Perm (d :: net) →
        (∃ d ∈ t.net, d.dst = .listener) → ∃ d ∈ net, d.dst = .listener := by
      rintro d hdst net hnet ⟨d', hd', hlistener⟩
      rcases List.mem_cons.1 (hnet.subset hd') with rfl | hmem
      · exact absurd hlistener hdst
      · exact ⟨d', hmem, hlistener⟩
    have hadd : ∀ d : Datagram, (∃ d ∈ t.net, d.dst = .listener) →
        ∃ d' ∈ t.net ++ [d], d'.dst = .listener := by
      rintro d ⟨d', hd', hlistener⟩
      exact ⟨d', List.mem_append_left _ hd', hlistener⟩
    cases a with
    | main =>
      cases mainStep_step hstep with
      | @back ready hmain =>
        -- it comes to `recvfrom` from the TCP half
        cases ready with
        | false => simp [Expected]
        | true => exact fun _ => hinv (.inr hmain)
      | _ => simp [Expected]
    | tcp =>
      obtain ⟨-, rfl⟩ := tcpClient_eq_some hstep
      rintro (hmain | hmain)
      · cases hmain
      · simpa using hmain
    | contact k =>
      obtain ⟨-, d, net, -, -, rfl⟩ := contact_eq_some hstep
      rintro (hmain | hmain) <;> cases hmain
    | thread i ok k =>
      cases udpServerThread_step hstep with
      | move | take | fail => exact hinv
      | greet | answer => exact fun hmain => hadd _ (hinv hmain)
      | recv hpc hdst hnet => exact fun hmain => hkeep _ (by simp [hdst]) _ hnet (hinv hmain)
    | client c ok k =>
      cases udpClient_step hstep with
      | counter | exit => exact hinv
      | hello | msg => exact fun hmain => hadd _ (hinv hmain)
      | greeting hpc hdst hnet | answer hpc hdst hnet =>
        exact fun hmain => hkeep _ (by simp [hdst]) _ hnet (hinv hmain)
    | connect =>
      obtain rfl := Option.some.inj hstep
      exact hinv
    | inject d | lose k => exact hfault.elim

/-! ### Whose call is to come -/

inductive Party
  | main
  | worker (i : ℕ)
  | client (c : ℕ)

/-- The party that takes an action; TCP clients, new clients and the network are no parties. -/
def Action.party : Action → Option Party
  | .main | .contact _ => some .main
  | .thread i _ _ => some (.worker i)
  | .client c _ _ => some (.client c)
  | .tcp | .connect | .inject _ | .lose _ => none

/-- No call fails, every datagram arrives, and no further client comes. -/
def Closed (s : State) (a : Action) : Prop := Faultless s a ∧ a ≠ .connect

/-- A worker or client helps that can go on, and the main thread when none of them can. -/
def Helps : Party → State → Prop
  | .main, s => Idle s ∧ ∃ pc ∈ s.clients, pc ≠ .done
  | p, s => udpService.Enabled Closed Action.party p s

def delay : Party → State → ℕ
  | .main, s => s.main.delay
  | _, _ => 0

/-- The workers and clients do not look at the main thread. -/
theorem udpServerThread_main (s : State) (pc : MainPc) (i : ℕ) (ok : Bool) (k : ℕ) :
    udpServerThread { s with main := pc } i ok k =
      (udpServerThread s i ok k).map fun t => { t with main := pc } := by
  unfold udpServerThread
  cases s.udpThreads[i]? with
  | none => rfl
  | some p =>
    cases p with
    | receive => simp [State.setThread, Function.comp_def]
    | recv e => cases ok <;> simp [State.setThread, Function.comp_def]
    | greet | answer => cases ok <;> rfl
    | waitFree | waitBusy => dsimp only; split <;> rfl
    | _ => rfl

theorem udpClient_main (s : State) (pc : MainPc) (c : ℕ) (ok : Bool) (k : ℕ) :
    udpClient { s with main := pc } c ok k =
      (udpClient s c ok k).map fun t => { t with main := pc } := by
  unfold udpClient
  cases s.clients[c]? with
  | none => rfl
  | some p =>
    cases p with
    | recvGreeting | recvAnswer => cases ok <;> simp [State.setClient, Function.comp_def]
    | sendHello | sendMsg => cases ok <;> rfl
    | _ => rfl

theorem Idle.main {s : State} (h : Idle s) (pc : MainPc) : Idle { s with main := pc } where
  thread i k := by rw [udpServerThread_main, h.thread]; rfl
  client c k := by rw [udpClient_main, h.client]; rfl

/-- Who helps goes on helping as long as the main thread only moves. -/
theorem Helps.main {s : State} {p : Party} (h : Helps p s) (pc : MainPc) :
    Helps p { s with main := pc } := by
  cases p with
  | main => exact ⟨h.1.main pc, h.2⟩
  | worker i =>
    obtain ⟨a, t, howner, hclosed, hstep⟩ := h
    refine ⟨a, { t with main := pc }, howner, hclosed, ?_⟩
    cases a with
    | thread i ok k => exact (udpServerThread_main s pc i ok k).trans (congrArg _ hstep)
    | _ => cases howner
  | client c =>
    obtain ⟨a, t, howner, hclosed, hstep⟩ := h
    refine ⟨a, { t with main := pc }, howner, hclosed, ?_⟩
    cases a with
    | client c ok k => exact (udpClient_main s pc c ok k).trans (congrArg _ hstep)
    | _ => cases howner

/-- A worker or a client can go on, or they are idle. -/
theorem enabled_or_idle (s : State) :
    (∃ p, p ≠ .main ∧ udpService.Enabled Closed Action.party p s) ∨ Idle s := by
  by_cases hworker : ∃ i k t, udpServerThread s i true k = some t
  · obtain ⟨i, k, t, ht⟩ := hworker
    exact .inl ⟨.worker i, by simp, .thread i true k, t, rfl, ⟨rfl, by simp⟩, ht⟩
  by_cases hclient : ∃ c k t, udpClient s c true k = some t
  · obtain ⟨c, k, t, ht⟩ := hclient
    exact .inl ⟨.client c, by simp, .client c true k, t, rfl, ⟨rfl, by simp⟩, ht⟩
  refine .inr ⟨fun i k => ?_, fun c k => ?_⟩
  · exact Option.eq_none_iff_forall_ne_some.2 fun t ht => hworker ⟨i, k, t, ht⟩
  · exact Option.eq_none_iff_forall_ne_some.2 fun t ht => hclient ⟨c, k, t, ht⟩

theorem exists_helps {s : State} (h : ¬ ∀ pc ∈ s.clients, pc = .done) : ∃ p, Helps p s := by
  obtain ⟨p, hp, henabled⟩ | hidle := enabled_or_idle s
  · refine ⟨p, ?_⟩
    cases p with
    | main => exact absurd rfl hp
    | worker i | client c => exact henabled
  · exact ⟨.main, hidle, by simpa using h⟩

/-- When only the main thread can help, and it is in its loop and has no endpoint in hand, a
datagram is waiting for it. -/
theorem Helps.listener {s : State} (hs : udpService.ReachableUnder Faultless s)
    (h : Helps .main s) (hleft : s.main.left = 0) (hhand : s.main.hand = none) :
    ∃ d ∈ s.net, d.dst = .listener := by
  obtain ⟨hidle, pc, hmem, hne⟩ := h
  obtain ⟨c, hc⟩ := List.getElem?_of_mem hmem
  by_contra hnone
  exact hne (hidle.done (sound hs) hleft hhand (fun d hd hdst => hnone ⟨d, hd, hdst⟩) hc)

/-- A call of the main thread that is not blocked. -/
theorem enabled_main {s : State} (h : mainStep s ≠ none) :
    udpService.Enabled Closed Action.party .main s := by
  obtain ⟨t, ht⟩ := Option.ne_none_iff_exists'.1 h
  exact ⟨.main, t, rfl, ⟨trivial, by simp⟩, ht⟩

theorem enabled_contact {s : State} (hmain : s.main = .poll ∨ s.main = .recv)
    (hlistener : ∃ d ∈ s.net, d.dst = .listener) :
    udpService.Enabled Closed Action.party .main s := by
  obtain ⟨d, hd, hdst⟩ := hlistener
  obtain ⟨k, net, hk⟩ := recvfrom_of_mem hd
  rw [hdst] at hk
  refine ⟨.contact k, { s with main := .checkFree d.src, net := net }, rfl, ⟨trivial, by simp⟩, ?_⟩
  change contact s k = _
  rcases hmain with hpc | hpc <;> simp [contact, hpc, hk]

theorem Helps.enabled {s : State} {p : Party} (hs : udpService.ReachableUnder Faultless s)
    (h : Helps p s) : udpService.Enabled Closed Action.party p s := by
  cases p with
  | worker i | client c => exact h
  | main =>
    cases hmain : s.main with
    | poll =>
      exact enabled_contact (.inl hmain) (h.listener hs (by rw [hmain]; rfl) (by rw [hmain]; rfl))
    | recv => exact enabled_contact (.inr hmain) (expected hs (.inl hmain))
    | create left => exact enabled_main (by cases left <;> simp [mainStep, hmain])
    | grow e left => exact enabled_main (by cases left <;> simp [mainStep, hmain])
    | tcp ready | checkFree e | checkBusy e => exact enabled_main (by simp [mainStep, hmain])
    | send e =>
      -- the workers wait at an empty queue
      have hq := (h.1.free (sound hs) (by rw [hmain]; rfl)).1
      exact enabled_main (by rw [mainStep, hmain, hq]; simp [MessageQueue.send, serverQMaxmsg])

/-- Whatever call comes next, it is work done, or the main thread has only moved. -/
theorem work_le {s t : State} {a : Action} (hs : udpService.ReachableUnder Faultless s)
    (hclosed : Closed s a) (h : step s a = some t) : t.work < s.work ∨
      t.work = s.work ∧ (∃ pc, t = { s with main := pc }) ∧ (a = .main ∨ a = .tcp) := by
  obtain ⟨hfault, hne⟩ := hclosed
  cases a with
  | main =>
    rcases (mainStep_step h).work with hlt | ⟨heq, hmain, -⟩
    · exact .inl hlt
    · exact .inr ⟨heq, hmain, .inl rfl⟩
  | tcp =>
    obtain ⟨heq, hmain⟩ := tcpClient_work h
    exact .inr ⟨heq, hmain, .inr rfl⟩
  | contact k => exact .inl (contact_work_lt h)
  | thread i ok k =>
    obtain rfl : ok = true := hfault
    exact .inl ((udpServerThread_step h).work_lt (conversations hs))
  | client c ok k =>
    obtain rfl : ok = true := hfault
    exact .inl ((udpClient_step h).work_lt (conversations hs))
  | connect => exact absurd rfl hne
  | inject d | lose k => exact hfault.elim

theorem Helps.advances {s : State} {p : Party} (hs : udpService.ReachableUnder Faultless s)
    (h : Helps p s) : udpService.Advances Closed Action.party State.work delay Helps p s := by
  intro a t hclosed hstep
  rcases work_le hs hclosed hstep with hlt | ⟨heq, ⟨pc, rfl⟩, ha⟩
  · exact .inl hlt
  refine .inr ⟨heq, h.main pc, ?_⟩
  cases p with
  | worker i | client c => rcases ha with rfl | rfl <;> exact .inr ⟨rfl, by simp [Action.party]⟩
  | main =>
    refine .inl ?_
    rcases ha with rfl | rfl
    · rcases (mainStep_step hstep).work with hlt | ⟨-, -, hleft, hdelay⟩
      · exact absurd heq hlt.ne
      · exact hdelay (h.1.free (sound hs) hleft).2
    · obtain ⟨hmain, htcp⟩ := tcpClient_eq_some hstep
      obtain ⟨d, hd, hdst⟩ := h.listener hs (by rw [hmain]; rfl) (by rw [hmain]; rfl)
      have hready : s.net.any (·.dst = .listener) = true :=
        List.any_eq_true.2 ⟨d, hd, by simpa using hdst⟩
      obtain rfl : pc = .tcp true := by simpa [hready] using congrArg State.main htcp
      rw [delay, delay, hmain]
      exact Nat.one_lt_two

/-- **Progress.** In a fair run after the last client has come, every client gets through. -/
theorem all_done {s : State} (hs : udpService.ReachableUnder Faultless s)
    (r : udpService.Run Closed s) (hfair : r.Fair Action.party) :
    ∃ n, ∀ pc ∈ (r.state n).clients, pc = .done :=
  Machine.Run.eventually (I := udpService.ReachableUnder Faultless) hfair
    (fun n => hs.path ((r.path n).mono fun _ _ hclosed => hclosed.1))
    (fun _ _ hs h => h.enabled hs) (fun _ _ hs h => h.advances hs) fun _ _ h => exists_helps h

/-! ### Fair runs exist -/

theorem MainPc.delay_le (pc : MainPc) : pc.delay ≤ 3 := by
  cases pc with
  | tcp ready => cases ready <;> decide
  | _ => simp [MainPc.delay]

/-- As long as a party can go on, some call leaves less to do, or brings the main thread nearer to
such a call. -/
theorem exists_closer {s : State} {p : Party} (hs : udpService.ReachableUnder Faultless s)
    (h : udpService.Enabled Closed Action.party p s) : ∃ a t, Closed s a ∧
      udpService.step s a = some t ∧ 4 * t.work + t.main.delay < 4 * s.work + s.main.delay := by
  obtain ⟨a, t, hparty, hclosed, hstep, hidle⟩ : ∃ a t, a.party ≠ none ∧ Closed s a ∧
      udpService.step s a = some t ∧ (a = .main → Idle s) := by
    obtain ⟨p, hp, a, t, howner, hclosed, hstep⟩ | hidle := enabled_or_idle s
    · refine ⟨a, t, by simp [howner], hclosed, hstep, ?_⟩
      rintro rfl
      exact absurd (Option.some.inj howner).symm hp
    · obtain ⟨a, t, howner, hclosed, hstep⟩ := h
      exact ⟨a, t, by simp [howner], hclosed, hstep, fun _ => hidle⟩
  refine ⟨a, t, hclosed, hstep, ?_⟩
  have := t.main.delay_le
  rcases work_le hs hclosed hstep with hlt | ⟨heq, -, rfl | rfl⟩
  · omega
  · rcases (mainStep_step hstep).work with hlt | ⟨-, -, hleft, hcloser⟩
    · omega
    · have := hcloser ((hidle rfl).free (sound hs) hleft).2
      omega
  · exact absurd rfl hparty

/-- From every state the parties can go on until all of them are blocked. -/
theorem exists_rest {s : State} (hs : udpService.ReachableUnder Faultless s) :
    ∃ t, udpService.Path Closed s t ∧ ∀ p, ¬ udpService.Enabled Closed Action.party p t := by
  induction hn : 4 * s.work + s.main.delay using Nat.strong_induction_on generalizing s with
  | _ n ih =>
    by_cases henabled : ∃ p, udpService.Enabled Closed Action.party p s
    · obtain ⟨p, hp⟩ := henabled
      obtain ⟨a, t, hclosed, hstep, hlt⟩ := exists_closer hs hp
      obtain ⟨u, hpath, hrest⟩ := ih _ (hn ▸ hlt) (hs.step hclosed.1 hstep) rfl
      exact ⟨u, (Machine.Path.tail .refl hclosed hstep).trans hpath, hrest⟩
    · exact ⟨s, .refl, fun p hp => henabled ⟨p, hp⟩⟩

/-- Every state has a fair run. -/
theorem exists_fair_run {s : State} (hs : udpService.ReachableUnder Faultless s) :
    ∃ r : udpService.Run Closed s, r.Fair Action.party := by
  obtain ⟨t, hpath, hrest⟩ := exists_rest hs
  exact Machine.exists_fair hpath hrest

/-! ### The conversation -/

/-- Client `c` has been greeted, heard and answered once, by one and the same worker. -/
def Served (s : State) (c : ℕ) : Prop :=
  ∃ i, s.greeted.filter (·.2 = .client c) = [(i, .client c)] ∧
    s.received.filter (·.2.1 = .client c) = [(i, .client c, .client c)] ∧
    s.answered.filter (·.2 = .client c) = [(i, .client c)]

theorem Conversations.served {s : State} (h : Conversations s) {c : ℕ}
    (hc : s.clients[c]? = some .done) : Served s c := by
  obtain ⟨st, hfits, hgreeted, hreceived, hanswered⟩ := h.outcome (.client c)
  rw [State.peer, hc] at hfits
  cases st with
  | done i =>
    exact ⟨i, List.perm_singleton.1 hgreeted, List.perm_singleton.1 hreceived,
      List.perm_singleton.1 hanswered⟩
  | _ => simp [Stage.Fits] at hfits

/-- What the listener, the workers and the clients keep, and what they come to. -/
structure Conversed (s : State) : Prop where
  /-- No worker and no client takes its "Incorrect endpoint" branch. -/
  endpoints : .incorrectEndpoint ∉ s.udpThreads ∧ .incorrectEndpoint ∉ s.clients
  /-- A datagram to a worker is from the client that the worker serves. -/
  inbox : ∀ d ∈ s.net, ∀ i, d.dst = .worker i →
    ∃ pc, s.udpThreads[i]? = some pc ∧ pc.entry i = some (.serving i d.src)
  /-- A client is greeted, heard and answered at most once, by one and the same worker, which
  receives nothing else meanwhile. -/
  once : ∀ e, ∃ i, s.greeted.filter (·.2 = e) <+: [(i, e)] ∧
    s.received.filter (·.2.1 = e) <+: [(i, e, e)] ∧ s.answered.filter (·.2 = e) <+: [(i, e)]
  /-- A client that is through has been greeted, heard and answered. -/
  served : ∀ c : ℕ, s.clients[c]? = some .done → Served s c
  /-- When no further client comes, and no party is kept waiting for ever, every client gets
  through and is served. -/
  progress : ∀ r : udpService.Run Closed s, r.Fair Action.party →
    ∃ n, ∀ c < (r.state n).clients.length,
      (r.state n).clients[c]? = some .done ∧ Served (r.state n) c
  /-- It is possible that no party is kept waiting for ever. -/
  possible : ∃ r : udpService.Run Closed s, r.Fair Action.party

/-- **UDP conversation**, in every run in which no call fails and every datagram is from a party
and arrives once. -/
theorem udp_conversation {s : State} (h : udpService.ReachableUnder Faultless s) :
    Conversed s := by
  have hconv := conversations h
  constructor
  case endpoints =>
    refine ⟨correct_endpoints h, fun hmem => ?_⟩
    obtain ⟨c, hc⟩ := List.getElem?_of_mem hmem
    obtain ⟨st, hfits⟩ := hconv.fits hc
    cases st <;> simp [Stage.Fits] at hfits
  case inbox =>
    intro d hd i hdst
    exact serving_of_mem (hconv.serving hd hdst).2
  case once =>
    intro e
    obtain ⟨st, -, hgreeted, hreceived, hanswered⟩ := hconv.outcome e
    obtain ⟨i, hgreet, hreceive, hanswer⟩ := st.one_worker e
    exact ⟨i, prefix_of_perm hgreeted hgreet, prefix_of_perm hreceived hreceive,
      prefix_of_perm hanswered hanswer⟩
  case served => exact fun c hc => hconv.served hc
  case progress =>
    intro r hfair
    obtain ⟨n, hn⟩ := all_done h r hfair
    refine ⟨n, fun c hc => ?_⟩
    have hdone : (r.state n).clients[c]? = some .done := by
      rw [List.getElem?_eq_getElem hc, hn _ (List.getElem_mem hc)]
    have hconv := conversations (h.path ((r.path n).mono fun _ _ hclosed => hclosed.1))
    exact ⟨hdone, hconv.served hdone⟩
  case possible => exact exists_fair_run h

instance (s : State) : ∀ a, Decidable (Faultless s a)
  | .thread _ ok _ | .client _ ok _ => inferInstanceAs (Decidable (ok = true))
  | .inject _ | .lose _ => instDecidableFalse
  | .main | .tcp | .contact _ | .connect => instDecidableTrue

/-- Two clients contact the listener, one worker greets the first one and gets its message. -/
def twoContacts : List Action :=
  [.main, .main, .main, .thread 0 true 0, .connect, .connect, .client 0 true 0, .client 1 true 0,
    .contact 0, .main, .main, .thread 0 true 0, .thread 0 true 0, .contact 0, .main, .main,
    .client 0 true 0, .client 0 true 0, .client 0 true 0]

/-- The clients' next calls: the second one is greeted before the first one gets its answer. -/
def bothReceive : List Action :=
  [.client 1 true 1, .client 1 true 0, .client 1 true 0, .client 0 true 0]

def twoClients : List Action :=
  twoContacts ++ List.replicate 10 (Action.thread 0 true 0) ++ bothReceive

def oneServed : State := (udpService.runUnder Faultless initial twoClients).get (by decide +kernel)

theorem udp_conversation_oneServed : Conversed oneServed :=
  udp_conversation (Machine.reachableUnder_of_run rfl (Option.some_get _).symm)

end EmbeddedC.ClientService.Udp
