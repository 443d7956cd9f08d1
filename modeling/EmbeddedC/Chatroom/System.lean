import EmbeddedC.Lib.Machine
import EmbeddedC.Lib.Slots
import EmbeddedC.Chatroom.Server
import EmbeddedC.Chatroom.Client

/-!
# Homework 12: the chatroom

The server and any number of clients, interleaved; they meet in the message queues only.

* `State`, `Action`, `chatroom`: the machine;
* `replies`, `ServerPc.hand`, `idOf`: where the id of a registered user can be;
* `step_cases`, `ClientStep`, `ClientFrame`: what one step does, and what the server sees of it;
* `Chan.Kept.of_reachable`: invariants of the channels.
-/

namespace EmbeddedC.Chatroom

structure State where
  kernel : Kernel
  server : Server
  clients : List Client

/-- What can happen next: a step of the server, or its `exit`; a new client; a call of client
`c`, a line typed by its user, its `exit` (the user's, or by a signal), or a call of its
`handle_msg` thread `j`. -/
inductive Action
  | server (junk : Text)
  | serverExit
  | connect (login : Text)
  | client (c : ℕ)
  | say (c : ℕ) (text : Text)
  | clientExit (c : ℕ)
  | handler (c j : ℕ)
  deriving DecidableEq

/-- Empty queues, no clients. -/
def initial (index : ℕ) : State where
  kernel := ⟨true, [], fun _ => Chan.fresh false⟩
  server := Server.initial index
  clients := []

/-- Put client `c` to `pc`. -/
def State.setClient (s : State) (c : ℕ) (cl : Client) (pc : ClientPc) : State :=
  { s with clients := s.clients.set c { cl with pc := pc } }

def clientStep (s : State) (c : ℕ) : Option State :=
  match s.clients[c]? with
  | none => none
  | some cl =>
    match cl.pc with
    | .session k pc =>
      (session cl.login (s.kernel.chan k) pc).map fun (ch, pc') =>
        { s with kernel := s.kernel.modify k fun _ => ch }.setClient c cl (.session k pc')
    | pc => (loginClient s.kernel pc).map fun (K, pc') =>
        { s with kernel := K }.setClient c cl pc'

/-- A line of at most 81 characters, which is what fits before the main loop ends. -/
def say (s : State) (c : ℕ) (text : Text) : Option State :=
  match s.clients[c]? with
  | none => none
  | some cl =>
    match cl.pc with
    | .session k .main =>
      if text = [] ∨ 81 < text.length then none
      else some { s with kernel := s.kernel.modify k (·.sendCtos ⟨t3UserPrio, text, .direct⟩) }
    | _ => none

def clientExit (s : State) (c : ℕ) : Option State :=
  match s.clients[c]? with
  | none => none
  | some cl => cl.pc.exit.map (s.setClient c cl)

def handlerStep (s : State) (c j : ℕ) : Option State :=
  match s.clients[c]? with
  | none => none
  | some cl =>
    match cl.pc with
    | .session k pc =>
      if pc = .exited then none else
      (handleMsg (s.kernel.chan k) j).map fun (ch, exits) =>
        { s with kernel := s.kernel.modify k fun _ => ch }.setClient c cl
          (.session k (if exits then pc.exit.getD pc else pc))
    | _ => none

def step (s : State) : Action → Option State
  | .server junk => (thirdTaskServer junk s.kernel s.server).map fun (K, v) =>
      { s with kernel := K, server := v }
  | .serverExit =>
    if s.server.pc.running then
      let (K, v) := exitServer s.kernel s.server
      some { s with kernel := K, server := v }
    else none
  | .connect login => some { s with clients := s.clients ++ [⟨login, .openLogin⟩] }
  | .client c => clientStep s c
  | .say c text => say s c text
  | .clientExit c => clientExit s c
  | .handler c j => handlerStep s c j

/-- The chatroom: the server and its clients, interleaved. -/
def chatroom : Machine State Action where
  init s := ∃ index, s = initial index
  step := step

/-! ### Ids -/

/-- The id client `c` has adopted. -/
def idOf (s : State) (c : ℕ) : Option ℕ := (s.clients[c]?).bind Client.id

/-- The id a message of the login queue carries. -/
def LoginMsg.reply (m : LoginMsg) : Option ℕ :=
  if m.prio = t3ServerPrio then some (atoi m.text) else none

/-- The ids in the login queue. -/
def replies (K : Kernel) : List ℕ := K.loginQ.filterMap LoginMsg.reply

/-- The id in the reply the server holds. -/
def ServerPc.hand : ServerPc → Option ℕ
  | .resend text => some (atoi text)
  | .reply id => some id
  | _ => none

/-! ### Runs -/

/-- The server makes `n` steps. -/
def serverSteps (n : ℕ) : List Action := List.replicate n (.server [])

/-- Client `c` makes `n` calls. -/
def clientSteps (c n : ℕ) : List Action := List.replicate n (.client c)

/-- A client logs in while the server polls, and reaches its main loop. -/
def firstLogin : List Action :=
  serverSteps 2 ++ [.connect "ann".toList] ++ clientSteps 0 2 ++ serverSteps 4 ++ clientSteps 0 7

/-- The client then says something, and the server renames it and relays what it said. -/
def firstChat : List Action := firstLogin ++ [.say 0 "hi".toList] ++ serverSteps 8

/-! ### What one step does -/

/-- What the server sees of a step of the others. -/
structure ClientFrame (s t : State) : Prop where
  server : t.server = s.server
  chan : ∀ k, (s.kernel.chan k).ClientMove (t.kernel.chan k)

theorem ClientFrame.of_chan {s t : State} (hserver : t.server = s.server)
    (hchan : t.kernel.chan = s.kernel.chan) : ClientFrame s t :=
  ⟨hserver, fun _ => hchan ▸ .refl _⟩

theorem ClientFrame.of_modify {s t : State} (k : ℕ) (f : Chan → Chan)
    (hserver : t.server = s.server) (hkernel : t.kernel = s.kernel.modify k f)
    (hf : (s.kernel.chan k).ClientMove (f (s.kernel.chan k))) : ClientFrame s t := by
  refine ⟨hserver, fun j => ?_⟩
  rw [hkernel]
  exact Kernel.modify_forall (P := fun j c => (s.kernel.chan j).ClientMove c)
    (fun j => .refl _) hf j

theorem loginClient_chan {K : Kernel} {pc : ClientPc} {p : Kernel × ClientPc}
    (h : loginClient K pc = some p) : p.1.chan = K.chan := by
  cases pc with
  | openLogin =>
    simp only [loginClient] at h
    split at h
    · cases h
      rfl
    · cases h
  | request | receive | resend =>
    obtain ⟨q, -, rfl⟩ := Option.map_eq_some_iff.1 h
    rfl
  | gone | session => cases h

/-- What one step of a client can do: it starts, makes a call before or after it has an id, sends
a line, exits, or one of its `handle_msg` threads makes a call. -/
inductive ClientStep (s : State) : Action → State → Prop
  | connect {login : Text} :
      ClientStep s (.connect login) { s with clients := s.clients ++ [⟨login, .openLogin⟩] }
  | login {c : ℕ} {cl : Client} {p : Kernel × ClientPc} (hc : s.clients[c]? = some cl)
      (hp : loginClient s.kernel cl.pc = some p) :
      ClientStep s (.client c) ({ s with kernel := p.1 }.setClient c cl p.2)
  | session {c k : ℕ} {cl : Client} {pc pc' : SessionPc} {ch : Chan}
      (hc : s.clients[c]? = some cl) (hpc : cl.pc = .session k pc)
      (hch : session cl.login (s.kernel.chan k) pc = some (ch, pc')) :
      ClientStep s (.client c)
        ({ s with kernel := s.kernel.modify k fun _ => ch }.setClient c cl (.session k pc'))
  | say {c k : ℕ} {cl : Client} {text : Text} (hc : s.clients[c]? = some cl)
      (hpc : cl.pc = .session k .main) :
      ClientStep s (.say c text)
        { s with kernel := s.kernel.modify k (·.sendCtos ⟨t3UserPrio, text, .direct⟩) }
  | exit {c : ℕ} {cl : Client} {pc : ClientPc} (hc : s.clients[c]? = some cl)
      (hpc : cl.pc.exit = some pc) : ClientStep s (.clientExit c) (s.setClient c cl pc)
  | handler {c j k : ℕ} {cl : Client} {pc : SessionPc} {ch : Chan} {exits : Bool}
      (hc : s.clients[c]? = some cl) (hpc : cl.pc = .session k pc)
      (hch : handleMsg (s.kernel.chan k) j = some (ch, exits)) :
      ClientStep s (.handler c j) ({ s with kernel := s.kernel.modify k fun _ => ch }.setClient c cl
        (.session k (if exits then pc.exit.getD pc else pc)))

/-- A step is one of the server, its `exit`, or one of a client. -/
theorem step_cases {s t : State} {a : Action} (h : chatroom.step s a = some t) :
    (∃ junk, a = .server junk ∧ ServerStep s.kernel s.server t.kernel t.server ∧
      t.clients = s.clients) ∨
    (a = .serverExit ∧ t = { s with
      kernel := { s.kernel with loginLinked := false }
      server := { s.server with pc := .shutdown 0 } }) ∨
    ClientStep s a t := by
  cases a with
  | server junk =>
    obtain ⟨p, hp, rfl⟩ := Option.map_eq_some_iff.1 h
    exact .inl ⟨junk, rfl, thirdTaskServer_step hp, rfl⟩
  | serverExit =>
    simp only [chatroom, step] at h
    split at h
    · exact .inr (.inl ⟨rfl, (Option.some.inj h).symm⟩)
    · cases h
  | connect login =>
    obtain rfl := Option.some.inj h
    exact .inr (.inr .connect)
  | client c =>
    simp only [chatroom, step, clientStep] at h
    split at h
    · cases h
    · split at h
      · obtain ⟨⟨ch, pc'⟩, hch, rfl⟩ := Option.map_eq_some_iff.1 h
        exact .inr (.inr (.session ‹_› ‹_› hch))
      · obtain ⟨p, hp, rfl⟩ := Option.map_eq_some_iff.1 h
        exact .inr (.inr (.login ‹_› hp))
  | say c text =>
    simp only [chatroom, step, say] at h
    split at h
    · cases h
    · split at h
      · split at h
        · cases h
        · obtain rfl := Option.some.inj h
          exact .inr (.inr (.say ‹_› ‹_›))
      · cases h
  | clientExit c =>
    simp only [chatroom, step, clientExit] at h
    split at h
    · cases h
    · obtain ⟨pc, hpc, rfl⟩ := Option.map_eq_some_iff.1 h
      exact .inr (.inr (.exit ‹_› hpc))
  | handler c j =>
    simp only [chatroom, step, handlerStep] at h
    split at h
    · cases h
    · split at h
      · split at h
        · cases h
        · obtain ⟨⟨ch, exits⟩, hch, rfl⟩ := Option.map_eq_some_iff.1 h
          exact .inr (.inr (.handler ‹_› ‹_› hch))
      · cases h

/-- The server sees the queues only. -/
theorem ClientStep.frame {s t : State} {a : Action} (h : ClientStep s a t) : ClientFrame s t := by
  cases h with
  | connect | exit => exact .of_chan rfl rfl
  | login hc hp => exact .of_chan rfl (loginClient_chan hp)
  | @session c k cl pc pc' ch hc hpc hch =>
    exact .of_modify k (fun _ => ch) rfl rfl (session_move hch)
  | say => exact .of_modify _ (·.sendCtos _) rfl rfl (Chan.clientMove_sendCtos _ _)
  | @handler c j k cl pc ch exits hc hpc hch =>
    exact .of_modify k (fun _ => ch) rfl rfl (handleMsg_move hch)

/-- What the server does to a channel keeps `P`. -/
structure Chan.ServerKept (P : Chan → Prop) : Prop where
  fresh : ∀ b, P (Chan.fresh b)
  send : ∀ c m, P c → P (c.sendStoc m)
  recv : ∀ c m c', P c → c.recvCtos = some (m, c') → P c'
  link : ∀ c b, P c → P { c with linked := b }

/-- What the server and the clients do to a channel keeps `P`. -/
structure Chan.Kept (P : Chan → Prop) : Prop extends Chan.ServerKept P where
  client : ∀ c c', P c → c.ClientMove c' → P c'

theorem Chan.ServerKept.serverStep {P : Chan → Prop} (hP : Chan.ServerKept P) {K K' : Kernel}
    {v v' : Server} (hs : ServerStep K v K' v') (k : ℕ) (h : P (K.chan k)) : P (K'.chan k) := by
  have hmodify (j : ℕ) (f : Chan → Chan) (hf : P (K.chan j) → P (f (K.chan j))) :
      P ((K.modify j f).chan k) :=
    Kernel.modify_forall (P := fun i c => P (K.chan i) → P c) (fun _ => id) hf k h
  cases hs with
  | idle | takeReply | takeOther | finish | skip | down => exact h
  | resend | reply => simpa using h
  | register => exact hmodify _ (fun _ => Chan.fresh true) fun _ => hP.fresh true
  | deliver | answer => exact hmodify _ (·.sendStoc _) (hP.send _ _)
  | farewell =>
    exact hmodify _ (fun c => { c.sendStoc _ with linked := false }) fun h =>
      hP.link _ _ (hP.send _ _ h)
  | chat hpc hu hid hm | rename hpc hu hid hm | request hpc hu hid hm | discard hpc hu hid hm =>
    exact hmodify _ (fun _ => _) fun h => hP.recv _ _ _ h hm
  | @leave index u m c list hpc hu hid hm =>
    exact hmodify _ (fun _ => { c with linked := false }) fun h => hP.link _ _ (hP.recv _ _ _ h hm)
  | @leaveLast index u m c hpc hu hid hm =>
    exact hmodify _ (fun _ => { c with linked := false }) fun h => hP.link _ _ (hP.recv _ _ _ h hm)

/-- **Invariants of a channel** hold in every run. -/
theorem Chan.Kept.of_reachable {P : Chan → Prop} (hP : Chan.Kept P) {s : State}
    (h : chatroom.Reachable s) : ∀ k, P (s.kernel.chan k) := by
  refine h.invariant (I := fun s => ∀ k, P (s.kernel.chan k)) (fun s hs => ?_)
    fun s a t _ hs hstep => ?_
  · obtain ⟨index, rfl⟩ := hs
    exact fun _ => hP.fresh false
  · obtain ⟨junk, -, hserver, -⟩ | ⟨-, rfl⟩ | hclient := step_cases hstep
    · exact fun k => hP.serverStep hserver k (hs k)
    · exact hs
    · exact fun k => hP.client _ _ (hs k) (hclient.frame.chan k)

end EmbeddedC.Chatroom
