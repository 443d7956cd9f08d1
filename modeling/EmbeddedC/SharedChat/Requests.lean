import EmbeddedC.Lib.Mailbox
import EmbeddedC.SharedChat.System

/-!
# Homework 13: what the server handles is what the client published

The `ctos` half of a user's memory, with `cts_sem` and `usr_sem`, is a mailbox from the client
that has mapped it to the server: the client writes only while it does not wait for `usr_sem`, and
the disconnect command, which is not answered, is its last one.

* `State.ctosBox`: the mailbox of client `c` and the user at `i`;
* `ctosBox_server`, `ctosBox_client`, `ctosBox_handler`: each step is a step of the mailbox, or
  leaves it alone;
* `requests_in_order`: the commands handled, in every run.
-/

namespace EmbeddedC.SharedChat

open Chatroom (Text)

/-! ### The mailbox -/

/-- The segment holds a command as clients send it. -/
def HoldsRequest (m : UsrMsg) (e : Command) : Prop :=
  e.comm = m.comm ∧
    (e.comm = .msgSnd ∧ m.msg ≠ none ∧ e.text = m.msg ∨ e.comm = .disconnect ∧ e.text = none)

namespace ClientPc

/-- A client in its main loop is the writer of `ctos`; it waits for ever after the disconnect
command. -/
def writer : ClientPc → Mailbox.Writer
  | .writeMsg _ | .copyMsg _ | .post _ | .postQuit => .writing
  | .waitUsr | .cancel => .waiting
  | _ => .idle

/-- What a client has written so far. -/
def plan : ClientPc → UsrMsg → Prop
  | .writeMsg _, m | .copyMsg _, m => m.comm = .msgSnd
  | .post text, m => m = ⟨.msgSnd, some text⟩
  | .postQuit, m => m.comm = .disconnect
  | _, _ => True

end ClientPc

namespace ServerPc

/-- The server is the reader of `ctos` of the user at `i`. -/
def reader (i : ℕ) : ServerPc → Mailbox.Reader
  | .readComm index | .readMsg index | .rename index => if index = i then .reading else .away
  | .answer index => if index = i then .answering else .away
  | _ => .away

/-- What the server has found out about the command. -/
def known (i : ℕ) : ServerPc → Command → Prop
  | .readMsg index => fun e => index = i → e.comm = .msgSnd
  | .rename index => fun e => index = i → e.comm = .setUsrname
  | _ => fun _ => True

end ServerPc

/-- The `ctos` half of the memory of the user at `i`, between the server and a client. -/
def Shm.ctosBox (m : Shm) (i : ℕ) (server : ServerPc) (client : ClientPc) :
    Mailbox Command UsrMsg where
  writer := client.writer
  reader := server.reader i
  plan := client.plan
  known := server.known i
  place := m.ctos
  full := m.ctsSem
  ack := m.usrSem
  unwaited := 0
  unanswered := m.handled.countP (·.comm ≠ .msgSnd)
  written := m.published
  read := m.handled

namespace State

/-- Where client `c` is in its main loop on the memory of the user at `i`. -/
def session (s : State) (c i : ℕ) : ClientPc :=
  match s.clients[c]? with
  | some cl => if cl.shmBuf = some i then cl.pc else .lockUsr
  | none => .lockUsr

/-- The mailbox from client `c` to the server in the memory of the user at `i`. -/
def ctosBox (s : State) (c i : ℕ) : Mailbox Command UsrMsg :=
  (s.shm i).ctosBox i s.server (s.session c i)

end State

/-! ### Steps of the server -/

section Server

variable {s t : State} {m m' : Shm} {i k : ℕ} {pc pc' : ServerPc} {w w' : ClientPc}

theorem ServerPc.Moves.away (h : pc.Moves pc') (i : ℕ) :
    pc.reader i = .away ∧ pc'.reader i = .away ∧ pc.known i = pc'.known i := by
  cases h with
  | leave send k => cases send <;> exact ⟨rfl, rfl, rfl⟩
  | _ => exact ⟨rfl, rfl, rfl⟩

/-- What the `ctos` half of a user's memory is. -/
def Shm.ctosHalf (m : Shm) : UsrMsg × ℕ × ℕ × List Command × List Command :=
  (m.ctos, m.ctsSem, m.usrSem, m.published, m.handled)

theorem ctosBox_congr (hhalf : m'.ctosHalf = m.ctosHalf) (hreader : pc'.reader i = pc.reader i)
    (hknown : pc'.known i = pc.known i) : m'.ctosBox i pc' w = m.ctosBox i pc w := by
  simp only [Shm.ctosHalf, Prod.mk.injEq] at hhalf
  obtain ⟨hctos, hcts, husr, hpublished, hhandled⟩ := hhalf
  simp only [Shm.ctosBox, hctos, hcts, husr, hpublished, hhandled, hreader, hknown]

/-- A step of the server on the memory of the user at `k`. -/
theorem ctosBox_update {c : ℕ} (hpc : s.server = pc) (hshm : t.shm = Function.update s.shm k m)
    (hserver : t.server = pc') (hclients : t.clients = s.clients)
    (hself : Mailbox.Step HoldsRequest ((s.shm k).ctosBox k pc (s.session c k))
      (m.ctosBox k pc' (s.session c k)))
    (hother : i ≠ k → pc'.reader i = pc.reader i ∧ pc'.known i = pc.known i) :
    t.ctosBox c i = s.ctosBox c i ∨ Mailbox.Step HoldsRequest (s.ctosBox c i) (t.ctosBox c i) := by
  have hsession : t.session c i = s.session c i := by simp only [State.session, hclients]
  simp only [State.ctosBox, hsession, hshm, hserver, hpc]
  by_cases hi : i = k
  · subst hi
    rw [Function.update_self]
    exact .inr hself
  · rw [Function.update_of_ne hi]
    exact .inl (ctosBox_congr rfl (hother hi).1 (hother hi).2)

theorem ServerPc.reader_other {index : ℕ} (hi : i ≠ index) :
    (readComm index).reader i = .away ∧ (readMsg index).reader i = .away ∧
      (rename index).reader i = .away ∧ (answer index).reader i = .away := by
  simp [reader, hi.symm]

theorem ServerPc.known_other {index : ℕ} (hi : i ≠ index) :
    (readMsg index).known i = (fun _ => True) ∧ (rename index).known i = fun _ => True := by
  simp [known, hi.symm]

/-- A step of the server is a step of the mailbox, or leaves it alone. -/
theorem ctosBox_server {junk : Text} (h : ServerStep s junk t) (c i : ℕ) :
    t.ctosBox c i = s.ctosBox c i ∨ Mailbox.Step HoldsRequest (s.ctosBox c i) (t.ctosBox c i) := by
  cases h with
  | move hpc hmoves =>
    obtain ⟨haway, haway', hknown⟩ := hmoves.away i
    refine .inl (ctosBox_congr rfl ?_ ?_) <;> rw [hpc]
    · rw [haway, haway']
    · exact hknown.symm
  | login hpc | register hpc | writeId hpc | copyId hpc | postStc hpc | loggedIn hpc | unlink hpc
  | postUsr hpc =>
    refine .inl (ctosBox_congr rfl ?_ ?_) <;> rw [hpc] <;> rfl
  | writeComm hpc | writeMsg hpc | copyMsg hpc | postJoined hpc | post hpc =>
    refine .inl (ctosBox_congr (State.update_shm_congr Shm.ctosHalf s.shm i _ rfl) ?_ ?_) <;>
      rw [hpc] <;> rfl
  | @resume send k hpc hsrv =>
    refine .inl (ctosBox_congr (State.update_shm_congr Shm.ctosHalf s.shm i _ rfl) ?_ ?_) <;>
      rw [hpc] <;> cases send <;> rfl
  | @drop index pc list hpc hnext =>
    refine .inl (ctosBox_congr rfl ?_ ?_) <;> rw [hpc] <;>
      split at hnext <;> subst hnext <;> rfl
  | @take index hpc hindex hconnected hcts =>
    refine ctosBox_update hpc rfl rfl rfl ?_ fun hi => ⟨(ServerPc.reader_other hi).1, rfl⟩
    have hstep : Mailbox.Step HoldsRequest
      ((s.shm index).ctosBox index (.pass index) (s.session c index)) _ := .take rfl hcts
    simpa [Shm.ctosBox, ServerPc.reader, ServerPc.known] using hstep
  | @message index hpc hcomm =>
    refine ctosBox_update hpc (Function.update_eq_self index s.shm).symm rfl rfl ?_ fun hi =>
      ⟨by rw [(ServerPc.reader_other hi).1, (ServerPc.reader_other hi).2.1],
        (ServerPc.known_other hi).1⟩
    have hstep : Mailbox.Step HoldsRequest
      ((s.shm index).ctosBox index (.readComm index) (s.session c index)) _ :=
      .learn (·.comm = .msgSnd) (if_pos rfl) fun e he => he.1.trans hcomm
    simpa [Shm.ctosBox, ServerPc.reader, ServerPc.known] using hstep
  | @newName index hpc hcomm =>
    refine ctosBox_update hpc (Function.update_eq_self index s.shm).symm rfl rfl ?_ fun hi =>
      ⟨by rw [(ServerPc.reader_other hi).1, (ServerPc.reader_other hi).2.2.1],
        (ServerPc.known_other hi).2⟩
    have hstep : Mailbox.Step HoldsRequest
      ((s.shm index).ctosBox index (.readComm index) (s.session c index)) _ :=
      .learn (·.comm = .setUsrname) (if_pos rfl) fun e he => he.1.trans hcomm
    simpa [Shm.ctosBox, ServerPc.reader, ServerPc.known] using hstep
  | @plain index pc hpc hnext =>
    -- the commands without a text are not read any further
    have hplain : (s.shm index).ctos.comm ≠ .msgSnd := fun hcomm => by simp [hcomm] at hnext
    have haway : ∀ i, pc.reader i = .away ∧ pc.known i = fun _ => True := by
      intro i
      split at hnext <;> first | (subst hnext; exact ⟨rfl, rfl⟩) | exact hnext.elim
    refine ctosBox_update hpc rfl rfl rfl ?_ fun hi =>
      ⟨by rw [(haway i).1, (ServerPc.reader_other hi).1], (haway i).2⟩
    have hstep : Mailbox.Step HoldsRequest
      ((s.shm index).ctosBox index (.readComm index) (s.session c index)) _ :=
      .skip ⟨(s.shm index).ctos.comm, none⟩ (fun _ => True) (if_pos rfl) ?_
    · simp only [Shm.ctosBox, (haway index).1, (haway index).2]
      simpa [Shm.ctosBox, ServerPc.reader, ServerPc.known, hplain] using hstep
    · rintro ⟨comm, text⟩ ⟨hcomm, hmsg | hdisconnect⟩ -
      · exact absurd (hcomm.symm.trans hmsg.1) hplain
      · rw [Command.mk.injEq]
        exact ⟨hcomm.symm, hdisconnect.2.symm⟩
  | @readMsg index hpc =>
    refine ctosBox_update hpc rfl rfl rfl ?_ fun hi => ⟨by
      rw [(ServerPc.reader_other hi).2.2.2, (ServerPc.reader_other hi).2.1],
        (ServerPc.known_other hi).1.symm⟩
    have hstep : Mailbox.Step HoldsRequest
      ((s.shm index).ctosBox index (.readMsg index) (s.session c index)) _ :=
      .read ⟨.msgSnd, some ((s.shm index).ctos.msg.getD junk)⟩ (fun _ => True) (if_pos rfl) ?_
    · simpa [Shm.ctosBox, ServerPc.reader, ServerPc.known] using hstep
    · rintro ⟨comm, text⟩ ⟨-, ⟨hcomm, hmsg, htext⟩ | hdisconnect⟩ hknown
      · obtain ⟨text', hmsg⟩ := Option.ne_none_iff_exists'.1 hmsg
        change (s.shm index).ctos.msg = some text' at hmsg
        rw [Command.mk.injEq]
        exact ⟨hcomm.symm, by simpa [Shm.ctosBox, hmsg] using htext.symm⟩
      · cases hdisconnect.1.symm.trans (hknown rfl)
  | @answer index hpc =>
    refine ctosBox_update hpc rfl rfl rfl ?_ fun hi =>
      ⟨(ServerPc.reader_other hi).2.2.2.symm, rfl⟩
    have hstep : Mailbox.Step HoldsRequest
      ((s.shm index).ctosBox index (.answer index) (s.session c index)) _ := .answer (if_pos rfl)
    simpa [Shm.ctosBox, ServerPc.reader, ServerPc.known] using hstep
  | @rename index login list hpc =>
    refine ctosBox_update hpc rfl rfl rfl ?_ fun hi =>
      ⟨(ServerPc.reader_other hi).2.2.1.symm, (ServerPc.known_other hi).2.symm⟩
    have hstep : Mailbox.Step HoldsRequest
      ((s.shm index).ctosBox index (.rename index) (s.session c index)) _ :=
      .skip ⟨.setUsrname, some ((s.shm index).ctos.msg.getD junk)⟩ (fun _ => True) (if_pos rfl) ?_
    · simpa [Shm.ctosBox, ServerPc.reader, ServerPc.known] using hstep
    · -- no client sends `setUsrname`
      rintro ⟨comm, text⟩ ⟨-, hmsg | hdisconnect⟩ hknown
      · cases hmsg.1.symm.trans (hknown rfl)
      · cases hdisconnect.1.symm.trans (hknown rfl)

/-- A wait that times out leaves the mailbox alone. -/
theorem ctosBox_timeout (h : TimeoutStep s t) (c i : ℕ) : t.ctosBox c i = s.ctosBox c i := by
  cases h with
  | login hpc => refine ctosBox_congr rfl ?_ ?_ <;> rw [hpc] <;> rfl
  | @reply send k hpc => refine ctosBox_congr rfl ?_ ?_ <;> rw [hpc] <;> cases send <;> rfl

end Server

/-! ### Steps of the clients -/

section Client

variable {s t : State} {c c' i i' : ℕ} {cl : Client} {f : Client → Client}

theorem ClientPc.plan_of_idle {pc : ClientPc} (h : pc.writer = .idle) :
    pc.plan = fun _ => True := by
  cases pc <;> first | rfl | cases h

theorem session_eq (hcl : s.clients[c]? = some cl) (hi : cl.shmBuf = some i) :
    s.session c i = cl.pc := by
  simp [State.session, hcl, hi]

theorem session_idle (hcl : s.clients[c]? = some cl)
    (h : cl.shmBuf = some i → cl.pc.writer = .idle) : (s.session c i).writer = .idle := by
  simp only [State.session, hcl]
  split
  · exact h ‹_›
  · rfl

/-- The mailbox does not depend on where a client is that does not write. -/
theorem ctosBox_idle (hserver : t.server = s.server)
    (hhalf : (t.shm i).ctosHalf = (s.shm i).ctosHalf) (hs : (s.session c i).writer = .idle)
    (ht : (t.session c i).writer = .idle) : t.ctosBox c i = s.ctosBox c i := by
  rw [State.ctosBox, State.ctosBox, hserver, ← ctosBox_congr hhalf rfl rfl]
  simp only [Shm.ctosBox, hs, ht, ClientPc.plan_of_idle hs, ClientPc.plan_of_idle ht]

theorem session_modify_of_ne (hc : c ≠ c') (hclients : t.clients = s.clients.modify c' f) :
    t.session c i = s.session c i := by
  simp [State.session, hclients, hc.symm]

/-- A step of a client that keeps its place and memory. -/
theorem session_modify_of_eq (hclients : t.clients = s.clients.modify c' f)
    (hf : ∀ cl, (f cl).pc = cl.pc ∧ (f cl).shmBuf = cl.shmBuf) : t.session c i = s.session c i := by
  simp only [State.session, hclients, List.getElem?_modify]
  cases s.clients[c]? with
  | none => rfl
  | some cl =>
    simp only [Option.map_eq_map, Option.map_some]
    split <;> simp [hf]

/-- A step of client `c'` that does not write leaves the mailbox alone. -/
theorem ctosBox_modify_idle (hserver : t.server = s.server)
    (hhalf : (t.shm i).ctosHalf = (s.shm i).ctosHalf)
    (hclients : t.clients = s.clients.modify c' f) (hcl : s.clients[c']? = some cl)
    (hs : cl.shmBuf = some i → cl.pc.writer = .idle)
    (ht : (f cl).shmBuf = some i → (f cl).pc.writer = .idle) :
    t.ctosBox c i = s.ctosBox c i := by
  by_cases hc : c = c'
  · subst hc
    refine ctosBox_idle hserver hhalf (session_idle hcl hs) (session_idle ?_ ht)
    simp [hclients, hcl]
  · rw [State.ctosBox, session_modify_of_ne hc hclients, hserver]
    exact ctosBox_congr hhalf rfl rfl

theorem ctosBox_eq (hcl : s.clients[c]? = some cl) (hi : cl.shmBuf = some i) :
    s.ctosBox c i = (s.shm i).ctosBox i s.server cl.pc := by rw [State.ctosBox, session_eq hcl hi]

theorem ctosBox_modifyShm_setClient (hcl : s.clients[c]? = some cl) (hi : cl.shmBuf = some i)
    (g : Shm → Shm) (pc : ClientPc) :
    ((s.modifyShm i g).setClient c pc).ctosBox c i = (g (s.shm i)).ctosBox i s.server pc := by
  have hcl' : ((s.modifyShm i g).setClient c pc).clients[c]? = some { cl with pc := pc } := by
    change (s.clients.modify c fun cl => { cl with pc := pc })[c]? = _
    simp [hcl]
  rw [ctosBox_eq hcl' hi]
  exact congrArg (Shm.ctosBox · i s.server pc) (s.shm_modifyShm_self i g)

/-- A step in the main loop of client `c` on the memory it has mapped is a step of the mailbox, or
leaves it alone. -/
theorem ctosBox_mainLoop (hok : Mailbox.Ok HoldsRequest (s.ctosBox c i))
    (hcl : s.clients[c]? = some cl) (hi : cl.shmBuf = some i)
    (h : mainLoop s c i cl.pc = some t) :
    t.ctosBox c i = s.ctosBox c i ∨ Mailbox.Step HoldsRequest (s.ctosBox c i) (t.ctosBox c i) := by
  have heq := ctosBox_eq hcl hi
  cases hpc : cl.pc with
  | writeComm text =>
    rw [hpc] at h heq
    obtain rfl := Option.some.inj h
    rw [ctosBox_modifyShm_setClient hcl hi, heq]
    exact .inr (.begin _ _ rfl (heq ▸ hok.clear_of_idle (heq ▸ rfl) rfl) rfl)
  | writeMsg text =>
    rw [hpc] at h heq
    obtain rfl := Option.some.inj h
    rw [ctosBox_modifyShm_setClient hcl hi, heq]
    exact .inr (.write _ _ rfl fun hcomm => hcomm)
  | copyMsg text =>
    rw [hpc] at h heq
    obtain rfl := Option.some.inj h
    rw [ctosBox_modifyShm_setClient hcl hi, heq]
    exact .inr (.write _ _ rfl fun hcomm => congrArg (UsrMsg.mk · (some text)) hcomm)
  | post text =>
    rw [hpc] at h heq
    obtain rfl := Option.some.inj h
    rw [ctosBox_modifyShm_setClient hcl hi, heq]
    refine .inr (.post (⟨.msgSnd, some text⟩ : Command) _ rfl fun m hm => ?_)
    obtain rfl := hm
    exact ⟨rfl, .inl ⟨rfl, nofun, rfl⟩⟩
  | waitUsr =>
    rw [hpc] at h heq
    simp only [mainLoop] at h
    split at h
    · cases h
    · obtain rfl := Option.some.inj h
      rw [ctosBox_modifyShm_setClient hcl hi, heq]
      exact .inr (.resume rfl ‹_›)
  | quit =>
    rw [hpc] at h heq
    obtain rfl := Option.some.inj h
    rw [ctosBox_modifyShm_setClient hcl hi, heq]
    exact .inr (.begin _ _ rfl (heq ▸ hok.clear_of_idle (heq ▸ rfl) rfl) rfl)
  | postQuit =>
    rw [hpc] at h heq
    obtain rfl := Option.some.inj h
    rw [ctosBox_modifyShm_setClient hcl hi, heq]
    exact .inr (.post (⟨.disconnect, none⟩ : Command) _ rfl fun m hm => ⟨hm.symm, .inr ⟨rfl, rfl⟩⟩)
  | spawn =>
    rw [hpc] at h
    obtain rfl := Option.some.inj h
    exact .inl (ctosBox_modify_idle rfl rfl rfl hcl (fun _ => by rw [hpc]; rfl) (fun _ => rfl))
  | cancel =>
    rw [hpc] at h
    obtain rfl := Option.some.inj h
    refine .inl (congrArg ((s.shm i).ctosBox i s.server) ?_)
    exact session_modify_of_eq (f := fun cl => { cl with alive := false }) rfl fun _ => ⟨rfl, rfl⟩
  | _ =>
    rw [hpc] at h
    cases h

/-- A step of the client's login leaves the mailbox alone. -/
theorem ctosBox_login {junk : ℕ} (hcl : s.clients[c']? = some cl) (h : LoginStep s c' junk cl t)
    (c i : ℕ) : t.ctosBox c i = s.ctosBox c i := by
  cases h with
  | lockUsr hpc | writeName hpc | copyName hpc | postCts hpc | waitStc hpc | readId hpc
  | openShm hpc | postSrv hpc =>
    refine ctosBox_modify_idle rfl rfl rfl hcl ?_ ?_
    · intro _
      rw [hpc]
      rfl
    · exact fun _ => rfl

/-- A step of a `msg_handler` leaves the mailbox alone. -/
theorem ctosBox_handler {junk : Text} (h : HandlerStep s c' i' junk cl t) (c i : ℕ) :
    t.ctosBox c i = s.ctosBox c i := by
  have hclient (f : Client → Client) (hf : ∀ cl, (f cl).pc = cl.pc ∧ (f cl).shmBuf = cl.shmBuf) :
      (s.modifyClient c' f).ctosBox c i = s.ctosBox c i :=
    congrArg ((s.shm i).ctosBox i s.server) (session_modify_of_eq rfl hf)
  have hshm (g : Shm → Shm) (hg : ∀ m, (g m).ctosHalf = m.ctosHalf) (pc : HandlerPc) :
      ((s.modifyShm i' g).setHandler c' pc).ctosBox c i = s.ctosBox c i := by
    rw [← hclient (fun cl => { cl with handler := pc }) fun _ => ⟨rfl, rfl⟩]
    exact ctosBox_congr (State.update_shm_congr Shm.ctosHalf s.shm i i' (hg _)) rfl rfl
  cases h with
  | readComm | quit | ignore => exact hclient _ fun _ => ⟨rfl, rfl⟩
  | take | readMsg | postSrv => exact hshm _ (by intro m; rfl) _

/-- A new client leaves the mailbox alone. -/
theorem session_concat (hclients : t.clients = s.clients ++ [cl]) (hcl : cl.shmBuf = none) :
    t.session c i = s.session c i := by
  simp only [State.session, hclients]
  rcases lt_trichotomy c s.clients.length with h | rfl | h
  · rw [List.getElem?_append_left h]
  · simp [hcl]
  · rw [List.getElem?_eq_none (by simpa using h), List.getElem?_eq_none h.le]

/-- As long as no other client has mapped the memory, every step keeps the mailbox. -/
theorem ctosBox_step {a : Action} (h : ChatStep s a t) (hsole : s.Sole c i)
    (hbox : Mailbox.Ok HoldsRequest (s.ctosBox c i)) :
    Mailbox.Ok HoldsRequest (t.ctosBox c i) := by
  cases h with
  | server h => exact (ctosBox_server h c i).elim (fun heq => heq ▸ hbox) hbox.step
  | timeout h => exact ctosBox_timeout h c i ▸ hbox
  | connect login =>
    have hsession : State.session { s with clients := s.clients ++ [newClient login] } c i =
      s.session c i := session_concat rfl rfl
    rw [State.ctosBox, hsession]
    exact hbox
  | login hcl halive h => exact ctosBox_login hcl h c i ▸ hbox
  | @main c' junk i' cl t hcl halive hi hpc h =>
    by_cases hi' : i' = i
    · subst hi'
      obtain rfl := hsole c' cl hcl hi
      exact (ctosBox_mainLoop hbox hcl hi h).elim (fun heq => heq ▸ hbox) hbox.step
    · obtain ⟨m, f, rfl, -, -, hmove⟩ := mainLoop_frame h
      have hother : cl.shmBuf ≠ some i := hi ▸ fun h => hi' (Option.some.inj h)
      have heq : State.ctosBox { s with
          shm := Function.update s.shm i' m
          clients := s.clients.modify c' f } c i = s.ctosBox c i :=
        ctosBox_modify_idle rfl
          (congrArg Shm.ctosHalf (Function.update_of_ne (Ne.symm hi') _ _)) rfl hcl
          (fun h => absurd h hother) fun h => absurd ((hmove cl rfl).shmBuf.symm.trans h) hother
      rw [heq]
      exact hbox
  | @input _ c' cl pc hcl halive hmain hinput =>
    have hidle : pc.writer = .idle := by obtain ⟨text, -, rfl⟩ | ⟨-, rfl⟩ := hinput <;> rfl
    have heq : (s.setClient c' pc).ctosBox c i = s.ctosBox c i :=
      ctosBox_modify_idle rfl rfl rfl hcl (fun _ => by rw [hmain]; rfl) fun _ => hidle
    rw [heq]
    exact hbox
  | handler hcl halive hi h => exact ctosBox_handler h c i ▸ hbox
  | kill c' =>
    have hsession : (s.modifyClient c' fun cl => { cl with alive := false }).session c i =
      s.session c i := session_modify_of_eq rfl fun _ => ⟨rfl, rfl⟩
    rw [State.ctosBox, hsession]
    exact hbox

end Client

/-! ### Every run -/

/-- The commands handled are those published, in order and up to one, with their texts; the server
reads a command only as it has been published, while the client does not write; both semaphores
are 0 or 1. -/
structure State.RequestsInOrder (s : State) (c i : ℕ) : Prop where
  in_order : (s.shm i).handled <+: (s.shm i).published
  at_most_one : (s.shm i).published.length ≤ (s.shm i).handled.length + 1
  read : s.server.reader i = .reading → (s.session c i).writer ≠ .writing ∧
    ∃ e, (s.shm i).published = (s.shm i).handled ++ [e] ∧ HoldsRequest (s.shm i).ctos e
  semaphores : (s.shm i).ctsSem ≤ 1 ∧ (s.shm i).usrSem ≤ 1

theorem ctosBox_ok {s : State} (hs : sharedChat.Reachable s) {c i : ℕ} (hsole : s.Sole c i) :
    Mailbox.Ok HoldsRequest (s.ctosBox c i) := by
  revert hsole
  refine hs.invariant (I := fun s => s.Sole c i → Mailbox.Ok HoldsRequest (s.ctosBox c i))
    (fun s hinit _ => ?_) fun s a t hs ih h hsole => ?_
  · obtain rfl := hinit
    exact ⟨rfl, Nat.zero_le _, nofun, rfl⟩
  · have hstep := step_chatStep h
    have hsole' := sole_of_step (clients_ok hs) hstep hsole
    exact ctosBox_step hstep hsole' (ih hsole')

/-- **The server handles what the client publishes.** In every run, for the client of a user
and the server: as long as only this client has adopted the user's id, the commands handled are a
list of the commands published, in order. -/
theorem requests_in_order {s : State} (hs : sharedChat.Reachable s) {c i : ℕ}
    (hsole : s.Sole c i) : s.RequestsInOrder c i := by
  have hok := ctosBox_ok hs hsole
  refine ⟨hok.in_order.1, hok.in_order.2, fun hreading => ?_, hok.full_le, hok.ack_le rfl⟩
  obtain ⟨hwriter, e, hpublished, hholds, -⟩ := hok.reading hreading
  exact ⟨hwriter, e, hpublished, hholds⟩

/-- A client registers and says something, which the server reads. -/
def oneSaid : State := (sharedChat.run initial
  (Action.connect ['a'] :: requested 0 ++ adopted 0 ++ serverSteps 8 ++
    Action.say 0 ['h'] :: clientSteps 0 4 ++ serverSteps 3)).get (by decide +kernel)

theorem oneSaid_sole : oneSaid.Sole 0 0 := by
  intro c cl hcl _
  have hlt : c < oneSaid.clients.length := List.lt_length_of_getElem?_eq_some hcl
  have hlength : oneSaid.clients.length = 1 := by decide +kernel
  omega

theorem requests_in_order_oneSaid : oneSaid.RequestsInOrder 0 0 :=
  requests_in_order (Machine.reachable_of_run rfl (Option.some_get _).symm) oneSaid_sole

end EmbeddedC.SharedChat
