import EmbeddedC.SharedChat.Server

/-!
# Homework 13: `third_task_client`

A client sends its name through the login segment and gets an id, opens the user's memory and
semaphores of that id, and then sends what the user types; its `msg_handler` thread shows what the
server sends.

* `thirdTaskClient`: one step of the main thread; `say` and `pressF3`: what the user does;
* `msgHandler`: one step of the `msg_handler`;
* `Client.Ok`: where a client has its id, its memory and its `msg_handler`;
* `LoginStep`, `mainLoop_frame`, `HandlerStep`: what one step can do.

The names of a user's memory and semaphores are made together.  They are removed in the order in
which a client opens them, each after it was opened if the client opens all; so opening them is one
step, that of the last one, which waits until they exist, and so is removing them.
-/

namespace EmbeddedC.SharedChat

open Chatroom (Text)

/-- The number of characters after which the main loop ends by itself. -/
def maxInput : ℕ := 81

/-- The next step of client `c` on the memory of the user at `i`; `none` while it blocks or waits
for the user. -/
def mainLoop (s : State) (c i : ℕ) : ClientPc → Option State
  | .spawn => some (s.modifyClient c fun cl => { cl with pc := .main, handler := .poll })
  | .writeComm text =>
    some ((s.modifyShm i fun m => { m with
      ctos := { m.ctos with comm := .msgSnd } }).setClient c (.writeMsg text))
  | .writeMsg text =>
    some ((s.modifyShm i fun m => { m with
      ctos := { m.ctos with msg := none } }).setClient c (.copyMsg text))
  | .copyMsg text =>
    some ((s.modifyShm i fun m => { m with
      ctos := { m.ctos with msg := some text } }).setClient c (.post text))
  | .post text =>
    some ((s.modifyShm i fun m => { m with
      ctsSem := m.ctsSem + 1
      published := m.published ++ [⟨.msgSnd, some text⟩] }).setClient c .waitUsr)
  | .waitUsr =>
    if (s.shm i).usrSem = 0 then none
    else some ((s.modifyShm i fun m => { m with usrSem := m.usrSem - 1 }).setClient c .main)
  | .quit =>
    some ((s.modifyShm i fun m => { m with
      ctos := { m.ctos with comm := .disconnect } }).setClient c .postQuit)
  | .postQuit =>
    some ((s.modifyShm i fun m => { m with
      ctsSem := m.ctsSem + 1
      published := m.published ++ [⟨.disconnect, none⟩] }).setClient c .cancel)
  | .cancel => some (s.modifyClient c fun cl => { cl with alive := false })
  | _ => none

/-- The next step of client `c`; `none` while it blocks or waits for the user.  `junk` is the
number found where the id is read while it is being written. -/
def thirdTaskClient (s : State) (c junk : ℕ) : Option State :=
  match s.clients[c]? with
  | none => none
  | some cl =>
    if cl.alive = false then none else
    match cl.pc with
    | .lockUsr =>
      if s.login.usrSem = 0 then none
      else some { s.setClient c .writeName with
        login := { s.login with usrSem := s.login.usrSem - 1 } }
    | .writeName => some { s.setClient c .copyName with login := { s.login with ctos := none } }
    | .copyName =>
      some { s.setClient c .postCts with
        login := { s.login with ctos := some (strncpy t3LoginMsgSize cl.login) } }
    | .postCts =>
      some { s.setClient c .waitStc with
        login := { s.login with ctsSem := s.login.ctsSem + 1 } }
    | .waitStc =>
      if s.login.stcSem = 0 then none
      else some { s.setClient c .readId with
        login := { s.login with stcSem := s.login.stcSem - 1 } }
    | .readId =>
      some (s.modifyClient c fun cl => { cl with
        pc := .openShm
        id := some (s.login.stoc.getD junk) })
    | .openShm =>
      match cl.id with
      | some (i + 1) =>
        if (s.users[i]?).any User.linked then
          some (s.modifyClient c fun cl => { cl with pc := .postSrv, shmBuf := some i })
        else none
      | _ => none
    | .postSrv =>
      some { s.setClient c .spawn with
        login := { s.login with srvSem := s.login.srvSem + 1 } }
    | pc => cl.shmBuf.bind fun i => mainLoop s c i pc

/-- The user of client `c` leaves the main loop with `pc`: a text and ENTER, or F3. -/
def input (s : State) (c : ℕ) (pc : ClientPc) : Option State :=
  match s.clients[c]? with
  | none => none
  | some cl => if cl.alive = true ∧ cl.pc = .main then some (s.setClient c pc) else none

/-- The user types `text` and presses ENTER. -/
def say (s : State) (c : ℕ) (text : Text) : Option State :=
  if 0 < text.length ∧ text.length ≤ maxInput then input s c (.writeComm text) else none

/-- The user presses F3, or types too much. -/
def pressF3 (s : State) (c : ℕ) : Option State := input s c .quit

/-- The next step of the `msg_handler` of client `c`.  `junk` is found where a text is read while
it is being written. -/
def msgHandler (s : State) (c : ℕ) (junk : Text) : Option State :=
  match s.clients[c]? with
  | none => none
  | some cl =>
    if cl.alive = false then none else
    cl.shmBuf.bind fun i =>
      match cl.handler with
      | .off => none
      | .poll =>
        if (s.shm i).stcSem = 0 then none
        else some ((s.modifyShm i fun m => { m with
          stcSem := m.stcSem - 1 }).setHandler c .readComm)
      | .readComm =>
        match (s.shm i).stoc.comm with
        | .msgSnd => some (s.setHandler c (.readMsg .msgSnd))
        | .updUsrlist => some (s.setHandler c (.readMsg .updUsrlist))
        | .disconnect => some (s.modifyClient c fun cl => { cl with alive := false })
        | .none | .setUsrname | .reqUsrlist => some (s.setHandler c .poll)
      | .readMsg comm =>
        some ((s.modifyShm i fun m => { m with
          shown := m.shown ++ [⟨comm, some (m.stoc.msg.getD junk)⟩] }).setHandler c .postSrv)
      | .postSrv =>
        some ((s.modifyShm i fun m => { m with srvSem := m.srvSem + 1 }).setHandler c .poll)

/-- A client before its login. -/
def newClient (login : Text) : Client where
  login := login
  pc := .lockUsr
  id := none
  shmBuf := none
  handler := .off
  alive := true

/-! ### Where a client has what -/

namespace ClientPc

/-- The main loop is not yet reached. -/
def loggingIn : ClientPc → Bool
  | .lockUsr | .writeName | .copyName | .postCts | .waitStc | .readId | .openShm | .postSrv => true
  | _ => false

/-- The id has been read. -/
def hasId : ClientPc → Bool
  | .lockUsr | .writeName | .copyName | .postCts | .waitStc | .readId => false
  | _ => true

/-- The user's memory is mapped. -/
def mapped : ClientPc → Bool
  | .openShm => false
  | pc => pc.hasId

end ClientPc

/-- A client has its id, its memory and its `msg_handler` from certain places on. -/
structure Client.Ok (cl : Client) : Prop where
  id : cl.pc.hasId = false → cl.id = none
  unmapped : cl.pc.mapped = false → cl.shmBuf = none
  mapped : cl.pc.mapped = true → ∃ i, cl.shmBuf = some i ∧ cl.id = some (i + 1)
  off : cl.pc.loggingIn = true ∨ cl.pc = .spawn → cl.handler = .off

namespace Client

theorem newClient_ok (login : Text) : (newClient login).Ok :=
  ⟨fun _ => rfl, fun _ => rfl, nofun, fun _ => rfl⟩

variable {cl : Client}

theorem Ok.move (h : cl.Ok) {pc : ClientPc} (hid : pc.hasId = cl.pc.hasId)
    (hmapped : pc.mapped = cl.pc.mapped)
    (hoff : pc.loggingIn = true ∨ pc = .spawn → cl.pc.loggingIn = true ∨ cl.pc = .spawn) :
    { cl with pc := pc }.Ok where
  id hpc := h.id (hid ▸ hpc)
  unmapped hpc := h.unmapped (hmapped ▸ hpc)
  mapped hpc := h.mapped (hmapped ▸ hpc)
  off hpc := h.off (hoff hpc)

theorem Ok.id_of_shmBuf (h : cl.Ok) {i : ℕ} (hi : cl.shmBuf = some i) : cl.id = some (i + 1) := by
  cases hpc : cl.pc.mapped with
  | false => cases (h.unmapped hpc).symm.trans hi
  | true =>
    obtain ⟨i', hi', hid⟩ := h.mapped hpc
    obtain rfl := Option.some.inj (hi.symm.trans hi')
    exact hid

theorem Ok.setHandler (h : cl.Ok) (hon : cl.handler ≠ .off) (pc : HandlerPc) :
    { cl with handler := pc }.Ok where
  id := h.id
  unmapped := h.unmapped
  mapped := h.mapped
  off hpc := absurd (h.off hpc) hon

theorem Ok.die (h : cl.Ok) : { cl with alive := false }.Ok := ⟨h.id, h.unmapped, h.mapped, h.off⟩

end Client

theorem ClientPc.mapped_of_main {pc : ClientPc} (h : pc.loggingIn = false) :
    pc.mapped = true ∧ pc.hasId = true := by
  cases pc <;> first | exact ⟨rfl, rfl⟩ | cases h

/-! ### What one step does -/

/-- What one step of client `c` before its main loop can do. -/
inductive LoginStep (s : State) (c junk : ℕ) (cl : Client) : State → Prop
  | lockUsr (hpc : cl.pc = .lockUsr) (husr : s.login.usrSem ≠ 0) :
      LoginStep s c junk cl { s.setClient c .writeName with
        login := { s.login with usrSem := s.login.usrSem - 1 } }
  | writeName (hpc : cl.pc = .writeName) :
      LoginStep s c junk cl
        { s.setClient c .copyName with login := { s.login with ctos := none } }
  | copyName (hpc : cl.pc = .copyName) :
      LoginStep s c junk cl { s.setClient c .postCts with
        login := { s.login with ctos := some (strncpy t3LoginMsgSize cl.login) } }
  | postCts (hpc : cl.pc = .postCts) :
      LoginStep s c junk cl { s.setClient c .waitStc with
        login := { s.login with ctsSem := s.login.ctsSem + 1 } }
  | waitStc (hpc : cl.pc = .waitStc) (hstc : s.login.stcSem ≠ 0) :
      LoginStep s c junk cl { s.setClient c .readId with
        login := { s.login with stcSem := s.login.stcSem - 1 } }
  | readId (hpc : cl.pc = .readId) :
      LoginStep s c junk cl (s.modifyClient c fun cl => { cl with
        pc := .openShm
        id := some (s.login.stoc.getD junk) })
  | openShm {i : ℕ} (hpc : cl.pc = .openShm) (hid : cl.id = some (i + 1))
      (hlinked : (s.users[i]?).any User.linked = true) :
      LoginStep s c junk cl
        (s.modifyClient c fun cl => { cl with pc := .postSrv, shmBuf := some i })
  | postSrv (hpc : cl.pc = .postSrv) :
      LoginStep s c junk cl { s.setClient c .spawn with
        login := { s.login with srvSem := s.login.srvSem + 1 } }

/-- A step of client `c` is one before its main loop, or one on the memory it has mapped. -/
theorem thirdTaskClient_step {s t : State} {c junk : ℕ} (h : thirdTaskClient s c junk = some t) :
    ∃ cl, s.clients[c]? = some cl ∧ cl.alive = true ∧ (LoginStep s c junk cl t ∨
      ∃ i, cl.shmBuf = some i ∧ cl.pc.loggingIn = false ∧ mainLoop s c i cl.pc = some t) := by
  unfold thirdTaskClient at h
  split at h
  · cases h
  · rename_i cl hcl
    split at h
    · cases h
    · refine ⟨cl, hcl, by simpa using ‹¬ cl.alive = false›, ?_⟩
      split at h <;> rename_i hpc
      · split at h
        · cases h
        · obtain rfl := Option.some.inj h
          exact .inl (.lockUsr hpc ‹_›)
      · obtain rfl := Option.some.inj h
        exact .inl (.writeName hpc)
      · obtain rfl := Option.some.inj h
        exact .inl (.copyName hpc)
      · obtain rfl := Option.some.inj h
        exact .inl (.postCts hpc)
      · split at h
        · cases h
        · obtain rfl := Option.some.inj h
          exact .inl (.waitStc hpc ‹_›)
      · obtain rfl := Option.some.inj h
        exact .inl (.readId hpc)
      · split at h
        · split at h
          · obtain rfl := Option.some.inj h
            exact .inl (.openShm hpc ‹_› ‹_›)
          · cases h
        · cases h
      · obtain rfl := Option.some.inj h
        exact .inl (.postSrv hpc)
      · obtain ⟨i, hi, hloop⟩ := Option.bind_eq_some_iff.1 h
        refine .inr ⟨i, hi, ?_, hloop⟩
        cases hcase : cl.pc <;> simp_all [ClientPc.loggingIn]

/-- The `stoc` half of a user's memory. -/
def Shm.stocHalf (m : Shm) : UsrMsg × ℕ × ℕ × List Command × List Command × ℕ :=
  (m.stoc, m.stcSem, m.srvSem, m.written, m.shown, m.joins)

/-- What the main loop can do to its client. -/
structure MainMove (cl cl' : Client) : Prop where
  login : cl'.login = cl.login
  id : cl'.id = cl.id
  shmBuf : cl'.shmBuf = cl.shmBuf
  pc : cl'.pc.loggingIn = false ∧ cl'.pc ≠ .spawn
  handler : cl'.handler = if cl.pc = .spawn then .poll else cl.handler
  alive : cl'.alive = true → cl.alive = true

theorem MainMove.move {cl : Client} {pc : ClientPc} (hspawn : cl.pc ≠ .spawn)
    (hpc : pc.loggingIn = false ∧ pc ≠ .spawn) : MainMove cl { cl with pc := pc } :=
  ⟨rfl, rfl, rfl, hpc, (if_neg hspawn).symm, fun h => h⟩

theorem MainMove.ok {cl cl' : Client} (h : MainMove cl cl') (hpc : cl.pc.loggingIn = false)
    (hok : cl.Ok) : cl'.Ok := by
  obtain ⟨hmapped, hid⟩ := ClientPc.mapped_of_main h.pc.1
  constructor
  case id => simp [hid]
  case unmapped => simp [hmapped]
  case mapped =>
    rw [h.shmBuf, h.id]
    exact fun _ => hok.mapped (ClientPc.mapped_of_main hpc).1
  case off => simp [h.pc]

/-- The main loop changes the `ctos` half of the memory that client `c` has mapped, and its own
place; it sends messages and the disconnect command. -/
theorem mainLoop_frame {s t : State} {c i : ℕ} {pc : ClientPc} (h : mainLoop s c i pc = some t) :
    ∃ (m : Shm) (f : Client → Client),
      t = { s with shm := Function.update s.shm i m, clients := s.clients.modify c f } ∧
      m.stocHalf = (s.shm i).stocHalf ∧
      (m.ctos.comm = (s.shm i).ctos.comm ∨ m.ctos.comm = .msgSnd ∨ m.ctos.comm = .disconnect) ∧
      ∀ cl, cl.pc = pc → MainMove cl (f cl) := by
  cases pc with
  | spawn =>
    obtain rfl := Option.some.inj h
    refine ⟨s.shm i, _, by rw [Function.update_eq_self]; rfl, rfl, .inl rfl, fun cl hpc => ?_⟩
    exact ⟨rfl, rfl, rfl, ⟨rfl, nofun⟩, (if_pos hpc).symm, fun h => h⟩
  | cancel =>
    obtain rfl := Option.some.inj h
    refine ⟨s.shm i, _, by rw [Function.update_eq_self]; rfl, rfl, .inl rfl, fun cl hpc => ?_⟩
    exact ⟨rfl, rfl, rfl, by simp [hpc, ClientPc.loggingIn], by simp [hpc], nofun⟩
  | waitUsr =>
    simp only [mainLoop] at h
    split at h
    · cases h
    · obtain rfl := Option.some.inj h
      exact ⟨_, _, rfl, rfl, .inl rfl, fun cl hpc => .move (by simp [hpc]) ⟨rfl, nofun⟩⟩
  | writeComm | quit =>
    obtain rfl := Option.some.inj h
    exact ⟨_, _, rfl, rfl, .inr (by simp), fun cl hpc => .move (by simp [hpc]) ⟨rfl, nofun⟩⟩
  | writeMsg | copyMsg | post | postQuit =>
    obtain rfl := Option.some.inj h
    exact ⟨_, _, rfl, rfl, .inl rfl, fun cl hpc => .move (by simp [hpc]) ⟨rfl, nofun⟩⟩
  | _ => cases h

/-- What one step of the `msg_handler` of client `c` can do; `i` is the user whose memory the client
has mapped. -/
inductive HandlerStep (s : State) (c i : ℕ) (junk : Text) (cl : Client) : State → Prop
  | take (hpc : cl.handler = .poll) (hstc : (s.shm i).stcSem ≠ 0) :
      HandlerStep s c i junk cl
        ((s.modifyShm i fun m => { m with stcSem := m.stcSem - 1 }).setHandler c .readComm)
  | readComm (hpc : cl.handler = .readComm)
      (hcomm : (s.shm i).stoc.comm = .msgSnd ∨ (s.shm i).stoc.comm = .updUsrlist) :
      HandlerStep s c i junk cl (s.setHandler c (.readMsg (s.shm i).stoc.comm))
  | quit (hpc : cl.handler = .readComm) (hcomm : (s.shm i).stoc.comm = .disconnect) :
      HandlerStep s c i junk cl (s.modifyClient c fun cl => { cl with alive := false })
  | ignore (hpc : cl.handler = .readComm)
      (hcomm : (s.shm i).stoc.comm ≠ .msgSnd ∧ (s.shm i).stoc.comm ≠ .updUsrlist) :
      HandlerStep s c i junk cl (s.setHandler c .poll)
  | readMsg {comm : Comm} (hpc : cl.handler = .readMsg comm) :
      HandlerStep s c i junk cl
        ((s.modifyShm i fun m => { m with
          shown := m.shown ++ [⟨comm, some (m.stoc.msg.getD junk)⟩] }).setHandler c .postSrv)
  | postSrv (hpc : cl.handler = .postSrv) :
      HandlerStep s c i junk cl
        ((s.modifyShm i fun m => { m with srvSem := m.srvSem + 1 }).setHandler c .poll)

/-- A `msg_handler` changes the memory that the client has mapped, and keeps that. -/
theorem HandlerStep.frame {s t : State} {c i : ℕ} {junk : Text} {cl : Client}
    (h : HandlerStep s c i junk cl t) : ∃ (m : Shm) (f : Client → Client),
      t = { s with shm := Function.update s.shm i m, clients := s.clients.modify c f } ∧
      ∀ cl, (f cl).shmBuf = cl.shmBuf := by
  cases h with
  | readComm | quit | ignore =>
    refine ⟨s.shm i, _, by rw [Function.update_eq_self]; rfl, ?_⟩
    exact fun _ => rfl
  | take | readMsg | postSrv =>
    refine ⟨_, _, rfl, ?_⟩
    exact fun _ => rfl

theorem msgHandler_step {s t : State} {c : ℕ} {junk : Text} (h : msgHandler s c junk = some t) :
    ∃ cl, s.clients[c]? = some cl ∧ cl.alive = true ∧
      ∃ i, cl.shmBuf = some i ∧ HandlerStep s c i junk cl t := by
  unfold msgHandler at h
  split at h
  · cases h
  · rename_i cl hcl
    split at h
    · cases h
    · obtain ⟨i, hi, h⟩ := Option.bind_eq_some_iff.1 h
      refine ⟨cl, hcl, by simpa using ‹¬ cl.alive = false›, i, hi, ?_⟩
      split at h <;> rename_i hpc
      · cases h
      · split at h
        · cases h
        · obtain rfl := Option.some.inj h
          exact .take hpc ‹_›
      · split at h <;> rename_i hcomm <;> obtain rfl := Option.some.inj h
        · exact hcomm ▸ .readComm hpc (.inl hcomm)
        · exact hcomm ▸ .readComm hpc (.inr hcomm)
        · exact .quit hpc hcomm
        · exact .ignore hpc (by simp [hcomm])
        · exact .ignore hpc (by simp [hcomm])
        · exact .ignore hpc (by simp [hcomm])
      · obtain rfl := Option.some.inj h
        exact .readMsg hpc
      · obtain rfl := Option.some.inj h
        exact .postSrv hpc

end EmbeddedC.SharedChat
