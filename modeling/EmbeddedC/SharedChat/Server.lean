import EmbeddedC.SharedChat.Memory

/-!
# Homework 13: `third_task_server`

The server's main loop looks for a login request and registers the new user, and then looks at
every connected user for a command.

* `thirdTaskServer`: one access of the server to the shared memory, or one call, with the code up
  to the next one;
* `serverTimeout`: a `sem_timedwait` that times out; after a login that has, the clients can still
  step before the server removes the new user;
* `ServerStep`, `TimeoutStep`: what one step can do.

`users` is a sequence that grows with every registration, and the user list a text of any
length; where `realloc` puts the first and how much room there is for the second is not the
subject here.  `exit` ends the run.
-/

namespace EmbeddedC.SharedChat

open Chatroom (Text snprintf)

/-- What `strncpy` copies into a buffer of `size` bytes. -/
def strncpy (size : ℕ) (text : Text) : Text := text.take size

/-- The entry of a user who is being registered. -/
def newUser (id : ℕ) (login : Text) : User where
  id := id
  login := strncpy t3LoginMsgSize login
  linked := true

/-- The line of a user in the user list. -/
def userLine (login : Text) : Text :=
  snprintf t3UserMsgSize ('<' :: login ++ ['>', '\n'])

/-- The user list, built anew from the connected users. -/
def renderUsers (users : List User) : Text :=
  users.flatMap fun u => if u.id = -1 then [] else userLine u.login

/-- The message that relays the text of the user with name `login`. -/
def chatText (login text : Text) : Text := snprintf t3UserMsgSize (login ++ ": ".toList ++ text)

namespace Send

/-- The command that is sent. -/
def comm : Send → Comm
  | .said _ => .msgSnd
  | .joined | .renamed _ | .requested _ | .left _ => .updUsrlist

/-- Where the server goes after the last command. -/
def after : Send → ServerPc
  | .joined => .postUsr
  | .said index | .renamed index | .requested index | .left index => .pass (index + 1)

/-- Where the server goes after the command to the user at `k`. -/
def next (send : Send) (k : ℕ) : ServerPc :=
  match send with
  | .requested index => .pass (index + 1)
  | _ => .head send (k + 1)

end Send

/-- The text that is sent. -/
def State.text (s : State) : Send → Text
  | .said _ => strncpy t3UserMsgSize s.tmpBuf
  | .joined | .renamed _ | .requested _ | .left _ => strncpy t3UserMsgSize s.usersList

/-- The login of the user at `i`. -/
def State.loginOf (s : State) (i : ℕ) : Text := (s.users[i]?).elim [] User.login

/-- The server's next step; `none` while it blocks.  `junk` is found where a text is read while
it is being written. -/
def thirdTaskServer (s : State) (junk : Text) : Option State :=
  match s.server with
  | .tryLogin =>
    if s.login.ctsSem = 0 then some { s with server := .pass 0 }
    else some { s with
      server := .register
      login := { s.login with ctsSem := s.login.ctsSem - 1 } }
  | .register =>
    some { s with
      server := .writeId
      users := s.users ++ [newUser (s.users.length + 1) (s.login.ctos.getD junk)]
      activeUsers := s.activeUsers + 1 }
  | .writeId => some { s with server := .copyId, login := { s.login with stoc := none } }
  | .copyId =>
    some { s with server := .postStc, login := { s.login with stoc := some s.users.length } }
  | .postStc =>
    some { s with
      server := .waitLogin
      login := { s.login with stcSem := s.login.stcSem + 1 } }
  | .waitLogin =>
    if s.login.srvSem = 0 then none
    else some { s with
      server := .head .joined 0
      usersList := s.usersList ++ userLine (s.loginOf (s.users.length - 1))
      login := { s.login with srvSem := s.login.srvSem - 1 } }
  | .unlink =>
    some { s with
      server := .postUsr
      users := s.users.modify (s.users.length - 1) fun u => { u with id := -1, linked := false }
      timedOut := s.timedOut + 1 }
  | .head send k =>
    if k < s.users.length then
      some { s with server := if s.connected k then .writeComm send k else .head send (k + 1) }
    else some { s with server := send.after }
  | .writeComm send k =>
    some { s.modifyShm k fun m => { m with stoc := { m.stoc with comm := send.comm } } with
      server := .writeMsg send k }
  | .writeMsg send k =>
    some { s.modifyShm k fun m => { m with stoc := { m.stoc with msg := none } } with
      server := .copyMsg send k }
  | .copyMsg send k =>
    some { s.modifyShm k fun m => { m with stoc := { m.stoc with msg := some (s.text send) } } with
      server := .post send k }
  | .post send k =>
    -- the registration branch does not wait
    if send = .joined then
      some { s.modifyShm k fun m => { m with
          stcSem := m.stcSem + 1
          joins := m.joins + 1
          written := m.written ++ [⟨send.comm, some (s.text send)⟩] } with
        server := send.next k }
    else
      some { s.modifyShm k fun m => { m with
          stcSem := m.stcSem + 1
          written := m.written ++ [⟨send.comm, some (s.text send)⟩] } with
        server := .wait send k }
  | .wait send k =>
    if (s.shm k).srvSem = 0 then none
    else
      some { s.modifyShm k fun m => { m with srvSem := m.srvSem - 1 } with server := send.next k }
  | .postUsr =>
    some { s with
      server := .pass 0
      login := { s.login with usrSem := s.login.usrSem + 1 } }
  | .pass index =>
    if index < s.users.length then
      if s.connected index = true ∧ (s.shm index).ctsSem ≠ 0 then
        some { s.modifyShm index fun m => { m with ctsSem := m.ctsSem - 1 } with
          server := .readComm index }
      else some { s with server := .pass (index + 1) }
    else some { s with server := .tryLogin }
  | .readComm index =>
    let take (pc : ServerPc) : State :=
      { s.modifyShm index fun m => { m with
          handled := m.handled ++ [⟨m.ctos.comm, none⟩] } with
        server := pc }
    match (s.shm index).ctos.comm with
    | .msgSnd => some { s with server := .readMsg index }
    | .setUsrname => some { s with server := .rename index }
    | .reqUsrlist => some (take (.writeComm (.requested index) index))
    | .disconnect => some (take (.drop index))
    | .none | .updUsrlist => some (take (.pass (index + 1)))
  | .readMsg index =>
    let text := (s.shm index).ctos.msg.getD junk
    some { s.modifyShm index fun m => { m with handled := m.handled ++ [⟨.msgSnd, some text⟩] } with
      server := .answer index
      tmpBuf := chatText (s.loginOf index) text }
  | .answer index =>
    some { s.modifyShm index fun m => { m with usrSem := m.usrSem + 1 } with
      server := .head (.said index) 0 }
  | .rename index =>
    let text := (s.shm index).ctos.msg.getD junk
    let users := s.users.modify index fun u => { u with login := strncpy t3LoginMsgSize text }
    some { s.modifyShm index fun m => { m with
        handled := m.handled ++ [⟨.setUsrname, some text⟩] } with
      server := .head (.renamed index) 0
      users := users
      usersList := renderUsers users }
  | .drop index =>
    let users := s.users.modify index fun u => { u with id := -1, linked := false }
    if s.activeUsers - 1 ≤ 0 then
      some { s with server := .exited, users := users, activeUsers := s.activeUsers - 1 }
    else
      some { s with
        server := .head (.left index) 0
        users := users
        activeUsers := s.activeUsers - 1
        usersList := renderUsers users }
  | .exited => none

/-- A `sem_timedwait` of the server times out. -/
def serverTimeout (s : State) : Option State :=
  match s.server with
  | .waitLogin => if s.login.srvSem = 0 then some { s with server := .unlink } else none
  | .wait send k => if (s.shm k).srvSem = 0 then some { s with server := send.next k } else none
  | _ => none

/-! ### What one step does -/

/-- The places between which the server moves without a change to anything else. -/
inductive ServerPc.Moves : ServerPc → ServerPc → Prop
  | noLogin : Moves .tryLogin (.pass 0)
  | skip (send : Send) (k : ℕ) : Moves (.head send k) (.head send (k + 1))
  | enter (send : Send) (k : ℕ) : Moves (.head send k) (.writeComm send k)
  | leave (send : Send) (k : ℕ) : Moves (.head send k) send.after
  | passBy (index : ℕ) : Moves (.pass index) (.pass (index + 1))
  | passEnd (index : ℕ) : Moves (.pass index) .tryLogin

/-- What one step of the server can do. -/
inductive ServerStep (s : State) (junk : Text) : State → Prop
  | move {pc pc' : ServerPc} (hpc : s.server = pc) (hmoves : pc.Moves pc') :
      ServerStep s junk { s with server := pc' }
  | login (hpc : s.server = .tryLogin) (hcts : s.login.ctsSem ≠ 0) :
      ServerStep s junk { s with
        server := .register
        login := { s.login with ctsSem := s.login.ctsSem - 1 } }
  | register (hpc : s.server = .register) :
      ServerStep s junk { s with
        server := .writeId
        users := s.users ++ [newUser (s.users.length + 1) (s.login.ctos.getD junk)]
        activeUsers := s.activeUsers + 1 }
  | writeId (hpc : s.server = .writeId) :
      ServerStep s junk { s with server := .copyId, login := { s.login with stoc := none } }
  | copyId (hpc : s.server = .copyId) :
      ServerStep s junk
        { s with server := .postStc, login := { s.login with stoc := some s.users.length } }
  | postStc (hpc : s.server = .postStc) :
      ServerStep s junk { s with
        server := .waitLogin
        login := { s.login with stcSem := s.login.stcSem + 1 } }
  | loggedIn (hpc : s.server = .waitLogin) (hsrv : s.login.srvSem ≠ 0) :
      ServerStep s junk { s with
        server := .head .joined 0
        usersList := s.usersList ++ userLine (s.loginOf (s.users.length - 1))
        login := { s.login with srvSem := s.login.srvSem - 1 } }
  | unlink (hpc : s.server = .unlink) :
      ServerStep s junk { s with
        server := .postUsr
        users := s.users.modify (s.users.length - 1) fun u => { u with id := -1, linked := false }
        timedOut := s.timedOut + 1 }
  | writeComm {send : Send} {k : ℕ} (hpc : s.server = .writeComm send k) :
      ServerStep s junk
        { s.modifyShm k fun m => { m with stoc := { m.stoc with comm := send.comm } } with
          server := .writeMsg send k }
  | writeMsg {send : Send} {k : ℕ} (hpc : s.server = .writeMsg send k) :
      ServerStep s junk
        { s.modifyShm k fun m => { m with stoc := { m.stoc with msg := none } } with
          server := .copyMsg send k }
  | copyMsg {send : Send} {k : ℕ} (hpc : s.server = .copyMsg send k) :
      ServerStep s junk
        { s.modifyShm k fun m => { m with stoc := { m.stoc with msg := some (s.text send) } } with
          server := .post send k }
  | postJoined {k : ℕ} (hpc : s.server = .post .joined k) :
      ServerStep s junk
        { s.modifyShm k fun m => { m with
            stcSem := m.stcSem + 1
            joins := m.joins + 1
            written := m.written ++ [⟨.updUsrlist, some (s.text .joined)⟩] } with
          server := .head .joined (k + 1) }
  | post {send : Send} {k : ℕ} (hpc : s.server = .post send k) (hsend : send ≠ .joined) :
      ServerStep s junk
        { s.modifyShm k fun m => { m with
            stcSem := m.stcSem + 1
            written := m.written ++ [⟨send.comm, some (s.text send)⟩] } with
          server := .wait send k }
  | resume {send : Send} {k : ℕ} (hpc : s.server = .wait send k) (hsrv : (s.shm k).srvSem ≠ 0) :
      ServerStep s junk
        { s.modifyShm k fun m => { m with srvSem := m.srvSem - 1 } with server := send.next k }
  | postUsr (hpc : s.server = .postUsr) :
      ServerStep s junk { s with
        server := .pass 0
        login := { s.login with usrSem := s.login.usrSem + 1 } }
  | take {index : ℕ} (hpc : s.server = .pass index) (hindex : index < s.users.length)
      (hconnected : s.connected index = true) (hcts : (s.shm index).ctsSem ≠ 0) :
      ServerStep s junk
        { s.modifyShm index fun m => { m with ctsSem := m.ctsSem - 1 } with
          server := .readComm index }
  | message {index : ℕ} (hpc : s.server = .readComm index)
      (hcomm : (s.shm index).ctos.comm = .msgSnd) :
      ServerStep s junk { s with server := .readMsg index }
  | newName {index : ℕ} (hpc : s.server = .readComm index)
      (hcomm : (s.shm index).ctos.comm = .setUsrname) :
      ServerStep s junk { s with server := .rename index }
  /-- a command without a text -/
  | plain {index : ℕ} {pc : ServerPc} (hpc : s.server = .readComm index)
      (hnext : match (s.shm index).ctos.comm with
        | .reqUsrlist => pc = .writeComm (.requested index) index
        | .disconnect => pc = .drop index
        | .none | .updUsrlist => pc = .pass (index + 1)
        | .msgSnd | .setUsrname => False) :
      ServerStep s junk
        { s.modifyShm index fun m => { m with
            handled := m.handled ++ [⟨m.ctos.comm, none⟩] } with
          server := pc }
  | readMsg {index : ℕ} (hpc : s.server = .readMsg index) :
      ServerStep s junk
        { s.modifyShm index fun m => { m with
            handled := m.handled ++ [⟨.msgSnd, some (m.ctos.msg.getD junk)⟩] } with
          server := .answer index
          tmpBuf := chatText (s.loginOf index) ((s.shm index).ctos.msg.getD junk) }
  | answer {index : ℕ} (hpc : s.server = .answer index) :
      ServerStep s junk
        { s.modifyShm index fun m => { m with usrSem := m.usrSem + 1 } with
          server := .head (.said index) 0 }
  | rename {index : ℕ} {login list : Text} (hpc : s.server = .rename index) :
      ServerStep s junk
        { s.modifyShm index fun m => { m with
            handled := m.handled ++ [⟨.setUsrname, some (m.ctos.msg.getD junk)⟩] } with
          server := .head (.renamed index) 0
          users := s.users.modify index fun u => { u with login := login }
          usersList := list }
  | drop {index : ℕ} {pc : ServerPc} {list : Text} (hpc : s.server = .drop index)
      (hnext : if s.activeUsers - 1 ≤ 0 then pc = .exited else pc = .head (.left index) 0) :
      ServerStep s junk { s with
        server := pc
        users := s.users.modify index fun u => { u with id := -1, linked := false }
        activeUsers := s.activeUsers - 1
        usersList := list }

theorem thirdTaskServer_step {s t : State} {junk : Text} (h : thirdTaskServer s junk = some t) :
    ServerStep s junk t := by
  unfold thirdTaskServer at h
  split at h <;> rename_i hpc
  · split at h <;> obtain rfl := Option.some.inj h
    · exact .move hpc .noLogin
    · exact .login hpc ‹_›
  · obtain rfl := Option.some.inj h
    exact .register hpc
  · obtain rfl := Option.some.inj h
    exact .writeId hpc
  · obtain rfl := Option.some.inj h
    exact .copyId hpc
  · obtain rfl := Option.some.inj h
    exact .postStc hpc
  · split at h
    · cases h
    · obtain rfl := Option.some.inj h
      exact .loggedIn hpc ‹_›
  · obtain rfl := Option.some.inj h
    exact .unlink hpc
  · split at h <;> obtain rfl := Option.some.inj h
    · split
      · exact .move hpc (.enter _ _)
      · exact .move hpc (.skip _ _)
    · exact .move hpc (.leave _ _)
  · obtain rfl := Option.some.inj h
    exact .writeComm hpc
  · obtain rfl := Option.some.inj h
    exact .writeMsg hpc
  · obtain rfl := Option.some.inj h
    exact .copyMsg hpc
  · split at h <;> obtain rfl := Option.some.inj h
    · rename_i hsend
      subst hsend
      exact .postJoined hpc
    · exact .post hpc ‹_›
  · split at h
    · cases h
    · obtain rfl := Option.some.inj h
      exact .resume hpc ‹_›
  · obtain rfl := Option.some.inj h
    exact .postUsr hpc
  · split at h
    · split at h <;> obtain rfl := Option.some.inj h
      · rename_i hindex hcond
        exact .take hpc hindex hcond.1 hcond.2
      · exact .move hpc (.passBy _)
    · obtain rfl := Option.some.inj h
      exact .move hpc (.passEnd _)
  · split at h <;> rename_i hcomm <;> obtain rfl := Option.some.inj h
    · exact .message hpc hcomm
    · exact .newName hpc hcomm
    · exact .plain hpc (by rw [hcomm])
    · exact .plain hpc (by rw [hcomm])
    · exact .plain hpc (by rw [hcomm])
    · exact .plain hpc (by rw [hcomm])
  · obtain rfl := Option.some.inj h
    exact .readMsg hpc
  · obtain rfl := Option.some.inj h
    exact .answer hpc
  · obtain rfl := Option.some.inj h
    exact .rename hpc
  · split at h <;> obtain rfl := Option.some.inj h
    · exact .drop hpc (by rw [if_pos ‹_›])
    · exact .drop hpc (by rw [if_neg ‹_›])
  · cases h

/-- The step in which the server removes the user of a login that has timed out. -/
theorem ServerStep.of_unlink {s t : State} {junk : Text} (h : ServerStep s junk t)
    (hpc : s.server = .unlink) : t = { s with
      server := .postUsr
      users := s.users.modify (s.users.length - 1) fun u => { u with id := -1, linked := false }
      timedOut := s.timedOut + 1 } := by
  cases h with
  | unlink => rfl
  | move hpc' hmoves =>
    cases hpc.symm.trans hpc'
    cases hmoves
  | _ => cases hpc.symm.trans ‹s.server = _›

/-- What a wait of the server that times out can do. -/
inductive TimeoutStep (s : State) : State → Prop
  | login (hpc : s.server = .waitLogin) (hsrv : s.login.srvSem = 0) :
      TimeoutStep s { s with server := .unlink }
  | reply {send : Send} {k : ℕ} (hpc : s.server = .wait send k) (hsrv : (s.shm k).srvSem = 0) :
      TimeoutStep s { s with server := send.next k }

theorem serverTimeout_step {s t : State} (h : serverTimeout s = some t) : TimeoutStep s t := by
  unfold serverTimeout at h
  split at h <;> rename_i hpc
  · split at h
    · obtain rfl := Option.some.inj h
      exact .login hpc ‹_›
    · cases h
  · split at h
    · obtain rfl := Option.some.inj h
      exact .reply hpc ‹_›
    · cases h
  · cases h

end EmbeddedC.SharedChat
