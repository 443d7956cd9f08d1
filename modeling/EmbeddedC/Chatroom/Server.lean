import EmbeddedC.Chatroom.Channels

/-!
# Homework 12: `third_task_server`

The server's main loop reads one message of the login queue and then one message of every
connected user.  A login request registers a new user; what a user sends is a chat message, a
new name, a request for the user list, or a disconnect command.

* `Server`, `ServerPc`: the server's variables, and the call it is about to make;
* `thirdTaskServer`: one call with the code up to the next one;
* `ServerStep`: what one step can do.

`users` is a sequence that grows with every registration, and the user list a text of any
length; where `realloc` puts the first and how much room there is for the second is not the
subject here.  A failing call, like `SIGINT`, leads to `exitServer`.
-/

namespace EmbeddedC.Chatroom

/-- `struct user_t` on the server's side. -/
structure User where
  id : ℤ
  login : Text
  stcCh : Text
  ctsCh : Text
  deriving DecidableEq

/-- `T3_STOC_CH_NAME` with an id -/
def t3StocChName (id : ℕ) : Text := "/hw12_client".toList ++ decimal id ++ "_stoc".toList

/-- `T3_CTOS_CH_NAME` with an id -/
def t3CtosChName (id : ℕ) : Text := "/hw12_client".toList ++ decimal id ++ "_ctos".toList

/-- The entry of a user who has just been registered. -/
def newUser (id : ℕ) : User where
  id := id
  login := snprintf t3LoginQMsgSize ("user".toList ++ decimal id)
  stcCh := snprintf t3LoginQMsgSize (t3StocChName id)
  ctsCh := snprintf t3LoginQMsgSize (t3CtosChName id)

/-- The server's next call. -/
inductive ServerPc
  /-- `mq_receive(login_q)` -/
  | login
  /-- `mq_send(login_q)` of a reply that is not for the server -/
  | resend (text : Text)
  /-- `mq_send(login_q)` of the reply to the request just registered -/
  | reply (id : ℕ)
  /-- `mq_send` of `m` to the user at `next`; `rcpts` are the users connected when the loop
  began, and the pass goes on at index `after` -/
  | broadcast (m : Msg) (next : ℕ) (rcpts : List ℕ) (after : ℕ)
  /-- `mq_send` of the user list to the user at `index` who asked for it -/
  | answer (index : ℕ)
  /-- `mq_receive(users[index].rcv_q)` -/
  | pass (index : ℕ)
  /-- in `shutdown_server`, at the user at `index` -/
  | shutdown (index : ℕ)
  | exited
  deriving DecidableEq

/-- The server's variables, and three histories: the chat messages dequeued, with their senders;
the number of user lists broadcast; and for each completed broadcast its recipients. -/
structure Server where
  pc : ServerPc
  users : List User
  usersList : Text
  index : ℕ
  activeUsers : ℤ
  handled : List (ℕ × Text)
  lists : ℕ
  bcasts : List (Origin × List ℕ)

/-- The chat messages of id `k` that the server has dequeued. -/
def Server.handledBy (v : Server) (k : ℕ) : List Text :=
  (v.handled.filter fun h => h.1 = k).map Prod.snd

/-- The server before its main loop; `index` has not been assigned. -/
def Server.initial (index : ℕ) : Server where
  pc := .login
  users := []
  usersList := []
  index := index
  activeUsers := 0
  handled := []
  lists := 0
  bcasts := []

/-- The server has not left its main loop. -/
def ServerPc.running : ServerPc → Bool
  | .shutdown _ | .exited => false
  | _ => true

/-- The ids of the connected users. -/
def connectedIds (users : List User) : List ℕ :=
  ((List.range users.length).filter fun i => (users[i]?).any fun u => u.id ≠ -1).map (· + 1)

/-- The line of a user in the user list. -/
def userLine (login : Text) : Text :=
  snprintf t3UserQMsgSize ('<' :: login ++ ['>', '\n'])

/-- The user list, built anew from the connected users. -/
def renderUsers (users : List User) : Text :=
  users.flatMap fun u => if u.id = -1 then [] else userLine u.login

/-- The message that carries the user list. -/
def listMsg (v : Server) (origin : Origin) : Msg :=
  ⟨t3UpdUsrlistPrio, v.usersList.take t3UserQMsgSize, origin⟩

/-- The message that relays the text of the user with name `login`. -/
def chatMsg (login text : Text) (i : ℕ) : Msg :=
  ⟨t3MsgsndPrio, snprintf t3UserQMsgSize (login ++ ": ".toList ++ text), .chat i⟩

/-- Begin to send the user list to every connected user. -/
def startList (v : Server) (after : ℕ) : Server :=
  { v with
    pc := .broadcast (listMsg v (.userList v.lists)) 0 (connectedIds v.users) after
    lists := v.lists + 1 }

/-- `exit`: `shutdown_server` first removes the login queue. -/
def exitServer (K : Kernel) (v : Server) : Kernel × Server :=
  ({ K with loginLinked := false }, { v with pc := .shutdown 0 })

/-- Read the login queue. -/
def readLogin (K : Kernel) (v : Server) : Kernel × Server :=
  match MessageQueue.receive LoginMsg.prio K.loginQ with
  | none => (K, { v with pc := .pass 0 })
  | some (m, q) =>
    if m.prio = t3ServerPrio then
      ({ K with loginQ := q }, { v with pc := .resend m.text })
    else if m.prio = t3UserPrio then
      let id := v.users.length + 1
      (Kernel.modify { K with loginQ := q } id fun _ => Chan.fresh true,
        { v with
          pc := .reply id
          users := v.users ++ [newUser id]
          activeUsers := v.activeUsers + 1 })
    else ({ K with loginQ := q }, { v with pc := .pass 0 })

/-- Send the reply and append to the user list.  The line appended is that of `users[index]`,
with the value `index` happens to have; `junk` is what is found there outside of the table. -/
def reply (junk : Text) (K : Kernel) (v : Server) (id : ℕ) : Kernel × Server :=
  let login := ((v.users[v.index]?).map User.login).getD junk
  (K.loginSend ⟨t3ServerPrio, decimal id⟩,
    startList { v with usersList := v.usersList ++ userLine login } 0)

/-- One round of a loop that sends `m` to every connected user. -/
def sendBroadcast (K : Kernel) (v : Server) (m : Msg) (next : ℕ) (rcpts : List ℕ) (after : ℕ) :
    Kernel × Server :=
  match v.users[next]? with
  | none => (K, { v with pc := .pass after, bcasts := v.bcasts ++ [(m.origin, rcpts)] })
  | some u =>
    if u.id = -1 then (K, { v with pc := .broadcast m (next + 1) rcpts after })
    else (K.modify (next + 1) (·.sendStoc m), { v with pc := .broadcast m (next + 1) rcpts after })

/-- One round of the loop that reads the users' queues. -/
def readUser (K : Kernel) (v : Server) (index : ℕ) : Kernel × Server :=
  match v.users[index]? with
  | none => (K, { v with pc := .login, index := index })
  | some u =>
    if u.id = -1 then (K, { v with pc := .pass (index + 1) })
    else match (K.chan (index + 1)).recvCtos with
      | none => (K, { v with pc := .pass (index + 1) })
      | some (m, c) =>
        if m.prio = t3UserPrio then
          (K.modify (index + 1) fun _ => c, { v with
            pc := .broadcast (chatMsg u.login m.text v.handled.length) 0
              (connectedIds v.users) (index + 1)
            handled := v.handled ++ [(index + 1, m.text)] })
        else if m.prio = t3SetUsrnamePrio then
          let users := v.users.set index { u with login := snprintf t3LoginQMsgSize m.text }
          (K.modify (index + 1) fun _ => c,
            startList { v with users := users, usersList := renderUsers users } (index + 1))
        else if m.prio = t3ReqUsrlistPrio then
          (K.modify (index + 1) fun _ => c, { v with pc := .answer index })
        else if m.prio = t3DisconnectPrio then
          let K := K.modify (index + 1) fun _ => { c with linked := false }
          let users := v.users.set index { u with id := -1 }
          let v := { v with users := users, activeUsers := v.activeUsers - 1 }
          -- the last user has left
          if v.activeUsers ≤ 0 then exitServer K v
          else (K, startList { v with usersList := renderUsers users } (index + 1))
        else (K.modify (index + 1) fun _ => c, { v with pc := .pass (index + 1) })

/-- One round of the loop in `shutdown_server`. -/
def shutdownServer (K : Kernel) (v : Server) (index : ℕ) : Kernel × Server :=
  if v.activeUsers = 0 then (K, { v with pc := .exited })
  else match v.users[index]? with
    | none => (K, { v with pc := .exited })
    | some u =>
      if u.id = -1 then (K, { v with pc := .shutdown (index + 1) })
      else (K.modify (index + 1) fun c =>
          { c.sendStoc ⟨t3DisconnectPrio, ['0'], .direct⟩ with linked := false },
        { v with pc := .shutdown (index + 1) })

/-- The next step of the server: it never blocks. -/
def thirdTaskServer (junk : Text) (K : Kernel) (v : Server) : Option (Kernel × Server) :=
  match v.pc with
  | .login => some (readLogin K v)
  | .resend text => some (K.loginSend ⟨t3ServerPrio, text⟩, { v with pc := .pass 0 })
  | .reply id => some (reply junk K v id)
  | .broadcast m next rcpts after => some (sendBroadcast K v m next rcpts after)
  | .answer index => some (K.modify (index + 1) (·.sendStoc (listMsg v .direct)),
      { v with pc := .pass (index + 1) })
  | .pass index => some (readUser K v index)
  | .shutdown index => some (shutdownServer K v index)
  | .exited => none

/-! ### What one step does -/

/-- Between two messages. -/
def ServerPc.idle : ServerPc → Bool
  | .login | .pass _ => true
  | _ => false

/-- What one step of the server can do to the queues and its variables. -/
inductive ServerStep (K : Kernel) (v : Server) : Kernel → Server → Prop
  /-- nothing to read, or the end of a loop -/
  | idle {pc : ServerPc} {index : ℕ} (hpc : v.pc.idle = true) (hpc' : pc.idle = true) :
      ServerStep K v K { v with pc := pc, index := index }
  | takeReply {text : Text} {q : List LoginMsg} (hpc : v.pc = .login)
      (hq : MessageQueue.receive LoginMsg.prio K.loginQ = some (⟨t3ServerPrio, text⟩, q)) :
      ServerStep K v { K with loginQ := q } { v with pc := .resend text }
  | register {text : Text} {q : List LoginMsg} (hpc : v.pc = .login)
      (hq : MessageQueue.receive LoginMsg.prio K.loginQ = some (⟨t3UserPrio, text⟩, q)) :
      ServerStep K v
        (Kernel.modify { K with loginQ := q } (v.users.length + 1) fun _ => Chan.fresh true)
        { v with
          pc := .reply (v.users.length + 1)
          users := v.users ++ [newUser (v.users.length + 1)]
          activeUsers := v.activeUsers + 1 }
  | takeOther {m : LoginMsg} {q : List LoginMsg} (hpc : v.pc = .login)
      (hq : MessageQueue.receive LoginMsg.prio K.loginQ = some (m, q))
      (hprio : m.prio ≠ t3ServerPrio) :
      ServerStep K v { K with loginQ := q } { v with pc := .pass 0 }
  | resend {text : Text} (hpc : v.pc = .resend text) :
      ServerStep K v (K.loginSend ⟨t3ServerPrio, text⟩) { v with pc := .pass 0 }
  | reply {id : ℕ} {list : Text} (hpc : v.pc = .reply id) :
      ServerStep K v (K.loginSend ⟨t3ServerPrio, decimal id⟩)
        (startList { v with usersList := list } 0)
  | finish {m : Msg} {next : ℕ} {rcpts : List ℕ} {after : ℕ}
      (hpc : v.pc = .broadcast m next rcpts after) (hu : v.users[next]? = none) :
      ServerStep K v K { v with pc := .pass after, bcasts := v.bcasts ++ [(m.origin, rcpts)] }
  | skip {m : Msg} {next : ℕ} {rcpts : List ℕ} {after : ℕ} {u : User}
      (hpc : v.pc = .broadcast m next rcpts after) (hu : v.users[next]? = some u)
      (hid : u.id = -1) :
      ServerStep K v K { v with pc := .broadcast m (next + 1) rcpts after }
  | deliver {m : Msg} {next : ℕ} {rcpts : List ℕ} {after : ℕ} {u : User}
      (hpc : v.pc = .broadcast m next rcpts after) (hu : v.users[next]? = some u)
      (hid : u.id ≠ -1) :
      ServerStep K v (K.modify (next + 1) (·.sendStoc m))
        { v with pc := .broadcast m (next + 1) rcpts after }
  | answer {index : ℕ} (hpc : v.pc = .answer index) :
      ServerStep K v (K.modify (index + 1) (·.sendStoc (listMsg v .direct)))
        { v with pc := .pass (index + 1) }
  | chat {index : ℕ} {u : User} {m : Msg} {c : Chan} (hpc : v.pc = .pass index)
      (hu : v.users[index]? = some u) (hid : u.id ≠ -1)
      (hm : (K.chan (index + 1)).recvCtos = some (m, c)) (hprio : m.prio = t3UserPrio) :
      ServerStep K v (K.modify (index + 1) fun _ => c) { v with
        pc := .broadcast (chatMsg u.login m.text v.handled.length) 0
          (connectedIds v.users) (index + 1)
        handled := v.handled ++ [(index + 1, m.text)] }
  | rename {index : ℕ} {u : User} {m : Msg} {c : Chan} {login list : Text}
      (hpc : v.pc = .pass index) (hu : v.users[index]? = some u) (hid : u.id ≠ -1)
      (hm : (K.chan (index + 1)).recvCtos = some (m, c)) (hprio : m.prio = t3SetUsrnamePrio) :
      ServerStep K v (K.modify (index + 1) fun _ => c)
        (startList { v with
          users := v.users.set index { u with login := login }
          usersList := list } (index + 1))
  | request {index : ℕ} {u : User} {m : Msg} {c : Chan} (hpc : v.pc = .pass index)
      (hu : v.users[index]? = some u) (hid : u.id ≠ -1)
      (hm : (K.chan (index + 1)).recvCtos = some (m, c)) (hprio : m.prio = t3ReqUsrlistPrio) :
      ServerStep K v (K.modify (index + 1) fun _ => c) { v with pc := .answer index }
  | leave {index : ℕ} {u : User} {m : Msg} {c : Chan} {list : Text} (hpc : v.pc = .pass index)
      (hu : v.users[index]? = some u) (hid : u.id ≠ -1)
      (hm : (K.chan (index + 1)).recvCtos = some (m, c)) (hprio : m.prio = t3DisconnectPrio) :
      ServerStep K v (K.modify (index + 1) fun _ => { c with linked := false })
        (startList { v with
          users := v.users.set index { u with id := -1 }
          activeUsers := v.activeUsers - 1
          usersList := list } (index + 1))
  | leaveLast {index : ℕ} {u : User} {m : Msg} {c : Chan} (hpc : v.pc = .pass index)
      (hu : v.users[index]? = some u) (hid : u.id ≠ -1)
      (hm : (K.chan (index + 1)).recvCtos = some (m, c)) (hprio : m.prio = t3DisconnectPrio) :
      ServerStep K v
        { K.modify (index + 1) fun _ => { c with linked := false } with loginLinked := false }
        { v with
          pc := .shutdown 0
          users := v.users.set index { u with id := -1 }
          activeUsers := v.activeUsers - 1 }
  | discard {index : ℕ} {u : User} {m : Msg} {c : Chan} (hpc : v.pc = .pass index)
      (hu : v.users[index]? = some u) (hid : u.id ≠ -1)
      (hm : (K.chan (index + 1)).recvCtos = some (m, c)) (hprio : m.prio ≠ t3UserPrio)
      (hleave : m.prio ≠ t3DisconnectPrio) :
      ServerStep K v (K.modify (index + 1) fun _ => c) { v with pc := .pass (index + 1) }
  | farewell {index : ℕ} {u : User} (hpc : v.pc = .shutdown index)
      (hu : v.users[index]? = some u) (hid : u.id ≠ -1) :
      ServerStep K v
        (K.modify (index + 1) fun c =>
          { c.sendStoc ⟨t3DisconnectPrio, ['0'], .direct⟩ with linked := false })
        { v with pc := .shutdown (index + 1) }
  | down {pc : ServerPc} (hpc : v.pc.running = false) (hpc' : pc.running = false) :
      ServerStep K v K { v with pc := pc }

theorem ServerPc.running_of_idle {pc : ServerPc} (h : pc.idle = true) : pc.running = true := by
  cases pc <;> simp_all [ServerPc.idle, ServerPc.running]

theorem ServerPc.ne_broadcast_of_idle {pc : ServerPc} (h : pc.idle = true) (m : Msg) (next : ℕ)
    (rcpts : List ℕ) (after : ℕ) : pc ≠ .broadcast m next rcpts after := by
  rintro rfl
  cases h

theorem ServerPc.ne_broadcast_of_down {pc : ServerPc} (h : pc.running = false) (m : Msg)
    (next : ℕ) (rcpts : List ℕ) (after : ℕ) : pc ≠ .broadcast m next rcpts after := by
  rintro rfl
  cases h

/-- The server does not return to its main loop. -/
theorem ServerStep.running {K K' : Kernel} {v v' : Server} (h : ServerStep K v K' v')
    (hrunning : v'.pc.running = true) : v.pc.running = true := by
  cases h with
  | idle hpc => exact ServerPc.running_of_idle hpc
  | down hpc hpc' => exact absurd hrunning (Bool.eq_false_iff.1 hpc')
  | farewell hpc => cases hrunning
  | takeReply hpc | register hpc | takeOther hpc | resend hpc | reply hpc | finish hpc | skip hpc
  | deliver hpc | answer hpc | chat hpc | rename hpc | request hpc | leave hpc | leaveLast hpc
  | discard hpc =>
    rw [hpc]
    rfl

theorem readLogin_step {K : Kernel} {v : Server} (hpc : v.pc = .login) :
    ServerStep K v (readLogin K v).1 (readLogin K v).2 := by
  unfold readLogin
  split
  · exact .idle (by rw [hpc]; rfl) rfl
  · rename_i m q hq
    obtain ⟨prio, text⟩ := m
    split
    · rename_i h
      obtain rfl : prio = t3ServerPrio := h
      exact .takeReply hpc hq
    · split
      · rename_i h
        obtain rfl : prio = t3UserPrio := h
        exact .register hpc hq
      · exact .takeOther hpc hq ‹_›

theorem sendBroadcast_step {K : Kernel} {v : Server} {m : Msg} {next : ℕ} {rcpts : List ℕ}
    {after : ℕ} (hpc : v.pc = .broadcast m next rcpts after) :
    ServerStep K v (sendBroadcast K v m next rcpts after).1
      (sendBroadcast K v m next rcpts after).2 := by
  unfold sendBroadcast
  split
  · exact .finish hpc ‹_›
  · split
    · exact .skip hpc ‹_› ‹_›
    · exact .deliver hpc ‹_› ‹_›

theorem readUser_step {K : Kernel} {v : Server} {index : ℕ} (hpc : v.pc = .pass index) :
    ServerStep K v (readUser K v index).1 (readUser K v index).2 := by
  have hidle : v.pc.idle = true := by rw [hpc]; rfl
  unfold readUser
  split
  · exact .idle hidle rfl
  · rename_i u hu
    split
    · exact .idle hidle rfl
    · rename_i hid
      split
      · exact .idle hidle rfl
      · rename_i m c hm
        split
        · exact .chat hpc hu hid hm ‹_›
        · split
          · exact .rename hpc hu hid hm ‹_›
          · split
            · exact .request hpc hu hid hm ‹_›
            · split
              · dsimp only
                split
                · exact .leaveLast hpc hu hid hm ‹_›
                · exact .leave hpc hu hid hm ‹_›
              · exact .discard hpc hu hid hm ‹¬ _ = t3UserPrio› ‹_›

theorem shutdownServer_step {K : Kernel} {v : Server} {index : ℕ} (hpc : v.pc = .shutdown index) :
    ServerStep K v (shutdownServer K v index).1 (shutdownServer K v index).2 := by
  have hdown : v.pc.running = false := by rw [hpc]; rfl
  unfold shutdownServer
  split
  · exact .down hdown rfl
  · split
    · exact .down hdown rfl
    · split
      · exact .down hdown rfl
      · exact .farewell hpc ‹_› ‹_›

/-- A step of `thirdTaskServer` is one of `ServerStep`. -/
theorem thirdTaskServer_step {junk : Text} {K : Kernel} {v : Server} {p : Kernel × Server}
    (h : thirdTaskServer junk K v = some p) : ServerStep K v p.1 p.2 := by
  unfold thirdTaskServer at h
  split at h <;> rename_i hpc
  · obtain rfl := Option.some.inj h
    exact readLogin_step hpc
  · obtain rfl := Option.some.inj h
    exact .resend hpc
  · obtain rfl := Option.some.inj h
    exact .reply hpc
  · obtain rfl := Option.some.inj h
    exact sendBroadcast_step hpc
  · obtain rfl := Option.some.inj h
    exact .answer hpc
  · obtain rfl := Option.some.inj h
    exact readUser_step hpc
  · obtain rfl := Option.some.inj h
    exact shutdownServer_step hpc
  · cases h

end EmbeddedC.Chatroom
