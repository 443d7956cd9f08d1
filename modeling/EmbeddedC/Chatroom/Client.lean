import EmbeddedC.Chatroom.Channels

/-!
# Homework 12: `third_task_client`

A client sends an anonymous request to the login queue and takes the first reply it receives,
whoever asked for it; requests it receives it puts back.  With the id in the reply it opens the
two queues of that id, registers for notification, sends its name, shows what is waiting, and
then sends what the user types.  Messages that arrive later are shown by `handle_msg` threads.

* `loginClient`: one call of the client before it has an id;
* `session`: one call of its main thread afterwards, which involves one channel only;
* `handleMsg`: one call of a `handle_msg` thread.

The client opens the login queue for blocking calls and the others with `O_NONBLOCK`.
-/

namespace EmbeddedC.Chatroom

/-- The next call of the main thread once the client has an id. -/
inductive SessionPc
  /-- `mq_open(stc_ch)` -/
  | openRcv
  /-- `mq_open(cts_ch)` -/
  | openSnd
  /-- `mq_notify` -/
  | notify
  /-- `mq_send` of the user's name -/
  | setName
  /-- `mq_receive` in the loop that shows what arrived before the registration -/
  | drain
  /-- `wgetch` in the main loop -/
  | main
  /-- in `shutdown_client`, at `mq_send` of the disconnect command -/
  | leaving
  | exited
  deriving DecidableEq

/-- Where a client is. -/
inductive ClientPc
  /-- at `mq_open(login_q)` -/
  | openLogin
  /-- at `mq_send` of its request -/
  | request
  /-- at `mq_receive(login_q)` -/
  | receive
  /-- at `mq_send` of a request that it received -/
  | resend (text : Text)
  /-- exited without an id -/
  | gone
  /-- has adopted the id `k` -/
  | session (k : ℕ) (pc : SessionPc)
  deriving DecidableEq

/-- A client process. -/
structure Client where
  login : Text
  pc : ClientPc
  deriving DecidableEq

/-- The id a client has adopted. -/
def Client.id (c : Client) : Option ℕ :=
  match c.pc with
  | .session k _ => some k
  | _ => none

/-- The next call of a client without an id; `none` while it blocks. -/
def loginClient (K : Kernel) : ClientPc → Option (Kernel × ClientPc)
  | .openLogin => if K.loginLinked then some (K, .request) else none
  | .request =>
    (MessageQueue.send t3LoginQMaxMsgs K.loginQ ⟨t3UserPrio, ['0']⟩).map fun q =>
      ({ K with loginQ := q }, .receive)
  | .receive =>
    (MessageQueue.receive LoginMsg.prio K.loginQ).map fun (m, q) =>
      ({ K with loginQ := q },
        if m.prio = t3UserPrio then .resend m.text
        else if m.prio = t3ServerPrio then .session (atoi m.text) .openRcv
        else .receive)
  | .resend text =>
    (MessageQueue.send t3LoginQMaxMsgs K.loginQ ⟨t3UserPrio, text⟩).map fun q =>
      ({ K with loginQ := q }, .receive)
  | .gone | .session _ _ => none

/-- The next call of the main thread of a client with an id; `none` while it waits for the
user. -/
def session (login : Text) (c : Chan) : SessionPc → Option (Chan × SessionPc)
  | .openRcv => some (c, if c.linked then .openSnd else .exited)
  | .openSnd => some (c, if c.linked then .notify else .exited)
  | .notify => if c.armed then some (c, .leaving) else some ({ c with armed := true }, .setName)
  | .setName => some (c.sendCtos ⟨t3SetUsrnamePrio, login, .direct⟩, .drain)
  | .drain =>
    match c.recvStoc with
    | none => some (c, .main)
    | some (m, c') => some (c', if m.prio = t3DisconnectPrio then .leaving else .drain)
  | .main => none
  | .leaving =>
    some ({ c.sendCtos ⟨t3DisconnectPrio, ['0'], .direct⟩ with armed := false, handlers := [] },
      .exited)
  | .exited => none

/-- `exit`: the disconnect command is sent if `snd_q` is open. -/
def SessionPc.exit : SessionPc → Option SessionPc
  | .openRcv | .openSnd => some .exited
  | .notify | .setName | .drain | .main => some .leaving
  | .leaving | .exited => none

def ClientPc.exit : ClientPc → Option ClientPc
  | .openLogin | .request | .receive | .resend _ => some .gone
  | .gone => none
  | .session k pc => pc.exit.map (.session k)

/-- The next call of `handle_msg` thread `j`, and whether it calls `exit`. -/
def handleMsg (c : Chan) (j : ℕ) : Option (Chan × Bool) :=
  match c.handlers[j]? with
  | none => none
  | some .receive =>
    match c.recvStoc with
    | none => some ({ c with handlers := c.handlers.set j .notify }, false)
    | some (m, c') =>
      if m.prio = t3DisconnectPrio then some ({ c' with handlers := c.handlers.eraseIdx j }, true)
      else some (c', false)
  | some .notify =>
    -- `EBUSY` if a notification is registered
    let c' := { c with handlers := c.handlers.eraseIdx j }
    if c.armed then some (c', true) else some ({ c' with armed := true }, false)

/-! ### What the server sees of the clients -/

/-- What clients do to a channel: they append to `ctos`, and take messages from `stoc`, each
priority in the order in which it was enqueued. -/
structure Chan.ClientMove (c c' : Chan) : Prop where
  queued : c'.queued = c.queued
  linked : c'.linked = c.linked
  fifo : ∀ p, MessageQueue.level Msg.prio p c'.taken ++ MessageQueue.level Msg.prio p c'.stoc =
    MessageQueue.level Msg.prio p c.taken ++ MessageQueue.level Msg.prio p c.stoc
  ctos : ∃ new, c'.ctos = c.ctos ++ new ∧ c'.sent = c.sent ++ new

namespace Chan

theorem ClientMove.refl (c : Chan) : ClientMove c c := ⟨rfl, rfl, fun _ => rfl, [], by simp⟩

theorem clientMove_sendCtos (c : Chan) (m : Msg) : ClientMove c (c.sendCtos m) := by
  obtain ⟨-, h⟩ | ⟨-, h⟩ := c.sendCtos_cases m <;> rw [h]
  · exact ⟨rfl, rfl, fun _ => rfl, [m], rfl, rfl⟩
  · exact .refl c

theorem clientMove_recvStoc {c c' : Chan} {m : Msg} (h : c.recvStoc = some (m, c')) :
    ClientMove c c' := by
  obtain ⟨q, hq, rfl⟩ := recvStoc_eq_some h
  refine ⟨rfl, rfl, fun p => ?_, [], by simp⟩
  rw [MessageQueue.level_append, List.append_assoc, MessageQueue.level_receive hq]

end Chan

theorem session_move {login : Text} {c c' : Chan} {pc pc' : SessionPc}
    (h : session login c pc = some (c', pc')) : c.ClientMove c' := by
  cases pc with
  | openRcv | openSnd =>
    cases h
    exact .refl c
  | notify =>
    simp only [session] at h
    split at h <;> cases h
    · exact .refl c
    · exact ⟨rfl, rfl, fun _ => rfl, [], by simp⟩
  | setName =>
    cases h
    exact Chan.clientMove_sendCtos c _
  | drain =>
    simp only [session] at h
    split at h <;> cases h
    · exact .refl c
    · exact Chan.clientMove_recvStoc ‹_›
  | leaving =>
    cases h
    obtain ⟨hqueued, hlinked, hfifo, hctos⟩ := Chan.clientMove_sendCtos c
      ⟨t3DisconnectPrio, ['0'], .direct⟩
    exact ⟨hqueued, hlinked, hfifo, hctos⟩
  | main | exited => cases h

theorem handleMsg_move {c c' : Chan} {j : ℕ} {exits : Bool}
    (h : handleMsg c j = some (c', exits)) : c.ClientMove c' := by
  unfold handleMsg at h
  split at h
  · cases h
  · split at h
    · cases h
      exact ⟨rfl, rfl, fun _ => rfl, [], by simp⟩
    · obtain ⟨hqueued, hlinked, hfifo, hctos⟩ := Chan.clientMove_recvStoc ‹_›
      split at h <;> cases h <;> exact ⟨hqueued, hlinked, hfifo, hctos⟩
  · dsimp only at h
    split at h <;> cases h <;> exact ⟨rfl, rfl, fun _ => rfl, [], by simp⟩

end EmbeddedC.Chatroom
