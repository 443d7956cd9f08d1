import Mathlib.Data.List.TakeWhile
import EmbeddedC.Lib.MessageQueue

/-!
# Homework 12: the queues of the chatroom

The chatroom server and its clients share one login queue and, for every registered user, two
queues: client to server and server to client.  All are POSIX message queues; commands are
encoded as message priorities.

* the constants of `functions.h` and the texts (`snprintf`, `%d`, `atoi`);
* `Chan`: the two queues of one user, the notification registered on the second one, and the
  histories of both;
* `Kernel`: the login queue and the queues of all users.

A text is the list of its characters before the terminating NUL.
-/

namespace EmbeddedC.Chatroom

/-- `T3_USER_PRIO` -/
def t3UserPrio : ℕ := 1

/-- `T3_SERVER_PRIO` -/
def t3ServerPrio : ℕ := 2

/-- `T3_MSGSND_PRIO` -/
def t3MsgsndPrio : ℕ := 3

/-- `T3_SET_USRNAME_PRIO` -/
def t3SetUsrnamePrio : ℕ := 4

/-- `T3_UPD_USRLIST_PRIO` -/
def t3UpdUsrlistPrio : ℕ := 5

/-- `T3_REQ_USRLIST_PRIO` -/
def t3ReqUsrlistPrio : ℕ := 6

/-- `T3_DISCONNECT_PRIO` -/
def t3DisconnectPrio : ℕ := 7

/-- `T3_LOGIN_Q_MAX_MSGS` -/
def t3LoginQMaxMsgs : ℕ := 5

/-- `T3_LOGIN_Q_MSG_SIZE` -/
def t3LoginQMsgSize : ℕ := 80

/-- `T3_USER_Q_MAX_MSGS` -/
def t3UserQMaxMsgs : ℕ := 5

/-- `T3_USER_Q_MSG_SIZE` -/
def t3UserQMsgSize : ℕ := 1024

/-! ### Texts -/

abbrev Text := List Char

/-- What `snprintf` stores in a buffer of `size` bytes. -/
def snprintf (size : ℕ) (text : Text) : Text := text.take (size - 1)

/-- `%d` of a number that is not negative. -/
def decimal (n : ℕ) : Text := Nat.toDigits 10 n

/-- `atoi` of a text that begins with neither a blank nor a sign. -/
def atoi (text : Text) : ℕ := Nat.ofDigitChars 10 (text.takeWhile Char.isDigit) 0

@[simp] theorem atoi_decimal (n : ℕ) : atoi (decimal n) = n := by
  have h : (decimal n).takeWhile Char.isDigit = decimal n :=
    List.takeWhile_eq_self_iff.2 fun c hc => Nat.isDigit_of_mem_toDigits (by omega) (by omega) hc
  rw [atoi, h]
  exact Nat.ofDigitChars_ten_toDigits

/-! ### Messages -/

/-- A message of the login queue. -/
structure LoginMsg where
  prio : ℕ
  text : Text
  deriving DecidableEq

/-- Why a message was sent: the chat message that the server dequeued as number `i`, its user
list number `b`, or anything else. -/
inductive Origin
  | chat (i : ℕ)
  | userList (b : ℕ)
  | direct
  deriving DecidableEq

/-- A message of a user's queues; `origin` is not part of what is sent. -/
structure Msg where
  prio : ℕ
  text : Text
  origin : Origin
  deriving DecidableEq

/-! ### The queues of one user -/

/-- Where a `handle_msg` thread is. -/
inductive HandlerPc
  /-- at `mq_receive` -/
  | receive
  /-- at `mq_notify`, having found the queue empty -/
  | notify
  deriving DecidableEq

/-- The queues of one user.  `linked` says that both files exist, `armed` that a notification is
registered on `stoc`; `handlers` are the `handle_msg` threads of the client.  `sent`, `queued`
and `taken` are the histories of what was enqueued on `ctos`, enqueued on `stoc`, and dequeued
from `stoc`. -/
structure Chan where
  ctos : List Msg
  stoc : List Msg
  linked : Bool
  armed : Bool
  handlers : List HandlerPc
  sent : List Msg
  queued : List Msg
  taken : List Msg

namespace Chan

/-- No queues, or two new queues. -/
def fresh (linked : Bool) : Chan where
  ctos := []
  stoc := []
  linked := linked
  armed := false
  handlers := []
  sent := []
  queued := []
  taken := []

/-- `mq_send` to the client, which drops the message when the queue is full.  A message that
arrives in the empty queue uses the notification up and starts a `handle_msg` thread. -/
def sendStoc (c : Chan) (m : Msg) : Chan :=
  match MessageQueue.send t3UserQMaxMsgs c.stoc m with
  | none => c
  | some q =>
    if c.stoc.isEmpty && c.armed then
      { c with
        stoc := q
        queued := c.queued ++ [m]
        armed := false
        handlers := c.handlers ++ [.receive] }
    else { c with stoc := q, queued := c.queued ++ [m] }

/-- `mq_receive` by the client. -/
def recvStoc (c : Chan) : Option (Msg × Chan) :=
  (MessageQueue.receive Msg.prio c.stoc).map fun (m, q) =>
    (m, { c with stoc := q, taken := c.taken ++ [m] })

/-- `mq_send` to the server, which drops the message when the queue is full. -/
def sendCtos (c : Chan) (m : Msg) : Chan :=
  match MessageQueue.send t3UserQMaxMsgs c.ctos m with
  | none => c
  | some q => { c with ctos := q, sent := c.sent ++ [m] }

/-- `mq_receive` by the server. -/
def recvCtos (c : Chan) : Option (Msg × Chan) :=
  (MessageQueue.receive Msg.prio c.ctos).map fun (m, q) => (m, { c with ctos := q })

/-- The chat messages enqueued for the server. -/
def chatsSent (c : Chan) : List Text :=
  (MessageQueue.level Msg.prio t3UserPrio c.sent).map Msg.text

/-- The chat messages that the server has not dequeued. -/
def chatsWaiting (c : Chan) : List Text :=
  (MessageQueue.level Msg.prio t3UserPrio c.ctos).map Msg.text

/-- What the server's sends leave alone. -/
theorem sendStoc_frame (c : Chan) (m : Msg) : (c.sendStoc m).ctos = c.ctos ∧
    (c.sendStoc m).sent = c.sent ∧ (c.sendStoc m).linked = c.linked ∧
    (c.sendStoc m).taken = c.taken := by
  unfold sendStoc
  split
  · exact ⟨rfl, rfl, rfl, rfl⟩
  · split <;> exact ⟨rfl, rfl, rfl, rfl⟩

@[simp] theorem sendStoc_ctos (c : Chan) (m : Msg) : (c.sendStoc m).ctos = c.ctos :=
  (sendStoc_frame c m).1

@[simp] theorem sendStoc_sent (c : Chan) (m : Msg) : (c.sendStoc m).sent = c.sent :=
  (sendStoc_frame c m).2.1

@[simp] theorem sendStoc_linked (c : Chan) (m : Msg) : (c.sendStoc m).linked = c.linked :=
  (sendStoc_frame c m).2.2.1

@[simp] theorem sendStoc_taken (c : Chan) (m : Msg) : (c.sendStoc m).taken = c.taken :=
  (sendStoc_frame c m).2.2.2

/-- The server's message is enqueued exactly when there is room. -/
theorem sendStoc_queued (c : Chan) (m : Msg) :
    (c.stoc.length < t3UserQMaxMsgs ∧ (c.sendStoc m).queued = c.queued ++ [m] ∧
      (c.sendStoc m).stoc = c.stoc ++ [m]) ∨
    (t3UserQMaxMsgs ≤ c.stoc.length ∧ c.sendStoc m = c) := by
  unfold sendStoc
  split
  · exact .inr ⟨MessageQueue.send_eq_none ‹_›, rfl⟩
  · obtain ⟨hlt, rfl⟩ := MessageQueue.send_eq_some ‹_›
    exact .inl (by split <;> exact ⟨hlt, rfl, rfl⟩)

theorem recvStoc_eq_some {c c' : Chan} {m : Msg} (h : c.recvStoc = some (m, c')) :
    ∃ q, MessageQueue.receive Msg.prio c.stoc = some (m, q) ∧
      c' = { c with stoc := q, taken := c.taken ++ [m] } := by
  obtain ⟨⟨m', q⟩, hq, heq⟩ := Option.map_eq_some_iff.1 h
  cases heq
  exact ⟨q, hq, rfl⟩

theorem recvStoc_eq_none {c : Chan} (h : c.recvStoc = none) : c.stoc = [] := by
  rw [recvStoc, Option.map_eq_none_iff] at h
  exact (MessageQueue.receive_eq_none _).1 h

theorem recvCtos_eq_some {c c' : Chan} {m : Msg} (h : c.recvCtos = some (m, c')) :
    ∃ q, MessageQueue.receive Msg.prio c.ctos = some (m, q) ∧ c' = { c with ctos := q } := by
  obtain ⟨⟨m', q⟩, hq, heq⟩ := Option.map_eq_some_iff.1 h
  cases heq
  exact ⟨q, hq, rfl⟩

/-- The client's message is appended to queue and history, or to neither. -/
theorem sendCtos_cases (c : Chan) (m : Msg) :
    (c.ctos.length < t3UserQMaxMsgs ∧
      c.sendCtos m = { c with ctos := c.ctos ++ [m], sent := c.sent ++ [m] }) ∨
    (t3UserQMaxMsgs ≤ c.ctos.length ∧ c.sendCtos m = c) := by
  unfold sendCtos
  split
  · exact .inr ⟨MessageQueue.send_eq_none ‹_›, rfl⟩
  · obtain ⟨hlt, rfl⟩ := MessageQueue.send_eq_some ‹_›
    exact .inl ⟨hlt, rfl⟩

end Chan

/-! ### All queues -/

/-- The login queue and the queues of all users.  `chan k` are those named by id `k`. -/
structure Kernel where
  loginLinked : Bool
  loginQ : List LoginMsg
  chan : ℕ → Chan

namespace Kernel

/-- An operation on the queues of id `k`. -/
def modify (K : Kernel) (k : ℕ) (f : Chan → Chan) : Kernel :=
  { K with chan := Function.update K.chan k (f (K.chan k)) }

/-- `mq_send` to the login queue by the server, which drops the message when the queue is
full. -/
def loginSend (K : Kernel) (m : LoginMsg) : Kernel :=
  match MessageQueue.send t3LoginQMaxMsgs K.loginQ m with
  | none => K
  | some q => { K with loginQ := q }

@[simp] theorem modify_chan_self (K : Kernel) (k : ℕ) (f : Chan → Chan) :
    (K.modify k f).chan k = f (K.chan k) := Function.update_self ..

theorem modify_chan_of_ne (K : Kernel) {k j : ℕ} (f : Chan → Chan) (h : j ≠ k) :
    (K.modify k f).chan j = K.chan j := Function.update_of_ne h ..

@[simp] theorem loginSend_chan (K : Kernel) (m : LoginMsg) : (K.loginSend m).chan = K.chan := by
  unfold loginSend
  split <;> rfl

theorem loginSend_cases (K : Kernel) (m : LoginMsg) :
    (K.loginQ.length < t3LoginQMaxMsgs ∧ (K.loginSend m).loginQ = K.loginQ ++ [m]) ∨
    (t3LoginQMaxMsgs ≤ K.loginQ.length ∧ (K.loginSend m).loginQ = K.loginQ) := by
  unfold loginSend
  split
  · exact .inr ⟨MessageQueue.send_eq_none ‹_›, rfl⟩
  · obtain ⟨hlt, rfl⟩ := MessageQueue.send_eq_some ‹_›
    exact .inl ⟨hlt, rfl⟩

/-- A property of one channel is kept by an operation on channel `k` that keeps it there. -/
theorem modify_forall {K : Kernel} {k : ℕ} {f : Chan → Chan} {P : ℕ → Chan → Prop}
    (h : ∀ j, P j (K.chan j)) (hk : P k (f (K.chan k))) (j : ℕ) : P j ((K.modify k f).chan j) := by
  by_cases hj : j = k
  · subst hj
    rwa [modify_chan_self]
  · rw [modify_chan_of_ne K f hj]
    exact h j

end Kernel

end EmbeddedC.Chatroom
