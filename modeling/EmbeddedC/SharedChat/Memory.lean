import EmbeddedC.Chatroom.Channels

/-!
# Homework 13: the shared memory of the chatroom

The server and its clients share one login segment with four semaphores, and for every
registered user one segment with four more.  Whoever copies a text into a segment takes some
time: until the copy is complete the segment holds part of the old text and part of the new one.

* the constants of `functions.h`, `Comm`, `UsrMsg`, `Command`;
* `Shm`, `User`, `Login`: the segments with their semaphores and histories;
* `ServerPc`, `ClientPc`, `HandlerPc`, `State`: the parties.
-/

namespace EmbeddedC.SharedChat

open Chatroom (Text snprintf)

/-- `T3_LOGIN_MSG_SIZE` -/
def t3LoginMsgSize : ℕ := 80

/-- `T3_USER_MSG_SIZE` -/
def t3UserMsgSize : ℕ := 1024

/-- The commands `T3_..._COMM`. -/
inductive Comm
  /-- 0, what a new segment holds -/
  | none
  | msgSnd
  | setUsrname
  | updUsrlist
  | reqUsrlist
  | disconnect
  deriving DecidableEq

/-- `struct usr_msg_t`; `msg` is `none` while a text is being copied into it. -/
structure UsrMsg where
  comm : Comm
  msg : Option Text
  deriving DecidableEq

/-- A command as it is sent or read, with the text if there is one. -/
structure Command where
  comm : Comm
  text : Option Text
  deriving DecidableEq

/-- A user's shared memory and semaphores, with histories: the commands the client has posted and
the server has handled, those the server has posted and the client has shown, and the number of
posts of `stc_sem` in the registration branch. -/
structure Shm where
  stoc : UsrMsg
  ctos : UsrMsg
  stcSem : ℕ
  ctsSem : ℕ
  srvSem : ℕ
  usrSem : ℕ
  published : List Command
  handled : List Command
  written : List Command
  shown : List Command
  joins : ℕ
  deriving DecidableEq

/-- A new segment is filled with 0, and the new semaphores are 0. -/
def Shm.fresh : Shm where
  stoc := ⟨.none, some []⟩
  ctos := ⟨.none, some []⟩
  stcSem := 0
  ctsSem := 0
  srvSem := 0
  usrSem := 0
  published := []
  handled := []
  written := []
  shown := []
  joins := 0

/-- `struct user_t` on the server's side; `linked` says that the names of the user's shared memory
and semaphores exist. -/
structure User where
  id : ℤ
  login : Text
  linked : Bool
  deriving DecidableEq

/-- The shared memory and semaphores of the login sequence; `ctos` and `stoc` are `none` while
they are being written. -/
structure Login where
  ctos : Option Text
  stoc : Option ℕ
  stcSem : ℕ
  ctsSem : ℕ
  srvSem : ℕ
  usrSem : ℕ
  deriving DecidableEq

/-- The places where the server sends a command: to all users after a registration, after a
message, a new name or a leave of the user at `index`, and to the user at `index` who asked for the
list. -/
inductive Send
  | joined
  | said (index : ℕ)
  | renamed (index : ℕ)
  | requested (index : ℕ)
  | left (index : ℕ)
  deriving DecidableEq

/-- Where `third_task_server` is; `k` is the user a command is sent to. -/
inductive ServerPc
  /-- at `sem_trywait(login.cts_sem)` -/
  | tryLogin
  /-- in the registration branch, before the new entry -/
  | register
  /-- at `snprintf(login.shm_buf->stoc)` -/
  | writeId
  /-- in the middle of it -/
  | copyId
  /-- at `sem_post(login.stc_sem)` -/
  | postStc
  /-- at `sem_timedwait(login.srv_sem)` -/
  | waitLogin
  /-- after a time-out, about to close and unlink the new user's memory and semaphores -/
  | unlink
  /-- at the head of a loop over the users -/
  | head (send : Send) (k : ℕ)
  /-- about to write `stoc.comm` -/
  | writeComm (send : Send) (k : ℕ)
  /-- at `strncpy` to `stoc.msg` -/
  | writeMsg (send : Send) (k : ℕ)
  /-- in the middle of it -/
  | copyMsg (send : Send) (k : ℕ)
  /-- at `sem_post(stc_sem)` -/
  | post (send : Send) (k : ℕ)
  /-- at `sem_timedwait(srv_sem)` -/
  | wait (send : Send) (k : ℕ)
  /-- at `sem_post(login.usr_sem)` -/
  | postUsr
  /-- at the head of the loop over the connected users -/
  | pass (index : ℕ)
  /-- at `switch (ctos.comm)` -/
  | readComm (index : ℕ)
  /-- about to read a message -/
  | readMsg (index : ℕ)
  /-- at `sem_post(usr_sem)` -/
  | answer (index : ℕ)
  /-- about to read a new name -/
  | rename (index : ℕ)
  /-- about to close and unlink a user's memory and semaphores -/
  | drop (index : ℕ)
  /-- after `exit` -/
  | exited
  deriving DecidableEq

/-- Where the main thread of a client is. -/
inductive ClientPc
  /-- at `sem_wait(login.usr_sem)` -/
  | lockUsr
  /-- at `strncpy` to `login.shm_buf->ctos` -/
  | writeName
  /-- in the middle of it -/
  | copyName
  /-- at `sem_post(login.cts_sem)` -/
  | postCts
  /-- at `sem_wait(login.stc_sem)` -/
  | waitStc
  /-- at `atoi(login.shm_buf->stoc)` -/
  | readId
  /-- opening the user's shared memory and semaphores -/
  | openShm
  /-- at `sem_post(login.srv_sem)` -/
  | postSrv
  /-- at `pthread_create` -/
  | spawn
  /-- at `wgetch` -/
  | main
  /-- about to write `ctos.comm` -/
  | writeComm (text : Text)
  /-- at `strncpy` to `ctos.msg` -/
  | writeMsg (text : Text)
  /-- in the middle of it -/
  | copyMsg (text : Text)
  /-- at `sem_post(cts_sem)` -/
  | post (text : Text)
  /-- at `sem_wait(usr_sem)` -/
  | waitUsr
  /-- after the main loop, about to write `ctos.comm` -/
  | quit
  /-- at `sem_post(cts_sem)` of the disconnect command -/
  | postQuit
  /-- at `pthread_cancel` and the end of the process -/
  | cancel
  deriving DecidableEq

/-- Where the `msg_handler` of a client is. -/
inductive HandlerPc
  /-- not created yet -/
  | off
  /-- at `sem_trywait(stc_sem)` -/
  | poll
  /-- at `switch (stoc.comm)` -/
  | readComm
  /-- about to show the text -/
  | readMsg (comm : Comm)
  /-- at `sem_post(srv_sem)` -/
  | postSrv
  deriving DecidableEq

/-- A client process.  `id` is `user.id` once it has been read, and `shmBuf` the index of the user
whose memory it has mapped. -/
structure Client where
  login : Text
  pc : ClientPc
  id : Option ℕ
  shmBuf : Option ℕ
  handler : HandlerPc
  alive : Bool
  deriving DecidableEq

/-- The server's variables, the shared memory and the clients.  `tmpBuf` is kept for the messages
that are relayed; `shm i` belongs to the user at index `i`; `timedOut` counts the users that were
removed because their logins had timed out. -/
structure State where
  server : ServerPc
  users : List User
  activeUsers : ℤ
  usersList : Text
  tmpBuf : Text
  login : Login
  shm : ℕ → Shm
  clients : List Client
  timedOut : ℕ

namespace State

/-- Whether the user at `i` is connected. -/
def connected (s : State) (i : ℕ) : Bool := (s.users[i]?).any fun u => u.id ≠ -1

/-- Change the memory of the user at `i`. -/
def modifyShm (s : State) (i : ℕ) (f : Shm → Shm) : State :=
  { s with shm := Function.update s.shm i (f (s.shm i)) }

@[simp] theorem shm_modifyShm_self (s : State) (i : ℕ) (f : Shm → Shm) :
    (s.modifyShm i f).shm i = f (s.shm i) := Function.update_self ..

/-- A step on the memory of the user at `k` that keeps a part of it. -/
theorem update_shm_congr {α : Type} (g : Shm → α) (shm : ℕ → Shm) (i k : ℕ) {m : Shm}
    (hm : g m = g (shm k)) : g (Function.update shm k m i) = g (shm i) := by
  by_cases hk : i = k
  · subst hk
    rw [Function.update_self, hm]
  · rw [Function.update_of_ne hk]

/-- Change client `c`. -/
def modifyClient (s : State) (c : ℕ) (f : Client → Client) : State :=
  { s with clients := s.clients.modify c f }

/-- Move client `c` to `pc`. -/
def setClient (s : State) (c : ℕ) (pc : ClientPc) : State :=
  s.modifyClient c fun cl => { cl with pc := pc }

/-- Move the `msg_handler` of client `c` to `pc`. -/
def setHandler (s : State) (c : ℕ) (pc : HandlerPc) : State :=
  s.modifyClient c fun cl => { cl with handler := pc }

end State

end EmbeddedC.SharedChat
