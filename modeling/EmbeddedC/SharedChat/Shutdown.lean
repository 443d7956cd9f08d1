import EmbeddedC.SharedChat.Deliveries
import EmbeddedC.SharedChat.Rollback

/-!
# Homework 13: the end of the server

`exit` runs `shutdown_server`: each connected user is sent a disconnect command, the server waits
for an answer, and then the user's memory and semaphores are unlinked.  A client whose `msg_handler`
reads the command ends.

* `shutdownServer`, `shutdownTimeout`: the steps of `shutdown_server`;
* `ending`: the chatroom, with an `exit` of the server at any moment;
* `Told`: the command waits for the `msg_handler`, or has been taken by it;
* `shutdown_steps`: how many steps `shutdown_server` makes;
* `shutdown_clients`: which clients end.

`exit` is called between two steps of the server's main loop.
-/

namespace EmbeddedC.SharedChat

open Chatroom (Text)

/-- Where `shutdown_server` is. -/
inductive Shutdown
  /-- not called yet -/
  | off
  /-- at the head of the loop over the users -/
  | loop (index : ℕ)
  /-- at `sem_post(stc_sem)` -/
  | post (index : ℕ)
  /-- at `sem_timedwait(srv_sem)` -/
  | wait (index : ℕ)
  /-- after it -/
  | done
  deriving DecidableEq

structure Ending where
  chat : State
  shutdown : Shutdown

/-- The user's memory and semaphores are closed and unlinked. -/
def Ending.unlink (s : Ending) (index : ℕ) : Ending where
  chat := { s.chat with users := s.chat.users.modify index fun u => { u with linked := false } }
  shutdown := .loop (index + 1)

/-- The next step of `shutdown_server`; `none` while it blocks. -/
def shutdownServer (s : Ending) : Option Ending :=
  match s.shutdown with
  | .loop index =>
    if index < s.chat.users.length then
      if s.chat.connected index then
        some ⟨s.chat.modifyShm index fun m => { m with
          stoc := { m.stoc with comm := .disconnect } }, .post index⟩
      else some ⟨s.chat, .loop (index + 1)⟩
    else some ⟨s.chat, .done⟩
  | .post index =>
    some ⟨s.chat.modifyShm index fun m => { m with stcSem := m.stcSem + 1 }, .wait index⟩
  | .wait index =>
    if (s.chat.shm index).srvSem = 0 then none
    else some (Ending.unlink
      ⟨s.chat.modifyShm index fun m => { m with srvSem := m.srvSem - 1 }, .wait index⟩ index)
  | .off | .done => none

/-- Its `sem_timedwait` times out. -/
def shutdownTimeout (s : Ending) : Option Ending :=
  match s.shutdown with
  | .wait index => if (s.chat.shm index).srvSem = 0 then some (s.unlink index) else none
  | _ => none

/-- What happens in the main loop of the server. -/
def Action.ofServer : Action → Bool
  | .server _ | .timeout => true
  | _ => false

/-- What can happen next. -/
inductive Event
  | chat (a : Action)
  | exit
  | shutdown
  | timeout
  deriving DecidableEq

def endingStep (s : Ending) : Event → Option Ending
  | .chat a =>
    if a.ofServer = true ∧ s.shutdown ≠ .off then none
    else (step s.chat a).map fun chat => ⟨chat, s.shutdown⟩
  | .exit =>
    if s.shutdown = .off then
      some ⟨s.chat, if s.chat.activeUsers ≠ 0 then .loop 0 else .done⟩
    else none
  | .shutdown => shutdownServer s
  | .timeout => shutdownTimeout s

/-- The chatroom, until after the end of the server. -/
def ending : Machine Ending Event where
  init s := s = ⟨initial, .off⟩
  step := endingStep

/-- What one step can do. -/
inductive EndingStep (s : Ending) : Event → Ending → Prop
  | chat {a : Action} {t : State} (h : sharedChat.step s.chat a = some t)
      (ha : a.ofServer = true → s.shutdown = .off) : EndingStep s (.chat a) ⟨t, s.shutdown⟩
  | exit (hoff : s.shutdown = .off) :
      EndingStep s .exit ⟨s.chat, if s.chat.activeUsers ≠ 0 then .loop 0 else .done⟩
  | write {k : ℕ} (hloop : s.shutdown = .loop k) (hk : k < s.chat.users.length)
      (hconnected : s.chat.connected k = true) :
      EndingStep s .shutdown ⟨s.chat.modifyShm k fun m => { m with
        stoc := { m.stoc with comm := .disconnect } }, .post k⟩
  | skip {k : ℕ} (hloop : s.shutdown = .loop k) (hk : k < s.chat.users.length)
      (hconnected : s.chat.connected k = false) : EndingStep s .shutdown ⟨s.chat, .loop (k + 1)⟩
  | finish {k : ℕ} (hloop : s.shutdown = .loop k) (hk : s.chat.users.length ≤ k) :
      EndingStep s .shutdown ⟨s.chat, .done⟩
  | post {k : ℕ} (hpost : s.shutdown = .post k) :
      EndingStep s .shutdown
        ⟨s.chat.modifyShm k fun m => { m with stcSem := m.stcSem + 1 }, .wait k⟩
  | answered {k : ℕ} (hwait : s.shutdown = .wait k) (hsrv : (s.chat.shm k).srvSem ≠ 0) :
      EndingStep s .shutdown (Ending.unlink
        ⟨s.chat.modifyShm k fun m => { m with srvSem := m.srvSem - 1 }, .wait k⟩ k)
  | timeout {k : ℕ} (hwait : s.shutdown = .wait k) (hsrv : (s.chat.shm k).srvSem = 0) :
      EndingStep s .timeout (s.unlink k)

theorem endingStep_step {s t : Ending} {e : Event} (h : ending.step s e = some t) :
    EndingStep s e t := by
  cases e with
  | chat a =>
    change (if _ then _ else _) = _ at h
    split at h
    · cases h
    · obtain ⟨chat, hchat, rfl⟩ := Option.map_eq_some_iff.1 h
      exact .chat hchat fun ha => by tauto
  | exit =>
    change (if _ then _ else _) = _ at h
    split at h
    · obtain rfl := Option.some.inj h
      exact .exit ‹_›
    · cases h
  | shutdown =>
    change shutdownServer s = _ at h
    unfold shutdownServer at h
    split at h <;> rename_i hpc
    · split at h
      · split at h <;> obtain rfl := Option.some.inj h
        · exact .write hpc ‹_› ‹_›
        · exact .skip hpc ‹_› (Bool.eq_false_iff.2 ‹_›)
      · obtain rfl := Option.some.inj h
        exact .finish hpc (by omega)
    · obtain rfl := Option.some.inj h
      exact .post hpc
    · split at h
      · cases h
      · obtain rfl := Option.some.inj h
        exact .answered hpc ‹_›
    · cases h
    · cases h
  | timeout =>
    change shutdownTimeout s = _ at h
    unfold shutdownTimeout at h
    split at h <;> rename_i hpc
    · split at h
      · obtain rfl := Option.some.inj h
        exact .timeout hpc ‹_›
      · cases h
    · cases h

/-! ### Clients, while the server ends -/

/-- The disconnect command waits for the `msg_handler` of client `c`, or has been taken by it. -/
def Told (s : State) (c i : ℕ) : Prop :=
  (s.shm i).stoc.comm = .disconnect ∧ (s.listener c i ≠ .readComm → (s.shm i).stcSem ≠ 0)

section Clients

variable {s t : State} {a : Action} {c c' i k : ℕ} {cl : Client} {f : Client → Client}

/-- A client changes neither the table of users nor what the server has written. -/
theorem ChatStep.of_client (h : ChatStep s a t) (ha : a.ofServer = false) :
    t.users = s.users ∧ (t.shm k).stoc.comm = (s.shm k).stoc.comm := by
  have hupdate {m : Shm} {j : ℕ} (hm : m.stoc.comm = (s.shm j).stoc.comm) :
      (Function.update s.shm j m k).stoc.comm = (s.shm k).stoc.comm :=
    State.update_shm_congr (fun m => m.stoc.comm) s.shm k j hm
  cases h with
  | server | timeout => cases ha
  | login _ _ h => cases h <;> exact ⟨rfl, rfl⟩
  | main _ _ _ _ h =>
    obtain ⟨m, f, rfl, hhalf, -⟩ := mainLoop_frame h
    exact ⟨rfl, hupdate (congrArg (fun half => half.1.comm) hhalf)⟩
  | handler _ _ _ h =>
    cases h with
    | take | readMsg | postSrv => exact ⟨rfl, hupdate (by rfl)⟩
    | readComm | quit | ignore => exact ⟨rfl, rfl⟩
  | connect | input | kill => exact ⟨rfl, rfl⟩

/-- A command that was taken stays taken while a client does not go on with it. -/
theorem listener_of_modify (hclients : t.clients = s.clients.modify c' f)
    (hf : ∀ cl, s.clients[c']? = some cl → cl.shmBuf = some i → cl.handler = .readComm →
      (f cl).shmBuf = some i ∧ (f cl).handler = .readComm)
    (h : s.listener c i = .readComm) : t.listener c i = .readComm := by
  simp only [State.listener, hclients] at h ⊢
  by_cases hc : c' = c
  · subst hc
    rw [List.getElem?_modify_eq]
    cases hcl : s.clients[c']? with
    | none => simp [hcl] at h
    | some cl =>
      simp only [hcl] at h
      split at h
      · obtain ⟨hshmBuf, hhandler⟩ := hf cl hcl ‹_› h
        simp [hshmBuf, hhandler]
      · cases h
  · rwa [List.getElem?_modify_ne _ _ hc]

/-- The command of `shutdown_server` is read. -/
theorem msgHandler_disconnect (hcl : s.clients[c]? = some cl) (halive : cl.alive = true)
    (hi : cl.shmBuf = some i) (hpc : cl.handler = .readComm)
    (hcomm : (s.shm i).stoc.comm = .disconnect) (junk : Text) :
    msgHandler s c junk = some (s.modifyClient c fun cl => { cl with alive := false }) := by
  simp [msgHandler, hcl, halive, hi, hpc, hcomm]

theorem Told.of_client (htold : Told s c i) (h : sharedChat.step s a = some t)
    (ha : a.ofServer = false) (hok : s.ClientsOk) (hsole : t.Sole c i) : Told t c i := by
  have hchat := step_chatStep h
  have hsole' := sole_of_step hok hchat hsole
  refine ⟨(hchat.of_client ha).2.trans htold.1, fun hlistener => ?_⟩
  have hkeep (hstc : (t.shm i).stcSem = (s.shm i).stcSem)
      (hlistens : s.listener c i = .readComm → t.listener c i = .readComm) :
      (t.shm i).stcSem ≠ 0 :=
    hstc ▸ htold.2 fun hread => hlistener (hlistens hread)
  cases hchat with
  | server | timeout => cases ha
  | connect login =>
    refine hkeep rfl fun hread => ?_
    simp only [State.listener] at hread ⊢
    cases hcl : s.clients[c]? with
    | none => simp [hcl] at hread
    | some cl =>
      rw [List.getElem?_append_left (List.lt_length_of_getElem?_eq_some hcl)]
      exact hread
  | @login c' _ cl _ hcl _ h =>
    cases h with
    | openShm hpc =>
      refine hkeep rfl (listener_of_modify rfl fun cl' hcl' hi => ?_)
      obtain rfl := Option.some.inj (hcl.symm.trans hcl')
      cases ((hok _ _ hcl).unmapped (by rw [hpc]; rfl)).symm.trans hi
    | _ => exact hkeep rfl (listener_of_modify rfl fun _ _ hi hread => ⟨hi, hread⟩)
  | @main c' _ i' cl _ hcl _ hi' _ h =>
    obtain ⟨m, f, rfl, hhalf, -, hmove⟩ := mainLoop_frame h
    refine hkeep ?_ (listener_of_modify rfl fun cl' hcl' hi hread => ?_)
    · exact State.update_shm_congr Shm.stcSem s.shm i i' (congrArg (fun half => half.2.1) hhalf)
    · obtain rfl := Option.some.inj (hcl.symm.trans hcl')
      have hpc : cl.pc ≠ .spawn := fun hpc => by
        cases ((hok _ _ hcl).off (.inr hpc)).symm.trans hread
      exact ⟨(hmove cl rfl).shmBuf.trans hi,
        ((hmove cl rfl).handler.trans (if_neg hpc)).trans hread⟩
  | input => exact hkeep rfl (listener_of_modify rfl fun _ _ hi hread => ⟨hi, hread⟩)
  | kill c' => exact hkeep rfl (listener_of_modify rfl fun _ _ hi hread => ⟨hi, hread⟩)
  | @handler c' i' junk cl _ hcl halive hi' hstep =>
    by_cases hi : i' = i
    · subst hi
      obtain rfl := hsole' c' cl hcl hi'
      have hlistens := listener_eq hcl hi'
      by_cases hpc : cl.handler = .readComm
      · -- the client ends, and its `msg_handler` with it
        obtain rfl := Option.some.inj
          (h.symm.trans (msgHandler_disconnect hcl halive hi' hpc htold.1 junk))
        exact hkeep rfl (listener_of_modify rfl fun _ _ hi hread => ⟨hi, hread⟩)
      · have hstc := htold.2 (hlistens ▸ hpc)
        cases hstep with
        | take =>
          refine absurd ?_ hlistener
          simp [State.listener, State.setHandler, State.modifyClient, State.modifyShm, hcl, hi']
        | readComm hpc' | quit hpc' | ignore hpc' => exact absurd hpc' hpc
        | readMsg hpc' =>
          change (Function.update s.shm i' _ i').stcSem ≠ 0
          rwa [Function.update_self]
        | postSrv hpc' =>
          change (Function.update s.shm i' _ i').stcSem ≠ 0
          rwa [Function.update_self]
    · obtain ⟨m, f, rfl, hf⟩ := hstep.frame
      refine hkeep (congrArg Shm.stcSem (Function.update_of_ne (Ne.symm hi) _ _)) ?_
      refine listener_of_modify rfl fun cl' hcl' hshm => ?_
      obtain rfl := Option.some.inj (hcl.symm.trans hcl')
      exact absurd (Option.some.inj (hi'.symm.trans hshm)) hi

end Clients

/-! ### Every run -/

/-- Only connected users have linked memory. -/
def Tidy (users : List User) : Prop :=
  ∀ (i : ℕ) (u : User), users[i]? = some u → u.linked = true → u.id ≠ -1

section Tidy

variable {s t : State} {users : List User} {i : ℕ} {f : User → User}

theorem Tidy.modify (h : Tidy users) (hf : ∀ u, (f u).linked = true → (f u).id ≠ -1 ∨
    u.linked = true ∧ (f u).id = u.id) : Tidy (users.modify i f) :=
  List.modify_forall h fun u hu hlinked => by
    obtain hid | ⟨hlinked', hid⟩ := hf u hlinked
    · exact hid
    · exact hid ▸ h i u hu hlinked'

theorem tidy_server {junk : Text} (hs : Tidy s.users) (h : ServerStep s junk t) : Tidy t.users := by
  cases h with
  | register => exact List.concat_forall hs fun _ => newUser_id _ _
  | rename => exact hs.modify fun u hlinked => .inr ⟨hlinked, rfl⟩
  | unlink | drop => exact hs.modify fun u hlinked => by cases hlinked
  | _ => exact hs

theorem tidy {s : State} (hs : sharedChat.Reachable s) : Tidy s.users := by
  refine hs.invariant (I := fun s => Tidy s.users) (fun s hinit => ?_) fun s a t _ ih h => ?_
  · obtain rfl := hinit
    nofun
  · obtain ⟨junk, h⟩ | h | h := (step_chatStep h).table
    · exact tidy_server ih h
    · cases h <;> exact ih
    · simp only [State.table, Prod.mk.injEq] at h
      rw [h.2.1]
      exact ih

end Tidy

namespace Shutdown

/-- The user at `i` has been sent the command. -/
def Posted (i : ℕ) : Shutdown → Prop
  | .off => False
  | .loop k | .post k => i < k
  | .wait k => i ≤ k
  | .done => True

/-- The memory of the user at `i` has been unlinked, if the user was connected. -/
def Unlinked (i : ℕ) : Shutdown → Prop
  | .off => False
  | .loop k | .post k | .wait k => i < k
  | .done => True

end Shutdown

/-- A client whose `msg_handler` has not been created is still on its way to the main loop. -/
def Client.Started (cl : Client) : Prop :=
  cl.handler = .off → cl.pc.loggingIn = true ∨ cl.pc = .spawn

def State.Started (s : State) : Prop :=
  ∀ (c : ℕ) (cl : Client), s.clients[c]? = some cl → cl.Started

theorem started_step {s t : State} {a : Action} (hs : s.Started) (h : ChatStep s a t) :
    t.Started := by
  have hmodify {c : ℕ} {cl : Client} {f : Client → Client} (hcl : s.clients[c]? = some cl)
      (hf : (f cl).Started) : (s.modifyClient c f).Started :=
    List.modify_forall hs fun _ hcl' => Option.some.inj (hcl.symm.trans hcl') ▸ hf
  cases h with
  | server h => cases h <;> exact hs
  | timeout h => cases h <;> exact hs
  | connect login => exact List.concat_forall hs fun _ => .inl rfl
  | login hcl _ h =>
    cases h with
    | postSrv => exact hmodify hcl fun _ => .inr rfl
    | _ => exact hmodify hcl fun _ => .inl rfl
  | main hcl _ _ hpc h =>
    obtain ⟨m, f, rfl, -, -, hmove⟩ := mainLoop_frame h
    refine hmodify hcl fun hoff => ?_
    rw [(hmove _ rfl).handler] at hoff
    split at hoff
    · cases hoff
    · obtain hlogin | hspawn := hs _ _ hcl hoff
      · rw [hpc] at hlogin
        cases hlogin
      · contradiction
  | input hcl _ hmain =>
    refine hmodify hcl fun hoff => ?_
    have hstart := hs _ _ hcl hoff
    simp [hmain, ClientPc.loggingIn] at hstart
  | handler hcl _ _ h =>
    cases h with
    | quit =>
      have hstart := hs _ _ hcl
      exact hmodify hcl hstart
    | _ => exact hmodify hcl fun hoff => by cases hoff
  | kill c =>
    refine List.modify_forall hs fun cl hcl hoff => ?_
    exact hs c cl hcl hoff

/-- What holds at any moment. -/
structure Shutting (s : Ending) : Prop where
  ok : s.chat.ClientsOk
  started : s.chat.Started
  active : s.shutdown = .off → sharedChat.Reachable s.chat
  linked : ∀ (i : ℕ) (u : User), s.chat.users[i]? = some u → u.linked = true →
    u.id ≠ -1 ∧ ¬ s.shutdown.Unlinked i
  writing : ∀ k, s.shutdown = .post k → (s.chat.shm k).stoc.comm = .disconnect
  told : ∀ c i, s.chat.Sole c i → s.chat.connected i = true → s.shutdown.Posted i →
    Told s.chat c i

theorem Shutting.chat {s : Ending} {t : State} {a : Action} (hs : Shutting s)
    (h : sharedChat.step s.chat a = some t) (ha : a.ofServer = true → s.shutdown = .off) :
    Shutting ⟨t, s.shutdown⟩ := by
  have hchat := step_chatStep h
  have hok := clientsOk_step hs.ok hchat
  have hstarted := started_step hs.started hchat
  by_cases hoff : s.shutdown = .off
  · -- the main loop of the server goes on
    have hreachable := (hs.active hoff).step h
    refine ⟨hok, hstarted, fun _ => hreachable, fun i u hu hlinked => ?_, fun k hpost => ?_,
      fun c i _ _ h => ?_⟩
    · exact ⟨tidy hreachable i u hu hlinked, by rw [hoff]; exact id⟩
    · cases hoff.symm.trans hpost
    · rw [hoff] at h
      exact h.elim
  · have hclient : a.ofServer = false := Bool.eq_false_iff.2 fun h => hoff (ha h)
    have husers : t.users = s.chat.users := (hchat.of_client (k := 0) hclient).1
    refine ⟨hok, hstarted, fun h => absurd h hoff, fun i u hu => ?_, fun k hpost => ?_,
      fun c i hsole hconnected hposted => ?_⟩
    · exact hs.linked i u (husers ▸ hu)
    · exact (hchat.of_client hclient).2.trans (hs.writing k hpost)
    · have hconnected' : s.chat.connected i = true := by
        rwa [State.connected, husers] at hconnected
      exact (hs.told c i (sole_of_step hs.ok hchat hsole) hconnected' hposted).of_client h hclient
        hs.ok hsole

/-- `active_users` is 0 only without connected users. -/
theorem Shutting.exit {s : Ending} (hs : Shutting s) (hoff : s.shutdown = .off) :
    Shutting ⟨s.chat, if s.chat.activeUsers ≠ 0 then .loop 0 else .done⟩ := by
  have hcount := active_eq (hs.active hoff)
  split
  · exact ⟨hs.ok, hs.started, by simp,
      fun i u hu hlinked => ⟨(hs.linked i u hu hlinked).1, Nat.not_lt_zero i⟩,
      by simp, fun c i _ _ h => absurd h (Nat.not_lt_zero i)⟩
  · rename_i hactive
    have hzero : connectedCount s.chat.users = 0 := by omega
    have hnone : ∀ u ∈ s.chat.users, u.id = -1 := by
      simpa [connectedCount, List.countP_eq_zero] using hzero
    refine ⟨hs.ok, hs.started, by simp, fun i u hu hlinked => ?_,
      by simp, fun c i _ hconnected _ => ?_⟩
    · exact absurd (hnone u (List.mem_of_getElem? hu)) (hs.linked i u hu hlinked).1
    · obtain ⟨u, hu, hid⟩ := (Option.any_eq_true _ _).1 hconnected
      exact absurd (hnone u (List.mem_of_getElem? hu)) (by simpa using hid)

/-- A step of the loop that changes the memory of the user at `k`. -/
theorem Told.update {s : State} {c i k : ℕ} {m : Shm} (h : Told s c i)
    (hm : i = k → m.stoc.comm = .disconnect ∧ (s.shm k).stcSem ≤ m.stcSem) :
    Told { s with shm := Function.update s.shm k m } c i := by
  by_cases hi : i = k
  · subst hi
    obtain ⟨hcomm, hle⟩ := hm rfl
    refine ⟨?_, fun hlistener => ?_⟩
    · change (Function.update s.shm i m i).stoc.comm = _
      rwa [Function.update_self]
    · change (Function.update s.shm i m i).stcSem ≠ 0
      have hstc := h.2 hlistener
      rw [Function.update_self]
      omega
  · refine ⟨?_, fun hlistener => ?_⟩
    · change (Function.update s.shm k m i).stoc.comm = _
      rw [Function.update_of_ne hi]
      exact h.1
    · change (Function.update s.shm k m i).stcSem ≠ 0
      rw [Function.update_of_ne hi]
      exact h.2 hlistener

theorem Shutting.unlink {s : Ending} {k : ℕ} {pc : Shutdown} (hs : Shutting s)
    (hwait : s.shutdown = .wait k) {m : Shm}
    (hm : m.stoc = (s.chat.shm k).stoc ∧ m.stcSem = (s.chat.shm k).stcSem) :
    Shutting (Ending.unlink ⟨{ s.chat with shm := Function.update s.chat.shm k m }, pc⟩ k) := by
  refine ⟨hs.ok, hs.started, nofun, fun i u hu hlinked => ?_, nofun,
    fun c i hsole hconnected hposted => ?_⟩
  · change (s.chat.users.modify k _)[i]? = some u at hu
    rw [List.getElem?_modify] at hu
    obtain ⟨u', hu', rfl⟩ := Option.map_eq_some_iff.1 hu
    by_cases hi : k = i
    · simp [hi] at hlinked
    · rw [if_neg hi] at hlinked ⊢
      obtain ⟨hid, hnot⟩ := hs.linked i u' hu' hlinked
      rw [hwait] at hnot
      refine ⟨hid, fun hlt => ?_⟩
      have hlt' : i < k + 1 := hlt
      have hnot' : ¬ i < k := hnot
      omega
  · have hconnected' : s.chat.connected i = true := by
      obtain ⟨u, hu, hid⟩ := (Option.any_eq_true _ _).1 hconnected
      change (s.chat.users.modify k _)[i]? = some u at hu
      rw [List.getElem?_modify] at hu
      obtain ⟨u', hu', rfl⟩ := Option.map_eq_some_iff.1 hu
      refine (Option.any_eq_true _ _).2 ⟨u', hu', ?_⟩
      by_cases hi : k = i
      · rwa [if_pos hi] at hid
      · rwa [if_neg hi] at hid
    have hle : i ≤ k := Nat.le_of_lt_succ hposted
    have htold := hs.told c i hsole hconnected' (hwait ▸ hle)
    exact htold.update fun heq => ⟨hm.1 ▸ heq ▸ htold.1, hm.2.ge⟩

theorem shutting_step {s t : Ending} {e : Event} (hs : Shutting s) (h : EndingStep s e t) :
    Shutting t := by
  cases h with
  | chat h ha => exact hs.chat h ha
  | exit hoff => exact hs.exit hoff
  | @write k hloop hk hconnected =>
    refine ⟨hs.ok, hs.started, nofun, fun i u hu hlinked => ?_, ?_,
      fun c i hsole hconnected hposted => ?_⟩
    · have hlinked' := hs.linked i u hu hlinked
      rwa [hloop] at hlinked'
    · rintro k' ⟨⟩
      change (Function.update s.chat.shm k _ k).stoc.comm = _
      rw [Function.update_self]
    · have hi : i < k := hposted
      exact (hs.told c i hsole hconnected (hloop ▸ hposted)).update fun heq => by omega
  | @skip k hloop hk hconnected =>
    refine ⟨hs.ok, hs.started, nofun, fun i u hu hlinked => ?_, nofun,
      fun c i hsole hconn hposted => ?_⟩
    · obtain ⟨hid, hi⟩ := hs.linked i u hu hlinked
      rw [hloop] at hi
      refine ⟨hid, fun hlt => ?_⟩
      obtain rfl : i = k := by
        simp only [Shutdown.Unlinked] at hi hlt
        omega
      simp [State.connected, hu, hid] at hconnected
    · have hi : i ≠ k := by
        rintro rfl
        rw [hconnected] at hconn
        cases hconn
      have hlt : i < k + 1 := hposted
      exact hs.told c i hsole hconn (hloop ▸ show i < k by omega)
  | @finish k hloop hk =>
    refine ⟨hs.ok, hs.started, nofun, fun i u hu hlinked => ?_, nofun,
      fun c i hsole hconnected _ => ?_⟩
    · have hi := (hs.linked i u hu hlinked).2
      rw [hloop] at hi
      exact absurd ((List.lt_length_of_getElem?_eq_some hu).trans_le hk) hi
    · obtain ⟨u, hu, -⟩ := (Option.any_eq_true _ _).1 hconnected
      have hi := (List.lt_length_of_getElem?_eq_some hu).trans_le hk
      exact hs.told c i hsole hconnected (hloop ▸ hi)
  | @post k hpost =>
    refine ⟨hs.ok, hs.started, nofun, fun i u hu hlinked => ?_, nofun,
      fun c i hsole hconnected hposted => ?_⟩
    · have hlinked' := hs.linked i u hu hlinked
      rwa [hpost] at hlinked'
    · by_cases hi : i = k
      · subst hi
        refine ⟨?_, fun _ => ?_⟩
        · change (Function.update s.chat.shm i _ i).stoc.comm = _
          rw [Function.update_self]
          exact hs.writing i hpost
        · change (Function.update s.chat.shm i _ i).stcSem ≠ 0
          rw [Function.update_self]
          exact Nat.succ_ne_zero _
      · have hle : i ≤ k := hposted
        exact (hs.told c i hsole hconnected (hpost ▸ lt_of_le_of_ne hle hi)).update
          fun heq => absurd heq hi
  | @answered k hwait hsrv => exact hs.unlink hwait ⟨rfl, rfl⟩
  | @timeout k hwait hsrv =>
    have h : Shutting (Ending.unlink ⟨{ s.chat with
        shm := Function.update s.chat.shm k (s.chat.shm k) }, s.shutdown⟩ k) :=
      hs.unlink hwait ⟨rfl, rfl⟩
    rwa [Function.update_eq_self] at h

theorem shutting {s : Ending} (hs : ending.Reachable s) : Shutting s := by
  refine hs.invariant (I := Shutting) (fun s hinit => ?_) fun s e t _ ih h =>
    shutting_step ih (endingStep_step h)
  obtain rfl := hinit
  exact ⟨nofun, nofun, fun _ => ⟨initial, rfl, .refl⟩, nofun, nofun, nofun⟩

/-! ### How long the end takes -/

/-- The steps that `shutdown_server` still makes, with `n` users. -/
def Shutdown.rest (n : ℕ) : Shutdown → ℕ
  | .off | .done => 0
  | .loop k => 3 * (n - k) + 1
  | .post k => 3 * (n - (k + 1)) + 3
  | .wait k => 3 * (n - (k + 1)) + 2

/-- A step of `shutdown_server`. -/
def Event.ofShutdown : Event → Bool
  | .shutdown | .timeout => true
  | .chat _ | .exit => false

theorem EndingStep.rest {s t : Ending} {e : Event} (h : EndingStep s e t)
    (hoff : s.shutdown ≠ .off) : t.shutdown ≠ .off ∧
      t.chat.users.length = s.chat.users.length ∧
      t.shutdown.rest s.chat.users.length + (if e.ofShutdown = true then 1 else 0) ≤
        s.shutdown.rest s.chat.users.length := by
  cases h with
  | @chat a chat h ha =>
    have hclient : a.ofServer = false := Bool.eq_false_iff.2 fun h => hoff (ha h)
    exact ⟨hoff, congrArg List.length ((step_chatStep h).of_client (k := 0) hclient).1, le_rfl⟩
  | exit h => exact absurd h hoff
  | write hloop hk | skip hloop hk | finish hloop hk =>
    rw [hloop]
    refine ⟨nofun, rfl, ?_⟩
    simp only [Shutdown.rest, Event.ofShutdown, if_true]
    omega
  | post hpost =>
    rw [hpost]
    exact ⟨nofun, rfl, le_rfl⟩
  | answered hwait | timeout hwait =>
    rw [hwait]
    refine ⟨nofun, List.length_modify .., ?_⟩
    simp only [Ending.unlink, Shutdown.rest, Event.ofShutdown, if_true]
    omega

theorem rest_run {s t : Ending} {as : List Event} (h : ending.run s as = some t)
    (hoff : s.shutdown ≠ .off) : t.shutdown ≠ .off ∧
      as.countP Event.ofShutdown ≤ s.shutdown.rest s.chat.users.length := by
  induction as generalizing s with
  | nil =>
    obtain rfl := Option.some.inj h
    exact ⟨hoff, Nat.zero_le _⟩
  | cons e as ih =>
    rw [Machine.run_cons] at h
    obtain ⟨u, hu, hrun⟩ := Option.bind_eq_some_iff.1 h
    obtain ⟨hoff', hlength, hrest⟩ := (endingStep_step hu).rest hoff
    obtain ⟨hend, hcount⟩ := ih hrun hoff'
    rw [hlength] at hcount
    rw [List.countP_cons]
    exact ⟨hend, by omega⟩

/-- **The end of the server.** From the call of `exit` on, whatever the clients do,
`shutdown_server` makes at most three steps for each user and one more, and until it is done it can
make one. -/
theorem shutdown_steps {s₀ s t : Ending} {as : List Event} (hexit : ending.step s₀ .exit = some s)
    (hrun : ending.run s as = some t) :
    as.countP Event.ofShutdown ≤ 3 * s.chat.users.length + 1 ∧
      (t.shutdown ≠ .done → (shutdownServer t).isSome ∨ (shutdownTimeout t).isSome) := by
  have hstart : s.shutdown ≠ .off ∧ s.shutdown.rest s.chat.users.length ≤
      3 * s.chat.users.length + 1 := by
    cases endingStep_step hexit with
    | exit =>
      split
      · exact ⟨nofun, le_rfl⟩
      · exact ⟨nofun, Nat.zero_le _⟩
  obtain ⟨hoff, hcount⟩ := rest_run hrun hstart.1
  refine ⟨hcount.trans hstart.2, fun hdone => ?_⟩
  cases hpc : t.shutdown with
  | off => exact absurd hpc hoff
  | done => exact absurd hpc hdone
  | loop k =>
    left
    simp only [shutdownServer, hpc]
    split
    · split <;> rfl
    · rfl
  | post k => simp [shutdownServer, hpc]
  | wait k =>
    by_cases hsrv : (t.chat.shm k).srvSem = 0
    · right
      simp [shutdownTimeout, hpc, hsrv]
    · left
      simp [shutdownServer, hpc, hsrv]

/-! ### Which clients end -/

/-- The steps of a `msg_handler` until it has read a command. -/
def HandlerPc.rest : HandlerPc → ℕ
  | .off | .poll => 2
  | .readComm => 1
  | .readMsg _ => 4
  | .postSrv => 3

/-- A step of the `msg_handler` of client `c`. -/
def Action.ofHandler (c : ℕ) : Action → Bool
  | .handler c' _ => c' = c
  | _ => false

def Event.ofHandler (c : ℕ) : Event → Bool
  | .chat a => a.ofHandler c
  | _ => false

/-- What a client was before a step that a client makes, when nothing is linked any more. -/
structure Before (s : State) (c : ℕ) (counts : Bool) (cl cl₀ : Client) : Prop where
  shmBuf : cl.shmBuf = cl₀.shmBuf
  alive : cl.alive = true → cl₀.alive = true
  rest : cl.alive = true → (∀ i, cl.shmBuf = some i → Told s c i) →
    cl.handler.rest + (if counts = true then 1 else 0) ≤ cl₀.handler.rest

section Last

variable {s t : State} {a : Action} {c c' i : ℕ} {cl cl₀ : Client} {f : Client → Client}

/-- The other clients stay as they are. -/
theorem before_modify {counts : Bool} (hcl : (s.clients.modify c' f)[c]? = some cl)
    (hcounts : c' ≠ c → counts = false)
    (hf : ∀ cl₀, c' = c → s.clients[c]? = some cl₀ → Before s c counts (f cl₀) cl₀) :
    ∃ cl₀, s.clients[c]? = some cl₀ ∧ Before s c counts cl cl₀ := by
  rw [List.getElem?_modify] at hcl
  obtain ⟨cl₀, hcl₀, rfl⟩ := Option.map_eq_some_iff.1 hcl
  refine ⟨cl₀, hcl₀, ?_⟩
  by_cases hc : c' = c
  · rw [if_pos hc]
    exact hf cl₀ hc hcl₀
  · rw [if_neg hc]
    exact ⟨rfl, id, fun _ _ => by simp [hcounts hc]⟩

/-- A step that leaves the `msg_handler` alone. -/
theorem Before.same (hshmBuf : cl.shmBuf = cl₀.shmBuf) (halive : cl.alive = true → cl₀.alive = true)
    (hhandler : cl.handler.rest = cl₀.handler.rest) : Before s c false cl cl₀ :=
  ⟨hshmBuf, halive, fun _ _ => hhandler.le⟩

theorem before_step (h : sharedChat.step s a = some t) (ha : a.ofServer = false)
    (hok : s.ClientsOk) (hlinked : ∀ u ∈ s.users, u.linked = false)
    (hcl : t.clients[c]? = some cl) (hmapped : cl.shmBuf ≠ none) :
    ∃ cl₀, s.clients[c]? = some cl₀ ∧ Before s c (a.ofHandler c) cl cl₀ := by
  cases step_chatStep h with
  | server | timeout => cases ha
  | connect login =>
    obtain hcl₀ | ⟨-, rfl⟩ := List.getElem?_concat_eq_some.1 hcl
    · exact ⟨cl, hcl₀, .same rfl id rfl⟩
    · exact absurd rfl hmapped
  | login _ _ hlogin =>
    cases hlogin with
    | @openShm i _ _ hopen =>
      obtain ⟨u, hu, hlink⟩ := (Option.any_eq_true _ _).1 hopen
      rw [hlinked u (List.mem_of_getElem? hu)] at hlink
      cases hlink
    | _ => exact before_modify hcl (fun _ => rfl) fun _ _ _ => .same rfl id rfl
  | main hcl' _ _ _ hmain =>
    obtain ⟨m, f, rfl, -, -, hmove⟩ := mainLoop_frame hmain
    refine before_modify hcl (fun _ => rfl) fun cl₀ hc hcl₀ => ?_
    subst hc
    obtain rfl := Option.some.inj (hcl'.symm.trans hcl₀)
    have hm := hmove _ rfl
    refine .same hm.shmBuf hm.alive ?_
    rw [hm.handler]
    split
    · rename_i hspawn
      rw [(hok _ _ hcl₀).off (.inr hspawn)]
      rfl
    · rfl
  | input _ _ _ hinput =>
    obtain ⟨text, rfl, rfl⟩ | ⟨rfl, rfl⟩ := hinput
    all_goals exact before_modify hcl (fun _ => rfl) fun _ _ _ => .same rfl id rfl
  | kill => exact before_modify hcl (fun _ => rfl) fun _ _ _ => .same rfl nofun rfl
  | @handler c' i' junk cl' _ hcl' halive' hi' hstep =>
    have hcounts : c' ≠ c → (Action.handler c' junk).ofHandler c = false := fun hne => by
      simp [Action.ofHandler, hne]
    have hself {pc : HandlerPc} (hrest : pc.rest + 1 = cl'.handler.rest)
        (cl₀ : Client) (hc : c' = c) (hcl₀ : s.clients[c]? = some cl₀) :
        Before s c ((Action.handler c' junk).ofHandler c) { cl₀ with handler := pc } cl₀ := by
      subst hc
      obtain rfl := Option.some.inj (hcl'.symm.trans hcl₀)
      exact ⟨rfl, id, fun _ _ => by simp [Action.ofHandler, hrest]⟩
    have hquit (hpc : cl'.handler = .readComm) (cl₀ : Client) (hc : c' = c)
        (hcl₀ : s.clients[c]? = some cl₀) (htold : ∀ i, cl₀.shmBuf = some i → Told s c i) :
        t = s.modifyClient c fun cl => { cl with alive := false } := by
      subst hc
      obtain rfl := Option.some.inj (hcl'.symm.trans hcl₀)
      exact Option.some.inj
        (h.symm.trans (msgHandler_disconnect hcl' halive' hi' hpc (htold i' hi').1 junk))
    cases hstep with
    | take hpc => exact before_modify hcl hcounts (hself (by rw [hpc]; rfl))
    | readMsg hpc => exact before_modify hcl hcounts (hself (by rw [hpc]; rfl))
    | postSrv hpc => exact before_modify hcl hcounts (hself (by rw [hpc]; rfl))
    | quit hpc => exact before_modify hcl hcounts fun _ _ _ => ⟨rfl, nofun, nofun⟩
    | readComm hpc | ignore hpc =>
      refine before_modify hcl hcounts fun cl₀ hc hcl₀ => ⟨rfl, id, fun halive htold => ?_⟩
      -- the client has ended instead
      have hstate := hquit hpc cl₀ hc hcl₀ htold
      subst hc
      have hclient := congrArg (fun s : State => (s.clients[c']?).map Client.alive) hstate
      simp [State.setHandler, State.modifyClient, hcl₀] at hclient
      rw [halive] at hclient
      cases hclient

/-- Neither the `msg_handler` nor the main thread on its way to create it is blocked. -/
theorem goes_on (hcl : s.clients[c]? = some cl) (halive : cl.alive = true) (hok : cl.Ok)
    (hstarted : cl.Started) (hi : cl.shmBuf = some i) (htold : Told s c i) :
    (msgHandler s c []).isSome ∨ (thirdTaskClient s c 0).isSome := by
  cases hpc : cl.handler with
  | off =>
    right
    have hmapped : cl.pc.mapped = true := by
      by_contra hnot
      cases (hok.unmapped (Bool.eq_false_iff.2 hnot)).symm.trans hi
    have hpc' : cl.pc = .postSrv ∨ cl.pc = .spawn := by
      refine (hstarted hpc).imp_left fun hlogin => ?_
      cases hcase : cl.pc <;> simp_all [ClientPc.loggingIn, ClientPc.mapped, ClientPc.hasId]
    rcases hpc' with hpc' | hpc' <;>
      simp [thirdTaskClient, hcl, halive, hpc', hi, mainLoop]
  | poll =>
    left
    have hstc := htold.2 (by simp [listener_eq hcl hi, hpc])
    simp [msgHandler, hcl, halive, hi, hpc, hstc]
  | readComm =>
    left
    rw [msgHandler_disconnect hcl halive hi hpc htold.1]
    rfl
  | readMsg | postSrv =>
    left
    simp [msgHandler, hcl, halive, hi, hpc]

end Last

/-- After the end of the server only clients make steps. -/
theorem EndingStep.after_done {s t : Ending} {e : Event} (h : EndingStep s e t)
    (hdone : s.shutdown = .done) : ∃ a chat, e = .chat a ∧ t = ⟨chat, .done⟩ ∧
      sharedChat.step s.chat a = some chat ∧ a.ofServer = false := by
  cases h with
  | @chat a chat h ha =>
    refine ⟨a, chat, rfl, by rw [hdone], h, Bool.eq_false_iff.2 fun hserver => ?_⟩
    cases (ha hserver).symm.trans hdone
  | exit h | write h | skip h | finish h | post h | answered h | timeout h =>
    cases h.symm.trans hdone

/-- What a client was when the server ended. -/
theorem before_run {s t : Ending} {as : List Event} (hs : ending.Reachable s)
    (hdone : s.shutdown = .done) (h : ending.run s as = some t) :
    t.shutdown = .done ∧ t.chat.users = s.chat.users ∧
    ∀ c cl, t.chat.clients[c]? = some cl → cl.shmBuf ≠ none →
      ∃ cl₀, s.chat.clients[c]? = some cl₀ ∧ cl.shmBuf = cl₀.shmBuf ∧
        (cl.alive = true → cl₀.alive = true ∧
          ∀ i, cl.shmBuf = some i → s.chat.connected i = true → s.chat.Sole c i →
            cl.handler.rest + as.countP (Event.ofHandler c) ≤ cl₀.handler.rest) := by
  induction as generalizing s with
  | nil =>
    obtain rfl := Option.some.inj h
    exact ⟨hdone, rfl, fun c cl hcl _ =>
      ⟨cl, hcl, rfl, fun halive => ⟨halive, fun _ _ _ _ => le_rfl⟩⟩⟩
  | cons e as ih =>
    rw [Machine.run_cons] at h
    obtain ⟨u, hu, hrun⟩ := Option.bind_eq_some_iff.1 h
    have hreachable := hs.step hu
    obtain ⟨a, chat, rfl, rfl, hstep, hclient⟩ := (endingStep_step hu).after_done hdone
    obtain ⟨hend, husers, hback⟩ := ih hreachable rfl hrun
    have hshut := shutting hs
    have husers' : chat.users = s.chat.users :=
      ((step_chatStep hstep).of_client (k := 0) hclient).1
    have hlinked : ∀ u ∈ s.chat.users, u.linked = false := fun u hu => by
      obtain ⟨i, hi⟩ := List.mem_iff_getElem?.1 hu
      refine Bool.eq_false_iff.2 fun hlink => (hshut.linked i u hi hlink).2 ?_
      rw [hdone]
      trivial
    have hfirst {c : ℕ} {cl : Client} (hcl : chat.clients[c]? = some cl)
        (hmapped : cl.shmBuf ≠ none) :=
      before_step hstep hclient hshut.ok hlinked hcl hmapped
    refine ⟨hend, husers.trans husers', fun c cl hcl hmapped => ?_⟩
    obtain ⟨cl₁, hcl₁, hshm, hrest⟩ := hback c cl hcl hmapped
    obtain ⟨cl₀, hcl₀, hbefore⟩ := hfirst hcl₁ (hshm ▸ hmapped)
    refine ⟨cl₀, hcl₀, hshm.trans hbefore.shmBuf, fun halive => ?_⟩
    obtain ⟨halive₁, hcount⟩ := hrest halive
    refine ⟨hbefore.alive halive₁, fun i hi hconnected hsole => ?_⟩
    have hconnected' : chat.connected i = true := by
      rwa [State.connected, husers']
    have hsole' : chat.Sole c i := fun c' cl' hcl' hi' => by
      obtain ⟨cl₀', hcl₀', hbefore'⟩ := hfirst hcl' (by simp [hi'])
      exact hsole c' cl₀' hcl₀' (hbefore'.shmBuf ▸ hi')
    have htold : Told s.chat c i := hshut.told c i hsole hconnected (by rw [hdone]; trivial)
    have hcount' := hcount i hi hconnected' hsole'
    have hrest' := hbefore.rest halive₁ fun j hj => by
      obtain rfl := Option.some.inj ((hshm ▸ hi).symm.trans hj)
      exact htold
    rw [List.countP_cons]
    change _ + (_ + if a.ofHandler c = true then 1 else 0) ≤ _
    omega

/-- **Clients at the end.** When `shutdown_server` is done, no user's memory is linked any more, so
that no client maps any later on; and the client of a user who was connected, if no other client has
adopted the user's id, ends: its `msg_handler` makes at most three more steps before, and until then
the client is not blocked. -/
theorem shutdown_clients {s t : Ending} {as : List Event} (hs : ending.Reachable s)
    (hdone : s.shutdown = .done) (hrun : ending.run s as = some t) :
    (∀ u ∈ t.chat.users, u.linked = false) ∧
    ∀ c cl i, t.chat.clients[c]? = some cl → cl.shmBuf = some i →
      (∃ cl₀, s.chat.clients[c]? = some cl₀ ∧ cl₀.shmBuf = some i) ∧
      (s.chat.connected i = true → s.chat.Sole c i → cl.alive = true →
        as.countP (Event.ofHandler c) ≤ 3 ∧
        ((msgHandler t.chat c []).isSome ∨ (thirdTaskClient t.chat c 0).isSome)) := by
  obtain ⟨hend, husers, hback⟩ := before_run hs hdone hrun
  have ht : ending.Reachable t := hs.path (Machine.path_of_runUnder hrun)
  have hshut := shutting ht
  refine ⟨fun u hu => ?_, fun c cl i hcl hi => ?_⟩
  · obtain ⟨i, hi⟩ := List.mem_iff_getElem?.1 hu
    refine Bool.eq_false_iff.2 fun hlink => (hshut.linked i u hi hlink).2 ?_
    rw [hend]
    trivial
  · obtain ⟨cl₀, hcl₀, hshm, hrest⟩ := hback c cl hcl (by simp [hi])
    refine ⟨⟨cl₀, hcl₀, hshm ▸ hi⟩, fun hconnected hsole halive => ⟨?_, ?_⟩⟩
    · have hcount := (hrest halive).2 i hi hconnected hsole
      have hle : cl₀.handler.rest ≤ 4 := by
        cases cl₀.handler <;> simp [HandlerPc.rest]
      have hpos : 0 < cl.handler.rest := by
        cases cl.handler <;> simp [HandlerPc.rest]
      omega
    · have hconnected' : t.chat.connected i = true := by
        rwa [State.connected, husers]
      have hsole' : t.chat.Sole c i := fun c' cl' hcl' hi' => by
        obtain ⟨cl₀', hcl₀', hshm', -⟩ := hback c' cl' hcl' (by simp [hi'])
        exact hsole c' cl₀' hcl₀' (hshm' ▸ hi')
      have htold := hshut.told c i hsole' hconnected' (by rw [hend]; trivial)
      exact goes_on hcl halive (hshut.ok c cl hcl) (hshut.started c cl hcl) hi htold

/-- A client has registered, another one waits for its id, and the server is about to exit. -/
def twoWait : Ending := (ending.run ⟨initial, .off⟩
  ((Action.connect ['a'] :: Action.connect ['b'] :: requested 0 ++ adopted 0 ++ serverSteps 8 ++
    clientSteps 1 4).map .chat)).get (by decide +kernel)

/-- The server calls `exit`. -/
def twoLeft : Ending := (ending.step twoWait .exit).get (by decide +kernel)

/-- `shutdown_server` sends the command to the first client and does not get an answer. -/
def shutDown : Ending :=
  (ending.run twoLeft [.shutdown, .shutdown, .timeout, .shutdown]).get (by decide +kernel)

theorem shutdown_steps_shutDown : [Event.shutdown, .shutdown, .timeout, .shutdown].countP
      Event.ofShutdown ≤ 3 * twoLeft.chat.users.length + 1 ∧
    (shutDown.shutdown ≠ .done → (shutdownServer shutDown).isSome ∨
      (shutdownTimeout shutDown).isSome) :=
  shutdown_steps (Option.some_get _).symm (Option.some_get _).symm

/-- The `msg_handler` of the first client takes the command. -/
def firstTakes : Ending := (ending.run shutDown [.chat (.handler 0 [])]).get (by decide +kernel)

theorem shutDown_reachable : ending.Reachable shutDown := by
  have hwait : ending.Reachable twoWait := Machine.reachable_of_run rfl (Option.some_get _).symm
  have hleft : ending.Reachable twoLeft := hwait.step (Option.some_get _).symm
  exact hleft.path (Machine.path_of_runUnder (Option.some_get _).symm)

theorem shutDown_sole : shutDown.chat.Sole 0 0 := by
  intro c cl hcl hi
  have hlength : shutDown.chat.clients.length = 2 := by decide +kernel
  have hsecond : (shutDown.chat.clients[1]?).bind Client.shmBuf = none := by decide +kernel
  have hlt := List.lt_length_of_getElem?_eq_some hcl
  obtain rfl | rfl : c = 0 ∨ c = 1 := by omega
  · rfl
  · rw [hcl, Option.bind_some, hi] at hsecond
    cases hsecond

theorem shutdown_clients_firstTakes : [Event.chat (.handler 0 [])].countP (Event.ofHandler 0) ≤ 3 ∧
    ((msgHandler firstTakes.chat 0 []).isSome ∨ (thirdTaskClient firstTakes.chat 0 0).isSome) := by
  have hcl : (firstTakes.chat.clients[0]?).isSome = true := by decide +kernel
  obtain ⟨cl, hcl⟩ := Option.isSome_iff_exists.1 hcl
  have hmapped : (firstTakes.chat.clients[0]?).bind Client.shmBuf = some 0 := by decide +kernel
  have halive : (firstTakes.chat.clients[0]?).map Client.alive = some true := by decide +kernel
  rw [hcl] at hmapped halive
  exact ((shutdown_clients shutDown_reachable (by decide +kernel) (Option.some_get _).symm).2 0 cl 0
    hcl hmapped).2 (by decide +kernel) shutDown_sole (Option.some.inj halive)

end EmbeddedC.SharedChat
