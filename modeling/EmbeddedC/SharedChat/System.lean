import EmbeddedC.Lib.Machine
import EmbeddedC.Lib.Slots
import EmbeddedC.SharedChat.Client

/-!
# Homework 13: the chatroom

* `sharedChat`: the server and any number of clients, interleaved;
* `ChatStep`: what one step can do;
* `clients_ok`: every client is `Client.Ok`;
* `State.Sole`: only one client has mapped the memory of a user.

A client can end at any moment (`SIGINT`).
-/

namespace EmbeddedC.SharedChat

open Chatroom (Text)

/-- What can happen next: a step of the server, or a wait of it that times out; a new client, a
step of client `c` or of its `msg_handler`, what its user does, or its end. -/
inductive Action
  | server (junk : Text)
  | timeout
  | connect (login : Text)
  | client (c : ℕ) (junk : ℕ)
  | say (c : ℕ) (text : Text)
  | pressF3 (c : ℕ)
  | handler (c : ℕ) (junk : Text)
  | kill (c : ℕ)
  deriving DecidableEq

/-- The server before its main loop: the semaphores are new, `login.usr_sem` is 1. -/
def initial : State where
  server := .tryLogin
  users := []
  activeUsers := 0
  usersList := []
  tmpBuf := []
  login := ⟨some [], some 0, 0, 0, 0, 1⟩
  shm := fun _ => .fresh
  clients := []
  timedOut := 0

def step (s : State) : Action → Option State
  | .server junk => thirdTaskServer s junk
  | .timeout => serverTimeout s
  | .connect login => some { s with clients := s.clients ++ [newClient login] }
  | .client c junk => thirdTaskClient s c junk
  | .say c text => say s c text
  | .pressF3 c => pressF3 s c
  | .handler c junk => msgHandler s c junk
  | .kill c => some (s.modifyClient c fun cl => { cl with alive := false })

/-- `third_task_server` and its clients, interleaved. -/
def sharedChat : Machine State Action where
  init s := s = initial
  step := step

/-- `n` steps of the server. -/
def serverSteps (n : ℕ) : List Action := List.replicate n (.server [])

/-- `n` steps of client `c`. -/
def clientSteps (c n : ℕ) : List Action := List.replicate n (.client c 0)

/-- Client `c` requests a login and the server registers it. -/
def requested (c : ℕ) : List Action := clientSteps c 4 ++ serverSteps 5

/-- Client `c` adopts the id it is given, and starts its main loop. -/
def adopted (c : ℕ) : List Action := clientSteps c 5

/-! ### What one step does -/

/-- What one step can do. -/
inductive ChatStep (s : State) : Action → State → Prop
  | server {junk : Text} {t : State} (h : ServerStep s junk t) : ChatStep s (.server junk) t
  | timeout {t : State} (h : TimeoutStep s t) : ChatStep s .timeout t
  | connect (login : Text) :
      ChatStep s (.connect login) { s with clients := s.clients ++ [newClient login] }
  | login {c junk : ℕ} {cl : Client} {t : State} (hcl : s.clients[c]? = some cl)
      (halive : cl.alive = true) (h : LoginStep s c junk cl t) : ChatStep s (.client c junk) t
  | main {c junk i : ℕ} {cl : Client} {t : State} (hcl : s.clients[c]? = some cl)
      (halive : cl.alive = true) (hi : cl.shmBuf = some i) (hpc : cl.pc.loggingIn = false)
      (h : mainLoop s c i cl.pc = some t) : ChatStep s (.client c junk) t
  | input {a : Action} {c : ℕ} {cl : Client} {pc : ClientPc} (hcl : s.clients[c]? = some cl)
      (halive : cl.alive = true) (hmain : cl.pc = .main)
      (hinput : (∃ text, a = .say c text ∧ pc = .writeComm text) ∨ a = .pressF3 c ∧ pc = .quit) :
      ChatStep s a (s.setClient c pc)
  | handler {c i : ℕ} {junk : Text} {cl : Client} {t : State} (hcl : s.clients[c]? = some cl)
      (halive : cl.alive = true) (hi : cl.shmBuf = some i) (h : HandlerStep s c i junk cl t) :
      ChatStep s (.handler c junk) t
  | kill (c : ℕ) : ChatStep s (.kill c) (s.modifyClient c fun cl => { cl with alive := false })

theorem input_step {s t : State} {c : ℕ} {pc : ClientPc} (h : input s c pc = some t) :
    ∃ cl, s.clients[c]? = some cl ∧ cl.alive = true ∧ cl.pc = .main ∧ t = s.setClient c pc := by
  unfold input at h
  split at h
  · cases h
  · split at h
    · rename_i cl hcl hcond
      exact ⟨cl, hcl, hcond.1, hcond.2, (Option.some.inj h).symm⟩
    · cases h

theorem step_chatStep {s t : State} {a : Action} (h : sharedChat.step s a = some t) :
    ChatStep s a t := by
  cases a with
  | server junk => exact .server (thirdTaskServer_step h)
  | timeout => exact .timeout (serverTimeout_step h)
  | connect login =>
    obtain rfl := Option.some.inj h
    exact .connect login
  | client c junk =>
    obtain ⟨cl, hcl, halive, hlogin | ⟨i, hi, hpc, hmain⟩⟩ := thirdTaskClient_step h
    · exact .login hcl halive hlogin
    · exact .main hcl halive hi hpc hmain
  | say c text =>
    simp only [sharedChat, step, say] at h
    split at h
    · obtain ⟨cl, hcl, halive, hmain, rfl⟩ := input_step h
      exact .input hcl halive hmain (.inl ⟨text, rfl, rfl⟩)
    · cases h
  | pressF3 c =>
    obtain ⟨cl, hcl, halive, hmain, rfl⟩ := input_step h
    exact .input hcl halive hmain (.inr ⟨rfl, rfl⟩)
  | handler c junk =>
    obtain ⟨cl, hcl, halive, i, hi, hstep⟩ := msgHandler_step h
    exact .handler hcl halive hi hstep
  | kill c =>
    obtain rfl := Option.some.inj h
    exact .kill c

/-! ### The clients -/

/-- Every client is `Client.Ok`. -/
def State.ClientsOk (s : State) : Prop := ∀ (c : ℕ) (cl : Client), s.clients[c]? = some cl → cl.Ok

namespace State.ClientsOk

variable {s : State} {c : ℕ} {cl : Client} {f : Client → Client}

theorem modify (h : s.ClientsOk) (hcl : s.clients[c]? = some cl) (hok : (f cl).Ok) :
    (s.modifyClient c f).ClientsOk :=
  List.modify_forall h fun _ hcl' => Option.some.inj (hcl.symm.trans hcl') ▸ hok

theorem move (h : s.ClientsOk) (hcl : s.clients[c]? = some cl) {pc : ClientPc}
    (hid : pc.hasId = cl.pc.hasId) (hmapped : pc.mapped = cl.pc.mapped)
    (hoff : pc.loggingIn = true ∨ pc = .spawn → cl.pc.loggingIn = true ∨ cl.pc = .spawn) :
    (s.setClient c pc).ClientsOk :=
  h.modify hcl ((h c cl hcl).move hid hmapped hoff)

end State.ClientsOk

theorem clientsOk_login {s t : State} {c junk : ℕ} {cl : Client} (hs : s.ClientsOk)
    (hcl : s.clients[c]? = some cl) (h : LoginStep s c junk cl t) : t.ClientsOk := by
  have hok := hs c cl hcl
  cases h with
  | lockUsr hpc | writeName hpc | copyName hpc | postCts hpc | waitStc hpc =>
    exact hs.move hcl (by rw [hpc]; rfl) (by rw [hpc]; rfl) (by rw [hpc]; simp [ClientPc.loggingIn])
  | postSrv hpc =>
    exact hs.move hcl (by rw [hpc]; rfl) (by rw [hpc]; rfl) (by rw [hpc]; simp [ClientPc.loggingIn])
  | readId hpc =>
    refine hs.modify hcl ⟨?_, fun _ => ?_, ?_, fun _ => ?_⟩
    · simp [ClientPc.hasId]
    · exact hok.unmapped (by rw [hpc]; rfl)
    · simp [ClientPc.mapped]
    · exact hok.off (.inl (by rw [hpc]; rfl))
  | openShm hpc hid =>
    refine hs.modify hcl ⟨?_, ?_, fun _ => ⟨_, rfl, hid⟩, fun _ => ?_⟩
    · simp [ClientPc.hasId]
    · simp [ClientPc.mapped, ClientPc.hasId]
    · exact hok.off (.inl (by rw [hpc]; rfl))

theorem clientsOk_step {s t : State} {a : Action} (hs : s.ClientsOk) (h : ChatStep s a t) :
    t.ClientsOk := by
  cases h with
  | server h => cases h <;> exact hs
  | timeout h => cases h <;> exact hs
  | connect login => exact List.concat_forall hs (Client.newClient_ok login)
  | login hcl halive h => exact clientsOk_login hs hcl h
  | main hcl halive hi hpc h =>
    obtain ⟨m, f, rfl, -, -, hmove⟩ := mainLoop_frame h
    exact List.modify_forall hs fun _ hcl' =>
      Option.some.inj (hcl.symm.trans hcl') ▸ (hmove _ rfl).ok hpc (hs _ _ hcl)
  | input hcl halive hmain hinput =>
    refine hs.move hcl ?_ ?_ ?_ <;> rw [hmain] <;>
      obtain ⟨text, -, rfl⟩ | ⟨-, rfl⟩ := hinput <;>
      simp [ClientPc.loggingIn, ClientPc.hasId, ClientPc.mapped]
  | handler hcl halive hi h =>
    have hok := hs _ _ hcl
    cases h with
    | quit hpc => exact hs.modify hcl hok.die
    | take hpc | readComm hpc | ignore hpc | readMsg hpc | postSrv hpc =>
      exact hs.modify hcl (hok.setHandler (by simp [hpc]) _)
  | kill c => exact List.modify_forall hs fun cl hcl => (hs _ cl hcl).die

theorem clients_ok {s : State} (hs : sharedChat.Reachable s) : s.ClientsOk := by
  refine hs.invariant (fun s hinit => ?_) fun s a t _ ih h => clientsOk_step ih (step_chatStep h)
  obtain rfl := hinit
  exact fun c cl hcl => absurd hcl (Option.some_ne_none cl).symm

/-- A client that has mapped a user's memory keeps it. -/
theorem ChatStep.keeps_shmBuf {s t : State} {a : Action} (h : ChatStep s a t) (hs : s.ClientsOk)
    {c i : ℕ} {cl : Client} (hcl : s.clients[c]? = some cl) (hi : cl.shmBuf = some i) :
    ∃ cl', t.clients[c]? = some cl' ∧ cl'.shmBuf = some i := by
  have hmodify (c' : ℕ) (f : Client → Client)
      (hf : c' = c → (f cl).shmBuf = cl.shmBuf) :
      ∃ cl', (s.clients.modify c' f)[c]? = some cl' ∧ cl'.shmBuf = some i := by
    by_cases hc : c' = c
    · exact ⟨f cl, by simp [hc, hcl], (hf hc).trans hi⟩
    · exact ⟨cl, by simp [hc, hcl], hi⟩
  cases h with
  | server h => cases h <;> exact ⟨cl, hcl, hi⟩
  | timeout h => cases h <;> exact ⟨cl, hcl, hi⟩
  | connect login =>
    exact ⟨cl, (List.getElem?_append_left (List.lt_length_of_getElem?_eq_some hcl)).trans hcl, hi⟩
  | login hcl' halive h =>
    cases h with
    | openShm hpc =>
      refine hmodify _ _ fun hc => ?_
      subst hc
      obtain rfl := Option.some.inj (hcl.symm.trans hcl')
      cases ((hs _ _ hcl).unmapped (by rw [hpc]; rfl)).symm.trans hi
    | _ => exact hmodify _ _ fun _ => rfl
  | main hcl' halive hi' hpc h =>
    obtain ⟨m, f, rfl, -, -, hmove⟩ := mainLoop_frame h
    refine hmodify _ _ fun hc => ?_
    subst hc
    obtain rfl := Option.some.inj (hcl.symm.trans hcl')
    exact (hmove cl rfl).shmBuf
  | input => exact hmodify _ _ fun _ => rfl
  | handler hcl' halive hi' h => cases h <;> exact hmodify _ _ fun _ => rfl
  | kill c' => exact hmodify _ _ fun _ => rfl

/-- No client but `c` has mapped the memory of the user at `i`. -/
def State.Sole (s : State) (c i : ℕ) : Prop :=
  ∀ (c' : ℕ) (cl : Client), s.clients[c']? = some cl → cl.shmBuf = some i → c' = c

theorem sole_of_step {s t : State} {a : Action} {c i : ℕ} (hok : s.ClientsOk) (h : ChatStep s a t)
    (hsole : t.Sole c i) : s.Sole c i := by
  intro c' cl hcl hi
  obtain ⟨cl', hcl', hi'⟩ := h.keeps_shmBuf hok hcl hi
  exact hsole c' cl' hcl' hi'

end EmbeddedC.SharedChat
