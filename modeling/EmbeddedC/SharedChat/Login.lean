import EmbeddedC.SharedChat.System

/-!
# Homework 13: which client adopts which id

A login goes through the login segment: the client that has taken `login.usr_sem` sends its name
and reads the id that the server has written for it.  At any time at most one login is under way,
unless one that has timed out leaves a post behind, or a client that has still to read its id.

* `State.NoRename`: clients do not send new names;
* `Session`: how far the login that is under way has come;
* `LoginInv`: the invariant, for the client that is logging in and for all others;
* `Timely`: the user of a login that has timed out is removed only when nothing of it is left;
* `ids_adopted`: the ids adopted in every run in which that is so; `ids_not_adopted`: a run in which
  two clients adopt the same one;
* `sole_of_timely`: the memory of a user is mapped by one client.
-/

namespace EmbeddedC.SharedChat

open Chatroom (Text)

/-! ### New names -/

/-- No client has sent a new name, and the server does not read one. -/
structure State.NoRename (s : State) : Prop where
  comm (i : ℕ) : (s.shm i).ctos.comm ≠ .setUsrname
  server (index : ℕ) : s.server ≠ .rename index

theorem noRename_update {s : State} (hs : s.NoRename) {k : ℕ} {m : Shm}
    (hm : m.ctos.comm ≠ .setUsrname) (i : ℕ) :
    (Function.update s.shm k m i).ctos.comm ≠ .setUsrname :=
  (Function.forall_update_iff s.shm fun _ m => m.ctos.comm ≠ .setUsrname).2
    ⟨hm, fun i _ => hs.comm i⟩ i

theorem noRename_server {s t : State} {junk : Text} (hs : s.NoRename) (h : ServerStep s junk t) :
    t.NoRename := by
  cases h with
  | newName hpc hcomm => exact absurd hcomm (hs.comm _)
  | rename hpc => exact absurd hpc (hs.server _)
  | move hpc hmoves =>
    refine ⟨hs.comm, ?_⟩
    cases hmoves with
    | leave send => cases send <;> nofun
    | _ => nofun
  | login | register | writeId | copyId | postStc | loggedIn | unlink | postUsr | message =>
    exact ⟨hs.comm, nofun⟩
  | drop hpc hnext => exact ⟨hs.comm, by split at hnext <;> subst hnext <;> nofun⟩
  | plain hpc hnext =>
    refine ⟨noRename_update hs (hs.comm _), ?_⟩
    split at hnext <;> first | (subst hnext; nofun) | exact hnext.elim
  | @resume send => exact ⟨noRename_update hs (hs.comm _), by cases send <;> nofun⟩
  | _ => exact ⟨noRename_update hs (hs.comm _), nofun⟩

theorem no_rename {s : State} (hs : sharedChat.Reachable s) : s.NoRename := by
  refine hs.invariant (fun s hinit => ?_) fun s a t _ ih h => ?_
  · obtain rfl := hinit
    exact ⟨nofun, nofun⟩
  · cases step_chatStep h with
    | server h => exact noRename_server ih h
    | timeout h =>
      cases h with
      | login => exact ⟨ih.comm, nofun⟩
      | @reply send => exact ⟨ih.comm, by cases send <;> nofun⟩
    | connect | input | kill => exact ⟨ih.comm, ih.server⟩
    | login _ _ h => cases h <;> exact ⟨ih.comm, ih.server⟩
    | main _ _ _ _ h =>
      obtain ⟨m, f, rfl, -, hcomm, -⟩ := mainLoop_frame h
      refine ⟨noRename_update ih ?_, ih.server⟩
      obtain hcomm | hcomm | hcomm := hcomm <;> rw [hcomm]
      · exact ih.comm _
      all_goals nofun
    | handler _ _ _ h =>
      cases h with
      | readComm | quit | ignore => exact ⟨ih.comm, ih.server⟩
      | _ => exact ⟨noRename_update ih (ih.comm _), ih.server⟩

/-! ### The login that is under way -/

/-- Where the server is in a login. -/
inductive LoginPhase
  | away
  /-- has taken `login.cts_sem` -/
  | register
  /-- has a new entry and writes its id -/
  | writeId
  | postStc
  /-- waits for the client, or removes the new entry -/
  | wait
  /-- sends the user list, and posts `login.usr_sem` -/
  | notify
  deriving DecidableEq

def ServerPc.phase : ServerPc → LoginPhase
  | .register => .register
  | .writeId | .copyId => .writeId
  | .postStc => .postStc
  | .waitLogin | .unlink => .wait
  | .head .joined _ | .writeComm .joined _ | .writeMsg .joined _ | .copyMsg .joined _
  | .post .joined _ | .wait .joined _ | .postUsr => .notify
  | _ => .away

/-- The name that a client sends. -/
def Client.name (cl : Client) : Text := strncpy t3LoginMsgSize cl.login

/-- The values of `usr_sem`, `cts_sem`, `stc_sem` and `srv_sem`. -/
def Login.tokens (l : Login) : ℕ × ℕ × ℕ × ℕ := (l.usrSem, l.ctsSem, l.stcSem, l.srvSem)

/-- The entry of the user with id `k` has the name `name`. -/
def Named (users : List User) (k : ℕ) (name : Text) : Prop :=
  0 < k ∧ (users[k - 1]?).map User.login = some name

/-- How far the login that is under way has come; `holder` is the client until it has posted
`login.srv_sem`. -/
inductive Session (users : List User) (login : Login) : LoginPhase → Option Client → Prop
  | free (htokens : login.tokens = (1, 0, 0, 0)) : Session users login .away none
  | naming {cl : Client} (hpc : cl.pc = .writeName ∨ cl.pc = .copyName)
      (htokens : login.tokens = (0, 0, 0, 0)) : Session users login .away (some cl)
  | named {cl : Client} (hpc : cl.pc = .postCts) (htokens : login.tokens = (0, 0, 0, 0))
      (hname : login.ctos = some cl.name) : Session users login .away (some cl)
  | requested {cl : Client} (hpc : cl.pc = .waitStc) (htokens : login.tokens = (0, 1, 0, 0))
      (hname : login.ctos = some cl.name) : Session users login .away (some cl)
  | taken {cl : Client} (hpc : cl.pc = .waitStc) (htokens : login.tokens = (0, 0, 0, 0))
      (hname : login.ctos = some cl.name) : Session users login .register (some cl)
  | registered {cl : Client} (hpc : cl.pc = .waitStc) (htokens : login.tokens = (0, 0, 0, 0))
      (hnamed : Named users users.length cl.name) : Session users login .writeId (some cl)
  | numbered {cl : Client} (hpc : cl.pc = .waitStc) (htokens : login.tokens = (0, 0, 0, 0))
      (hnamed : Named users users.length cl.name) (hid : login.stoc = some users.length) :
      Session users login .postStc (some cl)
  | told {cl : Client} (hpc : cl.pc = .waitStc) (htokens : login.tokens = (0, 0, 1, 0))
      (hnamed : Named users users.length cl.name) (hid : login.stoc = some users.length) :
      Session users login .wait (some cl)
  | reading {cl : Client} (hpc : cl.pc = .readId) (htokens : login.tokens = (0, 0, 0, 0))
      (hnamed : Named users users.length cl.name) (hid : login.stoc = some users.length) :
      Session users login .wait (some cl)
  | opening {cl : Client} (hpc : cl.pc = .openShm ∨ cl.pc = .postSrv)
      (htokens : login.tokens = (0, 0, 0, 0)) (hid : cl.id = some users.length) :
      Session users login .wait (some cl)
  | confirmed (htokens : login.tokens = (0, 0, 0, 1)) : Session users login .wait none
  | notifying (htokens : login.tokens = (0, 0, 0, 0)) : Session users login .notify none

/-- A client that is not logging in: it does not use the login segment, unless it waits for the
memory of a user who is gone. -/
structure Client.Outside (users : List User) (cl : Client) : Prop where
  before : cl.pc ≠ .writeName ∧ cl.pc ≠ .copyName ∧ cl.pc ≠ .postCts ∧ cl.pc ≠ .waitStc
  inside : cl.alive = true → cl.pc ≠ .readId ∧ cl.pc ≠ .postSrv
  stuck : cl.alive = true → cl.pc = .openShm → ∀ i, cl.id = some (i + 1) →
    (users[i]?).any User.linked = false

/-- Client `h`, if any, is logging in. -/
structure LoginInv (users : List User) (login : Login) (phase : LoginPhase)
    (clients : List Client) (h : Option ℕ) : Prop where
  session : Session users login phase (h.bind fun c => clients[c]?)
  present (c : ℕ) : h = some c → c < clients.length
  outside (c : ℕ) (cl : Client) : clients[c]? = some cl → h ≠ some c → cl.Outside users
  named (c : ℕ) (cl : Client) (k : ℕ) : clients[c]? = some cl → cl.id = some k →
    Named users k cl.name
  fresh (cl : Client) : phase ≠ .away → phase ≠ .register →
    (h.bind fun c => clients[c]?) = some cl → cl.pc.hasId = false →
    ∀ (c : ℕ) (cl' : Client), clients[c]? = some cl' → cl'.id ≠ some users.length
  distinct (c c' : ℕ) (cl cl' : Client) (k : ℕ) : clients[c]? = some cl → clients[c']? = some cl' →
    cl.id = some k → cl'.id = some k → c = c'

/-! ### The entries -/

/-- The entries keep their names, and no memory appears. -/
structure SameNames (users users' : List User) : Prop where
  length : users'.length = users.length
  login (i : ℕ) : (users'[i]?).map User.login = (users[i]?).map User.login
  linked (i : ℕ) : (users[i]?).any User.linked = false → (users'[i]?).any User.linked = false

theorem SameNames.modify (users : List User) (i : ℕ) {f : User → User}
    (hlogin : ∀ u, (f u).login = u.login) (hlinked : ∀ u, (f u).linked = false) :
    SameNames users (users.modify i f) where
  length := List.length_modify ..
  login j := by
    rw [List.getElem?_modify]
    cases users[j]? with
    | none => rfl
    | some u => by_cases hi : i = j <;> simp [hi, hlogin]
  linked j hj := by
    rw [List.getElem?_modify]
    cases hu : users[j]? with
    | none => rfl
    | some u => by_cases hi : i = j <;> simp_all

section Users

variable {users users' : List User} {login login' : Login} {phase phase' : LoginPhase}
  {clients : List Client} {h : Option ℕ} {k : ℕ} {name : Text}

theorem Named.le_length (hnamed : Named users k name) : k ≤ users.length := by
  obtain ⟨hk, hmap⟩ := hnamed
  obtain ⟨u, hu, -⟩ := Option.map_eq_some_iff.1 hmap
  have hlt := List.lt_length_of_getElem?_eq_some hu
  omega

theorem Named.same (hnamed : Named users k name) (hsame : SameNames users users') :
    Named users' k name := ⟨hnamed.1, (hsame.login _).trans hnamed.2⟩

theorem Named.concat (hnamed : Named users k name) (u : User) : Named (users ++ [u]) k name := by
  obtain ⟨hk, hmap⟩ := hnamed
  obtain ⟨u', hu, -⟩ := Option.map_eq_some_iff.1 hmap
  refine ⟨hk, ?_⟩
  rwa [List.getElem?_append_left (List.lt_length_of_getElem?_eq_some hu)]

theorem Session.same {holder : Option Client} (hsession : Session users login phase holder)
    (hsame : SameNames users users') : Session users' login phase holder := by
  cases hsession with
  | free htokens => exact .free htokens
  | naming hpc htokens => exact .naming hpc htokens
  | named hpc htokens hname => exact .named hpc htokens hname
  | requested hpc htokens hname => exact .requested hpc htokens hname
  | taken hpc htokens hname => exact .taken hpc htokens hname
  | registered hpc htokens hnamed =>
    exact .registered hpc htokens (hsame.length.symm ▸ hnamed.same hsame)
  | numbered hpc htokens hnamed hid =>
    exact .numbered hpc htokens (hsame.length.symm ▸ hnamed.same hsame) (hsame.length.symm ▸ hid)
  | told hpc htokens hnamed hid =>
    exact .told hpc htokens (hsame.length.symm ▸ hnamed.same hsame) (hsame.length.symm ▸ hid)
  | reading hpc htokens hnamed hid =>
    exact .reading hpc htokens (hsame.length.symm ▸ hnamed.same hsame) (hsame.length.symm ▸ hid)
  | opening hpc htokens hid => exact .opening hpc htokens (hsame.length.symm ▸ hid)
  | confirmed htokens => exact .confirmed htokens
  | notifying htokens => exact .notifying htokens

theorem Client.Outside.same {cl : Client} (hcl : cl.Outside users)
    (hsame : SameNames users users') : cl.Outside users' :=
  ⟨hcl.before, hcl.inside, fun halive hpc i hid => hsame.linked i (hcl.stuck halive hpc i hid)⟩

/-- A step that keeps the names. -/
theorem LoginInv.same (hinv : LoginInv users login phase clients h)
    (hsame : SameNames users users') : LoginInv users' login phase clients h where
  session := hinv.session.same hsame
  present := hinv.present
  outside c cl hcl hc := (hinv.outside c cl hcl hc).same hsame
  named c cl k hcl hid := (hinv.named c cl k hcl hid).same hsame
  fresh := hsame.length ▸ hinv.fresh
  distinct := hinv.distinct

/-- A step of the server in a login. -/
theorem LoginInv.server (hinv : LoginInv users login phase clients h)
    (hsession : Session users login' phase' (h.bind fun c => clients[c]?))
    (hphase : phase = .away ∨ phase = .register → phase' = .away ∨ phase' = .register) :
    LoginInv users login' phase' clients h where
  session := hsession
  present := hinv.present
  outside := hinv.outside
  named := hinv.named
  fresh cl haway hregister := hinv.fresh cl
    (fun hp => (hphase (.inl hp)).elim haway hregister)
    (fun hp => (hphase (.inr hp)).elim haway hregister)
  distinct := hinv.distinct

/-- The server registers the client that is logging in. -/
theorem LoginInv.register (hinv : LoginInv users login .register clients h) (junk : Text) :
    LoginInv (users ++ [newUser (users.length + 1) (login.ctos.getD junk)]) login .writeId
      clients h := by
  obtain ⟨cl, hholder, hpc, htokens, hname⟩ : ∃ cl, (h.bind fun c => clients[c]?) = some cl ∧
      cl.pc = .waitStc ∧ login.tokens = (0, 0, 0, 0) ∧ login.ctos = some cl.name := by
    generalize hholder : (h.bind fun c => clients[c]?) = holder
    cases hholder ▸ hinv.session with
    | taken hpc htokens hname => exact ⟨_, rfl, hpc, htokens, hname⟩
  set u := newUser (users.length + 1) (login.ctos.getD junk)
  have hlength : (users ++ [u]).length = users.length + 1 := by simp
  have hlogin : u.login = cl.name := by
    change strncpy t3LoginMsgSize (login.ctos.getD junk) = cl.name
    rw [hname, Option.getD_some, Client.name, strncpy, strncpy, List.take_take, min_self]
  constructor
  case session =>
    rw [hholder]
    exact .registered hpc htokens ⟨by omega, by simp [hlogin]⟩
  case present => exact hinv.present
  case outside =>
    intro c cl hcl hc
    obtain ⟨hbefore, hinside, hstuck⟩ := hinv.outside c cl hcl hc
    refine ⟨hbefore, hinside, fun halive hpc i hid => ?_⟩
    have hle := (hinv.named c cl _ hcl hid).le_length
    rw [List.getElem?_append_left hle]
    exact hstuck halive hpc i hid
  case named => exact fun c cl k hcl hid => (hinv.named c cl k hcl hid).concat u
  case fresh =>
    intro _ _ _ _ _ c cl' hcl' hid
    have hle := (hinv.named c cl' _ hcl' hid).le_length
    omega
  case distinct => exact hinv.distinct

end Users

/-! ### The clients -/

section Clients

variable {users : List User} {login login' : Login} {phase : LoginPhase} {clients : List Client}
  {h : Option ℕ} {c : ℕ} {cl cl' : Client} {f : Client → Client}

theorem Session.congr (hsession : Session users login phase (some cl)) (hpc : cl'.pc = cl.pc)
    (hid : cl'.id = cl.id) (hlogin : cl'.login = cl.login) :
    Session users login phase (some cl') := by
  have hname : cl'.name = cl.name := congrArg (strncpy t3LoginMsgSize) hlogin
  cases hsession with
  | naming h htokens => exact .naming (hpc ▸ h) htokens
  | named h htokens hctos => exact .named (hpc ▸ h) htokens (hname ▸ hctos)
  | requested h htokens hctos => exact .requested (hpc ▸ h) htokens (hname ▸ hctos)
  | taken h htokens hctos => exact .taken (hpc ▸ h) htokens (hname ▸ hctos)
  | registered h htokens hnamed => exact .registered (hpc ▸ h) htokens (hname ▸ hnamed)
  | numbered h htokens hnamed hstoc => exact .numbered (hpc ▸ h) htokens (hname ▸ hnamed) hstoc
  | told h htokens hnamed hstoc => exact .told (hpc ▸ h) htokens (hname ▸ hnamed) hstoc
  | reading h htokens hnamed hstoc => exact .reading (hpc ▸ h) htokens (hname ▸ hnamed) hstoc
  | opening h htokens hopen => exact .opening (hpc ▸ h) htokens (hid ▸ hopen)

/-- A client that is logging in has not reached its main loop. -/
theorem Session.loggingIn (hsession : Session users login phase (some cl)) :
    cl.pc.loggingIn = true := by
  cases hsession with
  | naming hpc | opening hpc => obtain hpc | hpc := hpc <;> rw [hpc] <;> rfl
  | _ => rw [‹cl.pc = _›]; rfl

theorem Client.outside_of_main (hpc : cl.pc.loggingIn = false) : cl.Outside users := by
  refine ⟨⟨?_, ?_, ?_, ?_⟩, fun _ => ⟨?_, ?_⟩, fun _ hopen => ?_⟩
  case refine_7 =>
    rw [hopen] at hpc
    cases hpc
  all_goals
    intro h
    rw [h] at hpc
    cases hpc

/-- What a step of one client leaves of the ids. -/
theorem ids_modify (hcl : clients[c]? = some cl)
    (hf : (f cl).login = cl.login ∧ (f cl).id = cl.id) :
    ∀ (c' : ℕ) (cl' : Client), (clients.modify c f)[c']? = some cl' →
      ∃ cl, clients[c']? = some cl ∧ cl'.name = cl.name ∧ cl'.id = cl.id := by
  refine List.modify_forall (fun c' cl' hcl' => ⟨cl', hcl', rfl, rfl⟩) fun cl' hcl' => ?_
  obtain rfl := Option.some.inj (hcl.symm.trans hcl')
  exact ⟨cl, hcl, congrArg (strncpy t3LoginMsgSize) hf.1, hf.2⟩

theorem LoginInv.start (htokens : login.tokens = (1, 0, 0, 0)) :
    LoginInv users login .away [] none where
  session := .free htokens
  present _ := nofun
  outside _ _ hcl := nomatch hcl
  named _ _ _ hcl := nomatch hcl
  fresh _ haway := absurd rfl haway
  distinct _ _ _ _ _ hcl := nomatch hcl

/-- A step of one client, who is logging in afterwards if and only if `h' = some c`. -/
theorem LoginInv.modify (hinv : LoginInv users login phase clients h)
    (hcl : clients[c]? = some cl) (hf : (f cl).login = cl.login ∧ (f cl).id = cl.id)
    {h' : Option ℕ} (hh : ∀ c', c' ≠ c → (h = some c' ↔ h' = some c'))
    (hsession : Session users login' phase (h'.bind fun c' => (clients.modify c f)[c']?))
    (hout : h' ≠ some c → (f cl).Outside users)
    (hfresh : ∀ cl', phase ≠ .away → (h'.bind fun c' => (clients.modify c f)[c']?) = some cl' →
      cl'.pc.hasId = false →
      ∃ cl, (h.bind fun c' => clients[c']?) = some cl ∧ cl.pc.hasId = false) :
    LoginInv users login' phase (clients.modify c f) h' := by
  have hids := ids_modify hcl hf
  constructor
  case session => exact hsession
  case present =>
    intro c' hc'
    rw [List.length_modify]
    by_cases hc : c' = c
    · exact hc ▸ List.lt_length_of_getElem?_eq_some hcl
    · exact hinv.present c' ((hh c' hc).2 hc')
  case outside =>
    intro c' cl' hcl' hc'
    by_cases hc : c' = c
    · subst hc
      rw [List.getElem?_modify_eq, hcl] at hcl'
      exact Option.some.inj hcl' ▸ hout hc'
    · rw [List.getElem?_modify_ne _ _ (Ne.symm hc)] at hcl'
      exact hinv.outside c' cl' hcl' fun h => hc' ((hh c' hc).1 h)
  case named =>
    intro c' cl' k hcl' hid
    obtain ⟨cl₀, hcl₀, hname, hid₀⟩ := hids c' cl' hcl'
    exact hname ▸ hinv.named c' cl₀ k hcl₀ (hid₀ ▸ hid)
  case fresh =>
    intro cl' haway hregister hholder hhas c' cl'' hcl'' hid
    obtain ⟨cl₀, hcl₀, -, hid₀⟩ := hids c' cl'' hcl''
    obtain ⟨cl₁, hholder₁, hhas₁⟩ := hfresh cl' haway hholder hhas
    exact hinv.fresh cl₁ haway hregister hholder₁ hhas₁ c' cl₀ hcl₀ (hid₀ ▸ hid)
  case distinct =>
    intro c₁ c₂ cl₁ cl₂ k hcl₁ hcl₂ hid₁ hid₂
    obtain ⟨cl₁', hcl₁', -, hid₁'⟩ := hids c₁ cl₁ hcl₁
    obtain ⟨cl₂', hcl₂', -, hid₂'⟩ := hids c₂ cl₂ hcl₂
    exact hinv.distinct c₁ c₂ cl₁' cl₂' k hcl₁' hcl₂' (hid₁' ▸ hid₁) (hid₂' ▸ hid₂)

/-- A step of the client that is logging in. -/
theorem LoginInv.hold (hinv : LoginInv users login phase clients (some c))
    (hcl : clients[c]? = some cl) (hf : (f cl).login = cl.login ∧ (f cl).id = cl.id)
    (hid : (f cl).pc.hasId = false → cl.pc.hasId = false)
    (hsession : Session users login' phase (some (f cl))) :
    LoginInv users login' phase (clients.modify c f) (some c) := by
  have hget : ((some c).bind fun c' => (clients.modify c f)[c']?) = some (f cl) := by simp [hcl]
  refine hinv.modify hcl hf (fun c' _ => Iff.rfl) (hget ▸ hsession) (fun hc => absurd rfl hc) ?_
  intro cl' _ hcl' hhas
  obtain rfl := Option.some.inj (hget.symm.trans hcl')
  exact ⟨cl, hcl, hid hhas⟩

/-- A step of a client that is not logging in. -/
theorem LoginInv.aside (hinv : LoginInv users login phase clients h)
    (hcl : clients[c]? = some cl) (hf : (f cl).login = cl.login ∧ (f cl).id = cl.id)
    (hc : h ≠ some c) (hout : (f cl).Outside users) :
    LoginInv users login phase (clients.modify c f) h := by
  have hholder : (h.bind fun c' => (clients.modify c f)[c']?) = h.bind fun c' => clients[c']? := by
    cases h with
    | none => rfl
    | some c' => exact List.getElem?_modify_ne _ _ fun h => hc (h ▸ rfl)
  refine hinv.modify hcl hf (fun c' _ => Iff.rfl) (hholder ▸ hinv.session) (fun _ => hout) ?_
  exact fun cl' _ hcl' hhas => ⟨cl', hholder ▸ hcl', hhas⟩

/-- The client that is logging in reads its id. -/
theorem LoginInv.adopt (hinv : LoginInv users login .wait clients (some c))
    (hcl : clients[c]? = some cl) (hpc : cl.pc = .readId) (htokens : login.tokens = (0, 0, 0, 0))
    (hnamed : Named users users.length cl.name) :
    LoginInv users login .wait (clients.modify c fun cl => { cl with
      pc := .openShm
      id := some users.length }) (some c) := by
  have hfresh := hinv.fresh cl nofun nofun hcl (by rw [hpc]; rfl)
  have hback (c' : ℕ) (cl' : Client) (h : (clients.modify c fun cl => { cl with
      pc := .openShm
      id := some users.length })[c']? = some cl') : (c' = c ∧ cl' = { cl with
      pc := .openShm
      id := some users.length }) ∨ (c' ≠ c ∧ clients[c']? = some cl') := by
    by_cases hc : c' = c
    · subst hc
      rw [List.getElem?_modify_eq, hcl] at h
      exact .inl ⟨rfl, (Option.some.inj h).symm⟩
    · rw [List.getElem?_modify_ne _ _ (Ne.symm hc)] at h
      exact .inr ⟨hc, h⟩
  constructor
  case session =>
    rw [Option.bind_some, List.getElem?_modify_eq, hcl]
    exact .opening (.inl rfl) htokens rfl
  case present => simpa using hinv.present
  case outside =>
    intro c' cl' hcl' hc
    obtain ⟨rfl, -⟩ | ⟨-, hcl'⟩ := hback c' cl' hcl'
    · exact absurd rfl hc
    · exact hinv.outside c' cl' hcl' hc
  case named =>
    intro c' cl' k hcl' hid
    obtain ⟨rfl, rfl⟩ | ⟨-, hcl'⟩ := hback c' cl' hcl'
    · obtain rfl := Option.some.inj hid
      exact hnamed
    · exact hinv.named c' cl' k hcl' hid
  case fresh =>
    intro cl' _ _ hcl' hhas
    obtain ⟨-, rfl⟩ | ⟨hc, -⟩ := hback c cl' hcl'
    · cases hhas
    · exact absurd rfl hc
  case distinct =>
    intro c₁ c₂ cl₁ cl₂ k hcl₁ hcl₂ hid₁ hid₂
    obtain ⟨rfl, rfl⟩ | ⟨-, hold₁⟩ := hback c₁ cl₁ hcl₁ <;>
      obtain ⟨rfl, rfl⟩ | ⟨-, hold₂⟩ := hback c₂ cl₂ hcl₂
    · rfl
    · exact absurd (hid₂.trans hid₁.symm) (hfresh c₂ cl₂ hold₂)
    · exact absurd (hid₁.trans hid₂.symm) (hfresh c₁ cl₁ hold₁)
    · exact hinv.distinct c₁ c₂ cl₁ cl₂ k hold₁ hold₂ hid₁ hid₂

/-- A step that changes at most the `msg_handler` of a client, or ends it. -/
theorem LoginInv.keep (hinv : LoginInv users login phase clients h) (c : ℕ)
    (hf : ∀ cl, (f cl).pc = cl.pc ∧ (f cl).login = cl.login ∧ (f cl).id = cl.id ∧
      ((f cl).alive = true → cl.alive = true)) :
    LoginInv users login phase (clients.modify c f) h := by
  cases hcl : clients[c]? with
  | none =>
    rwa [List.modify_eq_self (List.getElem?_eq_none_iff.1 hcl)]
  | some cl =>
    obtain ⟨hpc, hlogin, hid, halive⟩ := hf cl
    by_cases hc : h = some c
    · subst hc
      refine hinv.hold hcl ⟨hlogin, hid⟩ (hpc ▸ id) (Session.congr ?_ hpc hid hlogin)
      have hsession := hinv.session
      rwa [Option.bind_some, hcl] at hsession
    · obtain ⟨hbefore, hinside, hstuck⟩ := hinv.outside c cl hcl hc
      exact hinv.aside hcl ⟨hlogin, hid⟩ hc ⟨hpc ▸ hbefore, fun h => hpc ▸ hinside (halive h),
        fun h hopen i hi => hstuck (halive h) (hpc ▸ hopen) i (hid ▸ hi)⟩

/-- A step of a client in its main loop. -/
theorem LoginInv.main (hinv : LoginInv users login phase clients h)
    (hcl : clients[c]? = some cl) (hpc : cl.pc.loggingIn = false)
    (hf : (f cl).login = cl.login ∧ (f cl).id = cl.id) (hpc' : (f cl).pc.loggingIn = false) :
    LoginInv users login phase (clients.modify c f) h := by
  refine hinv.aside hcl hf (fun hc => ?_) (Client.outside_of_main hpc')
  subst hc
  have hsession := hinv.session
  rw [Option.bind_some, hcl] at hsession
  cases hpc.symm.trans hsession.loggingIn

/-- A new client is not logging in. -/
theorem LoginInv.connect (hinv : LoginInv users login phase clients h) (name : Text) :
    LoginInv users login phase (clients ++ [newClient name]) h := by
  have hholder : (h.bind fun c => (clients ++ [newClient name])[c]?) =
      h.bind fun c => clients[c]? := by
    cases h with
    | none => rfl
    | some c => exact List.getElem?_append_left (hinv.present c rfl)
  constructor
  case session => exact hholder ▸ hinv.session
  case present =>
    intro c hc
    have hlt := hinv.present c hc
    simp only [List.length_append, List.length_singleton]
    omega
  case outside =>
    exact List.concat_forall hinv.outside fun _ =>
      ⟨⟨nofun, nofun, nofun, nofun⟩, fun _ => ⟨nofun, nofun⟩, fun _ hpc => nomatch hpc⟩
  case named =>
    intro c cl k hcl hid
    obtain hcl | ⟨-, rfl⟩ := List.getElem?_concat_eq_some.1 hcl
    · exact hinv.named c cl k hcl hid
    · cases hid
  case fresh =>
    intro cl haway hregister hcl hhas
    exact List.concat_forall (hinv.fresh cl haway hregister (hholder ▸ hcl) hhas) nofun
  case distinct =>
    intro c₁ c₂ cl₁ cl₂ k hcl₁ hcl₂ hid₁ hid₂
    obtain hcl₁ | ⟨-, rfl⟩ := List.getElem?_concat_eq_some.1 hcl₁
    · obtain hcl₂ | ⟨-, rfl⟩ := List.getElem?_concat_eq_some.1 hcl₂
      · exact hinv.distinct c₁ c₂ cl₁ cl₂ k hcl₁ hcl₂ hid₁ hid₂
      · cases hid₂
    · cases hid₁

/-- A client that uses the login segment is the one that is logging in. -/
theorem LoginInv.holder_of (hinv : LoginInv users login phase clients h)
    (hcl : clients[c]? = some cl) (hout : ¬ cl.Outside users) :
    h = some c ∧ Session users login phase (some cl) := by
  have hh : h = some c := by
    by_contra hc
    exact hout (hinv.outside c cl hcl hc)
  subst hh
  have hsession := hinv.session
  rw [Option.bind_some, hcl] at hsession
  exact ⟨rfl, hsession⟩

end Clients

/-! ### Steps of the server -/

section Server

variable {users : List User} {login : Login} {holder : Option Client}

theorem Session.take (hsession : Session users login .away holder) (hcts : login.ctsSem ≠ 0) :
    Session users { login with ctsSem := login.ctsSem - 1 } .register holder := by
  cases hsession with
  | requested hpc htokens hname =>
    simp only [Login.tokens, Prod.mk.injEq] at htokens
    exact .taken hpc (by simp [Login.tokens, htokens]) hname
  | _ => simp_all [Login.tokens]

theorem Session.write (hsession : Session users login .writeId holder) (stoc : Option ℕ) :
    Session users { login with stoc := stoc } .writeId holder := by
  cases hsession with
  | registered hpc htokens hnamed => exact .registered hpc htokens hnamed

theorem Session.number (hsession : Session users login .writeId holder) :
    Session users { login with stoc := some users.length } .postStc holder := by
  cases hsession with
  | registered hpc htokens hnamed => exact .numbered hpc htokens hnamed rfl

theorem Session.tell (hsession : Session users login .postStc holder) :
    Session users { login with stcSem := login.stcSem + 1 } .wait holder := by
  cases hsession with
  | numbered hpc htokens hnamed hid =>
    simp only [Login.tokens, Prod.mk.injEq] at htokens
    exact .told hpc (by simp [Login.tokens, htokens]) hnamed hid

theorem Session.resume (hsession : Session users login .wait holder) (hsrv : login.srvSem ≠ 0) :
    Session users { login with srvSem := login.srvSem - 1 } .notify holder := by
  cases hsession with
  | confirmed htokens =>
    simp only [Login.tokens, Prod.mk.injEq] at htokens
    exact .notifying (by simp [Login.tokens, htokens])
  | _ => simp_all [Login.tokens]

theorem Session.release (hsession : Session users login .notify holder) :
    Session users { login with usrSem := login.usrSem + 1 } .away holder := by
  cases hsession with
  | notifying htokens =>
    simp only [Login.tokens, Prod.mk.injEq] at htokens
    exact .free (by simp [Login.tokens, htokens])

end Server

theorem ServerPc.Moves.phase {pc pc' : ServerPc} (h : pc.Moves pc') : pc'.phase = pc.phase := by
  cases h with
  | leave send k | enter send k | skip send k => cases send <;> rfl
  | _ => rfl

theorem loginInv_server {s t : State} {junk : Text} {h : Option ℕ} (hno : s.NoRename)
    (hinv : LoginInv s.users s.login s.server.phase s.clients h) (hin : s.server ≠ .unlink)
    (hstep : ServerStep s junk t) : LoginInv t.users t.login t.server.phase t.clients h := by
  cases hstep with
  | unlink hpc => exact absurd hpc hin
  | move hpc hmoves =>
    rw [hpc, ← hmoves.phase] at hinv
    exact hinv
  | login hpc hcts =>
    rw [hpc] at hinv
    exact hinv.server (hinv.session.take hcts) fun _ => .inr rfl
  | register hpc =>
    rw [hpc] at hinv
    exact hinv.register junk
  | writeId hpc =>
    rw [hpc] at hinv
    exact hinv.server (hinv.session.write none) fun h => h
  | copyId hpc =>
    rw [hpc] at hinv
    exact hinv.server hinv.session.number (by simp [ServerPc.phase])
  | postStc hpc =>
    rw [hpc] at hinv
    exact hinv.server hinv.session.tell (by simp [ServerPc.phase])
  | loggedIn hpc hsrv =>
    rw [hpc] at hinv
    exact hinv.server (hinv.session.resume hsrv) (by simp [ServerPc.phase])
  | postUsr hpc =>
    rw [hpc] at hinv
    exact hinv.server hinv.session.release (by simp [ServerPc.phase])
  | @writeComm send k hpc | @writeMsg send k hpc | @copyMsg send k hpc | @resume send k hpc =>
    rw [hpc] at hinv
    cases send <;> exact hinv
  | postJoined hpc =>
    rw [hpc] at hinv
    exact hinv
  | @post send k hpc hsend =>
    rw [hpc] at hinv
    cases send with
    | joined => exact absurd rfl hsend
    | _ => exact hinv
  | take hpc | message hpc | readMsg hpc | answer hpc =>
    rw [hpc] at hinv
    exact hinv
  | newName hpc hcomm => exact absurd hcomm (hno.comm _)
  | rename hpc => exact absurd hpc (hno.server _)
  | @plain index pc hpc hnext =>
    have hphase : pc.phase = .away := by
      split at hnext <;> first | (subst hnext; rfl) | exact hnext.elim
    rw [hpc] at hinv
    change LoginInv s.users s.login pc.phase s.clients h
    rw [hphase]
    exact hinv
  | @drop index pc list hpc hnext =>
    have hphase : pc.phase = .away := by split at hnext <;> subst hnext <;> rfl
    rw [hpc] at hinv
    change LoginInv (s.users.modify index _) s.login pc.phase s.clients h
    rw [hphase]
    exact hinv.same (.modify _ _ (fun _ => rfl) fun _ => rfl)

/-! ### Steps of the clients -/

section Holder

variable {users : List User} {login : Login} {phase : LoginPhase} {holder : Option Client}
  {cl : Client}

theorem Session.lock (hsession : Session users login phase holder) (husr : login.usrSem ≠ 0) :
    phase = .away ∧ holder = none ∧ login.tokens = (1, 0, 0, 0) := by
  cases hsession with
  | free htokens => exact ⟨rfl, rfl, htokens⟩
  | _ => simp_all [Login.tokens]

theorem Session.write_name (hsession : Session users login phase (some cl))
    (hpc : cl.pc = .writeName) :
    Session users { login with ctos := none } phase (some { cl with pc := .copyName }) := by
  cases hsession with
  | naming _ htokens => exact .naming (.inr rfl) htokens
  | _ => simp_all

theorem Session.copy_name (hsession : Session users login phase (some cl))
    (hpc : cl.pc = .copyName) :
    Session users { login with ctos := some cl.name } phase (some { cl with pc := .postCts }) := by
  cases hsession with
  | naming _ htokens => exact .named rfl htokens rfl
  | _ => simp_all

theorem Session.post_cts (hsession : Session users login phase (some cl))
    (hpc : cl.pc = .postCts) :
    Session users { login with ctsSem := login.ctsSem + 1 } phase
      (some { cl with pc := .waitStc }) := by
  cases hsession with
  | named _ htokens hname =>
    simp only [Login.tokens, Prod.mk.injEq] at htokens
    exact .requested rfl (by simp [Login.tokens, htokens]) hname
  | _ => simp_all

theorem Session.wait_stc (hsession : Session users login phase (some cl))
    (hstc : login.stcSem ≠ 0) :
    Session users { login with stcSem := login.stcSem - 1 } phase
      (some { cl with pc := .readId }) := by
  cases hsession with
  | told _ htokens hnamed hid =>
    simp only [Login.tokens, Prod.mk.injEq] at htokens
    exact .reading rfl (by simp [Login.tokens, htokens]) hnamed hid
  | _ => simp_all [Login.tokens]

theorem Session.read_id (hsession : Session users login phase (some cl)) (hpc : cl.pc = .readId) :
    phase = .wait ∧ login.tokens = (0, 0, 0, 0) ∧ Named users users.length cl.name ∧
      login.stoc = some users.length := by
  cases hsession with
  | reading _ htokens hnamed hid => exact ⟨rfl, htokens, hnamed, hid⟩
  | _ => simp_all

theorem Session.open_shm (hsession : Session users login phase (some cl))
    (hpc : cl.pc = .openShm) (i : Option ℕ) :
    Session users login phase (some { cl with pc := .postSrv, shmBuf := i }) := by
  cases hsession with
  | opening _ htokens hid => exact .opening (.inr rfl) htokens hid
  | _ => simp_all

theorem Session.post_srv (hsession : Session users login phase (some cl))
    (hpc : cl.pc = .postSrv) :
    Session users { login with srvSem := login.srvSem + 1 } phase none := by
  cases hsession with
  | opening _ htokens =>
    simp only [Login.tokens, Prod.mk.injEq] at htokens
    exact .confirmed (by simp [Login.tokens, htokens])
  | _ => simp_all

/-- What is left of a login that times out. -/
theorem Session.timed_out (hsession : Session users login .wait holder) (hstc : login.stcSem = 0)
    (hsrv : login.srvSem = 0) : login.tokens = (0, 0, 0, 0) ∧ ∃ cl, holder = some cl ∧
      (cl.pc = .readId ∨ (cl.pc = .openShm ∨ cl.pc = .postSrv) ∧ cl.id = some users.length) := by
  cases hsession with
  | reading hpc htokens => exact ⟨htokens, _, rfl, .inl hpc⟩
  | opening hpc htokens hid => exact ⟨htokens, _, rfl, .inr ⟨hpc, hid⟩⟩
  | _ => simp_all [Login.tokens]

end Holder

theorem loginInv_login {s t : State} {c junk : ℕ} {cl : Client} {h : Option ℕ}
    (hinv : LoginInv s.users s.login s.server.phase s.clients h) (hcl : s.clients[c]? = some cl)
    (halive : cl.alive = true) (hstep : LoginStep s c junk cl t) :
    ∃ h', LoginInv t.users t.login t.server.phase t.clients h' := by
  cases hstep with
  | lockUsr hpc husr =>
    obtain ⟨hphase, hholder, htokens⟩ := hinv.session.lock husr
    -- the semaphore was free, so nobody was logging in
    obtain rfl : h = none := by
      cases h with
      | none => rfl
      | some c' => exact absurd (List.getElem?_eq_none_iff.1 hholder) (hinv.present c' rfl).not_ge
    refine ⟨some c, hinv.modify hcl ⟨rfl, rfl⟩ (fun c' hc => ?_) ?_ (fun hc => absurd rfl hc)
      fun _ haway => absurd hphase haway⟩
    · exact ⟨nofun, fun h => absurd (Option.some.inj h).symm hc⟩
    · rw [Option.bind_some, List.getElem?_modify_eq, hcl, hphase]
      simp only [Login.tokens, Prod.mk.injEq] at htokens
      exact .naming (.inl rfl) (by simp [Login.tokens, htokens])
  | writeName hpc =>
    obtain ⟨rfl, hsession⟩ := hinv.holder_of hcl fun hout => hout.before.1 hpc
    exact ⟨some c, hinv.hold hcl ⟨rfl, rfl⟩ (fun _ => by rw [hpc]; rfl) (hsession.write_name hpc)⟩
  | copyName hpc =>
    obtain ⟨rfl, hsession⟩ := hinv.holder_of hcl fun hout => hout.before.2.1 hpc
    exact ⟨some c, hinv.hold hcl ⟨rfl, rfl⟩ (fun _ => by rw [hpc]; rfl) (hsession.copy_name hpc)⟩
  | postCts hpc =>
    obtain ⟨rfl, hsession⟩ := hinv.holder_of hcl fun hout => hout.before.2.2.1 hpc
    exact ⟨some c, hinv.hold hcl ⟨rfl, rfl⟩ (fun _ => by rw [hpc]; rfl) (hsession.post_cts hpc)⟩
  | waitStc hpc hstc =>
    obtain ⟨rfl, hsession⟩ := hinv.holder_of hcl fun hout => hout.before.2.2.2 hpc
    exact ⟨some c, hinv.hold hcl ⟨rfl, rfl⟩ (fun _ => by rw [hpc]; rfl) (hsession.wait_stc hstc)⟩
  | readId hpc =>
    obtain ⟨rfl, hsession⟩ := hinv.holder_of hcl fun hout => (hout.inside halive).1 hpc
    obtain ⟨hphase, htokens, hnamed, hstoc⟩ := hsession.read_id hpc
    rw [hphase] at hinv
    refine ⟨some c, ?_⟩
    change LoginInv s.users s.login s.server.phase (s.clients.modify c _) (some c)
    rw [hphase, hstoc]
    exact hinv.adopt hcl hpc htokens hnamed
  | @openShm i hpc hid hlinked =>
    -- a client whose login has timed out finds no memory under its id
    obtain ⟨rfl, hsession⟩ := hinv.holder_of hcl fun hout => by
      rw [hout.stuck halive hpc i hid] at hlinked
      cases hlinked
    exact ⟨some c, hinv.hold hcl ⟨rfl, rfl⟩ nofun (hsession.open_shm hpc (some i))⟩
  | postSrv hpc =>
    obtain ⟨rfl, hsession⟩ := hinv.holder_of hcl fun hout => (hout.inside halive).2 hpc
    refine ⟨none, hinv.modify hcl ⟨rfl, rfl⟩ (fun c' hc => ?_) (hsession.post_srv hpc) (fun _ => ?_)
      fun _ _ h => absurd h (Option.some_ne_none _).symm⟩
    · exact ⟨fun h => absurd (Option.some.inj h).symm hc, nofun⟩
    · exact Client.outside_of_main rfl

/-- When the user of a login that has timed out is removed, nothing of the login is left: its id is
not waiting to be taken, nor its end to be seen, and no client that is still there has taken the id
and has not read it, or has opened the memory and has not said so. -/
def Timely (s : State) : Action → Prop
  | .server _ => s.server = .unlink → s.login.stcSem = 0 ∧ s.login.srvSem = 0 ∧
      ∀ cl ∈ s.clients, cl.alive = true → cl.pc ≠ .readId ∧ cl.pc ≠ .postSrv
  | _ => True

instance (s : State) : (a : Action) → Decidable (Timely s a)
  | .server _ => inferInstanceAs (Decidable (s.server = .unlink → s.login.stcSem = 0 ∧
      s.login.srvSem = 0 ∧ ∀ cl ∈ s.clients, cl.alive = true → cl.pc ≠ .readId ∧ cl.pc ≠ .postSrv))
  | .timeout | .connect _ | .client _ _ | .say _ _ | .pressF3 _ | .handler _ _ | .kill _ =>
    instDecidableTrue

/-- The new user is removed: whoever was logging in has left or is not going to find the memory. -/
theorem loginInv_unlink {s t : State} {junk : Text} {h : Option ℕ}
    (hinv : LoginInv s.users s.login s.server.phase s.clients h) (hpc : s.server = .unlink)
    (htimely : Timely s (.server junk)) (hstep : ServerStep s junk t) :
    LoginInv t.users t.login t.server.phase t.clients none := by
  obtain ⟨hstc, hsrv, hgone⟩ := htimely hpc
  rw [hpc] at hinv
  obtain ⟨htokens, cl, hholder, hcl⟩ := hinv.session.timed_out hstc hsrv
  have hsame : SameNames s.users (s.users.modify (s.users.length - 1) fun u =>
    { u with id := -1, linked := false }) := .modify _ _ (fun _ => rfl) fun _ => rfl
  obtain rfl := hstep.of_unlink hpc
  refine ⟨.notifying htokens, fun _ h => absurd h (Option.some_ne_none _).symm,
    fun c cl' hcl' _ => ?_, (hinv.same hsame).named,
    fun _ _ _ h => absurd h (Option.some_ne_none _).symm, hinv.distinct⟩
  -- the login was that of `h`, who is gone or waits for memory that is removed
  by_cases hc : h = some c
  · subst hc
    obtain rfl := Option.some.inj (hholder.symm.trans hcl')
    refine ⟨?_, hgone cl (List.mem_of_getElem? hcl'), fun halive hpc' i hid => ?_⟩
    · obtain hcl | ⟨hcl | hcl, -⟩ := hcl <;> simp [hcl]
    · obtain hcl | ⟨-, hlength⟩ := hcl
      · cases hcl.symm.trans hpc'
      · have hi : i + 1 = s.users.length := Option.some.inj (hid.symm.trans hlength)
        obtain rfl : i = s.users.length - 1 := by omega
        rw [List.getElem?_modify_eq]
        cases s.users[s.users.length - 1]? <;> rfl
  · exact (hinv.outside c cl' hcl' hc).same hsame

theorem loginInv_timeout {s t : State} {h : Option ℕ}
    (hinv : LoginInv s.users s.login s.server.phase s.clients h) (hstep : TimeoutStep s t) :
    LoginInv t.users t.login t.server.phase t.clients h := by
  cases hstep with
  | login hpc =>
    rw [hpc] at hinv
    exact hinv
  | @reply send k hpc =>
    rw [hpc] at hinv
    cases send <;> exact hinv

theorem loginInv_step {s t : State} {a : Action} {h : Option ℕ} (hno : s.NoRename)
    (hinv : LoginInv s.users s.login s.server.phase s.clients h) (htimely : Timely s a)
    (hstep : ChatStep s a t) : ∃ h', LoginInv t.users t.login t.server.phase t.clients h' := by
  cases hstep with
  | server hstep =>
    by_cases hpc : s.server = .unlink
    · exact ⟨none, loginInv_unlink hinv hpc htimely hstep⟩
    · exact ⟨h, loginInv_server hno hinv hpc hstep⟩
  | timeout hstep => exact ⟨h, loginInv_timeout hinv hstep⟩
  | connect name => exact ⟨h, hinv.connect name⟩
  | login hcl halive hstep => exact loginInv_login hinv hcl halive hstep
  | main hcl _ _ hpc hstep =>
    obtain ⟨m, f, rfl, -, -, hmove⟩ := mainLoop_frame hstep
    have hmove := hmove _ rfl
    exact ⟨h, hinv.main hcl hpc ⟨hmove.login, hmove.id⟩ hmove.pc.1⟩
  | input hcl _ hmain hinput =>
    refine ⟨h, hinv.main hcl (by rw [hmain]; rfl) ⟨rfl, rfl⟩ ?_⟩
    obtain ⟨text, -, rfl⟩ | ⟨-, rfl⟩ := hinput <;> rfl
  | handler hcl _ _ hstep =>
    cases hstep with
    | quit => exact ⟨h, hinv.keep _ fun _ => ⟨rfl, rfl, rfl, nofun⟩⟩
    | _ => exact ⟨h, hinv.keep _ fun _ => ⟨rfl, rfl, rfl, fun h => h⟩⟩
  | kill c => exact ⟨h, hinv.keep c fun _ => ⟨rfl, rfl, rfl, nofun⟩⟩

theorem login_inv {s : State} (hs : sharedChat.ReachableUnder Timely s) :
    ∃ h, LoginInv s.users s.login s.server.phase s.clients h := by
  refine hs.invariant (I := fun s => ∃ h, LoginInv s.users s.login s.server.phase s.clients h)
    (fun s hinit => ?_) fun s a t hs ⟨h, hinv⟩ htimely hstep => ?_
  · obtain rfl := hinit
    exact ⟨none, .start rfl⟩
  · exact loginInv_step (no_rename hs.reachable) hinv htimely (step_chatStep hstep)

/-! ### Every run -/

/-- Different clients have adopted different ids, and the entry of an id has the name of the client
that has adopted it. -/
structure State.IdsAdopted (s : State) : Prop where
  distinct (c c' : ℕ) (cl cl' : Client) (k : ℕ) : s.clients[c]? = some cl →
    s.clients[c']? = some cl' → cl.id = some k → cl'.id = some k → c = c'
  named (c : ℕ) (cl : Client) (k : ℕ) : s.clients[c]? = some cl → cl.id = some k →
    0 < k ∧ (s.users[k - 1]?).map User.login = some (strncpy t3LoginMsgSize cl.login)

/-- **Each client adopts the id of its own entry**, in every run in which the user of a login that
has timed out is removed only when nothing of the login is left. -/
theorem ids_adopted {s : State} (hs : sharedChat.ReachableUnder Timely s) : s.IdsAdopted := by
  obtain ⟨h, hinv⟩ := login_inv hs
  exact ⟨hinv.distinct, hinv.named⟩

/-- No two clients have mapped the memory of the same user. -/
theorem sole_of_timely {s : State} (hs : sharedChat.ReachableUnder Timely s) {c i : ℕ} {cl : Client}
    (hcl : s.clients[c]? = some cl) (hi : cl.shmBuf = some i) : s.Sole c i := by
  obtain ⟨h, hinv⟩ := login_inv hs
  have hok := clients_ok hs.reachable
  intro c' cl' hcl' hi'
  exact hinv.distinct c' c cl' cl (i + 1) hcl' hcl ((hok c' cl' hcl').id_of_shmBuf hi')
    ((hok c cl hcl).id_of_shmBuf hi)

/-- A client that has taken its id ends before it reads it, its login times out, and the next
client logs in. -/
def oneGone : State := (sharedChat.runUnder Timely initial
  (Action.connect ['a'] :: requested 0 ++ Action.client 0 0 :: Action.kill 0 :: Action.timeout ::
    Action.connect ['b'] :: serverSteps 4 ++ requested 1 ++ adopted 1)).get (by decide +kernel)

theorem ids_adopted_oneGone : oneGone.IdsAdopted :=
  ids_adopted (Machine.reachableUnder_of_run rfl (Option.some_get _).symm)

/-- A client is slow to take its id, its login times out, and the next client logs in. -/
def slowLogin : State := (sharedChat.run initial
  (Action.connect ['a'] :: Action.connect ['b'] :: requested 0 ++ Action.timeout ::
    serverSteps 4 ++ requested 1 ++ clientSteps 0 2 ++ clientSteps 1 2)).get (by decide +kernel)

/-- Both clients adopt the second id. -/
theorem ids_not_adopted : ¬ ∀ s, sharedChat.Reachable s → s.IdsAdopted := by
  intro h
  have hadopted := h slowLogin (Machine.reachable_of_run rfl (Option.some_get _).symm)
  have hid : (slowLogin.clients[0]?).bind Client.id = some 2 ∧
    (slowLogin.clients[1]?).bind Client.id = some 2 := by decide +kernel
  obtain ⟨cl, hcl, hid₀⟩ := Option.bind_eq_some_iff.1 hid.1
  obtain ⟨cl', hcl', hid₁⟩ := Option.bind_eq_some_iff.1 hid.2
  cases hadopted.distinct 0 1 cl cl' 2 hcl hcl' hid₀ hid₁

end EmbeddedC.SharedChat
