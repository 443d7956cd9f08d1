import EmbeddedC.SharedChat.Login

/-!
# Homework 13: what is left of a login that times out

The server enters a new user, counts the user in `active_users` and then waits for the client.
When the wait times out it takes the entry back, but not the count.

* `active_eq`: `active_users` counts the connected users and the logins that have timed out;
* `timeout_restores`: what a login that times out leaves as it was;
* `logins_counted`: `active_users` is right, and the server exits with its last user, if and only if
  no login has timed out; `login_not_counted`: a server without users that goes on.
-/

namespace EmbeddedC.SharedChat

open Chatroom (Text)

/-! ### What the server alone changes -/

/-- The server's place and its table of users. -/
def State.table (s : State) : ServerPc × List User × Text × ℤ × ℕ :=
  (s.server, s.users, s.usersList, s.activeUsers, s.timedOut)

theorem ChatStep.table {s t : State} {a : Action} (h : ChatStep s a t) :
    (∃ junk, ServerStep s junk t) ∨ TimeoutStep s t ∨ t.table = s.table := by
  cases h with
  | server h => exact .inl ⟨_, h⟩
  | timeout h => exact .inr (.inl h)
  | login _ _ h => cases h <;> exact .inr (.inr rfl)
  | main _ _ _ _ h =>
    obtain ⟨m, f, rfl, -⟩ := mainLoop_frame h
    exact .inr (.inr rfl)
  | handler _ _ _ h =>
    obtain ⟨m, f, rfl, -⟩ := h.frame
    exact .inr (.inr rfl)
  | connect | input | kill => exact .inr (.inr rfl)

/-! ### The count -/

/-- The number of connected users. -/
def connectedCount (users : List User) : ℕ := users.countP fun u => u.id ≠ -1

/-- Whether the entry at `i` is that of a connected user. -/
def connectedIn (users : List User) (i : ℕ) : Bool := (users[i]?).any fun u => u.id ≠ -1

/-- The entry that the server is working on is that of a connected user. -/
def ServerPc.OnConnected (users : List User) : ServerPc → Prop
  | .writeId | .copyId | .postStc | .waitLogin | .unlink =>
    connectedIn users (users.length - 1) = true
  | .readComm index | .drop index => connectedIn users index = true
  | _ => True

/-- `active_users` counts the connected users and the logins that have timed out. -/
structure Counted (server : ServerPc) (users : List User) (activeUsers : ℤ) (timedOut : ℕ) :
    Prop where
  count : activeUsers = connectedCount users + timedOut
  entry : server.OnConnected users

section Count

variable {users : List User} {i : ℕ} {f : User → User}

theorem connectedCount_leave (hi : connectedIn users i = true) (hf : ∀ u, (f u).id = -1) :
    connectedCount (users.modify i f) + 1 = connectedCount users := by
  obtain ⟨u, hu, hid⟩ := (Option.any_eq_true _ _).1 hi
  have hcount := List.countP_modify_add hu (fun u => u.id ≠ -1) f
  rw [if_pos hid, if_neg (by simp [hf])] at hcount
  exact hcount

theorem connectedCount_keep (users : List User) (i : ℕ) {f : User → User}
    (hf : ∀ u, (f u).id = u.id) : connectedCount (users.modify i f) = connectedCount users := by
  cases hu : users[i]? with
  | none => rw [List.modify_eq_self (List.getElem?_eq_none_iff.1 hu)]
  | some u =>
    have hcount := List.countP_modify_add hu (fun u => u.id ≠ -1) f
    simp only [hf] at hcount
    exact Nat.add_right_cancel hcount

theorem newUser_id (n : ℕ) (name : Text) : (newUser (n + 1) name).id ≠ -1 := by
  change ((n + 1 : ℕ) : ℤ) ≠ -1
  omega

theorem connectedCount_enter {u : User} (hu : u.id ≠ -1) :
    connectedCount (users ++ [u]) = connectedCount users + 1 := by
  rw [connectedCount, List.countP_append, List.countP_singleton, if_pos (by simpa using hu)]
  rfl

end Count

theorem counted_timeout {s t : State}
    (hs : Counted s.server s.users s.activeUsers s.timedOut) (h : TimeoutStep s t) :
    Counted t.server t.users t.activeUsers t.timedOut := by
  obtain ⟨hcount, hentry⟩ := hs
  cases h with
  | login hpc =>
    rw [hpc] at hentry
    exact ⟨hcount, hentry⟩
  | @reply send k hpc => exact ⟨hcount, by cases send <;> trivial⟩

theorem counted_server {s t : State} {junk : Text}
    (hs : Counted s.server s.users s.activeUsers s.timedOut) (h : ServerStep s junk t) :
    Counted t.server t.users t.activeUsers t.timedOut := by
  obtain ⟨hcount, hentry⟩ := hs
  cases h with
  | move hpc hmoves =>
    refine ⟨hcount, ?_⟩
    cases hmoves with
    | leave send => cases send <;> trivial
    | _ => trivial
  | login | loggedIn | writeComm | writeMsg | copyMsg | postJoined | post | postUsr | message
  | newName | readMsg | answer => exact ⟨hcount, trivial⟩
  | @resume send => exact ⟨hcount, by cases send <;> trivial⟩
  | register hpc =>
    -- the entry that is appended counts as connected
    have hid := newUser_id s.users.length (s.login.ctos.getD junk)
    refine ⟨?_, ?_⟩
    · change s.activeUsers + 1 = (connectedCount (s.users ++ [_]) : ℤ) + s.timedOut
      rw [connectedCount_enter hid]
      omega
    · simpa [ServerPc.OnConnected, connectedIn] using hid
  | writeId hpc | copyId hpc | postStc hpc =>
    rw [hpc] at hentry
    exact ⟨hcount, hentry⟩
  | unlink hpc =>
    rw [hpc] at hentry
    refine ⟨?_, trivial⟩
    have hleave := connectedCount_leave hentry (f := fun u => { u with id := -1, linked := false })
      fun _ => rfl
    change s.activeUsers = (connectedCount (s.users.modify _ _) : ℤ) + (s.timedOut + 1 : ℕ)
    omega
  | take hpc _ hconnected => exact ⟨hcount, hconnected⟩
  | @plain index pc hpc hnext =>
    rw [hpc] at hentry
    refine ⟨hcount, ?_⟩
    change pc.OnConnected s.users
    split at hnext
    · subst hnext
      trivial
    · subst hnext
      exact hentry
    · subst hnext
      trivial
    · subst hnext
      trivial
    all_goals exact hnext.elim
  | rename hpc =>
    refine ⟨?_, trivial⟩
    change s.activeUsers = (connectedCount (s.users.modify _ _) : ℤ) + s.timedOut
    rw [connectedCount_keep s.users _ (by intro u; rfl)]
    exact hcount
  | @drop index pc list hpc hnext =>
    rw [hpc] at hentry
    refine ⟨?_, by split at hnext <;> subst hnext <;> trivial⟩
    have hleave := connectedCount_leave hentry (f := fun u => { u with id := -1, linked := false })
      fun _ => rfl
    change s.activeUsers - 1 = (connectedCount (s.users.modify _ _) : ℤ) + s.timedOut
    omega

theorem counted {s : State} (hs : sharedChat.Reachable s) :
    Counted s.server s.users s.activeUsers s.timedOut := by
  refine hs.invariant (I := fun s => Counted s.server s.users s.activeUsers s.timedOut)
    (fun s hinit => ?_) fun s a t _ ih h => ?_
  · obtain rfl := hinit
    exact ⟨rfl, trivial⟩
  · obtain ⟨junk, h⟩ | h | h := (step_chatStep h).table
    · exact counted_server ih h
    · exact counted_timeout ih h
    · simp only [State.table, Prod.mk.injEq] at h
      obtain ⟨hserver, husers, -, hactive, htimedOut⟩ := h
      rw [hserver, husers, hactive, htimedOut]
      exact ih

/-- In every run, `active_users` counts each login that has timed out as a user. -/
theorem active_eq {s : State} (hs : sharedChat.Reachable s) :
    s.activeUsers = connectedCount s.users + s.timedOut := (counted hs).count

/-! ### A login that times out -/

/-- The login that the server registers in `s₀` has timed out, and in `s` its user has just been
removed. -/
structure TimesOut (s₀ s : State) : Prop where
  registers : s₀.server = .register
  path : sharedChat.Path Machine.anyStep s₀ s
  length : s.users.length = s₀.users.length + 1
  server : s.server = .postUsr
  timedOut : s.timedOut = s₀.timedOut + 1

/-- How far the server is with the login that it registers in `s₀`. -/
inductive Stage (s₀ s : State) : Prop
  | asked (hserver : s.server = .register)
      (htable : s.users = s₀.users ∧ s.usersList = s₀.usersList ∧ s.activeUsers = s₀.activeUsers ∧
        s.timedOut = s₀.timedOut)
  | entered (u : User)
      (hserver : s.server.phase = .writeId ∨ s.server.phase = .postStc ∨ s.server.phase = .wait)
      (htable : s.users = s₀.users ++ [u] ∧ s.usersList = s₀.usersList ∧
        s.activeUsers = s₀.activeUsers + 1 ∧ s.timedOut = s₀.timedOut)
  | timedOut (u : User) (hserver : s.server = .postUsr)
      (htable : s.users = s₀.users ++ [{ u with id := -1, linked := false }] ∧
        s.usersList = s₀.usersList ∧ s.activeUsers = s₀.activeUsers + 1 ∧
        s.timedOut = s₀.timedOut + 1)
  | past (hlength : s₀.users.length < s.users.length)
      (hpast : s₀.users.length + 1 < s.users.length ∨ s.server.phase = .away ∨
        s.server.phase = .register ∨ s.server.phase = .notify ∧ s.timedOut = s₀.timedOut)

/-- What a step of the server does to the phase of the login and to the number of entries. -/
inductive PhaseStep (s t : State) : Prop
  | keep (hphase : t.server.phase = s.server.phase) (hlength : t.users.length = s.users.length)
      (htimedOut : t.timedOut = s.timedOut)
  | take (hphase : t.server.phase = .register) (hlength : t.users.length = s.users.length)
  | register (hlength : t.users.length = s.users.length + 1)
  | release (hphase : t.server.phase = .away) (hlength : t.users.length = s.users.length)
  /-- from the new entry to the end of the wait -/
  | inLogin
      (hphase : s.server.phase = .writeId ∨ s.server.phase = .postStc ∨ s.server.phase = .wait)
      (hlength : t.users.length = s.users.length)

section Stage

variable {s₀ s t : State} {junk : Text}

theorem ServerStep.phaseStep (h : ServerStep s junk t) : PhaseStep s t := by
  cases h with
  | move hpc hmoves => exact .keep (hpc ▸ hmoves.phase) rfl rfl
  | login => exact .take rfl rfl
  | register => exact .register (by simp)
  | writeId hpc | copyId hpc | postStc hpc | loggedIn hpc =>
    exact .inLogin (by rw [hpc]; simp [ServerPc.phase]) rfl
  | unlink hpc => exact .inLogin (by rw [hpc]; simp [ServerPc.phase]) (List.length_modify ..)
  | postUsr => exact .release rfl rfl
  | @writeComm send k hpc | @writeMsg send k hpc | @copyMsg send k hpc | @resume send k hpc =>
    exact .keep (by rw [hpc]; cases send <;> rfl) rfl rfl
  | postJoined hpc => exact .keep (by rw [hpc]; rfl) rfl rfl
  | @post send k hpc hsend =>
    refine .keep ?_ rfl rfl
    rw [hpc]
    cases send with
    | joined => exact absurd rfl hsend
    | _ => rfl
  | take hpc | message hpc | newName hpc | readMsg hpc | answer hpc =>
    exact .keep (by rw [hpc]; rfl) rfl rfl
  | rename hpc => exact .keep (by rw [hpc]; rfl) (List.length_modify ..) rfl
  | @plain index pc hpc hnext =>
    refine .keep ?_ rfl rfl
    rw [hpc]
    change pc.phase = _
    split at hnext <;> first | (subst hnext; rfl) | exact hnext.elim
  | @drop index pc list hpc hnext =>
    refine .keep ?_ (List.length_modify ..) rfl
    rw [hpc]
    change pc.phase = _
    split at hnext <;> subst hnext <;> rfl

theorem TimeoutStep.phaseStep (h : TimeoutStep s t) : PhaseStep s t := by
  cases h with
  | login hpc => exact .keep (by rw [hpc]; rfl) rfl rfl
  | @reply send k hpc => exact .keep (by rw [hpc]; cases send <;> rfl) rfl rfl

/-- What is past stays past. -/
theorem PhaseStep.past (h : PhaseStep s t) (hlength : s₀.users.length < s.users.length)
    (hpast : s₀.users.length + 1 < s.users.length ∨ s.server.phase = .away ∨
      s.server.phase = .register ∨ s.server.phase = .notify ∧ s.timedOut = s₀.timedOut) :
    Stage s₀ t := by
  cases h with
  | keep hphase hlength' htimedOut =>
    exact .past (hlength' ▸ hlength) (by rwa [hlength', hphase, htimedOut])
  | take hphase hlength' => exact .past (hlength' ▸ hlength) (.inr (.inr (.inl hphase)))
  | register hlength' => exact .past (by omega) (.inl (by omega))
  | release hphase hlength' => exact .past (hlength' ▸ hlength) (.inr (.inl hphase))
  | inLogin hphase hlength' =>
    refine .past (hlength' ▸ hlength) (.inl ?_)
    obtain hlong | haway | hregister | ⟨hnotify, -⟩ := hpast
    · exact hlength' ▸ hlong
    all_goals simp_all

/-- What a step of the server between the new entry and the end of the wait does, if it does not
remove the entry. -/
theorem ServerStep.entered (h : ServerStep s junk t) (hin : s.server ≠ .unlink)
    (hserver : s.server.phase = .writeId ∨ s.server.phase = .postStc ∨ s.server.phase = .wait) :
    t.users = s.users ∧ t.timedOut = s.timedOut ∧ (t.server.phase = .notify ∨
      (t.server.phase = .writeId ∨ t.server.phase = .postStc ∨ t.server.phase = .wait) ∧
        t.usersList = s.usersList ∧ t.activeUsers = s.activeUsers) := by
  cases h with
  | writeId | copyId | postStc =>
    exact ⟨rfl, rfl, .inr ⟨by simp [ServerPc.phase], rfl, rfl⟩⟩
  | loggedIn => exact ⟨rfl, rfl, .inl rfl⟩
  | unlink hpc => exact absurd hpc hin
  | move hpc hmoves =>
    rw [hpc] at hserver
    cases hmoves with
    | leave send | enter send | skip send => cases send <;> simp [ServerPc.phase] at hserver
    | _ => simp [ServerPc.phase] at hserver
  | @writeComm send k hpc | @writeMsg send k hpc | @copyMsg send k hpc | @post send k hpc
  | @resume send k hpc =>
    rw [hpc] at hserver
    cases send <;> simp [ServerPc.phase] at hserver
  | _ =>
    rw [‹s.server = _›] at hserver
    simp [ServerPc.phase] at hserver

theorem Stage.step_server (hs : Stage s₀ s) (h : ServerStep s junk t) : Stage s₀ t := by
  cases hs with
  | asked hserver htable =>
    cases h with
    | register hpc =>
      obtain ⟨husers, hlist, hactive, htimedOut⟩ := htable
      exact .entered _ (.inl rfl) ⟨congrArg (· ++ [newUser (s.users.length + 1) _]) husers, hlist,
        congrArg (· + 1) hactive, htimedOut⟩
    | move hpc hmoves =>
      cases hserver.symm.trans hpc
      cases hmoves
    | _ => cases hserver.symm.trans ‹s.server = _›
  | entered u hphase htable =>
    obtain ⟨husers, hlist, hactive, htimedOut⟩ := htable
    by_cases hpc : s.server = .unlink
    · obtain rfl := h.of_unlink hpc
      refine .timedOut u rfl ⟨?_, hlist, hactive, congrArg (· + 1) htimedOut⟩
      rw [husers, List.length_append, List.length_singleton, Nat.add_sub_cancel]
      exact List.modify_concat s₀.users _ _
    obtain ⟨husers', htimedOut', hnotify | ⟨hphase', hlist', hactive'⟩⟩ := h.entered hpc hphase
    · refine .past (by simp [husers', husers]) (.inr (.inr (.inr ⟨hnotify, ?_⟩)))
      exact htimedOut'.trans htimedOut
    · exact .entered u hphase' ⟨husers'.trans husers, hlist'.trans hlist, hactive'.trans hactive,
        htimedOut'.trans htimedOut⟩
  | timedOut u hserver htable =>
    cases h with
    | postUsr =>
      obtain ⟨husers, -⟩ := htable
      exact .past (by simp [husers]) (.inr (.inl rfl))
    | move hpc hmoves =>
      cases hserver.symm.trans hpc
      cases hmoves
    | _ => cases hserver.symm.trans ‹s.server = _›
  | past hlength hpast => exact h.phaseStep.past hlength hpast

theorem Stage.step_timeout (hs : Stage s₀ s) (h : TimeoutStep s t) : Stage s₀ t := by
  cases hs with
  | asked hserver => cases h <;> cases hserver.symm.trans ‹s.server = _›
  | entered u hphase htable =>
    cases h with
    | login => exact .entered u (.inr (.inr rfl)) htable
    | @reply send k hpc =>
      rw [hpc] at hphase
      cases send <;> simp [ServerPc.phase] at hphase
  | timedOut u hserver => cases h <;> cases hserver.symm.trans ‹s.server = _›
  | past hlength hpast => exact h.phaseStep.past hlength hpast

/-- Along every run from a registration. -/
theorem stage_of_path (h₀ : s₀.server = .register) (hpath : sharedChat.Path Machine.anyStep s₀ s) :
    Stage s₀ s := by
  refine hpath.invariant (.asked h₀ ⟨rfl, rfl, rfl, rfl⟩) fun s a t _ hs _ h => ?_
  obtain ⟨junk, h⟩ | h | h := (step_chatStep h).table
  · exact hs.step_server h
  · exact hs.step_timeout h
  · simp only [State.table, Prod.mk.injEq] at h
    obtain ⟨hserver, husers, hlist, hactive, htimedOut⟩ := h
    cases hs with
    | asked hs htable => exact .asked (hserver ▸ hs) (by rwa [husers, hlist, hactive, htimedOut])
    | entered u hs htable =>
      exact .entered u (hserver ▸ hs) (by rwa [husers, hlist, hactive, htimedOut])
    | timedOut u hs htable =>
      exact .timedOut u (hserver ▸ hs) (by rwa [husers, hlist, hactive, htimedOut])
    | past hlength hpast => exact .past (husers ▸ hlength) (by rwa [husers, hserver, htimedOut])

theorem connectedIn_concat (users : List User) {u : User} (hu : u.id = -1) (i : ℕ) :
    connectedIn (users ++ [u]) i = connectedIn users i := by
  rcases lt_trichotomy i users.length with h | rfl | h
  · rw [connectedIn, connectedIn, List.getElem?_append_left h]
  · simp [connectedIn, hu]
  · rw [connectedIn, connectedIn, List.getElem?_eq_none (by simpa using h),
      List.getElem?_eq_none h.le]

/-- A login that times out leaves the connected users and the user list as they were before it, but
`active_users` one larger. -/
theorem timeout_restores (h : TimesOut s₀ s) : (∀ i, s.connected i = s₀.connected i) ∧
    s.usersList = s₀.usersList ∧ s.activeUsers = s₀.activeUsers + 1 := by
  have hlength := h.length
  have htimedOut := h.timedOut
  cases stage_of_path h.registers h.path with
  | asked hserver => cases hserver.symm.trans h.server
  | entered u hphase => simp [h.server, ServerPc.phase] at hphase
  | timedOut u hserver htable =>
    obtain ⟨husers, hlist, hactive, -⟩ := htable
    refine ⟨fun i => ?_, hlist, hactive⟩
    change connectedIn s.users i = connectedIn s₀.users i
    rw [husers]
    exact connectedIn_concat s₀.users rfl i
  | past _ hpast =>
    rw [h.server] at hpast
    simp only [ServerPc.phase, reduceCtorEq, false_or, true_and] at hpast
    omega

/-- A login is about to be registered. -/
def asked : State := (sharedChat.run initial
  (Action.connect ['a'] :: clientSteps 0 4 ++ serverSteps 1)).get (by decide +kernel)

/-- It has timed out. -/
def askedTooLate : State :=
  (sharedChat.run asked (serverSteps 4 ++ Action.timeout :: serverSteps 1)).get (by decide +kernel)

theorem asked_timesOut : TimesOut asked askedTooLate where
  registers := by decide +kernel
  path := Machine.path_of_runUnder (Option.some_get _).symm
  length := by decide +kernel
  server := by decide +kernel
  timedOut := by decide +kernel

theorem timeout_restores_asked : askedTooLate.activeUsers = asked.activeUsers + 1 :=
  (timeout_restores asked_timesOut).2.2

end Stage

/-! ### Every run -/

/-- The connected users, the user list and `active_users` are the same. -/
structure RolledBack (s₀ s : State) : Prop where
  connected (i : ℕ) : s.connected i = s₀.connected i
  usersList : s.usersList = s₀.usersList
  activeUsers : s.activeUsers = s₀.activeUsers

/-- A login that has timed out is rolled back when its user is removed; `active_users` counts the
connected users; and the server exits with its last user. -/
structure State.LoginsCounted (s : State) : Prop where
  rolledBack (s₀ : State) : sharedChat.Reachable s₀ → TimesOut s₀ s → RolledBack s₀ s
  active : s.activeUsers = connectedCount s.users
  exits (index : ℕ) (junk : Text) (t : State) : s.server = .drop index →
    thirdTaskServer s junk = some t → (t.server = .exited ↔ ∀ u ∈ t.users, u.id = -1)

theorem connectedCount_eq_zero (users : List User) :
    connectedCount users = 0 ↔ ∀ u ∈ users, u.id = -1 := by
  simp [connectedCount, List.countP_eq_zero]

/-- The disconnect branch exits exactly when nobody is left that is counted. -/
theorem exits_iff {s t : State} {index : ℕ} {junk : Text} (hpc : s.server = .drop index)
    (h : thirdTaskServer s junk = some t) : t.server = .exited ↔ t.activeUsers ≤ 0 := by
  simp only [thirdTaskServer, hpc] at h
  split at h <;> obtain rfl := Option.some.inj h
  · exact ⟨fun _ => ‹_›, fun _ => rfl⟩
  · exact ⟨nofun, fun hle => absurd hle ‹_›⟩

/-- **A login is rolled back if and only if none has timed out.** -/
theorem logins_counted {s : State} (hs : sharedChat.Reachable s) :
    s.LoginsCounted ↔ s.timedOut = 0 := by
  have hactive := active_eq hs
  constructor
  · intro h
    have hcount := h.active
    omega
  · intro htimedOut
    refine ⟨fun s₀ _ h => ?_, by omega, fun index junk t hpc h => ?_⟩
    · exact absurd (htimedOut.symm.trans h.timedOut) (Nat.succ_ne_zero _).symm
    · have hstep : sharedChat.step s (.server junk) = some t := h
      have hactive' := active_eq (hs.step hstep)
      have htimedOut' : t.timedOut = s.timedOut := by
        simp only [thirdTaskServer, hpc] at h
        split at h <;> obtain rfl := Option.some.inj h <;> rfl
      rw [exits_iff hpc h, ← connectedCount_eq_zero]
      omega

/-- A client logs in and leaves. -/
def oneLeft : State := (sharedChat.run initial
  (Action.connect ['a'] :: requested 0 ++ adopted 0 ++ serverSteps 8 ++
    Action.pressF3 0 :: clientSteps 0 2 ++ serverSteps 2)).get (by decide +kernel)

theorem logins_counted_oneLeft : oneLeft.LoginsCounted :=
  (logins_counted (Machine.reachable_of_run rfl (Option.some_get _).symm)).2 (by decide +kernel)

/-- A login times out, and another client logs in and leaves. -/
def deserted : State := (sharedChat.run initial
  (Action.connect ['a'] :: requested 0 ++ Action.timeout :: Action.connect ['b'] ::
    serverSteps 4 ++ requested 1 ++ adopted 1 ++ serverSteps 9 ++
    Action.pressF3 1 :: clientSteps 1 2 ++ serverSteps 3)).get (by decide +kernel)

/-- The state after the server has taken the last user's entry back. -/
def goesOn : State := (thirdTaskServer deserted []).get (by decide +kernel)

/-- The last user leaves, and the server goes on. -/
theorem login_not_counted : ¬ ∀ s, sharedChat.Reachable s → s.LoginsCounted := by
  intro h
  have hcounted := h deserted (Machine.reachable_of_run rfl (Option.some_get _).symm)
  have hexits := hcounted.exits 1 [] goesOn (by decide +kernel) (Option.some_get _).symm
  exact absurd (hexits.2 (by decide +kernel)) (by decide +kernel)

end EmbeddedC.SharedChat
