import EmbeddedC.Chatroom.Registry

/-!
# The chatroom: the list of users

The server keeps the text of the user list beside the table: it appends a line when a user is
registered, and builds the text anew when a user is renamed or leaves.  The line appended is that
of `users[index]`, where `index` is left over from the last pass over the queues.

* `userListOf`: what the list should be;
* `Listed`: what ties the list and `index` to the table;
* `AfterFirstPass`: the runs in which a full pass precedes the first registration;
* `user_list`: in these runs the list is that of the table.
-/

namespace EmbeddedC.Chatroom

/-- A line `<login>` for every connected user. -/
def userListOf (users : List User) : Text :=
  (users.filter User.connected).flatMap fun u => '<' :: u.login ++ ['>', '\n']

theorem userListOf_append (us ws : List User) :
    userListOf (us ++ ws) = userListOf us ++ userListOf ws := by
  simp [userListOf]

theorem userLine_eq {login : Text} (h : login.length < t3LoginQMsgSize) :
    userLine login = '<' :: login ++ ['>', '\n'] := by
  refine List.take_of_length_le ?_
  simp only [t3LoginQMsgSize] at h
  simp only [t3UserQMsgSize, List.length_append, List.length_cons, List.length_nil]
  omega

theorem length_snprintf_lt {size : ℕ} (h : 0 < size) (text : Text) :
    (snprintf size text).length < size := by
  have := List.length_take_le (size - 1) text
  simp only [snprintf]
  omega

theorem userLine_newUser (k : ℕ) : userLine (newUser k).login = userListOf [newUser k] := by
  have hlen : (newUser k).login.length < t3LoginQMsgSize := length_snprintf_lt (by decide) _
  rw [userLine_eq hlen]
  simp [userListOf, connected_newUser]

/-- All logins fit in their buffers. -/
def LoginsFit (users : List User) : Prop := ∀ u ∈ users, u.login.length < t3LoginQMsgSize

/-- The text built anew is the list. -/
theorem renderUsers_eq {users : List User} (h : LoginsFit users) :
    renderUsers users = userListOf users := by
  induction users with
  | nil => rfl
  | cons u users ih =>
    obtain ⟨hu, husers⟩ := List.forall_mem_cons.1 h
    have hcons := userListOf_append [u] users
    rw [List.singleton_append] at hcons
    rw [hcons, ← ih husers, renderUsers, List.flatMap_cons, userLine_eq hu, ← renderUsers]
    by_cases hid : u.id = -1
    · simp [userListOf, User.connected, hid]
    · simp [userListOf, User.connected, hid]

/-! ### The invariant -/

/-- The user list is up to date. -/
def ServerPc.settled : ServerPc → Bool
  | .reply _ | .shutdown _ | .exited => false
  | _ => true

/-- Where the pass over the queues goes on. -/
def ServerPc.cursor : ServerPc → ℕ
  | .pass index => index
  | .broadcast _ _ _ after => after
  | .answer index => index + 1
  | _ => 0

/-- The list and `index`, once a pass has been completed. -/
structure Listed (v : Server) : Prop where
  logins : LoginsFit v.users
  cursor : v.pc.cursor ≤ v.users.length
  list : v.pc.settled = true → v.usersList = userListOf v.users
  index : v.pc = .login → v.index = v.users.length
  /-- the line to be appended is that of the new user -/
  appended : ∀ id, v.pc = .reply id → ∃ u, v.users[v.index]? = some u ∧ u.id = id ∧
    v.index + 1 = v.users.length ∧ v.usersList ++ userLine u.login = userListOf v.users
  sending : ∀ m next rcpts after, v.pc = .broadcast m next rcpts after →
    m.prio = t3UpdUsrlistPrio → m.text = v.usersList.take t3UserQMsgSize

/-- Neither at the start of the main loop, nor about to append, nor in a broadcast. -/
def ServerPc.plain : ServerPc → Bool
  | .login | .reply _ | .broadcast .. => false
  | _ => true

theorem Listed.plain {v v' : Server} (h : Listed v) (husers : v'.users = v.users)
    (hlist : v'.usersList = v.usersList) (hsettled : v'.pc.settled = true → v.pc.settled = true)
    (hcursor : v'.pc.cursor ≤ v.users.length) (hplain : v'.pc.plain = true) : Listed v' where
  logins := by
    rw [husers]
    exact h.logins
  cursor := husers ▸ hcursor
  list := fun hv => by rw [hlist, husers, h.list (hsettled hv)]
  index := fun hpc => by rw [hpc] at hplain; cases hplain
  appended := fun id hpc => by rw [hpc] at hplain; cases hplain
  sending := fun m next rcpts after hpc => by rw [hpc] at hplain; cases hplain

theorem listed_startList {v : Server} {after : ℕ} (hlogins : LoginsFit v.users)
    (hlist : v.usersList = userListOf v.users) (hafter : after ≤ v.users.length) :
    Listed (startList v after) where
  logins := hlogins
  cursor := hafter
  list := fun _ => hlist
  index := fun hpc => nomatch hpc
  appended := fun id hpc => nomatch hpc
  sending := fun m next rcpts after' hpc _ => by
    cases hpc
    rfl

theorem Listed.readLogin {K : Kernel} {v : Server} (h : Listed v) (hpc : v.pc = .login) :
    Listed (readLogin K v).2 := by
  have hsettled : v.pc.settled = true := by rw [hpc]; rfl
  unfold Chatroom.readLogin
  split
  · exact h.plain rfl rfl (fun _ => hsettled) (Nat.zero_le _) rfl
  · split
    · exact h.plain rfl rfl (fun _ => hsettled) (Nat.zero_le _) rfl
    · split
      · refine ⟨?_, Nat.zero_le _, fun hv => (nomatch hv), fun hv => (nomatch hv), fun id hv => ?_,
          fun _ _ _ _ hv => (nomatch hv)⟩
        · intro u hu
          obtain hu | hu := List.mem_append.1 hu
          · exact h.logins u hu
          · obtain rfl := List.mem_singleton.1 hu
            exact length_snprintf_lt (by decide) _
        · cases hv
          refine ⟨newUser (v.users.length + 1), by simp [h.index hpc], rfl,
            by simp [h.index hpc], ?_⟩
          rw [userLine_newUser, userListOf_append, h.list hsettled]
      · exact h.plain rfl rfl (fun _ => hsettled) (Nat.zero_le _) rfl

theorem Listed.reply {junk : Text} {K : Kernel} {v : Server} {id : ℕ} (h : Listed v)
    (hpc : v.pc = .reply id) : Listed (reply junk K v id).2 := by
  obtain ⟨u, hu, -, -, hlist⟩ := h.appended id hpc
  refine listed_startList h.logins ?_ (Nat.zero_le _)
  simpa [hu] using hlist

theorem Listed.sendBroadcast {K : Kernel} {v : Server} {m : Msg} {next : ℕ} {rcpts : List ℕ}
    {after : ℕ} (h : Listed v) (hpc : v.pc = .broadcast m next rcpts after) :
    Listed (sendBroadcast K v m next rcpts after).2 := by
  have hsettled : v.pc.settled = true := by rw [hpc]; rfl
  have hafter : after ≤ v.users.length := by
    have := h.cursor
    rwa [hpc] at this
  have hnext : Listed { v with pc := .broadcast m (next + 1) rcpts after } :=
    ⟨h.logins, hafter, fun _ => h.list hsettled, fun hv => (nomatch hv), fun id hv => (nomatch hv),
      fun m' next' rcpts' after' hv => by
        cases hv
        exact h.sending m next rcpts after hpc⟩
  unfold Chatroom.sendBroadcast
  split
  · exact h.plain rfl rfl (fun _ => hsettled) hafter rfl
  · split
    · exact hnext
    · exact hnext

theorem LoginsFit.set {users : List User} (h : LoginsFit users) {i : ℕ} {u : User}
    (hu : u.login.length < t3LoginQMsgSize) : LoginsFit (users.set i u) := by
  intro w hw
  obtain hw | rfl := List.mem_or_eq_of_mem_set hw
  · exact h w hw
  · exact hu

theorem Listed.readUser {K : Kernel} {v : Server} {index : ℕ} (h : Listed v)
    (hpc : v.pc = .pass index) : Listed (readUser K v index).2 := by
  have hsettled : v.pc.settled = true := by rw [hpc]; rfl
  have hcursor : index ≤ v.users.length := by
    have := h.cursor
    rwa [hpc] at this
  unfold Chatroom.readUser
  split
  · -- the end of the pass
    rename_i hnone
    have hle := List.getElem?_eq_none_iff.1 hnone
    exact ⟨h.logins, Nat.zero_le _, fun _ => h.list hsettled, fun _ => hcursor.antisymm hle,
      fun id hv => (nomatch hv), fun _ _ _ _ hv => (nomatch hv)⟩
  · rename_i u hu
    have hnext : index + 1 ≤ v.users.length := List.lt_length_of_getElem?_eq_some hu
    have hgoon : Listed { v with pc := .pass (index + 1) } :=
      h.plain rfl rfl (fun _ => hsettled) hnext rfl
    split
    · exact hgoon
    · split
      · exact hgoon
      · split
        · -- a text: what is sent is not a list
          refine ⟨h.logins, hnext, fun _ => h.list hsettled, fun hv => (nomatch hv),
            fun id hv => (nomatch hv), fun m next rcpts after hv hprio => ?_⟩
          cases hv
          cases hprio
        · split
          · -- a new name: the list is made anew
            rename_i m c _ _ _
            have hlogins := h.logins.set (i := index)
              (u := { u with login := snprintf t3LoginQMsgSize m.text })
              (length_snprintf_lt (by decide) m.text)
            exact listed_startList hlogins (renderUsers_eq hlogins) (by simpa using hnext)
          · split
            · exact h.plain rfl rfl (fun _ => hsettled) hnext rfl
            · split
              · -- the user leaves: the list is made anew, unless it was the last one
                have hlogins := h.logins.set (i := index) (u := { u with id := -1 })
                  (h.logins u (List.mem_of_getElem? hu))
                dsimp only
                split
                · exact ⟨hlogins, Nat.zero_le _, fun hv => (nomatch hv), fun hv => (nomatch hv),
                    fun id hv => (nomatch hv), fun _ _ _ _ hv => (nomatch hv)⟩
                · exact listed_startList hlogins (renderUsers_eq hlogins) (by simpa using hnext)
              · exact hgoon

/-- In `shutdown_server` only the place changes. -/
theorem shutdownServer_server (K : Kernel) (v : Server) (index : ℕ) :
    ∃ pc, (shutdownServer K v index).2 = { v with pc := pc } ∧ pc.running = false := by
  unfold shutdownServer
  split
  · exact ⟨.exited, rfl, rfl⟩
  · split
    · exact ⟨.exited, rfl, rfl⟩
    · split
      · exact ⟨.shutdown (index + 1), rfl, rfl⟩
      · exact ⟨.shutdown (index + 1), rfl, rfl⟩

theorem Listed.down {v : Server} (h : Listed v) {pc : ServerPc} (hpc : pc.running = false) :
    Listed { v with pc := pc } := by
  cases pc with
  | shutdown | exited => exact h.plain rfl rfl (fun hv => nomatch hv) (Nat.zero_le _) rfl
  | _ => cases hpc

theorem Listed.thirdTaskServer {junk : Text} {K : Kernel} {v : Server} {p : Kernel × Server}
    (h : Listed v) (hp : thirdTaskServer junk K v = some p) : Listed p.2 := by
  unfold Chatroom.thirdTaskServer at hp
  split at hp <;> rename_i hpc
  · obtain rfl := Option.some.inj hp
    exact h.readLogin hpc
  · obtain rfl := Option.some.inj hp
    exact h.plain rfl rfl (fun _ => by rw [hpc]; rfl) (Nat.zero_le _) rfl
  · obtain rfl := Option.some.inj hp
    exact h.reply hpc
  · obtain rfl := Option.some.inj hp
    exact h.sendBroadcast hpc
  · obtain rfl := Option.some.inj hp
    have hcursor := h.cursor
    rw [hpc] at hcursor
    exact h.plain rfl rfl (fun _ => by rw [hpc]; rfl) hcursor rfl
  · obtain rfl := Option.some.inj hp
    exact h.readUser hpc
  · obtain rfl := Option.some.inj hp
    obtain ⟨pc, heq, hdown⟩ := shutdownServer_server K v _
    rw [heq]
    exact h.down hdown
  · cases hp

/-- What a step does to the variables of the server. -/
theorem server_cases {s t : State} {a : Action} (h : chatroom.step s a = some t) :
    (∃ junk p, thirdTaskServer junk s.kernel s.server = some p ∧ t.server = p.2) ∨
    t.server = { s.server with pc := .shutdown 0 } ∨ t.server = s.server := by
  obtain ⟨junk, rfl, -⟩ | ⟨-, rfl⟩ | hclient := step_cases h
  · obtain ⟨p, hp, rfl⟩ := Option.map_eq_some_iff.1 h
    exact .inl ⟨junk, p, hp, rfl⟩
  · exact .inr (.inl rfl)
  · exact .inr (.inr hclient.frame.server)

theorem Listed.step {s t : State} {a : Action} (h : Listed s.server)
    (hstep : chatroom.step s a = some t) : Listed t.server := by
  obtain ⟨junk, p, hp, hserver⟩ | hexit | hsame := server_cases hstep
  · rw [hserver]
    exact h.thirdTaskServer hp
  · rw [hexit]
    exact h.down rfl
  · rwa [hsame]

/-! ### Before the first registration -/

/-- Nobody has been registered: nothing is in the list, and the server reads its queues. -/
structure Unused (v : Server) : Prop where
  users : v.users = []
  list : v.usersList = []
  pc : v.pc = .login ∨ (∃ text, v.pc = .resend text) ∨ v.pc = .pass 0 ∨ v.pc.running = false

theorem Unused.readUser {K : Kernel} {v : Server} (h : Unused v) :
    Chatroom.readUser K v 0 = (K, { v with pc := .login, index := 0 }) := by
  simp [Chatroom.readUser, h.users]

theorem Unused.thirdTaskServer {junk : Text} {K : Kernel} {v : Server} {p : Kernel × Server}
    (h : Unused v) (hp : thirdTaskServer junk K v = some p) : p.2.users ≠ [] ∨ Unused p.2 := by
  obtain hpc | ⟨text, hpc⟩ | hpc | hdown := h.pc
  · simp only [Chatroom.thirdTaskServer, hpc] at hp
    obtain rfl := Option.some.inj hp
    unfold Chatroom.readLogin
    split
    · exact .inr ⟨h.users, h.list, .inr (.inr (.inl rfl))⟩
    · split
      · exact .inr ⟨h.users, h.list, .inr (.inl ⟨_, rfl⟩)⟩
      · split
        · exact .inl (by simp)
        · exact .inr ⟨h.users, h.list, .inr (.inr (.inl rfl))⟩
  · simp only [Chatroom.thirdTaskServer, hpc] at hp
    obtain rfl := Option.some.inj hp
    exact .inr ⟨h.users, h.list, .inr (.inr (.inl rfl))⟩
  · simp only [Chatroom.thirdTaskServer, hpc, h.readUser] at hp
    obtain rfl := Option.some.inj hp
    exact .inr ⟨h.users, h.list, .inl rfl⟩
  · unfold Chatroom.thirdTaskServer at hp
    split at hp <;> rename_i hpc <;> rw [hpc] at hdown <;> try cases hdown
    · obtain rfl := Option.some.inj hp
      obtain ⟨pc, heq, hpc'⟩ := shutdownServer_server K v _
      rw [heq]
      exact .inr ⟨h.users, h.list, .inr (.inr (.inr hpc'))⟩
    · cases hp

theorem unused_of_reachable {s : State} (h : chatroom.Reachable s) (husers : s.server.users = []) :
    Unused s.server := by
  refine h.invariant (I := fun s => s.server.users ≠ [] ∨ Unused s.server) (fun s hs => ?_)
    (fun s a t _ hunused hstep => ?_) |>.resolve_left (not_not.2 husers)
  · obtain ⟨index, rfl⟩ := hs
    exact .inr ⟨rfl, rfl, .inl rfl⟩
  · obtain hused | hunused := hunused
    · have := users_length_le_of_step hstep
      exact .inl fun ht => hused (List.length_eq_zero_iff.1 (by simpa [ht] using this))
    · obtain ⟨junk, p, hp, hserver⟩ | hexit | hsame := server_cases hstep
      · rw [hserver]
        exact hunused.thirdTaskServer hp
      · rw [hexit]
        exact .inr ⟨hunused.users, hunused.list, .inr (.inr (.inr rfl))⟩
      · rw [hsame]
        exact .inr hunused

/-! ### Runs -/

/-- The list, with its terminating NUL, fits in the buffer. -/
def ListFits (s : State) : Prop := (userListOf s.server.users).length < t3UserQMsgSize

/-- The run to `s` begins with a full pass of the main loop before the first registration, and up
to `s` the list fits: at `p` no user has been registered, and the step from `p` ends a pass. -/
def AfterFirstPass (s : State) : Prop :=
  ∃ p junk q, chatroom.Reachable p ∧ p.server.users = [] ∧ p.server.pc ≠ .login ∧
    chatroom.step p (.server junk) = some q ∧ q.server.pc = .login ∧
    chatroom.Path (fun s _ => ListFits s) q s ∧ ListFits s

/-- The first pass ends with `index` 0. -/
theorem listed_of_firstPass {p q : State} {junk : Text} (hp : chatroom.Reachable p)
    (husers : p.server.users = []) (hpc : p.server.pc ≠ .login)
    (hstep : chatroom.step p (.server junk) = some q) (hlogin : q.server.pc = .login) :
    Listed q.server := by
  have hunused := unused_of_reachable hp husers
  obtain ⟨⟨K, v⟩, hv, rfl⟩ := Option.map_eq_some_iff.1 hstep
  obtain hpc' | ⟨text, hpc'⟩ | hpc' | hdown := hunused.pc
  · exact absurd hpc' hpc
  · simp only [thirdTaskServer, hpc'] at hv
    cases hv
    cases hlogin
  · simp only [thirdTaskServer, hpc', hunused.readUser] at hv
    cases hv
    exact ⟨by simp [LoginsFit, husers], Nat.zero_le _,
      fun _ => by simp [hunused.list, husers, userListOf], fun _ => by simp [husers],
      fun id hr => (by cases hr), fun _ _ _ _ hr => (by cases hr)⟩
  · have hrunning := (thirdTaskServer_step hv).running (by rw [show v.pc = .login from hlogin]; rfl)
    rw [hrunning] at hdown
    cases hdown

theorem AfterFirstPass.listed {s : State} (h : AfterFirstPass s) : Listed s.server := by
  obtain ⟨p, junk, q, hp, husers, hpc, hstep, hlogin, hpath, -⟩ := h
  exact hpath.invariant (I := fun s => Listed s.server)
    (listed_of_firstPass hp husers hpc hstep hlogin) fun _ _ _ _ hlisted _ hs => hlisted.step hs

/-! ### Lists sent -/

/-- The operation on one queue that enqueues `m` for user `k` is a send of `m`. -/
theorem queued_of_modify {K : Kernel} {j k : ℕ} {f : Chan → Chan} {m : Msg}
    (h : ((K.modify j f).chan k).queued = (K.chan k).queued ++ [m]) :
    (f (K.chan j)).queued = (K.chan j).queued ++ [m] := by
  by_cases hk : k = j
  · subst hk
    rwa [Kernel.modify_chan_self] at h
  · rw [Kernel.modify_chan_of_ne K f hk] at h
    simp at h

theorem sendStoc_queued_inj {c : Chan} {m m' : Msg}
    (h : (c.sendStoc m).queued = c.queued ++ [m']) : m = m' := by
  obtain ⟨-, hq, -⟩ | ⟨-, hq⟩ := c.sendStoc_queued m
  · simpa [hq] using h
  · simp [hq] at h

/-- What the server enqueues for a user: the message of its loop, the answer to a request, or the
disconnect command. -/
theorem ServerStep.queued {K K' : Kernel} {v v' : Server} (hs : ServerStep K v K' v') {k : ℕ}
    {m : Msg} (h : (K'.chan k).queued = (K.chan k).queued ++ [m]) :
    (∃ next rcpts after, v.pc = .broadcast m next rcpts after) ∨
    (∃ index, v.pc = .answer index ∧ m = listMsg v .direct) ∨ m.prio = t3DisconnectPrio := by
  cases hs with
  | idle | takeReply | takeOther | finish | skip | down => simp at h
  | resend | reply => simp at h
  | register =>
    have := queued_of_modify h
    simp [Chan.fresh] at this
  | deliver hpc =>
    obtain rfl := sendStoc_queued_inj (queued_of_modify h)
    exact .inl ⟨_, _, _, hpc⟩
  | answer hpc => exact .inr (.inl ⟨_, hpc, (sendStoc_queued_inj (queued_of_modify h)).symm⟩)
  | farewell hpc =>
    obtain rfl := sendStoc_queued_inj (queued_of_modify h)
    exact .inr (.inr rfl)
  | chat hpc hu hid hm | rename hpc hu hid hm | request hpc hu hid hm | leave hpc hu hid hm
  | discard hpc hu hid hm =>
    obtain ⟨q, -, rfl⟩ := Chan.recvCtos_eq_some hm
    have := queued_of_modify h
    simp at this
  | @leaveLast index u m' c hpc hu hid hm =>
    obtain ⟨q, -, rfl⟩ := Chan.recvCtos_eq_some hm
    have := queued_of_modify
      (f := fun _ => { K.chan (index + 1) with ctos := q, linked := false }) h
    simp at this

/-! ### Result -/

/-- What holds of the user list. -/
structure UserList (s : State) : Prop where
  /-- at the end of a pass the list is that of the connected users -/
  list : s.server.pc = .login → s.server.usersList = userListOf s.server.users
  /-- a list that is sent is the one of this moment -/
  sent : ∀ junk t k m, chatroom.step s (.server junk) = some t →
    (t.kernel.chan k).queued = (s.kernel.chan k).queued ++ [m] → m.prio = t3UpdUsrlistPrio →
      m.text = userListOf s.server.users
  /-- the login appended is that of the user just registered -/
  appended : ∀ id, s.server.pc = .reply id → ∃ u, s.server.users[s.server.index]? = some u ∧
    u.id = id ∧ s.server.index + 1 = s.server.users.length

/-- **The user list**, in every run that begins with a full pass and in which the list fits. -/
theorem user_list {s : State} (h : AfterFirstPass s) : UserList s where
  list := fun hlogin => h.listed.list (by rw [hlogin]; rfl)
  sent := fun junk t k m hstep hqueued hprio => by
    have hfits : (userListOf s.server.users).length ≤ t3UserQMsgSize := by
      obtain ⟨p, junk, q, -, -, -, -, -, -, hfits⟩ := h
      exact hfits.le
    obtain ⟨p, hp, rfl⟩ := Option.map_eq_some_iff.1 hstep
    obtain ⟨next, rcpts, after, hpc⟩ | ⟨index, hpc, rfl⟩ | hleave :=
      (thirdTaskServer_step hp).queued hqueued
    · rw [h.listed.sending m next rcpts after hpc hprio, h.listed.list (by rw [hpc]; rfl),
        List.take_of_length_le hfits]
    · rw [listMsg, h.listed.list (by rw [hpc]; rfl), List.take_of_length_le hfits]
    · rw [hprio] at hleave
      cases hleave
  appended := fun id hpc =>
    let ⟨u, hu, hid, hindex, _⟩ := h.listed.appended id hpc
    ⟨u, hu, hid, hindex⟩

/-- The server makes a pass, then a client logs in. -/
def firstPass : State := (chatroom.run (initial 0) (serverSteps 1)).get (by decide +kernel)

def passed : State := (chatroom.run firstPass (serverSteps 1)).get (by decide +kernel)

instance (s : State) : Decidable (ListFits s) := inferInstanceAs (Decidable (_ < _))

def listed : State :=
  (chatroom.runUnder (fun s _ => ListFits s) passed (firstLogin.drop 2)).get (by decide +kernel)

theorem listed_afterFirstPass : AfterFirstPass listed :=
  ⟨firstPass, [], passed, Machine.reachable_of_run ⟨0, rfl⟩ (Option.some_get _).symm,
    by decide +kernel, by decide +kernel, rfl, by decide +kernel,
    Machine.path_of_runUnder (Option.some_get _).symm, by decide +kernel⟩

theorem user_list_listed : UserList listed := user_list listed_afterFirstPass

end EmbeddedC.Chatroom
