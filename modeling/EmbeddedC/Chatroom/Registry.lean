import EmbeddedC.Chatroom.Login

/-!
# The chatroom: the table of users

The server adds an entry for every login request and never removes one; a user who leaves keeps
the entry, with id -1.

* `Roster`: the names of the queues, and `active_users`;
* `GivesOut`: a step that registers a request, and the id in the reply to it;
* `ReadsDisconnect`: the server is about to read a disconnect command;
* `user_table`: what holds of the table in every run.
-/

namespace EmbeddedC.Chatroom

/-- `INT_MAX` -/
def intMax : ℕ := 2147483647

/-! ### Names of queues -/

theorem decimal_injective {n m : ℕ} (h : decimal n = decimal m) : n = m := by
  rw [← atoi_decimal n, h, atoi_decimal]

theorem length_decimal_le {n : ℕ} (h : n ≤ intMax) : (decimal n).length ≤ 10 :=
  (Nat.length_toDigits_le_iff (by omega) (by omega)).2 (lt_of_le_of_lt h (by decide))

/-- A name formed from an `int` fits in its buffer. -/
theorem snprintf_name {k : ℕ} {start tail : Text} (hk : k ≤ intMax)
    (hlen : start.length + tail.length ≤ 69) :
    snprintf t3LoginQMsgSize (start ++ decimal k ++ tail) = start ++ decimal k ++ tail := by
  refine List.take_of_length_le ?_
  have := length_decimal_le hk
  simp only [List.length_append, t3LoginQMsgSize]
  omega

theorem stcCh_newUser {k : ℕ} (hk : k ≤ intMax) : (newUser k).stcCh = t3StocChName k :=
  snprintf_name hk (by decide)

theorem ctsCh_newUser {k : ℕ} (hk : k ≤ intMax) : (newUser k).ctsCh = t3CtosChName k :=
  snprintf_name hk (by decide)

/-- Names that differ in the id, or in what follows it, differ. -/
theorem name_injective {n m : ℕ} {start tail tail' : Text} (hlen : tail.length = tail'.length)
    (h : start ++ decimal n ++ tail = start ++ decimal m ++ tail') : n = m ∧ tail = tail' := by
  obtain ⟨hstart, htail⟩ := List.append_inj' h hlen
  exact ⟨decimal_injective (List.append_cancel_left hstart), htail⟩

theorem t3StocChName_injective {n m : ℕ} (h : t3StocChName n = t3StocChName m) : n = m :=
  (name_injective rfl h).1

theorem t3CtosChName_injective {n m : ℕ} (h : t3CtosChName n = t3CtosChName m) : n = m :=
  (name_injective rfl h).1

theorem t3StocChName_ne_ctos (n m : ℕ) : t3StocChName n ≠ t3CtosChName m := fun h =>
  absurd (name_injective (by decide) h).2 (by decide)

/-! ### The invariant -/

/-- The user is connected. -/
def User.connected (u : User) : Bool := u.id ≠ -1

theorem connected_newUser (k : ℕ) : (newUser k).connected = true :=
  decide_eq_true (by simp only [newUser]; omega)

/-- The names in the table, and `active_users`. -/
structure Roster (v : Server) : Prop where
  names : ∀ i u, v.users[i]? = some u →
    u.stcCh = (newUser (i + 1)).stcCh ∧ u.ctsCh = (newUser (i + 1)).ctsCh
  active : v.activeUsers = v.users.countP User.connected

theorem Roster.of_eq {v v' : Server} (h : Roster v) (husers : v'.users = v.users)
    (hactive : v'.activeUsers = v.activeUsers) : Roster v' := by
  refine ⟨?_, ?_⟩
  · rw [husers]
    exact h.names
  · rw [husers, hactive]
    exact h.active

/-- A step that changes entry `index` but not its names. -/
theorem Roster.set {v v' : Server} {index : ℕ} {u u' : User} (h : Roster v)
    (hu : v.users[index]? = some u) (husers : v'.users = v.users.set index u')
    (hnames : u'.stcCh = u.stcCh ∧ u'.ctsCh = u.ctsCh)
    (hactive : v'.activeUsers + (if u.connected then 1 else 0) =
      v.activeUsers + if u'.connected then 1 else 0) : Roster v' := by
  refine ⟨fun i w hw => ?_, ?_⟩
  · rw [husers] at hw
    by_cases hi : index = i
    · subst hi
      rw [List.getElem?_set_self', hu] at hw
      cases hw
      obtain ⟨hstc, hcts⟩ := h.names index u hu
      exact ⟨hnames.1.trans hstc, hnames.2.trans hcts⟩
    · rw [List.getElem?_set_ne hi] at hw
      exact h.names i w hw
  · have hcount := congrArg Int.ofNat (List.countP_set_add hu User.connected u')
    simp only [Int.ofNat_eq_natCast, Nat.cast_add, Nat.cast_ite, Nat.cast_one,
      Nat.cast_zero] at hcount
    have := h.active
    rw [husers]
    omega

theorem Roster.serverStep {K K' : Kernel} {v v' : Server} (h : Roster v)
    (hs : ServerStep K v K' v') : Roster v' := by
  cases hs with
  | idle | takeReply | takeOther | resend | reply | finish | skip | deliver | answer | chat
  | request | discard | farewell | down => exact h.of_eq rfl rfl
  | @register text q hpc hq =>
    refine ⟨fun i u hu => ?_, ?_⟩
    · obtain hu | ⟨rfl, rfl⟩ := List.getElem?_concat_eq_some.1 hu
      · exact h.names i u hu
      · exact ⟨rfl, rfl⟩
    · simp [List.countP_append, connected_newUser, h.active]
  | @rename index u m c login list hpc hu hid hm hprio =>
    exact h.set hu rfl ⟨rfl, rfl⟩ rfl
  | @leave index u m c list hpc hu hid hm hprio =>
    exact h.set hu rfl ⟨rfl, rfl⟩ (by simp [User.connected, hid, startList])
  | @leaveLast index u m c hpc hu hid hm hprio =>
    exact h.set hu rfl ⟨rfl, rfl⟩ (by simp [User.connected, hid])

theorem roster_of_reachable {s : State} (h : chatroom.Reachable s) : Roster s.server := by
  refine h.invariant (I := fun s => Roster s.server) (fun s hs => ?_)
    fun s a t _ hroster hstep => ?_
  · obtain ⟨index, rfl⟩ := hs
    exact ⟨fun i u hu => (nomatch hu), rfl⟩
  · obtain ⟨junk, -, hserver, -⟩ | ⟨-, rfl⟩ | hclient := step_cases hstep
    · exact hroster.serverStep hserver
    · exact hroster.of_eq rfl rfl
    · rw [hclient.frame.server]
      exact hroster

/-! ### Ids given out -/

/-- The step registers a request, and the reply to it carries the id `k`. -/
def GivesOut (s t : State) (k : ℕ) : Prop := s.server.pc = .login ∧ t.server.pc = .reply k

/-- The table does not shrink. -/
theorem ServerStep.users_length_le {K K' : Kernel} {v v' : Server} (hs : ServerStep K v K' v') :
    v.users.length ≤ v'.users.length := by
  cases hs <;> simp [startList]

theorem ServerStep.reply_of_login {K K' : Kernel} {v v' : Server} {k : ℕ}
    (hs : ServerStep K v K' v') (hlogin : v.pc = .login) (hreply : v'.pc = .reply k) :
    k = v.users.length + 1 ∧ v'.users.length = v.users.length + 1 := by
  cases hs with
  | register =>
    cases hreply
    simp
  | idle hpc hpc' =>
    obtain rfl := hreply
    cases hpc'
  | down hpc hpc' =>
    obtain rfl := hreply
    cases hpc'
  | takeReply | takeOther => cases hreply
  | resend hpc | reply hpc | finish hpc | skip hpc | deliver hpc | answer hpc | chat hpc
  | rename hpc | request hpc | leave hpc | leaveLast hpc | discard hpc | farewell hpc =>
    rw [hlogin] at hpc
    cases hpc

theorem users_length_le_of_step {s t : State} {a : Action} (h : chatroom.step s a = some t) :
    s.server.users.length ≤ t.server.users.length := by
  obtain ⟨junk, -, hserver, -⟩ | ⟨-, rfl⟩ | hclient := step_cases h
  · exact hserver.users_length_le
  · exact Nat.le_refl _
  · rw [hclient.frame.server]

theorem users_length_le_of_path {C : State → Action → Prop} {s t : State}
    (h : chatroom.Path C s t) : s.server.users.length ≤ t.server.users.length :=
  h.invariant (I := fun t => s.server.users.length ≤ t.server.users.length) (Nat.le_refl _)
    fun _ _ _ _ hle _ hstep => hle.trans (users_length_le_of_step hstep)

/-- The id given out is the new length of the table. -/
theorem GivesOut.length {s t : State} {a : Action} {k : ℕ} (h : GivesOut s t k)
    (hstep : chatroom.step s a = some t) :
    k = s.server.users.length + 1 ∧ t.server.users.length = s.server.users.length + 1 := by
  obtain ⟨hlogin, hreply⟩ := h
  obtain ⟨junk, -, hserver, -⟩ | ⟨-, rfl⟩ | hclient := step_cases hstep
  · exact hserver.reply_of_login hlogin hreply
  · cases hreply
  · rw [hclient.frame.server, hlogin] at hreply
    cases hreply

/-- Ids given out later are greater. -/
theorem GivesOut.lt {s t u w : State} {a b : Action} {k l : ℕ} (hk : GivesOut s t k)
    (hst : chatroom.step s a = some t) (hpath : chatroom.Path Machine.anyStep t u)
    (hl : GivesOut u w l) (huw : chatroom.step u b = some w) : k < l := by
  have := hk.length hst
  have := hl.length huw
  have := users_length_le_of_path hpath
  omega

/-! ### The last user -/

/-- The server is about to read a disconnect command of the user at `index`. -/
def ReadsDisconnect (s : State) (index : ℕ) : Prop :=
  s.server.pc = .pass index ∧ ∃ u m c, s.server.users[index]? = some u ∧ u.connected = true ∧
    (s.kernel.chan (index + 1)).recvCtos = some (m, c) ∧ m.prio = t3DisconnectPrio

theorem ReadsDisconnect.running {s t : State} {index : ℕ} {junk : Text}
    (h : ReadsDisconnect s index) (hstep : chatroom.step s (.server junk) = some t) :
    t.server.pc.running = false ↔ t.server.activeUsers ≤ 0 := by
  obtain ⟨hpc, u, m, c, hu, hconnected, hm, hprio⟩ := h
  have hid : u.id ≠ -1 := of_decide_eq_true hconnected
  obtain ⟨p, hp, rfl⟩ := Option.map_eq_some_iff.1 hstep
  simp only [thirdTaskServer, hpc, readUser, hu, if_neg hid, hm, hprio] at hp
  obtain rfl := Option.some.inj hp
  by_cases hlast : s.server.activeUsers - 1 ≤ 0
  · simp [t3DisconnectPrio, t3UserPrio, t3SetUsrnamePrio, t3ReqUsrlistPrio, hlast, exitServer,
      ServerPc.running]
  · simp [t3DisconnectPrio, t3UserPrio, t3SetUsrnamePrio, t3ReqUsrlistPrio, hlast, startList,
      ServerPc.running]

/-! ### Result -/

/-- What holds of the table of users. -/
structure UserTable (s : State) : Prop where
  /-- entry `i` has id `i + 1`, or -1 -/
  ids : ∀ (i : ℕ) u, s.server.users[i]? = some u → u.id = i + 1 ∨ u.id = -1
  /-- an id given out is not given out again -/
  fresh : ∀ a t k, chatroom.step s a = some t → GivesOut s t k →
    ∀ u b w l, chatroom.Path Machine.anyStep t u → chatroom.step u b = some w → GivesOut u w l →
      l ≠ k
  /-- the queues of connected users have different names, as long as the ids are of type `int` -/
  names : s.server.users.length ≤ intMax → ∀ (i j : ℕ) u w, i ≠ j →
    s.server.users[i]? = some u → u.connected = true →
    s.server.users[j]? = some w → w.connected = true →
      u.stcCh ≠ w.stcCh ∧ u.ctsCh ≠ w.ctsCh ∧ u.stcCh ≠ w.ctsCh
  /-- `active_users` is the number of connected users -/
  active : s.server.activeUsers = s.server.users.countP User.connected
  /-- the disconnect branch calls `exit` exactly when no user is left -/
  exit : ∀ index junk t, ReadsDisconnect s index → chatroom.step s (.server junk) = some t →
    (t.server.pc.running = false ↔ ∀ u ∈ t.server.users, u.id = -1)

/-- **The table of users**, in every run with any number of users. -/
theorem user_table {s : State} (h : chatroom.Reachable s) : UserTable s where
  ids := fun i u hu => (registry_of_reachable h i u hu).id
  fresh := fun a t k hst hk u b w l hpath huw hl => (hk.lt hst hpath hl huw).ne'
  names := fun hint i j u w hij hu _ hw _ => by
    have hi := List.lt_length_of_getElem?_eq_some hu
    have hj := List.lt_length_of_getElem?_eq_some hw
    obtain ⟨hustc, hucts⟩ := (roster_of_reachable h).names i u hu
    obtain ⟨hwstc, hwcts⟩ := (roster_of_reachable h).names j w hw
    rw [hustc, hwstc, hucts, hwcts, stcCh_newUser (by omega), stcCh_newUser (by omega),
      ctsCh_newUser (by omega), ctsCh_newUser (by omega)]
    refine ⟨fun heq => ?_, fun heq => ?_, t3StocChName_ne_ctos _ _⟩
    · have := t3StocChName_injective heq
      omega
    · have := t3CtosChName_injective heq
      omega
  active := (roster_of_reachable h).active
  exit := fun index junk t hreads hstep => by
    have hactive := (roster_of_reachable (h.step hstep)).active
    rw [hreads.running hstep, hactive, Int.natCast_nonpos_iff, List.countP_eq_zero]
    simp [User.connected]

theorem user_table_loggedIn : UserTable loggedIn := user_table loggedIn_reachable.reachable

end EmbeddedC.Chatroom
