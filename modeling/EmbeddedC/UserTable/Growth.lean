import EmbeddedC.Lib.Machine
import EmbeddedC.Lib.Heap
import EmbeddedC.Chatroom.Server
import EmbeddedC.SharedChat.Server

/-!
# Homeworks 12 and 13: the memory of `users`

Both servers keep their users in an array of `T3_DEF_ALLOC_USRS` entries, which `realloc` enlarges
when it is full.  The result of `realloc` is kept in `tmp` only, so `users` still points to where
the array was.

* `userTable`: registrations, with `realloc` as the heap places the block, and later changes of
  the entries; `chatroomTable`, `sharedChatTable`: the tables of the two servers;
* `Designates`: there is room for the new entry where `users` points to, and the others are kept;
* `room_for_users`: that is so exactly if `realloc` leaves the block in place; `users_dangle`: an
  eleventh user.
-/

namespace EmbeddedC.UserTable

/-! ### The table -/

/-- `T3_DEF_ALLOC_USRS` -/
def t3DefAllocUsrs : ℕ := 10

/-- Where the server is: in its main loop, or about to write the entry of a new user. -/
inductive Pc
  | loop
  | write
  deriving DecidableEq

/-- The variables of the table. -/
structure State (α : Type) where
  pc : Pc
  heap : Heap α
  users : ℕ
  usersNum : ℕ
  usersCount : ℕ

/-- What can happen to the table: a request to log in, for which the heap has `place`; the writes
to the new entry; another change of the entry at `index`. -/
inductive Action (α β : Type)
  | register (place : ℕ)
  | write (login : β)
  | update (index : ℕ) (f : α → α)

variable {α β : Type}

/-- A request to log in, up to the writes to the new entry. -/
def register (s : State α) (place : ℕ) : Option (State α) :=
  if s.usersNum ≤ s.usersCount then
    -- the new pointer is not assigned to `users`
    (s.heap.realloc s.users (s.usersNum + t3DefAllocUsrs) place).map fun heap => { s with
      pc := .write
      heap := heap
      usersNum := s.usersNum + t3DefAllocUsrs
      usersCount := s.usersCount + 1 }
  else some { s with pc := .write, usersCount := s.usersCount + 1 }

/-- The entry of the new user is written. -/
def writeUser (newUser : ℕ → β → α) (s : State α) (login : β) : Option (State α) :=
  (s.heap.store s.users (s.usersCount - 1) (newUser s.usersCount login)).map fun heap =>
    { s with pc := .loop, heap := heap }

/-- A user's name changes, or the user leaves. -/
def updateUser (s : State α) (index : ℕ) (f : α → α) : Option (State α) :=
  if index < s.usersCount then
    (s.heap.load s.users index).bind fun user =>
      (s.heap.store s.users index (f user)).map fun heap => { s with heap := heap }
  else none

/-- The table, from the `malloc` in some heap on. -/
def userTable (newUser : ℕ → β → α) : Machine (State α) (Action α β) where
  init s := ∃ (before heap : Heap α) (users : ℕ),
    before.malloc t3DefAllocUsrs users = some heap ∧ s = ⟨.loop, heap, users, t3DefAllocUsrs, 0⟩
  step s a :=
    match s.pc, a with
    | .loop, .register place => register s place
    | .loop, .update index f => updateUser s index f
    | .write, .write login => writeUser newUser s login
    | _, _ => none

/-- The table of the server of homework 12, where the first name does not come from the user. -/
def chatroomTable : Machine (State Chatroom.User) (Action Chatroom.User Unit) :=
  userTable fun id _ => Chatroom.newUser id

/-- The table of the server of homework 13. -/
def sharedChatTable : Machine (State SharedChat.User) (Action SharedChat.User Chatroom.Text) :=
  userTable SharedChat.newUser

/-! ### Registrations and `realloc` -/

/-- A registration has led from `s` to `t`: `users` points to a live block with room for
`usersCount` entries, and the earlier entries are what they were. -/
structure Designates (s t : State α) : Prop where
  room : ∃ n, t.heap.capacity t.users = some n ∧ t.usersCount ≤ n
  kept : ∀ i < t.usersCount - 1, ∃ user,
    s.heap.load s.users i = some user ∧ t.heap.load t.users i = some user

/-- A growth leaves the block in place. -/
def InPlace (s : State α) : Action α β → Prop
  | .register place => s.usersNum ≤ s.usersCount → place = s.users
  | .write _ | .update _ _ => True

instance (s : State α) : (a : Action α β) → Decidable (InPlace s a)
  | .register place => inferInstanceAs (Decidable (s.usersNum ≤ s.usersCount → place = s.users))
  | .write _ | .update _ _ => .isTrue trivial

/-- The number of entries that were written. -/
def State.written (s : State α) : ℕ :=
  match s.pc with
  | .loop => s.usersCount
  | .write => s.usersCount - 1

/-- Capacity, count and block agree. -/
structure Sound (s : State α) : Prop where
  room : s.heap.capacity s.users = some s.usersNum
  count : s.usersCount ≤ s.usersNum
  entries : ∀ i < s.written, ∃ user, s.heap.load s.users i = some user
  writes : s.pc = .write → 0 < s.usersCount

variable {newUser : ℕ → β → α} {s t : State α}

/-- What a request to log in does, with and without growth. -/
theorem register_cases {place : ℕ} (h : register s place = some t) :
    (∃ heap, s.usersNum ≤ s.usersCount ∧
      s.heap.realloc s.users (s.usersNum + t3DefAllocUsrs) place = some heap ∧
      t = ⟨.write, heap, s.users, s.usersNum + t3DefAllocUsrs, s.usersCount + 1⟩) ∨
    s.usersCount < s.usersNum ∧ t = ⟨.write, s.heap, s.users, s.usersNum, s.usersCount + 1⟩ := by
  unfold register at h
  split at h
  · rename_i hfull
    obtain ⟨heap, hrealloc, rfl⟩ := Option.map_eq_some_iff.1 h
    exact .inl ⟨heap, hfull, hrealloc, rfl⟩
  · obtain rfl := Option.some.inj h
    exact .inr ⟨by omega, rfl⟩

/-- With a growth in place, a registration leaves room for its entry, and a sound table. -/
theorem Sound.register {place : ℕ} (hs : Sound s) (hpc : s.pc = .loop)
    (h : register s place = some t) (hplace : s.usersNum ≤ s.usersCount → place = s.users) :
    Sound t ∧ Designates s t := by
  have hwritten : s.written = s.usersCount := by rw [State.written, hpc]
  have hentries := hs.entries
  rw [hwritten] at hentries
  have hcount := hs.count
  obtain ⟨heap, hfull, hrealloc, rfl⟩ | ⟨hroom, rfl⟩ := register_cases h
  · obtain rfl := hplace hfull
    have hgrown := Heap.capacity_realloc hrealloc
    have hkept : ∀ i < s.usersCount, ∃ user,
        s.heap.load s.users i = some user ∧ heap.load s.users i = some user := by
      intro i hi
      obtain ⟨user, huser⟩ := hentries i hi
      exact ⟨user, huser, (Heap.load_realloc hrealloc hs.room (by omega) (by omega)).trans huser⟩
    refine ⟨⟨hgrown, by dsimp only [t3DefAllocUsrs]; omega, fun i hi => ?_, fun _ => by
      dsimp only; omega⟩, ⟨_, hgrown, by dsimp only [t3DefAllocUsrs]; omega⟩, hkept⟩
    obtain ⟨user, -, huser⟩ := hkept i hi
    exact ⟨user, huser⟩
  · refine ⟨⟨hs.room, hroom, hentries, fun _ => by dsimp only; omega⟩, ⟨_, hs.room, hroom⟩, ?_⟩
    intro i hi
    obtain ⟨user, huser⟩ := hentries i hi
    exact ⟨user, huser, huser⟩

/-- A write to an entry that keeps the others. -/
theorem Sound.store {i n : ℕ} {user : α} {heap : Heap α} {pc : Pc} (hs : Sound s)
    (h : s.heap.store s.users i user = some heap) (hpc : pc = .loop) (hn : n = s.usersCount)
    (hold : ∀ j < n, j ≠ i → j < s.written) :
    Sound (⟨pc, heap, s.users, s.usersNum, n⟩ : State α) := by
  subst hpc hn
  refine ⟨(Heap.capacity_store h).trans hs.room, hs.count, fun j hj => ?_, fun hpc => ?_⟩
  · by_cases hji : j = i
    · subst hji
      exact ⟨user, Heap.load_store_self h⟩
    · obtain ⟨old, hload⟩ := hs.entries j (hold j hj hji)
      exact ⟨old, (Heap.load_store_ne h hji).trans hload⟩
  · cases hpc

theorem Sound.step {a : Action α β} (hs : Sound s) (hplace : InPlace s a)
    (h : (userTable newUser).step s a = some t) : Sound t := by
  unfold userTable at h
  dsimp only at h
  split at h
  · rename_i place hpc
    exact (hs.register hpc h hplace).1
  · rename_i index f hpc
    unfold updateUser at h
    split at h
    · obtain ⟨user, -, hstore⟩ := Option.bind_eq_some_iff.1 h
      obtain ⟨heap, hheap, rfl⟩ := Option.map_eq_some_iff.1 hstore
      refine hs.store hheap hpc rfl fun j hj _ => ?_
      rwa [State.written, hpc]
    · cases h
  · rename_i login hpc
    obtain ⟨heap, hheap, rfl⟩ := Option.map_eq_some_iff.1 h
    refine hs.store hheap rfl rfl fun j hj hne => ?_
    rw [State.written, hpc]
    dsimp only
    omega
  · cases h

theorem sound_of_reachable (h : (userTable newUser).ReachableUnder InPlace s) : Sound s := by
  refine h.invariant ?_ fun s a t _ ih hplace hstep => ih.step hplace hstep
  rintro s ⟨before, heap, users, hmalloc, rfl⟩
  exact ⟨Heap.capacity_malloc hmalloc, Nat.zero_le _, fun i hi => absurd hi (Nat.not_lt_zero i),
    fun hpc => by cases hpc⟩

/-- As long as every growth was in place, the next registration finds room where `users` points
to exactly if it needs no growth or its growth is in place. -/
theorem designates_iff {place : ℕ} (hs : (userTable newUser).ReachableUnder InPlace s)
    (h : (userTable newUser).step s (.register place) = some t) :
    Designates s t ↔ InPlace s (.register place : Action α β) := by
  have hsound := sound_of_reachable hs
  unfold userTable at h
  dsimp only at h
  split at h
  · rename_i place' hpc haction
    cases haction
    refine ⟨fun hdes hfull => ?_, fun hplace => (hsound.register hpc h hplace).2⟩
    by_contra hne
    obtain ⟨heap, -, hrealloc, rfl⟩ | ⟨hroom, -⟩ := register_cases h
    · -- nothing is left at the old place
      obtain ⟨n, hn, -⟩ := hdes.room
      rw [Heap.realloc_of_ne hrealloc hne] at hn
      cases hn
    · omega
  · rename_i haction
    cases haction
  · rename_i haction
    cases haction
  · cases h

/-- **Room for every user.** In every run of either server whose growths are all in place, a
registration finds a live block with room for its entry, and keeps the others, exactly if it is
in place too. -/
theorem room_for_users {s : State Chatroom.User} {r : State SharedChat.User}
    (hs : chatroomTable.ReachableUnder InPlace s) (hr : sharedChatTable.ReachableUnder InPlace r) :
    (∀ place t, chatroomTable.step s (.register place) = some t →
      (Designates s t ↔ (s.usersNum ≤ s.usersCount → place = s.users))) ∧
    ∀ place t, sharedChatTable.step r (.register place) = some t →
      (Designates r t ↔ (r.usersNum ≤ r.usersCount → place = r.users)) :=
  ⟨fun _ _ h => designates_iff hs h, fun _ _ h => designates_iff hr h⟩

/-- The block of `users` is at 1. -/
def started (α : Type) : State α :=
  ⟨.loop, fun p => if p = 1 then some (List.replicate t3DefAllocUsrs none) else none, 1,
    t3DefAllocUsrs, 0⟩

theorem init_started : (userTable newUser).init (started α) := by
  refine ⟨fun _ => none, _, 1, rfl, ?_⟩
  rw [started]
  congr 1
  funext p
  by_cases hp : p = 1
  · subst hp
    rw [if_pos rfl, Function.update_self]
  · rw [if_neg hp, Function.update_of_ne hp]

/-- Ten users register, whose names are `login`. -/
def tenUsers (login : β) : List (Action α β) :=
  (List.replicate 10 [.register 1, .write login]).flatten

/-- An eleventh user registers in place: there is room for it, and the ten others are kept. -/
theorem room_for_eleventh_user :
    (∃ s t, chatroomTable.runUnder InPlace (started _) (tenUsers ()) = some s ∧
      s.usersCount = s.usersNum ∧ chatroomTable.step s (.register 1) = some t ∧
      Designates s t) ∧
    ∃ r t, sharedChatTable.runUnder InPlace (started _) (tenUsers ['a']) = some r ∧
      r.usersCount = r.usersNum ∧ sharedChatTable.step r (.register 1) = some t ∧
      Designates r t := by
  obtain ⟨s, hs⟩ : ∃ s, chatroomTable.runUnder InPlace (started _) (tenUsers ()) = some s :=
    ⟨_, rfl⟩
  obtain ⟨r, hr⟩ : ∃ r, sharedChatTable.runUnder InPlace (started _) (tenUsers ['a']) = some r :=
    ⟨_, rfl⟩
  obtain ⟨hchatroom, hsharedChat⟩ := room_for_users
    (Machine.reachableUnder_of_run init_started hs) (Machine.reachableUnder_of_run init_started hr)
  refine ⟨⟨s, ?_⟩, r, ?_⟩
  · obtain ⟨t, ht⟩ : ∃ t, chatroomTable.step s (.register 1) = some t := by
      cases hs
      exact ⟨_, rfl⟩
    have hplace : s.usersCount = s.usersNum ∧ s.users = 1 := by
      cases hs
      exact ⟨rfl, rfl⟩
    exact ⟨t, hs, hplace.1, ht, (hchatroom 1 t ht).2 fun _ => hplace.2.symm⟩
  · obtain ⟨t, ht⟩ : ∃ t, sharedChatTable.step r (.register 1) = some t := by
      cases hr
      exact ⟨_, rfl⟩
    have hplace : r.usersCount = r.usersNum ∧ r.users = 1 := by
      cases hr
      exact ⟨rfl, rfl⟩
    exact ⟨t, hr, hplace.1, ht, (hsharedChat 1 t ht).2 fun _ => hplace.2.symm⟩

/-- An eleventh user registers, and the block moves: `users` points to no block any more. -/
theorem users_dangle :
    (¬ ∀ s, chatroomTable.Reachable s → ∀ place t,
      chatroomTable.step s (.register place) = some t → Designates s t) ∧
    ¬ ∀ s, sharedChatTable.Reachable s → ∀ place t,
      sharedChatTable.step s (.register place) = some t → Designates s t := by
  constructor
  · intro hall
    obtain ⟨s, hs⟩ : ∃ s, chatroomTable.run (started _) (tenUsers ()) = some s := ⟨_, rfl⟩
    obtain ⟨t, ht⟩ : ∃ t, chatroomTable.step s (.register 2) = some t := by
      cases hs
      exact ⟨_, rfl⟩
    obtain ⟨n, hn, -⟩ := (hall s (Machine.reachable_of_run init_started hs) 2 t ht).room
    cases hs
    cases ht
    cases hn
  · intro hall
    obtain ⟨s, hs⟩ : ∃ s, sharedChatTable.run (started _) (tenUsers ['a']) = some s := ⟨_, rfl⟩
    obtain ⟨t, ht⟩ : ∃ t, sharedChatTable.step s (.register 2) = some t := by
      cases hs
      exact ⟨_, rfl⟩
    obtain ⟨n, hn, -⟩ := (hall s (Machine.reachable_of_run init_started hs) 2 t ht).room
    cases hs
    cases ht
    cases hn

end EmbeddedC.UserTable
