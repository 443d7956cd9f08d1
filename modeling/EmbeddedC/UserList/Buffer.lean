import EmbeddedC.Lib.CString
import EmbeddedC.Lib.Machine
import EmbeddedC.Chatroom.Server
import EmbeddedC.SharedChat.Server

/-!
# Homeworks 12 and 13: the memory of `users_list`

Both servers keep the text of the user list in an array.  A login appends a line with `strncat`,
whose bound is the size of the array and not the room that is left; a new name, or a user who
leaves, builds the text anew, line by line.

* `Change`, `Change.apply`: what can happen to the text;
* `chatroomServer`, `sharedChatServer`: logins, new names and users who leave, in the two servers;
* `listMachine`: all sequences of them, with the memory of the list;
* `Change.Fits`: the lines and a NUL fit in the array;
* `users_list`: nothing is written behind the array, and the text ends in it, exactly if that is so;
  `users_list_overflows`: 114 users, and 13 users with long names.
-/

namespace EmbeddedC.UserList

open CString
open Chatroom (Text)

/-! ### The text in its array -/

variable {size : ℕ} {b : Block}

/-- What can happen to the text. -/
inductive Change
  | keep
  | append (line : Text)
  | rebuild (lines : List Text)

/-- `strncat(users_list, tmp_buf, size)` -/
def appendLine (size : ℕ) (usersList : Block) (line : Text) : Block :=
  usersList.strncat 0 line size

/-- `memset(users_list, 0, size)` -/
def clear (size : ℕ) (usersList : Block) : Block := usersList.write 0 (List.replicate size nul)

namespace Change

def apply (size : ℕ) (usersList : Block) : Change → Block
  | keep => usersList
  | append line => appendLine size usersList line
  | rebuild lines => lines.foldl (appendLine size) (clear size usersList)

/-- The lines and a NUL fit. -/
def Fits (size : ℕ) (usersList : Block) : Change → Prop
  | keep => True
  | append line => strlen usersList.bytes + strlen line < size
  | rebuild lines => (lines.map strlen).sum < size

instance : (c : Change) → Decidable (c.Fits size b)
  | keep => .isTrue trivial
  | append line => inferInstanceAs (Decidable (strlen b.bytes + strlen line < size))
  | rebuild lines => inferInstanceAs (Decidable ((lines.map strlen).sum < size))

end Change

/-! ### The servers -/

/-- What happens in a server.  The text of a login is the user's name in homework 13; in homework 12
it is what is found behind the table.  `pass` is a pass over the users in which nobody changes the
list. -/
inductive Event
  | pass
  | join (name : Text)
  | timeout (name : Text)
  | rename (index : ℕ) (name : Text)
  | leave (index : ℕ)

/-- The variables of a server. -/
structure Vars (α : Type) where
  users : List α
  index : ℕ
  activeUsers : ℤ
  running : Bool

/-- The lines of the connected users. -/
def chatroomLines (users : List Chatroom.User) : List Text :=
  (users.filter fun u => u.id ≠ -1).map fun u => Chatroom.userLine u.login

/-- The server of homework 12.  The line appended at a login is that of `users[index]`, where
`index` is left over from the last pass. -/
def chatroomServer (v : Vars Chatroom.User) :
    Event → Option (Vars Chatroom.User × Change)
  | .pass => some ({ v with index := v.users.length }, .keep)
  | .join junk =>
    let users := v.users ++ [Chatroom.newUser (v.users.length + 1)]
    let login := ((users[v.index]?).map Chatroom.User.login).getD junk
    some ({ v with users := users, index := users.length, activeUsers := v.activeUsers + 1 },
      .append (Chatroom.userLine login))
  | .timeout _ => none
  | .rename i name =>
    match v.users[i]? with
    | none => none
    | some u =>
      if u.id = -1 then none
      else
        let login := Chatroom.snprintf Chatroom.t3LoginQMsgSize (text name)
        let users := v.users.set i { u with login := login }
        some ({ v with users := users, index := users.length }, .rebuild (chatroomLines users))
  | .leave i =>
    match v.users[i]? with
    | none => none
    | some u =>
      if u.id = -1 then none
      else
        let users := v.users.set i { u with id := -1 }
        let v := { v with users := users, index := users.length, activeUsers := v.activeUsers - 1 }
        -- `exit`
        if v.activeUsers ≤ 0 then some ({ v with running := false }, .keep)
        else some (v, .rebuild (chatroomLines users))

/-- `T3_USER_SHM_NAME` with an id -/
def shmName (id : ℤ) : Text :=
  Chatroom.snprintf SharedChat.t3LoginMsgSize
    ("/hw13_client".toList ++ Chatroom.decimal id.toNat ++ "_shm".toList)

/-- What `%s` prints of `login`: a name that fills its array is followed by `shm_name`. -/
def printedLogin (u : SharedChat.User) : Text :=
  u.login ++ if u.login.length < SharedChat.t3LoginMsgSize then [] else shmName u.id

/-- The lines of the connected users. -/
def sharedChatLines (users : List SharedChat.User) : List Text :=
  (users.filter fun u => u.id ≠ -1).map fun u => SharedChat.userLine (printedLogin u)

/-- The server of homework 13. -/
def sharedChatServer (v : Vars SharedChat.User) :
    Event → Option (Vars SharedChat.User × Change)
  | .pass => some ({ v with index := v.users.length }, .keep)
  | .join name =>
    let u := SharedChat.newUser (v.users.length + 1) (text name)
    let users := v.users ++ [u]
    some ({ v with users := users, index := users.length, activeUsers := v.activeUsers + 1 },
      .append (SharedChat.userLine (printedLogin u)))
  | .timeout name =>
    -- the user is counted in `active_users`, and stays so
    let u := { SharedChat.newUser (v.users.length + 1) (text name) with id := -1, linked := false }
    let users := v.users ++ [u]
    some ({ v with users := users, index := users.length, activeUsers := v.activeUsers + 1 }, .keep)
  | .rename i name =>
    match v.users[i]? with
    | none => none
    | some u =>
      if u.id = -1 then none
      else
        let login := SharedChat.strncpy SharedChat.t3LoginMsgSize (text name)
        let users := v.users.set i { u with login := login }
        some ({ v with users := users, index := users.length }, .rebuild (sharedChatLines users))
  | .leave i =>
    match v.users[i]? with
    | none => none
    | some u =>
      if u.id = -1 then none
      else
        let users := v.users.set i { u with id := -1, linked := false }
        let v := { v with users := users, index := users.length, activeUsers := v.activeUsers - 1 }
        -- `exit`
        if v.activeUsers ≤ 0 then some ({ v with running := false }, .keep)
        else some (v, .rebuild (sharedChatLines users))

/-- The variables and the memory of the list. -/
structure State (α : Type) where
  vars : Vars α
  usersList : Block

variable {α : Type} {server : Vars α → Event → Option (Vars α × Change)} {s t : State α}

/-- A server that keeps its list in an array of `size` bytes, which is cleared before the main loop;
`index` has not been assigned. -/
def listMachine (size : ℕ) (server : Vars α → Event → Option (Vars α × Change)) :
    Machine (State α) Event where
  init s := ∃ index behind,
    s = ⟨⟨[], index, 0, true⟩, ⟨List.replicate size nul ++ behind, List.range size⟩⟩
  step s e :=
    if s.vars.running then
      (server s.vars e).map fun r => ⟨r.1, r.2.apply size s.usersList⟩
    else none

theorem listMachine_step {e : Event} (h : (listMachine size server).step s e = some t) :
    ∃ v c, server s.vars e = some (v, c) ∧ t = ⟨v, c.apply size s.usersList⟩ := by
  unfold listMachine at h
  dsimp only at h
  split at h
  · obtain ⟨⟨v, c⟩, hserver, rfl⟩ := Option.map_eq_some_iff.1 h
    exact ⟨v, c, hserver, rfl⟩
  · cases h

def chatroomList : Machine (State Chatroom.User) Event :=
  listMachine Chatroom.t3UserQMsgSize chatroomServer

def sharedChatList : Machine (State SharedChat.User) Event :=
  listMachine SharedChat.t3UserMsgSize sharedChatServer

/-- Nothing was written outside of the array, and the text ends in it. -/
def Safe (size : ℕ) (usersList : Block) : Prop :=
  usersList.Inside size ∧ nul ∈ usersList.bytes.take size

/-- What happens to the list leaves it room for a NUL. -/
def Fits (size : ℕ) (server : Vars α → Event → Option (Vars α × Change)) (s : State α)
    (e : Event) : Prop :=
  ∀ v c, server s.vars e = some (v, c) → c.Fits size s.usersList

/-- `Fits` as a condition on what the server does. -/
theorem fits_iff {e : Event} :
    (∀ r ∈ server s.vars e, r.2.Fits size s.usersList) ↔ Fits size server s e :=
  ⟨fun h v c hserver => h (v, c) hserver, fun h r hr => h r.1 r.2 hr⟩

instance (s : State α) (e : Event) : Decidable (Fits size server s e) :=
  decidable_of_iff _ fits_iff

/-! ### The text stays in its array -/

/-- The text and its NUL are in the array. -/
structure Sound (size : ℕ) (b : Block) : Prop where
  inside : b.Inside size
  room : size ≤ b.bytes.length
  ends : strlen b.bytes < size

theorem Sound.safe (h : Sound size b) : Safe size b := ⟨h.inside, nul_mem_take h.ends h.room⟩

theorem inside_appendLine {line : Text} : (appendLine size b line).Inside size ↔
    b.Inside size ∧ strlen b.bytes + strlen line < size := by
  rw [appendLine, Block.inside_strncat, text_take, List.length_take, ← strlen, List.drop_zero]
  refine and_congr_right fun _ => ?_
  constructor <;> intro <;> omega

/-- A line that fits. -/
theorem Sound.appendLine {line : Text} (h : Sound size b)
    (hfits : strlen b.bytes + strlen line < size) :
    Sound size (appendLine size b line) ∧
      strlen (appendLine size b line).bytes = strlen b.bytes + strlen line := by
  have hlength := h.room
  have hmem : nul ∈ b.bytes := List.mem_of_mem_take (nul_mem_take h.ends h.room)
  obtain ⟨rest, hrest⟩ := exists_eq_text_append hmem
  have hrestLength := congrArg List.length hrest
  rw [List.length_append, List.length_cons, ← strlen] at hrestLength
  have hline : text (line.take size) = text line := by
    rw [text_take]
    refine List.take_of_length_le ?_
    rw [← strlen]
    omega
  have hroom : (text (line.take size)).length ≤ rest.length := by
    rw [hline, ← strlen]
    omega
  have hbytes := Block.strncat_bytes hrest (nul_notMem_text _) hroom
  have hnul : nul ∉ text b.bytes ++ text line := by
    simp [nul_notMem_text]
  have hstrlen : strlen (UserList.appendLine size b line).bytes =
      strlen b.bytes + strlen line := by
    rw [UserList.appendLine, hbytes, hline, strlen, text_append_nul hnul, List.length_append]
    rfl
  refine ⟨⟨inside_appendLine.2 ⟨h.inside, hfits⟩, ?_, by omega⟩, hstrlen⟩
  rwa [UserList.appendLine, Block.strncat, Block.write, length_overwrite]

/-- Lines that fit. -/
theorem Sound.appendLines {lines : List Text} (h : Sound size b)
    (hfits : strlen b.bytes + (lines.map strlen).sum < size) :
    Sound size (lines.foldl (UserList.appendLine size) b) := by
  induction lines generalizing b with
  | nil => exact h
  | cons line lines ih =>
    rw [List.map_cons, List.sum_cons] at hfits
    have hline : strlen b.bytes + strlen line < size := by omega
    obtain ⟨hsound, hstrlen⟩ := h.appendLine hline
    exact ih hsound (by omega)

theorem inside_of_appendLines {lines : List Text}
    (h : (lines.foldl (appendLine size) b).Inside size) : b.Inside size := by
  induction lines generalizing b with
  | nil => exact h
  | cons line lines ih => exact (inside_appendLine.1 (ih h)).1

/-- Nothing is written outside of the array exactly if the lines fit. -/
theorem Sound.inside_appendLines {lines : List Text} (h : Sound size b) :
    (lines.foldl (UserList.appendLine size) b).Inside size ↔
      strlen b.bytes + (lines.map strlen).sum < size := by
  refine ⟨fun hinside => ?_, fun hfits => (h.appendLines hfits).inside⟩
  induction lines generalizing b with
  | nil => simpa using h.ends
  | cons line lines ih =>
    have hfits := (inside_appendLine.1 (inside_of_appendLines hinside)).2
    obtain ⟨hsound, hstrlen⟩ := h.appendLine hfits
    have := ih hsound hinside
    rw [List.map_cons, List.sum_cons]
    omega

/-- An array that has just been cleared. -/
theorem sound_zeroed (hsize : 0 < size) (rest : List Char) {stores : List ℕ}
    (hstores : ∀ o ∈ stores, o < size) :
    Sound size ⟨List.replicate size nul ++ rest, stores⟩ ∧
      strlen (List.replicate size nul ++ rest) = 0 := by
  have hstrlen : strlen (List.replicate size nul ++ rest) = 0 := strlen_zeroed hsize rest
  exact ⟨⟨hstores, by simp, hstrlen.trans_lt hsize⟩, hstrlen⟩

theorem Sound.clear (h : Sound size b) : Sound size (clear size b) ∧
    strlen (clear size b).bytes = 0 := by
  have hbytes : (UserList.clear size b).bytes = List.replicate size nul ++ b.bytes.drop size := by
    have hzeros : overwrite ([] ++ b.bytes.take size ++ b.bytes.drop size) 0
        (List.replicate size nul) = [] ++ List.replicate size nul ++ b.bytes.drop size :=
      overwrite_append (by simp [h.room])
    simpa [UserList.clear, Block.write] using hzeros
  have hinside : (UserList.clear size b).Inside size :=
    Block.inside_write.2 ⟨h.inside, .inr (by simp)⟩
  have hzeroed := sound_zeroed (Nat.zero_lt_of_lt h.ends) (b.bytes.drop size) hinside
  rw [← hbytes] at hzeroed
  exact hzeroed

/-- **One change.** Nothing is written outside of the array exactly if the lines fit, and then the
text ends in it. -/
theorem Sound.apply (h : Sound size b) (c : Change) :
    (Safe size (c.apply size b) ↔ c.Fits size b) ∧
      (c.Fits size b → Sound size (c.apply size b)) := by
  have hsound : c.Fits size b → Sound size (c.apply size b) := by
    intro hfits
    cases c with
    | keep => exact h
    | append line => exact (h.appendLine hfits).1
    | rebuild lines =>
      obtain ⟨hclear, hstrlen⟩ := h.clear
      exact hclear.appendLines (by rw [hstrlen, Nat.zero_add]; exact hfits)
  refine ⟨⟨fun hsafe => ?_, fun hfits => (hsound hfits).safe⟩, hsound⟩
  cases c with
  | keep => trivial
  | append line => exact (inside_appendLine.1 hsafe.1).2
  | rebuild lines =>
    obtain ⟨hclear, hstrlen⟩ := h.clear
    have := hclear.inside_appendLines.1 hsafe.1
    rwa [hstrlen, Nat.zero_add] at this

/-! ### Runs -/

theorem sound_of_reachable (hsize : 0 < size)
    (h : (listMachine size server).ReachableUnder (Fits size server) s) :
    Sound size s.usersList := by
  refine Machine.ReachableUnder.invariant (I := fun s => Sound size s.usersList) ?_
    (fun s e t _ ih hfits hstep => ?_) h
  · rintro s ⟨index, behind, rfl⟩
    exact (sound_zeroed hsize behind fun o ho => List.mem_range.1 ho).1
  · obtain ⟨v, c, hserver, rfl⟩ := listMachine_step hstep
    exact (ih.apply c).2 (hfits v c hserver)

/-- As long as everything fitted, the array is as it should be, and it is after the next change
exactly if that fits. -/
theorem safe_iff (hsize : 0 < size)
    (h : (listMachine size server).ReachableUnder (Fits size server) s) :
    Safe size s.usersList ∧ ∀ e t, (listMachine size server).step s e = some t →
      (Safe size t.usersList ↔ Fits size server s e) := by
  have hsound := sound_of_reachable hsize h
  refine ⟨hsound.safe, fun e t hstep => ?_⟩
  obtain ⟨v, c, hserver, rfl⟩ := listMachine_step hstep
  rw [(hsound.apply c).1]
  constructor
  · intro hfits v' c' hserver'
    rw [hserver] at hserver'
    cases hserver'
    exact hfits
  · intro hfits
    exact hfits v c hserver

/-- **The list in its array.** In every run of either server in which all lines fitted, nothing was
written outside of the array and the text ends in it; after the next login, new name or user who
leaves that is so exactly if the lines fit. -/
theorem users_list {s : State Chatroom.User} {r : State SharedChat.User}
    (hs : chatroomList.ReachableUnder (Fits 1024 chatroomServer) s)
    (hr : sharedChatList.ReachableUnder (Fits 1024 sharedChatServer) r) :
    (Safe 1024 s.usersList ∧ ∀ e t, chatroomList.step s e = some t →
      (Safe 1024 t.usersList ↔ Fits 1024 chatroomServer s e)) ∧
    Safe 1024 r.usersList ∧ ∀ e t, sharedChatList.step r e = some t →
      (Safe 1024 t.usersList ↔ Fits 1024 sharedChatServer r e) :=
  ⟨safe_iff (by decide) hs, safe_iff (by decide) hr⟩

/-- The array before the main loop, with nothing behind it. -/
def cleared : Block := ⟨List.replicate 1024 nul ++ [], List.range 1024⟩

def started (α : Type) : State α := ⟨⟨[], 0, 0, true⟩, cleared⟩

theorem init_chatroom : chatroomList.init (started _) := ⟨0, [], rfl⟩

theorem init_sharedChat : sharedChatList.init (started _) := ⟨0, [], rfl⟩

/-- Two users log in, the first one takes another name, and the second one leaves. -/
def session : List Event := [.pass, .join ['a'], .join ['b'], .rename 0 ['c'], .leave 1]

theorem users_list_session :
    (∃ s, chatroomList.runUnder (Fits 1024 chatroomServer) (started _) session = some s ∧
      text s.usersList.bytes = "<c>\n".toList ∧ Safe 1024 s.usersList ∧
      ∀ t, chatroomList.step s (.join []) = some t → Safe 1024 t.usersList) ∧
    ∃ r, sharedChatList.runUnder (Fits 1024 sharedChatServer) (started _) session = some r ∧
      text r.usersList.bytes = "<c>\n".toList ∧ Safe 1024 r.usersList ∧
      ∀ t, sharedChatList.step r (.join ['d']) = some t → Safe 1024 t.usersList := by
  have hchatroom : ∃ s ∈ chatroomList.runUnder (Fits 1024 chatroomServer) (started _) session,
      text s.usersList.bytes = "<c>\n".toList ∧ Fits 1024 chatroomServer s (.join []) := by
    decide +kernel
  have hsharedChat : ∃ r ∈ sharedChatList.runUnder (Fits 1024 sharedChatServer) (started _) session,
      text r.usersList.bytes = "<c>\n".toList ∧
      Fits 1024 sharedChatServer r (.join ['d']) := by
    decide +kernel
  obtain ⟨s, hs, hstext, hsfits⟩ := hchatroom
  obtain ⟨r, hr, hrtext, hrfits⟩ := hsharedChat
  obtain ⟨⟨hsafe, hjoin⟩, hsafe', hjoin'⟩ := users_list
    (Machine.reachableUnder_of_run init_chatroom hs)
    (Machine.reachableUnder_of_run init_sharedChat hr)
  exact ⟨⟨s, hs, hstext, hsafe, fun t ht => (hjoin _ t ht).2 hsfits⟩,
    r, hr, hrtext, hsafe', fun t ht => (hjoin' _ t ht).2 hrfits⟩

/-- Users log in, one after the other. -/
theorem reachable_joins {vars : ℕ → Vars α} {lines : ℕ → Text} {e : Event}
    (hrunning : ∀ n, (vars n).running = true)
    (hserver : ∀ n, server (vars n) e = some (vars (n + 1), .append (lines n)))
    (h : (listMachine size server).Reachable ⟨vars 0, b⟩) (n : ℕ) :
    (listMachine size server).Reachable
      ⟨vars n, ((List.range n).map lines).foldl (appendLine size) b⟩ := by
  induction n with
  | zero => exact h
  | succ n ih =>
    refine ih.step (a := e) ?_
    unfold listMachine
    dsimp only
    rw [if_pos (hrunning n), hserver n, List.range_succ, List.map_append, List.foldl_append]
    rfl

/-- More lines than there is room for are written behind the array. -/
theorem not_inside_of_lines {lines : List Text} (h : 1024 ≤ (lines.map strlen).sum) :
    ¬ (lines.foldl (appendLine 1024) cleared).Inside 1024 := by
  intro hinside
  have hrange : ∀ o ∈ List.range 1024, o < 1024 := fun o ho => List.mem_range.1 ho
  obtain ⟨hsound, hstrlen⟩ := sound_zeroed (by decide) [] hrange
  have hfits := hsound.inside_appendLines.1 hinside
  rw [hstrlen] at hfits
  omega

/-- 114 users log in to the server of homework 12, and 13 users with names of 79 characters to that
of homework 13: the last line ends behind the array. -/
theorem users_list_overflows :
    (¬ ∀ s, chatroomList.Reachable s → Safe 1024 s.usersList) ∧
    ¬ ∀ s, sharedChatList.Reachable s → Safe 1024 s.usersList := by
  constructor
  · intro hall
    let vars (n : ℕ) : Vars Chatroom.User :=
      ⟨(List.range n).map fun i => Chatroom.newUser (i + 1), n, n, true⟩
    let lines (n : ℕ) : Text := Chatroom.userLine (Chatroom.newUser (n + 1)).login
    have hserver : ∀ n, chatroomServer (vars n) (.join []) =
        some (vars (n + 1), .append (lines n)) := by
      intro n
      simp [chatroomServer, vars, lines, List.range_succ]
    have hreach := reachable_joins (fun _ => rfl) hserver ⟨_, init_chatroom, .refl⟩ 114
    exact not_inside_of_lines (by decide +kernel) (hall _ hreach).1
  · intro hall
    obtain ⟨name, hname⟩ : ∃ name : Text, List.replicate 79 'a' = name := ⟨_, rfl⟩
    let vars (n : ℕ) : Vars SharedChat.User :=
      ⟨(List.range n).map fun i => SharedChat.newUser (i + 1) (text name), n, n, true⟩
    let lines (n : ℕ) : Text :=
      SharedChat.userLine (printedLogin (SharedChat.newUser (n + 1) (text name)))
    have hserver : ∀ n, sharedChatServer (vars n) (.join name) =
        some (vars (n + 1), .append (lines n)) := by
      intro n
      simp [sharedChatServer, vars, lines, List.range_succ]
    have hreach := reachable_joins (fun _ => rfl) hserver ⟨_, init_sharedChat, .refl⟩ 13
    subst hname
    exact not_inside_of_lines (by decide +kernel) (hall _ hreach).1

end EmbeddedC.UserList
