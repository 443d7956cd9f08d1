import EmbeddedC.Lib.CString
import EmbeddedC.SharedChat.Memory

/-!
# Homework 13: the memory of a user's name

`_login_user` stores what is typed in `user.login`; the client copies it to the login segment, and
the server from there to its table.  Each of the three arrays has `T3_LOGIN_MSG_SIZE` bytes.

* `loginLoop`, `loginUser`: the keys;
* `sendName`, `registerName`: the two copies;
* `typed`, `NameArrives`: what is typed, and what is expected of the three arrays;
* `login_name`: it holds for names of up to 79 characters only; `login_name_too_long`: a longer one.
-/

namespace EmbeddedC.SharedChat

open CString (Block nul text)

/-- The key ENTER -/
def newline : ℤ := 10

/-- The loop of `_login_user`; `none` while it waits for a key. -/
def loginLoop (name : Block) (index : ℕ) : List ℤ → Option (Block × ℕ)
  | [] => none
  | symbol :: keys =>
    if newline = symbol then some (name, index)
    else if 127 > symbol ∧ 32 ≤ symbol then
      -- the index behind the array passes the test
      if t3LoginMsgSize < index then some (name, index)
      else loginLoop (name.write index [Char.ofNat symbol.toNat]) (index + 1) keys
    else loginLoop name index keys

/-- `_login_user` -/
def loginUser (name : Block) (keys : List ℤ) : Option Block :=
  (loginLoop name 0 keys).map fun r =>
    if 0 = r.2 then r.1.write 0 (CString.strncpy t3LoginMsgSize "user".toList) else r.1

/-- The client copies its name to `login.shm_buf->ctos`. -/
def sendName (ctos user : Block) : Block :=
  ctos.write 0 (CString.strncpy t3LoginMsgSize user.bytes)

/-- The server copies the name to `users[users_count-1].login`. -/
def registerName (login ctos : Block) : Block :=
  login.write 0 (CString.strncpy t3LoginMsgSize ctos.bytes)

/-- `user.login` is zeroed; `behind` is what follows. -/
def zeroedName (behind : List Char) : Block := ⟨List.replicate t3LoginMsgSize nul ++ behind, []⟩

/-- The characters that are typed before ENTER. -/
def typed (keys : List ℤ) : List Char :=
  ((keys.takeWhile (· ≠ newline)).filter fun symbol => 32 ≤ symbol ∧ symbol < 127).map
    fun symbol => Char.ofNat symbol.toNat

/-- The name that is meant: at most 79 characters. -/
def typedName (keys : List ℤ) : List Char :=
  if typed keys = [] then "user".toList else (typed keys).take (t3LoginMsgSize - 1)

/-- What is expected of the client's array and of the server's: all characters are stored in the
former, it is terminated, and the latter holds the name, terminated. -/
structure NameArrives (keys : List ℤ) (user login : Block) : Prop where
  inside : user.Inside t3LoginMsgSize
  terminated : nul ∈ user.bytes.take t3LoginMsgSize
  name : text (login.bytes.take t3LoginMsgSize) = typedName keys
  nameTerminated : nul ∈ login.bytes.take t3LoginMsgSize

variable {keys : List ℤ} {behind cs : List Char} {index : ℕ} {name ctos login : Block}

/-! ### The keys -/

theorem nul_notMem_typed (keys : List ℤ) : nul ∉ typed keys := by
  intro h
  obtain ⟨symbol, hsymbol, hnul⟩ := List.mem_map.1 h
  obtain ⟨hle, hlt⟩ := of_decide_eq_true (List.mem_filter.1 hsymbol).2
  have := (CString.ofNat_eq_nul (by omega)).1 hnul
  omega

/-- The characters are stored one behind the other, as long as `index` is at most 80. -/
theorem loginLoop_eq (hindex : index ≤ 81) : ∃ n, loginLoop name index (keys ++ [newline]) =
    some (name.write index ((typed keys).take (81 - index)), n) ∧
      (n = 0 ↔ index = 0 ∧ typed keys = []) := by
  induction keys generalizing name index with
  | nil =>
    refine ⟨index, ?_, ?_⟩
    · simp [loginLoop, typed]
    · simp [typed]
  | cons symbol keys ih =>
    rw [List.cons_append, loginLoop]
    by_cases henter : newline = symbol
    · refine ⟨index, ?_, ?_⟩
      · simp [henter, typed]
      · simp [henter, typed]
    · rw [if_neg henter]
      by_cases hprint : 127 > symbol ∧ 32 ≤ symbol
      · have htyped : typed (symbol :: keys) = Char.ofNat symbol.toNat :: typed keys := by
          simp [typed, Ne.symm henter, hprint.1, hprint.2]
        rw [if_pos hprint, htyped]
        by_cases hfull : t3LoginMsgSize < index
        · have hzero : 81 - index = 0 := by
            rw [t3LoginMsgSize] at hfull
            omega
          refine ⟨index, ?_, ?_⟩
          · simp [hfull, hzero]
          · simp
            omega
        · have hlt : index < 81 := by
            rw [t3LoginMsgSize] at hfull
            omega
          obtain ⟨n, hn, hzero⟩ := @ih _ (name.write index [Char.ofNat symbol.toNat]) hlt
          refine ⟨n, ?_, ?_⟩
          · obtain ⟨k, hk⟩ : ∃ k, 81 - index = k + 1 := ⟨80 - index, by omega⟩
            have hk' : 81 - (index + 1) = k := by omega
            rw [if_neg hfull, hn, hk, hk', List.take_succ_cons]
            exact congrArg (fun b => some (b, n)) (Block.write_write name index [_] _)
          · simp [hzero]
      · have htyped : typed (symbol :: keys) = typed keys := by
          have : ¬ (32 ≤ symbol ∧ symbol < 127) := fun h => hprint ⟨h.2, h.1⟩
          simp [typed, Ne.symm henter, this]
        rw [if_neg hprint, htyped]
        exact ih hindex

/-- What `_login_user` stores. -/
theorem loginUser_eq (name : Block) (keys : List ℤ) : loginUser name (keys ++ [newline]) =
    some (name.write 0 (if typed keys = [] then CString.strncpy t3LoginMsgSize "user".toList
      else (typed keys).take 81)) := by
  obtain ⟨n, hn, hzero⟩ : ∃ n, loginLoop name 0 (keys ++ [newline]) =
      some (name.write 0 ((typed keys).take 81), n) ∧ (n = 0 ↔ 0 = 0 ∧ typed keys = []) :=
    loginLoop_eq (Nat.zero_le 81)
  rw [loginUser, hn, Option.map_some]
  by_cases htyped : typed keys = []
  · simp [htyped, hzero.2 ⟨rfl, htyped⟩]
  · have hne : ¬ 0 = n := fun h => htyped (hzero.1 h.symm).2
    simp [htyped, hne]

/-- A name of up to 79 characters is stored, and NULs behind it. -/
theorem loginUser_short (behind : List Char) (h : (typed keys).length ≤ 79) :
    ∃ user, loginUser (zeroedName behind) (keys ++ [newline]) = some user ∧
      user.Inside t3LoginMsgSize ∧ user.bytes.take t3LoginMsgSize =
        typedName keys ++ List.replicate (t3LoginMsgSize - (typedName keys).length) nul := by
  have hstart : (zeroedName behind).Inside t3LoginMsgSize := fun o ho => (nomatch ho)
  refine ⟨_, loginUser_eq _ keys, ?_⟩
  by_cases htyped : typed keys = []
  · rw [if_pos htyped, typedName, if_pos htyped]
    refine ⟨Block.inside_write.2 ⟨hstart, .inr (by simp)⟩, ?_⟩
    have hroom : (CString.strncpy t3LoginMsgSize "user".toList).length ≤
        (zeroedName behind).bytes.length := by simp [zeroedName]
    have hbytes := CString.take_overwrite hroom
    rwa [CString.length_strncpy] at hbytes
  · have hcut : (typed keys).take 81 = typed keys := List.take_of_length_le (by omega)
    have hname : (typed keys).take (t3LoginMsgSize - 1) = typed keys := List.take_of_length_le h
    rw [if_neg htyped, typedName, if_neg htyped, hcut, hname]
    have hzeros : (typed keys).length + (t3LoginMsgSize - (typed keys).length) =
        t3LoginMsgSize := by
      rw [t3LoginMsgSize]
      omega
    refine ⟨Block.inside_write.2 ⟨hstart, .inr (by omega)⟩, ?_⟩
    have hbytes := CString.overwrite_replicate (typed keys)
      (t3LoginMsgSize - (typed keys).length) behind
    rw [hzeros, ← List.append_assoc] at hbytes
    change (CString.overwrite _ 0 _).take _ = _
    exact (congrArg _ hbytes).trans (List.take_left' (by simpa using hzeros))

/-- A name that fits, with a NUL, has at most 79 characters. -/
theorem length_typed_le {user : Block}
    (h : loginUser (zeroedName behind) (keys ++ [newline]) = some user)
    (hinside : user.Inside t3LoginMsgSize) (hterminated : nul ∈ user.bytes.take t3LoginMsgSize) :
    (typed keys).length ≤ 79 := by
  rw [loginUser_eq] at h
  obtain rfl := Option.some.inj h
  by_contra hlong
  have htyped : typed keys ≠ [] := fun hnil => by
    rw [hnil] at hlong
    exact hlong (Nat.zero_le _)
  rw [if_neg htyped] at hinside hterminated
  obtain ⟨-, hnil | hle⟩ := Block.inside_write.1 hinside
  · rcases List.take_eq_nil_iff.1 hnil with hzero | hnil
    · cases hzero
    · exact htyped hnil
  · -- 80 characters, and none of them is the NUL
    rw [List.length_take, t3LoginMsgSize] at hle
    have hall : (typed keys).take 81 = typed keys := List.take_of_length_le (by omega)
    have hlength : (typed keys).length = t3LoginMsgSize := by
      rw [t3LoginMsgSize]
      omega
    have hroom : (typed keys).length ≤ (zeroedName behind).bytes.length := by
      simp [zeroedName, hlength]
    have hbytes := CString.take_overwrite hroom
    rw [hlength] at hbytes
    rw [hall] at hterminated
    exact nul_notMem_typed keys (hbytes ▸ hterminated)

/-! ### The copies -/

/-- What gets into the server's table. -/
theorem registerName_take (user : Block) (hctos : t3LoginMsgSize ≤ ctos.bytes.length)
    (hlogin : t3LoginMsgSize ≤ login.bytes.length) :
    (registerName login (sendName ctos user)).bytes.take t3LoginMsgSize =
      CString.strncpy t3LoginMsgSize user.bytes := by
  have hcopied {b : Block} (src : List Char) (hroom : t3LoginMsgSize ≤ b.bytes.length) :
      (CString.overwrite b.bytes 0 (CString.strncpy t3LoginMsgSize src)).take t3LoginMsgSize =
        CString.strncpy t3LoginMsgSize src := by
    have hbytes := CString.take_overwrite ((CString.length_strncpy _ src).trans_le hroom)
    rwa [CString.length_strncpy] at hbytes
  have hsent := hcopied user.bytes hctos
  have hregistered := hcopied (sendName ctos user).bytes hlogin
  exact hregistered.trans (CString.strncpy_of_take hsent)

/-- **The names.** Whatever is typed, the client's array and the server's hold the name as is
expected exactly if it has at most 79 characters. -/
theorem login_name (keys : List ℤ) (behind : List Char)
    (hctos : t3LoginMsgSize ≤ ctos.bytes.length) (hlogin : t3LoginMsgSize ≤ login.bytes.length) :
    ∃ user, loginUser (zeroedName behind) (keys ++ [newline]) = some user ∧
      (NameArrives keys user (registerName login (sendName ctos user)) ↔
        (typed keys).length ≤ 79) := by
  by_cases hshort : (typed keys).length ≤ 79
  · obtain ⟨user, huser, hinside, hbytes⟩ := loginUser_short behind hshort
    refine ⟨user, huser, iff_of_true ?_ hshort⟩
    have hnul : nul ∉ typedName keys := by
      rw [typedName]
      split
      · decide
      · exact fun h => nul_notMem_typed keys (List.mem_of_mem_take h)
    have hlength : (typedName keys).length < t3LoginMsgSize := by
      rw [typedName]
      split
      · decide
      · rw [List.length_take, t3LoginMsgSize]
        omega
    have htext : text (user.bytes.take t3LoginMsgSize) = typedName keys := by
      rw [hbytes, CString.text_append_replicate hnul]
    refine ⟨hinside, ?_, ?_, ?_⟩
    · rw [hbytes]
      simp [Nat.sub_ne_zero_of_lt hlength]
    · rw [registerName_take user hctos hlogin, CString.text_strncpy, htext]
    · rw [registerName_take user hctos hlogin, CString.nul_mem_strncpy, CString.strlen, htext]
      exact hlength
  · refine ⟨_, loginUser_eq _ keys, iff_of_false (fun hnamed => ?_) hshort⟩
    exact hshort (length_typed_le (loginUser_eq _ keys) hnamed.inside hnamed.terminated)

/-- A login segment and a table entry of 80 bytes. -/
def emptyName : Block := ⟨List.replicate 80 nul, []⟩

/-- A name of three characters is typed, with a key between them that is not printed. -/
theorem login_name_typed : ∃ user,
    loginUser (zeroedName []) ([73, 118, 9, 97] ++ [newline]) = some user ∧
    typedName [73, 118, 9, 97] = "Iva".toList ∧
    NameArrives [73, 118, 9, 97] user (registerName emptyName (sendName emptyName user)) := by
  have hroom : t3LoginMsgSize ≤ emptyName.bytes.length := le_refl 80
  obtain ⟨user, huser, hiff⟩ := login_name [73, 118, 9, 97] [] hroom hroom
  exact ⟨user, huser, by decide, hiff.2 (by decide)⟩

/-- Of 80 characters none is the NUL. -/
theorem login_name_too_long : ¬ ∀ keys user,
    loginUser (zeroedName [nul]) (keys ++ [newline]) = some user →
      NameArrives keys user (registerName emptyName (sendName emptyName user)) := by
  intro hall
  have hnamed := hall (List.replicate 80 97) _ (loginUser_eq _ _)
  exact absurd (length_typed_le (loginUser_eq _ _) hnamed.inside hnamed.terminated) (by decide)

end EmbeddedC.SharedChat
