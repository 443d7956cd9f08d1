import EmbeddedC.Lib.CString

/-!
# Homeworks 24 and 25: a message in the kernel

The modules keep a message in an array `msg` of `BUF_LEN` bytes.  It is written through
`simple_write_to_buffer`, and read up to its NUL, in as many pieces as the reader likes.

* `simpleWriteToBuffer`: the kernel's function, also when some bytes cannot be copied;
* `readMessage`: the handler for a read;
* `offsets`, `chunk`: one read after the other;
* `Round`, `round_of_offset`: from the beginning of the message on, the reads up to the next end
  give the message.
-/

namespace EmbeddedC.KernelBuffer

open CString

/-- `BUF_LEN` -/
def bufLen : ℕ := 15

/-- `EINVAL` -/
def einval : ℤ := 22

/-- `EFAULT` -/
def efault : ℤ := 14

/-- What a write returns, the offset, and the message. -/
structure Written where
  ret : ℤ
  offset : ℤ
  msg : List Char
  deriving DecidableEq

/-- `simple_write_to_buffer(dst, available, ppos, src, count)`, where the last `uncopied` bytes
cannot be copied: they are replaced by zeros. -/
def simpleWriteToBuffer (dst : List Char) (available : ℕ) (ppos : ℤ) (src : List Char)
    (uncopied : ℕ) : Written :=
  if ppos < 0 then ⟨-einval, ppos, dst⟩
  else if ppos ≥ available ∨ src.length = 0 then ⟨0, ppos, dst⟩
  else
    let count := min src.length (available - ppos).toNat
    let res := min uncopied count
    let dst := overwrite dst ppos.toNat (src.take (count - res) ++ List.replicate res nul)
    if res = count then ⟨-efault, ppos, dst⟩
    else ⟨(count - res : ℕ), ppos + (count - res : ℕ), dst⟩

/-- What a read puts into the reader's buffer, and the offset.  The number of characters is
returned. -/
structure Read where
  chunk : List Char
  offset : ℤ
  deriving DecidableEq

/-- The loop over the characters; `none` when it leaves the array. -/
def readLoop (msg : List Char) (pos : ℕ) : ℕ → Option (List Char)
  | 0 => some []
  | length + 1 =>
    match msg[pos]? with
    | none => none
    | some c => if c = nul then some [] else (readLoop msg (pos + 1) length).map (c :: ·)

/-- The handler for a read; `none` when it examines a byte outside of the array. -/
def readMessage (msg : List Char) (length : ℕ) (offset : ℤ) : Option Read :=
  if offset < 0 then none
  else match msg[offset.toNat]? with
    | none => none
    | some c =>
      if c = nul then some ⟨[], 0⟩
      else (readLoop msg offset.toNat length).map fun chunk => ⟨chunk, offset + chunk.length⟩

/-- The offset before each read, when the reader asks for `lengths i` characters. -/
def offsets (read : ℕ → ℤ → Option Read) (lengths : ℕ → ℕ) : ℕ → Option ℤ
  | 0 => some 0
  | i + 1 => (offsets read lengths i).bind fun offset =>
      (read (lengths i) offset).map Read.offset

/-- What each read gives. -/
def chunk (read : ℕ → ℤ → Option Read) (lengths : ℕ → ℕ) (i : ℕ) : Option (List Char) :=
  (offsets read lengths i).bind fun offset => (read (lengths i) offset).map Read.chunk

/-- From read `i` on: the reads up to the first one that gives nothing give `s`, and that one goes
back to the beginning. -/
def Round (read : ℕ → ℤ → Option Read) (lengths : ℕ → ℕ) (i : ℕ) (s : List Char) : Prop :=
  ∃ chunks : List (List Char), (∀ c ∈ chunks, c ≠ []) ∧
    (∀ (j : ℕ) (c : List Char), chunks[j]? = some c → chunk read lengths (i + j) = some c) ∧
    chunks.flatten = s ∧ chunk read lengths (i + chunks.length) = some [] ∧
    offsets read lengths (i + chunks.length + 1) = some 0

variable {s rest : List Char} {lengths : ℕ → ℕ} {k length : ℕ}

/-! ### Writing -/

/-- Nothing fails, and there is room. -/
theorem simpleWriteToBuffer_eq {dst src : List Char} {available : ℕ} (hsrc : src ≠ [])
    (hroom : k + src.length ≤ available) : simpleWriteToBuffer dst available k src 0 =
      ⟨src.length, (k + src.length : ℕ), overwrite dst k src⟩ := by
  have hpos := List.length_pos_iff.2 hsrc
  have hcount : min src.length ((available : ℤ) - k).toNat = src.length := by omega
  have hinside : ¬ ((k : ℤ) ≥ available ∨ src.length = 0) := by omega
  rw [simpleWriteToBuffer, if_neg (by omega), if_neg hinside, hcount]
  simp [hpos.ne]

/-- What a write does: nothing, or the bytes from an offset in the array on are overwritten, the
last ones by the zeros for those that could not be copied. -/
theorem simpleWriteToBuffer_cases (dst src : List Char) (available : ℕ) (ppos : ℤ)
    (uncopied : ℕ) :
    ((ppos < 0 ∨ available ≤ ppos ∨ src = []) ∧
      (simpleWriteToBuffer dst available ppos src uncopied).msg = dst ∧
      (simpleWriteToBuffer dst available ppos src uncopied).ret ≤ 0) ∨
    ∃ k count res : ℕ, ppos = k ∧ k < available ∧ src ≠ [] ∧
      count = min src.length (available - k) ∧ res = min uncopied count ∧
      (simpleWriteToBuffer dst available ppos src uncopied).msg =
        overwrite dst k (src.take (count - res) ++ List.replicate res nul) ∧
      ((simpleWriteToBuffer dst available ppos src uncopied).ret ≤ 0 ↔ res = count) := by
  unfold simpleWriteToBuffer
  split
  · rename_i hneg
    exact .inl ⟨.inl hneg, rfl, by simp [einval]⟩
  rename_i hpos
  split
  · rename_i hend
    exact .inl ⟨.inr (hend.imp_right List.length_eq_zero_iff.1), rfl, le_rfl⟩
  rename_i hinside
  rw [not_or] at hinside
  obtain ⟨k, rfl⟩ := Int.eq_ofNat_of_zero_le (Int.not_lt.1 hpos)
  have hroom : ((available : ℤ) - k).toNat = available - k := by omega
  refine .inr ⟨k, min src.length (available - k), _, rfl, by omega,
    fun hnil => hinside.2 (List.length_eq_zero_iff.2 hnil), rfl, rfl, ?_⟩
  dsimp only
  rw [hroom, Int.toNat_natCast]
  split
  · rename_i hfault
    exact ⟨rfl, iff_of_true (by simp [efault]) hfault⟩
  · rename_i hfault
    refine ⟨rfl, iff_of_false ?_ hfault⟩
    dsimp only
    omega

/-- The bytes that are stored: the last ones are zeros. -/
theorem getElem?_stored {src : List Char} {count res i : ℕ} (hcount : count ≤ src.length)
    (hres : res ≤ count) (hi : i < count) :
    (src.take (count - res) ++ List.replicate res nul)[i]? =
      if i < count - res then src[i]? else some nul := by
  have htake : (src.take (count - res)).length = count - res := List.length_take_of_le (by omega)
  split
  · rename_i hcopied
    rw [List.getElem?_append_left (by omega), List.getElem?_take_of_lt hcopied]
  · rw [List.getElem?_append_right (by omega), List.getElem?_replicate, if_pos (by omega)]

/-- Nothing is stored, or an error is returned: the kernel sees a bad offset, nothing to write, or
no byte that can be copied. -/
theorem simpleWriteToBuffer_ret {dst src : List Char} {available uncopied : ℕ} {ppos : ℤ} :
    (simpleWriteToBuffer dst available ppos src uncopied).ret ≤ 0 ↔
      ppos < 0 ∨ available ≤ ppos ∨ src = [] ∨
        min src.length (available - ppos).toNat ≤ uncopied := by
  rcases simpleWriteToBuffer_cases dst src available ppos uncopied with
    ⟨hreject, -, hret⟩ | ⟨k, count, res, rfl, hk, hsrc, hcount, hres, -, hret⟩
  · exact iff_of_true hret (hreject.imp_right fun h => h.imp_right .inl)
  · rw [hret, or_iff_right (by omega), or_iff_right (by omega), or_iff_right hsrc]
    omega

/-- Into memory that was zeroed, a write that stores nothing puts nothing but NULs. -/
theorem simpleWriteToBuffer_zeroed {src : List Char} {n available uncopied : ℕ} {ppos : ℤ}
    (h : (simpleWriteToBuffer (List.replicate n nul) available ppos src uncopied).ret ≤ 0) :
    (simpleWriteToBuffer (List.replicate n nul) available ppos src uncopied).msg =
      List.replicate n nul := by
  rcases simpleWriteToBuffer_cases (List.replicate n nul) src available ppos uncopied with
    ⟨-, hmsg, -⟩ | ⟨k, count, res, rfl, -, -, -, -, hmsg, hret⟩
  · exact hmsg
  · rw [hmsg, hret.1 h, Nat.sub_self, List.take_zero, List.nil_append]
    exact overwrite_nuls _ _ _

/-! ### Reading -/

variable {msg : List Char}

/-- The loop stops at the NUL, or when enough was read. -/
theorem readLoop_eq_some (hk : k ≤ msg.length)
    (hend : nul ∈ msg.drop k ∨ k + length ≤ msg.length) :
    readLoop msg k length = some ((text (msg.drop k)).take length) := by
  induction length generalizing k with
  | zero => simp [readLoop]
  | succ length ih =>
    have hlt : k < msg.length := by
      rcases hend with hnul | hle
      · by_contra hge
        rw [List.drop_eq_nil_of_le (Nat.le_of_not_lt hge)] at hnul
        cases hnul
      · omega
    rw [readLoop, List.getElem?_eq_getElem hlt]
    dsimp only
    rw [List.drop_eq_getElem_cons hlt] at hend ⊢
    by_cases hc : msg[k] = nul
    · rw [if_pos hc, hc, text_nul_cons, List.take_nil]
    · have hnext : nul ∈ msg.drop (k + 1) ∨ k + 1 + length ≤ msg.length := by
        rcases hend with hnul | hle
        · exact .inl ((List.mem_cons.1 hnul).resolve_left (Ne.symm hc))
        · exact .inr (by omega)
      rw [if_neg hc, ih hlt hnext, text_cons hc, List.take_succ_cons, Option.map_some]

/-- Without a NUL the loop leaves the array. -/
theorem readLoop_eq_none (hk : k ≤ msg.length) (hnul : nul ∉ msg.drop k)
    (hlong : msg.length < k + length) : readLoop msg k length = none := by
  induction length generalizing k with
  | zero => omega
  | succ length ih =>
    rw [readLoop]
    rcases hk.eq_or_lt with rfl | hlt
    · rw [List.getElem?_eq_none le_rfl]
    · rw [List.drop_eq_getElem_cons hlt, List.mem_cons, not_or] at hnul
      rw [List.getElem?_eq_getElem hlt]
      dsimp only
      rw [if_neg (Ne.symm hnul.1), ih hlt hnul.2 (by omega), Option.map_none]

/-- What a read gives that stays in the array. -/
theorem readMessage_eq_some (hk : k < msg.length)
    (hend : nul ∈ msg.drop k ∨ k + length ≤ msg.length) : ∃ r,
      readMessage msg length k = some r ∧ r.chunk = (text (msg.drop k)).take length ∧
        (r.chunk ≠ [] → r.offset = (k + r.chunk.length : ℕ)) := by
  rw [readMessage, if_neg (by omega), Int.toNat_natCast, List.getElem?_eq_getElem hk]
  dsimp only
  by_cases hc : msg[k] = nul
  · rw [if_pos hc, List.drop_eq_getElem_cons hk, hc, text_nul_cons]
    exact ⟨⟨[], 0⟩, rfl, by simp, fun hne => absurd rfl hne⟩
  · rw [if_neg hc, readLoop_eq_some hk.le hend, Option.map_some]
    exact ⟨_, rfl, rfl, fun _ => rfl⟩

/-- A read stays in the array exactly if it begins there, and finds a NUL or does not ask for more
than there is. -/
theorem readMessage_isSome_iff {offset : ℤ} : (readMessage msg length offset).isSome = true ↔
    0 ≤ offset ∧ offset < msg.length ∧
      (nul ∈ msg.drop offset.toNat ∨ offset + length ≤ msg.length) := by
  rcases lt_or_ge offset 0 with hneg | hpos
  · -- in front of the array
    rw [readMessage, if_pos hneg]
    exact iff_of_false Bool.false_ne_true fun h => absurd h.1 (not_le.2 hneg)
  obtain ⟨k, rfl⟩ := Int.eq_ofNat_of_zero_le hpos
  rw [Int.toNat_natCast]
  rcases lt_or_ge k msg.length with hlt | hge
  · by_cases hend : nul ∈ msg.drop k ∨ k + length ≤ msg.length
    · obtain ⟨r, hr, -⟩ := readMessage_eq_some hlt hend
      rw [hr]
      refine iff_of_true rfl ⟨hpos, by omega, ?_⟩
      exact hend.imp_right fun hle => by omega
    · rw [not_or, not_le] at hend
      have hne : msg[k] ≠ nul := fun hc => hend.1 (by
        rw [List.drop_eq_getElem_cons hlt, hc]
        exact List.mem_cons_self)
      rw [readMessage, if_neg (by omega), Int.toNat_natCast, List.getElem?_eq_getElem hlt]
      dsimp only
      rw [if_neg hne, readLoop_eq_none hlt.le hend.1 hend.2, Option.map_none]
      refine iff_of_false Bool.false_ne_true ?_
      rintro ⟨-, -, hnul | hle⟩
      · exact hend.1 hnul
      · omega
  · -- behind the array
    rw [readMessage, if_neg (by omega), Int.toNat_natCast, List.getElem?_eq_none hge]
    exact iff_of_false Bool.false_ne_true fun h => by omega

theorem readMessage_eq (hs : nul ∉ s) (hk : k < s.length) (rest : List Char) (length : ℕ) :
    readMessage (s ++ nul :: rest) length k =
      some ⟨(s.drop k).take length, (k + min length (s.length - k) : ℕ)⟩ := by
  have hget : (s ++ nul :: rest)[(k : ℤ).toNat]? = some s[k] := by
    rw [Int.toNat_natCast, List.getElem?_append_left hk, List.getElem?_eq_getElem hk]
  have hne : s[k] ≠ nul := ne_of_mem_of_not_mem (List.getElem_mem hk) hs
  have htext : text ((s ++ nul :: rest).drop k) = s.drop k := by
    rw [List.drop_append_of_le_length hk.le]
    exact text_append_nul (fun h => hs (List.mem_of_mem_drop h)) rest
  have hend : nul ∈ (s ++ nul :: rest).drop k := by
    rw [List.drop_append_of_le_length hk.le]
    simp
  have hle : k ≤ (s ++ nul :: rest).length := by
    rw [List.length_append]
    omega
  rw [readMessage, if_neg (by omega), hget]
  dsimp only
  rw [if_neg hne, Int.toNat_natCast, readLoop_eq_some hle (.inl hend), htext, Option.map_some]
  simp

/-- At the NUL the offset is reset. -/
theorem readMessage_end (rest : List Char) (length : ℕ) :
    readMessage (s ++ nul :: rest) length s.length = some ⟨[], 0⟩ := by
  have hget : (s ++ nul :: rest)[((s.length : ℕ) : ℤ).toNat]? = some nul := by
    rw [Int.toNat_natCast]
    simp
  rw [readMessage, if_neg (by omega), hget]
  exact if_pos rfl

variable {read : ℕ → ℤ → Option Read} {c t : List Char} {i : ℕ}

/-- The read that gives nothing. -/
theorem Round.nil (hlast : chunk read lengths i = some [])
    (hreset : offsets read lengths (i + 1) = some 0) : Round read lengths i [] :=
  ⟨[], by simp, by simp, rfl, hlast, hreset⟩

/-- A read that gives something, in front of the others. -/
theorem Round.cons (h : Round read lengths (i + 1) t) (hc : c ≠ [])
    (hfirst : chunk read lengths i = some c) : Round read lengths i (c ++ t) := by
  obtain ⟨chunks, hne, hget, hflatten, hend, hreset⟩ := h
  have hshift (j : ℕ) : i + (j + 1) = i + 1 + j := by omega
  refine ⟨c :: chunks, ?_, ?_, ?_, ?_, ?_⟩
  · intro d hd
    rcases List.mem_cons.1 hd with rfl | hd
    · exact hc
    · exact hne d hd
  · intro j d hd
    cases j with
    | zero =>
      obtain rfl := Option.some.inj hd
      exact hfirst
    | succ j =>
      rw [hshift]
      exact hget j d (by simpa using hd)
  · rw [List.flatten_cons, hflatten]
  · rw [List.length_cons, hshift]
    exact hend
  · rw [List.length_cons, hshift]
    exact hreset

/-- From any offset on, the reads give what is left. -/
theorem round_of_offset (hs : nul ∉ s) (hlengths : ∀ i, 0 < lengths i) {i : ℕ} (hk : k ≤ s.length)
    (hoffset : offsets (readMessage (s ++ nul :: rest)) lengths i = some (k : ℤ)) :
    Round (readMessage (s ++ nul :: rest)) lengths i (s.drop k) := by
  induction hleft : s.length - k using Nat.strong_induction_on generalizing k i with
  | h left ih =>
    rcases hk.eq_or_lt with rfl | hlt
    · rw [List.drop_length]
      apply Round.nil
      · simp [chunk, hoffset, readMessage_end]
      · simp [offsets, hoffset, readMessage_end]
    · have hread := readMessage_eq hs hlt rest (lengths i)
      have hpos := hlengths i
      have hnext : offsets (readMessage (s ++ nul :: rest)) lengths (i + 1) =
          some ((k + min (lengths i) (s.length - k) : ℕ) : ℤ) := by
        rw [offsets, hoffset, Option.bind_some, hread, Option.map_some]
      have hfirst : chunk (readMessage (s ++ nul :: rest)) lengths i =
          some ((s.drop k).take (lengths i)) := by
        rw [chunk, hoffset, Option.bind_some, hread, Option.map_some]
      have hdrop : s.drop (k + min (lengths i) (s.length - k)) = (s.drop k).drop (lengths i) := by
        rw [List.drop_drop]
        rcases le_total (lengths i) (s.length - k) with hle | hle
        · rw [Nat.min_eq_left hle]
        · rw [Nat.min_eq_right hle, List.drop_eq_nil_of_le (by omega),
            List.drop_eq_nil_of_le (by omega)]
      -- the offset that the read leaves is closer to the end
      have htail := ih _ (by omega) (k := k + min (lengths i) (s.length - k)) (by omega) hnext rfl
      rw [hdrop] at htail
      rw [← List.take_append_drop (lengths i) (s.drop k)]
      refine htail.cons ?_ hfirst
      rw [← List.length_pos_iff, List.length_take, List.length_drop]
      omega

/-! ### Where a round ends -/

theorem readMessage_spec {k : ℕ} {r : Read} (h : readMessage msg length k = some r) :
    k < msg.length ∧ r.chunk = (text (msg.drop k)).take length ∧
      (r.chunk ≠ [] → r.offset = (k + r.chunk.length : ℕ)) := by
  obtain ⟨-, hlt, hend⟩ := readMessage_isSome_iff.1 (Option.isSome_iff_exists.2 ⟨r, h⟩)
  rw [Int.toNat_natCast] at hend
  have hk : k < msg.length := Int.ofNat_lt.1 hlt
  have hend' : nul ∈ msg.drop k ∨ k + length ≤ msg.length :=
    hend.imp_right fun hle => by omega
  obtain ⟨r', hr', hspec⟩ := readMessage_eq_some hk hend'
  obtain rfl := Option.some.inj (h.symm.trans hr')
  exact ⟨hk, hspec⟩

/-- A read that asks for something and gives nothing has found the NUL. -/
theorem nul_of_readMessage {k : ℕ} {r : Read} (h : readMessage msg length k = some r)
    (hlength : 0 < length) (hnil : r.chunk = []) : msg[k]? = some nul := by
  obtain ⟨hk, hchunk, -⟩ := readMessage_spec h
  rw [hnil, List.drop_eq_getElem_cons hk] at hchunk
  rw [List.getElem?_eq_getElem hk]
  by_contra hne
  have hc : msg[k] ≠ nul := fun hc => hne (congrArg some hc)
  obtain ⟨n, rfl⟩ := Nat.exists_eq_succ_of_ne_zero hlength.ne'
  rw [text_cons hc, List.take_succ_cons] at hchunk
  cases hchunk

/-- A round ends at a NUL. -/
theorem Round.nul_at_end (h : Round (readMessage msg) lengths i s) (hlengths : ∀ i, 0 < lengths i)
    (hoffset : offsets (readMessage msg) lengths i = some (k : ℤ)) :
    msg[k + s.length]? = some nul := by
  obtain ⟨chunks, hne, hget, rfl, hend, -⟩ := h
  induction chunks generalizing i k with
  | nil =>
    rw [List.length_nil, Nat.add_zero, chunk, hoffset, Option.bind_some] at hend
    obtain ⟨r, hr, hnil⟩ := Option.map_eq_some_iff.1 hend
    exact nul_of_readMessage hr (hlengths i) hnil
  | cons c chunks ih =>
    have hfirst := hget 0 c rfl
    rw [Nat.add_zero, chunk, hoffset, Option.bind_some] at hfirst
    obtain ⟨r, hr, rfl⟩ := Option.map_eq_some_iff.1 hfirst
    have hnext : offsets (readMessage msg) lengths (i + 1) =
        some ((k + r.chunk.length : ℕ) : ℤ) := by
      rw [offsets, hoffset, Option.bind_some, hr, Option.map_some,
        (readMessage_spec hr).2.2 (hne _ List.mem_cons_self)]
    have hshift (j : ℕ) : i + (j + 1) = i + 1 + j := by omega
    rw [List.flatten_cons, List.length_append, ← Nat.add_assoc]
    refine ih hnext (fun d hd => hne d (List.mem_cons_of_mem _ hd)) (fun j d hd => ?_) ?_
    · rw [← hshift]
      exact hget (j + 1) d hd
    · rw [← hshift]
      exact hend

end EmbeddedC.KernelBuffer
