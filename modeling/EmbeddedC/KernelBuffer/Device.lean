import EmbeddedC.Lib.Machine
import EmbeddedC.KernelBuffer.Message

/-!
# Homework 24: the character device

`device_write` overwrites some bytes of the message, and leaves the others as they were.

* `deviceRead`, `deviceWrite`: the handlers;
* `chardev`: the calls, in any order; `KeepsEnd`: no write puts anything but a NUL into the last
  byte;
* `device_reads`: when a read gives the text at its offset;
  `device_reads_behind`: the message can be filled to its last byte;
* `overwrite_then_read`: a string that was written at the beginning is what is read exactly if
  there was a NUL behind it; `overwrite_keeps_rest`: of a longer message the end is kept.
-/

namespace EmbeddedC.KernelBuffer

open CString

/-- `msg` when the module is loaded -/
def deviceMsg : List Char := "A string".toList ++ List.replicate 7 nul

/-- `device_read` -/
def deviceRead (msg : List Char) (length : ℕ) (offset : ℤ) : Option Read :=
  readMessage msg length offset

/-- `device_write`, for a buffer of `len` bytes of which the last `uncopied` cannot be copied. -/
def deviceWrite (msg buff : List Char) (off : ℤ) (uncopied : ℕ) : Written :=
  if buff.length > bufLen then ⟨-einval, off, msg⟩
  else simpleWriteToBuffer msg bufLen off buff uncopied

/-- A call of one of the handlers. -/
inductive Call
  | read (length : ℕ) (offset : ℤ)
  | write (buff : List Char) (off : ℤ) (uncopied : ℕ)

/-- The message, under any calls.  A read that leaves the array is not a step. -/
def chardev : Machine (List Char) Call where
  init msg := msg = deviceMsg
  step msg
    | .read length offset => (deviceRead msg length offset).map fun _ => msg
    | .write buff off uncopied => some (deviceWrite msg buff off uncopied).msg

/-- A read stays in the array, and gives the bytes from its offset up to the first NUL or the
requested length. -/
def ReadsText (msg : List Char) (length : ℕ) (offset : ℤ) : Prop :=
  (deviceRead msg length offset).map Read.chunk = some ((text (msg.drop offset.toNat)).take length)

instance (msg : List Char) (length : ℕ) (offset : ℤ) : Decidable (ReadsText msg length offset) :=
  inferInstanceAs (Decidable (_ = _))

/-- A write that is not rejected puts nothing but a NUL into the last byte.  Bytes that cannot be
copied are zeros. -/
def KeepsEnd (_ : List Char) : Call → Prop
  | .read _ _ => True
  | .write buff off uncopied => bufLen < buff.length ∨ 0 < uncopied ∨
      ∀ (i : ℕ) (c : Char), off + i + 1 = bufLen → buff[i]? = some c → c = nul

variable {msg buff s : List Char} {off offset : ℤ} {uncopied length : ℕ} {lengths : ℕ → ℕ}

/-! ### The message -/

theorem deviceMsg_reachable {C : List Char → Call → Prop} : chardev.ReachableUnder C deviceMsg :=
  ⟨deviceMsg, rfl, .refl⟩

/-- What a write does to the message. -/
theorem deviceWrite_msg (msg buff : List Char) (off : ℤ) (uncopied : ℕ) :
    (deviceWrite msg buff off uncopied).msg = msg ∨
    ∃ k count res : ℕ, off = k ∧ k < bufLen ∧ buff.length ≤ bufLen ∧
      count = min buff.length (bufLen - k) ∧ res = min uncopied count ∧
      (deviceWrite msg buff off uncopied).msg =
        overwrite msg k (buff.take (count - res) ++ List.replicate res nul) := by
  rw [deviceWrite]
  split
  · exact .inl rfl
  · rename_i hlen
    rcases simpleWriteToBuffer_cases msg buff bufLen off uncopied with
      ⟨-, hmsg, -⟩ | ⟨k, count, res, hoff, hk, -, hcount, hres, hmsg, -⟩
    · exact .inl hmsg
    · exact .inr ⟨k, count, res, hoff, hk, Nat.not_lt.1 hlen, hcount, hres, hmsg⟩

theorem length_deviceWrite (msg buff : List Char) (off : ℤ) (uncopied : ℕ) :
    (deviceWrite msg buff off uncopied).msg.length = msg.length := by
  rcases deviceWrite_msg msg buff off uncopied with h | ⟨_, _, _, -, -, -, -, -, h⟩
  · rw [h]
  · rw [h, length_overwrite]

/-- What a call does to the message. -/
theorem chardev_step {call : Call} {msg' : List Char} (h : chardev.step msg call = some msg') :
    msg' = msg ∨ ∃ buff off uncopied, call = .write buff off uncopied ∧
      msg' = (deviceWrite msg buff off uncopied).msg := by
  cases call with
  | read length offset =>
    obtain ⟨_, -, hmsg⟩ := Option.map_eq_some_iff.1 h
    exact .inl hmsg.symm
  | write buff off uncopied => exact .inr ⟨buff, off, uncopied, rfl, (Option.some.inj h).symm⟩

/-- The size of the array does not change. -/
theorem length_of_reachable (h : chardev.Reachable msg) : msg.length = bufLen := by
  refine h.invariant (I := fun msg => msg.length = bufLen) ?_ ?_
  · rintro _ rfl
    rfl
  · intro msg call msg' _ hlen hstep
    rcases chardev_step hstep with rfl | ⟨buff, off, uncopied, -, rfl⟩
    · exact hlen
    · rw [length_deviceWrite, hlen]

/-- The last byte after a write that keeps it. -/
theorem deviceWrite_end (hend : msg[bufLen - 1]? = some nul)
    (h : KeepsEnd msg (.write buff off uncopied)) :
    (deviceWrite msg buff off uncopied).msg[bufLen - 1]? = some nul := by
  rcases deviceWrite_msg msg buff off uncopied with hmsg |
    ⟨k, count, res, rfl, hk, hlen, hcount, hres, hmsg⟩
  · rw [hmsg]
    exact hend
  have hstored : (buff.take (count - res) ++ List.replicate res nul).length = count := by
    rw [List.length_append, List.length_take, List.length_replicate]
    omega
  rw [hmsg, getElem?_overwrite, hstored]
  split
  · rename_i hin
    rw [getElem?_stored (by omega) (by omega) (by omega)]
    split
    · -- the byte was copied, so there was no fault
      have hlt : bufLen - 1 - k < buff.length := by omega
      rw [List.getElem?_eq_getElem hlt]
      rcases h with hlong | hfault | hall
      · exact absurd hlong (Nat.not_lt.2 hlen)
      · omega
      · rw [hall (bufLen - 1 - k) _ (by omega) (List.getElem?_eq_getElem hlt)]
    · rfl
  · exact hend

/-- Then the message always ends in a NUL. -/
theorem end_of_reachableUnder (h : chardev.ReachableUnder KeepsEnd msg) :
    msg[bufLen - 1]? = some nul := by
  refine h.invariant (I := fun msg => msg[bufLen - 1]? = some nul) ?_ ?_
  · rintro _ rfl
    rfl
  · intro msg call msg' _ hend hkeeps hstep
    rcases chardev_step hstep with rfl | ⟨buff, off, uncopied, rfl, rfl⟩
    · exact hend
    · exact deviceWrite_end hend hkeeps

/-! ### Reading -/

theorem readsText_iff (hlen : msg.length = bufLen) (length : ℕ) (offset : ℤ) :
    ReadsText msg length offset ↔
    0 ≤ offset ∧ offset < bufLen ∧ (nul ∈ msg.drop offset.toNat ∨ offset + length ≤ bufLen) := by
  rw [← hlen]
  constructor
  · intro h
    obtain ⟨r, hr, -⟩ := Option.map_eq_some_iff.1 h
    exact readMessage_isSome_iff.1 (Option.isSome_iff_exists.2 ⟨r, hr⟩)
  · rintro ⟨hpos, hlt, hend⟩
    obtain ⟨k, rfl⟩ := Int.eq_ofNat_of_zero_le hpos
    rw [Int.toNat_natCast] at hend
    have hk : k < msg.length := Int.ofNat_lt.1 hlt
    have hend' : nul ∈ msg.drop k ∨ k + length ≤ msg.length :=
      hend.imp_right fun hle => by omega
    obtain ⟨r, hr, hchunk, -⟩ := readMessage_eq_some hk hend'
    exact Option.map_eq_some_iff.2 ⟨r, hr, hchunk⟩

/-- **Reads.** Whatever the calls before were, a read stays in the array and gives the text exactly
if it begins in the array, and there is a NUL from there on or enough bytes.  If every write has
kept the last byte, the first condition is enough. -/
theorem device_reads (h : chardev.Reachable msg) (length : ℕ) (offset : ℤ) :
    (ReadsText msg length offset ↔ 0 ≤ offset ∧ offset < bufLen ∧
      (nul ∈ msg.drop offset.toNat ∨ offset + length ≤ bufLen)) ∧
    (chardev.ReachableUnder KeepsEnd msg →
      (ReadsText msg length offset ↔ 0 ≤ offset ∧ offset < bufLen)) := by
  have hiff := readsText_iff (length_of_reachable h) length offset
  refine ⟨hiff, fun hkeeps => hiff.trans ?_⟩
  have hend := end_of_reachableUnder hkeeps
  refine ⟨fun hr => ⟨hr.1, hr.2.1⟩, fun hr => ⟨hr.1, hr.2, .inl ?_⟩⟩
  refine List.mem_of_getElem? (i := bufLen - 1 - offset.toNat) ?_
  rw [List.getElem?_drop, Nat.add_sub_cancel' (by omega)]
  exact hend

/-- Two writes, of which the second one ends in the last byte, with a NUL. -/
theorem device_reads_written :
    ∃ msg, chardev.run deviceMsg [.write "Hi".toList 0 0, .write ['x', 'y', nul] 12 0] = some msg ∧
      ReadsText msg 16 0 ∧ ReadsText msg 4 12 ∧ ¬ ReadsText msg 1 15 := by
  obtain ⟨msg, hfirst⟩ : ∃ msg, chardev.step deviceMsg (.write "Hi".toList 0 0) = some msg :=
    ⟨_, rfl⟩
  obtain ⟨msg', hsecond⟩ : ∃ msg', chardev.step msg (.write ['x', 'y', nul] 12 0) = some msg' :=
    ⟨_, rfl⟩
  have hkeeps : KeepsEnd deviceMsg (.write "Hi".toList 0 0) := by
    refine .inr (.inr fun i c hi hc => ?_)
    obtain rfl : i = 14 := by
      rw [bufLen] at hi
      omega
    cases hc
  have hkeeps' : KeepsEnd msg (.write ['x', 'y', nul] 12 0) := by
    refine .inr (.inr fun i c hi hc => ?_)
    obtain rfl : i = 2 := by
      rw [bufLen] at hi
      omega
    cases hc
    rfl
  have hreach : chardev.ReachableUnder KeepsEnd msg' :=
    (deviceMsg_reachable.step hkeeps hfirst).step hkeeps' hsecond
  refine ⟨msg', ?_, ?_, ?_, ?_⟩
  · rw [Machine.run_cons, hfirst, Option.bind_some, Machine.run_cons, hsecond, Option.bind_some]
    rfl
  · exact ((device_reads hreach.reachable 16 0).2 hreach).2 (by decide)
  · exact ((device_reads hreach.reachable 4 12).2 hreach).2 (by decide)
  · rw [(device_reads hreach.reachable 1 15).2 hreach]
    decide

/-- When the message was filled, a read of more than that leaves the array. -/
theorem device_reads_behind : ¬ ∀ msg : List Char, chardev.Reachable msg →
    ∀ (length : ℕ) (offset : ℤ), 0 ≤ offset → ReadsText msg length offset := by
  intro hall
  have hrun : chardev.run deviceMsg [.write (List.replicate 15 'a') 0 0] =
      some (List.replicate 15 'a') := rfl
  have hreach : chardev.Reachable (List.replicate 15 'a') := Machine.reachable_of_run rfl hrun
  have h := hall _ hreach 16 0 le_rfl
  revert h
  decide

/-! ### Overwriting -/

/-- **Overwrite, then read.** Whatever the calls before were, the reads from the beginning give the
string that was written there exactly if there was a NUL at the offset where it ends. -/
theorem overwrite_then_read (h : chardev.Reachable msg) (hs : nul ∉ s) (hpos : 1 ≤ s.length)
    (hlen : s.length < bufLen) (hlengths : ∀ i, 0 < lengths i) :
    Round (deviceRead (deviceWrite msg s 0 0).msg) lengths 0 s ↔ msg[s.length]? = some nul := by
  have hfits : s.length ≤ msg.length := by
    rw [length_of_reachable h]
    exact hlen.le
  have hwrite : (deviceWrite msg s 0 0).msg = s ++ msg.drop s.length := by
    rw [deviceWrite, if_neg (by omega), ← overwrite_front hfits]
    exact congrArg Written.msg (simpleWriteToBuffer_eq (k := 0) (List.length_pos_iff.1 hpos)
      (by omega))
  rw [hwrite]
  constructor
  · intro hround
    have hnul := Round.nul_at_end (k := 0) hround hlengths rfl
    rwa [Nat.zero_add, List.getElem?_append_right le_rfl, List.getElem?_drop, Nat.sub_self,
      Nat.add_zero] at hnul
  · intro hnul
    obtain ⟨hlt, hget⟩ := List.getElem?_eq_some_iff.1 hnul
    rw [List.drop_eq_getElem_cons hlt, hget]
    exact round_of_offset (k := 0) hs hlengths (Nat.zero_le _) rfl

theorem overwrite_then_read_same :
    Round (deviceRead (deviceWrite deviceMsg "A device".toList 0 0).msg) (fun _ => 1) 0
      "A device".toList ↔ deviceMsg["A device".toList.length]? = some nul :=
  overwrite_then_read deviceMsg_reachable (by decide) (by decide) (by decide) fun _ => Nat.one_pos

/-- After a shorter string comes the end of the message that was there. -/
theorem overwrite_keeps_rest : ¬ ∀ (msg s : List Char) (lengths : ℕ → ℕ), chardev.Reachable msg →
    nul ∉ s → 1 ≤ s.length → s.length < bufLen → (∀ i, 0 < lengths i) →
      Round (deviceRead (deviceWrite msg s 0 0).msg) lengths 0 s := by
  intro hall
  have hround := hall deviceMsg ['a', 'b'] (fun _ => 1) deviceMsg_reachable (by decide) (by decide)
    (by decide) fun _ => Nat.one_pos
  have hnul := Round.nul_at_end (k := 0) hround (fun _ => Nat.one_pos) rfl
  revert hnul
  decide

end EmbeddedC.KernelBuffer
