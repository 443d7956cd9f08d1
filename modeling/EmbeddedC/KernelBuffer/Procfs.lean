import EmbeddedC.KernelBuffer.Message

/-!
# Homework 25: the procfs module

`write_proc` clears the whole message before it stores its bytes, wherever they go.

* `readProc`, `writeProc`: the handlers;
* `write_then_read`: a message that was written in one call is what every round of reads gives;
* `writePieces`: several writes through the same open file;
* `pieces_iff`: the message is that of a single write exactly if there is a single piece;
  `pieces_cleared`: two pieces;
* `failed_write`: a write that stores nothing leaves the message alone only if it was too long;
  `failed_write_clears`: a write at the end of the array.
-/

namespace EmbeddedC.KernelBuffer

open CString

/-- `msg` when the module is loaded -/
def loadedMsg : List Char := "String\n".toList ++ List.replicate 8 nul

/-- `read_proc` -/
def readProc (msg : List Char) (length : ℕ) (offset : ℤ) : Option Read :=
  readMessage msg length offset

/-- `write_proc`, for a buffer of `length` bytes of which the last `uncopied` cannot be copied. -/
def writeProc (msg buffer : List Char) (offset : ℤ) (uncopied : ℕ) : Written :=
  if buffer.length > bufLen then ⟨-einval, offset, msg⟩
  else
    -- `memset(msg, 0, BUF_LEN)`
    simpleWriteToBuffer (List.replicate bufLen nul) bufLen offset buffer uncopied

/-- The pieces are written one after the other, each at the offset that the last write has left. -/
def writePieces (msg : List Char) (offset : ℤ) : List (List Char) → Written
  | [] => ⟨0, offset, msg⟩
  | piece :: pieces =>
    let w := writeProc msg piece offset 0
    writePieces w.msg w.offset pieces

variable {msg s piece : List Char} {pieces : List (List Char)} {lengths : ℕ → ℕ} {k : ℕ}

theorem writeProc_eq (msg : List Char) (hpiece : piece ≠ []) (hroom : k + piece.length ≤ bufLen) :
    writeProc msg piece k 0 = ⟨piece.length, (k + piece.length : ℕ),
      overwrite (List.replicate bufLen nul) k piece⟩ := by
  rw [writeProc, if_neg (by omega), simpleWriteToBuffer_eq hpiece hroom]

/-- The message after a single write. -/
theorem writeProc_msg (msg : List Char) (hs : s ≠ []) (hlen : s.length < bufLen) :
    ∃ rest, (writeProc msg s 0 0).msg = s ++ nul :: rest := by
  obtain ⟨k, hk⟩ : ∃ k, bufLen = s.length + (k + 1) := ⟨bufLen - (s.length + 1), by omega⟩
  have hwrite := writeProc_eq (k := 0) msg hs (by omega)
  have hbytes := overwrite_replicate s (k + 1) []
  rw [List.append_nil, List.append_nil, ← hk, List.replicate_succ] at hbytes
  exact ⟨List.replicate k nul, (congrArg Written.msg hwrite).trans hbytes⟩

/-- **Write, then read.** Whatever the message was: when a string is written in one call, every
round of reads from the beginning gives the string, however many characters each read asks for; and
the first round begins with the first read. -/
theorem write_then_read (msg : List Char) (hs : nul ∉ s) (hpos : 1 ≤ s.length)
    (hlen : s.length < bufLen) (hlengths : ∀ i, 0 < lengths i) :
    offsets (readProc (writeProc msg s 0 0).msg) lengths 0 = some 0 ∧
      ∀ i, offsets (readProc (writeProc msg s 0 0).msg) lengths i = some 0 →
        Round (readProc (writeProc msg s 0 0).msg) lengths i s := by
  obtain ⟨rest, hrest⟩ := writeProc_msg msg (List.length_pos_iff.1 hpos) hlen
  rw [hrest]
  exact ⟨rfl, fun i hi => round_of_offset hs hlengths (Nat.zero_le _) hi⟩

theorem write_then_read_ab :
    offsets (readProc (writeProc loadedMsg ['a', 'b'] 0 0).msg) (fun _ => 1) 0 = some 0 ∧
      ∀ i, offsets (readProc (writeProc loadedMsg ['a', 'b'] 0 0).msg) (fun _ => 1) i = some 0 →
        Round (readProc (writeProc loadedMsg ['a', 'b'] 0 0).msg) (fun _ => 1) i ['a', 'b'] :=
  write_then_read loadedMsg (by decide) (by decide) (by decide) fun _ => Nat.one_pos

/-! ### Pieces -/

/-- The last piece is written behind the others, and these are cleared. -/
theorem writePieces_concat (msg : List Char) (hne : ∀ p ∈ pieces, p ≠ []) (hpiece : piece ≠ [])
    (hroom : k + pieces.flatten.length + piece.length ≤ bufLen) :
    (writePieces msg k (pieces ++ [piece])).msg =
      overwrite (List.replicate bufLen nul) (k + pieces.flatten.length) piece := by
  induction pieces generalizing msg k with
  | nil => exact congrArg Written.msg (writeProc_eq msg hpiece hroom)
  | cons p pieces ih =>
    rw [List.flatten_cons, List.length_append] at hroom ⊢
    have hp := writeProc_eq msg (hne p List.mem_cons_self) (k := k) (by omega)
    rw [List.cons_append, writePieces, hp]
    dsimp only
    rw [ih _ (fun q hq => hne q (List.mem_cons_of_mem p hq)) (by omega), Nat.add_assoc]

/-- What is written behind other characters is not the beginning. -/
theorem overwrite_ne (hk : 0 < k) (hs : nul ∉ s) (hpos : s ≠ []) :
    overwrite (List.replicate bufLen nul) k piece ≠
      overwrite (List.replicate bufLen nul) 0 s := by
  intro h
  have hfirst := congrArg (·[0]?) h
  have hbuf : 0 < bufLen := by decide
  have hlen := List.length_pos_iff.2 hpos
  have hbehind : ¬ (k ≤ 0 ∧ 0 < k + piece.length ∧ 0 < (List.replicate bufLen nul).length) := by
    omega
  have hinside : 0 ≤ 0 ∧ 0 < 0 + s.length ∧ 0 < (List.replicate bufLen nul).length :=
    ⟨le_rfl, by omega, by simpa using hbuf⟩
  simp only [getElem?_overwrite] at hfirst
  rw [if_neg hbehind, if_pos hinside, List.getElem?_replicate, if_pos hbuf] at hfirst
  exact hs (List.mem_of_getElem? hfirst.symm)

/-- **Pieces.** A string that is written in pieces leaves the message that a single write leaves
exactly if there is one piece, or none and the message was empty. -/
theorem pieces_iff (msg : List Char) (hne : ∀ p ∈ pieces, p ≠ []) (hs : nul ∉ pieces.flatten)
    (hlen : pieces.flatten.length < bufLen) :
    (writePieces msg 0 pieces).msg = (writeProc msg pieces.flatten 0 0).msg ↔
      pieces.length = 1 ∨ pieces = [] ∧ msg = List.replicate bufLen nul := by
  rcases List.eq_nil_or_concat pieces with rfl | ⟨init, last, rfl⟩
  · have hempty : (writeProc msg [] 0 0).msg = List.replicate bufLen nul := rfl
    rw [List.flatten_nil, hempty]
    simp [writePieces]
  · rw [List.concat_eq_append] at hne hs hlen ⊢
    have hlast : last ≠ [] := hne last (by simp)
    have hflatten : (init ++ [last]).flatten = init.flatten ++ last := by simp
    rw [hflatten] at hs hlen ⊢
    rw [List.length_append] at hlen
    have hall : init.flatten ++ last ≠ [] := List.append_ne_nil_of_right_ne_nil _ hlast
    have hpieces := writePieces_concat (k := 0) msg
      (fun p hp => hne p (List.mem_append_left _ hp)) hlast (by omega)
    have hsingle := congrArg Written.msg
      (writeProc_eq (k := 0) msg hall (by rw [List.length_append]; omega))
    rw [Nat.cast_zero] at hpieces hsingle
    rw [hpieces, hsingle, Nat.zero_add]
    rcases init with _ | ⟨first, init⟩
    · simp
    · have hfirst : first ≠ [] := hne first (by simp)
      have hbehind : 0 < (first :: init).flatten.length := by
        have := List.length_pos_iff.2 hfirst
        rw [List.flatten_cons, List.length_append]
        omega
      refine iff_of_false (overwrite_ne hbehind hs hall) ?_
      simp

/-- The same string in one piece and in two. -/
theorem pieces_one_two :
    (writePieces loadedMsg 0 [['a', 'b']]).msg = (writeProc loadedMsg ['a', 'b'] 0 0).msg ∧
      (writePieces loadedMsg 0 [['a'], ['b']]).msg ≠ (writeProc loadedMsg ['a', 'b'] 0 0).msg := by
  have hone := @pieces_iff [['a', 'b']] loadedMsg (by decide) (by decide) (by decide)
  have htwo := @pieces_iff [['a'], ['b']] loadedMsg (by decide) (by decide) (by decide)
  exact ⟨hone.2 (.inl rfl), fun h => absurd (htwo.1 h) (by decide)⟩

/-- Of two pieces the first one is lost. -/
theorem pieces_cleared : ¬ ∀ (msg : List Char) (pieces : List (List Char)), msg.length = bufLen →
    (∀ p ∈ pieces, p ≠ []) → nul ∉ pieces.flatten → pieces.flatten.length < bufLen →
      (writePieces msg 0 pieces).msg = (writeProc msg pieces.flatten 0 0).msg := by
  intro hall
  have h := hall loadedMsg [['a'], ['b']] (by decide) (by decide) (by decide) (by decide)
  revert h
  decide

/-! ### Writes that fail -/

variable {buffer : List Char} {offset : ℤ} {uncopied : ℕ}

/-- When a write returns an error or stores nothing. -/
theorem writeProc_ret : (writeProc msg buffer offset uncopied).ret ≤ 0 ↔
    bufLen < buffer.length ∨ offset < 0 ∨ bufLen ≤ offset ∨ buffer = [] ∨
      min buffer.length (bufLen - offset).toNat ≤ uncopied := by
  rw [writeProc]
  split
  · rename_i hlong
    exact iff_of_true (by simp [einval]) (.inl hlong)
  · rename_i hshort
    rw [simpleWriteToBuffer_ret]
    exact ⟨.inr, fun h => h.resolve_left hshort⟩

/-- **Writes that fail.** A write that returns an error or stores nothing leaves the message as it
was exactly if it was too long, or the message was empty. -/
theorem failed_write (msg buffer : List Char) (offset : ℤ) (uncopied : ℕ)
    (hfail : (writeProc msg buffer offset uncopied).ret ≤ 0) :
    (writeProc msg buffer offset uncopied).msg = msg ↔
      bufLen < buffer.length ∨ msg = List.replicate bufLen nul := by
  unfold writeProc at hfail ⊢
  split at hfail
  · rename_i hlong
    rw [if_pos hlong]
    exact iff_of_true rfl (.inl hlong)
  · rename_i hshort
    rw [if_neg hshort, simpleWriteToBuffer_zeroed hfail]
    constructor
    · intro hmsg
      exact .inr hmsg.symm
    · rintro (hlong | hmsg)
      · exact absurd hlong hshort
      · exact hmsg.symm

theorem failed_write_long :
    (writeProc loadedMsg (List.replicate 16 'a') 0 0).msg = loadedMsg ↔
      bufLen < (List.replicate 16 'a').length ∨ loadedMsg = List.replicate bufLen nul :=
  failed_write loadedMsg (List.replicate 16 'a') 0 0 (by decide)

/-- A write at the end of the array stores nothing, and the message is lost. -/
theorem failed_write_clears : ¬ ∀ (msg buffer : List Char) (offset : ℤ) (uncopied : ℕ),
    msg.length = bufLen → (writeProc msg buffer offset uncopied).ret ≤ 0 →
      (writeProc msg buffer offset uncopied).msg = msg := by
  intro hall
  have h := hall loadedMsg ['a'] 15 0 (by decide) (by decide)
  revert h
  decide

end EmbeddedC.KernelBuffer
