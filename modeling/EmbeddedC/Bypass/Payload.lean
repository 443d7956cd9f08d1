import EmbeddedC.Lib.CString
import EmbeddedC.Lib.Hex

/-!
# Homework 4: the file for the bypass

The program writes a file with a password, padded with zeros, and the bytes that a hexadecimal
text denotes.

* `segBytes`, `segment`: the bytes of eight digits, and how they are appended;
* `main`: the program, from the check of its options on;
* `pieces`, `segments_eq`: the bytes of all segments, one after the other;
* `payload`: the file holds the password and the bytes, when `string` can be allocated;
  `payload_too_long`: lengths whose sum is no `int`.

A byte is a character below 256.  The arguments are copied without their NULs, so what memory holds
behind the copies is part of a run; behind the eight bytes of `seg_str` there is a NUL.  The lengths
are of type `int`, whose sum and product wrap around; no argument is so long that `index` does.
`malloc` can fail for `string`; `fopen` succeeds.
-/

namespace EmbeddedC.Bypass

open CString

/-- The options that were found; a length that is missing is `-1`. -/
structure Options where
  fileName : Option (List Char)
  charText : Option (List Char)
  charLen : ℤ
  hexText : Option (List Char)
  hexLen : ℤ

/-- What an `int` holds after an operation with the result `x`. -/
def wrapInt (x : ℤ) : ℤ := (x + 2 ^ 31) % 2 ^ 32 - 2 ^ 31

/-- An `int` as a `size_t` -/
def sizeT (x : ℤ) : ℕ := (x % 2 ^ 64).toNat

/-- The sizes for which `malloc` succeeds; none is larger than `PTRDIFF_MAX`. -/
structure Malloc where
  succeeds : ℕ → Bool
  ptrdiffMax : ∀ size, 2 ^ 63 ≤ size → succeeds size = false

/-- What memory holds behind `char_text`, `hex_text` and `string`. -/
structure Behind where
  charText : List Char
  hexText : List Char
  string : List Char

/-- `seg_val.bytes[k]` -/
def byte (number : ℤ) (k : ℕ) : Char := Char.ofNat (number / 256 ^ k % 256).toNat

/-- `seg_str`, up to its NUL -/
def segStr (hexText : List Char) (index : ℕ) : List Char := text ((hexText.drop index).take 8)

/-- `seg_len`, after it was rounded up -/
def segLen (hexText : List Char) (index : ℕ) : ℕ :=
  let len := (segStr hexText index).length
  if len % 2 = 0 then len / 2 else (len + 1) / 2

/-- The body of the loop over `index`. -/
def segment (charLen : ℕ) (hexText : List Char) (string : Block) (index : ℕ) : Block :=
  let number := Hex.strtol (segStr hexText index)
  (List.range (segLen hexText index)).foldl (fun string thrdIndex =>
    string.strncat (charLen + index / 2 + thrdIndex)
      [byte number (segLen hexText index - 1 - thrdIndex)] 1) string

/-- The values of `index`: the multiples of 8 below `hex_len * 2`. -/
def indices (hexLen : ℤ) : List ℕ := List.range' 0 (((wrapInt (hexLen * 2)).toNat + 7) / 8) 8

/-- How the program ends. -/
inductive Outcome
  /-- a parameter is missing -/
  | missing
  /-- `malloc` has failed, and the program has exited -/
  | noMemory
  /-- the place of a segment is in front of `string` -/
  | undefined
  /-- `string`, and the bytes of the file -/
  | wrote (string : Block) (file : List Char)

/-- What `main` does with `string`, which has `strLen` bytes. -/
def fill (behind : Behind) (charText : List Char) (charLen : ℤ) (hexText : List Char) (hexLen : ℤ)
    (strLen : ℕ) : Block :=
  -- `memset(string, 0, str_len)`
  let string : Block := ⟨List.replicate strLen nul ++ behind.string, List.range strLen⟩
  let string := string.strncat 0 (charText ++ behind.charText) (sizeT charLen)
  (indices hexLen).foldl (segment charLen.toNat (hexText ++ behind.hexText)) string

def main (malloc : Malloc) (behind : Behind) (options : Options) : Outcome :=
  match options with
  | ⟨some _, some charText, charLen, some hexText, hexLen⟩ =>
    if charLen = -1 ∨ hexLen = -1 then .missing
    else
      let strLen := wrapInt (charLen + hexLen)
      if malloc.succeeds (sizeT strLen) then
        if charLen < 0 ∧ indices hexLen ≠ [] then .undefined
        else
          let string := fill behind charText charLen hexText hexLen strLen.toNat
          .wrote string (string.bytes.take strLen.toNat)
      else .noMemory
  | _ => .missing

variable {malloc : Malloc} {hexText f h p : List Char} {charLen hexLen n index : ℕ} {string : Block}

/-! ### The lengths -/

theorem wrapInt_of_lt (hn : n < 2 ^ 31) : wrapInt n = n := by
  rw [wrapInt]
  omega

theorem sizeT_of_lt (hn : n < 2 ^ 31) : sizeT n = n := by
  rw [sizeT]
  omega

/-- A sum that is no `int` becomes a size that `malloc` refuses. -/
theorem Malloc.overflow (malloc : Malloc) (hchar : charLen < 2 ^ 31) (hhex : hexLen < 2 ^ 31)
    (hsum : 2 ^ 31 ≤ charLen + hexLen) :
    malloc.succeeds (sizeT (wrapInt (charLen + hexLen))) = false := by
  refine malloc.ptrdiffMax _ ?_
  rw [sizeT, wrapInt]
  omega

/-- The loop over `index`, when it stays an `int`. -/
theorem indices_eq (hindex : 2 * hexLen + 8 ≤ 2 ^ 31) :
    indices hexLen = List.range' 0 ((hexLen * 2 + 7) / 8) 8 := by
  have hbound : wrapInt ((hexLen : ℤ) * 2) = (hexLen * 2 : ℕ) := by
    rw [wrapInt]
    omega
  rw [indices, hbound, Int.toNat_natCast]

/-! ### Segments -/

/-- The bytes that are appended for one segment. -/
def segBytes (hexText : List Char) (index : ℕ) : List Char :=
  (List.range (segLen hexText index)).map fun i =>
    byte (Hex.strtol (segStr hexText index)) (segLen hexText index - 1 - i)

theorem segment_eq (charLen : ℕ) (hexText : List Char) (string : Block) (index : ℕ) :
    segment charLen hexText string index =
      string.appendBytes (charLen + index / 2) (segBytes hexText index) := by
  rw [segBytes, Block.appendBytes_map_range]
  rfl

theorem length_segBytes (hexText : List Char) (index : ℕ) :
    (segBytes hexText index).length = ((segStr hexText index).length + 1) / 2 := by
  rw [segBytes, List.length_map, List.length_range, segLen]
  split <;> omega

theorem segStr_eq (hindex : index ≤ strlen hexText) :
    segStr hexText index = ((text hexText).drop index).take 8 := by
  rw [segStr, text_take, text_drop hindex]

/-- The bytes of all segments, one after the other. -/
def pieces (hexText : List Char) (n : ℕ) : List Char :=
  (List.range n).flatMap fun j => segBytes hexText (8 * j)

theorem pieces_succ (hexText : List Char) (n : ℕ) :
    pieces hexText (n + 1) = pieces hexText n ++ segBytes hexText (8 * n) := by
  simp [pieces, List.range_succ]

/-- There are four bytes for every segment with eight digits. -/
theorem length_pieces (h : 8 * n ≤ strlen hexText) : (pieces hexText n).length = 4 * n := by
  induction n with
  | zero => rfl
  | succ n ih =>
    have hlen : (segStr hexText (8 * n)).length = 8 := by
      rw [segStr_eq (by omega), List.length_take_of_le]
      rw [List.length_drop, ← strlen]
      omega
    rw [pieces_succ, List.length_append, ih (by omega), length_segBytes, hlen]
    omega

/-- The segments are appended one after the other. -/
theorem segments_eq (hn : 8 * (n - 1) ≤ strlen hexText) :
    (List.range' 0 n 8).foldl (segment charLen hexText) string =
      string.appendBytes charLen (pieces hexText n) := by
  induction n with
  | zero => rfl
  | succ n ih =>
    have hpos : charLen + (0 + 8 * n) / 2 = charLen + (pieces hexText n).length := by
      rw [length_pieces (by simpa using hn)]
      omega
    rw [List.range'_concat, List.foldl_append, ih (by omega), pieces_succ,
      Block.appendBytes_append, List.foldl_cons, List.foldl_nil, segment_eq, hpos, Nat.zero_add]

theorem byte_natCast (v k : ℕ) : byte v k = Char.ofNat (v / 256 ^ k % 256) := by
  have hcast : (v : ℤ) / 256 ^ k % 256 = ((v / 256 ^ k % 256 : ℕ) : ℤ) := by
    push_cast
    rfl
  rw [byte, hcast, Int.toNat_natCast]

/-- A segment of whole bytes is decoded. -/
theorem segBytes_eq (hdigits : Hex.Digits (segStr hexText index))
    (hlen : (segStr hexText index).length = 2 * n) :
    segBytes hexText index = (Hex.decode (segStr hexText index)).map Char.ofNat := by
  have hsegLen : segLen hexText index = n := by
    rw [segLen, hlen, if_pos (by omega)]
    omega
  rw [← Hex.bytes_value hlen, Hex.bytes, List.map_map, segBytes, hsegLen,
    Hex.strtol_of_digits hdigits]
  refine List.map_congr_left fun i _ => ?_
  rw [byte_natCast]
  rfl

theorem nul_notMem_of_digits (hdigits : Hex.Digits h) : nul ∉ h := by
  intro hmem
  have hnul : Hex.digit nul = none := by decide
  have := hdigits nul hmem
  rw [hnul] at this
  cases this

theorem strlen_of_digits (hdigits : Hex.Digits h) (behind : List Char) :
    h.length ≤ strlen (h ++ behind) := by
  rw [strlen, text_append_of_notMem (nul_notMem_of_digits hdigits), List.length_append]
  omega

/-- The segments end where the text does, or where eight digits do. -/
def Whole (hexText : List Char) (hexLen : ℕ) : Prop :=
  strlen hexText = 2 * hexLen ∨ 4 ∣ hexLen

/-- Then their bytes are those that the first digits denote. -/
theorem pieces_eq (hdigits : Hex.Digits h) (hlen : 2 * hexLen ≤ h.length) {behind : List Char}
    (hwhole : Whole (h ++ behind) hexLen) : pieces (h ++ behind) ((hexLen * 2 + 7) / 8) =
      (Hex.decode (h.take (2 * hexLen))).map Char.ofNat := by
  have htext : text (h ++ behind) = h ++ text behind :=
    text_append_of_notMem (nul_notMem_of_digits hdigits) behind
  have hstrlen := strlen_of_digits hdigits behind
  have hfirst : (text (h ++ behind)).take (2 * hexLen) = h.take (2 * hexLen) := by
    rw [htext, List.take_append_of_le_length hlen]
  have hseg : ∀ j < (hexLen * 2 + 7) / 8, segBytes (h ++ behind) (8 * j) =
      (Hex.decode (((h.take (2 * hexLen)).drop (8 * j)).take 8)).map Char.ofNat := by
    intro j hj
    have hstr : segStr (h ++ behind) (8 * j) = ((h.take (2 * hexLen)).drop (8 * j)).take 8 := by
      rw [segStr_eq (by omega), ← hfirst]
      rcases hwhole with htotal | hfour
      · rw [List.take_of_length_le htotal.le]
      · rw [List.drop_take, List.take_take, Nat.min_eq_left (by omega)]
    have hwholeBytes : (segStr (h ++ behind) (8 * j)).length = 2 * min 4 (hexLen - 4 * j) := by
      rw [hstr, List.length_take, List.length_drop, List.length_take]
      omega
    rw [segBytes_eq _ hwholeBytes, hstr]
    intro c hc
    rw [hstr] at hc
    exact hdigits c (List.mem_of_mem_take (List.mem_of_mem_drop (List.mem_of_mem_take hc)))
  have hall : (h.take (2 * hexLen)).take (2 * 4 * ((hexLen * 2 + 7) / 8)) =
      h.take (2 * hexLen) := by
    refine List.take_of_length_le ?_
    rw [List.length_take]
    omega
  rw [pieces, List.flatMap_congr fun j hj => hseg j (List.mem_range.1 hj), ← hall,
    ← Hex.decode_pieces, List.map_flatMap, hall]

/-! ### The file -/

/-- `string`, with the password. -/
def withPassword (behind : Behind) (charText : List Char) (charLen hexLen : ℕ) : Block :=
  (⟨List.replicate (charLen + hexLen) nul ++ behind.string, List.range (charLen + hexLen)⟩ :
    Block).strncat 0 (charText ++ behind.charText) charLen

theorem withPassword_bytes (behind : Behind) (p : List Char) (hpos : 0 < charLen + hexLen) :
    ∃ rest, (withPassword behind p charLen hexLen).bytes =
      (text ((p ++ behind.charText).take charLen) ++ List.replicate
        (charLen - (text ((p ++ behind.charText).take charLen)).length) nul) ++
          List.replicate hexLen nul ++ rest := by
  set t := text ((p ++ behind.charText).take charLen) with ht
  have hlen : t.length ≤ charLen := (length_text_le _).trans (List.length_take_le ..)
  obtain ⟨rest, hrest⟩ : ∃ rest,
      overwrite ([] ++ List.replicate (charLen + hexLen) nul ++ behind.string) 0 (t ++ [nul]) =
        [] ++ t ++ List.replicate (charLen + hexLen - t.length) nul ++ rest :=
    overwrite_zeroed (by omega)
  refine ⟨rest, ?_⟩
  have hstrlen : strlen ((List.replicate (charLen + hexLen) nul ++ behind.string).drop 0) = 0 :=
    strlen_zeroed hpos behind.string
  have hzeros : List.replicate (charLen + hexLen - t.length) nul =
      List.replicate (charLen - t.length) nul ++ List.replicate hexLen nul := by
    rw [← List.replicate_add, Nat.sub_add_comm hlen]
  rw [withPassword, Block.strncat, Block.write, hstrlen, ← ht]
  simpa [hzeros] using hrest

/-- `string`, with everything. -/
def filled (behind : Behind) (charText : List Char) (charLen : ℕ) (hexText : List Char)
    (hexLen : ℕ) : Block :=
  (withPassword behind charText charLen hexLen).appendBytes charLen
    (pieces (hexText ++ behind.hexText) ((hexLen * 2 + 7) / 8))

theorem fill_eq (behind : Behind) (p : List Char) (hdigits : Hex.Digits h)
    (hlen : 2 * hexLen ≤ h.length) (hindex : 2 * hexLen + 8 ≤ 2 ^ 31) (hchar : charLen < 2 ^ 31) :
    fill behind p charLen h hexLen (charLen + hexLen) = filled behind p charLen h hexLen := by
  have hstrlen := strlen_of_digits hdigits behind.hexText
  rw [fill, indices_eq hindex, sizeT_of_lt hchar, Int.toNat_natCast, filled,
    ← segments_eq (by omega)]
  rfl

/-- The program with all its parameters. -/
theorem main_present (malloc : Malloc) (behind : Behind) (f p h : List Char) (charLen hexLen : ℕ) :
    main malloc behind ⟨some f, some p, charLen, some h, hexLen⟩ =
      if malloc.succeeds (sizeT (wrapInt (charLen + hexLen))) then
        .wrote (fill behind p charLen h hexLen (wrapInt (charLen + hexLen)).toNat)
          ((fill behind p charLen h hexLen (wrapInt (charLen + hexLen)).toNat).bytes.take
            (wrapInt (charLen + hexLen)).toNat)
      else .noMemory := by
  have hpresent : ¬ ((charLen : ℤ) = -1 ∨ (hexLen : ℤ) = -1) := by omega
  have hnonneg : ¬ ((charLen : ℤ) < 0 ∧ indices hexLen ≠ []) := by omega
  rw [main]
  simp only [if_neg hpresent, if_neg hnonneg]

/-- When the sum of the lengths is an `int` for which `malloc` succeeds, `string` is filled. -/
theorem main_eq (behind : Behind) (f p : List Char) (hdigits : Hex.Digits h)
    (hlen : 2 * hexLen ≤ h.length) (hindex : 2 * hexLen + 8 ≤ 2 ^ 31)
    (hsum : charLen + hexLen < 2 ^ 31) (hmalloc : malloc.succeeds (charLen + hexLen) = true) :
    main malloc behind ⟨some f, some p, charLen, some h, hexLen⟩ =
      .wrote (filled behind p charLen h hexLen)
        ((filled behind p charLen h hexLen).bytes.take (charLen + hexLen)) := by
  have hwrap := wrapInt_of_lt hsum
  push_cast at hwrap
  rw [main_present, hwrap, ← Nat.cast_add, sizeT_of_lt hsum, if_pos hmalloc, Int.toNat_natCast,
    fill_eq behind p hdigits hlen hindex (by omega)]

/-- When it is not, nothing is stored. -/
theorem main_noMemory (behind : Behind) (f p h : List Char) (hchar : charLen < 2 ^ 31)
    (hhex : hexLen < 2 ^ 31)
    (hfail : charLen + hexLen < 2 ^ 31 → malloc.succeeds (charLen + hexLen) = false) :
    main malloc behind ⟨some f, some p, charLen, some h, hexLen⟩ = .noMemory := by
  have hmalloc : malloc.succeeds (sizeT (wrapInt (charLen + hexLen))) = false := by
    by_cases hsum : charLen + hexLen < 2 ^ 31
    · have hwrap := wrapInt_of_lt hsum
      push_cast at hwrap
      rw [hwrap, ← Nat.cast_add, sizeT_of_lt hsum]
      exact hfail hsum
    · exact malloc.overflow hchar hhex (Nat.le_of_not_lt hsum)
  rw [main_present, if_neg (Bool.eq_false_iff.1 hmalloc)]

/-- **The payload.** With NULs behind the copies of the arguments and two digits for every byte,
the file holds the password, cut or padded with zeros, and the bytes, if the sum of the lengths is
an `int`, `index` stays one, and `malloc` succeeds. -/
theorem payload {f p h : List Char} (hp : nul ∉ p) (hdigits : Hex.Digits h)
    (hlen : h.length = 2 * hexLen) (hindex : 2 * hexLen + 8 ≤ 2 ^ 31)
    (hsum : charLen + hexLen < 2 ^ 31) (hmalloc : malloc.succeeds (charLen + hexLen) = true)
    (afterP afterH afterString : List Char) :
    ∃ string, main malloc ⟨nul :: afterP, nul :: afterH, afterString⟩
      ⟨some f, some p, charLen, some h, hexLen⟩ = .wrote string
        (p.take charLen ++ List.replicate (charLen - p.length) nul ++
          (Hex.decode h).map Char.ofNat) := by
  have htext : text ((p ++ nul :: afterP).take charLen) = p.take charLen := by
    rw [text_take, text_append_nul hp]
  have hwhole : Whole (h ++ nul :: afterH) hexLen :=
    .inl (by rw [strlen, text_append_nul (nul_notMem_of_digits hdigits), hlen])
  have hpieces := pieces_eq hdigits hlen.ge hwhole
  rw [List.take_of_length_le hlen.le] at hpieces
  have hlength : ((Hex.decode h).map Char.ofNat).length = hexLen := by
    rw [List.length_map, Hex.length_decode, hlen, Nat.mul_div_cancel_left _ two_pos]
  refine ⟨filled ⟨nul :: afterP, nul :: afterH, afterString⟩ p charLen h hexLen, ?_⟩
  rw [main_eq _ f p hdigits hlen.ge hindex hsum hmalloc, filled]
  dsimp only
  rw [hpieces]
  congr 1
  rcases (charLen + hexLen).eq_zero_or_pos with hzero | hpos
  · obtain ⟨rfl, rfl⟩ := Nat.add_eq_zero_iff.1 hzero
    rw [List.length_eq_zero_iff.1 hlength]
    simp
  · obtain ⟨rest, hrest⟩ := withPassword_bytes ⟨nul :: afterP, nul :: afterH, afterString⟩ p hpos
    dsimp only at hrest
    rw [htext, List.length_take] at hrest
    obtain ⟨rest', hrest'⟩ := Block.appendBytes_zeroed hrest hlength.le
    have hpad : charLen - min charLen p.length = charLen - p.length := by omega
    have hfront : (p.take charLen ++ List.replicate (charLen - p.length) nul).length = charLen := by
      rw [List.length_append, List.length_replicate, List.length_take]
      omega
    rw [hpad, hfront] at hrest'
    rw [hrest', hlength, Nat.sub_self, List.replicate_zero, List.append_nil]
    refine List.take_left' ?_
    rw [List.length_append, hfront, hlength]

/-- `malloc` with a megabyte. -/
def megabyte : Malloc where
  succeeds size := size ≤ 2 ^ 20
  ptrdiffMax size hsize := by
    rw [decide_eq_false_iff_not]
    omega

/-- The password `ab` in three bytes, and the bytes `41` and `00`. -/
theorem payload_ab : ∃ string, main megabyte ⟨[nul], [nul], []⟩
    ⟨some ['f'], some ['a', 'b'], (3 : ℕ), some ['4', '1', '0', '0'], (2 : ℕ)⟩ =
      .wrote string ['a', 'b', nul, 'A', nul] :=
  payload (h := ['4', '1', '0', '0']) (by decide) (by decide) (rfl : _ = 2 * 2) (by decide)
    (by decide : 3 + 2 < 2 ^ 31) rfl [] [] []

/-- The sum of the largest `int` and one is negative, and no file is written. -/
theorem payload_too_long : ¬ ∀ (malloc : Malloc) (f p h : List Char) (charLen hexLen : ℕ),
    nul ∉ p → Hex.Digits h → h.length = 2 * hexLen → 2 * hexLen + 8 ≤ 2 ^ 31 →
      charLen < 2 ^ 31 → hexLen < 2 ^ 31 → ∃ string, main malloc ⟨[nul], [nul], []⟩
        ⟨some f, some p, charLen, some h, hexLen⟩ = .wrote string
          (p.take charLen ++ List.replicate (charLen - p.length) nul ++
            (Hex.decode h).map Char.ofNat) := by
  intro hall
  obtain ⟨string, hstring⟩ := hall megabyte ['f'] ['a'] ['4', '1'] 2147483647 1 (by decide)
    (by decide) rfl (by decide) (by decide) (by decide)
  rw [main_noMemory _ _ _ _ (by decide) (by decide) (by decide)] at hstring
  cases hstring

end EmbeddedC.Bypass
