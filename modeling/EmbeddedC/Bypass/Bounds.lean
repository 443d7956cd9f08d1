import EmbeddedC.Bypass.Payload

/-!
# Homework 4: the bounds of `string`

`string` has `char_len + hex_len` bytes, if there is memory for them.  Segments of eight digits are
parsed as they are, however many bytes are wanted, and `strncat` writes a NUL behind every byte that
is not one.

* `inside_withPassword`: the password and its NUL;
* `length_all_pieces`: the number of bytes of all segments;
* `Outcome.Inside`, `inside_iff`: when nothing is written behind `string`; `not_inside`: one byte,
  which is not zero.
-/

namespace EmbeddedC.Bypass

open CString

/-- Every byte was stored at an offset below `strLen`. -/
def Outcome.Inside (strLen : ℕ) : Outcome → Prop
  | missing | noMemory => True
  | undefined => False
  | wrote string _ => string.Inside strLen

variable {h p : List Char} {charLen hexLen : ℕ}

/-- The password and its NUL are written inside exactly if there is room for the NUL. -/
theorem inside_withPassword (behind : Behind) (p : List Char) (charLen hexLen : ℕ) :
    (withPassword behind p charLen hexLen).Inside (charLen + hexLen) ↔
      min charLen (strlen (p ++ behind.charText)) < charLen + hexLen := by
  have hstart : (⟨List.replicate (charLen + hexLen) nul ++ behind.string,
      List.range (charLen + hexLen)⟩ : Block).Inside (charLen + hexLen) :=
    fun o ho => List.mem_range.1 ho
  rw [withPassword, Block.inside_strncat, text_take, List.length_take, ← strlen, Nat.zero_add,
    List.drop_zero]
  constructor
  · rintro ⟨-, hlt⟩
    omega
  · intro hlt
    refine ⟨hstart, ?_⟩
    rwa [strlen_zeroed (Nat.zero_lt_of_lt hlt), Nat.zero_add]

/-- The last segment may be longer or shorter than what is wanted. -/
theorem length_all_pieces {hexText : List Char} (hpos : 0 < hexLen)
    (hlen : 2 * hexLen ≤ strlen hexText) : (pieces hexText ((hexLen * 2 + 7) / 8)).length =
      4 * ((hexLen - 1) / 4) + (min 8 (strlen hexText - 8 * ((hexLen - 1) / 4)) + 1) / 2 := by
  have hn : (hexLen * 2 + 7) / 8 = (hexLen - 1) / 4 + 1 := by omega
  rw [hn, pieces_succ, List.length_append, length_pieces (by omega), length_segBytes,
    segStr_eq (by omega), List.length_take, List.length_drop, strlen]

/-- The last byte. -/
theorem getLast?_decode (hpos : 0 < hexLen) (hlen : 2 * hexLen ≤ h.length) :
    (Hex.decode (h.take (2 * hexLen))).getLast? = (Hex.decode h)[hexLen - 1]? := by
  have hlength : (Hex.decode (h.take (2 * hexLen))).length = hexLen := by
    rw [Hex.length_decode, List.length_take_of_le hlen, Nat.mul_div_cancel_left _ two_pos]
  rw [← Hex.decode_take_append h hexLen, List.getElem?_append_left (by omega),
    List.getLast?_eq_getElem?, hlength]

/-- The segments end where the bytes do exactly if no byte too much is appended. -/
theorem whole_iff_length (hdigits : Hex.Digits h) (hlen : 2 * hexLen ≤ h.length)
    (hpos : 0 < hexLen) (behind : List Char) : Whole (h ++ behind) hexLen ↔
      (pieces (h ++ behind) ((hexLen * 2 + 7) / 8)).length ≤ hexLen := by
  have hstrlen := hlen.trans (strlen_of_digits hdigits behind)
  have hall := length_all_pieces hpos hstrlen
  constructor
  · rintro (htotal | hfour) <;> omega
  · intro hlength
    by_cases htotal : strlen (h ++ behind) = 2 * hexLen
    · exact .inl htotal
    · exact .inr (by omega)

theorem le_length_pieces (hdigits : Hex.Digits h) (hlen : 2 * hexLen ≤ h.length)
    (hpos : 0 < hexLen) (behind : List Char) :
    hexLen ≤ (pieces (h ++ behind) ((hexLen * 2 + 7) / 8)).length := by
  have hstrlen := hlen.trans (strlen_of_digits hdigits behind)
  rw [length_all_pieces hpos hstrlen]
  omega

/-- The last byte that is appended is the last one that is wanted. -/
theorem getLast?_pieces (hdigits : Hex.Digits h) (hlen : 2 * hexLen ≤ h.length) (hpos : 0 < hexLen)
    (behind : List Char) (hwhole : Whole (h ++ behind) hexLen) :
    (pieces (h ++ behind) ((hexLen * 2 + 7) / 8)).getLast? =
      (Hex.decode h)[hexLen - 1]?.map Char.ofNat := by
  rw [pieces_eq hdigits hlen hwhole, List.getLast?_map, getLast?_decode hpos hlen]

/-- No byte is written behind `string`, and no NUL behind the last byte. -/
theorem whole_of_inside {behind : Behind} (hdigits : Hex.Digits h) (hlen : 2 * hexLen ≤ h.length)
    (hpos : 0 < hexLen) (hinside : (filled behind p charLen h hexLen).Inside (charLen + hexLen)) :
    Whole (h ++ behind.hexText) hexLen ∧ (Hex.decode h)[hexLen - 1]? = some 0 := by
  have hge := le_length_pieces hdigits hlen hpos behind.hexText
  have hiff := whole_iff_length hdigits hlen hpos behind.hexText
  have hlast := getLast?_pieces hdigits hlen hpos behind.hexText
  rw [filled] at hinside
  rcases List.eq_nil_or_concat (pieces (h ++ behind.hexText) ((hexLen * 2 + 7) / 8)) with
    hnil | ⟨init, c, hcs⟩
  · rw [hnil, List.length_nil] at hge
    omega
  · rw [hcs, List.concat_eq_append] at hinside hge hiff hlast
    rw [List.length_append, List.length_singleton] at hge hiff
    obtain ⟨hbyte, hnul⟩ := Block.Inside.of_appendBytes hinside
    have hwhole := hiff.2 (by omega)
    refine ⟨hwhole, ?_⟩
    have hzero : c = nul := by
      by_contra hne
      have := hnul hne
      omega
    rw [List.getLast?_concat] at hlast
    obtain ⟨b, hb, hbc⟩ := Option.map_eq_some_iff.1 (hlast hwhole).symm
    rw [hb, (ofNat_eq_nul (Hex.lt_of_mem_decode (List.mem_of_getElem? hb))).1 (hbc.trans hzero)]

/-- There is room for the bytes, and no NUL is written behind a zero. -/
theorem inside_of_whole {behind : Behind} (p : List Char) (charLen : ℕ) (hdigits : Hex.Digits h)
    (hlen : 2 * hexLen ≤ h.length) (hpos : 0 < hexLen)
    (hwhole : Whole (h ++ behind.hexText) hexLen) (hzero : (Hex.decode h)[hexLen - 1]? = some 0) :
    (filled behind p charLen h hexLen).Inside (charLen + hexLen) := by
  have hlength : (pieces (h ++ behind.hexText) ((hexLen * 2 + 7) / 8)).length = hexLen :=
    ((whole_iff_length hdigits hlen hpos behind.hexText).1 hwhole).antisymm
      (le_length_pieces hdigits hlen hpos behind.hexText)
  have hpassword : (withPassword behind p charLen hexLen).Inside (charLen + hexLen) :=
    (inside_withPassword behind p charLen hexLen).2 (by omega)
  obtain ⟨rest, hrest⟩ := withPassword_bytes behind p (Nat.add_pos_right charLen hpos)
  have hle : (text ((p ++ behind.charText).take charLen)).length ≤ charLen :=
    (length_text_le _).trans (List.length_take_le ..)
  set front := text ((p ++ behind.charText).take charLen) ++ List.replicate
    (charLen - (text ((p ++ behind.charText).take charLen)).length) nul with hfront
  have hfrontLength : front.length = charLen := by
    rw [hfront, List.length_append, List.length_replicate]
    omega
  have hinside := Block.inside_appendBytes hrest hlength.le hpassword
    (by rw [hfrontLength, hlength]) fun c hc hne => by
      rw [getLast?_pieces hdigits hlen hpos behind.hexText hwhole, hzero] at hc
      cases hc
      exact absurd rfl hne
  rwa [hfrontLength] at hinside

/-- Nothing is written outside of `string` exactly if no byte is wanted and there is room for the
NUL behind the password, or the segments end where the bytes do and the last byte is zero. -/
theorem filled_inside_iff (behind : Behind) (p : List Char) (charLen : ℕ) (hdigits : Hex.Digits h)
    (hlen : 2 * hexLen ≤ h.length) :
    (filled behind p charLen h hexLen).Inside (charLen + hexLen) ↔
      hexLen = 0 ∧ strlen (p ++ behind.charText) < charLen ∨
      0 < hexLen ∧ Whole (h ++ behind.hexText) hexLen ∧ (Hex.decode h)[hexLen - 1]? = some 0 := by
  rcases hexLen.eq_zero_or_pos with rfl | hpos
  · rw [filled]
    change (withPassword behind p charLen 0).Inside (charLen + 0) ↔ _
    rw [inside_withPassword]
    simp
  · constructor
    · intro hinside
      exact .inr ⟨hpos, whole_of_inside hdigits hlen hpos hinside⟩
    · rintro (⟨hzero, -⟩ | ⟨-, hwhole, hlast⟩)
      · exact absurd hzero hpos.ne'
      · exact inside_of_whole p charLen hdigits hlen hpos hwhole hlast

/-- **The bounds.** For every password and every text of hexadecimal digits that is long enough,
nothing is stored outside of `string` exactly if `string` cannot be allocated, or it can and its
bytes stay inside. -/
theorem inside_iff (malloc : Malloc) (behind : Behind) (f p : List Char) (hchar : charLen < 2 ^ 31)
    (hdigits : Hex.Digits h) (hlen : 2 * hexLen ≤ h.length) (hindex : 2 * hexLen + 8 ≤ 2 ^ 31) :
    (main malloc behind ⟨some f, some p, charLen, some h, hexLen⟩).Inside (charLen + hexLen) ↔
      2 ^ 31 ≤ charLen + hexLen ∨ malloc.succeeds (charLen + hexLen) = false ∨
      hexLen = 0 ∧ strlen (p ++ behind.charText) < charLen ∨
      0 < hexLen ∧ Whole (h ++ behind.hexText) hexLen ∧ (Hex.decode h)[hexLen - 1]? = some 0 := by
  have hhex : hexLen < 2 ^ 31 := by omega
  by_cases hfits : charLen + hexLen < 2 ^ 31 ∧ malloc.succeeds (charLen + hexLen) = true
  · obtain ⟨hsum, hmalloc⟩ := hfits
    rw [main_eq behind f p hdigits hlen hindex hsum hmalloc, Outcome.Inside,
      filled_inside_iff behind p charLen hdigits hlen, hmalloc]
    have hnot : ¬ 2 ^ 31 ≤ charLen + hexLen := Nat.not_le.2 hsum
    simp only [hnot, Bool.true_eq_false, false_or]
  · have hfail : 2 ^ 31 ≤ charLen + hexLen ∨ malloc.succeeds (charLen + hexLen) = false := by
      rcases Nat.lt_or_ge (charLen + hexLen) (2 ^ 31) with hsum | hsum
      · exact .inr (Bool.eq_false_iff.2 fun hmalloc => hfits ⟨hsum, hmalloc⟩)
      · exact .inl hsum
    rw [main_noMemory behind f p h hchar hhex fun hsum =>
      hfail.resolve_left (Nat.not_le.2 hsum)]
    refine iff_of_true trivial ?_
    rcases hfail with hsum | hmalloc
    · exact .inl hsum
    · exact .inr (.inl hmalloc)

/-- A zero byte, one that is not zero, and a sum of lengths that is no `int`. -/
theorem inside_iff_bytes :
    (main megabyte ⟨[nul], [nul], []⟩
      ⟨some ['f'], some ['a'], (1 : ℕ), some ['0', '0'], (1 : ℕ)⟩).Inside (1 + 1) ∧
    ¬ (main megabyte ⟨[nul], [nul], []⟩
      ⟨some ['f'], some ['a'], (1 : ℕ), some ['4', '1'], (1 : ℕ)⟩).Inside (1 + 1) ∧
    (main megabyte ⟨[nul], [nul], []⟩
      ⟨some ['f'], some ['a'], (2147483647 : ℕ), some ['4', '1'], (1 : ℕ)⟩).Inside
        (2147483647 + 1) := by
  have hzero := @inside_iff ['0', '0'] 1 1 megabyte ⟨[nul], [nul], []⟩ ['f'] ['a'] (by decide)
    (by decide) le_rfl (by decide)
  have hbyte := @inside_iff ['4', '1'] 1 1 megabyte ⟨[nul], [nul], []⟩ ['f'] ['a'] (by decide)
    (by decide) le_rfl (by decide)
  have hlong := @inside_iff ['4', '1'] 2147483647 1 megabyte ⟨[nul], [nul], []⟩ ['f'] ['a']
    (by decide) (by decide) le_rfl (by decide)
  refine ⟨hzero.2 (.inr (.inr (.inr ⟨one_pos, .inl rfl, rfl⟩))), fun hinside => ?_,
    hlong.2 (.inl (by decide))⟩
  rcases hbyte.1 hinside with hsum | hmalloc | ⟨hnone, -⟩ | ⟨-, -, hlast⟩
  · omega
  · cases hmalloc
  · cases hnone
  · cases hlast

/-- The NUL behind the byte `41` is written behind `string`. -/
theorem not_inside : ¬ ∀ (malloc : Malloc) (behind : Behind) (f p h : List Char)
    (charLen hexLen : ℕ), charLen < 2 ^ 31 → hexLen < 2 ^ 31 → Hex.Digits h →
      2 * hexLen ≤ h.length → 2 * hexLen + 8 ≤ 2 ^ 31 →
        (main malloc behind ⟨some f, some p, charLen, some h, hexLen⟩).Inside
          (charLen + hexLen) := by
  intro hall
  have hinside := hall megabyte ⟨[nul], [nul], []⟩ ['f'] ['a'] ['4', '1'] 1 1 (by decide)
    (by decide) (by decide) (le_refl 2) (by decide)
  rw [main_eq _ _ _ (by decide) (le_refl 2) (by decide) (by decide) rfl,
    Outcome.Inside] at hinside
  revert hinside
  decide

end EmbeddedC.Bypass
