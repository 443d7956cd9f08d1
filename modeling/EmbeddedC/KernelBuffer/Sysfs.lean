import EmbeddedC.Lib.Machine
import EmbeddedC.KernelBuffer.Message

/-!
# Homework 25: the string attribute of the sysfs module

A value of `BUF_LEN` bytes is copied without a NUL behind it.

* `charArrayStore`, `charArrayShow`: the handlers;
* `strAttribute`: the calls, in any order;
* `Copied`: the array is a padded copy of the last value that was not rejected;
* `charArrayShow_text`, `charArrayShow_examined`: what is shown, whatever the memory behind the
  array is;
* `show_stored`: the value is shown, from the array alone, exactly if it is shorter than the array;
  `show_full`: a value that fills the array.
-/

namespace EmbeddedC.KernelBuffer

open CString

/-- `PAGE_SIZE` -/
def pageSize : ℕ := 4096

/-- What a store returns, and the array. -/
structure Stored where
  ret : ℤ
  str : List Char
  deriving DecidableEq

/-- `char_array_store`, for `count` bytes.  The kernel has put a NUL behind them. -/
def charArrayStore (str buf : List Char) : Stored :=
  if buf.length > bufLen then ⟨-einval, str⟩
  else ⟨buf.length, overwrite str 0 (strncpy bufLen (buf ++ [nul]))⟩

/-- What is put into the page, and the number of bytes that were examined. -/
structure Shown where
  page : List Char
  examined : ℕ
  deriving DecidableEq

/-- `char_array_show`: `sysfs_emit` looks for a NUL, also in the memory behind the array, and puts
less than a page. -/
def charArrayShow (str behind : List Char) : Shown where
  page := (text (str ++ behind)).take (pageSize - 1)
  examined := strlen (str ++ behind) + 1

/-- A call of one of the handlers. -/
inductive AttrCall
  | attrShow
  | attrStore (buf : List Char)

/-- The array `str` of the object.  `last` is a history variable: the value of the last store that
was not rejected. -/
structure StrObj where
  str : List Char
  last : List Char
  deriving DecidableEq

def StrObj.store (o : StrObj) (buf : List Char) : StrObj where
  str := (charArrayStore o.str buf).str
  last := if (charArrayStore o.str buf).ret < 0 then o.last else buf

/-- The object, under any calls.  It was allocated by `kzalloc`. -/
def strAttribute : Machine StrObj AttrCall where
  init o := o = ⟨List.replicate bufLen nul, []⟩
  step o
    | .attrShow => some o
    | .attrStore buf => some (o.store buf)

/-- The array is a padded copy of the last value. -/
structure Copied (o : StrObj) : Prop where
  size : o.last.length ≤ bufLen
  bytes : o.str = strncpy bufLen (o.last ++ [nul])

variable {o : StrObj} {str buf behind : List Char}

/-! ### Stores -/

theorem charArrayStore_ret : (charArrayStore str buf).ret < 0 ↔ bufLen < buf.length := by
  unfold charArrayStore
  split
  · rename_i hlong
    exact iff_of_true (by simp [einval]) hlong
  · rename_i hshort
    exact iff_of_false (by simp) hshort

theorem charArrayStore_rejected (h : bufLen < buf.length) :
    (charArrayStore str buf).str = str := by
  rw [charArrayStore, if_pos h]

theorem charArrayStore_str (hstr : str.length = bufLen) (h : buf.length ≤ bufLen) :
    (charArrayStore str buf).str = strncpy bufLen (buf ++ [nul]) := by
  have hsize : (strncpy bufLen (buf ++ [nul])).length = bufLen := length_strncpy _ _
  rw [charArrayStore, if_neg (Nat.not_lt.2 h)]
  dsimp only
  rw [overwrite_front (by omega), List.drop_eq_nil_of_le (by omega), List.append_nil]

theorem Copied.store (h : Copied o) (buf : List Char) : Copied (o.store buf) := by
  have hstr : o.str.length = bufLen := by
    rw [h.bytes, length_strncpy]
  by_cases hlong : bufLen < buf.length
  · -- the value is rejected
    have hsame : o.store buf = o := by
      rw [StrObj.store, charArrayStore_rejected hlong, if_pos (charArrayStore_ret.2 hlong)]
    rw [hsame]
    exact h
  · constructor
    · rw [StrObj.store, if_neg fun hret => hlong (charArrayStore_ret.1 hret)]
      exact Nat.not_lt.1 hlong
    · rw [StrObj.store, if_neg fun hret => hlong (charArrayStore_ret.1 hret)]
      exact charArrayStore_str hstr (Nat.not_lt.1 hlong)

/-- After any calls. -/
theorem copied_of_reachable (h : strAttribute.Reachable o) : Copied o := by
  refine h.invariant ?_ ?_
  · rintro _ rfl
    exact ⟨Nat.zero_le _, rfl⟩
  · intro o call o' _ hcopied hstep
    cases call with
    | attrShow =>
      obtain rfl := Option.some.inj hstep
      exact hcopied
    | attrStore buf =>
      obtain rfl := Option.some.inj hstep
      exact hcopied.store buf

/-! ### Shows -/

theorem Copied.text_take (h : Copied o) :
    text ((o.last ++ [nul]).take bufLen) = text o.last := by
  rw [CString.text_take, text_concat_nul]
  exact List.take_of_length_le ((length_text_le _).trans h.size)

theorem Copied.text_str (h : Copied o) : text o.str = text o.last := by
  rw [h.bytes, text_strncpy, h.text_take]

/-- There is room for the NUL if the value is shorter than the array. -/
theorem Copied.nul_mem_str (h : Copied o) : nul ∈ o.str ↔ strlen o.last < bufLen := by
  rw [h.bytes, nul_mem_strncpy, strlen, h.text_take, strlen]

/-- A value without room for the NUL fills the array. -/
theorem Copied.full (h : Copied o) (hnul : nul ∉ o.str) :
    o.str = text o.last ∧ (text o.last).length = bufLen := by
  have hstr : o.str = text o.last := by
    rw [← h.text_str, text_of_notMem hnul]
  refine ⟨hstr, ?_⟩
  rw [← hstr, h.bytes, length_strncpy]

/-- What is shown. -/
theorem charArrayShow_page (h : Copied o) (behind : List Char) :
    (charArrayShow o.str behind).page = text o.last ↔
      strlen o.last < bufLen ∨ text behind = [] := by
  have hpage : bufLen < pageSize - 1 := by decide
  rw [← h.nul_mem_str, charArrayShow]
  dsimp only
  by_cases hnul : nul ∈ o.str
  · rw [text_append_of_mem hnul, h.text_str]
    refine iff_of_true (List.take_of_length_le ?_) (.inl hnul)
    exact ((length_text_le _).trans h.size).trans hpage.le
  · obtain ⟨hstr, hfull⟩ := h.full hnul
    rw [text_append_of_notMem hnul, or_iff_right hnul, hstr]
    constructor
    · -- the page is longer than the array, so all of what is behind it would be shown
      intro hshow
      have hlength := congrArg List.length hshow
      rw [List.length_take, List.length_append] at hlength
      exact List.length_eq_zero_iff.1 (by omega)
    · intro hbehind
      rw [hbehind, List.append_nil]
      exact List.take_of_length_le (by omega)

/-- The bytes that are examined. -/
theorem charArrayShow_examined (h : Copied o) (behind : List Char) :
    (charArrayShow o.str behind).examined ≤ bufLen ↔ strlen o.last < bufLen := by
  rw [← h.nul_mem_str, charArrayShow]
  dsimp only
  rw [strlen]
  by_cases hnul : nul ∈ o.str
  · rw [text_append_of_mem hnul, h.text_str]
    exact iff_of_true (h.nul_mem_str.1 hnul) hnul
  · obtain ⟨hstr, hfull⟩ := h.full hnul
    rw [text_append_of_notMem hnul, List.length_append, hstr]
    refine iff_of_false ?_ (nul_notMem_text o.last)
    omega

/-- **Shows.** After any calls, and whatever the memory behind the array is: the last value that
was not rejected is shown up to its first NUL, and nothing behind the array is examined, exactly if
it has fewer bytes than the array up to there.  A store that is rejected leaves the array alone. -/
theorem show_stored (h : strAttribute.Reachable o) (behind : List Char) :
    ((charArrayShow o.str behind).page = text o.last ∧
      (charArrayShow o.str behind).examined ≤ bufLen ↔ strlen o.last < bufLen) ∧
    ∀ buf, (charArrayStore o.str buf).ret < 0 → (charArrayStore o.str buf).str = o.str := by
  have hcopied := copied_of_reachable h
  constructor
  · rw [charArrayShow_examined hcopied, charArrayShow_page hcopied]
    constructor
    · intro hshow
      exact hshow.2
    · intro hshort
      exact ⟨.inl hshort, hshort⟩
  · intro buf hret
    exact charArrayStore_rejected (charArrayStore_ret.1 hret)

/-- A store that is accepted, and one that is rejected behind it. -/
theorem show_stored_twice :
    ∃ o, strAttribute.run ⟨List.replicate bufLen nul, []⟩
        [.attrStore "ab\n".toList, .attrStore (List.replicate 16 'a')] = some o ∧
      (charArrayShow o.str [nul]).page = "ab\n".toList ∧
      (charArrayShow o.str [nul]).examined ≤ bufLen ∧
      (charArrayStore o.str (List.replicate 16 'a')).str = o.str := by
  obtain ⟨o, ho, hlast⟩ : ∃ o, strAttribute.run ⟨List.replicate bufLen nul, []⟩
      [.attrStore "ab\n".toList, .attrStore (List.replicate 16 'a')] = some o ∧
      o.last = "ab\n".toList := ⟨_, rfl, rfl⟩
  obtain ⟨hshow, hrejected⟩ := show_stored (Machine.reachable_of_run rfl ho) [nul]
  obtain ⟨hpage, hexamined⟩ := hshow.2 (by rw [hlast]; decide)
  rw [hlast] at hpage
  exact ⟨o, ho, hpage, hexamined, hrejected _ (charArrayStore_ret.2 (by decide))⟩

/-- A value that fills the array is not ended in it. -/
theorem show_full : ¬ ∀ o : StrObj, strAttribute.Reachable o → ∀ behind : List Char,
    (charArrayShow o.str behind).page = text o.last ∧
      (charArrayShow o.str behind).examined ≤ bufLen := by
  intro hall
  have hrun : strAttribute.run ⟨List.replicate bufLen nul, []⟩
      [.attrStore (List.replicate 15 'a')] =
        some ⟨List.replicate 15 'a', List.replicate 15 'a'⟩ := rfl
  have h := hall _ (Machine.reachable_of_run rfl hrun) [nul]
  revert h
  decide

end EmbeddedC.KernelBuffer
