import Mathlib.Tactic
import Mathlib.Data.List.TakeWhile

/-!
# Strings in memory

Some memory is the list of its bytes.  A string begins at an offset and ends before the next NUL.

* `text`, `strlen`: the string at the beginning of some memory;
* `overwrite`: consecutive bytes are overwritten; `lastAt`: what is left when the front is
  overwritten again and again;
* `Block`: memory with the history of the offsets that were written to; `Block.write`,
  `Block.strncat`;
* `Block.appendBytes`: bytes that are appended one by one, at consecutive offsets.

Behind the memory there is a NUL, and what is written there is lost.
-/

namespace CString

/-- The character that ends a string. -/
def nul : Char := Char.ofNat 0

/-- The characters before the first NUL. -/
def text (bytes : List Char) : List Char := bytes.takeWhile (· ≠ nul)

def strlen (bytes : List Char) : ℕ := (text bytes).length

/-- The bytes from an offset on are overwritten, as far as there are any. -/
def overwrite (bytes : List Char) (off : ℕ) (new : List Char) : List Char :=
  bytes.take off ++ new.take (bytes.length - off) ++ bytes.drop (off + new.length)

/-- What `strncpy` writes: at most `n` characters, and NULs up to `n` bytes. -/
def strncpy (n : ℕ) (src : List Char) : List Char :=
  text (src.take n) ++ List.replicate (n - (text (src.take n)).length) nul

theorem toNat_ofNat {n : ℕ} (hn : n < 256) : (Char.ofNat n).toNat = n := by
  rw [Char.ofNat, dif_pos (.inl (by omega))]
  rfl

theorem ofNat_eq_nul {n : ℕ} (hn : n < 256) : Char.ofNat n = nul ↔ n = 0 := by
  constructor
  · intro h
    rw [← toNat_ofNat hn, h]
    rfl
  · rintro rfl
    rfl

variable {bytes front rest t : List Char} {c : Char} {off n k : ℕ}

/-! ### Strings -/

@[simp] theorem text_nil : text [] = [] := rfl

theorem nul_notMem_text (bytes : List Char) : nul ∉ text bytes := by
  intro h
  simpa using List.mem_takeWhile_imp h

theorem text_append_of_notMem (h : nul ∉ t) (rest : List Char) :
    text (t ++ rest) = t ++ text rest := by
  refine List.takeWhile_append_of_pos fun c hc => ?_
  simpa using ne_of_mem_of_not_mem hc h

theorem text_cons (hc : c ≠ nul) (bytes : List Char) : text (c :: bytes) = c :: text bytes := by
  simp [text, hc]

@[simp] theorem text_nul_cons (rest : List Char) : text (nul :: rest) = [] := by
  simp [text]

theorem text_append_nul (h : nul ∉ t) (rest : List Char) : text (t ++ nul :: rest) = t := by
  rw [text_append_of_notMem h, text_nul_cons, List.append_nil]

theorem text_of_notMem (h : nul ∉ t) : text t = t := by
  simpa using text_append_of_notMem h []

@[simp] theorem text_singleton (c : Char) : text [c] = if c = nul then [] else [c] := by
  by_cases hc : c = nul <;> simp [text, hc]

theorem text_take (bytes : List Char) (n : ℕ) : text (bytes.take n) = (text bytes).take n := by
  induction bytes generalizing n with
  | nil => simp
  | cons c bytes ih =>
    cases n with
    | zero => simp
    | succ n =>
      by_cases hc : c = nul
      · simp [hc]
      · rw [List.take_succ_cons, text_cons hc, text_cons hc, List.take_succ_cons, ih]

/-- The end of a string. -/
theorem text_drop (hk : k ≤ strlen bytes) : text (bytes.drop k) = (text bytes).drop k := by
  induction k generalizing bytes with
  | zero => rfl
  | succ k ih =>
    cases bytes with
    | nil => rfl
    | cons c bytes =>
      by_cases hc : c = nul
      · simp [strlen, hc] at hk
      · rw [strlen, text_cons hc, List.length_cons] at hk
        rw [text_cons hc, List.drop_succ_cons, List.drop_succ_cons]
        exact ih (Nat.le_of_succ_le_succ hk)

/-- A string ends in its memory if there is a NUL. -/
theorem exists_eq_text_append (h : nul ∈ bytes) : ∃ rest, bytes = text bytes ++ nul :: rest := by
  induction bytes with
  | nil => cases h
  | cons c bytes ih =>
    by_cases hc : c = nul
    · exact ⟨bytes, by simp [hc]⟩
    · obtain ⟨rest, hrest⟩ := ih ((List.mem_cons.1 h).resolve_left (Ne.symm hc))
      refine ⟨rest, ?_⟩
      rw [text_cons hc, List.cons_append, ← hrest]

/-- Behind a NUL nothing is part of the string. -/
theorem text_append_of_mem (h : nul ∈ bytes) (rest : List Char) :
    text (bytes ++ rest) = text bytes := by
  obtain ⟨tail, htail⟩ := exists_eq_text_append h
  calc text (bytes ++ rest) = text (text bytes ++ nul :: (tail ++ rest)) := by
        rw [← List.cons_append, ← List.append_assoc, ← htail]
    _ = text bytes := text_append_nul (nul_notMem_text bytes) _

/-- A string ends where its memory is followed by a NUL. -/
theorem text_concat_nul (bytes : List Char) : text (bytes ++ [nul]) = text bytes := by
  by_cases h : nul ∈ bytes
  · exact text_append_of_mem h _
  · rw [text_append_nul h, text_of_notMem h]

/-- Memory that was zeroed holds an empty string. -/
theorem strlen_zeroed {n : ℕ} (h : 0 < n) (rest : List Char) :
    strlen (List.replicate n nul ++ rest) = 0 := by
  obtain ⟨n, rfl⟩ := Nat.exists_eq_succ_of_ne_zero h.ne'
  simp [List.replicate_succ, strlen]

/-- A string that is shorter than its memory ends in it. -/
theorem nul_mem_take (h : strlen bytes < n) (hn : n ≤ bytes.length) : nul ∈ bytes.take n := by
  have hmem : nul ∈ bytes := by
    by_contra hnot
    rw [strlen, text_of_notMem hnot] at h
    omega
  obtain ⟨rest, hrest⟩ := exists_eq_text_append hmem
  have hnul : bytes[strlen bytes]? = some nul := by
    rw [hrest, strlen, text_append_nul (nul_notMem_text bytes)]
    simp
  refine List.mem_of_getElem? (i := strlen bytes) ?_
  rw [List.getElem?_take_of_lt h, hnul]

theorem length_text_le (bytes : List Char) : (text bytes).length ≤ bytes.length :=
  (List.takeWhile_prefix _).length_le

/-- What follows some bytes does not change their string: it was ended, or nothing was added. -/
theorem text_append_eq_iff (h : (text t).length ≤ bytes.length) :
    text (bytes ++ rest) = text t ↔ text bytes = text t ∧ (nul ∈ bytes ∨ text rest = []) := by
  by_cases hnul : nul ∈ bytes
  · rw [text_append_of_mem hnul]
    exact ⟨fun htext => ⟨htext, .inl hnul⟩, And.left⟩
  · rw [text_append_of_notMem hnul, or_iff_right hnul, text_of_notMem hnul]
    constructor
    · intro htext
      have hlength := congrArg List.length htext
      rw [List.length_append] at hlength
      have hrest : text rest = [] := List.length_eq_zero_iff.1 (by omega)
      rw [hrest, List.append_nil] at htext
      exact ⟨htext, hrest⟩
    · rintro ⟨htext, hrest⟩
      rw [hrest, List.append_nil, htext]

/-- A string is empty where there is a NUL. -/
theorem text_drop_eq_nil (h : k < bytes.length) :
    text (bytes.drop k) = [] ↔ bytes[k]? = some nul := by
  rw [List.drop_eq_getElem_cons h, List.getElem?_eq_getElem h, Option.some.injEq]
  by_cases hc : bytes[k] = nul
  · rw [hc, text_nul_cons]
    exact iff_of_true rfl rfl
  · rw [text_cons hc]
    exact iff_of_false (List.cons_ne_nil _ _) hc

/-! ### Overwriting -/

@[simp] theorem length_overwrite (bytes : List Char) (off : ℕ) (new : List Char) :
    (overwrite bytes off new).length = bytes.length := by
  simp only [overwrite, List.length_append, List.length_take, List.length_drop]
  omega

theorem getElem?_overwrite (bytes new : List Char) (off i : ℕ) : (overwrite bytes off new)[i]? =
    if off ≤ i ∧ i < off + new.length ∧ i < bytes.length then new[i - off]? else bytes[i]? := by
  rw [overwrite]
  by_cases hoff : i < off
  · rw [List.append_assoc, if_neg (by omega)]
    by_cases hlen : i < bytes.length
    · rw [List.getElem?_append_left (by simp; omega), List.getElem?_take_of_lt hoff]
    · rw [List.getElem?_eq_none (by simp; omega), List.getElem?_eq_none (by omega)]
  · by_cases hin : i < off + new.length ∧ i < bytes.length
    · rw [if_pos ⟨by omega, hin⟩, List.getElem?_append_left (by simp; omega),
        List.getElem?_append_right (by simp; omega), List.length_take, Nat.min_eq_left (by omega),
        List.getElem?_take_of_lt (by omega)]
    · rw [if_neg (by omega)]
      by_cases hlen : i < bytes.length
      · rw [List.getElem?_append_right (by simp; omega), List.getElem?_drop]
        congr 1
        simp
        omega
      · rw [List.getElem?_eq_none (by simp; omega), List.getElem?_eq_none (by omega)]

theorem overwrite_overwrite (bytes xs ys : List Char) (off : ℕ) :
    overwrite (overwrite bytes off xs) (off + xs.length) ys = overwrite bytes off (xs ++ ys) := by
  refine List.ext_getElem? fun i => ?_
  simp only [getElem?_overwrite, length_overwrite, List.length_append]
  by_cases hys : off + xs.length ≤ i
  · have : ¬ i < off + xs.length := by omega
    have hle : xs.length ≤ i - off := by omega
    have hoff : off ≤ i := by omega
    simp [hys, this, hoff, List.getElem?_append_right hle, Nat.sub_sub, Nat.add_assoc]
  · by_cases hxs : off ≤ i
    · have hlt : i - off < xs.length := by omega
      have h1 : i < off + xs.length := by omega
      have h2 : i < off + (xs.length + ys.length) := by omega
      simp [hys, hxs, h1, h2, List.getElem?_append_left hlt]
    · simp [hys, hxs]

@[simp] theorem overwrite_nil (bytes : List Char) (off : ℕ) : overwrite bytes off [] = bytes := by
  simp [overwrite]

/-- There are as many bytes as are written. -/
theorem overwrite_append {old new : List Char} (h : old.length = new.length) :
    overwrite (front ++ old ++ rest) front.length new = front ++ new ++ rest := by
  have htake : new.take ((front ++ old ++ rest).length - front.length) = new := by
    refine List.take_of_length_le ?_
    simp only [List.length_append]
    omega
  have hdrop : (front ++ old ++ rest).drop (front.length + new.length) = rest := by
    rw [← h, ← List.length_append, List.drop_left]
  rw [overwrite, htake, hdrop, List.append_assoc front, List.take_left]

/-- A text that is put at the front of memory that was zeroed. -/
theorem overwrite_replicate (new : List Char) (k : ℕ) (rest : List Char) :
    overwrite (List.replicate (new.length + k) nul ++ rest) 0 new =
      new ++ (List.replicate k nul ++ rest) := by
  have hfront : overwrite ([] ++ List.replicate new.length nul ++ (List.replicate k nul ++ rest)) 0
      new = [] ++ new ++ (List.replicate k nul ++ rest) := overwrite_append (by simp)
  rwa [List.nil_append, List.nil_append, ← List.append_assoc (List.replicate _ _),
    ← List.replicate_add] at hfront

/-- NULs that are put into memory that was zeroed. -/
theorem overwrite_nuls (n off k : ℕ) :
    overwrite (List.replicate n nul) off (List.replicate k nul) = List.replicate n nul := by
  refine List.ext_getElem? fun i => ?_
  rw [getElem?_overwrite, List.length_replicate, List.length_replicate]
  split
  · rename_i h
    rw [List.getElem?_replicate, List.getElem?_replicate, if_pos (by omega), if_pos h.2.2]
  · rfl

/-- The bytes at the front of some memory are overwritten. -/
theorem overwrite_front {new : List Char} (h : new.length ≤ bytes.length) :
    overwrite bytes 0 new = new ++ bytes.drop new.length := by
  rw [overwrite, List.take_zero, List.nil_append, Nat.sub_zero, List.take_of_length_le h,
    Nat.zero_add]

/-- The byte at an offset of the last of some pieces of memory that have one. -/
def lastAt (pieces : List (List Char)) (i : ℕ) : Option Char := (pieces.filterMap (·[i]?)).getLast?

theorem lastAt_concat (pieces : List (List Char)) (new : List Char) (i : ℕ) :
    lastAt (pieces ++ [new]) i = new[i]?.or (lastAt pieces i) := by
  rw [lastAt, List.filterMap_append, List.getLast?_append, lastAt]
  cases h : new[i]? <;> simp [h]

theorem length_foldl_overwrite (news : List (List Char)) (bytes : List Char) :
    (news.foldl (fun bytes new => overwrite bytes 0 new) bytes).length = bytes.length := by
  induction news generalizing bytes with
  | nil => rfl
  | cons new news ih => rw [List.foldl_cons, ih, length_overwrite]

/-- The front of some memory is overwritten again and again. -/
theorem getElem?_foldl_overwrite {news : List (List Char)}
    (h : ∀ new ∈ news, new.length ≤ bytes.length) (i : ℕ) :
    (news.foldl (fun bytes new => overwrite bytes 0 new) bytes)[i]? = lastAt (bytes :: news) i := by
  induction news using List.reverseRecOn with
  | nil => simp [lastAt]
  | append_singleton news new ih =>
    have hnew := h new (by simp)
    rw [List.foldl_append, List.foldl_cons, List.foldl_nil, ← List.cons_append, lastAt_concat,
      getElem?_overwrite, length_foldl_overwrite, Nat.sub_zero, Nat.zero_add,
      ih fun new' hnew => h new' (List.mem_append_left _ hnew)]
    split
    · rename_i hi
      rw [List.getElem?_eq_getElem hi.2.1, Option.some_or]
    · rw [List.getElem?_eq_none (by omega), Option.none_or]

theorem take_overwrite {new : List Char} (h : new.length ≤ bytes.length) :
    (overwrite bytes 0 new).take new.length = new := by
  rw [overwrite_front h, List.take_left]

@[simp] theorem length_strncpy (n : ℕ) (src : List Char) : (strncpy n src).length = n := by
  have := (length_text_le (src.take n)).trans (List.length_take_le n src)
  rw [strncpy, List.length_append, List.length_replicate]
  omega

theorem text_append_replicate (ht : nul ∉ t) (k : ℕ) : text (t ++ List.replicate k nul) = t := by
  cases k with
  | zero => simpa using text_of_notMem ht
  | succ k => rw [List.replicate_succ, text_append_nul ht]

theorem text_strncpy (n : ℕ) (src : List Char) : text (strncpy n src) = text (src.take n) :=
  text_append_replicate (nul_notMem_text _) _

/-- A copy of a copy. -/
theorem strncpy_of_take {src : List Char} (h : bytes.take n = strncpy n src) :
    strncpy n bytes = strncpy n src := by
  rw [strncpy, h, text_strncpy]
  rfl

/-- A copy is terminated if the original is, within the size. -/
theorem nul_mem_strncpy : nul ∈ strncpy n bytes ↔ strlen (bytes.take n) < n := by
  simp [strncpy, nul_notMem_text, strlen, Nat.sub_eq_zero_iff_le]

/-- Memory that was zeroed, of which only some is needed, and one NUL. -/
theorem overwrite_zeroed (h : t.length ≤ n) : ∃ rest',
    overwrite (front ++ List.replicate n nul ++ rest) front.length (t ++ [nul]) =
      front ++ t ++ List.replicate (n - t.length) nul ++ rest' := by
  rcases h.eq_or_lt with heq | hlt
  · cases rest with
    | nil =>
      refine ⟨[], ?_⟩
      simp [overwrite, heq]
    | cons c rest =>
      refine ⟨nul :: rest, ?_⟩
      have hstore : overwrite (front ++ (List.replicate n nul ++ [c]) ++ rest) front.length
          (t ++ [nul]) = front ++ (t ++ [nul]) ++ rest := overwrite_append (by simp [heq])
      simpa [heq] using hstore
  · refine ⟨rest, ?_⟩
    obtain ⟨k, rfl⟩ : ∃ k, n = t.length + 1 + k := ⟨n - (t.length + 1), by omega⟩
    have hstore : overwrite (front ++ List.replicate (t.length + 1) nul ++
        (List.replicate k nul ++ rest)) front.length (t ++ [nul]) =
          front ++ (t ++ [nul]) ++ (List.replicate k nul ++ rest) := overwrite_append (by simp)
    have hzeros : List.replicate (t.length + 1 + k) nul =
        List.replicate (t.length + 1) nul ++ List.replicate k nul := List.replicate_add ..
    have hleft : List.replicate (t.length + 1 + k - t.length) nul =
        nul :: List.replicate k nul := by
      rw [Nat.add_assoc, Nat.add_sub_cancel_left, Nat.add_comm, List.replicate_succ]
    rw [hzeros, hleft]
    simpa only [List.append_assoc, List.cons_append, List.nil_append] using hstore

/-! ### Blocks -/

/-- Some memory.  `stores` is the history of the offsets that were written to. -/
structure Block where
  bytes : List Char
  stores : List ℕ
  deriving DecidableEq

namespace Block

variable {b : Block}

def write (b : Block) (off : ℕ) (new : List Char) : Block where
  bytes := overwrite b.bytes off new
  stores := b.stores ++ List.range' off new.length

@[simp] theorem write_nil (b : Block) (off : ℕ) : b.write off [] = b := by
  simp [write]

/-- Consecutive bytes are written one after the other. -/
theorem write_write (b : Block) (off : ℕ) (xs ys : List Char) :
    (b.write off xs).write (off + xs.length) ys = b.write off (xs ++ ys) := by
  simp [write, overwrite_overwrite, ← List.range'_append_1]

/-- `strncat(dest, src, n)`: at most `n` characters and a NUL are written where the string at
`dest` ends. -/
def strncat (b : Block) (dest : ℕ) (src : List Char) (n : ℕ) : Block :=
  b.write (dest + strlen (b.bytes.drop dest)) (text (src.take n) ++ [nul])

/-- Nothing was written outside of the first `size` bytes. -/
def Inside (b : Block) (size : ℕ) : Prop := ∀ o ∈ b.stores, o < size

instance (size : ℕ) : Decidable (b.Inside size) := List.decidableBAll _ _

theorem inside_write {new : List Char} {size : ℕ} : (b.write off new).Inside size ↔
    b.Inside size ∧ (new = [] ∨ off + new.length ≤ size) := by
  simp only [Inside, write, List.mem_append, or_imp, forall_and, List.mem_range'_1]
  refine and_congr_right fun _ => ?_
  constructor
  · intro h
    by_cases hnew : new = []
    · exact .inl hnew
    · have hpos := List.length_pos_iff.2 hnew
      have := h (off + (new.length - 1)) (by omega)
      exact .inr (by omega)
  · rintro (rfl | h) o ho
    · simp at ho
      omega
    · omega

theorem inside_strncat {dest size : ℕ} {src : List Char} : (b.strncat dest src n).Inside size ↔
    b.Inside size ∧
      dest + strlen (b.bytes.drop dest) + (text (src.take n)).length < size := by
  rw [strncat, inside_write]
  simp [Nat.lt_iff_add_one_le, Nat.add_assoc]

/-- A string is appended to one that ends in the block. -/
theorem strncat_bytes {src : List Char} (hbytes : b.bytes = t ++ nul :: rest) (ht : nul ∉ t)
    (hroom : (text (src.take n)).length ≤ rest.length) : (b.strncat 0 src n).bytes =
      t ++ text (src.take n) ++ nul :: rest.drop (text (src.take n)).length := by
  have hstrlen : strlen (b.bytes.drop 0) = t.length := by
    rw [List.drop_zero, hbytes, strlen, text_append_nul ht]
  obtain ⟨old, rest', hrest, hold⟩ : ∃ old rest', rest = old ++ rest' ∧
      old.length = (text (src.take n)).length :=
    ⟨_, _, (List.take_append_drop _ rest).symm, List.length_take_of_le hroom⟩
  have hsplit : b.bytes = t ++ (nul :: old) ++ rest' := by simp [hbytes, hrest]
  have hdrop : rest.drop (text (src.take n)).length = rest' := by
    rw [hrest, ← hold, List.drop_left]
  rw [strncat, write, hstrlen, Nat.zero_add, hdrop]
  dsimp only
  rw [hsplit, overwrite_append (by simp [hold])]
  simp

/-! ### Bytes that are appended one by one -/

/-- `strncat` of every single byte, at consecutive offsets. -/
def appendBytes (b : Block) (off : ℕ) : List Char → Block
  | [] => b
  | c :: cs => (b.strncat off [c] 1).appendBytes (off + 1) cs

theorem appendBytes_append (b : Block) (off : ℕ) (cs cs' : List Char) :
    b.appendBytes off (cs ++ cs') = (b.appendBytes off cs).appendBytes (off + cs.length) cs' := by
  induction cs generalizing b off with
  | nil => rfl
  | cons c cs ih =>
    rw [List.cons_append, appendBytes, appendBytes, ih, List.length_cons, Nat.add_assoc,
      Nat.add_comm 1]

/-- The same, written as a loop. -/
theorem appendBytes_map_range (b : Block) (off n : ℕ) (f : ℕ → Char) :
    b.appendBytes off ((List.range n).map f) =
      (List.range n).foldl (fun b i => b.strncat (off + i) [f i] 1) b := by
  induction n with
  | zero => rfl
  | succ n ih => simp [List.range_succ, appendBytes_append, ih, appendBytes]

/-- A byte that is not the NUL, and the NUL behind it, are written at their offsets or later. -/
theorem Inside.of_appendBytes {size : ℕ} {cs : List Char}
    (h : (b.appendBytes off (cs ++ [c])).Inside size) :
    off + cs.length < size ∧ (c ≠ nul → off + cs.length + 1 < size) := by
  rw [appendBytes_append, appendBytes, appendBytes, inside_strncat] at h
  have hlt := h.2
  refine ⟨by omega, fun hc => ?_⟩
  simp only [List.take_one, List.head?_cons, Option.toList_some, text_singleton, if_neg hc,
    List.length_singleton] at hlt
  omega

/-- What one byte does to memory that was zeroed. -/
theorem strncat_zeroed (hbytes : b.bytes = front ++ List.replicate (n + 1) nul ++ rest) (c : Char) :
    (∃ rest', (b.strncat front.length [c] 1).bytes =
      (front ++ [c]) ++ List.replicate n nul ++ rest') ∧
    ∀ size, (b.strncat front.length [c] 1).Inside size ↔
      b.Inside size ∧ front.length + (if c = nul then 0 else 1) < size := by
  have hstrlen : strlen (b.bytes.drop front.length) = 0 := by
    rw [hbytes, List.append_assoc, List.drop_left, List.replicate_succ, List.cons_append, strlen,
      text_nul_cons, List.length_nil]
  have htext : text ([c].take 1) = if c = nul then [] else [c] := text_singleton c
  constructor
  · have hlength : (text ([c].take 1)).length ≤ n + 1 := by
      rw [htext]
      split <;> simp
    obtain ⟨rest', hrest⟩ : ∃ rest', overwrite (front ++ List.replicate (n + 1) nul ++ rest)
        front.length (text ([c].take 1) ++ [nul]) = front ++ text ([c].take 1) ++
          List.replicate (n + 1 - (text ([c].take 1)).length) nul ++ rest' :=
      overwrite_zeroed hlength
    refine ⟨rest', ?_⟩
    rw [strncat, write, hstrlen, Nat.add_zero]
    dsimp only
    rw [hbytes, hrest, htext]
    by_cases hc : c = nul
    · simp [hc, List.replicate_succ]
    · simp [hc]
  · intro size
    rw [inside_strncat, hstrlen, htext, Nat.add_zero]
    split <;> rfl

/-- In memory that was zeroed every byte gets to its offset. -/
theorem appendBytes_zeroed {cs : List Char}
    (hbytes : b.bytes = front ++ List.replicate n nul ++ rest) (hn : cs.length ≤ n) :
    ∃ rest', (b.appendBytes front.length cs).bytes =
      front ++ cs ++ List.replicate (n - cs.length) nul ++ rest' := by
  induction cs generalizing b front rest n with
  | nil => exact ⟨rest, by simpa [appendBytes] using hbytes⟩
  | cons c cs ih =>
    obtain ⟨n, rfl⟩ : ∃ m, n = m + 1 := ⟨n - 1, by simp at hn; omega⟩
    obtain ⟨rest', hrest⟩ := (strncat_zeroed hbytes c).1
    obtain ⟨rest'', hrest'⟩ := ih hrest (by simpa using hn)
    refine ⟨rest'', ?_⟩
    simpa [appendBytes] using hrest'

/-- In memory that was zeroed nothing is written behind the last byte, and the NUL behind it, if
the last byte is not the NUL itself. -/
theorem inside_appendBytes {cs : List Char} {size : ℕ}
    (hbytes : b.bytes = front ++ List.replicate n nul ++ rest) (hn : cs.length ≤ n)
    (hb : b.Inside size) (hsize : front.length + cs.length ≤ size)
    (hlast : ∀ c ∈ cs.getLast?, c ≠ nul → front.length + cs.length < size) :
    (b.appendBytes front.length cs).Inside size := by
  induction cs generalizing b front rest n with
  | nil => exact hb
  | cons c cs ih =>
    obtain ⟨n, rfl⟩ : ∃ m, n = m + 1 := ⟨n - 1, by simp at hn; omega⟩
    obtain ⟨⟨rest', hrest⟩, hinside⟩ := strncat_zeroed hbytes c
    simp only [List.length_cons] at hn hsize hlast
    have hfirst : (b.strncat front.length [c] 1).Inside size := by
      refine (hinside size).2 ⟨hb, ?_⟩
      by_cases hc : c = nul
      · rw [if_pos hc]
        omega
      · rw [if_neg hc]
        cases cs with
        | nil => exact hlast c rfl hc
        | cons d cs =>
          simp only [List.length_cons] at hsize
          omega
    have hrec := ih hrest (by omega) hfirst (by simp; omega) fun d hd hne => by
      have hlt := hlast d ?_ hne
      · simp only [List.length_append, List.length_singleton]
        omega
      · cases cs with
        | nil => cases hd
        | cons e cs => simpa using hd
    simpa [appendBytes] using hrec

end Block

end CString
