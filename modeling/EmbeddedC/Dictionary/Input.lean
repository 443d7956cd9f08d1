import EmbeddedC.Lib.CString

/-!
# Homework 5: the input of `first_task`

The program reads a name, a surname and a phone number, a line each, and appends an entry to its
dictionary.

* `fgets`, `strchr`, `readField`: one line is read, cut and copied to `tmp_dict`;
* `State.step`, `run`: any number of lines;
* `entryOf`, `entries`: the entries that a sequence of lines should give;
* `first_task`: they are appended exactly if every line fits in `str` and has no NUL;
  `first_task_fails`: a line of 79 characters.

The stream does not end; `realloc` is not the subject here.
-/

namespace EmbeddedC.Dictionary

open CString

/-- `NAME_LEN` -/
def nameLen : ℕ := 20

/-- `SURNAME_LEN` -/
def surnameLen : ℕ := 20

/-- `PHONE_LEN` -/
def phoneLen : ℕ := 12

/-- `STDIN_STR_LEN` -/
def stdinStrLen : ℕ := 80

/-- `struct dictionary` -/
structure Entry where
  name : List Char
  surname : List Char
  phone : List Char
  deriving DecidableEq

/-- The fields in the order in which they are read. -/
inductive Field
  | name
  | surname
  | phone
  deriving DecidableEq

def Field.len : Field → ℕ
  | .name => nameLen
  | .surname => surnameLen
  | .phone => phoneLen

/-- `tmp_dict` after its `memset` -/
def Entry.zeroed : Entry where
  name := List.replicate (nameLen + 1) nul
  surname := List.replicate (surnameLen + 1) nul
  phone := List.replicate (phoneLen + 1) nul

/-- `memcpy` to a field -/
def Entry.copy (e : Entry) (bytes : List Char) : Field → Entry
  | .name => { e with name := overwrite e.name 0 bytes }
  | .surname => { e with surname := overwrite e.surname 0 bytes }
  | .phone => { e with phone := overwrite e.phone 0 bytes }

/-- At most `n` characters, up to the end of the line, and the rest of the stream. -/
def readLine : ℕ → List Char → List Char × List Char
  | 0, input => ([], input)
  | _ + 1, [] => ([], [])
  | n + 1, c :: input =>
    if c = '\n' then ([c], input) else (c :: (readLine n input).1, (readLine n input).2)

/-- `fgets(str, size, stdin)`: the characters that are stored in front of a NUL. -/
def fgets (size : ℕ) (input : List Char) : List Char × List Char := readLine (size - 1) input

/-- `strchr(str, c)`, as an offset -/
def strchr (str : List Char) (c : Char) : Option ℕ := (text str).idxOf? c

/-- A line is read and copied to a field; `none` when `ch_ptr` is a null pointer. -/
def readField (f : Field) (tmpDict : Entry) (input : List Char) : Option (Entry × List Char) :=
  let r := fgets stdinStrLen input
  (strchr r.1 '\n').map fun chPtr =>
    let strLen := if chPtr > f.len then f.len else chPtr
    (tmpDict.copy (r.1.take strLen) f, r.2)

/-- Which field comes next, and the variables. -/
structure State where
  field : Field
  tmpDict : Entry
  dict : List Entry
  input : List Char

namespace State

/-- A field has been read: the next one comes, or the entry is appended. -/
def enter (s : State) (tmpDict : Entry) (input : List Char) : State :=
  match s.field with
  | .name => { s with field := .surname, tmpDict := tmpDict, input := input }
  | .surname => { s with field := .phone, tmpDict := tmpDict, input := input }
  | .phone => ⟨.name, .zeroed, s.dict ++ [tmpDict], input⟩

/-- The loop of `first_task`, up to the next line; `none` when it fails. -/
def step (s : State) : Option State :=
  (readField s.field s.tmpDict s.input).map fun r => s.enter r.1 r.2

/-- The loop, for `n` lines. -/
def run (s : State) : ℕ → Option State
  | 0 => some s
  | n + 1 => (s.run n).bind step

end State

/-- A stream of lines. -/
def stream (lines : List (List Char)) : List Char := lines.flatMap (· ++ ['\n'])

def State.initial (lines : List (List Char)) : State := ⟨.name, .zeroed, [], stream lines⟩

/-- A line, cut to `len` characters, and NULs behind it. -/
def cut (len : ℕ) (line : List Char) : List Char :=
  line.take len ++ List.replicate (len + 1 - (line.take len).length) nul

def entryOf (name surname phone : List Char) : Entry where
  name := cut nameLen name
  surname := cut surnameLen surname
  phone := cut phoneLen phone

/-- An entry for every three lines. -/
def entries : List (List Char) → List Entry
  | name :: surname :: phone :: lines => entryOf name surname phone :: entries lines
  | _ => []

/-- A line that fits in `str`. -/
def Short (line : List Char) : Prop := line.length ≤ 78 ∧ nul ∉ line

variable {line rest : List Char} {lines : List (List Char)} {n : ℕ}

/-! ### One line -/

theorem readLine_short (hline : '\n' ∉ line) (h : line.length < n) (rest : List Char) :
    readLine n (line ++ '\n' :: rest) = (line ++ ['\n'], rest) := by
  induction line generalizing n with
  | nil =>
    obtain ⟨n, rfl⟩ := Nat.exists_eq_succ_of_ne_zero (Nat.ne_zero_of_lt h)
    simp [readLine]
  | cons c line ih =>
    obtain ⟨n, rfl⟩ := Nat.exists_eq_succ_of_ne_zero (Nat.ne_zero_of_lt h)
    have hc : c ≠ '\n' := fun hc => hline (hc ▸ List.mem_cons_self)
    have hrec := ih (fun h => hline (List.mem_cons_of_mem c h)) (Nat.lt_of_succ_lt_succ h)
    simp [readLine, hc, hrec]

theorem readLine_long (hline : '\n' ∉ line) (h : n ≤ line.length) (rest : List Char) :
    (readLine n (line ++ rest)).1 = line.take n := by
  induction line generalizing n with
  | nil =>
    obtain rfl := Nat.le_zero.1 h
    simp [readLine]
  | cons c line ih =>
    cases n with
    | zero => simp [readLine]
    | succ n =>
      have hc : c ≠ '\n' := fun hc => hline (hc ▸ List.mem_cons_self)
      have hrec := ih (fun h => hline (List.mem_cons_of_mem c h)) (Nat.le_of_succ_le_succ h)
      simp [readLine, hc, hrec]

theorem strchr_eq_none {str : List Char} {c : Char} : strchr str c = none ↔ c ∉ text str := by
  simp [strchr]

/-- A line that fits is read and cut. -/
theorem readField_short (f : Field) (tmpDict : Entry) (hline : '\n' ∉ line) (h : Short line)
    (rest : List Char) : readField f tmpDict (line ++ '\n' :: rest) =
      some (tmpDict.copy (line.take f.len) f, rest) := by
  have hread : fgets stdinStrLen (line ++ '\n' :: rest) = (line ++ ['\n'], rest) :=
    readLine_short hline (Nat.lt_succ_of_le h.1) rest
  have hnul : nul ∉ line ++ ['\n'] := by
    rw [List.mem_append, List.mem_singleton]
    rintro (hmem | heq)
    · exact h.2 hmem
    · exact absurd heq (by decide)
  have hpos : strchr (line ++ ['\n']) '\n' = some line.length := by
    rw [strchr, text_of_notMem hnul, List.idxOf?_eq_some_iff]
    refine ⟨by simp, by simp, fun j hj heq => hline ?_⟩
    rw [List.getElem_append_left hj] at heq
    exact heq ▸ List.getElem_mem hj
  rw [readField, hread]
  dsimp only
  rw [hpos, Option.map_some]
  split
  · rw [List.take_append_of_le_length (by omega)]
  · have hall : line.take f.len = line := List.take_of_length_le (by omega)
    rw [hall, List.take_left]

/-- For any other line `ch_ptr` is a null pointer. -/
theorem readField_long (f : Field) (tmpDict : Entry) (hline : '\n' ∉ line) (h : ¬ Short line)
    (rest : List Char) : readField f tmpDict (line ++ '\n' :: rest) = none := by
  rw [readField]
  dsimp only
  rw [Option.map_eq_none_iff, strchr_eq_none]
  by_cases hlen : line.length ≤ 78
  · have hread : fgets stdinStrLen (line ++ '\n' :: rest) = (line ++ ['\n'], rest) :=
      readLine_short hline (Nat.lt_succ_of_le hlen) rest
    have hnul : nul ∈ line := by
      by_contra hnot
      exact h ⟨hlen, hnot⟩
    -- the NUL in the line comes first
    obtain ⟨behind, hbehind⟩ := exists_eq_text_append hnul
    rw [hread]
    dsimp only
    rw [hbehind, List.append_assoc, List.cons_append, text_append_nul (nul_notMem_text line)]
    exact fun hmem => hline ((List.takeWhile_prefix _).subset hmem)
  · have hread : (fgets stdinStrLen (line ++ '\n' :: rest)).1 = line.take 79 :=
      readLine_long hline (Nat.lt_of_not_le hlen) _
    rw [hread]
    exact fun hmem => hline (List.mem_of_mem_take ((List.takeWhile_prefix _).subset hmem))

/-! ### All lines -/

/-- What a short line does to the variables. -/
def State.absorb (s : State) (line : List Char) : State :=
  s.enter (s.tmpDict.copy (line.take s.field.len) s.field) s.input

/-- The variables after `n` short lines. -/
def State.after (lines : List (List Char)) (n : ℕ) : State :=
  { (lines.take n).foldl State.absorb (.initial lines) with input := stream (lines.drop n) }

theorem stream_drop (hn : n < lines.length) :
    stream (lines.drop n) = lines[n] ++ '\n' :: stream (lines.drop (n + 1)) := by
  rw [List.drop_eq_getElem_cons hn, stream, List.flatMap_cons, List.append_assoc]
  rfl

theorem step_after (hn : n < lines.length) (hline : '\n' ∉ lines[n]) (h : Short lines[n]) :
    (State.after lines n).step = some (.after lines (n + 1)) := by
  rw [State.step]
  have hinput : (State.after lines n).input = lines[n] ++ '\n' :: stream (lines.drop (n + 1)) :=
    stream_drop hn
  rw [hinput, readField_short _ _ hline h, Option.map_some, State.after, State.after,
    List.take_succ_eq_append_getElem hn, List.foldl_append]
  congr 1
  generalize (lines.take n).foldl State.absorb (.initial lines) = s
  rcases s with ⟨field, tmpDict, dict, input⟩
  cases field <;> rfl

theorem step_after_long (hn : n < lines.length) (hline : '\n' ∉ lines[n])
    (h : ¬ Short lines[n]) : (State.after lines n).step = none := by
  have hinput : (State.after lines n).input = lines[n] ++ '\n' :: stream (lines.drop (n + 1)) :=
    stream_drop hn
  rw [State.step, hinput, readField_long _ _ hline h, Option.map_none]

/-- Short lines do not make the loop fail. -/
theorem run_short (hlines : ∀ l ∈ lines, '\n' ∉ l) (hn : n ≤ lines.length)
    (h : ∀ l ∈ lines.take n, Short l) : (State.initial lines).run n = some (.after lines n) := by
  induction n with
  | zero => rfl
  | succ n ih =>
    have hlt : n < lines.length := hn
    rw [List.take_succ_eq_append_getElem hlt] at h
    rw [State.run, ih hlt.le fun l hl => h l (List.mem_append_left _ hl), Option.bind_some]
    exact step_after hlt (hlines _ (List.getElem_mem hlt))
      (h _ (List.mem_append_right _ List.mem_cons_self))

/-- A field that was zeroed holds the line, cut. -/
theorem overwrite_zeros (len : ℕ) (line : List Char) :
    overwrite (List.replicate (len + 1) nul) 0 (line.take len) = cut len line := by
  have hlen : (line.take len).length ≤ len := List.length_take_le len line
  have hzeros : (line.take len).length + (len + 1 - (line.take len).length) = len + 1 := by omega
  have hstore := overwrite_replicate (line.take len) (len + 1 - (line.take len).length) []
  rwa [List.append_nil, List.append_nil, hzeros] at hstore

/-- Three lines make an entry. -/
theorem dict_absorb {s : State} (hfield : s.field = .name) (htmp : s.tmpDict = .zeroed)
    (lines : List (List Char)) : (lines.foldl State.absorb s).dict = s.dict ++ entries lines := by
  rcases s with ⟨field, tmpDict, dict, input⟩
  subst hfield htmp
  induction lines using entries.induct generalizing dict with
  | case1 name surname phone lines ih =>
    have hentry : ((((Entry.zeroed.copy (name.take nameLen) .name).copy
        (surname.take surnameLen) .surname).copy (phone.take phoneLen) .phone)) =
          entryOf name surname phone := by
      simp [Entry.copy, Entry.zeroed, entryOf, overwrite_zeros]
    have hrec := ih (dict ++ [entryOf name surname phone])
    rw [entries, List.append_cons, ← hrec, ← hentry]
    rfl
  | case2 lines h =>
    rcases lines with _ | ⟨name, _ | ⟨surname, _ | ⟨phone, lines⟩⟩⟩
    · simp [entries]
    · simp [entries, State.absorb, State.enter]
    · simp [entries, State.absorb, State.enter]
    · exact absurd rfl (h name surname phone lines)

/-- A line that was read has at most 78 characters and no NUL. -/
theorem short_of_run (hlines : ∀ l ∈ lines, '\n' ∉ l) {n : ℕ}
    (hrun : ∀ k ≤ n, ((State.initial lines).run k).isSome = true) (hn : n ≤ lines.length) :
    ∀ l ∈ lines.take n, Short l := by
  induction n with
  | zero => intro l hl; cases hl
  | succ n ih =>
    intro l hl
    have hbefore := ih (fun k hk => hrun k (Nat.le_succ_of_le hk)) (Nat.le_of_succ_le hn)
    rw [List.take_succ_eq_append_getElem hn, List.mem_append, List.mem_singleton] at hl
    rcases hl with hl | rfl
    · exact hbefore l hl
    · by_contra hlong
      obtain ⟨s, hs⟩ := Option.isSome_iff_exists.1 (hrun (n + 1) le_rfl)
      rw [State.run, run_short hlines (Nat.le_of_succ_le hn) hbefore, Option.bind_some,
        step_after_long hn (hlines _ (List.getElem_mem hn)) hlong] at hs
      cases hs

/-- **The input.** For every stream of lines, the loop reads every line and has appended an entry
for every three of them exactly if each line has at most 78 characters and no NUL. -/
theorem first_task (hlines : ∀ l ∈ lines, '\n' ∉ l) :
    (∀ n ≤ lines.length, ∃ s, (State.initial lines).run n = some s ∧
      s.input = stream (lines.drop n) ∧ s.dict = entries (lines.take n)) ↔
        ∀ l ∈ lines, Short l := by
  constructor
  · intro hall
    have hrun : ∀ k ≤ lines.length, ((State.initial lines).run k).isSome = true := by
      intro k hk
      obtain ⟨s, hs, -⟩ := hall k hk
      exact Option.isSome_iff_exists.2 ⟨s, hs⟩
    have hshort := short_of_run hlines hrun le_rfl
    rwa [List.take_length] at hshort
  · intro h n hn
    refine ⟨_, run_short hlines hn fun l hl => h l (List.mem_of_mem_take hl), rfl, ?_⟩
    exact dict_absorb rfl rfl (lines.take n)

theorem first_task_entry :
    (∀ n ≤ 3, ∃ s, (State.initial [['a'], ['b'], ['1']]).run n = some s ∧
      s.input = stream ([['a'], ['b'], ['1']].drop n) ∧
        s.dict = entries ([['a'], ['b'], ['1']].take n)) ↔
      ∀ l ∈ [['a'], ['b'], ['1']], Short l :=
  @first_task [['a'], ['b'], ['1']] (by decide)

/-- A line of 79 characters. -/
theorem first_task_fails : ¬ ∀ lines : List (List Char), (∀ l ∈ lines, '\n' ∉ l) →
    ∀ n ≤ lines.length, ∃ s, (State.initial lines).run n = some s ∧
      s.input = stream (lines.drop n) ∧ s.dict = entries (lines.take n) := by
  intro hall
  obtain ⟨s, hs, -⟩ := hall [List.replicate 79 'a'] (by decide) 1 le_rfl
  have hfails : (State.initial [List.replicate 79 'a']).run 1 = none := by decide +kernel
  rw [hfails] at hs
  cases hs

end EmbeddedC.Dictionary
