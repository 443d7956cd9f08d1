import EmbeddedC.Interpreter.Parsing

/-!
# Homeworks 6 and 9: lines of commands and separators

* `Words`, `Separator`, `Line`: a line that consists of commands with separators between them;
* `Line.commands`: the parser finds these commands;
* `string_snprintf`, `string_strncpy`: the strings that are read back from the arguments;
* `parse_line`: its commands are in `cmds`, and every index is in range.
-/

namespace EmbeddedC.Interpreter

/-! ### Lines of commands and separators -/

/-- A command as it is written: tokens that are not separators. -/
structure Words (syn : Syntax) where
  name : Text
  args : List Text
  word : ∀ token ∈ name :: args, syn.isSep token = false

/-- A token that ends a command. -/
structure Separator (syn : Syntax) where
  token : Text
  isSep : syn.isSep token = true

/-- Commands with separators between them. -/
structure Line (syn : Syntax) where
  first : Words syn
  rest : List (Separator syn × Words syn)

variable {syn : Syntax}

def Words.tokens (c : Words syn) : List Text := c.name :: c.args

def Words.command (c : Words syn) : Command := ⟨some c.name, c.args⟩

namespace Line

def words (l : Line syn) : List (Words syn) := l.first :: l.rest.map Prod.snd

def tokens (l : Line syn) : List Text :=
  l.first.tokens ++ l.rest.flatMap fun r => r.1.token :: r.2.tokens

/-- Every token fits into its block. -/
def Short (l : Line syn) : Prop :=
  ∀ c ∈ l.words, c.name.length ≤ 14 ∧ ∀ token ∈ c.args, token.length ≤ 19

instance (l : Line syn) : Decidable l.Short :=
  inferInstanceAs (Decidable (∀ c ∈ l.words, _ ∧ _))

end Line

theorem outline_args {args : List Text} (hargs : ∀ token ∈ args, syn.isSep token = false)
    (more : List Text) (o : Outline) :
    syn.outline (args ++ more) o =
      syn.outline more { o with cur := { o.cur with args := o.cur.args ++ args } } := by
  induction args generalizing o with
  | nil => rw [List.append_nil, List.nil_append]
  | cons token args ih =>
    have hsep := hargs token List.mem_cons_self
    have hpipe : syn.isPipe token = false := by
      by_contra hpipe
      rw [syn.isSep_of_isPipe token (Bool.eq_true_of_not_eq_false hpipe)] at hsep
      cases hsep
    rw [List.cons_append, Syntax.outline.eq_def]
    dsimp only
    rw [if_neg (by rw [hsep]; exact Bool.false_ne_true),
      if_neg (by rw [hpipe]; exact Bool.false_ne_true),
      ih (fun t ht => hargs t (List.mem_cons_of_mem _ ht)), Outline.addArg, List.append_assoc]
    rfl

/-- A separator and the command after it. -/
theorem outline_command (r : Separator syn × Words syn) (more : List Text) (o : Outline) :
    syn.outline ((r.1.token :: r.2.tokens) ++ more) o =
      syn.outline more ⟨o.commands, r.2.command,
        if syn.isPipe r.1.token then o.done.length else o.redirCmd⟩ := by
  have hargs : ∀ token ∈ r.2.args, syn.isSep token = false :=
    fun token ht => r.2.word token (List.mem_cons_of_mem _ ht)
  rw [Words.tokens, List.cons_append, List.cons_append, Syntax.outline, if_pos r.1.isSep,
    outline_args hargs]
  by_cases hpipe : syn.isPipe r.1.token = true
  · rw [if_pos hpipe, if_pos hpipe]
    rfl
  · rw [if_neg hpipe, if_neg hpipe]
    rfl

theorem commands_rest (rest : List (Separator syn × Words syn)) (o : Outline) :
    (syn.outline (rest.flatMap fun r => r.1.token :: r.2.tokens) o).commands =
      o.commands ++ rest.map fun r => r.2.command := by
  induction rest generalizing o with
  | nil => rw [List.map_nil, List.append_nil, List.flatMap_nil, Syntax.outline]
  | cons r rest ih =>
    rw [List.flatMap_cons, outline_command, ih, List.map_cons, List.append_cons]
    rfl

/-- The outline of a line begins with its first command. -/
theorem commands_tokens (l : Line syn) :
    syn.commands l.tokens = syn.outline (l.rest.flatMap fun r => r.1.token :: r.2.tokens)
      ⟨[], l.first.command, -1⟩ :=
  outline_args (fun token ht => l.first.word token (List.mem_cons_of_mem _ ht)) _ _

theorem Line.commands (l : Line syn) :
    (syn.commands l.tokens).commands = l.words.map Words.command := by
  rw [commands_tokens, commands_rest, Line.words, List.map_cons, List.map_map]
  rfl

/-! ### Strings -/

theorem cString_append {text : Text} (htext : nul ∉ text) (bytes : Bytes) :
    cString (text.map some ++ some nul :: bytes) = some text := by
  induction text with
  | nil => exact if_pos rfl
  | cons c text ih =>
    obtain ⟨hc, htext⟩ := not_or.1 (mt List.mem_cons.2 htext)
    rw [List.map_cons, List.cons_append, cString, if_neg (Ne.symm hc), ih htext]
    rfl

/-- A terminated string that was written is read back. -/
theorem Holds.string {text : Text} {pad : List Char} {p : Ptr} (h : Holds (text ++ nul :: pad) p)
    (htext : nul ∉ text) : p.string = some text := by
  obtain ⟨block, rest, rfl, -⟩ := h
  rw [Ptr.string, List.map_append, List.append_assoc]
  exact cString_append htext _

theorem string_snprintf {text : Text} {p : Ptr} (h : Holds (snprintfChars defStrSize text) p)
    (hlen : text.length < defStrSize) (htext : nul ∉ text) : p.string = some text := by
  rw [snprintfChars, List.take_of_length_le (by omega)] at h
  exact h.string htext

theorem string_strncpy {text : Text} {p : Ptr} (h : Holds (strncpyChars defStrSize text) p)
    (hlen : text.length < defStrSize) (htext : nul ∉ text) : p.string = some text := by
  obtain ⟨k, hk⟩ : ∃ k, defStrSize - text.length = k + 1 := ⟨defStrSize - text.length - 1, by omega⟩
  rw [strncpyChars, List.take_of_length_le (by omega), hk, List.replicate_succ] at h
  exact h.string htext

/-- The strings of arguments that fit. -/
theorem strings_args {args : List Text} {ptrs : List Ptr}
    (hptrs : List.Forall₂ Holds (args.map (strncpyChars defStrSize)) ptrs)
    (hlen : ∀ token ∈ args, token.length ≤ 19) (hnul : ∀ token ∈ args, nul ∉ token) :
    ptrs.map Ptr.string = args.map some := by
  induction args generalizing ptrs with
  | nil =>
    cases hptrs
    rfl
  | cons token args ih =>
    obtain _ | ⟨hp, hptrs⟩ := hptrs
    have hfits : token.length < defStrSize := Nat.lt_succ_of_le (hlen token List.mem_cons_self)
    have hrest := ih hptrs (fun t ht => hlen t (List.mem_cons_of_mem _ ht))
      fun t ht => hnul t (List.mem_cons_of_mem _ ht)
    rw [List.map_cons, List.map_cons, hrest,
      string_strncpy hp hfits (hnul token List.mem_cons_self)]

/-- The strings of a command whose tokens fit. -/
theorem Words.strings {c : Words syn} {ptrs : List Ptr}
    (hptrs : List.Forall₂ Holds c.command.chars ptrs) (hname : c.name.length ≤ 14)
    (hargs : ∀ token ∈ c.args, token.length ≤ 19) (hnul : ∀ token ∈ c.tokens, nul ∉ token) :
    ptrs.map Ptr.string = (("/bin/".toList ++ c.name) :: c.args).map some := by
  obtain _ | ⟨hp, hptrs⟩ := hptrs
  have hname' : ("/bin/".toList ++ c.name).length < defStrSize := by
    rw [List.length_append]
    exact Nat.lt_succ_of_le (Nat.add_le_add_left hname 5)
  have hnul' : nul ∉ "/bin/".toList ++ c.name := by
    intro hmem
    obtain hmem | hmem := List.mem_append.1 hmem
    · exact absurd hmem (by decide)
    · exact hnul _ List.mem_cons_self hmem
  rw [List.map_cons, List.map_cons, string_snprintf hp hname' hnul',
    strings_args hptrs hargs fun t ht => hnul t (List.mem_cons_of_mem _ ht)]
  rfl

/-! ### The line that is read -/

theorem lineTokens_readLine (input : Text) :
    lineTokens input = Tokens.tokens (· = ' ') (readLine input) := Tokens.strtokCalls_eq le_rfl

/-- `fgets` reads such a line whole, with its newline. -/
theorem lineTokens_eq {content : Text} (hlen : content.length ≤ 78) (hnewline : '\n' ∉ content)
    (more : Text) : lineTokens (content ++ '\n' :: more) =
      Tokens.tokens (· = ' ') (content.takeWhile (· ≠ nul)) := by
  have hread : (content ++ '\n' :: more).take (stdinReadLim - 1) =
      content ++ ('\n' :: more).take (stdinReadLim - 1 - content.length) := by
    rw [List.take_append, List.take_of_length_le (by dsimp only [stdinReadLim]; omega)]
  obtain ⟨k, hk⟩ : ∃ k, stdinReadLim - 1 - content.length = k + 1 :=
    ⟨78 - content.length, by dsimp only [stdinReadLim]; omega⟩
  have hline : (content ++ '\n' :: more.take k).takeWhile (· ≠ '\n') = content := by
    rw [List.takeWhile_append_of_pos, List.takeWhile_cons_of_neg (by decide), List.append_nil]
    intro c hc
    exact decide_eq_true fun h => hnewline (h ▸ hc)
  rw [lineTokens_readLine, readLine, hread, hk, List.take_succ_cons, hline]

theorem nul_not_mem {input token : Text} (h : token ∈ lineTokens input) : nul ∉ token := by
  intro hmem
  rw [lineTokens_readLine] at h
  have := List.mem_takeWhile_imp (Tokens.mem_of_mem_tokens h hmem)
  exact absurd this (by decide)

/-! ### The parser on such a line -/

/-- The store is below the limits that the parser keeps. -/
def Store.Below (s : State) (st : Store) : Prop :=
  match st.target with
  | .params | .cmds => st.index < s.cmdsLim
  | .args i => i < s.cmdsLim ∧ st.index < s.params i
  | .chars i j => i < s.cmdsLim ∧ j < s.params i

/-- The commands of the line are in `cmds`, and every store was in range: of the array as it was
requested, and of the final limits. -/
structure Holding (l : Line syn) (s : State) : Prop where
  curCmd : s.curCmd = l.rest.length
  lim : s.cmdsLim = l.words.length
  args : ∀ (i : ℕ) (c : Words syn), l.words[i]? = some c → ∃ ptrs, s.args i = ptrs ++ [.null] ∧
    ptrs.map Ptr.string = (("/bin/".toList ++ c.name) :: c.args).map some
  inRange : ∀ st ∈ s.stores, st.index < st.size ∧ st.Below s

theorem Finished.below {o : Outline} {s : State} (h : Finished o s) {st : Store}
    (hst : st ∈ s.stores) : st.index < st.size ∧ st.Below s := by
  have hok := h.logged st hst
  refine ⟨hok.inside, ?_⟩
  have hlim : s.cmdsLim = (o.commands.map Command.size).length := by
    rw [h.lim, List.length_map]
  have hparams : ∀ {i n : ℕ}, (o.commands.map Command.size)[i]? = some n →
      i < s.cmdsLim ∧ s.params i = n := by
    intro i n hi
    refine ⟨hlim ▸ (List.getElem?_eq_some_iff.1 hi).1, ?_⟩
    rw [State.params, h.params, List.getElem?_map, hi]
    rfl
  have hplaced := hok.placed
  unfold Store.Below
  cases htarget : st.target with
  | params =>
    rw [htarget] at hplaced
    rw [hlim]
    exact hplaced
  | cmds =>
    rw [htarget] at hplaced
    rw [hlim]
    exact hplaced
  | args i =>
    rw [htarget] at hplaced
    obtain ⟨n, hn, hindex⟩ := hplaced
    obtain ⟨hi, hparam⟩ := hparams hn
    exact ⟨hi, hparam.symm ▸ hindex⟩
  | chars i j =>
    rw [htarget] at hplaced
    obtain ⟨n, hn, hj⟩ := hplaced
    obtain ⟨hi, hparam⟩ := hparams hn
    exact ⟨hi, hparam.symm ▸ hj⟩

/-- Either parser on a line of commands and separators whose tokens fit. -/
theorem holding (l : Line syn) (hshort : l.Short) (hnul : ∀ token ∈ l.tokens, nul ∉ token) :
    Holding l (syn.parse l.tokens) := by
  have hfin := finished syn l.tokens
  have hcommands := l.commands
  have hwords : l.words.length = l.rest.length + 1 := by
    rw [Line.words, List.length_cons, List.length_map]
  have hlength : (syn.commands l.tokens).done.length + 1 = l.rest.length + 1 := by
    have := congrArg List.length hcommands
    rwa [Outline.commands, List.length_append, List.length_map, hwords] at this
  refine ⟨?_, ?_, ?_, fun st hst => hfin.below hst⟩
  · rw [hfin.curCmd]
    omega
  · rw [hfin.lim, hcommands, List.length_map]
  · intro i c hi
    have hcommand : (syn.commands l.tokens).commands[i]? = some c.command := by
      rw [hcommands, List.getElem?_map, hi]
      rfl
    obtain ⟨ptrs, hargs, hptrs⟩ := hfin.args hcommand
    have hmem := List.mem_of_getElem? hi
    obtain ⟨hname, hlen⟩ := hshort c hmem
    refine ⟨ptrs, hargs, Words.strings hptrs hname hlen fun token ht => hnul token ?_⟩
    obtain rfl | hmem := List.mem_cons.1 hmem
    · exact List.mem_append_left _ ht
    · obtain ⟨r, hr, rfl⟩ := List.mem_map.1 hmem
      exact List.mem_append_right _ (List.mem_flatMap.2 ⟨r, hr, List.mem_cons_of_mem _ ht⟩)

/-- **The parser of homework 9.** A line of at most 78 characters that consists of commands and
separators is stored command by command, and every index is in range. -/
theorem parse_line (l : Line thirdTask) (content more : Text) (hlen : content.length ≤ 78)
    (hnewline : '\n' ∉ content)
    (htokens : Tokens.tokens (· = ' ') (content.takeWhile (· ≠ nul)) = l.tokens)
    (hshort : l.Short) : Holding l (thirdTask.parse (lineTokens (content ++ '\n' :: more))) := by
  have hread : lineTokens (content ++ '\n' :: more) = l.tokens :=
    (lineTokens_eq hlen hnewline more).trans htokens
  have hnul : ∀ token ∈ l.tokens, nul ∉ token := fun token ht => nul_not_mem (hread ▸ ht)
  rw [hread]
  exact holding l hshort hnul

/-- `ls -l | wc` -/
def listing : Line thirdTask where
  first := ⟨"ls".toList, ["-l".toList], by decide⟩
  rest := [(⟨"|".toList, by decide⟩, ⟨"wc".toList, [], by decide⟩)]

theorem parse_listing :
    Holding listing (thirdTask.parse (lineTokens ("ls -l | wc".toList ++ '\n' :: []))) :=
  parse_line listing "ls -l | wc".toList [] (by decide) (by decide) (by decide) (by decide)

end EmbeddedC.Interpreter
