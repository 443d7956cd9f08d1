import EmbeddedC.Interpreter.Layout

/-!
# Homeworks 6 and 9: what the parser stores

* `Command`, `Outline`: the commands of a line, as far as it has been read;
* `Parsed`: they are what is stored; `Parsed.addArg`, `Parsed.nextCmd`: what a token adds;
* `parsed_outline`: the loop over the tokens;
* `Finished`, `finished`: what is stored after the line, whatever it is.
-/

namespace EmbeddedC.Interpreter

open Layout (fresh)

/-! ### Commands -/

/-- A command: its first token, which may be missing, and the others. -/
structure Command where
  name : Option Text
  args : List Text

/-- What is written to the arguments of a command. -/
def Command.chars (c : Command) : List (List Char) :=
  snprintfChars defStrSize ("/bin/".toList ++ percentS c.name) ::
    c.args.map (strncpyChars defStrSize)

/-- `cmds_params[i]` for a command -/
def Command.size (c : Command) : ℕ := c.args.length + 2

/-- The tokens that were read, as commands: those that have ended, and the current one. -/
structure Outline where
  done : List Command
  cur : Command
  redirCmd : ℤ

namespace Outline

def addArg (o : Outline) (token : Text) : Outline :=
  { o with cur := { o.cur with args := o.cur.args ++ [token] } }

def nextCmd (o : Outline) (token : Option Text) : Outline :=
  { o with done := o.done ++ [o.cur], cur := ⟨token, []⟩ }

def sizes (o : Outline) : List ℕ := o.done.map Command.size ++ [o.cur.size]

end Outline

/-- The commands of the tokens after the first one. -/
def Syntax.outline (syn : Syntax) : List Text → Outline → Outline
  | [], o => o
  | token :: tokens, o =>
    let o := if syn.isPipe token then { o with redirCmd := o.done.length } else o
    if syn.isSep token then
      match tokens with
      | [] => o.nextCmd none
      | name :: tokens => syn.outline tokens (o.nextCmd (some name))
    else syn.outline tokens (o.addArg token)

/-! ### What is stored -/

/-- The block that is pointed to begins with characters that were written to it. -/
def Holds (new : List Char) (p : Ptr) : Prop :=
  ∃ block rest, p = .to block (new.map some ++ rest) ∧ (new.map some ++ rest).length = defStrSize

/-- The array of a command that has ended. -/
def Command.Ended (c : Command) (a : Arr Ptr) : Prop :=
  ∃ ptrs, a.elems = ptrs ++ [.null] ∧ List.Forall₂ Holds c.chars ptrs

/-- The array of the current command: its last element is kept free for `NULL`. -/
def Command.Open (c : Command) (a : Arr Ptr) : Prop :=
  ∃ ptrs block, a.elems = ptrs ++ [fresh block] ∧ List.Forall₂ Holds c.chars ptrs

/-- What the parser has stored is the outline of what it has read. -/
structure Parsed (o : Outline) (s : State) : Prop where
  arrays : ∃ xs a, Layout (o.done.map Command.size) o.cur.size xs a s ∧
    List.Forall₂ Command.Ended o.done xs ∧ o.cur.Open a
  curParam : s.curParam = o.cur.args.length + 1
  lim : s.cmdsLim = o.done.length + 1
  redirCmd : s.redirCmd = o.redirCmd
  logged : Logged o.sizes s
  blocks : s.nextBlock = s.returned.length + 2 + (o.sizes.map (· + 1)).sum

theorem holds_write {new : List Char} (hnew : new.length ≤ defStrSize) (block : ℕ) :
    Holds new ((fresh block).write new) := by
  have hlen : (new.map some ++ (List.replicate defStrSize none).drop new.length).length =
      defStrSize := by
    rw [List.length_append, List.length_map, List.length_drop, List.length_replicate]
    omega
  refine ⟨block, (List.replicate defStrSize none).drop new.length, ?_, hlen⟩
  rw [fresh, Ptr.write, List.take_of_length_le (by rw [hlen, List.length_replicate])]

@[simp]
theorem Command.length_chars (c : Command) : c.chars.length = c.args.length + 1 := by
  rw [Command.chars, List.length_cons, List.length_map]

theorem length_snprintfChars {size : ℕ} (hsize : 0 < size) (text : Text) :
    (snprintfChars size text).length ≤ size := by
  rw [snprintfChars, List.length_append, List.length_take, List.length_singleton]
  omega

theorem snprintfChars_ne_nil (size : ℕ) (text : Text) : snprintfChars size text ≠ [] := by
  rw [snprintfChars]
  exact List.concat_ne_nil _ _

theorem length_strncpyChars (size : ℕ) (text : Text) : (strncpyChars size text).length = size := by
  rw [strncpyChars, List.length_append, List.length_take, List.length_replicate]
  omega

theorem Command.Open.length {c : Command} {a : Arr Ptr} (h : c.Open a) :
    a.elems.length = c.size := by
  obtain ⟨ptrs, block, helems, hptrs⟩ := h
  rw [helems, List.length_append, ← hptrs.length_eq, c.length_chars]
  rfl

/-- An argument is written, and the next one is kept free. -/
theorem Command.Open.addArg {c : Command} {a : Arr Ptr} (h : c.Open a) (token : Text)
    (b b' : ℕ) : { c with args := c.args ++ [token] }.Open
      ⟨b, (a.elems ++ [fresh b']).modify (c.args.length + 1)
        (Ptr.write (strncpyChars defStrSize token))⟩ := by
  obtain ⟨ptrs, block, helems, hptrs⟩ := h
  have hlen : c.args.length + 1 = ptrs.length := by rw [← hptrs.length_eq, c.length_chars]
  refine ⟨ptrs ++ [(fresh block).write (strncpyChars defStrSize token)], b', ?_, ?_⟩
  · dsimp only
    rw [helems, hlen, List.append_assoc, List.append_assoc, List.cons_append,
      List.modify_append_cons]
    rfl
  · have hchars : { c with args := c.args ++ [token] }.chars =
        c.chars ++ [strncpyChars defStrSize token] := by
      rw [Command.chars, List.map_append]
      rfl
    rw [hchars]
    exact List.rel_append hptrs (.cons (holds_write (length_strncpyChars ..).le block) .nil)

/-- The argument that is kept free. -/
theorem Command.Open.last {c : Command} {a : Arr Ptr} (h : c.Open a) :
    ∃ block, a.elems[c.args.length + 1]? = some (fresh block) := by
  obtain ⟨ptrs, block, helems, hptrs⟩ := h
  refine ⟨block, ?_⟩
  rw [helems, ← c.length_chars, hptrs.length_eq, List.getElem?_concat_length]

/-- `NULL` is written to the argument that is kept free. -/
theorem Command.Open.setNull {c : Command} {a : Arr Ptr} (h : c.Open a) :
    c.Ended ⟨a.block, a.elems.set (c.args.length + 1) .null⟩ := by
  obtain ⟨ptrs, block, helems, hptrs⟩ := h
  refine ⟨ptrs, ?_, hptrs⟩
  dsimp only
  rw [helems, ← c.length_chars, hptrs.length_eq, List.set_concat]

/-- The first argument is written. -/
theorem Command.open_start (name : Option Text) (b block block' : ℕ) :
    Command.Open ⟨name, []⟩ ⟨b, [fresh block, fresh block'].modify 0
      (Ptr.write (snprintfChars defStrSize ("/bin/".toList ++ percentS name)))⟩ :=
  ⟨[_], block', rfl, .cons (holds_write (length_snprintfChars (by decide) _) block) .nil⟩

/-! ### One token -/

variable {o : Outline} {s : State}

theorem Outline.sizes_addArg (o : Outline) (token : Text) :
    (o.addArg token).sizes = o.done.map Command.size ++ [o.cur.size + 1] := by
  rw [Outline.sizes, Outline.addArg, Command.size, List.length_append]
  rfl

theorem Outline.sizes_nextCmd (o : Outline) (token : Option Text) :
    (o.nextCmd token).sizes = o.sizes ++ [defParamsNum] := by
  rw [Outline.sizes, Outline.nextCmd, List.map_append]
  rfl

/-- An argument is added to what is stored. -/
theorem Parsed.addArg (h : Parsed o s) (token : Text) :
    Parsed (o.addArg token) (s.addArg token) := by
  obtain ⟨xs, a, hlay, hdone, hopen⟩ := h.arrays
  -- the array of a command is always full when an argument is added
  have hfull : s.params s.curCmd - 1 ≤ s.curParam := by
    rw [hlay.params_cur, h.curParam, Command.size]
    omega
  have hstate : s.addArg token = { s.growArgs.writeChars s.growArgs.curCmd s.curParam
      (strncpyChars defStrSize token) with curParam := s.curParam + 1 } := by
    rw [State.addArg, if_pos hfull]
    rfl
  obtain ⟨hgrown, hlogged⟩ := hlay.growArgs h.logged hopen.length
  obtain ⟨hnext, hreturned⟩ := hlay.blocks_growArgs
  have hsize : (o.addArg token).cur.size = o.cur.size + 1 := by
    rw [Outline.addArg, Command.size, List.length_append]
    rfl
  have hchars := length_strncpyChars defStrSize token
  have hwrite := hgrown.writeChars s.curParam (strncpyChars defStrSize token)
  obtain ⟨block, hlast⟩ := hopen.last
  have hnew : strncpyChars defStrSize token ≠ [] :=
    List.ne_nil_of_length_pos (by rw [hchars]; decide)
  have hlogwrite := hgrown.logged_writeChars hlogged (j := s.curParam) (p := fresh block)
    (by
      rw [h.curParam]
      exact List.getElem?_concat_eq_some.2 (.inl hlast))
    (by rw [h.curParam, Command.size]; omega) hnew (by rw [hchars]; rfl)
  rw [hstate]
  refine ⟨⟨xs, _, ?_, hdone, hopen.addArg token s.nextBlock (s.nextBlock + 1)⟩, ?_, h.lim,
    h.redirCmd, ?_, ?_⟩
  · rw [hsize, ← h.curParam]
    exact ⟨hwrite.params, hwrite.cmds, hwrite.curCmd, hwrite.length⟩
  · change s.curParam + 1 = (o.cur.args ++ [token]).length + 1
    rw [h.curParam, List.length_append]
    rfl
  · rw [o.sizes_addArg]
    exact hlogwrite
  · change s.growArgs.nextBlock = s.growArgs.returned.length + 2 + _
    rw [hnext, hreturned, h.blocks, o.sizes_addArg, Outline.sizes]
    simp only [List.map_append, List.sum_append, List.map_cons, List.map_nil, List.sum_singleton]
    omega

/-- The current command ends, and the next one is started. -/
theorem Parsed.nextCmd (h : Parsed o s) (token : Option Text) :
    Parsed (o.nextCmd token) (s.nextCmd token) := by
  obtain ⟨xs, a, hlay, hdone, hopen⟩ := h.arrays
  have hlen := hopen.length
  -- and so is the array of the commands when a command ends
  have hfull : s.cmdsLim ≤ s.curCmd + 1 := by
    rw [h.lim, hlay.curCmd, List.length_map]
  have hended := hlay.setArg s.curParam .null
  have hlogended := hlay.logged_setArg h.logged (j := s.curParam) (p := .null)
    (by rw [hlen, h.curParam, Command.size]; omega) hlen.le
    (by rw [hlen, h.curParam, Command.size]; omega)
  let t : State := { s.endCmd with curCmd := s.curCmd + 1, curParam := 1 }
  have hstate : s.nextCmd token = t.growCmds.startCmd token :=
    congrArg (State.startCmd · token) (if_pos hfull)
  have hcurCmd : t.curCmd = (o.done.map Command.size).length + 1 := by rw [← hlay.curCmd]
  obtain ⟨hgrown, hlogged⟩ :=
    Layout.growCmds (s := t) hended.params hended.cmds hcurCmd hended.length hlogended
  obtain ⟨hnext, hreturned, hparam, hredir⟩ := Layout.growCmds_frame t
  let path : Text := "/bin/".toList ++ percentS token
  have hwrite := hgrown.writeChars 0 (snprintfChars defStrSize path)
  have hlogwrite := hgrown.logged_writeChars hlogged (j := 0) rfl (by decide)
    (snprintfChars_ne_nil defStrSize path) (length_snprintfChars (by decide) path)
  have hdones : (o.done ++ [o.cur]).map Command.size = o.sizes := List.map_append ..
  rw [hstate]
  refine ⟨⟨xs ++ [⟨a.block, a.elems.set s.curParam .null⟩], _, ?_,
    List.rel_append hdone (.cons ?_ .nil),
    Command.open_start token (t.nextBlock + 2) (t.nextBlock + 3) (t.nextBlock + 4)⟩,
    hparam, ?_, ?_, ?_, ?_⟩
  · rw [Outline.nextCmd, hdones]
    exact hwrite
  · rw [h.curParam]
    exact hopen.setNull
  · change s.curCmd + 1 + 1 = (o.done ++ [o.cur]).length + 1
    rw [hlay.curCmd, List.length_append, List.length_map]
    rfl
  · exact hredir.trans h.redirCmd
  · rw [o.sizes_nextCmd]
    exact hlogwrite
  · change t.growCmds.nextBlock = t.growCmds.returned.length + 2 + _
    rw [hnext, hreturned, o.sizes_nextCmd, List.map_append, List.sum_append]
    change s.nextBlock + 5 = s.returned.length + 2 + 2 + _
    rw [h.blocks]
    simp only [List.map_cons, List.map_nil, List.sum_singleton, defParamsNum]
    omega

/-! ### A whole line -/

/-- The array of the first command is there before anything is read. -/
theorem parsed_initial (token : Option Text) :
    Parsed ⟨[], ⟨token, []⟩, -1⟩ (State.initial.startCmd token) := by
  let s : State := {
    cmdsLim := defCmdsLim
    cmdsParams := ⟨1, List.replicate defCmdsLim none⟩
    cmds := ⟨0, List.replicate defCmdsLim none⟩
    curCmd := 0
    curParam := 1
    redirCmd := -1
    nextBlock := 2
    returned := []
    stores := [] }
  have hlog : Logged ([] ++ [defParamsNum]) (s.setParams 0 defParamsNum) := by
    refine Logged.log (s := s) (fun st hst => by cases hst) ?_
    exact ⟨Nat.zero_lt_one, fun _ => by decide, Nat.zero_lt_one⟩
  obtain ⟨hlay, hlogged⟩ := @Layout.initCmd [] [] (s.setParams 0 defParamsNum) rfl rfl rfl rfl hlog
  let path : Text := "/bin/".toList ++ percentS token
  have hlogwrite := hlay.logged_writeChars hlogged (j := 0) rfl (by decide)
    (snprintfChars_ne_nil defStrSize path) (length_snprintfChars (by decide) path)
  exact ⟨⟨[], _, hlay.writeChars 0 _, .nil, Command.open_start token 2 3 4⟩, rfl, rfl, rfl,
    hlogwrite, rfl⟩

/-- A token that redirects is recorded. -/
theorem Parsed.redirect (h : Parsed o s) (isPipe : Bool) :
    Parsed (if isPipe then { o with redirCmd := o.done.length } else o)
      (if isPipe then { s with redirCmd := s.curCmd } else s) := by
  cases isPipe with
  | false => exact h
  | true =>
    obtain ⟨xs, a, hlay, hdone, hopen⟩ := h.arrays
    refine ⟨⟨xs, a, ⟨hlay.params, hlay.cmds, hlay.curCmd, hlay.length⟩, hdone, hopen⟩, h.curParam,
      h.lim, ?_, h.logged, h.blocks⟩
    change (s.curCmd : ℤ) = _
    rw [hlay.curCmd, List.length_map]
    rfl

/-- What is stored follows the tokens. -/
theorem parsed_outline (syn : Syntax) (tokens : List Text) (h : Parsed o s) :
    Parsed (syn.outline tokens o) (syn.parseLoop tokens s) := by
  induction tokens, o using Syntax.outline.induct syn generalizing s with
  | case1 o => exact h
  | case2 token o hsep =>
    rw [Syntax.outline, Syntax.parseLoop, if_pos hsep, if_pos hsep]
    exact (h.redirect _).nextCmd none
  | case3 token o o' hsep name tokens =>
    rename_i ih
    rw [Syntax.outline, Syntax.parseLoop, if_pos hsep, if_pos hsep]
    exact ih ((h.redirect _).nextCmd (some name))
  | case4 token tokens o o' hsep =>
    rename_i ih
    rw [Syntax.outline.eq_def, Syntax.parseLoop.eq_def]
    dsimp only
    rw [if_neg hsep, if_neg hsep]
    exact ih ((h.redirect _).addArg token)

/-- The commands of a line. -/
def Syntax.commands (syn : Syntax) (tokens : List Text) : Outline :=
  syn.outline tokens.tail ⟨[], ⟨tokens.head?, []⟩, -1⟩

/-- The commands of an outline. -/
def Outline.commands (o : Outline) : List Command := o.done ++ [o.cur]

/-- All commands have ended. -/
structure Finished (o : Outline) (s : State) : Prop where
  curCmd : s.curCmd = o.done.length
  lim : s.cmdsLim = o.commands.length
  redirCmd : s.redirCmd = o.redirCmd
  params : s.cmdsParams.elems = (o.commands.map Command.size).map some
  arrays : ∃ xs, s.cmds.elems = xs.map some ∧ List.Forall₂ Command.Ended o.commands xs
  logged : Logged (o.commands.map Command.size) s
  blocks : s.nextBlock = s.returned.length + 2 + (o.commands.map (Command.size · + 1)).sum

/-- The last command ends. -/
theorem Parsed.endCmd (h : Parsed o s) : Finished o s.endCmd := by
  obtain ⟨xs, a, hlay, hdone, hopen⟩ := h.arrays
  have hlen := hopen.length
  have hsizes : o.commands.map Command.size = o.sizes := List.map_append ..
  have hended := hlay.setArg s.curParam .null
  have hlogged := hlay.logged_setArg h.logged (j := s.curParam) (p := .null)
    (by rw [hlen, h.curParam, Command.size]; omega) hlen.le
    (by rw [hlen, h.curParam, Command.size]; omega)
  refine ⟨?_, ?_, h.redirCmd, ?_, ⟨xs ++ [⟨a.block, a.elems.set s.curParam .null⟩], ?_,
    List.rel_append hdone (.cons ?_ .nil)⟩, ?_, ?_⟩
  · change s.curCmd = _
    rw [hlay.curCmd, List.length_map]
  · change s.cmdsLim = _
    rw [h.lim, Outline.commands, List.length_append]
    rfl
  · rw [hsizes, Outline.sizes, List.map_append]
    exact hended.params
  · rw [List.map_append]
    exact hended.cmds
  · rw [h.curParam]
    exact hopen.setNull
  · rw [hsizes]
    exact hlogged
  · change s.nextBlock = s.returned.length + 2 + _
    rw [h.blocks, ← hsizes, List.map_map]
    rfl

/-- What is stored after a whole line, whatever it is. -/
theorem finished (syn : Syntax) (tokens : List Text) :
    Finished (syn.commands tokens) (syn.parse tokens) :=
  (parsed_outline syn _ (parsed_initial _)).endCmd

/-- The array of a command. -/
theorem Finished.args {o : Outline} {s : State} (h : Finished o s) {i : ℕ} {c : Command}
    (hi : o.commands[i]? = some c) :
    ∃ ptrs, s.args i = ptrs ++ [.null] ∧ List.Forall₂ Holds c.chars ptrs := by
  obtain ⟨xs, hcmds, hxs⟩ := h.arrays
  obtain ⟨hlt, hget⟩ := List.getElem?_eq_some_iff.1 hi
  have hlt' : i < xs.length := hxs.length_eq ▸ hlt
  obtain ⟨ptrs, helems, hptrs⟩ := (List.forall₂_iff_get.1 hxs).2 i hlt hlt'
  refine ⟨ptrs, ?_, by simpa [hget] using hptrs⟩
  rw [State.args, hcmds, List.getElem?_map, List.getElem?_eq_getElem hlt']
  exact helems

end EmbeddedC.Interpreter
