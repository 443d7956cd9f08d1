import Mathlib.Algebra.Order.BigOperators.Group.List
import EmbeddedC.Interpreter.Parsing

/-!
# Homework 6: the memory of the command interpreter

`malloc` and `realloc` are called with numbers of elements, so that every store to an array goes
beyond the bytes of its block.  `NULL` is written over the pointer to a block that `_cleanup` does
then not free.

* `Safe`: the stores are inside their blocks, the arguments are the tokens, and every block is freed
  once;
* `not_inside`, `not_freed_once`: neither the first nor the last is so for any line;
* `storage`: no line is parsed safely; `storage_ls`: the line `ls`.
-/

namespace EmbeddedC.Interpreter

/-- The store ends inside the bytes that were requested. -/
def Store.Inside (st : Store) : Prop := (st.index + 1) * st.target.width ≤ st.size

/-- Every block is given back once, to `realloc` or by `_cleanup`, and nothing else is. -/
def FreedOnce (s : State) : Prop := (s.returned ++ s.cleanup).Perm (List.range s.nextBlock)

/-- The arguments of every command are its tokens, as strings, and `NULL`. -/
def ArgsAre (o : Outline) (s : State) : Prop :=
  ∀ (i : ℕ) (c : Command), o.commands[i]? = some c → ∃ ptrs, s.args i = ptrs ++ [.null] ∧
    ptrs.map Ptr.string = (("/bin/".toList ++ percentS c.name) :: c.args).map some

/-- What is expected of the memory of the parser. -/
structure Safe (o : Outline) (s : State) : Prop where
  inside : ∀ st ∈ s.stores, st.Inside
  args : ArgsAre o s
  freed : FreedOnce s

variable {o : Outline} {s : State}

/-- No store to an array of elements is inside its block. -/
theorem Finished.not_inside (h : Finished o s) {st : Store} (hst : st ∈ s.stores)
    (hwidth : st.target.width ≠ 1) : ¬ st.Inside :=
  Nat.not_le.2 ((h.logged st hst).beyond hwidth)

/-! ### What `_cleanup` frees -/

/-- The blocks of a command's arguments: the block that `NULL` was written over is not there. -/
theorem Finished.length_args (h : Finished o s) {i : ℕ} {c : Command}
    (hi : o.commands[i]? = some c) :
    ((List.range (s.params i)).reverse.filterMap fun j => (s.arg i j).block?).length < c.size := by
  obtain ⟨ptrs, hargs, hptrs⟩ := h.args hi
  have hlen : ptrs.length + 1 = c.size := by
    rw [← hptrs.length_eq, c.length_chars]
    rfl
  have hparams : s.params i = c.size := by
    rw [State.params, h.params, List.getElem?_map, List.getElem?_map, hi]
    rfl
  have hnull : s.arg i ptrs.length = .null := by
    rw [State.arg, hargs, List.getElem?_concat_length]
    rfl
  rw [hparams]
  conv_rhs => rw [← List.length_range (n := c.size), ← List.length_reverse]
  refine List.length_filterMap_lt_length_iff_exists.2 ⟨ptrs.length, ?_, by rw [hnull]; rfl⟩
  rw [List.mem_reverse, List.mem_range]
  omega

/-- The sum over the positions of a list is the sum over the list. -/
theorem sum_range_getElem? {α : Type} (l : List α) (f : α → ℕ) :
    ((List.range l.length).map fun i => ((l[i]?).map f).getD 0).sum = (l.map f).sum := by
  congr 1
  refine List.ext_getElem (by simp) fun i h₁ h₂ => ?_
  simp only [List.length_map] at h₂
  simp [List.getElem?_eq_getElem h₂]

/-- A block is lost with every command. -/
theorem Finished.length_cleanup (h : Finished o s) :
    s.cleanup.length ≤ (o.commands.map Command.size).sum + 2 := by
  rw [State.cleanup, List.length_append, List.length_flatMap, h.lim,
    ← sum_range_getElem? o.commands Command.size]
  refine Nat.add_le_add_right (List.sum_le_sum fun i hi => ?_) 2
  have hlt := List.mem_range.1 hi
  have hlost := h.length_args (List.getElem?_eq_getElem hlt)
  have harray : (((s.cmds.elems[i]?).join.map Arr.block).toList).length ≤ 1 := by
    cases (s.cmds.elems[i]?).join <;> simp
  rw [List.length_append, List.getElem?_eq_getElem hlt, Option.map_some, Option.getD_some]
  omega

/-- Some block is never freed. -/
theorem Finished.not_freed_once (h : Finished o s) : ¬ FreedOnce s := by
  intro hfreed
  have hlen := hfreed.length_eq
  have hcleanup := h.length_cleanup
  have hpos : 0 < o.commands.length := by
    rw [Outline.commands, List.length_append]
    exact Nat.lt_add_left _ Nat.zero_lt_one
  have hsum : (o.commands.map (Command.size · + 1)).sum =
      (o.commands.map Command.size).sum + o.commands.length := by
    rw [List.sum_map_add, List.map_const', List.sum_replicate, smul_eq_mul, mul_one]
  rw [List.length_append, List.length_range, h.blocks, hsum] at hlen
  omega

/-! ### The whole program -/

/-- The last store of the parser is `cmds[cur_cmd][cur_param] = NULL`. -/
theorem exists_store (syn : Syntax) (tokens : List Text) :
    ∃ st ∈ (syn.parse tokens).stores, st.target.width ≠ 1 := by
  refine ⟨_, List.mem_append_right _ List.mem_cons_self, fun h => ?_⟩
  cases h

/-- **The memory of homework 6.** For no line is everything stored inside the blocks and every block
freed once: every store to an array goes beyond its block, and some block is not freed. -/
theorem storage (input : Text) :
    (∀ st ∈ (secondTask.parse (lineTokens input)).stores, st.target.width ≠ 1 → ¬ st.Inside) ∧
      ¬ FreedOnce (secondTask.parse (lineTokens input)) ∧
      ¬ Safe (secondTask.commands (lineTokens input)) (secondTask.parse (lineTokens input)) := by
  have hfin := finished secondTask (lineTokens input)
  refine ⟨fun st hst hwidth => hfin.not_inside hst hwidth, hfin.not_freed_once, fun hsafe => ?_⟩
  exact hfin.not_freed_once hsafe.freed

/-- Neither is so for `ls`. -/
theorem storage_ls :
    (∃ st ∈ (secondTask.parse (lineTokens "ls\n".toList)).stores, ¬ st.Inside) ∧
      ¬ Safe (secondTask.commands (lineTokens "ls\n".toList))
        (secondTask.parse (lineTokens "ls\n".toList)) := by
  have hfin := finished secondTask (lineTokens "ls\n".toList)
  obtain ⟨st, hst, hwidth⟩ := exists_store secondTask (lineTokens "ls\n".toList)
  refine ⟨⟨st, hst, hfin.not_inside hst hwidth⟩, fun hsafe => ?_⟩
  exact hfin.not_inside hst hwidth (hsafe.inside st hst)

end EmbeddedC.Interpreter
