import EmbeddedC.Lib.Slots
import EmbeddedC.Interpreter.Parser

/-!
# Homeworks 6 and 9: the arrays of the parser

* `Store.Ok`, `Logged`: where the stores go;
* `Layout`: the arrays, with the ones of the current command last;
* `Layout.growArgs`, `Layout.growCmds`: one more argument, one more command.
-/

namespace EmbeddedC.Interpreter

/-! ### Stores -/

/-- The bytes of an element, where pointers have 8 and integers 4. -/
def Target.width : Target → ℕ
  | .params => 4
  | .cmds | .args _ => 8
  | .chars _ _ => 1

/-- What is known of a store when the arrays of arguments have `sizes`: it is in range, counted in
elements, and a store to an array of elements ends after the bytes that were requested. -/
structure Store.Ok (sizes : List ℕ) (st : Store) : Prop where
  inside : st.index < st.size
  beyond : st.target.width ≠ 1 → st.size < (st.index + 1) * st.target.width
  placed : match st.target with
    | .params | .cmds => st.index < sizes.length
    | .args i => ∃ n, sizes[i]? = some n ∧ st.index < n
    | .chars i j => ∃ n, sizes[i]? = some n ∧ j < n

/-- Every store so far is as described. -/
def Logged (sizes : List ℕ) (s : State) : Prop := ∀ st ∈ s.stores, st.Ok sizes

theorem Store.Ok.mono {sizes sizes' : List ℕ} {st : Store} (h : st.Ok sizes)
    (hle : ∀ (i n : ℕ), sizes[i]? = some n → ∃ m, sizes'[i]? = some m ∧ n ≤ m)
    (hlen : sizes.length ≤ sizes'.length) : st.Ok sizes' := by
  refine ⟨h.inside, h.beyond, ?_⟩
  have hplaced := h.placed
  split at hplaced
  · exact hplaced.trans_le hlen
  · exact hplaced.trans_le hlen
  · obtain ⟨n, hn, hindex⟩ := hplaced
    obtain ⟨m, hm, hnm⟩ := hle _ n hn
    exact ⟨m, hm, hindex.trans_le hnm⟩
  · obtain ⟨n, hn, hj⟩ := hplaced
    obtain ⟨m, hm, hnm⟩ := hle _ n hn
    exact ⟨m, hm, hj.trans_le hnm⟩

theorem Logged.log {sizes : List ℕ} {s : State} (h : Logged sizes s) {st : Store}
    (hst : st.Ok sizes) : Logged sizes (s.log st) := by
  intro st' hst'
  obtain hst' | rfl := (List.mem_append.1 hst').imp_right List.mem_singleton.1
  · exact h st' hst'
  · exact hst

/-- The current command gets one more parameter. -/
theorem Logged.succ {ns : List ℕ} {n : ℕ} {s : State} (h : Logged (ns ++ [n]) s) :
    Logged (ns ++ [n + 1]) s := by
  refine fun st hst => (h st hst).mono (fun i m hm => ?_) (by simp)
  obtain hm | ⟨rfl, rfl⟩ := List.getElem?_concat_eq_some.1 hm
  · exact ⟨m, List.getElem?_concat_eq_some.2 (.inl hm), le_rfl⟩
  · exact ⟨n + 1, List.getElem?_concat_length, Nat.le_succ n⟩

/-- There is one more command. -/
theorem Logged.concat {sizes : List ℕ} {n : ℕ} {s : State} (h : Logged sizes s) :
    Logged (sizes ++ [n]) s := fun st hst =>
  (h st hst).mono (fun _ m hm => ⟨m, List.getElem?_concat_eq_some.2 (.inl hm), le_rfl⟩) (by simp)

/-! ### Arrays -/

/-- The arrays of the current command are the last ones: `n` is its number of parameters and `a` its
array of arguments. -/
structure Layout (ns : List ℕ) (n : ℕ) (xs : List (Arr Ptr)) (a : Arr Ptr) (s : State) : Prop where
  params : s.cmdsParams.elems = ns.map some ++ [some n]
  cmds : s.cmds.elems = xs.map some ++ [some a]
  curCmd : s.curCmd = ns.length
  length : xs.length = ns.length

namespace Layout

variable {ns : List ℕ} {n : ℕ} {xs : List (Arr Ptr)} {a : Arr Ptr} {s : State}

theorem params_cur (h : Layout ns n xs a s) : s.params s.curCmd = n := by
  have hlen : s.curCmd = (ns.map some).length := by rw [List.length_map, h.curCmd]
  rw [State.params, h.params, hlen, List.getElem?_concat_length]
  rfl

theorem elems_cur (h : Layout ns n xs a s) : s.cmds.elems[s.curCmd]? = some (some a) := by
  have hlen : s.curCmd = (xs.map some).length := by rw [List.length_map, h.length, h.curCmd]
  rw [h.cmds, hlen, List.getElem?_concat_length]

theorem args_cur (h : Layout ns n xs a s) : s.args s.curCmd = a.elems := by
  rw [State.args, h.elems_cur]
  rfl

/-- An update of the current command's array. -/
theorem modify_cur (h : Layout ns n xs a s) (f : Option (Arr Ptr) → Option (Arr Ptr)) :
    s.cmds.elems.modify s.curCmd f = xs.map some ++ [f (some a)] := by
  have hlen : s.curCmd = (xs.map some).length := by rw [List.length_map, h.length, h.curCmd]
  rw [h.cmds, hlen, List.modify_concat]

theorem setArg (h : Layout ns n xs a s) (j : ℕ) (p : Ptr) :
    Layout ns n xs ⟨a.block, a.elems.set j p⟩ (s.setArg s.curCmd j p) :=
  ⟨h.params, h.modify_cur _, h.curCmd, h.length⟩

theorem writeChars (h : Layout ns n xs a s) (j : ℕ) (new : List Char) :
    Layout ns n xs ⟨a.block, a.elems.modify j (Ptr.write new)⟩ (s.writeChars s.curCmd j new) :=
  ⟨h.params, h.modify_cur _, h.curCmd, h.length⟩

/-- A store at or near the end of the current command's array. -/
theorem logged_setArg (h : Layout ns n xs a s) (hlog : Logged (ns ++ [n]) s) {j : ℕ} {p : Ptr}
    (hj : j < a.elems.length) (hn : a.elems.length ≤ n) (hend : a.elems.length ≤ j + 2) :
    Logged (ns ++ [n]) (s.setArg s.curCmd j p) := by
  refine hlog.log ?_
  rw [h.args_cur, h.curCmd]
  exact ⟨hj, fun _ => by dsimp only [Target.width]; omega,
    n, List.getElem?_concat_length, hj.trans_le hn⟩

/-- Characters for the current command. -/
theorem logged_writeChars (h : Layout ns n xs a s) (hlog : Logged (ns ++ [n]) s) {j : ℕ}
    {new : List Char} {p : Ptr} (hp : a.elems[j]? = some p) (hn : j < n) (hnew : new ≠ [])
    (hroom : new.length ≤ p.size) : Logged (ns ++ [n]) (s.writeChars s.curCmd j new) := by
  refine hlog.log ?_
  have harg : s.arg s.curCmd j = p := by rw [State.arg, h.args_cur, hp, Option.getD_some]
  have hpos := List.length_pos_iff.2 hnew
  rw [harg, h.curCmd]
  exact ⟨by dsimp only; omega, fun hw => absurd rfl hw, n, List.getElem?_concat_length, hn⟩

/-- A fresh argument. -/
def fresh (block : ℕ) : Ptr := .to block (List.replicate defStrSize none)

theorem mallocArg (h : Layout ns n xs a s) (j : ℕ) :
    Layout ns n xs ⟨a.block, a.elems.set j (fresh s.nextBlock)⟩ (s.mallocArg s.curCmd j) :=
  setArg (s := { s with nextBlock := s.nextBlock + 1 }) ⟨h.params, h.cmds, h.curCmd, h.length⟩ j _

theorem logged_mallocArg (h : Layout ns n xs a s) (hlog : Logged (ns ++ [n]) s) {j : ℕ}
    (hj : j < a.elems.length) (hn : a.elems.length ≤ n) (hend : a.elems.length ≤ j + 2) :
    Logged (ns ++ [n]) (s.mallocArg s.curCmd j) :=
  logged_setArg (s := { s with nextBlock := s.nextBlock + 1 })
    ⟨h.params, h.cmds, h.curCmd, h.length⟩ hlog hj hn hend

theorem logged_setParams (h : Layout ns n xs a s) (hlog : Logged (ns ++ [n]) s) (m : ℕ) :
    Logged (ns ++ [n]) (s.setParams s.curCmd m) := by
  refine hlog.log ?_
  have hlen : s.cmdsParams.elems.length = ns.length + 1 := by
    rw [h.params, List.length_append, List.length_map]
    rfl
  rw [hlen, h.curCmd]
  refine ⟨Nat.lt_succ_self _, fun _ => ?_, ?_⟩
  · dsimp only [Target.width]
    omega
  · dsimp only
    rw [List.length_append]
    exact Nat.lt_succ_self _

/-- The current command's array grows by a fresh argument. -/
theorem growArgs (h : Layout ns n xs a s) (hlog : Logged (ns ++ [n]) s) (hn : a.elems.length = n) :
    Layout ns (n + 1) xs ⟨s.nextBlock, a.elems ++ [fresh (s.nextBlock + 1)]⟩ s.growArgs ∧
      Logged (ns ++ [n + 1]) s.growArgs := by
  have hset : Layout ns (n + 1) xs a (s.setParams s.curCmd (n + 1)) := by
    refine ⟨?_, h.cmds, h.curCmd, h.length⟩
    have hlen : s.curCmd = (ns.map some).length := by rw [List.length_map, h.curCmd]
    change s.cmdsParams.elems.set s.curCmd (some (n + 1)) = _
    rw [h.params, hlen, List.set_concat]
  have hrealloc : Layout ns (n + 1) xs ⟨s.nextBlock, a.elems ++ [.unset]⟩
      ((s.setParams s.curCmd (n + 1)).reallocArgs s.curCmd (n + 1)) := by
    refine ⟨hset.params, ?_, hset.curCmd, hset.length⟩
    refine (hset.modify_cur _).trans ?_
    rw [Option.map_some, resize, List.take_of_length_le (by omega), hn, Nat.add_sub_cancel_left]
    rfl
  have hlen : (a.elems ++ [Ptr.unset]).length = n + 1 := by rw [List.length_append, hn]; rfl
  have hgrown := hrealloc.mallocArg n
  have hlogged := hrealloc.logged_mallocArg (j := n) (h.logged_setParams hlog (n + 1)).succ
    (by dsimp only; omega) (by dsimp only; omega) (by dsimp only; omega)
  dsimp only at hgrown
  rw [← hn, List.set_concat, hn] at hgrown
  unfold State.growArgs
  dsimp only
  rw [h.params_cur, hset.params_cur]
  exact ⟨hgrown, hlogged⟩

/-- One block more is in use, and one was given to `realloc`. -/
theorem blocks_growArgs (h : Layout ns n xs a s) :
    s.growArgs.nextBlock = s.nextBlock + 2 ∧
      s.growArgs.returned.length = s.returned.length + 1 := by
  refine ⟨rfl, ?_⟩
  change (s.returned ++ ((s.cmds.elems[s.curCmd]?).join.map Arr.block).toList).length = _
  rw [h.elems_cur, List.length_append]
  rfl

/-- The array of arguments is allocated in an element of `cmds` that is not set yet. -/
theorem initCmd (hparams : s.cmdsParams.elems = ns.map some ++ [some defParamsNum])
    (hcmds : s.cmds.elems = xs.map some ++ [none]) (hcurCmd : s.curCmd = ns.length)
    (hlength : xs.length = ns.length) (hlog : Logged (ns ++ [defParamsNum]) s) :
    Layout ns defParamsNum xs ⟨s.nextBlock, [fresh (s.nextBlock + 1), fresh (s.nextBlock + 2)]⟩
      (s.initCmd s.curCmd) ∧ Logged (ns ++ [defParamsNum]) (s.initCmd s.curCmd) := by
  have hlen : s.curCmd = (xs.map some).length := by rw [List.length_map, hlength, hcurCmd]
  have hset : Layout ns defParamsNum xs ⟨s.nextBlock, [.unset, .unset]⟩
      (s.mallocArgs s.curCmd defParamsNum) := by
    refine ⟨hparams, ?_, hcurCmd, hlength⟩
    change s.cmds.elems.set s.curCmd _ = _
    rw [hcmds, hlen, List.set_concat]
    rfl
  have hlogset : Logged (ns ++ [defParamsNum]) (s.mallocArgs s.curCmd defParamsNum) := by
    refine hlog.log ?_
    have hsize : s.cmds.elems.length = s.curCmd + 1 := by rw [hcmds, hlen, List.length_append]; rfl
    rw [hsize, hcurCmd]
    refine ⟨Nat.lt_succ_self _, fun _ => ?_, ?_⟩
    · dsimp only [Target.width]
      omega
    · dsimp only
      rw [List.length_append]
      exact Nat.lt_succ_self _
  have hn : s.params s.curCmd = defParamsNum := by
    rw [State.params, hparams, hcurCmd, ← @List.length_map _ _ ns some,
      List.getElem?_concat_length]
    rfl
  rw [State.initCmd, hn]
  have hfirst := hset.mallocArg 0
  have hlogfirst := hset.logged_mallocArg hlogset (j := 0) Nat.zero_lt_two le_rfl le_rfl
  exact ⟨hfirst.mallocArg 1,
    hfirst.logged_mallocArg hlogfirst Nat.one_lt_two le_rfl (Nat.le_succ 2)⟩

/-- Three blocks more are in use, and nothing else changes. -/
theorem initCmd_frame {i : ℕ} (hn : s.params i = defParamsNum) :
    (s.initCmd i).nextBlock = s.nextBlock + 3 ∧ (s.initCmd i).returned = s.returned ∧
      (s.initCmd i).curParam = s.curParam ∧ (s.initCmd i).redirCmd = s.redirCmd := by
  rw [State.initCmd, hn]
  exact ⟨rfl, rfl, rfl, rfl⟩

/-- Both arrays grow by one command with two arguments, when `cur_cmd` has been increased. -/
theorem growCmds (hparams : s.cmdsParams.elems = ns.map some ++ [some n])
    (hcmds : s.cmds.elems = xs.map some ++ [some a]) (hcurCmd : s.curCmd = ns.length + 1)
    (hlength : xs.length = ns.length) (hlog : Logged (ns ++ [n]) s) :
    Layout (ns ++ [n]) defParamsNum (xs ++ [a])
        ⟨s.nextBlock + 2, [fresh (s.nextBlock + 3), fresh (s.nextBlock + 4)]⟩ s.growCmds ∧
      Logged (ns ++ [n] ++ [defParamsNum]) s.growCmds := by
  have hgrow : ∀ {α : Type} (l : List α) (b unset : α), l.length = ns.length →
      resize (l ++ [b]) (s.curCmd + 1) unset = (l ++ [b]) ++ [unset] := by
    intro α l b unset hl
    have hlen : (l ++ [b]).length = s.curCmd := by rw [List.length_append, hl, hcurCmd]; rfl
    rw [resize, List.take_of_length_le (by omega), hlen, Nat.add_sub_cancel_left]
    rfl
  have hlen : s.curCmd = (ns.map some ++ [some n]).length := by
    rw [List.length_append, List.length_map, hcurCmd]
    rfl
  have hlen' : s.curCmd = (ns ++ [n]).length := by rw [List.length_append, hcurCmd]; rfl
  let t := (s.reallocParams (s.curCmd + 1)).setParams s.curCmd defParamsNum |>.reallocCmds
    (s.curCmd + 1)
  have hparams' : t.cmdsParams.elems = (ns ++ [n]).map some ++ [some defParamsNum] := by
    change (resize s.cmdsParams.elems _ _).set _ _ = _
    rw [hparams, hgrow _ _ _ (List.length_map ..), hlen, List.set_concat, List.map_append]
    rfl
  have hcmds' : t.cmds.elems = (xs ++ [a]).map some ++ [none] := by
    change resize s.cmds.elems _ _ = _
    rw [hcmds, hgrow _ _ _ ((List.length_map ..).trans hlength), List.map_append]
    rfl
  have hlogt : Logged (ns ++ [n] ++ [defParamsNum]) t := by
    have hconcat : Logged (ns ++ [n] ++ [defParamsNum]) s := hlog.concat
    refine Logged.log (s := s.reallocParams (s.curCmd + 1)) hconcat ?_
    have hsize : (resize s.cmdsParams.elems (s.curCmd + 1) none).length = s.curCmd + 1 := by
      rw [hparams, hgrow _ _ _ (List.length_map ..), List.length_append, ← hlen]
      rfl
    change Store.Ok _ ⟨.params, s.curCmd, (resize s.cmdsParams.elems _ none).length⟩
    rw [hsize]
    refine ⟨Nat.lt_succ_self _, fun _ => ?_, ?_⟩
    · dsimp only [Target.width]
      omega
    · dsimp only
      rw [List.length_append, ← hlen']
      exact Nat.lt_succ_self _
  obtain ⟨hinit, hloginit⟩ := initCmd hparams' hcmds' hlen'
    (by rw [List.length_append, hlength]; simp) hlogt
  exact ⟨⟨hinit.params, hinit.cmds, hinit.curCmd, hinit.length⟩, hloginit⟩

/-- Five blocks more are in use, two of which replace others, and nothing else changes. -/
theorem growCmds_frame (s : State) :
    s.growCmds.nextBlock = s.nextBlock + 5 ∧
      s.growCmds.returned.length = s.returned.length + 2 ∧
      s.growCmds.curParam = s.curParam ∧ s.growCmds.redirCmd = s.redirCmd := by
  have hn : ((s.reallocParams (s.curCmd + 1)).setParams s.curCmd defParamsNum |>.reallocCmds
      (s.curCmd + 1)).params s.curCmd = defParamsNum := by
    have hlt : s.curCmd < (resize s.cmdsParams.elems (s.curCmd + 1) none).length := by
      rw [resize, List.length_append, List.length_take, List.length_replicate]
      omega
    change (((resize s.cmdsParams.elems (s.curCmd + 1) none).set s.curCmd
      (some defParamsNum))[s.curCmd]?).join.getD 0 = _
    rw [List.getElem?_set_self hlt]
    rfl
  obtain ⟨hnext, hreturned, hparam, hredir⟩ := initCmd_frame hn
  have hreturned' : s.growCmds.returned = s.returned ++ [s.cmdsParams.block] ++ [s.cmds.block] :=
    hreturned
  refine ⟨hnext, ?_, hparam, hredir⟩
  rw [hreturned', List.length_append, List.length_append]
  rfl

end Layout

end EmbeddedC.Interpreter
