import EmbeddedC.FileManager.Panes

/-!
# Homework 11: when the two panes are independent

The panes have their own directories, but the process has one working directory, that of the pane in
which a directory was last opened; there `chdir` looks for the entry that is selected in a pane.

* `Sound`, `sound_of_reachable`: the panes list their directories, and the working directory is one
  of these;
* `Independent`: ENTER opens the entry of its own pane, and leaves the other pane as it is;
* `independent_panes`: that is so exactly if the entry's name leads to the same directory from both;
* `chdir_tree_iff`: when it does in a tree; `panes_mixed_up`: a run in which it does not.
-/

namespace EmbeddedC.FileManager

variable {D : Type} {fs : Files D} {s t : State D}

/-! ### Reachable states -/

/-- A pane that lists its directory, with an entry selected. -/
structure Pane.Sound (fs : Files D) (p : Pane D) : Prop where
  namelist : p.namelist = fs.scandir p.cwd
  selDir : p.selDir < p.namelist.length

/-- What holds of every reachable state. -/
structure Sound (fs : Files D) (s : State D) : Prop where
  cwd : s.cwd = (s.windows s.last).cwd
  panes : ∀ v, (s.windows v).Sound fs

theorem Pane.sound_scandir (fs : Files D) (d : D) : Pane.Sound fs ⟨1, fs.scandir d, d⟩ :=
  ⟨rfl, fs.two_le d⟩

/-- Another entry is selected. -/
theorem Sound.select (h : Sound fs s) {selDir : ℕ} (hlt : selDir < s.pane.namelist.length) :
    Sound fs (s.setPane { s.pane with selDir := selDir }) := by
  refine ⟨?_, fun v => ?_⟩
  · change s.cwd = (Function.update s.windows s.curScreen _ s.last).cwd
    rw [h.cwd, Function.update_apply]
    split
    · rename_i hlast
      rw [hlast]
      rfl
    · rfl
  · change (Function.update s.windows s.curScreen _ v).Sound fs
    rw [Function.update_apply]
    split
    · exact ⟨(h.panes s.curScreen).namelist, hlt⟩
    · exact h.panes v

theorem Sound.openDir (h : Sound fs s) (name : Name) : Sound fs (s.openDir fs name) := by
  refine ⟨?_, fun v => ?_⟩
  · change fs.chdir s.cwd name = (Function.update s.windows s.curScreen _ s.curScreen).cwd
    rw [Function.update_self]
  · change (Function.update s.windows s.curScreen _ v).Sound fs
    rw [Function.update_apply]
    split
    · exact Pane.sound_scandir fs _
    · exact h.panes v

theorem Sound.step (h : Sound fs s) {symbol : ℕ} (hstep : s.step fs symbol = some t) :
    Sound fs t := by
  cases (KeyStep.of_step hstep).2 with
  | tab | f3 => exact ⟨h.cwd, h.panes⟩
  | up => exact h.select (lt_of_le_of_lt (Nat.sub_le _ _) (h.panes s.curScreen).selDir)
  | down hlt => exact h.select hlt
  | openDir => exact h.openDir _
  | top | bottom | file | other => exact h

theorem sound_of_reachable (hs : (fileManager fs).Reachable s) : Sound fs s := by
  refine hs.invariant ?_ fun s symbol t _ ih hstep => ih.step hstep
  rintro s ⟨d, rfl⟩
  exact ⟨rfl, fun v => Pane.sound_scandir fs d⟩

/-! ### Two directories, one inside the other -/

def home : Name := ['h', 'o', 'm', 'e']

/-- `/home/a` -/
def homeTree : Tree where
  children path :=
    if path = [] then [⟨home, dtDir⟩] else if path = [home] then [⟨['a'], dtDir⟩] else []

/-- Both panes show `/home`. -/
def homeInitial : State (List Name) := .initial homeTree.files [home]

/-! ### ENTER -/

/-- ENTER has led from `s` to `t`: the current pane shows the directory that `name` denotes inside
the one it showed, and the other pane is as it was. -/
def Independent (fs : Files D) (s t : State D) (name : Name) : Prop :=
  ∃ d, fs.enter s.pane.cwd name = some d ∧ (t.windows s.curScreen).cwd = d ∧
    (t.windows s.curScreen).namelist = fs.scandir d ∧
    ∀ v, v ≠ s.curScreen → t.windows v = s.windows v

theorem step_enter {e : Dirent} (hrunning : s.running = true) (hsel : s.selected = some e)
    (hdir : e.dType = dtDir) : s.step fs keyEnter = some (s.openDir fs e.dName) := by
  unfold State.step
  rw [if_pos hrunning, if_neg (by decide), if_neg (by decide), if_neg (by decide), if_pos rfl,
    hsel, Option.map_some, if_neg (not_not_intro hdir)]

/-- **Independent panes.** After any sequence of keys, ENTER on an entry for a directory opens that
directory in its own pane, and leaves the other pane as it is, exactly if the entry's name leads to
the same directory from the pane in which a directory was last opened. -/
theorem independent_panes (hs : (fileManager fs).Reachable s) (hrunning : s.running = true)
    {e : Dirent} (hsel : s.selected = some e) (hdir : e.dType = dtDir) :
    ∃ t, (fileManager fs).step s keyEnter = some t ∧
      (Independent fs s t e.dName ↔
        fs.chdir (s.windows s.last).cwd e.dName =
          fs.chdir (s.windows s.curScreen).cwd e.dName) := by
  have hsound := sound_of_reachable hs
  refine ⟨_, step_enter hrunning hsel hdir, ?_⟩
  have hmem : e ∈ fs.scandir s.pane.cwd :=
    (hsound.panes s.curScreen).namelist ▸ List.mem_of_getElem? hsel
  obtain ⟨d, hd⟩ := Option.isSome_iff_exists.1 (fs.enter_of_mem _ e hmem hdir)
  have hown : fs.chdir (s.windows s.curScreen).cwd e.dName = d := by
    change (fs.enter s.pane.cwd e.dName).getD _ = d
    rw [hd, Option.getD_some]
  have hpane : (s.openDir fs e.dName).windows s.curScreen =
      ⟨1, fs.scandir (fs.chdir s.cwd e.dName), fs.chdir s.cwd e.dName⟩ := Function.update_self ..
  rw [hown, ← hsound.cwd]
  constructor
  · rintro ⟨d', hd', hcwd, -, -⟩
    rw [hpane] at hcwd
    rw [hd] at hd'
    exact hcwd.trans (Option.some.inj hd').symm
  · intro hcwd
    refine ⟨d, hd, ?_, ?_, fun v hv => Function.update_of_ne hv ..⟩
    · rw [hpane]
      exact hcwd
    · rw [hpane, hcwd]

/-- The first pane has opened `a`, and the second one shows `/home` still: ENTER there on `..` goes
astray, and ENTER on `a` does not. -/
theorem independent_panes_opened :
    (∃ s t, (fileManager homeTree.files).run homeInitial [keyDown, keyEnter, keyTab] = some s ∧
      s.curScreen ≠ s.last ∧ (fileManager homeTree.files).step s keyEnter = some t ∧
      ¬ Independent homeTree.files s t ['.', '.']) ∧
    ∃ s t, (fileManager homeTree.files).run homeInitial [keyDown, keyEnter, keyTab, keyDown] =
      some s ∧ s.curScreen ≠ s.last ∧ (fileManager homeTree.files).step s keyEnter = some t ∧
      Independent homeTree.files s t ['a'] := by
  constructor
  · obtain ⟨s, hs, hrunning, hsel, hscreen, hlast, hcwd⟩ : ∃ s,
        (fileManager homeTree.files).run homeInitial [keyDown, keyEnter, keyTab] = some s ∧
        s.running = true ∧ s.selected = some ⟨['.', '.'], dtDir⟩ ∧ s.curScreen ≠ s.last ∧
        (s.windows s.last).cwd = [['a'], home] ∧ (s.windows s.curScreen).cwd = [home] :=
      ⟨_, rfl, rfl, rfl, by decide, rfl, rfl⟩
    obtain ⟨t, ht, hiff⟩ :=
      independent_panes (Machine.reachable_of_run ⟨[home], rfl⟩ hs) hrunning hsel rfl
    refine ⟨s, t, hs, hscreen, ht, fun h => ?_⟩
    have := hiff.1 h
    rw [hlast, hcwd] at this
    cases this
  · obtain ⟨s, hs, hrunning, hsel, hscreen, hlast, hcwd⟩ : ∃ s,
        (fileManager homeTree.files).run homeInitial [keyDown, keyEnter, keyTab, keyDown] = some s ∧
        s.running = true ∧ s.selected = some ⟨['a'], dtDir⟩ ∧ s.curScreen ≠ s.last ∧
        (s.windows s.last).cwd = [['a'], home] ∧ (s.windows s.curScreen).cwd = [home] :=
      ⟨_, rfl, rfl, rfl, by decide, rfl, rfl⟩
    obtain ⟨t, ht, hiff⟩ :=
      independent_panes (Machine.reachable_of_run ⟨[home], rfl⟩ hs) hrunning hsel rfl
    refine ⟨s, t, hs, hscreen, ht, hiff.2 ?_⟩
    rw [hlast, hcwd]
    rfl

/-- In a tree: when the name of an entry for a directory of `q` leads to the same directory from
`p`. -/
theorem chdir_tree_iff {tree : Tree} {p q : List Name} {name : Name}
    (hmem : ⟨name, dtDir⟩ ∈ tree.scandir q) :
    tree.files.chdir p name = tree.files.chdir q name ↔
      if name = ['.'] then p = q
      else if name = ['.', '.'] then p.tail = q.tail
      else p = q ∨ p = name :: q ∧ ⟨name, dtDir⟩ ∉ tree.children p := by
  rw [Tree.scandir, List.mem_insertionSort, List.mem_cons, List.mem_cons] at hmem
  change (tree.enter p name).getD p = (tree.enter q name).getD q ↔ _
  unfold Tree.enter
  split
  · exact Iff.rfl
  split
  · exact Iff.rfl
  rename_i hdot hdots
  have hq : ⟨name, dtDir⟩ ∈ tree.children q := by
    obtain h | h | h := hmem
    · exact absurd (congrArg Dirent.dName h) hdot
    · exact absurd (congrArg Dirent.dName h) hdots
    · exact h
  rw [if_pos hq, Option.getD_some]
  split
  · rename_i hp
    rw [Option.getD_some, List.cons_inj_right]
    exact ⟨.inl, fun h => h.resolve_right fun h => h.2 hp⟩
  · rename_i hp
    rw [Option.getD_none]
    refine ⟨fun h => .inr ⟨h, hp⟩, ?_⟩
    rintro (rfl | h)
    · exact absurd hq hp
    · exact h.1

/-! ### A run -/

/-- `a` is opened in the first pane, and `..` in the second one, which shows `/home` still. -/
theorem panes_mixed_up : ¬ ∀ (tree : Tree) (s t : State (List Name)) (e : Dirent),
    (fileManager tree.files).Reachable s → s.running = true → s.selected = some e →
      e.dType = dtDir → (fileManager tree.files).step s keyEnter = some t →
        Independent tree.files s t e.dName := by
  intro hall
  have hrun : ∃ s t, (fileManager homeTree.files).run homeInitial [keyDown, keyEnter, keyTab] =
      some s ∧ (fileManager homeTree.files).step s keyEnter = some t ∧ s.running = true ∧
        s.selected = some ⟨['.', '.'], dtDir⟩ ∧ s.pane.cwd = [home] ∧
          (t.windows s.curScreen).cwd = [home] := ⟨_, _, rfl, rfl, rfl, rfl, rfl, rfl⟩
  obtain ⟨s, t, hs, hstep, hrunning, hsel, hcwd, hcwd'⟩ := hrun
  obtain ⟨d, hd, hd', -⟩ := hall homeTree s t _ (Machine.reachable_of_run ⟨[home], rfl⟩ hs) hrunning
    hsel rfl hstep
  -- the parent of `/home` is the root, but the pane shows `/home`, the parent of `/home/a`
  rw [hcwd] at hd
  have hroot : d = [] := (Option.some.inj hd).symm
  rw [hcwd', hroot] at hd'
  cases hd'

end EmbeddedC.FileManager
