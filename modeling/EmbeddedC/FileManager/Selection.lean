import EmbeddedC.FileManager.Panes

/-!
# Homework 11: the selected entry when a directory cannot be read

When ENTER opens a directory, the list of the pane is freed before `scandir` reads the new one.  A
`scandir` that fails leaves `namelist` alone and returns -1.

* `Namelist`, `Pane`, `State`: the panes, with the state of the memory of their lists;
* `step`, `fileManager`: the keys, with any outcome of `scandir`;
* `Selects`: `namelist[sel_dir]` is an entry;
* `selects_iff`: it is exactly if the last `scandir` of the pane succeeded; `selects_freed`: a
  directory that cannot be read;
* `step_ofPanes`, `reachable_ofPanes`: with directories that can be read, the panes are those of
  `State.step`.
-/

namespace EmbeddedC.FileManager.Selection

/-- What a `scandir` that succeeds returns: there are entries for the directory and its parent. -/
abbrev Listing := { list : List Dirent // 2 ≤ list.length }

/-- The memory that `namelist` points to. -/
inductive Namelist
  | null
  | live (list : List Dirent)
  | freed

/-- `struct window_t` -/
structure Pane where
  selDir : ℤ
  scanned : ℤ
  namelist : Namelist

/-- The variables.  `read` is the history of whether the last `scandir` of a pane succeeded. -/
structure State where
  windows : Fin 2 → Pane
  curScreen : Fin 2
  running : Bool
  read : Fin 2 → Bool

/-- A key, and the outcome of the `scandir` that it leads to. -/
structure Key where
  symbol : ℕ
  scan : Option Listing

/-- `scandir`: a list that was there before is freed. -/
def scandir (before : Namelist) : Option Listing → ℤ × Namelist
  | some list => (list.1.length, .live list.1)
  | none => (-1, before)

/-- `0 == cur_screen ? 1 : 0` -/
def otherScreen (curScreen : Fin 2) : Fin 2 :=
  if curScreen.val = 0 then ⟨1, Nat.one_lt_two⟩ else ⟨0, Nat.two_pos⟩

/-- A pane after its `scandir`. -/
def openPane (before : Namelist) (scan : Option Listing) : Pane :=
  ⟨1, (scandir before scan).1, (scandir before scan).2⟩

namespace State

/-- The pane that the keys go to. -/
def pane (s : State) : Pane := s.windows s.curScreen

def setPane (s : State) (pane : Pane) : State :=
  { s with windows := Function.update s.windows s.curScreen pane }

/-- `namelist[sel_dir]`; `none` where there is no entry. -/
def selected (s : State) : Option Dirent :=
  match s.pane.namelist with
  | .live list => if 0 ≤ s.pane.selDir then list[s.pane.selDir.toNat]? else none
  | .null | .freed => none

/-- The list is freed, and the new directory read. -/
def openDir (s : State) (scan : Option Listing) : State :=
  { s.setPane (openPane .freed scan) with read := Function.update s.read s.curScreen scan.isSome }

/-- A key of the main loop; `none` when the program has ended, or when there is no entry where it
looks for one. -/
def step (s : State) (key : Key) : Option State :=
  if s.running then
    if key.symbol = keyTab then some { s with curScreen := otherScreen s.curScreen }
    else if key.symbol = keyUp then
      some (if s.pane.selDir > 1 then s.setPane { s.pane with selDir := s.pane.selDir - 1 } else s)
    else if key.symbol = keyDown then
      some (if s.pane.selDir < s.pane.scanned - 1 then
        s.setPane { s.pane with selDir := s.pane.selDir + 1 } else s)
    else if key.symbol = keyEnter then
      s.selected.map fun e => if e.dType ≠ dtDir then s else s.openDir key.scan
    else if key.symbol = keyF3 then some { s with running := false }
    else some s
  else none

/-- Both panes are read at the start. -/
def initial (scans : Fin 2 → Option Listing) : State where
  windows v := openPane .null (scans v)
  curScreen := ⟨0, Nat.two_pos⟩
  running := true
  read v := (scans v).isSome

end State

/-- The file manager, with any outcome of the first two `scandir`s. -/
def fileManager : Machine State Key where
  init s := ∃ scans, s = .initial scans
  step := State.step

/-- Where ENTER looks there is an entry. -/
def Selects (p : Pane) : Prop :=
  1 ≤ p.selDir ∧ p.selDir < p.scanned ∧ ∃ list, p.namelist = .live list

/-- What holds of a pane, depending on whether it was read. -/
def Pane.Sound (p : Pane) : Bool → Prop
  | true => 1 ≤ p.selDir ∧ p.selDir < p.scanned ∧
      ∃ list, p.namelist = .live list ∧ p.scanned = list.length
  | false => ∀ list, p.namelist ≠ .live list

/-- What holds of both panes. -/
def Sound (s : State) : Prop := ∀ v, (s.windows v).Sound (s.read v)

variable {s t : State} {key : Key}

theorem Pane.Sound.selects {p : Pane} {read : Bool} (h : p.Sound read) :
    Selects p ↔ read = true := by
  cases read with
  | true =>
    obtain ⟨hpos, hlt, list, hlist, -⟩ := h
    exact iff_of_true ⟨hpos, hlt, list, hlist⟩ rfl
  | false =>
    refine iff_of_false ?_ Bool.false_ne_true
    rintro ⟨-, -, list, hlist⟩
    exact h list hlist

theorem sound_openPane {before : Namelist} (hbefore : ∀ list, before ≠ .live list)
    (scan : Option Listing) : (openPane before scan).Sound scan.isSome := by
  cases scan with
  | none => exact hbefore
  | some list =>
    obtain ⟨list, hlen⟩ := list
    refine ⟨le_rfl, ?_, list, rfl, rfl⟩
    show (1 : ℤ) < list.length
    omega

/-- Another entry is selected. -/
theorem Sound.select (h : Sound s) {selDir : ℤ}
    (hsel : ∀ list, s.pane.namelist = .live list → s.pane.scanned = list.length →
      1 ≤ s.pane.selDir → s.pane.selDir < s.pane.scanned →
        1 ≤ selDir ∧ selDir < s.pane.scanned) :
    Sound (s.setPane { s.pane with selDir := selDir }) := by
  intro v
  show (Function.update s.windows s.curScreen _ v).Sound (s.read v)
  rw [Function.update_apply]
  split
  · rename_i hv
    subst hv
    have hpane := h s.curScreen
    cases hread : s.read s.curScreen with
    | false =>
      rw [hread] at hpane
      exact hpane
    | true =>
      rw [hread] at hpane
      obtain ⟨hpos, hlt, list, hlist, hlen⟩ := hpane
      obtain ⟨hpos', hlt'⟩ := hsel list hlist hlen hpos hlt
      exact ⟨hpos', hlt', list, hlist, hlen⟩
  · exact h v

theorem Sound.openDir (h : Sound s) (scan : Option Listing) : Sound (s.openDir scan) := by
  intro v
  show (Function.update s.windows s.curScreen _ v).Sound
    (Function.update s.read s.curScreen _ v)
  by_cases hv : v = s.curScreen
  · subst hv
    rw [Function.update_self, Function.update_self]
    exact sound_openPane (fun list => by simp) scan
  · rw [Function.update_of_ne hv, Function.update_of_ne hv]
    exact h v

theorem Sound.step (h : Sound s) (hstep : s.step key = some t) : Sound t := by
  unfold State.step at hstep
  split at hstep
  swap
  · cases hstep
  split at hstep
  · -- TAB
    obtain rfl := Option.some.inj hstep
    exact h
  split at hstep
  · -- the arrow up; a pane that was not read has no entries
    obtain rfl := Option.some.inj hstep
    split
    · exact h.select fun list _ _ _ hlt => ⟨by omega, by omega⟩
    · exact h
  split at hstep
  · -- the arrow down
    obtain rfl := Option.some.inj hstep
    split
    · exact h.select fun list _ _ hpos _ => ⟨by omega, by omega⟩
    · exact h
  split at hstep
  · -- ENTER, on a file and on a directory
    obtain ⟨e, -, rfl⟩ := Option.map_eq_some_iff.1 hstep
    split
    · exact h
    · exact h.openDir key.scan
  split at hstep
  · -- F3
    obtain rfl := Option.some.inj hstep
    exact h
  · obtain rfl := Option.some.inj hstep
    exact h

theorem sound_of_reachable (hs : fileManager.Reachable s) : Sound s := by
  refine hs.invariant ?_ fun s key t _ ih hstep => ih.step hstep
  rintro s ⟨scans, rfl⟩ v
  exact sound_openPane (fun list => by simp) (scans v)

/-- **The selected entry.** After any sequence of keys, whatever `scandir` returned, there is an
entry where ENTER looks for one exactly if the last `scandir` of the current pane succeeded. -/
theorem selects_iff (hs : fileManager.Reachable s) :
    Selects s.pane ↔ s.read s.curScreen = true :=
  (sound_of_reachable hs s.curScreen).selects

/-- The entries of a directory without files. -/
def dots : Listing := ⟨[⟨['.'], dtDir⟩, ⟨['.', '.'], dtDir⟩], le_rfl⟩

/-- The first pane has opened a directory that cannot be read, and TAB leads to the second one and
back. -/
theorem selects_tabbed :
    (∃ s, fileManager.run (.initial fun _ => some dots)
        [⟨keyDown, none⟩, ⟨keyEnter, none⟩, ⟨keyTab, none⟩, ⟨keyEnter, some dots⟩] = some s ∧
      Selects s.pane) ∧
    ∃ t, fileManager.run (.initial fun _ => some dots)
        [⟨keyDown, none⟩, ⟨keyEnter, none⟩, ⟨keyTab, none⟩, ⟨keyEnter, some dots⟩,
          ⟨keyTab, none⟩] = some t ∧
      ¬ Selects t.pane := by
  obtain ⟨s, hs, hread⟩ : ∃ s, fileManager.run (.initial fun _ => some dots)
      [⟨keyDown, none⟩, ⟨keyEnter, none⟩, ⟨keyTab, none⟩, ⟨keyEnter, some dots⟩] = some s ∧
      s.read s.curScreen = true := ⟨_, rfl, rfl⟩
  obtain ⟨t, ht, hread'⟩ : ∃ t, fileManager.run (.initial fun _ => some dots)
      [⟨keyDown, none⟩, ⟨keyEnter, none⟩, ⟨keyTab, none⟩, ⟨keyEnter, some dots⟩,
        ⟨keyTab, none⟩] = some t ∧ t.read t.curScreen = false := ⟨_, rfl, rfl⟩
  refine ⟨⟨s, hs, (selects_iff (Machine.reachable_of_run ⟨_, rfl⟩ hs)).2 hread⟩, t, ht, ?_⟩
  rw [selects_iff (Machine.reachable_of_run ⟨_, rfl⟩ ht), hread']
  decide

/-- ENTER on a directory that cannot be read: its list is the one that was freed. -/
theorem selects_freed : ¬ ∀ s, fileManager.Reachable s → s.running = true → Selects s.pane := by
  intro hall
  obtain ⟨s, hs, hrunning, hfreed⟩ : ∃ s,
      fileManager.run (.initial fun _ => some dots) [⟨keyEnter, none⟩] = some s ∧
        s.running = true ∧ s.pane.namelist = .freed := ⟨_, rfl, rfl, rfl⟩
  obtain ⟨-, -, list, hlist⟩ := hall s (Machine.reachable_of_run ⟨_, rfl⟩ hs) hrunning
  rw [hfreed] at hlist
  cases hlist

/-! ### Directories that can be read -/

variable {D : Type}

/-- The panes, if they were read. -/
def ofPanes (s : FileManager.State D) : State where
  windows v := ⟨(s.windows v).selDir, (s.windows v).namelist.length, .live (s.windows v).namelist⟩
  curScreen := s.curScreen
  running := s.running
  read _ := true

theorem ofPanes_setPane (s : FileManager.State D) (p : FileManager.Pane D) :
    ofPanes (s.setPane p) =
      (ofPanes s).setPane ⟨p.selDir, p.namelist.length, .live p.namelist⟩ := by
  have hwindows : (ofPanes (s.setPane p)).windows =
      Function.update (ofPanes s).windows s.curScreen
        ⟨p.selDir, p.namelist.length, .live p.namelist⟩ := by
    funext v
    by_cases hv : v = s.curScreen
    · subst hv
      simp [ofPanes, FileManager.State.setPane]
    · simp [ofPanes, FileManager.State.setPane, Function.update_of_ne hv]
  exact congrArg (fun windows => State.mk windows s.curScreen s.running fun _ => true) hwindows

theorem otherScreen_eq : ∀ screen : Fin 2, otherScreen screen = if screen = 0 then 1 else 0 := by
  decide

theorem ofPanes_selDir (s : FileManager.State D) :
    (ofPanes s).pane.selDir = s.pane.selDir := rfl

theorem ofPanes_scanned (s : FileManager.State D) :
    (ofPanes s).pane.scanned = s.pane.namelist.length := rfl

/-- Another entry is selected. -/
theorem ofPanes_select (s : FileManager.State D) (selDir : ℕ) :
    ofPanes (s.setPane { s.pane with selDir := selDir }) =
      (ofPanes s).setPane { (ofPanes s).pane with selDir := selDir } :=
  ofPanes_setPane s _

theorem ofPanes_selected (s : FileManager.State D) : (ofPanes s).selected = s.selected := by
  show (if (0 : ℤ) ≤ s.pane.selDir then s.pane.namelist[(s.pane.selDir : ℤ).toNat]? else none) = _
  rw [if_pos (Int.natCast_nonneg _), Int.toNat_natCast]
  rfl

theorem ofPanes_openDir (fs : Files D) (s : FileManager.State D) (name : Name) :
    ofPanes (s.openDir fs name) = (ofPanes s).openDir
      (some ⟨fs.scandir (fs.chdir s.cwd name), fs.two_le _⟩) := by
  have hset := ofPanes_setPane s ⟨1, fs.scandir (fs.chdir s.cwd name), fs.chdir s.cwd name⟩
  have hread : Function.update (ofPanes s).read s.curScreen true = (ofPanes s).read := by
    funext v
    by_cases hv : v = s.curScreen
    · subst hv
      rw [Function.update_self]
      rfl
    · rw [Function.update_of_ne hv]
  exact hset.trans (congrArg (State.mk _ s.curScreen s.running) hread.symm)

theorem step_enter (hrunning : s.running = true) (scan : Option Listing) :
    s.step ⟨keyEnter, scan⟩ =
      s.selected.map fun e => if e.dType ≠ dtDir then s else s.openDir scan := by
  have htab : keyEnter ≠ keyTab := by decide
  have hup : keyEnter ≠ keyUp := by decide
  have hdown : keyEnter ≠ keyDown := by decide
  rw [State.step, if_pos hrunning, if_neg htab, if_neg hup, if_neg hdown, if_pos rfl]

/-- **Directories that can be read.** The panes change as in `State.step`. -/
theorem step_ofPanes {fs : Files D} {s t : FileManager.State D} {symbol : ℕ}
    (h : s.step fs symbol = some t) :
    ∃ list, (ofPanes s).step ⟨symbol, some list⟩ = some (ofPanes t) := by
  obtain ⟨hrunning, hkey⟩ := KeyStep.of_step h
  have hon : (ofPanes s).running = true := hrunning
  -- only where a directory is opened does it matter what `scandir` gives
  cases hkey with
  | tab =>
    refine ⟨dots, ?_⟩
    rw [State.step, if_pos hon, if_pos rfl, otherScreen_eq]
    rfl
  | up hlt =>
    refine ⟨dots, ?_⟩
    have hcast : (ofPanes s).pane.selDir - 1 = (s.pane.selDir - 1 : ℕ) := by
      rw [ofPanes_selDir]
      omega
    have hpos : (ofPanes s).pane.selDir > 1 := by
      rw [ofPanes_selDir]
      omega
    rw [State.step, if_pos hon, if_neg (by decide), if_pos rfl, if_pos hpos, hcast, ofPanes_select]
  | top hle =>
    refine ⟨dots, ?_⟩
    have hpos : ¬ (ofPanes s).pane.selDir > 1 := by
      rw [ofPanes_selDir]
      omega
    rw [State.step, if_pos hon, if_neg (by decide), if_pos rfl, if_neg hpos]
  | down hlt =>
    refine ⟨dots, ?_⟩
    have hlast : (ofPanes s).pane.selDir < (ofPanes s).pane.scanned - 1 := by
      rw [ofPanes_selDir, ofPanes_scanned]
      omega
    rw [State.step, if_pos hon, if_neg (by decide), if_neg (by decide), if_pos rfl, if_pos hlast,
      ofPanes_select]
    rfl
  | bottom hle =>
    refine ⟨dots, ?_⟩
    have hlast : ¬ (ofPanes s).pane.selDir < (ofPanes s).pane.scanned - 1 := by
      rw [ofPanes_selDir, ofPanes_scanned]
      omega
    rw [State.step, if_pos hon, if_neg (by decide), if_neg (by decide), if_pos rfl, if_neg hlast]
  | @openDir e hsel hdir =>
    refine ⟨⟨fs.scandir (fs.chdir s.cwd e.dName), fs.two_le _⟩, ?_⟩
    rw [step_enter hon, ofPanes_selected, hsel, Option.map_some, if_neg (not_not_intro hdir),
      ofPanes_openDir]
  | file hsel hfile =>
    refine ⟨dots, ?_⟩
    rw [step_enter hon, ofPanes_selected, hsel, Option.map_some, if_pos hfile]
  | f3 =>
    refine ⟨dots, ?_⟩
    rw [State.step, if_pos hon, if_neg (by decide), if_neg (by decide), if_neg (by decide),
      if_neg (by decide), if_pos rfl]
    rfl
  | other hsymbol =>
    refine ⟨dots, ?_⟩
    simp only [List.mem_cons, List.not_mem_nil, or_false, not_or] at hsymbol
    obtain ⟨htab, hup, hdown, henter, hf3⟩ := hsymbol
    rw [State.step, if_pos hon, if_neg htab, if_neg hup, if_neg hdown, if_neg henter, if_neg hf3]

/-- A run in which all directories can be read is one of these runs. -/
theorem reachable_ofPanes {fs : Files D} {s : FileManager.State D}
    (h : (FileManager.fileManager fs).Reachable s) : fileManager.Reachable (ofPanes s) := by
  refine h.invariant (I := fun s => fileManager.Reachable (ofPanes s)) ?_
    fun s symbol t _ ih hstep => ?_
  · rintro s ⟨d, rfl⟩
    exact ⟨_, ⟨fun _ => some ⟨fs.scandir d, fs.two_le d⟩, rfl⟩, .refl⟩
  · obtain ⟨list, hlist⟩ := step_ofPanes hstep
    exact ih.step hlist

end EmbeddedC.FileManager.Selection
