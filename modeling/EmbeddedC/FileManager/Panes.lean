import Mathlib.Data.List.Sort
import EmbeddedC.Lib.Machine

/-!
# Homework 11: `first_task`, a file manager with two panes

Each pane shows a directory and has a selected entry.  TAB goes to the other pane, the arrow keys
select, ENTER opens the selected entry if it is a directory, and F3 exits.  ENTER calls `chdir`,
which changes the working directory of the process, with the name of the entry.

* `Files`: the directories; `Tree`, `Tree.files`: a tree of directories;
* `Pane`, `State`, `step`: the panes, and what a key does;
* `fileManager`: all sequences of keys.

A directory stands for its path.  Reading directories and paths succeeds; a `chdir` that fails
leaves the working directory as it is.  What is shown on the screen is left out.
-/

namespace EmbeddedC.FileManager

/-! ### Directories -/

abbrev Name := List Char

/-- `struct dirent` -/
structure Dirent where
  dName : Name
  dType : ℕ
  deriving DecidableEq

/-- The `d_type` of a directory -/
def dtDir : ℕ := 4

/-- The directories: which directory a name denotes inside another one, and what `scandir` lists.
There are always entries for the directory itself and the one above it, and an entry for a directory
denotes one. -/
structure Files (D : Type) where
  enter : D → Name → Option D
  scandir : D → List Dirent
  two_le : ∀ d, 2 ≤ (scandir d).length
  enter_of_mem : ∀ d e, e ∈ scandir d → e.dType = dtDir → (enter d e.dName).isSome = true

/-- The working directory after `chdir`. -/
def Files.chdir {D : Type} (fs : Files D) (d : D) (name : Name) : D := (fs.enter d name).getD d

/-- A tree of directories: the entries of the directory at a path, other than `.` and `..`.  A path
begins with its last name. -/
structure Tree where
  children : List Name → List Dirent

namespace Tree

/-- The order of `alphasort`. -/
def alphasort (a b : Dirent) : Bool := !b.dName.lex a.dName fun c d => c.toNat < d.toNat

/-- What `scandir` lists. -/
def scandir (tree : Tree) (path : List Name) : List Dirent :=
  (⟨['.'], dtDir⟩ :: ⟨['.', '.'], dtDir⟩ :: tree.children path).insertionSort
    fun a b => alphasort a b = true

/-- The directory that a name denotes. -/
def enter (tree : Tree) (path : List Name) (name : Name) : Option (List Name) :=
  if name = ['.'] then some path
  else if name = ['.', '.'] then some path.tail
  else if ⟨name, dtDir⟩ ∈ tree.children path then some (name :: path)
  else none

theorem enter_isSome {tree : Tree} {path : List Name} {e : Dirent} (he : e ∈ tree.scandir path)
    (hdir : e.dType = dtDir) : (tree.enter path e.dName).isSome = true := by
  rw [scandir, List.mem_insertionSort, List.mem_cons, List.mem_cons] at he
  unfold enter
  split
  · rfl
  split
  · rfl
  · rename_i hdot hdots
    obtain rfl | rfl | he := he
    · exact absurd rfl hdot
    · exact absurd rfl hdots
    · rw [if_pos (by rw [← hdir]; exact he)]
      rfl

def files (tree : Tree) : Files (List Name) where
  enter := tree.enter
  scandir := tree.scandir
  two_le path := by
    rw [scandir, List.length_insertionSort, List.length_cons, List.length_cons]
    omega
  enter_of_mem _ _ := enter_isSome

end Tree

/-! ### The panes -/

def keyTab : ℕ := 9

def keyEnter : ℕ := 10

def keyDown : ℕ := 258

def keyUp : ℕ := 259

/-- `KEY_F(3)` -/
def keyF3 : ℕ := 267

/-- `struct window_t`; `scanned` is the length of `namelist`. -/
structure Pane (D : Type) where
  selDir : ℕ
  namelist : List Dirent
  cwd : D

/-- The variables of the program and the working directory of the process.  `last` is the history of
the pane in which a directory was last opened. -/
structure State (D : Type) where
  windows : Fin 2 → Pane D
  curScreen : Fin 2
  cwd : D
  last : Fin 2
  running : Bool

variable {D : Type}

namespace State

/-- The pane that the keys go to. -/
def pane (s : State D) : Pane D := s.windows s.curScreen

def setPane (s : State D) (pane : Pane D) : State D :=
  { s with windows := Function.update s.windows s.curScreen pane }

/-- The selected entry. -/
def selected (s : State D) : Option Dirent := s.pane.namelist[s.pane.selDir]?

/-- A directory is opened in the current pane. -/
def openDir (fs : Files D) (s : State D) (name : Name) : State D :=
  let cwd := fs.chdir s.cwd name
  { s.setPane ⟨1, fs.scandir cwd, cwd⟩ with cwd := cwd, last := s.curScreen }

/-- A key of the main loop; `none` when the program has ended, or when `sel_dir` is not in the
list. -/
def step (fs : Files D) (s : State D) (symbol : ℕ) : Option (State D) :=
  if s.running then
    if symbol = keyTab then some { s with curScreen := if s.curScreen = 0 then 1 else 0 }
    else if symbol = keyUp then
      some (if 1 < s.pane.selDir then s.setPane { s.pane with selDir := s.pane.selDir - 1 } else s)
    else if symbol = keyDown then
      some (if s.pane.selDir + 1 < s.pane.namelist.length then
        s.setPane { s.pane with selDir := s.pane.selDir + 1 } else s)
    else if symbol = keyEnter then
      s.selected.map fun e => if e.dType ≠ dtDir then s else s.openDir fs e.dName
    else if symbol = keyF3 then some { s with running := false }
    else some s
  else none

/-- Both panes show the directory in which the program was started. -/
def initial (fs : Files D) (d : D) : State D where
  windows _ := ⟨1, fs.scandir d, d⟩
  curScreen := 0
  cwd := d
  last := 0
  running := true

end State

/-- The file manager, started in any directory. -/
def fileManager (fs : Files D) : Machine (State D) ℕ where
  init s := ∃ d, s = .initial fs d
  step := State.step fs

/-- What a key does. -/
inductive KeyStep (fs : Files D) (s : State D) : ℕ → State D → Prop
  | tab : KeyStep fs s keyTab { s with curScreen := if s.curScreen = 0 then 1 else 0 }
  | up (hlt : 1 < s.pane.selDir) :
    KeyStep fs s keyUp (s.setPane { s.pane with selDir := s.pane.selDir - 1 })
  | top (hle : ¬ 1 < s.pane.selDir) : KeyStep fs s keyUp s
  | down (hlt : s.pane.selDir + 1 < s.pane.namelist.length) :
    KeyStep fs s keyDown (s.setPane { s.pane with selDir := s.pane.selDir + 1 })
  | bottom (hle : ¬ s.pane.selDir + 1 < s.pane.namelist.length) : KeyStep fs s keyDown s
  | openDir {e : Dirent} (hsel : s.selected = some e) (hdir : e.dType = dtDir) :
    KeyStep fs s keyEnter (s.openDir fs e.dName)
  | file {e : Dirent} (hsel : s.selected = some e) (hfile : e.dType ≠ dtDir) :
    KeyStep fs s keyEnter s
  | f3 : KeyStep fs s keyF3 { s with running := false }
  | other {symbol : ℕ} (hsymbol : symbol ∉ [keyTab, keyUp, keyDown, keyEnter, keyF3]) :
    KeyStep fs s symbol s

theorem KeyStep.of_step {fs : Files D} {s t : State D} {symbol : ℕ}
    (h : s.step fs symbol = some t) : s.running = true ∧ KeyStep fs s symbol t := by
  unfold State.step at h
  split at h
  swap
  · cases h
  rename_i hrunning
  refine ⟨hrunning, ?_⟩
  by_cases htab : symbol = keyTab
  · subst htab
    rw [if_pos rfl] at h
    obtain rfl := Option.some.inj h
    exact .tab
  rw [if_neg htab] at h
  by_cases hup : symbol = keyUp
  · subst hup
    rw [if_pos rfl] at h
    obtain rfl := Option.some.inj h
    split
    · exact .up ‹_›
    · exact .top ‹_›
  rw [if_neg hup] at h
  by_cases hdown : symbol = keyDown
  · subst hdown
    rw [if_pos rfl] at h
    obtain rfl := Option.some.inj h
    split
    · exact .down ‹_›
    · exact .bottom ‹_›
  rw [if_neg hdown] at h
  by_cases henter : symbol = keyEnter
  · subst henter
    rw [if_pos rfl] at h
    obtain ⟨e, hsel, rfl⟩ := Option.map_eq_some_iff.1 h
    split
    · exact .file hsel ‹_›
    · exact .openDir hsel (not_not.1 ‹_›)
  rw [if_neg henter] at h
  by_cases hf3 : symbol = keyF3
  · subst hf3
    rw [if_pos rfl] at h
    obtain rfl := Option.some.inj h
    exact .f3
  · rw [if_neg hf3] at h
    obtain rfl := Option.some.inj h
    exact .other (by simp [htab, hup, hdown, henter, hf3])

end EmbeddedC.FileManager
