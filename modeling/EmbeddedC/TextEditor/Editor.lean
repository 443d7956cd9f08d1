import Mathlib.Logic.Function.Basic
import Mathlib.Data.Nat.Notation
import Mathlib.Data.Int.Notation

/-!
# Homework 10: `second_task`, a text editor

The main loop reads a key and opens a file, saves it, exits, or adds a character to `tmp_buf`.  F1
and F2 open a window, which reads the keys up to Enter.

* `Window`, `Editor`: the window that reads the next key, and the variables;
* `fopenWindow`, `fsaveWindow`, `mainLoop`: what a key does in each of them;
* `secondTask`: a sequence of keys.

A key is what `wgetch` returns.  Which file a name designates, if it can be opened, is an argument;
several names may designate one file.  `none` is undefined behaviour.  What is shown on the screen,
with the text that is read from the file for it, is left out.
-/

namespace EmbeddedC.TextEditor

/-- Characters, as `wgetch` returns them. -/
abbrev Text := List ℕ

def keyEnter : ℕ := 10

def keyLeft : ℕ := 260

def keyRight : ℕ := 261

/-- `KEY_F(n)` -/
def keyF (n : ℕ) : ℕ := 264 + n

def isPrintable (symbol : ℕ) : Bool := symbol < 127 && 32 ≤ symbol

/-- The size of `tmp_buf` -/
def bufSize : ℕ := 4096

/-- The size of `fname` -/
def fnameSize : ℕ := 45

/-- Where the next key is read, with the variables of the window. -/
inductive Window
  /-- in the main loop -/
  | main
  /-- in `_fopen_window` -/
  | fopen (fname : Text) (ret : ℤ)
  /-- in `_fsave_window` -/
  | fsave (ret : ℤ)
  /-- the file was saved and the program has ended -/
  | saved
  /-- the program has ended otherwise -/
  | quit
  deriving DecidableEq

/-- The name that is opened; an empty one is replaced. -/
def openedName (fname : Text) : Text :=
  if fname = [] then "text.txt".toList.map Char.toNat else fname

variable {F : Type} [DecidableEq F]

/-- The variables of the program: `tmpBuf` is the part of `tmp_buf` that is in use.  `files` are the
files on the disk. -/
structure Editor (F : Type) where
  window : Window
  file : Option F
  tmpBuf : Text
  files : F → Option Text

/-- What is in a file; nothing, as long as it does not exist. -/
def content (files : F → Option Text) (f : F) : Text := (files f).getD []

namespace Editor

/-- `fopen(fname, "a+")`, which creates the file if it does not exist. -/
def fopen (resolve : Text → Option F) (e : Editor F) (fname : Text) : Option (Editor F) :=
  match resolve fname with
  | some f => some { e with
    window := .main
    file := some f
    files := Function.update e.files f (some (content e.files f)) }
  | none => none -- `fread` gets `NULL`

/-- `fwrite` at the end of the file. -/
def fwrite (e : Editor F) (f : F) (text : Text) : F → Option Text :=
  Function.update e.files f (some (content e.files f ++ text))

/-- A key in `_fopen_window`, and what follows it there and in the main loop. -/
def fopenWindow (resolve : Text → Option F) (e : Editor F) (fname : Text) (ret : ℤ)
    (symbol : ℕ) : Option (Editor F) :=
  if symbol = keyEnter then
    if fname.length < fnameSize then
      if ret = 0 then e.fopen resolve (openedName fname) else some { e with window := .main }
    else none
  else if symbol = keyLeft then some { e with window := .fopen fname 0 }
  else if symbol = keyRight then some { e with window := .fopen fname (-1) }
  else if isPrintable symbol then
    if fname.length < fnameSize then some { e with window := .fopen (fname ++ [symbol]) ret }
    else none
  else some e

/-- A key in `_fsave_window`, and what follows it there and in the main loop. -/
def fsaveWindow (e : Editor F) (ret : ℤ) (symbol : ℕ) : Option (Editor F) :=
  if symbol = keyEnter then
    if ret = 0 then
      e.file.map fun f => { e with window := .saved, files := e.fwrite f e.tmpBuf }
    else some { e with window := .main }
  else if symbol = keyLeft then some { e with window := .fsave 0 }
  else if symbol = keyRight then some { e with window := .fsave (-1) }
  else some e

/-- A key in the main loop. -/
def mainLoop (e : Editor F) (symbol : ℕ) : Option (Editor F) :=
  if symbol = keyF 1 then some { e with window := .fopen [] 0 }
  else if symbol = keyF 2 then
    if e.file = none then some e else some { e with window := .fsave 0 }
  else if symbol = keyF 3 then some { e with window := .quit }
  else if isPrintable symbol ∨ symbol = keyEnter then
    if e.file = none then some e
    else if e.tmpBuf.length < bufSize then some { e with tmpBuf := e.tmpBuf ++ [symbol] }
    else none
  else some e

/-- A key. -/
def step (resolve : Text → Option F) (e : Editor F) (symbol : ℕ) : Option (Editor F) :=
  match e.window with
  | .main => e.mainLoop symbol
  | .fopen fname ret => e.fopenWindow resolve fname ret symbol
  | .fsave ret => e.fsaveWindow ret symbol
  | .saved | .quit => some e

end Editor

/-- The program on a sequence of keys; those after its end are not read. -/
def secondTask (resolve : Text → Option F) (files : F → Option Text) (keys : List ℕ) :
    Option (Editor F) :=
  keys.foldlM (Editor.step resolve) ⟨.main, none, [], files⟩

end EmbeddedC.TextEditor
