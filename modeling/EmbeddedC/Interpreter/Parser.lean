import EmbeddedC.Lib.Tokens

/-!
# Homeworks 6 and 9: the parser of the command interpreters

`second_task` of homework 6 and `third_task` of homework 9 read a line, cut it into tokens and store
them in `cmds`, an array with one array of arguments for every command.  The programs differ in
which tokens end a command, and in `redir_cmd`.

* `Ptr`, `Arr`, `Store`: arguments, arrays, and the record of the stores;
* `State`: the variables of the parser, and the blocks it has obtained and given back;
* `nextCmd`, `addArg`, `parseLoop`: what is done with a token;
* `secondTask`, `thirdTask`: the two programs;
* `cleanup`: the blocks that `_cleanup` frees.

The number that `malloc` and `realloc` are called with is the number of elements; how many bytes an
element takes is looked at elsewhere, and so is whether a store is inside its block; what a store
beyond it destroys is not modelled.  Allocations succeed.
-/

namespace EmbeddedC.Interpreter

abbrev Text := List Char

/-- `DEF_CMDS_LIM`, `T3_DEF_CMDS_LIM` -/
def defCmdsLim : ℕ := 1

/-- `DEF_PARAMS_NUM`, `T3_DEF_PARAMS_NUM` -/
def defParamsNum : ℕ := 2

/-- `DEF_STR_SIZE`, `T3_DEF_STR_SIZE` -/
def defStrSize : ℕ := 20

/-- `STDIN_READ_LIM`, `T3_STDIN_READ_LIM` -/
def stdinReadLim : ℕ := 80

/-! ### Strings -/

def nul : Char := '\x00'

/-- The bytes of a block; `none` was never written. -/
abbrev Bytes := List (Option Char)

/-- The string that begins a block, when it is terminated. -/
def cString : Bytes → Option Text
  | [] | none :: _ => none
  | some c :: bytes => if c = nul then some [] else (cString bytes).map (c :: ·)

/-- What `snprintf` writes. -/
def snprintfChars (size : ℕ) (text : Text) : List Char := text.take (size - 1) ++ [nul]

/-- What `strncpy` writes. -/
def strncpyChars (size : ℕ) (text : Text) : List Char :=
  text.take size ++ List.replicate (size - text.length) nul

/-- What `%s` prints; for `NULL` this is the text of the C library. -/
def percentS (text : Option Text) : Text := text.getD "(null)".toList

/-- The string in `buf` after `fgets` from `input`, with the newline replaced. -/
def readLine (input : Text) : Text :=
  ((input.take (stdinReadLim - 1)).takeWhile (· ≠ '\n')).takeWhile (· ≠ nul)

/-- The tokens that `strtok(.., " ")` returns for `buf`. -/
def lineTokens (input : Text) : List Text :=
  Tokens.strtokCalls (· = ' ') (readLine input).length (readLine input)

/-! ### Memory -/

/-- An element of an array of arguments. -/
inductive Ptr
  | unset
  | null
  | to (block : ℕ) (bytes : Bytes)
  deriving DecidableEq

/-- Overwrite the beginning of the block that is pointed to. -/
def Ptr.write (new : List Char) : Ptr → Ptr
  | .to block bytes => .to block ((new.map some ++ bytes.drop new.length).take bytes.length)
  | p => p

/-- The string that is pointed to. -/
def Ptr.string : Ptr → Option Text
  | .to _ bytes => cString bytes
  | .unset | .null => none

/-- The number of bytes to write to. -/
def Ptr.size : Ptr → ℕ
  | .to _ bytes => bytes.length
  | .unset | .null => 0

/-- The block that `free` gets. -/
def Ptr.block? : Ptr → Option ℕ
  | .to block _ => some block
  | .unset | .null => none

/-- A block that holds an array. -/
structure Arr (α : Type) where
  block : ℕ
  elems : List α

/-- Elements that are kept and elements that are added when an array is reallocated. -/
def resize {α : Type} (elems : List α) (n : ℕ) (unset : α) : List α :=
  elems.take n ++ List.replicate (n - elems.length) unset

/-- What is written to. -/
inductive Target
  | params
  | cmds
  | args (i : ℕ)
  | chars (i j : ℕ)
  deriving DecidableEq

/-- A store to element `index` (for a string: up to it) of an array that `size` was requested
for. -/
structure Store where
  target : Target
  index : ℕ
  size : ℕ
  deriving DecidableEq

/-! ### The parser's variables -/

/-- The variables of the parser.  Blocks are numbered as they are obtained, up to `nextBlock`;
`returned` are those that were passed to `realloc`, and `stores` is the history of the stores. -/
structure State where
  cmdsLim : ℕ
  cmdsParams : Arr (Option ℕ)
  cmds : Arr (Option (Arr Ptr))
  curCmd : ℕ
  curParam : ℕ
  redirCmd : ℤ
  nextBlock : ℕ
  returned : List ℕ
  stores : List Store

namespace State

/-- `cmds_params[i]` -/
def params (s : State) (i : ℕ) : ℕ := ((s.cmdsParams.elems[i]?).join).getD 0

/-- `cmds[i]` -/
def args (s : State) (i : ℕ) : List Ptr := ((s.cmds.elems[i]?).join.map Arr.elems).getD []

/-- `cmds[i][j]` -/
def arg (s : State) (i j : ℕ) : Ptr := ((s.args i)[j]?).getD .unset

def log (s : State) (store : Store) : State := { s with stores := s.stores ++ [store] }

/-- `cmds_params[i] = n` -/
def setParams (s : State) (i n : ℕ) : State :=
  { s with cmdsParams := { s.cmdsParams with elems := s.cmdsParams.elems.set i (some n) } }.log
    ⟨.params, i, s.cmdsParams.elems.length⟩

/-- `cmds[i] = malloc(n)` -/
def mallocArgs (s : State) (i n : ℕ) : State :=
  { s with
    cmds := { s.cmds with
      elems := s.cmds.elems.set i (some ⟨s.nextBlock, List.replicate n .unset⟩) }
    nextBlock := s.nextBlock + 1 }.log ⟨.cmds, i, s.cmds.elems.length⟩

/-- Change the elements of `cmds[i]`. -/
def modifyArgs (s : State) (i : ℕ) (f : List Ptr → List Ptr) : State :=
  { s with cmds := { s.cmds with
    elems := s.cmds.elems.modify i (Option.map fun a => { a with elems := f a.elems }) } }

/-- `cmds[i][j] = p` -/
def setArg (s : State) (i j : ℕ) (p : Ptr) : State :=
  (s.modifyArgs i (List.set · j p)).log ⟨.args i, j, (s.args i).length⟩

/-- `cmds[i][j] = malloc(DEF_STR_SIZE)` -/
def mallocArg (i : ℕ) (s : State) (j : ℕ) : State :=
  { s with nextBlock := s.nextBlock + 1 }.setArg i j
    (.to s.nextBlock (List.replicate defStrSize none))

/-- Characters are written to `cmds[i][j]`. -/
def writeChars (s : State) (i j : ℕ) (new : List Char) : State :=
  (s.modifyArgs i (List.modify · j (Ptr.write new))).log
    ⟨.chars i j, new.length - 1, (s.arg i j).size⟩

/-- `cmds_params = realloc(cmds_params, n)` -/
def reallocParams (s : State) (n : ℕ) : State :=
  { s with
    cmdsParams := ⟨s.nextBlock, resize s.cmdsParams.elems n none⟩
    nextBlock := s.nextBlock + 1
    returned := s.returned ++ [s.cmdsParams.block] }

/-- `cmds = realloc(cmds, n)` -/
def reallocCmds (s : State) (n : ℕ) : State :=
  { s with
    cmds := ⟨s.nextBlock, resize s.cmds.elems n none⟩
    nextBlock := s.nextBlock + 1
    returned := s.returned ++ [s.cmds.block] }

/-- `cmds[i] = realloc(cmds[i], n)` -/
def reallocArgs (s : State) (i n : ℕ) : State :=
  { s with
    cmds := { s.cmds with
      elems := s.cmds.elems.modify i
        (Option.map fun a => ⟨s.nextBlock, resize a.elems n .unset⟩) }
    nextBlock := s.nextBlock + 1
    returned := s.returned ++ ((s.cmds.elems[i]?).join.map Arr.block).toList }

/-! ### What is done with a token -/

/-- `cmds[i]` and its arguments are allocated. -/
def initCmd (s : State) (i : ℕ) : State :=
  (List.range (s.params i)).foldl (mallocArg i) (s.mallocArgs i (s.params i))

/-- The first token of a command, or `NULL`, is written to `cmds[cur_cmd][0]`. -/
def startCmd (s : State) (token : Option Text) : State :=
  s.writeChars s.curCmd 0 (snprintfChars defStrSize ("/bin/".toList ++ percentS token))

/-- The arguments of the current command end with `NULL`. -/
def endCmd (s : State) : State := s.setArg s.curCmd s.curParam .null

/-- There is room for one more command. -/
def growCmds (s : State) : State :=
  let s := (s.reallocParams (s.curCmd + 1)).setParams s.curCmd defParamsNum
  { (s.reallocCmds (s.curCmd + 1)).initCmd s.curCmd with cmdsLim := s.curCmd + 1 }

/-- After a separator: the current command ends, and the next one begins with `token`. -/
def nextCmd (s : State) (token : Option Text) : State :=
  let s := { s.endCmd with curCmd := s.curCmd + 1, curParam := 1 }
  (if s.cmdsLim ≤ s.curCmd then s.growCmds else s).startCmd token

/-- There is room for one more argument. -/
def growArgs (s : State) : State :=
  let s := s.setParams s.curCmd (s.params s.curCmd + 1)
  (s.reallocArgs s.curCmd (s.params s.curCmd)).mallocArg s.curCmd (s.params s.curCmd - 1)

/-- Any other token is an argument of the current command. -/
def addArg (s : State) (token : Text) : State :=
  let s := if s.params s.curCmd - 1 ≤ s.curParam then s.growArgs else s
  { s.writeChars s.curCmd s.curParam (strncpyChars defStrSize token) with
    curParam := s.curParam + 1 }

/-- The state before the first token. -/
def initial : State :=
  (List.range defCmdsLim).foldl (fun s i => (s.setParams i defParamsNum).initCmd i) {
    cmdsLim := defCmdsLim
    cmdsParams := ⟨1, List.replicate defCmdsLim none⟩
    cmds := ⟨0, List.replicate defCmdsLim none⟩
    curCmd := 0
    curParam := 1
    redirCmd := -1
    nextBlock := 2
    returned := []
    stores := [] }

/-- The blocks that `_cleanup` frees, in this order. -/
def cleanup (s : State) : List ℕ :=
  ((List.range s.cmdsLim).flatMap fun i =>
    ((List.range (s.params i)).reverse.filterMap fun j => (s.arg i j).block?) ++
      ((s.cmds.elems[i]?).join.map Arr.block).toList) ++
    [s.cmds.block, s.cmdsParams.block]

end State

/-! ### The programs -/

/-- What the programs differ in: the tokens that end a command, and those of them that redirect
its output. -/
structure Syntax where
  isSep : Text → Bool
  isPipe : Text → Bool
  isSep_of_isPipe : ∀ token, isPipe token = true → isSep token = true

/-- The loop over the tokens after the first one. -/
def Syntax.parseLoop (syn : Syntax) : List Text → State → State
  | [], s => s
  | token :: tokens, s =>
    let s := if syn.isPipe token then { s with redirCmd := s.curCmd } else s
    if syn.isSep token then
      match tokens with
      | [] => s.nextCmd none
      | name :: tokens => syn.parseLoop tokens (s.nextCmd (some name))
    else syn.parseLoop tokens (s.addArg token)

/-- The parser on the tokens of a line. -/
def Syntax.parse (syn : Syntax) (tokens : List Text) : State :=
  (syn.parseLoop tokens.tail (State.initial.startCmd tokens.head?)).endCmd

/-- The token begins with `&&`. -/
def isAnd (token : Text) : Bool := token[0]? == some '&' && token[1]? == some '&'

/-- The token begins with `|`. -/
def isBar (token : Text) : Bool := token[0]? == some '|'

/-- `second_task` of homework 6 -/
def secondTask : Syntax where
  isSep := isAnd
  isPipe _ := false
  isSep_of_isPipe _ h := by cases h

/-- `third_task` of homework 9 -/
def thirdTask : Syntax where
  isSep token := isAnd token || isBar token
  isPipe := isBar
  isSep_of_isPipe token h := by rw [h, Bool.or_true]

end EmbeddedC.Interpreter
