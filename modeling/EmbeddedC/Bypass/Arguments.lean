import EmbeddedC.Lib.Machine
import EmbeddedC.Bypass.Payload

/-!
# Homework 4: the copies of the arguments

The loop over `getopt` copies the arguments of `-f`, `-p` and `-h` to blocks from `malloc`, and
frees the copy that an option has made before.  A second `-f` frees the copy of `-p` instead.

* `Opt`, `Memory`: the options, and the blocks with the pointers to them;
* `parse`: the loop; where `malloc` puts a block is part of an option;
* `Intact`: every pointer has a block of its own, with the last argument;
* `Misplaced`: an option `-f` came again when there was already a `-p`;
* `intact_iff`: nothing undefined has happened, and all is intact, exactly if no option was
  misplaced;
  `Memory.Intact.options`: then the program goes on with the last arguments.
-/

namespace EmbeddedC.Bypass

/-- An option with its argument; `-l` and `-b` with what `atoi` makes of it. -/
inductive Opt
  | f (arg : List Char)
  | p (arg : List Char)
  | l (arg : ℤ)
  | h (arg : List Char)
  | b (arg : ℤ)
  deriving DecidableEq

/-- The live blocks, and the variables; a pointer is `none` for `NULL`.  `undefined` says that a
block was freed that is not live, and `seen` is the history of the options. -/
structure Memory where
  block : ℕ → Option (List Char)
  fileName : Option ℕ
  charText : Option ℕ
  hexText : Option ℕ
  charLen : ℤ
  hexLen : ℤ
  undefined : Bool
  seen : List Opt

def Memory.initial : Memory := ⟨fun _ => none, none, none, none, -1, -1, false, []⟩

namespace Memory

/-- `free`, which does nothing for `NULL`. -/
def free (m : Memory) : Option ℕ → Memory
  | none => m
  | some a => { m with
      block := Function.update m.block a none
      undefined := m.undefined || m.block a = none }

/-- `malloc(strlen(optarg))` and `strncpy`; the block is put at `place`. -/
def copy (m : Memory) (place : ℕ) (arg : List Char) : Memory :=
  { m with block := Function.update m.block place (some arg) }

/-- What an option frees: nothing when it comes for the first time. -/
def freed (m : Memory) : Opt → Option ℕ
  -- not the copy of the name
  | .f _ => if m.fileName = none then none else m.charText
  | .p _ => m.charText
  | .h _ => m.hexText
  | .l _ | .b _ => none

/-- The `switch` over the options. -/
def option (m : Memory) (place : ℕ) (o : Opt) : Memory :=
  let m' := m.free (m.freed o)
  match o with
  | .f arg => { m'.copy place arg with fileName := some place }
  | .p arg => { m'.copy place arg with charText := some place }
  | .l arg => { m' with charLen := arg }
  | .h arg => { m'.copy place arg with hexText := some place }
  | .b arg => { m' with hexLen := arg }

end Memory

/-- The loop over the options.  `malloc` does not use the place of a live block. -/
def parse : Machine Memory (Opt × ℕ) where
  init m := m = .initial
  step
    | m, (o, place) =>
      if ((m.free (m.freed o)).block place).isSome then none
      else some { m.option place o with seen := m.seen ++ [o] }

def Opt.fileName : Opt → Option (List Char)
  | .f arg => some arg
  | _ => none

def Opt.charText : Opt → Option (List Char)
  | .p arg => some arg
  | _ => none

def Opt.hexText : Opt → Option (List Char)
  | .h arg => some arg
  | _ => none

def Opt.charLen : Opt → Option ℤ
  | .l arg => some arg
  | _ => none

def Opt.hexLen : Opt → Option ℤ
  | .b arg => some arg
  | _ => none

/-- The argument of the last option of one kind. -/
def lastArg {α : Type} (arg : Opt → Option α) (seen : List Opt) : Option α :=
  (seen.filterMap arg).getLast?

/-- Every pointer has a live block of its own. -/
structure Memory.Own (m : Memory) : Prop where
  fileName : ∀ a, m.fileName = some a → m.block a ≠ none
  charText : ∀ a, m.charText = some a → m.block a ≠ none ∧ m.fileName ≠ some a
  hexText : ∀ a, m.hexText = some a →
    m.block a ≠ none ∧ m.fileName ≠ some a ∧ m.charText ≠ some a

/-- Every pointer has a block of its own, with the last argument; the lengths are the last ones. -/
structure Memory.Intact (m : Memory) : Prop where
  own : m.Own
  fileName : m.fileName.map m.block = (lastArg Opt.fileName m.seen).map some
  charText : m.charText.map m.block = (lastArg Opt.charText m.seen).map some
  hexText : m.hexText.map m.block = (lastArg Opt.hexText m.seen).map some
  charLen : m.charLen = (lastArg Opt.charLen m.seen).getD (-1)
  hexLen : m.hexLen = (lastArg Opt.hexLen m.seen).getD (-1)

/-- There is an `-f` behind another `-f` and a `-p`. -/
def Misplaced (seen : List Opt) : Prop :=
  ∃ pre arg post, seen = pre ++ .f arg :: post ∧ (∃ a, .f a ∈ pre) ∧ ∃ a, .p a ∈ pre

variable {m m' : Memory} {o : Opt} {place : ℕ} {seen : List Opt}

theorem lastArg_concat {α : Type} (arg : Opt → Option α) (seen : List Opt) (o : Opt) :
    lastArg arg (seen ++ [o]) = (arg o).or (lastArg arg seen) := by
  rw [lastArg, List.filterMap_append]
  cases h : arg o with
  | none => simp [lastArg, h]
  | some x => simp [h]

theorem misplaced_concat : Misplaced (seen ++ [o]) ↔
    Misplaced seen ∨ ((∃ a, o = .f a) ∧ (∃ a, .f a ∈ seen) ∧ ∃ a, .p a ∈ seen) := by
  constructor
  · rintro ⟨pre, arg, post, hsplit, hf, hp⟩
    rcases List.eq_nil_or_concat post with rfl | ⟨post, x, rfl⟩
    · obtain ⟨rfl, hx⟩ := List.append_inj' hsplit rfl
      exact .inr ⟨⟨arg, List.singleton_inj.1 hx⟩, hf, hp⟩
    · have hsplit' : seen ++ [o] = (pre ++ .f arg :: post) ++ [x] := by simpa using hsplit
      obtain ⟨rfl, -⟩ := List.append_inj' hsplit' rfl
      exact .inl ⟨pre, arg, post, rfl, hf, hp⟩
  · rintro (⟨pre, arg, post, rfl, hf, hp⟩ | ⟨⟨a, rfl⟩, hf, hp⟩)
    · exact ⟨pre, arg, post ++ [o], by simp, hf, hp⟩
    · exact ⟨seen, a, [], rfl, hf, hp⟩

/-- What is known of the pointers. -/
structure Inv (m : Memory) : Prop where
  fileName : m.fileName = none ↔ ∀ a, .f a ∉ m.seen
  charText : m.charText = none ↔ ∀ a, .p a ∉ m.seen
  hexText : m.hexText = none ↔ ∀ a, .h a ∉ m.seen
  good : ¬ Misplaced m.seen → m.undefined = false ∧ m.Intact
  bad : Misplaced m.seen → m.charText ≠ none ∧ (m.undefined = true ∨ ¬ m.Own)

/-- Pointers that have blocks of their own keep them. -/
theorem Memory.Own.option (h : m.Own) (hundefined : m.undefined = false)
    (hplace : (m.free (m.freed o)).block place = none)
    (hf : ∀ arg, o = .f arg → m.fileName = none ∨ m.charText = none) :
    (m.option place o).undefined = false ∧ (m.option place o).Own := by
  obtain ⟨h1, h2, h3⟩ := h
  cases o with
  | f arg =>
    have hfreed : m.freed (.f arg) = none := by
      rcases hf arg rfl with hnone | hnone <;> simp [Memory.freed, hnone]
    rw [hfreed] at hplace
    simp only [Memory.option, hfreed, Memory.free, Memory.copy] at *
    refine ⟨hundefined, ?_, ?_, ?_⟩ <;> grind
  | p arg =>
    cases hc : m.charText <;>
      simp only [Memory.option, Memory.freed, hc, Memory.free, Memory.copy,
        Function.update_apply] at *
    all_goals refine ⟨?_, ?_, ?_, ?_⟩ <;> grind
  | h arg =>
    cases hc : m.hexText <;>
      simp only [Memory.option, Memory.freed, hc, Memory.free, Memory.copy,
        Function.update_apply] at *
    all_goals refine ⟨?_, ?_, ?_, ?_⟩ <;> grind
  | l arg | b arg => exact ⟨hundefined, h1, h2, h3⟩

/-- Those that have not do not get them, either. -/
theorem Memory.own_of_option (hcharText : m.charText ≠ none)
    (hplace : (m.free (m.freed o)).block place = none)
    (hundefined : (m.option place o).undefined = false) (h : (m.option place o).Own) :
    m.undefined = false ∧ m.Own ∧ ∀ arg, o = .f arg → m.fileName = none := by
  obtain ⟨h1, h2, h3⟩ := h
  obtain ⟨a, ha⟩ := Option.ne_none_iff_exists'.1 hcharText
  cases o with
  | f arg =>
    cases hc : m.fileName <;>
      simp only [Memory.option, Memory.freed, hc, ha, Memory.free, Memory.copy,
        Function.update_apply, reduceCtorEq, if_true, if_false] at hplace hundefined h1 h2 h3
    · refine ⟨hundefined, ⟨?_, ?_, ?_⟩, ?_⟩ <;> grind
    · grind
  | p arg =>
    simp only [Memory.option, Memory.freed, ha, Memory.free, Memory.copy,
      Function.update_apply] at hplace hundefined h1 h2 h3
    refine ⟨?_, ⟨?_, ?_, ?_⟩, ?_⟩ <;> grind
  | h arg =>
    cases hc : m.hexText <;>
      simp only [Memory.option, Memory.freed, hc, ha, Memory.free, Memory.copy,
        Function.update_apply] at hplace hundefined h1 h2 h3
    all_goals refine ⟨?_, ⟨?_, ?_, ?_⟩, ?_⟩ <;> grind
  | l arg | b arg => exact ⟨hundefined, ⟨h1, h2, h3⟩, nofun⟩

@[simp] theorem Memory.free_fileName (m : Memory) (ptr : Option ℕ) :
    (m.free ptr).fileName = m.fileName := by cases ptr <;> rfl

@[simp] theorem Memory.free_charText (m : Memory) (ptr : Option ℕ) :
    (m.free ptr).charText = m.charText := by cases ptr <;> rfl

@[simp] theorem Memory.free_hexText (m : Memory) (ptr : Option ℕ) :
    (m.free ptr).hexText = m.hexText := by cases ptr <;> rfl

@[simp] theorem Memory.free_charLen (m : Memory) (ptr : Option ℕ) :
    (m.free ptr).charLen = m.charLen := by cases ptr <;> rfl

@[simp] theorem Memory.free_hexLen (m : Memory) (ptr : Option ℕ) :
    (m.free ptr).hexLen = m.hexLen := by cases ptr <;> rfl

/-- `free` keeps the other blocks. -/
theorem Memory.block_free {a : ℕ} {ptr : Option ℕ} (h : ptr ≠ some a) :
    (m.free ptr).block a = m.block a := by
  cases ptr with
  | none => rfl
  | some b => exact Function.update_of_ne (fun hab => h (by rw [hab])) _ _

/-- A block that is neither freed nor new keeps its text. -/
theorem Memory.map_block_option {ptr : Option ℕ}
    (h : ∀ a, ptr = some a → m.freed o ≠ some a ∧ a ≠ place) :
    ptr.map (m.option place o).block = ptr.map m.block := by
  cases ptr with
  | none => rfl
  | some a =>
    obtain ⟨hfreed, hplace⟩ := h a rfl
    rw [Option.map_some, Option.map_some, ← Memory.block_free (m := m) hfreed]
    cases o with
    | f arg | p arg | h arg => exact congrArg some (Function.update_of_ne hplace _ _)
    | l arg | b arg => rfl

theorem Memory.Intact.option (h : m.Intact) (hundefined : m.undefined = false)
    (hplace : (m.free (m.freed o)).block place = none)
    (hf : ∀ arg, o = .f arg → m.fileName = none ∨ m.charText = none) :
    { m.option place o with seen := m.seen ++ [o] }.Intact := by
  obtain ⟨hown, h1, h2, h3, h4, h5⟩ := h
  have hown' := (hown.option hundefined hplace hf).2
  have hkept {a : ℕ} (ha : m.block a ≠ none) (hfreed : m.freed o ≠ some a) :
      m.freed o ≠ some a ∧ a ≠ place := by
    refine ⟨hfreed, ?_⟩
    rintro rfl
    exact ha (Memory.block_free hfreed ▸ hplace)
  have hlast {α : Type} (arg : Opt → Option α) := lastArg_concat arg m.seen o
  obtain ⟨o1, o2, o3⟩ := hown
  refine ⟨⟨hown'.1, hown'.2, hown'.3⟩, ?_, ?_, ?_, ?_, ?_⟩ <;> dsimp only <;> rw [hlast]
  · cases o with
    | f arg => simp [Memory.option, Opt.fileName, Memory.copy]
    | p arg | h arg | l arg | b arg =>
      refine Eq.trans ?_ h1
      refine (congrArg (Option.map _) (by simp [Memory.option, Memory.copy])).trans
        (Memory.map_block_option fun a ha => hkept (o1 a ha) ?_)
      simp only [Memory.freed]
      grind
  · cases o with
    | p arg => simp [Memory.option, Opt.charText, Memory.copy]
    | f arg | h arg | l arg | b arg =>
      refine Eq.trans ?_ h2
      refine (congrArg (Option.map _) (by simp [Memory.option, Memory.copy])).trans
        (Memory.map_block_option fun a ha => hkept (o2 a ha).1 ?_)
      simp only [Memory.freed]
      grind
  · cases o with
    | h arg => simp [Memory.option, Opt.hexText, Memory.copy]
    | f arg | p arg | l arg | b arg =>
      refine Eq.trans ?_ h3
      refine (congrArg (Option.map _) (by simp [Memory.option, Memory.copy])).trans
        (Memory.map_block_option fun a ha => hkept (o3 a ha).1 ?_)
      simp only [Memory.freed]
      grind
  · cases o <;> simp [Memory.option, Opt.charLen, h4, Memory.copy]
  · cases o <;> simp [Memory.option, Opt.hexLen, h5, Memory.copy]

theorem Inv.step (h : Inv m) (hs : parse.step m (o, place) = some m') : Inv m' := by
  obtain ⟨hf, hp, hh, hgood, hbad⟩ := h
  simp only [parse] at hs
  split at hs
  · cases hs
  rename_i hplace
  have hplace : (m.free (m.freed o)).block place = none := by simpa using hplace
  obtain rfl := Option.some.inj hs
  have hmis : Misplaced (m.seen ++ [o]) ↔ _ := misplaced_concat
  constructor
  · cases o <;> simp only [Memory.option, Memory.copy, Memory.free_fileName] <;> grind
  · cases o <;> simp only [Memory.option, Memory.copy, Memory.free_charText] <;> grind
  · cases o <;> simp only [Memory.option, Memory.copy, Memory.free_hexText] <;> grind
  · intro hnot
    rw [hmis] at hnot
    push Not at hnot
    obtain ⟨hundefined, hintact⟩ := hgood hnot.1
    have hfirst : ∀ arg, o = .f arg → m.fileName = none ∨ m.charText = none := by
      intro arg harg
      by_contra hboth
      push Not at hboth
      grind
    exact ⟨(hintact.own.option hundefined hplace hfirst).1,
      hintact.option hundefined hplace hfirst⟩
  · intro hm
    rw [hmis] at hm
    have hcharText : m.charText ≠ none := by
      rcases hm with hm | ⟨-, -, a, ha⟩
      · exact (hbad hm).1
      · exact fun hnone => hp.1 hnone a ha
    constructor
    · cases o <;> simp [Memory.option, Memory.copy, hcharText]
    · by_contra hgone
      push Not at hgone
      obtain ⟨hundefined, hown, hfirst⟩ := Memory.own_of_option hcharText hplace
        (by simpa using hgone.1) ⟨hgone.2.1, hgone.2.2, hgone.2.3⟩
      rcases hm with hm | ⟨⟨a, rfl⟩, ⟨b, hb⟩, -⟩
      · rcases (hbad hm).2 with htrue | hnot
        · rw [hundefined] at htrue
          cases htrue
        · exact hnot hown
      · exact hf.1 (hfirst a rfl) b hb

theorem inv_of_reachable (h : parse.Reachable m) : Inv m := by
  refine h.invariant ?_ fun m a m' _ hinv hstep => hinv.step hstep
  rintro _ rfl
  have hnot : ¬ Misplaced ([] : List Opt) := by
    rintro ⟨pre, arg, post, hsplit, -⟩
    simp at hsplit
  exact ⟨by simp [Memory.initial], by simp [Memory.initial], by simp [Memory.initial],
    fun _ => ⟨rfl, ⟨nofun, nofun, nofun⟩, rfl, rfl, rfl, rfl, rfl⟩, fun hm => absurd hm hnot⟩

/-- **The arguments.** Whatever the options are, and wherever the blocks are put: nothing undefined
has happened, and every pointer has a block of its own with the last argument of its option, exactly
if no `-f` came behind another `-f` and a `-p`. -/
theorem intact_iff (h : parse.Reachable m) :
    m.undefined = false ∧ m.Intact ↔ ¬ Misplaced m.seen := by
  have hinv := inv_of_reachable h
  refine ⟨fun hintact hm => ?_, hinv.good⟩
  rcases (hinv.bad hm).2 with htrue | hnot
  · rw [hintact.1] at htrue
    cases htrue
  · exact hnot hintact.2.own

/-- What the program goes on with. -/
def Memory.options (m : Memory) : Options where
  fileName := m.fileName.bind m.block
  charText := m.charText.bind m.block
  charLen := m.charLen
  hexText := m.hexText.bind m.block
  hexLen := m.hexLen

/-- These are the last arguments; a length that is missing is `-1`. -/
theorem Memory.Intact.options (h : m.Intact) :
    m.options = ⟨lastArg Opt.fileName m.seen, lastArg Opt.charText m.seen,
      (lastArg Opt.charLen m.seen).getD (-1), lastArg Opt.hexText m.seen,
      (lastArg Opt.hexLen m.seen).getD (-1)⟩ := by
  have hread {ptr : Option ℕ} {last : Option (List Char)} (hmap : ptr.map m.block = last.map some) :
      ptr.bind m.block = last := by
    cases ptr <;> cases last <;> simp_all
  rw [Memory.options, hread h.fileName, hread h.charText, hread h.hexText, h.charLen, h.hexLen]

/-- The name is given again after the password. -/
def renamed : List (Opt × ℕ) := [(.f ['a'], 0), (.p ['b'], 1), (.f ['c'], 2)]

theorem intact_iff_renamed :
    ¬ (((parse.run .initial renamed).get (by decide)).undefined = false ∧
      ((parse.run .initial renamed).get (by decide)).Intact) := by
  have h := intact_iff (Machine.reachable_of_run rfl
    (Option.some_get (x := parse.run .initial renamed) (by decide)).symm)
  refine fun hintact => h.1 hintact ⟨[.f ['a'], .p ['b']], ['c'], [], rfl, ⟨['a'], ?_⟩, ⟨['b'], ?_⟩⟩
  · exact List.mem_cons_self
  · exact List.mem_cons_of_mem _ List.mem_cons_self

end EmbeddedC.Bypass
