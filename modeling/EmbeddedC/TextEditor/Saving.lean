import EmbeddedC.TextEditor.Editor

/-!
# Homework 10: what the text editor saves

`tmp_buf` and its index are not reset when another file is opened, and nothing checks how much is
typed or whether `fopen` succeeds.

* `Session`: the editor as its user sees it, with the text typed since the file was opened;
* `Sim`, `sim_step`: the program follows the session as long as everything typed fits;
* `Saves`: the file gets this text, and no other file changes;
* `saves_iff`: that is so exactly if nothing was typed before, and everything fits;
  `mixed_up`: two files.
-/

namespace EmbeddedC.TextEditor

variable {F : Type}

/-! ### The session -/

/-- The editor as its user sees it: `typed` since the file was opened, `earlier` into files that
were opened before.  `opened` and `named` tell whether every file could be opened, and every name
fits into `fname`. -/
structure Session (F : Type) where
  window : Window
  file : Option F
  earlier : Text
  typed : Text
  opened : Bool
  named : Bool

namespace Session

/-- A name is confirmed. -/
def confirmName (resolve : Text → Option F) (s : Session F) (fname : Text) : Session F :=
  match resolve fname with
  | some f => { s with
    window := .main, file := some f, earlier := s.earlier ++ s.typed, typed := [] }
  | none => { s with window := .main, opened := false }

/-- A key in the main loop. -/
def mainLoop (s : Session F) (symbol : ℕ) : Session F :=
  if symbol = keyF 1 then { s with window := .fopen [] 0 }
  else if symbol = keyF 2 then
    if s.file = none then s else { s with window := .fsave 0 }
  else if symbol = keyF 3 then { s with window := .quit }
  else if isPrintable symbol ∨ symbol = keyEnter then
    if s.file = none then s else { s with typed := s.typed ++ [symbol] }
  else s

/-- A key in the window that asks for a name. -/
def fopenWindow (resolve : Text → Option F) (s : Session F) (fname : Text) (ret : ℤ)
    (symbol : ℕ) : Session F :=
  if symbol = keyEnter then
    let s := { s with named := s.named && fname.length < fnameSize }
    if ret = 0 then s.confirmName resolve (openedName fname) else { s with window := .main }
  else if symbol = keyLeft then { s with window := .fopen fname 0 }
  else if symbol = keyRight then { s with window := .fopen fname (-1) }
  else if isPrintable symbol then { s with
    window := .fopen (fname ++ [symbol]) ret
    named := s.named && fname.length < fnameSize }
  else s

/-- A key in the window that asks whether to save. -/
def fsaveWindow (s : Session F) (ret : ℤ) (symbol : ℕ) : Session F :=
  if symbol = keyEnter then
    if ret = 0 then { s with window := .saved } else { s with window := .main }
  else if symbol = keyLeft then { s with window := .fsave 0 }
  else if symbol = keyRight then { s with window := .fsave (-1) }
  else s

def step (resolve : Text → Option F) (s : Session F) (symbol : ℕ) : Session F :=
  match s.window with
  | .main => s.mainLoop symbol
  | .fopen fname ret => s.fopenWindow resolve fname ret symbol
  | .fsave ret => s.fsaveWindow ret symbol
  | .saved | .quit => s

end Session

/-- The session of a sequence of keys. -/
def session (resolve : Text → Option F) (keys : List ℕ) : Session F :=
  keys.foldl (Session.step resolve) ⟨.main, none, [], [], true, true⟩

/-- Everything typed so far fits. -/
structure Session.Fits (s : Session F) : Prop where
  opened : s.opened = true
  named : s.named = true
  short : s.earlier.length + s.typed.length ≤ bufSize

variable {resolve : Text → Option F} {s : Session F}

theorem Session.Fits.of_mainLoop {symbol : ℕ} (h : (s.mainLoop symbol).Fits) : s.Fits := by
  unfold Session.mainLoop at h
  split at h
  · -- F1
    exact ⟨h.opened, h.named, h.short⟩
  split at h
  · -- F2, without and with a file
    split at h
    · exact h
    · exact ⟨h.opened, h.named, h.short⟩
  split at h
  · -- F3
    exact ⟨h.opened, h.named, h.short⟩
  split at h
  · -- a character, without and with a file
    split at h
    · exact h
    · have hshort := h.short
      dsimp only at hshort
      rw [List.length_append, List.length_singleton] at hshort
      exact ⟨h.opened, h.named, by omega⟩
  · exact h

theorem Session.Fits.of_confirmName {fname : Text} (h : (s.confirmName resolve fname).Fits) :
    s.Fits := by
  unfold Session.confirmName at h
  split at h
  · have hshort := h.short
    dsimp only at hshort
    rw [List.length_append] at hshort
    exact ⟨h.opened, h.named, by omega⟩
  · cases h.opened

theorem Session.Fits.of_fopenWindow {fname : Text} {ret : ℤ} {symbol : ℕ}
    (h : (s.fopenWindow resolve fname ret symbol).Fits) : s.Fits := by
  unfold Session.fopenWindow at h
  split at h
  · have hfits : ({ s with named := s.named && fname.length < fnameSize } : Session F).Fits := by
      split at h
      · exact h.of_confirmName
      · exact ⟨h.opened, h.named, h.short⟩
    exact ⟨hfits.opened, (Bool.and_eq_true_iff.1 hfits.named).1, hfits.short⟩
  split at h
  · exact ⟨h.opened, h.named, h.short⟩
  split at h
  · exact ⟨h.opened, h.named, h.short⟩
  split at h
  · exact ⟨h.opened, (Bool.and_eq_true_iff.1 h.named).1, h.short⟩
  · exact h

theorem Session.Fits.of_fsaveWindow {ret : ℤ} {symbol : ℕ} (h : (s.fsaveWindow ret symbol).Fits) :
    s.Fits := by
  unfold Session.fsaveWindow at h
  split at h
  · split at h <;> exact ⟨h.opened, h.named, h.short⟩
  split at h
  · exact ⟨h.opened, h.named, h.short⟩
  split at h
  · exact ⟨h.opened, h.named, h.short⟩
  · exact h

/-- What does not fit does not fit later. -/
theorem Session.Fits.of_step {symbol : ℕ} (h : (s.step resolve symbol).Fits) : s.Fits := by
  unfold Session.step at h
  split at h
  · exact h.of_mainLoop
  · exact h.of_fopenWindow
  · exact h.of_fsaveWindow
  · exact h
  · exact h

/-! ### The program follows the session -/

variable [DecidableEq F]

/-- The text typed since the file was opened is added to it, and no other file changes. -/
def Saves (files : F → Option Text) (s : Session F) (result : Option (Editor F)) : Prop :=
  ∃ e f, result = some e ∧ s.file = some f ∧
    ∀ g, content e.files g = content files g ++ if g = f then s.typed else []

/-- The program is where the session is. -/
structure Agrees (files : F → Option Text) (e : Editor F) (s : Session F) : Prop where
  window : e.window = s.window
  file : e.file = s.file
  tmpBuf : e.tmpBuf = s.earlier ++ s.typed
  hasFile : ∀ ret, s.window = .fsave ret → s.file ≠ none
  unsaved : s.window ≠ .saved → ∀ g, content e.files g = content files g
  saved : s.window = .saved → ∃ f, s.file = some f ∧
    ∀ g, content e.files g = content files g ++ if g = f then s.earlier ++ s.typed else []

/-- As long as everything fits, the program follows the session; then its behaviour is undefined. -/
def Sim (files : F → Option Text) (result : Option (Editor F)) (s : Session F) : Prop :=
  match result with
  | some e => Agrees files e s ∧ s.Fits
  | none => ¬ s.Fits

variable {files : F → Option Text} {e : Editor F}

theorem content_update (files : F → Option Text) (f g : F) (text : Text) :
    content (Function.update files f (some text)) g = if g = f then text else content files g := by
  rw [content, Function.update_apply]
  split
  · rfl
  · rfl

/-- Only the window has changed. -/
theorem Agrees.goto (h : Agrees files e s) (hfits : s.Fits) (hopen : s.window ≠ .saved)
    (window : Window) (hsaved : window ≠ .saved)
    (hfile : ∀ ret, window = .fsave ret → s.file ≠ none) :
    Sim files (some { e with window := window }) { s with window := window } :=
  ⟨⟨rfl, h.file, h.tmpBuf, hfile, fun _ => h.unsaved hopen, fun hw => absurd hw hsaved⟩,
    hfits.opened, hfits.named, hfits.short⟩

/-- A character is typed in the main loop. -/
theorem sim_type (h : Agrees files e s) (hfits : s.Fits) (hopen : s.window ≠ .saved)
    (symbol : ℕ) :
    Sim files (if e.tmpBuf.length < bufSize then some { e with tmpBuf := e.tmpBuf ++ [symbol] }
      else none) { s with typed := s.typed ++ [symbol] } := by
  have hlen : e.tmpBuf.length = s.earlier.length + s.typed.length := by
    rw [h.tmpBuf, List.length_append]
  have hlen' : (s.typed ++ [symbol]).length = s.typed.length + 1 := by
    rw [List.length_append, List.length_singleton]
  split
  · rename_i hroom
    refine ⟨⟨h.window, h.file, ?_, h.hasFile, h.unsaved, fun hw => absurd hw hopen⟩,
      hfits.opened, hfits.named, ?_⟩
    · dsimp only
      rw [h.tmpBuf, List.append_assoc]
    · dsimp only
      omega
  · rename_i hroom
    intro hfits'
    have hshort := hfits'.short
    dsimp only at hshort
    omega

/-- A key in the main loop. -/
theorem sim_mainLoop (h : Agrees files e s) (hfits : s.Fits) (hopen : s.window ≠ .saved)
    (symbol : ℕ) : Sim files (e.mainLoop symbol) (s.mainLoop symbol) := by
  unfold Editor.mainLoop Session.mainLoop
  split
  · -- F1
    exact h.goto hfits hopen (.fopen [] 0) (by decide) (fun ret hw => by cases hw)
  split
  · -- F2
    by_cases hfile : s.file = none
    · rw [if_pos (h.file.trans hfile), if_pos hfile]
      exact ⟨h, hfits⟩
    · rw [if_neg (h.file ▸ hfile), if_neg hfile]
      exact h.goto hfits hopen (.fsave 0) (by decide) (fun ret _ => hfile)
  split
  · -- F3
    exact h.goto hfits hopen .quit (by decide) (fun ret hw => by cases hw)
  split
  · -- a character
    by_cases hfile : s.file = none
    · rw [if_pos (h.file.trans hfile), if_pos hfile]
      exact ⟨h, hfits⟩
    · rw [if_neg (h.file ▸ hfile), if_neg hfile]
      exact sim_type h hfits hopen symbol
  · exact ⟨h, hfits⟩

/-- A name is confirmed. -/
theorem sim_fopen (h : Agrees files e s) (hfits : s.Fits) (hopen : s.window ≠ .saved)
    (fname : Text) : Sim files (e.fopen resolve fname) (s.confirmName resolve fname) := by
  unfold Editor.fopen Session.confirmName
  cases hf : resolve fname with
  | none => exact fun hfits' => Bool.false_ne_true hfits'.opened
  | some f =>
    have hkeep : ∀ g, content (Function.update e.files f (some (content e.files f))) g =
        content files g := by
      intro g
      rw [content_update]
      split
      · rename_i hg
        rw [hg, h.unsaved hopen]
      · exact h.unsaved hopen g
    refine ⟨⟨rfl, rfl, ?_, fun ret hw => ?_, fun _ => hkeep, fun hw => ?_⟩, hfits.opened,
      hfits.named, ?_⟩
    · dsimp only
      rw [h.tmpBuf, List.append_nil]
    · cases hw
    · cases hw
    · dsimp only
      rw [List.length_append]
      exact hfits.short

/-- A key in the window that asks for a name. -/
theorem sim_fopenWindow (h : Agrees files e s) (hfits : s.Fits) (hopen : s.window ≠ .saved)
    (fname : Text) (ret : ℤ) (symbol : ℕ) :
    Sim files (e.fopenWindow resolve fname ret symbol)
      (s.fopenWindow resolve fname ret symbol) := by
  have hnamed : (s.named && decide (fname.length < fnameSize)) = true ↔
      fname.length < fnameSize := by
    rw [hfits.named, Bool.true_and, decide_eq_true_iff]
  unfold Editor.fopenWindow Session.fopenWindow
  split
  · -- ENTER: the NUL behind the name needs room, too
    by_cases hroom : fname.length < fnameSize
    · rw [if_pos hroom, decide_eq_true hroom, Bool.and_true]
      split
      · exact sim_fopen h hfits hopen (openedName fname)
      · exact h.goto hfits hopen .main (by decide) (fun ret hw => by cases hw)
    · rw [if_neg hroom]
      intro hfits'
      split at hfits'
      · unfold Session.confirmName at hfits'
        split at hfits'
        · exact hroom (hnamed.1 hfits'.named)
        · exact hroom (hnamed.1 hfits'.named)
      · exact hroom (hnamed.1 hfits'.named)
  split
  · exact h.goto hfits hopen (.fopen fname 0) (fun hw => by cases hw) (fun ret hw => by cases hw)
  split
  · exact h.goto hfits hopen (.fopen fname (-1)) (fun hw => by cases hw) (fun ret hw => by cases hw)
  split
  · split
    · rename_i hroom
      rw [decide_eq_true hroom, Bool.and_true]
      exact h.goto hfits hopen (.fopen (fname ++ [symbol]) ret) (fun hw => by cases hw)
        (fun ret hw => by cases hw)
    · -- without room for the character the session does not fit
      rename_i hroom
      exact fun hfits' => hroom (hnamed.1 hfits'.named)
  · exact ⟨h, hfits⟩

/-- A key in the window that asks whether to save. -/
theorem sim_fsaveWindow (h : Agrees files e s) (hfits : s.Fits) {ret : ℤ}
    (hwindow : s.window = .fsave ret) (symbol : ℕ) :
    Sim files (e.fsaveWindow ret symbol) (s.fsaveWindow ret symbol) := by
  have hopen : s.window ≠ .saved := by
    rw [hwindow]
    exact fun hw => by cases hw
  have hfile := h.hasFile ret hwindow
  unfold Editor.fsaveWindow Session.fsaveWindow
  split
  · split
    · obtain ⟨f, hf⟩ := Option.ne_none_iff_exists'.1 hfile
      rw [h.file, hf]
      have hsaved : ∀ g, content (e.fwrite f e.tmpBuf) g =
          content files g ++ if g = f then s.earlier ++ s.typed else [] := by
        intro g
        rw [Editor.fwrite, content_update, h.tmpBuf, h.unsaved hopen]
        split
        · rename_i hg
          rw [hg]
        · rw [h.unsaved hopen, List.append_nil]
      exact ⟨⟨rfl, rfl, h.tmpBuf, (fun ret hw => by cases hw), (fun hw => absurd rfl hw),
        fun _ => ⟨f, rfl, hsaved⟩⟩, hfits.opened, hfits.named, hfits.short⟩
    · exact h.goto hfits hopen .main (by decide) (fun ret hw => by cases hw)
  split
  · exact h.goto hfits hopen (.fsave 0) (by decide) (fun ret _ => hfile)
  split
  · exact h.goto hfits hopen (.fsave (-1)) (by decide) (fun ret _ => hfile)
  · exact ⟨h, hfits⟩

/-- The program follows the session in a step. -/
theorem sim_step {result : Option (Editor F)} (h : Sim files result s) (symbol : ℕ) :
    Sim files (result.bind (Editor.step resolve · symbol)) (s.step resolve symbol) := by
  cases result with
  | none => exact fun hfits => h hfits.of_step
  | some e =>
    obtain ⟨h, hfits⟩ := h
    rw [Option.bind_some, Editor.step, Session.step, h.window]
    cases hwindow : s.window with
    | main => exact sim_mainLoop h hfits (by rw [hwindow]; decide) symbol
    | fopen fname ret =>
      refine sim_fopenWindow h hfits ?_ fname ret symbol
      rw [hwindow]
      exact fun hw => by cases hw
    | fsave ret => exact sim_fsaveWindow h hfits hwindow symbol
    | saved => exact ⟨h, hfits⟩
    | quit => exact ⟨h, hfits⟩

/-- The program follows the session through the keys that are left. -/
theorem sim_foldl {result : Option (Editor F)} {s : Session F} (h : Sim files result s)
    (keys : List ℕ) : Sim files (result.bind fun e => keys.foldlM (Editor.step resolve) e)
      (keys.foldl (Session.step resolve) s) := by
  induction keys generalizing result s with
  | nil => cases result <;> exact h
  | cons symbol keys ih =>
    have hstep : Sim files (result.bind (Editor.step resolve · symbol)) (s.step resolve symbol) :=
      sim_step h symbol
    have hrest := ih hstep
    rwa [Option.bind_assoc] at hrest

/-- The program follows the session through any sequence of keys. -/
theorem sim_run (resolve : Text → Option F) (files : F → Option Text) (keys : List ℕ) :
    Sim files (secondTask resolve files keys) (session resolve keys) := by
  have hstart : Sim files (some ⟨.main, none, [], files⟩)
      (⟨.main, none, [], [], true, true⟩ : Session F) := by
    refine ⟨⟨rfl, rfl, rfl, ?_, ?_, ?_⟩, rfl, rfl, ?_⟩
    · exact fun ret hw => by cases hw
    · exact fun _ g => rfl
    · exact fun hw => by cases hw
    · exact Nat.zero_le _
  exact sim_foldl hstart keys

/-! ### What is saved -/

/-- **What the text editor saves.** When the user confirms saving, the open file gets the text typed
since it was opened, and no other file changes, exactly if nothing was typed into a file that was
opened before, all names could be opened and fit into `fname`, and the text fits into `tmp_buf`. -/
theorem saves_iff (resolve : Text → Option F) (files : F → Option Text) (keys : List ℕ)
    (hsaved : (session resolve keys).window = .saved) :
    Saves files (session resolve keys) (secondTask resolve files keys) ↔
      (session resolve keys).opened = true ∧ (session resolve keys).named = true ∧
        (session resolve keys).earlier = [] ∧ (session resolve keys).typed.length ≤ bufSize := by
  have hsim := sim_run resolve files keys
  cases hrun : secondTask resolve files keys with
  | none =>
    rw [hrun] at hsim
    refine ⟨(fun ⟨e, f, he, _⟩ => by cases he), fun ⟨hopened, hnamed, hearlier, hshort⟩ => ?_⟩
    refine absurd ⟨hopened, hnamed, ?_⟩ hsim
    rw [hearlier, List.length_nil, Nat.zero_add]
    exact hshort
  | some e =>
    rw [hrun] at hsim
    obtain ⟨h, hfits⟩ := hsim
    obtain ⟨f, hf, hcontent⟩ := h.saved hsaved
    have hshort := hfits.short
    constructor
    · rintro ⟨e', f', he', hf', hcontent'⟩
      obtain rfl := Option.some.inj he'
      obtain rfl := Option.some.inj (hf.symm.trans hf')
      have hsame := (hcontent f).symm.trans (hcontent' f)
      rw [if_pos rfl, if_pos rfl, List.append_cancel_left_eq, List.append_left_eq_self] at hsame
      exact ⟨hfits.opened, hfits.named, hsame, by omega⟩
    · rintro ⟨-, -, hearlier, -⟩
      refine ⟨e, f, rfl, hf, fun g => ?_⟩
      rw [hcontent g, hearlier, List.nil_append]

/-- A name designates the file that its first letter tells. -/
def byFirst (name : Text) : Option ℕ := name.head?

/-- `hi` is typed into a file and saved. -/
def sayHi : List ℕ := [keyF 1, 97, keyEnter, 104, 105, keyF 2, keyEnter]

theorem saves_sayHi :
    Saves (fun _ => none) (session byFirst sayHi) (secondTask byFirst (fun _ => none) sayHi) :=
  (saves_iff byFirst (fun _ => none) sayHi rfl).2 ⟨rfl, rfl, rfl, by decide⟩

/-- `x` is typed into one file, and `y` into another one, which is saved. -/
def twoFiles : List ℕ :=
  [keyF 1, 97, keyEnter, 120, keyF 1, 98, keyEnter, 121, keyF 2, keyEnter]

/-- The second file gets both. -/
theorem mixed_up : ¬ ∀ (resolve : Text → Option ℕ) (files : ℕ → Option Text) (keys : List ℕ),
    (session resolve keys).window = .saved →
      Saves files (session resolve keys) (secondTask resolve files keys) := by
  intro hall
  obtain ⟨e, f, he, hf, hcontent⟩ := hall byFirst (fun _ => none) twoFiles rfl
  obtain rfl : 98 = f := Option.some.inj hf
  obtain rfl := Option.some.inj he
  have hfile := hcontent 98
  cases hfile

end EmbeddedC.TextEditor
