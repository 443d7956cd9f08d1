import EmbeddedC.Lib.Duet
import EmbeddedC.Lib.Pipe
import EmbeddedC.Lib.CString

/-!
# Homework 9: a message and its answer over two channels

Two processes share two channels, one for each direction, and each of them writes to the terminal.

* `Store`, `Call`, `exec`: what they share, and the system calls they make;
* `Clear`, `commute_of_clear`: when two calls can be exchanged;
* `leads_forth`, `leads_back`: a loop that reads from a channel, and prints what it reads.
-/

namespace EmbeddedC.Ipc

open Duet (Side)
open Pipe (End Op)

/-- The channel of the left process's messages, that of the right one's, what each of them has
printed, and whether the right one has exited. -/
structure Store where
  forth : Pipe Char
  back : Pipe Char
  leftOut : List Char
  rightOut : List Char
  exited : Bool

/-- Some process prints. -/
def Store.print (k : Store) : Side → List Char → Store
  | .left, text => { k with leftOut := k.leftOut ++ text }
  | .right, text => { k with rightOut := k.rightOut ++ text }

inductive Call
  /-- on the left process's channel, or a `read` and a `write` of what was read -/
  | forth (a : Op Char)
  /-- on the right process's channel -/
  | back (a : Op Char)
  /-- `write(STDOUT_FILENO, &c, 1)` -/
  | put (c : Char)
  | exit
  | wait

def exec (side : Side) (c : Call) (k : Store) : Option (Bool × Store) :=
  match c with
  | .forth a => (k.forth.act a).map fun r => (r.1, { k with forth := r.2.1 }.print side r.2.2)
  | .back a => (k.back.act a).map fun r => (r.1, { k with back := r.2.1 }.print side r.2.2)
  | .put c => some (true, k.print side [c])
  | .exit => some (true, { k with exited := true })
  | .wait => if k.exited then some (true, k) else none

variable {k : Store} {c d : Call} {a b : Op Char} {r : Bool × Store} {side : Side}
  {text : List Char}

@[simp] theorem forth_print : (k.print side text).forth = k.forth := by cases side <;> rfl

@[simp] theorem back_print : (k.print side text).back = k.back := by cases side <;> rfl

@[simp] theorem exited_print : (k.print side text).exited = k.exited := by cases side <;> rfl

/-- Calls of the two processes that do not touch the same channel, or do no harm to each other
there. -/
def Clear (k : Store) : Call → Call → Prop
  | .forth a, .forth b => k.forth.Apart a b
  | .back a, .back b => k.back.Apart a b
  | _, _ => True

theorem wait_eq_some (h : exec side .wait k = some r) : k.exited = true ∧ r = (true, k) := by
  rw [exec] at h
  split at h
  · exact ⟨‹_›, (Option.some.inj h).symm⟩
  · cases h

/-- Nobody takes back that the right process has exited. -/
theorem exited_exec (hexited : k.exited = true) (h : exec side c k = some r) :
    r.2.exited = true := by
  cases c with
  | forth a | back a =>
    obtain ⟨_, -, rfl⟩ := Option.map_eq_some_iff.1 h
    simpa using hexited
  | put c =>
    obtain rfl := Option.some.inj h
    simpa using hexited
  | exit => exact Option.some.inj h ▸ rfl
  | wait =>
    rw [exec, if_pos hexited] at h
    exact Option.some.inj h ▸ hexited

/-- A call that is to be made again has read something. -/
theorem exec_productive {k' : Store} (h : exec side c k = some (false, k')) : k' ≠ k := by
  rintro rfl
  cases c with
  | forth a =>
    obtain ⟨⟨done, q, text⟩, hact, heq⟩ := Option.map_eq_some_iff.1 h
    obtain ⟨rfl, hstore⟩ := Prod.mk.inj heq
    exact Pipe.act_productive hact (forth_print.symm.trans (congrArg Store.forth hstore))
  | back a =>
    obtain ⟨⟨done, q, text⟩, hact, heq⟩ := Option.map_eq_some_iff.1 h
    obtain ⟨rfl, hstore⟩ := Prod.mk.inj heq
    exact Pipe.act_productive hact (back_print.symm.trans (congrArg Store.back hstore))
  | put c => cases h
  | exit => cases h
  | wait => cases (wait_eq_some h).2

/-- The two processes make the calls of these scripts. -/
def duet (left right : List Call) : Duet Call Store := ⟨left, right, exec⟩

variable {left right : List Call}

theorem productive : (duet left right).Productive := fun _ _ _ _ => exec_productive

theorem commute_of_clear (h : Clear k c d) : (duet left right).Commute c d k := by
  rintro r₁ r₂ h₁ h₂
  change exec .left c k = _ at h₁
  change exec .right d k = _ at h₂
  change ∃ k', exec .right d r₁.2 = _ ∧ exec .left c r₂.2 = _
  cases c with
  | forth a =>
    obtain ⟨r, hr, rfl⟩ := Option.map_eq_some_iff.1 h₁
    cases d with
    | forth b =>
      obtain ⟨r', hr', rfl⟩ := Option.map_eq_some_iff.1 h₂
      obtain ⟨q, hb, ha⟩ := Pipe.commute_of_apart h r r' hr hr'
      simp [exec, Store.print, ha, hb]
    | back b =>
      obtain ⟨r', hr', rfl⟩ := Option.map_eq_some_iff.1 h₂
      simp [exec, Store.print, hr, hr']
    | put | exit =>
      obtain rfl := Option.some.inj h₂
      simp [exec, Store.print, hr]
    | wait =>
      obtain ⟨hexited, rfl⟩ := wait_eq_some h₂
      simp [exec, Store.print, hr, hexited]
  | back a =>
    obtain ⟨r, hr, rfl⟩ := Option.map_eq_some_iff.1 h₁
    cases d with
    | forth b =>
      obtain ⟨r', hr', rfl⟩ := Option.map_eq_some_iff.1 h₂
      simp [exec, Store.print, hr, hr']
    | back b =>
      obtain ⟨r', hr', rfl⟩ := Option.map_eq_some_iff.1 h₂
      obtain ⟨q, hb, ha⟩ := Pipe.commute_of_apart h r r' hr hr'
      simp [exec, Store.print, ha, hb]
    | put | exit =>
      obtain rfl := Option.some.inj h₂
      simp [exec, Store.print, hr]
    | wait =>
      obtain ⟨hexited, rfl⟩ := wait_eq_some h₂
      simp [exec, Store.print, hr, hexited]
  | put | exit =>
    obtain rfl := Option.some.inj h₁
    cases d with
    | forth b | back b =>
      obtain ⟨r', hr', rfl⟩ := Option.map_eq_some_iff.1 h₂
      simp [exec, Store.print, hr']
    | put | exit =>
      obtain rfl := Option.some.inj h₂
      simp [exec, Store.print]
    | wait =>
      obtain ⟨hexited, rfl⟩ := wait_eq_some h₂
      simp [exec, Store.print, hexited]
  | wait =>
    obtain ⟨hexited, rfl⟩ := wait_eq_some h₁
    exact ⟨r₂.2, h₂, if_pos (exited_exec hexited h₂)⟩

/-! ### Loops that read -/

/-- The right process reads from the left one's channel as long as there is no `stop`. -/
theorem leads_forth {n m : ℕ} {stop : Char → Bool} {rest : List Char}
    (hcall : right[m]? = some (.forth (.read stop))) (htext : ∀ c ∈ text, stop c = false)
    (hdata : k.forth.data = text ++ rest) :
    (duet left right).Leads ⟨n, m, k⟩
      ⟨n, m, { k with
        forth := { k.forth with data := rest }, rightOut := k.rightOut ++ text }⟩ := by
  induction text generalizing k with
  | nil =>
    have hsame : ({ k with
        forth := { k.forth with data := rest }, rightOut := k.rightOut ++ [] } : Store) = k := by
      rw [List.append_nil, show rest = k.forth.data from hdata.symm]
    exact hsame.symm ▸ Duet.Leads.refl _ _
  | cons c text ih =>
    have hread : exec .right (.forth (.read stop)) k = some (false,
        { k with
          forth := { k.forth with data := text ++ rest }, rightOut := k.rightOut ++ [c] }) := by
      rw [exec, Pipe.act_read_cons hdata, htext c List.mem_cons_self]
      rfl
    refine (Duet.leads_right_again productive hcall hread).trans ?_
    have hrest := ih (k := { k with
      forth := { k.forth with data := text ++ rest }, rightOut := k.rightOut ++ [c] })
      (fun d hd => htext d (List.mem_cons_of_mem c hd)) rfl
    simpa using hrest

/-- The left process reads from the right one's channel as long as there is no `stop`. -/
theorem leads_back {n m : ℕ} {stop : Char → Bool} {rest : List Char}
    (hcall : left[n]? = some (.back (.read stop))) (htext : ∀ c ∈ text, stop c = false)
    (hdata : k.back.data = text ++ rest) :
    (duet left right).Leads ⟨n, m, k⟩
      ⟨n, m, { k with back := { k.back with data := rest }, leftOut := k.leftOut ++ text }⟩ := by
  induction text generalizing k with
  | nil =>
    have hsame : ({ k with
        back := { k.back with data := rest }, leftOut := k.leftOut ++ [] } : Store) = k := by
      rw [List.append_nil, show rest = k.back.data from hdata.symm]
    exact hsame.symm ▸ Duet.Leads.refl _ _
  | cons c text ih =>
    have hread : exec .left (.back (.read stop)) k = some (false,
        { k with back := { k.back with data := text ++ rest }, leftOut := k.leftOut ++ [c] }) := by
      rw [exec, Pipe.act_read_cons hdata, htext c List.mem_cons_self]
      rfl
    refine (Duet.leads_left_again productive hcall hread).trans ?_
    have hrest := ih (k := { k with
      back := { k.back with data := text ++ rest }, leftOut := k.leftOut ++ [c] })
      (fun d hd => htext d (List.mem_cons_of_mem c hd)) rfl
    simpa using hrest

end EmbeddedC.Ipc
