import Mathlib.Tactic

/-!
# Pipes

A pipe holds what has been written and not read.  Each of its two ends is open in some processes: a
read from an empty pipe waits while somebody could still write, and is at the end of the file
otherwise.  A FIFO is opened by both sides, each of which waits until the other one has come.

* `Pipe`, `Op`, `act`: what an operation returns, leaves and has read;
* `Apart`, `commute_of_apart`: when two operations of different processes can be exchanged.
-/

/-- `readers` and `writers` are the numbers of processes that have the end open; `readerCame` and
`writerCame` say that some process has opened it. -/
structure Pipe (α : Type) where
  capacity : ℕ
  data : List α
  readers : ℤ
  writers : ℤ
  readerCame : Bool
  writerCame : Bool

namespace Pipe

inductive End
  | read
  | write
  deriving DecidableEq

inductive Op (α : Type)
  /-- `n` more processes, or fewer, have the end open -/
  | hold (e : End) (n : ℤ)
  /-- wait until some process has opened the end -/
  | await (e : End)
  | write (msg : List α)
  /-- one read of a loop, which goes on until the end of the file or a `stop` -/
  | read (stop : α → Bool)

variable {α : Type}

/-- Whether the operation is over, the pipe after it, and what it has read; `none` where it waits.
A write that nobody could read would be an error, and is not enabled. -/
def act (p : Pipe α) : Op α → Option (Bool × Pipe α × List α)
  | .hold .read n =>
    some (true, { p with
      readers := p.readers + n
      readerCame := p.readerCame || decide (0 < n) }, [])
  | .hold .write n =>
    some (true, { p with
      writers := p.writers + n
      writerCame := p.writerCame || decide (0 < n) }, [])
  | .await .read => if p.readerCame then some (true, p, []) else none
  | .await .write => if p.writerCame then some (true, p, []) else none
  | .write msg =>
    if p.readers = 0 ∨ p.capacity < p.data.length + msg.length then none
    else some (true, { p with data := p.data ++ msg }, [])
  | .read stop =>
    match p.data with
    | [] => if p.writers = 0 then some (true, p, []) else none
    | b :: data => some (stop b, { p with data := data }, if stop b then [] else [b])

/-- What two operations of different processes must not do to each other. -/
def Apart (p : Pipe α) : Op α → Op α → Prop
  | .write _, .write _ | .read _, .read _ => False
  | .hold .read n, .write _ | .write _, .hold .read n => p.readers + n ≠ 0
  | .hold .write _, .read _ | .read _, .hold .write _
  | .write _, .read _ | .read _, .write _ => p.data ≠ [] ∨ p.writers ≠ 0
  | _, _ => True

/-- If both operations are enabled, either order is possible, and gives the same. -/
def Commute (p : Pipe α) (a b : Op α) : Prop :=
  ∀ r₁ r₂, p.act a = some r₁ → p.act b = some r₂ →
    ∃ q, r₁.2.1.act b = some (r₂.1, q, r₂.2.2) ∧ r₂.2.1.act a = some (r₁.1, q, r₁.2.2)

variable {p q : Pipe α} {a b : Op α} {e e' : End} {n n' : ℤ} {msg : List α} {stop : α → Bool}
  {r r₁ r₂ : Bool × Pipe α × List α}

/-! ### What an operation has done -/

theorem write_eq_some (h : p.act (.write msg) = some r) :
    p.readers ≠ 0 ∧ p.data.length + msg.length ≤ p.capacity ∧
      r = (true, { p with data := p.data ++ msg }, []) := by
  rw [act] at h
  split at h
  · cases h
  · rename_i hno
    rw [not_or, not_lt] at hno
    exact ⟨hno.1, hno.2, (Option.some.inj h).symm⟩

theorem act_write (hreaders : p.readers ≠ 0)
    (hcapacity : p.data.length + msg.length ≤ p.capacity) :
    p.act (.write msg) = some (true, { p with data := p.data ++ msg }, []) := by
  rw [act, if_neg]
  rintro (h | h)
  · exact hreaders h
  · omega

theorem await_eq_some (h : p.act (.await e) = some r) : r = (true, p, []) := by
  cases e <;>
  · rw [act] at h
    split at h
    · exact (Option.some.inj h).symm
    · cases h

/-- A read has found the end of the file, a `stop`, or something else. -/
theorem read_eq_some (h : p.act (.read stop) = some r) :
    (p.data = [] ∧ p.writers = 0 ∧ r = (true, p, [])) ∨
      ∃ b data, p.data = b :: data ∧
        r = (stop b, { p with data := data }, if stop b then [] else [b]) := by
  rw [act] at h
  split at h
  · rename_i hdata
    split at h
    · exact .inl ⟨hdata, ‹_›, (Option.some.inj h).symm⟩
    · cases h
  · rename_i b data hdata
    exact .inr ⟨b, data, hdata, (Option.some.inj h).symm⟩

theorem act_read_cons {c : α} {data : List α} (h : p.data = c :: data) : p.act (.read stop) =
    some (stop c, { p with data := data }, if stop c then [] else [c]) := by
  rw [act, h]

theorem act_read_nil (h : p.data = []) (hwriters : p.writers = 0) :
    p.act (.read stop) = some (true, p, []) := by
  rw [act, h]
  exact if_pos hwriters

/-- The ends that have been opened. -/
def Came (p : Pipe α) : End → Prop
  | .read => p.readerCame = true
  | .write => p.writerCame = true

theorem act_await (h : p.Came e) : p.act (.await e) = some (true, p, []) := by
  cases e <;> exact if_pos h

theorem came_of_await (h : p.act (.await e) = some r) : p.Came e := by
  cases e <;>
  · rw [act] at h
    split at h
    · assumption
    · cases h

/-- Nobody takes back that an end has been opened. -/
theorem Came.act (hcame : p.Came e) (h : p.act b = some r) : r.2.1.Came e := by
  cases b with
  | hold e' n => cases e <;> cases e' <;> cases h <;> simp_all [Came]
  | await e' => exact await_eq_some h ▸ hcame
  | write msg =>
    obtain ⟨-, -, rfl⟩ := write_eq_some h
    cases e <;> exact hcame
  | read stop =>
    obtain ⟨-, -, rfl⟩ | ⟨_, _, -, rfl⟩ := read_eq_some h
    · exact hcame
    · cases e <;> exact hcame

/-- What is to be done again has taken something out of the pipe. -/
theorem act_productive (h : p.act a = some (false, q, msg)) : q ≠ p := by
  rintro rfl
  cases a with
  | hold e n => cases e <;> cases h
  | await e => cases await_eq_some h
  | write msg => cases (write_eq_some h).2.2
  | read stop =>
    obtain ⟨-, -, heq⟩ | ⟨c, data, hdata, heq⟩ := read_eq_some h
    · cases heq
    · have hq : q.data = data := congrArg (fun r => r.2.1.data) heq
      rw [hq] at hdata
      exact List.cons_ne_self c data hdata.symm

/-! ### Operations that can be exchanged -/

theorem Commute.symm (h : p.Commute a b) : p.Commute b a := fun r₁ r₂ h₁ h₂ => by
  obtain ⟨q, hb, ha⟩ := h r₂ r₁ h₂ h₁
  exact ⟨q, ha, hb⟩

theorem Apart.symm (h : p.Apart a b) : p.Apart b a := by
  rcases a with ⟨_ | _, _⟩ | ⟨_⟩ | _ | _ <;> rcases b with ⟨_ | _, _⟩ | ⟨_⟩ | _ | _ <;> exact h

theorem commute_hold_hold : p.Commute (.hold e n) (.hold e' n') := by
  rintro r₁ r₂ h₁ h₂
  cases e <;> cases e' <;> obtain rfl := Option.some.inj h₁ <;> obtain rfl := Option.some.inj h₂ <;>
    simp [act, add_right_comm, Bool.or_right_comm]

/-- Who has waited for an end still finds it opened. -/
theorem commute_await (b : Op α) : p.Commute (.await e) b := by
  rintro r₁ r₂ h₁ h₂
  obtain rfl := await_eq_some h₁
  exact ⟨r₂.2.1, h₂, act_await ((came_of_await h₁).act h₂)⟩

theorem commute_hold_write (h : p.Apart (.hold e n) (.write msg)) :
    p.Commute (.hold e n) (.write msg) := by
  rintro r₁ r₂ h₁ h₂
  obtain ⟨hreaders, hcapacity, rfl⟩ := write_eq_some h₂
  cases e <;> obtain rfl := Option.some.inj h₁
  · exact ⟨_, act_write h hcapacity, rfl⟩
  · exact ⟨_, act_write hreaders hcapacity, rfl⟩

theorem commute_hold_read (h : p.Apart (.hold e n) (.read stop)) :
    p.Commute (.hold e n) (.read stop) := by
  rintro r₁ r₂ h₁ h₂
  obtain ⟨hdata, hwriters, rfl⟩ | ⟨c, data, hdata, rfl⟩ := read_eq_some h₂
  · cases e with
    | read =>
      obtain rfl := Option.some.inj h₁
      exact ⟨_, act_read_nil hdata hwriters, rfl⟩
    | write => exact absurd hdata (h.resolve_right (not_not_intro hwriters))
  · cases e <;> obtain rfl := Option.some.inj h₁ <;> exact ⟨_, act_read_cons hdata, rfl⟩

/-- A read takes from the front what a write does not touch. -/
theorem commute_write_read (h : p.Apart (.write msg) (.read stop)) :
    p.Commute (.write msg) (.read stop) := by
  rintro r₁ r₂ h₁ h₂
  obtain ⟨hreaders, hcapacity, rfl⟩ := write_eq_some h₁
  obtain ⟨hdata, hwriters, rfl⟩ | ⟨c, data, hdata, rfl⟩ := read_eq_some h₂
  · exact absurd hdata (h.resolve_right (not_not_intro hwriters))
  · refine ⟨_, act_read_cons (congrArg (· ++ msg) hdata), act_write hreaders ?_⟩
    rw [hdata, List.length_cons] at hcapacity
    change data.length + msg.length ≤ p.capacity
    omega

theorem commute_of_apart (h : p.Apart a b) : p.Commute a b := by
  cases a with
  | hold e n =>
    cases b with
    | hold => exact commute_hold_hold
    | await => exact (commute_await _).symm
    | write => exact commute_hold_write h
    | read => exact commute_hold_read h
  | await => exact commute_await _
  | write msg =>
    cases b with
    | hold => exact (commute_hold_write h.symm).symm
    | await => exact (commute_await _).symm
    | write => exact h.elim
    | read => exact commute_write_read h
  | read stop =>
    cases b with
    | hold => exact (commute_hold_read h.symm).symm
    | await => exact (commute_await _).symm
    | write => exact (commute_write_read h.symm).symm
    | read => exact h.elim

end Pipe
