import Mathlib.Tactic

/-!
# A mailbox with two semaphores

There is one place for a message.  The writer writes a message in several steps, posts `full`,
and waits for `ack` before it writes the next one; the reader takes `full`, reads, and posts
`ack`.  Some posts the writer does not wait for, and some messages the reader does not answer.

* `Mailbox`, `Mailbox.Step`: the place, the semaphores, where the two parties are, and what one of
  them does next;
* `Mailbox.Ok`, `Ok.step`: the invariant;
* `Ok.in_order`, `Ok.full_le`, `Ok.ack_le`: every message is read once, in order, as it was
  written.

The writer begins a message only when the last one has been read (`begin`).
`holds c m` says that the content `c` of the place is the message `m`; `plan` is what the writer
has established of the place, `known` what the reader has found out about the message.
-/

/-- Where the writer is. -/
inductive Mailbox.Writer
  | idle
  | writing
  | waiting
  deriving DecidableEq

/-- Where the reader is. -/
inductive Mailbox.Reader
  | away
  /-- has taken `full` and reads -/
  | reading
  /-- is about to post `ack` -/
  | answering
  deriving DecidableEq

structure Mailbox (μ γ : Type) where
  writer : Mailbox.Writer
  reader : Mailbox.Reader
  plan : γ → Prop
  known : μ → Prop
  place : γ
  full : ℕ
  ack : ℕ
  unwaited : ℕ
  unanswered : ℕ
  written : List μ
  read : List μ

namespace Mailbox

variable {μ γ : Type} {holds : γ → μ → Prop} {b b' : Mailbox μ γ}

/-- What a party does next. -/
inductive Step (holds : γ → μ → Prop) (b : Mailbox μ γ) : Mailbox μ γ → Prop
  | begin (c : γ) (plan : γ → Prop) (hwriter : b.writer = .idle)
      (hclear : b.full = 0 ∧ b.reader ≠ .reading) (hplan : plan c) :
      Step holds b { b with writer := .writing, plan := plan, place := c }
  | write (c : γ) (plan : γ → Prop) (hwriter : b.writer = .writing)
      (hplan : b.plan b.place → plan c) : Step holds b { b with plan := plan, place := c }
  | post (m : μ) (plan : γ → Prop) (hwriter : b.writer = .writing)
      (hholds : ∀ c, b.plan c → holds c m) :
      Step holds b { b with
        writer := .waiting
        plan := plan
        full := b.full + 1
        written := b.written ++ [m] }
  | postOnly (m : μ) (plan : γ → Prop) (hwriter : b.writer = .writing)
      (hholds : ∀ c, b.plan c → holds c m) :
      Step holds b { b with
        writer := .idle
        plan := plan
        full := b.full + 1
        unwaited := b.unwaited + 1
        written := b.written ++ [m] }
  | resume (hwriter : b.writer = .waiting) (hack : b.ack ≠ 0) :
      Step holds b { b with writer := .idle, ack := b.ack - 1 }
  | take (hreader : b.reader = .away) (hfull : b.full ≠ 0) :
      Step holds b { b with reader := .reading, known := fun _ => True, full := b.full - 1 }
  | learn (known : μ → Prop) (hreader : b.reader = .reading)
      (hknown : ∀ m, holds b.place m → known m) : Step holds b { b with known := known }
  | read (m : μ) (known : μ → Prop) (hreader : b.reader = .reading)
      (hread : ∀ m', holds b.place m' → b.known m' → m = m') :
      Step holds b { b with reader := .answering, known := known, read := b.read ++ [m] }
  | skip (m : μ) (known : μ → Prop) (hreader : b.reader = .reading)
      (hread : ∀ m', holds b.place m' → b.known m' → m = m') :
      Step holds b { b with
        reader := .away
        known := known
        unanswered := b.unanswered + 1
        read := b.read ++ [m] }
  | answer (hreader : b.reader = .answering) :
      Step holds b { b with reader := .away, ack := b.ack + 1 }

/-- The posts are accounted for, nothing is written while there is something to read, and at most
the last message has not been read. -/
structure Ok (holds : γ → μ → Prop) (b : Mailbox μ γ) : Prop where
  count : b.ack + b.full + (if b.reader = .away then 0 else 1) + b.unanswered =
    b.unwaited + if b.writer = .waiting then 1 else 0
  one : b.full + (if b.reader = .reading then 1 else 0) ≤ 1
  clear : b.writer = .writing → (b.full = 0 ∧ b.reader ≠ .reading) ∧ b.plan b.place
  unread : if b.full = 0 ∧ b.reader ≠ .reading then b.written = b.read
    else ∃ m, b.written = b.read ++ [m] ∧ holds b.place m ∧ (b.reader = .reading → b.known m)

/-- What a reader that is reading reads. -/
theorem Ok.current (h : Ok holds b) {m : μ} (hreader : b.reader = .reading)
    (hread : ∀ m', holds b.place m' → b.known m' → m = m') :
    b.full = 0 ∧ b.written = b.read ++ [m] := by
  have hone := h.one
  have hunread := h.unread
  rw [if_pos hreader] at hone
  rw [if_neg (by simp [hreader])] at hunread
  obtain ⟨m', hwritten, hholds, hknown⟩ := hunread
  exact ⟨by omega, hread m' hholds (hknown hreader) ▸ hwritten⟩

/-- Where the writer writes, everything has been read. -/
theorem Ok.read_eq (h : Ok holds b) (hwriter : b.writer = .writing) : b.written = b.read := by
  have hunread := h.unread
  rwa [if_pos (h.clear hwriter).1] at hunread

/-- What a post leaves to read. -/
theorem Ok.posted (h : Ok holds b) {m : μ} (hwriter : b.writer = .writing)
    (hholds : ∀ c, b.plan c → holds c m) :
    b.full = 0 ∧ b.reader ≠ .reading ∧
      ∃ m', b.written ++ [m] = b.read ++ [m'] ∧ holds b.place m' :=
  have hclear := h.clear hwriter
  ⟨hclear.1.1, hclear.1.2, m, by rw [h.read_eq hwriter], hholds _ hclear.2⟩

theorem Ok.step (h : Ok holds b) (hstep : Step holds b b') : Ok holds b' := by
  have hcount := h.count
  have hone := h.one
  cases hstep with
  | begin c plan hwriter hclear hplan =>
    rw [hwriter] at hcount
    have hunread := h.unread
    rw [if_pos hclear] at hunread
    exact ⟨hcount, hone, fun _ => ⟨hclear, hplan⟩, (if_pos hclear).symm ▸ hunread⟩
  | write c plan hwriter hplan =>
    obtain ⟨hclear, hold⟩ := h.clear hwriter
    exact ⟨hcount, hone, fun _ => ⟨hclear, hplan hold⟩,
      (if_pos hclear).symm ▸ h.read_eq hwriter⟩
  | post m plan hwriter hholds =>
    obtain ⟨hfull, hreader, hunread⟩ := h.posted hwriter hholds
    refine ⟨?_, by simp [hfull, hreader], nofun, by simpa [hreader] using hunread⟩
    simp [hwriter] at hcount ⊢
    omega
  | postOnly m plan hwriter hholds =>
    obtain ⟨hfull, hreader, hunread⟩ := h.posted hwriter hholds
    refine ⟨?_, by simp [hfull, hreader], nofun, by simpa [hreader] using hunread⟩
    simp [hwriter] at hcount ⊢
    omega
  | resume hwriter hack =>
    refine ⟨?_, hone, nofun, h.unread⟩
    simp [hwriter] at hcount ⊢
    omega
  | take hreader hfull =>
    have hunread := h.unread
    rw [if_neg (by simp [hfull])] at hunread
    obtain ⟨m, hwritten, hholds, -⟩ := hunread
    simp only [hreader, reduceCtorEq, if_true, if_false] at hcount hone
    refine ⟨?_, by simp; omega, fun hwriting => absurd (h.clear hwriting).1.1 hfull, ?_⟩
    · simp
      omega
    · simpa using ⟨m, hwritten, hholds⟩
  | learn known hreader hknown =>
    refine ⟨hcount, hone, h.clear, ?_⟩
    have hunread := h.unread
    rw [if_neg (by simp [hreader])] at hunread ⊢
    obtain ⟨m, hwritten, hholds, -⟩ := hunread
    exact ⟨m, hwritten, hholds, fun _ => hknown m hholds⟩
  | read m known hreader hread =>
    obtain ⟨hfull, hwritten⟩ := h.current hreader hread
    refine ⟨by simpa [hreader] using hcount, by simp [hfull], fun hwriting => ?_, ?_⟩
    · exact absurd hreader (h.clear hwriting).1.2
    · simp [hfull, hwritten]
  | skip m known hreader hread =>
    obtain ⟨hfull, hwritten⟩ := h.current hreader hread
    refine ⟨?_, by simp [hfull], fun hwriting => ?_, by simp [hfull, hwritten]⟩
    · simp [hreader] at hcount ⊢
      omega
    · exact absurd hreader (h.clear hwriting).1.2
  | answer hreader =>
    have hunread := h.unread
    simp only [hreader, reduceCtorEq, ne_eq, not_false_eq_true, and_true, if_false, false_implies]
      at hcount hone hunread
    refine ⟨?_, by simpa using hone, fun hwriting => ⟨⟨(h.clear hwriting).1.1, nofun⟩, ?_⟩, ?_⟩
    · simp
      omega
    · exact (h.clear hwriting).2
    · simpa using hunread

/-- What has been read is what has been written, up to one message. -/
theorem Ok.in_order (h : Ok holds b) :
    b.read <+: b.written ∧ b.written.length ≤ b.read.length + 1 := by
  have hunread := h.unread
  split at hunread
  · rw [hunread]
    exact ⟨List.prefix_rfl, Nat.le_succ _⟩
  · obtain ⟨m, hwritten, -⟩ := hunread
    rw [hwritten]
    exact ⟨List.prefix_append _ _, by simp⟩

/-- A reader reads the last message, as it was written, while the writer does not write. -/
theorem Ok.reading (h : Ok holds b) (hreader : b.reader = .reading) :
    b.writer ≠ .writing ∧ ∃ m, b.written = b.read ++ [m] ∧ holds b.place m ∧ b.known m := by
  have hunread := h.unread
  rw [if_neg fun hclear => hclear.2 hreader] at hunread
  obtain ⟨m, hwritten, hholds, hknown⟩ := hunread
  exact ⟨fun hwriting => (h.clear hwriting).1.2 hreader, m, hwritten, hholds, hknown hreader⟩

theorem Ok.full_le (h : Ok holds b) : b.full ≤ 1 := (Nat.le_add_right _ _).trans h.one

/-- A writer that waits for each of its posts does not see more than one answer. -/
theorem Ok.ack_le (h : Ok holds b) (hwaits : b.unwaited = 0) : b.ack ≤ 1 := by
  have hcount := h.count
  split at hcount <;> split at hcount <;> omega

/-- Nothing is left to read when everything has been read. -/
theorem Ok.clear_of_read (h : Ok holds b) (hread : b.written = b.read) :
    b.full = 0 ∧ b.reader ≠ .reading := by
  have hunread := h.unread
  split at hunread
  · assumption
  · obtain ⟨m, hwritten, -⟩ := hunread
    exact absurd (hread.symm.trans hwritten) (by simp)

/-- A writer that does not wait can begin if and only if every message has been answered, up to the
answer that the reader is about to post. -/
theorem Ok.answered_iff (h : Ok holds b) (hwriter : b.writer = .idle) :
    b.ack + (if b.reader = .answering then 1 else 0) + b.unanswered = b.unwaited ↔
      b.full = 0 ∧ b.reader ≠ .reading := by
  have hcount := h.count
  rw [hwriter] at hcount
  cases hreader : b.reader <;> simp [hreader] at hcount ⊢ <;> omega

/-- A writer that waits for each of its posts can begin whenever it does not wait. -/
theorem Ok.clear_of_idle (h : Ok holds b) (hwriter : b.writer = .idle) (hwaits : b.unwaited = 0) :
    b.full = 0 ∧ b.reader ≠ .reading := by
  have hcount := h.count
  rw [hwriter, hwaits] at hcount
  refine (h.answered_iff hwriter).1 ?_
  cases hreader : b.reader <;> simp [hreader] at hcount ⊢
  omega

end Mailbox
