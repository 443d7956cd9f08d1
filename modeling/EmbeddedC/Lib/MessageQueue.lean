import Mathlib.Tactic

/-!
# Bounded message queues with priorities

A queue is the list of its messages, oldest first.  A send appends, and fails when the queue
holds `cap` messages; a receive takes the oldest message of the highest priority.

* `send`, `receive`, and `receive_split`, from which the other facts about `receive` follow;
* `level p q`, the messages of one priority: `receive` takes the head of one level and leaves
  the others alone (`level_receive_self`, `level_receive_of_ne`), so each level is a FIFO;
* `pending`: a FIFO with one sender and one receiver, each of which makes one call.
-/

namespace MessageQueue

variable {α : Type}

/-- Append a message; `none` when the queue is full. -/
def send (cap : ℕ) (q : List α) (m : α) : Option (List α) :=
  if q.length < cap then some (q ++ [m]) else none

theorem send_eq_some {cap : ℕ} {q q' : List α} {m : α} (h : send cap q m = some q') :
    q.length < cap ∧ q' = q ++ [m] := by
  unfold send at h
  split at h
  · exact ⟨‹_›, by cases h; rfl⟩
  · cases h

theorem send_eq_none {cap : ℕ} {q : List α} {m : α} (h : send cap q m = none) :
    cap ≤ q.length := by
  unfold send at h
  split at h
  · cases h
  · omega

variable (prio : α → ℕ)

/-- Take the oldest message of the highest priority; `none` when the queue is empty. -/
def receive : List α → Option (α × List α)
  | [] => none
  | m :: q =>
    match receive q with
    | none => some (m, q)
    | some (m', q') => if prio m < prio m' then some (m', m :: q') else some (m, q)

@[simp] theorem receive_nil : receive prio [] = none := rfl

theorem receive_eq_none {q : List α} : receive prio q = none ↔ q = [] := by
  cases q with
  | nil => simp
  | cons m q =>
    simp only [receive, reduceCtorEq, iff_false]
    split
    · simp
    · split <;> simp

/-- What a receive takes: everything older has a lower priority, nothing has a higher one. -/
theorem receive_split {q q' : List α} {m : α} (h : receive prio q = some (m, q')) :
    ∃ l r, q = l ++ m :: r ∧ q' = l ++ r ∧
      (∀ x ∈ l, prio x < prio m) ∧ ∀ x ∈ r, prio x ≤ prio m := by
  induction q generalizing m q' with
  | nil => simp at h
  | cons x q ih =>
    simp only [receive] at h
    split at h
    · rename_i hq
      rw [receive_eq_none] at hq
      cases h
      exact ⟨[], q, rfl, rfl, by simp, by simp [hq]⟩
    · rename_i m' q'' hq
      obtain ⟨l, r, rfl, rfl, hl, hr⟩ := ih hq
      split at h
      · rename_i hlt
        cases h
        exact ⟨x :: l, r, rfl, rfl, by simpa using ⟨hlt, hl⟩, hr⟩
      · rename_i hge
        obtain ⟨rfl, rfl⟩ : x = m ∧ l ++ m' :: r = q' := by simpa using h
        have hle : ∀ y ∈ l ++ m' :: r, prio y ≤ prio x := by
          intro y hy
          rcases List.mem_append.1 hy with hy | hy
          · have := hl y hy; omega
          · rcases List.mem_cons.1 hy with rfl | hy
            · omega
            · have := hr y hy; omega
        exact ⟨[], l ++ m' :: r, rfl, rfl, by simp, hle⟩

variable {prio}

theorem receive_perm {q q' : List α} {m : α} (h : receive prio q = some (m, q')) :
    q.Perm (m :: q') := by
  obtain ⟨l, r, rfl, rfl, -, -⟩ := receive_split prio h
  exact List.perm_middle

theorem receive_mem {q q' : List α} {m : α} (h : receive prio q = some (m, q')) : m ∈ q :=
  (receive_perm h).mem_iff.2 List.mem_cons_self

theorem receive_subset {q q' : List α} {m x : α} (h : receive prio q = some (m, q'))
    (hx : x ∈ q') : x ∈ q :=
  (receive_perm h).mem_iff.2 (List.mem_cons_of_mem m hx)

/-- No message in the queue outranks the one received. -/
theorem receive_prio_le {q q' : List α} {m x : α} (h : receive prio q = some (m, q'))
    (hx : x ∈ q) : prio x ≤ prio m := by
  obtain ⟨l, r, rfl, -, hl, hr⟩ := receive_split prio h
  rcases List.mem_append.1 hx with hx | hx
  · exact (hl x hx).le
  · rcases List.mem_cons.1 hx with rfl | hx
    · exact le_rfl
    · exact hr x hx

/-- With a single priority the queue is a FIFO. -/
theorem receive_const {p : ℕ} {q q' : List α} {m : α} :
    receive (fun _ => p) q = some (m, q') ↔ q = m :: q' := by
  constructor
  · intro h
    obtain ⟨l, r, rfl, rfl, hl, -⟩ := receive_split _ h
    cases l with
    | nil => rfl
    | cons x l => exact absurd (hl x List.mem_cons_self) (lt_irrefl p)
  · rintro rfl
    simp only [receive, lt_irrefl, if_false]
    split <;> rfl

/-! ### Levels -/

variable (prio)

/-- The messages of priority `p`, oldest first. -/
def level (p : ℕ) (q : List α) : List α := q.filter fun m => prio m = p

@[simp] theorem level_append (p : ℕ) (q r : List α) :
    level prio p (q ++ r) = level prio p q ++ level prio p r := List.filter_append ..

@[simp] theorem level_singleton (p : ℕ) (m : α) :
    level prio p [m] = if prio m = p then [m] else [] := by
  by_cases h : prio m = p <;> simp [level, h]

@[simp] theorem mem_level {p : ℕ} {q : List α} {m : α} :
    m ∈ level prio p q ↔ m ∈ q ∧ prio m = p := by simp [level]

variable {prio}

/-- A receive takes the head of its own level. -/
theorem level_receive_self {q q' : List α} {m : α} (h : receive prio q = some (m, q')) :
    level prio (prio m) q = m :: level prio (prio m) q' := by
  obtain ⟨l, r, rfl, rfl, hl, -⟩ := receive_split prio h
  have hnil : level prio (prio m) l = [] :=
    List.filter_eq_nil_iff.2 fun x hx => by simpa using (hl x hx).ne
  rw [level_append, level_append, hnil]
  simp [level]

/-- A receive leaves the other levels alone. -/
theorem level_receive_of_ne {q q' : List α} {m : α} {p : ℕ} (h : receive prio q = some (m, q'))
    (hp : prio m ≠ p) : level prio p q = level prio p q' := by
  obtain ⟨l, r, rfl, rfl, -, -⟩ := receive_split prio h
  simp [level, hp]

/-- **Each level is a FIFO**: what is received, put in front of what remains, is what was
there. -/
theorem level_receive {q q' : List α} {m : α} (h : receive prio q = some (m, q')) (p : ℕ) :
    level prio p [m] ++ level prio p q' = level prio p q := by
  by_cases hp : prio m = p
  · subst hp
    simp [level_receive_self h]
  · simp [hp, level_receive_of_ne h hp]

/-! ### One sender and one receiver -/

/-- What is there after the sender's and the receiver's call, if they have been made. -/
def pending (msgs : List α) (text : α) (sent received : Bool) : List α :=
  (msgs ++ if sent then [text] else []).drop received.toNat

theorem pending_send (msgs : List α) (received : Bool) (h : received = true → msgs ≠ [])
    (text : α) :
    pending msgs text false received ++ [text] = pending msgs text true received := by
  cases received with
  | false => simp [pending]
  | true =>
    have hpos := List.length_pos_of_ne_nil (h rfl)
    simp [pending, List.drop_append_of_le_length (show 1 ≤ msgs.length from hpos)]

theorem pending_receive {msgs rest : List α} {text first : α} {sent : Bool}
    (h : pending msgs text sent false = first :: rest) :
    (msgs ++ [text]).head? = some first ∧ rest = pending msgs text sent true ∧
      (sent = true ∨ msgs ≠ []) := by
  cases msgs with
  | nil =>
    cases sent with
    | false => cases h
    | true =>
      obtain ⟨rfl, rfl⟩ := List.cons.inj h
      exact ⟨rfl, rfl, .inl rfl⟩
  | cons msg msgs =>
    obtain ⟨rfl, rfl⟩ := List.cons.inj h
    exact ⟨rfl, rfl, .inr (List.cons_ne_nil _ _)⟩

theorem length_pending (msgs : List α) (sent received : Bool)
    (h : received = true → sent = true ∨ msgs ≠ []) (text : α) :
    (pending msgs text sent received).length + received.toNat = msgs.length + sent.toNat := by
  have hpos : received = true → sent = true ∨ 0 < msgs.length := fun hr =>
    (h hr).imp_right List.length_pos_of_ne_nil
  cases sent <;> cases received <;> simp [pending] at *
  omega

end MessageQueue
