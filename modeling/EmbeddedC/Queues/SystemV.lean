import EmbeddedC.Lib.Duet
import EmbeddedC.Lib.MessageQueue

/-!
# Homework 12: two processes and a System V queue

The parent sends a message of type 1 and receives one of type 2, the child the other way round.
The queue has a key of its own, and messages that an earlier run has left are still there.

* `Queue`: the messages of either type, oldest first;
* `parentCalls`, `childCalls`: the system calls of `first_task`, in their order;
* `Exchange`: what is in the queue, in every reachable state;
* `msg_exchange`: both processes end in every order of the calls exactly if there is room for a
  message at the beginning; each has received the oldest message of its type.
-/

namespace EmbeddedC.Queues.SystemV

open Duet (Side)
open MessageQueue (pending pending_send pending_receive length_pending)

abbrev Text := List Char

/-- `mtype` -/
inductive MType
  | one
  | two
  deriving DecidableEq

/-- The messages of type 1 and of type 2, oldest first. -/
structure Queue where
  ones : List Text
  twos : List Text
  deriving DecidableEq

def Queue.of (q : Queue) : MType → List Text
  | .one => q.ones
  | .two => q.twos

def Queue.set (q : Queue) (msgs : List Text) : MType → Queue
  | .one => { q with ones := msgs }
  | .two => { q with twos := msgs }

def Queue.length (q : Queue) : ℕ := q.ones.length + q.twos.length

/-- The queue, if there is one, the `msg` of either process, what they have printed, and whether the
child has exited. -/
structure Store where
  queue : Option Queue
  parentMsg : Option Text
  childMsg : Option Text
  parentOut : Option Text
  childOut : Option Text
  exited : Bool

inductive Call
  /-- `msgget` with `IPC_CREAT` -/
  | get
  | send (mtype : MType) (text : Text)
  | receive (mtype : MType)
  | print
  | exit
  | wait
  /-- `msgctl` with `IPC_RMID` -/
  | remove

/-- What a call leaves, in a queue that has room for `limit` messages of `T1_MSG_SIZE` bytes. -/
def perform (limit : ℕ) (side : Side) (c : Call) (k : Store) : Option Store :=
  match c with
  | .get => some { k with queue := some (k.queue.getD ⟨[], []⟩) }
  | .send mtype text => k.queue.bind fun q =>
      if q.length < limit then some { k with queue := some (q.set (q.of mtype ++ [text]) mtype) }
      else none
  | .receive mtype => k.queue.bind fun q =>
      match q.of mtype, side with
      | [], _ => none
      | text :: rest, .left =>
        some { k with queue := some (q.set rest mtype), parentMsg := some text }
      | text :: rest, .right =>
        some { k with queue := some (q.set rest mtype), childMsg := some text }
  | .print =>
    match side with
    | .left => some { k with parentOut := k.parentMsg }
    | .right => some { k with childOut := k.childMsg }
  | .exit => some { k with exited := true }
  | .wait => if k.exited then some k else none
  | .remove => some { k with queue := none }

def hello : Text := "Hello".toList

def hi : Text := "Hi".toList

def parentCalls : List Call :=
  [.get, .send .one hello, .receive .two, .print, .wait, .remove]

def childCalls : List Call := [.get, .receive .one, .print, .send .two hi, .exit]

def task (limit : ℕ) : Duet Call Store := Duet.once parentCalls childCalls (perform limit)

/-- The child has been forked; an earlier run may have left a queue. -/
def forked (queue : Option Queue) : Store := ⟨queue, none, none, none, none, false⟩

variable {limit n m : ℕ} {q : Queue} {old : Option Queue} {s t : Duet.State Store} {k k' : Store}
  {c : Call}

/-- What is in the queue, after `old` had been left in it. -/
structure Exchange (old : Queue) (s : Duet.State Store) : Prop where
  queue : s.left ≤ 5 → s.store.queue.getD ⟨[], []⟩ =
    ⟨pending old.ones hello (decide (1 < s.left)) (decide (1 < s.right)),
      pending old.twos hi (decide (3 < s.right)) (decide (2 < s.left))⟩
  got : 0 < s.left ∨ 0 < s.right → s.left ≤ 5 → s.store.queue ≠ none
  child : 1 < s.right → 1 < s.left ∨ old.ones ≠ []
  parent : 2 < s.left → 3 < s.right ∨ old.twos ≠ []
  childMsg : 1 < s.right → s.store.childMsg = (old.ones ++ [hello]).head?
  parentMsg : 2 < s.left → s.store.parentMsg = (old.twos ++ [hi]).head?
  childOut : 2 < s.right → s.store.childOut = (old.ones ++ [hello]).head?
  parentOut : 3 < s.left → s.store.parentOut = (old.twos ++ [hi]).head?
  exited : s.store.exited = true ↔ 4 < s.right
  waited : 4 < s.left → 4 < s.right
  removed : 5 < s.left → s.store.queue = none

theorem exchange_forked (old : Option Queue) :
    Exchange (old.getD ⟨[], []⟩) ⟨0, 0, forked old⟩ := by
  constructor <;> simp [forked, pending]

/-- What is received is the oldest message. -/
theorem Exchange.left {old : Queue} (hs : Exchange old ⟨n, m, k⟩) (hc : parentCalls[n]? = some c)
    (hstore : perform limit .left c k = some k') : Exchange old ⟨n + 1, m, k'⟩ := by
  obtain ⟨hqueue, hgot, hchild, hparent, hchildMsg, hparentMsg, hchildOut, hparentOut, hexited,
    hwaited, hremoved⟩ := hs
  dsimp only at *
  match n with
  | 0 =>
    obtain rfl := Option.some.inj hc
    obtain rfl := Option.some.inj hstore
    constructor <;> simp_all
  | 1 =>
    obtain rfl := Option.some.inj hc
    obtain ⟨q, hq, hstore⟩ := Option.bind_eq_some_iff.1 hstore
    split at hstore
    · obtain rfl := Option.some.inj hstore
      rw [hq, Option.getD_some] at hqueue
      have hsend := pending_send old.ones (decide (1 < m))
        (by simpa using hchild) hello
      constructor <;> simp_all [Queue.of, Queue.set]
    · cases hstore
  | 2 =>
    obtain rfl := Option.some.inj hc
    obtain ⟨q, hq, hstore⟩ := Option.bind_eq_some_iff.1 hstore
    rw [hq, Option.getD_some] at hqueue
    obtain rfl := hqueue (by omega)
    dsimp only [Queue.of] at hstore
    split at hstore
    · cases hstore
    · rename_i text rest hpending heq
      obtain rfl := Option.some.inj hstore
      have hreceive := pending_receive hpending
      constructor <;> simp_all [Queue.set]
    · rename_i heq
      cases heq
  | 3 =>
    obtain rfl := Option.some.inj hc
    obtain rfl := Option.some.inj hstore
    constructor <;> simp_all
  | 4 =>
    obtain rfl := Option.some.inj hc
    rw [perform] at hstore
    split at hstore
    · obtain rfl := Option.some.inj hstore
      constructor <;> simp_all
    · cases hstore
  | 5 =>
    obtain rfl := Option.some.inj hc
    obtain rfl := Option.some.inj hstore
    constructor <;> simp_all
  | n + 6 => cases hc

theorem Exchange.right {old : Queue} (hs : Exchange old ⟨n, m, k⟩) (hc : childCalls[m]? = some c)
    (hstore : perform limit .right c k = some k') : Exchange old ⟨n, m + 1, k'⟩ := by
  obtain ⟨hqueue, hgot, hchild, hparent, hchildMsg, hparentMsg, hchildOut, hparentOut, hexited,
    hwaited, hremoved⟩ := hs
  dsimp only at *
  match m with
  | 0 =>
    obtain rfl := Option.some.inj hc
    obtain rfl := Option.some.inj hstore
    constructor <;> simp_all
    omega
  | 1 =>
    obtain rfl := Option.some.inj hc
    obtain ⟨q, hq, hstore⟩ := Option.bind_eq_some_iff.1 hstore
    rw [hq, Option.getD_some] at hqueue
    obtain rfl := hqueue (by omega)
    dsimp only [Queue.of] at hstore
    split at hstore
    · cases hstore
    · rename_i heq
      cases heq
    · rename_i text rest hpending heq
      obtain rfl := Option.some.inj hstore
      have hreceive := pending_receive hpending
      constructor <;> simp_all [Queue.set]
  | 2 =>
    obtain rfl := Option.some.inj hc
    obtain rfl := Option.some.inj hstore
    constructor <;> simp_all
  | 3 =>
    obtain rfl := Option.some.inj hc
    obtain ⟨q, hq, hstore⟩ := Option.bind_eq_some_iff.1 hstore
    split at hstore
    · obtain rfl := Option.some.inj hstore
      rw [hq, Option.getD_some] at hqueue
      have hsend := pending_send old.twos (decide (2 < n))
        (by simpa using hparent) hi
      constructor <;> simp_all [Queue.of, Queue.set]
    · cases hstore
  | 4 =>
    obtain rfl := Option.some.inj hc
    obtain rfl := Option.some.inj hstore
    constructor <;> simp_all
  | m + 5 => cases hc

theorem Exchange.call {old : Queue} (hs : Exchange old s) (h : Duet.Call (task limit) s t) :
    Exchange old t := by
  obtain ⟨c, k', hc, hstore, rfl⟩ | ⟨c, k', hc, hstore, rfl⟩ := h.of_once
  · exact hs.left hc hstore
  · exact hs.right hc hstore

/-- The queue, and how much there is in it. -/
theorem Exchange.length {old : Queue} (hs : Exchange old ⟨n, m, k⟩) (hn : n ≤ 5)
    (hgot : 0 < n ∨ 0 < m) : ∃ q, k.queue = some q ∧
      q.ones = pending old.ones hello (decide (1 < n)) (decide (1 < m)) ∧
      q.twos = pending old.twos hi (decide (3 < m)) (decide (2 < n)) ∧
      q.length + (decide (1 < m)).toNat + (decide (2 < n)).toNat =
        old.length + (decide (1 < n)).toNat + (decide (3 < m)).toNat := by
  obtain ⟨q, hq⟩ := Option.ne_none_iff_exists'.1 (hs.got hgot hn)
  have hqueue := hs.queue hn
  rw [hq, Option.getD_some] at hqueue
  dsimp only at hqueue
  have hones := length_pending _ (decide (1 < n)) (decide (1 < m))
    (by simpa using hs.child) hello
  have htwos := length_pending _ (decide (3 < m)) (decide (2 < n))
    (by simpa using hs.parent) hi
  refine ⟨q, hq, congrArg Queue.ones hqueue, congrArg Queue.twos hqueue, ?_⟩
  rw [hqueue]
  simp only [Queue.length]
  omega

/-- After the parent's message the child goes on. -/
theorem Exchange.child_call {old : Queue} (hroom : old.length < limit) (hs : Exchange old ⟨n, m, k⟩)
    (hn : 1 < n) (hn' : n ≤ 5) (hm : m ≤ 4) : ∃ t, Duet.Call (task limit) ⟨n, m, k⟩ t := by
  obtain ⟨q, hq, hones, -, hlength⟩ := hs.length hn' (.inl (by omega))
  match m with
  | 0 | 2 | 4 => exact Duet.exists_call_right rfl rfl
  | 1 =>
    refine Duet.exists_call_right (c := .receive .one) rfl ?_
    rw [perform, hq, Option.bind_some, Queue.of, hones]
    cases old.ones <;> simp [pending, hn]
  | 3 =>
    refine Duet.exists_call_right (c := .send .two hi) rfl ?_
    have hlt : q.length < limit := by
      simp [hn] at hlength
      omega
    simp [perform, hq, hlt]
  | m + 5 => omega

/-- Nobody waits in vain if there is room for one more message. -/
theorem Exchange.progress {old : Queue} (hroom : old.length < limit) (hs : Exchange old s)
    (hwithin : (task limit).Within s) (hend : ¬ (task limit).Ended s) :
    ∃ t, Duet.Call (task limit) s t := by
  obtain ⟨n, m, k⟩ := s
  have hn : n ≤ 6 := hwithin.1
  have hm : m ≤ 5 := hwithin.2
  have hexited : k.exited = true ↔ 4 < m := hs.exited
  have hwaited : 4 < n → 4 < m := hs.waited
  match n with
  | 0 | 3 | 5 => exact Duet.exists_call_left rfl rfl
  | 1 =>
    obtain ⟨q, hq, -, -, hlength⟩ := hs.length (by omega) (.inl (by omega))
    have hlt : q.length < limit := by
      have hle : (decide (3 < m)).toNat ≤ (decide (1 < m)).toNat := by
        by_cases hsent : 3 < m
        · simp [hsent, show 1 < m by omega]
        · simp [hsent]
      simp at hlength
      omega
    exact Duet.exists_call_left rfl (by simp [perform, hq, hlt])
  | 2 =>
    by_cases hanswered : m ≤ 4
    · exact hs.child_call hroom (by omega) (by omega) hanswered
    · obtain ⟨q, hq, -, htwos, -⟩ := hs.length (by omega) (.inl (by omega))
      refine Duet.exists_call_left (c := .receive .two) rfl ?_
      rw [perform, hq, Option.bind_some, Queue.of, htwos]
      cases old.twos <;> simp [pending, show 3 < m by omega]
  | 4 =>
    by_cases hdone : m ≤ 4
    · exact hs.child_call hroom (by omega) (by omega) hdone
    · exact Duet.exists_call_left rfl (by simp [perform, hexited.2 (by omega)])
  | n + 6 =>
    have hfive := hwaited (by omega)
    have hended : n + 6 = 6 ∧ m = 5 := by omega
    exact absurd hended hend

/-- Each process has printed the oldest message of its type, and the queue is gone. -/
def Final (old : Queue) (s : Duet.State Store) : Prop :=
  s.left = 6 ∧ s.right = 5 ∧ s.store.queue = none ∧
    s.store.childOut = (old.ones ++ [hello]).head? ∧ s.store.parentOut = (old.twos ++ [hi]).head?

theorem Exchange.ended {old : Queue} (hs : Exchange old s) (hend : (task limit).Ended s) :
    Final old s := by
  obtain ⟨hn, hm⟩ : s.left = 6 ∧ s.right = 5 := hend
  exact ⟨hn, hm, hs.removed (by omega), hs.childOut (by omega), hs.parentOut (by omega)⟩

/-! ### A queue that is full -/

/-- There is no message for the child, and no room for the parent's. -/
theorem leads_blocked (old : Option Queue) :
    (task limit).Leads ⟨0, 0, forked old⟩
      ⟨1, 1, ⟨some (old.getD ⟨[], []⟩), none, none, none, none, false⟩⟩ := by
  have hparent : (task limit).Leads ⟨0, 0, forked old⟩
      ⟨1, 0, ⟨some (old.getD ⟨[], []⟩), none, none, none, none, false⟩⟩ :=
    Duet.leads_left_play Duet.once_single.productive (l := parentCalls.take 1) rfl rfl
  exact hparent.trans
    (Duet.leads_right_play Duet.once_single.productive (l := childCalls.take 1) rfl rfl)

/-- The child takes an old message, and its answer takes the room. -/
theorem leads_alone {text : Text} {ones twos : List Text}
    (hlimit : (Queue.mk (text :: ones) twos).length = limit) :
    (task limit).Leads ⟨0, 0, forked (some ⟨text :: ones, twos⟩)⟩
      ⟨1, 5, ⟨some ⟨ones, twos ++ [hi]⟩, none, some text, none, some text, true⟩⟩ := by
  have hlt : ones.length + twos.length < limit := by
    simp only [Queue.length, List.length_cons] at hlimit
    omega
  refine (leads_blocked _).trans ?_
  exact Duet.leads_right_play Duet.once_single.productive (l := childCalls.drop 1) rfl (by
    simp [Duet.play, Duet.once, childCalls, perform, Queue.of, Queue.set, Queue.length, hlt])

theorem not_inevitable {old : Queue} {q : Option Queue}
    (hleads : (task limit).Leads ⟨0, 0, forked q⟩ s)
    (hrest : ((task limit).machine (forked q)).Rests s) (hs : s.left ≠ 6) :
    ¬ ((task limit).machine (forked q)).Inevitable (Final old) ⟨0, 0, forked q⟩ := by
  intro h
  have hkeep : ∀ s t, Final old s → ((task limit).machine (forked q)).Moves s t → Final old t :=
    fun s t hfinal hmove => absurd hmove (Duet.Ended.rests ⟨hfinal.1, hfinal.2.1⟩ t)
  exact hs (h.of_rests hkeep (hleads.path _) hrest).1

/-- A queue that is full stays full. -/
theorem send_eq_none {mtype : MType} {text : Text} {side : Side} (hq : k.queue = some q)
    (hfull : limit ≤ q.length) : perform limit side (.send mtype text) k = none := by
  rw [perform, hq, Option.bind_some, if_neg (Nat.not_lt.2 hfull)]

theorem not_inevitable_of_full (hfull : (old.getD ⟨[], []⟩).length = limit) :
    ¬ ((task limit).machine (forked old)).Inevitable (Final (old.getD ⟨[], []⟩))
      ⟨0, 0, forked old⟩ := by
  obtain ⟨⟨ones, twos⟩, hold⟩ : ∃ q, q = old.getD ⟨[], []⟩ := ⟨_, rfl⟩
  rw [← hold] at hfull ⊢
  cases ones with
  | nil =>
    refine not_inevitable (leads_blocked old) ?_ (by simp)
    rw [← hold]
    rintro t ⟨-, hstep⟩
    obtain ⟨c, k', hc, hstore, rfl⟩ | ⟨c, k', hc, hstore, rfl⟩ := (Duet.call_iff.2 hstep).of_once
    · obtain rfl := Option.some.inj hc
      rw [send_eq_none rfl hfull.ge] at hstore
      cases hstore
    · obtain rfl := Option.some.inj hc
      cases hstore
  | cons text ones =>
    obtain rfl : old = some ⟨text :: ones, twos⟩ := by
      cases old with
      | none => cases hold
      | some q => exact congrArg some hold.symm
    refine not_inevitable (leads_alone hfull) ?_ (by simp)
    rintro t ⟨-, hstep⟩
    obtain ⟨c, k', hc, hstore, rfl⟩ | ⟨c, k', hc, hstore, rfl⟩ := (Duet.call_iff.2 hstep).of_once
    · obtain rfl := Option.some.inj hc
      have hagain : limit ≤ (Queue.mk ones (twos ++ [hi])).length := by
        simp only [Queue.length, List.length_cons, List.length_append, List.length_nil] at hfull ⊢
        omega
      rw [send_eq_none rfl hagain] at hstore
      cases hstore
    · cases hc

/-- **The System V queue.**  Both processes end in whatever order the calls are made exactly if the
messages that an earlier run has left do not fill the queue; each of the two has printed the oldest
message of its type then, and the queue is gone. -/
theorem msg_exchange (hle : (old.getD ⟨[], []⟩).length ≤ limit) :
    ((task limit).machine (forked old)).Inevitable (Final (old.getD ⟨[], []⟩)) ⟨0, 0, forked old⟩ ↔
      (old.getD ⟨[], []⟩).length < limit := by
  constructor
  · intro h
    by_contra hlt
    exact not_inevitable_of_full (by omega) h
  · intro hroom
    exact (Duet.inevitable_ended Duet.once_single (exchange_forked old)
      (fun _ _ hs h => hs.call h)
      fun _ hs hwithin hend => hs.progress hroom hwithin hend).mono fun s hs => hs.1.ended hs.2

/-- Two messages of an earlier run in a queue of 16 KiB. -/
theorem msg_exchange_left :
    ((task 204).machine (forked (some ⟨[hello], [hi]⟩))).Inevitable (Final ⟨[hello], [hi]⟩)
      ⟨0, 0, forked (some ⟨[hello], [hi]⟩)⟩ ↔ (Queue.mk [hello] [hi]).length < 204 :=
  @msg_exchange 204 (some ⟨[hello], [hi]⟩) (by decide)

end EmbeddedC.Queues.SystemV
