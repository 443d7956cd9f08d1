import EmbeddedC.Lib.Duet
import EmbeddedC.Lib.MessageQueue

/-!
# Homework 12: two processes and two POSIX queues

The parent sends to the queue `/parent` and receives from `/child`, the child the other way round.
Messages that an earlier run has left are still there; a queue that is full makes the sender wait.

* `parentCalls`, `childCalls`: the system calls of `second_task`, in their order;
* `Exchange`: what is in the queues, in every reachable state;
* `mq_exchange`: both processes end in every order of the calls, whatever has been left in the
  queues; each has received the oldest message for it.
-/

namespace EmbeddedC.Queues.Posix

open Duet (Side)
open MessageQueue (pending pending_send pending_receive length_pending)

abbrev Text := List Char

/-- `parent` and `child` -/
inductive QueueName
  | parent
  | child
  deriving DecidableEq

/-- The queues, if there are any, the `msg_rcv` of either process, what they have printed, and
whether the child has exited.  All messages in one queue have the priority of its sender, and are
received in their order. -/
structure Store where
  parentQ : Option (List Text)
  childQ : Option (List Text)
  parentRcv : Option Text
  childRcv : Option Text
  parentOut : Option Text
  childOut : Option Text
  exited : Bool

def Store.queue (k : Store) : QueueName → Option (List Text)
  | .parent => k.parentQ
  | .child => k.childQ

def Store.setQueue (k : Store) (msgs : Option (List Text)) : QueueName → Store
  | .parent => { k with parentQ := msgs }
  | .child => { k with childQ := msgs }

def Store.setRcv (k : Store) (text : Text) : Side → Store
  | .left => { k with parentRcv := some text }
  | .right => { k with childRcv := some text }

inductive Call
  /-- `mq_open` with `O_CREAT` -/
  | create (name : QueueName)
  | send (name : QueueName) (text : Text)
  | receive (name : QueueName)
  | print
  | exit
  | wait
  | unlink (name : QueueName)

/-- What a call leaves; a queue has room for `maxmsg` messages. -/
def perform (maxmsg : ℕ) (side : Side) (c : Call) (k : Store) : Option Store :=
  match c with
  | .create name => some (k.setQueue (some ((k.queue name).getD [])) name)
  | .send name text => (k.queue name).bind fun msgs =>
      if msgs.length < maxmsg then some (k.setQueue (some (msgs ++ [text])) name) else none
  | .receive name => (k.queue name).bind fun msgs =>
      match msgs with
      | [] => none
      | text :: rest => some ((k.setQueue (some rest) name).setRcv text side)
  | .print =>
    match side with
    | .left => some { k with parentOut := k.parentRcv }
    | .right => some { k with childOut := k.childRcv }
  | .exit => some { k with exited := true }
  | .wait => if k.exited then some k else none
  | .unlink name => some (k.setQueue none name)

def goodMorning : Text := "Good morning".toList

def greetings : Text := "Greetings".toList

/-- `mq_close` is not among the calls, as nothing depends on it. -/
def parentCalls : List Call :=
  [.create .parent, .create .child, .send .parent goodMorning, .receive .child, .print, .wait,
    .unlink .parent, .unlink .child]

def childCalls : List Call :=
  [.create .child, .create .parent, .receive .parent, .print, .send .child greetings, .exit]

def task (maxmsg : ℕ) : Duet Call Store := Duet.once parentCalls childCalls (perform maxmsg)

/-- The child has been forked; an earlier run may have left queues. -/
def forked (parentQ childQ : Option (List Text)) : Store :=
  ⟨parentQ, childQ, none, none, none, none, false⟩

variable {maxmsg n m : ℕ} {parentQ childQ : Option (List Text)} {forth back : List Text}
  {s t : Duet.State Store} {k k' : Store} {c : Call}

/-- What is in the queues, after `forth` and `back` had been left in them. -/
structure Exchange (forth back : List Text) (s : Duet.State Store) : Prop where
  parentQ : s.left ≤ 6 → s.store.parentQ.getD [] =
    pending forth goodMorning (decide (2 < s.left)) (decide (2 < s.right))
  childQ : s.left ≤ 7 → s.store.childQ.getD [] =
    pending back greetings (decide (4 < s.right)) (decide (3 < s.left))
  gotParent : 0 < s.left ∨ 1 < s.right → s.left ≤ 6 → s.store.parentQ ≠ none
  gotChild : 1 < s.left ∨ 0 < s.right → s.left ≤ 7 → s.store.childQ ≠ none
  child : 2 < s.right → 2 < s.left ∨ forth ≠ []
  parent : 3 < s.left → 4 < s.right ∨ back ≠ []
  childRcv : 2 < s.right → s.store.childRcv = (forth ++ [goodMorning]).head?
  parentRcv : 3 < s.left → s.store.parentRcv = (back ++ [greetings]).head?
  childOut : 3 < s.right → s.store.childOut = (forth ++ [goodMorning]).head?
  parentOut : 4 < s.left → s.store.parentOut = (back ++ [greetings]).head?
  exited : s.store.exited = true ↔ 5 < s.right
  waited : 5 < s.left → 5 < s.right
  removedParent : 6 < s.left → s.store.parentQ = none
  removedChild : 7 < s.left → s.store.childQ = none

theorem exchange_forked (parentQ childQ : Option (List Text)) :
    Exchange (parentQ.getD []) (childQ.getD []) ⟨0, 0, forked parentQ childQ⟩ := by
  constructor <;> simp [forked, pending]

theorem Exchange.left (hs : Exchange forth back ⟨n, m, k⟩) (hc : parentCalls[n]? = some c)
    (hstore : perform maxmsg .left c k = some k') : Exchange forth back ⟨n + 1, m, k'⟩ := by
  obtain ⟨hparentQ, hchildQ, hgotParent, hgotChild, hchild, hparent, hchildRcv, hparentRcv,
    hchildOut, hparentOut, hexited, hwaited, hremovedParent, hremovedChild⟩ := hs
  dsimp only at *
  match n with
  | 0 | 1 | 6 | 7 =>
    obtain rfl := Option.some.inj hc
    obtain rfl := Option.some.inj hstore
    constructor <;> simp_all [Store.queue, Store.setQueue]
  | 2 =>
    obtain rfl := Option.some.inj hc
    obtain ⟨msgs, hmsgs, hstore⟩ := Option.bind_eq_some_iff.1 hstore
    split at hstore
    · obtain rfl := Option.some.inj hstore
      have hsend := pending_send forth (decide (2 < m))
        (by simpa using hchild) goodMorning
      constructor <;> simp_all [Store.queue, Store.setQueue]
    · cases hstore
  | 3 =>
    obtain rfl := Option.some.inj hc
    obtain ⟨msgs, hmsgs, hstore⟩ := Option.bind_eq_some_iff.1 hstore
    change k.childQ = some msgs at hmsgs
    rw [hmsgs, Option.getD_some] at hchildQ
    split at hstore
    · cases hstore
    · rename_i text rest
      obtain rfl := Option.some.inj hstore
      have hreceive := pending_receive (hchildQ (by omega)).symm
      constructor <;> simp_all [Store.setQueue, Store.setRcv]
  | 4 =>
    obtain rfl := Option.some.inj hc
    obtain rfl := Option.some.inj hstore
    constructor <;> simp_all
  | 5 =>
    obtain rfl := Option.some.inj hc
    rw [perform] at hstore
    split at hstore
    · obtain rfl := Option.some.inj hstore
      constructor <;> simp_all
    · cases hstore
  | n + 8 => cases hc

theorem Exchange.right (hs : Exchange forth back ⟨n, m, k⟩) (hc : childCalls[m]? = some c)
    (hstore : perform maxmsg .right c k = some k') : Exchange forth back ⟨n, m + 1, k'⟩ := by
  obtain ⟨hparentQ, hchildQ, hgotParent, hgotChild, hchild, hparent, hchildRcv, hparentRcv,
    hchildOut, hparentOut, hexited, hwaited, hremovedParent, hremovedChild⟩ := hs
  dsimp only at *
  have hn : m ≤ 5 → n ≤ 5 := fun hm => by omega
  match m with
  | 0 | 1 =>
    obtain rfl := Option.some.inj hc
    obtain rfl := Option.some.inj hstore
    constructor <;> grind [Store.queue, Store.setQueue]
  | 2 =>
    obtain rfl := Option.some.inj hc
    obtain ⟨msgs, hmsgs, hstore⟩ := Option.bind_eq_some_iff.1 hstore
    change k.parentQ = some msgs at hmsgs
    rw [hmsgs, Option.getD_some] at hparentQ
    split at hstore
    · cases hstore
    · rename_i text rest
      obtain rfl := Option.some.inj hstore
      have hreceive := pending_receive (hparentQ (by omega)).symm
      constructor <;> simp_all [Store.setQueue, Store.setRcv]
  | 3 =>
    obtain rfl := Option.some.inj hc
    obtain rfl := Option.some.inj hstore
    constructor <;> simp_all
  | 4 =>
    obtain rfl := Option.some.inj hc
    obtain ⟨msgs, hmsgs, hstore⟩ := Option.bind_eq_some_iff.1 hstore
    split at hstore
    · obtain rfl := Option.some.inj hstore
      have hsend := pending_send back (decide (3 < n))
        (by simpa using hparent) greetings
      constructor <;> simp_all [Store.queue, Store.setQueue]
    · cases hstore
  | 5 =>
    obtain rfl := Option.some.inj hc
    obtain rfl := Option.some.inj hstore
    constructor <;> simp_all
  | m + 6 => cases hc

theorem Exchange.call (hs : Exchange forth back s) (h : Duet.Call (task maxmsg) s t) :
    Exchange forth back t := by
  obtain ⟨c, k', hc, hstore, rfl⟩ | ⟨c, k', hc, hstore, rfl⟩ := h.of_once
  · exact hs.left hc hstore
  · exact hs.right hc hstore

/-- The queue `/parent`. -/
theorem Exchange.forth_pending (hs : Exchange forth back ⟨n, m, k⟩) (hn : n ≤ 6)
    (hgot : 0 < n ∨ 1 < m) :
    k.parentQ = some (pending forth goodMorning (decide (2 < n)) (decide (2 < m))) := by
  obtain ⟨msgs, hmsgs⟩ := Option.ne_none_iff_exists'.1 (hs.gotParent hgot hn)
  have hparentQ := hs.parentQ hn
  rw [hmsgs, Option.getD_some] at hparentQ
  exact hmsgs.trans (congrArg some hparentQ)

/-- The queue `/child`. -/
theorem Exchange.back_pending (hs : Exchange forth back ⟨n, m, k⟩) (hn : n ≤ 7)
    (hgot : 1 < n ∨ 0 < m) :
    k.childQ = some (pending back greetings (decide (4 < m)) (decide (3 < n))) := by
  obtain ⟨msgs, hmsgs⟩ := Option.ne_none_iff_exists'.1 (hs.gotChild hgot hn)
  have hchildQ := hs.childQ hn
  rw [hmsgs, Option.getD_some] at hchildQ
  exact hmsgs.trans (congrArg some hchildQ)

/-- The child goes on if there is something to receive, and if there is room for its answer. -/
theorem Exchange.child_call (hs : Exchange forth back ⟨n, m, k⟩) (hn : 1 < n) (hn' : n ≤ 5)
    (hm : m ≤ 5) (hsent : m = 2 → 2 < n ∨ forth ≠ [])
    (hroom : m = 4 → (pending back greetings false (decide (3 < n))).length < maxmsg) :
    ∃ t, Duet.Call (task maxmsg) ⟨n, m, k⟩ t := by
  match m with
  | 0 | 1 | 3 | 5 => exact Duet.exists_call_right rfl rfl
  | 2 =>
    refine Duet.exists_call_right (c := .receive .parent) rfl ?_
    rw [perform, Store.queue, hs.forth_pending (by omega) (.inr (by simp)), Option.bind_some]
    cases forth with
    | nil => simp [pending, (hsent rfl).resolve_right (by simp)]
    | cons text forth => simp [pending]
  | 4 =>
    refine Duet.exists_call_right (c := .send .child greetings) rfl ?_
    rw [perform, Store.queue, hs.back_pending (by omega) (.inr (by simp)), Option.bind_some]
    simpa using hroom rfl
  | m + 6 => omega

/-- Nobody waits in vain. -/
theorem Exchange.progress (hmaxmsg : 0 < maxmsg) (hforth : forth.length ≤ maxmsg)
    (hback : back.length ≤ maxmsg) (hs : Exchange forth back s) (hwithin : (task maxmsg).Within s)
    (hend : ¬ (task maxmsg).Ended s) : ∃ t, Duet.Call (task maxmsg) s t := by
  obtain ⟨n, m, k⟩ := s
  have hn : n ≤ 8 := hwithin.1
  have hm : m ≤ 6 := hwithin.2
  have hexited : k.exited = true ↔ 5 < m := hs.exited
  have hwaited : 5 < n → 5 < m := hs.waited
  have hchild : 2 < m → 2 < n ∨ forth ≠ [] := hs.child
  have hparent : 3 < n → 4 < m ∨ back ≠ [] := hs.parent
  match n with
  | 0 | 1 | 4 | 6 | 7 => exact Duet.exists_call_left rfl rfl
  | 2 =>
    by_cases hroom : (pending forth goodMorning false (decide (2 < m))).length < maxmsg
    · refine Duet.exists_call_left (c := .send .parent goodMorning) rfl ?_
      rw [perform, Store.queue, hs.forth_pending (by omega) (.inl (by simp)), Option.bind_some]
      simpa using hroom
    · -- the queue is full, and the child can receive
      have hlength := length_pending forth false (decide (2 < m))
        (by simpa using hchild) goodMorning
      have hle : m ≤ 2 := by
        by_contra hlt
        simp [show 2 < m by omega] at hlength hroom
        omega
      refine hs.child_call (by simp) (by simp) (by omega) (fun _ => .inr ?_) (by omega)
      rintro rfl
      simp [pending] at hroom
      omega
  | 3 =>
    by_cases hempty : pending back greetings (decide (4 < m)) false = []
    · refine hs.child_call (by simp) (by simp) ?_ (fun _ => .inl (by simp)) fun hfour => ?_
      · by_contra hlt
        simp [pending, show 4 < m by omega] at hempty
      · simp [hfour] at hempty
        simpa [hempty] using hmaxmsg
    · refine Duet.exists_call_left (c := .receive .child) rfl ?_
      rw [perform, Store.queue, hs.back_pending (by omega) (.inl (by simp)), Option.bind_some]
      obtain ⟨text, rest, hcons⟩ := List.exists_cons_of_ne_nil hempty
      simp [hcons]
  | 5 =>
    by_cases hdone : m ≤ 5
    · refine hs.child_call (by simp) (by simp) hdone (fun _ => .inl (by simp)) fun hfour => ?_
      have hlength := length_pending back false true
        (by simpa [hfour] using hparent) greetings
      simp at hlength ⊢
      omega
    · exact Duet.exists_call_left rfl (by simp [perform, hexited.2 (by omega)])
  | n + 8 =>
    have hsix := hwaited (by omega)
    have hended : n + 8 = 8 ∧ m = 6 := by omega
    exact absurd hended hend

/-- Each process has printed the oldest message for it, and the queues are gone. -/
def Final (forth back : List Text) (s : Duet.State Store) : Prop :=
  s.left = 8 ∧ s.right = 6 ∧ s.store.parentQ = none ∧ s.store.childQ = none ∧
    s.store.childOut = (forth ++ [goodMorning]).head? ∧
    s.store.parentOut = (back ++ [greetings]).head?

theorem Exchange.ended (hs : Exchange forth back s) (hend : (task maxmsg).Ended s) :
    Final forth back s := by
  obtain ⟨hn, hm⟩ : s.left = 8 ∧ s.right = 6 := hend
  exact ⟨hn, hm, hs.removedParent (by omega), hs.removedChild (by omega), hs.childOut (by omega),
    hs.parentOut (by omega)⟩

/-- **The POSIX queues.**  Both processes end in whatever order the calls are made, even if an
earlier run has left the queues full; each of the two has printed the oldest message for it then,
and the queues are gone. -/
theorem mq_exchange (hmaxmsg : 0 < maxmsg) (hforth : (parentQ.getD []).length ≤ maxmsg)
    (hback : (childQ.getD []).length ≤ maxmsg) :
    ((task maxmsg).machine (forked parentQ childQ)).Inevitable
      (Final (parentQ.getD []) (childQ.getD [])) ⟨0, 0, forked parentQ childQ⟩ :=
  (Duet.inevitable_ended Duet.once_single (exchange_forked parentQ childQ)
    (fun _ _ hs h => hs.call h) fun _ hs hwithin hend =>
      hs.progress hmaxmsg hforth hback hwithin hend).mono fun _ hs => hs.1.ended hs.2

/-- `T2_MAX_MSGS` is two, and one of the queues is full. -/
theorem mq_exchange_full :
    ((task 2).machine (forked (some [goodMorning, goodMorning]) none)).Inevitable
      (Final [goodMorning, goodMorning] [])
      ⟨0, 0, forked (some [goodMorning, goodMorning]) none⟩ :=
  @mq_exchange 2 (some [goodMorning, goodMorning]) none (by decide) (by decide) (by decide)

end EmbeddedC.Queues.Posix
