import EmbeddedC.Chatroom.Broadcast

/-!
# The chatroom: the order of the messages

Two layers of priority queues lie between the sender of a chat message and those who see it.
Within one priority each of them is a FIFO, and the server relays one chat message at a time.

* `Fifo`: what a user has dequeued, put in front of what waits, is what was enqueued, priority by
  priority;
* `Accounted`: so is what the server has dequeued of each user's chat messages;
* `chat_order`: all users see the chat messages in the order in which the server dequeued them.
-/

namespace EmbeddedC.Chatroom

/-- The queue to the client delivers each priority in order. -/
def Chan.Fifo (c : Chan) : Prop :=
  ∀ p, MessageQueue.level Msg.prio p c.taken ++ MessageQueue.level Msg.prio p c.stoc =
    MessageQueue.level Msg.prio p c.queued

theorem Chan.fifo_kept : Chan.Kept Chan.Fifo where
  fresh := fun _ _ => rfl
  send := fun c m h p => by
    obtain ⟨-, hqueued, hstoc⟩ | ⟨-, hsame⟩ := c.sendStoc_queued m
    · rw [hqueued, hstoc, c.sendStoc_taken, MessageQueue.level_append, MessageQueue.level_append,
        ← List.append_assoc, h p]
    · rw [hsame, h p]
  recv := fun c m c' h hm p => by
    obtain ⟨q, -, rfl⟩ := Chan.recvCtos_eq_some hm
    exact h p
  link := fun c b h p => h p
  client := fun c c' h hmove p => by rw [hmove.fifo, h p, hmove.queued]

/-- The chat messages a user has dequeued, as numbers in the order in which the server dequeued
them. -/
def Chan.shown (c : Chan) : List ℕ :=
  chatNumbers (MessageQueue.level Msg.prio t3MsgsndPrio c.taken)

/-- What was sent under each id is what the server has dequeued and what it has not. -/
structure Accounted (K : Kernel) (v : Server) : Prop where
  chats : ∀ k, (K.chan k).chatsSent = v.handledBy k ++ (K.chan k).chatsWaiting
  senders : ∀ h ∈ v.handled, h.1 ≤ v.users.length

theorem Chan.chats_sendStoc (c : Chan) (m : Msg) : (c.sendStoc m).chatsSent = c.chatsSent ∧
    (c.sendStoc m).chatsWaiting = c.chatsWaiting := by
  simp [Chan.chatsSent, Chan.chatsWaiting]

theorem Chan.chats_recvCtos {c c' : Chan} {m : Msg} (h : c.recvCtos = some (m, c')) :
    c'.chatsSent = c.chatsSent ∧
      c.chatsWaiting = (if m.prio = t3UserPrio then [m.text] else []) ++ c'.chatsWaiting := by
  obtain ⟨q, hq, rfl⟩ := Chan.recvCtos_eq_some h
  refine ⟨rfl, ?_⟩
  unfold Chan.chatsWaiting
  rw [← MessageQueue.level_receive hq, List.map_append, MessageQueue.level_singleton]
  split <;> rfl

/-- A step that takes no chat message. -/
theorem Accounted.quiet {K K' : Kernel} {v v' : Server} (h : Accounted K v)
    (hchan : ∀ k, (K'.chan k).chatsSent = (K.chan k).chatsSent ∧
      (K'.chan k).chatsWaiting = (K.chan k).chatsWaiting)
    (hhandled : v'.handled = v.handled) (husers : v'.users.length = v.users.length) :
    Accounted K' v' := by
  refine ⟨fun k => ?_, fun h' hh' => ?_⟩
  · rw [(hchan k).1, (hchan k).2, h.chats k, Server.handledBy, Server.handledBy, hhandled]
  · rw [husers]
    exact h.senders h' (hhandled ▸ hh')

/-- An operation on one channel that takes no chat message. -/
theorem Accounted.modify {K : Kernel} {v v' : Server} {k : ℕ} {f : Chan → Chan}
    (h : Accounted K v) (hf : (f (K.chan k)).chatsSent = (K.chan k).chatsSent ∧
      (f (K.chan k)).chatsWaiting = (K.chan k).chatsWaiting)
    (hhandled : v'.handled = v.handled) (husers : v'.users.length = v.users.length) :
    Accounted (K.modify k f) v' :=
  h.quiet (Kernel.modify_forall (P := fun j c => c.chatsSent = (K.chan j).chatsSent ∧
    c.chatsWaiting = (K.chan j).chatsWaiting) (fun _ => ⟨rfl, rfl⟩) hf) hhandled husers

/-- A step that dequeues another command. -/
theorem Accounted.recv {K : Kernel} {v v' : Server} {k : ℕ} {m : Msg} {c : Chan} (c' : Chan)
    (h : Accounted K v) (hm : (K.chan k).recvCtos = some (m, c)) (hprio : m.prio ≠ t3UserPrio)
    (hc' : c'.chatsSent = c.chatsSent ∧ c'.chatsWaiting = c.chatsWaiting)
    (hhandled : v'.handled = v.handled) (husers : v'.users.length = v.users.length) :
    Accounted (K.modify k fun _ => c') v' := by
  obtain ⟨hsent, hwaiting⟩ := Chan.chats_recvCtos hm
  refine h.modify ⟨hc'.1.trans hsent, ?_⟩ hhandled husers
  rw [hc'.2, hwaiting, if_neg hprio, List.nil_append]

theorem Accounted.serverStep {K K' : Kernel} {v v' : Server} (h : Accounted K v)
    (hs : ServerStep K v K' v') : Accounted K' v' := by
  cases hs with
  | idle | takeReply | takeOther | finish | skip | down =>
    exact h.quiet (fun _ => ⟨rfl, rfl⟩) rfl rfl
  | resend | reply => exact h.quiet (fun _ => by simp) rfl rfl
  | deliver | answer => exact h.modify (Chan.chats_sendStoc _ _) rfl rfl
  | farewell => exact h.modify (Chan.chats_sendStoc _ _) rfl rfl
  | @register text q hpc hq =>
    -- nothing was sent under the new id
    have hnone : v.handledBy (v.users.length + 1) = [] := by
      rw [Server.handledBy, List.map_eq_nil_iff, List.filter_eq_nil_iff]
      intro h' hh'
      have := h.senders h' hh'
      simp only [decide_eq_true_eq]
      omega
    refine ⟨Kernel.modify_forall (P := fun k c => c.chatsSent = v.handledBy k ++ c.chatsWaiting)
      h.chats ?_, fun h' hh' => ?_⟩
    · rw [hnone]
      rfl
    · have := h.senders h' hh'
      simp only [List.length_append]
      omega
  | @chat index u m c hpc hu hid hm hprio =>
    obtain ⟨hsent, hwaiting⟩ := Chan.chats_recvCtos hm
    rw [if_pos hprio] at hwaiting
    constructor
    · intro k
      by_cases hk : k = index + 1
      · subst hk
        rw [Kernel.modify_chan_self, hsent, h.chats, hwaiting]
        simp [Server.handledBy]
      · rw [Kernel.modify_chan_of_ne _ _ hk, h.chats k]
        simp [Server.handledBy, Ne.symm hk]
    · intro h' hh'
      obtain hh' | hh' := List.mem_append.1 hh'
      · exact h.senders h' hh'
      · rw [List.mem_singleton.1 hh']
        exact List.lt_length_of_getElem?_eq_some hu
  | rename hpc hu hid hm hprio =>
    exact h.recv _ hm (by rw [hprio]; decide) ⟨rfl, rfl⟩ rfl (List.length_set ..)
  | request hpc hu hid hm hprio =>
    exact h.recv _ hm (by rw [hprio]; decide) ⟨rfl, rfl⟩ rfl rfl
  | discard hpc hu hid hm hprio => exact h.recv _ hm hprio ⟨rfl, rfl⟩ rfl rfl
  | @leave index u m c list hpc hu hid hm hprio =>
    exact h.recv { c with linked := false } hm (by rw [hprio]; decide) ⟨rfl, rfl⟩ rfl
      (List.length_set ..)
  | @leaveLast index u m c hpc hu hid hm hprio =>
    have hrecv := h.recv { c with linked := false } hm (by rw [hprio]; decide)
      ⟨rfl, rfl⟩ rfl (rfl : v.users.length = _)
    exact hrecv.quiet (fun _ => ⟨rfl, rfl⟩) rfl (List.length_set ..)

theorem accounted_of_reachable {s : State} (h : chatroom.Reachable s) :
    Accounted s.kernel s.server := by
  refine h.invariant (I := fun s => Accounted s.kernel s.server) (fun s hs => ?_)
    fun s a t _ hs hstep => ?_
  · obtain ⟨index, rfl⟩ := hs
    exact ⟨fun _ => rfl, by simp [initial, Server.initial]⟩
  · obtain ⟨junk, -, hserver, -⟩ | ⟨-, rfl⟩ | hclient := step_cases hstep
    · exact hs.serverStep hserver
    · exact hs.quiet (fun _ => ⟨rfl, rfl⟩) rfl rfl
    · rw [hclient.frame.server]
      refine ⟨fun k => ?_, hs.senders⟩
      obtain ⟨new, hctos, hsent⟩ := (hclient.frame.chan k).ctos
      have := hs.chats k
      simp only [Chan.chatsSent, Chan.chatsWaiting] at this ⊢
      rw [hctos, hsent, MessageQueue.level_append, MessageQueue.level_append, List.map_append,
        List.map_append, this, List.append_assoc]

/-- The one global sequence is `handled`, the chat messages in the order in which the server
dequeued them; positions in it stand for its messages. -/
structure ChatOrder (s : State) : Prop where
  /-- what a user dequeues as a chat message is a message of the sequence -/
  relayed : ∀ k, ∀ m ∈ MessageQueue.level Msg.prio t3MsgsndPrio (s.kernel.chan k).taken,
    ∃ i sender login text, i ∈ (s.kernel.chan k).shown ∧
      s.server.handled[i]? = some (sender, text) ∧ m = chatMsg login text i
  /-- and these messages are a subsequence of it, without repetition -/
  subsequence : ∀ k, PositionsIn s.server.handled.length (s.kernel.chan k).shown
  /-- in which each sender's messages are in the order in which they were enqueued -/
  senders : ∀ k, s.server.handledBy k <+: (s.kernel.chan k).chatsSent
  /-- so that two users see two common messages in the same order -/
  agree : ∀ k l i j, [i, j].Sublist (s.kernel.chan k).shown → i ∈ (s.kernel.chan l).shown →
    j ∈ (s.kernel.chan l).shown → [i, j].Sublist (s.kernel.chan l).shown

/-- What a user has dequeued as chat messages was enqueued in this order. -/
theorem Chan.Fifo.sublist {c : Chan} (h : c.Fifo) :
    (MessageQueue.level Msg.prio t3MsgsndPrio c.taken).Sublist c.queued := by
  have hprefix : (MessageQueue.level Msg.prio t3MsgsndPrio c.taken).Sublist
      (MessageQueue.level Msg.prio t3MsgsndPrio c.queued) := by
    rw [← h t3MsgsndPrio]
    exact List.sublist_append_left _ _
  exact hprefix.trans List.filter_sublist

/-- **Message order.** In every run, with any messages dropped at full queues, every user sees
chat messages in the order in which the server dequeued them, each at most once, and in that
order the messages of each sender are as they were sent. -/
theorem chat_order {s : State} (h : chatroom.Reachable s) : ChatOrder s := by
  have hposts := posts_of_reachable h
  have hfifo := Chan.fifo_kept.of_reachable h
  have hsub : ∀ k, PositionsIn s.server.handled.length (s.kernel.chan k).shown := fun k =>
    (hposts.queued k).ordered.of_sublist ((hfifo k).sublist.filterMap _)
  refine ⟨fun k m hm => ?_, hsub, fun k => ?_, fun k l i j => (hsub k).agree (hsub l)⟩
  · have hpost := (hposts.queued k).posts m ((hfifo k).sublist.subset hm)
    obtain ⟨i, hi⟩ := hpost.prio.1 ((MessageQueue.mem_level _).1 hm).2
    obtain ⟨sender, login, text, hlookup, htext⟩ := hpost.text i hi
    exact ⟨i, sender, login, text, mem_chatNumbers.2 ⟨m, hm, hi⟩, hlookup, htext⟩
  · rw [(accounted_of_reachable h).chats k]
    exact List.prefix_append _ _

/-- A `handle_msg` thread of the client shows what the server relayed. -/
def chatShown : State :=
  (chatroom.run (initial 0) (firstChat ++ List.replicate 4 (.handler 0 0))).get (by decide +kernel)

theorem chatShown_reachable : chatroom.Reachable chatShown :=
  Machine.reachable_of_run ⟨0, rfl⟩ (Option.some_get _).symm

theorem chat_order_chatShown : ChatOrder chatShown := chat_order chatShown_reachable

example : (chatShown.kernel.chan 1).shown = [0] := by decide +kernel

end EmbeddedC.Chatroom
