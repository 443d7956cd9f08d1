import EmbeddedC.Lib.Positions
import EmbeddedC.Chatroom.System

/-!
# The chatroom: what is in the queues to the users

Every chat message and every user list that the server broadcasts has a number, and the
server's loop offers it to one user after the other.

* `Post`: a message was built from what the server has handled;
* `Queued`: the chat messages enqueued for one user are in the order of their numbers, each at
  most once;
* `Current`: the message of the loop that is running, and who has not been offered it yet;
* `Posts`, `posts_of_reachable`: all of this in every run.
-/

namespace EmbeddedC.Chatroom

/-- The number of a chat message. -/
def Msg.chatNumber (m : Msg) : Option ℕ :=
  match m.origin with
  | .chat i => some i
  | _ => none

/-- The numbers of the chat messages in a queue or history. -/
def chatNumbers (q : List Msg) : List ℕ := q.filterMap Msg.chatNumber

theorem chatNumber_eq_some {m : Msg} {i : ℕ} : m.chatNumber = some i ↔ m.origin = .chat i := by
  unfold Msg.chatNumber
  cases m.origin <;> simp

theorem mem_chatNumbers {q : List Msg} {i : ℕ} :
    i ∈ chatNumbers q ↔ ∃ m ∈ q, m.origin = .chat i := by
  simp only [chatNumbers, List.mem_filterMap, chatNumber_eq_some]

/-- The server has given out this number. -/
def Origin.Issued (v : Server) : Origin → Prop
  | .chat i => i < v.handled.length
  | .userList b => b < v.lists
  | .direct => True

/-- The number given out last. -/
def Origin.Latest (v : Server) : Origin → Prop
  | .chat i => i + 1 = v.handled.length
  | .userList b => b + 1 = v.lists
  | .direct => False

theorem Origin.Latest.issued {v : Server} {o : Origin} (h : o.Latest v) : o.Issued v := by
  cases o with
  | chat i | userList b =>
    simp only [Latest, Issued] at h ⊢
    omega
  | direct => trivial

/-- The histories of `v'` continue those of `v`. -/
structure Extends (v v' : Server) : Prop where
  handled : v.handled <+: v'.handled
  lists : v.lists ≤ v'.lists

theorem Origin.Issued.mono {v v' : Server} {o : Origin} (h : o.Issued v) (hext : Extends v v') :
    o.Issued v' := by
  cases o with
  | chat i => exact lt_of_lt_of_le h hext.handled.length_le
  | userList b => exact lt_of_lt_of_le h hext.lists
  | direct => trivial

/-- A message the server sends: its number has been given out; it has the priority of chat
messages iff it relays one, whose text it then shows behind the sender's name; with the number of a
user list it carries one. -/
structure Post (v : Server) (m : Msg) : Prop where
  issued : m.origin.Issued v
  prio : m.prio = t3MsgsndPrio ↔ ∃ i, m.origin = .chat i
  text : ∀ i, m.origin = .chat i → ∃ k login text, v.handled[i]? = some (k, text) ∧
    m = chatMsg login text i
  list : ∀ b, m.origin = .userList b → ∃ w, m = listMsg w (.userList b)

theorem Post.mono {v v' : Server} {m : Msg} (h : Post v m) (hext : Extends v v') : Post v' m := by
  refine ⟨h.issued.mono hext, h.prio, fun i hi => ?_, h.list⟩
  obtain ⟨k, login, text, hlookup, htext⟩ := h.text i hi
  obtain ⟨l, hl⟩ := hext.handled
  refine ⟨k, login, text, ?_, htext⟩
  rw [← hl, List.getElem?_append_left (List.lt_length_of_getElem?_eq_some hlookup), hlookup]

theorem post_listMsg {v v' : Server} {o : Origin} (ho : o.Issued v) (hchat : ∀ i, o ≠ .chat i) :
    Post v (listMsg v' o) :=
  ⟨ho, by simp [listMsg, hchat, t3UpdUsrlistPrio, t3MsgsndPrio], fun i hi => absurd hi (hchat i),
    fun _ hb => ⟨v', congrArg (listMsg v') hb⟩⟩

/-- What has been enqueued for one user. -/
structure Queued (v : Server) (q : List Msg) : Prop where
  posts : ∀ m ∈ q, Post v m
  ordered : PositionsIn v.handled.length (chatNumbers q)

theorem Queued.nil {v : Server} : Queued v [] := ⟨by simp, .nil⟩

theorem Queued.mono {v v' : Server} {q : List Msg} (h : Queued v q) (hext : Extends v v') :
    Queued v' q :=
  ⟨fun m hm => (h.posts m hm).mono hext, h.ordered.mono hext.handled.length_le⟩

/-- A message that is no chat message, or the latest one and not there yet, may be enqueued. -/
theorem Queued.concat {v : Server} {q : List Msg} {m : Msg} (h : Queued v q) (hm : Post v m)
    (hnew : ∀ i, m.origin = .chat i → i + 1 = v.handled.length ∧ ∀ m' ∈ q, m'.origin ≠ m.origin) :
    Queued v (q ++ [m]) := by
  refine ⟨fun m' hm' => ?_, ?_⟩
  · obtain hm' | hm' := List.mem_append.1 hm'
    · exact h.posts m' hm'
    · rwa [List.mem_singleton.1 hm']
  · unfold chatNumbers
    rw [List.filterMap_append]
    cases hnum : m.chatNumber with
    | none => simpa [hnum, chatNumbers] using h.ordered
    | some i =>
      have hi := chatNumber_eq_some.1 hnum
      obtain ⟨hlast, hfresh⟩ := hnew i hi
      rw [List.filterMap_cons_some hnum, List.filterMap_nil, ← hlast]
      refine PositionsIn.concat (hlast ▸ h.ordered) fun hmem => ?_
      obtain ⟨m', hm', ho⟩ := mem_chatNumbers.1 hmem
      exact hfresh m' hm' (ho.trans hi.symm)

/-- The loop that offers `m` to the users is about to reach the user at `next`. -/
structure Current (K : Kernel) (v : Server) (m : Msg) (next : ℕ) (rcpts : List ℕ) : Prop where
  rcpts : rcpts = connectedIds v.users
  latest : m.origin.Latest v
  post : Post v m
  unsent : ∀ k, next < k → ∀ m' ∈ (K.chan k).queued, m'.origin ≠ m.origin

/-- The loop goes on with the next user. -/
theorem Current.next {K K' : Kernel} {v v' : Server} {m : Msg} {next : ℕ} {rcpts : List ℕ}
    (h : Current K v m next rcpts) (husers : v'.users = v.users) (hhandled : v'.handled = v.handled)
    (hlists : v'.lists = v.lists)
    (hqueued : ∀ k, next + 1 < k → (K'.chan k).queued = (K.chan k).queued) :
    Current K' v' m (next + 1) rcpts where
  rcpts := husers ▸ h.rcpts
  latest := by
    have := h.latest
    cases ho : m.origin <;> simp_all [Origin.Latest]
  post := h.post.mono ⟨hhandled ▸ List.prefix_rfl, hlists.ge⟩
  unsent := fun k hk => hqueued k hk ▸ h.unsent k (by omega)

/-- What the queues to the users hold. -/
structure Posts (K : Kernel) (v : Server) : Prop where
  queued : ∀ k, Queued v (K.chan k).queued
  current : ∀ m next rcpts after, v.pc = .broadcast m next rcpts after → Current K v m next rcpts

/-! ### Steps -/

/-- The server's histories only grow. -/
theorem ServerStep.extends {K K' : Kernel} {v v' : Server} (h : ServerStep K v K' v') :
    Extends v v' := by
  cases h with
  | reply hpc => exact ⟨List.prefix_rfl, Nat.le_succ _⟩
  | rename hpc hu hid hm hprio => exact ⟨List.prefix_rfl, Nat.le_succ _⟩
  | leave hpc hu hid hm hprio => exact ⟨List.prefix_rfl, Nat.le_succ _⟩
  | chat hpc hu hid hm hprio => exact ⟨List.prefix_append _ _, le_rfl⟩
  | _ => exact ⟨List.prefix_rfl, le_rfl⟩

/-- An operation on channel `k` that enqueues nothing for the user. -/
theorem modify_queued {K : Kernel} {k : ℕ} {f : Chan → Chan}
    (hf : (f (K.chan k)).queued = (K.chan k).queued) (j : ℕ) :
    ((K.modify k f).chan j).queued = (K.chan j).queued :=
  Kernel.modify_forall (P := fun j c => c.queued = (K.chan j).queued) (fun _ => rfl) hf j

theorem recvCtos_queued {c c' : Chan} {m : Msg} (h : c.recvCtos = some (m, c')) :
    c'.queued = c.queued := by
  obtain ⟨q, -, rfl⟩ := Chan.recvCtos_eq_some h
  rfl

/-- A step that enqueues nothing and starts no loop. -/
theorem Posts.quiet {K K' : Kernel} {v v' : Server} (h : Posts K v) (hext : Extends v v')
    (hqueued : ∀ k, (K'.chan k).queued = (K.chan k).queued)
    (hpc : ∀ m next rcpts after, v'.pc ≠ .broadcast m next rcpts after) : Posts K' v' :=
  ⟨fun k => hqueued k ▸ (h.queued k).mono hext,
    fun m next rcpts after heq => absurd heq (hpc m next rcpts after)⟩

/-- A step that begins a loop for a message with a new number. -/
theorem Posts.begin {K K' : Kernel} {v v' : Server} {m : Msg} {after : ℕ} (h : Posts K v)
    (hext : Extends v v') (hqueued : ∀ k, (K'.chan k).queued = (K.chan k).queued)
    (hpc : v'.pc = .broadcast m 0 (connectedIds v'.users) after) (hlatest : m.origin.Latest v')
    (hpost : Post v' m) (hnew : ¬ m.origin.Issued v) : Posts K' v' := by
  refine ⟨fun k => hqueued k ▸ (h.queued k).mono hext, fun m₁ next rcpts after₁ heq => ?_⟩
  rw [hpc] at heq
  cases heq
  refine ⟨rfl, hlatest, hpost, fun k _ m' hm' ho => hnew ?_⟩
  rw [hqueued] at hm'
  exact ho ▸ ((h.queued k).posts m' hm').issued

/-- A step that sends a message without a number. -/
theorem Posts.direct {K : Kernel} {v v' : Server} {k : ℕ} {f : Chan → Chan} {m : Msg}
    (h : Posts K v) (hext : Extends v v')
    (hf : (f (K.chan k)).queued = ((K.chan k).sendStoc m).queued) (hm : m.origin = .direct)
    (hprio : m.prio ≠ t3MsgsndPrio)
    (hpc : ∀ m next rcpts after, v'.pc ≠ .broadcast m next rcpts after) :
    Posts (K.modify k f) v' := by
  refine ⟨Kernel.modify_forall (P := fun _ c => Queued v' c.queued)
    (fun j => (h.queued j).mono hext) ?_,
    fun m next rcpts after heq => absurd heq (hpc m next rcpts after)⟩
  have hq := (h.queued k).mono hext
  have hpost : Post v' m := ⟨by rw [hm]; trivial, by simp [hm, hprio], by simp [hm], by simp [hm]⟩
  rw [hf]
  obtain ⟨-, hqueued, -⟩ | ⟨-, hsame⟩ := (K.chan k).sendStoc_queued m
  · rw [hqueued]
    exact hq.concat hpost (by simp [hm])
  · rwa [hsame]

theorem Posts.serverStep {K K' : Kernel} {v v' : Server} (h : Posts K v)
    (hs : ServerStep K v K' v') : Posts K' v' := by
  have hext := hs.extends
  cases hs with
  | idle hpc hpc' =>
    exact h.quiet hext (fun _ => rfl) (ServerPc.ne_broadcast_of_idle hpc')
  | takeReply | takeOther => exact h.quiet hext (fun _ => rfl) (by simp)
  | resend => exact h.quiet hext (fun _ => by simp) (by simp)
  | finish => exact h.quiet hext (fun _ => rfl) (by simp)
  | down hpc hpc' =>
    exact h.quiet hext (fun _ => rfl) (ServerPc.ne_broadcast_of_down hpc')
  | register hpc hq =>
    exact ⟨Kernel.modify_forall (P := fun _ c => Queued _ c.queued)
      (fun k => (h.queued k).mono hext) .nil, by simp⟩
  | reply hpc =>
    exact h.begin hext (by simp) rfl (by simp [listMsg, startList, Origin.Latest])
      (post_listMsg (by simp [startList, Origin.Issued]) (by simp))
      (by simp [listMsg, Origin.Issued])
  | rename hpc hu hid hm | leave hpc hu hid hm =>
    have hqueued := recvCtos_queued hm
    exact h.begin hext (modify_queued hqueued) rfl
      (by simp [listMsg, startList, Origin.Latest])
      (post_listMsg (by simp [startList, Origin.Issued]) (by simp))
      (by simp [listMsg, Origin.Issued])
  | chat hpc hu hid hm hprio =>
    refine h.begin hext (modify_queued (recvCtos_queued hm)) rfl
      (by simp [chatMsg, Origin.Latest]) ⟨by simp [chatMsg, Origin.Issued], by simp [chatMsg],
        fun i hi => ?_, by simp [chatMsg]⟩ (by simp [chatMsg, Origin.Issued])
    obtain rfl : v.handled.length = i := by simpa [chatMsg] using hi
    exact ⟨_, _, _, List.getElem?_concat_length, rfl⟩
  | request hpc hu hid hm hprio | discard hpc hu hid hm hprio =>
    exact h.quiet hext (modify_queued (recvCtos_queued hm)) (by simp)
  | @leaveLast index u m c hpc hu hid hm hprio =>
    have hqueued := recvCtos_queued hm
    exact h.quiet hext (fun k => modify_queued (f := fun _ => { c with linked := false }) hqueued k)
      (by simp)
  | answer hpc =>
    exact h.direct hext rfl rfl (by simp [listMsg, t3UpdUsrlistPrio, t3MsgsndPrio]) (by simp)
  | farewell hpc hu hid =>
    exact h.direct hext (m := ⟨t3DisconnectPrio, ['0'], .direct⟩) rfl rfl
      (by simp [t3DisconnectPrio, t3MsgsndPrio]) (by simp)
  | skip hpc hu hid =>
    refine ⟨fun k => (h.queued k).mono hext, fun m next rcpts after heq => ?_⟩
    cases heq
    exact (h.current _ _ _ _ hpc).next rfl rfl rfl fun _ _ => rfl
  | @deliver m next rcpts after u hpc hu hid =>
    have hcurrent := h.current _ _ _ _ hpc
    refine ⟨Kernel.modify_forall (P := fun _ c => Queued _ c.queued)
      (fun k => (h.queued k).mono hext) ?_, fun m₁ next₁ rcpts₁ after₁ heq => ?_⟩
    · have hq := (h.queued (next + 1)).mono hext
      -- the queue of a user may have been removed
      obtain ⟨-, hqueued, -⟩ | ⟨-, hsame⟩ := (K.chan (next + 1)).sendStoc_queued m
      · rw [hqueued]
        refine hq.concat (hcurrent.post.mono hext) fun i hi => ⟨?_, hcurrent.unsent _ (by omega)⟩
        have := hcurrent.latest
        rwa [hi] at this
      · rwa [hsame]
    · cases heq
      exact hcurrent.next rfl rfl rfl fun k hk => by rw [Kernel.modify_chan_of_ne _ _ (by omega)]

/-- What the queues to the users hold, in every run. -/
theorem posts_of_reachable {s : State} (h : chatroom.Reachable s) : Posts s.kernel s.server := by
  refine h.invariant (I := fun s => Posts s.kernel s.server) (fun s hs => ?_)
    fun s a t _ hposts hstep => ?_
  · obtain ⟨index, rfl⟩ := hs
    exact ⟨fun k => .nil, fun m next rcpts after heq => by cases heq⟩
  · obtain ⟨junk, -, hserver, -⟩ | ⟨-, rfl⟩ | hclient := step_cases hstep
    · exact hposts.serverStep hserver
    · exact hposts.quiet ⟨List.prefix_rfl, le_rfl⟩ (fun _ => rfl) (by simp)
    · have hqueued := fun k => (hclient.frame.chan k).queued
      rw [hclient.frame.server]
      refine ⟨fun k => hqueued k ▸ hposts.queued k, fun m next rcpts after hpc => ?_⟩
      obtain ⟨hrcpts, hlatest, hpost, hunsent⟩ := hposts.current m next rcpts after hpc
      exact ⟨hrcpts, hlatest, hpost, fun k hk => hqueued k ▸ hunsent k hk⟩

end EmbeddedC.Chatroom
