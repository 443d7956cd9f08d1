import EmbeddedC.Chatroom.Broadcast

/-!
# The chatroom: who gets a broadcast

The server sends a chat message or a user list to one connected user after the other, and does
not look at the results of these calls.

* `copies`: the copies of a message that were enqueued;
* `Copies`: each user that the loop has passed has one copy;
* `RecipientRoom`: the queue of the next user is not full;
* `broadcast_complete`: then every user connected at the beginning gets one copy, the same for all.
-/

namespace EmbeddedC.Chatroom

/-- The messages with origin `o` in a queue or history. -/
def copies (o : Origin) (q : List Msg) : List Msg := q.filter fun m => m.origin = o

@[simp] theorem copies_concat (o : Origin) (q : List Msg) (m : Msg) :
    copies o (q ++ [m]) = copies o q ++ if m.origin = o then [m] else [] := by
  simp [copies, List.filter_append, List.filter_singleton]

theorem copies_eq_nil {o : Origin} {q : List Msg} (h : ∀ m ∈ q, m.origin ≠ o) :
    copies o q = [] := by
  rw [copies, List.filter_eq_nil_iff]
  simpa using h

theorem copies_sendStoc_of_ne {o : Origin} {c : Chan} {m : Msg} (h : m.origin ≠ o) :
    copies o (c.sendStoc m).queued = copies o c.queued := by
  obtain ⟨-, hqueued, -⟩ | ⟨-, hsame⟩ := c.sendStoc_queued m
  · rw [hqueued, copies_concat, if_neg h, List.append_nil]
  · rw [hsame]

/-! ### The connected users -/

theorem mem_connectedIds {users : List User} {k : ℕ} :
    k + 1 ∈ connectedIds users ↔ ∃ u, users[k]? = some u ∧ u.id ≠ -1 := by
  simp only [connectedIds, List.mem_map, List.mem_filter, List.mem_range, Option.any_eq_true,
    decide_eq_true_eq]
  constructor
  · rintro ⟨i, ⟨-, u, hu, hid⟩, heq⟩
    obtain rfl : i = k := by omega
    exact ⟨u, hu, hid⟩
  · rintro ⟨u, hu, hid⟩
    exact ⟨k, ⟨(List.getElem?_eq_some_iff.1 hu).1, u, hu, hid⟩, rfl⟩

theorem connectedIds_le {users : List User} {k : ℕ} (h : k ∈ connectedIds users) :
    0 < k ∧ k ≤ users.length := by
  simp only [connectedIds, List.mem_map, List.mem_filter, List.mem_range] at h
  obtain ⟨i, ⟨hi, -⟩, rfl⟩ := h
  omega

/-! ### Who has a copy -/

/-- The completed broadcast of `o` to `rcpts`: one copy for each, and the same for all. -/
structure Complete (K : Kernel) (v : Server) (o : Origin) (rcpts : List ℕ) : Prop where
  issued : o.Issued v
  numbered : o ≠ .direct
  registered : ∀ k ∈ rcpts, k ≤ v.users.length
  copies : ∃ m, m.origin = o ∧ Post v m ∧
    ∀ k, copies o (K.chan k).queued = if k ∈ rcpts then [m] else []

theorem Complete.mono {K K' : Kernel} {v v' : Server} {o : Origin} {rcpts : List ℕ}
    (h : Complete K v o rcpts) (hext : Extends v v') (hlen : v.users.length ≤ v'.users.length)
    (hqueued : ∀ k, Chatroom.copies o (K'.chan k).queued = Chatroom.copies o (K.chan k).queued) :
    Complete K' v' o rcpts where
  issued := h.issued.mono hext
  numbered := h.numbered
  registered := fun k hk => (h.registered k hk).trans hlen
  copies := by
    obtain ⟨m, ho, hpost, hcopies⟩ := h.copies
    exact ⟨m, ho, hpost.mono hext, fun k => (hqueued k).trans (hcopies k)⟩

/-- What the completed broadcasts and the one that is running have enqueued. -/
structure Copies (K : Kernel) (v : Server) : Prop where
  complete : ∀ o rcpts, (o, rcpts) ∈ v.bcasts → Complete K v o rcpts
  other : ∀ m next rcpts after, v.pc = .broadcast m next rcpts after →
    ∀ o rcpts', (o, rcpts') ∈ v.bcasts → m.origin ≠ o
  offered : ∀ m next rcpts after, v.pc = .broadcast m next rcpts after →
    ∀ k, copies m.origin (K.chan k).queued = if k ∈ rcpts ∧ k ≤ next then [m] else []

/-- A step that enqueues nothing and starts no loop. -/
theorem Copies.quiet {K K' : Kernel} {v v' : Server} (h : Copies K v) (hext : Extends v v')
    (hlen : v.users.length ≤ v'.users.length) (hb : v'.bcasts = v.bcasts)
    (hqueued : ∀ k, (K'.chan k).queued = (K.chan k).queued)
    (hpc : ∀ m next rcpts after, v'.pc ≠ .broadcast m next rcpts after) : Copies K' v' where
  complete := fun o rcpts hmem =>
    (h.complete o rcpts (hb ▸ hmem)).mono hext hlen fun k => by rw [hqueued]
  other := fun m next rcpts after heq => absurd heq (hpc m next rcpts after)
  offered := fun m next rcpts after heq => absurd heq (hpc m next rcpts after)

/-- A step that begins a loop for a message with a new number. -/
theorem Copies.begin {K K' : Kernel} {v v' : Server} {m : Msg} {after : ℕ} (h : Copies K v)
    (hposts : Posts K v) (hext : Extends v v') (hlen : v.users.length ≤ v'.users.length)
    (hb : v'.bcasts = v.bcasts) (hqueued : ∀ k, (K'.chan k).queued = (K.chan k).queued)
    (hpc : v'.pc = .broadcast m 0 (connectedIds v'.users) after) (hnew : ¬ m.origin.Issued v) :
    Copies K' v' := by
  refine ⟨fun o rcpts hmem => ?_, fun m₁ next rcpts after₁ heq o rcpts' hmem ho => ?_,
    fun m₁ next rcpts after₁ heq k => ?_⟩
  · exact (h.complete o rcpts (hb ▸ hmem)).mono hext hlen fun k => by rw [hqueued]
  · rw [hpc] at heq
    cases heq
    exact hnew (ho ▸ (h.complete o rcpts' (hb ▸ hmem)).issued)
  · rw [hpc] at heq
    cases heq
    have hnil : copies m.origin (K'.chan k).queued = [] := by
      refine copies_eq_nil fun m' hm' ho => hnew ?_
      rw [hqueued] at hm'
      exact ho ▸ ((hposts.queued k).posts m' hm').issued
    rw [hnil, if_neg]
    rintro ⟨hk, hk0⟩
    have := connectedIds_le hk
    omega

/-- A step that sends a message without a number. -/
theorem Copies.direct {K : Kernel} {v v' : Server} {j : ℕ} {f : Chan → Chan} {m : Msg}
    (h : Copies K v) (hext : Extends v v') (hlen : v.users.length ≤ v'.users.length)
    (hb : v'.bcasts = v.bcasts) (hf : (f (K.chan j)).queued = ((K.chan j).sendStoc m).queued)
    (hm : m.origin = .direct) (hpc : ∀ m next rcpts after, v'.pc ≠ .broadcast m next rcpts after) :
    Copies (K.modify j f) v' where
  complete := fun o rcpts hmem => by
    have hdone := h.complete o rcpts (hb ▸ hmem)
    refine hdone.mono hext hlen ?_
    refine Kernel.modify_forall (P := fun k c => copies o c.queued = copies o (K.chan k).queued)
      (fun _ => rfl) ?_
    rw [hf, copies_sendStoc_of_ne (hm ▸ hdone.numbered.symm)]
  other := fun m next rcpts after heq => absurd heq (hpc m next rcpts after)
  offered := fun m next rcpts after heq => absurd heq (hpc m next rcpts after)

/-- The loop passes a user who is not connected. -/
theorem Copies.skip {K : Kernel} {v : Server} {m : Msg} {next : ℕ} {rcpts : List ℕ} {after : ℕ}
    {u : User} (h : Copies K v) (hcurrent : Current K v m next rcpts)
    (hpc : v.pc = .broadcast m next rcpts after) (hu : v.users[next]? = some u)
    (hid : u.id = -1) : Copies K { v with pc := .broadcast m (next + 1) rcpts after } := by
  refine ⟨fun o rcpts hmem => (h.complete o rcpts hmem).mono ⟨List.prefix_rfl, le_rfl⟩ le_rfl
    fun _ => rfl, fun m₁ next₁ rcpts₁ after₁ heq => ?_, fun m₁ next₁ rcpts₁ after₁ heq k => ?_⟩
  · cases heq
    exact h.other _ _ _ _ hpc
  · cases heq
    have hnext : next + 1 ∉ rcpts := by
      rw [hcurrent.rcpts, mem_connectedIds]
      rintro ⟨u', hu', hid'⟩
      rw [hu] at hu'
      cases hu'
      exact hid' hid
    rw [h.offered _ _ _ _ hpc k]
    refine if_congr (and_congr_right fun hk => ?_) rfl rfl
    have hne : k ≠ next + 1 := fun heq => hnext (heq ▸ hk)
    omega

/-- The loop sends a copy to a connected user, whose queue is not full. -/
theorem Copies.deliver {K : Kernel} {v : Server} {m : Msg} {next : ℕ} {rcpts : List ℕ}
    {after : ℕ} {u : User} (h : Copies K v) (hcurrent : Current K v m next rcpts)
    (hpc : v.pc = .broadcast m next rcpts after) (hu : v.users[next]? = some u)
    (hid : u.id ≠ -1) (hroom : (K.chan (next + 1)).stoc.length < t3UserQMaxMsgs) :
    Copies (K.modify (next + 1) (·.sendStoc m))
      { v with pc := .broadcast m (next + 1) rcpts after } := by
  refine ⟨fun o rcpts' hmem => ?_, fun m₁ next₁ rcpts₁ after₁ heq => ?_,
    fun m₁ next₁ rcpts₁ after₁ heq k => ?_⟩
  · refine (h.complete o rcpts' hmem).mono ⟨List.prefix_rfl, le_rfl⟩ le_rfl ?_
    exact Kernel.modify_forall (P := fun k c => copies o c.queued = copies o (K.chan k).queued)
      (fun _ => rfl) (copies_sendStoc_of_ne (h.other _ _ _ _ hpc o rcpts' hmem))
  · cases heq
    exact h.other _ _ _ _ hpc
  · cases heq
    have hoffered := h.offered _ _ _ _ hpc k
    by_cases hk : k = next + 1
    · subst hk
      have hnext : next + 1 ∈ rcpts := by
        rw [hcurrent.rcpts, mem_connectedIds]
        exact ⟨u, hu, hid⟩
      obtain ⟨-, hqueued, -⟩ | ⟨hfull, -⟩ := (K.chan (next + 1)).sendStoc_queued m
      · rw [Kernel.modify_chan_self, hqueued, copies_concat, hoffered]
        simp [hnext]
      · omega
    · rw [Kernel.modify_chan_of_ne _ _ hk, hoffered]
      exact if_congr (and_congr_right fun _ => by omega) rfl rfl

/-- The loop has passed all users. -/
theorem Copies.finish {K : Kernel} {v : Server} {m : Msg} {next : ℕ} {rcpts : List ℕ}
    {after : ℕ} (h : Copies K v) (hcurrent : Current K v m next rcpts)
    (hpc : v.pc = .broadcast m next rcpts after) (hu : v.users[next]? = none) :
    Copies K { v with pc := .pass after, bcasts := v.bcasts ++ [(m.origin, rcpts)] } := by
  refine ⟨fun o rcpts' hmem => ?_, by simp, by simp⟩
  have hext : Extends v { v with
      pc := .pass after, bcasts := v.bcasts ++ [(m.origin, rcpts)] } := ⟨List.prefix_rfl, le_rfl⟩
  obtain hmem | hmem := List.mem_append.1 hmem
  · exact (h.complete o rcpts' hmem).mono hext le_rfl fun _ => rfl
  · cases List.mem_singleton.1 hmem
    have hregistered : ∀ k ∈ rcpts, k ≤ v.users.length := fun k hk =>
      (connectedIds_le (hcurrent.rcpts ▸ hk)).2
    have hle := List.getElem?_eq_none_iff.1 hu
    refine ⟨hcurrent.latest.issued.mono hext, fun ho => ?_, hregistered, ?_⟩
    · have := hcurrent.latest
      rwa [ho] at this
    · refine ⟨m, rfl, hcurrent.post.mono hext, fun k => ?_⟩
      rw [h.offered _ _ _ _ hpc k]
      exact if_congr (and_iff_left_of_imp fun hk => (hregistered k hk).trans hle) rfl rfl

theorem Copies.serverStep {K K' : Kernel} {v v' : Server} (h : Copies K v) (hposts : Posts K v)
    (hs : ServerStep K v K' v')
    (hroom : ∀ m next rcpts after u, v.pc = .broadcast m next rcpts after →
      v.users[next]? = some u → u.id ≠ -1 → (K.chan (next + 1)).stoc.length < t3UserQMaxMsgs) :
    Copies K' v' := by
  have hext := hs.extends
  cases hs with
  | idle hpc hpc' =>
    exact h.quiet hext le_rfl rfl (fun _ => rfl) (ServerPc.ne_broadcast_of_idle hpc')
  | takeReply | takeOther => exact h.quiet hext le_rfl rfl (fun _ => rfl) (by simp)
  | resend => exact h.quiet hext le_rfl rfl (fun _ => by simp) (by simp)
  | down hpc hpc' =>
    exact h.quiet hext le_rfl rfl (fun _ => rfl) (ServerPc.ne_broadcast_of_down hpc')
  | @register text q hpc hq =>
    refine ⟨fun o rcpts hmem => ?_, by simp, by simp⟩
    have hdone := h.complete o rcpts hmem
    refine hdone.mono hext (by simp) ?_
    refine Kernel.modify_forall (P := fun k c => copies o c.queued = copies o (K.chan k).queued)
      (fun _ => rfl) ?_
    -- nothing was sent to the new id
    obtain ⟨m, -, -, hcopies⟩ := hdone.copies
    rw [hcopies, if_neg fun hk => absurd (hdone.registered _ hk) (by omega)]
    rfl
  | reply hpc =>
    exact h.begin hposts hext le_rfl rfl (by simp) rfl (by simp [listMsg, Origin.Issued])
  | rename hpc hu hid hm | leave hpc hu hid hm =>
    have hqueued := recvCtos_queued hm
    exact h.begin hposts hext (List.length_set ..).ge rfl (modify_queued hqueued) rfl
      (by simp [listMsg, Origin.Issued])
  | chat hpc hu hid hm =>
    exact h.begin hposts hext le_rfl rfl (modify_queued (recvCtos_queued hm)) rfl
      (by simp [chatMsg, Origin.Issued])
  | request hpc hu hid hm | discard hpc hu hid hm =>
    exact h.quiet hext le_rfl rfl (modify_queued (recvCtos_queued hm)) (by simp)
  | @leaveLast index u m c hpc hu hid hm =>
    have hqueued := recvCtos_queued hm
    exact h.quiet hext (List.length_set ..).ge rfl
      (fun k => modify_queued (f := fun _ => { c with linked := false }) hqueued k) (by simp)
  | answer hpc => exact h.direct hext le_rfl rfl rfl rfl (by simp)
  | farewell hpc =>
    exact h.direct hext le_rfl rfl (m := ⟨t3DisconnectPrio, ['0'], .direct⟩) rfl rfl (by simp)
  | finish hpc hu => exact h.finish (hposts.current _ _ _ _ hpc) hpc hu
  | skip hpc hu hid => exact h.skip (hposts.current _ _ _ _ hpc) hpc hu hid
  | deliver hpc hu hid =>
    exact h.deliver (hposts.current _ _ _ _ hpc) hpc hu hid (hroom _ _ _ _ _ hpc hu hid)

/-! ### Results -/

/-- The index that the loop of a broadcast has reached. -/
def ServerPc.recipient : ServerPc → Option ℕ
  | .broadcast _ next _ _ => some next
  | _ => none

/-- When the loop of a broadcast reaches a connected user, the queue of that user is not full. -/
def RecipientRoom (s : State) : Action → Prop
  | .server _ => ∀ next ∈ s.server.pc.recipient, ∀ u ∈ s.server.users[next]?, u.id ≠ -1 →
      (s.kernel.chan (next + 1)).stoc.length < t3UserQMaxMsgs
  | _ => True

instance (s : State) : (a : Action) → Decidable (RecipientRoom s a)
  | .server _ => inferInstanceAs
      (Decidable (∀ next ∈ s.server.pc.recipient, ∀ u ∈ s.server.users[next]?, _ → _))
  | .serverExit | .connect _ | .client _ | .say .. | .clientExit _ | .handler .. =>
    instDecidableTrue

theorem copies_of_reachable {s : State} (h : chatroom.ReachableUnder RecipientRoom s) :
    Copies s.kernel s.server := by
  refine h.invariant (I := fun s => Copies s.kernel s.server) (fun s hs => ?_)
    fun s a t hs hcopies hroom hstep => ?_
  · obtain ⟨index, rfl⟩ := hs
    constructor <;> simp [initial, Server.initial]
  · obtain ⟨junk, rfl, hserver, -⟩ | ⟨-, rfl⟩ | hclient := step_cases hstep
    · refine hcopies.serverStep (posts_of_reachable hs.reachable) hserver
        fun m next rcpts after u hpc hu hid => ?_
      exact hroom next (by rw [hpc]; rfl) u hu hid
    · exact hcopies.quiet ⟨List.prefix_rfl, le_rfl⟩ le_rfl rfl (fun _ => rfl) (by simp)
    · have hqueued := fun k => (hclient.frame.chan k).queued
      rw [hclient.frame.server]
      refine ⟨fun o rcpts hmem => ?_, hcopies.other, fun m next rcpts after hpc k => ?_⟩
      · exact (hcopies.complete o rcpts hmem).mono ⟨List.prefix_rfl, le_rfl⟩ le_rfl fun k => by
          rw [hqueued]
      · rw [hqueued]
        exact hcopies.offered m next rcpts after hpc k

/-- Of every message broadcast, one copy has been enqueued for each user who was connected when
the loop began, and none for the others; it is the same for all, in text and priority. -/
def Delivered (s : State) : Prop :=
  ∀ o rcpts, (o, rcpts) ∈ s.server.bcasts → ∃ m, m.origin = o ∧ Post s.server m ∧
    ∀ k, copies o (s.kernel.chan k).queued = if k ∈ rcpts then [m] else []

/-- **Broadcasts.** In a run in which the server finds room in the queues of the connected users,
every broadcast is complete. -/
theorem broadcast_complete {s : State} (h : chatroom.ReachableUnder RecipientRoom s) :
    Delivered s := fun o rcpts hmem => ((copies_of_reachable h).complete o rcpts hmem).copies

/-- The server has sent a user list and a chat message. -/
def heard : State :=
  (chatroom.runUnder RecipientRoom (initial 0) firstChat).get (by decide +kernel)

theorem broadcast_complete_heard : Delivered heard :=
  broadcast_complete (Machine.reachableUnder_of_run ⟨0, rfl⟩ (Option.some_get _).symm)

/-- A client that never reads says five things. -/
def deaf : State :=
  (chatroom.run (initial 0) (firstChat ++
    (List.replicate 4 (.say 0 "hi".toList :: serverSteps 5)).flatten)).get (by decide +kernel)

/-- The last one is lost. -/
theorem copy_lost : ¬ ∀ s, chatroom.Reachable s → Delivered s := by
  intro h
  obtain ⟨m, -, -, hcopies⟩ := h deaf
    (Machine.reachable_of_run ⟨0, rfl⟩ (Option.some_get _).symm) (.chat 4) [1] (by decide +kernel)
  have hnil : copies (.chat 4) (deaf.kernel.chan 1).queued = [] := by decide +kernel
  simpa [hnil] using hcopies 1

end EmbeddedC.Chatroom
