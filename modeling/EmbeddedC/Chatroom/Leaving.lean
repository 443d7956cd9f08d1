import EmbeddedC.Chatroom.Order
import EmbeddedC.Chatroom.Login

/-!
# The chatroom: leaving

A client says that it leaves through the queue of its chat messages, with a priority that
outranks theirs.

* `Relayed`, `RelayOrder`: the server completes the broadcast of a chat message before it
  reads another message;
* `Closing`: while a disconnect command waits, no chat message of its sender is dequeued;
* `disconnect_overtakes`: the messages that the server had not dequeued when the command was
  sent are never broadcast, and the others were before the user is removed.
-/

namespace EmbeddedC.Chatroom

/-! ### Completed broadcasts -/

/-- The broadcast of chat message `i` is complete. -/
def Server.Relayed (v : Server) (i : ℕ) : Prop := ∃ rcpts, (Origin.chat i, rcpts) ∈ v.bcasts

/-- The server is broadcasting chat message `i`. -/
def ServerPc.Relaying (pc : ServerPc) (i : ℕ) : Prop :=
  ∃ m next rcpts after, pc = .broadcast m next rcpts after ∧ m.origin = .chat i

/-- The user at `index` has disconnected. -/
def Server.Removed (v : Server) (index : ℕ) : Prop := ∃ u, v.users[index]? = some u ∧ u.id = -1

theorem Server.Relayed.mono {v v' : Server} {i : ℕ} (h : v.Relayed i) (hb : v.bcasts ⊆ v'.bcasts) :
    v'.Relayed i := by
  obtain ⟨rcpts, hmem⟩ := h
  exact ⟨rcpts, hb hmem⟩

/-- Chat messages are broadcast one after the other, and before their sender is removed. -/
structure RelayOrder (v : Server) : Prop where
  running : v.pc.running = true → ∀ i, i < v.handled.length → v.Relayed i ∨ v.pc.Relaying i
  removed : ∀ index, v.Removed index →
    ∀ i text, v.handled[i]? = some (index + 1, text) → v.Relayed i

/-- Between two loops all chat messages have been broadcast. -/
theorem RelayOrder.relayed {v : Server} (h : RelayOrder v) (hrunning : v.pc.running = true)
    (hpc : ∀ m next rcpts after, v.pc ≠ .broadcast m next rcpts after) {i : ℕ}
    (hi : i < v.handled.length) : v.Relayed i := by
  obtain hdone | ⟨m, next, rcpts, after, heq, -⟩ := h.running hrunning i hi
  · exact hdone
  · exact absurd heq (hpc m next rcpts after)

/-- A step that removes no user and dequeues no chat message. -/
theorem RelayOrder.removed_mono {v v' : Server} (h : RelayOrder v)
    (hremoved : ∀ index, v'.Removed index → v.Removed index) (hhandled : v'.handled = v.handled)
    (hb : v.bcasts ⊆ v'.bcasts) : ∀ index, v'.Removed index →
      ∀ i text, v'.handled[i]? = some (index + 1, text) → v'.Relayed i := by
  intro index hindex i text hi
  exact (h.removed index (hremoved index hindex) i text (hhandled ▸ hi)).mono hb

/-- A step between two loops. -/
theorem RelayOrder.quiet {v v' : Server} (h : RelayOrder v) (hrunning : v.pc.running = true)
    (hpc : ∀ m next rcpts after, v.pc ≠ .broadcast m next rcpts after)
    (hremoved : ∀ index, v'.Removed index → v.Removed index)
    (hhandled : v'.handled = v.handled) (hb : v'.bcasts = v.bcasts) : RelayOrder v' := by
  refine ⟨fun _ i hi => .inl ?_, h.removed_mono hremoved hhandled (hb ▸ List.Subset.refl _)⟩
  rw [hhandled] at hi
  exact (h.relayed hrunning hpc hi).mono (hb ▸ List.Subset.refl _)

/-- A step that leaves the main loop, or is made outside of it. -/
theorem RelayOrder.down {v v' : Server} (h : RelayOrder v) (hdown : v'.pc.running = false)
    (husers : v'.users = v.users) (hhandled : v'.handled = v.handled)
    (hb : v'.bcasts = v.bcasts) : RelayOrder v' :=
  ⟨fun hrunning => by simp [hdown] at hrunning,
    h.removed_mono (fun index ⟨u, hu, hid⟩ => ⟨u, husers ▸ hu, hid⟩) hhandled
      (hb ▸ List.Subset.refl _)⟩

theorem RelayOrder.serverStep {K K' : Kernel} {v v' : Server} (h : RelayOrder v)
    (hs : ServerStep K v K' v') : RelayOrder v' := by
  have hsame : ∀ index, v.Removed index → v.Removed index := fun _ hindex => hindex
  -- at `mq_receive` of a user's queue everything has been broadcast
  have hpass {index : ℕ} (hpc : v.pc = .pass index) {i : ℕ} {h' : ℕ × Text}
      (hi : v.handled[i]? = some h') : v.Relayed i :=
    h.relayed (by rw [hpc]; rfl) (by simp [hpc]) (List.lt_length_of_getElem?_eq_some hi)
  cases hs with
  | idle hpc hpc' =>
    exact h.quiet (ServerPc.running_of_idle hpc) (ServerPc.ne_broadcast_of_idle hpc) hsame rfl rfl
  | takeReply hpc | takeOther hpc | resend hpc | reply hpc | answer hpc | request hpc
  | discard hpc =>
    exact h.quiet (by rw [hpc]; rfl) (by simp [hpc]) hsame rfl rfl
  | register hpc hq =>
    refine h.quiet (by rw [hpc]; rfl) (by simp [hpc]) ?_ rfl rfl
    rintro index ⟨u, hu, hid⟩
    obtain hu | ⟨-, rfl⟩ := List.getElem?_concat_eq_some.1 hu
    · exact ⟨u, hu, hid⟩
    · simp only [newUser] at hid
      omega
  | @rename index u m c login list hpc hu hid =>
    refine h.quiet (by rw [hpc]; rfl) (by simp [hpc]) ?_ rfl rfl
    rintro i ⟨u', hu', hid'⟩
    simp only [startList] at hu'
    by_cases hi : index = i
    · subst hi
      rw [List.getElem?_set_self', hu] at hu'
      cases hu'
      exact absurd hid' hid
    · rw [List.getElem?_set_ne hi] at hu'
      exact ⟨u', hu', hid'⟩
  | @finish m next rcpts after hpc hu =>
    have hb : v.bcasts ⊆ v.bcasts ++ [(m.origin, rcpts)] := List.subset_append_left _ _
    refine ⟨fun _ i hi => .inl ?_, h.removed_mono hsame rfl hb⟩
    obtain hdone | ⟨m', next', rcpts', after', heq, ho⟩ := h.running (by rw [hpc]; rfl) i hi
    · exact hdone.mono hb
    · rw [hpc] at heq
      cases heq
      exact ⟨rcpts, List.mem_append_right _ (by simp [ho])⟩
  | @skip m next rcpts after u hpc hu hid | @deliver m next rcpts after u hpc hu hid =>
    refine ⟨fun _ i hi => ?_, h.removed⟩
    obtain hdone | ⟨m', next', rcpts', after', heq, ho⟩ := h.running (by rw [hpc]; rfl) i hi
    · exact .inl hdone
    · rw [hpc] at heq
      cases heq
      exact .inr ⟨m, next + 1, rcpts, after, rfl, ho⟩
  | @chat index u m c hpc hu hid hm hprio =>
    refine ⟨fun _ i hi => ?_, fun index' hremoved i text hi => ?_⟩
    · by_cases hlt : i < v.handled.length
      · exact .inl (hpass hpc (List.getElem?_eq_getElem hlt))
      · obtain rfl : v.handled.length = i := by
          simp only [List.length_append, List.length_singleton] at hi
          omega
        exact .inr ⟨_, _, _, _, rfl, rfl⟩
    · obtain hi | ⟨-, heq⟩ := List.getElem?_concat_eq_some.1 hi
      · exact h.removed index' hremoved i text hi
      · -- the sender of the new message has not disconnected
        obtain ⟨u', hu', hid'⟩ := hremoved
        cases heq
        rw [hu] at hu'
        cases hu'
        exact absurd hid' hid
  | leave hpc hu hid hm hprio =>
    exact ⟨fun _ i hi => .inl (hpass hpc (List.getElem?_eq_getElem hi)),
      fun _ _ i text hi => hpass hpc hi⟩
  | leaveLast hpc hu hid hm hprio =>
    exact ⟨fun hrunning => by simp [ServerPc.running] at hrunning,
      fun _ _ i text hi => hpass hpc hi⟩
  | farewell => exact h.down rfl rfl rfl rfl
  | down hpc hpc' => exact h.down hpc' rfl rfl rfl

theorem relayOrder_of_reachable {s : State} (h : chatroom.Reachable s) : RelayOrder s.server := by
  refine h.invariant (I := fun s => RelayOrder s.server) (fun s hs => ?_)
    fun s a t _ horder hstep => ?_
  · obtain ⟨index, rfl⟩ := hs
    exact ⟨fun _ i hi => absurd hi (Nat.not_lt_zero i), fun index ⟨u, hu, _⟩ => by cases hu⟩
  · obtain ⟨junk, -, hserver, -⟩ | ⟨-, rfl⟩ | hclient := step_cases hstep
    · exact horder.serverStep hserver
    · exact horder.down rfl rfl rfl rfl
    · rwa [hclient.frame.server]

/-! ### The disconnect command outranks chat messages -/

/-- A disconnect command of the user at `index` waits or has been dequeued, or the server has
left its main loop. -/
structure Closing (K : Kernel) (v : Server) (index : ℕ) : Prop where
  registered : index < v.users.length
  leaving : (∃ d ∈ (K.chan (index + 1)).ctos, d.prio = t3DisconnectPrio) ∨ v.Removed index ∨
    v.pc.running = false

/-- A step that leaves what waits, and keeps the entry as it is. -/
theorem Closing.mono {K K' : Kernel} {v v' : Server} {index : ℕ} (h : Closing K v index)
    (hlen : v.users.length ≤ v'.users.length)
    (hctos : (K.chan (index + 1)).ctos ⊆ (K'.chan (index + 1)).ctos)
    (hremoved : v.Removed index → v'.Removed index)
    (hrunning : v'.pc.running = true → v.pc.running = true) : Closing K' v' index := by
  refine ⟨h.registered.trans_le hlen, ?_⟩
  obtain ⟨d, hd, hprio⟩ | hentry | hr := h.leaving
  · exact .inl ⟨d, hctos hd, hprio⟩
  · exact .inr (.inl (hremoved hentry))
  · exact .inr (.inr (Bool.eq_false_iff.2 fun hr' => Bool.eq_false_iff.1 hr (hrunning hr')))

/-- What the server dequeues of a user who is leaving: the disconnect command, or a message that
outranks it. -/
theorem Closing.outranks {K : Kernel} {v : Server} {index : ℕ} {u : User} {m : Msg} {c : Chan}
    (h : Closing K v index) (hpc : v.pc = .pass index) (hu : v.users[index]? = some u)
    (hid : u.id ≠ -1) (hm : (K.chan (index + 1)).recvCtos = some (m, c)) :
    t3DisconnectPrio ≤ m.prio ∧
      (m.prio ≠ t3DisconnectPrio → ∃ d ∈ c.ctos, d.prio = t3DisconnectPrio) := by
  obtain ⟨q, hq, rfl⟩ := Chan.recvCtos_eq_some hm
  obtain ⟨d, hd, hprio⟩ | ⟨u', hu', hid'⟩ | hr := h.leaving
  · refine ⟨hprio ▸ MessageQueue.receive_prio_le hq hd, fun hne => ⟨d, ?_, hprio⟩⟩
    obtain rfl | hd := List.mem_cons.1 ((MessageQueue.receive_perm hq).mem_iff.1 hd)
    · exact absurd hprio hne
    · exact hd
  · rw [hu] at hu'
    cases hu'
    exact absurd hid' hid
  · rw [hpc] at hr
    cases hr

/-- The server dequeues no chat message of a user who is leaving. -/
theorem Closing.not_chat {K : Kernel} {v : Server} {index : ℕ} {u : User} {m : Msg} {c : Chan}
    (h : Closing K v index) (hpc : v.pc = .pass index) (hu : v.users[index]? = some u)
    (hid : u.id ≠ -1) (hm : (K.chan (index + 1)).recvCtos = some (m, c)) :
    m.prio ≠ t3UserPrio ∧ m.prio ≠ t3SetUsrnamePrio ∧ m.prio ≠ t3ReqUsrlistPrio := by
  have := (h.outranks hpc hu hid hm).1
  simp only [t3DisconnectPrio, t3UserPrio, t3SetUsrnamePrio, t3ReqUsrlistPrio] at this ⊢
  omega

/-- An operation on the queues of another user. -/
theorem ctos_subset_modify {K : Kernel} {index j : ℕ} {c : Chan} (hj : index ≠ j) :
    (K.chan (j + 1)).ctos ⊆ ((K.modify (index + 1) fun _ => c).chan (j + 1)).ctos := by
  rw [Kernel.modify_chan_of_ne _ _ (by omega)]
  exact List.Subset.refl _

theorem removed_set_iff {users : List User} {index i : ℕ} {u : User} (hi : index ≠ i) :
    (∃ u', (users.set index u)[i]? = some u' ∧ u'.id = -1) ↔
      ∃ u', users[i]? = some u' ∧ u'.id = -1 := by
  rw [List.getElem?_set_ne hi]

/-- A server step on the messages and the entry of a user who is leaving. -/
theorem Closing.serverStep {K K' : Kernel} {v v' : Server} {i : ℕ} (h : Closing K v i)
    (hs : ServerStep K v K' v') : Closing K' v' i ∧ v'.handledBy (i + 1) = v.handledBy (i + 1) := by
  have hrunning := hs.running
  cases hs with
  | idle | takeReply | takeOther | finish | skip | down =>
    exact ⟨h.mono le_rfl (List.Subset.refl _) id hrunning, rfl⟩
  | resend | reply => exact ⟨h.mono le_rfl (by simp) id hrunning, rfl⟩
  | register hpc hq =>
    have hi := h.registered
    refine ⟨h.mono (by simp) ?_ ?_ hrunning, rfl⟩
    · rw [Kernel.modify_chan_of_ne _ _ (by omega)]
      exact List.Subset.refl _
    · rintro ⟨u, hu, hid⟩
      exact ⟨u, List.getElem?_concat_eq_some.2 (.inl hu), hid⟩
  | deliver | answer | farewell =>
    refine ⟨h.mono le_rfl ?_ id hrunning, rfl⟩
    exact Kernel.modify_forall (P := fun j c => (K.chan j).ctos ⊆ c.ctos)
      (fun _ => List.Subset.refl _) (by simp) (i + 1)
  | @chat index u m c hpc hu hid hm hprio =>
    by_cases hi : index = i
    · subst hi
      exact absurd hprio (h.not_chat hpc hu hid hm).1
    · refine ⟨h.mono le_rfl (ctos_subset_modify hi) id hrunning, ?_⟩
      simp [Server.handledBy, hi]
  | @rename index u m c login list hpc hu hid hm hprio =>
    by_cases hi : index = i
    · subst hi
      exact absurd hprio (h.not_chat hpc hu hid hm).2.1
    · exact ⟨h.mono (List.length_set ..).ge (ctos_subset_modify hi)
        (removed_set_iff hi).2 hrunning, rfl⟩
  | @request index u m c hpc hu hid hm hprio =>
    by_cases hi : index = i
    · subst hi
      exact absurd hprio (h.not_chat hpc hu hid hm).2.2
    · exact ⟨h.mono le_rfl (ctos_subset_modify hi) id hrunning, rfl⟩
  | @discard index u m c hpc hu hid hm hprio hleave =>
    refine ⟨?_, rfl⟩
    by_cases hi : index = i
    · subst hi
      obtain ⟨d, hd, hdprio⟩ := (h.outranks hpc hu hid hm).2 hleave
      exact ⟨h.registered, .inl ⟨d, by rwa [Kernel.modify_chan_self], hdprio⟩⟩
    · exact h.mono le_rfl (ctos_subset_modify hi) id hrunning
  | @leave index u m c list hpc hu hid hm hprio =>
    refine ⟨?_, rfl⟩
    by_cases hi : index = i
    · subst hi
      exact ⟨h.registered.trans_eq (List.length_set ..).symm,
        .inr (.inl ⟨_, List.getElem?_set_self h.registered, rfl⟩)⟩
    · exact h.mono (List.length_set ..).ge (ctos_subset_modify hi)
        (removed_set_iff hi).2 hrunning
  | @leaveLast index u m c hpc hu hid hm hprio =>
    exact ⟨⟨h.registered.trans_eq (List.length_set ..).symm, .inr (.inr rfl)⟩, rfl⟩

/-- From the disconnect command on, no chat message of its sender is dequeued. -/
theorem Closing.path {s t : State} {i : ℕ} (h : Closing s.kernel s.server i)
    (hp : chatroom.Path Machine.anyStep s t) :
    Closing t.kernel t.server i ∧ t.server.handledBy (i + 1) = s.server.handledBy (i + 1) := by
  refine hp.invariant (I := fun t => Closing t.kernel t.server i ∧
    t.server.handledBy (i + 1) = s.server.handledBy (i + 1)) ⟨h, rfl⟩
    fun t a u _ ⟨hclosing, hsame⟩ _ hstep => ?_
  obtain ⟨junk, -, hserver, -⟩ | ⟨-, rfl⟩ | hclient := step_cases hstep
  · obtain ⟨hclosing', hsame'⟩ := hclosing.serverStep hserver
    exact ⟨hclosing', hsame'.trans hsame⟩
  · exact ⟨⟨hclosing.registered, .inr (.inr rfl)⟩, hsame⟩
  · obtain ⟨new, hctos, -⟩ := (hclient.frame.chan (i + 1)).ctos
    rw [hclient.frame.server]
    exact ⟨hclosing.mono le_rfl (hctos ▸ List.subset_append_left _ new) id id, hsame⟩

/-! ### Results -/

/-- Client `c` enqueues its disconnect command. -/
theorem closing_of_leaving {s t : State} {c k : ℕ} {login : Text}
    (hc : s.clients[c]? = some ⟨login, .session (k + 1) .leaving⟩)
    (hk : k < s.server.users.length) (hroom : (s.kernel.chan (k + 1)).ctos.length < t3UserQMaxMsgs)
    (hstep : chatroom.step s (.client c) = some t) :
    t.server = s.server ∧ Closing t.kernel t.server k := by
  simp only [chatroom, step, clientStep, hc, session, Option.map_some] at hstep
  obtain rfl := Option.some.inj hstep
  refine ⟨rfl, hk, .inl ⟨⟨t3DisconnectPrio, ['0'], .direct⟩, ?_, rfl⟩⟩
  simp only [State.setClient, Kernel.modify_chan_self]
  obtain ⟨-, hsend⟩ | ⟨hfull, -⟩ :=
    (s.kernel.chan (k + 1)).sendCtos_cases ⟨t3DisconnectPrio, ['0'], .direct⟩
  · rw [hsend]
    exact List.mem_append_right _ List.mem_cons_self
  · omega

/-- The chat messages under id `k`, of a client that is about to enqueue its disconnect command
in `s`, in a later state `t`. -/
structure Departure (s t : State) (k : ℕ) : Prop where
  /-- the server has dequeued some of the messages, and the others wait -/
  enqueued : (s.kernel.chan k).chatsSent =
    s.server.handledBy k ++ (s.kernel.chan k).chatsWaiting
  /-- those that wait are never dequeued -/
  overtaken : t.server.handledBy k = s.server.handledBy k
  /-- those dequeued have been broadcast once the server has processed the command -/
  relayed : t.server.Removed (k - 1) →
    ∀ i text, t.server.handled[i]? = some (k, text) → t.server.Relayed i

/-- **Leaving.** The disconnect command overtakes the chat messages that wait: what the server
had dequeued before is broadcast before it removes the user, and nothing else is. -/
theorem disconnect_overtakes {s t u : State} {c k : ℕ} {login : Text} (h : chatroom.Reachable s)
    (hc : s.clients[c]? = some ⟨login, .session k .leaving⟩)
    (hroom : (s.kernel.chan k).ctos.length < t3UserQMaxMsgs)
    (hstep : chatroom.step s (.client c) = some t) (hp : chatroom.Path Machine.anyStep t u) :
    Departure s u k := by
  have hid : idOf s c = some k := by rw [idOf, hc]; rfl
  obtain ⟨hk, hle⟩ := idOf_le h hid
  obtain ⟨k, rfl⟩ := Nat.exists_eq_add_of_le' hk
  obtain ⟨hserver, hclosing⟩ := closing_of_leaving hc hle hroom hstep
  have hu : chatroom.Reachable u := (h.step hstep).path hp
  refine ⟨(accounted_of_reachable h).chats _, ?_, (relayOrder_of_reachable hu).removed k⟩
  rw [(hclosing.path hp).2, hserver]

/-- A client sends two messages and leaves; the server has relayed the first one. -/
def leaving : State :=
  (chatroom.run (initial 0) (firstChat ++ [.say 0 "bye".toList, .clientExit 0])).get
    (by decide +kernel)

/-- The client has sent the disconnect command, and the server has processed it. -/
def removed : State :=
  (chatroom.run leaving (.client 0 :: serverSteps 3)).get (by decide +kernel)

theorem disconnect_overtakes_leaving :
    removed.server.Removed 0 ∧ Departure leaving removed 1 := by
  have hrun : chatroom.run leaving (.client 0 :: serverSteps 3) = some removed :=
    (Option.some_get _).symm
  rw [Machine.run_cons] at hrun
  obtain ⟨t, ht, hu⟩ := Option.bind_eq_some_iff.1 hrun
  have hclient : leaving.clients[0]? = some ⟨"ann".toList, .session 1 .leaving⟩ := by
    decide +kernel
  refine ⟨⟨{ newUser 1 with id := -1, login := "ann".toList }, by decide +kernel, rfl⟩, ?_⟩
  exact disconnect_overtakes (Machine.reachable_of_run ⟨0, rfl⟩ (Option.some_get _).symm) hclient
    (by decide +kernel) ht (Machine.path_of_runUnder hu)

/-- What a client enqueued before its disconnect command was dequeued and broadcast before the
server removed the user. -/
def LeavesNothing (s : State) : Prop := ∀ index, s.server.Removed index →
  s.server.handledBy (index + 1) = (s.kernel.chan (index + 1)).chatsSent ∧
    ∀ i text, s.server.handled[i]? = some (index + 1, text) → s.server.Relayed i

/-- A client sends a message and leaves, before the server reads its queue. -/
def swallowed : State :=
  (chatroom.run (initial 0) (firstLogin ++ [.say 0 "hi".toList, .clientExit 0, .client 0] ++
    serverSteps 1)).get (by decide +kernel)

/-- The message is lost. -/
theorem message_swallowed : ¬ ∀ s, chatroom.Reachable s → LeavesNothing s := by
  intro h
  have hleaves := h swallowed (Machine.reachable_of_run ⟨0, rfl⟩ (Option.some_get _).symm)
  obtain ⟨hhandled, -⟩ := hleaves 0 ⟨{ newUser 1 with id := -1 }, by decide +kernel, rfl⟩
  revert hhandled
  decide +kernel

end EmbeddedC.Chatroom
