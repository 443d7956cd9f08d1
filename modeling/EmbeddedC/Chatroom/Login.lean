import EmbeddedC.Lib.Tickets
import EmbeddedC.Chatroom.System

/-!
# The chatroom: login

Requests and replies of all clients share one bounded queue; server and clients take messages
that are not for them and put them back.  An id that the server has given out is a ticket: it is
in a reply in the login queue, in the reply the server holds, or adopted by a client.

* `tokens`, `tokens_step`: a step moves tickets, gives out the next one, or drops one if
  `ReplyRoom` fails;
* `Registry`: what the server keeps for the ids;
* `login_ids`: ids are unique, and those in use are registered;
* `replies_kept`: no reply is lost while the server finds room for those it sends.
-/

namespace EmbeddedC.Chatroom

open scoped List

/-! ### Tickets -/

/-- The ids in replies: in the login queue, or in the server's hand. -/
def held (K : Kernel) (v : Server) : List ℕ := replies K ++ v.pc.hand.toList

/-- The ids given out, in replies and with clients. -/
def tokens (s : State) : List ℕ := held s.kernel s.server ++ s.clients.filterMap Client.id

/-- The server finds room in the login queue for a reply that it sends, and does not exit while
it holds one. -/
def ReplyRoom (s : State) : Action → Prop
  | .server _ => s.server.pc.hand ≠ none → s.kernel.loginQ.length < t3LoginQMaxMsgs
  | .serverExit => s.server.pc.hand = none
  | _ => True

instance (s : State) : (a : Action) → Decidable (ReplyRoom s a)
  | .server _ => inferInstanceAs (Decidable (_ → _))
  | .serverExit => inferInstanceAs (Decidable (_ = _))
  | .connect _ | .client _ | .say .. | .clientExit _ | .handler .. => instDecidableTrue

theorem replies_receive {K : Kernel} {m : LoginMsg} {q : List LoginMsg}
    (h : MessageQueue.receive LoginMsg.prio K.loginQ = some (m, q)) :
    (replies K).Perm (m.reply.toList ++ q.filterMap LoginMsg.reply) := by
  have hperm := (MessageQueue.receive_perm h).filterMap LoginMsg.reply
  cases hm : m.reply with
  | none => simpa [replies, hm] using hperm
  | some k => simpa [replies, hm] using hperm

theorem replies_loginSend {K : Kernel} {m : LoginMsg} {k : ℕ} (hm : m.reply = some k) :
    replies (K.loginSend m) = replies K ++ [k] ∨
      (t3LoginQMaxMsgs ≤ K.loginQ.length ∧ replies (K.loginSend m) = replies K) := by
  obtain ⟨-, hq⟩ | ⟨hfull, hq⟩ := K.loginSend_cases m
  · exact .inl (by simp [replies, hq, hm])
  · exact .inr ⟨hfull, by rw [replies, hq, replies]⟩

/-- The server sends the reply it holds. -/
theorem held_loginSend {K : Kernel} {v v' : Server} {m : LoginMsg} {k : ℕ}
    (hk : v.pc.hand = some k) (hm : m.reply = some k) (hv' : v'.pc.hand = none) :
    Tickets.Step (v.pc.hand ≠ none ∧ t3LoginQMaxMsgs ≤ K.loginQ.length) v.users.length
      (held K v) v.users.length (held (K.loginSend m) v') := by
  unfold held
  rw [hv', hk]
  obtain h | ⟨hfull, h⟩ := replies_loginSend (K := K) hm
  · exact .move (by simp [h])
  · refine .drop (k := k) ⟨by simp, hfull⟩ ?_
    rw [h, Option.toList_none, List.append_nil]
    exact List.perm_append_singleton k (replies K)

theorem ServerPc.hand_of_idle {pc : ServerPc} (h : pc.idle = true) : pc.hand = none := by
  cases pc <;> simp_all [ServerPc.idle, ServerPc.hand]

theorem ServerPc.hand_of_down {pc : ServerPc} (h : pc.running = false) : pc.hand = none := by
  cases pc <;> simp_all [ServerPc.running, ServerPc.hand]

/-- What a step of the server does to the ids in replies. -/
theorem ServerStep.tickets {K K' : Kernel} {v v' : Server} (h : ServerStep K v K' v') :
    Tickets.Step (v.pc.hand ≠ none ∧ t3LoginQMaxMsgs ≤ K.loginQ.length) v.users.length
      (held K v) v'.users.length (held K' v') := by
  -- steps that neither take nor send a reply
  have hsame (hq : K'.loginQ = K.loginQ) (hpc : v.pc.hand = none) (hpc' : v'.pc.hand = none)
      (husers : v'.users.length = v.users.length) :
      Tickets.Step (v.pc.hand ≠ none ∧ t3LoginQMaxMsgs ≤ K.loginQ.length) v.users.length
        (held K v) v'.users.length (held K' v') := by
    rw [husers]
    exact .move (by rw [held, held, replies, replies, hq, hpc, hpc'])
  cases h with
  | idle hpc hpc' =>
    exact hsame rfl (ServerPc.hand_of_idle hpc) (ServerPc.hand_of_idle hpc') rfl
  | down hpc hpc' => exact hsame rfl (ServerPc.hand_of_down hpc) (ServerPc.hand_of_down hpc') rfl
  | @takeReply text q hpc hq =>
    have hperm := replies_receive hq
    refine .move ?_
    rw [held, held, hpc]
    simp only [ServerPc.hand, Option.toList_none, List.append_nil]
    exact (List.perm_append_singleton _ _).trans hperm.symm
  | @takeOther m q hpc hq hprio =>
    have hperm := replies_receive hq
    rw [LoginMsg.reply, if_neg hprio] at hperm
    refine .move ?_
    rw [held, held, hpc]
    simpa [ServerPc.hand, replies] using hperm.symm
  | @register text q hpc hq =>
    have hperm := replies_receive hq
    rw [LoginMsg.reply, if_neg (by simp [t3UserPrio, t3ServerPrio])] at hperm
    rw [List.length_append]
    refine .give ?_
    rw [held, held, hpc]
    simp only [ServerPc.hand, Option.toList_none, List.append_nil]
    exact (List.perm_append_singleton _ _).trans (hperm.symm.cons _)
  | resend hpc => exact held_loginSend (by rw [hpc]; rfl) rfl rfl
  | reply hpc => exact held_loginSend (by rw [hpc]; rfl) (by simp [LoginMsg.reply]) rfl
  | finish hpc | skip hpc | deliver hpc | answer hpc | chat hpc | request hpc | discard hpc
  | farewell hpc => exact hsame rfl (by rw [hpc]; rfl) rfl rfl
  | rename hpc | leave hpc | leaveLast hpc =>
    exact hsame rfl (by rw [hpc]; rfl) rfl (List.length_set ..)

/-- A client that keeps its id, or has none before and after. -/
theorem filterMap_setClient {s : State} {c : ℕ} {cl : Client} {pc : ClientPc}
    (hc : s.clients[c]? = some cl) (hid : ({ cl with pc := pc } : Client).id = cl.id) :
    ((s.setClient c cl pc).clients.filterMap Client.id).Perm (s.clients.filterMap Client.id) := by
  obtain ⟨rest, hs, ht⟩ := List.filterMap_set_perm hc Client.id
  exact (ht { cl with pc := pc }).trans (hid ▸ hs.symm)

theorem ClientPc.exit_id {cl : Client} {pc : ClientPc} (h : cl.pc.exit = some pc) :
    ({ cl with pc := pc } : Client).id = cl.id := by
  unfold ClientPc.exit at h
  split at h
  all_goals try (obtain rfl := Option.some.inj h; simp [Client.id, *])
  · cases h
  · obtain ⟨pc', -, rfl⟩ := Option.map_eq_some_iff.1 h
    simp [Client.id, *]

theorem tokens_setClient {s s' : State} {c : ℕ} {cl : Client} {pc : ClientPc}
    (hserver : s'.server = s.server) (hclients : s'.clients = s.clients)
    (hq : (replies s'.kernel).Perm (replies s.kernel))
    (hc : s.clients[c]? = some cl) (hid : ({ cl with pc := pc } : Client).id = cl.id) :
    (tokens (s'.setClient c cl pc)).Perm (tokens s) := by
  have hperm := filterMap_setClient (hclients ▸ hc) hid
  rw [hclients] at hperm
  refine List.Perm.append ?_ hperm
  simp only [held, State.setClient, hserver]
  exact hq.append_right _

/-- What a call of a client without an id does to the tickets. -/
theorem tokens_loginClient {s : State} {c : ℕ} {cl : Client} {p : Kernel × ClientPc}
    (hc : s.clients[c]? = some cl) (hp : loginClient s.kernel cl.pc = some p) :
    (tokens ({ s with kernel := p.1 }.setClient c cl p.2)).Perm (tokens s) := by
  have hrequest {text : Text} {q : List LoginMsg}
      (hq : MessageQueue.send t3LoginQMaxMsgs s.kernel.loginQ ⟨t3UserPrio, text⟩ = some q) :
      (replies { s.kernel with loginQ := q }).Perm (replies s.kernel) := by
    obtain ⟨-, rfl⟩ := MessageQueue.send_eq_some hq
    simp [replies, LoginMsg.reply, t3UserPrio, t3ServerPrio]
  unfold loginClient at hp
  split at hp <;> rename_i hpc
  · split at hp
    · obtain rfl := Option.some.inj hp
      exact tokens_setClient rfl rfl (.refl _) hc (by simp [Client.id, hpc])
    · cases hp
  · obtain ⟨q, hq, rfl⟩ := Option.map_eq_some_iff.1 hp
    exact tokens_setClient rfl rfl (hrequest hq) hc (by simp [Client.id, hpc])
  · obtain ⟨⟨m, q⟩, hq, rfl⟩ := Option.map_eq_some_iff.1 hp
    have hperm := replies_receive hq
    have hnone : cl.id = none := by simp [Client.id, hpc]
    by_cases huser : m.prio = t3UserPrio
    · rw [LoginMsg.reply, if_neg (by rw [huser]; decide)] at hperm
      exact tokens_setClient rfl rfl hperm.symm hc (by simp [Client.id, huser, hpc])
    · by_cases hserver : m.prio = t3ServerPrio
      · -- the client adopts the id
        rw [LoginMsg.reply, if_pos hserver] at hperm
        obtain ⟨rest, hs, ht⟩ := List.filterMap_set_perm hc Client.id
        have hid := ht ⟨cl.login, .session (atoi m.text) .openRcv⟩
        rw [hnone] at hs
        simp only [if_neg huser, if_pos hserver]
        calc tokens _
            _ = (q.filterMap LoginMsg.reply ++ s.server.pc.hand.toList) ++
                (s.clients.set c ⟨cl.login, .session (atoi m.text) .openRcv⟩).filterMap
                  Client.id := rfl
            _ ~ (q.filterMap LoginMsg.reply ++ s.server.pc.hand.toList) ++
                (atoi m.text :: rest) := hid.append_left _
            _ ~ ((atoi m.text :: q.filterMap LoginMsg.reply) ++ s.server.pc.hand.toList) ++
                rest := List.perm_middle
            _ ~ tokens s := (hperm.symm.append_right _).append hs.symm
      · rw [LoginMsg.reply, if_neg hserver] at hperm
        exact tokens_setClient rfl rfl hperm.symm hc (by simp [Client.id, huser, hserver, hpc])
  · obtain ⟨q, hq, rfl⟩ := Option.map_eq_some_iff.1 hp
    exact tokens_setClient rfl rfl (hrequest hq) hc (by simp [Client.id, hpc])
  · cases hp
  · cases hp

theorem ClientStep.tokens {s t : State} {a : Action} (h : ClientStep s a t) :
    (tokens t).Perm (tokens s) := by
  cases h with
  | connect => simp [Chatroom.tokens, Client.id, List.filterMap_cons]
  | login hc hp => exact tokens_loginClient hc hp
  | session hc hpc => exact tokens_setClient rfl rfl (.refl _) hc (by simp [Client.id, hpc])
  | say => exact .refl _
  | exit hc hpc => exact tokens_setClient rfl rfl (.refl _) hc (ClientPc.exit_id hpc)
  | handler hc hpc => exact tokens_setClient rfl rfl (.refl _) hc (by simp [Client.id, hpc])

theorem tokens_step {s t : State} {a : Action} (h : chatroom.step s a = some t) :
    Tickets.Step (¬ ReplyRoom s a) s.server.users.length (tokens s) t.server.users.length
      (tokens t) := by
  obtain ⟨junk, rfl, hserver, hclients⟩ | ⟨rfl, rfl⟩ | hclient := step_cases h
  · rw [tokens, tokens, hclients]
    refine (hserver.tickets.append_right _).mono fun ⟨hhand, hfull⟩ hroom => ?_
    have := hroom hhand
    omega
  · -- a reply in the hand of a server that exits is lost
    have hdown : (ServerPc.shutdown 0).hand = none := rfl
    simp only [tokens, held, hdown, Option.toList_none, List.append_nil]
    cases hhand : s.server.pc.hand with
    | none => exact .move (by rw [Option.toList_none, List.append_nil]; rfl)
    | some k =>
      refine .drop (k := k) (by simp [ReplyRoom, hhand]) ?_
      rw [Option.toList_some, List.append_assoc, List.singleton_append]
      exact List.perm_middle
  · rw [hclient.frame.server]
    exact .move hclient.tokens

theorem tokens_valid {s : State} (h : chatroom.Reachable s) :
    Tickets.Valid s.server.users.length (tokens s) := by
  refine h.invariant (I := fun s => Tickets.Valid s.server.users.length (tokens s))
    (fun s hs => ?_) fun s a t _ hvalid hstep => (tokens_step hstep).valid hvalid
  obtain ⟨index, rfl⟩ := hs
  exact Tickets.valid_nil

theorem tokens_complete {s : State} (h : chatroom.ReachableUnder ReplyRoom s) :
    Tickets.Complete s.server.users.length (tokens s) := by
  refine h.invariant (I := fun s => Tickets.Complete s.server.users.length (tokens s))
    (fun s hs => ?_) fun s a t _ hcomplete hroom hstep =>
      (tokens_step hstep).complete (not_not.2 hroom) hcomplete
  obtain ⟨index, rfl⟩ := hs
  exact Tickets.complete_nil

/-! ### The table of users -/

/-- The disconnect command was enqueued for the server. -/
def Chan.Left (c : Chan) : Prop := ∃ m ∈ c.sent, m.prio = t3DisconnectPrio

/-- What waits for the server was enqueued. -/
theorem Chan.ctos_kept : Chan.Kept fun c => c.ctos ⊆ c.sent where
  fresh := fun _ => List.Subset.refl []
  send := fun c m h => by rwa [c.sendStoc_ctos, c.sendStoc_sent]
  recv := fun c m c' h hm => by
    obtain ⟨q, hq, rfl⟩ := Chan.recvCtos_eq_some hm
    exact fun m' hm' => h (MessageQueue.receive_subset hq hm')
  link := fun c b h => h
  client := fun c c' h hmove => by
    obtain ⟨new, hctos, hsent⟩ := hmove.ctos
    rw [hctos, hsent]
    exact List.append_subset.2 ⟨List.subset_append_of_subset_left new h,
      List.subset_append_right _ new⟩

/-- Entry `i` of the table, which belongs to id `i + 1` and its queues `c`. -/
structure Entry (running : Bool) (c : Chan) (i : ℕ) (u : User) : Prop where
  id : u.id = i + 1 ∨ u.id = -1
  linked : u.id ≠ -1 → running = true → c.linked = true
  left : u.id = -1 → c.Left

theorem Entry.mono {running running' : Bool} {c c' : Chan} {i : ℕ} {u : User}
    (h : Entry running c i u) (hrunning : running' = true → running = true)
    (hlinked : running' = true → c'.linked = c.linked) (hsent : c.sent ⊆ c'.sent) :
    Entry running' c' i u where
  id := h.id
  linked := fun hid hr => (hlinked hr).trans (h.linked hid (hrunning hr))
  left := fun hid =>
    let ⟨m, hm, hprio⟩ := h.left hid
    ⟨m, hsent hm, hprio⟩

/-- The table of users. -/
def Registry (K : Kernel) (v : Server) : Prop :=
  ∀ i u, v.users[i]? = some u → Entry v.pc.running (K.chan (i + 1)) i u

/-- A step that leaves the table alone. -/
theorem Registry.quiet {K K' : Kernel} {v v' : Server} (h : Registry K v)
    (husers : v'.users = v.users) (hrunning : v'.pc.running = true → v.pc.running = true)
    (hchan : ∀ k, (v'.pc.running = true → (K'.chan k).linked = (K.chan k).linked) ∧
      (K'.chan k).sent = (K.chan k).sent) : Registry K' v' := by
  intro i u hu
  rw [husers] at hu
  exact (h i u hu).mono hrunning (hchan _).1 (by rw [(hchan _).2]; exact List.Subset.refl _)

/-- A step that replaces entry `index`, and does to its queues what `c` tells. -/
theorem Registry.set {K : Kernel} {v v' : Server} {index : ℕ} {u : User} {c : Chan}
    (h : Registry K v) (husers : v'.users = v.users.set index u)
    (hrunning : v'.pc.running = true → v.pc.running = true)
    (hu : Entry v'.pc.running c index u) :
    Registry (K.modify (index + 1) fun _ => c) v' := by
  intro i u' hu'
  rw [husers] at hu'
  by_cases hi : index = i
  · subst hi
    rw [List.getElem?_set_self'] at hu'
    obtain ⟨u₀, -, rfl⟩ := Option.map_eq_some_iff.1 hu'
    rwa [Kernel.modify_chan_self]
  · rw [List.getElem?_set_ne hi] at hu'
    rw [Kernel.modify_chan_of_ne _ _ (by omega)]
    exact (h i u' hu').mono hrunning (fun _ => rfl) (List.Subset.refl _)

theorem modify_linked_sent {K : Kernel} {k : ℕ} {f : Chan → Chan}
    (hf : (f (K.chan k)).linked = (K.chan k).linked ∧ (f (K.chan k)).sent = (K.chan k).sent)
    (j : ℕ) : ((K.modify k f).chan j).linked = (K.chan j).linked ∧
      ((K.modify k f).chan j).sent = (K.chan j).sent :=
  Kernel.modify_forall (P := fun j c => c.linked = (K.chan j).linked ∧ c.sent = (K.chan j).sent)
    (fun _ => ⟨rfl, rfl⟩) hf j

/-- The operation on one channel of a step that leaves the table alone. -/
theorem Registry.modify {K : Kernel} {v v' : Server} {k : ℕ} {f : Chan → Chan}
    (h : Registry K v) (husers : v'.users = v.users)
    (hrunning : v'.pc.running = true → v.pc.running = true)
    (hf : (f (K.chan k)).linked = (K.chan k).linked ∧ (f (K.chan k)).sent = (K.chan k).sent) :
    Registry (K.modify k f) v' :=
  h.quiet husers hrunning fun j => (modify_linked_sent hf j).imp_left fun hlinked _ => hlinked

theorem recvCtos_linked_sent {c c' : Chan} {m : Msg} (h : c.recvCtos = some (m, c')) :
    c'.linked = c.linked ∧ c'.sent = c.sent := by
  obtain ⟨q, -, rfl⟩ := Chan.recvCtos_eq_some h
  exact ⟨rfl, rfl⟩

theorem Registry.serverStep {K K' : Kernel} {v v' : Server} (h : Registry K v)
    (hctos : ∀ k, (K.chan k).ctos ⊆ (K.chan k).sent) (hs : ServerStep K v K' v') :
    Registry K' v' := by
  have hrunning := hs.running
  cases hs with
  | idle | takeReply | takeOther | finish | skip | down =>
    exact h.quiet rfl hrunning fun _ => ⟨fun _ => rfl, rfl⟩
  | resend | reply => exact h.quiet rfl hrunning fun _ => by simp
  | deliver | answer =>
    exact h.modify rfl hrunning ⟨Chan.sendStoc_linked .., Chan.sendStoc_sent ..⟩
  | chat hpc hu hid hm | request hpc hu hid hm | discard hpc hu hid hm =>
    exact h.modify rfl hrunning (recvCtos_linked_sent hm)
  | @register text q hpc hq =>
    intro i u hu
    obtain hu | ⟨rfl, rfl⟩ := List.getElem?_concat_eq_some.1 hu
    · have hi := List.lt_length_of_getElem?_eq_some hu
      rw [Kernel.modify_chan_of_ne _ _ (by omega)]
      exact (h i u hu).mono hrunning (fun _ => rfl) (List.Subset.refl _)
    · rw [Kernel.modify_chan_self]
      exact ⟨.inl (by simp [newUser]), fun _ _ => rfl, fun hid => by simp [newUser] at hid; omega⟩
  | @rename index u m c login list hpc hu hid hm hprio =>
    obtain ⟨hlinked, hsent⟩ := recvCtos_linked_sent hm
    refine h.set rfl hrunning ?_
    obtain ⟨hid', hlinked', hleft⟩ := h index u hu
    rw [hpc] at hlinked'
    exact ⟨hid', fun hne _ => hlinked.trans (hlinked' hne rfl), fun heq => absurd heq hid⟩
  | @leave index u m c list hpc hu hid hm hprio =>
    obtain ⟨q, hq, rfl⟩ := Chan.recvCtos_eq_some hm
    exact h.set rfl hrunning
      ⟨.inr rfl, fun hne => absurd rfl hne,
        fun _ => ⟨m, hctos _ (MessageQueue.receive_mem hq), hprio⟩⟩
  | @leaveLast index u m c hpc hu hid hm hprio =>
    obtain ⟨q, hq, rfl⟩ := Chan.recvCtos_eq_some hm
    have hleft : Chan.Left { K.chan (index + 1) with ctos := q, linked := false } :=
      ⟨m, hctos _ (MessageQueue.receive_mem hq), hprio⟩
    have hset : Registry (K.modify (index + 1) fun _ =>
        { K.chan (index + 1) with ctos := q, linked := false })
        { v with users := v.users.set index { u with id := -1 } } :=
      h.set rfl id ⟨.inr rfl, fun hne => absurd rfl hne, fun _ => hleft⟩
    exact hset.quiet rfl hrunning fun _ => ⟨fun _ => rfl, rfl⟩
  | @farewell index u hpc hu hid =>
    intro i u' hu'
    refine (h i u' hu').mono hrunning (fun hr => by cases hr) ?_
    exact Kernel.modify_forall (P := fun j c => (K.chan j).sent ⊆ c.sent)
      (fun _ => List.Subset.refl _) (by simp) (i + 1)

theorem registry_of_reachable {s : State} (h : chatroom.Reachable s) :
    Registry s.kernel s.server := by
  refine h.invariant (I := fun s => Registry s.kernel s.server) (fun s hs => ?_)
    fun s a t hs hregistry hstep => ?_
  · obtain ⟨index, rfl⟩ := hs
    exact fun i u hu => by cases hu
  · obtain ⟨junk, -, hserver, -⟩ | ⟨-, rfl⟩ | hclient := step_cases hstep
    · exact hregistry.serverStep (Chan.ctos_kept.of_reachable hs) hserver
    · exact hregistry.quiet rfl (fun hr => by simp [ServerPc.running] at hr) fun _ =>
        ⟨fun _ => rfl, rfl⟩
    · intro i u hu
      rw [hclient.frame.server] at hu ⊢
      obtain ⟨new, -, hsent⟩ := (hclient.frame.chan (i + 1)).ctos
      exact (hregistry i u hu).mono id (fun _ => (hclient.frame.chan (i + 1)).linked)
        (hsent ▸ List.subset_append_left _ new)

/-! ### Results -/

theorem mem_clients_of_idOf {s : State} {c k : ℕ} (h : idOf s c = some k) :
    k ∈ s.clients.filterMap Client.id := by
  obtain ⟨cl, hc, hid⟩ := Option.bind_eq_some_iff.1 h
  exact List.mem_filterMap.2 ⟨cl, List.mem_of_getElem? hc, hid⟩

/-- An id that clients have adopted is one client's, and was given out. -/
theorem existsUnique_idOf {s : State} (h : chatroom.Reachable s) {k : ℕ}
    (hk : k ∈ s.clients.filterMap Client.id) : ∃! c, idOf s c = some k := by
  have hnodup := (List.nodup_append.1 (tokens_valid h).nodup).2.1
  exact List.count_filterMap_eq_one_iff.1 (List.count_eq_one_of_mem hnodup hk)

/-- No two clients have the same id. -/
theorem idOf_unique {s : State} (h : chatroom.Reachable s) {c d k : ℕ} (hc : idOf s c = some k)
    (hd : idOf s d = some k) : c = d :=
  (existsUnique_idOf h (mem_clients_of_idOf hc)).unique hc hd

/-- An adopted id was given out. -/
theorem idOf_le {s : State} (h : chatroom.Reachable s) {c k : ℕ} (hc : idOf s c = some k) :
    0 < k ∧ k ≤ s.server.users.length :=
  (tokens_valid h).given k (List.mem_append_right _ (mem_clients_of_idOf hc))

/-- The ids clients have adopted, and what the server keeps for them. -/
structure LoginIds (s : State) : Prop where
  /-- no two clients adopt the same id -/
  unique : ∀ c d k, idOf s c = some k → idOf s d = some k → c = d
  /-- the id of a client that has not sent its disconnect command is in the table, and both of
  its queues exist -/
  registered : s.server.pc.running = true → ∀ c k, idOf s c = some k →
    ¬ (s.kernel.chan k).Left → ∃ u, s.server.users[k - 1]? = some u ∧ u.id = k ∧
      (s.kernel.chan k).linked = true

/-- **Login.** In every run no two clients adopt the same id, and the server has registered the
ids in use. -/
theorem login_ids {s : State} (h : chatroom.Reachable s) : LoginIds s where
  unique := fun c d k => idOf_unique h
  registered := fun hrunning c k hc hleft => by
    obtain ⟨hk, hle⟩ := idOf_le h hc
    have hlt : k - 1 < s.server.users.length := by omega
    have hentry := registry_of_reachable h (k - 1) _ (List.getElem?_eq_getElem hlt)
    rw [Nat.sub_add_cancel hk] at hentry
    obtain hid | hid := hentry.id
    · refine ⟨_, List.getElem?_eq_getElem hlt, ?_, hentry.linked (by omega) hrunning⟩
      rw [hid]
      omega
    · exact absurd (hentry.left hid) hleft

/-- A client has logged in. -/
def loggedIn : State := (chatroom.runUnder ReplyRoom (initial 0) firstLogin).get
  (by decide +kernel)

theorem loggedIn_reachable : chatroom.ReachableUnder ReplyRoom loggedIn :=
  Machine.reachableUnder_of_run ⟨0, rfl⟩ (Option.some_get _).symm

theorem login_ids_loggedIn : LoginIds loggedIn := login_ids loggedIn_reachable.reachable

/-- The reply with each id given out is in the login queue, or in the server's hand, or adopted
by exactly one client. -/
def RepliesKept (s : State) : Prop :=
  ∀ k, 0 < k → k ≤ s.server.users.length →
    k ∈ replies s.kernel ∨ s.server.pc.hand = some k ∨ ∃! c, idOf s c = some k

/-- **Replies.** No reply is lost in a run in which the server finds room for those it sends. -/
theorem replies_kept {s : State} (h : chatroom.ReachableUnder ReplyRoom s) : RepliesKept s := by
  intro k hk hle
  have hmem := tokens_complete h k hk hle
  obtain hheld | hclient := List.mem_append.1 hmem
  · obtain hq | hhand := List.mem_append.1 hheld
    · exact .inl hq
    · exact .inr (.inl (Option.mem_toList.1 hhand))
  · exact .inr (.inr (existsUnique_idOf h.reachable hclient))

theorem replies_kept_loggedIn : RepliesKept loggedIn := replies_kept loggedIn_reachable

/-- Six clients.  The requests of five fill the login queue; the server registers one of them,
and before it replies the sixth client sends its request. -/
def sixClients : List Action :=
  List.replicate 6 (.connect "ann".toList) ++ (List.range 6).map .client ++
    (List.range 5).map .client ++ serverSteps 1 ++ [.client 5] ++ serverSteps 1

def replyDropped : State := (chatroom.run (initial 0) sixClients).get (by decide +kernel)

/-- The reply to the first request is lost. -/
theorem reply_lost : ¬ ∀ s, chatroom.Reachable s → RepliesKept s := by
  intro h
  have hkept := h replyDropped (Machine.reachable_of_run ⟨0, rfl⟩ (Option.some_get _).symm)
  obtain hq | hhand | ⟨c, hc, -⟩ := hkept 1 (by decide) (by decide +kernel)
  · revert hq
    decide +kernel
  · revert hhand
    decide +kernel
  · have hnone : replyDropped.clients.filterMap Client.id = [] := by decide +kernel
    have hmem := mem_clients_of_idOf hc
    rw [hnone] at hmem
    cases hmem

end EmbeddedC.Chatroom
