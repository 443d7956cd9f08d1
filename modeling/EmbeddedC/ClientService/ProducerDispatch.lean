import EmbeddedC.ClientService.ProducerServer

/-!
# `producer_server`: one dispatch for one message

The listener sets `events` again when an acknowledgement arrives, but never clears it when it
dispatches.  A client whose message no worker has received yet is therefore reported again, and
dispatched again, by the next `poll`.

* `Disciplined`: an fd is dispatched only when reported, and not again before its
  acknowledgement; it is in one place; only one worker receives from it;
* `AckedFirst`: when the listener polls, a readable client that is outstanding is the one whose
  acknowledgement this pass takes;
* `dispatch_disciplined`: under this condition the discipline is kept;
* `dispatched_twice`: one client, one message, two passes.
-/

namespace EmbeddedC.ClientService.Producer

/-! ### Histories -/

/-- After every dispatch of `fd` its acknowledgement has been taken. -/
def Settled (fd : ℕ) (log : List Event) : Prop :=
  ∀ (i : ℕ) r, log[i]? = some (Event.dispatched fd r) → ∃ k, i < k ∧ log[k]? = some (Event.acked fd)

/-- Between two dispatches of an fd its acknowledgement is taken. -/
def Alternating (log : List Event) : Prop :=
  ∀ (i j : ℕ) fd r r', i < j → log[i]? = some (Event.dispatched fd r) →
    log[j]? = some (Event.dispatched fd r') →
    ∃ k, i < k ∧ k < j ∧ log[k]? = some (Event.acked fd)

theorem settled_nil (fd : ℕ) : Settled fd [] := fun i r h => by simp at h

theorem alternating_nil : Alternating [] := fun i j fd r r' _ h => by simp at h

theorem settled_acked (fd : ℕ) (log : List Event) : Settled fd (log ++ [Event.acked fd]) := by
  intro i r h
  obtain h | ⟨-, h⟩ := List.getElem?_concat_eq_some.1 h
  · exact ⟨log.length, List.lt_length_of_getElem?_eq_some h,
      List.getElem?_concat_eq_some.2 (.inr ⟨rfl, rfl⟩)⟩
  · cases h

theorem Settled.concat {fd : ℕ} {log : List Event} {e : Event} (h : Settled fd log)
    (he : ∀ r, e ≠ .dispatched fd r) : Settled fd (log ++ [e]) := by
  intro i r hi
  obtain hi | ⟨-, rfl⟩ := List.getElem?_concat_eq_some.1 hi
  · obtain ⟨k, hik, hk⟩ := h i r hi
    exact ⟨k, hik, List.getElem?_concat_eq_some.2 (.inl hk)⟩
  · exact absurd rfl (he r)

theorem Alternating.concat {log : List Event} {e : Event} (h : Alternating log)
    (he : ∀ fd r, e = .dispatched fd r → Settled fd log) : Alternating (log ++ [e]) := by
  intro i j fd r r' hij hi hj
  obtain hj | ⟨rfl, rfl⟩ := List.getElem?_concat_eq_some.1 hj
  · have hlt := List.lt_length_of_getElem?_eq_some hj
    obtain hi | ⟨rfl, -⟩ := List.getElem?_concat_eq_some.1 hi
    · obtain ⟨k, hik, hkj, hk⟩ := h i j fd r r' hij hi hj
      exact ⟨k, hik, hkj, List.getElem?_concat_eq_some.2 (.inl hk)⟩
    · omega
  · obtain hi | ⟨rfl, -⟩ := List.getElem?_concat_eq_some.1 hi
    · obtain ⟨k, hik, hk⟩ := he fd r' rfl i r hi
      exact ⟨k, hik, List.lt_length_of_getElem?_eq_some hk,
        List.getElem?_concat_eq_some.2 (.inl hk)⟩
    · exact absurd hij (lt_irrefl _)

/-! ### The discipline -/

/-- The dispatch discipline of the listener. -/
structure Disciplined (s : State) : Prop where
  /-- an fd is put into `tcp_clients_q` only in a pass in which `poll` reported it -/
  reported : ∀ fd r, Event.dispatched fd r ∈ s.log → r = true
  /-- and not again before its acknowledgement has been taken -/
  alternating : Alternating s.log
  /-- it is in the clients queue, in the hand of one worker, or in the ack queue -/
  onePlace : ∀ fd, s.tcpClientsQ.count fd +
    s.tcpThreads.countP (fun pc => pc.hand = some fd) + s.tcpAckClientsQ.count fd ≤ 1
  /-- two workers never receive from it -/
  oneRecv : ∀ (i j fd : ℕ), s.tcpThreads[i]? = some (TcpThreadPc.recv fd) →
    s.tcpThreads[j]? = some (TcpThreadPc.recv fd) →
    i = j
  /-- and the worker that does finds the message there -/
  message : ∀ (i fd : ℕ), s.tcpThreads[i]? = some (TcpThreadPc.recv fd) →
    (s.sock fd).readable = true

/-- Whenever the listener polls, a readable client that is outstanding has its acknowledgement at
the head of `tcp_ack_clients_q`, so that this pass takes it; and a new entry's `revents` happens
to be clear. -/
def AckedFirst (s : State) : Action → Prop
  | .listener stale =>
    (s.listener = .poll → ∀ p ∈ s.tcpPfds, (s.sock p.fd).readable = true →
      p.fd ∈ outstanding s → s.tcpAckClientsQ.head? = some p.fd) ∧
    (s.listener = .fds → s.fdsReady = true → stale = false)
  | _ => True

instance (s : State) : (a : Action) → Decidable (AckedFirst s a)
  | .listener _ => inferInstanceAs (Decidable (_ ∧ _))
  | .main | .accept _ | .thread _ | .clientSend _ | .clientClose _ => instDecidableTrue

/-! ### The listener's entries -/

/-- The fds on their way to the listener and in its entries. -/
def registered (s : State) : List ℕ :=
  s.main.hand.toList ++ s.tcpFdsQ ++ s.tcpPfds.map (·.fd)

theorem map_fd_pollRevents (sock : ℕ → Socket) (pfds : List Pollfd) :
    (pollRevents sock pfds).map (·.fd) = pfds.map (·.fd) := by
  simp [pollRevents, Function.comp_def]

theorem map_fd_rearm (fd : ℕ) (pfds : List Pollfd) :
    (rearm fd pfds).map (·.fd) = pfds.map (·.fd) := by
  induction pfds with
  | nil => rfl
  | cons p pfds ih =>
    rw [rearm]
    split
    · rfl
    · rw [List.map_cons, ih, List.map_cons]

theorem map_fd_set {pfds : List Pollfd} {index : ℕ} {p : Pollfd} (hp : pfds[index]? = some p)
    (r : Bool) : (pfds.set index { p with revents := r }).map (·.fd) = pfds.map (·.fd) := by
  obtain ⟨hi, rfl⟩ := List.getElem?_eq_some_iff.1 hp
  have hi' : index < (pfds.map (·.fd)).length := by simpa using hi
  rw [List.map_set]
  simpa only [List.getElem_map] using List.set_getElem_self hi'

/-- No fd is registered twice, and every registered fd is open: nothing is ever closed. -/
structure Registered (s : State) : Prop where
  nodup : (registered s).Nodup
  isOpen : ∀ fd ∈ registered s, s.conn fd ≠ none

theorem Registered.of_perm {s t : State} (h : Registered s)
    (hperm : (registered t).Perm (registered s)) (hconn : t.conn = s.conn) : Registered t :=
  ⟨hperm.nodup_iff.2 h.nodup, fun fd hfd => hconn ▸ h.isOpen fd (hperm.mem_iff.1 hfd)⟩

theorem Registered.step {s t : State} {a : Action} (h : Registered s)
    (hs : producerServer.step s a = some t) : Registered t := by
  cases a with
  | main =>
    obtain ⟨p, hp, rfl⟩ := Option.map_eq_some_iff.1 hs
    obtain ⟨pc, rfl, hpc⟩ | ⟨pc, rfl, hpc⟩ | ⟨fd, hpc, rfl⟩ | ⟨fd, hpc, -, rfl⟩ :=
      Pool.mainStep_cases hp
    all_goals refine h.of_perm ?_ rfl
    · simp only [registered, hpc, List.Perm.refl]
    · simp only [registered, hpc, List.Perm.refl]
    · simp only [registered, hpc, MainPc.hand, List.Perm.refl]
    · simp only [registered, hpc, MainPc.hand, Option.toList_some, Option.toList_none]
      exact List.Perm.append_right _ (List.perm_append_singleton fd s.tcpFdsQ)
  | accept fd =>
    obtain ⟨p, hp, rfl⟩ := Option.map_eq_some_iff.1 hs
    obtain ⟨hm, hnone, rfl⟩ := Pool.accept_eq_some hp
    -- the kernel gives out an fd that is not open
    have hfresh : fd ∉ registered s := fun hfd => h.isOpen fd hfd hnone
    have hcons : s.main.hand.toList = [] := by rw [hm]; rfl
    simp only [registered, hcons, List.nil_append] at hfresh
    obtain ⟨hnodup, hopen⟩ := h
    simp only [registered, hcons, List.nil_append] at hnodup hopen
    refine ⟨List.nodup_cons.2 ⟨hfresh, hnodup⟩, fun g hg => ?_⟩
    obtain rfl | hg := List.mem_cons.1 hg
    · simp
    · have hgf : g ≠ fd := fun hgf => hfresh (hgf ▸ hg)
      simpa [Function.update_of_ne hgf] using hopen g hg
  | listener stale =>
    obtain ⟨-, rfl⟩ | ⟨fd, q, -, -, hq, rfl⟩ | ⟨fd, q, -, -, -, rfl⟩ |
      ⟨index, p, -, hp, -, -, rfl⟩ | ⟨pc, rfl, -⟩ := tcpListener_cases hs
    all_goals refine h.of_perm ?_ rfl
    all_goals unfold registered
    · rw [map_fd_pollRevents]
    · rw [hq, List.append_assoc, List.append_assoc]
      refine List.Perm.append_left _ ?_
      rw [List.map_append, ← List.append_assoc]
      exact List.perm_append_singleton fd _
    · rw [map_fd_rearm]
    · rw [map_fd_set hp]
    · exact .refl _
  | thread i =>
    obtain ⟨pc, pc', free, busy, -, rfl, -⟩ | ⟨fd, q, -, -, rfl⟩ | ⟨fd, -, -, rfl⟩ |
      ⟨fd, -, -, rfl⟩ := tcpServerThread_cases hs
    all_goals exact h.of_perm (.refl _) rfl
  | clientSend fd | clientClose fd =>
    simp only [producerServer, Producer.step] at hs
    split at hs
    · cases hs
    · obtain rfl := Option.some.inj hs
      exact h.of_perm (.refl _) rfl

theorem registered_of_reachable {s : State} (h : producerServer.Reachable s) : Registered s := by
  refine h.invariant (fun s hs => ?_) fun s a t _ hreg hstep => hreg.step hstep
  obtain rfl := hs
  exact ⟨List.nodup_nil, fun fd hfd => nomatch hfd⟩

/-! ### Outstanding fds -/

theorem count_outstanding (s : State) (fd : ℕ) : (outstanding s).count fd = s.tcpClientsQ.count fd +
    s.tcpThreads.countP (fun pc => pc.hand = some fd) + s.tcpAckClientsQ.count fd := by
  simp only [outstanding, List.count_append, List.count_filterMap, beq_eq_decide]

/-- A worker has still to receive from `fd`, or will have. -/
def ToRecv (s : State) (fd : ℕ) : Prop :=
  fd ∈ s.tcpClientsQ ∨ ∃ pc ∈ s.tcpThreads, pc.toRecv = some fd

/-- The message that `poll` reported is still to be received. -/
def Awaited (s : State) (fd : ℕ) : Prop :=
  ToRecv s fd ∨ ∃ p ∈ s.tcpPfds, p.revents = true ∧ p.fd = fd

/-- The listener is about to take the acknowledgement of `fd`. -/
def AckPending (s : State) (fd : ℕ) : Prop :=
  (s.listener = .fds ∨ s.listener = .acks) ∧ s.acksReady = true ∧
    s.tcpAckClientsQ.head? = some fd

/-- Where the fds of the listener are. -/
structure Custody (s : State) : Prop where
  nodup : (outstanding s).Nodup
  registered : ∀ fd ∈ outstanding s, fd ∈ s.tcpPfds.map (·.fd)
  readable : ∀ fd, Awaited s fd → (s.sock fd).readable = true
  flagged : ∀ p ∈ s.tcpPfds, p.revents = true →
    p.fd ∈ s.polled ∧ (p.fd ∈ outstanding s → AckPending s p.fd)

theorem ToRecv.outstanding {s : State} {fd : ℕ} (h : ToRecv s fd) : fd ∈ outstanding s := by
  simp only [Producer.outstanding, List.mem_append, List.mem_filterMap]
  obtain h | ⟨pc, hpc, hfd⟩ := h
  · exact .inl (.inl h)
  · exact .inl (.inr ⟨pc, hpc, TcpThreadPc.hand_of_toRecv hfd⟩)

theorem Awaited.registered {s : State} {fd : ℕ} (hs : Custody s) (h : Awaited s fd) :
    fd ∈ registered s := by
  refine List.mem_append_right _ ?_
  obtain h | ⟨p, hp, -, rfl⟩ := h
  · exact hs.registered fd h.outstanding
  · exact List.mem_map_of_mem hp

theorem Frame.ackPending {s t : State} {fd : ℕ} (h : Frame s t) (hs : AckPending s fd) :
    AckPending t fd := by
  obtain ⟨hl, hr, hhead⟩ := hs
  refine ⟨by rwa [h.listener], by rwa [h.acksReady], ?_⟩
  obtain ⟨q, hq⟩ := h.acks
  rw [← hq, List.head?_append, hhead, Option.some_or]

/-- A step of the others keeps `Custody` if what is awaited afterwards was awaited before and
stays readable. -/
theorem Frame.custody {s t : State} (h : Frame s t) (hs : Custody s)
    (hread : ∀ fd, Awaited t fd →
      Awaited s fd ∧ ((s.sock fd).readable = true → (t.sock fd).readable = true)) :
    Custody t where
  nodup := h.outstanding.nodup_iff.2 hs.nodup
  registered := fun fd hfd => h.tcpPfds ▸ hs.registered fd (h.outstanding.mem_iff.1 hfd)
  readable := fun fd hfd => (hread fd hfd).2 (hs.readable fd (hread fd hfd).1)
  flagged := fun p hp hr => by
    obtain ⟨hpolled, hack⟩ := hs.flagged p (h.tcpPfds ▸ hp) hr
    exact ⟨h.polled ▸ hpolled, fun hout => h.ackPending (hack (h.outstanding.mem_iff.1 hout))⟩

/-- A worker that is receiving from `fd` is the only one who awaits it. -/
theorem Custody.not_awaited {s : State} {i fd : ℕ} (hs : Custody s)
    (hpc : s.tcpThreads[i]? = some (.recv fd)) :
    fd ∉ s.tcpClientsQ ∧ (∀ pc ∈ s.tcpThreads.set i (.send fd), pc.toRecv ≠ some fd) ∧
      ∀ p ∈ s.tcpPfds, p.revents = true → p.fd ≠ fd := by
  have hone : (outstanding s).count fd ≤ 1 := List.nodup_iff_count_le_one.1 hs.nodup fd
  have hhand : 0 < s.tcpThreads.countP (fun pc => pc.hand = some fd) :=
    List.countP_pos_of_getElem? hpc (by simp [TcpThreadPc.hand])
  rw [count_outstanding] at hone
  refine ⟨fun hq => ?_, fun pc hmem hrecv => ?_, fun p hp hr hfd => ?_⟩
  · have := List.count_pos_iff.2 hq
    omega
  · -- a second worker would hold `fd` as well
    have hle : s.tcpThreads.countP (fun pc => pc.toRecv = some fd) ≤
        s.tcpThreads.countP (fun pc => pc.hand = some fd) :=
      List.countP_mono_left fun pc _ h => by
        simpa using TcpThreadPc.hand_of_toRecv (by simpa using h)
    have hset := List.countP_set_add hpc (fun pc => pc.toRecv = some fd) (.send fd)
    have hpos : 0 < (s.tcpThreads.set i (.send fd)).countP (fun pc => pc.toRecv = some fd) :=
      List.countP_pos_iff.2 ⟨pc, hmem, by simpa using hrecv⟩
    rw [if_pos (by simp [TcpThreadPc.toRecv]), if_neg (by simp [TcpThreadPc.toRecv])] at hset
    omega
  · subst hfd
    have hmem : p.fd ∈ outstanding s :=
      ToRecv.outstanding (.inr ⟨_, List.mem_of_getElem? hpc, rfl⟩)
    have hack := List.mem_of_mem_head? ((hs.flagged p hp hr).2 hmem).2.2
    have := List.count_pos_iff.2 hack
    omega

theorem Awaited.mono {s t : State} {fd : ℕ} (h : Awaited t fd)
    (hq : ∀ fd ∈ t.tcpClientsQ, ToRecv s fd)
    (hpc : ∀ pc ∈ t.tcpThreads, ∀ fd, pc.toRecv = some fd → ToRecv s fd)
    (hpfds : t.tcpPfds = s.tcpPfds) : Awaited s fd := by
  obtain (h | ⟨pc, hmem, hrecv⟩) | h := h
  · exact .inl (hq fd h)
  · exact .inl (hpc pc hmem fd hrecv)
  · exact .inr (hpfds ▸ h)

theorem custody_tcpServerThread {s t : State} {i : ℕ} (hs : Custody s)
    (h : tcpServerThread s i = some t) : Custody t := by
  refine (frame_tcpServerThread h).custody hs ?_
  -- what the other workers await, they awaited before
  have others {pc' : TcpThreadPc} {fd : ℕ} (hnew : pc'.toRecv = some fd → ToRecv s fd)
      (pc : TcpThreadPc) (hpc : pc ∈ s.tcpThreads.set i pc') (hrecv : pc.toRecv = some fd) :
      ToRecv s fd := by
    obtain hpc | rfl := List.mem_or_eq_of_mem_set hpc
    · exact .inr ⟨pc, hpc, hrecv⟩
    · exact hnew hrecv
  obtain ⟨pc, pc', free, busy, hpc, rfl, -, hrecv⟩ | ⟨fd, q, -, hq, rfl⟩ |
    ⟨fd, hpc, -, rfl⟩ | ⟨fd, -, -, rfl⟩ := tcpServerThread_cases h <;> intro g hg
  · refine ⟨hg.mono (fun _ hfd => .inl hfd)
      (fun pc₁ h₁ fd => others (fun hfd => ?_) pc₁ h₁) rfl, id⟩
    exact .inr ⟨pc, List.mem_of_getElem? hpc, hrecv fd hfd⟩
  · refine ⟨hg.mono (fun fd hfd => .inl (hq ▸ List.mem_cons_of_mem _ hfd))
      (fun pc₁ h₁ fd => others (fun hfd => ?_) pc₁ h₁) rfl, id⟩
    obtain rfl := Option.some.inj hfd
    exact .inl (hq ▸ List.mem_cons_self)
  · refine ⟨hg.mono (fun _ hfd => .inl hfd)
      (fun pc₁ h₁ fd => others (fun hfd => by cases hfd) pc₁ h₁) rfl, fun hread => ?_⟩
    -- the message received was awaited by this worker only
    obtain ⟨hclients, hthreads, hflags⟩ := hs.not_awaited hpc
    have hgf : g ≠ fd := by
      rintro rfl
      obtain (hg | ⟨pc, hmem, hrecv⟩) | ⟨p, hp, hr, hfd⟩ := hg
      · exact hclients hg
      · exact hthreads pc hmem hrecv
      · exact hflags p hp hr hfd
    simpa [Function.update_of_ne hgf] using hread
  · exact ⟨hg.mono (fun _ hfd => .inl hfd)
      (fun pc₁ h₁ fd => others (fun hfd => by cases hfd) pc₁ h₁) rfl, id⟩

/-- An entry still marked after the entry at `index` has been cleared is another client's. -/
theorem flagged_set {pfds : List Pollfd} {index : ℕ} {p p' : Pollfd}
    (hnodup : (pfds.map (·.fd)).Nodup) (hp : pfds[index]? = some p)
    (hmem : p' ∈ pfds.set index { p with revents := false }) (hr : p'.revents = true) :
    p' ∈ pfds ∧ p'.fd ≠ p.fd := by
  obtain ⟨j, hj⟩ := List.getElem?_of_mem hmem
  by_cases hij : index = j
  · subst hij
    rw [List.getElem?_set_self (List.lt_length_of_getElem?_eq_some hp)] at hj
    cases hj
    cases hr
  · rw [List.getElem?_set_ne hij] at hj
    refine ⟨List.mem_of_getElem? hj, fun hfd => hij ?_⟩
    refine (List.getElem?_inj ?_ hnodup).1 ?_
    · simpa using List.lt_length_of_getElem?_eq_some hp
    · rw [List.getElem?_map, List.getElem?_map, hp, hj, Option.map_some, Option.map_some, hfd]

theorem flagged_rearm {fd : ℕ} {pfds : List Pollfd} {p : Pollfd} (h : p ∈ rearm fd pfds) :
    ∃ p₀ ∈ pfds, p₀.fd = p.fd ∧ p₀.revents = p.revents := by
  induction pfds with
  | nil => cases h
  | cons q pfds ih =>
    rw [rearm] at h
    split at h
    · obtain rfl | h := List.mem_cons.1 h
      · exact ⟨q, List.mem_cons_self, rfl, rfl⟩
      · exact ⟨p, List.mem_cons_of_mem _ h, rfl, rfl⟩
    · obtain rfl | h := List.mem_cons.1 h
      · exact ⟨p, List.mem_cons_self, rfl, rfl⟩
      · obtain ⟨p₀, hp₀, h₀⟩ := ih h
        exact ⟨p₀, List.mem_cons_of_mem _ hp₀, h₀⟩

/-- The fd acknowledged is outstanding no more. -/
theorem outstanding_ack {s : State} {fd : ℕ} {q : List ℕ} (hq : s.tcpAckClientsQ = fd :: q) :
    (outstanding s).Perm (fd :: outstanding { s with tcpAckClientsQ := q }) := by
  simp only [outstanding, hq]
  exact List.perm_middle

/-- The fd dispatched is outstanding. -/
theorem outstanding_dispatch (s : State) (fd : ℕ) :
    (outstanding { s with tcpClientsQ := s.tcpClientsQ ++ [fd] }).Perm (fd :: outstanding s) := by
  simp only [outstanding, List.append_assoc, List.singleton_append]
  exact List.perm_middle

/-- What `tcpListener` does to the dispatched fds and to the history. -/
theorem outstanding_tcpListener {s t : State} {stale : Bool} (h : tcpListener s stale = some t) :
    (t.log = s.log ∧ outstanding t = outstanding s) ∨
    (∃ fd, t.log = s.log ++ [.acked fd] ∧ (outstanding s).Perm (fd :: outstanding t)) ∨
    ∃ index p, s.listener = .dispatch index ∧ s.tcpPfds[index]? = some p ∧ p.revents = true ∧
      t.log = s.log ++ [.dispatched p.fd (p.fd ∈ s.polled)] ∧
      (outstanding t).Perm (p.fd :: outstanding s) := by
  obtain ⟨-, rfl⟩ | ⟨fd, q, -, -, -, rfl⟩ | ⟨fd, q, -, -, hq, rfl⟩ |
    ⟨index, p, hl, hp, hr, -, rfl⟩ | ⟨pc, rfl, -⟩ := tcpListener_cases h
  · exact .inl ⟨rfl, rfl⟩
  · exact .inl ⟨rfl, rfl⟩
  · exact .inr (.inl ⟨fd, rfl, outstanding_ack hq⟩)
  · exact .inr (.inr ⟨index, p, hl, hp, hr, rfl, outstanding_dispatch s p.fd⟩)
  · exact .inl ⟨rfl, rfl⟩

/-- `poll` marks the readable entries. -/
theorem Custody.poll {s : State} (hs : Custody s)
    (hfirst : ∀ p ∈ s.tcpPfds, (s.sock p.fd).readable = true → p.fd ∈ outstanding s →
      s.tcpAckClientsQ.head? = some p.fd) :
    Custody { s with
      listener := .fds
      fdsReady := !s.tcpFdsQ.isEmpty
      acksReady := !s.tcpAckClientsQ.isEmpty
      tcpPfds := pollRevents s.sock s.tcpPfds
      polled := ((pollRevents s.sock s.tcpPfds).filter (·.revents)).map (·.fd) } := by
  refine ⟨hs.nodup, fun fd hfd => ?_, fun fd hfd => ?_, fun p hp hr => ⟨?_, fun hout => ?_⟩⟩
  · simpa only [map_fd_pollRevents] using hs.registered fd hfd
  · obtain hfd | ⟨p, hp, hr, rfl⟩ := hfd
    · exact hs.readable fd (.inl hfd)
    · obtain ⟨p, -, rfl⟩ := List.mem_map.1 hp
      exact (Bool.and_eq_true_iff.1 hr).2
  · exact List.mem_map_of_mem (List.mem_filter.2 ⟨hp, hr⟩)
  · obtain ⟨p, hmem, rfl⟩ := List.mem_map.1 hp
    have hhead := hfirst p hmem (Bool.and_eq_true_iff.1 hr).2 hout
    refine ⟨.inl rfl, ?_, hhead⟩
    cases hq : s.tcpAckClientsQ with
    | nil => simp [hq] at hhead
    | cons => rfl

/-- A new entry that is not marked. -/
theorem Custody.register {s : State} (hs : Custody s) (fd : ℕ) (q : List ℕ) :
    Custody { s with
      listener := .acks
      fdsReady := false
      tcpFdsQ := q
      servedTcpClients := s.servedTcpClients + 1
      tcpPfds := s.tcpPfds ++ [⟨fd, true, false⟩] } := by
  have hold : ∀ p ∈ s.tcpPfds ++ [⟨fd, true, false⟩], p.revents = true → p ∈ s.tcpPfds := by
    intro p hp hr
    obtain hp | hp := List.mem_append.1 hp
    · exact hp
    · obtain rfl := List.mem_singleton.1 hp
      cases hr
  refine ⟨hs.nodup, fun g hg => ?_, fun g hg => ?_, fun p hp hr => ?_⟩
  · rw [List.map_append]
    exact List.mem_append_left _ (hs.registered g hg)
  · obtain hg | ⟨p, hp, hr, rfl⟩ := hg
    · exact hs.readable g (.inl hg)
    · exact hs.readable _ (.inr ⟨p, hold p hp hr, hr, rfl⟩)
  · obtain ⟨hpolled, hpending⟩ := hs.flagged p (hold p hp hr) hr
    refine ⟨hpolled, fun hout => ?_⟩
    obtain ⟨-, hready, hhead⟩ := hpending hout
    exact ⟨.inr rfl, hready, hhead⟩

/-- The acknowledgement taken is the one that was pending. -/
theorem Custody.takeAck {s : State} {fd : ℕ} {q : List ℕ} (hs : Custody s)
    (hq : s.tcpAckClientsQ = fd :: q) :
    Custody { s with
      listener := .dispatch 0
      acksReady := false
      tcpAckClientsQ := q
      tcpPfds := rearm fd s.tcpPfds
      log := s.log ++ [.acked fd] } := by
  have hperm := outstanding_ack hq
  have hnodup := List.nodup_cons.1 (hperm.nodup_iff.1 hs.nodup)
  refine ⟨hnodup.2, fun g hg => ?_, fun g hg => ?_, fun p hp hr => ?_⟩
  · rw [map_fd_rearm]
    exact hs.registered g (hperm.mem_iff.2 (List.mem_cons_of_mem _ hg))
  · obtain hg | ⟨p, hp, hr, rfl⟩ := hg
    · exact hs.readable g (.inl hg)
    · obtain ⟨p₀, hp₀, hfd, hr₀⟩ := flagged_rearm hp
      exact hs.readable _ (.inr ⟨p₀, hp₀, hr₀ ▸ hr, hfd⟩)
  · obtain ⟨p₀, hp₀, hfd, hr₀⟩ := flagged_rearm hp
    obtain ⟨hpolled, hpending⟩ := hs.flagged p₀ hp₀ (hr₀ ▸ hr)
    rw [hfd] at hpolled hpending
    refine ⟨hpolled, fun hout => absurd hout ?_⟩
    obtain ⟨-, -, hhead⟩ := hpending (hperm.mem_iff.2 (List.mem_cons_of_mem _ hout))
    obtain rfl : fd = p.fd := by simpa [hq] using hhead
    exact hnodup.1

/-- The entry dispatched was not outstanding, and is cleared. -/
theorem Custody.dispatch {s : State} {index : ℕ} {p : Pollfd} (hs : Custody s)
    (hpfds : (s.tcpPfds.map (·.fd)).Nodup) (hl : s.listener = .dispatch index)
    (hp : s.tcpPfds[index]? = some p) (hr : p.revents = true) :
    Custody { s with
      listener := .dispatch (index + 1)
      tcpClientsQ := s.tcpClientsQ ++ [p.fd]
      tcpPfds := s.tcpPfds.set index { p with revents := false }
      log := s.log ++ [.dispatched p.fd (p.fd ∈ s.polled)] } := by
  have hnone : ∀ p ∈ s.tcpPfds, p.revents = true → p.fd ∉ outstanding s := by
    intro p hp hr hout
    obtain ⟨hl' | hl', -⟩ := (hs.flagged p hp hr).2 hout <;> rw [hl] at hl' <;> cases hl'
  have hmem := List.mem_of_getElem? hp
  have hperm := outstanding_dispatch s p.fd
  refine ⟨hperm.nodup_iff.2 (List.nodup_cons.2 ⟨hnone p hmem hr, hs.nodup⟩), fun g hg => ?_,
    fun g hg => ?_, fun p' hp' hr' => ?_⟩
  · rw [map_fd_set hp]
    obtain rfl | hg := List.mem_cons.1 (hperm.mem_iff.1 hg)
    · exact List.mem_map_of_mem hmem
    · exact hs.registered g hg
  · obtain (hg | hg) | ⟨p', hp', hr', rfl⟩ := hg
    · obtain hg | hg := List.mem_append.1 hg
      · exact hs.readable g (.inl (.inl hg))
      · obtain rfl := List.mem_singleton.1 hg
        exact hs.readable _ (.inr ⟨p, hmem, hr, rfl⟩)
    · exact hs.readable g (.inl (.inr hg))
    · exact hs.readable _ (.inr ⟨p', (flagged_set hpfds hp hp' hr').1, hr', rfl⟩)
  · obtain ⟨hold, hne⟩ := flagged_set hpfds hp hp' hr'
    refine ⟨(hs.flagged p' hold hr').1, fun hout => ?_⟩
    obtain heq | hout := List.mem_cons.1 (hperm.mem_iff.1 hout)
    · exact absurd heq hne
    · exact absurd hout (hnone p' hold hr')

/-- The listener moves on: where it stops waiting for an acknowledgement, none was pending. -/
theorem Custody.moveOn {s : State} {pc : ListenerPc} (hs : Custody s)
    (hpc : ∀ fd, AckPending s fd → pc = .acks) : Custody { s with listener := pc } := by
  refine ⟨hs.nodup, hs.registered, fun fd hfd => hs.readable fd hfd, fun p hp hr => ?_⟩
  obtain ⟨hpolled, hpending⟩ := hs.flagged p hp hr
  refine ⟨hpolled, fun hout => ?_⟩
  have hack := hpending hout
  exact ⟨.inr (hpc p.fd hack), hack.2⟩

theorem custody_tcpListener {s t : State} {stale : Bool} (hreg : Registered s) (hs : Custody s)
    (hc : AckedFirst s (.listener stale)) (h : tcpListener s stale = some t) : Custody t := by
  obtain ⟨hpoll, hfds⟩ := hc
  obtain ⟨hl, rfl⟩ | ⟨fd, q, hl, hready, -, rfl⟩ | ⟨fd, q, -, -, hq, rfl⟩ |
    ⟨index, p, hl, hp, hr, -, rfl⟩ | ⟨pc, rfl, hpc⟩ := tcpListener_cases h
  · exact hs.poll (hpoll hl)
  · rw [hfds hl hready]
    exact hs.register fd q
  · exact hs.takeAck hq
  · exact hs.dispatch (List.nodup_append'.1 hreg.nodup).2.1 hl hp hr
  · refine hs.moveOn fun fd hpending => ?_
    obtain ⟨hl, hready, -⟩ := hpending
    obtain ⟨-, rfl⟩ | ⟨-, hack, -⟩ | ⟨i, hl', -⟩ | ⟨i, p', hl', -⟩ := hpc
    · rfl
    · rw [hack] at hready
      cases hready
    · rcases hl with hl | hl <;> rw [hl] at hl' <;> cases hl'
    · rcases hl with hl | hl <;> rw [hl] at hl' <;> cases hl'

theorem Custody.step {s t : State} {a : Action} (hreg : Registered s) (hs : Custody s)
    (hc : AckedFirst s a) (h : producerServer.step s a = some t) : Custody t := by
  cases a with
  | main =>
    refine (frame_of_step (by simp) h).custody hs fun fd hfd => ?_
    obtain ⟨p, hp, rfl⟩ := Option.map_eq_some_iff.1 h
    obtain ⟨pc, rfl, -⟩ | ⟨pc, rfl, -⟩ | ⟨fd, -, rfl⟩ | ⟨fd, -, -, rfl⟩ :=
      Pool.mainStep_cases hp
    · exact ⟨hfd, id⟩
    · refine ⟨hfd.mono (fun _ h => .inl h) (fun pc₁ h₁ g hrecv => ?_) rfl, id⟩
      obtain h₁ | h₁ := List.mem_append.1 h₁
      · exact .inr ⟨pc₁, h₁, hrecv⟩
      · obtain rfl := List.mem_singleton.1 h₁
        cases hrecv
    · exact ⟨hfd, id⟩
    · exact ⟨hfd, id⟩
  | accept fd =>
    refine (frame_of_step (by simp) h).custody hs fun g hg => ?_
    obtain ⟨p, hp, rfl⟩ := Option.map_eq_some_iff.1 h
    obtain ⟨-, hnone, rfl⟩ := Pool.accept_eq_some hp
    -- the new fd is not awaited: it was not open
    have hg : Awaited s g := hg
    refine ⟨hg, fun hread => ?_⟩
    have hgf : g ≠ fd := by
      rintro rfl
      exact hreg.isOpen g (hg.registered hs) hnone
    simpa [Function.update_of_ne hgf] using hread
  | listener stale => exact custody_tcpListener hreg hs hc h
  | thread i => exact custody_tcpServerThread hs h
  | clientSend fd | clientClose fd =>
    refine (frame_of_step (by simp) h).custody hs fun g hg => ?_
    simp only [producerServer, Producer.step] at h
    split at h
    · cases h
    · obtain rfl := Option.some.inj h
      refine ⟨hg, fun hread => ?_⟩
      by_cases hgf : g = fd
      · subst hgf
        simp [Socket.readable]
      · simpa [Function.update_of_ne hgf] using hread

theorem custody_of_reachable {s : State} (h : producerServer.ReachableUnder AckedFirst s) :
    Custody s := by
  refine h.invariant (fun s hs => ?_) fun s a t hreach hcust hc hstep =>
    hcust.step (registered_of_reachable hreach.reachable) hc hstep
  obtain rfl := hs
  refine ⟨List.nodup_nil, by simp [outstanding, initial, Pool.initial], fun fd hfd => ?_,
    by simp [initial]⟩
  obtain (h | ⟨pc, h, -⟩) | ⟨p, h, -⟩ := hfd <;> cases h

/-! ### The history of the listener -/

/-- The history is disciplined, and an fd that is not outstanding may be dispatched. -/
structure Logged (s : State) : Prop where
  reported : ∀ fd r, Event.dispatched fd r ∈ s.log → r = true
  alternating : Alternating s.log
  settled : ∀ fd, fd ∉ outstanding s → Settled fd s.log

theorem logged_tcpListener {s t : State} {stale : Bool} (hcust : Custody s) (hs : Logged s)
    (h : tcpListener s stale = some t) : Logged t := by
  obtain ⟨hlog, hout⟩ | ⟨fd, hlog, hperm⟩ | ⟨index, p, hl, hp, hr, hlog, hperm⟩ :=
    outstanding_tcpListener h
  · refine ⟨?_, ?_, ?_⟩ <;> rw [hlog]
    · exact hs.reported
    · exact hs.alternating
    · exact fun fd hfd => hs.settled fd (hout ▸ hfd)
  · refine ⟨fun g r hg => ?_, ?_, fun g hg => ?_⟩
    · rw [hlog] at hg
      exact hs.reported g r (by simpa using hg)
    · rw [hlog]
      exact hs.alternating.concat (by simp)
    · rw [hlog]
      by_cases hgf : g = fd
      · exact hgf ▸ settled_acked g s.log
      · have hg : g ∉ outstanding s := fun hmem => hg (by simpa [hgf] using hperm.mem_iff.1 hmem)
        exact (hs.settled g hg).concat (by simp)
  · obtain ⟨hpolled, hpending⟩ := hcust.flagged p (List.mem_of_getElem? hp) hr
    have hfree : p.fd ∉ outstanding s := by
      intro hmem
      obtain ⟨hl' | hl', -⟩ := hpending hmem <;> rw [hl] at hl' <;> cases hl'
    refine ⟨fun g r hg => ?_, ?_, fun g hg => ?_⟩
    · rw [hlog] at hg
      obtain hg | hg := List.mem_append.1 hg
      · exact hs.reported g r hg
      · obtain ⟨-, rfl⟩ := Event.dispatched.inj (List.mem_singleton.1 hg)
        exact decide_eq_true hpolled
    · rw [hlog]
      refine hs.alternating.concat fun fd r he => ?_
      obtain ⟨rfl, -⟩ := Event.dispatched.inj he
      exact hs.settled p.fd hfree
    · have hg' : g ≠ p.fd ∧ g ∉ outstanding s := by
        rw [hperm.mem_iff, List.mem_cons, not_or] at hg
        exact hg
      rw [hlog]
      exact (hs.settled g hg'.2).concat fun r he => hg'.1 (Event.dispatched.inj he).1.symm

theorem logged_of_reachable {s : State} (h : producerServer.ReachableUnder AckedFirst s) :
    Logged s := by
  refine h.invariant (fun s hs => ?_) fun s a t hreach hlogged _ hstep => ?_
  · obtain rfl := hs
    exact ⟨by simp [initial], alternating_nil, fun fd _ => settled_nil fd⟩
  · cases a with
    | listener stale => exact logged_tcpListener (custody_of_reachable hreach) hlogged hstep
    | _ =>
      have hframe := frame_of_step (by simp) hstep
      refine ⟨?_, ?_, ?_⟩ <;> rw [hframe.log]
      · exact hlogged.reported
      · exact hlogged.alternating
      · exact fun fd hfd => hlogged.settled fd fun hmem => hfd (hframe.outstanding.mem_iff.2 hmem)

/-- **Dispatch discipline.** While the listener polls only when the readable clients are not
outstanding, or acknowledged first in this pass, each fd is dispatched once for each time it is
reported and acknowledged, whatever the interleaving of listener, workers and clients. -/
theorem dispatch_disciplined {s : State} (h : producerServer.ReachableUnder AckedFirst s) :
    Disciplined s := by
  have hlogged := logged_of_reachable h
  have hcust := custody_of_reachable h
  have hone (fd : ℕ) : s.tcpClientsQ.count fd +
      s.tcpThreads.countP (fun pc => pc.hand = some fd) + s.tcpAckClientsQ.count fd ≤ 1 := by
    rw [← count_outstanding]
    exact List.nodup_iff_count_le_one.1 hcust.nodup fd
  refine ⟨hlogged.reported, hlogged.alternating, hone, fun i j fd hi hj => ?_, fun i fd hi => ?_⟩
  · have hpos : 0 < s.tcpThreads.countP (fun pc => pc.hand = some fd) :=
      List.countP_pos_of_getElem? hi (by simp [TcpThreadPc.hand])
    have hcount : s.tcpThreads.countP (fun pc => pc.hand = some fd) = 1 := by
      have := hone fd
      omega
    obtain ⟨k, -, huniq⟩ := List.countP_eq_one_iff.1 hcount
    exact (huniq i ⟨_, hi, by simp [TcpThreadPc.hand]⟩).trans
      (huniq j ⟨_, hj, by simp [TcpThreadPc.hand]⟩).symm
  · exact hcust.readable fd (.inl (.inr ⟨_, List.mem_of_getElem? hi, rfl⟩))

/-- One message is dispatched, received, answered and acknowledged, and the acknowledgement
taken. -/
def oneMessage : List Action :=
  startUp ++ connect 5 0 ++ [.clientSend 5] ++ List.replicate 5 (.listener false) ++
    List.replicate 8 (.thread 0) ++ List.replicate 3 (.listener false)

theorem dispatch_disciplined_oneMessage :
    Disciplined ((producerServer.runUnder AckedFirst initial oneMessage).get (by decide +kernel)) :=
  dispatch_disciplined (Machine.reachableUnder_of_run rfl (Option.some_get _).symm)

/-- The client with fd 5 sends one message, and the listener polls twice before a worker takes
the fd. -/
def twoPasses : List Action :=
  startUp ++ connect 5 0 ++ [.clientSend 5] ++ List.replicate 10 (.listener false)

def dispatchedAgain : State := (producerServer.run initial twoPasses).get (by decide +kernel)

/-- The fd is then twice in `tcp_clients_q`. -/
theorem dispatched_twice : ¬ ∀ s, producerServer.Reachable s → Disciplined s := by
  intro h
  have hone :=
    (h dispatchedAgain (Machine.reachable_of_run rfl (Option.some_get _).symm)).onePlace 5
  have hq : dispatchedAgain.tcpClientsQ = [5, 5] := by decide +kernel
  rw [hq] at hone
  exact absurd (le_of_add_le_left (le_of_add_le_left hone)) (by decide)

end EmbeddedC.ClientService.Producer
