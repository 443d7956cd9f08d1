import EmbeddedC.ClientService.MultiprotoServer

/-!
# Homework 16: who owns an accepted connection

Every accepted connection of `multiproto_server` has one owner at a time.  The argument is made
on `Custody`, which forgets everything but who holds which fd: an fd waits with the main thread
or in `tcp_fds_q`, then it is in a worker's hand, then its connection is closed and the fd is
free to name a later connection.

* `Custody.Step`, `Custody.Valid`: the life of an fd, and its invariant;
* `step_custody`: every step of the server is such a step, or leaves custody as it was;
* `connection_in_one_place`: the owner is unique, in every reachable state.
-/

namespace EmbeddedC.ClientService.Multiproto

/-! ### Custody of descriptors -/

/-- Who holds which fd: fds not yet taken by a worker, fds in workers' hands, and the histories
of the connections taken and closed. -/
structure Custody where
  waiting : List ℕ
  held : List ℕ
  conn : ℕ → Option ℕ
  accepted : ℕ
  taken : List ℕ
  closed : List ℕ

namespace Custody

/-- The connections named by the fds in custody, and those closed. -/
def conns (u : Custody) : List (Option ℕ) :=
  (u.waiting ++ u.held).map u.conn ++ u.closed.map some

/-- One change of custody. -/
inductive Step (u : Custody) : Custody → Prop
  /-- an fd changes place on the same side of `mq_receive` -/
  | move {w h} (hw : w.Perm u.waiting) (hh : h.Perm u.held) :
      Step u { u with waiting := w, held := h }
  /-- a connection is accepted under an fd that is not open -/
  | accept {fd w} (hfd : u.conn fd = none) (hw : w.Perm (fd :: u.waiting)) :
      Step u { u with
        waiting := w
        conn := Function.update u.conn fd (some u.accepted)
        accepted := u.accepted + 1 }
  /-- a worker takes an fd -/
  | take {fd w h} (hw : u.waiting.Perm (fd :: w)) (hh : h.Perm (fd :: u.held)) :
      Step u { u with waiting := w, held := h, taken := u.taken ++ (u.conn fd).toList }
  /-- a worker closes the fd in its hand -/
  | close {fd h} (hh : u.held.Perm (fd :: h)) :
      Step u { u with
        held := h
        conn := Function.update u.conn fd none
        closed := u.closed ++ (u.conn fd).toList }

/-- Every accepted connection is in custody or closed, once; the connections taken are those in
workers' hands and those closed. -/
structure Valid (u : Custody) : Prop where
  conns : u.conns.Perm ((List.range u.accepted).map some)
  taken : (u.taken.map some).Perm (u.held.map u.conn ++ u.closed.map some)

theorem Valid.nodup {u : Custody} (h : u.Valid) : u.conns.Nodup :=
  h.conns.nodup_iff.2 (List.nodup_range.map (Option.some_injective ℕ))

/-- An fd in custody is open. -/
theorem Valid.isOpen {u : Custody} (h : u.Valid) {fd : ℕ} (hfd : fd ∈ u.waiting ++ u.held) :
    ∃ c, u.conn fd = some c := by
  have hmem : u.conn fd ∈ (List.range u.accepted).map some :=
    h.conns.mem_iff.1 (List.mem_append_left _ (List.mem_map_of_mem hfd))
  obtain ⟨c, -, hc⟩ := List.mem_map.1 hmem
  exact ⟨c, hc.symm⟩

theorem map_update_of_notMem {f : ℕ → Option ℕ} {l : List ℕ} {fd : ℕ} (h : fd ∉ l)
    (v : Option ℕ) : l.map (Function.update f fd v) = l.map f :=
  List.map_congr_left fun x hx => Function.update_of_ne (by rintro rfl; exact h hx) ..

theorem Valid.move {u : Custody} (h : u.Valid) {w k : List ℕ} (hw : w.Perm u.waiting)
    (hk : k.Perm u.held) : Valid { u with waiting := w, held := k } where
  conns := ((((hw.append hk).map _).append_right _)).trans h.conns
  taken := h.taken.trans ((hk.symm.map _).append_right _)

theorem Valid.accept {u : Custody} (h : u.Valid) {fd : ℕ} {w : List ℕ} (hfd : u.conn fd = none)
    (hw : w.Perm (fd :: u.waiting)) :
    Valid { u with
      waiting := w
      conn := Function.update u.conn fd (some u.accepted)
      accepted := u.accepted + 1 } := by
  have hnot : fd ∉ u.waiting ++ u.held := by
    intro hmem
    obtain ⟨c, hc⟩ := h.isOpen hmem
    rw [hfd] at hc
    cases hc
  constructor
  · have hperm : ((w ++ u.held).map (Function.update u.conn fd (some u.accepted))).Perm
        (some u.accepted :: (u.waiting ++ u.held).map u.conn) := by
      refine ((hw.append_right u.held).map _).trans ?_
      rw [List.cons_append, List.map_cons, Function.update_self, map_update_of_notMem hnot]
    calc Custody.conns _
        |>.Perm (some u.accepted :: u.conns) := hperm.append_right _
      _ |>.Perm (some u.accepted :: (List.range u.accepted).map some) := h.conns.cons _
      _ |>.Perm ((List.range (u.accepted + 1)).map some) := by
        rw [List.range_succ, List.map_append]
        exact (List.perm_append_singleton _ _).symm
  · have hheld : fd ∉ u.held := fun hmem => hnot (List.mem_append_right _ hmem)
    simpa [map_update_of_notMem hheld] using h.taken

theorem Valid.take {u : Custody} (h : u.Valid) {fd : ℕ} {w k : List ℕ}
    (hw : u.waiting.Perm (fd :: w)) (hk : k.Perm (fd :: u.held)) :
    Valid { u with waiting := w, held := k, taken := u.taken ++ (u.conn fd).toList } := by
  obtain ⟨c, hc⟩ := h.isOpen (List.mem_append_left _ (hw.mem_iff.2 List.mem_cons_self))
  constructor
  · have hperm : (w ++ k).Perm (u.waiting ++ u.held) :=
      ((hk.append_left w).trans List.perm_middle).trans (hw.append_right u.held).symm
    exact ((hperm.map _).append_right _).trans h.conns
  · simp only [hc, Option.toList_some, List.map_append, List.map_cons, List.map_nil]
    refine (List.perm_append_singleton _ _).trans ?_
    refine (h.taken.cons _).trans ?_
    have := (hk.map u.conn).symm
    rw [List.map_cons, hc] at this
    exact this.append_right _

theorem Valid.close {u : Custody} (h : u.Valid) {fd : ℕ} {k : List ℕ}
    (hk : u.held.Perm (fd :: k)) :
    Valid { u with
      held := k
      conn := Function.update u.conn fd none
      closed := u.closed ++ (u.conn fd).toList } := by
  obtain ⟨c, hc⟩ := h.isOpen (List.mem_append_right _ (hk.mem_iff.2 List.mem_cons_self))
  have hperm : u.conns.Perm (some c :: ((u.waiting ++ k).map u.conn ++ u.closed.map some)) := by
    refine ((((hk.append_left u.waiting).trans List.perm_middle).map _).append_right _).trans ?_
    rw [List.map_cons, hc, List.cons_append]
  -- the connection is named once, so no other fd in custody is `fd`
  have hnot : fd ∉ u.waiting ++ k := by
    intro hmem
    refine (List.nodup_cons.1 (hperm.nodup_iff.1 h.nodup)).1 ?_
    exact hc ▸ List.mem_append_left _ (List.mem_map_of_mem hmem)
  have hnk : fd ∉ k := fun hmem => hnot (List.mem_append_right _ hmem)
  constructor
  · refine List.Perm.trans ?_ (hperm.symm.trans h.conns)
    simp only [Custody.conns, hc, Option.toList_some, List.map_append, List.map_cons,
      List.map_nil, map_update_of_notMem hnot]
    rw [← List.append_assoc]
    exact List.perm_append_singleton _ _
  · refine h.taken.trans ?_
    simp only [hc, Option.toList_some, List.map_append, List.map_cons, List.map_nil,
      map_update_of_notMem hnk]
    refine ((hk.map u.conn).append_right _).trans ?_
    rw [List.map_cons, hc, ← List.append_assoc]
    exact (List.perm_append_singleton _ _).symm

theorem Valid.step {u v : Custody} (h : u.Valid) (hs : u.Step v) : v.Valid := by
  cases hs with
  | move hw hh => exact h.move hw hh
  | accept hfd hw => exact h.accept hfd hw
  | take hw hh => exact h.take hw hh
  | close hh => exact h.close hh

end Custody

/-! ### The server refines custody -/

/-- The custody of a server state. -/
def State.custody (s : State) : Custody where
  waiting := s.main.hand.toList ++ s.tcpFdsQ
  held := s.tcpThreads.filterMap TcpThreadPc.hand
  conn := s.conn
  accepted := s.accepted
  taken := s.taken
  closed := s.closed

/-- A call that moves worker `i` between phases with the same hand. -/
theorem held_perm_of_same {l : List TcpThreadPc} {i : ℕ} {pc pc' : TcpThreadPc}
    (hpc : l[i]? = some pc) (hh : pc'.hand = pc.hand) :
    ((l.set i pc').filterMap TcpThreadPc.hand).Perm (l.filterMap TcpThreadPc.hand) := by
  obtain ⟨rest, hl, hset⟩ := List.filterMap_set_perm hpc TcpThreadPc.hand
  have := hset pc'
  rw [hh] at this
  exact this.trans hl.symm

/-- A call of a worker is a change of custody. -/
theorem thread_custody {s t : State} {i : ℕ} (hs : tcpServerThread s i = some t) :
    s.custody.Step t.custody := by
  obtain ⟨pc, pc', free, busy, hpc, hmoves, -, -, rfl⟩ | ⟨fd, q, hpc, hq, rfl⟩ |
    ⟨fd, hpc, rfl⟩ | ⟨c, hpc, rfl⟩ := tcpServerThread_cases hs
  · exact .move (.refl _) (held_perm_of_same hpc hmoves.hand)
  · obtain ⟨rest, hl, hset⟩ := List.filterMap_set_perm hpc TcpThreadPc.hand
    have hw : s.custody.waiting.Perm (fd :: (s.main.hand.toList ++ q)) := by
      show (s.main.hand.toList ++ s.tcpFdsQ).Perm _
      rw [hq]
      exact List.perm_middle
    exact .take hw ((hset (.waitFree fd)).trans (hl.symm.cons fd))
  · obtain ⟨rest, hl, hset⟩ := List.filterMap_set_perm hpc TcpThreadPc.hand
    exact .close (hl.trans ((hset (.waitBusy _)).symm.cons _))
  · exact .move (.refl _) (held_perm_of_same hpc rfl)

/-- **Refinement**: every step of the server is a change of custody. -/
theorem step_custody {s t : State} {a : Action} (hs : step s a = some t) :
    s.custody.Step t.custody := by
  cases a with
  | main =>
    obtain ⟨p, hp, rfl⟩ := Option.map_eq_some_iff.1 hs
    rcases Pool.mainStep_cases hp with ⟨pc, rfl, hh⟩ | ⟨pc, rfl, hh⟩ | ⟨fd, hm, rfl⟩ |
      ⟨fd, hm, -, rfl⟩
    · exact .move (by simp [State.custody, hh]) (.refl _)
    · exact .move (by simp [State.custody, hh])
        (by simp [State.custody, List.filterMap_cons, TcpThreadPc.hand])
    · exact .move (by simp [State.custody, hm, MainPc.hand]) (.refl _)
    · refine .move ?_ (.refl _)
      simp only [State.custody, hm, MainPc.hand, Option.toList_none, Option.toList_some,
        List.nil_append, List.singleton_append]
      exact List.perm_append_singleton fd s.tcpFdsQ
  | accept fd =>
    obtain ⟨p, hp, rfl⟩ := Option.map_eq_some_iff.1 hs
    obtain ⟨hm, hfd, rfl⟩ := Pool.accept_eq_some hp
    exact .accept hfd (by simp [State.custody, hm, MainPc.hand])
  | thread i => exact thread_custody hs

theorem custody_valid {s : State} (h : multiprotoServer.Reachable s) : s.custody.Valid := by
  refine h.invariant (I := fun s => s.custody.Valid) (fun _ h₀ => ?_)
    fun _ _ _ _ hi hs => hi.step (step_custody hs)
  rw [h₀]
  exact ⟨by decide, by decide⟩

/-! ### Served connections -/

/-- The connections of iterations between `close` and `sem_post(clients_count_sem)`. -/
def State.finishing (s : State) : List ℕ := s.tcpThreads.filterMap TcpThreadPc.finishing

/-- The connections whose worker has completed its loop iteration: closed, and no worker is
still finishing with them. -/
def State.completed (s : State) : List ℕ := s.closed.filter fun c => c ∉ s.finishing

/-- After `close` the worker knows which connection it closed. -/
def TcpThreadPc.Sound : TcpThreadPc → Prop
  | .waitBusy c | .postFree c | .postServed c => c.isSome
  | _ => True

/-- `served_tcp_clients` counts the closed connections that no worker is finishing. -/
structure Serving (s : State) : Prop where
  sound : ∀ pc ∈ s.tcpThreads, pc.Sound
  split : ∃ done, (done ++ s.finishing).Perm s.closed ∧ done.length = s.servedTcpClients

theorem Serving.of_same {s t : State} (h : Serving s) (hsound : ∀ pc ∈ t.tcpThreads, pc.Sound)
    (hf : t.finishing.Perm s.finishing) (hc : t.closed = s.closed)
    (hserved : t.servedTcpClients = s.servedTcpClients) : Serving t := by
  obtain ⟨done, hperm, hlen⟩ := h.split
  exact ⟨hsound, done, by rw [hc]; exact (hf.append_left done).trans hperm, by rw [hserved, hlen]⟩

/-- A call that moves worker `i` between phases that finish the same connection. -/
theorem Serving.setThread {s t : State} (h : Serving s) {i : ℕ} {pc pc' : TcpThreadPc}
    (hpc : s.tcpThreads[i]? = some pc) (ht : t.tcpThreads = s.tcpThreads.set i pc')
    (hsound : pc'.Sound) (hf : pc'.finishing = pc.finishing) (hc : t.closed = s.closed)
    (hserved : t.servedTcpClients = s.servedTcpClients) : Serving t := by
  refine h.of_same ?_ ?_ hc hserved
  · rw [ht]
    intro x hx
    rcases List.mem_or_eq_of_mem_set hx with hx | rfl
    · exact h.sound x hx
    · exact hsound
  · obtain ⟨rest, hl, hset⟩ := List.filterMap_set_perm hpc TcpThreadPc.finishing
    have := hset pc'
    rw [hf, ← ht] at this
    exact this.trans hl.symm

theorem TcpThreadPc.Moves.sound {pc pc' : TcpThreadPc} (h : pc.Moves pc') (hpc : pc.Sound) :
    pc'.Sound := by
  cases h <;> exact hpc

theorem Serving.thread {s t : State} {i : ℕ} (h : Serving s) (hv : s.custody.Valid)
    (hs : tcpServerThread s i = some t) : Serving t := by
  have hsnd : ∀ pc, s.tcpThreads[i]? = some pc → pc.Sound := fun pc hpc =>
    h.sound pc (List.mem_of_getElem? hpc)
  obtain ⟨pc, pc', free, busy, hpc, hmoves, -, -, rfl⟩ | ⟨fd, q, hpc, -, rfl⟩ |
    ⟨fd, hpc, rfl⟩ | ⟨c, hpc, rfl⟩ := tcpServerThread_cases hs
  · exact h.setThread hpc rfl (hmoves.sound (hsnd pc hpc)) hmoves.finishing rfl rfl
  · exact h.setThread hpc rfl trivial rfl rfl rfl
  · -- the connection is closed, and the worker begins to finish with it
    have hheld : fd ∈ s.custody.held :=
      List.mem_filterMap.2 ⟨_, List.mem_of_getElem? hpc, rfl⟩
    obtain ⟨c, hc⟩ := hv.isOpen (List.mem_append_right _ hheld)
    replace hc : s.conn fd = some c := hc
    obtain ⟨done, hperm, hlen⟩ := h.split
    obtain ⟨rest, hl, hset⟩ := List.filterMap_set_perm hpc TcpThreadPc.finishing
    refine ⟨fun x hx => ?_, done, ?_, hlen⟩
    · rcases List.mem_or_eq_of_mem_set hx with hx | rfl
      · exact h.sound x hx
      · simp [TcpThreadPc.Sound, hc]
    · have hfin := hset (.waitBusy (s.conn fd))
      simp only [TcpThreadPc.finishing, hc, Option.toList_some, List.singleton_append] at hfin
      simp only [State.finishing, hc, Option.toList_some]
      calc done ++ _
          |>.Perm (done ++ c :: rest) := hfin.append_left done
        _ |>.Perm (c :: (done ++ rest)) := List.perm_middle
        _ |>.Perm (c :: s.closed) := ((hl.symm.append_left done).trans hperm).cons c
        _ |>.Perm (s.closed ++ [c]) := (List.perm_append_singleton c s.closed).symm
  · -- the iteration is complete
    obtain ⟨c, rfl⟩ : ∃ c', c = some c' := Option.isSome_iff_exists.1 (hsnd _ hpc)
    obtain ⟨done, hperm, hlen⟩ := h.split
    obtain ⟨rest, hl, hset⟩ := List.filterMap_set_perm hpc TcpThreadPc.finishing
    refine ⟨fun x hx => ?_, c :: done, ?_, by simp [hlen]⟩
    · rcases List.mem_or_eq_of_mem_set hx with hx | rfl
      · exact h.sound x hx
      · trivial
    · have hfin := hset .receive
      simp only [TcpThreadPc.finishing, Option.toList_none, List.nil_append] at hfin
      calc (c :: done) ++ _
          |>.Perm ((c :: done) ++ rest) := hfin.append_left _
        _ |>.Perm (done ++ c :: rest) := List.perm_middle.symm
        _ |>.Perm s.closed := (hl.symm.append_left done).trans hperm

theorem serving {s : State} (h : multiprotoServer.Reachable s) : Serving s := by
  refine h.invariant (fun _ h₀ => ?_) fun s a t hr hi hs => ?_
  · rw [h₀]
    exact ⟨by simp [initial, Pool.initial], [], by decide, rfl⟩
  · cases a with
    | main =>
      obtain ⟨p, hp, rfl⟩ := Option.map_eq_some_iff.1 hs
      rcases Pool.mainStep_cases hp with ⟨pc, rfl, -⟩ | ⟨pc, rfl, -⟩ | ⟨fd, -, rfl⟩ |
        ⟨fd, -, -, rfl⟩
      · exact hi.of_same hi.sound (.refl _) rfl rfl
      · refine hi.of_same ?_ ?_ rfl rfl
        · simpa [TcpThreadPc.Sound, or_imp, forall_and] using hi.sound
        · simp [State.finishing, List.filterMap_cons, TcpThreadPc.finishing]
      · exact hi.of_same hi.sound (.refl _) rfl rfl
      · exact hi.of_same hi.sound (.refl _) rfl rfl
    | accept fd =>
      obtain ⟨p, hp, rfl⟩ := Option.map_eq_some_iff.1 hs
      obtain ⟨-, -, rfl⟩ := Pool.accept_eq_some hp
      exact hi.of_same hi.sound (.refl _) rfl rfl
    | thread i => exact hi.thread (custody_valid hr) hs

/-- `served_tcp_clients` is the number of completed connections. -/
theorem Serving.served_eq {s : State} (h : Serving s) (hn : s.closed.Nodup) :
    s.servedTcpClients = s.completed.length := by
  obtain ⟨done, hperm, hlen⟩ := h.split
  have hdisj := List.nodup_append.1 (hperm.nodup_iff.2 hn)
  have hdone : (done ++ s.finishing).filter (fun c => c ∉ s.finishing) = done := by
    rw [List.filter_append, List.filter_eq_self.2, List.filter_eq_nil_iff.2, List.append_nil]
    · intro c hc
      simpa using hc
    · intro c hc
      simpa using fun hf => hdisj.2.2 c hc c hf rfl
  rw [← hlen, ← hdone]
  exact (hperm.filter _).length_eq

/-! ### One owner -/

/-- Where a connection can be. -/
inductive Place
  | main
  | queue (k : ℕ)
  | thread (i : ℕ)
  | closed
  deriving DecidableEq

/-- Connection `c` is at a place: in the hand of the main thread, in slot `k` of `tcp_fds_q`, in
the hand of worker `i`, or closed. -/
def At (s : State) (c : ℕ) : Place → Prop
  | .main => ∃ fd, s.main.hand = some fd ∧ s.conn fd = some c
  | .queue k => ∃ fd, s.tcpFdsQ[k]? = some fd ∧ s.conn fd = some c
  | .thread i => ∃ pc, s.tcpThreads[i]? = some pc ∧ ∃ fd, pc.hand = some fd ∧ s.conn fd = some c
  | .closed => c ∈ s.closed

/-- How often `c` is found in places of the same kind as the given one. -/
def occurrences (s : State) (c : ℕ) : Place → ℕ
  | .main => s.main.hand.toList.countP fun fd => s.conn fd = some c
  | .queue _ => s.tcpFdsQ.countP fun fd => s.conn fd = some c
  | .thread _ => s.tcpThreads.countP fun pc => pc.hand.bind s.conn = some c
  | .closed => s.closed.count c

theorem occurrences_sum {s : State} (hv : s.custody.Valid) {c : ℕ} (hc : c < s.accepted) :
    occurrences s c .main + occurrences s c (.queue 0) + occurrences s c (.thread 0) +
      occurrences s c .closed = 1 := by
  have hone : s.custody.conns.count (some c) = 1 :=
    List.count_eq_one_of_mem hv.nodup
      (hv.conns.mem_iff.2 (List.mem_map_of_mem (List.mem_range.2 hc)))
  have hmap : ∀ l : List ℕ,
      (l.map s.conn).count (some c) = l.countP fun fd => s.conn fd = some c := by
    intro l
    rw [List.count, List.countP_map]
    exact List.countP_congr fun fd _ => by simp
  have hheld : ((s.tcpThreads.filterMap TcpThreadPc.hand).map s.conn).count (some c) =
      occurrences s c (.thread 0) := by
    rw [List.map_filterMap, List.count_filterMap, occurrences]
    refine List.countP_congr fun pc _ => ?_
    cases pc.hand <;> simp
  have hclosed : (s.closed.map some).count (some c) = s.closed.count c :=
    List.count_map_of_injective _ _ (Option.some_injective ℕ) _
  rw [Custody.conns, List.map_append, List.count_append, List.count_append] at hone
  simp only [State.custody, List.map_append, List.count_append, hmap s.main.hand.toList,
    hmap s.tcpFdsQ, hheld, hclosed] at hone
  exact hone

/-- Being at a place is being counted there. -/
theorem at_pos {s : State} {c : ℕ} {p : Place} (h : At s c p) : 0 < occurrences s c p := by
  cases p with
  | main =>
    obtain ⟨fd, hfd, hc⟩ := h
    simp [occurrences, hfd, hc]
  | queue k =>
    obtain ⟨fd, hfd, hc⟩ := h
    exact List.countP_pos_of_getElem? hfd (by simpa using hc)
  | thread i =>
    obtain ⟨pc, hpc, fd, hfd, hc⟩ := h
    exact List.countP_pos_of_getElem? hpc (by simp [hfd, hc])
  | closed => exact List.count_pos_iff.2 h

/-- A connection that occurs once is at one place at most. -/
theorem at_unique {s : State} {c : ℕ}
    (hsum : occurrences s c .main + occurrences s c (.queue 0) + occurrences s c (.thread 0) +
      occurrences s c .closed = 1) {p q : Place} (hp : At s c p) (hq : At s c q) : p = q := by
  have hp' := at_pos hp
  have hq' := at_pos hq
  cases p <;> cases q <;> simp only [occurrences] at hsum hp' hq'
  case queue.queue k k' =>
    have huniq : ∃! k, At s c (.queue k) := by
      simpa [At] using List.countP_eq_one_iff.1 (by omega :
        s.tcpFdsQ.countP (fun fd => s.conn fd = some c) = 1)
    rw [huniq.unique hp hq]
  case thread.thread i i' =>
    have huniq : ∃! i, At s c (.thread i) := by
      simpa [At, Option.bind_eq_some_iff] using List.countP_eq_one_iff.1 (by omega :
        s.tcpThreads.countP (fun pc => pc.hand.bind s.conn = some c) = 1)
    rw [huniq.unique hp hq]
  -- two places of different kinds would be two occurrences
  all_goals first | rfl | (exfalso; omega)

/-- A connection that occurs is somewhere. -/
theorem exists_at {s : State} {c : ℕ}
    (hsum : occurrences s c .main + occurrences s c (.queue 0) + occurrences s c (.thread 0) +
      occurrences s c .closed = 1) : ∃ p, At s c p := by
  simp only [occurrences] at hsum
  have hcases : 0 < s.main.hand.toList.countP (fun fd => s.conn fd = some c) ∨
      0 < s.tcpFdsQ.countP (fun fd => s.conn fd = some c) ∨
      0 < s.tcpThreads.countP (fun pc => pc.hand.bind s.conn = some c) ∨
      0 < s.closed.count c := by omega
  rcases hcases with h | h | h | h
  · obtain ⟨fd, hfd, hc⟩ := List.countP_pos_iff.1 h
    exact ⟨.main, fd, by simpa using hfd, by simpa using hc⟩
  · obtain ⟨fd, hfd, hc⟩ := List.countP_pos_iff.1 h
    obtain ⟨k, hk⟩ := List.getElem?_of_mem hfd
    exact ⟨.queue k, fd, hk, by simpa using hc⟩
  · obtain ⟨pc, hpc, hc⟩ := List.countP_pos_iff.1 h
    obtain ⟨i, hi⟩ := List.getElem?_of_mem hpc
    exact ⟨.thread i, pc, hi, by simpa [Option.bind_eq_some_iff] using hc⟩
  · exact ⟨.closed, List.count_pos_iff.1 h⟩

/-- **Every accepted connection has exactly one owner**, in every state any interleaving
reaches: it is at one place, was taken by at most one worker and closed at most once, and
`served_tcp_clients` is the number of connections whose worker completed its iteration. -/
theorem connection_in_one_place {s : State} (h : multiprotoServer.Reachable s) :
    (∀ c < s.accepted, ∃! p, At s c p) ∧ s.taken.Nodup ∧ s.closed.Nodup ∧
      s.servedTcpClients = s.completed.length := by
  have hv := custody_valid h
  have hclosed : s.closed.Nodup := (List.nodup_append.1 hv.nodup).2.1.of_map
  have htaken : s.taken.Nodup := by
    have hsub : (s.custody.held.map s.conn ++ s.closed.map some).Nodup := by
      have := hv.nodup
      rw [Custody.conns, List.map_append, List.append_assoc] at this
      exact (List.nodup_append.1 this).2.1
    exact (hv.taken.nodup_iff.2 hsub).of_map
  refine ⟨fun c hc => ?_, htaken, hclosed, (serving h).served_eq hclosed⟩
  have hsum := occurrences_sum hv hc
  obtain ⟨p, hp⟩ := exists_at hsum
  exact ⟨p, hp, fun q hq => at_unique hsum hq hp⟩

theorem connection_in_one_place_handedOver : ∃! p, At handedOver 0 p :=
  (connection_in_one_place handedOver_reachable).1 0 (by decide)

end EmbeddedC.ClientService.Multiproto
