import EmbeddedC.ClientService.ClassicServer

/-!
# Homework 16: where `classic_server` puts an accepted fd

After `accept` the main thread looks for a free slot of `clients_q`.  If there is none, the queue
grows: the new fd is in no slot, and the loop that is to initialise the new slots writes to slots 1
and 2.

* `UpToPost`, `exists_upToPost`: the main thread's own calls up to `sem_post(clients_counter)`;
* `Outcome`, `outcome_of_upToPost`: what they do to the queue;
* `Stored`: the fd is in one slot, the others are kept, and the new ones are initialised;
* `fd_stored`: that is so exactly if there was a free slot; `fd_lost`: a full queue.
-/

namespace EmbeddedC.ClientService.Classic

variable {s t : State} {c : ℕ} {junk : TcpClient × TcpClient}

/-- From `s` the main thread gets to the post of `clients_counter` in `t`; `junk` is found in the
memory that `realloc` adds. -/
def UpToPost (junk : TcpClient × TcpClient) (s t : State) : Prop :=
  classicServer.Path (fun _ a => a = .main junk) s t ∧ t.main = .post

/-- What the main thread has done to the queue of `s` when it has left the loop. -/
inductive Outcome (s : State) (c : ℕ) (junk : TcpClient × TcpClient) (t : State) : Prop
  | stored (k : ℕ) (locked : Bool) (hslot : s.clientsQ[k]? = some ⟨none, locked⟩)
      (hq : t.clientsQ = s.clientsQ.set k ⟨some c, locked⟩)
      (halloc : t.allocClients = s.allocClients)
  | grown (hfull : ∀ slot ∈ s.clientsQ, slot.clientFd ≠ none)
      (hq : t.clientsQ = growClients s.clientsQ junk)
      (halloc : t.allocClients = s.allocClients + serverDefAlloc)

/-- The main thread has left the loop that looks for a free slot. -/
def MainPc.beyond : MainPc → Prop
  | .checkBusy | .growThreads _ | .post | .accept => True
  | .create _ | .store _ _ => False

/-- Where the main thread is on its way, and what it has found out. -/
def OnTheWay (s : State) (c : ℕ) (junk : TcpClient × TcpClient) (t : State) : Prop :=
  (∃ index, t.main = .store c index ∧ t.clientsQ = s.clientsQ ∧ t.allocClients = s.allocClients ∧
    ∀ slot ∈ s.clientsQ.take index, slot.clientFd ≠ none) ∨
  t.main.beyond ∧ Outcome s c junk t

theorem Outcome.same {u : State} (h : Outcome s c junk t) (hq : u.clientsQ = t.clientsQ)
    (halloc : u.allocClients = t.allocClients) : Outcome s c junk u := by
  cases h with
  | stored k locked hslot hq' halloc' =>
    exact .stored k locked hslot (hq.trans hq') (halloc.trans halloc')
  | grown hfull hq' halloc' => exact .grown hfull (hq.trans hq') (halloc.trans halloc')

theorem onTheWay_step {u : State} (hlen : s.clientsQ.length = s.allocClients)
    (h : OnTheWay s c junk t) (hstep : classicMain t junk = some u) : OnTheWay s c junk u := by
  obtain ⟨index, hmain, hq, halloc, hused⟩ | ⟨hbeyond, hout⟩ := h
  · unfold classicMain at hstep
    rw [hmain] at hstep
    dsimp only at hstep
    split at hstep
    · rename_i hindex
      split at hstep
      · rename_i locked hslot
        obtain rfl := Option.some.inj hstep
        rw [hq] at hslot
        exact .inr ⟨trivial, .stored index locked hslot (by rw [hq]) halloc⟩
      · -- the slot is in use
        rename_i hslot
        obtain rfl := Option.some.inj hstep
        refine .inl ⟨index + 1, rfl, hq, halloc, ?_⟩
        rw [halloc, ← hlen] at hindex
        rw [List.take_succ_eq_append_getElem hindex]
        simp only [List.mem_append, List.mem_singleton]
        rintro slot (hmem | rfl) hfd
        · exact hused slot hmem hfd
        · refine hslot s.clientsQ[index].locked ?_
          rw [hq, List.getElem?_eq_getElem hindex, ← hfd]
    · -- the end of the queue
      obtain rfl := Option.some.inj hstep
      refine .inr ⟨trivial, .grown ?_ (by rw [hq]) (by rw [halloc])⟩
      rwa [List.take_of_length_le (by omega)] at hused
  · refine .inr ?_
    unfold classicMain at hstep
    split at hstep <;> rename_i hmain <;> rw [hmain] at hbeyond <;> try exact hbeyond.elim
    · cases hstep
    · split at hstep <;> obtain rfl := Option.some.inj hstep <;>
        exact ⟨trivial, hout.same rfl rfl⟩
    · obtain rfl := Option.some.inj hstep
      exact ⟨trivial, hout.same rfl rfl⟩
    · obtain rfl := Option.some.inj hstep
      exact ⟨trivial, hout.same rfl rfl⟩
    · obtain rfl := Option.some.inj hstep
      exact ⟨trivial, hout.same rfl rfl⟩

/-- What the main thread does to the queue between `accept` and the post. -/
theorem outcome_of_upToPost (hlen : s.clientsQ.length = s.allocClients)
    (hmain : s.main = .store c 0) (h : UpToPost junk s t) : Outcome s c junk t := by
  obtain ⟨hpath, hpost⟩ := h
  have hway : OnTheWay s c junk t := by
    refine hpath.invariant (.inl ⟨0, hmain, rfl, rfl, by simp⟩) fun t a u _ ih ha hstep => ?_
    subst ha
    exact onTheWay_step hlen ih hstep
  obtain ⟨index, hstore, -⟩ | ⟨-, hout⟩ := hway
  · rw [hpost] at hstore
    cases hstore
  · exact hout

/-! ### The main thread gets to the post -/

theorem UpToPost.head {u : State} (hstep : classicMain s junk = some u) (h : UpToPost junk u t) :
    UpToPost junk s t := by
  have hfirst : classicServer.Path (fun _ a => a = .main junk) s u := .tail .refl rfl hstep
  exact ⟨hfirst.trans h.1, h.2⟩

theorem exists_upToPost_growThreads {left : ℕ} (hmain : s.main = .growThreads left) :
    ∃ t, UpToPost junk s t := by
  induction left generalizing s with
  | zero =>
    have hstep : classicMain s junk = some { s with main := .post } := by
      unfold classicMain
      rw [hmain]
    exact ⟨_, UpToPost.head hstep ⟨.refl, rfl⟩⟩
  | succ left ih =>
    have hstep : classicMain s junk = some { s with
        main := .growThreads left, threads := s.threads ++ [.waitCounter] } := by
      unfold classicMain
      rw [hmain]
    obtain ⟨t, ht⟩ := ih (s := { s with
      main := .growThreads left, threads := s.threads ++ [.waitCounter] }) rfl
    exact ⟨t, ht.head hstep⟩

theorem exists_upToPost_checkBusy (hmain : s.main = .checkBusy) : ∃ t, UpToPost junk s t := by
  by_cases hfew : s.allocThreads < s.sems busyThreads + serverDefAlloc
  · have hstep : classicMain s junk = some { s with
        main := .growThreads serverDefAlloc
        allocThreads := s.allocThreads + serverDefAlloc } := by
      unfold classicMain
      rw [hmain]
      exact if_pos hfew
    exact (exists_upToPost_growThreads rfl).imp fun t ht => ht.head hstep
  · have hstep : classicMain s junk = some { s with main := .post } := by
      unfold classicMain
      rw [hmain]
      exact if_neg hfew
    exact ⟨_, UpToPost.head hstep ⟨.refl, rfl⟩⟩

/-- One call of the loop: it goes on to the next slot, or it is left. -/
theorem classicMain_store {index : ℕ} (hmain : s.main = .store c index) :
    ∃ u, classicMain s junk = some u ∧
      (u.main = .checkBusy ∨
        index < s.allocClients ∧ u.main = .store c (index + 1) ∧
          u.allocClients = s.allocClients) := by
  unfold classicMain
  rw [hmain]
  dsimp only
  split
  · rename_i hindex
    split
    · exact ⟨_, rfl, .inl rfl⟩
    · exact ⟨_, rfl, .inr ⟨hindex, rfl, rfl⟩⟩
  · exact ⟨_, rfl, .inl rfl⟩

/-- The loop ends, and with it the step. -/
theorem exists_upToPost {index : ℕ} (hmain : s.main = .store c index) : ∃ t, UpToPost junk s t := by
  induction hleft : s.allocClients - index generalizing s index with
  | zero =>
    obtain ⟨u, hstep, hcheck | ⟨hindex, -, -⟩⟩ := @classicMain_store s c junk _ hmain
    · obtain ⟨t, ht⟩ := @exists_upToPost_checkBusy u junk hcheck
      exact ⟨t, ht.head hstep⟩
    · omega
  | succ left ih =>
    obtain ⟨u, hstep, hcheck | ⟨hindex, hnext, halloc⟩⟩ := @classicMain_store s c junk _ hmain
    · obtain ⟨t, ht⟩ := @exists_upToPost_checkBusy u junk hcheck
      exact ⟨t, ht.head hstep⟩
    · obtain ⟨t, ht⟩ := ih hnext (by rw [halloc]; omega)
      exact ⟨t, ht.head hstep⟩

/-! ### The queue afterwards -/

/-- The fd in slot `k`, where there is such a slot and it is in use. -/
def State.fdAt (s : State) (k : ℕ) : Option ℕ := (s.clientsQ[k]?).bind TcpClient.clientFd

/-- What the step is for: the new fd is in one slot, what was stored is kept with its mutex, and
the slots that were added are initialised. -/
structure Stored (s : State) (c : ℕ) (t : State) : Prop where
  once : ∃! k, t.fdAt k = some c ∧ s.fdAt k = none
  kept : ∀ (k : ℕ) (slot : TcpClient), s.clientsQ[k]? = some slot → slot.clientFd ≠ none →
    t.clientsQ[k]? = some slot
  initialised : t.clientsQ.length = t.allocClients ∧
    ∀ k slot, s.clientsQ.length ≤ k → t.clientsQ[k]? = some slot →
      slot = ⟨none, false⟩ ∨ slot = ⟨some c, false⟩

/-- A free slot is filled. -/
theorem Stored.of_set {k : ℕ} {locked : Bool} (hlen : s.clientsQ.length = s.allocClients)
    (hslot : s.clientsQ[k]? = some ⟨none, locked⟩)
    (hq : t.clientsQ = s.clientsQ.set k ⟨some c, locked⟩)
    (halloc : t.allocClients = s.allocClients) : Stored s c t := by
  have hk : k < s.clientsQ.length := (List.getElem?_eq_some_iff.1 hslot).1
  have hother : ∀ j, j ≠ k → t.clientsQ[j]? = s.clientsQ[j]? := by
    intro j hj
    rw [hq, List.getElem?_set_ne hj.symm]
  refine ⟨⟨k, ⟨?_, ?_⟩, ?_⟩, ?_, ?_, ?_⟩
  · rw [State.fdAt, hq, List.getElem?_set_self hk]
    rfl
  · rw [State.fdAt, hslot]
    rfl
  · rintro j ⟨hnew, hold⟩
    by_contra hj
    rw [State.fdAt, hother j hj, ← State.fdAt, hold] at hnew
    cases hnew
  · intro j slot hj hused
    rw [hother j, hj]
    rintro rfl
    obtain rfl := Option.some.inj (hj.symm.trans hslot)
    exact hused rfl
  · rw [hq, List.length_set, hlen, halloc]
  · intro j slot hj hget
    have := (List.getElem?_eq_some_iff.1 hget).1
    rw [hq, List.length_set] at this
    omega

/-- Growth puts the fd nowhere: what it writes is `NULL`. -/
theorem fdAt_growClients {k : ℕ} (hq : t.clientsQ = growClients s.clientsQ (⟨none, false⟩,
    ⟨none, false⟩)) (hfree : s.fdAt k = none) : t.fdAt k = none := by
  have hset : ∀ (q : List TcpClient) (i : ℕ), (q[k]?).bind TcpClient.clientFd = none →
      ((q.set i ⟨none, false⟩)[k]?).bind TcpClient.clientFd = none := by
    intro q i h
    rw [List.getElem?_set]
    split
    · split <;> rfl
    · exact h
  have happend : ((s.clientsQ ++ [⟨none, false⟩, ⟨none, false⟩])[k]?).bind
      TcpClient.clientFd = none := by
    rw [List.getElem?_append]
    split
    · exact hfree
    · match k - s.clientsQ.length with
      | 0 | 1 | _ + 2 => rfl
  rw [State.fdAt, hq]
  exact hset _ _ (hset _ _ happend)

/-- **The accept path.** From any queue the main thread gets to the post, and the new fd is then
in one slot, with the others kept and the new ones initialised, exactly if some slot was free. -/
theorem fd_stored (hlen : s.clientsQ.length = s.allocClients) (hmain : s.main = .store c 0) :
    (∀ junk, ∃ t, UpToPost junk s t) ∧
      ((∀ junk t, UpToPost junk s t → Stored s c t) ↔
        ∃ slot ∈ s.clientsQ, slot.clientFd = none) := by
  refine ⟨fun junk => exists_upToPost hmain, ?_, ?_⟩
  · intro hall
    by_contra hnone
    obtain ⟨t, ht⟩ := @exists_upToPost s c (⟨none, false⟩, ⟨none, false⟩) 0 hmain
    obtain ⟨k, ⟨hnew, hold⟩, -⟩ := (hall _ _ ht).once
    cases outcome_of_upToPost hlen hmain ht with
    | stored k locked hslot =>
      exact hnone ⟨_, List.mem_of_getElem? hslot, rfl⟩
    | grown hfull hq halloc =>
      rw [fdAt_growClients hq hold] at hnew
      cases hnew
  · rintro ⟨slot, hmem, hfree⟩ junk t ht
    cases outcome_of_upToPost hlen hmain ht with
    | stored k locked hslot hq halloc => exact .of_set hlen hslot hq halloc
    | grown hfull => exact absurd hfree (hfull slot hmem)

/-- Two slots, one of them in use, and a second fd. -/
def secondFd : State :=
  { initial 20 2 with main := .store 1 0, clientsQ := [⟨some 0, true⟩, ⟨none, false⟩] }

theorem fd_stored_secondFd :
    (∀ junk, ∃ t, UpToPost junk secondFd t) ∧
      ((∀ junk t, UpToPost junk secondFd t → Stored secondFd 1 t) ↔
        ∃ slot ∈ secondFd.clientsQ, slot.clientFd = none) :=
  fd_stored rfl rfl

/-- Both slots are in use, and a third fd is accepted. -/
def thirdFd : State :=
  { initial 20 2 with main := .store 2 0, clientsQ := [⟨some 0, true⟩, ⟨some 1, true⟩] }

/-- The third fd is stored nowhere. -/
theorem fd_lost : ¬ ∀ (s t : State) (c : ℕ) (junk : TcpClient × TcpClient),
    s.clientsQ.length = s.allocClients → s.main = .store c 0 → UpToPost junk s t →
      Stored s c t := by
  intro hall
  let junk : TcpClient × TcpClient := (⟨none, false⟩, ⟨none, false⟩)
  let t : State := { thirdFd with
    main := .post
    allocClients := 4
    clientsQ := [⟨some 0, true⟩, ⟨none, false⟩, ⟨none, false⟩, ⟨none, false⟩] }
  have hrun : classicServer.runUnder (fun _ a => a = .main junk) thirdFd
      (List.replicate 4 (.main junk)) = some t := rfl
  have hstored := hall thirdFd t 2 junk rfl rfl ⟨Machine.path_of_runUnder hrun, rfl⟩
  -- and the second fd is gone from its slot
  have hkept := hstored.kept 1 ⟨some 1, true⟩ rfl (by decide)
  cases hkept

end EmbeddedC.ClientService.Classic
