import EmbeddedC.Lib.Scan
import EmbeddedC.ClientService.ClassicServer

/-!
# Homework 16: how `classic_server` hands its clients over

A worker that gets past `sem_wait(clients_counter)` has a claim on one of the fds in
`clients_q`, and walks through the slots until it has locked one.

* `FewLive`: there is a free slot for every connection accepted;
* `Undisturbed`: no post of `served_clients`, which is the same semaphore, and no lock that
  misleads;
* `Handover`: the invariant;
* `handed_over`: every worker finds an fd of its own, and every fd is served once;
* `not_handed_over`: one client that sends a message.
-/

namespace EmbeddedC.ClientService.Classic

/-! ### Conditions -/

namespace State

/-- The `client_fd` of all slots. -/
def fds (s : State) : List (Option ℕ) := s.clientsQ.map TcpClient.clientFd

/-- Which slots are in use. -/
def used (s : State) : List Bool := s.fds.map Option.isSome

/-- Which mutexes are locked. -/
def locks (s : State) : List Bool := s.clientsQ.map TcpClient.locked

/-- The slots that workers have a claim on. -/
def claims (s : State) : List ℕ := s.threads.filterMap ThreadPc.claim

end State

/-- At most `alloc_clients` connections are live: one is from its `accept` until its slot is
freed. -/
def FewLive (s : State) : Action → Prop
  | .accept => s.used.count true < s.allocClients
  | _ => True

/-- When a worker tries the mutex of slot `k`: if it is free, the slot is still in use; if not,
the slot has not been refilled since its holder freed it. -/
def LockTells (s : State) (k : ℕ) : Prop :=
  ∀ slot ∈ s.clientsQ[k]?,
    if slot.locked then slot.clientFd = none ∨ .unlock k ∉ s.threads else slot.clientFd ≠ none

/-- The next call of a worker does not lead another one astray: it is no `recv` that succeeds,
after which `served_clients` is posted, and no lock that misleads. -/
def ThreadPc.Harmless (s : State) (ok : Bool) : ThreadPc → Prop
  | .recv _ _ => ok = false
  | .tryLock k => LockTells s k
  | _ => True

/-- No message of a client is received, and every lock tells. -/
def Undisturbed (s : State) : Action → Prop
  | .thread i ok => ∀ pc ∈ s.threads[i]?, pc.Harmless s ok
  | _ => True

/-! ### The invariant -/

/-- The fd the main thread has accepted and not stored. -/
def MainPc.hand : MainPc → Option ℕ
  | .store c _ => some c
  | _ => none

/-- The main thread has stored an fd and not posted `clients_counter`. -/
def MainPc.stored : MainPc → Bool
  | .checkBusy | .growThreads _ | .post => true
  | _ => false

/-- What is in the slot that a worker keeps. -/
def ThreadPc.Keeps (fds : List (Option ℕ)) : ThreadPc → Prop
  | .readFd k => ∃ c, fds[k]? = some (some c)
  | .send k c | .recv k c | .close k c | .clear k (some c) => fds[k]? = some (some c)
  | .postServed .. | .clear _ none => False
  | _ => True

/-- What is used by the main thread looking for a free slot. -/
def MainPc.Finds (fds : List (Option ℕ)) : MainPc → Prop
  | .store _ index => ∃ j, index ≤ j ∧ fds[j]? = some none
  | _ => True

structure Handover (s : State) : Prop where
  size : s.clientsQ.length = s.allocClients
  finds : s.main.Finds s.fds
  covers : Covers s.claims s.used
  counter : s.used.count true =
    s.sems clientsCounter + s.claims.length + if s.main.stored then 1 else 0
  held : ∀ k, (s.threads.filterMap ThreadPc.slot).count k = if s.locks[k]? = some true then 1 else 0
  keeps : ∀ (i : ℕ) pc, s.threads[i]? = some pc → ThreadPc.Keeps s.fds pc
  custody : ∀ c, (s.main.hand.toList ++ s.fds.filterMap id ++ s.freed.map Prod.snd).count c =
    if c < s.accepted then 1 else 0

/-- Freeing a slot does not keep the main thread from finding one. -/
theorem MainPc.Finds.set_none {main : MainPc} {fds : List (Option ℕ)} (h : main.Finds fds)
    {k : ℕ} : main.Finds (fds.set k none) := by
  cases main with
  | store c index =>
    obtain ⟨j, hle, hj⟩ := h
    refine ⟨j, hle, ?_⟩
    rw [List.getElem?_set]
    split
    · rename_i hk
      rw [if_pos (hk ▸ List.lt_length_of_getElem?_eq_some hj)]
    · exact hj
  | _ => trivial

/-- Two workers do not hold the same mutex. -/
theorem Handover.slot_unique {s : State} (h : Handover s) {i j k : ℕ} {pc pc' : ThreadPc}
    (hi : s.threads[i]? = some pc) (hj : s.threads[j]? = some pc') (hk : pc.slot = some k)
    (hk' : pc'.slot = some k) : i = j := by
  have hpos : 0 < (s.threads.filterMap ThreadPc.slot).count k :=
    List.count_pos_iff.2 (List.mem_filterMap.2 ⟨pc, List.mem_of_getElem? hi, hk⟩)
  have hone : (s.threads.filterMap ThreadPc.slot).count k = 1 := by
    have := h.held k
    split at this <;> omega
  exact (List.count_filterMap_eq_one_iff.1 hone).unique
    (Option.bind_eq_some_iff.2 ⟨pc, hi, hk⟩) (Option.bind_eq_some_iff.2 ⟨pc', hj, hk'⟩)

/-- A mutex that a worker holds is locked. -/
theorem Handover.locked {s : State} (h : Handover s) {pc : ThreadPc} {k : ℕ}
    (hpc : pc ∈ s.threads) (hslot : pc.slot = some k) : s.locks[k]? = some true := by
  have hpos : 0 < (s.threads.filterMap ThreadPc.slot).count k :=
    List.count_pos_iff.2 (List.mem_filterMap.2 ⟨pc, hpc, hslot⟩)
  have hheld := h.held k
  by_contra hfree
  rw [if_neg hfree] at hheld
  omega

theorem ThreadPc.Keeps.congr {fds fds' : List (Option ℕ)} {pc : ThreadPc} (h : pc.Keeps fds)
    (hfds : ∀ k c, pc.slot = some k → fds[k]? = some (some c) → fds'[k]? = some (some c)) :
    pc.Keeps fds' := by
  cases pc with
  | readFd k =>
    obtain ⟨c, hc⟩ := h
    exact ⟨c, hfds k c rfl hc⟩
  | send k c | recv k c | close k c => exact hfds k c rfl h
  | clear k c =>
    cases c with
    | none => exact h
    | some c => exact hfds k c rfl h
  | _ => exact h

/-- The worker keeps a slot that is in use. -/
theorem ThreadPc.Keeps.used {fds : List (Option ℕ)} {k : ℕ} {c : Option ℕ}
    (h : (ThreadPc.clear k c).Keeps fds) : ∃ c', c = some c' ∧ fds[k]? = some (some c') := by
  cases c with
  | none => exact h.elim
  | some c => exact ⟨c, rfl, h⟩

/-! ### Steps of a worker -/

/-- The claims of the other workers. -/
theorem claims_setThread {s : State} {i : ℕ} {pc : ThreadPc} (hpc : s.threads[i]? = some pc) :
    ∃ rest, s.claims.Perm (pc.claim.toList ++ rest) ∧
      ∀ pc', (s.setThread i pc').claims.Perm (pc'.claim.toList ++ rest) :=
  List.filterMap_set_perm hpc ThreadPc.claim

/-- A worker is at a slot that exists while it looks for an fd. -/
theorem Handover.scan_lt {s : State} (h : Handover s) {pc : ThreadPc} (hpc : pc ∈ s.threads)
    {index : ℕ} (hclaim : pc.claim = some index) : index < s.allocClients := by
  obtain ⟨i, hi⟩ := List.getElem?_of_mem hpc
  obtain ⟨rest, hperm, -⟩ := claims_setThread hi
  rw [hclaim] at hperm
  have hlt := (h.covers.perm (show (index :: rest).Perm s.claims from hperm.symm)).lt_length
  rwa [State.used, State.fds, List.length_map, List.length_map, h.size] at hlt

theorem keeps_setThread {s : State} {fds : List (Option ℕ)} {i : ℕ} {pc' : ThreadPc}
    (hkeeps : pc'.Keeps fds)
    (hothers : ∀ (j : ℕ) pc, j ≠ i → s.threads[j]? = some pc → ThreadPc.Keeps fds pc) (j : ℕ)
    (pc : ThreadPc) (hpc : (s.setThread i pc').threads[j]? = some pc) : pc.Keeps fds := by
  by_cases hj : i = j
  · subst hj
    rw [State.setThread, List.getElem?_set_self'] at hpc
    obtain ⟨-, -, rfl⟩ := Option.map_eq_some_iff.1 hpc
    exact hkeeps
  · rw [State.setThread, List.getElem?_set_ne hj] at hpc
    exact hothers j pc (Ne.symm hj) hpc

/-- A step of worker `i` that leaves the slots alone. -/
theorem Handover.setThread {s : State} (h : Handover s) {i : ℕ} {pc pc' : ThreadPc} {sems : Sems}
    (hpc : s.threads[i]? = some pc) (hcovers : Covers (s.setThread i pc').claims s.used)
    (hcounter : sems clientsCounter + (s.setThread i pc').claims.length =
      s.sems clientsCounter + s.claims.length)
    (hslot : pc'.slot = pc.slot) (hkeeps : pc'.Keeps s.fds) :
    Handover { s.setThread i pc' with sems := sems } where
  size := h.size
  finds := h.finds
  covers := hcovers
  counter := by
    have := h.counter
    change s.used.count true = sems clientsCounter + (s.setThread i pc').claims.length +
      if s.main.stored then 1 else 0
    omega
  held := fun k => by
    have hcount := List.count_filterMap_set_add hpc ThreadPc.slot pc' k
    rw [hslot] at hcount
    exact (Nat.add_right_cancel hcount).trans (h.held k)
  keeps := keeps_setThread hkeeps fun j pc _ => h.keeps j pc
  custody := h.custody

/-- A step of worker `i` that leaves the slots and its claim alone. -/
theorem Handover.move {s : State} (h : Handover s) {i : ℕ} {pc pc' : ThreadPc} {sems : Sems}
    (hpc : s.threads[i]? = some pc) (hclaim : pc'.claim = pc.claim)
    (hsems : sems clientsCounter = s.sems clientsCounter) (hslot : pc'.slot = pc.slot)
    (hkeeps : pc'.Keeps s.fds) : Handover { s.setThread i pc' with sems := sems } := by
  obtain ⟨rest, hperm, hset⟩ := claims_setThread hpc
  have hsame : (s.setThread i pc').claims.Perm s.claims :=
    (hset pc').trans (hclaim ▸ hperm.symm)
  exact h.setThread hpc (h.covers.perm hsame) (by rw [hsame.length_eq, hsems]) hslot hkeeps

theorem ThreadPc.Moves.keeps {fds : List (Option ℕ)} {pc pc' : ThreadPc} (h : pc.Moves pc')
    (hkeeps : pc.Keeps fds) : pc'.Keeps fds := by
  cases h with
  | postBusy | scan | tryBusy => trivial
  | send | notSent | notReceived | close => exact hkeeps

/-- Worker `i` gets past `sem_wait`. -/
theorem Handover.wake {s : State} (h : Handover s) {i : ℕ}
    (hpc : s.threads[i]? = some .waitCounter) (hpos : s.sems clientsCounter ≠ 0) :
    Handover { s.setThread i .postBusy with sems := s.sems.take clientsCounter } := by
  obtain ⟨rest, hperm, hset⟩ := claims_setThread hpc
  have hold : s.claims.Perm rest := hperm
  have hnew : (s.setThread i .postBusy).claims.Perm (0 :: s.claims) :=
    (hset .postBusy).trans (hold.symm.cons 0)
  refine h.setThread hpc ?_ ?_ rfl trivial
  · refine (h.covers.join ?_).perm hnew
    have := h.counter
    omega
  · rw [hnew.length_eq, Sems.take, Function.update_self, List.length_cons]
    omega

/-- Worker `i` goes on to the next slot. -/
theorem Handover.next {s : State} (h : Handover s) {i index : ℕ} {pc : ThreadPc}
    (hpc : s.threads[i]? = some pc) (hclaim : pc.claim = some index) (hslot : pc.slot = none)
    (hnext : ∀ rest, Covers (index :: rest) s.used → s.claims.Perm (index :: rest) →
      Covers ((index + 1) :: rest) s.used) : Handover (s.setThread i (.scan (index + 1))) := by
  obtain ⟨rest, hperm, hset⟩ := claims_setThread hpc
  rw [hclaim] at hperm
  have hnew := hset (.scan (index + 1))
  refine h.setThread hpc ?_ ?_ hslot.symm trivial
  · exact (hnext rest (h.covers.perm hperm.symm) hperm).perm hnew
  · rw [hnew.length_eq, hperm.length_eq]
    rfl

/-- Worker `i` walks past a slot that is not in use. -/
theorem Handover.pass {s : State} (h : Handover s) {i index : ℕ} {pc : ThreadPc}
    (hpc : s.threads[i]? = some pc) (hclaim : pc.claim = some index) (hslot : pc.slot = none)
    (hunused : ∀ slot, s.clientsQ[index]? = some slot → slot.clientFd = none) :
    Handover (s.setThread i (.scan (index + 1))) := by
  refine h.next hpc hclaim hslot fun rest hcovers _ => hcovers.pass fun hused => ?_
  rw [State.used, State.fds, List.map_map, List.getElem?_map] at hused
  obtain ⟨slot, hslot, hsome⟩ := Option.map_eq_some_iff.1 hused
  rw [Function.comp_apply, hunused slot hslot] at hsome
  cases hsome

/-- A worker that holds the mutex of a slot. -/
theorem Handover.holder {s : State} (h : Handover s) {k : ℕ} (hlocked : s.locks[k]? = some true) :
    ∃ pc ∈ s.threads, pc.slot = some k := by
  have hone := h.held k
  rw [if_pos hlocked] at hone
  exact List.mem_filterMap.1 (List.count_pos_iff.1 (hone ▸ Nat.one_pos))

/-- Worker `i` walks past a slot whose mutex is locked. -/
theorem Handover.skip {s : State} (h : Handover s) {i k : ℕ} {slot : TcpClient}
    (hpc : s.threads[i]? = some (.tryLock k)) (hslot : s.clientsQ[k]? = some slot)
    (hlocked : slot.locked = true) (htells : LockTells s k) :
    Handover (s.setThread i (.scan (k + 1))) := by
  have htells : slot.clientFd = none ∨ .unlock k ∉ s.threads := by
    simpa [hlocked] using htells slot (Option.mem_def.2 hslot)
  rcases htells with hunused | hholder
  · refine h.pass hpc rfl rfl fun slot' hslot' => ?_
    rw [hslot] at hslot'
    exact Option.some.inj hslot' ▸ hunused
  -- the holder has not freed the slot yet, and keeps its own claim
  obtain ⟨pc, hmem, hpcslot⟩ := h.holder (k := k)
    (by rw [State.locks, List.getElem?_map, hslot, ← hlocked]; rfl)
  have hclaim : pc.claim = some k := by
    cases pc with
    | unlock index =>
      obtain rfl : index = k := Option.some.inj hpcslot
      exact absurd hmem hholder
    | _ => first | exact hpcslot | cases hpcslot
  refine h.next hpc rfl rfl fun rest hcovers hperm => hcovers.skip ?_
  obtain ⟨j, hj⟩ := List.getElem?_of_mem hmem
  have hij : i ≠ j := by
    rintro rfl
    rw [hpc] at hj
    cases hj
    cases hpcslot
  have htwo : 2 ≤ s.claims.count k := by
    have hset := List.count_filterMap_set_add hpc ThreadPc.claim .waitCounter k
    have hpos : 0 < ((s.threads.set i .waitCounter).filterMap ThreadPc.claim).count k := by
      refine List.count_pos_iff.2 (List.mem_filterMap.2 ⟨pc, ?_, hclaim⟩)
      exact List.mem_of_getElem? ((List.getElem?_set_ne hij).trans hj)
    simp only [ThreadPc.claim, Option.toList_none, Option.toList_some, List.count_nil,
      List.count_singleton_self] at hset hpos
    simp only [State.claims]
    omega
  rw [hperm.count_eq, List.count_cons_self] at htwo
  exact List.count_pos_iff.1 (by omega)

/-- Worker `i` locks the mutex of slot `k` (`b`), or unlocks it. -/
theorem Handover.relock {s : State} (h : Handover s) {i k : ℕ} {pc pc' : ThreadPc} {fd : Option ℕ}
    {b : Bool} (hpc : s.threads[i]? = some pc) (hslot : s.clientsQ[k]? = some ⟨fd, !b⟩)
    (hclaim : pc'.claim = pc.claim) (hbefore : pc.slot = if b then none else some k)
    (hafter : pc'.slot = if b then some k else none) (hkeeps : pc'.Keeps s.fds) :
    Handover { s.setThread i pc' with clientsQ := s.clientsQ.set k ⟨fd, b⟩ } := by
  have hfds : (s.clientsQ.set k ⟨fd, b⟩).map TcpClient.clientFd = s.fds :=
    List.map_set_of_eq hslot rfl
  obtain ⟨rest, hperm, hset⟩ := claims_setThread hpc
  have hsame : (s.setThread i pc').claims.Perm s.claims := (hset pc').trans (hclaim ▸ hperm.symm)
  constructor
  case size => exact List.length_set.trans h.size
  case finds =>
    rw [State.fds, hfds]
    exact h.finds
  case covers =>
    rw [State.used, State.fds, hfds]
    exact h.covers.perm hsame
  case counter =>
    rw [State.used, State.fds, hfds]
    change s.used.count true = s.sems clientsCounter + (s.setThread i pc').claims.length +
      if s.main.stored then 1 else 0
    rw [hsame.length_eq]
    exact h.counter
  case held =>
    intro j
    have hcount := List.count_filterMap_set_add hpc ThreadPc.slot pc' j
    have hlocks : ((s.clientsQ.set k ⟨fd, b⟩).map TcpClient.locked)[j]? =
        if k = j then some b else s.locks[j]? := by
      have hk := List.lt_length_of_getElem?_eq_some hslot
      rw [List.map_set, List.getElem?_set]
      simp [hk, State.locks]
    have hlock : s.locks[k]? = some !b := by rw [State.locks, List.getElem?_map, hslot]; rfl
    have hheld := h.held j
    change ((s.threads.set i pc').filterMap ThreadPc.slot).count j =
      if ((s.clientsQ.set k ⟨fd, b⟩).map TcpClient.locked)[j]? = some true then 1 else 0
    rw [hlocks]
    rw [hbefore, hafter] at hcount
    by_cases hj : k = j
    · subst hj
      cases b <;> simp_all
    · cases b <;> simp_all
  case keeps =>
    change ∀ (j : ℕ) pc, (s.setThread i pc').threads[j]? = some pc →
      pc.Keeps ((s.clientsQ.set k ⟨fd, b⟩).map TcpClient.clientFd)
    rw [hfds]
    exact keeps_setThread hkeeps fun j pc _ => h.keeps j pc
  case custody =>
    rw [State.fds, hfds]
    exact h.custody

/-- Worker `i` writes `NULL` into its slot. -/
theorem Handover.clear {s : State} (h : Handover s) {i k c : ℕ} {slot : TcpClient}
    (hpc : s.threads[i]? = some (.clear k (some c))) (hslot : s.clientsQ[k]? = some slot) :
    Handover { s.setThread i (.unlock k) with
      clientsQ := s.clientsQ.set k { slot with clientFd := none }
      freed := s.freed ++ [(i, c)] } := by
  have hfd : s.fds[k]? = some (some c) := h.keeps i _ hpc
  have hused : s.used[k]? = some true := by rw [State.used, List.getElem?_map, hfd]; rfl
  have hfds : (s.clientsQ.set k { slot with clientFd := none }).map TcpClient.clientFd =
    s.fds.set k none := List.map_set
  obtain ⟨rest, hperm, hset⟩ := claims_setThread hpc
  have hrest : (s.setThread i (.unlock k)).claims.Perm rest := hset (.unlock k)
  have hperm : s.claims.Perm (k :: rest) := hperm
  constructor
  case size => exact List.length_set.trans h.size
  case finds =>
    change s.main.Finds _
    rw [State.fds, hfds]
    exact h.finds.set_none
  case covers =>
    rw [State.used, State.fds, hfds, List.map_set]
    exact ((h.covers.perm hperm.symm).leave hused).perm hrest
  case counter =>
    have hcount : (s.used.set k false).count true + 1 = s.used.count true :=
      List.countP_set_add hused (· == true) false
    have := h.counter
    rw [State.used, State.fds, hfds, List.map_set]
    change (s.used.set k false).count true = s.sems clientsCounter +
      (s.setThread i (.unlock k)).claims.length + if s.main.stored then 1 else 0
    rw [hperm.length_eq, List.length_cons] at this
    rw [hrest.length_eq]
    omega
  case held =>
    have hlocks : (s.clientsQ.set k { slot with clientFd := none }).map TcpClient.locked =
      s.locks := List.map_set_of_eq hslot rfl
    intro j
    have hcount := List.count_filterMap_set_add hpc ThreadPc.slot (.unlock k) j
    rw [State.locks, hlocks]
    exact (Nat.add_right_cancel hcount).trans (h.held j)
  case keeps =>
    change ∀ (j : ℕ) pc, (s.setThread i (.unlock k)).threads[j]? = some pc →
      pc.Keeps ((s.clientsQ.set k { slot with clientFd := none }).map TcpClient.clientFd)
    rw [hfds]
    refine keeps_setThread trivial fun j pc hj hpcj => ?_
    refine (h.keeps j pc hpcj).congr fun k' c' hk' hc' => ?_
    -- another worker does not hold the mutex of this slot
    have hne : k ≠ k' := by
      rintro rfl
      exact hj (h.slot_unique hpcj hpc hk' rfl)
    rwa [List.getElem?_set_ne hne]
  case custody =>
    intro c'
    have hcount := List.count_filterMap_set_add hfd id none c'
    have := h.custody c'
    rw [State.fds, hfds]
    change (s.main.hand.toList ++ (s.fds.set k none).filterMap id ++
      (s.freed ++ [(i, c)]).map Prod.snd).count c' = if c' < s.accepted then 1 else 0
    rw [← this]
    simp only [List.map_append, List.map_cons, List.map_nil, List.count_append, id,
      Option.toList_none, Option.toList_some, List.count_nil] at hcount ⊢
    omega

/-- One call of worker `i`. -/
theorem Handover.threadStep {s t : State} {i : ℕ} {ok : Bool} (h : Handover s)
    (hcond : Undisturbed s (.thread i ok)) (hstep : ThreadStep s i ok t) : Handover t := by
  cases hstep with
  | move hpc hmoves hsems =>
    exact h.move hpc hmoves.claim hsems hmoves.slot (hmoves.keeps (h.keeps i _ hpc))
  | wake hpc hpos => exact h.wake hpc hpos
  | pass hpc hslot => exact h.pass hpc rfl rfl hslot
  | @notFound _ index hpc hend =>
    exact absurd (h.scan_lt (List.mem_of_getElem? hpc) rfl) (Nat.not_lt.2 hend)
  | @skip _ index hpc hslot =>
    have htells : LockTells s index := hcond _ hpc
    cases hget : s.clientsQ[index]? with
    | none => exact h.pass hpc rfl rfl fun slot hslot' => by cases hget.symm.trans hslot'
    | some slot => exact h.skip hpc hget (hslot slot hget) htells
  | @lock _ index fd hpc hslot =>
    have htells : LockTells s index := hcond _ hpc
    have hfd : fd ≠ none := by simpa using htells _ (Option.mem_def.2 hslot)
    obtain ⟨c, rfl⟩ := Option.ne_none_iff_exists'.1 hfd
    refine h.relock hpc hslot rfl rfl rfl ⟨c, ?_⟩
    rw [State.fds, List.getElem?_map, hslot]
    rfl
  | @read _ index c locked hpc hslot =>
    refine h.move hpc rfl rfl rfl ?_
    change s.fds[index]? = some (some c)
    rw [State.fds, List.getElem?_map, hslot]
    rfl
  | @readNull _ index hpc hslot =>
    -- the slot is in use since before it was locked
    obtain ⟨c, hc⟩ := h.keeps i _ hpc
    rw [State.fds, List.getElem?_map] at hc
    obtain ⟨slot, hget, hfd⟩ := Option.map_eq_some_iff.1 hc
    cases hfd.symm.trans (hslot slot hget)
  | received hpc => cases hcond _ hpc
  | served hpc => exact (h.keeps i _ hpc).elim
  | @clear _ index c slot hpc hslot =>
    obtain ⟨c, rfl, -⟩ := (h.keeps i _ hpc).used
    exact h.clear hpc hslot
  | @unlock _ index slot hpc hslot =>
    have hlocked : slot.locked = true := by
      have hlock := h.locked (List.mem_of_getElem? hpc) rfl
      rw [State.locks, List.getElem?_map, hslot] at hlock
      exact Option.some.inj hlock
    obtain ⟨fd, locked⟩ := slot
    obtain rfl : locked = !false := hlocked
    exact h.relock hpc hslot rfl rfl rfl trivial

/-! ### Steps of the main thread -/

/-- The main thread moves on without a change to the slots. -/
theorem Handover.mainMove {s : State} (h : Handover s) {m : MainPc} {allocThreads : ℕ}
    (hfinds : m.Finds s.fds) (hhand : m.hand = s.main.hand)
    (hstored : m.stored = s.main.stored) :
    Handover { s with main := m, allocThreads := allocThreads } where
  size := h.size
  finds := hfinds
  covers := h.covers
  counter := hstored ▸ h.counter
  held := h.held
  keeps := h.keeps
  custody := hhand ▸ h.custody

/-- `pthread_create`. -/
theorem Handover.create {s : State} (h : Handover s) :
    Handover { s with threads := s.threads ++ [.waitCounter] } := by
  have hclaims : (s.threads ++ [ThreadPc.waitCounter]).filterMap ThreadPc.claim = s.claims := by
    rw [List.filterMap_append]
    exact List.append_nil _
  constructor
  case size => exact h.size
  case finds => exact h.finds
  case covers =>
    rw [State.claims, hclaims]
    exact h.covers
  case counter =>
    rw [State.claims, hclaims]
    exact h.counter
  case held =>
    intro k
    rw [List.filterMap_append]
    exact (congrArg (List.count k) (List.append_nil _)).trans (h.held k)
  case keeps =>
    intro j pc hpc
    rcases List.getElem?_concat_eq_some.1 hpc with hold | ⟨-, rfl⟩
    · exact h.keeps j pc hold
    · trivial
  case custody => exact h.custody

/-- The main thread stores an fd in a free slot. -/
theorem Handover.store {s : State} (h : Handover s) {c index : ℕ} {locked : Bool}
    (hmain : s.main = .store c index) (hslot : s.clientsQ[index]? = some ⟨none, locked⟩) :
    Handover { s with main := .checkBusy, clientsQ := s.clientsQ.set index ⟨some c, locked⟩ } := by
  have hfd : s.fds[index]? = some none := by rw [State.fds, List.getElem?_map, hslot]; rfl
  have hused : s.used[index]? = some false := by rw [State.used, List.getElem?_map, hfd]; rfl
  have hfds : (s.clientsQ.set index ⟨some c, locked⟩).map TcpClient.clientFd =
    s.fds.set index (some c) := List.map_set
  constructor
  case size => exact List.length_set.trans h.size
  case finds => trivial
  case covers =>
    rw [State.used, State.fds, hfds, List.map_set]
    exact h.covers.fill hused
  case counter =>
    have hcount : (s.used.set index true).count true = s.used.count true + 1 :=
      List.countP_set_add hused (· == true) true
    have := h.counter
    rw [State.used, State.fds, hfds, List.map_set]
    change (s.used.set index true).count true = s.sems clientsCounter + s.claims.length + 1
    rw [hmain] at this
    rw [hcount, this]
    rfl
  case held =>
    have hlocks : (s.clientsQ.set index ⟨some c, locked⟩).map TcpClient.locked = s.locks :=
      List.map_set_of_eq hslot rfl
    intro k
    rw [State.locks, hlocks]
    exact h.held k
  case keeps =>
    intro j pc hpc
    rw [State.fds, hfds]
    refine (h.keeps j pc hpc).congr fun k c' _ hc' => ?_
    have hne : index ≠ k := by
      rintro rfl
      cases hfd.symm.trans hc'
    rwa [List.getElem?_set_ne hne]
  case custody =>
    intro c'
    have hcount := List.count_filterMap_set_add hfd id (some c) c'
    have := h.custody c'
    rw [State.fds, hfds]
    rw [hmain] at this
    rw [← this]
    simp only [MainPc.hand, List.count_append, id, Option.toList_none, Option.toList_some,
      List.count_nil] at hcount ⊢
    omega

/-- The main thread's next call, other than `accept`. -/
theorem Handover.classicMain {s t : State} {junk : TcpClient × TcpClient} (h : Handover s)
    (hstep : classicMain s junk = some t) : Handover t := by
  unfold Classic.classicMain at hstep
  split at hstep <;> rename_i hmain
  · obtain rfl := Option.some.inj hstep
    exact h.mainMove trivial (by rw [hmain]; rfl) (by rw [hmain]; rfl)
  · obtain rfl := Option.some.inj hstep
    exact (h.mainMove (m := .create _) trivial (by rw [hmain]; rfl) (by rw [hmain]; rfl)).create
  · cases hstep
  · rename_i c index
    have hfinds := h.finds
    rw [hmain] at hfinds
    obtain ⟨j, hle, hj⟩ := hfinds
    have hlt := List.lt_length_of_getElem?_eq_some hj
    rw [State.fds, List.length_map, h.size] at hlt
    rw [if_pos (by omega)] at hstep
    split at hstep <;> obtain rfl := Option.some.inj hstep
    · exact h.store hmain ‹_›
    · rename_i hused
      refine h.mainMove ⟨j, Nat.lt_of_le_of_ne hle ?_, hj⟩ (by rw [hmain]; rfl) (by rw [hmain]; rfl)
      rintro rfl
      rw [State.fds, List.getElem?_map] at hj
      obtain ⟨⟨fd, locked⟩, hslot, rfl⟩ := Option.map_eq_some_iff.1 hj
      exact hused locked hslot
  · split at hstep <;> obtain rfl := Option.some.inj hstep <;>
      exact h.mainMove trivial (by rw [hmain]; rfl) (by rw [hmain]; rfl)
  · obtain rfl := Option.some.inj hstep
    exact h.mainMove trivial (by rw [hmain]; rfl) (by rw [hmain]; rfl)
  · obtain rfl := Option.some.inj hstep
    exact (h.mainMove (m := .growThreads _) trivial (by rw [hmain]; rfl)
      (by rw [hmain]; rfl)).create
  · obtain rfl := Option.some.inj hstep
    refine ⟨h.size, trivial, h.covers, ?_, h.held, h.keeps, ?_⟩
    · have := h.counter
      rw [hmain] at this
      change s.used.count true = s.sems.post clientsCounter clientsCounter + s.claims.length + 0
      rw [Sems.post, Function.update_self, this]
      simp only [MainPc.stored, if_true]
      omega
    · have := h.custody
      rwa [hmain] at this

/-- A connection is accepted while a slot is free. -/
theorem Handover.accept {s : State} (h : Handover s) (hmain : s.main = .accept)
    (hfew : s.used.count true < s.allocClients) :
    Handover { s with main := .store s.accepted 0, accepted := s.accepted + 1 } where
  size := h.size
  finds := by
    have hfree : false ∈ s.used := by
      by_contra hnone
      have hall : ∀ b ∈ s.used, true = b := fun b hb => by
        cases b with
        | true => rfl
        | false => exact absurd hb hnone
      rw [List.count_eq_length.2 hall, State.used, State.fds, List.length_map, List.length_map,
        h.size] at hfew
      omega
    obtain ⟨fd, hmem, hfd⟩ := List.mem_map.1 hfree
    obtain ⟨j, hj⟩ := List.getElem?_of_mem hmem
    refine ⟨j, Nat.zero_le j, hj.trans (congrArg some ?_)⟩
    exact Option.isNone_iff_eq_none.1 (by simpa using hfd)
  covers := h.covers
  counter := by
    have := h.counter
    rwa [hmain] at this
  held := h.held
  keeps := h.keeps
  custody := fun c => by
    have := h.custody c
    rw [hmain] at this
    change (s.accepted :: (s.fds.filterMap id ++ s.freed.map Prod.snd)).count c =
      if c < s.accepted + 1 then 1 else 0
    change (s.fds.filterMap id ++ s.freed.map Prod.snd).count c = _ at this
    rw [List.count_cons, this]
    simp only [beq_iff_eq]
    split <;> split <;> split <;> omega

theorem handover_initial (allocThreads allocClients : ℕ) :
    Handover (initial allocThreads allocClients) := by
  have hfds : (initial allocThreads allocClients).fds = List.replicate allocClients none :=
    List.map_replicate
  have hlocks : (initial allocThreads allocClients).locks = List.replicate allocClients false :=
    List.map_replicate
  constructor
  case size => exact List.length_replicate
  case finds => trivial
  case covers => exact .nil _
  case counter =>
    rw [State.used, hfds, List.map_replicate, List.count_replicate]
    rfl
  case held =>
    intro k
    rw [hlocks, List.getElem?_replicate]
    split <;> rfl
  case keeps => exact fun i pc hpc => nomatch hpc
  case custody =>
    intro c
    rw [hfds]
    simp [initial, MainPc.hand]

/-- The condition on runs: few live connections, and no disturbance. -/
def Calm (s : State) (a : Action) : Prop := FewLive s a ∧ Undisturbed s a

theorem handover_of_reachable {s : State} (h : classicServer.ReachableUnder Calm s) :
    Handover s := by
  refine h.invariant (fun t ht => ?_) fun t a u _ hinv hcalm hstep => ?_
  · obtain ⟨allocThreads, allocClients, rfl⟩ := ht
    exact handover_initial allocThreads allocClients
  · cases a with
    | main junk => exact hinv.classicMain hstep
    | accept =>
      simp only [classicServer, step] at hstep
      split at hstep
      · obtain rfl := Option.some.inj hstep
        exact hinv.accept ‹_› hcalm.1
      · cases hstep
    | thread i ok => exact hinv.threadStep hcalm.2 (tcpServerThread_step hstep)

/-! ### The calls left to the workers -/

/-- A bound for the calls of a worker before it waits for the next client; `n` is
`alloc_clients`. -/
def ThreadPc.work (n : ℕ) : ThreadPc → ℕ
  | .postBusy => 2 * n + 9
  | .scan index => 2 * (n - index) + 8
  | .tryLock index => 2 * (n - index) + 7
  | .readFd _ => 7
  | .send .. => 6
  | .recv .. => 5
  | .postServed .. => 4
  | .close .. => 4
  | .clear .. => 3
  | .unlock _ => 2
  | .tryBusy => 1
  | .waitCounter => 0

/-- A bound for the calls of all workers before they wait for the next client. -/
def State.work (s : State) : ℕ :=
  (s.threads.map (ThreadPc.work s.allocClients)).sum +
    s.sems clientsCounter * (2 * s.allocClients + 10)

theorem ThreadPc.Moves.work_lt {pc pc' : ThreadPc} (h : pc.Moves pc') (n : ℕ) :
    pc'.work n < pc.work n := by
  cases h <;> simp only [ThreadPc.work] <;> omega

/-- Each call of a worker leaves less work. -/
theorem Handover.work_lt {s t : State} {i : ℕ} {ok : Bool} (h : Handover s)
    (hcond : Undisturbed s (.thread i ok)) (hstep : ThreadStep s i ok t) : t.work < s.work := by
  have hless : ∀ {pc pc' : ThreadPc} {sems : Sems} {q : List TcpClient} {freed : List (ℕ × ℕ)},
      s.threads[i]? = some pc → pc'.work s.allocClients < pc.work s.allocClients →
      sems clientsCounter = s.sems clientsCounter →
      State.work { s.setThread i pc' with sems := sems, clientsQ := q, freed := freed } <
        s.work := by
    intro pc pc' sems q freed hpc hlt hsems
    have hsum := List.sum_map_set_add hpc (ThreadPc.work s.allocClients) pc'
    simp only [State.work, State.setThread, hsems]
    omega
  cases hstep with
  | move hpc hmoves hsems => exact hless hpc (hmoves.work_lt _) hsems
  | wake hpc hpos =>
    have hsum := List.sum_map_set_add hpc (ThreadPc.work s.allocClients) .postBusy
    obtain ⟨n, hn⟩ := Nat.exists_eq_succ_of_ne_zero hpos
    simp only [State.work, State.setThread, Sems.take, Function.update_self, hn, ThreadPc.work,
      Nat.succ_sub_one, Nat.succ_mul] at hsum ⊢
    omega
  | pass hpc | skip hpc | lock hpc =>
    have hlt := h.scan_lt (List.mem_of_getElem? hpc) rfl
    exact hless hpc (by simp only [ThreadPc.work]; omega) rfl
  | notFound hpc hend =>
    exact absurd (h.scan_lt (List.mem_of_getElem? hpc) rfl) (Nat.not_lt.2 hend)
  | received hpc => cases hcond _ hpc
  | served hpc => exact (h.keeps i _ hpc).elim
  | read hpc | readNull hpc | clear hpc | unlock hpc =>
    exact hless hpc (by simp only [ThreadPc.work]; omega) rfl

/-! ### The hand-over -/

/-- What the acceptor and the workers keep. -/
structure HandedOver (s : State) : Prop where
  /-- No scan gets to `alloc_clients`, and no locked slot turns out to be empty. -/
  found : ∀ pc ∈ s.threads, (∀ index, pc = .scan index → index < s.allocClients) ∧
    ∀ index, pc ≠ .clear index none
  /-- The slot of the fd that a worker has taken is locked, and no other worker has the fd. -/
  taken : ∀ (i : ℕ) pc c, s.threads[i]? = some pc → pc.conn = some c →
    ∃ k, pc.slot = some k ∧ s.clientsQ[k]? = some ⟨some c, true⟩ ∧
      ∀ (j : ℕ) pc', s.threads[j]? = some pc' → pc'.conn = some c → j = i
  /-- An accepted fd is in the main thread's hand, in one slot, or served by one worker. -/
  once : ∀ c < s.accepted,
    (s.main.hand.toList ++ s.fds.filterMap id ++ s.freed.map Prod.snd).count c = 1
  /-- The workers do not go on for ever. -/
  works : ∀ i ok t, Undisturbed s (.thread i ok) → tcpServerThread s i ok = some t →
    t.work < s.work
  /-- When they all wait, every accepted fd has been served and its slot is free. -/
  settled : s.main = .accept → s.threads ≠ [] → (∀ i ok, tcpServerThread s i ok = none) →
    (∀ slot ∈ s.clientsQ, slot.clientFd = none) ∧
      (s.freed.map Prod.snd).Perm (List.range s.accepted)

/-- A worker that cannot go on waits for a client. -/
theorem Handover.blocked {s : State} (h : Handover s) {i : ℕ} {pc : ThreadPc}
    (hpc : s.threads[i]? = some pc) (hblocked : tcpServerThread s i true = none) :
    pc = .waitCounter ∧ s.sems clientsCounter = 0 := by
  unfold tcpServerThread at hblocked
  rw [hpc] at hblocked
  cases pc with
  | waitCounter => simpa using hblocked
  | scan index =>
    simp only at hblocked
    split at hblocked
    · split at hblocked <;> cases hblocked
    · cases hblocked
  | tryLock index | readFd index =>
    simp only at hblocked
    split at hblocked <;> cases hblocked
  | clear k c =>
    obtain ⟨c, -, hfd⟩ := (h.keeps i _ hpc).used
    rw [State.fds, List.getElem?_map, Option.map_eq_none_iff.1 hblocked] at hfd
    cases hfd
  | unlock k =>
    have hlock := h.locked (List.mem_of_getElem? hpc) rfl
    rw [State.locks, List.getElem?_map, Option.map_eq_none_iff.1 hblocked] at hlock
    cases hlock
  | _ => cases hblocked

theorem ThreadPc.Keeps.conn {fds : List (Option ℕ)} {pc : ThreadPc} {c : ℕ} (h : pc.Keeps fds)
    (hconn : pc.conn = some c) : ∃ k, pc.slot = some k ∧ fds[k]? = some (some c) := by
  cases pc with
  | send k c' | recv k c' | close k c' =>
    obtain rfl : c' = c := Option.some.inj hconn
    exact ⟨k, rfl, h⟩
  | clear k c' =>
    obtain rfl : c' = some c := hconn
    exact ⟨k, rfl, h⟩
  | postServed => exact h.elim
  | _ => cases hconn

/-- An fd is in one slot only. -/
theorem Handover.fds_unique {s : State} (h : Handover s) {k k' c : ℕ}
    (hk : s.fds[k]? = some (some c)) (hk' : s.fds[k']? = some (some c)) : k = k' := by
  have hcustody := h.custody c
  rw [List.count_append, List.count_append] at hcustody
  have hpos : 0 < (s.fds.filterMap id).count c :=
    List.count_pos_iff.2 (List.mem_filterMap.2 ⟨some c, List.mem_of_getElem? hk, rfl⟩)
  have hone : (s.fds.filterMap id).count c = 1 := by split at hcustody <;> omega
  exact (List.count_filterMap_eq_one_iff.1 hone).unique
    (Option.bind_eq_some_iff.2 ⟨_, hk, rfl⟩) (Option.bind_eq_some_iff.2 ⟨_, hk', rfl⟩)

/-- The slot of the fd that a worker serves holds it, and its mutex is held. -/
theorem Handover.taken {s : State} (h : Handover s) {pc : ThreadPc} {k c : ℕ}
    (hpc : pc ∈ s.threads) (hslot : pc.slot = some k) (hfd : s.fds[k]? = some (some c)) :
    s.clientsQ[k]? = some ⟨some c, true⟩ := by
  have hlock := h.locked hpc hslot
  rw [State.fds, List.getElem?_map] at hfd
  rw [State.locks, List.getElem?_map] at hlock
  obtain ⟨⟨fd, locked⟩, hget, rfl⟩ := Option.map_eq_some_iff.1 hfd
  rw [hget] at hlock ⊢
  exact congrArg (fun b => some (TcpClient.mk (some c) b)) (Option.some.inj hlock)

/-- When all workers wait, no slot holds an fd. -/
theorem Handover.all_free {s : State} (h : Handover s) (hmain : s.main = .accept)
    (hthreads : s.threads ≠ []) (hblocked : ∀ i ok, tcpServerThread s i ok = none) :
    ∀ slot ∈ s.clientsQ, slot.clientFd = none := by
  have hwait : ∀ pc ∈ s.threads, pc = .waitCounter ∧ s.sems clientsCounter = 0 := fun pc hpc =>
    (List.getElem?_of_mem hpc).elim fun i hi => h.blocked hi (hblocked i true)
  have hclaims : s.claims = [] := List.filterMap_eq_nil_iff.2 fun pc hpc => by
    rw [(hwait pc hpc).1]
    rfl
  have hcounter : s.sems clientsCounter = 0 :=
    (List.exists_mem_of_ne_nil _ hthreads).elim fun pc hpc => (hwait pc hpc).2
  have hused : s.used.count true = 0 := by
    rw [h.counter, hcounter, hclaims, hmain]
    rfl
  intro slot hslot
  by_contra hfd
  refine List.count_eq_zero.1 hused ?_
  refine List.mem_map.2 ⟨slot.clientFd, List.mem_map.2 ⟨slot, hslot, rfl⟩, ?_⟩
  exact Option.isSome_iff_ne_none.2 hfd

/-- Where no slot holds an fd, every accepted fd has been served. -/
theorem Handover.all_freed {s : State} (h : Handover s) (hmain : s.main = .accept)
    (hfree : ∀ slot ∈ s.clientsQ, slot.clientFd = none) :
    (s.freed.map Prod.snd).Perm (List.range s.accepted) := by
  refine List.perm_iff_count.2 fun c => ?_
  have hfds : s.fds.filterMap id = [] := List.filterMap_eq_nil_iff.2 fun fd hfd => by
    obtain ⟨slot, hslot, rfl⟩ := List.mem_map.1 hfd
    exact hfree slot hslot
  have hcustody := h.custody c
  rw [hmain, hfds] at hcustody
  rw [List.nodup_range.count]
  simpa [MainPc.hand] using hcustody

/-- **Hand-over.** As long as there is a free slot for every connection accepted, no message of
a client is received, and no mutex is tried that misleads: every worker that gets past
`sem_wait(clients_counter)` finds and locks a slot with an fd that no other worker has taken,
every accepted fd is served by one worker, and then its slot is freed. -/
theorem handed_over {s : State} (h : classicServer.ReachableUnder Calm s) : HandedOver s := by
  have hinv := handover_of_reachable h
  constructor
  case found =>
    intro pc hpc
    refine ⟨fun index hscan => hinv.scan_lt hpc (hscan ▸ rfl), ?_⟩
    rintro index rfl
    obtain ⟨i, hi⟩ := List.getElem?_of_mem hpc
    exact hinv.keeps i _ hi
  case taken =>
    intro i pc c hpc hconn
    obtain ⟨k, hslot, hfd⟩ := (hinv.keeps i pc hpc).conn hconn
    refine ⟨k, hslot, hinv.taken (List.mem_of_getElem? hpc) hslot hfd,
      fun j pc' hpc' hconn' => ?_⟩
    obtain ⟨k', hslot', hfd'⟩ := (hinv.keeps j pc' hpc').conn hconn'
    exact hinv.slot_unique hpc' hpc hslot' (hinv.fds_unique hfd hfd' ▸ hslot)
  case once =>
    intro c hc
    rw [hinv.custody c, if_pos hc]
  case works => exact fun i ok t hcond hstep => hinv.work_lt hcond (tcpServerThread_step hstep)
  case settled =>
    intro hmain hthreads hblocked
    have hfree := hinv.all_free hmain hthreads hblocked
    exact ⟨hfree, hinv.all_freed hmain hfree⟩

instance : ∀ s a, Decidable (FewLive s a)
  | _, .accept => inferInstanceAs (Decidable (_ < _))
  | _, .main _ | _, .thread .. => instDecidableTrue

instance (s : State) (k : ℕ) : Decidable (LockTells s k) :=
  inferInstanceAs (Decidable (∀ slot ∈ s.clientsQ[k]?,
    if slot.locked then slot.clientFd = none ∨ .unlock k ∉ s.threads else slot.clientFd ≠ none))

instance (s : State) (ok : Bool) : ∀ pc, Decidable (ThreadPc.Harmless s ok pc)
  | .recv .. => inferInstanceAs (Decidable (_ = _))
  | .tryLock k => inferInstanceAs (Decidable (LockTells s k))
  | .waitCounter | .postBusy | .scan _ | .readFd _ | .send .. | .postServed .. | .close ..
  | .clear .. | .unlock _ | .tryBusy => instDecidableTrue

instance (s : State) : ∀ a, Decidable (Undisturbed s a)
  | .thread i ok => inferInstanceAs (Decidable (∀ pc ∈ s.threads[i]?, pc.Harmless s ok))
  | .main _ | .accept => instDecidableTrue

instance (s : State) (a : Action) : Decidable (Calm s a) := inferInstanceAs (Decidable (_ ∧ _))

def mainCall : Action := .main (⟨none, false⟩, ⟨none, false⟩)

/-- One client comes, and a worker has sent its message to it. -/
def oneGreeted : List Action :=
  List.replicate 3 mainCall ++ Action.accept :: List.replicate 3 mainCall ++
    List.replicate 6 (Action.thread 0 true)

/-- The client leaves without a message, and its slot is freed. -/
def freed : State :=
  (classicServer.runUnder Calm (initial 2 2)
    (oneGreeted ++ List.replicate 5 (Action.thread 0 false))).get (by decide +kernel)

theorem handed_over_freed : HandedOver freed :=
  handed_over (Machine.reachableUnder_of_run ⟨2, 2, rfl⟩ (Option.some_get _).symm)

/-- The client sends a message, and the post of `served_clients` wakes up a second worker. -/
def misled : State :=
  (classicServer.runUnder FewLive (initial 2 2)
    (oneGreeted ++ List.replicate 2 (Action.thread 0 true) ++
      List.replicate 6 (Action.thread 1 true))).get (by decide +kernel)

/-- The second worker's scan has ended at `alloc_clients`, and it writes to that entry next. -/
theorem not_handed_over : ¬ ∀ s, classicServer.ReachableUnder FewLive s → HandedOver s := by
  intro h
  have hover := h misled (Machine.reachableUnder_of_run ⟨2, 2, rfl⟩ (Option.some_get _).symm)
  have hmem : ThreadPc.clear 2 none ∈ misled.threads := by decide +kernel
  exact (hover.found _ hmem).2 2 rfl

end EmbeddedC.ClientService.Classic
