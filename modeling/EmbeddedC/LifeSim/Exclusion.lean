import EmbeddedC.LifeSim.Threads

/-!
# Homework 8: the sections of the stores

Loaders and customers take the mutex of a store before they look at its stock, and a step of the
model is a whole section.  `exclusive` says that this is no loss: at any time at most one thread is
in the section of a store, and none if the store is unlocked.

* `State.inside`: how many threads are in a section;
* `Exclusive.enter`, `Exclusive.leave`, `Exclusive.keep`: the three kinds of steps;
* `exclusive`: every reachable state.
-/

namespace EmbeddedC.LifeSim

variable {C : Config} {s t : State} {i k index : ℕ}

/-- The store whose section a loader is in. -/
def LoaderPc.inside : LoaderPc → Option ℕ
  | .load index | .unlock index => some index
  | _ => none

/-- The store whose section a customer is in. -/
def BuyerPc.inside : BuyerPc → Option ℕ
  | .shop index | .unlock index => some index
  | _ => none

namespace State

/-- The number of threads in the section of the store at `k`. -/
def inside (s : State) (k : ℕ) : ℕ :=
  s.loaders.countP (fun l => l.pc.inside = some k) +
    s.buyers.countP (fun b => b.pc.inside = some k)

/-- Which stores are locked. -/
def locks (s : State) : List Bool := s.stores.map Store.locked

end State

/-- At most one thread is in the section of a store, and none if it is unlocked. -/
def Exclusive (s : State) : Prop := ∀ (k : ℕ) b, s.locks[k]? = some b → s.inside k ≤ b.toNat

theorem locks_setLocked (s : State) (index : ℕ) (locked : Bool) :
    (s.setLocked index locked).locks = s.locks.set index locked := by
  cases h : s.stores[index]? with
  | none =>
    have hlen := List.getElem?_eq_none_iff.1 h
    rw [State.locks, State.locks, State.setLocked, List.modify_eq_self hlen,
      List.set_eq_of_length_le (by simpa using hlen)]
  | some st =>
    rw [State.locks, State.locks, State.setLocked, List.modify_eq_set_of_getElem? h, List.map_set]

theorem locks_of_store {st : Store} (hst : s.stores[index]? = some st) :
    s.locks[index]? = some st.locked := by
  rw [State.locks, List.getElem?_map, hst]
  rfl

theorem inside_setLoader {l : Loader} (hl : s.loaders[i]? = some l) (pc : LoaderPc) (k : ℕ) :
    (s.setLoader i pc).inside k + (if l.pc.inside = some k then 1 else 0) =
      s.inside k + if pc.inside = some k then 1 else 0 := by
  have hcount := List.countP_modify_add hl (fun l => l.pc.inside = some k)
    fun l => { l with pc := pc }
  simp only [decide_eq_true_eq] at hcount
  simp only [State.inside, State.setLoader]
  omega

theorem inside_setBuyer {b : Buyer} (hb : s.buyers[i]? = some b) (pc : BuyerPc) (k : ℕ) :
    (s.setBuyer i pc).inside k + (if b.pc.inside = some k then 1 else 0) =
      s.inside k + if pc.inside = some k then 1 else 0 := by
  have hcount := List.countP_modify_add hb (fun b => b.pc.inside = some k)
    fun b => { b with pc := pc }
  simp only [decide_eq_true_eq] at hcount
  simp only [State.inside, State.setBuyer]
  omega

namespace Exclusive

/-- A step that locks nothing and lets nobody in. -/
theorem keep (h : Exclusive s) (hlocks : t.locks = s.locks)
    (hinside : ∀ k, t.inside k ≤ s.inside k) : Exclusive t :=
  fun k b hb => (hinside k).trans (h k b (hlocks ▸ hb))

/-- A thread locks a store. -/
theorem enter (h : Exclusive s) (hfree : s.locks[index]? = some false)
    (hlocks : t.locks = s.locks.set index true)
    (hinside : ∀ k, t.inside k = s.inside k + if some index = some k then 1 else 0) :
    Exclusive t := by
  intro k b hb
  rw [hinside k]
  by_cases hk : index = k
  · subst hk
    rw [hlocks, List.getElem?_set_self (List.lt_length_of_getElem?_eq_some hfree)] at hb
    obtain rfl := Option.some.inj hb
    have := h index false hfree
    simpa using this
  · rw [hlocks, List.getElem?_set_ne hk] at hb
    rw [if_neg (by simpa using hk)]
    exact h k b hb

/-- A thread unlocks the store it has locked. -/
theorem leave (h : Exclusive s) (hlocks : t.locks = s.locks.set index false)
    (hinside : ∀ k, t.inside k + (if some index = some k then 1 else 0) = s.inside k) :
    Exclusive t := by
  intro k b hb
  have hk' := hinside k
  by_cases hk : index = k
  · subst hk
    rw [if_pos rfl] at hk'
    rw [hlocks, List.getElem?_set] at hb
    simp only [if_true] at hb
    split at hb
    · rename_i hlt
      obtain rfl := Option.some.inj hb
      have := h index _ (List.getElem?_eq_getElem hlt)
      have := Bool.toNat_le s.locks[index]
      omega
    · cases hb
  · rw [hlocks, List.getElem?_set_ne hk] at hb
    rw [if_neg (by simpa using hk)] at hk'
    exact hk'.le.trans (h k b hb)

/-- A loader moves on without entering or leaving a section, or leaves one by its end. -/
theorem setLoader (h : Exclusive s) {l : Loader} (hl : s.loaders[i]? = some l) {pc : LoaderPc}
    (hpc : ∀ k, pc.inside = some k → l.pc.inside = some k) : Exclusive (s.setLoader i pc) :=
  h.keep rfl fun k => Nat.add_le_add_right (List.countP_modify_le hl (by simpa using hpc k)) _

theorem setBuyer (h : Exclusive s) {b : Buyer} (hb : s.buyers[i]? = some b) {pc : BuyerPc}
    (hpc : ∀ k, pc.inside = some k → b.pc.inside = some k) : Exclusive (s.setBuyer i pc) :=
  h.keep rfl fun k => Nat.add_le_add_left (List.countP_modify_le hb (by simpa using hpc k)) _

theorem step (h : Exclusive s) (hstep : ThreadStep C s t) : Exclusive t := by
  cases hstep with
  | loadersCreated | buyersCreated | join | joined | cancelled => exact h
  | createLoader => exact h.keep rfl fun k => by simp [State.inside, LoaderPc.inside]
  | createBuyer => exact h.keep rfl fun k => by simp [State.inside, BuyerPc.inside]
  | cancel hmain hlt =>
    have hl := List.getElem?_eq_getElem hlt
    exact h.keep rfl fun k => Nat.add_le_add_right (List.countP_modify_le hl id) _
  | loaderAgain hl | loaderPass hl | loaderSleep hl => exact h.setLoader hl nofun
  | endLoader hl => exact h.setLoader hl nofun
  | @loaderLock _ index _ _ hl hst =>
    exact h.enter (locks_of_store hst) (locks_setLocked s index true) fun k =>
      inside_setLoader (s := s.setLocked index true) hl (.load index) k
  | @load i index _ _ hl hst =>
    have hmoved : Exclusive (s.setLoader i (.unlock index)) := h.setLoader hl fun k hk => hk
    exact hmoved.keep (List.map_set_of_eq hst rfl) fun k => le_rfl
  | @loaderUnlock _ index _ hl =>
    exact h.leave (locks_setLocked s index false) fun k =>
      inside_setLoader (s := s.setLocked index false) hl (.sleep index) k
  | buyerCheck hb | buyerEnd hb | buyerAgain hb => exact h.setBuyer hb nofun
  | @buyerLock _ index _ _ _ hb hst =>
    exact h.enter (locks_of_store hst) (locks_setLocked s index true) fun k =>
      inside_setBuyer (s := s.setLocked index true) hb (.shop index) k
  | shop hb hst =>
    refine h.keep (List.map_set_of_eq hst rfl) fun k =>
      Nat.add_le_add_left (List.countP_set_le hb ?_) _
    exact id
  | @buyerUnlock _ index _ _ hb =>
    exact h.leave (locks_setLocked s index false) fun k =>
      inside_setBuyer (s := s.setLocked index false) hb (.lock (index + 1)) k

end Exclusive

/-- **Mutual exclusion.** At most one thread is in the section of a store, and none if the store is
unlocked. -/
theorem exclusive (h : (lifeSim C).Reachable s) : Exclusive s := by
  refine h.invariant (fun s hs => ?_) fun s a t _ hinv hstep => hinv.step (.of_step hstep)
  obtain rfl := hs
  exact fun k b _ => Nat.zero_le _

/-- One loader, one customer and one store. -/
def smallShop : Config := ⟨1, 4, 1, 5, 1, 3⟩

/-- The customer has locked the store. -/
def shopLocked : State := ((lifeSim smallShop).run (initial smallShop)
  (List.replicate 4 .main ++ List.replicate 2 (.buyer 0))).get (by decide +kernel)

theorem exclusive_shop : Exclusive shopLocked ∧ shopLocked.inside 0 = 1 :=
  ⟨exclusive (Machine.reachable_of_run rfl (Option.some_get _).symm), by decide +kernel⟩

end EmbeddedC.LifeSim
