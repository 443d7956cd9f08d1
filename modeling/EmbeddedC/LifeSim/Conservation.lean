import EmbeddedC.LifeSim.Threads

/-!
# Homework 8: nothing is lost and nobody buys too much

What the stores hold and what the customers have bought is what the stores held at first and what
the loaders have brought.

* `shop_spec`: what one visit to a store does;
* `Buyer.Ok`, `Balance`: the invariant of a customer, and of all;
* `conservation`: the balance in every reachable state, for all numbers of threads and stores.
-/

namespace EmbeddedC.LifeSim

variable {C : Config} {s t : State} {i : ℕ}

/-- A customer pays with its need for what it takes, and takes no more than there is. -/
theorem shop_spec {need store : ℤ} (hneed : 0 ≤ need) (hstore : 0 ≤ store) :
    0 ≤ (shop need store).1 ∧ (shop need store).1 ≤ store ∧ 0 ≤ (shop need store).2 ∧
      (shop need store).2 + (store - (shop need store).1) = need := by
  unfold shop
  split_ifs <;> refine ⟨?_, ?_, ?_, ?_⟩ <;> dsimp only <;> omega

/-- What a customer needs and what it has bought is what it needed at first. -/
structure Buyer.Ok (C : Config) (b : Buyer) : Prop where
  need_nonneg : 0 ≤ b.need
  bought_nonneg : 0 ≤ b.bought
  balance : b.need + b.bought = C.customerNeed
  ended : b.pc = .ended → b.need = 0

/-- The invariant of a run. -/
structure Balance (C : Config) (s : State) : Prop where
  goods : (s.stores.map Store.store).sum + (s.buyers.map Buyer.bought).sum =
    C.storesNum * C.defStoreCap + C.loaderIncrement * s.loads
  stock_nonneg (k : ℕ) (st : Store) : s.stores[k]? = some st → 0 ≤ st.store
  buyers (j : ℕ) (b : Buyer) : s.buyers[j]? = some b → b.Ok C

theorem balance_initial (C : Config) : Balance C (initial C) where
  goods := by simp [initial]
  stock_nonneg k st hst := by
    obtain rfl := List.eq_of_mem_replicate (List.mem_of_getElem? hst)
    exact Int.natCast_nonneg _
  buyers j b hb := by simp [initial] at hb

namespace Balance

/-- A step that does not touch customers, stocks or loads. -/
theorem same (h : Balance C s) (hstores : t.stores.map Store.store = s.stores.map Store.store)
    (hbuyers : t.buyers = s.buyers) (hloads : t.loads = s.loads) : Balance C t where
  goods := by rw [hstores, hbuyers, hloads, h.goods]
  stock_nonneg k st hst := by
    have hmap : (t.stores.map Store.store)[k]? = some st.store := by
      rw [List.getElem?_map, hst]
      rfl
    rw [hstores, List.getElem?_map] at hmap
    obtain ⟨st', hst', heq⟩ := Option.map_eq_some_iff.1 hmap
    exact heq ▸ h.stock_nonneg k st' hst'
  buyers := hbuyers ▸ h.buyers

theorem setLocked (h : Balance C s) (index : ℕ) (locked : Bool) :
    Balance C (s.setLocked index locked) :=
  h.same (List.map_modify_of_eq fun _ => rfl) rfl rfl

theorem setLoader (h : Balance C s) (i : ℕ) (pc : LoaderPc) : Balance C (s.setLoader i pc) :=
  h.same rfl rfl rfl

/-- A customer moves on; it ends only when its need is met. -/
theorem setBuyer (h : Balance C s) {pc : BuyerPc}
    (hend : pc = .ended → ∀ b, s.buyers[i]? = some b → b.need ≤ 0) :
    Balance C (s.setBuyer i pc) where
  goods := by
    have hbought : (s.setBuyer i pc).buyers.map Buyer.bought = s.buyers.map Buyer.bought :=
      List.map_modify_of_eq fun _ => rfl
    rw [hbought]
    exact h.goods
  stock_nonneg := h.stock_nonneg
  buyers := List.modify_forall h.buyers fun b hb =>
    have hok := h.buyers i b hb
    { hok with ended := fun hpc => le_antisymm (hend hpc b hb) hok.need_nonneg }

/-- A load is completed. -/
theorem load (h : Balance C s) {index : ℕ} {st : Store} (hst : s.stores[index]? = some st) :
    Balance C { s with
      stores := s.stores.set index { st with store := st.store + C.loaderIncrement }
      loads := s.loads + 1 } where
  goods := by
    have hsum := List.sum_map_set_add hst Store.store
      { st with store := st.store + C.loaderIncrement }
    have hgoods := h.goods
    simp only [Nat.cast_add, Nat.cast_one, mul_add, mul_one] at hsum ⊢
    omega
  stock_nonneg := List.set_forall h.stock_nonneg
    (Int.add_nonneg (h.stock_nonneg index st hst) (Int.natCast_nonneg _))
  buyers := h.buyers

/-- A customer visits a store. -/
theorem shop (h : Balance C s) {index : ℕ} {st : Store} {pc : BuyerPc} {need bought : ℤ}
    (hb : s.buyers[i]? = some ⟨pc, need, bought⟩) (hst : s.stores[index]? = some st) :
    Balance C { s with
      stores := s.stores.set index { st with store := (LifeSim.shop need st.store).1 }
      buyers := s.buyers.set i ⟨.unlock index, (LifeSim.shop need st.store).2,
        bought + (st.store - (LifeSim.shop need st.store).1)⟩ } := by
  have hok := h.buyers i _ hb
  obtain ⟨hleft, hle, hneed, hpaid⟩ := shop_spec hok.need_nonneg (h.stock_nonneg index st hst)
  constructor
  case goods =>
    have hstores := List.sum_map_set_add hst Store.store
      { st with store := (LifeSim.shop need st.store).1 }
    have hbuyers := List.sum_map_set_add hb Buyer.bought ⟨.unlock index,
      (LifeSim.shop need st.store).2, bought + (st.store - (LifeSim.shop need st.store).1)⟩
    have hgoods := h.goods
    simp only at hstores hbuyers hgoods ⊢
    omega
  case stock_nonneg => exact List.set_forall h.stock_nonneg hleft
  case buyers =>
    refine List.set_forall h.buyers ⟨hneed, ?_, ?_, nofun⟩
    · exact Int.add_nonneg hok.bought_nonneg (Int.sub_nonneg.2 hle)
    · have hbalance : need + bought = C.customerNeed := hok.balance
      simp only at hpaid ⊢
      omega

theorem step (h : Balance C s) (hstep : ThreadStep C s t) : Balance C t := by
  cases hstep with
  | loadersCreated | createLoader | buyersCreated | join | joined | cancel | cancelled =>
    exact h.same rfl rfl rfl
  | createBuyer =>
    -- a new customer has bought nothing
    refine ⟨?_, h.stock_nonneg, List.concat_forall h.buyers ?_⟩
    · simpa using h.goods
    · exact ⟨Int.natCast_nonneg _, le_rfl, by simp, nofun⟩
  | loaderAgain | loaderPass | loaderSleep | endLoader => exact h.setLoader _ _
  | loaderLock | loaderUnlock => exact (h.setLocked _ _).setLoader _ _
  | load hl hst => exact (h.setLoader _ _).load hst
  | buyerCheck | buyerAgain => exact h.setBuyer nofun
  | buyerEnd hb hneed =>
    refine h.setBuyer fun _ b hb' => ?_
    obtain rfl := Option.some.inj (hb.symm.trans hb')
    exact hneed
  | buyerLock | buyerUnlock => exact (h.setLocked _ _).setBuyer nofun
  | shop hb hst => exact h.shop hb hst

end Balance

theorem balance_of_reachable (h : (lifeSim C).Reachable s) : Balance C s := by
  refine h.invariant (fun s hs => ?_) fun s a t _ hinv hstep => hinv.step (.of_step hstep)
  obtain rfl := hs
  exact balance_initial C

/-- What holds at every moment of a simulation. -/
structure Conserved (C : Config) (s : State) : Prop where
  goods : (s.stores.map Store.store).sum + (s.buyers.map Buyer.bought).sum =
    C.storesNum * C.defStoreCap + C.loaderIncrement * s.loads
  stock_nonneg : ∀ st ∈ s.stores, 0 ≤ st.store
  need_nonneg : ∀ b ∈ s.buyers, 0 ≤ b.need
  bought_le : ∀ b ∈ s.buyers, b.bought ≤ C.customerNeed
  fulfilled : ∀ b ∈ s.buyers, b.pc = .ended → b.bought = C.customerNeed

/-- **Conservation.** For all numbers of loaders, customers and stores, and all amounts, stocks and
purchases make up what there was at first and what has been loaded, no customer buys more than it
needs, and one that has ended has bought exactly that. -/
theorem conservation (h : (lifeSim C).Reachable s) : Conserved C s := by
  have hinv := balance_of_reachable h
  have hbuyers (b : Buyer) (hb : b ∈ s.buyers) : b.Ok C :=
    (List.getElem?_of_mem hb).elim fun i hi => hinv.buyers i b hi
  refine ⟨hinv.goods, fun st hst => ?_, fun b hb => (hbuyers b hb).need_nonneg, fun b hb => ?_,
    fun b hb hpc => ?_⟩
  · obtain ⟨k, hk⟩ := List.getElem?_of_mem hst
    exact hinv.stock_nonneg k st hk
  · have hbalance := (hbuyers b hb).balance
    have hneed := (hbuyers b hb).need_nonneg
    omega
  · have hbalance := (hbuyers b hb).balance
    rw [(hbuyers b hb).ended hpc, zero_add] at hbalance
    exact hbalance

/-- One loader that brings 4, one customer who needs 5, one store that holds 3. -/
def oneOfEach : Config where
  loaderThreadNum := 1
  loaderIncrement := 4
  customerThreadNum := 1
  customerNeed := 5
  storesNum := 1
  defStoreCap := 3

/-- The customer takes 3, the loader brings 4, and the customer comes back for the remaining 2. -/
def shopping : List Action :=
  List.replicate 4 Action.main ++ List.replicate 4 (Action.buyer 0) ++
    List.replicate 3 (Action.loader 0) ++ List.replicate 7 (Action.buyer 0)

theorem conservation_shopping : Conserved oneOfEach
    (((lifeSim oneOfEach).run (initial oneOfEach) shopping).get (by decide +kernel)) :=
  conservation (Machine.reachable_of_run rfl (Option.some_get _).symm)

end EmbeddedC.LifeSim
