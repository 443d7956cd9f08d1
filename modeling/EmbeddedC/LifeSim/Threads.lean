import EmbeddedC.Lib.Machine
import EmbeddedC.Lib.Slots

/-!
# Homework 8: the life simulator

Loaders bring goods to the stores and customers buy from them; every store has a mutex.  A loader
passes by a store that is locked, a customer waits for it.

* `Config`: the constants of `functions.h`;
* `loaderThread`, `buyerThread`: one call of a thread, or one section under a mutex;
* `firstTask`: the main thread, which creates the threads, waits for the customers and cancels the
  loaders;
* `lifeSim`: all threads, interleaved;
* `ThreadStep`: what a step can do.

A section under a mutex is one step: no other thread is in the section of that store.
-/

namespace EmbeddedC.LifeSim

/-- The constants of the simulation. -/
structure Config where
  loaderThreadNum : ℕ
  loaderIncrement : ℕ
  customerThreadNum : ℕ
  customerNeed : ℕ
  storesNum : ℕ
  defStoreCap : ℕ

/-- `struct store_t` -/
structure Store where
  store : ℤ
  locked : Bool
  deriving DecidableEq

/-- Where a `_loader_thread` is; `index` is its loop variable. -/
inductive LoaderPc
  /-- at `pthread_mutex_trylock`, or at the end of the loop -/
  | tryLock (index : ℕ)
  /-- the store is locked and its stock is increased next -/
  | load (index : ℕ)
  /-- at `printf` and `pthread_mutex_unlock` -/
  | unlock (index : ℕ)
  /-- at `sleep` -/
  | sleep (index : ℕ)
  | cancelled
  deriving DecidableEq

/-- A loader; `cancel` says that its cancellation has been requested. -/
structure Loader where
  pc : LoaderPc
  cancel : Bool
  deriving DecidableEq

/-- Where a `_buyer_thread` is; `index` is its loop variable. -/
inductive BuyerPc
  /-- at `while (0 < need)` -/
  | check
  /-- at `pthread_mutex_lock`, or at the end of the inner loop -/
  | lock (index : ℕ)
  /-- the store is locked and its stock is looked at next -/
  | shop (index : ℕ)
  /-- at `pthread_mutex_unlock` -/
  | unlock (index : ℕ)
  /-- after the `return` -/
  | ended
  deriving DecidableEq

/-- A customer.  `bought` is the history of what it has taken from the stores. -/
structure Buyer where
  pc : BuyerPc
  need : ℤ
  bought : ℤ
  deriving DecidableEq

/-- Where the main thread is; `left` counts `pthread_create` calls to come. -/
inductive MainPc
  | createLoaders (left : ℕ)
  | createBuyers (left : ℕ)
  | join (index : ℕ)
  | cancel (index : ℕ)
  | returned
  deriving DecidableEq

/-- The threads and the stores; `loads` counts the loads that have been completed. -/
structure State where
  main : MainPc
  loaders : List Loader
  buyers : List Buyer
  stores : List Store
  loads : ℕ
  deriving DecidableEq

/-- What happens next: a step of the main thread, of loader `i` or of customer `i`, or the
cancellation of loader `i` takes effect. -/
inductive Action
  | main
  | loader (i : ℕ)
  | buyer (i : ℕ)
  | endLoader (i : ℕ)
  deriving DecidableEq

/-- The stores are filled and unlocked, and no thread has been created. -/
def initial (C : Config) : State where
  main := .createLoaders C.loaderThreadNum
  loaders := []
  buyers := []
  stores := List.replicate C.storesNum ⟨C.defStoreCap, false⟩
  loads := 0

namespace State

/-- Move loader `i` to `pc`. -/
def setLoader (s : State) (i : ℕ) (pc : LoaderPc) : State :=
  { s with loaders := s.loaders.modify i fun l => { l with pc := pc } }

/-- Move customer `i` to `pc`. -/
def setBuyer (s : State) (i : ℕ) (pc : BuyerPc) : State :=
  { s with buyers := s.buyers.modify i fun b => { b with pc := pc } }

/-- Lock or unlock the store at `index`. -/
def setLocked (s : State) (index : ℕ) (locked : Bool) : State :=
  { s with stores := s.stores.modify index fun st => { st with locked := locked } }

end State

/-- The next step of loader `i`. -/
def loaderThread (C : Config) (s : State) (i : ℕ) : Option State :=
  match s.loaders[i]? with
  | none | some ⟨.cancelled, _⟩ => none
  | some ⟨.tryLock index, _⟩ =>
    match s.stores[index]? with
    -- the end of the loop over the stores
    | none => some (s.setLoader i (.tryLock 0))
    | some ⟨_, true⟩ => some (s.setLoader i (.tryLock (index + 1)))
    | some ⟨_, false⟩ => some ((s.setLocked index true).setLoader i (.load index))
  | some ⟨.load index, _⟩ =>
    (s.stores[index]?).map fun st => { s.setLoader i (.unlock index) with
      stores := s.stores.set index { st with store := st.store + C.loaderIncrement }
      loads := s.loads + 1 }
  | some ⟨.unlock index, _⟩ => some ((s.setLocked index false).setLoader i (.sleep index))
  | some ⟨.sleep index, _⟩ => some (s.setLoader i (.tryLock (index + 1)))

/-- A loader that is to be cancelled ends at `printf` or in `sleep`. -/
def endLoader (s : State) (i : ℕ) : Option State :=
  match s.loaders[i]? with
  | some ⟨.unlock _, true⟩ | some ⟨.sleep _, true⟩ => some (s.setLoader i .cancelled)
  | _ => none

/-- What a customer with need `need` leaves in a store, and needs afterwards. -/
def shop (need store : ℤ) : ℤ × ℤ :=
  if store = 0 then (store, need)
  else if need > store then (0, need - store)
  else (store - need, 0)

/-- The next step of customer `i`; `none` while it waits for a mutex, and at its end. -/
def buyerThread (s : State) (i : ℕ) : Option State :=
  match s.buyers[i]? with
  | none | some ⟨.ended, _, _⟩ => none
  | some ⟨.check, need, _⟩ =>
    if 0 < need then some (s.setBuyer i (.lock 0)) else some (s.setBuyer i .ended)
  | some ⟨.lock index, _, _⟩ =>
    match s.stores[index]? with
    | none => some (s.setBuyer i .check)
    | some ⟨_, true⟩ => none
    | some ⟨_, false⟩ => some ((s.setLocked index true).setBuyer i (.shop index))
  | some ⟨.shop index, need, bought⟩ =>
    (s.stores[index]?).map fun st =>
      let left := shop need st.store
      { s with
        stores := s.stores.set index { st with store := left.1 }
        buyers := s.buyers.set i ⟨.unlock index, left.2, bought + (st.store - left.1)⟩ }
  | some ⟨.unlock index, _, _⟩ => some ((s.setLocked index false).setBuyer i (.lock (index + 1)))

/-- The next step of the main thread; `none` while it waits for a customer, and at its end. -/
def firstTask (C : Config) (s : State) : Option State :=
  match s.main with
  | .createLoaders 0 => some { s with main := .createBuyers C.customerThreadNum }
  | .createLoaders (left + 1) =>
    some { s with main := .createLoaders left, loaders := s.loaders ++ [⟨.tryLock 0, false⟩] }
  | .createBuyers 0 => some { s with main := .join 0 }
  | .createBuyers (left + 1) =>
    some { s with main := .createBuyers left, buyers := s.buyers ++ [⟨.check, C.customerNeed, 0⟩] }
  | .join index =>
    match s.buyers[index]? with
    | none => some { s with main := .cancel 0 }
    | some b => if b.pc = .ended then some { s with main := .join (index + 1) } else none
  | .cancel index =>
    if index < s.loaders.length then
      some { s with
        main := .cancel (index + 1)
        loaders := s.loaders.modify index fun l => { l with cancel := true } }
    else some { s with main := .returned }
  | .returned => none

def step (C : Config) (s : State) : Action → Option State
  | .main => firstTask C s
  | .loader i => loaderThread C s i
  | .buyer i => buyerThread s i
  | .endLoader i => endLoader s i

/-- The life simulator: all threads, interleaved. -/
def lifeSim (C : Config) : Machine State Action where
  init s := s = initial C
  step := step C

/-! ### What a step does -/

/-- What happens in one step, by cases. -/
inductive ThreadStep (C : Config) (s : State) : State → Prop
  | loadersCreated (hmain : s.main = .createLoaders 0) :
    ThreadStep C s { s with main := .createBuyers C.customerThreadNum }
  | createLoader {left : ℕ} (hmain : s.main = .createLoaders (left + 1)) :
    ThreadStep C s { s with
      main := .createLoaders left
      loaders := s.loaders ++ [⟨.tryLock 0, false⟩] }
  | buyersCreated (hmain : s.main = .createBuyers 0) : ThreadStep C s { s with main := .join 0 }
  | createBuyer {left : ℕ} (hmain : s.main = .createBuyers (left + 1)) :
    ThreadStep C s { s with
      main := .createBuyers left
      buyers := s.buyers ++ [⟨.check, C.customerNeed, 0⟩] }
  | join {index : ℕ} {b : Buyer} (hmain : s.main = .join index)
    (hb : s.buyers[index]? = some b) (hended : b.pc = .ended) :
    ThreadStep C s { s with main := .join (index + 1) }
  | joined {index : ℕ} (hmain : s.main = .join index) (hb : s.buyers[index]? = none) :
    ThreadStep C s { s with main := .cancel 0 }
  | cancel {index : ℕ} (hmain : s.main = .cancel index) (hlt : index < s.loaders.length) :
    ThreadStep C s { s with
      main := .cancel (index + 1)
      loaders := s.loaders.modify index fun l => { l with cancel := true } }
  | cancelled {index : ℕ} (hmain : s.main = .cancel index) (hle : s.loaders.length ≤ index) :
    ThreadStep C s { s with main := .returned }
  | loaderAgain {i index : ℕ} {cancel : Bool}
    (hl : s.loaders[i]? = some ⟨.tryLock index, cancel⟩) (hst : s.stores[index]? = none) :
    ThreadStep C s (s.setLoader i (.tryLock 0))
  | loaderPass {i index : ℕ} {cancel : Bool} {store : ℤ}
    (hl : s.loaders[i]? = some ⟨.tryLock index, cancel⟩)
    (hst : s.stores[index]? = some ⟨store, true⟩) :
    ThreadStep C s (s.setLoader i (.tryLock (index + 1)))
  | loaderLock {i index : ℕ} {cancel : Bool} {store : ℤ}
    (hl : s.loaders[i]? = some ⟨.tryLock index, cancel⟩)
    (hst : s.stores[index]? = some ⟨store, false⟩) :
    ThreadStep C s ((s.setLocked index true).setLoader i (.load index))
  | load {i index : ℕ} {cancel : Bool} {st : Store}
    (hl : s.loaders[i]? = some ⟨.load index, cancel⟩) (hst : s.stores[index]? = some st) :
    ThreadStep C s { s.setLoader i (.unlock index) with
      stores := s.stores.set index { st with store := st.store + C.loaderIncrement }
      loads := s.loads + 1 }
  | loaderUnlock {i index : ℕ} {cancel : Bool}
    (hl : s.loaders[i]? = some ⟨.unlock index, cancel⟩) :
    ThreadStep C s ((s.setLocked index false).setLoader i (.sleep index))
  | loaderSleep {i index : ℕ} {cancel : Bool}
    (hl : s.loaders[i]? = some ⟨.sleep index, cancel⟩) :
    ThreadStep C s (s.setLoader i (.tryLock (index + 1)))
  | endLoader {i index : ℕ} {pc : LoaderPc} (hl : s.loaders[i]? = some ⟨pc, true⟩)
    (hpc : pc = .unlock index ∨ pc = .sleep index) : ThreadStep C s (s.setLoader i .cancelled)
  | buyerCheck {i : ℕ} {need bought : ℤ} (hb : s.buyers[i]? = some ⟨.check, need, bought⟩)
    (hneed : 0 < need) : ThreadStep C s (s.setBuyer i (.lock 0))
  | buyerEnd {i : ℕ} {need bought : ℤ} (hb : s.buyers[i]? = some ⟨.check, need, bought⟩)
    (hneed : need ≤ 0) : ThreadStep C s (s.setBuyer i .ended)
  | buyerAgain {i index : ℕ} {need bought : ℤ}
    (hb : s.buyers[i]? = some ⟨.lock index, need, bought⟩) (hst : s.stores[index]? = none) :
    ThreadStep C s (s.setBuyer i .check)
  | buyerLock {i index : ℕ} {need bought store : ℤ}
    (hb : s.buyers[i]? = some ⟨.lock index, need, bought⟩)
    (hst : s.stores[index]? = some ⟨store, false⟩) :
    ThreadStep C s ((s.setLocked index true).setBuyer i (.shop index))
  | shop {i index : ℕ} {need bought : ℤ} {st : Store}
    (hb : s.buyers[i]? = some ⟨.shop index, need, bought⟩) (hst : s.stores[index]? = some st) :
    ThreadStep C s { s with
      stores := s.stores.set index { st with store := (shop need st.store).1 }
      buyers := s.buyers.set i
        ⟨.unlock index, (shop need st.store).2, bought + (st.store - (shop need st.store).1)⟩ }
  | buyerUnlock {i index : ℕ} {need bought : ℤ}
    (hb : s.buyers[i]? = some ⟨.unlock index, need, bought⟩) :
    ThreadStep C s ((s.setLocked index false).setBuyer i (.lock (index + 1)))

namespace ThreadStep

variable {C : Config} {s t : State} {i : ℕ}

theorem of_firstTask (h : firstTask C s = some t) : ThreadStep C s t := by
  unfold firstTask at h
  split at h
  · obtain rfl := Option.some.inj h
    exact .loadersCreated ‹_›
  · obtain rfl := Option.some.inj h
    exact .createLoader ‹_›
  · obtain rfl := Option.some.inj h
    exact .buyersCreated ‹_›
  · obtain rfl := Option.some.inj h
    exact .createBuyer ‹_›
  · rename_i index hmain
    split at h
    · obtain rfl := Option.some.inj h
      exact .joined hmain ‹_›
    · split at h
      · obtain rfl := Option.some.inj h
        exact .join hmain ‹_› ‹_›
      · cases h
  · rename_i index hmain
    split at h <;> obtain rfl := Option.some.inj h
    · exact .cancel hmain ‹_›
    · exact .cancelled hmain (not_lt.1 ‹_›)
  · cases h

theorem of_loaderThread (h : loaderThread C s i = some t) : ThreadStep C s t := by
  unfold loaderThread at h
  split at h
  · cases h
  · cases h
  · rename_i index cancel hl
    split at h <;> obtain rfl := Option.some.inj h
    · exact .loaderAgain hl ‹_›
    · exact .loaderPass hl ‹_›
    · exact .loaderLock hl ‹_›
  · obtain ⟨st, hst, rfl⟩ := Option.map_eq_some_iff.1 h
    exact .load ‹_› hst
  · obtain rfl := Option.some.inj h
    exact .loaderUnlock ‹_›
  · obtain rfl := Option.some.inj h
    exact .loaderSleep ‹_›

theorem of_endLoader (h : LifeSim.endLoader s i = some t) : ThreadStep C s t := by
  unfold LifeSim.endLoader at h
  split at h
  · obtain rfl := Option.some.inj h
    exact .endLoader ‹_› (.inl rfl)
  · obtain rfl := Option.some.inj h
    exact .endLoader ‹_› (.inr rfl)
  · cases h

theorem of_buyerThread (h : buyerThread s i = some t) : ThreadStep C s t := by
  unfold buyerThread at h
  split at h
  · cases h
  · cases h
  · split at h <;> obtain rfl := Option.some.inj h
    · exact .buyerCheck ‹_› ‹_›
    · exact .buyerEnd ‹_› (not_lt.1 ‹_›)
  · rename_i index need bought hb
    split at h
    · obtain rfl := Option.some.inj h
      exact .buyerAgain hb ‹_›
    · cases h
    · obtain rfl := Option.some.inj h
      exact .buyerLock hb ‹_›
  · obtain ⟨st, hst, rfl⟩ := Option.map_eq_some_iff.1 h
    exact .shop ‹_› hst
  · obtain rfl := Option.some.inj h
    exact .buyerUnlock ‹_›

theorem of_step {a : Action} (h : (lifeSim C).step s a = some t) : ThreadStep C s t := by
  cases a with
  | main => exact of_firstTask h
  | loader i => exact of_loaderThread h
  | buyer i => exact of_buyerThread h
  | endLoader i => exact of_endLoader h

end ThreadStep

end EmbeddedC.LifeSim
