import EmbeddedC.Counter.Threads

/-!
# Homework 7: what the threads count

With `MUTEX` no increment is lost.  Without, one that reads before another writes is, and what is
printed can be anything between two and the number of increments.  That is so if every thread can be
created: a `pthread_create` that fails ends the program, and nothing is printed.

* `Counted`, `mutex_value`: with `MUTEX`;
* `Loose`, `printed_range`: what cannot be printed without; `in_range`: nothing overflows;
* `increment`, `advance`, `print_all`: threads that run one after the other;
* `print_from_one`, `print_from_two`: runs that lose increments;
* `racy_values`: exactly these values can be printed without `MUTEX`.
-/

namespace EmbeddedC.Counter

open Machine (anyStep Path)

variable {C : Config} {s t : State} {i j v : ℕ}

/-! ### With `MUTEX` -/

/-- The increments of a thread that have been written. -/
def Thread.done (th : Thread) : ℕ := th.index + if th.pc = .unlock then 1 else 0

/-- The variable is the number of increments, and a thread that is going to write adds one. -/
structure Counted (s : State) : Prop where
  value : s.globalVar = (s.threads.map Thread.done).sum
  store (j sum index : ℕ) : s.threads[j]? = some ⟨.store sum, index⟩ → sum = s.globalVar + 1

namespace Counted

/-- A thread moves and writes nothing. -/
theorem setThread (h : Counted s) {th th' : Thread} (hth : s.threads[i]? = some th)
    (hglobal : t.globalVar = s.globalVar) (hthreads : t.threads = s.threads.set i th')
    (hdone : th'.done = th.done) (hstore : ∀ sum, th'.pc = .store sum → sum = s.globalVar + 1) :
    Counted t := by
  constructor
  · have hsum := List.sum_map_set_add hth Thread.done th'
    rw [hdone] at hsum
    rw [hglobal, hthreads, h.value]
    exact (Nat.add_right_cancel hsum).symm
  · intro j sum index hj
    rw [hthreads, List.getElem?_set] at hj
    rw [hglobal]
    split at hj
    · split at hj
      · exact hstore sum (congrArg Thread.pc (Option.some.inj hj))
      · cases hj
    · exact h.store j sum index hj

theorem step (hmutex : C.mutex = true) (hguard : Guarded C s) (h : Counted s)
    (hstep : ThreadStep C s t) : Counted t := by
  cases hstep with
  | created | join | print => exact ⟨h.value, h.store⟩
  | create =>
    refine ⟨by simpa [Thread.done] using h.value, fun j sum index hj => ?_⟩
    obtain hj | ⟨-, hj⟩ := List.getElem?_concat_eq_some.1 hj
    · exact h.store j sum index hj
    · cases hj
  | exit => exact ⟨rfl, nofun⟩
  | begin hth =>
    rw [if_pos hmutex]
    exact h.setThread hth rfl rfl rfl nofun
  | finish hth | lock hth => exact h.setThread hth rfl rfl rfl nofun
  | load hth =>
    refine h.setThread hth rfl rfl rfl fun sum hpc => ?_
    obtain rfl := Pc.store.inj hpc
    rfl
  | @store i index sum hth =>
    rw [if_pos hmutex]
    obtain rfl := h.store i sum index hth
    constructor
    · have hsum := List.sum_map_set_add hth Thread.done ⟨.unlock, index⟩
      have hvalue := h.value
      simp only [Thread.done, State.setThread, reduceCtorEq, if_true, if_false] at hsum hvalue ⊢
      omega
    · -- nobody else is going to write
      intro j sum' index' hj
      have hone : s.threads.countP Thread.inside = 1 := by
        have hpos := List.countP_pos_of_getElem? hth (p := Thread.inside) rfl
        have hle := Bool.toNat_le s.locked
        rw [← hguard.count hmutex] at hle
        omega
      obtain ⟨k, -, huniq⟩ := List.countP_eq_one_iff.1 hone
      change (s.threads.set i ⟨.unlock, index⟩)[j]? = _ at hj
      rw [List.getElem?_set] at hj
      split at hj
      · split at hj <;> cases hj
      · have hi := huniq i ⟨_, hth, rfl⟩
        have hj' := huniq j ⟨_, hj, rfl⟩
        exact absurd (hi.trans hj'.symm) ‹_›
  | unlock hth => exact h.setThread hth rfl rfl rfl nofun

end Counted

theorem counted_of_reachable (hmutex : C.mutex = true) (h : (counter C).Reachable s) :
    Counted s := by
  refine h.invariant (fun s hs => ?_) fun s a t hs hinv hstep =>
    hinv.step hmutex (guarded_of_reachable hs) (.of_step hstep)
  obtain rfl := hs
  exact ⟨rfl, fun j sum index hj => by simp [initial] at hj⟩

/-- **With `MUTEX`** the main thread prints the number of increments, which is `TARGET_VAL` up to
what does not divide by the number of threads, in whatever order the threads run, if every thread
can be created; if not, the program exits and prints nothing. -/
theorem mutex_value (hmutex : C.mutex = true) :
    (C.CreatesAll → (counter C).Inevitable (fun s => s.main = .returned ∧
      s.printed = some (C.targetVal - C.targetVal % C.threadNum)) (initial C)) ∧
    (¬ C.CreatesAll → (counter C).Inevitable (fun s => s.main = .exited ∧ s.printed = none)
      (initial C)) := by
  have hends := (ends (initial_reachable C)).and_reachable (initial_reachable C)
  refine ⟨fun hcreates => hends.mono ?_, fun hcreates => hends.mono ?_⟩
  · rintro s ⟨hover, hs⟩
    have hret := (created_iff hs hover).1.2 hcreates
    have hcounted := counted_of_reachable hmutex hs
    obtain ⟨hprinted, hlen, hended⟩ := ended_of_returned hs hret
    have hdone : s.threads.map Thread.done = List.replicate C.threadNum C.iterNum := by
      refine List.eq_replicate_iff.2 ⟨by rw [List.length_map, hlen], fun n hn => ?_⟩
      obtain ⟨th, hth, rfl⟩ := List.mem_map.1 hn
      rw [Thread.done, (hended th hth).1, (hended th hth).2]
      rfl
    refine ⟨hret, ?_⟩
    rw [hprinted, hcounted.value, hdone, List.sum_replicate, smul_eq_mul, Config.iterNum]
    have hdiv := Nat.div_add_mod C.targetVal C.threadNum
    exact congrArg some (by omega)
  · rintro s ⟨hover, hs⟩
    have hexit := (created_iff hs hover).2.2 hcreates
    have hmain := (regular_of_reachable hs).main
    rw [MainOk, hexit] at hmain
    exact ⟨hexit, hmain.2.1⟩

/-- The constants of the program, with `MUTEX`, where `created` threads can be created. -/
def guarded (created : ℕ) : Config :=
  ⟨10, 100000000, true, fun i => i < created, by decide, by decide⟩

theorem mutex_value_guarded :
    (counter (guarded 10)).Inevitable (fun s => s.main = .returned ∧ s.printed = some 100000000)
      (initial (guarded 10)) ∧
    (counter (guarded 9)).Inevitable (fun s => s.main = .exited ∧ s.printed = none)
      (initial (guarded 9)) := by
  have hten : (guarded 10).CreatesAll := fun i hi => decide_eq_true hi
  have hnine : ¬ (guarded 9).CreatesAll := fun hall => absurd (hall 9 (by decide)) (by decide)
  exact ⟨(mutex_value rfl).1 hten, (mutex_value rfl).2 hnine⟩

/-! ### Without `MUTEX`: what cannot be printed -/

/-- The increments that have been made. -/
def State.made (s : State) : ℕ := (s.threads.map Thread.index).sum

/-- The variable lies between what one thread alone has counted and what all have. -/
structure Loose (s : State) : Prop where
  le : s.globalVar ≤ s.made
  pos : 0 < s.made → 0 < s.globalVar
  -- who has written a one has made one increment
  one : s.globalVar = 1 → ∃ th ∈ s.threads, th.index = 1
  store (j sum index : ℕ) : s.threads[j]? = some ⟨.store sum, index⟩ →
    sum ≤ s.made + 1 ∧ 1 ≤ sum ∧ (0 < index → 2 ≤ sum)

theorem index_le_made (hth : s.threads[i]? = some ⟨.load, index⟩) : index ≤ s.made :=
  List.single_le_sum (fun _ _ => Nat.zero_le _) index
    (List.mem_map.2 ⟨_, List.mem_of_getElem? hth, rfl⟩)

theorem made_setThread {th th' : Thread} (hth : s.threads[i]? = some th)
    (hthreads : t.threads = s.threads.set i th') :
    t.made + th.index = s.made + th'.index := by
  rw [State.made, hthreads]
  exact List.sum_map_set_add hth Thread.index th'

namespace Loose

/-- A thread moves and writes nothing. -/
theorem setThread (h : Loose s) {th th' : Thread} (hth : s.threads[i]? = some th)
    (hglobal : t.globalVar = s.globalVar) (hthreads : t.threads = s.threads.set i th')
    (hindex : th'.index = th.index)
    (hstore : ∀ sum, th'.pc = .store sum →
      sum ≤ s.made + 1 ∧ 1 ≤ sum ∧ (0 < th.index → 2 ≤ sum)) : Loose t := by
  have hmade : t.made = s.made := by
    have hset := made_setThread hth hthreads
    omega
  refine ⟨by rw [hglobal, hmade]; exact h.le, by rw [hglobal, hmade]; exact h.pos, ?_, ?_⟩
  · intro hone
    obtain ⟨th₁, hmem, hth₁⟩ := h.one (hglobal ▸ hone)
    obtain ⟨j, hj⟩ := List.getElem?_of_mem hmem
    by_cases hij : i = j
    · subst hij
      obtain rfl := Option.some.inj (hth.symm.trans hj)
      refine ⟨th', ?_, hindex.trans hth₁⟩
      rw [hthreads]
      exact List.mem_set (List.lt_length_of_getElem?_eq_some hth) th'
    · refine ⟨th₁, List.mem_of_getElem? (i := j) ?_, hth₁⟩
      rw [hthreads, List.getElem?_set_ne hij, hj]
  · intro j sum index hj
    rw [hthreads, List.getElem?_set] at hj
    rw [hmade]
    split at hj
    · split at hj
      · obtain rfl := Option.some.inj hj
        obtain rfl : index = th.index := hindex
        exact hstore sum rfl
      · cases hj
    · exact h.store j sum index hj

theorem step (hmutex : C.mutex = false) (hguard : Guarded C s) (h : Loose s)
    (hstep : ThreadStep C s t) : Loose t := by
  cases hstep with
  | created | join | print => exact ⟨h.le, h.pos, h.one, h.store⟩
  | @create left =>
    have hmade : State.made { s with main := .create left, threads := s.threads ++ [⟨.test, 0⟩] } =
        s.made := by
      simp [State.made]
    refine ⟨hmade ▸ h.le, hmade ▸ h.pos, fun hone => ?_, fun j sum index hj => ?_⟩
    · obtain ⟨th, hth, hindex⟩ := h.one hone
      exact ⟨th, List.mem_append_left _ hth, hindex⟩
    · rw [hmade]
      obtain hj | ⟨-, hj⟩ := List.getElem?_concat_eq_some.1 hj
      · exact h.store j sum index hj
      · cases hj
  | exit => exact ⟨le_rfl, id, nofun, nofun⟩
  | begin hth =>
    rw [if_neg (by simp [hmutex])]
    exact h.setThread hth rfl rfl rfl nofun
  | finish hth => exact h.setThread hth rfl rfl rfl nofun
  | lock hth => exact absurd rfl ((hguard.unused hmutex).2 _ _ hth).1
  | @load i index hth =>
    refine h.setThread hth rfl rfl rfl fun sum hpc => ?_
    obtain rfl := Pc.store.inj hpc
    refine ⟨Nat.succ_le_succ h.le, Nat.succ_pos _, fun hindex => ?_⟩
    exact Nat.succ_le_succ (h.pos (hindex.trans_le (index_le_made hth)))
  | @store i index sum hth =>
    rw [if_neg (by simp [hmutex])]
    obtain ⟨hle, hpos, htwo⟩ := h.store i sum index hth
    have hmade : State.made ({ s with globalVar := sum }.setThread i ⟨.test, index + 1⟩) =
        s.made + 1 := by
      have hset := made_setThread (t := { s with globalVar := sum }.setThread i ⟨.test, index + 1⟩)
        hth rfl
      simp only at hset
      omega
    refine ⟨by rw [hmade]; exact hle, fun _ => hpos, fun hone => ?_, fun j sum' index' hj => ?_⟩
    · -- only a first increment writes a one
      refine ⟨⟨.test, index + 1⟩, List.mem_set (List.lt_length_of_getElem?_eq_some hth) _, ?_⟩
      obtain rfl : sum = 1 := hone
      have hzero : ¬ 0 < index := fun hindex => absurd (htwo hindex) (by decide)
      exact congrArg (· + 1) (Nat.eq_zero_of_not_pos hzero)
    · rw [hmade]
      change (s.threads.set i ⟨.test, index + 1⟩)[j]? = _ at hj
      rw [List.getElem?_set] at hj
      split at hj
      · split at hj <;> cases hj
      · obtain ⟨hle', hrest⟩ := h.store j sum' index' hj
        exact ⟨hle'.trans (Nat.le_succ _), hrest⟩
  | unlock hth => exact absurd rfl ((hguard.unused hmutex).2 _ _ hth).2

end Loose

theorem loose_of_reachable (hmutex : C.mutex = false) (h : (counter C).Reachable s) :
    Loose s := by
  refine h.invariant (fun s hs => ?_) fun s a t hs hinv hstep =>
    hinv.step hmutex (guarded_of_reachable hs) (.of_step hstep)
  obtain rfl := hs
  exact ⟨le_rfl, id, nofun, fun j sum index hj => by simp [initial] at hj⟩

/-- No loop variable and no sum overflows. -/
theorem in_range (h : (counter C).Reachable s) :
    (∀ th ∈ s.threads, th.index < 2 ^ 31) ∧ s.globalVar < 2 ^ 64 := by
  have hreg := regular_of_reachable h
  have hok (th : Thread) (hth : th ∈ s.threads) : th.Ok C :=
    (List.getElem?_of_mem hth).elim fun j hj => hreg.threads j th hj
  refine ⟨fun th hth => (hok th hth).le.trans_lt C.index_lt, ?_⟩
  have hlen : s.threads.length ≤ C.threadNum := by
    have hmain := hreg.main
    unfold MainOk at hmain
    split at hmain
    · omega
    · exact hmain.1.le
    · exact hmain.1.le
    · rw [hmain.2.2]
      exact Nat.zero_le _
  have hsum (f : Thread → ℕ) (hf : ∀ th ∈ s.threads, f th ≤ C.iterNum) :
      (s.threads.map f).sum ≤ C.targetVal := by
    have hle := List.sum_le_card_nsmul (s.threads.map f) C.iterNum fun n hn => by
      obtain ⟨th, hth, rfl⟩ := List.mem_map.1 hn
      exact hf th hth
    rw [List.length_map, smul_eq_mul] at hle
    exact hle.trans ((Nat.mul_le_mul_right _ hlen).trans (Nat.mul_div_le _ _))
  cases hmutex : C.mutex with
  | false =>
    exact ((loose_of_reachable hmutex h).le.trans
      (hsum Thread.index fun th hth => (hok th hth).le)).trans_lt C.sum_lt
  | true =>
    rw [(counted_of_reachable hmutex h).value]
    refine (hsum Thread.done fun th hth => ?_).trans_lt C.sum_lt
    unfold Thread.done
    split
    · rename_i hpc
      exact (hok th hth).lt (by simp [hpc]) (by simp [hpc])
    · exact (hok th hth).le

/-- Without `MUTEX` increments can be lost, but neither all nor all but one. -/
theorem printed_range (hmutex : C.mutex = false) (h : (counter C).Reachable s)
    (hret : s.main = .returned) :
    ∃ v, s.printed = some v ∧ min 2 C.iterNum ≤ v ∧ v ≤ C.threadNum * C.iterNum := by
  have hloose := loose_of_reachable hmutex h
  obtain ⟨hprinted, hlen, hended⟩ := ended_of_returned h hret
  have hindex : s.threads.map Thread.index = List.replicate C.threadNum C.iterNum := by
    refine List.eq_replicate_iff.2 ⟨by rw [List.length_map, hlen], fun n hn => ?_⟩
    obtain ⟨th, hth, rfl⟩ := List.mem_map.1 hn
    exact (hended th hth).2
  have hmade : s.made = C.threadNum * C.iterNum := by
    rw [State.made, hindex, List.sum_replicate, smul_eq_mul]
  refine ⟨s.globalVar, hprinted, ?_, hmade ▸ hloose.le⟩
  by_cases hzero : C.iterNum = 0
  · rw [hzero]
    exact Nat.zero_le _
  · have hthreads : 0 < C.threadNum := by
      refine Nat.pos_of_ne_zero fun hnone => hzero ?_
      rw [Config.iterNum, hnone, Nat.div_zero]
    have hpos : 0 < s.globalVar := hloose.pos (hmade ▸ Nat.mul_pos hthreads (by omega))
    by_contra hlt
    -- a one was written by a thread that goes on
    obtain ⟨th, hth, hone⟩ := hloose.one (by omega)
    have := (hended th hth).2
    omega

/-! ### Without `MUTEX`: what can be printed -/

/-- The increments that `ths` have still to make. -/
def room (C : Config) (ths : List Thread) : ℕ := (ths.map fun th => C.iterNum - th.index).sum

/-- Between two increments. -/
def Waiting (C : Config) (ths : List Thread) : Prop :=
  ∀ th ∈ ths, th.pc = .test ∧ th.index ≤ C.iterNum

theorem getElem?_setThread {th : Thread} (hth : s.threads[i]? = some th) (th' : Thread) :
    (s.setThread i th').threads[i]? = some th' :=
  List.getElem?_set_self (List.lt_length_of_getElem?_eq_some hth)

theorem setThread_setThread (s : State) (i : ℕ) (th th' : Thread) :
    (s.setThread i th).setThread i th' = s.setThread i th' := by
  simp [State.setThread]

/-- A thread reads the variable for its next increment. -/
theorem read (hmutex : C.mutex = false) (hth : s.threads[i]? = some ⟨.test, j⟩)
    (hlt : j < C.iterNum) :
    (counter C).Path anyStep s (s.setThread i ⟨.store (s.globalVar + 1), j⟩) := by
  have hbegin : (counter C).step s (.thread i) = some (s.setThread i ⟨.load, j⟩) := by
    change counterThread C s i = _
    simp [counterThread, hth, hlt, hmutex]
  have hload : (counter C).step (s.setThread i ⟨.load, j⟩) (.thread i) =
      some (s.setThread i ⟨.store (s.globalVar + 1), j⟩) := by
    change counterThread C _ i = _
    simp only [counterThread, getElem?_setThread hth, setThread_setThread]
    rfl
  exact .tail (.tail .refl trivial hbegin) trivial hload

/-- A thread writes what it has read, plus one. -/
theorem write (hmutex : C.mutex = false) (hth : s.threads[i]? = some ⟨.store v, j⟩) :
    (counter C).Path anyStep s ({ s with globalVar := v }.setThread i ⟨.test, j + 1⟩) := by
  refine Path.single (a := .thread i) trivial ?_
  change counterThread C s i = _
  simp [counterThread, hth, hmutex]

/-- A thread makes `n` increments, and nobody else does anything. -/
theorem increment (hmutex : C.mutex = false) (n : ℕ) (hth : s.threads[i]? = some ⟨.test, j⟩)
    (hle : j + n ≤ C.iterNum) :
    (counter C).Path anyStep s
      ({ s with globalVar := s.globalVar + n }.setThread i ⟨.test, j + n⟩) := by
  induction n with
  | zero =>
    have hsame : s.setThread i ⟨.test, j⟩ = s := by
      obtain ⟨hlt, hget⟩ := List.getElem?_eq_some_iff.1 hth
      rw [State.setThread, ← hget, List.set_getElem_self]
    exact hsame.symm ▸ .refl
  | succ n ih =>
    have hone := read hmutex (getElem?_setThread (s := { s with globalVar := s.globalVar + n }) hth
      ⟨.test, j + n⟩) (by omega)
    refine (ih (by omega)).trans (hone.trans ?_)
    rw [setThread_setThread]
    have htwo := write hmutex (getElem?_setThread (s := { s with globalVar := s.globalVar + n }) hth
      ⟨.store (s.globalVar + n + 1), j + n⟩)
    simpa [State.setThread, add_assoc] using htwo

/-- The threads behind `front` make `n` increments one after the other. -/
theorem advance (hmutex : C.mutex = false) (front : List Thread) {rest : List Thread} {n : ℕ}
    (hwait : Waiting C rest) (hn : n ≤ room C rest) (s : State) :
    ∃ rest', (counter C).Path anyStep { s with threads := front ++ rest }
        { s with threads := front ++ rest', globalVar := s.globalVar + n } ∧
      Waiting C rest' ∧ room C rest' + n = room C rest := by
  induction rest generalizing front n s with
  | nil =>
    obtain rfl : n = 0 := by simpa [room] using hn
    exact ⟨[], .refl, hwait, rfl⟩
  | cons th rest ih =>
    obtain ⟨htest, hle⟩ := hwait th List.mem_cons_self
    obtain ⟨pc, index⟩ := th
    obtain rfl : pc = .test := htest
    have hroom : room C (⟨.test, index⟩ :: rest) = (C.iterNum - index) + room C rest := rfl
    rw [hroom] at hn
    -- the first thread makes as many of them as it can
    obtain ⟨m, hm⟩ : ∃ m, m = min n (C.iterNum - index) := ⟨_, rfl⟩
    simp only at hle
    have hfirst := increment hmutex m (i := front.length) (j := index)
      (s := { s with threads := front ++ ⟨.test, index⟩ :: rest }) (by simp) (by omega)
    obtain ⟨rest', hpath, hwait', hroom'⟩ := ih (front ++ [⟨.test, index + m⟩]) (n := n - m)
      (fun th hth => hwait th (List.mem_cons_of_mem _ hth)) (by omega)
      { s with globalVar := s.globalVar + m }
    refine ⟨⟨.test, index + m⟩ :: rest', ?_, ?_, ?_⟩
    · have hnm : s.globalVar + m + (n - m) = s.globalVar + n := by omega
      simp only [hnm, List.append_assoc, List.singleton_append] at hpath
      refine hfirst.trans ?_
      simpa [State.setThread] using hpath
    · intro th hth
      obtain rfl | hth := List.mem_cons.1 hth
      · exact ⟨rfl, by simp only; omega⟩
      · exact hwait' th hth
    · change C.iterNum - (index + m) + room C rest' + n = _
      omega

/-- When every thread has made its increments, the variable stays as it is. -/
theorem globalVar_of_path {g : ℕ} (hmain : ∀ left, s.main ≠ .create left) (hvalue : s.globalVar = g)
    (hdone : ∀ (j : ℕ) th, s.threads[j]? = some th →
      th.pc = .test ∧ C.iterNum ≤ th.index ∨ th.pc = .ended)
    (hpath : (counter C).Path anyStep s t) : t.globalVar = g := by
  refine (hpath.invariant (I := fun u : State => (∀ left, u.main ≠ .create left) ∧
    u.globalVar = g ∧ ∀ (j : ℕ) th, u.threads[j]? = some th →
      th.pc = .test ∧ C.iterNum ≤ th.index ∨ th.pc = .ended) ⟨hmain, hvalue, hdone⟩ ?_).2.1
  rintro u a v - ⟨hmain, hvalue, hdone⟩ - hstep
  cases ThreadStep.of_step hstep with
  | created hcase | create hcase | exit hcase => exact absurd hcase (hmain _)
  | join | print => exact ⟨nofun, hvalue, hdone⟩
  | begin hth hlt =>
    obtain ⟨-, hle⟩ | hended := hdone _ _ hth
    · exact absurd hlt (not_lt.2 hle)
    · cases hended
  | finish hth => exact ⟨hmain, hvalue, List.set_forall hdone (.inr rfl)⟩
  | lock hth | load hth | store hth | unlock hth =>
    obtain ⟨htest, -⟩ | hended := hdone _ _ hth
    · cases htest
    · cases hended

/-- If nobody interferes any more, no further increment is lost. -/
theorem print_all (hcreates : C.CreatesAll) (hmutex : C.mutex = false)
    (hs : (counter C).Reachable s) (hmain : ∀ left, s.main ≠ .create left)
    (hwait : Waiting C s.threads) :
    ∃ t, (counter C).Reachable t ∧ t.printed = some (s.globalVar + room C s.threads) := by
  obtain ⟨rest, hpath, hwait', hroom⟩ := advance hmutex [] hwait le_rfl s
  have hreach := hs.path hpath
  obtain ⟨t, hend, hret, ht⟩ := ((returns hcreates hreach).and_reachable hreach).exists_path
  obtain ⟨hprinted, -, -⟩ := ended_of_returned ht hret
  refine ⟨t, ht, hprinted.trans (congrArg some ?_)⟩
  refine globalVar_of_path ?_ ?_ (fun j th hth => ?_) hend
  · exact hmain
  · rfl
  -- nobody has an increment left
  have hmem := List.mem_of_getElem? hth
  obtain ⟨htest, -⟩ := hwait' th hmem
  have hle : C.iterNum - th.index ≤ room C rest :=
    List.single_le_sum (fun _ _ => Nat.zero_le _) _ (List.mem_map.2 ⟨th, hmem, rfl⟩)
  exact .inl ⟨htest, by omega⟩

theorem room_replicate (C : Config) (n : ℕ) :
    room C (List.replicate n ⟨.test, 0⟩) = n * C.iterNum := by
  simp [room]

theorem waiting_replicate (C : Config) (n : ℕ) : Waiting C (List.replicate n ⟨.test, 0⟩) := by
  intro th hth
  obtain rfl := List.eq_of_mem_replicate hth
  exact ⟨rfl, Nat.zero_le _⟩

/-- All threads have been created, and none has begun. -/
def started (C : Config) : State :=
  ⟨.join 0, List.replicate C.threadNum ⟨.test, 0⟩, 0, false, none⟩

theorem started_reachable (hcreates : C.CreatesAll) : (counter C).Reachable (started C) := by
  have hcreate (left n : ℕ) (hn : n + left = C.threadNum) : (counter C).Path anyStep
      ⟨.create left, List.replicate n ⟨.test, 0⟩, 0, false, none⟩
      ⟨.join 0, List.replicate (n + left) ⟨.test, 0⟩, 0, false, none⟩ := by
    induction left generalizing n with
    | zero => exact Path.single (a := .main) trivial rfl
    | succ left ih =>
      have hstep : (counter C).step
          ⟨.create (left + 1), List.replicate n ⟨.test, 0⟩, 0, false, none⟩ .main =
          some ⟨.create left, List.replicate (n + 1) ⟨.test, 0⟩, 0, false, none⟩ := by
        have hn : C.creates n = true := hcreates n (by omega)
        rw [List.replicate_succ']
        simp [counter, step, firstTask, hn]
      have hlen : n + (left + 1) = n + 1 + left := by omega
      rw [hlen]
      exact (Path.single trivial hstep).trans (ih (n + 1) (hlen ▸ hn))
  have hpath := hcreate C.threadNum 0 (Nat.zero_add _)
  rw [Nat.zero_add] at hpath
  exact (initial_reachable C).path hpath

/-- What the others write before the first thread writes its one is lost. -/
theorem print_from_one (hcreates : C.CreatesAll) (hmutex : C.mutex = false) {n : ℕ}
    (hthreads : C.threadNum = n + 1) (hiter : 0 < C.iterNum) (lost : ℕ)
    (hlost : lost ≤ n * C.iterNum) :
    ∃ t, (counter C).Reachable t ∧ t.printed = some (C.threadNum * C.iterNum - lost) := by
  have hstart := started_reachable hcreates
  rw [started, hthreads, List.replicate_succ] at hstart
  have hread := read hmutex (i := 0) (j := 0)
    (s := ⟨.join 0, ⟨.test, 0⟩ :: List.replicate n ⟨.test, 0⟩, 0, false, none⟩) rfl hiter
  obtain ⟨rest, hothers, hwait, hroom⟩ := advance hmutex [⟨.store 1, 0⟩]
    (waiting_replicate C n) (room_replicate C n ▸ hlost)
    ⟨.join 0, [], 0, false, none⟩
  have hwrite := write hmutex (i := 0) (v := 1) (j := 0)
    (s := ⟨.join 0, ⟨.store 1, 0⟩ :: rest, 0 + lost, false, none⟩) rfl
  have hreach := ((hstart.path hread).path hothers).path hwrite
  obtain ⟨t, ht, hprinted⟩ := print_all hcreates hmutex hreach nofun fun th hth => by
    obtain rfl | hth := List.mem_cons.1 hth
    · exact ⟨rfl, hiter⟩
    · exact hwait th hth
  refine ⟨t, ht, hprinted.trans (congrArg some ?_)⟩
  have hsum : room C (⟨.test, 1⟩ :: rest) = (C.iterNum - 1) + room C rest := rfl
  rw [room_replicate] at hroom
  change 1 + room C (⟨.test, 1⟩ :: rest) = _
  rw [hsum, hthreads, Nat.add_mul]
  omega

/-- The second thread reads that one for its last increment, and what the first thread writes
before it writes its two is lost. -/
theorem print_from_two (hcreates : C.CreatesAll) (hmutex : C.mutex = false) {n : ℕ}
    (hthreads : C.threadNum = n + 2) (htwo : 2 ≤ v) (hlt : v < C.iterNum) :
    ∃ t, (counter C).Reachable t ∧ t.printed = some v := by
  obtain ⟨k, hk⟩ : ∃ k, C.iterNum = k + 1 := ⟨C.iterNum - 1, by omega⟩
  have hstart := started_reachable hcreates
  rw [started, hthreads, List.replicate_succ, List.replicate_succ] at hstart
  have hread := read hmutex (i := 0) (j := 0)
    (s := ⟨.join 0, ⟨.test, 0⟩ :: ⟨.test, 0⟩ :: List.replicate n ⟨.test, 0⟩, 0, false, none⟩) rfl
    (by omega)
  -- the second thread keeps one increment, the others none
  have hsecond := increment hmutex k (i := 1) (j := 0)
    (s := ⟨.join 0, ⟨.store 1, 0⟩ :: ⟨.test, 0⟩ :: List.replicate n ⟨.test, 0⟩, 0, false, none⟩) rfl
    (by omega)
  obtain ⟨rest, hothers, hwait, hroom⟩ := advance hmutex [⟨.store 1, 0⟩, ⟨.test, 0 + k⟩]
    (waiting_replicate C n) le_rfl ⟨.join 0, [], 0 + k, false, none⟩
  have hone := write hmutex (i := 0) (v := 1) (j := 0)
    (s := ⟨.join 0, ⟨.store 1, 0⟩ :: ⟨.test, 0 + k⟩ :: rest,
      0 + k + room C (List.replicate n ⟨.test, 0⟩), false, none⟩) rfl
  have hreadOne := read hmutex (i := 1) (j := 0 + k)
    (s := ⟨.join 0, ⟨.test, 1⟩ :: ⟨.test, 0 + k⟩ :: rest, 1, false, none⟩) rfl (by omega)
  have hfirst := increment hmutex (k + 2 - v) (i := 0) (j := 1)
    (s := ⟨.join 0, ⟨.test, 1⟩ :: ⟨.store 2, 0 + k⟩ :: rest, 1, false, none⟩) rfl (by omega)
  have htwoWrite := write hmutex (i := 1) (v := 2) (j := 0 + k)
    (s := ⟨.join 0, ⟨.test, 1 + (k + 2 - v)⟩ :: ⟨.store 2, 0 + k⟩ :: rest, 1 + (k + 2 - v), false,
      none⟩) rfl
  have hreach := ((((((hstart.path hread).path hsecond).path hothers).path hone).path
    hreadOne).path hfirst).path htwoWrite
  obtain ⟨t, ht, hprinted⟩ := print_all hcreates hmutex hreach nofun fun th hth => by
    obtain rfl | hth := List.mem_cons.1 hth
    · exact ⟨rfl, by simp only; omega⟩
    · obtain rfl | hth := List.mem_cons.1 hth
      · exact ⟨rfl, by simp only; omega⟩
      · exact hwait th hth
  refine ⟨t, ht, hprinted.trans (congrArg some ?_)⟩
  have hsum : room C (⟨.test, 1 + (k + 2 - v)⟩ :: ⟨.test, 0 + k + 1⟩ :: rest) =
      (C.iterNum - (1 + (k + 2 - v))) + ((C.iterNum - (0 + k + 1)) + room C rest) := rfl
  change 2 + room C (⟨.test, 1 + (k + 2 - v)⟩ :: ⟨.test, 0 + k + 1⟩ :: rest) = _
  rw [hsum]
  omega

/-- **Without `MUTEX`** the main thread prints something in whatever order the threads run, never
less than two (or the increments of one thread, if these are fewer) and never more than the number
of increments; and each of these values can be printed.  Every thread can be created. -/
theorem racy_values (hcreates : C.CreatesAll) (hmutex : C.mutex = false)
    (hthreads : 2 ≤ C.threadNum) :
    (counter C).Inevitable (fun s => ∃ v, s.printed = some v ∧ min 2 C.iterNum ≤ v ∧
      v ≤ C.threadNum * C.iterNum) (initial C) ∧
    ∀ v, min 2 C.iterNum ≤ v → v ≤ C.threadNum * C.iterNum →
      ∃ s, (counter C).Reachable s ∧ s.printed = some v := by
  constructor
  · exact ((returns hcreates (initial_reachable C)).and_reachable (initial_reachable C)).mono
      fun s hs => printed_range hmutex hs.2 hs.1
  intro v hmin hmax
  obtain ⟨n, hn⟩ : ∃ n, C.threadNum = n + 2 := ⟨C.threadNum - 2, by omega⟩
  by_cases hlt : v < C.iterNum
  · exact print_from_two hcreates hmutex hn (by omega) hlt
  by_cases hzero : C.iterNum = 0
  · -- there is nothing to lose
    obtain ⟨t, ht, hprinted⟩ := print_all hcreates hmutex (started_reachable hcreates) nofun
      (waiting_replicate C C.threadNum)
    have hroom : room C (started C).threads = C.threadNum * C.iterNum := room_replicate C _
    rw [hroom, hzero] at hprinted
    rw [hzero] at hmax
    exact ⟨t, ht, hprinted.trans (congrArg some (by simp only [started]; omega))⟩
  · obtain ⟨lost, hlost⟩ : ∃ lost, lost = C.threadNum * C.iterNum - v := ⟨_, rfl⟩
    have hmul : C.threadNum * C.iterNum = (n + 1) * C.iterNum + C.iterNum := by
      rw [hn]
      ring
    obtain ⟨t, ht, hprinted⟩ :=
      print_from_one hcreates hmutex (n := n + 1) hn (by omega) lost (by omega)
    exact ⟨t, ht, hprinted.trans (congrArg some (by omega))⟩

/-- The constants of the program. -/
def racy : Config := ⟨10, 100000000, false, fun _ => true, by decide, by decide⟩

theorem racy_values_racy :
    (counter racy).Inevitable (fun s => ∃ v, s.printed = some v ∧ 2 ≤ v ∧ v ≤ 100000000)
      (initial racy) ∧
    ∀ v, 2 ≤ v → v ≤ 100000000 → ∃ s, (counter racy).Reachable s ∧ s.printed = some v :=
  racy_values (fun _ _ => rfl) rfl (by decide)

end EmbeddedC.Counter
