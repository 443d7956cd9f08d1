import EmbeddedC.Lib.Heap
import EmbeddedC.Lib.Machine
import EmbeddedC.Dictionary.Input

/-!
# Homework 5: `_cleanup` and the memory of the dictionary

`SIGINT` and a failing `realloc` end the program, and `_cleanup` then shows the entries below
`clients_num`.  `first_task` counts an entry before there is memory for it.

* `firstTask`: the loop, statement by statement, as the heap places the array;
* `Consistent`: `_cleanup` finds every entry it counts in the array, completely entered;
* `Sound`: what holds at every statement;
* `consistent_iff`: that is so except from the count on until the entry is copied;
  `cleanup_too_early`: the first entry;
* `entered_eq`: the entries are those that `State.run` appends.

`entered` is the history of the entries that were read.  The program can end before any statement; a
failing `realloc` ends it before `realloc` has changed anything.
-/

namespace EmbeddedC.Dictionary

/-- The next statement of the loop; reading a field is one statement. -/
inductive Pc
  | read (f : Field)
  /-- `clients_num++` -/
  | count
  /-- `tmp_ptr = realloc(..)` -/
  | grow
  /-- `dict = tmp_ptr` -/
  | assign
  /-- `memset` of the new entry -/
  | clear
  /-- `memcpy` to the new entry -/
  | copy
  deriving DecidableEq

/-- The variables. -/
structure Vars where
  pc : Pc
  heap : Heap Entry
  dict : ℕ
  tmpPtr : ℕ
  clientsNum : ℕ
  tmpDict : Entry
  input : List Char
  entered : List Entry

/-- What happens: the next statement, or `realloc`, which puts the array at `place`. -/
inductive Action
  | next
  | grow (place : ℕ)

/-- A field is read; `tmp_dict` is zeroed before the first one. -/
def readStep (s : Vars) (f : Field) : Option Vars :=
  (readField f (if f = .name then .zeroed else s.tmpDict) s.input).map fun r =>
    match f with
    | .name => { s with pc := .read .surname, tmpDict := r.1, input := r.2 }
    | .surname => { s with pc := .read .phone, tmpDict := r.1, input := r.2 }
    | .phone => { s with
        pc := .count
        tmpDict := r.1
        input := r.2
        entered := s.entered ++ [r.1] }

/-- The loop of `first_task`, from the `malloc` of an empty array on. -/
def firstTask : Machine Vars Action where
  init s := ∃ (before heap : Heap Entry) (dict tmpPtr : ℕ) (tmpDict : Entry) (input : List Char),
    before.malloc 0 dict = some heap ∧ s = ⟨.read .name, heap, dict, tmpPtr, 0, tmpDict, input, []⟩
  step s a :=
    match s.pc, a with
    | .read f, .next => readStep s f
    | .count, .next => some { s with pc := .grow, clientsNum := s.clientsNum + 1 }
    | .grow, .grow place =>
      (s.heap.realloc s.dict s.clientsNum place).map fun heap =>
        { s with pc := .assign, heap := heap, tmpPtr := place }
    | .assign, .next => some { s with pc := .clear, dict := s.tmpPtr }
    | .clear, .next =>
      (s.heap.store s.dict (s.clientsNum - 1) .zeroed).map fun heap =>
        { s with pc := .copy, heap := heap }
    | .copy, .next =>
      (s.heap.store s.dict (s.clientsNum - 1) s.tmpDict).map fun heap =>
        { s with pc := .read .name, heap := heap }
    | _, _ => none

/-- What a statement does, by cases. -/
inductive Statement (s : Vars) : Vars → Prop
  | read {f : Field} {t : Vars} (hpc : s.pc = .read f) (hread : readStep s f = some t) :
    Statement s t
  | count (hpc : s.pc = .count) :
    Statement s { s with pc := .grow, clientsNum := s.clientsNum + 1 }
  | grow {place : ℕ} {heap : Heap Entry} (hpc : s.pc = .grow)
    (hgrow : s.heap.realloc s.dict s.clientsNum place = some heap) :
    Statement s { s with pc := .assign, heap := heap, tmpPtr := place }
  | assign (hpc : s.pc = .assign) : Statement s { s with pc := .clear, dict := s.tmpPtr }
  | clear {heap : Heap Entry} (hpc : s.pc = .clear)
    (hstore : s.heap.store s.dict (s.clientsNum - 1) .zeroed = some heap) :
    Statement s { s with pc := .copy, heap := heap }
  | copy {heap : Heap Entry} (hpc : s.pc = .copy)
    (hstore : s.heap.store s.dict (s.clientsNum - 1) s.tmpDict = some heap) :
    Statement s { s with pc := .read .name, heap := heap }

theorem Statement.of_step {s t : Vars} {a : Action} (h : firstTask.step s a = some t) :
    Statement s t := by
  unfold firstTask at h
  dsimp only at h
  split at h
  · exact .read ‹_› h
  · obtain rfl := Option.some.inj h
    exact .count ‹_›
  · obtain ⟨heap, hgrow, rfl⟩ := Option.map_eq_some_iff.1 h
    exact .grow ‹_› hgrow
  · obtain rfl := Option.some.inj h
    exact .assign ‹_›
  · obtain ⟨heap, hstore, rfl⟩ := Option.map_eq_some_iff.1 h
    exact .clear ‹_› hstore
  · obtain ⟨heap, hstore, rfl⟩ := Option.map_eq_some_iff.1 h
    exact .copy ‹_› hstore
  · cases h

/-- `_cleanup` finds every entry that is counted in the array, completely entered. -/
def Consistent (s : Vars) : Prop :=
  ∀ i < s.clientsNum, ∃ e, s.entered[i]? = some e ∧ s.heap.load s.dict i = some e

/-- The last entry was not counted yet, or it is in the array; so it is before it is copied, when
nothing was entered but three empty lines. -/
def Settled (s : Vars) : Prop :=
  match s.pc with
  | .read _ | .count => True
  | .grow | .assign | .clear => False
  | .copy => s.tmpDict = .zeroed

/-- There is a block for `c` entries at `p`, and the first `k` are those that were entered. -/
structure Holds (H : Heap Entry) (entered : List Entry) (p c k : ℕ) : Prop where
  room : H.capacity p = some c
  entries : ∀ i < k, ∃ e, entered[i]? = some e ∧ H.load p i = some e

/-- What holds at each statement. -/
def Sound (s : Vars) : Prop :=
  match s.pc with
  | .read _ => s.entered.length = s.clientsNum ∧
      Holds s.heap s.entered s.dict s.clientsNum s.clientsNum
  | .count => s.entered.length = s.clientsNum + 1 ∧ s.entered[s.clientsNum]? = some s.tmpDict ∧
      Holds s.heap s.entered s.dict s.clientsNum s.clientsNum
  | .grow => ∃ k, s.clientsNum = k + 1 ∧ s.entered.length = k + 1 ∧
      s.entered[k]? = some s.tmpDict ∧ Holds s.heap s.entered s.dict k k
  | .assign => ∃ k, s.clientsNum = k + 1 ∧ s.entered.length = k + 1 ∧
      s.entered[k]? = some s.tmpDict ∧ Holds s.heap s.entered s.tmpPtr (k + 1) k ∧
      s.heap.load s.tmpPtr k = none ∧ (s.tmpPtr ≠ s.dict → s.heap.capacity s.dict = none)
  | .clear => ∃ k, s.clientsNum = k + 1 ∧ s.entered.length = k + 1 ∧
      s.entered[k]? = some s.tmpDict ∧ Holds s.heap s.entered s.dict (k + 1) k ∧
      s.heap.load s.dict k = none
  | .copy => ∃ k, s.clientsNum = k + 1 ∧ s.entered.length = k + 1 ∧
      s.entered[k]? = some s.tmpDict ∧ Holds s.heap s.entered s.dict (k + 1) k ∧
      s.heap.load s.dict k = some .zeroed

variable {s t : Vars} {H H' : Heap Entry} {entered : List Entry} {p q c k : ℕ}

theorem Holds.append (h : Holds H entered p c k) (e : Entry) : Holds H (entered ++ [e]) p c k := by
  refine ⟨h.room, fun i hi => ?_⟩
  obtain ⟨e', he', hload⟩ := h.entries i hi
  refine ⟨e', ?_, hload⟩
  rw [List.getElem?_append_left (List.getElem?_eq_some_iff.1 he').1, he']

/-- The array gets room for one more entry. -/
theorem Holds.realloc (h : Holds H entered p k k) (hgrow : H.realloc p (k + 1) q = some H') :
    Holds H' entered q (k + 1) k := by
  refine ⟨Heap.capacity_realloc hgrow, fun i hi => ?_⟩
  obtain ⟨e, he, hload⟩ := h.entries i hi
  exact ⟨e, he, (Heap.load_realloc hgrow h.room hi (by omega)).trans hload⟩

/-- The new entry is written, and the others are kept. -/
theorem Holds.store (h : Holds H entered p c k) {e : Entry} (hstore : H.store p k e = some H') :
    Holds H' entered p c k := by
  refine ⟨(Heap.capacity_store hstore).trans h.room, fun i hi => ?_⟩
  obtain ⟨e', he', hload⟩ := h.entries i hi
  exact ⟨e', he', (Heap.load_store_ne hstore hi.ne).trans hload⟩

theorem Holds.succ (h : Holds H entered p c k) {e : Entry} (he : entered[k]? = some e)
    (hload : H.load p k = some e) : Holds H entered p c (k + 1) := by
  refine ⟨h.room, fun i hi => ?_⟩
  rcases Nat.lt_succ_iff_lt_or_eq.1 hi with hi | rfl
  · exact h.entries i hi
  · exact ⟨e, he, hload⟩

theorem Sound.readStep {f : Field} (hs : Sound s) (hpc : s.pc = .read f)
    (h : readStep s f = some t) : Sound t := by
  obtain ⟨r, -, rfl⟩ := Option.map_eq_some_iff.1 h
  rw [Sound, hpc] at hs
  obtain ⟨hlength, hholds⟩ := hs
  cases f with
  | name => exact ⟨hlength, hholds⟩
  | surname => exact ⟨hlength, hholds⟩
  | phone => exact ⟨by simp [hlength], by simp [← hlength], hholds.append r.1⟩

theorem Sound.step (hs : Sound s) (h : Statement s t) : Sound t := by
  cases h with
  | read hpc hread => exact hs.readStep hpc hread
  | count hpc =>
    rw [Sound, hpc] at hs
    exact ⟨s.clientsNum, rfl, hs⟩
  | grow hpc hgrow =>
    rw [Sound, hpc] at hs
    obtain ⟨k, hcount, hlength, hlast, hholds⟩ := hs
    rw [hcount] at hgrow
    exact ⟨k, hcount, hlength, hlast, hholds.realloc hgrow,
      Heap.load_realloc_new hgrow hholds.room le_rfl, Heap.realloc_of_ne hgrow⟩
  | assign hpc =>
    rw [Sound, hpc] at hs
    obtain ⟨k, hcount, hlength, hlast, hholds, hnew, -⟩ := hs
    exact ⟨k, hcount, hlength, hlast, hholds, hnew⟩
  | clear hpc hstore =>
    rw [Sound, hpc] at hs
    obtain ⟨k, hcount, hlength, hlast, hholds, -⟩ := hs
    rw [hcount, Nat.add_sub_cancel] at hstore
    exact ⟨k, hcount, hlength, hlast, hholds.store hstore, Heap.load_store_self hstore⟩
  | copy hpc hstore =>
    rw [Sound, hpc] at hs
    obtain ⟨k, hcount, hlength, hlast, hholds, -⟩ := hs
    rw [hcount, Nat.add_sub_cancel] at hstore
    refine ⟨hlength.trans hcount.symm, ?_⟩
    dsimp only
    rw [hcount]
    exact (hholds.store hstore).succ hlast (Heap.load_store_self hstore)

theorem sound_of_reachable (h : firstTask.Reachable s) : Sound s := by
  refine h.invariant ?_ fun s a t _ ih hstep => ih.step (.of_step hstep)
  rintro s ⟨before, heap, dict, tmpPtr, tmpDict, input, hmalloc, rfl⟩
  exact ⟨rfl, Heap.capacity_malloc hmalloc, fun i hi => absurd hi (Nat.not_lt_zero i)⟩

/-- What `_cleanup` finds where the last entry should be. -/
theorem Consistent.load_last (h : Consistent s) (hcount : s.clientsNum = k + 1)
    (hlast : s.entered[k]? = some s.tmpDict) : s.heap.load s.dict k = some s.tmpDict := by
  obtain ⟨e, he, hload⟩ := h k (by omega)
  rw [hlast] at he
  obtain rfl := Option.some.inj he
  exact hload

/-- Nothing has been stored where the last entry should be. -/
theorem not_consistent (hcount : s.clientsNum = k + 1) (hlast : s.entered[k]? = some s.tmpDict)
    (hnew : s.heap.load s.dict k = none) : ¬ Consistent s := by
  intro hcons
  have hload := hcons.load_last hcount hlast
  rw [hnew] at hload
  cases hload

/-- **The exit.** Whenever the program ends, `_cleanup` finds all counted entries in the array,
completely entered, exactly if it does not end between the count and the copy of an entry. -/
theorem consistent_iff (h : firstTask.Reachable s) : Consistent s ↔ Settled s := by
  have hs := sound_of_reachable h
  unfold Sound at hs
  unfold Settled
  cases hpc : s.pc with
  | read f =>
    rw [hpc] at hs
    exact iff_of_true hs.2.entries trivial
  | count =>
    rw [hpc] at hs
    exact iff_of_true hs.2.2.entries trivial
  | grow =>
    rw [hpc] at hs
    obtain ⟨k, hcount, -, hlast, hholds⟩ := hs
    exact iff_of_false (not_consistent hcount hlast (Heap.load_of_le hholds.room le_rfl)) id
  | assign =>
    -- `dict` is the old block, which may have been freed
    rw [hpc] at hs
    obtain ⟨k, hcount, -, hlast, -, hnew, hdead⟩ := hs
    refine iff_of_false (not_consistent hcount hlast ?_) id
    by_cases hplace : s.tmpPtr = s.dict
    · rw [← hplace]
      exact hnew
    · exact Heap.load_of_dead (hdead hplace) k
  | clear =>
    rw [hpc] at hs
    obtain ⟨k, hcount, -, hlast, -, hnew⟩ := hs
    exact iff_of_false (not_consistent hcount hlast hnew) id
  | copy =>
    -- the last entry is zeroed, as if three empty lines had been entered
    rw [hpc] at hs
    obtain ⟨k, hcount, -, hlast, hholds, hzeroed⟩ := hs
    constructor
    · intro hcons
      have hload := hcons.load_last hcount hlast
      rw [hzeroed] at hload
      exact (Option.some.inj hload).symm
    · intro hempty
      rw [← hempty] at hzeroed
      rw [Consistent, hcount]
      exact (hholds.succ hlast hzeroed).entries

/-- An empty array at 1, and a stream of lines. -/
def started (lines : List (List Char)) : Vars :=
  ⟨.read .name, fun p => if p = 1 then some [] else none, 1, 0, 0, .zeroed, stream lines, []⟩

theorem init_started (lines : List (List Char)) : firstTask.init (started lines) := by
  refine ⟨fun _ => none, _, 1, 0, .zeroed, stream lines, rfl, ?_⟩
  rw [started]
  congr 1
  funext p
  by_cases hp : p = 1
  · subst hp
    rw [if_pos rfl, Function.update_self]
    rfl
  · rw [if_neg hp, Function.update_of_ne hp]

/-- The statements of one entry, for which the array is placed at `place`. -/
def enter (place : ℕ) : List Action :=
  [.next, .next, .next, .next, .grow place, .next, .next, .next]

/-- An entry is in the array; the next one has been counted, and is not. -/
theorem consistent_first :
    (∃ s, firstTask.run (started [['a'], ['b'], ['1'], ['c'], ['d'], ['2']]) (enter 2) = some s ∧
      s.clientsNum = 1 ∧ Consistent s) ∧
    ∃ t, firstTask.run (started [['a'], ['b'], ['1'], ['c'], ['d'], ['2']])
        (enter 2 ++ [.next, .next, .next, .next]) = some t ∧ t.clientsNum = 2 ∧ ¬ Consistent t := by
  obtain ⟨s, hs, hcount, hpc⟩ : ∃ s, firstTask.run
      (started [['a'], ['b'], ['1'], ['c'], ['d'], ['2']]) (enter 2) = some s ∧
      s.clientsNum = 1 ∧ s.pc = .read .name := ⟨_, rfl, rfl, rfl⟩
  obtain ⟨t, ht, hcount', hpc'⟩ : ∃ t, firstTask.run
      (started [['a'], ['b'], ['1'], ['c'], ['d'], ['2']])
      (enter 2 ++ [.next, .next, .next, .next]) = some t ∧
      t.clientsNum = 2 ∧ t.pc = .grow := ⟨_, rfl, rfl, rfl⟩
  refine ⟨⟨s, hs, hcount, (consistent_iff (Machine.reachable_of_run (init_started _) hs)).2 ?_⟩,
    t, ht, hcount', fun hcons => ?_⟩
  · rw [Settled, hpc]
    trivial
  · have := (consistent_iff (Machine.reachable_of_run (init_started _) ht)).1 hcons
    rwa [Settled, hpc'] at this

/-- The first entry has been counted, and there is no memory for it. -/
theorem cleanup_too_early : ¬ ∀ s, firstTask.Reachable s → Consistent s := by
  intro hall
  obtain ⟨s, hs⟩ : ∃ s, firstTask.run (started [['a'], ['b'], ['1']])
      [.next, .next, .next, .next] = some s := ⟨_, rfl⟩
  have hcons := hall s (Machine.reachable_of_run (init_started _) hs)
  cases hs
  obtain ⟨e, -, hload⟩ := hcons 0 Nat.zero_lt_one
  cases hload

/-! ### The entries -/

/-- What the loop has read, without its memory. -/
def Vars.read (s : Vars) : State :=
  match s.pc with
  | .read f => ⟨f, if f = .name then .zeroed else s.tmpDict, s.entered, s.input⟩
  | _ => ⟨.name, .zeroed, s.entered, s.input⟩

/-- A statement reads a field, or changes the memory only. -/
theorem read_step (h : Statement s t) : t.read = s.read ∨ s.read.step = some t.read := by
  cases h with
  | @read f _ hpc hread =>
    obtain ⟨r, hr, rfl⟩ := Option.map_eq_some_iff.1 hread
    have hfield : s.read = ⟨f, if f = .name then .zeroed else s.tmpDict, s.entered, s.input⟩ := by
      rw [Vars.read, hpc]
    rw [hfield, State.step, hr, Option.map_some]
    exact .inr (by cases f <;> rfl)
  | count hpc | grow hpc | assign hpc | clear hpc => exact .inl (by rw [Vars.read, Vars.read, hpc])
  | copy hpc =>
    refine .inl ?_
    rw [Vars.read, Vars.read, hpc]
    rfl

/-- The statements read what `State.run` reads. -/
theorem run_of_path {s₀ : Vars} (h : firstTask.Path Machine.anyStep s₀ s) :
    ∃ n, s₀.read.run n = some s.read := by
  induction h with
  | refl => exact ⟨0, rfl⟩
  | tail _ _ hstep ih =>
    obtain ⟨n, hn⟩ := ih
    rcases read_step (.of_step hstep) with heq | hnext
    · exact ⟨n, heq ▸ hn⟩
    · exact ⟨n + 1, by rw [State.run, hn, Option.bind_some, hnext]⟩

/-- **The array.** Before a field is read, the array holds the entries that `State.run` appends. -/
theorem entered_eq {s₀ : Vars} {f : Field} (hinit : firstTask.init s₀)
    (h : firstTask.Path Machine.anyStep s₀ s) (hpc : s.pc = .read f) :
    ∃ n r, State.run ⟨.name, .zeroed, [], s₀.input⟩ n = some r ∧ r.field = f ∧
      r.input = s.input ∧ ∀ i, s.heap.load s.dict i = r.dict[i]? := by
  have hsound := sound_of_reachable ⟨s₀, hinit, h⟩
  unfold Sound at hsound
  rw [hpc] at hsound
  obtain ⟨hlength, hholds⟩ := hsound
  have hstart : s₀.read = ⟨.name, .zeroed, [], s₀.input⟩ := by
    obtain ⟨before, heap, dict, tmpPtr, tmpDict, input, -, rfl⟩ := hinit
    rfl
  have hend : s.read = ⟨f, if f = .name then .zeroed else s.tmpDict, s.entered, s.input⟩ := by
    rw [Vars.read, hpc]
  obtain ⟨n, hn⟩ := run_of_path h
  rw [hstart, hend] at hn
  refine ⟨n, _, hn, rfl, rfl, fun i => ?_⟩
  dsimp only
  by_cases hi : i < s.clientsNum
  · obtain ⟨e, he, hload⟩ := hholds.entries i hi
    rw [hload, he]
  · rw [Heap.load_of_le hholds.room (Nat.le_of_not_lt hi), List.getElem?_eq_none (by omega)]

/-- One entry, for which the array is moved to 2. -/
theorem entered_eq_first : ∃ s, firstTask.run (started [['a'], ['b'], ['1']])
    [.next, .next, .next, .next, .grow 2, .next, .next, .next] = some s ∧
    ∃ n r, State.run ⟨.name, .zeroed, [], stream [['a'], ['b'], ['1']]⟩ n = some r ∧
      r.field = .name ∧ r.input = s.input ∧ ∀ i, s.heap.load s.dict i = r.dict[i]? := by
  obtain ⟨s, hs, hpc⟩ : ∃ s, firstTask.run (started [['a'], ['b'], ['1']])
      [.next, .next, .next, .next, .grow 2, .next, .next, .next] = some s ∧ s.pc = .read .name :=
    ⟨_, rfl, rfl⟩
  exact ⟨s, hs, entered_eq (init_started _) (Machine.path_of_runUnder hs) hpc⟩

end EmbeddedC.Dictionary
