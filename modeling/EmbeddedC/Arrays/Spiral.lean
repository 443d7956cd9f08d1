import EmbeddedC.Lib.Rings
import EmbeddedC.Lib.Slots

/-!
# Homework 1: `fourth_task`, numbers in a spiral

The loop over `j` counts down in halves; every value of `j` is one straight run of stores, from
which the direction of the next one is computed.

* `State`, `store`, `segment`: the variables, one store, and one value of `j`;
* `loop`, `fourthTask`: all values of `j`;
* `written_loop`: two rounds of the loop with an integer `j` and two with the half below are one
  ring of the spiral;
* `fourth_task`: the array holds the positions of its cells in the spiral.

The `float` counter is modelled by the number of its halves, which is exact.
-/

namespace EmbeddedC.Arrays

open Rings

/-- The variables of the loop.  `written` is the history of the indices that were written. -/
structure State where
  arr : ℤ → Option ℕ
  written : List ℤ
  curNumber : ℕ
  lastIndex : ℤ
  coef : ℤ

namespace State

/-- `arr[last_index + k * coef] = cur_number` and `cur_number++` -/
def store (s : State) (k : ℕ) : State := { s with
  arr := Function.update s.arr (s.lastIndex + k * s.coef) (some s.curNumber)
  written := s.written ++ [s.lastIndex + k * s.coef]
  curNumber := s.curNumber + 1 }

/-- The loop over `k`, for `count` rounds. -/
def run (s : State) (count : ℕ) : State := (List.range count).foldl store s

/-- The body of the loop over `j`, for `halves` halves. -/
def segment (n : ℕ) (halves : ℕ) (s : State) : State :=
  let j := halves / 2
  let s := s.run j
  let lastIndex := s.lastIndex + ((j : ℤ) - 1) * s.coef
  let coef : ℤ := if halves % 2 = 0 then n else 1
  let coef := if j % 2 ≠ n % 2 then coef * -1 else coef
  { s with lastIndex := lastIndex + coef, coef := coef }

/-- The variables before the loop; the array is not initialised. -/
def initial : State where
  arr _ := none
  written := []
  curNumber := 1
  lastIndex := 0
  coef := 1

end State

open State

/-- The loop over `j`, from `halves` halves on: it ends at one half. -/
def loop (n : ℕ) : ℕ → State → State
  | 0, s | 1, s => s
  | halves + 2, s => loop n (halves + 1) (s.segment n (halves + 2))

/-- `fourth_task` with `n` in place of `FOURTH_TASK_N` -/
def fourthTask (n : ℕ) : State := loop n (2 * n) .initial

variable {n m k : ℕ} {s : State}

/-! ### One run of stores -/

theorem run_succ (s : State) (count : ℕ) : s.run (count + 1) = (s.run count).store count := by
  rw [State.run, List.range_succ, List.foldl_append]
  rfl

@[simp] theorem run_lastIndex (s : State) (count : ℕ) :
    (s.run count).lastIndex = s.lastIndex := by
  induction count with
  | zero => rfl
  | succ count ih => rw [run_succ, State.store, ih]

@[simp] theorem run_coef (s : State) (count : ℕ) : (s.run count).coef = s.coef := by
  induction count with
  | zero => rfl
  | succ count ih => rw [run_succ, State.store, ih]

theorem run_written (s : State) (count : ℕ) : (s.run count).written =
    s.written ++ (List.range count).map fun k : ℕ => s.lastIndex + k * s.coef := by
  induction count with
  | zero => simp [State.run]
  | succ count ih => simp [run_succ, State.store, ih, List.range_succ]

@[simp] theorem segment_written (halves : ℕ) : (s.segment n halves).written = s.written ++
    (List.range (halves / 2)).map fun k : ℕ => s.lastIndex + k * s.coef :=
  run_written s _

theorem segment_coef (halves : ℕ) : (s.segment n halves).coef =
    if halves / 2 % 2 ≠ n % 2 then (if halves % 2 = 0 then (n : ℤ) else 1) * -1
    else if halves % 2 = 0 then (n : ℤ) else 1 := rfl

theorem segment_lastIndex (halves : ℕ) : (s.segment n halves).lastIndex =
    s.lastIndex + ((halves / 2 : ℕ) - 1) * s.coef + (s.segment n halves).coef := by
  simp [State.segment]

/-! ### One ring -/

/-- The index of a cell of the square that is left after `k` rings. -/
def cellIndex (n k : ℕ) (p : Cell) : ℤ := (p.1 + k) * n + (p.2 + k)

theorem cellIndex_inward (n k : ℕ) (p : Cell) :
    cellIndex n k (inward p) = cellIndex n (k + 1) p := by
  simp only [cellIndex, inward]
  push_cast
  ring

/-- What a run of the loop does whose stores go along `cells`, and what the next one starts with. -/
structure Runs (n k : ℕ) (s t : State) (cells : List Cell) (next : Cell) (coef : ℤ) : Prop where
  written : t.written = s.written ++ cells.map (cellIndex n k)
  lastIndex : t.lastIndex = cellIndex n k next
  coef : t.coef = coef

/-- Along the top row, and then down. -/
theorem segment_right (hn : n = m + 2 + 2 * k) (hlast : s.lastIndex = cellIndex n k (0, 0))
    (hcoef : s.coef = 1) : Runs n k s (s.segment n (2 * m + 4))
      ((List.range (m + 2)).map fun i => (0, i)) (1, m + 1) n := by
  have hj : (2 * m + 4) / 2 = m + 2 := by omega
  have hnext : (s.segment n (2 * m + 4)).coef = n := by
    rw [segment_coef, if_neg (by omega), if_pos (by omega)]
  refine ⟨?_, ?_, hnext⟩
  · rw [segment_written, hj, hlast, hcoef, List.map_map]
    congr 2
    funext i
    simp [cellIndex]
    ring
  · rw [segment_lastIndex, hnext, hj, hlast, hcoef]
    simp only [cellIndex]
    push_cast
    ring

/-- Down the right column, and then left. -/
theorem segment_down (hn : n = m + 2 + 2 * k) (hlast : s.lastIndex = cellIndex n k (1, m + 1))
    (hcoef : s.coef = n) : Runs n k s (s.segment n (2 * m + 3))
      ((List.range (m + 1)).map fun i => (i + 1, m + 1)) (m + 1, m) (-1) := by
  have hj : (2 * m + 3) / 2 = m + 1 := by omega
  have hnext : (s.segment n (2 * m + 3)).coef = -1 := by
    rw [segment_coef, if_pos (by omega), if_neg (by omega), one_mul]
  refine ⟨?_, ?_, hnext⟩
  · rw [segment_written, hj, hlast, hcoef, List.map_map]
    congr 2
    funext i
    simp [cellIndex]
    ring
  · rw [segment_lastIndex, hnext, hj, hlast, hcoef]
    simp only [cellIndex]
    push_cast
    ring

/-- Along the bottom row, and then up. -/
theorem segment_left (hn : n = m + 2 + 2 * k) (hlast : s.lastIndex = cellIndex n k (m + 1, m))
    (hcoef : s.coef = -1) : Runs n k s (s.segment n (2 * m + 2))
      ((List.range (m + 1)).map fun i => (m + 1, m - i)) (m, 0) (-n) := by
  have hj : (2 * m + 2) / 2 = m + 1 := by omega
  have hnext : (s.segment n (2 * m + 2)).coef = -n := by
    rw [segment_coef, if_pos (by omega), if_pos (by omega), mul_neg_one]
  refine ⟨?_, ?_, hnext⟩
  · rw [segment_written, hj, hlast, hcoef, List.map_map]
    congr 1
    refine List.map_congr_left fun i hi => ?_
    have hle : i ≤ m := Nat.le_of_lt_succ (List.mem_range.1 hi)
    simp [cellIndex, hle]
    ring
  · rw [segment_lastIndex, hnext, hj, hlast, hcoef]
    simp only [cellIndex]
    push_cast
    ring

/-- Up the left column, and then to the right again, inside. -/
theorem segment_up (hn : n = m + 2 + 2 * k) (hlast : s.lastIndex = cellIndex n k (m, 0))
    (hcoef : s.coef = -n) : Runs n k s (s.segment n (2 * m + 1))
      ((List.range m).map fun i => (m - i, 0)) (1, 1) 1 := by
  have hj : (2 * m + 1) / 2 = m := by omega
  have hnext : (s.segment n (2 * m + 1)).coef = 1 := by
    rw [segment_coef, if_neg (by omega), if_neg (by omega)]
  refine ⟨?_, ?_, hnext⟩
  · rw [segment_written, hj, hlast, hcoef, List.map_map]
    congr 1
    refine List.map_congr_left fun i hi => ?_
    have hle : i ≤ m := (List.mem_range.1 hi).le
    simp [cellIndex, hle]
    ring
  · rw [segment_lastIndex, hnext, hj, hlast, hcoef]
    simp only [cellIndex]
    push_cast
    ring

/-- Four runs go round the border. -/
theorem segments_border (hn : n = m + 2 + 2 * k) (hlast : s.lastIndex = cellIndex n k (0, 0))
    (hcoef : s.coef = 1) : Runs n k s
      ((((s.segment n (2 * m + 4)).segment n (2 * m + 3)).segment n (2 * m + 2)).segment n
        (2 * m + 1)) (border m) (1, 1) 1 := by
  have hright := segment_right hn hlast hcoef
  have hdown := segment_down hn hright.lastIndex hright.coef
  have hleft := segment_left hn hdown.lastIndex hdown.coef
  have hup := segment_up hn hleft.lastIndex hleft.coef
  refine ⟨?_, hup.lastIndex, hup.coef⟩
  rw [hup.written, hleft.written, hdown.written, hright.written]
  simp only [border, List.map_append, List.append_assoc]

/-! ### All rings -/

/-- The last half does not write. -/
theorem loop_written_odd (m : ℕ) (s : State) : (loop n (2 * m + 1) s).written =
    (loop n (2 * m) (s.segment n (2 * m + 1))).written := by
  cases m with
  | zero => simp [loop]
  | succ m => rfl

/-- **The rings.** The loop goes along the spiral of the square that is left. -/
theorem loop_written (hn : n = m + 2 * k) (hlast : s.lastIndex = cellIndex n k (0, 0))
    (hcoef : s.coef = 1) :
    (loop n (2 * m) s).written = s.written ++ (spiral m).map (cellIndex n k) := by
  induction m using Nat.twoStepInduction generalizing k s with
  | zero => simp [loop, spiral]
  | one => simp [loop, spiral, hlast]
  | more m ih _ =>
    have hring := segments_border hn hlast hcoef
    have hinside : ∀ p, cellIndex n k (inward p) = cellIndex n (k + 1) p := cellIndex_inward n k
    change (loop n (2 * m + 1) _).written = _
    rw [loop_written_odd]
    -- the inner square begins where the ring has ended
    have hrest := ih (k := k + 1) (by omega) (hring.lastIndex.trans (hinside (0, 0))) hring.coef
    rw [hring.written] at hrest
    refine hrest.trans ?_
    simp only [spiral, List.map_append, List.map_map, List.append_assoc]
    congr 3
    funext p
    exact (hinside p).symm

/-! ### The array -/

/-- The number of stores, and what the array holds if none is overwritten. -/
structure Numbered (s : State) : Prop where
  curNumber : s.curNumber = s.written.length + 1
  arr : s.written.Nodup → ∀ (i : ℕ) (x : ℤ), s.written[i]? = some x → s.arr x = some (i + 1)

theorem Numbered.store (h : Numbered s) (k : ℕ) : Numbered (s.store k) := by
  refine ⟨?_, fun hnodup i x hx => ?_⟩
  · simp [State.store, h.curNumber]
  · simp only [State.store] at hnodup hx ⊢
    obtain ⟨hold, -, hnew⟩ := List.nodup_append.1 hnodup
    rcases List.getElem?_concat_eq_some.1 hx with hx | ⟨rfl, rfl⟩
    · have hne : x ≠ s.lastIndex + k * s.coef :=
        hnew x (List.mem_of_getElem? hx) _ List.mem_cons_self
      rw [Function.update_of_ne hne]
      exact h.arr hold i x hx
    · rw [Function.update_self, h.curNumber]

theorem Numbered.run (h : Numbered s) (count : ℕ) : Numbered (s.run count) := by
  induction count with
  | zero => exact h
  | succ count ih =>
    rw [run_succ]
    exact ih.store count

theorem Numbered.segment (h : Numbered s) (halves : ℕ) : Numbered (s.segment n halves) :=
  ⟨(h.run _).curNumber, (h.run _).arr⟩

theorem Numbered.loop (h : Numbered s) (halves : ℕ) : Numbered (loop n halves s) := by
  induction halves, s using Arrays.loop.induct n with
  | case1 s => exact h
  | case2 s => exact h
  | case3 halves s ih => exact ih (h.segment _)

/-! ### The indices -/

/-- The index of a cell, in the whole square. -/
theorem cellIndex_zero (n : ℕ) (p : Cell) : cellIndex n 0 p = (p.1 * n + p.2 : ℕ) := by
  simp [cellIndex]

theorem fourthTask_written (n : ℕ) :
    (fourthTask n).written = (spiral n).map (cellIndex n 0) := by
  have hstart : State.initial.lastIndex = cellIndex n 0 (0, 0) := by
    simp [State.initial, cellIndex]
  have h := loop_written (n := n) (m := n) (k := 0) rfl hstart rfl
  rw [fourthTask, h]
  rfl

theorem nodup_written (n : ℕ) : (fourthTask n).written.Nodup := by
  rw [fourthTask_written]
  refine (nodup_spiral n).map_on ?_
  rintro ⟨r, c⟩ hp ⟨r', c'⟩ hq h
  have hc := (mem_spiral.1 hp).2
  have hc' := (mem_spiral.1 hq).2
  rw [cellIndex_zero, cellIndex_zero, Nat.cast_inj] at h
  dsimp only at h hc hc'
  have hcol : c = c' := by
    rw [← Nat.mul_add_mod_of_lt hc, h, Nat.mul_add_mod_of_lt hc']
  subst hcol
  have hrow := Nat.eq_of_mul_eq_mul_right (Nat.zero_lt_of_lt hc) (Nat.add_right_cancel h)
  rw [hrow]

theorem mem_written {x : ℤ} : x ∈ (fourthTask n).written ↔ ∃ i < n * n, (i : ℤ) = x := by
  rw [fourthTask_written, List.mem_map]
  constructor
  · rintro ⟨⟨r, c⟩, hp, rfl⟩
    obtain ⟨hr, hc⟩ := mem_spiral.1 hp
    refine ⟨r * n + c, ?_, (cellIndex_zero n (r, c)).symm⟩
    calc r * n + c < r * n + n := Nat.add_lt_add_left hc _
      _ = (r + 1) * n := (Nat.succ_mul r n).symm
      _ ≤ n * n := Nat.mul_le_mul_right n hr
  · rintro ⟨i, hi, rfl⟩
    have hn : 0 < n := Nat.pos_of_mul_pos_left (Nat.zero_lt_of_lt hi)
    refine ⟨(i / n, i % n), mem_spiral.2 ⟨Nat.div_lt_of_lt_mul hi, Nat.mod_lt i hn⟩, ?_⟩
    rw [cellIndex_zero, Nat.div_add_mod']

/-- What is expected of `fourth_task`: every cell is written once and nothing else is, the cell at
row `r` and column `c` gets its position in the spiral, and these are the numbers from 1 on. -/
structure Spiral (n : ℕ) (s : State) : Prop where
  once : s.written.Perm ((List.range (n * n)).map Nat.cast)
  position : ∀ r < n, ∀ c < n, ∃ i, (spiral n)[i]? = some (r, c) ∧
    s.arr ((r * n + c : ℕ)) = some (i + 1)
  values : s.written.map s.arr = (List.range' 1 (n * n)).map some

/-- **The spiral.** For every side the loop fills the square along the spiral. -/
theorem fourth_task (n : ℕ) : Spiral n (fourthTask n) := by
  have hnumbered : Numbered (fourthTask n) :=
    Numbered.loop ⟨rfl, fun _ i x hx => by cases hx⟩ _
  have harr := hnumbered.arr (nodup_written n)
  have hlength : (fourthTask n).written.length = n * n := by
    rw [fourthTask_written, List.length_map, length_spiral]
  constructor
  case once =>
    refine (List.perm_ext_iff_of_nodup (nodup_written n) ?_).2 fun x => ?_
    · exact List.nodup_range.map Nat.cast_injective
    · simp [mem_written]
  case position =>
    intro r hr c hc
    obtain ⟨i, hi⟩ := List.getElem?_of_mem (mem_spiral.2 ⟨hr, hc⟩ : (r, c) ∈ spiral n)
    refine ⟨i, hi, harr i _ ?_⟩
    rw [fourthTask_written, List.getElem?_map, hi, Option.map_some, cellIndex_zero]
  case values =>
    refine List.ext_getElem (by simp [hlength]) fun i hi _ => ?_
    rw [List.length_map] at hi
    simp [harr i _ (List.getElem?_eq_getElem hi), Nat.add_comm]

end EmbeddedC.Arrays
