import Mathlib.Tactic

/-!
# The spiral through a square

A square grid is a border around a smaller square.  The clockwise inward spiral goes round the
border, from the top left corner along the top row, and on through the square inside.

* `border m`: the cells of the border of the square with side `m + 2`, clockwise;
* `spiral n`: all cells of the square with side `n`;
* `mem_spiral`, `nodup_spiral`, `length_spiral`: every cell is visited once.
-/

namespace Rings

/-- Row and column of a cell. -/
abbrev Cell := ℕ × ℕ

/-- The top row, the right column, the bottom row and the left column. -/
def border (m : ℕ) : List Cell :=
  (List.range (m + 2)).map (fun i => (0, i)) ++
    (List.range (m + 1)).map (fun i => (i + 1, m + 1)) ++
    (List.range (m + 1)).map (fun i => (m + 1, m - i)) ++
    (List.range m).map fun i => (m - i, 0)

/-- A cell of the square inside a border. -/
def inward (p : Cell) : Cell := (p.1 + 1, p.2 + 1)

/-- The cells of a square in the order in which the spiral visits them. -/
def spiral : ℕ → List Cell
  | 0 => []
  | 1 => [(0, 0)]
  | m + 2 => border m ++ (spiral m).map inward

theorem inward_injective : Function.Injective inward := by
  rintro ⟨r, c⟩ ⟨r', c'⟩ h
  simpa [inward] using h

theorem mem_border {m r c : ℕ} : (r, c) ∈ border m ↔
    r < m + 2 ∧ c < m + 2 ∧ (r = 0 ∨ c = 0 ∨ r = m + 1 ∨ c = m + 1) := by
  simp only [border, List.mem_append, List.mem_map, List.mem_range, Prod.mk.injEq]
  constructor
  · rintro (((⟨i, hi, rfl, rfl⟩ | ⟨i, hi, rfl, rfl⟩) | ⟨i, hi, rfl, rfl⟩) | ⟨i, hi, rfl, rfl⟩) <;>
      omega
  · rintro ⟨hr, hc, hside⟩
    by_cases htop : r = 0
    · exact .inl (.inl (.inl ⟨c, hc, htop.symm, rfl⟩))
    by_cases hright : c = m + 1
    · exact .inl (.inl (.inr ⟨r - 1, by omega, by omega, hright.symm⟩))
    by_cases hbottom : r = m + 1
    · exact .inl (.inr ⟨m - c, by omega, hbottom.symm, by omega⟩)
    · exact .inr ⟨m - r, by omega, by omega, by omega⟩

theorem nodup_border (m : ℕ) : (border m).Nodup := by
  have side : ∀ {n : ℕ} {f : ℕ → Cell}, (∀ i < n, ∀ j < n, f i = f j → i = j) →
      ((List.range n).map f).Nodup := fun h =>
    List.Nodup.map_on (fun i hi j hj => h i (List.mem_range.1 hi) j (List.mem_range.1 hj))
      List.nodup_range
  simp only [border, List.nodup_append', List.disjoint_left, List.mem_append, List.mem_map,
    List.mem_range]
  refine ⟨⟨⟨side ?_, side ?_, ?_⟩, side ?_, ?_⟩, side ?_, ?_⟩
  · intro i _ j _ h
    simpa using h
  · intro i _ j _ h
    simpa using h
  · rintro p ⟨i, hi, rfl⟩ ⟨j, hj, h⟩
    simp only [Prod.mk.injEq] at h
    omega
  · intro i hi j hj h
    simp only [Prod.mk.injEq] at h
    omega
  · rintro p (⟨i, hi, rfl⟩ | ⟨i, hi, rfl⟩) ⟨j, hj, h⟩ <;> simp only [Prod.mk.injEq] at h <;> omega
  · intro i hi j hj h
    simp only [Prod.mk.injEq] at h
    omega
  · rintro p ((⟨i, hi, rfl⟩ | ⟨i, hi, rfl⟩) | ⟨i, hi, rfl⟩) ⟨j, hj, h⟩ <;>
      simp only [Prod.mk.injEq] at h <;> omega

/-- The spiral visits the cells of the square. -/
theorem mem_spiral {n : ℕ} {p : Cell} : p ∈ spiral n ↔ p.1 < n ∧ p.2 < n := by
  induction n using Nat.twoStepInduction generalizing p with
  | zero => simp [spiral]
  | one =>
    rcases p with ⟨r, c⟩
    simp [spiral]
  | more m ih _ =>
    rcases p with ⟨r, c⟩
    rw [spiral, List.mem_append, mem_border, List.mem_map]
    constructor
    · rintro (⟨hr, hc, -⟩ | ⟨q, hq, h⟩)
      · exact ⟨hr, hc⟩
      · have := ih.1 hq
        simp only [inward, Prod.mk.injEq] at h
        omega
    · rintro ⟨hr, hc⟩
      by_cases hside : r = 0 ∨ c = 0 ∨ r = m + 1 ∨ c = m + 1
      · exact .inl ⟨hr, hc, hside⟩
      · refine .inr ⟨(r - 1, c - 1), ih.2 ⟨?_, ?_⟩, ?_⟩
        · dsimp only at hr ⊢
          omega
        · dsimp only at hc ⊢
          omega
        · simp only [inward, Prod.mk.injEq]
          omega

/-- The spiral visits no cell twice. -/
theorem nodup_spiral (n : ℕ) : (spiral n).Nodup := by
  induction n using Nat.twoStepInduction with
  | zero => exact List.nodup_nil
  | one => exact List.nodup_singleton _
  | more m ih _ =>
    rw [spiral, List.nodup_append']
    refine ⟨nodup_border m, ih.map inward_injective, List.disjoint_left.2 ?_⟩
    rintro ⟨r, c⟩ hborder hinside
    obtain ⟨q, hq, h⟩ := List.mem_map.1 hinside
    have hside := mem_border.1 hborder
    have hlt := mem_spiral.1 hq
    simp only [inward, Prod.mk.injEq] at h
    omega

theorem length_spiral (n : ℕ) : (spiral n).length = n * n := by
  have hcells : (spiral n).toFinset = Finset.range n ×ˢ Finset.range n := by
    ext p
    simp [mem_spiral]
  rw [← List.toFinset_card_of_nodup (nodup_spiral n), hcells, Finset.card_product,
    Finset.card_range]

/-- 1 2 3, 8 9 4, 7 6 5 -/
example : spiral 3 = [(0, 0), (0, 1), (0, 2), (1, 2), (2, 2), (2, 1), (2, 0), (1, 0), (1, 1)] :=
  rfl

end Rings
