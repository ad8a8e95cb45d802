import Mathlib.Algebra.Order.Ring.Int
import Mathlib.Data.Int.ModEq
import Mathlib.Tactic.Ring

/- Positions on an unbounded line folded onto a ring of `size` cells. The ring may be cut
   into `count` blocks of `len` cells, addressed by block and offset or by position. -/
namespace RingAddressing

def cell (size x : Int) : Int := x % size

theorem cell_in_ring {size : Int} (positive : 0 < size) (x : Int) :
    0 ≤ cell size x ∧ cell size x < size :=
  ⟨Int.emod_nonneg x (by omega), Int.emod_lt_of_pos x positive⟩

theorem cell_injective {size x y : Int} (positive : 0 < size) (close : x - y < size)
    (close' : y - x < size) (same : cell size x = cell size y) : x = y := by
  have divides : size ∣ x - y := Int.ModEq.dvd (show y ≡ x [ZMOD size] from same.symm)
  obtain ⟨turns, eq⟩ := divides
  have none : turns = 0 := by
    by_contra some
    rcases Int.lt_or_gt_of_ne some with neg | pos
    · have : size * turns ≤ size * (-1) := Int.mul_le_mul_of_nonneg_left (by omega) (by omega)
      omega
    · have : size * 1 ≤ size * turns := Int.mul_le_mul_of_nonneg_left (by omega) (by omega)
      omega
  rw [none, Int.mul_zero] at eq
  omega

theorem cell_forward {size x d : Int} (positive : 0 < size) (nonneg : 0 ≤ d)
    (atMost : d ≤ size) :
    cell size (x + d) =
      if cell size x + d < size then cell size x + d else cell size x + d - size := by
  obtain ⟨lo, hi⟩ := cell_in_ring positive x
  have folded : cell size (x + d) = (cell size x + d) % size := by
    simp [cell, Int.emod_add_emod]
  rw [folded]
  split
  · rename_i inside
    exact Int.emod_eq_of_lt (by omega) inside
  · rename_i outside
    rw [← Int.sub_emod_right]
    exact Int.emod_eq_of_lt (by omega) (by omega)

/-- The distance between the cells tells a full ring from no distance at all only by the
    sign: it is the true distance, or that distance less one turn. -/
theorem cell_distance {size x d : Int} (positive : 0 < size) (nonneg : 0 < d)
    (atMost : d ≤ size) :
    (0 < cell size (x + d) - cell size x ∧ cell size (x + d) - cell size x = d) ∨
      (cell size (x + d) - cell size x ≤ 0 ∧ cell size (x + d) - cell size x = d - size) := by
  rw [cell_forward positive (by omega) atMost]
  split
  · exact Or.inl ⟨by omega, by omega⟩
  · exact Or.inr ⟨by omega, by omega⟩

theorem block_cell {count len m o : Int} (countPos : 0 < count) (start : 0 ≤ o) (inside : o < len) :
    m % count * len + o = cell (len * count) (m * len + o) := by
  have lenPos : 0 < len := by omega
  obtain ⟨lo, hi⟩ := cell_in_ring countPos m
  simp only [cell] at lo hi ⊢
  have upper : m % count * len ≤ (count - 1) * len :=
    Int.mul_le_mul_of_nonneg_right (by omega) (by omega)
  have lower : 0 ≤ m % count * len := Int.mul_nonneg lo (by omega)
  have expand : (count - 1) * len = len * count - len := by ring
  have split : m * len + o = (m % count * len + o) + len * count * (m / count) := by
    conv => lhs; rw [← Int.emod_add_mul_ediv m count]
    ring
  rw [split, Int.add_mul_emod_self_left]
  exact (Int.emod_eq_of_lt (by omega) (by omega)).symm

theorem blocks_disjoint {count len m m' o o' : Int} (countPos : 0 < count)
    (start : 0 ≤ o) (inside : o < len) (start' : 0 ≤ o') (inside' : o' < len)
    (close : m - m' < count) (close' : m' - m < count)
    (same : m % count * len + o = m' % count * len + o') : m = m' ∧ o = o' := by
  have blocks : m % count = m' % count := by
    by_contra different
    rcases Int.lt_or_gt_of_ne different with less | more
    · have := Int.mul_le_mul_of_nonneg_right (show m % count + 1 ≤ m' % count by omega)
        (show 0 ≤ len by omega)
      rw [Int.add_mul] at this
      omega
    · have := Int.mul_le_mul_of_nonneg_right (show m' % count + 1 ≤ m % count by omega)
        (show 0 ≤ len by omega)
      rw [Int.add_mul] at this
      omega
  refine ⟨cell_injective countPos close close' blocks, ?_⟩
  rw [blocks] at same
  omega

theorem position_in_block {len : Int} (positive : 0 < len) (x : Int) :
    x / len * len ≤ x ∧ x < x / len * len + len := by
  have := Int.emod_nonneg x (show len ≠ 0 by omega)
  have := Int.emod_lt_of_pos x positive
  have := Int.emod_add_mul_ediv x len
  have : len * (x / len) = x / len * len := Int.mul_comm _ _
  omega

theorem block_of_position {len p o : Int} (start : 0 ≤ o) (inside : o < len) :
    (p * len + o) / len = p := by
  rw [Int.mul_comm, Int.mul_add_ediv_left _ _ (by omega), Int.ediv_eq_zero_of_lt start inside,
    Int.add_zero]

theorem block_mono {len x y : Int} (positive : 0 < len) (le : x ≤ y) : x / len ≤ y / len :=
  Int.ediv_le_ediv positive le

theorem block_bounds_iff {len p x : Int} (positive : 0 < len) :
    x / len = p ↔ p * len ≤ x ∧ x < p * len + len := by
  constructor
  · intro eq
    subst eq
    exact position_in_block positive x
  · rintro ⟨low, high⟩
    have eq : x = p * len + (x - p * len) := by ring
    rw [eq]
    exact block_of_position (by omega) (by omega)

end RingAddressing
