import QtPlayer.Library.RingAddressing
import QtPlayer.Storage.PieceGeometry

/- The arithmetic of the geometry functions. C++ division truncates; on the positions a
   storage can reach every dividend is nonnegative and the floor functions agree with it. -/
namespace StorageGeometry
open FlatPieceMemoryStorage RingAddressing

variable (g : Geometry)

theorem pieceLen_positive : 0 < g.pieceLen := by have := g.pieceLen_pos; omega

theorem cacheSizeInPieces_positive : 0 < g.cacheSizeInPieces := by
  have := g.cacheSizeInPieces_pos
  omega

theorem cacheSize_positive : 0 < g.cacheSize :=
  Int.mul_pos (pieceLen_positive g) (cacheSizeInPieces_positive g)

theorem piece_of_position {x : Int} (nonneg : 0 ≤ x) : x.tdiv g.pieceLen = x / g.pieceLen :=
  Int.tdiv_eq_ediv_of_nonneg nonneg

theorem firstPiece_eq : g.firstPiece = g.fOffset / g.pieceLen :=
  piece_of_position g g.fOffset_nonneg

theorem lastPiece_eq : g.lastPiece = (g.fOffset + g.fSize - 1) / g.pieceLen :=
  piece_of_position g (by have := g.fOffset_nonneg; have := g.fSize_pos; omega)

theorem firstPiece_nonneg : 0 ≤ g.firstPiece := by
  rw [firstPiece_eq]
  exact Int.ediv_nonneg g.fOffset_nonneg (by have := g.pieceLen_pos; omega)

theorem firstPieceOffset_nonneg : 0 ≤ g.firstPieceOffset :=
  Int.mul_nonneg (firstPiece_nonneg g) (by have := g.pieceLen_pos; omega)

theorem fOffset_in_firstPiece :
    g.firstPieceOffset ≤ g.fOffset ∧ g.fOffset < g.firstPieceOffset + g.pieceLen := by
  have := position_in_block (pieceLen_positive g) g.fOffset
  rw [← firstPiece_eq] at this
  exact this

theorem fileEnd_in_lastPiece :
    g.pieceAbsPos g.lastPiece < g.fOffset + g.fSize ∧
      g.fOffset + g.fSize ≤ g.pieceAbsPos (g.lastPiece + 1) := by
  have inside := position_in_block (pieceLen_positive g) (g.fOffset + g.fSize - 1)
  rw [← lastPiece_eq] at inside
  simp only [Geometry.pieceAbsPos, Int.add_mul, Int.one_mul]
  omega

theorem pieceAbsPos_succ (p : Int) : g.pieceAbsPos (p + 1) = g.pieceAbsPos p + g.pieceLen := by
  simp [Geometry.pieceAbsPos, Int.add_mul]

theorem pieceAbsPos_mono {p q : Int} (le : p ≤ q) : g.pieceAbsPos p ≤ g.pieceAbsPos q :=
  Int.mul_le_mul_of_nonneg_right le (by have := g.pieceLen_pos; omega)

theorem pieceAbsPos_add (p n : Int) : g.pieceAbsPos (p + n) = g.pieceAbsPos p + n * g.pieceLen := by
  simp [Geometry.pieceAbsPos, Int.add_mul]

theorem piece_start_le (x : Int) : g.pieceAbsPos (x / g.pieceLen) ≤ x :=
  (position_in_block (pieceLen_positive g) x).1

theorem lt_piece_end (x : Int) : x < g.pieceAbsPos (x / g.pieceLen) + g.pieceLen :=
  (position_in_block (pieceLen_positive g) x).2

theorem piece_eq_iff {x p : Int} :
    x / g.pieceLen = p ↔ g.pieceAbsPos p ≤ x ∧ x < g.pieceAbsPos p + g.pieceLen :=
  block_bounds_iff (pieceLen_positive g)

theorem piece_mono {x y : Int} (le : x ≤ y) : x / g.pieceLen ≤ y / g.pieceLen :=
  block_mono (pieceLen_positive g) le

theorem piece_of_pieceAbsPos (p : Int) : g.pieceAbsPos p / g.pieceLen = p :=
  (piece_eq_iff g).mpr ⟨by omega, by have := pieceLen_positive g; omega⟩

def cacheCell (x : Int) : Int := cell g.cacheSize (x - g.firstPieceOffset)

theorem cacheCell_bounds (x : Int) : 0 ≤ cacheCell g x ∧ cacheCell g x < g.cacheSize :=
  cell_in_ring (cacheSize_positive g) _

theorem cacheCell_forward {x d : Int} (nonneg : 0 ≤ d) (atMost : d ≤ g.cacheSize) :
    cacheCell g (x + d) = if cacheCell g x + d < g.cacheSize then cacheCell g x + d
      else cacheCell g x + d - g.cacheSize := by
  unfold cacheCell
  rw [show x + d - g.firstPieceOffset = x - g.firstPieceOffset + d by omega]
  exact cell_forward (cacheSize_positive g) nonneg atMost

theorem posInCacheByAbsPos_eq {x : Int} (after : g.firstPieceOffset ≤ x) :
    g.posInCacheByAbsPos x = cacheCell g x :=
  Int.tmod_eq_emod_of_nonneg (by omega)

theorem posInCacheByPiece_add {p o : Int} (after : g.firstPiece ≤ p) (start : 0 ≤ o)
    (inside : o < g.pieceLen) :
    g.posInCacheByPiece p + o = cacheCell g (g.pieceAbsPos p + o) := by
  have block := block_cell (cacheSizeInPieces_positive g) start inside
    (m := p - g.firstPiece)
  have shift : g.pieceAbsPos p + o - g.firstPieceOffset =
      (p - g.firstPiece) * g.pieceLen + o := by
    simp only [Geometry.firstPieceOffset, Geometry.pieceAbsPos, Int.sub_mul]
    omega
  rw [cacheCell, shift]
  simp only [Geometry.posInCacheByPiece, Geometry.cacheSize]
  rw [Int.tmod_eq_emod_of_nonneg (by omega)]
  exact block

theorem posInCacheByPiece_bounds {p : Int} (after : g.firstPiece ≤ p) :
    0 ≤ g.posInCacheByPiece p ∧ g.posInCacheByPiece p + g.pieceLen ≤ g.cacheSize := by
  have len := pieceLen_positive g
  have start := posInCacheByPiece_add g after (Int.le_refl 0) len
  have last := posInCacheByPiece_add g after (show 0 ≤ g.pieceLen - 1 by omega)
    (show g.pieceLen - 1 < g.pieceLen by omega)
  have first := cacheCell_bounds g (g.pieceAbsPos p + 0)
  have final := cacheCell_bounds g (g.pieceAbsPos p + (g.pieceLen - 1))
  omega

theorem posInCacheByPiece_disjoint {p q o r : Int} (after : g.firstPiece ≤ p)
    (after' : g.firstPiece ≤ q) (start : 0 ≤ o) (inside : o < g.pieceLen) (start' : 0 ≤ r)
    (inside' : r < g.pieceLen) (close : p - q < g.cacheSizeInPieces)
    (close' : q - p < g.cacheSizeInPieces)
    (same : g.posInCacheByPiece p + o = g.posInCacheByPiece q + r) : p = q ∧ o = r := by
  simp only [Geometry.posInCacheByPiece] at same
  rw [Int.tmod_eq_emod_of_nonneg (by omega), Int.tmod_eq_emod_of_nonneg (by omega)] at same
  obtain ⟨pieces, offsets⟩ := blocks_disjoint (cacheSizeInPieces_positive g) start inside
    start' inside' (by omega) (by omega) same
  exact ⟨by omega, offsets⟩

end StorageGeometry
