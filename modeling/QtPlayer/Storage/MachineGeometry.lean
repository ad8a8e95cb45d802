import QtPlayer.Storage.CacheGeometry

/- When the geometry functions compute with int and qlonglong what they mean. -/
namespace MachineGeometry
open FlatPieceMemoryStorage StorageGeometry MachineIntegers

variable {g : Geometry}

/-- The end of the file is a qlonglong, and its last piece has an int for its index. -/
structure Representable (g : Geometry) : Prop where
  total : Fits 63 (g.fOffset + g.fSize)
  last : Fits 31 g.lastPiece

structure Exact (g : Geometry) : Prop where
  firstPiece : Machine.firstPiece g = g.firstPiece
  lastPiece : Machine.lastPiece g = g.lastPiece
  maxPieces : Machine.maxPieces g = g.maxPieces
  cacheSize : Machine.cacheSize g = g.cacheSize
  pieceAbsPos : ∀ p, Fits 31 p → g.firstPiece ≤ p → Machine.pieceAbsPos g p = g.pieceAbsPos p
  firstPieceOffset : Machine.firstPieceOffset g = g.firstPieceOffset
  bytesInLastPiece : Machine.bytesInLastPiece g =
    g.fOffset + g.fSize - g.pieceAbsPos g.lastPiece
  bytesInLastPiece_pos : 1 ≤ Machine.bytesInLastPiece g
  bytesInLastPiece_le : Machine.bytesInLastPiece g ≤ g.pieceLen
  posInCacheByAbsPos : ∀ x, Fits 63 x → g.firstPieceOffset ≤ x →
    Machine.posInCacheByAbsPos g x = g.posInCacheByAbsPos x
  posInCacheByPiece : ∀ p, Fits 31 p → g.firstPiece ≤ p →
    Machine.posInCacheByPiece g p = g.posInCacheByPiece p

/-- The two products and differences that are computed with int do not overflow. -/
def NoOverflow (g : Geometry) : Prop :=
  g.pieceAbsPos g.lastPiece < 2 ^ 31 ∧ g.lastPiece - g.firstPiece + 1 < 2 ^ 31

theorem fits_int {n : Int} (nonneg : 0 ≤ n) (most : n ≤ INT_MAX) : Fits 31 n := by
  unfold INT_MAX at most
  unfold Fits
  omega

theorem int_self {n : Int} (fits : Fits 31 n) : int n = n := wrap_of_fits fits

theorem qlonglong_self {n : Int} (fits : Fits 63 n) : qlonglong n = n := wrap_of_fits fits

theorem int_of_fits {n : Int} (nonneg : 0 ≤ n) (most : n ≤ INT_MAX) : int n = n :=
  wrap_of_fits (fits_int nonneg most)

theorem cacheSize_bounds (g : Geometry) : g.pieceLen ≤ INT_MAX ∧ g.cacheSizeInPieces ≤ INT_MAX := by
  have len := g.pieceLen_pos
  have count := g.cacheSizeInPieces_pos
  have fits := g.cacheSize_fits
  have wide : g.pieceLen * 1 ≤ g.pieceLen * g.cacheSizeInPieces :=
    Int.mul_le_mul_of_nonneg_left count (by omega)
  have deep : 1 * g.cacheSizeInPieces ≤ g.pieceLen * g.cacheSizeInPieces :=
    Int.mul_le_mul_of_nonneg_right len (by omega)
  omega

theorem cacheSize_exact (g : Geometry) : Machine.cacheSize g = g.cacheSize :=
  int_of_fits (by have := cacheSize_positive g; unfold Geometry.cacheSize at this; omega)
    g.cacheSize_fits

theorem pieceAbsPos_bounds (g : Geometry) {p : Int} (nonneg : 0 ≤ p) (index : Fits 31 p) :
    0 ≤ g.pieceAbsPos p ∧ g.pieceAbsPos p ≤ 2147483647 * 2147483647 := by
  have len := g.pieceLen_pos
  have most := (cacheSize_bounds g).1
  unfold INT_MAX at most
  unfold Geometry.pieceAbsPos
  constructor
  · exact Int.mul_nonneg nonneg (by omega)
  · apply Int.mul_le_mul <;> unfold Fits at index <;> omega

theorem pieceAbsPos_exact (g : Geometry) {p : Int} (nonneg : 0 ≤ p) (index : Fits 31 p) :
    Machine.pieceAbsPos g p = g.pieceAbsPos p := by
  have bounds := pieceAbsPos_bounds g nonneg index
  apply wrap_of_fits
  unfold Geometry.pieceAbsPos at bounds
  unfold Fits
  omega

theorem firstPiece_le_lastPiece (g : Geometry) : g.firstPiece ≤ g.lastPiece := by
  rw [firstPiece_eq, lastPiece_eq]
  exact piece_mono g (by have := g.fSize_pos; omega)

/- Positions and pieces from the first piece on, wherever the cast has put that one. -/
section FromFirstPiece

theorem firstPieceOffset_exact (nonneg : 0 ≤ Machine.firstPiece g) :
    Machine.firstPieceOffset g = g.pieceAbsPos (Machine.firstPiece g) :=
  pieceAbsPos_exact g nonneg (fits_wrap 31 _)

theorem posInCacheByAbsPos_exact (nonneg : 0 ≤ Machine.firstPiece g) {x : Int}
    (after : g.pieceAbsPos (Machine.firstPiece g) ≤ x) (position : Fits 63 x) :
    Machine.posInCacheByAbsPos g x =
      (x - g.pieceAbsPos (Machine.firstPiece g)).tmod g.cacheSize := by
  have start : 0 ≤ g.pieceAbsPos (Machine.firstPiece g) :=
    Int.mul_nonneg nonneg (by have := g.pieceLen_pos; omega)
  have distance : Fits 63 (x - g.pieceAbsPos (Machine.firstPiece g)) := by
    unfold Fits at position ⊢
    omega
  have ahead : 0 ≤ x - g.pieceAbsPos (Machine.firstPiece g) := by omega
  have size := cacheSize_positive g
  have fits := g.cacheSize_fits
  unfold Machine.posInCacheByAbsPos
  rw [firstPieceOffset_exact nonneg, qlonglong_self distance, cacheSize_exact]
  apply int_of_fits
  · exact Int.tmod_nonneg _ ahead
  · have below := Int.tmod_lt_of_pos (x - g.pieceAbsPos (Machine.firstPiece g)) size
    unfold Geometry.cacheSize at below ⊢
    omega

theorem posInCacheByPiece_exact (nonneg : 0 ≤ Machine.firstPiece g) {p : Int}
    (after : Machine.firstPiece g ≤ p) (index : Fits 31 p) :
    Machine.posInCacheByPiece g p =
      (p - Machine.firstPiece g).tmod g.cacheSizeInPieces * g.pieceLen := by
  have distance : Fits 31 (p - Machine.firstPiece g) := by
    unfold Fits at index ⊢
    omega
  have ahead : 0 ≤ p - Machine.firstPiece g := by omega
  have len := g.pieceLen_pos
  have fits := g.cacheSize_fits
  have low := Int.tmod_nonneg g.cacheSizeInPieces ahead
  have below := Int.tmod_lt_of_pos (p - Machine.firstPiece g) (cacheSizeInPieces_positive g)
  have inside : (p - Machine.firstPiece g).tmod g.cacheSizeInPieces * g.pieceLen ≤
      g.cacheSizeInPieces * g.pieceLen := Int.mul_le_mul_of_nonneg_right (by omega) (by omega)
  have turn : g.cacheSizeInPieces * g.pieceLen = g.pieceLen * g.cacheSizeInPieces :=
    Int.mul_comm _ _
  unfold Machine.posInCacheByPiece
  rw [int_self distance]
  apply int_of_fits
  · exact Int.mul_nonneg low (by omega)
  · omega

end FromFirstPiece

/- A file that is representable. -/

theorem lastPiece_bounds (representable : Representable g) : 0 ≤ g.firstPiece ∧
    g.firstPiece ≤ g.lastPiece ∧ g.lastPiece ≤ INT_MAX := by
  have last := representable.last
  unfold Fits at last
  unfold INT_MAX
  exact ⟨firstPiece_nonneg g, firstPiece_le_lastPiece g, by omega⟩

theorem firstPiece_exact (representable : Representable g) :
    Machine.firstPiece g = g.firstPiece := by
  obtain ⟨nonneg, before, most⟩ := lastPiece_bounds representable
  exact int_of_fits nonneg (Int.le_trans before most)

theorem lastPiece_exact (representable : Representable g) :
    Machine.lastPiece g = g.lastPiece := by
  obtain ⟨nonneg, before, most⟩ := lastPiece_bounds representable
  have total := representable.total
  have start := g.fOffset_nonneg
  have size := g.fSize_pos
  have byte : Fits 63 (g.fOffset + g.fSize - 1) := by
    unfold Fits at total ⊢
    omega
  unfold Machine.lastPiece
  rw [qlonglong_self total, qlonglong_self byte]
  exact int_of_fits (Int.le_trans nonneg before) most

/- A file whose pieces an int counts, and positions whose piece has an int for its index. -/
section Counted

theorem pieceAbsPos_counted {p : Int} (nonneg : 0 ≤ p) (index : p ≤ INT_MAX) :
    Machine.pieceAbsPos g p = g.pieceAbsPos p :=
  pieceAbsPos_exact g nonneg (fits_int nonneg index)

theorem position_counted {x : Int} (nonneg : 0 ≤ x) (piece : x / g.pieceLen ≤ INT_MAX) :
    Fits 63 x := by
  have index : Fits 31 INT_MAX := by decide
  have bounds := pieceAbsPos_bounds g (p := INT_MAX) (by decide) index
  have len := (cacheSize_bounds g).1
  have inside := lt_piece_end g x
  have below := pieceAbsPos_mono g piece
  unfold INT_MAX at len
  unfold Fits
  omega

theorem piece_counted {x : Int} (nonneg : 0 ≤ x) (piece : x / g.pieceLen ≤ INT_MAX) :
    int (x.tdiv g.pieceLen) = x / g.pieceLen := by
  rw [piece_of_position g nonneg]
  exact int_of_fits (Int.ediv_nonneg nonneg (by have := g.pieceLen_pos; omega)) piece

variable (g) [g.Counted]

theorem lastPiece_counts : g.lastPiece + 1 ≤ INT_MAX := by
  have := Geometry.Counted.lastPiece_lt (g := g)
  omega

theorem counted_representable : Representable g := by
  have counts := lastPiece_counts g
  have first := firstPiece_nonneg g
  have order := firstPiece_le_lastPiece g
  have next : Fits 31 (g.lastPiece + 1) := fits_int (by omega) counts
  have start := g.fOffset_nonneg
  have size := g.fSize_pos
  have ends := (fileEnd_in_lastPiece g).2
  have bounds := pieceAbsPos_bounds g (p := g.lastPiece + 1) (by omega) next
  refine ⟨?_, fits_int (by omega) (by omega)⟩
  unfold Fits
  omega

theorem firstPiece_counted : Machine.firstPiece g = g.firstPiece :=
  firstPiece_exact (counted_representable g)

theorem lastPiece_counted : Machine.lastPiece g = g.lastPiece :=
  lastPiece_exact (counted_representable g)

theorem firstPieceOffset_counted : Machine.firstPieceOffset g = g.firstPieceOffset := by
  obtain ⟨nonneg, before, most⟩ := lastPiece_bounds (counted_representable g)
  rw [Machine.firstPieceOffset, firstPiece_counted,
    pieceAbsPos_counted nonneg (Int.le_trans before most)]
  rfl

variable {g}

theorem posInCacheByAbsPos_counted {x : Int} (after : g.firstPieceOffset ≤ x)
    (piece : x / g.pieceLen ≤ INT_MAX) : Machine.posInCacheByAbsPos g x = cacheCell g x := by
  have first := firstPiece_counted g
  have nonneg := Int.le_trans (firstPieceOffset_nonneg g) after
  have after' : g.pieceAbsPos (Machine.firstPiece g) ≤ x := by rwa [first]
  rw [posInCacheByAbsPos_exact (by rw [first]; exact firstPiece_nonneg g) after'
    (position_counted nonneg piece), first]
  exact posInCacheByAbsPos_eq g after

theorem posInCacheByPiece_counted {p : Int} (after : g.firstPiece ≤ p) (index : p ≤ INT_MAX) :
    Machine.posInCacheByPiece g p = g.posInCacheByPiece p := by
  have first := firstPiece_counted g
  have nonneg := firstPiece_nonneg g
  rw [posInCacheByPiece_exact (by rwa [first]) (by rwa [first])
    (fits_int (Int.le_trans nonneg after) index), first]
  rfl

end Counted

theorem maxPieces_exact_iff (representable : Representable g) :
    Machine.maxPieces g = g.maxPieces ↔ g.lastPiece - g.firstPiece + 1 < 2 ^ 31 := by
  obtain ⟨nonneg, before, most⟩ := lastPiece_bounds representable
  have distance : Fits 31 (g.lastPiece - g.firstPiece) := fits_int (by omega) (by omega)
  have count := (cacheSize_bounds g).2
  have positive := g.cacheSizeInPieces_pos
  unfold Machine.maxPieces Geometry.maxPieces
  rw [firstPiece_exact representable, lastPiece_exact representable, int_self distance]
  unfold INT_MAX at most count
  constructor
  · intro same
    by_contra more
    -- the sum is 2 ^ 31, which wraps below zero
    have wrapped := fits_wrap 31 (g.lastPiece - g.firstPiece + 1)
    obtain ⟨turns, eq⟩ := wrap_turns 31 (g.lastPiece - g.firstPiece + 1)
    unfold Fits at wrapped
    unfold int at same
    omega
  · intro fewer
    rw [int_of_fits (by omega) (by unfold INT_MAX; omega)]

theorem bytesInLastPiece_exact_iff (representable : Representable g) :
    Machine.bytesInLastPiece g = g.bytesInLastPiece ↔ g.pieceAbsPos g.lastPiece < 2 ^ 31 := by
  obtain ⟨nonneg, before, most⟩ := lastPiece_bounds representable
  obtain ⟨starts, ends⟩ := fileEnd_in_lastPiece g
  have total := representable.total
  have len := (cacheSize_bounds g).1
  have start : 0 ≤ g.pieceAbsPos g.lastPiece :=
    Int.mul_nonneg (by omega) (by have := g.pieceLen_pos; omega)
  rw [pieceAbsPos_succ] at ends
  unfold Machine.bytesInLastPiece Geometry.bytesInLastPiece
  change qlonglong (qlonglong _ - int (_ * _)) = _ - g.pieceAbsPos g.lastPiece ↔ _
  rw [lastPiece_exact representable, Int.add_comm g.fSize, qlonglong_self total]
  change qlonglong (_ - int (g.pieceAbsPos g.lastPiece)) = _ ↔ _
  unfold INT_MAX at len
  constructor
  · intro same
    by_contra more
    obtain ⟨turns, product⟩ := wrap_turns 31 (g.pieceAbsPos g.lastPiece)
    have narrow := fits_wrap 31 (g.pieceAbsPos g.lastPiece)
    obtain ⟨turns', sum⟩ := wrap_turns 63 (g.fOffset + g.fSize - int (g.pieceAbsPos g.lastPiece))
    unfold Fits at narrow total
    unfold qlonglong int at *
    omega
  · intro fits
    rw [int_of_fits start (by unfold INT_MAX; omega)]
    apply wrap_of_fits
    unfold Fits at total ⊢
    omega

theorem bytesInLastPiece_eq (g : Geometry) :
    g.bytesInLastPiece = g.fOffset + g.fSize - g.pieceAbsPos g.lastPiece := by
  unfold Geometry.bytesInLastPiece Geometry.pieceAbsPos
  omega

theorem bytesInLastPiece_bounds (g : Geometry) :
    1 ≤ g.bytesInLastPiece ∧ g.bytesInLastPiece ≤ g.pieceLen := by
  obtain ⟨starts, ends⟩ := fileEnd_in_lastPiece g
  rw [pieceAbsPos_succ] at ends
  rw [bytesInLastPiece_eq]
  omega

/-- The geometry is exact unless a product or a difference of two ints leaves int. -/
theorem exact_iff (representable : Representable g) : Exact g ↔ NoOverflow g := by
  constructor
  · intro exact
    constructor
    · apply (bytesInLastPiece_exact_iff representable).mp
      rw [bytesInLastPiece_eq]
      exact exact.bytesInLastPiece
    · exact (maxPieces_exact_iff representable).mp exact.maxPieces
  · rintro ⟨product, count⟩
    obtain ⟨nonneg, before, most⟩ := lastPiece_bounds representable
    have first := firstPiece_exact representable
    have start : 0 ≤ Machine.firstPiece g := by rwa [first]
    have bytes := (bytesInLastPiece_exact_iff representable).mpr product
    obtain ⟨some, atMost⟩ := bytesInLastPiece_bounds g
    constructor
    · exact first
    · exact lastPiece_exact representable
    · exact (maxPieces_exact_iff representable).mpr count
    · exact cacheSize_exact g
    · intro p index after
      exact pieceAbsPos_exact g (Int.le_trans nonneg after) index
    · rw [firstPieceOffset_exact start, first]
      rfl
    · rw [bytes, bytesInLastPiece_eq]
    · rwa [bytes]
    · rwa [bytes]
    · intro x position after
      have after' : g.pieceAbsPos (Machine.firstPiece g) ≤ x := by rwa [first]
      rw [posInCacheByAbsPos_exact start after' position, first]
      rfl
    · intro p index after
      have after' : Machine.firstPiece g ≤ p := by rwa [first]
      rw [posInCacheByPiece_exact start after' index, first]
      rfl

def mebibytePieces (fSize : Int) (fSize_pos : 1 ≤ fSize) : Geometry where
  pieceLen := 1048576
  cacheSizeInPieces := 4
  fOffset := 1048576
  fSize := fSize
  pieceLen_pos := by decide
  cacheSizeInPieces_pos := by decide
  cacheSize_fits := by decide
  fOffset_nonneg := by decide
  fSize_pos := fSize_pos

/-- One GiB is no problem. -/
theorem gibibyte_exact : Exact (mebibytePieces 1073741824 (by decide)) := by
  apply (exact_iff ⟨by decide, by decide⟩).mpr
  constructor <;> decide

/-- Three GiB are: the product of the last piece and its length leaves int. -/
theorem three_gibibytes_not_exact :
    ¬ ∀ g : Geometry, Representable g → Exact g := by
  intro always
  have exact := always (mebibytePieces 3221225472 (by decide)) ⟨by decide, by decide⟩
  have short := exact.bytesInLastPiece_le
  revert short
  decide

/- The ring. -/

structure AddressedAlike (g : Geometry) : Prop where
  addressed : ∀ p o, Fits 31 p → Machine.firstPiece g ≤ p → 0 ≤ o → o < g.pieceLen →
    Machine.posInCacheByAbsPos g (Machine.pieceAbsPos g p + o) =
        Machine.posInCacheByPiece g p + o ∧
      0 ≤ Machine.posInCacheByPiece g p + o ∧
      Machine.posInCacheByPiece g p + o < Machine.cacheSize g
  injective : ∀ x y, Fits 63 x → Fits 63 y → Machine.firstPieceOffset g ≤ x →
    Machine.firstPieceOffset g ≤ y → x - y < Machine.cacheSize g →
    y - x < Machine.cacheSize g → x ≠ y →
    Machine.posInCacheByAbsPos g x ≠ Machine.posInCacheByAbsPos g y
  disjoint : ∀ p q o r, Fits 31 p → Fits 31 q → Machine.firstPiece g ≤ p →
    Machine.firstPiece g ≤ q → p - q < g.cacheSizeInPieces → q - p < g.cacheSizeInPieces →
    p ≠ q → 0 ≤ o → o < g.pieceLen → 0 ≤ r → r < g.pieceLen →
    Machine.posInCacheByPiece g p + o ≠ Machine.posInCacheByPiece g q + r

/-- The file with its offset moved to where the cast has put its first piece. -/
def anchored (g : Geometry) (nonneg : 0 ≤ Machine.firstPiece g) : Geometry where
  pieceLen := g.pieceLen
  cacheSizeInPieces := g.cacheSizeInPieces
  fOffset := g.pieceAbsPos (Machine.firstPiece g)
  fSize := g.fSize
  pieceLen_pos := g.pieceLen_pos
  cacheSizeInPieces_pos := g.cacheSizeInPieces_pos
  cacheSize_fits := g.cacheSize_fits
  fOffset_nonneg := Int.mul_nonneg nonneg (by have := g.pieceLen_pos; omega)
  fSize_pos := g.fSize_pos

theorem anchored_firstPiece (nonneg : 0 ≤ Machine.firstPiece g) :
    (anchored g nonneg).firstPiece = Machine.firstPiece g := by
  rw [firstPiece_eq]
  exact piece_of_pieceAbsPos g (Machine.firstPiece g)

theorem anchored_firstPieceOffset (nonneg : 0 ≤ Machine.firstPiece g) :
    (anchored g nonneg).firstPieceOffset = g.pieceAbsPos (Machine.firstPiece g) := by
  rw [Geometry.firstPieceOffset, anchored_firstPiece]
  rfl

theorem posInCacheByAbsPos_anchored (nonneg : 0 ≤ Machine.firstPiece g) {x : Int}
    (after : g.pieceAbsPos (Machine.firstPiece g) ≤ x) (position : Fits 63 x) :
    Machine.posInCacheByAbsPos g x = cacheCell (anchored g nonneg) x := by
  rw [posInCacheByAbsPos_exact nonneg after position, ← anchored_firstPieceOffset nonneg]
  apply posInCacheByAbsPos_eq
  rwa [anchored_firstPieceOffset]

theorem posInCacheByPiece_anchored (nonneg : 0 ≤ Machine.firstPiece g) {p : Int}
    (after : Machine.firstPiece g ≤ p) (index : Fits 31 p) :
    Machine.posInCacheByPiece g p = (anchored g nonneg).posInCacheByPiece p := by
  rw [posInCacheByPiece_exact nonneg after index, Geometry.posInCacheByPiece,
    anchored_firstPiece]
  rfl

theorem position_fits {p o : Int} (nonneg : 0 ≤ p) (index : Fits 31 p) (start : 0 ≤ o)
    (inside : o < g.pieceLen) : Fits 63 (g.pieceAbsPos p + o) := by
  have bounds := pieceAbsPos_bounds g nonneg index
  have most := (cacheSize_bounds g).1
  unfold INT_MAX at most
  unfold Fits
  omega

/-- The ring works wherever the first piece is, as long as its index has not become negative. -/
theorem addressed_alike (nonneg : 0 ≤ Machine.firstPiece g) : AddressedAlike g := by
  have first := anchored_firstPiece nonneg
  constructor
  · intro p o index after start inside
    have positive : 0 ≤ p := Int.le_trans nonneg after
    have position := position_fits positive index start inside
    have beyond : g.pieceAbsPos (Machine.firstPiece g) ≤ g.pieceAbsPos p + o := by
      have := pieceAbsPos_mono g after
      omega
    have after' : (anchored g nonneg).firstPiece ≤ p := by rwa [first]
    have cell : (anchored g nonneg).posInCacheByPiece p + o =
        cacheCell (anchored g nonneg) (g.pieceAbsPos p + o) :=
      posInCacheByPiece_add (anchored g nonneg) after' start inside
    have bounds := cacheCell_bounds (anchored g nonneg) (g.pieceAbsPos p + o)
    rw [pieceAbsPos_exact g positive index, posInCacheByAbsPos_anchored nonneg beyond position,
      posInCacheByPiece_anchored nonneg after index, cell, cacheSize_exact]
    exact ⟨rfl, bounds⟩
  · intro x y position position' after after' close close' apart same
    rw [firstPieceOffset_exact nonneg] at after after'
    rw [cacheSize_exact] at close close'
    rw [posInCacheByAbsPos_anchored nonneg after position,
      posInCacheByAbsPos_anchored nonneg after' position'] at same
    have equal := RingAddressing.cell_injective (cacheSize_positive g) (by omega) (by omega) same
    exact apart (by omega)
  · intro p q o r index index' after after' close close' apart start inside start' inside' same
    rw [posInCacheByPiece_anchored nonneg after index,
      posInCacheByPiece_anchored nonneg after' index'] at same
    rw [← first] at after after'
    exact apart (posInCacheByPiece_disjoint (anchored g nonneg) after after' start inside start'
      inside' close close' same).1

/-- The pieces of the file of three GiB are told apart. -/
theorem three_gibibytes_addressed_alike :
    AddressedAlike (mebibytePieces 3221225472 (by decide)) :=
  addressed_alike (by decide)

def pieceBeyondInt : Geometry where
  pieceLen := 11
  cacheSizeInPieces := 13
  fOffset := 23622320128
  fSize := 17
  pieceLen_pos := by decide
  cacheSizeInPieces_pos := by decide
  cacheSize_fits := by decide
  fOffset_nonneg := by decide
  fSize_pos := by decide

theorem piece_beyond_int_addressed_otherwise : ¬ ∀ g : Geometry, AddressedAlike g := by
  intro always
  have alike := ((always pieceBeyondInt).addressed 0 0 (by decide) (by decide) (by decide)
    (by decide)).1
  revert alike
  decide

end MachineGeometry
