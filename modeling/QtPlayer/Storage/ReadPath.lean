import QtPlayer.Storage.StorageInvariant

/- What a read returns. The positions are compared on the ring, so the copy is planned from
   `localWPos - localRPos`; the true distance is at most one turn, and it is a whole turn
   exactly when the ring is full. -/
namespace ReadPath
open FlatPieceMemoryStorage StorageGeometry StorageSlots StorageInvariant RingAddressing
open MachineGeometry MachineIntegers

variable {g : Geometry} {content : Content} {s t : State}

/- Consecutive values. -/

section Slices

variable {β γ : Type} (f : Int → β)

theorem slice_append (x : Int) {m n : Int} (left : 0 ≤ m) (right : 0 ≤ n) :
    slice f x m ++ slice f (x + m) n = slice f x (m + n) := by
  obtain ⟨a, rfl⟩ := Int.eq_ofNat_of_zero_le left
  obtain ⟨b, rfl⟩ := Int.eq_ofNat_of_zero_le right
  have total : ((a : Int) + b).toNat = a + b := by omega
  simp only [slice, Int.toNat_natCast, total, List.range_add, List.map_append, List.map_map]
  congr 2
  funext i
  simp only [Function.comp, Nat.cast_add, Int.add_assoc]

theorem slice_one (x : Int) : slice f x 1 = [f x] := by
  simp [slice]

theorem slice_map (h : β → γ) (x n : Int) :
    (slice f x n).map h = slice (fun y => h (f y)) x n := by
  simp [slice, Function.comp_def]

theorem slice_congr {f h : Int → β} {x n : Int}
    (same : ∀ y, x ≤ y → y < x + n → f y = h y) : slice f x n = slice h x n := by
  apply List.map_congr_left
  intro i mem
  have bound := List.mem_range.mp mem
  exact same _ (by omega) (by omega)

end Slices

theorem toInt_of_fits {len : Nat} (fits : (len : Int) ≤ INT_MAX) : toInt len = len :=
  int_of_fits (Int.natCast_nonneg len) fits

/- Which cells a read copies. -/

theorem slice_cells {x n : Int} (inside : cacheCell g x + n ≤ g.cacheSize) :
    slice id (cacheCell g x) n = slice (cacheCell g) x n := by
  apply List.map_congr_left
  intro i mem
  have bound := List.mem_range.mp mem
  have low := (cacheCell_bounds g x).1
  rw [cacheCell_forward g (by omega) (by omega), if_pos (by omega)]
  rfl

theorem copyOut_cells {x n : Int} (nonneg : 0 ≤ n) (inside : cacheCell g x + n ≤ g.cacheSize) :
    copyOut g (cacheCell g x) n = .ok (slice (cacheCell g) x n) := by
  rw [copyOut, if_pos ⟨nonneg, (cacheCell_bounds g x).1, inside⟩, slice_cells inside]

theorem copyOut_head {x n : Int} (nonneg : 0 ≤ n) (inside : n ≤ g.cacheSize) :
    copyOut g 0 n = .ok (slice (cacheCell g) (x + (g.cacheSize - cacheCell g x)) n) := by
  have bounds := cacheCell_bounds g x
  have fromZero : cacheCell g (x + (g.cacheSize - cacheCell g x)) = 0 := by
    rw [cacheCell_forward g (by omega) (by omega), if_neg (by omega)]
    omega
  have copied := copyOut_cells (g := g) (x := x + (g.cacheSize - cacheCell g x)) nonneg (by omega)
  rwa [fromZero] at copied

theorem local_distance {r w : Int} (issued : r < w) (atMost : w - r ≤ g.cacheSize) :
    (0 < cacheCell g w - cacheCell g r ∧ cacheCell g w - cacheCell g r = w - r) ∨
      (cacheCell g w - cacheCell g r ≤ 0 ∧
        cacheCell g w - cacheCell g r = w - r - g.cacheSize) := by
  have shift : w - g.firstPieceOffset = (r - g.firstPieceOffset) + (w - r) := by omega
  unfold cacheCell
  rw [shift]
  exact cell_distance (cacheSize_positive g) (by omega) atMost

theorem int_near {n : Int} (low : -2147483648 ≤ n) (high : n ≤ 2147483647) : int n = n :=
  int_self (by unfold Fits; omega)

/-- Linear copy, tail only, or tail and head: always the cells of the next positions. -/
theorem readCells_eq {build : Build} {r w : Int} (issued : r < w) (atMost : w - r ≤ g.cacheSize)
    {len : Nat} (fits : (len : Int) ≤ INT_MAX)
    (passes : build = .release ∨ 1 ≤ len ∧ w - r ≠ g.cacheSize) :
    readCells g build len (cacheCell g r) (cacheCell g w) =
      .ok (slice (cacheCell g) r (min len (w - r)), min len (w - r)) := by
  have limit : INT_MAX = 2147483647 := rfl
  have size : g.cacheSize ≤ INT_MAX := g.cacheSize_fits
  obtain ⟨readLow, readHigh⟩ := cacheCell_bounds g r
  obtain ⟨writeLow, writeHigh⟩ := cacheCell_bounds g w
  obtain ⟨n, amount⟩ : ∃ n : Int, n = min (len : Int) (w - r) := ⟨_, rfl⟩
  have notMinusOne : n ≠ -1 := by omega
  have positive : check build .bytesToBeCopiedPositive (decide (n > 0)) = .ok () := by
    rcases passes with release | ⟨some, _⟩
    · rw [release, check_release]
    · exact check_holds build _ (by omega)
  have apart : check build .distanceNotZero
      (decide (cacheCell g w - cacheCell g r ≠ 0)) = .ok () := by
    rcases passes with release | ⟨_, notFull⟩
    · rw [release, check_release]
    · refine check_holds build _ ?_
      rcases local_distance issued atMost with ⟨_, distance⟩ | ⟨_, distance⟩ <;> omega
  have narrow : int (cacheCell g w - cacheCell g r) = cacheCell g w - cacheCell g r :=
    int_near (by omega) (by omega)
  have toEnd : int (g.cacheSize - cacheCell g r) = g.cacheSize - cacheCell g r :=
    int_near (by omega) (by omega)
  rw [← amount]
  rcases local_distance issued atMost with ⟨forward, distance⟩ | ⟨wrapped, distance⟩
  · have copied := copyOut_cells (g := g) (x := r) (n := n) (by omega) (by omega)
    have moves : w - r > 0 := by omega
    rw [distance] at narrow apart
    simp only [readCells, toInt_of_fits fits, distance, narrow, toEnd, moves, ↓reduceIte, true_or,
      ← amount, copied, apart, positive, check_holds build _ notMinusOne, ok_bind, BEq.rfl,
      check_true]
  · have back : ¬ cacheCell g w - cacheCell g r > 0 := by omega
    have planned : int (g.cacheSize - cacheCell g r + min (int (int (len - g.cacheSize) +
        cacheCell g r)) (cacheCell g w)) = n := by
      rw [int_near (n := len - g.cacheSize) (by omega) (by omega),
        int_near (n := len - g.cacheSize + cacheCell g r) (by omega) (by omega),
        int_near (by omega) (by omega)]
      omega
    by_cases tailOnly : g.cacheSize - cacheCell g r > len
    · have whole : min (len : Int) (g.cacheSize - cacheCell g r) = n := by omega
      have copied := copyOut_cells (g := g) (x := r) (n := n) (by omega) (by omega)
      simp only [readCells, toInt_of_fits fits, narrow, toEnd, back, tailOnly, ↓reduceIte, or_true,
        planned, whole, copied, apart, positive, check_holds build _ notMinusOne, ok_bind,
        BEq.rfl, check_true]
    · have tailSome : g.cacheSize - cacheCell g r > 0 := by omega
      have tail := copyOut_cells (g := g) (x := r) (n := g.cacheSize - cacheCell g r)
        (by omega) (by omega)
      have remain : min (int (len - (g.cacheSize - cacheCell g r))) (cacheCell g w) =
          n - (g.cacheSize - cacheCell g r) := by
        rw [int_near (by omega) (by omega)]
        omega
      have head := copyOut_head (g := g) (x := r) (n := n - (g.cacheSize - cacheCell g r))
        (by omega) (by omega)
      have joined := slice_append (cacheCell g) r
        (show 0 ≤ g.cacheSize - cacheCell g r by omega)
        (show 0 ≤ n - (g.cacheSize - cacheCell g r) by omega)
      rw [show g.cacheSize - cacheCell g r + (n - (g.cacheSize - cacheCell g r)) = n by omega]
        at joined
      have total : int (n - (g.cacheSize - cacheCell g r) + (g.cacheSize - cacheCell g r)) = n := by
        rw [int_near (by omega) (by omega)]
        omega
      simp only [readCells, toInt_of_fits fits, narrow, toEnd, back, tailOnly, or_self, tailSome,
        ↓reduceIte, planned, remain, tail, total, apart, positive,
        check_holds build _ notMinusOne, ok_bind, BEq.rfl, check_true]
      split
      · simp only [head, joined, ok_bind]
      · rw [List.append_nil, show g.cacheSize - cacheCell g r = n by omega]

/-- A full ring looks empty: the assert on the distance is the one that fails. -/
theorem readCells_full {r w : Int} (len : Nat) (full : w - r = g.cacheSize) :
    readCells g .debug len (cacheCell g r) (cacheCell g w) =
      .error (.assertion .distanceNotZero) := by
  have size := cacheSize_positive g
  have same : cacheCell g w - cacheCell g r = 0 := by
    have := cacheCell_bounds g r
    have := cacheCell_bounds g w
    rcases local_distance (g := g) (r := r) (w := w) (by omega) (by omega) with
      ⟨_, distance⟩ | ⟨_, distance⟩ <;> omega
  have zero : int 0 = 0 := rfl
  simp only [readCells, same, zero, ne_eq, not_true_eq_false, decide_false, check,
    Bool.false_eq_true, ↓reduceIte, error_bind]

/- What these cells hold. -/

theorem available_cached (layout : Layout g s) (cached : Cached g content s) (behind : Behind g s)
    {x : Int} (low : g.pieceAbsPos (s.absRPos / g.pieceLen) ≤ x) (high : x < s.absWPos) :
    s.buffer (cacheCell g x) = content x := by
  have recorded := behind.recorded x low high
  obtain ⟨_, after, start, inside⟩ := recorded_bounds layout recorded
  have held := cached _ _ recorded
  have back : g.pieceAbsPos (x / g.pieceLen) + (x - g.pieceAbsPos (x / g.pieceLen)) = x := by
    omega
  rwa [posInCacheByPiece_add g after start inside, back] at held

theorem writing_in_window (layout : Layout g s) (behind : Behind g s) :
    s.absWPos ≤ g.pieceAbsPos (s.absRPos / g.pieceLen) + g.cacheSize := by
  by_contra beyond
  have pieces : g.pieceAbsPos (s.absRPos / g.pieceLen + g.cacheSizeInPieces) =
      g.pieceAbsPos (s.absRPos / g.pieceLen) + g.cacheSize := by
    rw [pieceAbsPos_add, Geometry.cacheSize, Int.mul_comm g.pieceLen]
  have size := cacheSize_positive g
  have recorded := behind.recorded
    (g.pieceAbsPos (s.absRPos / g.pieceLen + g.cacheSizeInPieces)) (by omega) (by omega)
  have listed := mem_window.mp (recorded_bounds layout recorded).1
  rw [piece_of_pieceAbsPos] at listed
  omega

theorem distance_atMost (layout : Layout g s) (behind : Behind g s) :
    s.absWPos - s.absRPos ≤ g.cacheSize := by
  have := writing_in_window layout behind
  have := piece_start_le g s.absRPos
  omega

theorem cells_hold (layout : Layout g s) (cached : Cached g content s) (behind : Behind g s)
    {n : Int} (atMost : s.absRPos + n ≤ s.absWPos) :
    (slice (cacheCell g) s.absRPos n).map s.buffer = slice content s.absRPos n := by
  have start := piece_start_le g s.absRPos
  rw [slice_map]
  apply slice_congr
  intro y low high
  exact available_cached layout cached behind (by omega) (by omega)

theorem reading_after_first (layout : Layout g s) : g.firstPieceOffset ≤ s.absRPos := by
  have := fOffset_in_firstPiece g
  have := layout.afterStart
  omega

theorem readBegin_eq [g.Counted] (build : Build) (layout : Layout g s)
    (issued : s.absRPos < s.absWPos) :
    readBegin g build s = .ok (cacheCell g s.absRPos, cacheCell g s.absWPos) := by
  simp only [readBegin, check_holds build _ issued, ok_bind,
    posInCacheByAbsPos_counted (reading_after_first layout) layout.readPiece,
    posInCacheByAbsPos_counted layout.writeAfterStart layout.writePiece]

/- Whole reads. -/

def readLength (s : State) (len : Nat) : Int := min len (s.absWPos - s.absRPos)

theorem readLength_bounds (issued : s.absRPos < s.absWPos) {len : Nat} (positive : 1 ≤ len) :
    1 ≤ readLength s len ∧ readLength s len ≤ len ∧ s.absRPos + readLength s len ≤ s.absWPos := by
  unfold readLength
  omega

def advance (g : Geometry) (s : State) (len : Nat) : State :=
  reposition g s (s.absRPos + readLength s len) s.absWPos

theorem readStart_eq [g.Counted] {build : Build} (layout : Layout g s) (behind : Behind g s)
    (issued : s.absRPos < s.absWPos) {len : Nat} (fits : (len : Int) ≤ INT_MAX)
    (passes : build = .release ∨ 1 ≤ len ∧ s.absWPos - s.absRPos ≠ g.cacheSize) :
    readStart g build s len =
      .ok (slice (cacheCell g) s.absRPos (readLength s len), readLength s len) := by
  rw [readStart, readBegin_eq build layout issued, ok_bind]
  exact readCells_eq issued (distance_atMost layout behind) fits passes

theorem forward_counted (layout : Layout g s) {n : Int} (atMost : s.absRPos + n ≤ s.absWPos) :
    (s.absRPos + n) / g.pieceLen ≤ INT_MAX :=
  Int.le_trans (piece_mono g atMost) layout.writePiece

theorem readEnd_eq [g.Counted] (build : Build) (layout : Layout g s) {n : Int} (nonneg : 0 ≤ n)
    (atMost : s.absRPos + n ≤ s.absWPos) :
    readEnd g build s n = .ok (reposition g s (s.absRPos + n) s.absWPos) := by
  have := g.fOffset_nonneg
  have := layout.afterStart
  have position : 0 ≤ s.absRPos + n := by omega
  have piece := forward_counted layout atMost
  simp only [readEnd, qlonglong_self (position_counted position piece),
    piece_counted position piece]
  rw [requestSlots_eq build (by simpa using layout_windowed layout)
    (Int.ediv_nonneg position (by have := g.pieceLen_pos; omega))]
  rfl

theorem read_eq [g.Counted] (build : Build) (inv : Inv g content s)
    (issued : s.absRPos < s.absWPos) {len : Nat} (positive : 1 ≤ len)
    (fits : (len : Int) ≤ INT_MAX)
    (notFull : build = .release ∨ s.absWPos - s.absRPos ≠ g.cacheSize) :
    read g build s len =
      .ok (advance g s len, slice content s.absRPos (readLength s len), readLength s len) := by
  have some := readLength_bounds issued positive
  have ready : ¬ s.absRPos ≥ s.absWPos := by omega
  have started := readStart_eq inv.layout inv.behind issued fits
    (notFull.imp_right fun apart => ⟨positive, apart⟩)
  have held := cells_hold inv.layout inv.cached inv.behind some.2.2
  have ended := readEnd_eq build inv.layout (show 0 ≤ readLength s len by omega) some.2.2
  simp only [FlatPieceMemoryStorage.read, ready, ↓reduceIte, started, ok_bind, ended, held]
  rfl

theorem read_full [g.Counted] (inv : Inv g content s) (issued : s.absRPos < s.absWPos) (len : Nat)
    (full : s.absWPos - s.absRPos = g.cacheSize) :
    read g .debug s len = .error (.assertion .distanceNotZero) := by
  have ready : ¬ s.absRPos ≥ s.absWPos := by omega
  have stopped : readStart g .debug s len = .error (.assertion .distanceNotZero) := by
    rw [readStart, readBegin_eq .debug inv.layout issued, ok_bind]
    exact readCells_full len full
  simp only [FlatPieceMemoryStorage.read, ready, ↓reduceIte, stopped, error_bind]

theorem forward_layout (layout : Layout g s) {n : Int} (nonneg : 0 ≤ n)
    (atMost : s.absRPos + n ≤ s.absWPos) :
    Layout g (reposition g s (s.absRPos + n) s.absWPos) :=
  reposition_layout (layout_windowed layout) layout.ranges (by have := layout.afterStart; omega)
    layout.writeAfterStart (forward_counted layout atMost) layout.writePiece

theorem forward_behind (layout : Layout g s) (behind : Behind g s) {n : Int} (nonneg : 0 ≤ n)
    (atMost : s.absRPos + n ≤ s.absWPos) :
    Behind g (reposition g s (s.absRPos + n) s.absWPos) := by
  have windowed := layout_windowed layout
  have forward := piece_mono g (show s.absRPos ≤ s.absRPos + n by omega)
  refine ⟨?_, ?_⟩
  · have := piece_start_le g (s.absRPos + n)
    simp only [reposition_absRPos, reposition_absWPos]
    omega
  · intro x low high
    simp only [reposition_absRPos, reposition_absWPos] at low high
    have before := behind.recorded x (by have := pieceAbsPos_mono g forward; omega) high
    have listed := mem_window.mp (recorded_bounds layout before).1
    have piece := piece_mono g low
    rw [piece_of_pieceAbsPos] at piece
    exact (recordedAt_keptWindow windowed.consecutive).mpr
      ⟨mem_window.mpr ⟨by omega, by omega, by omega⟩, before⟩

theorem forward_inv (inv : Inv g content s) {n : Int} (nonneg : 0 ≤ n)
    (atMost : s.absRPos + n ≤ s.absWPos) :
    Inv g content (reposition g s (s.absRPos + n) s.absWPos) :=
  ⟨forward_layout inv.layout nonneg atMost,
    reposition_cached (layout_windowed inv.layout) inv.cached,
    forward_behind inv.layout inv.behind nonneg atMost, inv.idle⟩

theorem advance_inv (inv : Inv g content s) (issued : s.absRPos < s.absWPos) {len : Nat}
    (positive : 1 ≤ len) : Inv g content (advance g s len) := by
  have some := readLength_bounds issued positive
  exact forward_inv inv (by omega) some.2.2

end ReadPath
