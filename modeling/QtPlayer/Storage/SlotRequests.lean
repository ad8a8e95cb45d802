import QtPlayer.Storage.Streaming

/- requestSlots, from any list that a run of requests may have left behind. -/
namespace SlotRequests
open FlatPieceMemoryStorage StorageRange StorageGeometry StorageSlots StorageInvariant Streaming

variable {g : Geometry} {s : State} {j k : Int}

def indices (first last : Int) : List Int :=
  (List.range (last - first + 1).toNat).map fun i : Nat => first + i

theorem window_eq (g : Geometry) (k : Int) :
    window g k = indices k (min (k + g.cacheSizeInPieces - 1) g.lastPiece) := by
  have length : windowLength g k =
      (min (k + g.cacheSizeInPieces - 1) g.lastPiece - k + 1).toNat := by
    unfold windowLength
    omega
  rw [window, indices, length]

theorem kept_range {slot : Slot} (consecutive : Consecutive j s.slotList)
    (mem : slot ∈ keptWindow g s.slotList k) :
    (∀ old ∈ s.slotList, old.1 = slot.1 → slot.2 = old.2) ∧
      ((∀ old ∈ s.slotList, old.1 ≠ slot.1) → slot.2 = Range.empty) := by
  have range := (keptWindow_mem mem).2.2.2
  constructor
  · intro old listed same
    rw [range, ← same, rangeOf_mem consecutive listed]
  · intro absent
    rw [range, rangeOf_not_mem absent]

/-- Wherever the old window lies, requestSlots lists the wanted indices, keeps what it recorded
    of them, and asks for exactly these. Nothing else of the storage changes. -/
theorem requestSlots_keeps_window [g.Counted] (build : Build)
    (consecutive : Consecutive j s.slotList)
    (short : s.slotList.length ≤ g.cacheSizeInPieces)
    (inFile : ∀ slot ∈ s.slotList, slot.1 ≤ g.lastPiece) (start : g.firstPiece ≤ k) :
    ∃ t, requestSlots g build s k = .ok t ∧
      t.slotList.map Prod.fst = indices k (min (k + g.cacheSizeInPieces - 1) g.lastPiece) ∧
      (∀ slot ∈ t.slotList, (∀ old ∈ s.slotList, old.1 = slot.1 → slot.2 = old.2) ∧
        ((∀ old ∈ s.slotList, old.1 ≠ slot.1) → slot.2 = Range.empty)) ∧
      t.emitted = s.emitted ++ [.piecesRequested (t.slotList.map Prod.fst)] ∧
      t = { s with slotList := t.slotList, emitted := t.emitted } := by
  have nonneg : 0 ≤ k := Int.le_trans (firstPiece_nonneg g) start
  have listed : (listWindow g s k).slotList.map Prod.fst = window g k :=
    keptWindow_indices g s.slotList k
  refine ⟨listWindow g s k, requestSlots_eq build ⟨consecutive, short, inFile⟩ nonneg, ?_, ?_, ?_,
    rfl⟩
  · rw [listed, window_eq]
  · intro slot mem
    exact kept_range consecutive mem
  · rw [listed]
    rfl

/-- The second piece is listed, with a byte of it, and both are asked for. -/
theorem second_piece_kept :
    ∃ t, requestSlots threeBytes .debug
        { freshStorage with slotList := [(1, Range.empty.add (0, 1))] } 0 = .ok t ∧
      t.slotList.map Prod.fst = [0, 1] := by
  obtain ⟨t, requested, listed, _⟩ := requestSlots_keeps_window (g := threeBytes) (j := 1) (k := 0)
    (s := { freshStorage with slotList := [(1, Range.empty.add (0, 1))] }) .debug ⟨rfl, trivial⟩
    (by decide) (by decide) (by decide)
  exact ⟨t, requested, listed⟩

def lastByteOfTwo : Geometry :=
  { lastByte with
    cacheSizeInPieces := 2
    cacheSizeInPieces_pos := threeBytes.pieceLen_pos
    cacheSize_fits := by decide }

/-- The index after the greatest int is the least one, and not past the end of the file. -/
theorem last_window_overflows :
    ¬ ∀ (g : Geometry) (build : Build) (s : State) (j k : Int), Consecutive j s.slotList →
      s.slotList.length ≤ g.cacheSizeInPieces → (∀ slot ∈ s.slotList, slot.1 ≤ g.lastPiece) →
        g.firstPiece ≤ k →
      ∃ t, requestSlots g build s k = .ok t ∧
        t.slotList.map Prod.fst = indices k (min (k + g.cacheSizeInPieces - 1) g.lastPiece) ∧
        (∀ slot ∈ t.slotList, (∀ old ∈ s.slotList, old.1 = slot.1 → slot.2 = old.2) ∧
          ((∀ old ∈ s.slotList, old.1 ≠ slot.1) → slot.2 = Range.empty)) ∧
        t.emitted = s.emitted ++ [.piecesRequested (t.slotList.map Prod.fst)] ∧
        t = { s with slotList := t.slotList, emitted := t.emitted } := by
  intro always
  obtain ⟨t, eq, listed, _⟩ := always lastByteOfTwo .release (construct lastByteOfTwo fun _ => 0) 0
    2147483647 trivial (by decide) (by simp [construct]) (by decide)
  have two : (.ok t : Except Fault State) = .ok _ := eq.symm
  rw [Except.ok.injEq] at two
  rw [two] at listed
  exact absurd listed (by decide)
end SlotRequests
