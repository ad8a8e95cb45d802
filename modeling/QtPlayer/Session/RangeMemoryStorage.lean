import QtPlayer.Session.TorrentSession
import Mathlib.Data.Finset.Card
import Mathlib.Data.Finset.Range

/- rangememorystorage.h and rangememorystorage.cpp: a storage that keeps no byte and counts how
   many of each piece it was given. -/
namespace RangeMemoryStorage
open TorrentSession TransitionRuns

/-- `priorities` are the piece priorities of the session's handle, `completed` the pieces that
    the storage has reported. -/
structure Storage where
  pieceStatus : AList fun _ : Int => Int
  priorities : List Nat
  completed : List Int

def status (s : Storage) (piece : Int) : Int := (s.pieceStatus.lookup piece).getD 0

def bufsSum (bufs : List Nat) : Nat := bufs.foldl (· + ·) 0

/-- The sum is a ptrdiff_t and cast to an int. -/
def bufsSize (bufs : List Nat) : Int := Int.bmod (bufsSum bufs) (2 ^ 32)

def raisePriorities : Nat → List Nat → List Nat
  | _, [] => []
  | pieceIndex, prio :: rest =>
    (if prio = dontDownload ∧ pieceIndex < 10 then topPriority else prio) ::
      raisePriorities (pieceIndex + 1) rest

/-- `bufs` are the sizes of the buffers; the bytes in them are not looked at. -/
def writev (pieceLength : Int) (s : Storage) (bufs : List Nat) (piece : Int) : Storage × Int :=
  let totalSize := bufsSize bufs
  let s := { s with pieceStatus := s.pieceStatus.insert piece (status s piece + totalSize) }
  if totalSize = pieceLength then
    ({ s with
        priorities := raisePriorities 0 s.priorities
        completed := s.completed ++ [piece] }, totalSize)
  else (s, totalSize)

/- Torrents that are delivered to it. -/

structure Layout where
  pieceLength : Int
  pieces : Nat
  lastPieceSize : Int
  lastPieceSize_pos : 1 ≤ lastPieceSize
  lastPieceSize_le : lastPieceSize ≤ pieceLength
  pieceLength_int : pieceLength < 2 ^ 31

def pieceSize (l : Layout) (piece : Int) : Int :=
  if piece + 1 = l.pieces then l.lastPieceSize else l.pieceLength

structure Delivery where
  bufs : List Nat
  piece : Int
  offset : Int

def Delivery.size (d : Delivery) : Int := bufsSum d.bufs

def Delivery.bytes (d : Delivery) : Finset Int :=
  (Finset.range (bufsSum d.bufs)).image fun i : Nat => d.offset + i

/-- `received` are the bytes of each piece that were delivered so far. -/
structure World where
  storage : Storage
  received : Int → Finset Int

structure Delivers (l : Layout) (w : World) (d : Delivery) : Prop where
  piece_nonneg : 0 ≤ d.piece
  piece_lt : d.piece < l.pieces
  offset_nonneg : 0 ≤ d.offset
  inside : d.offset + d.size ≤ pieceSize l d.piece
  fresh : Disjoint (w.received d.piece) d.bytes

def World.receive (w : World) (storage : Storage) (d : Delivery) : World where
  storage := storage
  received := Function.update w.received d.piece (w.received d.piece ∪ d.bytes)

def deliver (l : Layout) (w : World) (d : Delivery) : World :=
  w.receive (writev l.pieceLength w.storage d.bufs d.piece).1 d

def deliveries (l : Layout) : System World Delivery where
  start w := w.storage.pieceStatus = ∅ ∧ w.storage.completed = [] ∧ ∀ piece, w.received piece = ∅
  step w d t := Delivers l w d ∧ t = deliver l w d

/-- The call brings the count of the piece to its size. -/
def Completes (l : Layout) (w : World) (d : Delivery) : Prop :=
  status w.storage d.piece < pieceSize l d.piece ∧
    status (deliver l w d).storage d.piece = pieceSize l d.piece

structure Detects (l : Layout) (w : World) (d : Delivery) : Prop where
  reported : (deliver l w d).storage.completed = w.storage.completed ++ [d.piece] ↔
    Completes l w d
  silent : ¬ Completes l w d → (deliver l w d).storage.completed = w.storage.completed
  others : ∀ piece, piece ≠ d.piece →
    status (deliver l w d).storage piece = status w.storage piece

def Finishes (l : Layout) (w : World) (d : Delivery) : Prop :=
  0 < d.size ∧ status w.storage d.piece + d.size = pieceSize l d.piece

/-- Only a whole piece of the full length is ever finished. -/
def FinishesWhole (l : Layout) (w : World) (d : Delivery) : Prop :=
  Finishes l w d → d.size = l.pieceLength

def Counted (l : Layout) (w : World) : Prop :=
  ∀ piece, status w.storage piece = (w.received piece).card ∧
    ∀ x ∈ w.received piece, 0 ≤ x ∧ x < pieceSize l piece

section Call

variable {l : Layout} {w : World} {d : Delivery}

theorem pieceSize_le (l : Layout) (piece : Int) : pieceSize l piece ≤ l.pieceLength := by
  unfold pieceSize
  split
  · exact l.lastPieceSize_le
  · exact Int.le_refl _

theorem bufsSize_of_fits {bufs : List Nat} (fits : (bufsSum bufs : Int) < 2 ^ 31) :
    bufsSize bufs = bufsSum bufs := by
  unfold bufsSize
  rw [Int.bmod_eq_of_le] <;> omega

theorem bufsSize_eq (delivers : Delivers l w d) : bufsSize d.bufs = d.size := by
  have nonneg := delivers.offset_nonneg
  have inside := delivers.inside
  have most := pieceSize_le l d.piece
  have int := l.pieceLength_int
  apply bufsSize_of_fits
  change d.size < 2 ^ 31
  omega

theorem pieceStatus_writev (pieceLength : Int) (s : Storage) (bufs : List Nat) (piece : Int) :
    (writev pieceLength s bufs piece).1.pieceStatus =
      s.pieceStatus.insert piece (status s piece + bufsSize bufs) := by
  simp only [writev]
  generalize bufsSize bufs = totalSize
  split
  · rfl
  · rfl

theorem completed_writev (pieceLength : Int) (s : Storage) (bufs : List Nat) (piece : Int) :
    (writev pieceLength s bufs piece).1.completed =
      if bufsSize bufs = pieceLength then s.completed ++ [piece] else s.completed := by
  simp only [writev]
  generalize bufsSize bufs = totalSize
  split
  · rfl
  · rfl

theorem storage_receive (storage : Storage) : (w.receive storage d).storage = storage := rfl

theorem received_receive (storage : Storage) (piece : Int) : (w.receive storage d).received piece =
    if piece = d.piece then w.received d.piece ∪ d.bytes else w.received piece :=
  Function.update_apply _ _ _ _

theorem status_deliver (delivers : Delivers l w d) (piece : Int) :
    status (deliver l w d).storage piece =
      if piece = d.piece then status w.storage d.piece + d.size else status w.storage piece := by
  rw [deliver, storage_receive, status, pieceStatus_writev, bufsSize_eq delivers]
  by_cases here : piece = d.piece
  · subst here
    simp
  · rw [AList.lookup_insert_ne here, if_neg here, status]

theorem completed_deliver (delivers : Delivers l w d) :
    (deliver l w d).storage.completed =
      if d.size = l.pieceLength then w.storage.completed ++ [d.piece] else w.storage.completed := by
  rw [deliver, storage_receive, completed_writev, bufsSize_eq delivers]

theorem card_bytes (d : Delivery) : (d.bytes.card : Int) = d.size := by
  have injective : Function.Injective fun i : Nat => d.offset + i := by
    intro i j same
    simp only at same
    omega
  rw [Delivery.bytes, Finset.card_image_of_injective _ injective, Finset.card_range]
  rfl

theorem mem_bytes {x : Int} : x ∈ d.bytes ↔ d.offset ≤ x ∧ x < d.offset + d.size := by
  simp only [Delivery.bytes, Delivery.size, Finset.mem_image, Finset.mem_range]
  constructor
  · rintro ⟨i, below, rfl⟩
    omega
  · intro bounds
    exact ⟨(x - d.offset).toNat, by omega, by omega⟩

theorem counted_start (initial : (deliveries l).start w) : Counted l w := by
  obtain ⟨noStatus, _, nothing⟩ := initial
  intro piece
  simp [status, noStatus, nothing piece]

theorem counted_deliver (counted : Counted l w) (delivers : Delivers l w d) :
    Counted l (deliver l w d) := by
  intro piece
  rw [status_deliver delivers, deliver, received_receive]
  by_cases here : piece = d.piece
  · subst here
    obtain ⟨count, within⟩ := counted d.piece
    rw [if_pos rfl, if_pos rfl]
    constructor
    · rw [Finset.card_union_of_disjoint delivers.fresh, Nat.cast_add, card_bytes, count]
    · intro x mem
      rcases Finset.mem_union.mp mem with old | new
      · exact within x old
      · have bounds := mem_bytes.mp new
        have nonneg := delivers.offset_nonneg
        have inside := delivers.inside
        omega
  · rw [if_neg here, if_neg here]
    exact counted piece

theorem finishes_of_whole (counted : Counted l w) (delivers : Delivers l w d)
    (whole : d.size = l.pieceLength) : Finishes l w d := by
  have positive := l.lastPieceSize_pos
  have most := l.lastPieceSize_le
  have size := pieceSize_le l d.piece
  have inside := delivers.inside
  have nonneg := delivers.offset_nonneg
  obtain ⟨count, within⟩ := counted d.piece
  have nothing : w.received d.piece = ∅ := by
    apply Finset.eq_empty_of_forall_notMem
    intro x received
    have bounds := within x received
    exact Finset.disjoint_left.mp delivers.fresh received (mem_bytes.mpr (by omega))
  rw [nothing, Finset.card_empty] at count
  constructor <;> omega

theorem completes_iff (delivers : Delivers l w d) : Completes l w d ↔ Finishes l w d := by
  unfold Completes Finishes
  rw [status_deliver delivers, if_pos rfl]
  omega

theorem detects_iff (counted : Counted l w) (delivers : Delivers l w d) :
    Detects l w d ↔ FinishesWhole l w d := by
  have reported := completed_deliver delivers
  have completes := completes_iff delivers
  constructor
  · intro detects finishes
    by_contra short
    rw [if_neg short] at reported
    have grown := detects.reported.mpr (completes.mpr finishes)
    rw [reported] at grown
    exact absurd grown (by simp)
  · intro finishesWhole
    have whole : d.size = l.pieceLength ↔ Completes l w d := by
      rw [completes]
      exact ⟨finishes_of_whole counted delivers, finishesWhole⟩
    constructor
    · by_cases size : d.size = l.pieceLength
      · rw [reported, if_pos size]
        exact iff_of_true rfl (whole.mp size)
      · rw [reported, if_neg size]
        exact iff_of_false (by simp) (mt whole.mpr size)
    · intro incomplete
      rw [reported, if_neg (mt whole.mp incomplete)]
    · intro piece other
      rw [status_deliver delivers, if_neg other]

end Call

/-- The storage detects the completion of every piece of a run exactly if every call of it that
    finishes a piece brings one of the full length whole. -/
theorem detects_completion_iff {l : Layout} {w w' : World} {steps : List (World × Delivery)}
    (initial : (deliveries l).start w) (run : Run (deliveries l) w steps w') :
    EveryStep (Detects l) steps ↔ EveryStep (FinishesWhole l) steps := by
  have preserved : ∀ w d t, Counted l w → (deliveries l).step w d t → Counted l t := by
    rintro w d _ counted ⟨delivers, rfl⟩
    exact counted_deliver counted delivers
  have counted := (run_invariant preserved run (counted_start initial)).1
  have taken := run_taken run
  apply forall₂_congr
  intro step mem
  obtain ⟨_, delivers, _⟩ := taken step mem
  exact detects_iff (counted step mem) delivers

def twoPieces : Layout where
  pieceLength := 6
  pieces := 2
  lastPieceSize := 5
  lastPieceSize_pos := by decide
  lastPieceSize_le := by decide
  pieceLength_int := by decide

def nothingReceived : World where
  storage := { pieceStatus := ∅, priorities := [0, 7], completed := [] }
  received _ := ∅

def wholeFirstPiece : Delivery where
  bufs := [1, 5]
  piece := 0
  offset := 0

def firstHalf : Delivery where
  bufs := [3]
  piece := 0
  offset := 0

def secondHalf : Delivery where
  bufs := [3]
  piece := 0
  offset := 3

theorem nothingReceived_start : (deliveries twoPieces).start nothingReceived :=
  ⟨rfl, rfl, fun _ => rfl⟩

theorem wholeFirstPiece_delivers : Delivers twoPieces nothingReceived wholeFirstPiece where
  piece_nonneg := by decide
  piece_lt := by decide
  offset_nonneg := by decide
  inside := by decide
  fresh := by decide

theorem whole_piece_detected : (deliveries twoPieces).start nothingReceived ∧
    Run (deliveries twoPieces) nothingReceived [(nothingReceived, wholeFirstPiece)]
      (deliver twoPieces nothingReceived wholeFirstPiece) ∧
    (EveryStep (Detects twoPieces) [(nothingReceived, wholeFirstPiece)] ↔
      EveryStep (FinishesWhole twoPieces) [(nothingReceived, wholeFirstPiece)]) := by
  have run : Run (deliveries twoPieces) nothingReceived [(nothingReceived, wholeFirstPiece)]
      (deliver twoPieces nothingReceived wholeFirstPiece) :=
    .snoc (.nil _) ⟨wholeFirstPiece_delivers, rfl⟩
  exact ⟨nothingReceived_start, run, detects_completion_iff nothingReceived_start run⟩

theorem firstHalf_delivers : Delivers twoPieces nothingReceived firstHalf where
  piece_nonneg := by decide
  piece_lt := by decide
  offset_nonneg := by decide
  inside := by decide
  fresh := by decide

theorem secondHalf_delivers :
    Delivers twoPieces (deliver twoPieces nothingReceived firstHalf) secondHalf where
  piece_nonneg := by decide
  piece_lt := by decide
  offset_nonneg := by decide
  inside := by decide
  fresh := by
    rw [deliver, received_receive]
    decide

/-- A piece in two blocks of half its length is never reported. -/
theorem halves_not_detected : ∃ steps w', (deliveries twoPieces).start nothingReceived ∧
    Run (deliveries twoPieces) nothingReceived steps w' ∧
      ¬ EveryStep (Detects twoPieces) steps := by
  have run : Run (deliveries twoPieces) nothingReceived _ _ :=
    .snoc (.snoc (.nil _) ⟨firstHalf_delivers, rfl⟩) ⟨secondHalf_delivers, rfl⟩
  refine ⟨_, _, nothingReceived_start, run, fun detects => ?_⟩
  have counted := counted_deliver (counted_start nothingReceived_start) firstHalf_delivers
  have second := detects (deliver twoPieces nothingReceived firstHalf, secondHalf) (by simp)
  have finishesWhole := (detects_iff counted secondHalf_delivers).mp second
  have finishes : Finishes twoPieces (deliver twoPieces nothingReceived firstHalf) secondHalf := by
    constructor
    · decide
    · rw [status_deliver firstHalf_delivers]
      decide
  exact absurd (finishesWhole finishes) (by decide)

end RangeMemoryStorage
