import Mathlib.Algebra.Order.BigOperators.Group.List
import QtPlayer.Storage.FlatPieceMemoryStorage
import QtPlayer.Storage.MachineGeometry

/- torrentinfo.cpp: filePieces, with the intervals and ranges of indexrange.h. The integers are
   those of the machine, and overflows wrap. -/
namespace FilePieces
open FlatPieceMemoryStorage MachineIntegers MachineGeometry RingAddressing

/-- libtorrent::file_storage. The bytes of the files follow one another. -/
structure FileStorage where
  pieceLength : Int
  fileSizes : List Int
  pieceLength_pos : 1 ≤ pieceLength
  pieceLength_fits : Fits 31 pieceLength
  fileSizes_nonneg : ∀ size ∈ fileSizes, 0 ≤ size
  total_fits : Fits 63 fileSizes.sum

namespace FileStorage

def fileSize (files : FileStorage) (index : Nat) : Int := files.fileSizes.getD index 0

def fileOffset (files : FileStorage) (index : Nat) : Int := (files.fileSizes.take index).sum

end FileStorage

structure IndexInterval where
  first : Int
  last : Int

/-- None is the assertion of the constructor, which only a debug build makes. -/
def makeInterval (build : Build) (first last : Int) : Option IndexInterval :=
  if build = .debug ∧ ¬ first ≤ last then none else some ⟨first, last⟩

/-- "range is defined via first index and size" -/
structure IndexRange where
  first : Int
  size : Int
  deriving DecidableEq

namespace IndexRange

def empty : IndexRange := ⟨0, 0⟩

def ofInterval (interval : IndexInterval) : IndexRange :=
  ⟨interval.first, int (int (interval.last - interval.first) + 1)⟩

def last (range : IndexRange) : Int := int (int (range.first + range.size) - 1)

def Covers (range : IndexRange) (p : Int) : Prop :=
  range.first ≤ p ∧ p < range.first + range.size

end IndexRange

/-- No files stand for a native info that is null or not valid. -/
structure TorrentInfo where
  nativeInfo : Option FileStorage

def fileInterval (build : Build) (files : FileStorage) (index : Nat) : Option IndexInterval :=
  makeInterval build (int ((files.fileOffset index).tdiv files.pieceLength))
    (int ((qlonglong (qlonglong (files.fileOffset index + files.fileSize index) - 1)).tdiv
      files.pieceLength))

def filePieces (build : Build) (info : TorrentInfo) (fileIndex : Int) : Option IndexRange :=
  match info.nativeInfo with
  | none => some .empty
  | some files =>
    if fileIndex < 0 ∨ (files.fileSizes.length : Int) ≤ fileIndex then some .empty
    else (fileInterval build files fileIndex.toNat).map .ofInterval

def Touches (files : FileStorage) (index : Nat) (p : Int) : Prop :=
  ∃ b, files.fileOffset index ≤ b ∧ b < files.fileOffset index + files.fileSize index ∧
    p * files.pieceLength ≤ b ∧ b < (p + 1) * files.pieceLength

structure Matches (files : FileStorage) (index : Nat) (range : IndexRange) : Prop where
  pieces : ∀ p, range.Covers p ↔ Touches files index p
  ends : ∀ g : Geometry, g.pieceLen = files.pieceLength → g.fOffset = files.fileOffset index →
    g.fSize = files.fileSize index →
      range.first = Machine.firstPiece g ∧ range.last = Machine.lastPiece g

/-- The file has bytes, its last piece an int for its index and so has the number of its pieces.
    In a file without bytes two overflows would have to cancel. -/
def Regular (files : FileStorage) (index : Nat) : Prop :=
  let first := files.fileOffset index / files.pieceLength
  let last := (files.fileOffset index + files.fileSize index - 1) / files.pieceLength
  (0 < files.fileSize index ∧ last < 2 ^ 31 ∧ last - first + 1 < 2 ^ 31) ∨
    (files.fileSize index = 0 ∧ files.pieceLength ∣ files.fileOffset index ∧
      first % 2 ^ 32 = 2 ^ 31)

variable {files : FileStorage} {index : Nat}

theorem fileSize_nonneg (files : FileStorage) (index : Nat) : 0 ≤ files.fileSize index := by
  unfold FileStorage.fileSize
  rw [List.getD_eq_getElem?_getD]
  cases found : files.fileSizes[index]? with
  | none => exact le_refl 0
  | some size => exact files.fileSizes_nonneg size (List.mem_of_getElem? found)

theorem fileOffset_nonneg (files : FileStorage) (index : Nat) : 0 ≤ files.fileOffset index :=
  List.sum_nonneg fun size mem => files.fileSizes_nonneg size (List.mem_of_mem_take mem)

theorem fileOffset_succ (files : FileStorage) (index : Nat) :
    files.fileOffset (index + 1) = files.fileOffset index + files.fileSize index := by
  unfold FileStorage.fileOffset FileStorage.fileSize
  rw [List.take_add_one, List.sum_append, List.getD_eq_getElem?_getD]
  cases files.fileSizes[index]? with
  | none => rfl
  | some size => simp

theorem fileOffset_le_total (files : FileStorage) (index : Nat) :
    files.fileOffset index ≤ files.fileSizes.sum := by
  have whole := congrArg List.sum (List.take_append_drop index files.fileSizes)
  have rest : 0 ≤ (files.fileSizes.drop index).sum :=
    List.sum_nonneg fun size mem => files.fileSizes_nonneg size (List.mem_of_mem_drop mem)
  rw [List.sum_append] at whole
  unfold FileStorage.fileOffset
  omega

theorem pieceLength_positive (files : FileStorage) : 0 < files.pieceLength := by
  have := files.pieceLength_pos
  omega

theorem fileInterval_eq (build : Build) (files : FileStorage) (index : Nat) :
    fileInterval build files index =
      makeInterval build (int (files.fileOffset index / files.pieceLength))
        (int ((files.fileOffset index + files.fileSize index - 1).tdiv files.pieceLength)) := by
  have start := fileOffset_nonneg files index
  have size := fileSize_nonneg files index
  have total := files.total_fits
  have below := fileOffset_le_total files (index + 1)
  rw [fileOffset_succ] at below
  unfold Fits at total
  rw [fileInterval, Int.tdiv_eq_ediv_of_nonneg start,
    qlonglong_self (n := files.fileOffset index + files.fileSize index) ⟨by omega, by omega⟩,
    qlonglong_self ⟨by omega, by omega⟩]

theorem touches_iff (filled : 0 < files.fileSize index) (p : Int) :
    Touches files index p ↔ files.fileOffset index / files.pieceLength ≤ p ∧
      p ≤ (files.fileOffset index + files.fileSize index - 1) / files.pieceLength := by
  have positive := pieceLength_positive files
  have first : files.fileOffset index / files.pieceLength ≤ p ↔
      files.fileOffset index < (p + 1) * files.pieceLength := by
    rw [← Int.lt_add_one_iff, Int.ediv_lt_iff_lt_mul positive]
  have last : p ≤ (files.fileOffset index + files.fileSize index - 1) / files.pieceLength ↔
      p * files.pieceLength ≤ files.fileOffset index + files.fileSize index - 1 :=
    Int.le_ediv_iff_mul_le positive
  have length : (p + 1) * files.pieceLength = p * files.pieceLength + files.pieceLength := by
    rw [Int.add_mul, Int.one_mul]
  rw [first, last, Touches]
  constructor
  · rintro ⟨b, after, before, low, high⟩
    omega
  · rintro ⟨low, high⟩
    refine ⟨max (files.fileOffset index) (p * files.pieceLength), ?_, ?_, ?_, ?_⟩ <;> omega

theorem untouched (empty : files.fileSize index = 0) (p : Int) : ¬ Touches files index p := by
  rintro ⟨b, after, before, _⟩
  omega

theorem filePieces_inside (build : Build) (inside : index < files.fileSizes.length) :
    filePieces build ⟨some files⟩ index = (fileInterval build files index).map .ofInterval := by
  have named : ¬ ((index : Int) < 0 ∨ (files.fileSizes.length : Int) ≤ index) := by omega
  exact if_neg named

theorem makeInterval_debug_iff {first last : Int} {interval : IndexInterval} :
    makeInterval .debug first last = some interval ↔ first ≤ last ∧ interval = ⟨first, last⟩ := by
  unfold makeInterval
  split
  · rename_i fails
    simp only [reduceCtorEq, false_iff, not_and]
    intro holds
    exact absurd holds fails.2
  · rename_i passes
    simp only [true_and, not_not] at passes
    simp only [Option.some.injEq, passes, true_and, eq_comm]

theorem int_near (n : Int) : ∃ turns, int n = n - 2 ^ 32 * turns ∧ Fits 31 (int n) := by
  obtain ⟨turns, eq⟩ := wrap_turns 31 n
  exact ⟨turns, eq, fits_wrap 31 n⟩

theorem ofInterval_covers {first last : Int} (p : Int) (ordered : first ≤ last)
    (short : last - first + 1 < 2 ^ 31) :
    (IndexRange.ofInterval ⟨first, last⟩).Covers p ↔ first ≤ p ∧ p ≤ last := by
  unfold IndexRange.Covers IndexRange.ofInterval
  simp only
  rw [int_self (n := last - first) ⟨by omega, by omega⟩, int_self ⟨by omega, by omega⟩]
  omega

theorem ofInterval_last {first last : Int} (fitsLast : Fits 31 last) :
    (IndexRange.ofInterval ⟨first, last⟩).last = last := by
  obtain ⟨a, width, _⟩ := int_near (last - first)
  obtain ⟨b, size, _⟩ := int_near (int (last - first) + 1)
  obtain ⟨c, past, _⟩ := int_near (first + int (int (last - first) + 1))
  obtain ⟨d, eq, fits⟩ := int_near (int (first + int (int (last - first) + 1)) - 1)
  unfold IndexRange.last IndexRange.ofInterval
  simp only
  unfold Fits at fits fitsLast
  omega

theorem fileInterval_ends {build : Build} {interval : IndexInterval}
    (found : fileInterval build files index = some interval) (g : Geometry)
    (len : g.pieceLen = files.pieceLength) (start : g.fOffset = files.fileOffset index)
    (size : g.fSize = files.fileSize index) :
    (IndexRange.ofInterval interval).first = Machine.firstPiece g ∧
      (IndexRange.ofInterval interval).last = Machine.lastPiece g := by
  rw [fileInterval, ← len, ← start, ← size, makeInterval] at found
  split at found
  · cases found
  · cases found
    exact ⟨rfl, ofInterval_last (fits_wrap 31 _)⟩

theorem first_le_last (filled : 0 < files.fileSize index) :
    0 ≤ files.fileOffset index / files.pieceLength ∧
      files.fileOffset index / files.pieceLength ≤
        (files.fileOffset index + files.fileSize index - 1) / files.pieceLength := by
  have positive := pieceLength_positive files
  constructor
  · exact Int.ediv_nonneg (fileOffset_nonneg files index) (by omega)
  · exact block_mono positive (by omega)

theorem filled_exact_iff (filled : 0 < files.fileSize index) :
    (∃ interval, fileInterval .debug files index = some interval ∧
      ∀ p, (IndexRange.ofInterval interval).Covers p ↔ Touches files index p) ↔
    (files.fileOffset index + files.fileSize index - 1) / files.pieceLength < 2 ^ 31 ∧
      (files.fileOffset index + files.fileSize index - 1) / files.pieceLength -
        files.fileOffset index / files.pieceLength + 1 < 2 ^ 31 := by
  have start := fileOffset_nonneg files index
  obtain ⟨nonneg, ordered⟩ := first_le_last filled
  simp only [fileInterval_eq, makeInterval_debug_iff, touches_iff filled]
  rw [Int.tdiv_eq_ediv_of_nonneg (by omega)]
  generalize files.fileOffset index / files.pieceLength = first at *
  generalize (files.fileOffset index + files.fileSize index - 1) / files.pieceLength = last at *
  constructor
  · rintro ⟨interval, ⟨asserted, rfl⟩, covers⟩
    obtain ⟨a, low, fitsLow⟩ := int_near first
    obtain ⟨b, high, fitsHigh⟩ := int_near last
    obtain ⟨_, _, fits⟩ := int_near (int (int last - int first) + 1)
    unfold IndexRange.Covers IndexRange.ofInterval at covers
    simp only at covers
    generalize int (int (int last - int first) + 1) = size at *
    have atFirst := (covers first).mpr ⟨le_refl _, ordered⟩
    have atLast := (covers last).mpr ⟨ordered, le_refl _⟩
    have atLow := (covers (int first)).mp ⟨le_refl _, by omega⟩
    have atHigh := (covers (int first + size - 1)).mp ⟨by omega, by omega⟩
    unfold Fits at fitsLow fitsHigh fits
    omega
  · rintro ⟨narrow, short⟩
    rw [int_self (n := first) ⟨by omega, by omega⟩, int_self (n := last) ⟨by omega, by omega⟩]
    exact ⟨_, ⟨ordered, rfl⟩, fun p => ofInterval_covers p ordered short⟩

/-- At the boundary of a piece the last byte of a file without bytes is that of the piece before.
    Division truncates, so at the start of the torrent it needs pieces of one byte for that. -/
def Boundary (files : FileStorage) (index : Nat) : Prop :=
  files.pieceLength ∣ files.fileOffset index ∧
    (0 < files.fileOffset index ∨ files.pieceLength = 1)

theorem lastPiece_of_empty (files : FileStorage) (index : Nat) :
    (Boundary files index ∧ (files.fileOffset index - 1).tdiv files.pieceLength =
      files.fileOffset index / files.pieceLength - 1) ∨
    (¬ Boundary files index ∧ (files.fileOffset index - 1).tdiv files.pieceLength =
      files.fileOffset index / files.pieceLength) := by
  have positive := pieceLength_positive files
  have start := fileOffset_nonneg files index
  obtain ⟨low, high⟩ := position_in_block positive (files.fileOffset index)
  unfold Boundary
  by_cases later : 0 < files.fileOffset index
  · rw [Int.tdiv_eq_ediv_of_nonneg (by omega), block_bounds_iff positive,
      block_bounds_iff positive, Int.sub_mul, Int.one_mul]
    by_cases divides : files.pieceLength ∣ files.fileOffset index
    · have exact := Int.ediv_mul_cancel divides
      exact Or.inl ⟨⟨divides, Or.inl later⟩, by omega⟩
    · have apart : files.fileOffset index / files.pieceLength * files.pieceLength ≠
          files.fileOffset index := fun same => divides (Dvd.intro_left _ same)
      exact Or.inr ⟨fun boundary => divides boundary.1, by omega⟩
  · have zero : files.fileOffset index = 0 := by omega
    rw [zero]
    by_cases one : files.pieceLength = 1
    · rw [one]
      exact Or.inl ⟨⟨one_dvd _, Or.inr rfl⟩, rfl⟩
    · refine Or.inr ⟨fun boundary => boundary.2.elim (lt_irrefl 0) one, ?_⟩
      rw [Int.zero_sub, Int.neg_tdiv, Int.tdiv_eq_zero_of_lt (by decide) (by omega), Int.zero_ediv,
        Int.neg_zero]

theorem int_pred (n : Int) :
    (n % 2 ^ 32 = 2 ^ 31 ∧ int n = -2 ^ 31 ∧ int (n - 1) = 2 ^ 31 - 1) ∨
      (n % 2 ^ 32 ≠ 2 ^ 31 ∧ int (n - 1) = int n - 1) := by
  obtain ⟨a, here, fits⟩ := int_near n
  obtain ⟨b, before, fits'⟩ := int_near (n - 1)
  unfold Fits at fits fits'
  omega

/-- A file without bytes gets no piece only where the assertion is passed by an overflow. -/
theorem empty_exact_iff (empty : files.fileSize index = 0) :
    (∃ interval, fileInterval .debug files index = some interval ∧
      ∀ p, (IndexRange.ofInterval interval).Covers p ↔ Touches files index p) ↔
    files.pieceLength ∣ files.fileOffset index ∧
      files.fileOffset index / files.pieceLength % 2 ^ 32 = 2 ^ 31 := by
  have start := fileOffset_nonneg files index
  have before := lastPiece_of_empty files index
  simp only [fileInterval_eq, makeInterval_debug_iff, untouched empty, iff_false, empty,
    Int.add_zero]
  have later : files.fileOffset index / files.pieceLength % 2 ^ 32 = 2 ^ 31 →
      0 < files.fileOffset index := by
    intro turned
    by_contra none
    have zero : files.fileOffset index = 0 := by omega
    rw [zero, Int.zero_ediv] at turned
    exact absurd turned (by decide)
  rcases before with ⟨boundary, last⟩ | ⟨inner, last⟩
  · rw [last]
    generalize files.fileOffset index / files.pieceLength = first at *
    rcases int_pred first with ⟨turned, low, high⟩ | ⟨straight, same⟩
    · refine iff_of_true ⟨_, ⟨by omega, rfl⟩, ?_⟩ ⟨boundary.1, turned⟩
      obtain ⟨a, width, fits⟩ := int_near (2 ^ 31 - 1 - -2 ^ 31)
      obtain ⟨b, size, fits'⟩ := int_near (int (2 ^ 31 - 1 - -2 ^ 31) + 1)
      unfold Fits at fits fits'
      simp only [IndexRange.Covers, IndexRange.ofInterval, low, high]
      omega
    · refine iff_of_false ?_ fun both => straight both.2
      rintro ⟨interval, ⟨asserted, _⟩, _⟩
      omega
  · rw [last]
    constructor
    · rintro ⟨interval, ⟨asserted, rfl⟩, none⟩
      have covers := (ofInterval_covers (int (files.fileOffset index / files.pieceLength))
        asserted (by omega)).mpr ⟨le_refl _, asserted⟩
      exact absurd covers (none _)
    · rintro ⟨divides, turned⟩
      exact absurd ⟨divides, Or.inl (later turned)⟩ inner

/-- filePieces answers the pieces that the file touches, and no assertion stops it, exactly if
    the file is regular. -/
theorem filePieces_exact_iff (inside : index < files.fileSizes.length) :
    (∃ range, filePieces .debug ⟨some files⟩ index = some range ∧ Matches files index range) ↔
      Regular files index := by
  have stated : (∃ range, filePieces .debug ⟨some files⟩ index = some range ∧
      Matches files index range) ↔ ∃ interval, fileInterval .debug files index = some interval ∧
        ∀ p, (IndexRange.ofInterval interval).Covers p ↔ Touches files index p := by
    rw [filePieces_inside _ inside]
    constructor
    · rintro ⟨range, found, exactly⟩
      obtain ⟨interval, made, rfl⟩ := Option.map_eq_some_iff.mp found
      exact ⟨interval, made, exactly.pieces⟩
    · rintro ⟨interval, made, exactly⟩
      exact ⟨_, Option.map_eq_some_iff.mpr ⟨interval, made, rfl⟩, exactly,
        fileInterval_ends made⟩
  rw [stated, Regular]
  rcases (fileSize_nonneg files index).lt_or_eq with filled | empty
  · rw [filled_exact_iff filled]
    simp only [filled, true_and, filled.ne', false_and, or_false]
  · rw [empty_exact_iff empty.symm]
    simp only [← empty, lt_irrefl, false_and, true_and, false_or]

def threeFiles : FileStorage where
  pieceLength := 100
  fileSizes := [70, 0, 180]
  pieceLength_pos := by decide
  pieceLength_fits := by decide
  fileSizes_nonneg := by decide
  total_fits := by decide

theorem third_file_matches :
    ∃ range, filePieces .debug ⟨some threeFiles⟩ (2 : Nat) = some range ∧
      Matches threeFiles 2 range :=
  (filePieces_exact_iff (by decide)).mpr (Or.inl (by decide))

/-- The file without bytes gets the piece it stands in. -/
theorem file_without_bytes_gets_piece :
    ¬ ∀ (files : FileStorage) (index : Nat), index < files.fileSizes.length →
      ∃ range, filePieces .debug ⟨some files⟩ index = some range ∧
        Matches files index range := by
  intro always
  obtain ⟨range, found, exactly⟩ := always threeFiles 1 (by decide)
  have single : filePieces .debug ⟨some threeFiles⟩ (1 : Nat) = some ⟨0, 1⟩ := by decide
  rw [single, Option.some.injEq] at found
  subst found
  exact untouched (by decide) 0 ((exactly.pieces 0).mp (by constructor <;> decide))

end FilePieces
