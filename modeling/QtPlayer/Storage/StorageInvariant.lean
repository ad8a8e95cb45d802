import QtPlayer.Storage.SlotWindow

/- What holds of a storage between its critical sections, and how each section keeps it.
   `Layout` and `Cached` say nothing about the order of operations; `Behind` ties the writing
   position to what is recorded. -/
namespace StorageInvariant
open FlatPieceMemoryStorage StorageRange StorageGeometry StorageSlots HalfOpenSegments
open TransitionRuns MachineGeometry LowerBound

variable {g : Geometry} {content : Content} {s t : State}

/-- Byte `o` of piece `p` is recorded in a slot listed for that piece. -/
def Recorded (slotList : List Slot) (p o : Int) : Prop :=
  ∃ slot ∈ slotList, slot.1 = p ∧ Covered slot.2.segments o

def RecordedAt (g : Geometry) (slotList : List Slot) (x : Int) : Prop :=
  Recorded slotList (x / g.pieceLen) (x - g.pieceAbsPos (x / g.pieceLen))

/-- The slots are the whole window that starts at the reading position, and the pieces of both
    positions have an int for their index. -/
structure Layout (g : Geometry) (s : State) : Prop where
  consecutive : Consecutive (s.absRPos / g.pieceLen) s.slotList
  length : s.slotList.length = windowLength g (s.absRPos / g.pieceLen)
  afterStart : g.fOffset ≤ s.absRPos
  writeAfterStart : g.firstPieceOffset ≤ s.absWPos
  readPiece : s.absRPos / g.pieceLen ≤ INT_MAX
  writePiece : s.absWPos / g.pieceLen ≤ INT_MAX
  ranges : ∀ slot ∈ s.slotList, slot.2.Valid g.pieceLen

/-- Every recorded byte is in the cache, at the position of its piece. -/
def Cached (g : Geometry) (content : Content) (s : State) : Prop :=
  ∀ p o, Recorded s.slotList p o →
    s.buffer (g.posInCacheByPiece p + o) = content (g.pieceAbsPos p + o)

/-- Everything from the start of the window up to the writing position is recorded. -/
structure Behind (g : Geometry) (s : State) : Prop where
  start : g.pieceAbsPos (s.absRPos / g.pieceLen) ≤ s.absWPos
  recorded : ∀ x, g.pieceAbsPos (s.absRPos / g.pieceLen) ≤ x → x < s.absWPos →
    RecordedAt g s.slotList x

structure Inv (g : Geometry) (content : Content) (s : State) : Prop where
  layout : Layout g s
  cached : Cached g content s
  behind : Behind g s
  idle : s.updatingBuffer = false

/- The window. -/

theorem firstPiece_le_piece {x : Int} (after : g.firstPieceOffset ≤ x) :
    g.firstPiece ≤ x / g.pieceLen := by
  have := piece_mono g after
  rwa [Geometry.firstPieceOffset, piece_of_pieceAbsPos] at this

theorem window_start_bound (layout : Layout g s) : g.firstPiece ≤ s.absRPos / g.pieceLen :=
  firstPiece_le_piece (by have := fOffset_in_firstPiece g; have := layout.afterStart; omega)

theorem layout_windowed (layout : Layout g s) :
    Windowed g (s.absRPos / g.pieceLen) s.slotList where
  consecutive := layout.consecutive
  short := by
    have := cacheSizeInPieces_positive g
    rw [layout.length]
    unfold windowLength
    omega
  inFile := by
    intro slot mem
    have := consecutive_mem layout.consecutive mem
    rw [layout.length] at this
    unfold windowLength at this
    omega

theorem layout_listed (layout : Layout g s) {p : Int} :
    (∃ slot ∈ s.slotList, slot.1 = p) ↔ p ∈ window g (s.absRPos / g.pieceLen) := by
  rw [mem_window]
  constructor
  · rintro ⟨slot, mem, rfl⟩
    have bounds := consecutive_mem layout.consecutive mem
    rw [layout.length] at bounds
    unfold windowLength at bounds
    omega
  · rintro ⟨low, high, inFile⟩
    apply consecutive_mem_of_bounds layout.consecutive low
    rw [layout.length]
    unfold windowLength
    omega

theorem recorded_bounds (layout : Layout g s) {p o : Int} (recorded : Recorded s.slotList p o) :
    p ∈ window g (s.absRPos / g.pieceLen) ∧ g.firstPiece ≤ p ∧ 0 ≤ o ∧ o < g.pieceLen := by
  obtain ⟨slot, mem, index, covered⟩ := recorded
  have listed := (layout_listed layout).mp ⟨slot, mem, index⟩
  have start := window_start_bound layout
  have bounds := covered_within (layout.ranges slot mem).within covered
  exact ⟨listed, by rw [mem_window] at listed; omega, bounds.1, bounds.2⟩

theorem recorded_keptWindow {slotList : List Slot} {j k p o : Int}
    (consecutive : Consecutive j slotList) :
    Recorded (keptWindow g slotList k) p o ↔ p ∈ window g k ∧ Recorded slotList p o := by
  constructor
  · rintro ⟨slot, mem, rfl, covered⟩
    simp only [keptWindow, List.mem_map] at mem
    obtain ⟨q, inside, rfl⟩ := mem
    refine ⟨inside, ?_⟩
    by_cases present : ∃ other ∈ slotList, other.1 = q
    · obtain ⟨other, otherMem, same⟩ := present
      refine ⟨other, otherMem, same, ?_⟩
      rwa [← same, rangeOf_mem consecutive otherMem] at covered
    · rw [rangeOf_not_mem fun other mem same => present ⟨other, mem, same⟩] at covered
      exact (covered_nil o covered).elim
  · rintro ⟨inside, slot, mem, rfl, covered⟩
    refine ⟨(slot.1, rangeOf slotList slot.1), ?_, rfl, ?_⟩
    · simp only [keptWindow, List.mem_map]
      exact ⟨slot.1, inside, rfl⟩
    · rwa [rangeOf_mem consecutive mem]

theorem recorded_iff_rangeOf {k p o : Int} {l : List Slot} (consecutive : Consecutive k l) :
    Recorded l p o ↔ Covered (rangeOf l p).segments o := by
  constructor
  · rintro ⟨slot, mem, rfl, covered⟩
    rwa [rangeOf_mem consecutive mem]
  · intro covered
    by_cases present : ∃ other ∈ l, other.1 = p
    · obtain ⟨other, mem, rfl⟩ := present
      rw [rangeOf_mem consecutive mem] at covered
      exact ⟨other, mem, rfl, covered⟩
    · rw [rangeOf_not_mem fun other mem same => present ⟨other, mem, same⟩] at covered
      exact (covered_nil o covered).elim

theorem recordedAt_keptWindow {slotList : List Slot} {j k x : Int}
    (consecutive : Consecutive j slotList) :
    RecordedAt g (keptWindow g slotList k) x ↔
      x / g.pieceLen ∈ window g k ∧ RecordedAt g slotList x :=
  recorded_keptWindow consecutive

def listWindow (g : Geometry) (s : State) (k : Int) : State :=
  { s with slotList := keptWindow g s.slotList k }.emit (.piecesRequested (window g k))

theorem requestSlots_eq [g.Counted] (build : Build) {j k : Int} (windowed : Windowed g j s.slotList)
    (nonneg : 0 ≤ k) : requestSlots g build s k = .ok (listWindow g s k) := by
  simp only [requestSlots, windowSlots_eq build windowed nonneg, ok_bind, keptWindow_indices]
  rfl

def reposition (g : Geometry) (s : State) (absRPos absWPos : Int) : State :=
  listWindow g { s with absRPos := absRPos, absWPos := absWPos } (absRPos / g.pieceLen)

section Reposition

variable {r w j : Int}

@[simp] theorem reposition_absRPos : (reposition g s r w).absRPos = r := rfl
@[simp] theorem reposition_absWPos : (reposition g s r w).absWPos = w := rfl
@[simp] theorem reposition_buffer : (reposition g s r w).buffer = s.buffer := rfl
@[simp] theorem reposition_updatingBuffer :
    (reposition g s r w).updatingBuffer = s.updatingBuffer := rfl
@[simp] theorem reposition_slotList :
    (reposition g s r w).slotList = keptWindow g s.slotList (r / g.pieceLen) := rfl

theorem reposition_layout (windowed : Windowed g j s.slotList)
    (ranges : ∀ slot ∈ s.slotList, slot.2.Valid g.pieceLen)
    (after : g.fOffset ≤ r) (after' : g.firstPieceOffset ≤ w) (piece : r / g.pieceLen ≤ INT_MAX)
    (piece' : w / g.pieceLen ≤ INT_MAX) : Layout g (reposition g s r w) where
  consecutive := keptWindow_consecutive _ _ _
  length := keptWindow_length _ _ _
  afterStart := after
  writeAfterStart := after'
  readPiece := piece
  writePiece := piece'
  ranges := keptWindow_ranges windowed.consecutive ranges empty_valid

theorem reposition_cached (windowed : Windowed g j s.slotList) (cached : Cached g content s) :
    Cached g content (reposition g s r w) := by
  intro p o recorded
  exact cached p o ((recorded_keptWindow windowed.consecutive).mp recorded).2

end Reposition

/- Finding and recording. -/

theorem slots_partitioned {k p : Int} {l : List Slot} (consecutive : Consecutive k l) :
    Partitioned (fun slot => decide (slot.1 < p)) l (min (p - k).toNat l.length) where
  short := Nat.min_le_right _ _
  iff := by
    intro i slot here
    have index := consecutive_getElem? consecutive here
    have inside := (List.getElem?_eq_some_iff.mp here).1
    rw [decide_eq_true_eq]
    omega

theorem findSlot_listed {k p : Int} {l : List Slot} (consecutive : Consecutive k l)
    {slot : Slot} (mem : slot ∈ l) (index : slot.1 = p) :
    findSlot l p = some (p - k).toNat ∧ l[(p - k).toNat]? = some slot := by
  have bounds := consecutive_mem consecutive mem
  have inside : (p - k).toNat < l.length := by omega
  have position : min (p - k).toNat l.length = (p - k).toNat := by omega
  obtain ⟨i, bound, found⟩ := List.mem_iff_getElem.mp mem
  have number := consecutive_getElem? consecutive (List.getElem?_eq_some_iff.mpr ⟨bound, found⟩)
  have same : (p - k).toNat = i := by omega
  have here : l[(p - k).toNat]? = some slot := by
    rw [same]
    exact List.getElem?_eq_some_iff.mpr ⟨bound, found⟩
  exact ⟨by
    simp only [findSlot, lowerBound_eq (slots_partitioned consecutive), position, here, index,
      ↓reduceIte],
    here⟩

theorem findSlot_unlisted {k p : Int} {l : List Slot} (consecutive : Consecutive k l)
    (absent : ∀ slot ∈ l, slot.1 ≠ p) : findSlot l p = none := by
  simp only [findSlot, lowerBound_eq (slots_partitioned consecutive)]
  cases found : l[min (p - k).toNat l.length]? with
  | none => rfl
  | some slot => simp [absent slot (List.mem_of_getElem? found)]

theorem recorded_set {l : List Slot} {i : Nat} {slot : Slot} {segment : Segment Int}
    (found : l[i]? = some slot) (nonempty : segment.1 < segment.2)
    (proper : Proper slot.2.segments) {p o : Int} :
    Recorded (l.set i (slot.1, slot.2.add segment)) p o ↔
      Recorded l p o ∨ (p = slot.1 ∧ Inside segment o) := by
  obtain ⟨inside, atIndex⟩ := List.getElem?_eq_some_iff.mp found
  have split : l = l.take i ++ slot :: l.drop (i + 1) := by
    rw [← atIndex, List.getElem_cons_drop, List.take_append_drop]
  have union : ∀ x, Covered (slot.2.add segment).segments x ↔
      Covered slot.2.segments x ∨ Inside segment x :=
    addSegment_covered nonempty _ proper
  rw [List.set_eq_take_append_cons_drop, if_pos inside]
  conv => rhs; rw [split]
  simp only [Recorded, List.mem_append, List.mem_cons, or_and_right, exists_or, exists_eq_left,
    union]
  grind

theorem consecutive_set {k : Int} {l : List Slot} {i : Nat} {slot : Slot} (r : Range Int)
    (consecutive : Consecutive k l) (found : l[i]? = some slot) :
    Consecutive k (l.set i (slot.1, r)) := by
  induction l generalizing k i with
  | nil => simp at found
  | cons first l ih =>
    cases i with
    | zero =>
      simp only [List.getElem?_cons_zero, Option.some.injEq] at found
      subst found
      exact ⟨consecutive.1, consecutive.2⟩
    | succ i => exact ⟨consecutive.1, ih consecutive.2 (by simpa using found)⟩

/-- The loop of write on unbounded integers. -/
def walk (g : Geometry) : Int → List Slot → Int
  | absWPos, [] => absWPos
  | absWPos, slot :: rest =>
    let absWPos :=
      if absWPos / g.pieceLen = slot.1 then
        max (g.pieceAbsPos slot.1 + slot.2.bytesAvailable) absWPos
      else absWPos
    if slot.2.bytesAvailable < g.pieceLen then absWPos else walk g absWPos rest

theorem piece_end_counted {p n : Int} (index : p < INT_MAX) (inside : n ≤ g.pieceLen) :
    (g.pieceAbsPos p + n) / g.pieceLen ≤ INT_MAX := by
  have next := pieceAbsPos_succ g p
  have atMost := piece_mono g (show g.pieceAbsPos p + n ≤ g.pieceAbsPos (p + 1) by omega)
  rw [piece_of_pieceAbsPos] at atMost
  omega

theorem walk_counted (slots : List Slot)
    (indices : ∀ slot ∈ slots, 0 ≤ slot.1 ∧ slot.1 < INT_MAX)
    (ranges : ∀ slot ∈ slots, slot.2.Valid g.pieceLen) {w : Int} (nonneg : 0 ≤ w)
    (piece : w / g.pieceLen ≤ INT_MAX) :
    moveWritingPosition g w slots = walk g w slots ∧ walk g w slots / g.pieceLen ≤ INT_MAX := by
  induction slots generalizing w with
  | nil => exact ⟨rfl, piece⟩
  | cons slot slots ih =>
    obtain ⟨low, high⟩ := indices slot (by simp)
    obtain ⟨some, atMost⟩ := bytesAvailable_bounds (ranges slot (by simp))
      (by have := pieceLen_positive g; omega)
    have start : 0 ≤ g.pieceAbsPos slot.1 :=
      Int.mul_nonneg low (by have := g.pieceLen_pos; omega)
    have ends := piece_end_counted high atMost
    have sum : qlonglong (Machine.pieceAbsPos g slot.1 + slot.2.bytesAvailable) =
        g.pieceAbsPos slot.1 + slot.2.bytesAvailable := by
      rw [pieceAbsPos_counted low (by omega)]
      exact qlonglong_self (position_counted (by omega) ends)
    simp only [moveWritingPosition, walk, piece_counted nonneg piece, sum]
    generalize moved : (if w / g.pieceLen = slot.1 then
      max (g.pieceAbsPos slot.1 + slot.2.bytesAvailable) w else w) = w'
    have nonneg' : 0 ≤ w' := by
      rw [← moved]
      split <;> omega
    have piece' : w' / g.pieceLen ≤ INT_MAX := by
      rw [← moved]
      split
      · rcases max_choice (g.pieceAbsPos slot.1 + slot.2.bytesAvailable) w with same | same
        · rwa [same]
        · rwa [same]
      · exact piece
    split
    · exact ⟨rfl, piece'⟩
    · exact ih (fun other mem => indices other (by simp [mem]))
        (fun other mem => ranges other (by simp [mem])) nonneg' piece'

theorem walk_grows (slots : List Slot) (w : Int) : w ≤ walk g w slots := by
  induction slots generalizing w with
  | nil => exact Int.le_refl _
  | cons slot slots ih =>
    simp only [walk]
    have here : w ≤ if w / g.pieceLen = slot.1 then
        max (g.pieceAbsPos slot.1 + slot.2.bytesAvailable) w else w := by
      split <;> omega
    split
    · exact here
    · exact Int.le_trans here (ih _)

/-- The loop only moves the writing position over recorded bytes. -/
theorem walk_recorded (slots : List Slot) (ranges : ∀ slot ∈ slots, slot.2.Valid g.pieceLen)
    {w x : Int} (low : w ≤ x) (high : x < walk g w slots) : RecordedAt g slots x := by
  induction slots generalizing w with
  | nil => simp only [walk] at high; omega
  | cons slot slots ih =>
    have tailRanges : ∀ other ∈ slots, other.2.Valid g.pieceLen :=
      fun other mem => ranges other (by simp [mem])
    have available := bytesAvailable_bounds (ranges slot (by simp))
      (by have := pieceLen_positive g; omega)
    have inTail : RecordedAt g slots x → RecordedAt g (slot :: slots) x := by
      rintro ⟨other, mem, rest⟩
      exact ⟨other, by simp [mem], rest⟩
    simp only [walk] at high
    by_cases here : w / g.pieceLen = slot.1
    · simp only [here, ↓reduceIte] at high
      have inside := (piece_eq_iff g).mp here
      by_cases within : x < g.pieceAbsPos slot.1 + slot.2.bytesAvailable
      · have piece : x / g.pieceLen = slot.1 := (piece_eq_iff g).mpr ⟨by omega, by omega⟩
        refine ⟨slot, by simp, piece.symm, ?_⟩
        rw [piece]
        exact bytesAvailable_covered (by omega) (by omega)
      · split at high
        · omega
        · exact inTail (ih tailRanges (by omega) high)
    · simp only [here, ↓reduceIte] at high
      split at high
      · omega
      · exact inTail (ih tailRanges low high)

def recordSlot (g : Geometry) (s : State) (itr : Nat) (slot : Slot) (segment : Segment Int) :
    State :=
  let slotList := s.slotList.set itr (slot.1, slot.2.add segment)
  { s with
    slotList := slotList
    absWPos := walk g s.absWPos (slotList.drop itr)
    updatingBuffer := false }

section Record

variable {itr : Nat} {slot : Slot} {segment : Segment Int}

@[simp] theorem recordSlot_absRPos : (recordSlot g s itr slot segment).absRPos = s.absRPos := rfl
@[simp] theorem recordSlot_buffer : (recordSlot g s itr slot segment).buffer = s.buffer := rfl
@[simp] theorem recordSlot_updatingBuffer :
    (recordSlot g s itr slot segment).updatingBuffer = false := rfl
@[simp] theorem recordSlot_slotList : (recordSlot g s itr slot segment).slotList =
    s.slotList.set itr (slot.1, slot.2.add segment) := rfl

theorem recordSlot_ranges (ranges : ∀ slot ∈ s.slotList, slot.2.Valid g.pieceLen)
    (found : s.slotList[itr]? = some slot) (low : 0 ≤ segment.1)
    (nonempty : segment.1 < segment.2) (high : segment.2 ≤ g.pieceLen) :
    ∀ other ∈ (recordSlot g s itr slot segment).slotList, other.2.Valid g.pieceLen := by
  intro other mem
  rcases List.mem_or_eq_of_mem_set mem with old | new
  · exact ranges other old
  · rw [new]
    exact (ranges slot (List.mem_of_getElem? found)).add low nonempty high

theorem recordSlot_counted [g.Counted] (layout : Layout g s) (found : s.slotList[itr]? = some slot)
    (low : 0 ≤ segment.1) (nonempty : segment.1 < segment.2) (high : segment.2 ≤ g.pieceLen) :
    moveWritingPosition g s.absWPos ((recordSlot g s itr slot segment).slotList.drop itr) =
        (recordSlot g s itr slot segment).absWPos ∧
      (recordSlot g s itr slot segment).absWPos / g.pieceLen ≤ INT_MAX := by
  have ranges := recordSlot_ranges layout.ranges found low nonempty high
  have start := Int.le_trans (firstPiece_nonneg g) (window_start_bound layout)
  have counts := lastPiece_counts g
  have inFile := (layout_windowed layout).inFile
  refine walk_counted _ ?_ (fun other mem => ranges other (List.mem_of_mem_drop mem))
    (Int.le_trans (firstPieceOffset_nonneg g) layout.writeAfterStart) layout.writePiece
  intro other mem
  rcases List.mem_or_eq_of_mem_set (List.mem_of_mem_drop mem) with old | new
  · have above := (consecutive_mem layout.consecutive old).1
    have := inFile other old
    omega
  · have above := (consecutive_mem layout.consecutive (List.mem_of_getElem? found)).1
    have := inFile slot (List.mem_of_getElem? found)
    rw [new]
    omega

theorem recordSlot_layout [g.Counted] (layout : Layout g s) (found : s.slotList[itr]? = some slot)
    (low : 0 ≤ segment.1) (nonempty : segment.1 < segment.2) (high : segment.2 ≤ g.pieceLen) :
    Layout g (recordSlot g s itr slot segment) where
  consecutive := consecutive_set _ layout.consecutive found
  length := by simpa using layout.length
  afterStart := layout.afterStart
  writeAfterStart := Int.le_trans layout.writeAfterStart (walk_grows _ _)
  readPiece := layout.readPiece
  writePiece := (recordSlot_counted layout found low nonempty high).2
  ranges := recordSlot_ranges layout.ranges found low nonempty high

theorem writeEnd_eq [g.Counted] (build : Build) (layout : Layout g s)
    (found : s.slotList[itr]? = some slot) {len offset : Int} (low : 0 ≤ offset)
    (positive : 1 ≤ len) (high : offset + len ≤ g.pieceLen) :
    writeEnd g build s itr len offset = .ok (recordSlot g s itr slot (offset, offset + len)) := by
  have fits := (cacheSize_bounds g).1
  have nonempty : offset < offset + len := by omega
  have moved : moveWritingPosition g s.absWPos
      ((recordSlot g s itr slot (offset, offset + len)).slotList.drop itr) =
        (recordSlot g s itr slot (offset, offset + len)).absWPos :=
    (recordSlot_counted layout found low nonempty high).1
  simp only [recordSlot_slotList] at moved
  simp only [writeEnd, found, int_of_fits (show 0 ≤ offset + len by omega) (by omega),
    check_holds build _ nonempty, ok_bind, moved]
  rfl

theorem recordSlot_recorded (layout : Layout g s) (found : s.slotList[itr]? = some slot)
    (nonempty : segment.1 < segment.2) {p o : Int} :
    Recorded (recordSlot g s itr slot segment).slotList p o ↔
      Recorded s.slotList p o ∨ (p = slot.1 ∧ Inside segment o) :=
  recorded_set found nonempty (layout.ranges slot (List.mem_of_getElem? found)).proper

theorem recordSlot_cached (layout : Layout g s) (cached : Cached g content s)
    (found : s.slotList[itr]? = some slot) (nonempty : segment.1 < segment.2)
    (delivered : ∀ o, Inside segment o →
      s.buffer (g.posInCacheByPiece slot.1 + o) = content (g.pieceAbsPos slot.1 + o)) :
    Cached g content (recordSlot g s itr slot segment) := by
  intro p o recorded
  rcases (recordSlot_recorded layout found nonempty).mp recorded with old | ⟨rfl, inside⟩
  · exact cached p o old
  · exact delivered o inside

theorem recordSlot_behind (layout : Layout g s) (behind : Behind g s)
    (found : s.slotList[itr]? = some slot) (low : 0 ≤ segment.1)
    (nonempty : segment.1 < segment.2) (high : segment.2 ≤ g.pieceLen) :
    Behind g (recordSlot g s itr slot segment) where
  start := Int.le_trans behind.start (walk_grows _ _)
  recorded := by
    intro x above below
    by_cases before : x < s.absWPos
    · exact (recordSlot_recorded layout found nonempty).mpr
        (Or.inl (behind.recorded x above before))
    · have ranges := recordSlot_ranges layout.ranges found low nonempty high
      obtain ⟨other, mem, rest⟩ := walk_recorded
        ((recordSlot g s itr slot segment).slotList.drop itr)
        (fun other mem => ranges other (List.mem_of_mem_drop mem)) (by omega : s.absWPos ≤ x) below
      exact ⟨other, List.mem_of_mem_drop mem, rest⟩

end Record

/- Copying a block into the cache. -/

@[simp] theorem slice_length {β : Type} (values : Int → β) (pos n : Int) :
    (slice values pos n).length = n.toNat := by
  simp [slice]

theorem store_slice_inside {buffer : Int → UInt8} {pos x n i : Int} (low : pos ≤ i)
    (high : i < pos + n) : store buffer pos (slice content x n) i = content (x + (i - pos)) := by
  have inside : (i - pos).toNat < n.toNat := by omega
  simp only [store, slice_length]
  rw [if_pos ⟨low, by omega⟩, List.getD_eq_getElem?_getD, slice, List.getElem?_map,
    List.getElem?_range inside]
  simp only [Option.map_some, Option.getD_some]
  congr 2
  omega

theorem store_slice_outside {buffer : Int → UInt8} {pos x n i : Int}
    (outside : i < pos ∨ pos + n ≤ i) : store buffer pos (slice content x n) i = buffer i := by
  simp only [store, slice_length]
  rw [if_neg (by omega)]

theorem copyIn_slice {buffer : Int → UInt8} {pos x len : Int} (nonneg : 0 ≤ len) (low : 0 ≤ pos)
    (high : pos + len ≤ g.cacheSize) :
    copyIn g buffer pos (slice content x len) len =
      .ok (store buffer pos (slice content x len)) := by
  have whole : (slice content x len).take len.toNat = slice content x len :=
    List.take_of_length_le (by simp)
  simp only [copyIn, slice_length, whole]
  rw [if_pos ⟨nonneg, by omega, low, high⟩]

theorem block_region (b : Block g) (after : g.firstPiece ≤ b.pieceIndex) :
    0 ≤ g.posInCacheByPiece b.pieceIndex + b.offset ∧
      g.posInCacheByPiece b.pieceIndex + b.offset + b.len ≤ g.cacheSize := by
  have := posInCacheByPiece_bounds g after
  have := b.offset_nonneg
  have := b.inside
  omega

def stored (content : Content) (s : State) (b : Block g) : State :=
  { s with
    buffer := store s.buffer (g.posInCacheByPiece b.pieceIndex + b.offset) (b.bytes content)
    updatingBuffer := true }

theorem stored_cached (layout : Layout g s) (cached : Cached g content s) (b : Block g)
    (listed : b.pieceIndex ∈ window g (s.absRPos / g.pieceLen)) :
    Cached g content (stored content s b) := by
  intro p o recorded
  obtain ⟨inWindow, after, low, high⟩ := recorded_bounds layout recorded
  have start := window_start_bound layout
  have block := mem_window.mp listed
  have piece := mem_window.mp inWindow
  have offset := b.offset_nonneg
  have inside := b.inside
  simp only [stored, Block.bytes]
  by_cases region : g.posInCacheByPiece b.pieceIndex + b.offset ≤ g.posInCacheByPiece p + o ∧
      g.posInCacheByPiece p + o < g.posInCacheByPiece b.pieceIndex + b.offset + b.len
  · rw [store_slice_inside region.1 region.2]
    obtain ⟨same, shift⟩ := posInCacheByPiece_disjoint g after
      (show g.firstPiece ≤ b.pieceIndex by omega) low high
      (r := g.posInCacheByPiece p + o - g.posInCacheByPiece b.pieceIndex)
      (by omega) (by omega) (by omega) (by omega) (by omega)
    rw [same]
    congr 1
    omega
  · rw [store_slice_outside (by omega)]
    exact cached p o recorded

theorem stored_delivered (b : Block g) (o : Int) (inside : Inside (b.offset, b.offset + b.len) o) :
    (stored content s b).buffer (g.posInCacheByPiece b.pieceIndex + o) =
      content (g.pieceAbsPos b.pieceIndex + o) := by
  obtain ⟨low, high⟩ := inside
  simp only [stored, Block.bytes]
  simp only at low high
  rw [store_slice_inside (by omega) (by omega)]
  congr 1
  omega

/- The operations that do not copy out. -/

theorem listed_after_first (layout : Layout g s) {slot : Slot} (mem : slot ∈ s.slotList) :
    g.firstPiece ≤ slot.1 := by
  have listed := mem_window.mp ((layout_listed layout).mp ⟨slot, mem, rfl⟩)
  have := window_start_bound layout
  omega

theorem writeBegin_listed [g.Counted] (build : Build) (layout : Layout g s) {slot : Slot}
    (mem : slot ∈ s.slotList) {len offset p : Int} (index : slot.1 = p) (nonneg : 0 ≤ offset)
    (inside : offset < g.pieceLen) :
    writeBegin g build s len offset p = .ok ({ s with updatingBuffer := true },
      some ⟨(p - s.absRPos / g.pieceLen).toNat, g.posInCacheByPiece p + offset⟩) := by
  obtain ⟨found, _⟩ := findSlot_listed layout.consecutive mem index
  have after := listed_after_first layout mem
  rw [index] at after
  have counted : p ≤ INT_MAX := by
    have := (layout_windowed layout).inFile slot mem
    have := lastPiece_counts g
    omega
  have bounds := posInCacheByPiece_bounds g after
  have fits := g.cacheSize_fits
  have low : 0 ≤ g.posInCacheByPiece p + offset := by omega
  have place : int (g.posInCacheByPiece p + offset) = g.posInCacheByPiece p + offset :=
    int_of_fits low (by unfold Geometry.cacheSize at bounds; omega)
  simp only [writeBegin, found, posInCacheByPiece_counted after counted, place,
    check_holds build _ low, ok_bind]

theorem writeBegin_unlisted (build : Build) (layout : Layout g s) {len offset p : Int}
    (absent : ∀ slot ∈ s.slotList, slot.1 ≠ p) : writeBegin g build s len offset p =
      .ok (s.emit (.pieceOutOfRangeReceived len offset p), none) := by
  simp only [writeBegin, findSlot_unlisted layout.consecutive absent]

theorem write_listed [g.Counted] (content : Content) (build : Build) (layout : Layout g s)
    (b : Block g)
    {slot : Slot} (mem : slot ∈ s.slotList) (index : slot.1 = b.pieceIndex) :
    write g build s (b.bytes content) b.len b.offset b.pieceIndex =
      .ok (recordSlot g (stored content s b) (b.pieceIndex - s.absRPos / g.pieceLen).toNat slot
        (b.offset, b.offset + b.len)) := by
  have here := (findSlot_listed layout.consecutive mem index).2
  have after := listed_after_first layout mem
  rw [index] at after
  obtain ⟨low, high⟩ := block_region b after
  have positive := b.len_pos
  have inside := b.inside
  simp only [write, writeBegin_listed build layout mem index b.offset_nonneg (by omega), ok_bind,
    Block.bytes, copyIn_slice (show 0 ≤ b.len by omega) low high]
  exact writeEnd_eq build (s := stored content s b) { layout with } here b.offset_nonneg positive
    inside

theorem write_unlisted (build : Build) (layout : Layout g s) (buf : List UInt8)
    (len offset : Int) {p : Int} (absent : ∀ slot ∈ s.slotList, slot.1 ≠ p) :
    write g build s buf len offset p = .ok (s.emit (.pieceOutOfRangeReceived len offset p)) := by
  simp only [write, writeBegin_unlisted build layout absent, ok_bind]

def seekWPos (g : Geometry) (s : State) (pos : Nat) : Int :=
  if s.absWPos / g.pieceLen = (pos + g.fOffset) / g.pieceLen then s.absWPos
  else g.pieceAbsPos ((pos + g.fOffset) / g.pieceLen)

theorem seek_counted [g.Counted] {pos : Nat} (inFile : (pos : Int) ≤ g.fSize) :
    (pos + g.fOffset) / g.pieceLen ≤ INT_MAX := by
  have ends := (fileEnd_in_lastPiece g).2
  have piece := piece_mono g (show pos + g.fOffset ≤ g.pieceAbsPos (g.lastPiece + 1) by omega)
  rw [piece_of_pieceAbsPos] at piece
  exact Int.le_trans piece (lastPiece_counts g)

theorem seekEnd_eq [g.Counted] {build : Build} (layout : Layout g s)
    (passes : check build .notUpdatingBuffer (!s.updatingBuffer) = .ok ()) {pos : Nat}
    (counted : (pos + g.fOffset) / g.pieceLen ≤ INT_MAX) :
    seekEnd g build s pos = .ok (reposition g s (pos + g.fOffset) (seekWPos g s pos)) := by
  have after : 0 ≤ pos + g.fOffset := by have := g.fOffset_nonneg; omega
  have nonneg := Int.le_trans (firstPieceOffset_nonneg g) layout.writeAfterStart
  have piece : 0 ≤ (pos + g.fOffset) / g.pieceLen :=
    Int.ediv_nonneg after (by have := g.pieceLen_pos; omega)
  simp only [seekEnd, passes, ok_bind, qlonglong_self (position_counted after counted),
    piece_counted nonneg layout.writePiece, piece_counted after counted,
    pieceAbsPos_counted piece counted]
  rw [requestSlots_eq build (by simpa using layout_windowed layout) piece]
  rfl

theorem seek_eq [g.Counted] (build : Build) (layout : Layout g s) (idle : s.updatingBuffer = false)
    {pos : Nat} (counted : (pos + g.fOffset) / g.pieceLen ≤ INT_MAX) :
    seek g build s pos = .ok (reposition g s (pos + g.fOffset) (seekWPos g s pos)) := by
  simp only [seek, idle, Bool.false_eq_true, ↓reduceIte]
  exact seekEnd_eq layout (by simp [idle]) counted

theorem opened_eq [g.Counted] (build : Build) (memory : Int → UInt8) :
    opened g build memory =
      .ok (reposition g (construct g memory) g.fOffset g.firstPieceOffset) := by
  rw [opened, firstPiece_counted, requestSlots_eq build (j := 0) (empty_windowed g 0)
    (firstPiece_nonneg g), firstPiece_eq]
  simp only [construct, firstPieceOffset_counted]
  rfl

theorem seekWPos_bounds (after : g.firstPieceOffset ≤ s.absWPos) (pos : Nat) :
    g.firstPieceOffset ≤ seekWPos g s pos ∧
      g.pieceAbsPos ((pos + g.fOffset) / g.pieceLen) ≤ seekWPos g s pos := by
  have start := fOffset_in_firstPiece g
  have first := pieceAbsPos_mono g
    (firstPiece_le_piece (g := g) (x := pos + g.fOffset) (by omega))
  unfold seekWPos
  split
  · rename_i same
    have := piece_start_le g s.absWPos
    rw [same] at this
    exact ⟨after, this⟩
  · exact ⟨first, Int.le_refl _⟩

theorem seekWPos_counted (piece : s.absWPos / g.pieceLen ≤ INT_MAX) {pos : Nat}
    (counted : (pos + g.fOffset) / g.pieceLen ≤ INT_MAX) :
    seekWPos g s pos / g.pieceLen ≤ INT_MAX := by
  unfold seekWPos
  split
  · exact piece
  · rwa [piece_of_pieceAbsPos]

theorem sought_layout (layout : Layout g s) {pos : Nat}
    (counted : (pos + g.fOffset) / g.pieceLen ≤ INT_MAX) :
    Layout g (reposition g s (pos + g.fOffset) (seekWPos g s pos)) :=
  reposition_layout (layout_windowed layout) layout.ranges (by omega)
    (seekWPos_bounds layout.writeAfterStart pos).1 counted
    (seekWPos_counted layout.writePiece counted)

theorem opened_nothing_recorded [g.Counted] {memory : Int → UInt8} {build : Build}
    (eq : opened g build memory = .ok s) (p o : Int) : ¬ Recorded s.slotList p o := by
  rw [opened_eq, Except.ok.injEq] at eq
  subst eq
  intro recorded
  have empty : Consecutive 0 [] := trivial
  obtain ⟨_, slot, mem, _⟩ := (recorded_keptWindow empty).mp recorded
  simp at mem

theorem opened_inv [g.Counted] (content : Content) {build : Build} {memory : Int → UInt8}
    (eq : opened g build memory = .ok s) : Inv g content s := by
  have nothing := opened_nothing_recorded eq
  rw [opened_eq, Except.ok.injEq] at eq
  subst eq
  have start := fOffset_in_firstPiece g
  have counts := lastPiece_counts g
  have first := firstPiece_le_lastPiece g
  refine ⟨reposition_layout (empty_windowed g 0) (by simp [construct]) (by omega) (by omega)
    (by rw [← firstPiece_eq]; omega)
    (by rw [Geometry.firstPieceOffset, piece_of_pieceAbsPos]; omega),
    fun p o recorded => (nothing p o recorded).elim, ⟨?_, ?_⟩, rfl⟩
  · rw [reposition_absRPos, ← firstPiece_eq]
    exact Int.le_refl _
  · intro x low high
    rw [reposition_absRPos, ← firstPiece_eq] at low
    simp only [reposition_absWPos] at high
    have : g.pieceAbsPos g.firstPiece = g.firstPieceOffset := rfl
    omega

theorem write_inv [g.Counted] {build : Build} (inv : Inv g content s) (b : Block g)
    (eq : write g build s (b.bytes content) b.len b.offset b.pieceIndex = .ok t) :
    Inv g content t := by
  by_cases listed : ∃ slot ∈ s.slotList, slot.1 = b.pieceIndex
  · obtain ⟨slot, mem, index⟩ := listed
    rw [write_listed content build inv.layout b mem index, Except.ok.injEq] at eq
    subst eq
    have found := (findSlot_listed inv.layout.consecutive mem index).2
    have low := b.offset_nonneg
    have nonempty : b.offset < b.offset + b.len := by have := b.len_pos; omega
    have high := b.inside
    have layout : Layout g (stored content s b) := { inv.layout with }
    refine ⟨recordSlot_layout layout found low nonempty high, ?_, ?_, rfl⟩
    · refine recordSlot_cached layout ?_ found nonempty ?_
      · apply stored_cached inv.layout inv.cached b
        exact (layout_listed inv.layout).mp ⟨slot, mem, index⟩
      · intro o inside
        rw [index]
        exact stored_delivered b o inside
    · exact recordSlot_behind layout { inv.behind with } found low nonempty high
  · rw [write_unlisted build inv.layout _ _ _ fun slot mem index => listed ⟨slot, mem, index⟩,
      Except.ok.injEq] at eq
    subst eq
    exact ⟨{ inv.layout with }, inv.cached, { inv.behind with }, inv.idle⟩

/-- Moving the reading position inside the recorded part, or to a piece the writing position
    does not lie in, keeps the writing position right. -/
theorem sought_behind (layout : Layout g s) (behind : Behind g s) (pos : Nat) :
    Behind g (reposition g s (pos + g.fOffset) (seekWPos g s pos)) := by
  have windowed := layout_windowed layout
  refine ⟨(seekWPos_bounds layout.writeAfterStart pos).2, ?_⟩
  intro x low high
  simp only [reposition_absRPos, reposition_absWPos, seekWPos] at low high
  split at high
  · rename_i same
    have piece : x / g.pieceLen = (pos + g.fOffset) / g.pieceLen := by
      have := lt_piece_end g s.absWPos
      exact (piece_eq_iff g).mpr ⟨low, by rw [← same]; omega⟩
    have order : s.absRPos / g.pieceLen ≤ (pos + g.fOffset) / g.pieceLen := by
      have := piece_mono g behind.start
      rwa [piece_of_pieceAbsPos, same] at this
    have before := behind.recorded x (by have := pieceAbsPos_mono g order; omega) high
    have listed := mem_window.mp (recorded_bounds layout before).1
    refine (recordedAt_keptWindow windowed.consecutive).mpr ⟨mem_window.mpr ?_, before⟩
    have := cacheSizeInPieces_positive g
    omega
  · omega

theorem seek_inv [g.Counted] {build : Build} (inv : Inv g content s) {pos : Nat}
    (counted : (pos + g.fOffset) / g.pieceLen ≤ INT_MAX)
    (eq : seek g build s pos = .ok t) : Inv g content t := by
  rw [seek_eq build inv.layout inv.idle counted, Except.ok.injEq] at eq
  subst eq
  exact ⟨sought_layout inv.layout counted,
    reposition_cached (layout_windowed inv.layout) inv.cached,
    sought_behind inv.layout inv.behind pos, inv.idle⟩

end StorageInvariant
