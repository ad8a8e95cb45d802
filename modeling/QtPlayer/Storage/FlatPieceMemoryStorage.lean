import QtPlayer.Library.LowerBound
import QtPlayer.Library.TransitionRuns
import QtPlayer.Storage.PieceGeometry
import QtPlayer.Storage.Range

/- FlatPieceMemoryStorage.cpp, with the int and qlonglong arithmetic of the source: an overflow
   wraps. `read` and `write` are cut where they release the mutex. -/
namespace FlatPieceMemoryStorage
open StorageRange TransitionRuns MachineIntegers MachineGeometry LowerBound

abbrev Slot := Int × Range Int

inductive Signal where
  | piecesRequested (pieces : List Int)
  | pieceOutOfRangeReceived (length offset pieceIndex : Int)
  deriving DecidableEq, Repr

inductive Build where
  | debug
  | release
  deriving DecidableEq, Repr

inductive Assertion where
  | writeAheadOfRead
  | distanceNotZero
  | bytesToBeCopiedPositive
  | obtainedAsComputed
  | obtainedNotMinusOne
  | dataPosNonneg
  | segmentNotEmpty
  | notUpdatingBuffer
  | headNotBeforeStart
  | slotNotBeforeStart
  | slotsConsecutive
  deriving DecidableEq, Repr

/-- How an operation can end without returning: it waits, an assert aborts it, a memcpy
    leaves its buffer, the kept iterator is past the end of the list, or the list grows past
    what a QList can hold. -/
inductive Fault where
  | blocked
  | assertion (which : Assertion)
  | outOfBounds
  | danglingIterator
  | listTooLong
  deriving DecidableEq, Repr

/-- assert is compiled out of a release build. -/
def check (build : Build) (which : Assertion) (holds : Bool) : Except Fault Unit :=
  match build with
  | .release => .ok ()
  | .debug => if holds then .ok () else .error (.assertion which)

@[simp] theorem check_release (which : Assertion) (holds : Bool) :
    check .release which holds = .ok () := rfl

@[simp] theorem check_true (build : Build) (which : Assertion) :
    check build which true = .ok () := by
  cases build <;> rfl

theorem check_holds (build : Build) (which : Assertion) {p : Prop} [Decidable p] (holds : p) :
    check build which (decide p) = .ok () := by
  simp [holds]

@[simp] theorem ok_bind {α β : Type} (a : α) (f : α → Except Fault β) :
    (Except.ok a >>= f) = f a := rfl

@[simp] theorem error_bind {α β : Type} (e : Fault) (f : α → Except Fault β) :
    (Except.error e >>= f) = Except.error e := rfl

theorem bind_ok {α β : Type} {x : Except Fault α} {f : α → Except Fault β} {b : β}
    (eq : (x >>= f) = .ok b) : ∃ a, x = .ok a ∧ f a = .ok b := by
  cases x with
  | error e => cases eq
  | ok a => exact ⟨a, rfl, eq⟩

structure State where
  buffer : Int → UInt8
  absRPos : Int
  absWPos : Int
  updatingBuffer : Bool
  slotList : List Slot
  emitted : List Signal

def State.emit (s : State) (signal : Signal) : State := { s with emitted := s.emitted ++ [signal] }

/- memcpy, with the bounds of both buffers checked. -/

def slice {β : Type} (values : Int → β) (pos n : Int) : List β :=
  (List.range n.toNat).map fun i : Nat => values (pos + i)

def store (buffer : Int → UInt8) (pos : Int) (bytes : List UInt8) : Int → UInt8 := fun i =>
  if pos ≤ i ∧ i < pos + bytes.length then bytes.getD (i - pos).toNat 0 else buffer i

def copyIn (g : Geometry) (buffer : Int → UInt8) (pos : Int) (buf : List UInt8) (len : Int) :
    Except Fault (Int → UInt8) :=
  if 0 ≤ len ∧ len ≤ buf.length ∧ 0 ≤ pos ∧ pos + len ≤ g.cacheSize then
    .ok (store buffer pos (buf.take len.toNat))
  else .error .outOfBounds

def copyOut (g : Geometry) (pos n : Int) : Except Fault (List Int) :=
  if 0 ≤ n ∧ 0 ≤ pos ∧ pos + n ≤ g.cacheSize then .ok (slice id pos n)
  else .error .outOfBounds

/- requestSlots, loop by loop. The fuel of each loop is the number of turns it can take. -/

def trimSlots (cacheSizeInPieces gapSize : Int) : Nat → List Slot → List Slot
  | 0, slotList => slotList
  | fuel + 1, slotList =>
    if int (gapSize + slotList.length) > cacheSizeInPieces then
      trimSlots cacheSizeInPieces gapSize fuel slotList.dropLast
    else slotList

def prependSlots : Nat → Int → List Slot → List Slot
  | 0, _, slotList => slotList
  | fuel + 1, slotIndex, slotList =>
    prependSlots fuel (int (slotIndex - 1)) ((int (slotIndex - 1), Range.empty) :: slotList)

/-- The turns `--slotIndex` takes from one int to another. -/
def turnsDown (slotIndex pieceIndexStartFrom : Int) : Int :=
  (slotIndex - pieceIndexStartFrom) % 2 ^ 32

def appendSlots (g : Geometry) : Nat → Int → List Slot → List Slot
  | 0, _, slotList => slotList
  | fuel + 1, pieceIndexStartFrom, slotList =>
    if slotList.length < g.cacheSizeInPieces ∧ pieceIndexStartFrom ≤ Machine.lastPiece g then
      appendSlots g fuel (int (pieceIndexStartFrom + 1))
        (slotList ++ [(pieceIndexStartFrom, Range.empty)])
    else slotList

/-- The local -1 of checkSlotsInvariant marks that no slot was seen yet. -/
def consecutiveFrom : Int → List Slot → Bool
  | _, [] => true
  | startSlotIndex, slot :: rest =>
    if startSlotIndex ≠ -1 then
      int (startSlotIndex + 1) == slot.1 && consecutiveFrom (int (startSlotIndex + 1)) rest
    else consecutiveFrom slot.1 rest

def checkSlotsInvariant (slotList : List Slot) : Bool := consecutiveFrom (-1) slotList

/-- The part of requestSlots between removing the head and appending: what stays of the old
    list, and the index from which slots are appended. -/
def keepSlots (g : Geometry) (build : Build) (slotList : List Slot) (pieceIndexStartFrom : Int) :
    Except Fault (List Slot × Int) :=
  match slotList with
  | [] => .ok ([], pieceIndexStartFrom)
  | first :: _ => do
    check build .headNotBeforeStart (pieceIndexStartFrom ≤ first.1)
    let gapSize := int (first.1 - pieceIndexStartFrom)
    let slotList :=
      if gapSize ≥ g.cacheSizeInPieces then []
      else trimSlots g.cacheSizeInPieces gapSize slotList.length slotList
    match slotList with
    | [] => .ok ([], pieceIndexStartFrom)
    | first :: _ => do
      check build .slotNotBeforeStart (pieceIndexStartFrom ≤ first.1)
      let turns := turnsDown first.1 pieceIndexStartFrom
      if turns + slotList.length > INT_MAX then .error .listTooLong
      else
        let slotList := prependSlots turns.toNat first.1 slotList
        match slotList.getLast? with
        | some last => .ok (slotList, int (last.1 + 1))
        | none => .ok (slotList, pieceIndexStartFrom)

def windowSlots (g : Geometry) (build : Build) (slotList : List Slot)
    (pieceIndexStartFrom : Int) : Except Fault (List Slot) := do
  let remaining := slotList.filter fun slot => ¬ slot.1 < pieceIndexStartFrom
  let (kept, next) ← keepSlots g build remaining pieceIndexStartFrom
  let slotList := appendSlots g g.cacheSizeInPieces.toNat next kept
  check build .slotsConsecutive (checkSlotsInvariant slotList)
  .ok slotList

def requestSlots (g : Geometry) (build : Build) (s : State) (pieceIndexStartFrom : Int) :
    Except Fault State := do
  let slotList ← windowSlots g build s.slotList pieceIndexStartFrom
  .ok ({ s with slotList := slotList }.emit (.piecesRequested (slotList.map Prod.fst)))

/- write -/

def findSlot (slotList : List Slot) (pieceIndex : Int) : Option Nat :=
  let itr := lowerBound (fun slot => decide (slot.1 < pieceIndex)) slotList
  match slotList[itr]? with
  | some slot => if slot.1 = pieceIndex then some itr else none
  | none => none

/-- What write keeps while it has released the mutex. -/
structure Unlocked where
  itr : Nat
  dataPos : Int
  deriving DecidableEq, Repr

def writeBegin (g : Geometry) (build : Build) (s : State) (len offset pieceIndex : Int) :
    Except Fault (State × Option Unlocked) :=
  match findSlot s.slotList pieceIndex with
  | some itr => do
    let dataPos := int (Machine.posInCacheByPiece g pieceIndex + offset)
    check build .dataPosNonneg (0 ≤ dataPos)
    .ok ({ s with updatingBuffer := true }, some ⟨itr, dataPos⟩)
  | none => .ok (s.emit (.pieceOutOfRangeReceived len offset pieceIndex), none)

def moveWritingPosition (g : Geometry) : Int → List Slot → Int
  | absWPos, [] => absWPos
  | absWPos, slot :: rest =>
    let writingSlot := int (absWPos.tdiv g.pieceLen)
    let absWPos :=
      if writingSlot = slot.1 then
        max (qlonglong (Machine.pieceAbsPos g slot.1 + slot.2.bytesAvailable)) absWPos
      else absWPos
    if slot.2.bytesAvailable < g.pieceLen then absWPos else moveWritingPosition g absWPos rest

def writeEnd (g : Geometry) (build : Build) (s : State) (itr : Nat) (len offset : Int) :
    Except Fault State :=
  match s.slotList[itr]? with
  | none => .error .danglingIterator
  | some slot => do
    let segment := (offset, int (offset + len))
    check build .segmentNotEmpty (segment.1 < segment.2)
    let slotList := s.slotList.set itr (slot.1, slot.2.add segment)
    .ok { s with
      slotList := slotList
      absWPos := moveWritingPosition g s.absWPos (slotList.drop itr)
      updatingBuffer := false }

def write (g : Geometry) (build : Build) (s : State) (buf : List UInt8)
    (len offset pieceIndex : Int) : Except Fault State := do
  let (s, found) ← writeBegin g build s len offset pieceIndex
  match found with
  | none => .ok s
  | some kept => do
    let buffer ← copyIn g s.buffer kept.dataPos buf len
    writeEnd g build { s with buffer := buffer } kept.itr len offset

/- read -/

def toInt (len : Nat) : Int := wrap 31 len

def readBegin (g : Geometry) (build : Build) (s : State) : Except Fault (Int × Int) := do
  check build .writeAheadOfRead (s.absWPos > s.absRPos)
  .ok (Machine.posInCacheByAbsPos g s.absRPos, Machine.posInCacheByAbsPos g s.absWPos)

/-- What read computes once it has released the mutex: the cells it copies and their number. -/
def readCells (g : Geometry) (build : Build) (len : Nat) (localRPos localWPos : Int) :
    Except Fault (List Int × Int) := do
  let bytesRequested := toInt len
  let distance := int (localWPos - localRPos)
  let toEnd := int (g.cacheSize - localRPos)
  let bytesToBeCopied :=
    if distance > 0 then min bytesRequested distance
    else int (toEnd + min (int (int (bytesRequested - g.cacheSize) + localRPos)) localWPos)
  check build .distanceNotZero (distance ≠ 0)
  check build .bytesToBeCopiedPositive (bytesToBeCopied > 0)
  let (cells, obtainBytes) ←
    if distance > 0 ∨ toEnd > toInt len then do
      let obtainBytes := min bytesRequested
        (if distance > 0 then int (localWPos - localRPos) else toEnd)
      let cells ← copyOut g localRPos obtainBytes
      .ok (cells, obtainBytes)
    else do
      let tailBytes := toEnd
      let tail ← if tailBytes > 0 then copyOut g localRPos tailBytes else .ok []
      let obtainBytes := min (int (bytesRequested - tailBytes)) localWPos
      let head ← if obtainBytes > 0 then copyOut g 0 obtainBytes else .ok []
      .ok (tail ++ head, int (obtainBytes + tailBytes))
  check build .obtainedAsComputed (obtainBytes == bytesToBeCopied)
  check build .obtainedNotMinusOne (obtainBytes ≠ -1)
  .ok (cells, obtainBytes)

def readStart (g : Geometry) (build : Build) (s : State) (len : Nat) :
    Except Fault (List Int × Int) := do
  let (localRPos, localWPos) ← readBegin g build s
  readCells g build len localRPos localWPos

def readEnd (g : Geometry) (build : Build) (s : State) (obtainBytes : Int) :
    Except Fault State :=
  let absRPos := qlonglong (s.absRPos + obtainBytes)
  requestSlots g build { s with absRPos := absRPos } (int (absRPos.tdiv g.pieceLen))

def read (g : Geometry) (build : Build) (s : State) (len : Nat) :
    Except Fault (State × List UInt8 × Int) :=
  if s.absRPos ≥ s.absWPos then .error .blocked
  else do
    let (cells, obtainBytes) ← readStart g build s len
    let t ← readEnd g build s obtainBytes
    .ok (t, cells.map s.buffer, obtainBytes)

/- seek -/

def seekEnd (g : Geometry) (build : Build) (s : State) (pos : Nat) : Except Fault State := do
  check build .notUpdatingBuffer (!s.updatingBuffer)
  -- the sum is a quint64 before it is a qlonglong
  let newAbsPos := qlonglong (pos + g.fOffset)
  let currentPieceIndex := int (s.absWPos.tdiv g.pieceLen)
  let newPieceIndex := int (newAbsPos.tdiv g.pieceLen)
  let absWPos :=
    if currentPieceIndex = newPieceIndex then s.absWPos
    else Machine.pieceAbsPos g newPieceIndex
  requestSlots g build { s with absRPos := newAbsPos, absWPos := absWPos } newPieceIndex

def seek (g : Geometry) (build : Build) (s : State) (pos : Nat) : Except Fault State :=
  if s.updatingBuffer then .error .blocked else seekEnd g build s pos

def construct (g : Geometry) (memory : Int → UInt8) : State where
  buffer := memory
  absRPos := g.fOffset
  absWPos := Machine.firstPieceOffset g
  updatingBuffer := false
  slotList := []
  emitted := []

/-- The constructor followed by requestSlots(firstPiece()). -/
def opened (g : Geometry) (build : Build) (memory : Int → UInt8) : Except Fault State :=
  requestSlots g build (construct g memory) (Machine.firstPiece g)

/- Runs of whole operations, one at a time. -/

structure Block (g : Geometry) where
  pieceIndex : Int
  offset : Int
  len : Int
  offset_nonneg : 0 ≤ offset
  len_pos : 1 ≤ len
  inside : offset + len ≤ g.pieceLen

abbrev Content := Int → UInt8

def Block.bytes {g : Geometry} (content : Content) (b : Block g) : List UInt8 :=
  slice content (g.pieceAbsPos b.pieceIndex + b.offset) b.len

inductive Op (g : Geometry) where
  | write (block : Block g)
  | read (len : Nat)
  | seek (pos : Nat)

def exec (g : Geometry) (content : Content) (build : Build) (s : State) :
    Op g → Except Fault (State × List UInt8)
  | .write b => do
    let s ← write g build s (b.bytes content) b.len b.offset b.pieceIndex
    .ok (s, [])
  | .read len => do
    let (s, buf, _) ← read g build s len
    .ok (s, buf)
  | .seek pos => do
    let s ← seek g build s pos
    .ok (s, [])

/-- The arguments callers give: a positive length that fits an int, a position in the file
    or at its end. -/
def Op.InDomain {g : Geometry} : Op g → Prop
  | .write _ => True
  | .read len => 1 ≤ len ∧ (len : Int) ≤ INT_MAX
  | .seek pos => (pos : Int) ≤ g.fSize

/-- A read is issued only when the writing position is ahead. -/
def Op.Issued {g : Geometry} (s : State) : Op g → Prop
  | .write _ => True
  | .read _ => s.absRPos < s.absWPos
  | .seek _ => True

def sequential (g : Geometry) (content : Content) (build : Build) : System State (Op g) where
  start s := ∃ memory, opened g build memory = .ok s
  step s op t := op.InDomain ∧ op.Issued s ∧ ∃ out, exec g content build s op = .ok (t, out)

instance {g : Geometry} (op : Op g) : Decidable op.InDomain :=
  match op with
  | .write _ => inferInstanceAs (Decidable True)
  | .read len => inferInstanceAs (Decidable (1 ≤ len ∧ (len : Int) ≤ INT_MAX))
  | .seek pos => inferInstanceAs (Decidable ((pos : Int) ≤ g.fSize))

instance {g : Geometry} (s : State) (op : Op g) : Decidable (op.Issued s) :=
  match op with
  | .write _ => inferInstanceAs (Decidable True)
  | .read _ => inferInstanceAs (Decidable (s.absRPos < s.absWPos))
  | .seek _ => inferInstanceAs (Decidable True)

def next (g : Geometry) (content : Content) (build : Build) (s : State) (op : Op g) :
    Option State :=
  if op.InDomain ∧ op.Issued s then
    match exec g content build s op with
    | .ok (t, _) => some t
    | .error _ => none
  else none

theorem next_step {g : Geometry} {content : Content} {build : Build} (s : State) (op : Op g)
    (t : State) (computed : next g content build s op = some t) :
    (sequential g content build).step s op t := by
  simp only [next] at computed
  split at computed
  · rename_i allowed
    split at computed
    · rename_i u out eq
      rw [Option.some.injEq] at computed
      exact ⟨allowed.1, allowed.2, out, computed ▸ eq⟩
    · cases computed
  · cases computed

end FlatPieceMemoryStorage
