import QtPlayer.Storage.SettledSegments
import QtPlayer.Storage.Streaming

/- Writing a block again whose bytes are all recorded. The list of segments is made for
   disjoint segments: a duplicate is stored beside the segment that covers it. -/
namespace Redelivery
open FlatPieceMemoryStorage StorageRange StorageGeometry StorageSlots StorageInvariant ReadPath
open HalfOpenSegments SettledSegments Streaming TransitionRuns MachineGeometry

variable {g : Geometry} {content : Content} {build : Build} {s t : State}

def segmentOf (b : Block g) : Segment Int := (b.offset, b.offset + b.len)

def AlreadyRecorded (s : State) (b : Block g) : Prop :=
  ∀ o, Inside (segmentOf b) o → Recorded s.slotList b.pieceIndex o

def positions (s : State) : Int × Int := (s.absRPos, s.absWPos)

def available (slot : Slot) : Int × Int := (slot.1, slot.2.bytesAvailable)

def perform (g : Geometry) (content : Content) (build : Build) (s : State) (op : Op g) :
    Except Fault State :=
  (exec g content build s op).map Prod.fst

/-- The write changes neither position nor bytesAvailable of a slot, and no continuation tells
    by the positions that it took place. -/
def Harmless (g : Geometry) (content : Content) (build : Build) (s : State) (b : Block g) : Prop :=
  ∃ t, write g build s (b.bytes content) b.len b.offset b.pieceIndex = .ok t ∧
    positions t = positions s ∧ t.slotList.map available = s.slotList.map available ∧
    ∀ ops : List (Op g), (∀ op ∈ ops, op.InDomain) →
      observe (perform g content build) positions t ops =
        observe (perform g content build) positions s ops

/-- The walk of write, started at slot `q`, would find the writing position too low. -/
def Lags (g : Geometry) (s : State) (q : Int) : Prop :=
  ∃ slot ∈ s.slotList, slot.1 = s.absWPos / g.pieceLen ∧ q ≤ slot.1 ∧
    (∀ other ∈ s.slotList, q ≤ other.1 → other.1 < slot.1 →
      other.2.bytesAvailable = g.pieceLen) ∧
    s.absWPos < g.pieceAbsPos slot.1 + slot.2.bytesAvailable

/- What the walk depends on. -/

theorem walk_congr {l l' : List Slot} (same : l.map available = l'.map available)
    (w : Int) : walk g w l = walk g w l' := by
  induction l generalizing l' w with
  | nil =>
    rw [List.map_nil, eq_comm, List.map_eq_nil_iff] at same
    rw [same]
  | cons slot l ih =>
    cases l' with
    | nil => simp at same
    | cons slot' l' =>
      simp only [List.map_cons, List.cons.injEq, available, Prod.mk.injEq] at same
      obtain ⟨⟨index, bytes⟩, rest⟩ := same
      simp only [walk, index, bytes]
      split
      · rfl
      · exact ih rest _

theorem map_drop_congr {l m : List Slot} (n : Nat) (same : l.map available = m.map available) :
    (l.drop n).map available = (m.drop n).map available := by
  rw [List.map_drop, List.map_drop, same]

def Behind (g : Geometry) (w : Int) (slots : List Slot) : Prop :=
  ∃ slot ∈ slots, slot.1 = w / g.pieceLen ∧
    (∀ other ∈ slots, other.1 < slot.1 → other.2.bytesAvailable = g.pieceLen) ∧
    w < g.pieceAbsPos slot.1 + slot.2.bytesAvailable

/-- In the slot of the position the walk ends its search, past it the first slot must be full. -/
theorem behind_cons {k w : Int} {first : Slot} {rest : List Slot}
    (consecutive : Consecutive k (first :: rest)) :
    Behind g w (first :: rest) ↔
      if w / g.pieceLen = first.1 then w < g.pieceAbsPos first.1 + first.2.bytesAvailable
      else first.2.bytesAvailable = g.pieceLen ∧ Behind g w rest := by
  have later : ∀ other ∈ rest, first.1 < other.1 := by
    intro other mem
    have := (consecutive_mem consecutive.2 mem).1
    have := consecutive.1
    omega
  split
  · rename_i here
    constructor
    · rintro ⟨slot, mem, same, _, beyond⟩
      rcases List.mem_cons.mp mem with isFirst | behind
      · rwa [isFirst] at beyond
      · have := later slot behind
        omega
    · intro beyond
      refine ⟨first, by simp, here.symm, ?_, beyond⟩
      intro other mem below
      rcases List.mem_cons.mp mem with isFirst | behind
      · rw [isFirst] at below
        omega
      · have := later other behind
        omega
  · rename_i elsewhere
    constructor
    · rintro ⟨slot, mem, same, full, beyond⟩
      rcases List.mem_cons.mp mem with isFirst | behind
      · exact absurd (isFirst ▸ same).symm elsewhere
      · exact ⟨full first (by simp) (later slot behind), slot, behind, same,
          fun other otherMem => full other (by simp [otherMem]), beyond⟩
    · rintro ⟨firstFull, slot, mem, same, full, beyond⟩
      refine ⟨slot, by simp [mem], same, ?_, beyond⟩
      intro other otherMem below
      rcases List.mem_cons.mp otherMem with isFirst | behind
      · rwa [isFirst]
      · exact full other behind below

theorem walk_stays_iff {k w : Int} {slots : List Slot} (consecutive : Consecutive k slots)
    (ranges : ∀ slot ∈ slots, slot.2.Valid g.pieceLen) :
    walk g w slots = w ↔ ¬ Behind g w slots := by
  induction slots generalizing k with
  | nil => simp [walk, Behind]
  | cons first rest ih =>
    have positive := pieceLen_positive g
    have bounds := bytesAvailable_bounds (ranges first (by simp)) (by omega)
    have tail := ih consecutive.2 fun other mem => ranges other (by simp [mem])
    rw [behind_cons consecutive]
    simp only [walk]
    by_cases here : w / g.pieceLen = first.1
    · simp only [if_pos here]
      split
      · omega
      · have inside := (piece_eq_iff g).mp here
        have grows := walk_grows (g := g) rest
          (max (g.pieceAbsPos first.1 + first.2.bytesAvailable) w)
        omega
    · simp only [if_neg here]
      split
      · exact iff_of_true rfl fun behind => by omega
      · have full : first.2.bytesAvailable = g.pieceLen := by omega
        rw [tail, and_iff_right full]

/- Two storages whose ranges agree. -/

structure Alike (g : Geometry) (content : Content) (s t : State) : Prop where
  inv : Inv g content s
  inv' : Inv g content t
  same : positions s = positions t
  ranges : ∀ p, Agree g.pieceLen (rangeOf s.slotList p).segments (rangeOf t.slotList p).segments

theorem agree_bytesAvailable {r r' : Range Int} (agree : Agree g.pieceLen r.segments r'.segments) :
    r.bytesAvailable = r'.bytesAvailable := by
  have heads := agree_head agree
  unfold Range.bytesAvailable
  cases first : r.segments with
  | nil =>
    rw [first, List.head?_nil, eq_comm, List.head?_eq_none_iff] at heads
    rw [heads]
  | cons x l =>
    rw [first, List.head?_cons] at heads
    obtain ⟨l', shape⟩ := List.head?_eq_some_iff.mp heads.symm
    rw [shape]

theorem rangeOf_keptWindow (slotList : List Slot) (k p : Int) :
    rangeOf (keptWindow g slotList k) p =
      if p ∈ window g k then rangeOf slotList p else Range.empty := by
  have consecutive := keptWindow_consecutive g slotList k
  split
  · rename_i listed
    have mem : (p, rangeOf slotList p) ∈ keptWindow g slotList k := by
      simp only [keptWindow, List.mem_map]
      exact ⟨p, listed, rfl⟩
    exact rangeOf_mem consecutive mem
  · rename_i unlisted
    refine rangeOf_not_mem fun slot mem index => unlisted ?_
    have := keptWindow_mem mem
    rw [← index]
    exact mem_window.mpr ⟨this.1, this.2.1, this.2.2.1⟩

theorem rangeOf_set {k : Int} {l : List Slot} {itr : Nat} {slot : Slot} (r : Range Int)
    (consecutive : Consecutive k l) (found : l[itr]? = some slot) (p : Int) :
    rangeOf (l.set itr (slot.1, r)) p = if p = slot.1 then r else rangeOf l p := by
  have after := consecutive_set r consecutive found
  have inside := (List.getElem?_eq_some_iff.mp found).1
  split
  · rename_i here
    rw [here]
    exact rangeOf_mem after (List.mem_set inside (slot.1, r))
  · rename_i elsewhere
    by_cases present : ∃ other ∈ l, other.1 = p
    · obtain ⟨other, mem, rfl⟩ := present
      rw [rangeOf_mem consecutive mem]
      apply rangeOf_mem after
      obtain ⟨i, bound, eq⟩ := List.mem_iff_getElem.mp mem
      refine List.mem_iff_getElem.mpr ⟨i, by simpa using bound, ?_⟩
      have different : itr ≠ i := by
        rintro rfl
        rw [(List.getElem?_eq_some_iff.mp found).2] at eq
        exact elsewhere (by rw [eq])
      rw [List.getElem_set_ne different, eq]
    · rw [rangeOf_not_mem fun other mem same => present ⟨other, mem, same⟩]
      apply rangeOf_not_mem
      intro other mem same
      rcases List.mem_or_eq_of_mem_set mem with old | new
      · exact present ⟨other, old, same⟩
      · rw [new] at same
        exact elsewhere same.symm

theorem alike_available (layout : Layout g s) (layout' : Layout g t) (same : s.absRPos = t.absRPos)
    (ranges : ∀ p, Agree g.pieceLen (rangeOf s.slotList p).segments
      (rangeOf t.slotList p).segments) :
    s.slotList.map available = t.slotList.map available := by
  rw [← keptWindow_self layout.consecutive layout.length,
    ← keptWindow_self layout'.consecutive layout'.length, ← same]
  simp only [keptWindow, List.map_map]
  apply List.map_congr_left
  intro p _
  simp only [Function.comp, available, agree_bytesAvailable (ranges p)]

theorem alike_reposition (alike : Alike g content s t) {r w : Int}
    (inv : Inv g content (reposition g s r w)) (inv' : Inv g content (reposition g t r w)) :
    Alike g content (reposition g s r w) (reposition g t r w) where
  inv := inv
  inv' := inv'
  same := rfl
  ranges := by
    intro p
    simp only [reposition_slotList, rangeOf_keptWindow]
    split
    · exact alike.ranges p
    · exact .same _

theorem recordSlot_alike {slot slot' : Slot} {itr : Nat} {segment : Segment Int}
    (inv : Inv g content (recordSlot g s itr slot segment))
    (inv' : Inv g content (recordSlot g t itr slot' segment))
    (consecutive : Consecutive (s.absRPos / g.pieceLen) s.slotList)
    (consecutive' : Consecutive (t.absRPos / g.pieceLen) t.slotList)
    (found : s.slotList[itr]? = some slot) (found' : t.slotList[itr]? = some slot')
    (same : positions s = positions t)
    (ranges : ∀ p, Agree g.pieceLen (rangeOf s.slotList p).segments
      (rangeOf t.slotList p).segments)
    (nonempty : segment.1 < segment.2) (high : segment.2 ≤ g.pieceLen) :
    Alike g content (recordSlot g s itr slot segment) (recordSlot g t itr slot' segment) := by
  simp only [positions, Prod.mk.injEq] at same
  have index : slot.1 = slot'.1 := by
    rw [consecutive_getElem? consecutive found, consecutive_getElem? consecutive' found', same.1]
  have after : ∀ p, Agree g.pieceLen
      (rangeOf (recordSlot g s itr slot segment).slotList p).segments
      (rangeOf (recordSlot g t itr slot' segment).slotList p).segments := by
    intro p
    rw [recordSlot_slotList, recordSlot_slotList, rangeOf_set _ consecutive found,
      rangeOf_set _ consecutive' found', index]
    split
    · have here := ranges slot.1
      rw [rangeOf_mem consecutive (List.mem_of_getElem? found), index,
        rangeOf_mem consecutive' (List.mem_of_getElem? found')] at here
      exact agree_addSegment nonempty high here
    · exact ranges p
  have lists := alike_available inv.layout inv'.layout same.1 after
  refine ⟨inv, inv', ?_, after⟩
  have walks := walk_congr (g := g) (map_drop_congr itr lists) s.absWPos
  exact Prod.ext same.1 (walks.trans (congrArg (walk g · _) same.2))

theorem perform_write {t : State} (b : Block g)
    (eq : write g build s (b.bytes content) b.len b.offset b.pieceIndex = .ok t) :
    perform g content build s (.write b) = .ok t := by
  simp only [perform, exec, eq, ok_bind, Except.map]

theorem perform_seek [g.Counted] (inv : Inv g content s) {pos : Nat}
    (counted : (pos + g.fOffset) / g.pieceLen ≤ INT_MAX) :
    perform g content build s (.seek pos) =
      .ok (reposition g s (pos + g.fOffset) (seekWPos g s pos)) := by
  simp only [perform, exec_seek inv counted, Except.map]

theorem perform_matches [g.Counted] (op : Op g) (domain : op.InDomain)
    (alike : Alike g content s t) :
    Matches (Alike g content) (perform g content build s op) (perform g content build t op) := by
  have same := alike.same
  simp only [positions, Prod.mk.injEq] at same
  have layout := alike.inv.layout
  have layout' := alike.inv'.layout
  cases op with
  | write b =>
    by_cases listed : b.pieceIndex ∈ window g (s.absRPos / g.pieceLen)
    · have listed' : b.pieceIndex ∈ window g (t.absRPos / g.pieceLen) := by rwa [← same.1]
      obtain ⟨slot, mem, index⟩ := (layout_listed layout).mpr listed
      obtain ⟨slot', mem', index'⟩ := (layout_listed layout').mpr listed'
      have written := write_listed content build layout b mem index
      have written' := write_listed content build layout' b mem' index'
      have found := (findSlot_listed layout.consecutive mem index).2
      have found' := (findSlot_listed layout'.consecutive mem' index').2
      have inv := write_inv alike.inv b written
      have inv' := write_inv alike.inv' b written'
      rw [← same.1] at found' written' inv'
      rw [perform_write b written, perform_write b written']
      exact recordSlot_alike inv inv' layout.consecutive layout'.consecutive found found'
        alike.same alike.ranges (by have := b.len_pos; simp only; omega) b.inside
    · have absent : ∀ slot ∈ s.slotList, slot.1 ≠ b.pieceIndex :=
        fun slot mem index => listed ((layout_listed layout).mp ⟨slot, mem, index⟩)
      have absent' : ∀ slot ∈ t.slotList, slot.1 ≠ b.pieceIndex := fun slot mem index =>
        listed (by rw [same.1]; exact (layout_listed layout').mp ⟨slot, mem, index⟩)
      have written := write_unlisted build layout (b.bytes content) b.len b.offset absent
      have written' := write_unlisted build layout' (b.bytes content) b.len b.offset absent'
      rw [perform_write b written, perform_write b written']
      exact ⟨write_inv alike.inv b written, write_inv alike.inv' b written', alike.same,
        alike.ranges⟩
  | seek pos =>
    have counted := seek_counted (g := g) domain
    have sought := seek_eq build layout alike.inv.idle counted
    have sought' := seek_eq build layout' alike.inv'.idle counted
    have inv := seek_inv alike.inv counted sought
    have inv' := seek_inv alike.inv' counted sought'
    have target : seekWPos g s pos = seekWPos g t pos := by simp only [seekWPos, same.2]
    rw [perform_seek alike.inv counted, perform_seek alike.inv' counted]
    rw [← target] at inv' ⊢
    exact alike_reposition alike inv inv'
  | read len =>
    by_cases issued : s.absRPos < s.absWPos
    · have issued' : t.absRPos < t.absWPos := by omega
      by_cases full : build = .debug ∧ s.absWPos - s.absRPos = g.cacheSize
      · obtain ⟨rfl, full⟩ := full
        simp only [perform, exec_read_full alike.inv issued len full,
          exec_read_full alike.inv' issued' len (by omega), Except.map, Matches]
      · have notFull : build = .release ∨ s.absWPos - s.absRPos ≠ g.cacheSize := by
          cases build with
          | release => exact Or.inl rfl
          | debug => exact Or.inr fun isFull => full ⟨rfl, isFull⟩
        have length : readLength s len = readLength t len := by simp only [readLength, same]
        have inv := advance_inv alike.inv issued domain.1
        have inv' := advance_inv alike.inv' issued' domain.1
        simp only [perform, exec_read alike.inv issued domain.1 domain.2 notFull,
          exec_read alike.inv' issued' domain.1 domain.2 (by rwa [← same.1, ← same.2]),
          Except.map, Matches]
        simp only [advance, ← length, ← same.1, ← same.2] at inv inv' ⊢
        exact alike_reposition alike inv inv'
    · simp only [perform, exec, FlatPieceMemoryStorage.read]
      rw [if_pos (by omega), if_pos (by omega)]
      rfl

/- The write of the duplicate itself. -/

theorem mem_drop_iff {k : Int} {l : List Slot} (consecutive : Consecutive k l) {n : Nat}
    (bound : n ≤ l.length) {slot : Slot} : slot ∈ l.drop n ↔ slot ∈ l ∧ k + n ≤ slot.1 := by
  constructor
  · intro mem
    exact ⟨List.mem_of_mem_drop mem, (consecutive_mem (consecutive_drop consecutive n bound) mem).1⟩
  · rintro ⟨mem, above⟩
    obtain ⟨i, inside, eq⟩ := List.mem_iff_getElem.mp mem
    have position := consecutive_getElem? consecutive (List.getElem?_eq_some_iff.mpr ⟨inside, eq⟩)
    refine List.mem_drop_iff_getElem.mpr ⟨i - n, by omega, ?_⟩
    simp only [show n + (i - n) = i by omega, eq]

theorem lags_iff (layout : Layout g s) {itr : Nat} {slot : Slot}
    (found : s.slotList[itr]? = some slot) :
    Lags g s slot.1 ↔ walk g s.absWPos (s.slotList.drop itr) ≠ s.absWPos := by
  have inside := (List.getElem?_eq_some_iff.mp found).1
  have position := consecutive_getElem? layout.consecutive found
  have members : ∀ other, other ∈ s.slotList.drop itr ↔ other ∈ s.slotList ∧ slot.1 ≤ other.1 := by
    intro other
    rw [mem_drop_iff layout.consecutive (Nat.le_of_lt inside), position]
  have stays := walk_stays_iff (w := s.absWPos)
    (consecutive_drop layout.consecutive itr (Nat.le_of_lt inside))
    fun other mem => layout.ranges other (List.mem_of_mem_drop mem)
  rw [ne_eq, stays, not_not, Lags, Behind]
  simp only [members, and_imp, and_assoc]
  constructor
  · rintro ⟨other, mem, index, above, full, beyond⟩
    exact ⟨other, mem, above, index, full, beyond⟩
  · rintro ⟨other, mem, above, index, full, beyond⟩
    exact ⟨other, mem, index, above, full, beyond⟩

theorem duplicate_written [g.Counted] (build : Build) (inv : Inv g content s) (b : Block g)
    (again : AlreadyRecorded s b) :
    ∃ slot itr, s.slotList[itr]? = some slot ∧ slot.1 = b.pieceIndex ∧
      write g build s (b.bytes content) b.len b.offset b.pieceIndex =
        .ok (recordSlot g (stored content s b) itr slot (segmentOf b)) := by
  have some := b.len_pos
  obtain ⟨slot, mem, index, _⟩ := again b.offset ⟨le_refl _, by simp only [segmentOf]; omega⟩
  exact ⟨slot, _, (findSlot_listed inv.layout.consecutive mem index).2, index,
    write_listed content build inv.layout b mem index⟩

theorem segmentOf_nonempty (b : Block g) : (segmentOf b).1 < (segmentOf b).2 := by
  have := b.len_pos
  simp only [segmentOf]
  omega

theorem harmless_of_settled [g.Counted] (inv : Inv g content s) {b : Block g}
    (again : AlreadyRecorded s b)
    (settled : Settled g.pieceLen (segmentOf b) (rangeOf s.slotList b.pieceIndex).segments)
    (current : ¬ Lags g s b.pieceIndex) : Harmless g content build s b := by
  obtain ⟨slot, itr, found, index, written⟩ := duplicate_written build inv b again
  have after := write_inv inv b written
  have consecutive := inv.layout.consecutive
  have mem := List.mem_of_getElem? found
  rw [← index] at settled current
  rw [rangeOf_mem consecutive mem] at settled
  have ranges : ∀ p, Agree g.pieceLen (rangeOf s.slotList p).segments
      (rangeOf (recordSlot g (stored content s b) itr slot (segmentOf b)).slotList p).segments := by
    intro p
    have same : (stored content s b).slotList = s.slotList := rfl
    rw [recordSlot_slotList, same, rangeOf_set _ consecutive found]
    split
    · rename_i here
      rw [here, rangeOf_mem consecutive mem]
      exact agree_of_settled (segmentOf_nonempty b) b.inside (inv.layout.ranges slot mem).ordered
        settled
    · exact .same _
  have lists := alike_available inv.layout after.layout rfl ranges
  have walks := walk_congr (g := g) (map_drop_congr itr lists) s.absWPos
  have stays := not_not.mp (mt (lags_iff inv.layout found).mpr current)
  have same : positions s = positions (recordSlot g (stored content s b) itr slot (segmentOf b)) :=
    Prod.ext rfl (stays.symm.trans walks)
  refine ⟨_, written, same.symm, lists.symm, ?_⟩
  intro ops legal
  exact (observe_eq_of_matching (fun _ _ alike => alike.same)
    (fun _ _ op alike domain => perform_matches op domain alike) ops _ _ legal
    ⟨inv, after, same, ranges⟩).symm

/- A difference in the ranges is seen from the positions. -/

structure FirstSlot (g : Geometry) (content : Content) (s : State) (q : Int) (r : Range Int) :
    Prop where
  inv : Inv g content s
  piece : s.absRPos / g.pieceLen = q
  first : s.slotList.head? = some (q, r)

theorem seek_position {q : Int} (inv : Inv g content s)
    (listed : q ∈ window g (s.absRPos / g.pieceLen)) :
    ∃ pos : Nat, (pos : Int) ≤ g.fSize ∧ (pos + g.fOffset) / g.pieceLen = q := by
  have bounds := mem_window.mp listed
  have start := window_start_bound inv.layout
  have last := fileEnd_in_lastPiece g
  have inLast := pieceAbsPos_mono g bounds.2.2
  have size := g.fSize_pos
  have offset := fOffset_in_firstPiece g
  have first : g.firstPieceOffset = g.pieceAbsPos g.firstPiece := rfl
  have positive := pieceLen_positive g
  obtain ⟨pos, position⟩ : ∃ pos : Nat, (pos : Int) = max 0 (g.pieceAbsPos q - g.fOffset) :=
    ⟨(max 0 (g.pieceAbsPos q - g.fOffset)).toNat, by omega⟩
  refine ⟨pos, by omega, (piece_eq_iff g).mpr ?_⟩
  rcases lt_or_ge g.firstPiece q with later | atFirst
  · have := pieceAbsPos_mono g (show g.firstPiece + 1 ≤ q by omega)
    have := pieceAbsPos_succ g g.firstPiece
    omega
  · have same : q = g.firstPiece := by omega
    subst same
    omega

theorem seek_to_first [g.Counted] (build : Build) {q : Int} {pos : Nat} (inv : Inv g content s)
    (inFile : q ≤ g.lastPiece) (piece : (pos + g.fOffset) / g.pieceLen = q) :
    ∃ t, perform g content build s (.seek pos) = .ok t ∧
      FirstSlot g content t q (rangeOf s.slotList q) := by
  have counted : (pos + g.fOffset) / g.pieceLen ≤ INT_MAX := by
    have := lastPiece_counts g
    omega
  refine ⟨_, perform_seek inv counted,
    ⟨seek_inv inv counted (seek_eq build inv.layout inv.idle counted), piece, ?_⟩⟩
  have positive := cacheSizeInPieces_positive g
  have consecutive := keptWindow_consecutive g s.slotList q
  have mem : (q, rangeOf s.slotList q) ∈ keptWindow g s.slotList q :=
    List.mem_map.mpr ⟨q, mem_window.mpr ⟨le_refl _, by omega, inFile⟩, rfl⟩
  rw [reposition_slotList, piece]
  cases shape : keptWindow g s.slotList q with
  | nil => simp [shape] at mem
  | cons slot rest =>
    rw [shape] at consecutive
    have known := (keptWindow_mem (show slot ∈ keptWindow g s.slotList q by simp [shape])).2.2.2
    rw [consecutive.1] at known
    exact congrArg some (Prod.ext consecutive.1 known)

theorem write_to_first [g.Counted] (build : Build) {q : Int} {r : Range Int}
    (first : FirstSlot g content s q r) (b : Block g) (index : b.pieceIndex = q) :
    ∃ t rest, perform g content build s (.write b) = .ok t ∧
      FirstSlot g content t q (r.add (segmentOf b)) ∧
      t.absWPos = walk g s.absWPos ((q, r.add (segmentOf b)) :: rest) := by
  obtain ⟨rest, shape⟩ := List.head?_eq_some_iff.mp first.first
  have mem : (q, r) ∈ s.slotList := by simp [shape]
  have written := write_listed content build first.inv.layout b mem index.symm
  have zero : (b.pieceIndex - s.absRPos / g.pieceLen).toNat = 0 := by
    rw [first.piece, index]
    simp
  rw [zero] at written
  have list : (recordSlot g (stored content s b) 0 (q, r) (segmentOf b)).slotList =
      (q, r.add (segmentOf b)) :: rest := by
    simp only [recordSlot_slotList, stored, shape, List.set_cons_zero]
  refine ⟨_, rest, perform_write b written, ⟨write_inv first.inv b written, first.piece, ?_⟩, ?_⟩
  · exact congrArg List.head? list
  · exact congrArg (walk g s.absWPos) list

theorem writes_to_first [g.Counted] (build : Build) {q : Int} (blocks : List (Block g))
    (index : ∀ b ∈ blocks, b.pieceIndex = q) {r : Range Int} (first : FirstSlot g content s q r) :
    ∃ t, observe (perform g content build) id s (blocks.map Op.write) = .ok t ∧
      FirstSlot g content t q ((blocks.map segmentOf).foldl Range.add r) := by
  induction blocks generalizing s r with
  | nil => exact ⟨s, rfl, first⟩
  | cons b blocks ih =>
    obtain ⟨u, _, written, after, _⟩ := write_to_first build first b (index b (by simp))
    obtain ⟨t, rest, last⟩ := ih (fun c mem => index c (by simp [mem])) after
    refine ⟨t, ?_, last⟩
    simp only [List.map_cons, observe, written]
    exact rest

theorem blocks_of_segments (q : Int) (segments : List (Segment Int))
    (valid : ∀ e ∈ segments, 0 ≤ e.1 ∧ e.1 < e.2 ∧ e.2 ≤ g.pieceLen) :
    ∃ blocks : List (Block g), (∀ b ∈ blocks, b.pieceIndex = q) ∧
      blocks.map segmentOf = segments := by
  induction segments with
  | nil => exact ⟨[], by simp, rfl⟩
  | cons e segments ih =>
    obtain ⟨blocks, index, same⟩ := ih fun d mem => valid d (by simp [mem])
    obtain ⟨low, nonempty, high⟩ := valid e (by simp)
    refine ⟨⟨q, e.1, e.2 - e.1, low, by omega, by omega⟩ :: blocks, ?_, ?_⟩
    · intro b mem
      rcases List.mem_cons.mp mem with same | later
      · rw [same]
      · exact index b later
    · simp only [List.map_cons, same, segmentOf, add_sub_cancel, Prod.mk.eta]

theorem writing_below_gap {q gap : Int} {r : Range Int} (first : FirstSlot g content s q r)
    (nonneg : 0 ≤ gap) (inside : gap < g.pieceLen) (missing : ¬ Covered r.segments gap) :
    g.pieceAbsPos q ≤ s.absWPos ∧ s.absWPos ≤ g.pieceAbsPos q + gap := by
  have start := first.inv.behind.start
  have recorded := first.inv.behind.recorded (g.pieceAbsPos q + gap)
  rw [first.piece] at start recorded
  refine ⟨start, ?_⟩
  by_contra beyond
  have here := recorded (by omega) (by omega)
  have piece : (g.pieceAbsPos q + gap) / g.pieceLen = q := (piece_eq_iff g).mpr ⟨by omega, by omega⟩
  rw [RecordedAt, piece, add_sub_cancel_left] at here
  obtain ⟨slot, mem, index, covered⟩ := here
  have member := List.mem_of_mem_head? first.first
  have only := rangeOf_mem first.inv.layout.consecutive member
  rw [← rangeOf_mem first.inv.layout.consecutive mem, index, only] at covered
  exact missing covered

theorem walk_first {q w : Int} {r : Range Int} (rest : List Slot)
    (low : g.pieceAbsPos q ≤ w) (high : w < g.pieceAbsPos q + g.pieceLen)
    (below : w ≤ g.pieceAbsPos q + r.bytesAvailable) :
    g.pieceAbsPos q + r.bytesAvailable ≤ walk g w ((q, r) :: rest) ∧
      (r.bytesAvailable < g.pieceLen →
        walk g w ((q, r) :: rest) = g.pieceAbsPos q + r.bytesAvailable) := by
  have piece : w / g.pieceLen = q := (piece_eq_iff g).mpr ⟨low, high⟩
  simp only [walk, piece, ↓reduceIte, max_eq_left below]
  split
  · exact ⟨le_refl _, fun _ => rfl⟩
  · exact ⟨walk_grows _ _, fun notFull => absurd notFull ‹_›⟩

theorem perform_then {ops : List (Op g)} {op : Op g} {t u : State}
    (reached : observe (perform g content build) id s ops = .ok t)
    (performed : perform g content build t op = .ok u) :
    observe (perform g content build) positions s (ops ++ [op]) = .ok (positions u) := by
  rw [observe_append _ _ _ _ _ _ reached]
  simp only [observe, performed]

theorem perform_reached {ops : List (Op g)} {t : State}
    (reached : observe (perform g content build) id s ops = .ok t) :
    observe (perform g content build) positions s ops = .ok (positions t) := by
  have whole := observe_append (perform g content build) positions s ops [] t reached
  rwa [List.append_nil] at whole

theorem seek_and_fill [g.Counted] (build : Build) {q : Int} {pos : Nat} (inv : Inv g content s)
    (inFile : q ≤ g.lastPiece) (piece : (pos + g.fOffset) / g.pieceLen = q)
    (blocks : List (Block g)) (index : ∀ b ∈ blocks, b.pieceIndex = q) :
    ∃ t, observe (perform g content build) id s (.seek pos :: blocks.map Op.write) = .ok t ∧
      FirstSlot g content t q ((blocks.map segmentOf).foldl Range.add (rangeOf s.slotList q)) := by
  obtain ⟨u, sought, first⟩ := seek_to_first build inv inFile piece
  obtain ⟨t, written, last⟩ := writes_to_first build blocks index first
  refine ⟨t, ?_, last⟩
  simp only [observe, sought]
  exact written

/-- Seek to the piece, fill the gaps, and the writing positions differ. -/
theorem revealed_noticed [g.Counted] (build : Build) {q gap : Int} {fills : List (Segment Int)}
    {last : Segment Int} (inv : Inv g content s) (inv' : Inv g content t)
    (listed : q ∈ window g (s.absRPos / g.pieceLen))
    (reveals : Reveals g.pieceLen (rangeOf s.slotList q) (rangeOf t.slotList q) fills last gap) :
    ∃ ops : List (Op g), (∀ op ∈ ops, op.InDomain) ∧
      observe (perform g content build) positions t ops ≠
        observe (perform g content build) positions s ops := by
  obtain ⟨pos, inFile, piece⟩ := seek_position inv listed
  have inWindow := (mem_window.mp listed).2.2
  obtain ⟨blocks, index, fillsEq⟩ := blocks_of_segments q fills fun e mem =>
    reveals.valid e (by simp [mem])
  obtain ⟨lasts, lastIndex, lastEq⟩ := blocks_of_segments q [last] fun e mem =>
    reveals.valid e (List.mem_append_right _ mem)
  obtain ⟨b, rfl⟩ : ∃ b, lasts = [b] := by
    have := congrArg List.length lastEq
    rw [List.length_map, List.length_singleton] at this
    exact List.length_eq_one_iff.mp this
  simp only [List.map_cons, List.map_nil, List.cons.injEq, and_true] at lastEq
  obtain ⟨s₁, reached, first⟩ := seek_and_fill build inv inWindow piece blocks index
  obtain ⟨t₁, reached', first'⟩ := seek_and_fill build inv' inWindow piece blocks index
  obtain ⟨s₂, rest, written, first₂, walk⟩ := write_to_first build first b
    (lastIndex b (by simp))
  obtain ⟨t₂, rest', written', first₂', walk'⟩ := write_to_first build first' b
    (lastIndex b (by simp))
  rw [fillsEq, lastEq] at first₂ first₂' walk walk'
  rw [fillsEq] at first first'
  have legal : ∀ op ∈ Op.seek pos :: blocks.map Op.write, op.InDomain := by
    intro op mem
    rcases List.mem_cons.mp mem with rfl | later
    · exact inFile
    · obtain ⟨c, _, rfl⟩ := List.mem_map.mp later
      trivial
  by_cases same : positions t₁ = positions s₁
  · refine ⟨(.seek pos :: blocks.map Op.write) ++ [.write b], ?_, ?_⟩
    · intro op mem
      rcases List.mem_append.mp mem with early | late
      · exact legal op early
      · rw [List.mem_singleton.mp late]
        trivial
    · rw [perform_then reached written, perform_then reached' written']
      have positive := pieceLen_positive g
      have capacity := (bytesAvailable_bounds (first₂.inv.layout.ranges _
        (List.mem_of_mem_head? first₂.first)) (show 0 ≤ g.pieceLen by omega)).2
      have fewer := reveals.fewer
      have below := reveals.below
      have nonneg := reveals.nonneg
      simp only at capacity
      have bounds := writing_below_gap first nonneg (by omega) reveals.missing
      have sameW : t₁.absWPos = s₁.absWPos := congrArg Prod.snd same
      have more := (walk_first rest bounds.1 (by omega)
        (r := (fills.foldl Range.add (rangeOf s.slotList q)).add last) (by omega)).1
      have less := (walk_first rest' bounds.1 (by omega)
        (r := (fills.foldl Range.add (rangeOf t.slotList q)).add last) (by omega)).2 (by omega)
      rw [sameW] at walk'
      intro equal
      have final := congrArg Prod.snd (Except.ok.inj equal)
      simp only [positions] at final
      omega
  · refine ⟨_, legal, ?_⟩
    rw [perform_reached reached, perform_reached reached']
    exact fun equal => same (Except.ok.inj equal)

theorem settled_of_harmless [g.Counted] (inv : Inv g content s) {b : Block g}
    (again : AlreadyRecorded s b)
    (harmless : Harmless g content build s b) :
    Settled g.pieceLen (segmentOf b) (rangeOf s.slotList b.pieceIndex).segments ∧
      ¬ Lags g s b.pieceIndex := by
  obtain ⟨t, eq, same, lists, alike⟩ := harmless
  obtain ⟨slot, itr, found, index, written⟩ := duplicate_written build inv b again
  have inv' := write_inv inv b eq
  rw [written, Except.ok.injEq] at eq
  have consecutive := inv.layout.consecutive
  have mem := List.mem_of_getElem? found
  have range : rangeOf s.slotList b.pieceIndex = slot.2 := by
    rw [← index, rangeOf_mem consecutive mem]
  have range' : rangeOf t.slotList b.pieceIndex = slot.2.add (segmentOf b) := by
    rw [← eq, recordSlot_slotList]
    exact (rangeOf_set _ consecutive found _).trans (if_pos index.symm)
  have valid := inv.layout.ranges slot mem
  constructor
  · by_contra unsettled
    rw [range] at unsettled
    have covered : ∀ o, Inside (segmentOf b) o → Covered slot.2.segments o := by
      intro o inside
      rw [← range]
      exact (recorded_iff_rangeOf consecutive).mp (again o inside)
    have revealed := diverging_revealed (diverging_of_unsettled (segmentOf_nonempty b) valid.proper
      valid.ordered valid.within covered unsettled) valid.proper valid.ordered valid.within
    rcases revealed with fewer | ⟨fills, last, gap, reveals⟩
    · have inside := (List.getElem?_eq_some_iff.mp found).1
      have after : t.slotList[itr]? = some (slot.1, slot.2.add (segmentOf b)) := by
        rw [← eq, recordSlot_slotList]
        exact List.getElem?_set_self inside
      have here := congrArg (fun l => l[itr]?) lists
      simp only [List.getElem?_map, after, found, Option.map_some, available, Option.some.injEq,
        Prod.mk.injEq, true_and] at here
      exact absurd here (ne_of_lt fewer)
    · have listed := (layout_listed inv.layout).mp ⟨slot, mem, index⟩
      have shown : Reveals g.pieceLen (rangeOf s.slotList b.pieceIndex)
          (rangeOf t.slotList b.pieceIndex) fills last gap := by
        rw [range, range']
        exact reveals
      obtain ⟨ops, legal, differ⟩ := revealed_noticed build inv inv' listed shown
      exact differ (alike ops legal)
  · rw [← index, lags_iff inv.layout found, not_not]
    have walks := walk_congr (g := g) (map_drop_congr itr lists) s.absWPos
    have moved : t.absWPos = walk g s.absWPos (t.slotList.drop itr) := by
      rw [← eq]
      rfl
    rw [← walks, ← moved]
    exact congrArg Prod.snd same

/-- Writing recorded bytes again is harmless exactly if the duplicate is stored behind a
    barrier and the writing position does not lag behind the walk. -/
theorem redelivery_harmless_iff [g.Counted] (reach : Reachable (sequential g content build) s)
    (b : Block g)
    (again : AlreadyRecorded s b) :
    Harmless g content build s b ↔
      Settled g.pieceLen (segmentOf b) (rangeOf s.slotList b.pieceIndex).segments ∧
        ¬ Lags g s b.pieceIndex := by
  have inv := reachable_inv reach
  constructor
  · exact settled_of_harmless inv again
  · rintro ⟨settled, current⟩
    exact harmless_of_settled inv again settled current

theorem redelivery_harmless_whole_piece :
    ∃ s, Reachable (sequential threeBytes digits .release) s ∧
      AlreadyRecorded s (wholePiece 0) ∧ Harmless threeBytes digits .release s (wholePiece 0) := by
  have reach := freshStorage_replay .release [.write (wholePiece 0)] rfl
  have again : AlreadyRecorded (Option.get _ (show (replay (next threeBytes digits .release)
      freshStorage [.write (wholePiece 0)]).isSome from rfl)) (wholePiece 0) := by
    intro o inside
    exact ⟨(0, ⟨[(0, 2)]⟩), by decide, rfl, (0, 2), by decide, inside⟩
  refine ⟨_, reach, again, (redelivery_harmless_iff reach (wholePiece 0) again).mpr ⟨?_, ?_⟩⟩
  · exact ⟨[], (0, 2), [], rfl, by decide, Or.inl rfl⟩
  · rintro ⟨slot, mem, index, _, _, beyond⟩
    have listed : slot ∈ [((0, ⟨[(0, 2)]⟩) : Slot), (1, ⟨[]⟩)] := mem
    have piece : slot.1 = 1 := index
    have later : (2 : Int) < slot.1 * 2 + slot.2.bytesAvailable := beyond
    simp only [List.mem_cons, List.not_mem_nil, or_false] at listed
    rcases listed with rfl | rfl
    · exact absurd piece (by decide)
    · exact absurd later (by decide)

/-- The first byte of a piece is written twice and the second once: only the first counts. -/
theorem redelivery_of_first_byte_harms :
    ¬ ∀ (g : Geometry) (content : Content) (s : State) (b : Block g),
      Reachable (sequential g content .release) s → AlreadyRecorded s b →
        Harmless g content .release s b := by
  intro always
  have reach := freshStorage_replay .release [.write firstByte] rfl
  obtain ⟨t, eq, _, _, alike⟩ := always threeBytes digits _ firstByte reach fun o inside =>
    ⟨(0, ⟨[(0, 1)]⟩), by decide, rfl, (0, 1), by decide, inside⟩
  have twice : Option.get _ (show (replay (next threeBytes digits .release) freshStorage
      [.write firstByte, .write firstByte]).isSome from rfl) = t := Except.ok.inj eq
  subst twice
  have same : ((0, 1) : Int × Int) = (0, 2) := Except.ok.inj (ε := Fault)
    (alike [.write secondByte] (by simp [Op.InDomain]))
  exact absurd same (by decide)

end Redelivery
