import Mathlib.Data.List.Perm.Basic
import QtPlayer.Storage.WithheldBytes

/- Blocks that are written one after another, with no read or seek in between. What they leave
   behind is described by the set of the blocks, so their order does not matter. -/
namespace DeliveryOrder
open FlatPieceMemoryStorage StorageRange StorageGeometry StorageSlots StorageInvariant ReadPath
open HalfOpenSegments Streaming WithheldBytes TransitionRuns MachineGeometry
open MachineIntegers

variable {g : Geometry} {build : Build} {s t u : State}

structure Delivery (g : Geometry) where
  block : Block g
  bytes : List UInt8
  whole : bytes.length = block.len

namespace Delivery

def segment (d : Delivery g) : Segment Int := (d.block.offset, d.block.offset + d.block.len)

def pos (d : Delivery g) : Int := g.posInCacheByPiece d.block.pieceIndex + d.block.offset

end Delivery

def deliver (g : Geometry) (build : Build) (s : State) (d : Delivery g) : Except Fault State :=
  write g build s d.bytes d.block.len d.block.offset d.block.pieceIndex

def deliverAll (g : Geometry) (build : Build) (s : State) :
    List (Delivery g) → Except Fault State
  | [] => .ok s
  | d :: ds => deliver g build s d >>= fun t => deliverAll g build t ds

def Apart (d e : Delivery g) : Prop :=
  d.block.pieceIndex = e.block.pieceIndex → ∀ o, Inside d.segment o → ¬ Inside e.segment o

inductive Call (g : Geometry) where
  | write (d : Delivery g)
  | read (len : Nat)
  | seek (pos : Nat)

/-- Writes that overlap no recorded byte of a listed slot, reads, and seeks to some positions. -/
def storing (g : Geometry) (build : Build) (sought : Nat → Prop) : System State (Call g) where
  start s := ∃ memory, opened g build memory = .ok s
  step
    | s, .write d, t => Fresh g s d.block ∧ deliver g build s d = .ok t
    | s, .read len, t => ∃ buf n, read g build s len = .ok (t, buf, n)
    | s, .seek pos, t => sought pos ∧ seek g build s pos = .ok t

/-- The piece of the position has an int for its index. -/
def HasPiece (g : Geometry) (pos : Nat) : Prop := (pos + g.fOffset) / g.pieceLen ≤ INT_MAX

/-- Disjoint blocks with fresh bytes leave the same writing position, ranges and cache in
    whatever order they are written. -/
def OrderFree (g : Geometry) (build : Build) (sought : Nat → Prop) : Prop :=
  ∀ s (ds es : List (Delivery g)), Reachable (storing g build sought) s → ds.Perm es →
    ds.Pairwise Apart → (∀ d ∈ ds, Fresh g s d.block) →
      ∃ t u, deliverAll g build s ds = .ok t ∧ deliverAll g build s es = .ok u ∧
        t.absWPos = u.absWPos ∧ t.slotList = u.slotList ∧ t.buffer = u.buffer

/- One block. -/

/-- What every state of such a run satisfies, whatever bytes were written. -/
structure Shaped (g : Geometry) (s : State) : Prop where
  layout : Layout g s
  behind : Behind g s
  idle : s.updatingBuffer = false
  separated : AllSeparated s

def placed (s : State) (d : Delivery g) : State :=
  { s with buffer := store s.buffer d.pos d.bytes, updatingBuffer := true }

inductive DeliverResult (s : State) (d : Delivery g) : State → Prop where
  | recorded (slot : Slot) (itr : Nat) (found : s.slotList[itr]? = some slot)
      (index : slot.1 = d.block.pieceIndex) :
      DeliverResult s d (recordSlot g (placed s d) itr slot d.segment)
  | skipped (absent : ∀ slot ∈ s.slotList, slot.1 ≠ d.block.pieceIndex) :
      DeliverResult s d
        (s.emit (.pieceOutOfRangeReceived d.block.len d.block.offset d.block.pieceIndex))

theorem segment_nonempty (d : Delivery g) : d.segment.1 < d.segment.2 := by
  have := d.block.len_pos
  change d.block.offset < d.block.offset + d.block.len
  omega

theorem copyIn_bytes {buffer : Int → UInt8} {d : Delivery g}
    (after : g.firstPiece ≤ d.block.pieceIndex) :
    copyIn g buffer d.pos d.bytes d.block.len = .ok (store buffer d.pos d.bytes) := by
  obtain ⟨low, high⟩ := block_region d.block after
  have positive := d.block.len_pos
  have whole := d.whole
  have bytes : d.bytes.take d.block.len.toNat = d.bytes := by
    apply List.take_of_length_le
    omega
  unfold copyIn
  rw [if_pos ⟨by omega, by omega, low, high⟩, bytes]

theorem deliver_result [g.Counted] (build : Build) (layout : Layout g s) (d : Delivery g) :
    ∃ t, deliver g build s d = .ok t ∧ DeliverResult s d t := by
  by_cases listed : ∃ slot ∈ s.slotList, slot.1 = d.block.pieceIndex
  · obtain ⟨slot, mem, index⟩ := listed
    have found := (findSlot_listed layout.consecutive mem index).2
    have after := listed_after_first layout mem
    rw [index] at after
    refine ⟨_, ?_, .recorded slot _ found index⟩
    have low := d.block.len_pos
    have high := d.block.inside
    simp only [deliver, write, writeBegin_listed build layout mem index d.block.offset_nonneg
      (show d.block.offset < g.pieceLen by omega), ok_bind]
    change (copyIn g s.buffer d.pos d.bytes d.block.len >>= _) = _
    rw [copyIn_bytes after, ok_bind]
    exact writeEnd_eq build (s := placed s d) { layout with } found d.block.offset_nonneg low high
  · have absent : ∀ slot ∈ s.slotList, slot.1 ≠ d.block.pieceIndex :=
      fun slot mem index => listed ⟨slot, mem, index⟩
    exact ⟨_, write_unlisted build layout _ _ _ absent, .skipped absent⟩

theorem deliver_ok [g.Counted] (layout : Layout g s) {d : Delivery g}
    (eq : deliver g build s d = .ok t) :
    DeliverResult s d t := by
  obtain ⟨u, eq', result⟩ := deliver_result build layout d
  rw [eq, Except.ok.injEq] at eq'
  exact eq' ▸ result

theorem placed_layout (layout : Layout g s) (d : Delivery g) : Layout g (placed s d) :=
  { layout with }

theorem placed_behind (behind : Behind g s) (d : Delivery g) : Behind g (placed s d) :=
  { behind with }

theorem result_shaped [g.Counted] (shaped : Shaped g s) {d : Delivery g} (fresh : Fresh g s d.block)
    (result : DeliverResult s d t) : Shaped g t := by
  have layout := placed_layout shaped.layout d
  cases result with
  | recorded slot itr found index =>
    have nonempty := segment_nonempty d
    constructor
    · exact recordSlot_layout layout found d.block.offset_nonneg nonempty d.block.inside
    · exact recordSlot_behind layout (placed_behind shaped.behind d) found d.block.offset_nonneg
        nonempty d.block.inside
    · rfl
    · apply recordSlot_separated layout.ranges shaped.separated found nonempty
      intro o covered inside
      exact fresh o inside ⟨slot, List.mem_of_getElem? found, index, covered⟩
  | skipped absent =>
    exact ⟨{ shaped.layout with }, { shaped.behind with }, shaped.idle, shaped.separated⟩

theorem result_absRPos {d : Delivery g} (result : DeliverResult s d t) :
    t.absRPos = s.absRPos := by
  cases result <;> rfl

theorem result_recorded (layout : Layout g s) {d : Delivery g} (result : DeliverResult s d t)
    (p o : Int) : Recorded t.slotList p o ↔ Recorded s.slotList p o ∨
      (d.block.pieceIndex ∈ window g (s.absRPos / g.pieceLen) ∧ p = d.block.pieceIndex ∧
        Inside d.segment o) := by
  cases result with
  | recorded slot itr found index =>
    have listed := (layout_listed layout).mp ⟨slot, List.mem_of_getElem? found, index⟩
    rw [recordSlot_recorded (placed_layout layout d) found (segment_nonempty d), index]
    simp only [listed, true_and]
    rfl
  | skipped absent =>
    have unlisted : d.block.pieceIndex ∉ window g (s.absRPos / g.pieceLen) := by
      intro listed
      obtain ⟨slot, mem, index⟩ := (layout_listed layout).mpr listed
      exact absent slot mem index
    simp only [unlisted, false_and, or_false]
    rfl

def place (g : Geometry) (k : Int) (buffer : Int → UInt8) (d : Delivery g) : Int → UInt8 :=
  if d.block.pieceIndex ∈ window g k then store buffer d.pos d.bytes else buffer

theorem result_buffer (layout : Layout g s) {d : Delivery g} (result : DeliverResult s d t) :
    t.buffer = place g (s.absRPos / g.pieceLen) s.buffer d := by
  unfold place
  cases result with
  | recorded slot itr found index =>
    rw [if_pos ((layout_listed layout).mp ⟨slot, List.mem_of_getElem? found, index⟩)]
    rfl
  | skipped absent =>
    rw [if_neg]
    · rfl
    · intro listed
      obtain ⟨slot, mem, index⟩ := (layout_listed layout).mpr listed
      exact absent slot mem index

theorem result_gap [g.Counted] (shaped : Shaped g s) {d : Delivery g} (fresh : Fresh g s d.block)
    (result : DeliverResult s d t)
    (before : Gap g s ∨ d.block.pieceIndex = s.absWPos / g.pieceLen) : Gap g t := by
  have layout := placed_layout shaped.layout d
  have behind := placed_behind shaped.behind d
  cases result with
  | recorded slot itr found index =>
    have fresh' : ∀ o, Inside d.segment o → ¬ Recorded (placed s d).slotList slot.1 o := by
      rw [index]
      exact fresh
    rcases before with gap | here
    · exact recordSlot_gap layout behind shaped.separated gap found d.block.offset_nonneg
        (segment_nonempty d) d.block.inside fresh'
    · exact recordSlot_gap_at layout behind shaped.separated found d.block.offset_nonneg
        (segment_nonempty d) d.block.inside fresh' (here.symm.trans index.symm)
  | skipped absent =>
    rcases before with gap | here
    · exact gap
    · rintro ⟨slot, mem, index, _⟩
      exact absent slot mem (index.trans here.symm)

theorem result_stays [g.Counted] (shaped : Shaped g s) {d : Delivery g} (fresh : Fresh g s d.block)
    (result : DeliverResult s d t) (elsewhere : d.block.pieceIndex ≠ s.absWPos / g.pieceLen) :
    t.absWPos = s.absWPos := by
  cases result with
  | recorded slot itr found index =>
    have layout := placed_layout shaped.layout d
    have fresh' : ∀ o, Inside d.segment o → ¬ Recorded (placed s d).slotList slot.1 o := by
      rw [index]
      exact fresh
    have notBefore := recordSlot_not_before layout (placed_behind shaped.behind d) found
      d.block.offset_nonneg (segment_nonempty d) d.block.inside fresh'
    apply recordSlot_beyond layout found
    exact lt_of_le_of_ne notBefore fun same => elsewhere (index.symm.trans same.symm)
  | skipped absent => rfl

/- A list of blocks. -/

/-- What a list of blocks leaves behind, told without its order. -/
structure After (g : Geometry) (s : State) (ds : List (Delivery g)) (t : State) : Prop where
  shaped : Shaped g t
  absRPos : t.absRPos = s.absRPos
  recorded : ∀ p o, Recorded t.slotList p o ↔ Recorded s.slotList p o ∨
    ∃ d ∈ ds, d.block.pieceIndex ∈ window g (s.absRPos / g.pieceLen) ∧
      p = d.block.pieceIndex ∧ Inside d.segment o
  buffer : t.buffer = ds.foldl (place g (s.absRPos / g.pieceLen)) s.buffer
  reached : (Gap g s ∨ ∃ d ∈ ds, d.block.pieceIndex = s.absWPos / g.pieceLen) → Gap g t
  stayed : (∀ d ∈ ds, d.block.pieceIndex ≠ s.absWPos / g.pieceLen) → t.absWPos = s.absWPos

theorem after_nil (shaped : Shaped g s) : After g s [] s where
  shaped := shaped
  absRPos := rfl
  recorded := by simp
  buffer := rfl
  reached := by simp
  stayed := fun _ => rfl

theorem after_cons [g.Counted] (shaped : Shaped g s) {d : Delivery g} {ds : List (Delivery g)}
    (fresh : Fresh g s d.block) (result : DeliverResult s d u) (after : After g u ds t) :
    After g s (d :: ds) t := by
  have absRPos := result_absRPos result
  have window := after.recorded
  have buffer := after.buffer
  rw [absRPos] at window buffer
  refine ⟨after.shaped, after.absRPos.trans absRPos, ?_, ?_, ?_, ?_⟩
  · intro p o
    rw [window, result_recorded shaped.layout result, or_assoc]
    simp only [List.mem_cons, exists_eq_or_imp]
  · rw [buffer, result_buffer shaped.layout result, List.foldl_cons]
  · intro before
    by_cases here : d.block.pieceIndex = s.absWPos / g.pieceLen
    · exact after.reached (Or.inl (result_gap shaped fresh result (Or.inr here)))
    · rcases before with gap | ⟨e, mem, index⟩
      · exact after.reached (Or.inl (result_gap shaped fresh result (Or.inl gap)))
      · rcases List.mem_cons.mp mem with same | later
        · exact (here (same ▸ index)).elim
        · rw [← result_stays shaped fresh result here] at index
          exact after.reached (Or.inr ⟨e, later, index⟩)
  · intro elsewhere
    have stays := result_stays shaped fresh result (elsewhere d (by simp))
    rw [after.stayed, stays]
    intro e mem
    rw [stays]
    exact elsewhere e (by simp [mem])

theorem fresh_after (layout : Layout g s) {d e : Delivery g} (apart : Apart d e)
    (fresh : Fresh g s e.block) (result : DeliverResult s d t) : Fresh g t e.block := by
  intro o inside recorded
  rcases (result_recorded layout result _ _).mp recorded with old | ⟨_, index, inside'⟩
  · exact fresh o inside old
  · exact apart index.symm o inside' inside

theorem deliverAll_after [g.Counted] (build : Build) {ds : List (Delivery g)} (shaped : Shaped g s)
    (disjoint : ds.Pairwise Apart) (fresh : ∀ d ∈ ds, Fresh g s d.block) :
    ∃ t, deliverAll g build s ds = .ok t ∧ After g s ds t := by
  induction ds generalizing s with
  | nil => exact ⟨s, rfl, after_nil shaped⟩
  | cons d ds ih =>
    obtain ⟨first, rest⟩ := List.pairwise_cons.mp disjoint
    have freshHere := fresh d (by simp)
    obtain ⟨u, eq, result⟩ := deliver_result build shaped.layout d
    have later : ∀ e ∈ ds, Fresh g u e.block := fun e mem =>
      fresh_after shaped.layout (first e mem) (fresh e (by simp [mem])) result
    obtain ⟨t, eq', after⟩ := ih (result_shaped shaped freshHere result) rest later
    refine ⟨t, ?_, after_cons shaped freshHere result after⟩
    rw [deliverAll, eq, ok_bind, eq']

/- The order of the list. -/

theorem store_comm {buffer : Int → UInt8} {a b : Int} {xs ys : List UInt8}
    (apart : ∀ i, a ≤ i ∧ i < a + xs.length → ¬ (b ≤ i ∧ i < b + ys.length)) :
    store (store buffer a xs) b ys = store (store buffer b ys) a xs := by
  funext i
  unfold store
  by_cases first : a ≤ i ∧ i < a + xs.length
  · rw [if_neg (apart i first), if_pos first, if_pos first]
  · rw [if_neg first, if_neg first]

theorem place_comm {k : Int} (after : g.firstPiece ≤ k) {d e : Delivery g} (apart : Apart d e)
    (buffer : Int → UInt8) :
    place g k (place g k buffer d) e = place g k (place g k buffer e) d := by
  unfold place
  by_cases listed : d.block.pieceIndex ∈ window g k
  · by_cases listed' : e.block.pieceIndex ∈ window g k
    · simp only [if_pos listed, if_pos listed']
      apply store_comm
      intro i here there
      have bounds := mem_window.mp listed
      have bounds' := mem_window.mp listed'
      have low := d.block.offset_nonneg
      have high := d.block.inside
      have low' := e.block.offset_nonneg
      have high' := e.block.inside
      rw [d.whole] at here
      rw [e.whole] at there
      unfold Delivery.pos at here there
      obtain ⟨same, offset⟩ := posInCacheByPiece_disjoint g
        (show g.firstPiece ≤ d.block.pieceIndex by omega)
        (show g.firstPiece ≤ e.block.pieceIndex by omega)
        (o := i - g.posInCacheByPiece d.block.pieceIndex)
        (r := i - g.posInCacheByPiece e.block.pieceIndex)
        (by omega) (by omega) (by omega) (by omega) (by omega) (by omega) (by omega)
      refine apart same (i - g.posInCacheByPiece d.block.pieceIndex) ⟨?_, ?_⟩ ⟨?_, ?_⟩
      · change d.block.offset ≤ _
        omega
      · change _ < d.block.offset + d.block.len
        omega
      · change e.block.offset ≤ _
        omega
      · change _ < e.block.offset + e.block.len
        omega
    · simp only [if_neg listed']
  · simp only [if_neg listed]

instance : Std.Symm (Apart (g := g)) where
  symm _ _ apart index o inside inside' := apart index.symm o inside' inside

theorem places_perm {k : Int} (after : g.firstPiece ≤ k) {ds es : List (Delivery g)}
    (perm : ds.Perm es) (disjoint : ds.Pairwise Apart) (buffer : Int → UInt8) :
    ds.foldl (place g k) buffer = es.foldl (place g k) buffer := by
  apply perm.foldl_eq'
  intro d mem e mem' buffer
  by_cases same : d = e
  · rw [same]
  · exact place_comm after (disjoint.forall mem mem' same) buffer

theorem rangeOf_valid (layout : Layout g s) (separated : AllSeparated s) (p : Int) :
    Proper (rangeOf s.slotList p).segments ∧ Separated (rangeOf s.slotList p).segments := by
  by_cases present : ∃ slot ∈ s.slotList, slot.1 = p
  · obtain ⟨slot, mem, rfl⟩ := present
    rw [rangeOf_mem layout.consecutive mem]
    exact ⟨(layout.ranges slot mem).proper, separated slot mem⟩
  · rw [rangeOf_not_mem fun slot mem same => present ⟨slot, mem, same⟩]
    have empty : (Range.empty : Range Int).Valid 0 := empty_valid
    exact ⟨empty.proper, List.isChain_nil⟩

/-- The ranges of two windows are equal as soon as they record the same bytes. -/
theorem slotList_ext (shaped : Shaped g s) (shaped' : Shaped g t) (absRPos : s.absRPos = t.absRPos)
    (same : ∀ p o, Recorded s.slotList p o ↔ Recorded t.slotList p o) :
    s.slotList = t.slotList := by
  have ranges : ∀ p, rangeOf s.slotList p = rangeOf t.slotList p := by
    intro p
    obtain ⟨proper, separated⟩ := rangeOf_valid shaped.layout shaped.separated p
    obtain ⟨proper', separated'⟩ := rangeOf_valid shaped'.layout shaped'.separated p
    have segments := separated_ext proper separated proper' separated' fun o => by
      rw [← recorded_iff_rangeOf shaped.layout.consecutive,
        ← recorded_iff_rangeOf shaped'.layout.consecutive, same]
    exact congrArg Range.mk segments
  calc s.slotList = keptWindow g s.slotList (s.absRPos / g.pieceLen) :=
        (keptWindow_self shaped.layout.consecutive shaped.layout.length).symm
    _ = keptWindow g t.slotList (t.absRPos / g.pieceLen) := by
        simp only [keptWindow, ranges, absRPos]
    _ = t.slotList := keptWindow_self shaped'.layout.consecutive shaped'.layout.length

theorem absWPos_unique [g.Counted] (shaped : Shaped g s) (shaped' : Shaped g t)
    (absRPos : s.absRPos = t.absRPos) (slotList : s.slotList = t.slotList) (gap : Gap g s)
    (gap' : Gap g t) : s.absWPos = t.absWPos := by
  have recorded := shaped.behind.recorded
  have recorded' := shaped'.behind.recorded
  rw [slotList] at recorded
  rw [← absRPos] at recorded'
  have gapHere : ¬ RecordedAt g t.slotList s.absWPos := slotList ▸ gap
  exact run_end_unique shaped.behind.start (absRPos ▸ shaped'.behind.start) recorded recorded'
    gapHere gap'

theorem after_perm [g.Counted] {ds es : List (Delivery g)} (shaped : Shaped g s) (perm : ds.Perm es)
    (disjoint : ds.Pairwise Apart) (after : After g s ds t) (after' : After g s es u) :
    t.absWPos = u.absWPos ∧ t.slotList = u.slotList ∧ t.buffer = u.buffer := by
  have absRPos := after.absRPos.trans after'.absRPos.symm
  have slotList : t.slotList = u.slotList := by
    apply slotList_ext after.shaped after'.shaped absRPos
    intro p o
    simp only [after.recorded, after'.recorded, perm.mem_iff]
  refine ⟨?_, slotList, ?_⟩
  · by_cases moves : Gap g s ∨ ∃ d ∈ ds, d.block.pieceIndex = s.absWPos / g.pieceLen
    · have moves' := moves
      simp only [perm.mem_iff] at moves'
      exact absWPos_unique after.shaped after'.shaped absRPos slotList (after.reached moves)
        (after'.reached moves')
    · have elsewhere : ∀ d ∈ ds, d.block.pieceIndex ≠ s.absWPos / g.pieceLen :=
        fun d mem index => moves (Or.inr ⟨d, mem, index⟩)
      rw [after.stayed elsewhere, after'.stayed fun d mem => elsewhere d (perm.mem_iff.mpr mem)]
  · rw [after.buffer, after'.buffer]
    exact places_perm (window_start_bound shaped.layout) perm disjoint _

/- Reads and seeks, whatever bytes the cache holds. -/

theorem shaped_inv (shaped : Shaped g s) : Inv g (fun x => s.buffer (cacheCell g x)) s where
  layout := shaped.layout
  cached := by
    intro p o recorded
    obtain ⟨_, after, low, high⟩ := recorded_bounds shaped.layout recorded
    rw [posInCacheByPiece_add g after low high]
  behind := shaped.behind
  idle := shaped.idle

theorem reposition_shaped [g.Counted] {content : Content} {r w : Int} (shaped : Shaped g s)
    (inv : Inv g content (reposition g s r w)) : Shaped g (reposition g s r w) where
  layout := inv.layout
  behind := inv.behind
  idle := inv.idle
  separated := reposition_separated (layout_windowed shaped.layout) shaped.separated

theorem copyOut_nonneg {pos n : Int} {cells : List Int} (eq : copyOut g pos n = .ok cells) :
    0 ≤ n := by
  unfold copyOut at eq
  split at eq
  · rename_i bounds
    exact bounds.1
  · cases eq

theorem readCells_nothing {len : Nat} {r w n : Int} {cells : List Int} (low : 0 ≤ r)
    (inside : r < g.cacheSize) (negative : toInt len ≤ 0)
    (eq : readCells g build len r w = .ok (cells, n)) : n = 0 := by
  have toEnd : int (g.cacheSize - r) = g.cacheSize - r :=
    int_of_fits (by omega) (by have size : g.cacheSize ≤ INT_MAX := g.cacheSize_fits; omega)
  have path : int (w - r) > 0 ∨ g.cacheSize - r > toInt len := Or.inr (by omega)
  simp only [readCells, toEnd, if_pos path] at eq
  obtain ⟨_, _, eq⟩ := bind_ok eq
  obtain ⟨_, _, eq⟩ := bind_ok eq
  obtain ⟨_, copied, eq⟩ := bind_ok eq
  have amount := copyOut_nonneg copied
  rw [ok_bind] at eq
  obtain ⟨_, _, eq⟩ := bind_ok eq
  obtain ⟨_, _, eq⟩ := bind_ok eq
  simp only [Except.ok.injEq, Prod.mk.injEq] at eq
  omega

theorem read_narrowed {len len' : Nat} (same : toInt len = toInt len') :
    read g build s len = read g build s len' := by
  simp only [FlatPieceMemoryStorage.read, readStart, readCells, same]

theorem toInt_le (len : Nat) : toInt len ≤ INT_MAX := by
  have fits := (fits_wrap 31 len).2
  unfold toInt INT_MAX
  omega

theorem read_moves [g.Counted] (shaped : Shaped g s) {len : Nat} {buf : List UInt8} {n : Int}
    (eq : read g build s len = .ok (t, buf, n)) :
    0 ≤ n ∧ s.absRPos + n ≤ s.absWPos ∧ t = reposition g s (s.absRPos + n) s.absWPos := by
  have inv := shaped_inv shaped
  have issued : s.absRPos < s.absWPos := by
    by_contra blocked
    rw [FlatPieceMemoryStorage.read, if_pos (by omega)] at eq
    cases eq
  by_cases positive : 0 < toInt len
  · have back : ((toInt len).toNat : Int) = toInt len := by omega
    have fits : ((toInt len).toNat : Int) ≤ INT_MAX := by
      rw [back]
      exact toInt_le len
    rw [read_narrowed (back.symm.trans (toInt_of_fits fits).symm)] at eq
    have result := read_result inv issued (by omega) fits eq
    simp only [Prod.mk.injEq] at result
    obtain ⟨rfl, _, rfl⟩ := result
    have bounds := readLength_bounds issued (show 1 ≤ (toInt len).toNat by omega)
    exact ⟨by omega, bounds.2.2, rfl⟩
  · have ready : ¬ s.absRPos ≥ s.absWPos := by omega
    simp only [FlatPieceMemoryStorage.read, ready, ↓reduceIte, readStart,
      readBegin_eq build inv.layout issued, ok_bind] at eq
    obtain ⟨⟨cells, n'⟩, copied, eq⟩ := bind_ok eq
    have bounds := cacheCell_bounds g s.absRPos
    have none := readCells_nothing bounds.1 bounds.2 (by omega) copied
    subst none
    rw [readEnd_eq build shaped.layout (Int.le_refl 0) (by omega), ok_bind, Except.ok.injEq,
      Prod.mk.injEq, Prod.mk.injEq] at eq
    obtain ⟨rfl, _, rfl⟩ := eq
    exact ⟨Int.le_refl 0, by omega, rfl⟩

theorem step_shaped [g.Counted] (s : State) (call : Call g) (t : State) (shaped : Shaped g s)
    (taken : (storing g build (HasPiece g)).step s call t) : Shaped g t := by
  cases call with
  | write d =>
    obtain ⟨fresh, eq⟩ := taken
    exact result_shaped shaped fresh (deliver_ok shaped.layout eq)
  | read len =>
    obtain ⟨_, n, eq⟩ := taken
    obtain ⟨nonneg, atMost, rfl⟩ := read_moves shaped eq
    exact reposition_shaped shaped (forward_inv (shaped_inv shaped) nonneg atMost)
  | seek pos =>
    obtain ⟨counted, eq⟩ := taken
    have inv := seek_inv (shaped_inv shaped) counted eq
    rw [seek_eq build shaped.layout shaped.idle counted, Except.ok.injEq] at eq
    subst eq
    exact reposition_shaped shaped inv

theorem opened_shaped [g.Counted] (initial : (storing g build (HasPiece g)).start s) :
    Shaped g s := by
  obtain ⟨memory, eq⟩ := initial
  have inv := opened_inv (fun _ => 0) eq
  rw [opened_eq, Except.ok.injEq] at eq
  subst eq
  refine ⟨inv.layout, inv.behind, inv.idle, ?_⟩
  exact reposition_separated (empty_windowed g 0) (by simp [AllSeparated, construct])

theorem reachable_shaped [g.Counted] (reach : Reachable (storing g build (HasPiece g)) s) :
    Shaped g s :=
  reachable_invariant (fun _ => opened_shaped) step_shaped reach

/-- The order in which blocks are written does not matter while every seek goes to a piece with
    an int for its index. -/
theorem order_does_not_matter [g.Counted] : OrderFree g build (HasPiece g) := by
  intro s ds es reach perm disjoint fresh
  have shaped := reachable_shaped reach
  obtain ⟨t, eq, after⟩ := deliverAll_after build shaped disjoint fresh
  obtain ⟨u, eq', after'⟩ := deliverAll_after build shaped
    (perm.pairwise disjoint (fun apart => Std.Symm.symm _ _ apart))
    (fun d mem => fresh d (perm.mem_iff.mpr mem))
  exact ⟨t, u, eq, eq', after_perm shaped perm disjoint after after'⟩

def firstHalf : Delivery threeBytes := ⟨firstByte, [7], rfl⟩
def secondHalf : Delivery threeBytes := ⟨secondByte, [8], rfl⟩

theorem halves_in_either_order : ∃ t u,
    deliverAll threeBytes .debug freshStorage [firstHalf, secondHalf] = .ok t ∧
    deliverAll threeBytes .debug freshStorage [secondHalf, firstHalf] = .ok u ∧
    t.absWPos = u.absWPos ∧ t.slotList = u.slotList ∧ t.buffer = u.buffer := by
  have opening : opened threeBytes .debug (fun _ => 0) = .ok freshStorage := opened_eq .debug _
  have nothing := opened_nothing_recorded opening
  have apart : Apart firstHalf secondHalf := by
    rintro _ o ⟨_, below⟩ ⟨above, _⟩
    exact absurd (lt_of_le_of_lt above below) (by decide)
  refine order_does_not_matter _ _ _ (.start ⟨_, opening⟩) (.swap _ _ _) ?_ ?_
  · exact List.pairwise_pair.mpr apart
  · exact fun _ _ o _ recorded => nothing _ o recorded

/-- A file whose first piece is the first that no int counts. -/
def farBytes : Geometry where
  pieceLen := 2
  cacheSizeInPieces := 1
  fOffset := 4294967296
  fSize := 2
  pieceLen_pos := threeBytes.pieceLen_pos
  cacheSizeInPieces_pos := lastByte.cacheSizeInPieces_pos
  cacheSize_fits := by decide
  fOffset_nonneg := by decide
  fSize_pos := threeBytes.pieceLen_pos

def farStorage : State :=
  { construct farBytes fun _ => 0 with
    slotList := [(-2147483648, Range.empty)]
    emitted := [.piecesRequested [-2147483648]] }

def nearBytes : Geometry :=
  { farBytes with
    fOffset := 0
    fOffset_nonneg := threeBytes.fOffset_nonneg }

def nearStorage : State :=
  { construct nearBytes fun _ => 0 with
    slotList := [(0, Range.empty)]
    emitted := [.piecesRequested [0]] }

/-- After seek(2^64 - 4), which goes to four bytes in front of the file. -/
def soughtBack : State :=
  { nearStorage with
    absRPos := -4
    absWPos := -4
    slotList := [(-2, Range.empty)]
    emitted := nearStorage.emitted ++ [.piecesRequested [-2]] }

theorem halves_inside (two : g.pieceLen = 2) :
    (0 : Int) + 1 ≤ g.pieceLen ∧ (1 : Int) + 1 ≤ g.pieceLen := by
  omega

def lowerHalf (two : g.pieceLen = 2) (pieceIndex : Int) : Delivery g :=
  ⟨⟨pieceIndex, 0, 1, firstByte.offset_nonneg, firstByte.len_pos, (halves_inside two).1⟩,
    [7], firstHalf.whole⟩

def upperHalf (two : g.pieceLen = 2) (pieceIndex : Int) : Delivery g :=
  ⟨⟨pieceIndex, 1, 1, secondByte.offset_nonneg, secondByte.len_pos, (halves_inside two).2⟩,
    [8], secondHalf.whole⟩

theorem halves_apart (two : g.pieceLen = 2) (pieceIndex : Int) :
    Apart (lowerHalf two pieceIndex) (upperHalf two pieceIndex) := by
  rintro _ o ⟨_, below⟩ ⟨above, _⟩
  have low : o < 0 + 1 := below
  have high : 1 ≤ o := above
  omega

theorem not_orderFree {sought : Nat → Prop} (reach : Reachable (storing g build sought) s)
    {d e : Delivery g} (apart : Apart d e) (fresh : ∀ f ∈ [d, e], Fresh g s f.block)
    (first : deliverAll g build s [d, e] = .ok t) (second : deliverAll g build s [e, d] = .ok u)
    (differ : t.absWPos ≠ u.absWPos) : ¬ OrderFree g build sought := by
  intro free
  obtain ⟨t', u', eq, eq', same, _⟩ :=
    free s [d, e] [e, d] reach (.swap _ _ _) (List.pairwise_pair.mpr apart) fresh
  rw [first, Except.ok.injEq] at eq
  rw [second, Except.ok.injEq] at eq'
  rw [eq, eq'] at differ
  exact differ same

theorem fresh_of_empty (empty : ∀ slot ∈ s.slotList, slot.2 = Range.empty) (b : Block g) :
    Fresh g s b := by
  rintro o _ ⟨slot, mem, _, covered⟩
  rw [empty slot mem] at covered
  exact covered_nil o covered

/-- The piece of a negative position is rounded towards zero, so the second byte is counted only
    if it comes first: where no int counts the pieces of the file, and where a seek leaves it. -/
theorem order_matters_below_zero : ¬ OrderFree farBytes .release (fun _ => True) ∧
    ¬ OrderFree nearBytes .release (fun _ => True) := by
  constructor
  · have start : (storing farBytes .release fun _ => True).start farStorage := ⟨fun _ => 0, rfl⟩
    exact not_orderFree (.start start) (halves_apart rfl (-2147483648))
      (fun f _ => fresh_of_empty (by decide) f.block) rfl rfl (by decide)
  · have start : (storing nearBytes .release fun _ => True).start nearStorage := ⟨fun _ => 0, rfl⟩
    have taken : (storing nearBytes .release fun _ => True).step nearStorage
      (.seek (2 ^ 64 - 4)) soughtBack := ⟨trivial, rfl⟩
    exact not_orderFree (.step (.start start) taken) (halves_apart rfl (-2))
      (fun f _ => fresh_of_empty (by decide) f.block) rfl rfl (by decide)

end DeliveryOrder
