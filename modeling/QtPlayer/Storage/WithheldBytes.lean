import QtPlayer.Storage.Streaming

/- Whether the writing position is as far as the recorded bytes allow. Read and write keep it
   there; seek puts it back to the start of the new piece even if the slot already holds
   bytes. -/
namespace WithheldBytes
open FlatPieceMemoryStorage StorageRange StorageGeometry StorageSlots StorageInvariant ReadPath
open HalfOpenSegments Streaming TransitionRuns

variable {g : Geometry} {content : Content} {build : Build} {s t : State}

/-- The walk over full slots, then over what the first slot that is not full has available. -/
def runEnd (g : Geometry) : Int → List Slot → Int
  | start, [] => start
  | _, slot :: rest =>
    if slot.2.bytesAvailable < g.pieceLen then g.pieceAbsPos slot.1 + slot.2.bytesAvailable
    else runEnd g (g.pieceAbsPos (slot.1 + 1)) rest

def AllSeparated (s : State) : Prop := ∀ slot ∈ s.slotList, Separated slot.2.segments

def Gap (g : Geometry) (s : State) : Prop := ¬ RecordedAt g s.slotList s.absWPos

/-- The writing position is the end of the longest run of recorded bytes that starts at the
    first byte of the first slot; a reader whose byte lies in that run does not wait. -/
structure Complete (g : Geometry) (s : State) (first : Slot) : Prop where
  walk : s.absWPos = runEnd g (g.pieceAbsPos first.1) s.slotList
  recorded : ∀ x, g.pieceAbsPos first.1 ≤ x → x < s.absWPos → RecordedAt g s.slotList x
  gap : ¬ RecordedAt g s.slotList s.absWPos
  ready : (∀ x, g.pieceAbsPos first.1 ≤ x → x ≤ s.absRPos → RecordedAt g s.slotList x) →
    s.absRPos < s.absWPos

def NothingWithheld (g : Geometry) (s : State) : Prop :=
  ∀ first, s.slotList.head? = some first → Complete g s first

/- The walk. -/

theorem recordedAt_head {k x : Int} {slot : Slot} {rest : List Slot}
    (consecutive : Consecutive k (slot :: rest)) (low : g.pieceAbsPos k ≤ x)
    (high : x < g.pieceAbsPos k + g.pieceLen) :
    RecordedAt g (slot :: rest) x ↔ Covered slot.2.segments (x - g.pieceAbsPos k) := by
  have piece : x / g.pieceLen = k := (piece_eq_iff g).mpr ⟨low, high⟩
  simp only [RecordedAt, Recorded, piece]
  constructor
  · rintro ⟨other, mem, index, covered⟩
    rcases List.mem_cons.mp mem with same | later
    · rwa [same] at covered
    · have := consecutive_mem consecutive.2 later
      omega
  · exact fun covered => ⟨slot, by simp, consecutive.1, covered⟩

theorem recordedAt_tail {k x : Int} {slot : Slot} {rest : List Slot}
    (consecutive : Consecutive k (slot :: rest)) (low : g.pieceAbsPos (k + 1) ≤ x) :
    RecordedAt g (slot :: rest) x ↔ RecordedAt g rest x := by
  have piece := piece_mono g low
  rw [piece_of_pieceAbsPos] at piece
  have index := consecutive.1
  simp only [RecordedAt, Recorded, List.mem_cons, exists_eq_or_imp, or_iff_right_iff_imp]
  omega

theorem recordedAt_drop {k x : Int} {slots : List Slot} (consecutive : Consecutive k slots)
    (n : Nat) (low : g.pieceAbsPos (k + n) ≤ x) :
    RecordedAt g (slots.drop n) x ↔ RecordedAt g slots x := by
  induction n generalizing k slots with
  | zero => simp
  | succ n ih =>
    cases slots with
    | nil => simp
    | cons slot rest =>
      rw [List.drop_succ_cons, recordedAt_tail consecutive, ih consecutive.2]
      · rwa [show k + 1 + (n : Int) = k + (n + 1 : Nat) by omega]
      · exact Int.le_trans (pieceAbsPos_mono g (by omega)) low

theorem runEnd_start {k : Int} {slots : List Slot} (consecutive : Consecutive k slots)
    (ranges : ∀ slot ∈ slots, slot.2.Valid g.pieceLen) :
    g.pieceAbsPos k ≤ runEnd g (g.pieceAbsPos k) slots := by
  induction slots generalizing k with
  | nil => exact Int.le_refl _
  | cons slot rest ih =>
    have positive := pieceLen_positive g
    have available := bytesAvailable_bounds (ranges slot (by simp)) (by omega)
    simp only [runEnd, consecutive.1]
    split
    · omega
    · have := ih consecutive.2 fun other mem => ranges other (by simp [mem])
      have := pieceAbsPos_succ g k
      omega

theorem runEnd_recorded {k : Int} {slots : List Slot} (consecutive : Consecutive k slots)
    (ranges : ∀ slot ∈ slots, slot.2.Valid g.pieceLen) {x : Int} (low : g.pieceAbsPos k ≤ x)
    (high : x < runEnd g (g.pieceAbsPos k) slots) : RecordedAt g slots x := by
  induction slots generalizing k with
  | nil => simp only [runEnd] at high; omega
  | cons slot rest ih =>
    have positive := pieceLen_positive g
    have available := bytesAvailable_bounds (ranges slot (by simp)) (by omega)
    by_cases here : x < g.pieceAbsPos k + slot.2.bytesAvailable
    · exact (recordedAt_head consecutive low (by omega)).mpr
        (bytesAvailable_covered (by omega) (by omega))
    · simp only [runEnd, consecutive.1] at high
      split at high
      · omega
      · have next := pieceAbsPos_succ g k
        apply (recordedAt_tail consecutive (by omega)).mpr
        exact ih consecutive.2 (fun other mem => ranges other (by simp [mem])) (by omega) high

theorem runEnd_gap {k : Int} {slots : List Slot} (consecutive : Consecutive k slots)
    (ranges : ∀ slot ∈ slots, slot.2.Valid g.pieceLen)
    (separated : ∀ slot ∈ slots, Separated slot.2.segments) :
    ¬ RecordedAt g slots (runEnd g (g.pieceAbsPos k) slots) := by
  induction slots generalizing k with
  | nil => rintro ⟨slot, mem, _⟩; simp at mem
  | cons slot rest ih =>
    have positive := pieceLen_positive g
    have available := bytesAvailable_bounds (ranges slot (by simp)) (by omega)
    have tailRanges : ∀ other ∈ rest, other.2.Valid g.pieceLen :=
      fun other mem => ranges other (by simp [mem])
    simp only [runEnd, consecutive.1]
    split
    · rw [recordedAt_head consecutive (by omega) (by omega), add_sub_cancel_left]
      exact bytesAvailable_gap (ranges slot (by simp)) (separated slot (by simp))
    · rw [recordedAt_tail consecutive (runEnd_start consecutive.2 tailRanges)]
      exact ih consecutive.2 tailRanges fun other mem => separated other (by simp [mem])

theorem run_end_unique {slots : List Slot} {start w e : Int}
    (after : start ≤ w) (after' : start ≤ e)
    (recorded : ∀ x, start ≤ x → x < w → RecordedAt g slots x)
    (recorded' : ∀ x, start ≤ x → x < e → RecordedAt g slots x)
    (gap : ¬ RecordedAt g slots w) (gap' : ¬ RecordedAt g slots e) : w = e := by
  rcases Int.lt_trichotomy w e with less | same | more
  · exact (gap (recorded' w after less)).elim
  · exact same
  · exact (gap' (recorded e after' more)).elim

theorem nothing_withheld_iff (inv : Inv g content s) (separated : AllSeparated s) :
    NothingWithheld g s ↔ Gap g s := by
  have consecutive := inv.layout.consecutive
  have ranges := inv.layout.ranges
  constructor
  · intro complete
    cases shape : s.slotList.head? with
    | none =>
      rw [List.head?_eq_none_iff] at shape
      rintro ⟨slot, mem, _⟩
      simp [shape] at mem
    | some first => exact (complete first shape).gap
  · intro gap first shape
    have index : first.1 = s.absRPos / g.pieceLen := by
      obtain ⟨rest, shape⟩ := List.head?_eq_some_iff.mp shape
      rw [shape] at consecutive
      exact consecutive.1
    rw [← index] at consecutive
    have behind := inv.behind
    have walk := run_end_unique (by rw [index]; exact behind.start)
      (runEnd_start consecutive ranges) (by rw [index]; exact behind.recorded)
      (fun x => runEnd_recorded consecutive ranges) gap (runEnd_gap consecutive ranges separated)
    refine ⟨walk, by rw [index]; exact behind.recorded, gap, ?_⟩
    intro recorded
    by_contra waits
    exact gap (recorded s.absWPos (by rw [index]; exact behind.start) (by omega))

/- Write: the loop is the walk, started at the slot written to. -/

theorem walk_beyond {slots : List Slot} {w : Int}
    (beyond : ∀ slot ∈ slots, w / g.pieceLen < slot.1) : walk g w slots = w := by
  induction slots with
  | nil => rfl
  | cons slot rest ih =>
    have here := beyond slot (by simp)
    have other : ¬ w / g.pieceLen = slot.1 := by omega
    simp only [walk, other, ↓reduceIte]
    rw [ih fun later mem => beyond later (by simp [mem]), ite_self]

theorem walk_reaches_end {k w : Int} {slots : List Slot} (consecutive : Consecutive k slots)
    (ranges : ∀ slot ∈ slots, slot.2.Valid g.pieceLen)
    (separated : ∀ slot ∈ slots, Separated slot.2.segments) (piece : w / g.pieceLen = k)
    (recorded : ∀ x, g.pieceAbsPos k ≤ x → x < w → RecordedAt g slots x) :
    walk g w slots = runEnd g (g.pieceAbsPos k) slots := by
  induction slots generalizing k w with
  | nil =>
    have inside := (piece_eq_iff g).mp piece
    have notBeyond : ¬ g.pieceAbsPos k < w := by
      intro beyond
      obtain ⟨slot, mem, _⟩ := recorded _ (Int.le_refl _) beyond
      simp at mem
    simp only [walk, runEnd]
    omega
  | cons slot rest ih =>
    have inside := (piece_eq_iff g).mp piece
    have positive := pieceLen_positive g
    have index := consecutive.1
    have available := bytesAvailable_bounds (ranges slot (by simp)) (by omega)
    have enough : w ≤ g.pieceAbsPos k + slot.2.bytesAvailable := by
      by_contra short
      have covered := (recordedAt_head consecutive (by omega) (by omega)).mp
        (recorded (g.pieceAbsPos k + slot.2.bytesAvailable) (by omega) (by omega))
      rw [add_sub_cancel_left] at covered
      exact bytesAvailable_gap (ranges slot (by simp)) (separated slot (by simp)) covered
    simp only [walk, runEnd, piece, index, ↓reduceIte,
      max_eq_left enough]
    split
    · rfl
    · have next := pieceAbsPos_succ g k
      rw [show g.pieceAbsPos k + slot.2.bytesAvailable = g.pieceAbsPos (k + 1) by omega]
      refine ih consecutive.2 (fun other mem => ranges other (by simp [mem]))
        (fun other mem => separated other (by simp [mem])) (piece_of_pieceAbsPos g _) ?_
      intro x low high
      omega

def Fresh (g : Geometry) (s : State) (b : Block g) : Prop :=
  ∀ o, Inside (b.offset, b.offset + b.len) o → ¬ Recorded s.slotList b.pieceIndex o

theorem recordSlot_separated {itr : Nat} {slot : Slot} {segment : Segment Int}
    (ranges : ∀ slot ∈ s.slotList, slot.2.Valid g.pieceLen) (separated : AllSeparated s)
    (found : s.slotList[itr]? = some slot) (nonempty : segment.1 < segment.2)
    (fresh : ∀ o, Covered slot.2.segments o → ¬ Inside segment o) :
    AllSeparated (recordSlot g s itr slot segment) := by
  intro other mem
  rcases List.mem_or_eq_of_mem_set mem with old | new
  · exact separated other old
  · rw [new]
    have here := List.mem_of_getElem? found
    exact addSegment_separated nonempty (ranges slot here).proper fresh (separated slot here)

section Record

variable {itr : Nat} {slot : Slot} {segment : Segment Int}

theorem recordSlot_consecutive (layout : Layout g s) (found : s.slotList[itr]? = some slot) :
    Consecutive slot.1 ((recordSlot g s itr slot segment).slotList.drop itr) := by
  have inside := (List.getElem?_eq_some_iff.mp found).1
  have after := consecutive_set (slot.2.add segment) layout.consecutive found
  rw [consecutive_getElem? layout.consecutive found]
  exact consecutive_drop after itr (by simpa using Nat.le_of_lt inside)

theorem recordSlot_beyond (layout : Layout g s) (found : s.slotList[itr]? = some slot)
    (beyond : s.absWPos / g.pieceLen < slot.1) :
    (recordSlot g s itr slot segment).absWPos = s.absWPos := by
  apply walk_beyond
  intro other mem
  have := consecutive_mem (recordSlot_consecutive layout found) mem
  omega

theorem recordSlot_not_before (layout : Layout g s) (behind : Behind g s)
    (found : s.slotList[itr]? = some slot) (low : 0 ≤ segment.1)
    (nonempty : segment.1 < segment.2) (high : segment.2 ≤ g.pieceLen)
    (fresh : ∀ o, Inside segment o → ¬ Recorded s.slotList slot.1 o) :
    s.absWPos / g.pieceLen ≤ slot.1 := by
  by_contra more
  have bounds := consecutive_mem layout.consecutive (List.mem_of_getElem? found)
  have start := pieceAbsPos_mono g (show s.absRPos / g.pieceLen ≤ slot.1 by omega)
  have beyond := pieceAbsPos_mono g (show slot.1 + 1 ≤ s.absWPos / g.pieceLen by omega)
  rw [pieceAbsPos_succ] at beyond
  have below := piece_start_le g s.absWPos
  have before := behind.recorded (g.pieceAbsPos slot.1 + segment.1) (by omega) (by omega)
  have piece : (g.pieceAbsPos slot.1 + segment.1) / g.pieceLen = slot.1 :=
    (piece_eq_iff g).mpr ⟨by omega, by omega⟩
  rw [RecordedAt, piece, add_sub_cancel_left] at before
  exact fresh segment.1 ⟨le_refl _, nonempty⟩ before

theorem recordSlot_gap_at [g.Counted] (layout : Layout g s) (behind : Behind g s)
    (separated : AllSeparated s)
    (found : s.slotList[itr]? = some slot) (low : 0 ≤ segment.1)
    (nonempty : segment.1 < segment.2) (high : segment.2 ≤ g.pieceLen)
    (fresh : ∀ o, Inside segment o → ¬ Recorded s.slotList slot.1 o)
    (same : s.absWPos / g.pieceLen = slot.1) : Gap g (recordSlot g s itr slot segment) := by
  have here := List.mem_of_getElem? found
  have bounds := consecutive_mem layout.consecutive here
  have position := consecutive_getElem? layout.consecutive found
  have after := recordSlot_layout layout found low nonempty high
  have afterSeparated := recordSlot_separated layout.ranges separated found nonempty
    fun o covered isIn => fresh o isIn ⟨slot, here, rfl, covered⟩
  have atSlot : Consecutive slot.1 ((recordSlot g s itr slot segment).slotList.drop itr) :=
    recordSlot_consecutive layout found
  have dropped : ∀ x, g.pieceAbsPos slot.1 ≤ x →
      (RecordedAt g ((recordSlot g s itr slot segment).slotList.drop itr) x ↔
        RecordedAt g (recordSlot g s itr slot segment).slotList x) := by
    intro x above
    exact recordedAt_drop after.consecutive itr (by rwa [recordSlot_absRPos, ← position])
  have dropRanges : ∀ other ∈ (recordSlot g s itr slot segment).slotList.drop itr,
      other.2.Valid g.pieceLen := fun other mem => after.ranges other (List.mem_of_mem_drop mem)
  have dropSeparated : ∀ other ∈ (recordSlot g s itr slot segment).slotList.drop itr,
      Separated other.2.segments :=
    fun other mem => afterSeparated other (List.mem_of_mem_drop mem)
  have walks : (recordSlot g s itr slot segment).absWPos =
      runEnd g (g.pieceAbsPos slot.1) ((recordSlot g s itr slot segment).slotList.drop itr) := by
    apply walk_reaches_end atSlot dropRanges dropSeparated same
    intro x above below
    have before := behind.recorded x
      (Int.le_trans (pieceAbsPos_mono g (by omega)) above) below
    exact (dropped x above).mpr ((recordSlot_recorded layout found nonempty).mpr (Or.inl before))
  rw [Gap, walks, ← dropped _ (runEnd_start atSlot dropRanges)]
  exact runEnd_gap atSlot dropRanges dropSeparated

theorem recordSlot_gap [g.Counted] (layout : Layout g s) (behind : Behind g s)
    (separated : AllSeparated s)
    (gap : Gap g s) (found : s.slotList[itr]? = some slot) (low : 0 ≤ segment.1)
    (nonempty : segment.1 < segment.2) (high : segment.2 ≤ g.pieceLen)
    (fresh : ∀ o, Inside segment o → ¬ Recorded s.slotList slot.1 o) :
    Gap g (recordSlot g s itr slot segment) := by
  have notBefore := recordSlot_not_before layout behind found low nonempty high fresh
  rcases Int.lt_or_eq_of_le notBefore with beyond | same
  · rw [Gap, recordSlot_beyond layout found beyond, RecordedAt,
      recordSlot_recorded layout found nonempty]
    rintro (old | ⟨index, _⟩)
    · exact gap old
    · omega
  · exact recordSlot_gap_at layout behind separated found low nonempty high fresh same

end Record

/- Runs in which no byte is delivered twice to a listed slot. -/

def Disciplined (s : State) : Op g → Prop
  | .write b => Fresh g s b
  | .read _ => True
  | .seek pos => (pos : Int) < g.fSize

def deliveredOnce (g : Geometry) (content : Content) (build : Build) : System State (Op g) where
  start := (sequential g content build).start
  step s op t := Disciplined s op ∧ (sequential g content build).step s op t

/-- A seek does not leave the piece of the writing position, or the new piece has nothing
    available yet. -/
def SeeksUnread (s : State) (op : Op g) : Prop :=
  ∀ pos : Nat, op = .seek pos → s.absWPos / g.pieceLen = (pos + g.fOffset) / g.pieceLen ∨
    ∀ slot ∈ s.slotList, slot.1 = (pos + g.fOffset) / g.pieceLen → slot.2.bytesAvailable = 0

structure OnceInv (g : Geometry) (content : Content) (s : State) : Prop where
  inv : Inv g content s
  separated : AllSeparated s

theorem reposition_separated {j r w : Int} (windowed : Windowed g j s.slotList)
    (separated : AllSeparated s) : AllSeparated (reposition g s r w) :=
  keptWindow_ranges (P := fun r => Separated r.segments) windowed.consecutive separated
    List.isChain_nil

theorem available_zero_iff {r : Range Int} (valid : r.Valid g.pieceLen)
    (separated : Separated r.segments) : r.bytesAvailable = 0 ↔ ¬ Covered r.segments 0 := by
  have bounds := bytesAvailable_bounds valid (by have := pieceLen_positive g; omega)
  constructor
  · intro zero
    rw [← zero]
    exact bytesAvailable_gap valid separated
  · intro missing
    by_contra some
    exact missing (bytesAvailable_covered (le_refl _) (by omega))

theorem piece_start_recorded_iff (inv : OnceInv g content s) (p : Int) :
    ¬ Recorded s.slotList p 0 ↔ ∀ slot ∈ s.slotList, slot.1 = p → slot.2.bytesAvailable = 0 := by
  constructor
  · intro missing slot mem index
    rw [available_zero_iff (inv.inv.layout.ranges slot mem) (inv.separated slot mem)]
    exact fun covered => missing ⟨slot, mem, index, covered⟩
  · rintro nothing ⟨slot, mem, index, covered⟩
    exact (available_zero_iff (inv.inv.layout.ranges slot mem) (inv.separated slot mem)).mp
      (nothing slot mem index) covered

theorem step_onceInv [g.Counted] (s : State) (op : Op g) (t : State) (inv : OnceInv g content s)
    (taken : (deliveredOnce g content build).step s op t) : OnceInv g content t := by
  obtain ⟨disciplined, taken⟩ := taken
  refine ⟨step_inv s op t inv.inv taken, ?_⟩
  have windowed := layout_windowed inv.inv.layout
  cases step_result inv.inv taken with
  | recorded b slot itr found index =>
    have nonempty : b.offset < b.offset + b.len := by have := b.len_pos; omega
    apply recordSlot_separated inv.inv.layout.ranges inv.separated found nonempty
    intro o covered inside
    exact disciplined o inside ⟨slot, List.mem_of_getElem? found, index, covered⟩
  | skipped b absent => exact inv.separated
  | advanced len => exact reposition_separated windowed inv.separated
  | sought pos => exact reposition_separated windowed inv.separated

/-- A step from a state with a gap leaves a gap unless it is a seek to a piece whose first
    bytes are cached. -/
theorem step_gap_iff [g.Counted] (s : State) (op : Op g) (t : State) (inv : OnceInv g content s)
    (gap : Gap g s) (taken : (deliveredOnce g content build).step s op t) :
    Gap g t ↔ SeeksUnread s op := by
  obtain ⟨disciplined, taken⟩ := taken
  have windowed := layout_windowed inv.inv.layout
  cases step_result inv.inv taken with
  | recorded b slot itr found index =>
    simp only [SeeksUnread, reduceCtorEq, false_implies, implies_true, iff_true]
    have nonempty : b.offset < b.offset + b.len := by have := b.len_pos; omega
    refine recordSlot_gap { inv.inv.layout with } { inv.inv.behind with } inv.separated gap found
      b.offset_nonneg nonempty b.inside ?_
    rw [index]
    exact disciplined
  | skipped b absent =>
    simp only [SeeksUnread, reduceCtorEq, false_implies, implies_true, iff_true]
    exact gap
  | advanced len =>
    simp only [SeeksUnread, reduceCtorEq, false_implies, implies_true, iff_true]
    exact fun after => gap ((recordedAt_keptWindow windowed.consecutive).mp after).2
  | sought pos =>
    have inFile : (pos : Int) < g.fSize := disciplined
    simp only [SeeksUnread, Op.seek.injEq, forall_eq', ← piece_start_recorded_iff inv]
    simp only [Gap, reposition_slotList, reposition_absWPos,
      recordedAt_keptWindow windowed.consecutive]
    unfold seekWPos
    split
    · rename_i same
      simp only [same, true_or, iff_true]
      exact fun after => gap after.2
    · rename_i different
      have listed : (pos + g.fOffset) / g.pieceLen ∈
          window g ((pos + g.fOffset) / g.pieceLen) := by
        have := cacheSizeInPieces_positive g
        have last := piece_mono g (show pos + g.fOffset ≤ g.fOffset + g.fSize - 1 by omega)
        rw [← lastPiece_eq] at last
        exact mem_window.mpr ⟨by omega, by omega, last⟩
      simp only [RecordedAt, piece_of_pieceAbsPos, Int.sub_self, listed, true_and, different,
        false_or]

/-- In runs that deliver no byte twice, nothing recorded is withheld exactly if every seek
    stays in the piece of the writing position or goes to a piece with nothing available. -/
theorem nothing_withheld_throughout_iff [g.Counted] {steps : List (State × Op g)}
    (initial : (deliveredOnce g content build).start s)
    (run : Run (deliveredOnce g content build) s steps t) :
    Throughout (NothingWithheld g) steps t ↔ EveryStep SeeksUnread steps := by
  have inv : OnceInv g content s := by
    refine ⟨start_inv initial, ?_⟩
    obtain ⟨memory, eq⟩ := initial
    rw [opened_eq, Except.ok.injEq] at eq
    rw [← eq]
    exact reposition_separated (empty_windowed g 0) (by simp [AllSeparated, construct])
  have gap : Gap g s := by
    obtain ⟨memory, eq⟩ := initial
    exact opened_nothing_recorded eq _ _
  have invs := run_invariant step_onceInv run inv
  rw [← exact_guard step_onceInv step_gap_iff run inv gap]
  unfold Throughout
  rw [nothing_withheld_iff invs.2.inv invs.2.separated]
  refine and_congr_left fun _ => forall₂_congr fun p mem => ?_
  exact nothing_withheld_iff (invs.1 p mem).inv (invs.1 p mem).separated

theorem once_step (op : Op g) (disciplined : Disciplined s op)
    (computed : next g content build s op = some t) :
    (deliveredOnce g content build).step s op t :=
  ⟨disciplined, next_step s op t computed⟩

theorem first_block_fresh (b : Block threeBytes) : Fresh threeBytes freshStorage b :=
  fun o _ => opened_nothing_recorded (opened_eq .release _) b.pieceIndex o

theorem nothing_withheld_after_first_piece :
    ∃ steps t, Run (deliveredOnce threeBytes digits .release) freshStorage steps t ∧
      steps.map Prod.snd = [.write (wholePiece 0), .read 1, .seek 2] ∧
      Throughout (NothingWithheld threeBytes) steps t := by
  have run : Run (deliveredOnce threeBytes digits .release) freshStorage _ _ :=
    .snoc (.snoc (.snoc (.nil freshStorage)
      (once_step (.write (wholePiece 0)) (first_block_fresh _) rfl))
      (once_step (.read 1) trivial rfl))
      (once_step (.seek 2) (show ((2 : Nat) : Int) < threeBytes.fSize by decide) rfl)
  refine ⟨_, _, run, rfl,
    (nothing_withheld_throughout_iff (freshStorage_start .release) run).mpr ?_⟩
  simp only [everyStep_snoc]
  refine ⟨⟨⟨by simp [EveryStep], by simp [SeeksUnread]⟩, by simp [SeeksUnread]⟩, ?_⟩
  intro pos same
  rw [← Op.seek.inj same]
  exact Or.inl (by decide)

/-- The second piece is cached whole; after a seek to its start the reader waits for it. -/
theorem seek_withholds_cached_piece :
    ¬ ∀ (g : Geometry) (content : Content) (s t : State) (steps : List (State × Op g)),
      (deliveredOnce g content .release).start s →
        Run (deliveredOnce g content .release) s steps t →
          Throughout (NothingWithheld g) steps t := by
  intro always
  have run : Run (deliveredOnce threeBytes digits .release) freshStorage _ _ :=
    .snoc (.snoc (.nil freshStorage)
      (once_step (.write (wholePiece 1)) (first_block_fresh _) rfl))
      (once_step (.seek 2) (show ((2 : Nat) : Int) < threeBytes.fSize by decide) rfl)
  have last := (always threeBytes digits _ _ _ (freshStorage_start .release) run).2
  exact absurd (last _ rfl).walk (by decide)

end WithheldBytes
