import QtPlayer.Storage.WithheldBytes

/- Whether the reader can still get to the end of its file when the source delivers no byte
   twice. -/
namespace ReaderProgress
open FlatPieceMemoryStorage StorageRange StorageGeometry StorageSlots StorageInvariant ReadPath
open HalfOpenSegments Streaming TransitionRuns WithheldBytes

variable {g : Geometry} {content : Content} {build : Build} {s t : State}

def fileEnd (g : Geometry) : Int := g.fOffset + g.fSize

def NoSeek (_ : State) : Op g → Prop
  | .seek _ => False
  | _ => True

def returned (g : Geometry) (content : Content) (build : Build) (steps : List (State × Op g)) :
    List UInt8 :=
  steps.flatMap fun (p : State × Op g) =>
    match exec g content build p.1 p.2 with
    | .ok (_, out) => out
    | .error _ => []

def byteBlock (g : Geometry) (p o : Int) (low : 0 ≤ o) (high : o < g.pieceLen) : Block g where
  pieceIndex := p
  offset := o
  len := 1
  offset_nonneg := low
  len_pos := Int.zero_lt_one
  inside := high

/-- Writes that go on from one state: nothing is taken back. -/
structure Supplied (g : Geometry) (content : Content) (s t : State) : Prop where
  inv : OnceInv g content t
  sameRead : t.absRPos = s.absRPos
  grows : s.absWPos ≤ t.absWPos
  keeps : ∀ p o, Recorded s.slotList p o → Recorded t.slotList p o

theorem write_fresh [g.Counted] (inv : OnceInv g content s) (b : Block g) (fresh : Fresh g s b)
    (listed : b.pieceIndex ∈ window g (s.absRPos / g.pieceLen)) :
    ∃ t, (deliveredOnce g content build).step s (.write b) t ∧ Supplied g content s t ∧
      Recorded t.slotList b.pieceIndex b.offset ∧
      (s.absWPos / g.pieceLen = b.pieceIndex → Gap g t) := by
  obtain ⟨slot, mem, index⟩ := (layout_listed inv.inv.layout).mpr listed
  obtain ⟨t, _, eq, result⟩ := exec_write build inv.inv b
  have taken : (deliveredOnce g content build).step s (.write b) t :=
    ⟨fresh, trivial, trivial, [], eq⟩
  have after := step_onceInv s _ t inv taken
  refine ⟨t, taken, ?_⟩
  cases result with
  | skipped b absent => exact absurd index (absent slot mem)
  | recorded b slot itr found index =>
    have layout : Layout g (stored content s b) := { inv.inv.layout with }
    have behind : Behind g (stored content s b) := { inv.inv.behind with }
    have nonempty : b.offset < b.offset + b.len := by have := b.len_pos; omega
    have now : ∀ {p o : Int},
        Recorded (recordSlot g (stored content s b) itr slot
          (b.offset, b.offset + b.len)).slotList p o ↔
          Recorded s.slotList p o ∨ (p = slot.1 ∧ Inside (b.offset, b.offset + b.len) o) :=
      recordSlot_recorded layout found nonempty
    refine ⟨⟨after, rfl, walk_grows _ _, fun p o old => now.mpr (Or.inl old)⟩,
      now.mpr (Or.inr ⟨index.symm, le_refl _, nonempty⟩), ?_⟩
    intro same
    refine recordSlot_gap_at layout behind inv.separated found b.offset_nonneg nonempty b.inside
      ?_ (by rw [index]; exact same)
    rw [index]
    exact fresh

theorem write_missing [g.Counted] (build : Build) (inv : OnceInv g content s) {p o : Int}
    (low : 0 ≤ o)
    (high : o < g.pieceLen) (listed : p ∈ window g (s.absRPos / g.pieceLen))
    (missing : ¬ Recorded s.slotList p o) :
    ∃ b t, (deliveredOnce g content build).step s (.write b) t ∧ Supplied g content s t ∧
      Recorded t.slotList p o ∧ (s.absWPos / g.pieceLen = p → Gap g t) := by
  have fresh : Fresh g s (byteBlock g p o low high) := by
    rintro x ⟨notBelow, below⟩
    simp only [byteBlock] at notBelow below
    rwa [show x = o by omega]
  exact ⟨byteBlock g p o low high, write_fresh inv _ fresh listed⟩

/- Writing until the reader can go on. -/

theorem supplied_trans {u : State} (first : Supplied g content s t)
    (second : Supplied g content t u) : Supplied g content s u where
  inv := second.inv
  sameRead := second.sameRead.trans first.sameRead
  grows := Int.le_trans first.grows second.grows
  keeps := fun p o old => second.keeps p o (first.keeps p o old)

theorem writing_listed (inv : Inv g content s) (low : s.absWPos < fileEnd g)
    (waits : s.absWPos ≤ s.absRPos) :
    s.absWPos / g.pieceLen ∈ window g (s.absRPos / g.pieceLen) := by
  have start := piece_mono g inv.behind.start
  rw [piece_of_pieceAbsPos] at start
  have notBeyond := piece_mono g waits
  have last := piece_mono g (show s.absWPos ≤ g.fOffset + g.fSize - 1 by
    unfold fileEnd at low
    omega)
  have size := cacheSizeInPieces_positive g
  rw [← lastPiece_eq] at last
  exact mem_window.mpr ⟨start, by omega, last⟩

/-- The byte at the writing position is missing, so it can be written, and that moves the
    writing position on. -/
theorem gap_moves [g.Counted] (build : Build) (inv : OnceInv g content s) (gap : Gap g s)
    (listed : s.absWPos / g.pieceLen ∈ window g (s.absRPos / g.pieceLen)) :
    ∃ b t, (deliveredOnce g content build).step s (.write b) t ∧ Supplied g content s t ∧
      Gap g t ∧ s.absWPos < t.absWPos := by
  have below := piece_start_le g s.absWPos
  have above := lt_piece_end g s.absWPos
  obtain ⟨b, t, taken, supplied, recorded, gapped⟩ := write_missing build inv
    (show 0 ≤ s.absWPos - g.pieceAbsPos (s.absWPos / g.pieceLen) by omega) (by omega) listed gap
  refine ⟨b, t, taken, supplied, gapped rfl, ?_⟩
  refine lt_of_le_of_ne supplied.grows fun same => gapped rfl ?_
  rw [RecordedAt, ← same]
  exact recorded

theorem wakes [g.Counted] (build : Build) (k : Nat) : ∀ {s : State}, OnceInv g content s → Gap g s →
    s.absRPos < fileEnd g → s.absRPos < s.absWPos + k →
      ∃ steps t, Run (deliveredOnce g content build) s steps t ∧ EveryStep NoSeek steps ∧
        returned g content build steps = [] ∧ Supplied g content s t ∧ Gap g t ∧
        t.absRPos < t.absWPos := by
  induction k with
  | zero =>
    intro s inv gap inFile near
    exact ⟨[], s, .nil s, by simp [EveryStep], rfl, ⟨inv, rfl, Int.le_refl _, fun _ _ old => old⟩,
      gap, by simpa using near⟩
  | succ k ih =>
    intro s inv gap inFile near
    by_cases waits : s.absWPos ≤ s.absRPos
    · have listed := writing_listed inv.inv (by omega) waits
      obtain ⟨b, u, taken, first, gapped, moved⟩ := gap_moves build inv gap listed
      obtain ⟨steps, t, run, noSeek, silent, rest, gapAfter, awake⟩ :=
        ih first.inv gapped (by rw [first.sameRead]; exact inFile)
          (by rw [first.sameRead]; push_cast at near; omega)
      refine ⟨_, t, run_cons taken run, ?_, ?_, supplied_trans first rest, gapAfter, awake⟩
      · intro p mem
        rcases List.mem_cons.mp mem with here | later
        · rw [here]
          trivial
        · exact noSeek p later
      · obtain ⟨v, _, eq, _⟩ := exec_write build inv.inv b
        simp only [returned, List.flatMap_cons, eq, List.nil_append]
        exact silent
    · exact ⟨[], s, .nil s, by simp [EveryStep], rfl,
        ⟨inv, rfl, Int.le_refl _, fun _ _ old => old⟩, gap, by omega⟩

/- Reading to the end. -/

def Fed (g : Geometry) (s : State) : Prop := fileEnd g ≤ s.absWPos ∨ Gap g s

theorem fed_wakes [g.Counted] (build : Build) (inv : OnceInv g content s) (fed : Fed g s)
    (inFile : s.absRPos < fileEnd g) :
    ∃ steps t, Run (deliveredOnce g content build) s steps t ∧ EveryStep NoSeek steps ∧
      returned g content build steps = [] ∧ OnceInv g content t ∧ t.absRPos = s.absRPos ∧
      Fed g t ∧ t.absRPos < t.absWPos := by
  rcases fed with whole | gap
  · exact ⟨[], s, .nil s, by simp [EveryStep], rfl, inv, rfl, Or.inl whole, by omega⟩
  · obtain ⟨steps, t, run, noSeek, silent, supplied, gapped, awake⟩ := wakes build
      (s.absRPos + 1 - s.absWPos).toNat inv gap inFile (by omega)
    exact ⟨steps, t, run, noSeek, silent, supplied.inv, supplied.sameRead, Or.inr gapped, awake⟩

theorem read_once [g.Counted] (inv : OnceInv g content s) (fed : Fed g s)
    (awake : s.absRPos < s.absWPos)
    {len : Nat} (positive : 1 ≤ len) (fits : (len : Int) ≤ INT_MAX) :
    (deliveredOnce g content .release).step s (.read len) (advance g s len) ∧
      exec g content .release s (.read len) =
        .ok (advance g s len, slice content s.absRPos (readLength s len)) ∧
      OnceInv g content (advance g s len) ∧ Fed g (advance g s len) := by
  have eq := exec_read inv.inv awake positive fits (Or.inl rfl)
  have taken : (deliveredOnce g content .release).step s (.read len) (advance g s len) :=
    ⟨trivial, ⟨positive, fits⟩, awake, _, eq⟩
  refine ⟨taken, eq, step_onceInv s _ _ inv taken, ?_⟩
  rcases fed with whole | gap
  · exact Or.inl whole
  · refine Or.inr ((step_gap_iff s _ _ inv gap taken).mpr ?_)
    intro pos same
    cases same

theorem finishes [g.Counted] (k : Nat) : ∀ {s : State}, OnceInv g content s → Fed g s →
    fileEnd g = s.absRPos + k →
      ∃ steps t, Run (deliveredOnce g content .release) s steps t ∧ EveryStep NoSeek steps ∧
        t.absRPos = fileEnd g ∧
        returned g content .release steps = slice content s.absRPos k := by
  induction k using Nat.strongRecOn with
  | ind k ih =>
    intro s inv fed remains
    rcases Nat.eq_zero_or_pos k with none | some
    · subst none
      exact ⟨[], s, .nil s, by simp [EveryStep], by simpa using remains.symm, rfl⟩
    · obtain ⟨early, u, run, noSeek, silent, invU, sameRead, fedU, awake⟩ :=
        fed_wakes .release inv fed (by omega)
      have limit : INT_MAX = 2147483647 := rfl
      obtain ⟨len, length⟩ : ∃ len : Nat, len = min k INT_MAX.toNat := ⟨_, rfl⟩
      have positive : 1 ≤ len := by omega
      obtain ⟨taken, eq, invR, fedR⟩ := read_once invU fedU awake positive (by omega)
      obtain ⟨n, amount⟩ : ∃ n : Nat, (n : Int) = readLength u len :=
        ⟨(readLength u len).toNat, by have := readLength_bounds awake positive; omega⟩
      have bounds := readLength_bounds awake positive
      have moved : (advance g u len).absRPos = s.absRPos + n := by
        rw [advance, reposition_absRPos, sameRead, amount]
      obtain ⟨late, t, rest, noSeekLater, atEnd, bytes⟩ :=
        ih (k - n) (by omega) invR fedR (by rw [moved]; omega)
      refine ⟨early ++ (u, .read len) :: late, t, run_append run (run_cons taken rest), ?_, atEnd,
        ?_⟩
      · refine everyStep_append.mpr ⟨noSeek, ?_⟩
        intro p mem
        rcases List.mem_cons.mp mem with here | later
        · rw [here]
          trivial
        · exact noSeekLater p later
      · simp only [returned] at silent bytes ⊢
        simp only [List.flatMap_append, silent, List.flatMap_cons, eq, bytes, List.nil_append]
        rw [moved, sameRead, ← amount, slice_append content _ (by omega) (by omega)]
        congr 1
        omega

/-- Writes of missing bytes and reads, and no seek, can bring the reader to the end of its file
    with every byte of the rest returned once and in order. -/
def CanFinish (g : Geometry) (content : Content) (s : State) : Prop :=
  ∃ steps t, Run (deliveredOnce g content .release) s steps t ∧ EveryStep NoSeek steps ∧
    t.absRPos = fileEnd g ∧
    returned g content .release steps = slice content s.absRPos (fileEnd g - s.absRPos)

theorem fed_can_finish [g.Counted] (inv : OnceInv g content s) (fed : Fed g s)
    (inFile : s.absRPos < fileEnd g) : CanFinish g content s := by
  have amount : ((fileEnd g - s.absRPos).toNat : Int) = fileEnd g - s.absRPos := by omega
  obtain ⟨steps, t, run, noSeek, atEnd, bytes⟩ :=
    finishes (fileEnd g - s.absRPos).toNat inv fed (by omega)
  exact ⟨steps, t, run, noSeek, atEnd, by rw [bytes, amount]⟩

/- The other side: a writing position inside a piece that is recorded whole. -/

def PieceMissing (g : Geometry) (s : State) : Prop :=
  ∃ o, 0 ≤ o ∧ o < g.pieceLen ∧ ¬ Recorded s.slotList (s.absWPos / g.pieceLen) o

structure Stranded (g : Geometry) (content : Content) (s : State) : Prop where
  inv : OnceInv g content s
  short : s.absWPos < fileEnd g
  inFile : s.absRPos < fileEnd g
  whole : ¬ PieceMissing g s

theorem stranded_recorded (stranded : Stranded g content s) {o : Int} (low : 0 ≤ o)
    (high : o < g.pieceLen) : Recorded s.slotList (s.absWPos / g.pieceLen) o := by
  by_contra missing
  exact stranded.whole ⟨o, low, high, missing⟩

theorem step_stranded [g.Counted] (s : State) (op : Op g) (t : State)
    (stranded : Stranded g content s)
    (taken : (deliveredOnce g content .release).step s op t) (noSeek : NoSeek s op) :
    Stranded g content t := by
  have inv := stranded.inv
  have after := step_onceInv s op t inv taken
  have positive := pieceLen_positive g
  cases step_result inv.inv taken.2 with
  | recorded b slot itr found index =>
    have fresh : Fresh g s b := taken.1
    have nonempty : b.offset < b.offset + b.len := by have := b.len_pos; omega
    have low := b.offset_nonneg
    have notBefore : s.absWPos / g.pieceLen ≤ slot.1 := by
      have start : 0 ≤ (b.offset, b.offset + b.len).1 := low
      refine recordSlot_not_before inv.inv.layout inv.inv.behind found start nonempty b.inside ?_
      rw [index]
      exact fresh
    have other : s.absWPos / g.pieceLen ≠ slot.1 := by
      intro same
      have inside := b.inside
      refine fresh b.offset ⟨le_refl _, nonempty⟩ ?_
      rw [← index, ← same]
      exact stranded_recorded stranded low (by omega)
    have still : (recordSlot g (stored content s b) itr slot
        (b.offset, b.offset + b.len)).absWPos = s.absWPos :=
      recordSlot_beyond (s := stored content s b) { inv.inv.layout with } found
        (lt_of_le_of_ne notBefore other)
    refine ⟨after, by rw [still]; exact stranded.short, stranded.inFile, ?_⟩
    rintro ⟨o, above, below, missing⟩
    rw [still] at missing
    exact missing ((recordSlot_recorded (s := stored content s b) { inv.inv.layout with } found
      nonempty).mpr (Or.inl (stranded_recorded stranded above below)))
  | skipped b absent => exact ⟨after, stranded.short, stranded.inFile, stranded.whole⟩
  | advanced len =>
    have awake : s.absRPos < s.absWPos := taken.2.2.1
    have bounds := readLength_bounds awake taken.2.1.1
    have short := stranded.short
    have listed := mem_window.mp
      (recorded_bounds inv.inv.layout (stranded_recorded stranded (le_refl 0) (by omega))).1
    have forward := piece_mono g (show s.absRPos ≤ s.absRPos + readLength s len by omega)
    have behind := piece_mono g bounds.2.2
    refine ⟨after, short, by simp only [advance, reposition_absRPos]; omega, ?_⟩
    rintro ⟨o, above, below, missing⟩
    refine missing ((recorded_keptWindow (layout_windowed inv.inv.layout).consecutive).mpr
      ⟨mem_window.mpr ⟨behind, ?_, listed.2.2⟩, stranded_recorded stranded above below⟩)
    exact Int.lt_of_lt_of_le listed.2.1 (by omega)
  | sought pos => exact noSeek.elim

theorem start_onceInv [g.Counted] (initial : (deliveredOnce g content build).start s) :
    OnceInv g content s := by
  refine ⟨start_inv initial, ?_⟩
  obtain ⟨memory, eq⟩ := initial
  rw [opened_eq, Except.ok.injEq] at eq
  rw [← eq]
  exact reposition_separated (empty_windowed g 0) (by simp [AllSeparated, construct])

/-- When no byte is delivered twice, the reader can still get the rest of its file exactly if
    the writing position is past it or stands in a piece with a byte still to come. -/
theorem can_finish_iff [g.Counted] (reach : Reachable (deliveredOnce g content .release) s)
    (inFile : s.absRPos < fileEnd g) :
    CanFinish g content s ↔ fileEnd g ≤ s.absWPos ∨ PieceMissing g s := by
  have inv : OnceInv g content s :=
    reachable_invariant (fun _ => start_onceInv) step_onceInv reach
  constructor
  · rintro ⟨steps, t, run, noSeek, atEnd, _⟩
    by_contra neither
    obtain ⟨short, whole⟩ := not_or.mp neither
    have last := (guarded_run_invariant step_stranded run
      ⟨inv, by omega, inFile, whole⟩ noSeek).2.inFile
    omega
  · rintro (whole | ⟨o, low, high, missing⟩)
    · exact fed_can_finish inv (Or.inl whole) inFile
    · by_cases recorded : RecordedAt g s.slotList s.absWPos
      · have listed := (recorded_bounds inv.inv.layout recorded).1
        obtain ⟨b, u, taken, supplied, _, gapped⟩ :=
          write_missing .release inv low high listed missing
        obtain ⟨steps, t, run, noSeek, atEnd, bytes⟩ := fed_can_finish supplied.inv
          (Or.inr (gapped rfl)) (by rw [supplied.sameRead]; exact inFile)
        refine ⟨_, t, run_cons taken run, ?_, atEnd, ?_⟩
        · intro p mem
          rcases List.mem_cons.mp mem with here | later
          · rw [here]
            trivial
          · exact noSeek p later
        · obtain ⟨v, _, eq, _⟩ := exec_write .release inv.inv b
          rw [supplied.sameRead] at bytes
          simp only [returned, List.flatMap_cons, eq, List.nil_append] at bytes ⊢
          exact bytes
      · exact fed_can_finish inv (Or.inr recorded) inFile

/-- The last piece is cached whole before the reader seeks to it, and cannot be read any more;
    before anything was delivered the whole file could be. -/
theorem fresh_can_finish_cached_seek_cannot :
    CanFinish threeBytes digits freshStorage ∧
    ∃ s, Reachable (deliveredOnce threeBytes digits .release) s ∧ s.absRPos = 2 ∧
      ¬ CanFinish threeBytes digits s := by
  have first : Reachable (deliveredOnce threeBytes digits .release) freshStorage :=
    .start (freshStorage_start .release)
  constructor
  · refine (can_finish_iff first (by decide)).mpr (Or.inr ?_)
    exact ⟨0, by decide, by decide, opened_nothing_recorded (opened_eq .release _) _ _⟩
  · have run : Run (deliveredOnce threeBytes digits .release) freshStorage _ _ :=
      .snoc (.snoc (.nil freshStorage)
        (once_step (.write (wholePiece 1)) (first_block_fresh _) rfl))
        (once_step (.seek 2) (show ((2 : Nat) : Int) < threeBytes.fSize by decide) rfl)
    have reach := reachable_extends first run
    refine ⟨_, reach, rfl, ?_⟩
    rw [can_finish_iff reach (by decide)]
    rintro (whole | ⟨o, low, high, missing⟩)
    · exact absurd whole (by decide)
    · exact missing ⟨(1, ⟨[(0, 2)]⟩), by decide, by decide, (0, 2), by simp, low, high⟩

/-- A run whose seeks all go to pieces with nothing available never strands its reader. -/
theorem never_stranded [g.Counted] {steps : List (State × Op g)}
    (initial : (deliveredOnce g content .release).start s)
    (run : Run (deliveredOnce g content .release) s steps t)
    (unread : EveryStep SeeksUnread steps) :
    Throughout (fun u => u.absRPos < fileEnd g → CanFinish g content u) steps t := by
  have preserved : ∀ s op t, OnceInv g content s ∧ Gap g s →
      (deliveredOnce g content .release).step s op t → SeeksUnread s op →
        OnceInv g content t ∧ Gap g t := fun s op t both taken allowed =>
    ⟨step_onceInv s op t both.1 taken, (step_gap_iff s op t both.1 both.2 taken).mpr allowed⟩
  have gap : Gap g s := by
    obtain ⟨memory, eq⟩ := initial
    exact opened_nothing_recorded eq _ _
  have both := guarded_run_invariant preserved run ⟨start_onceInv initial, gap⟩ unread
  exact ⟨fun p mem inFile => fed_can_finish (both.1 p mem).1 (Or.inr (both.1 p mem).2) inFile,
    fun inFile => fed_can_finish both.2.1 (Or.inr both.2.2) inFile⟩

theorem never_stranded_after_first_piece :
    ∃ steps t, Run (deliveredOnce threeBytes digits .release) freshStorage steps t ∧
      steps.map Prod.snd = [.write (wholePiece 0), .read 1, .seek 2] ∧
      CanFinish threeBytes digits t := by
  have run : Run (deliveredOnce threeBytes digits .release) freshStorage _ _ :=
    .snoc (.snoc (.snoc (.nil freshStorage)
      (once_step (.write (wholePiece 0)) (first_block_fresh _) rfl))
      (once_step (.read 1) trivial rfl))
      (once_step (.seek 2) (show ((2 : Nat) : Int) < threeBytes.fSize by decide) rfl)
  refine ⟨_, _, run, rfl, (never_stranded (freshStorage_start .release) run ?_).2 (by decide)⟩
  simp only [everyStep_snoc]
  refine ⟨⟨⟨by simp [EveryStep], by simp [SeeksUnread]⟩, by simp [SeeksUnread]⟩, ?_⟩
  intro pos same
  rw [← Op.seek.inj same]
  exact Or.inl (by decide)

end ReaderProgress
