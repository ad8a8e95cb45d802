import QtPlayer.Storage.Streaming

/- The first and the last piece of a file carry bytes of its neighbours. The start of the
   file is respected; its end is known to the storage but never compared with a position. -/
namespace FileBounds
open FlatPieceMemoryStorage StorageGeometry StorageSlots StorageInvariant ReadPath Streaming
open TransitionRuns

variable {g : Geometry} {content : Content} {build : Build} {s t : State}

def InFile (g : Geometry) (x : Int) : Prop := g.fOffset ≤ x ∧ x < g.fOffset + g.fSize

def ReaderInFile (g : Geometry) (s : State) : Prop :=
  g.fOffset ≤ s.absRPos ∧ s.absRPos ≤ g.fOffset + g.fSize

def ReadsInFile (g : Geometry) (content : Content) (build : Build) (s : State) (op : Op g) :
    Prop :=
  ∀ len t buf n, op = .read len → read g build s len = .ok (t, buf, n) →
    buf = slice content s.absRPos n ∧ ∀ i, 0 ≤ i → i < n → InFile g (s.absRPos + i)

/-- A read asks for no more than the rest of the file, or no more than that is available. -/
def FitsFile (s : State) (op : Op g) : Prop :=
  ∀ len, op = .read len →
    s.absWPos ≤ g.fOffset + g.fSize ∨ (len : Int) ≤ g.fOffset + g.fSize - s.absRPos

theorem opened_reader_in_file [g.Counted] (initial : (sequential g content build).start s) :
    ReaderInFile g s := by
  obtain ⟨memory, eq⟩ := initial
  rw [opened_eq, Except.ok.injEq] at eq
  subst eq
  have := g.fSize_pos
  simp only [ReaderInFile, reposition_absRPos]
  omega

theorem step_in_file_iff [g.Counted] (s : State) (op : Op g) (t : State) (inv : Inv g content s)
    (good : ReaderInFile g s) (taken : (sequential g content build).step s op t) :
    ReaderInFile g t ↔ FitsFile s op := by
  have result := step_result inv taken
  obtain ⟨domain, issued, _⟩ := taken
  cases result with
  | recorded b slot itr found index =>
    simp only [FitsFile, reduceCtorEq, false_implies, implies_true, iff_true]
    exact good
  | skipped b absent =>
    simp only [FitsFile, reduceCtorEq, false_implies, implies_true, iff_true]
    exact good
  | sought pos =>
    have inside : (pos : Int) ≤ g.fSize := domain
    simp only [ReaderInFile, reposition_absRPos, FitsFile, reduceCtorEq, false_implies,
      implies_true, iff_true]
    omega
  | advanced len =>
    have positive := domain.1
    have ready : s.absRPos < s.absWPos := issued
    simp only [FitsFile, Op.read.injEq, forall_eq']
    simp only [ReaderInFile, advance, reposition_absRPos, readLength] at good ⊢
    omega

/-- A run reads bytes of the file only exactly if each of its reads fits. -/
theorem reader_in_file_iff [g.Counted] {steps : List (State × Op g)}
    (initial : (sequential g content build).start s)
    (run : Run (sequential g content build) s steps t) :
    (Throughout (ReaderInFile g) steps t ∧ EveryStep (ReadsInFile g content build) steps) ↔
      EveryStep FitsFile steps := by
  have inv := start_inv initial
  have guard := exact_guard step_inv step_in_file_iff run inv (opened_reader_in_file initial)
  rw [← guard]
  constructor
  · exact fun both => both.1
  · intro good
    refine ⟨good, ?_⟩
    intro p mem len t buf n isRead result
    have fits := guard.mp good p mem len isRead
    obtain ⟨_, domain, issued, _⟩ := run_taken run p mem
    rw [isRead] at domain issued
    have invHere := (run_invariant step_inv run inv).1 p mem
    have same := read_result invHere issued domain.1 domain.2 result
    simp only [Prod.mk.injEq] at same
    obtain ⟨_, rfl, rfl⟩ := same
    refine ⟨rfl, ?_⟩
    intro i low high
    have here := good.1 p mem
    simp only [InFile, ReaderInFile, readLength] at high here ⊢
    omega

theorem reader_in_file_first_byte :
    ∃ steps t, Run (sequential threeBytes digits .release) freshStorage steps t ∧
      steps.map Prod.snd = [.write (wholePiece 0), .read 1] ∧
      Throughout (ReaderInFile threeBytes) steps t ∧
      EveryStep (ReadsInFile threeBytes digits .release) steps := by
  have run : Run (sequential threeBytes digits .release) freshStorage _ _ :=
    .snoc (.snoc (.nil freshStorage) (next_step _ (.write (wholePiece 0)) _ rfl))
      (next_step _ (.read 1) _ rfl)
  refine ⟨_, _, run, rfl, (reader_in_file_iff (freshStorage_start .release) run).mpr ?_⟩
  simp only [everyStep_snoc]
  refine ⟨⟨by simp [EveryStep], by simp [FitsFile]⟩, ?_⟩
  intro len _
  exact Or.inl (by decide)

/-- The file ends one byte before its last piece does, and that byte is read too. -/
theorem reader_leaves_file :
    ¬ ∀ (g : Geometry) (content : Content) (s t : State) (steps : List (State × Op g)),
      (sequential g content .release).start s → Run (sequential g content .release) s steps t →
        Throughout (ReaderInFile g) steps t ∧
          EveryStep (ReadsInFile g content .release) steps := by
  intro always
  obtain ⟨steps, run, _⟩ := replay_run next_step (Option.some_get
    (show (replay (next threeBytes digits .release) freshStorage
      [.write (wholePiece 0), .read 1, .write (wholePiece 1), .read 3]).isSome from rfl)).symm
  have good := always threeBytes digits _ _ steps (freshStorage_start .release) run
  exact absurd good.1.2.2 (by decide)

theorem writing_before_end (inv : Inv g content s) :
    s.absWPos ≤ max (g.pieceAbsPos (s.absRPos / g.pieceLen)) (g.pieceAbsPos (g.lastPiece + 1)) := by
  by_cases some : g.pieceAbsPos (s.absRPos / g.pieceLen) < s.absWPos
  · have recorded := inv.behind.recorded (s.absWPos - 1) (by omega) (by omega)
    have listed := mem_window.mp (recorded_bounds inv.layout recorded).1
    have below := lt_piece_end g (s.absWPos - 1)
    have := pieceAbsPos_mono g listed.2.2
    rw [pieceAbsPos_succ]
    omega
  · omega

theorem aligned_reader_in_file [g.Counted]
    (aligned : g.fOffset + g.fSize = g.pieceAbsPos (g.lastPiece + 1))
    {steps : List (State × Op g)} (initial : (sequential g content build).start s)
    (run : Run (sequential g content build) s steps t) :
    Throughout (ReaderInFile g) steps t := by
  have preserved : ∀ s op t, Inv g content s ∧ ReaderInFile g s →
      (sequential g content build).step s op t → Inv g content t ∧ ReaderInFile g t := by
    rintro s op t ⟨inv, here⟩ taken
    refine ⟨step_inv s op t inv taken, (step_in_file_iff s op t inv here taken).mpr ?_⟩
    intro len _
    have := writing_before_end inv
    have := piece_start_le g s.absRPos
    have := here.2
    exact Or.inl (by omega)
  have good := run_invariant preserved run ⟨start_inv initial, opened_reader_in_file initial⟩
  exact ⟨fun p mem => (good.1 p mem).2, good.2.2⟩

end FileBounds
