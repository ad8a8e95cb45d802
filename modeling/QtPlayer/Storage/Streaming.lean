import QtPlayer.Storage.ReadPath

/- Runs of whole operations: what is delivered to the reader, where an assert can fail and
   when the reader stays inside its file. -/
namespace Streaming
open FlatPieceMemoryStorage StorageGeometry StorageSlots StorageInvariant ReadPath TransitionRuns

variable {g : Geometry} {content : Content} {build : Build} {s t : State}

/- Each operation on a state that satisfies the invariant. -/

inductive StepResult (g : Geometry) (content : Content) (s : State) : Op g → State → Prop where
  | recorded (b : Block g) (slot : Slot) (itr : Nat) (found : s.slotList[itr]? = some slot)
      (index : slot.1 = b.pieceIndex) : StepResult g content s (.write b)
        (recordSlot g (stored content s b) itr slot (b.offset, b.offset + b.len))
  | skipped (b : Block g) (absent : ∀ slot ∈ s.slotList, slot.1 ≠ b.pieceIndex) :
      StepResult g content s (.write b)
        (s.emit (.pieceOutOfRangeReceived b.len b.offset b.pieceIndex))
  | advanced (len : Nat) : StepResult g content s (.read len) (advance g s len)
  | sought (pos : Nat) : StepResult g content s (.seek pos)
      (reposition g s (pos + g.fOffset) (seekWPos g s pos))

theorem exec_write [g.Counted] (build : Build) (inv : Inv g content s) (b : Block g) :
    ∃ t, write g build s (b.bytes content) b.len b.offset b.pieceIndex = .ok t ∧
      exec g content build s (.write b) = .ok (t, []) ∧ StepResult g content s (.write b) t := by
  have written : ∃ t, write g build s (b.bytes content) b.len b.offset b.pieceIndex = .ok t ∧
      StepResult g content s (.write b) t := by
    by_cases listed : ∃ slot ∈ s.slotList, slot.1 = b.pieceIndex
    · obtain ⟨slot, mem, index⟩ := listed
      exact ⟨_, write_listed content build inv.layout b mem index,
        .recorded b slot _ (findSlot_listed inv.layout.consecutive mem index).2 index⟩
    · have absent : ∀ slot ∈ s.slotList, slot.1 ≠ b.pieceIndex :=
        fun slot mem index => listed ⟨slot, mem, index⟩
      exact ⟨_, write_unlisted build inv.layout _ _ _ absent, .skipped b absent⟩
  obtain ⟨t, eq, result⟩ := written
  exact ⟨t, eq, by simp only [exec, eq, ok_bind], result⟩

theorem exec_seek [g.Counted] (inv : Inv g content s) {pos : Nat}
    (counted : (pos + g.fOffset) / g.pieceLen ≤ INT_MAX) :
    exec g content build s (.seek pos) =
      .ok (reposition g s (pos + g.fOffset) (seekWPos g s pos), []) := by
  simp only [exec, seek_eq build inv.layout inv.idle counted, ok_bind]

theorem exec_read [g.Counted] (inv : Inv g content s) (issued : s.absRPos < s.absWPos) {len : Nat}
    (positive : 1 ≤ len) (fits : (len : Int) ≤ INT_MAX)
    (notFull : build = .release ∨ s.absWPos - s.absRPos ≠ g.cacheSize) :
    exec g content build s (.read len) =
      .ok (advance g s len, slice content s.absRPos (readLength s len)) := by
  simp only [exec, read_eq build inv issued positive fits notFull, ok_bind]

theorem exec_read_full [g.Counted] (inv : Inv g content s) (issued : s.absRPos < s.absWPos)
    (len : Nat)
    (full : s.absWPos - s.absRPos = g.cacheSize) :
    exec g content .debug s (.read len) = .error (.assertion .distanceNotZero) := by
  simp only [exec, read_full inv issued len full, error_bind]

/-- Whatever a read returns, it is the next bytes of the content. -/
theorem read_result [g.Counted] (inv : Inv g content s) (issued : s.absRPos < s.absWPos) {len : Nat}
    (positive : 1 ≤ len) (fits : (len : Int) ≤ INT_MAX) {r : State × List UInt8 × Int}
    (eq : read g build s len = .ok r) :
    r = (advance g s len, slice content s.absRPos (readLength s len), readLength s len) := by
  have notFull : build = .release ∨ s.absWPos - s.absRPos ≠ g.cacheSize := by
    cases build with
    | release => exact Or.inl rfl
    | debug =>
      apply Or.inr
      intro full
      rw [read_full inv issued len full] at eq
      cases eq
  rw [read_eq build inv issued positive fits notFull, Except.ok.injEq] at eq
  exact eq.symm

/-- What the storage is for: a cursor that moves over the content of the torrent. -/
inductive CursorStep (g : Geometry) (content : Content) : Int → Op g → List UInt8 → Int → Prop where
  | write (x : Int) (b : Block g) : CursorStep g content x (.write b) [] x
  | read (x n : Int) (len : Nat) (some : 1 ≤ n) (atMost : n ≤ len) :
      CursorStep g content x (.read len) (slice content x n) (x + n)
  | seek (x : Int) (pos : Nat) : CursorStep g content x (.seek pos) [] (pos + g.fOffset)

theorem exec_result [g.Counted] (inv : Inv g content s) {op : Op g} (domain : op.InDomain)
    (issued : op.Issued s) {out : List UInt8} (eq : exec g content build s op = .ok (t, out)) :
    StepResult g content s op t ∧ Inv g content t ∧
      CursorStep g content s.absRPos op out t.absRPos := by
  cases op with
  | write b =>
    obtain ⟨u, written, executed, result⟩ := exec_write build inv b
    rw [executed, Except.ok.injEq, Prod.mk.injEq] at eq
    obtain ⟨rfl, rfl⟩ := eq
    refine ⟨result, write_inv inv b written, ?_⟩
    cases result <;> exact .write _ b
  | seek pos =>
    have counted := seek_counted (g := g) domain
    have sought := seek_inv inv counted (seek_eq build inv.layout inv.idle counted)
    rw [exec_seek inv counted, Except.ok.injEq, Prod.mk.injEq] at eq
    obtain ⟨rfl, rfl⟩ := eq
    exact ⟨.sought pos, sought, .seek _ pos⟩
  | read len =>
    simp only [exec] at eq
    cases result : read g build s len with
    | error e => rw [result] at eq; cases eq
    | ok r =>
      have same := read_result inv issued domain.1 domain.2 result
      rw [result, same, ok_bind, Except.ok.injEq, Prod.mk.injEq] at eq
      obtain ⟨rfl, rfl⟩ := eq
      have some := readLength_bounds issued domain.1
      exact ⟨.advanced len, advance_inv inv issued domain.1, .read _ _ _ some.1 some.2.1⟩

/-- Each step of the storage is a step of the cursor. -/
theorem step_refines_cursor [g.Counted] (inv : Inv g content s) {op : Op g}
    (taken : (sequential g content build).step s op t) :
    ∃ out, exec g content build s op = .ok (t, out) ∧
      CursorStep g content s.absRPos op out t.absRPos := by
  obtain ⟨domain, issued, out, eq⟩ := taken
  exact ⟨out, eq, (exec_result inv domain issued eq).2.2⟩

theorem step_result [g.Counted] (inv : Inv g content s) {op : Op g}
    (taken : (sequential g content build).step s op t) : StepResult g content s op t := by
  obtain ⟨domain, issued, _, eq⟩ := taken
  exact (exec_result inv domain issued eq).1

theorem step_inv [g.Counted] (s : State) (op : Op g) (t : State) (inv : Inv g content s)
    (taken : (sequential g content build).step s op t) : Inv g content t := by
  obtain ⟨domain, issued, _, eq⟩ := taken
  exact (exec_result inv domain issued eq).2.1

theorem start_inv [g.Counted] (initial : (sequential g content build).start s) : Inv g content s :=
     by
  obtain ⟨memory, eq⟩ := initial
  exact opened_inv content eq

theorem reachable_inv [g.Counted] (reach : Reachable (sequential g content build) s) :
    Inv g content s :=
  reachable_invariant (fun _ => start_inv) step_inv reach

theorem release_succeeds [g.Counted] (inv : Inv g content s) {op : Op g} (domain : op.InDomain)
    (issued : op.Issued s) : ∃ t out, exec g content .release s op = .ok (t, out) := by
  cases op with
  | write b =>
    obtain ⟨t, _, eq, _⟩ := exec_write .release inv b
    exact ⟨t, [], eq⟩
  | read len => exact ⟨_, _, exec_read inv issued domain.1 domain.2 (Or.inl rfl)⟩
  | seek pos => exact ⟨_, _, exec_seek inv (seek_counted domain)⟩

/-- No operation leaves the buffer, and every read returns the next bytes of the content. -/
theorem reads_deliver_content [g.Counted] (reach : Reachable (sequential g content .release) s) :
    (∀ op : Op g, op.InDomain → op.Issued s →
      ∃ t out, exec g content .release s op = .ok (t, out)) ∧
    ∀ len : Nat, 1 ≤ len → (len : Int) ≤ INT_MAX → s.absRPos < s.absWPos →
      ∃ t n, read g .release s len = .ok (t, slice content s.absRPos n, n) ∧
        n = min (len : Int) (s.absWPos - s.absRPos) ∧ 1 ≤ n ∧ t.absRPos = s.absRPos + n := by
  have inv := reachable_inv reach
  refine ⟨fun op domain issued => release_succeeds inv domain issued, ?_⟩
  intro len positive fits issued
  exact ⟨_, _, read_eq .release inv issued positive fits (Or.inl rfl), rfl,
    (readLength_bounds issued positive).1, rfl⟩

/- A small storage to run: pieces of two bytes, a file of three. -/

def threeBytes : Geometry where
  pieceLen := 2
  cacheSizeInPieces := 2
  fOffset := 0
  fSize := 3
  pieceLen_pos := by decide
  cacheSizeInPieces_pos := by decide
  cacheSize_fits := by decide
  fOffset_nonneg := by decide
  fSize_pos := by decide

instance : threeBytes.Counted := ⟨by decide⟩

def wholePiece (p : Int) : Block threeBytes := ⟨p, 0, 2, by decide, by decide, by decide⟩
def firstByte : Block threeBytes := ⟨0, 0, 1, by decide, by decide, by decide⟩
def secondByte : Block threeBytes := ⟨0, 1, 1, by decide, by decide, by decide⟩

def digits : Content := fun x => UInt8.ofNat x.toNat

def freshStorage : State := reposition threeBytes (construct threeBytes fun _ => 0) 0 0

theorem freshStorage_start (build : Build) :
    (sequential threeBytes digits build).start freshStorage :=
  ⟨fun _ => 0, opened_eq build _⟩

theorem freshStorage_replay (build : Build) (ops : List (Op threeBytes))
    (succeeds : (replay (next threeBytes digits build) freshStorage ops).isSome) :
    Reachable (sequential threeBytes digits build) (Option.get _ succeeds) :=
  replay_reachable next_step (.start (freshStorage_start build)) (Option.some_get succeeds).symm

theorem reads_deliver_content_first_piece :
    ∃ s t, Reachable (sequential threeBytes digits .release) s ∧
      read threeBytes .release s 4 = .ok (t, [0, 1], 2) := by
  have reach := freshStorage_replay .release [.write (wholePiece 0)] rfl
  obtain ⟨t, n, eq, amount, _, _⟩ := (reads_deliver_content reach).2 4 (by decide) (by decide)
    (by decide)
  have two : n = 2 := by rw [amount]; decide
  subst two
  exact ⟨_, t, reach, eq⟩

/-- A file of one byte, in the last piece that an int counts. -/
def lastByte : Geometry where
  pieceLen := 1
  cacheSizeInPieces := 1
  fOffset := 2147483647
  fSize := 1
  pieceLen_pos := by decide
  cacheSizeInPieces_pos := by decide
  cacheSize_fits := by decide
  fOffset_nonneg := by decide
  fSize_pos := by decide

def lastByteStorage : State :=
  { construct lastByte fun _ => 0 with
    slotList := [(2147483647, StorageRange.Range.empty)]
    emitted := [.piecesRequested [2147483647]] }

/-- The only read of this file moves on to a piece whose index has become negative, and asks for
    all the indices in between. -/
theorem read_of_last_byte_stops :
    ¬ ∀ (g : Geometry) (content : Content) (s : State),
      Reachable (sequential g content .release) s →
        (∀ op : Op g, op.InDomain → op.Issued s →
          ∃ t out, exec g content .release s op = .ok (t, out)) ∧
        ∀ len : Nat, 1 ≤ len → (len : Int) ≤ INT_MAX → s.absRPos < s.absWPos →
          ∃ t n, read g .release s len = .ok (t, slice content s.absRPos n, n) ∧
            n = min (len : Int) (s.absWPos - s.absRPos) ∧ 1 ≤ n ∧
            t.absRPos = s.absRPos + n := by
  intro always
  have start : (sequential lastByte digits .release).start lastByteStorage := ⟨fun _ => 0, rfl⟩
  have reach := replay_reachable next_step (.start start) (Option.some_get
    (show (replay (next lastByte digits .release) lastByteStorage
      [.write ⟨2147483647, 0, 1, by decide, by decide, by decide⟩]).isSome from rfl)).symm
  obtain ⟨t, n, eq, _⟩ := (always lastByte digits _ reach).2 1 (by decide) (by decide) (by decide)
  have stopped : (.error .listTooLong : Except Fault (State × List UInt8 × Int)) = .ok _ := eq
  cases stopped
/- Asserts. -/

theorem asserts_hold_iff [g.Counted] (inv : Inv g content s) {op : Op g} (domain : op.InDomain)
    (issued : op.Issued s) :
    (∀ which, exec g content .debug s op ≠ .error (.assertion which)) ↔
      ∀ len, op = .read len → s.absWPos - s.absRPos ≠ g.cacheSize := by
  constructor
  · intro holds len isRead full
    subst isRead
    exact holds .distanceNotZero (exec_read_full inv issued len full)
  · intro notFull which
    cases op with
    | write b =>
      obtain ⟨t, _, eq, _⟩ := exec_write .debug inv b
      simp [eq]
    | read len => simp [exec_read inv issued domain.1 domain.2 (Or.inr (notFull len rfl))]
    | seek pos => simp [exec_seek inv (seek_counted domain)]

/-- Along a run that ignores asserts, they all hold exactly if no read meets a full ring. -/
theorem run_asserts_hold_iff [g.Counted] {steps : List (State × Op g)}
    (initial : (sequential g content .release).start s)
    (run : Run (sequential g content .release) s steps t) :
    (sequential g content .debug).start s ∧
      (EveryStep (fun s op => ∀ which, exec g content .debug s op ≠ .error (.assertion which))
          steps ↔
        EveryStep (fun s op => ∀ len, op = .read len → s.absWPos - s.absRPos ≠ g.cacheSize)
          steps) := by
  have invs := (run_invariant step_inv run (start_inv initial)).1
  have taken := run_taken run
  refine ⟨?_, ?_⟩
  · obtain ⟨memory, eq⟩ := initial
    rw [opened_eq, Except.ok.injEq] at eq
    exact ⟨memory, by rw [opened_eq, eq]⟩
  · apply forall₂_congr
    intro p mem
    obtain ⟨_, domain, issued, _⟩ := taken p mem
    exact asserts_hold_iff (invs p mem) domain issued

theorem run_asserts_hold_iff_first_piece :
    ∃ steps t, Run (sequential threeBytes digits .release) freshStorage steps t ∧
      steps.map Prod.snd = [.write (wholePiece 0), .read 1] ∧
      EveryStep (fun s op => ∀ which,
        exec threeBytes digits .debug s op ≠ .error (.assertion which)) steps := by
  have run : Run (sequential threeBytes digits .release) freshStorage _ _ :=
    .snoc (.snoc (.nil freshStorage) (next_step _ (.write (wholePiece 0)) _ rfl))
      (next_step _ (.read 1) _ rfl)
  refine ⟨_, _, run, rfl,
    (run_asserts_hold_iff (freshStorage_start .release) run).2.mpr ?_⟩
  simp only [everyStep_snoc]
  refine ⟨⟨by simp [EveryStep], by simp⟩, ?_⟩
  intro len _
  decide

/-- Both pieces are cached before the first read, and the ring looks empty. -/
theorem full_ring_aborts_read :
    ¬ ∀ (g : Geometry) (content : Content) (s : State) (op : Op g),
      Reachable (sequential g content .debug) s → op.InDomain → op.Issued s →
        ∀ which, exec g content .debug s op ≠ .error (.assertion which) := by
  intro always
  have reach := freshStorage_replay .debug [.write (wholePiece 0), .write (wholePiece 1)] rfl
  exact always threeBytes digits _ (.read 1) reach (by decide) (by decide) .distanceNotZero rfl

end Streaming
