import QtPlayer.Storage.TwoThreads

/- What the player's thread sees while the source's thread writes: its reads are those of a
   cursor over the content, and no wake-up of it is lost. -/
namespace ConcurrentReads
open FlatPieceMemoryStorage StorageGeometry StorageSlots StorageInvariant ReadPath TransitionRuns
open TwoThreads

variable {g : Geometry} {content : Content} {m m' : Machine g} {action : Action g} {s t : State}

/- What is delivered. -/

def PlayerHolds (content : Content) (s : State) : Player → Prop
  | .reading _ buf _ => buf = slice content s.absRPos buf.length
  | _ => True

structure Delivering (g : Geometry) (content : Content) (m : Machine g) : Prop where
  sound : Sound g content m
  cached : Cached g content m.storage
  holds : PlayerHolds content m.storage m.player

def Begins (m m' : Machine g) (len : Nat) : Prop :=
  ∃ cells n, m'.player = .reading cells [] n ∧ m.storage.absRPos < m.storage.absWPos ∧
    n = min (len : Int) (m.storage.absWPos - m.storage.absRPos)

/-- What a step does to the player's cursor over the content: a read copies the next bytes one
    after another and moves past them at its end, a seek that goes on moves to its position, and
    nothing else moves it. -/
def CursorMove (content : Content) (m m' : Machine g) : Action g → Prop
  | .readBegin len => m'.storage.absRPos = m.storage.absRPos ∧
      (m'.player = .readWaiting len ∨ Begins m m' len)
  | .readResume => m'.storage.absRPos = m.storage.absRPos ∧
      ∃ len, m.player = .readWoken len ∧ Begins m m' len
  | .readByte => m'.storage.absRPos = m.storage.absRPos ∧
      ∃ cell cells n, ∃ i : Nat, (i : Int) < n ∧
        m.player = .reading (cell :: cells) (slice content m.storage.absRPos i) n ∧
        m'.player = .reading cells (slice content m.storage.absRPos (i + 1)) n
  | .readEnd => ∃ n, m.player = .reading [] (slice content m.storage.absRPos n) n ∧
      m'.storage.absRPos = m.storage.absRPos + n ∧ m'.storage.absRPos ≤ m.storage.absWPos
  | .seek pos => m'.storage.absRPos =
      if m.storage.updatingBuffer then m.storage.absRPos else pos + g.fOffset
  | .seekResume => ∃ pos, m.player = .seekWoken pos ∧ m'.storage.absRPos = pos + g.fOffset
  | _ => m'.storage.absRPos = m.storage.absRPos

theorem slice_snoc (content : Content) (x : Int) (i : Nat) :
    slice content x i ++ [content (x + i)] = slice content x (i + 1) := by
  rw [← slice_one content (x + i)]
  exact slice_append content x (Int.natCast_nonneg i) (by decide)

/-- The next byte a read copies is the next byte of the content, whatever was written since it
    began. -/
theorem fetched_next (delivering : Delivering g content m) {cell : Int} {cells : List Int}
    {buf : List UInt8} {n : Int} (reading : m.player = .reading (cell :: cells) buf n) :
    (buf.length : Int) < n ∧
      m.storage.buffer cell = content (m.storage.absRPos + buf.length) := by
  obtain ⟨⟨layout, behind, _, player⟩, cached, _⟩ := delivering
  rw [reading] at player
  obtain ⟨amount, atMost, same⟩ := player
  have place := (slice_uncons same).1
  have start := piece_start_le g m.storage.absRPos
  rw [List.length_cons] at amount
  push_cast at amount
  refine ⟨by omega, ?_⟩
  rw [place]
  exact available_cached layout cached behind (by omega) (by omega)

theorem outcome_cursorMove (delivering : Delivering g content m)
    (outcome : Outcome g content m action m') : CursorMove content m m' action := by
  have holds := delivering.holds
  cases outcome with
  | waits len idle fits nothing => exact ⟨rfl, Or.inl rfl⟩
  | begins len idle issued => exact ⟨rfl, Or.inr ⟨_, _, rfl, issued, rfl⟩⟩
  | resumes len woken issued => exact ⟨rfl, len, woken, _, _, rfl, issued, rfl⟩
  | fetched cell cells buf obtainBytes reading =>
    obtain ⟨more, next⟩ := fetched_next delivering reading
    rw [reading] at holds
    refine ⟨rfl, cell, cells, obtainBytes, buf.length, more, ?_, ?_⟩
    · rw [reading, ← show buf = slice content m.storage.absRPos buf.length from holds]
    · rw [← slice_snoc, ← next, ← show buf = slice content m.storage.absRPos buf.length from holds]
  | advanced buf obtainBytes done nonneg atMost =>
    have player := delivering.sound.player
    rw [done] at holds player
    have amount : (buf.length : Int) = obtainBytes := by
      have := player.1
      simpa using this
    refine ⟨obtainBytes, ?_, rfl, atMost⟩
    rw [done, ← amount, ← show buf = slice content m.storage.absRPos buf.length from holds]
  | seekWaits pos idle inFile updating => simp [CursorMove, updating]
  | sought pos idle inFile free => simp [CursorMove, free]
  | seekResumes pos woken inFile => exact ⟨pos, woken, rfl⟩
  | _ => rfl

theorem holds_moved {player : Player} (same : t.absRPos = s.absRPos)
    (holds : PlayerHolds content s player) : PlayerHolds content t player := by
  cases player with
  | reading cells buf obtainBytes =>
    simp only [PlayerHolds, same]
    exact holds
  | _ => trivial

theorem wakeAll_holds {player : Player} (same : t.absRPos = s.absRPos)
    (holds : PlayerHolds content s player) : PlayerHolds content t (wakeAll t player) := by
  cases player with
  | readWaiting len =>
    simp only [wakeAll]
    split <;> trivial
  | seekWaiting pos => trivial
  | _ => exact holds_moved same holds

theorem outcome_holds (delivering : Delivering g content m)
    (outcome : Outcome g content m action m') : PlayerHolds content m'.storage m'.player := by
  have holds := delivering.holds
  cases outcome with
  | found b slot itr idle here index itrEq => exact holds_moved (s := m.storage) rfl holds
  | skipped b absent => exact holds_moved (s := m.storage) rfl holds
  | copied b kept n writing more => exact holds_moved (s := m.storage) rfl holds
  | recorded b kept n slot writing whole here => exact wakeAll_holds (s := m.storage) rfl holds
  | dangling b kept n writing past => exact holds
  | begins len idle issued => simp [PlayerHolds, began, slice]
  | resumes len woken issued => simp [PlayerHolds, began, slice]
  | fetched cell cells buf obtainBytes reading =>
    have next := (fetched_next delivering reading).2
    rw [reading] at holds
    have same : buf = slice content m.storage.absRPos buf.length := holds
    simp only [PlayerHolds, List.length_append, List.length_singleton]
    push_cast
    rw [← slice_snoc, ← same, next]
  | sought pos idle inFile free =>
    rw [idle]
    trivial
  | _ => trivial

theorem step_delivering [g.Counted] (m : Machine g) (action : Action g) (m' : Machine g)
    (delivering : Delivering g content m) (taken : (concurrent g content).step m action m')
    (kept : WindowKept m action) : Delivering g content m' := by
  have sound := delivering.sound
  have outcome := step_outcome sound taken
  exact ⟨outcome_sound sound outcome, outcome_cached sound delivering.cached outcome kept,
    outcome_holds delivering outcome⟩

theorem start_delivering [g.Counted] (initial : (concurrent g content).start m) :
    Delivering g content m := by
  have sound := start_sound initial
  obtain ⟨_, idle, _, memory, eq⟩ := initial
  refine ⟨sound, (opened_inv content eq).cached, ?_⟩
  rw [idle]
  trivial

/-- Across every order of the sections of two threads and of the bytes they copy, the player's
    thread reads the content with a cursor that only its own reads and seeks move, and no access
    faults, as long as every write ends in the window it began in. -/
theorem concurrent_reads_deliver [g.Counted] {steps : List (Machine g × Action g)} {m₀ : Machine g}
    (initial : (concurrent g content).start m₀) (run : Run (concurrent g content) m₀ steps m)
    (kept : EveryStep WindowKept steps) (taken : (concurrent g content).step m action m')
    (keptHere : WindowKept m action) : CursorMove content m m' action ∧ m'.fault = none := by
  have delivering :=
    (guarded_run_invariant step_delivering run (start_delivering initial) kept).2
  have outcome := step_outcome delivering.sound taken
  refine ⟨outcome_cursorMove delivering outcome, ?_⟩
  have running := taken.1
  cases outcome with
  | dangling b kept n writing past =>
    have sound := delivering.sound.writer
    rw [writing] at sound
    have index := keptHere b kept n rfl writing
    have window := mem_window.mp sound.2.window
    have short := List.getElem?_eq_none_iff.mp past
    rw [delivering.sound.layout.length] at short
    unfold windowLength at short
    omega
  | _ => exact running

/-- The first piece is read while the second is being copied, and its second byte last. -/
theorem first_piece_read_during_write :
    ∃ steps m m', Run (concurrent eightBytes Streaming.digits) bothIdle steps m ∧
      steps.map Prod.snd = writeOf 0 ++ [.writeEnd, .readBegin 2, .writeBegin (piece 1),
        .readByte, .copyByte] ∧
      CursorMove Streaming.digits m m' .readByte ∧ m'.player = .reading [] [0, 1] 2 := by
  have run : Run (concurrent eightBytes Streaming.digits) bothIdle _ _ :=
    .snoc (.snoc (.snoc (.snoc (.snoc (.snoc (.snoc (.snoc (.nil bothIdle)
      (next_step _ (.writeBegin (piece 0)) _ rfl)) (next_step _ .copyByte _ rfl))
      (next_step _ .copyByte _ rfl)) (next_step _ .writeEnd _ rfl))
      (next_step _ (.readBegin 2) _ rfl)) (next_step _ (.writeBegin (piece 1)) _ rfl))
      (next_step _ .readByte _ rfl)) (next_step _ .copyByte _ rfl)
  refine ⟨_, _, _, run, rfl, (concurrent_reads_deliver bothIdle_start run ?_
    (next_step _ .readByte _ rfl) (by simp [WindowKept])).1, rfl⟩
  simp only [everyStep_snoc]
  refine ⟨⟨⟨⟨⟨⟨⟨⟨by simp [EveryStep], by simp [WindowKept]⟩, by simp [WindowKept]⟩,
    by simp [WindowKept]⟩, ?_⟩, by simp [WindowKept]⟩, by simp [WindowKept]⟩,
    by simp [WindowKept]⟩, by simp [WindowKept]⟩
  intro b kept n _ writing
  cases writing
  decide

/- Waking up. -/

end ConcurrentReads
