import QtPlayer.Storage.TwoThreads

/- The guard of seek. What the slots list and where the positions stand does not matter to it, so
   this holds of every file, also of one with more pieces than an int can count. -/
namespace TwoThreads
open FlatPieceMemoryStorage TransitionRuns

variable {g : Geometry} {content : Content} {build : Build} {m m' : Machine g}
variable {action : Action g} {s t : State}

def GoesOn (m : Machine g) : Action g → Prop
  | .seek _ => m.storage.updatingBuffer = false
  | .seekResume => True
  | _ => False

def ExcludesWriter (m : Machine g) (action : Action g) : Prop :=
  GoesOn m action → m.storage.updatingBuffer = false ∧ m.writer = .idle

/-- No write finds its slot while a woken seek has not taken the mutex yet. -/
def Polite (m : Machine g) (action : Action g) : Prop :=
  ∀ b pos, action = .writeBegin b → m.player = .seekWoken pos →
    findSlot m.storage.slotList b.pieceIndex = none

structure Guarded (m : Machine g) : Prop where
  writer : m.storage.updatingBuffer = false ↔ m.writer = .idle
  woken : ∀ pos, m.player = .seekWoken pos → m.storage.updatingBuffer = false

/- What the sections do to updatingBuffer. -/

theorem requestSlots_updating {k : Int} (eq : requestSlots g build s k = .ok t) :
    t.updatingBuffer = s.updatingBuffer := by
  obtain ⟨slotList, _, eq⟩ := bind_ok eq
  rw [Except.ok.injEq] at eq
  rw [← eq]
  rfl

theorem readEnd_updating {n : Int} (eq : readEnd g build s n = .ok t) :
    t.updatingBuffer = s.updatingBuffer := by
  have kept := requestSlots_updating eq
  exact kept

theorem seekEnd_updating {pos : Nat} (eq : seekEnd g build s pos = .ok t) :
    t.updatingBuffer = s.updatingBuffer := by
  obtain ⟨_, _, eq⟩ := bind_ok eq
  have kept := requestSlots_updating eq
  exact kept

theorem copyNext_updating {b : Block g} {kept : Unlocked} {n : Nat}
    (eq : copyNext g content s b kept n = .ok t) : t.updatingBuffer = s.updatingBuffer := by
  obtain ⟨buffer, _, eq⟩ := bind_ok eq
  rw [Except.ok.injEq] at eq
  rw [← eq]

theorem writeEnd_updating {itr : Nat} {len offset : Int}
    (eq : writeEnd g build s itr len offset = .ok t) : t.updatingBuffer = false := by
  unfold writeEnd at eq
  split at eq
  · cases eq
  · obtain ⟨_, _, eq⟩ := bind_ok eq
    rw [Except.ok.injEq] at eq
    rw [← eq]

theorem writeBegin_found {b : Block g} {itr : Nat} (idle : m.writer = .idle)
    (found : findSlot m.storage.slotList b.pieceIndex = some itr) :
    ∃ kept, act g content m (.writeBegin b) = some { m with
      storage := { m.storage with updatingBuffer := true }
      writer := .copying b kept 0 } := by
  simp only [act, idle, writeBegin, found, check_release, ok_bind]
  exact ⟨_, rfl⟩

theorem writeBegin_missed {b : Block g} (idle : m.writer = .idle)
    (missed : findSlot m.storage.slotList b.pieceIndex = none) :
    act g content m (.writeBegin b) = some { m with
      storage := m.storage.emit (.pieceOutOfRangeReceived b.len b.offset b.pieceIndex) } := by
  simp only [act, idle, writeBegin, missed]

/- The actions. -/

theorem faulted_guarded (guarded : Guarded m) (fault : Fault) :
    Guarded { m with fault := some fault } :=
  ⟨guarded.writer, guarded.woken⟩

theorem settle_guarded (guarded : Guarded m) {result : Except Fault State}
    {after : State → Machine g} (succeeds : ∀ s, result = .ok s → Guarded (after s)) :
    Guarded (settle m result after) := by
  cases eq : result with
  | ok s => exact succeeds s eq
  | error fault => exact faulted_guarded guarded fault

theorem reading_guarded (guarded : Guarded m) (len : Nat) : Guarded (startReading g m len) := by
  unfold startReading
  split
  · exact ⟨guarded.writer, fun pos woken => by cases woken⟩
  · exact faulted_guarded guarded _

theorem write_guarded (guarded : Guarded m) {b : Block g} (polite : Polite m (.writeBegin b))
    (taken : act g content m (.writeBegin b) = some m') : Guarded m' := by
  cases writing : m.writer with
  | copying b' kept n => simp [act, writing] at taken
  | idle =>
    cases found : findSlot m.storage.slotList b.pieceIndex with
    | some itr =>
      obtain ⟨kept, eq⟩ := writeBegin_found writing found
      rw [eq, Option.some.injEq] at taken
      rw [← taken]
      refine ⟨by simp, fun pos woken => ?_⟩
      rw [polite b pos rfl woken] at found
      cases found
    | none =>
      rw [writeBegin_missed writing found, Option.some.injEq] at taken
      rw [← taken]
      exact ⟨guarded.writer, guarded.woken⟩

theorem copy_guarded (guarded : Guarded m) (taken : act g content m .copyByte = some m') :
    Guarded m' := by
  cases writing : m.writer with
  | idle => simp [act, writing] at taken
  | copying b kept n =>
    have busy := guarded.writer
    simp only [writing, reduceCtorEq, iff_false] at busy
    simp only [act, writing] at taken
    split at taken
    · rw [Option.some.injEq] at taken
      rw [← taken]
      refine settle_guarded guarded fun s eq => ?_
      have same := copyNext_updating eq
      refine ⟨by simp [same, busy], fun pos woken => ?_⟩
      exact absurd (guarded.woken pos woken) busy
    · cases taken

theorem ended_guarded (guarded : Guarded m) (taken : act g content m .writeEnd = some m') :
    Guarded m' := by
  cases writing : m.writer with
  | idle => simp [act, writing] at taken
  | copying b kept n =>
    simp only [act, writing] at taken
    split at taken
    · cases taken
    · rw [Option.some.injEq] at taken
      rw [← taken]
      refine settle_guarded guarded fun s eq => ?_
      have free := writeEnd_updating eq
      exact ⟨by simp [free], fun _ _ => free⟩

theorem act_guarded (guarded : Guarded m) (polite : Polite m action)
    (taken : act g content m action = some m') : Guarded m' := by
  cases action with
  | writeBegin b => exact write_guarded guarded polite taken
  | copyByte => exact copy_guarded guarded taken
  | writeEnd => exact ended_guarded guarded taken
  | readBegin len =>
    cases idle : m.player <;> simp only [act, idle, reduceCtorEq] at taken
    split at taken
    · split at taken
      · rw [← Option.some.inj taken]
        exact ⟨guarded.writer, fun pos woken => by cases woken⟩
      · rw [← Option.some.inj taken]
        exact reading_guarded guarded len
    · cases taken
  | readResume =>
    cases woken : m.player <;> simp only [act, woken, reduceCtorEq] at taken
    rw [← Option.some.inj taken]
    exact reading_guarded guarded _
  | readByte =>
    simp only [act] at taken
    split at taken
    · rw [← Option.some.inj taken]
      exact ⟨guarded.writer, fun pos woken => by cases woken⟩
    · cases taken
  | readEnd =>
    simp only [act] at taken
    split at taken
    · rw [← Option.some.inj taken]
      refine settle_guarded guarded fun s eq => ⟨?_, fun pos woken => by cases woken⟩
      rw [readEnd_updating eq]
      exact guarded.writer
    · cases taken
  | seek pos =>
    cases idle : m.player <;> simp only [act, idle, reduceCtorEq] at taken
    split at taken
    · split at taken
      · rw [← Option.some.inj taken]
        exact ⟨guarded.writer, fun pos woken => by cases woken⟩
      · rw [← Option.some.inj taken]
        refine settle_guarded guarded fun s eq => ⟨?_, fun pos woken => ?_⟩
        · rw [seekEnd_updating eq]
          exact guarded.writer
        · cases woken
    · cases taken
  | seekResume =>
    cases woken : m.player <;> simp only [act, woken, reduceCtorEq] at taken
    rw [← Option.some.inj taken]
    refine settle_guarded guarded fun s eq => ⟨?_, fun pos woken => by cases woken⟩
    rw [seekEnd_updating eq]
    exact guarded.writer

theorem guarded_excludes (guarded : Guarded m) (taken : act g content m action = some m') :
    ExcludesWriter m action := by
  intro goes
  cases action with
  | seek pos => exact ⟨goes, guarded.writer.mp goes⟩
  | seekResume =>
    cases woken : m.player <;> simp only [act, woken, reduceCtorEq] at taken
    have free := guarded.woken _ woken
    exact ⟨free, guarded.writer.mp free⟩
  | _ => exact goes.elim

theorem start_guarded (initial : (concurrent g content).start m) : Guarded m := by
  obtain ⟨idle, still, _, memory, eq⟩ := initial
  have free : m.storage.updatingBuffer = false := requestSlots_updating eq
  exact ⟨by simp [free, idle], fun _ _ => free⟩

theorem seekResume_enabled (content : Content) {m : Machine g} {pos : Nat}
    (woken : m.player = .seekWoken pos) : ∃ m', act g content m .seekResume = some m' :=
  ⟨_, by simp only [act, woken]; rfl⟩

/-- A seek never goes on during a write if every step is polite; one that is not can be followed
    at once by a seek that does. -/
theorem seek_excludes_writer (initial : (concurrent g content).start m) :
    (∀ steps m', Run (concurrent g content) m steps m' → EveryStep Polite steps →
      EveryStep ExcludesWriter steps) ∧
    ∀ steps m₁ action m₂, Run (concurrent g content) m steps m₁ →
      (concurrent g content).step m₁ action m₂ → ¬ Polite m₁ action →
        ∃ m₃, (concurrent g content).step m₂ .seekResume m₃ ∧ ¬ ExcludesWriter m₂ .seekResume := by
  constructor
  · intro steps m' run polite p mem
    have preserved : ∀ m action m', Guarded m → (concurrent g content).step m action m' →
        Polite m action → Guarded m' :=
      fun m action m' guarded taken here => act_guarded guarded here taken.2
    have guarded := guarded_run_invariant preserved run (start_guarded initial) polite
    obtain ⟨m'', taken⟩ := run_taken run p mem
    exact guarded_excludes (guarded.1 p mem) taken.2
  · intro steps m₁ action m₂ run taken rude
    simp only [Polite, not_forall] at rude
    obtain ⟨b, pos, rfl, woken, finds⟩ := rude
    obtain ⟨itr, found⟩ := Option.ne_none_iff_exists'.mp finds
    cases writing : m₁.writer with
    | copying b' kept n => simp [concurrent, act, writing] at taken
    | idle =>
      have copies := taken.2
      obtain ⟨kept, eq⟩ := writeBegin_found writing found
      rw [eq, Option.some.injEq] at copies
      obtain ⟨m₃, resumed⟩ := seekResume_enabled content (m := m₂) (by rw [← copies]; exact woken)
      refine ⟨m₃, ⟨by rw [← copies]; exact taken.1, resumed⟩, fun excludes => ?_⟩
      have free := (excludes trivial).1
      rw [← copies] at free
      cases free

theorem seek_waits_for_write :
    ∃ steps m, Run (concurrent eightBytes Streaming.digits) bothIdle steps m ∧
      steps.map Prod.snd = writeOf 0 ++ [.seek 0, .writeEnd, .seekResume] ∧
      EveryStep ExcludesWriter steps := by
  have run : Run (concurrent eightBytes Streaming.digits) bothIdle _ _ :=
    .snoc (.snoc (.snoc (.snoc (.snoc (.snoc (.nil bothIdle)
      (next_step _ (.writeBegin (piece 0)) _ rfl)) (next_step _ .copyByte _ rfl))
      (next_step _ .copyByte _ rfl)) (next_step _ (.seek 0) _ rfl)) (next_step _ .writeEnd _ rfl))
      (next_step _ .seekResume _ rfl)
  refine ⟨_, _, run, rfl, (seek_excludes_writer bothIdle_start).1 _ _ run ?_⟩
  simp only [everyStep_snoc]
  refine ⟨⟨⟨⟨⟨⟨by simp [EveryStep], ?_⟩, by simp [Polite]⟩, by simp [Polite]⟩, by simp [Polite]⟩,
    by simp [Polite]⟩, by simp [Polite]⟩
  intro b pos _ woken
  cases woken

/-- A second write begins between the wake-up of the seek and its return to the mutex. -/
theorem seek_goes_on_during_write :
    ¬ ∀ (g : Geometry) (content : Content) (m m' : Machine g) (steps : List (Machine g × Action g)),
      (concurrent g content).start m → Run (concurrent g content) m steps m' →
        EveryStep ExcludesWriter steps := by
  intro always
  obtain ⟨steps, run, _⟩ := bothIdle_run (writeOf 0 ++
    [.seek 0, .writeEnd, .writeBegin (piece 1)]) rfl
  have last := always eightBytes Streaming.digits _ _ _ bothIdle_start
    (.snoc run (next_step _ .seekResume _ rfl))
  exact absurd ((everyStep_snoc.mp last).2 trivial).1 (by decide)

end TwoThreads
