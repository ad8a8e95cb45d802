import QtPlayer.Storage.Streaming

/- The source thread writes while the player's thread reads and seeks. A step is one section
   under the mutex or the copy of one byte made without it; a waiting thread is first woken and
   takes the mutex at some later step. Asserts are ignored. -/
namespace TwoThreads
open FlatPieceMemoryStorage StorageRange StorageGeometry StorageSlots StorageInvariant ReadPath
open HalfOpenSegments TransitionRuns MachineGeometry

/-- Between its two sections a write holds its block, what it kept, and how much is copied. -/
inductive Writer (g : Geometry) where
  | idle
  | copying (block : Block g) (kept : Unlocked) (copied : Nat)

/-- Between its two sections a read holds the cells it has still to copy, the bytes it has
    copied, and how many it will have obtained. -/
inductive Player where
  | idle
  | readWaiting (len : Nat)
  | readWoken (len : Nat)
  | reading (cells : List Int) (buf : List UInt8) (obtainBytes : Int)
  | seekWaiting (pos : Nat)
  | seekWoken (pos : Nat)

/-- A fault ends the run: nothing is promised after an access outside the list or a buffer. -/
structure Machine (g : Geometry) where
  storage : State
  writer : Writer g
  player : Player
  fault : Option Fault

inductive Action (g : Geometry) where
  | writeBegin (block : Block g)
  | copyByte
  | writeEnd
  | readBegin (len : Nat)
  | readResume
  | readByte
  | readEnd
  | seek (pos : Nat)
  | seekResume

variable {g : Geometry} {content : Content}

def wakeAll (s : State) : Player → Player
  | .readWaiting len => if s.absWPos > s.absRPos then .readWoken len else .readWaiting len
  | .seekWaiting pos => .seekWoken pos
  | player => player

def settle (m : Machine g) (result : Except Fault State) (after : State → Machine g) : Machine g :=
  match result with
  | .ok s => after s
  | .error fault => { m with fault := some fault }

def copyNext (g : Geometry) (content : Content) (s : State) (b : Block g) (kept : Unlocked)
    (copied : Nat) : Except Fault State := do
  let buffer ← copyIn g s.buffer (kept.dataPos + copied)
    (slice content (g.pieceAbsPos b.pieceIndex + b.offset + copied) 1) 1
  .ok { s with buffer := buffer }

def startReading (g : Geometry) (m : Machine g) (len : Nat) : Machine g :=
  match readStart g .release m.storage len with
  | .ok (cells, obtainBytes) => { m with player := .reading cells [] obtainBytes }
  | .error fault => { m with fault := some fault }

def act (g : Geometry) (content : Content) (m : Machine g) : Action g → Option (Machine g)
  | .writeBegin b =>
    match m.writer with
    | .idle =>
      match writeBegin g .release m.storage b.len b.offset b.pieceIndex with
      | .ok (s, some kept) => some { m with storage := s, writer := .copying b kept 0 }
      | .ok (s, none) => some { m with storage := s }
      | .error fault => some { m with fault := some fault }
    | .copying .. => none
  | .copyByte =>
    match m.writer with
    | .copying b kept copied =>
      if copied < b.len then
        some (settle m (copyNext g content m.storage b kept copied) fun s =>
          { m with storage := s, writer := .copying b kept (copied + 1) })
      else none
    | .idle => none
  | .writeEnd =>
    match m.writer with
    | .copying b kept copied =>
      if copied < b.len then none
      else some (settle m (writeEnd g .release m.storage kept.itr b.len b.offset) fun s =>
        { m with storage := s, writer := .idle, player := wakeAll s m.player })
    | .idle => none
  | .readBegin len =>
    match m.player with
    | .idle =>
      if (len : Int) ≤ INT_MAX then
        if m.storage.absRPos ≥ m.storage.absWPos then some { m with player := .readWaiting len }
        else some (startReading g m len)
      else none
    | _ => none
  | .readResume =>
    match m.player with
    | .readWoken len => some (startReading g m len)
    | _ => none
  | .readByte =>
    match m.player with
    | .reading (cell :: cells) buf obtainBytes =>
      some { m with player := .reading cells (buf ++ [m.storage.buffer cell]) obtainBytes }
    | _ => none
  | .readEnd =>
    match m.player with
    | .reading [] _ obtainBytes =>
      some (settle m (readEnd g .release m.storage obtainBytes) fun s =>
        { m with storage := s, player := .idle })
    | _ => none
  | .seek pos =>
    match m.player with
    | .idle =>
      if (pos : Int) ≤ g.fSize then
        if m.storage.updatingBuffer then some { m with player := .seekWaiting pos }
        else some (settle m (seekEnd g .release m.storage pos) fun s => { m with storage := s })
      else none
    | _ => none
  | .seekResume =>
    match m.player with
    | .seekWoken pos =>
      some (settle m (seekEnd g .release m.storage pos) fun s =>
        { m with storage := s, player := .idle })
    | _ => none

def concurrent (g : Geometry) (content : Content) : System (Machine g) (Action g) where
  start m := m.writer = .idle ∧ m.player = .idle ∧ m.fault = none ∧
    ∃ memory, opened g .release memory = .ok m.storage
  step m action m' := m.fault = none ∧ act g content m action = some m'

/- What holds in every state, whatever the order of the sections. -/

/-- The writing thread copies its block to the place of its piece; only pieces less than one
    turn of the cache away have anything recorded. -/
structure Copying (g : Geometry) (content : Content) (s : State) (b : Block g) (kept : Unlocked)
    (copied : Nat) : Prop where
  place : kept.dataPos = g.posInCacheByPiece b.pieceIndex + b.offset
  window : b.pieceIndex ∈ window g (b.pieceIndex - kept.itr)
  after : g.firstPiece ≤ b.pieceIndex
  inside : copied ≤ b.len
  delivered : ∀ o, b.offset ≤ o → o < b.offset + copied →
    s.buffer (g.posInCacheByPiece b.pieceIndex + o) = content (g.pieceAbsPos b.pieceIndex + o)
  near : ∀ p o, Recorded s.slotList p o →
    p - b.pieceIndex < g.cacheSizeInPieces ∧ b.pieceIndex - p < g.cacheSizeInPieces

def WriterSound (g : Geometry) (content : Content) (s : State) : Writer g → Prop
  | .idle => s.updatingBuffer = false
  | .copying b kept copied => s.updatingBuffer = true ∧ Copying g content s b kept copied

/-- A read sleeps only with nothing ahead of it, and copies what was ahead of it when it began; a
    seek sleeps only during a write. -/
def PlayerSound (g : Geometry) (s : State) : Player → Prop
  | .idle => True
  | .readWaiting len => (len : Int) ≤ INT_MAX ∧ s.absWPos ≤ s.absRPos
  | .readWoken len => (len : Int) ≤ INT_MAX ∧ s.absRPos < s.absWPos
  | .reading cells buf obtainBytes => (buf.length : Int) + cells.length = obtainBytes ∧
      s.absRPos + obtainBytes ≤ s.absWPos ∧
      cells = slice (cacheCell g) (s.absRPos + buf.length) cells.length
  | .seekWaiting pos => (pos : Int) ≤ g.fSize ∧ s.updatingBuffer = true
  | .seekWoken pos => (pos : Int) ≤ g.fSize

structure Sound (g : Geometry) (content : Content) (m : Machine g) : Prop where
  layout : Layout g m.storage
  behind : Behind g m.storage
  writer : WriterSound g content m.storage m.writer
  player : PlayerSound g m.storage m.player

def began (g : Geometry) (m : Machine g) (len : Nat) : Machine g := { m with
  player := .reading (slice (cacheCell g) m.storage.absRPos (readLength m.storage len)) []
    (readLength m.storage len) }

inductive Outcome (g : Geometry) (content : Content) (m : Machine g) :
    Action g → Machine g → Prop where
  | found (b : Block g) (slot : Slot) (itr : Nat) (idle : m.writer = .idle)
      (here : m.storage.slotList[itr]? = some slot) (index : slot.1 = b.pieceIndex)
      (itrEq : itr = (b.pieceIndex - m.storage.absRPos / g.pieceLen).toNat) :
      Outcome g content m (.writeBegin b) { m with
        storage := { m.storage with updatingBuffer := true }
        writer := .copying b ⟨itr, g.posInCacheByPiece b.pieceIndex + b.offset⟩ 0 }
  | skipped (b : Block g) (absent : ∀ slot ∈ m.storage.slotList, slot.1 ≠ b.pieceIndex) :
      Outcome g content m (.writeBegin b) { m with
        storage := m.storage.emit (.pieceOutOfRangeReceived b.len b.offset b.pieceIndex) }
  | copied (b : Block g) (kept : Unlocked) (n : Nat) (writing : m.writer = .copying b kept n)
      (more : n < b.len) : Outcome g content m .copyByte { m with
        storage := { m.storage with
          buffer := store m.storage.buffer (kept.dataPos + n)
            (slice content (g.pieceAbsPos b.pieceIndex + b.offset + n) 1) }
        writer := .copying b kept (n + 1) }
  | recorded (b : Block g) (kept : Unlocked) (n : Nat) (slot : Slot)
      (writing : m.writer = .copying b kept n) (whole : (n : Int) = b.len)
      (here : m.storage.slotList[kept.itr]? = some slot) :
      Outcome g content m .writeEnd { m with
        storage := recordSlot g m.storage kept.itr slot (b.offset, b.offset + b.len)
        writer := .idle
        player := wakeAll
          (recordSlot g m.storage kept.itr slot (b.offset, b.offset + b.len)) m.player }
  | dangling (b : Block g) (kept : Unlocked) (n : Nat) (writing : m.writer = .copying b kept n)
      (past : m.storage.slotList[kept.itr]? = none) :
      Outcome g content m .writeEnd { m with fault := some .danglingIterator }
  | waits (len : Nat) (idle : m.player = .idle) (fits : (len : Int) ≤ INT_MAX)
      (nothing : m.storage.absWPos ≤ m.storage.absRPos) :
      Outcome g content m (.readBegin len) { m with player := .readWaiting len }
  | begins (len : Nat) (idle : m.player = .idle) (issued : m.storage.absRPos < m.storage.absWPos) :
      Outcome g content m (.readBegin len) (began g m len)
  | resumes (len : Nat) (woken : m.player = .readWoken len)
      (issued : m.storage.absRPos < m.storage.absWPos) :
      Outcome g content m .readResume (began g m len)
  | fetched (cell : Int) (cells : List Int) (buf : List UInt8) (obtainBytes : Int)
      (reading : m.player = .reading (cell :: cells) buf obtainBytes) :
      Outcome g content m .readByte { m with
        player := .reading cells (buf ++ [m.storage.buffer cell]) obtainBytes }
  | advanced (buf : List UInt8) (obtainBytes : Int)
      (done : m.player = .reading [] buf obtainBytes) (nonneg : 0 ≤ obtainBytes)
      (atMost : m.storage.absRPos + obtainBytes ≤ m.storage.absWPos) :
      Outcome g content m .readEnd { m with
        storage := reposition g m.storage (m.storage.absRPos + obtainBytes) m.storage.absWPos
        player := .idle }
  | seekWaits (pos : Nat) (idle : m.player = .idle) (inFile : (pos : Int) ≤ g.fSize)
      (updating : m.storage.updatingBuffer = true) :
      Outcome g content m (.seek pos) { m with player := .seekWaiting pos }
  | sought (pos : Nat) (idle : m.player = .idle) (inFile : (pos : Int) ≤ g.fSize)
      (free : m.storage.updatingBuffer = false) :
      Outcome g content m (.seek pos) { m with
        storage := reposition g m.storage (pos + g.fOffset) (seekWPos g m.storage pos) }
  | seekResumes (pos : Nat) (woken : m.player = .seekWoken pos) (inFile : (pos : Int) ≤ g.fSize) :
      Outcome g content m .seekResume { m with
        storage := reposition g m.storage (pos + g.fOffset) (seekWPos g m.storage pos)
        player := .idle }

variable {m m' : Machine g} {action : Action g}

theorem startReading_eq [g.Counted] (layout : Layout g m.storage) (behind : Behind g m.storage)
    (issued : m.storage.absRPos < m.storage.absWPos) {len : Nat} (fits : (len : Int) ≤ INT_MAX) :
    startReading g m len = began g m len := by
  have started := readStart_eq layout behind issued fits (Or.inl (Eq.refl Build.release))
  unfold startReading
  rw [started]
  rfl

theorem copying_region {s : State} {b : Block g} {kept : Unlocked} {n : Nat}
    (copying : Copying g content s b kept n) (more : n < b.len) :
    0 ≤ kept.dataPos + n ∧ kept.dataPos + n + 1 ≤ g.cacheSize := by
  have region := block_region b copying.after
  have place := copying.place
  omega

/- What each action does, one section at a time. -/

theorem writeBegin_outcome [g.Counted] (layout : Layout g m.storage) {b : Block g}
    (taken : act g content m (.writeBegin b) = some m') :
    Outcome g content m (.writeBegin b) m' := by
  cases writing : m.writer with
  | copying b' kept n => simp [act, writing] at taken
  | idle =>
    by_cases listed : ∃ slot ∈ m.storage.slotList, slot.1 = b.pieceIndex
    · obtain ⟨slot, mem, index⟩ := listed
      have low := b.len_pos
      have high := b.inside
      simp only [act, writing, writeBegin_listed .release layout mem index b.offset_nonneg
        (show b.offset < g.pieceLen by omega), Option.some.injEq] at taken
      subst taken
      exact .found b slot _ writing (findSlot_listed layout.consecutive mem index).2 index rfl
    · have absent : ∀ slot ∈ m.storage.slotList, slot.1 ≠ b.pieceIndex :=
        fun slot mem index => listed ⟨slot, mem, index⟩
      simp only [act, writing, writeBegin_unlisted .release layout absent,
        Option.some.injEq] at taken
      subst taken
      exact writing ▸ .skipped b absent

theorem copyByte_outcome (sound : WriterSound g content m.storage m.writer)
    (taken : act g content m .copyByte = some m') : Outcome g content m .copyByte m' := by
  cases writing : m.writer with
  | idle => simp [act, writing] at taken
  | copying b kept n =>
    rw [writing] at sound
    simp only [act, writing] at taken
    split at taken
    · rename_i more
      have region := copying_region sound.2 more
      simp only [copyNext, copyIn_slice (show (0 : Int) ≤ 1 by decide) region.1 region.2, ok_bind,
        settle, Option.some.injEq] at taken
      subst taken
      exact .copied b kept n writing more
    · cases taken

theorem writeEnd_outcome [g.Counted] (layout : Layout g m.storage)
    (sound : WriterSound g content m.storage m.writer)
    (taken : act g content m .writeEnd = some m') : Outcome g content m .writeEnd m' := by
  cases writing : m.writer with
  | idle => simp [act, writing] at taken
  | copying b kept n =>
    rw [writing] at sound
    have inside := sound.2.inside
    simp only [act, writing] at taken
    split at taken
    · cases taken
    · rename_i whole
      cases here : m.storage.slotList[kept.itr]? with
      | none =>
        simp only [writeEnd, here, settle, Option.some.injEq] at taken
        subst taken
        exact .dangling b kept n writing here
      | some slot =>
        rw [writeEnd_eq .release layout here b.offset_nonneg b.len_pos b.inside] at taken
        simp only [settle, Option.some.injEq] at taken
        subst taken
        exact .recorded b kept n slot writing (by omega) here

theorem readBegin_outcome [g.Counted] (layout : Layout g m.storage) (behind : Behind g m.storage)
    {len : Nat}
    (taken : act g content m (.readBegin len) = some m') :
    Outcome g content m (.readBegin len) m' := by
  cases idle : m.player <;> simp only [act, idle, reduceCtorEq] at taken
  split at taken
  · rename_i fits
    split at taken
    · rename_i nothing
      rw [Option.some.injEq] at taken
      subst taken
      exact .waits len idle fits nothing
    · rename_i some
      have issued : m.storage.absRPos < m.storage.absWPos := by omega
      rw [Option.some.injEq, startReading_eq layout behind issued fits] at taken
      subst taken
      exact .begins len idle issued
  · cases taken

theorem readResume_outcome [g.Counted] (layout : Layout g m.storage) (behind : Behind g m.storage)
    (sound : PlayerSound g m.storage m.player) (taken : act g content m .readResume = some m') :
    Outcome g content m .readResume m' := by
  cases woken : m.player <;> simp only [act, woken, reduceCtorEq] at taken
  rename_i len
  rw [woken] at sound
  rw [Option.some.injEq, startReading_eq layout behind sound.2 sound.1] at taken
  subst taken
  exact .resumes len woken sound.2

theorem readByte_outcome (taken : act g content m .readByte = some m') :
    Outcome g content m .readByte m' := by
  cases reading : m.player with
  | reading cells buf obtainBytes =>
    cases cells with
    | nil => simp [act, reading] at taken
    | cons cell cells =>
      simp only [act, reading, Option.some.injEq] at taken
      subst taken
      exact .fetched cell cells buf obtainBytes reading
  | _ => simp [act, reading] at taken

theorem readEnd_outcome [g.Counted] (layout : Layout g m.storage)
    (sound : PlayerSound g m.storage m.player)
    (taken : act g content m .readEnd = some m') : Outcome g content m .readEnd m' := by
  cases reading : m.player with
  | reading cells buf obtainBytes =>
    cases cells with
    | cons cell cells => simp [act, reading] at taken
    | nil =>
      rw [reading] at sound
      obtain ⟨amount, atMost, _⟩ := sound
      have nonneg : 0 ≤ obtainBytes := by
        rw [← amount]
        simp
      simp only [act, reading, readEnd_eq .release layout nonneg atMost, settle,
        Option.some.injEq] at taken
      subst taken
      exact .advanced buf obtainBytes reading nonneg atMost
  | _ => simp [act, reading] at taken

theorem seek_outcome [g.Counted] (layout : Layout g m.storage) {pos : Nat}
    (taken : act g content m (.seek pos) = some m') : Outcome g content m (.seek pos) m' := by
  cases idle : m.player <;> simp only [act, idle, reduceCtorEq] at taken
  split at taken
  · rename_i inFile
    split at taken
    · rename_i updating
      rw [Option.some.injEq] at taken
      subst taken
      exact .seekWaits pos idle inFile updating
    · rename_i free
      simp only [seekEnd_eq layout (check_release _ _) (seek_counted inFile), settle,
        Option.some.injEq] at taken
      subst taken
      exact idle ▸ .sought pos idle inFile (by simpa using free)
  · cases taken

theorem seekResume_outcome [g.Counted] (layout : Layout g m.storage)
    (sound : PlayerSound g m.storage m.player) (taken : act g content m .seekResume = some m') :
    Outcome g content m .seekResume m' := by
  cases woken : m.player <;> simp only [act, woken, reduceCtorEq] at taken
  rename_i pos
  rw [woken] at sound
  simp only [seekEnd_eq layout (check_release _ _) (seek_counted sound), settle,
    Option.some.injEq] at taken
  subst taken
  exact .seekResumes pos woken sound

theorem act_outcome [g.Counted] (sound : Sound g content m)
    (taken : act g content m action = some m') :
    Outcome g content m action m' := by
  obtain ⟨layout, behind, writer, player⟩ := sound
  cases action with
  | writeBegin b => exact writeBegin_outcome layout taken
  | copyByte => exact copyByte_outcome writer taken
  | writeEnd => exact writeEnd_outcome layout writer taken
  | readBegin len => exact readBegin_outcome layout behind taken
  | readResume => exact readResume_outcome layout behind player taken
  | readByte => exact readByte_outcome taken
  | readEnd => exact readEnd_outcome layout player taken
  | seek pos => exact seek_outcome layout taken
  | seekResume => exact seekResume_outcome layout player taken

theorem copying_reposition {s : State} {b : Block g} {kept : Unlocked} {n : Nat} {j r w : Int}
    (windowed : Windowed g j s.slotList) (copying : Copying g content s b kept n) :
    Copying g content (reposition g s r w) b kept n :=
  { copying with
    near := fun p o recorded =>
      copying.near p o ((recorded_keptWindow windowed.consecutive).mp recorded).2 }

theorem writer_reposition {s : State} {writer : Writer g} {j r w : Int}
    (windowed : Windowed g j s.slotList) (sound : WriterSound g content s writer) :
    WriterSound g content (reposition g s r w) writer := by
  cases writer with
  | idle => exact sound
  | copying b kept n => exact ⟨sound.1, copying_reposition windowed sound.2⟩

theorem found_copying {s : State} (layout : Layout g s) (b : Block g) {slot : Slot} {itr : Nat}
    (here : s.slotList[itr]? = some slot) (index : slot.1 = b.pieceIndex)
    (itrEq : itr = (b.pieceIndex - s.absRPos / g.pieceLen).toNat) :
    Copying g content { s with updatingBuffer := true } b
      ⟨itr, g.posInCacheByPiece b.pieceIndex + b.offset⟩ 0 where
  place := rfl
  window := by
    have mem := List.mem_of_getElem? here
    have listed := (layout_listed layout).mp ⟨slot, mem, index⟩
    have start := (mem_window.mp listed).1
    have same : b.pieceIndex - itr = s.absRPos / g.pieceLen := by omega
    rwa [same]
  after := index ▸ listed_after_first layout (List.mem_of_getElem? here)
  inside := by have := b.len_pos; simp only [Nat.cast_zero]; omega
  delivered := by intro o low high; simp only [Nat.cast_zero] at high; omega
  near := by
    intro p o recorded
    have own := mem_window.mp
      ((layout_listed layout).mp ⟨slot, List.mem_of_getElem? here, index⟩)
    have other := mem_window.mp (recorded_bounds layout recorded).1
    omega

theorem copied_copying {s : State} {b : Block g} {kept : Unlocked} {n : Nat}
    (copying : Copying g content s b kept n) (more : n < b.len) :
    Copying g content { s with
      buffer := store s.buffer (kept.dataPos + n)
        (slice content (g.pieceAbsPos b.pieceIndex + b.offset + n) 1) } b kept (n + 1) where
  place := copying.place
  window := copying.window
  after := copying.after
  inside := by push_cast; omega
  near := copying.near
  delivered := by
    intro o low high
    push_cast at high
    have place := copying.place
    dsimp only
    by_cases new : o = b.offset + n
    · rw [store_slice_inside (by omega) (by omega)]
      congr 1
      omega
    · rw [store_slice_outside (by omega)]
      exact copying.delivered o low (by omega)

theorem slice_uncons {β : Type} {f : Int → β} {x : Int} {y : β} {ys : List β}
    (same : y :: ys = slice f x (y :: ys).length) :
    y = f x ∧ ys = slice f (x + 1) ys.length := by
  have parts := slice_append f x (show (0 : Int) ≤ 1 by decide) (Int.natCast_nonneg ys.length)
  have total : 1 + (ys.length : Int) = (y :: ys).length := by
    rw [List.length_cons]
    push_cast
    omega
  rw [total, ← same, slice_one, List.singleton_append, List.cons.injEq] at parts
  exact ⟨parts.1.symm, parts.2.symm⟩

theorem wakeAll_sound {s t : State} {player : Player} (stays : t.absRPos = s.absRPos)
    (grows : s.absWPos ≤ t.absWPos) (sound : PlayerSound g s player) :
    PlayerSound g t (wakeAll t player) := by
  cases player with
  | idle => trivial
  | readWaiting len =>
    simp only [wakeAll]
    split
    · rename_i ahead
      exact ⟨sound.1, ahead⟩
    · rename_i nothing
      exact ⟨sound.1, by omega⟩
  | readWoken len =>
    obtain ⟨fits, issued⟩ := sound
    exact ⟨fits, by omega⟩
  | reading cells buf obtainBytes =>
    obtain ⟨amount, atMost, same⟩ := sound
    exact ⟨amount, by omega, by rw [stays]; exact same⟩
  | seekWaiting pos => exact sound.1
  | seekWoken pos => exact sound

theorem player_kept {s t : State} {player : Player} (read : t.absRPos = s.absRPos)
    (write : t.absWPos = s.absWPos) (flag : s.updatingBuffer = true → t.updatingBuffer = true)
    (sound : PlayerSound g s player) : PlayerSound g t player := by
  cases player with
  | idle => trivial
  | readWaiting len => exact ⟨sound.1, by rw [read, write]; exact sound.2⟩
  | readWoken len => exact ⟨sound.1, by rw [read, write]; exact sound.2⟩
  | reading cells buf obtainBytes =>
    obtain ⟨amount, atMost, same⟩ := sound
    exact ⟨amount, by rw [read, write]; exact atMost, by rw [read]; exact same⟩
  | seekWaiting pos => exact ⟨sound.1, flag sound.2⟩
  | seekWoken pos => exact sound

theorem began_sound {s : State} (issued : s.absRPos < s.absWPos) (len : Nat) :
    PlayerSound g s (.reading (slice (cacheCell g) s.absRPos (readLength s len)) []
      (readLength s len)) := by
  have nonneg : 0 ≤ readLength s len := by
    unfold readLength
    omega
  have amount : ((readLength s len).toNat : Int) = readLength s len := by omega
  refine ⟨by simp [amount], ?_, by simp [amount]⟩
  unfold readLength
  omega

theorem outcome_sound [g.Counted] (sound : Sound g content m)
    (outcome : Outcome g content m action m') : Sound g content m' := by
  have layout := sound.layout
  have windowed := layout_windowed layout
  have behind := sound.behind
  have writer := sound.writer
  have player := sound.player
  cases outcome with
  | found b slot itr idle here index itrEq =>
    exact ⟨{ layout with }, { behind with }, ⟨rfl, found_copying layout b here index itrEq⟩,
      player_kept (s := m.storage) rfl rfl (fun _ => rfl) player⟩
  | skipped b absent =>
    refine ⟨{ layout with }, { behind with }, ?_,
      player_kept (s := m.storage) rfl rfl (fun updating => updating) player⟩
    cases writing : m.writer with
    | idle => rw [writing] at writer; exact writer
    | copying b' kept n => rw [writing] at writer; exact ⟨writer.1, { writer.2 with }⟩
  | copied b kept n writing more =>
    rw [writing] at writer
    exact ⟨{ layout with }, { behind with }, ⟨writer.1, copied_copying writer.2 more⟩,
      player_kept (s := m.storage) rfl rfl (fun updating => updating) player⟩
  | recorded b kept n slot writing whole here =>
    have positive := b.len_pos
    have nonempty : (b.offset, b.offset + b.len).1 < (b.offset, b.offset + b.len).2 := by
      simp only
      omega
    exact ⟨recordSlot_layout layout here b.offset_nonneg nonempty b.inside,
      recordSlot_behind layout behind here b.offset_nonneg nonempty b.inside, rfl,
      wakeAll_sound (s := m.storage) rfl (walk_grows _ _) player⟩
  | dangling b kept n writing past => exact ⟨layout, behind, writer, player⟩
  | waits len idle fits nothing => exact ⟨layout, behind, writer, fits, nothing⟩
  | begins len idle issued => exact ⟨layout, behind, writer, began_sound issued len⟩
  | resumes len woken issued => exact ⟨layout, behind, writer, began_sound issued len⟩
  | fetched cell cells buf obtainBytes reading =>
    rw [reading] at player
    obtain ⟨amount, atMost, same⟩ := player
    have rest := (slice_uncons same).2
    refine ⟨layout, behind, writer, ?_, atMost, ?_⟩
    · rw [List.length_cons] at amount
      rw [List.length_append, List.length_singleton]
      push_cast at amount ⊢
      omega
    · simp only [List.length_append, List.length_singleton]
      push_cast
      rwa [← Int.add_assoc]
  | advanced buf obtainBytes done nonneg atMost =>
    exact ⟨forward_layout layout nonneg atMost, forward_behind layout behind nonneg atMost,
      writer_reposition windowed writer, trivial⟩
  | seekWaits pos idle inFile updating => exact ⟨layout, behind, writer, inFile, updating⟩
  | sought pos idle inFile free =>
    refine ⟨sought_layout layout (seek_counted inFile), sought_behind layout behind pos,
      writer_reposition windowed writer, ?_⟩
    rw [idle]
    trivial
  | seekResumes pos woken inFile =>
    exact ⟨sought_layout layout (seek_counted inFile), sought_behind layout behind pos,
      writer_reposition windowed writer, trivial⟩

theorem step_outcome [g.Counted] (sound : Sound g content m)
    (taken : (concurrent g content).step m action m') : Outcome g content m action m' :=
  act_outcome sound taken.2

theorem step_sound [g.Counted] (m : Machine g) (action : Action g) (m' : Machine g)
    (sound : Sound g content m) (taken : (concurrent g content).step m action m') :
    Sound g content m' :=
  outcome_sound sound (step_outcome sound taken)

theorem start_sound [g.Counted] (initial : (concurrent g content).start m) : Sound g content m := by
  obtain ⟨idle, still, _, memory, eq⟩ := initial
  have inv := opened_inv content eq
  refine ⟨inv.layout, inv.behind, ?_, ?_⟩
  · rw [idle]
    exact inv.idle
  · rw [still]
    trivial

/- Which slot a write is recorded in. -/

/-- At its end a write is recorded in the slot of its piece, if that is still listed, and in
    no other slot. -/
def Rightly (m : Machine g) (action : Action g) : Prop :=
  ∀ b kept n, action = .writeEnd → m.writer = .copying b kept n →
    ∃ t, writeEnd g .release m.storage kept.itr b.len b.offset = .ok t ∧
      t.slotList = m.storage.slotList.map fun slot =>
        if slot.1 = b.pieceIndex then (slot.1, slot.2.add (b.offset, b.offset + b.len)) else slot

/-- When a write ends, the window starts at the piece it started at when the write found its
    slot. -/
def WindowKept (m : Machine g) (action : Action g) : Prop :=
  ∀ b kept n, action = .writeEnd → m.writer = .copying b kept n →
    m.storage.absRPos / g.pieceLen + kept.itr = b.pieceIndex

theorem set_eq_map_iff {k : Int} {l : List Slot} {itr : Nat} {slot : Slot}
    (consecutive : Consecutive k l) (here : l[itr]? = some slot) (p : Int) {segment : Segment Int}
    (nonempty : segment.1 < segment.2) :
    (l.set itr (slot.1, slot.2.add segment) =
      l.map fun slot => if slot.1 = p then (slot.1, slot.2.add segment) else slot) ↔
      k + itr = p := by
  have position := consecutive_getElem? consecutive here
  have inside := (List.getElem?_eq_some_iff.mp here).1
  constructor
  · intro same
    by_contra other
    have atItr := congrArg (fun l => l[itr]?) same
    simp only [List.getElem?_set_self inside, List.getElem?_map, here, Option.map_some,
      Option.some.injEq] at atItr
    rw [if_neg (by omega)] at atItr
    have unchanged := congrArg (fun slot : Slot => slot.2.segments) atItr
    exact addSegment_changes nonempty slot.2.segments unchanged
  · intro same
    apply List.ext_getElem?
    intro i
    rw [List.getElem?_map]
    by_cases at_ : i = itr
    · rw [at_, List.getElem?_set_self inside, here, Option.map_some, if_pos (by omega)]
    · rw [List.getElem?_set_ne (Ne.symm at_)]
      cases found : l[i]? with
      | none => rfl
      | some other =>
        have index := consecutive_getElem? consecutive found
        rw [Option.map_some, if_neg (by omega)]

theorem rightly_iff [g.Counted] (sound : Sound g content m) :
    Rightly m action ↔ WindowKept m action := by
  refine forall₃_congr fun b kept n => forall₂_congr fun _ writing => ?_
  have layout := sound.layout
  have writer := sound.writer
  rw [writing] at writer
  have positive := b.len_pos
  have nonempty : (b.offset, b.offset + b.len).1 < (b.offset, b.offset + b.len).2 := by
    simp only
    omega
  cases here : m.storage.slotList[kept.itr]? with
  | some slot =>
    rw [writeEnd_eq .release layout here b.offset_nonneg positive b.inside]
    simp only [Except.ok.injEq, exists_eq_left', recordSlot_slotList]
    exact set_eq_map_iff layout.consecutive here b.pieceIndex nonempty
  | none =>
    refine iff_of_false ?_ ?_
    · rintro ⟨t, eq, _⟩
      simp [writeEnd, here] at eq
    · intro same
      have window := mem_window.mp writer.2.window
      have short := List.getElem?_eq_none_iff.mp here
      rw [layout.length] at short
      unfold windowLength at short
      omega

theorem outcome_cached (sound : Sound g content m) (cached : Cached g content m.storage)
    (outcome : Outcome g content m action m') (kept : WindowKept m action) :
    Cached g content m'.storage := by
  have layout := sound.layout
  have windowed := layout_windowed layout
  have writer := sound.writer
  cases outcome with
  | copied b kept n writing more =>
    rw [writing] at writer
    have copying := writer.2
    intro p o recorded
    obtain ⟨_, after, low, high⟩ := recorded_bounds layout recorded
    have near := copying.near p o recorded
    have place := copying.place
    have offset := b.offset_nonneg
    have inside := b.inside
    dsimp only
    by_cases same : g.posInCacheByPiece b.pieceIndex + (b.offset + n) = g.posInCacheByPiece p + o
    · obtain ⟨samePiece, sameOffset⟩ := posInCacheByPiece_disjoint g copying.after after
        (by omega) (by omega) low high near.2 near.1 same
      rw [store_slice_inside (by omega) (by omega), ← samePiece]
      congr 1
      omega
    · rw [store_slice_outside (by omega)]
      exact cached p o recorded
  | recorded b kept' n slot writing whole here =>
    rw [writing] at writer
    have index := kept b kept' n rfl writing
    have position := consecutive_getElem? layout.consecutive here
    apply recordSlot_cached layout cached here (by have := b.len_pos; simp only; omega)
    rintro o ⟨low, high⟩
    rw [position, index]
    simp only at low high
    exact writer.2.delivered o low (by omega)
  | advanced buf obtainBytes done nonneg atMost => exact reposition_cached windowed cached
  | sought pos idle inFile free => exact reposition_cached windowed cached
  | seekResumes pos woken inFile => exact reposition_cached windowed cached
  | _ => exact cached

/-- Every write of a run is recorded in the right slot, and all recorded bytes are cached,
    exactly if no write ends in another window than it began in. -/
theorem right_slot_iff [g.Counted] {steps : List (Machine g × Action g)}
    (initial : (concurrent g content).start m) (run : Run (concurrent g content) m steps m') :
    (EveryStep Rightly steps ∧ Throughout (fun m => Cached g content m.storage) steps m') ↔
      EveryStep WindowKept steps := by
  have sounds := run_invariant step_sound run (start_sound initial)
  have pointwise : EveryStep Rightly steps ↔ EveryStep WindowKept steps :=
    forall₂_congr fun p mem => rightly_iff (sounds.1 p mem)
  rw [pointwise, and_iff_left_iff_imp]
  intro kept
  have sound := start_sound initial
  obtain ⟨_, _, _, memory, eq⟩ := initial
  have inv := opened_inv content eq
  have preserved : ∀ m action m', Sound g content m ∧ Cached g content m.storage →
      (concurrent g content).step m action m' → WindowKept m action →
        Sound g content m' ∧ Cached g content m'.storage := fun m action m' both taken here =>
    ⟨step_sound m action m' both.1 taken,
      outcome_cached both.1 both.2 (step_outcome both.1 taken) here⟩
  have both := guarded_run_invariant preserved run ⟨sound, inv.cached⟩ kept
  exact ⟨fun p mem => (both.1 p mem).2, both.2.2⟩

def StillWhileWriting (m : Machine g) (action : Action g) : Prop :=
  m.writer ≠ .idle → ∀ x : Int,
    (action = .readEnd ∧ (∃ buf n, m.player = .reading [] buf n ∧ x = m.storage.absRPos + n)) ∨
    ((∃ pos : Nat, (action = .seek pos ∨ (action = .seekResume ∧ m.player = .seekWoken pos)) ∧
      x = pos + g.fOffset)) →
    x / g.pieceLen = m.storage.absRPos / g.pieceLen

def InStep (m : Machine g) : Prop :=
  ∀ b kept n, m.writer = .copying b kept n →
    m.storage.absRPos / g.pieceLen + kept.itr = b.pieceIndex

theorem outcome_inStep (sound : Sound g content m) (inStep : InStep m)
    (outcome : Outcome g content m action m') (still : StillWhileWriting m action) :
    InStep m' := by
  have busy : ∀ {b kept n}, m.writer = .copying b kept n → m.writer ≠ .idle := by
    intro b kept n writing idle
    rw [idle] at writing
    cases writing
  cases outcome with
  | found b slot itr idle here index itrEq =>
    intro b' kept n writing
    cases writing
    have := (consecutive_mem sound.layout.consecutive (List.mem_of_getElem? here)).1
    simp only
    omega
  | copied b kept n writing more =>
    intro b' kept' n' writing'
    cases writing'
    exact inStep b kept n writing
  | recorded b kept n slot writing whole here => intro b' kept' n' writing'; cases writing'
  | advanced buf obtainBytes done nonneg atMost =>
    intro b kept n writing
    have same := still (busy writing) _ (Or.inl ⟨rfl, buf, obtainBytes, done, rfl⟩)
    rw [reposition_absRPos, same]
    exact inStep b kept n writing
  | sought pos idle inFile free =>
    intro b kept n writing
    have same := still (busy writing) _ (Or.inr ⟨pos, Or.inl rfl, rfl⟩)
    rw [reposition_absRPos, same]
    exact inStep b kept n writing
  | seekResumes pos woken inFile =>
    intro b kept n writing
    have same := still (busy writing) _ (Or.inr ⟨pos, Or.inr ⟨rfl, woken⟩, rfl⟩)
    rw [reposition_absRPos, same]
    exact inStep b kept n writing
  | _ => exact inStep

theorem windowKept_of_still [g.Counted] {steps : List (Machine g × Action g)}
    (initial : (concurrent g content).start m) (run : Run (concurrent g content) m steps m')
    (still : EveryStep StillWhileWriting steps) : EveryStep WindowKept steps := by
  have preserved : ∀ m action m', Sound g content m ∧ InStep m →
      (concurrent g content).step m action m' → StillWhileWriting m action →
        Sound g content m' ∧ InStep m' := fun m action m' both taken here =>
    ⟨step_sound m action m' both.1 taken,
      outcome_inStep both.1 both.2 (step_outcome both.1 taken) here⟩
  have start : InStep m := by
    intro b kept n writing
    rw [initial.1] at writing
    cases writing
  have both := guarded_run_invariant preserved run ⟨start_sound initial, start⟩ still
  exact fun p mem b kept n _ writing => (both.1 p mem).2 b kept n writing

/- A file of four pieces, two of them cached. -/

def eightBytes : Geometry := { Streaming.threeBytes with fSize := 8, fSize_pos := by decide }

instance : eightBytes.Counted := ⟨by decide⟩

def piece (p : Int) : Block eightBytes :=
  let whole := Streaming.wholePiece p
  ⟨p, 0, 2, whole.offset_nonneg, whole.len_pos, whole.inside⟩

def bothIdle : Machine eightBytes where
  storage := reposition eightBytes (construct eightBytes fun _ => 0) 0 0
  writer := .idle
  player := .idle
  fault := none

theorem bothIdle_start : (concurrent eightBytes Streaming.digits).start bothIdle :=
  ⟨rfl, rfl, rfl, fun _ => 0, opened_eq .release _⟩

def next (m : Machine eightBytes) (action : Action eightBytes) : Option (Machine eightBytes) :=
  match m.fault with
  | none => act eightBytes Streaming.digits m action
  | some _ => none

theorem next_step (m : Machine eightBytes) (action : Action eightBytes) (m' : Machine eightBytes)
    (computed : next m action = some m') :
    (concurrent eightBytes Streaming.digits).step m action m' := by
  unfold next at computed
  split at computed
  · rename_i running
    exact ⟨running, computed⟩
  · cases computed

def writeOf (p : Int) : List (Action eightBytes) := [.writeBegin (piece p), .copyByte, .copyByte]

theorem bothIdle_run (actions : List (Action eightBytes))
    (succeeds : (replay next bothIdle actions).isSome) :
    ∃ steps, Run (concurrent eightBytes Streaming.digits) bothIdle steps (Option.get _ succeeds) ∧
      steps.map Prod.snd = actions :=
  replay_run next_step (Option.some_get succeeds).symm

theorem right_slot_first_piece :
    ∃ steps m, Run (concurrent eightBytes Streaming.digits) bothIdle steps m ∧
      steps.map Prod.snd = writeOf 0 ++ [.writeEnd] ∧ EveryStep Rightly steps := by
  have run : Run (concurrent eightBytes Streaming.digits) bothIdle _ _ :=
    .snoc (.snoc (.snoc (.snoc (.nil bothIdle) (next_step _ (.writeBegin (piece 0)) _ rfl))
      (next_step _ .copyByte _ rfl)) (next_step _ .copyByte _ rfl)) (next_step _ .writeEnd _ rfl)
  refine ⟨_, _, run, rfl, ((right_slot_iff bothIdle_start run).mpr ?_).1⟩
  simp only [everyStep_snoc]
  refine ⟨⟨⟨⟨by simp [EveryStep], by simp [WindowKept]⟩, by simp [WindowKept]⟩,
    by simp [WindowKept]⟩, ?_⟩
  intro b kept n _ writing
  cases writing
  decide

/-- The reader finishes the first piece while the second is being copied; the copy is recorded
    for the third. -/
theorem moved_window_misleads_write :
    ¬ ∀ (g : Geometry) (content : Content) (m m' : Machine g) (steps : List (Machine g × Action g)),
      (concurrent g content).start m → Run (concurrent g content) m steps m' →
        EveryStep Rightly steps ∧ Throughout (fun m => Cached g content m.storage) steps m' := by
  intro always
  obtain ⟨steps, run, _⟩ := bothIdle_run (writeOf 0 ++ [.writeEnd] ++ writeOf 1 ++
    [.readBegin 2, .readByte, .readByte, .readEnd, .writeEnd]) rfl
  have cached := (always eightBytes Streaming.digits _ _ steps bothIdle_start run).2.2
  have wrong := cached 2 0
    ⟨(2, ⟨[(0, 2)]⟩), by decide, rfl, (0, 2), by decide, by decide, by decide⟩
  exact absurd wrong (by decide)

end TwoThreads
