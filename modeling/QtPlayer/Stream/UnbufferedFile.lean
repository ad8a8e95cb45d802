import Mathlib.Algebra.Order.Ring.Int
import QtPlayer.Stream.Reopening

/- An open stream against the file it reads, as if there were no buffer in between. -/
namespace UnbufferedFile
open FileMediaStream Reopening TransitionRuns

variable {content : List UInt8} {s t : Stream}

/-- FileMediaStream::seek over a QFile::seek that sets the position when it succeeds and leaves
    it when it fails: first to the start of the file, then to the offset. -/
def seekFile (s : Stream) (offset : Nat) (zeroGranted offsetGranted : Bool) : Stream × Int :=
  seek s offset (zeroGranted && offsetGranted) (if zeroGranted then 0 else s.filePos)

/-- A call on the open stream, with what it returned. -/
inductive Access where
  | read (len : Nat) (bytes : List UInt8)
  | seek (offset : Nat) (result : Int)

def Accesses (content : List UInt8) (s : Stream) (access : Access) (t : Stream) : Prop :=
  match access with
  | .read len bytes => Reads content s (len, bytes) t
  | .seek offset result => ∃ zeroGranted offsetGranted,
    seekFile s offset zeroGranted offsetGranted = (t, result)

def accesses (content : List UInt8) : System Stream Access where
  start s := ∃ memory, openFile (construct memory) true = (s, 0)
  step := Accesses content

def Succeeds : Access → Prop
  | .read _ _ => True
  | .seek _ result => result = 0

def successes (content : List UInt8) : System Stream Access where
  start s := ∃ memory, openFile (construct memory) true = (s, 0)
  step s access t := Succeeds access ∧ Accesses content s access t

/-- A file without a buffer, and the byte it stands at: a read returns some of the bytes that
    are next, none only at the end of the file or past it. -/
def unbuffered (content : List UInt8) : System Nat Access where
  start p := p = 0
  step p access q :=
    match access with
    | .read len bytes => bytes.length ≤ len ∧ bytes = (content.drop p).take bytes.length ∧
      (1 ≤ len → bytes = [] → content.length ≤ p) ∧ q = p + bytes.length
    | .seek offset _ => q = offset

def BufferBounds (s : Stream) : Prop :=
  s.currentBufferPos ≤ s.totalBytesBuffer ∧ s.totalBytesBuffer ≤ buffSize

theorem opened_inSync {memory : Nat → UInt8} (opened : openFile (construct memory) true = (s, 0)) :
    InSync content s 0 ∧ BufferBounds s := by
  obtain ⟨rfl, _⟩ := Prod.mk.inj opened
  exact ⟨inSync_of_empty content rfl rfl, Nat.le_refl 0, Nat.zero_le _⟩

theorem seekFile_inSync {p : Nat} (sync : InSync content s p) {offset : Nat}
    {zeroGranted offsetGranted : Bool} {result : Int}
    (sought : seekFile s offset zeroGranted offsetGranted = (t, result)) :
    InSync content t t.filePos ∧ BufferBounds t ∧
      t.filePos = (if zeroGranted && offsetGranted then offset
        else if zeroGranted then 0 else s.filePos) ∧
      result = (if zeroGranted && offsetGranted then 0 else -1) := by
  rw [seekFile, FileMediaStream.seek, if_pos sync.opened] at sought
  obtain ⟨rfl, rfl⟩ := Prod.mk.inj sought
  exact ⟨inSync_of_empty content sync.opened rfl, ⟨Nat.le_refl 0, Nat.zero_le _⟩, rfl, rfl⟩

theorem read_bounds {len : Nat} {obtained : Int} (bounds : BufferBounds s)
    (obtains : Obtains content s.filePos obtained) :
    (FileMediaStream.read content s len obtained).1.totalBytesBuffer ≤ buffSize := by
  have most : obtained ≤ buffSize := by
    unfold Obtains at obtains
    split at obtains
    · exact obtains.2.1
    · rw [obtains]
      exact Int.natCast_nonneg _
  unfold FileMediaStream.read
  split
  · dsimp only
    split
    · simp only [fill]
      split <;> omega
    · exact bounds.2
  · exact bounds.2

theorem reads_inSync {p len : Nat} {bytes : List UInt8} (sync : InSync content s p)
    (bounds : BufferBounds s) (taken : Reads content s (len, bytes) t) :
    (unbuffered content).step p (.read len bytes) (p + bytes.length) ∧
      InSync content t (p + bytes.length) ∧ BufferBounds t := by
  obtain ⟨next, after, most, ended⟩ := reads_next sync taken
  obtain ⟨obtained, obtains, eq⟩ := taken
  have small : (FileMediaStream.read content s len obtained).1.totalBytesBuffer ≤ buffSize :=
    read_bounds bounds obtains
  rw [eq] at small
  exact ⟨⟨most, next, ended, rfl⟩, after, after.cursor, small⟩

def position (s : Stream) : Nat := s.filePos - (s.totalBytesBuffer - s.currentBufferPos)

theorem position_eq {p : Nat} (sync : InSync content s p) : position s = p := by
  rw [position, sync.position]
  omega

def Follows (content : List UInt8) (s : Stream) (p : Nat) : Prop :=
  InSync content s p ∧ BufferBounds s

theorem access_follows {s : Stream} {p : Nat} {access : Access} {t : Stream}
    (follows : Follows content s p) (taken : (successes content).step s access t) :
    ∃ q, (unbuffered content).step p access q ∧ Follows content t q := by
  obtain ⟨succeeds, accessed⟩ := taken
  cases access with
  | read len bytes => exact ⟨_, reads_inSync follows.1 follows.2 accessed⟩
  | seek offset result =>
    obtain ⟨zeroGranted, offsetGranted, sought⟩ := accessed
    obtain ⟨sync, bounds, moved, answer⟩ := seekFile_inSync follows.1 sought
    have granted : (zeroGranted && offsetGranted) = true := by
      by_contra refused
      rw [if_neg refused, show result = 0 from succeeds] at answer
      cases answer
    rw [if_pos granted] at moved
    exact ⟨t.filePos, moved, sync, bounds⟩

/-- To its caller a stream is the file without a buffer, as long as its seeks succeed; a read
    never fails. -/
theorem file_without_buffer {steps : List (Stream × Access)}
    (initial : (successes content).start s) (run : Run (successes content) s steps t) :
    (∃ steps' p, Run (unbuffered content) 0 steps' p ∧ position t = p ∧
      steps'.map Prod.snd = steps.map Prod.snd) ∧
    Throughout BufferBounds steps t ∧ Throughout (Answers content) steps t := by
  obtain ⟨memory, opened⟩ := initial
  have first : Follows content s 0 := opened_inSync opened
  constructor
  · obtain ⟨steps', p, run', after, labels⟩ :=
      run_of_simulation (fun _ _ _ _ => access_follows) run first
    exact ⟨steps', p, run', position_eq after.1, labels⟩
  · have preserved : ∀ s access t, (∃ p, Follows content s p) →
        (successes content).step s access t → ∃ p, Follows content t p := by
      rintro s access t ⟨p, follows⟩ taken
      obtain ⟨q, _, after⟩ := access_follows follows taken
      exact ⟨q, after⟩
    obtain ⟨earlier, p, last⟩ := run_invariant preserved run ⟨0, first⟩
    refine ⟨⟨fun step mem => ?_, last.2⟩, fun step mem => ?_, answers_inSync last.1⟩
    · obtain ⟨_, follows⟩ := earlier step mem
      exact follows.2
    · obtain ⟨_, follows⟩ := earlier step mem
      exact answers_inSync follows.1

def afterOneByte : Stream := (FileMediaStream.read threeBytes opened 1 3).1

theorem obtains_whole_file {s : Stream} (start : s.filePos = 0) :
    Obtains threeBytes s.filePos 3 := by
  rw [start]
  simp [Obtains, threeBytes, buffSize]

theorem reads_one_byte : Reads threeBytes opened (1, [1]) afterOneByte :=
  ⟨3, obtains_whole_file rfl, rfl⟩

/-- One byte is read, and two after a seek back to it. -/
theorem read_seek_read_without_buffer : ∃ steps steps' t,
    Run (successes threeBytes) opened steps t ∧ Run (unbuffered threeBytes) 0 steps' (position t) ∧
      steps.map Prod.snd = [.read 1 [1], .seek 0 0, .read 2 [1, 2]] ∧
      steps'.map Prod.snd = steps.map Prod.snd := by
  let sought := (seekFile afterOneByte 0 true true).1
  have again : Reads threeBytes sought (2, [1, 2]) (FileMediaStream.read threeBytes sought 2 3).1 :=
    ⟨3, obtains_whole_file rfl, rfl⟩
  have one : (successes threeBytes).step opened (.read 1 [1]) afterOneByte :=
    ⟨trivial, reads_one_byte⟩
  have back : (successes threeBytes).step afterOneByte (.seek 0 0) sought :=
    ⟨rfl, true, true, rfl⟩
  have two : (successes threeBytes).step sought (.read 2 [1, 2]) _ := ⟨trivial, again⟩
  have run := Run.snoc (.snoc (.snoc (.nil opened) one) back) two
  obtain ⟨⟨steps', p, run', same, labels⟩, _⟩ := file_without_buffer ⟨_, rfl⟩ run
  exact ⟨_, steps', _, run, same ▸ run', rfl, labels⟩

/- A failed seek. -/

def Delivers (content : List UInt8) (s : Stream) (bytes : List UInt8) : Prop :=
  ∃ events, Trace (Reads content) s events ∧ delivered events = bytes

/-- `t` is `s` after a seek that failed. It stands where `s` stood, and its reads succeed and
    deliver the bytes that those of `s` would have delivered. -/
structure Unmoved (content : List UInt8) (s t : Stream) : Prop where
  stands : position t = position s
  succeeds : KeepsReading content (content.drop (position s)) t
  agrees : ∀ bytes bytes', Delivers content s bytes → Delivers content t bytes' →
    bytes <+: bytes' ∨ bytes' <+: bytes
  delivers : ∀ bytes, Delivers content t bytes ↔ Delivers content s bytes

theorem delivers_take {p : Nat} (sync : InSync content s p) (n : Nat)
    (inFile : p + n ≤ content.length) : Delivers content s ((content.drop p).take n) := by
  induction n generalizing s p with
  | zero => exact ⟨[], .nil s, rfl⟩
  | succ n ih =>
    obtain ⟨t, taken, after⟩ := reads_one sync (by omega)
    obtain ⟨events, trace, bytes⟩ := ih after (by omega)
    refine ⟨_, .cons taken trace, ?_⟩
    rw [Nat.add_comm n 1, List.take_add, List.drop_drop, ← bytes]
    rfl

theorem delivers_iff {p : Nat} (sync : InSync content s p) (bytes : List UInt8) :
    Delivers content s bytes ↔ bytes <+: content.drop p := by
  constructor
  · rintro ⟨events, trace, rfl⟩
    exact delivered_prefix sync trace
  · intro next
    by_cases inFile : p + bytes.length ≤ content.length
    · rw [List.prefix_iff_eq_take.mp next]
      exact delivers_take sync _ inFile
    · have short := next.length_le
      rw [List.length_drop] at short
      obtain rfl : bytes = [] := List.length_eq_zero_iff.mp (by omega)
      exact ⟨[], .nil s, rfl⟩

theorem unmoved_iff {p q : Nat} (sync : InSync content s p) (sync' : InSync content t q) :
    Unmoved content s t ↔ q = p := by
  constructor
  · intro unmoved
    rw [← position_eq sync, ← position_eq sync', unmoved.stands]
  · rintro rfl
    refine ⟨?_, ?_, fun bytes bytes' first second => ?_, fun bytes => ?_⟩
    · rw [position_eq sync, position_eq sync']
    · rw [position_eq sync]
      exact inSync_keepsReading sync'
    · exact List.prefix_or_prefix_of_prefix ((delivers_iff sync bytes).mp first)
        ((delivers_iff sync' bytes').mp second)
    · rw [delivers_iff sync, delivers_iff sync']

theorem accesses_inSync (reach : Reachable (accesses content) s) :
    ∃ p, Follows content s p := by
  have initially : ∀ s, (accesses content).start s → ∃ p, Follows content s p := by
    rintro s ⟨memory, opened⟩
    exact ⟨0, opened_inSync opened⟩
  have preserved : ∀ s access t, (∃ p, Follows content s p) →
      (accesses content).step s access t → ∃ p, Follows content t p := by
    rintro s access t ⟨p, follows⟩ taken
    cases access with
    | read len bytes =>
      obtain ⟨_, after⟩ := reads_inSync follows.1 follows.2 taken
      exact ⟨_, after⟩
    | seek offset result =>
      obtain ⟨_, _, sought⟩ := taken
      obtain ⟨sync, bounds, _⟩ := seekFile_inSync follows.1 sought
      exact ⟨_, sync, bounds⟩
  exact reachable_invariant initially preserved reach

/-- A seek that fails leaves the stream where it was exactly if it stood at the start of the
    file, or if not even the seek to there succeeded and nothing was left in the buffer. -/
theorem failed_seek_unmoved_iff (reach : Reachable (accesses content) s) {offset : Nat}
    {zeroGranted offsetGranted : Bool}
    (failed : seekFile s offset zeroGranted offsetGranted = (t, -1)) :
    Unmoved content s t ↔
      if zeroGranted then position s = 0 else s.currentBufferPos = s.totalBytesBuffer := by
  obtain ⟨p, sync, _⟩ := accesses_inSync reach
  obtain ⟨sync', _, moved, answer⟩ := seekFile_inSync sync failed
  have refused : ¬ (zeroGranted && offsetGranted) = true := by
    intro granted
    rw [if_pos granted] at answer
    cases answer
  rw [if_neg refused] at moved
  rw [unmoved_iff sync sync', position_eq sync, moved]
  have stands := sync.position
  have cursor := sync.cursor
  cases zeroGranted with
  | true => simp only [↓reduceIte]; omega
  | false => simp only [Bool.false_eq_true, ↓reduceIte]; omega

theorem opened_accessible : Reachable (accesses threeBytes) opened := .start ⟨_, rfl⟩

/-- Nothing was read yet. -/
theorem failed_seek_at_start : ∃ t, seekFile opened (2 ^ 63) true false = (t, -1) ∧
    Unmoved threeBytes opened t := by
  have failed : seekFile opened (2 ^ 63) true false = (_, -1) := rfl
  have start : position opened = 0 := rfl
  exact ⟨_, failed, (failed_seek_unmoved_iff opened_accessible failed).mpr start⟩

/-- One byte was read, and is read once more after a seek that fails. -/
theorem failed_seek_rewinds : ¬ ∀ (content : List UInt8) (s t : Stream) (offset : Nat)
    (zeroGranted offsetGranted : Bool), Reachable (accesses content) s →
    seekFile s offset zeroGranted offsetGranted = (t, -1) → Unmoved content s t := by
  intro always
  have reach : Reachable (accesses threeBytes) afterOneByte :=
    .step opened_accessible (show (accesses threeBytes).step _ (.read 1 [1]) _ from reads_one_byte)
  have unmoved := always threeBytes afterOneByte _ (2 ^ 63) true false reach rfl
  exact absurd unmoved.stands (by decide)

end UnbufferedFile
