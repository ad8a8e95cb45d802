import QtPlayer.Stream.FileMediaStream

/- close and open leave the cursor of the buffer alone, the constructor and seek reset it. What
   was still buffered at close is therefore delivered first after the file is opened again. -/
namespace Reopening
open FileMediaStream TransitionRuns

variable {content : List UInt8} {s t : Stream}

/-- The stream stands at byte `p`, inside the file or past its end; the buffer holds the bytes
    from there up to the position of the file. -/
structure InSync (content : List UInt8) (s : Stream) (p : Nat) : Prop where
  opened : s.isOpen = true
  cursor : s.currentBufferPos ≤ s.totalBytesBuffer
  position : s.filePos = p + (s.totalBytesBuffer - s.currentBufferPos)
  inFile : s.filePos ≤ max p content.length
  buffered : ∀ i, i < s.totalBytesBuffer - s.currentBufferPos →
    s.buff (s.currentBufferPos + i) = content.getD (p + i) 0

theorem take_drop_eq_map (content : List UInt8) {p k : Nat}
    (inside : p + k ≤ max p content.length) :
    (content.drop p).take k = (List.range k).map fun i => content.getD (p + i) 0 := by
  apply List.ext_getElem (by simp; omega)
  intro i low high
  simp only [List.getElem_take, List.getElem_drop, List.getElem_map, List.getElem_range]
  rw [List.getD_eq_getElem]

theorem fill_inSync {p : Nat} (sync : InSync content s p)
    (empty : s.totalBytesBuffer - s.currentBufferPos = 0) {obtained : Int}
    (obtains : Obtains content s.filePos obtained) :
    InSync content (fill content s obtained) p ∧
      (fill content s obtained).currentBufferPos = 0 ∧
      (fill content s obtained).totalBytesBuffer = obtained.toNat := by
  have position := sync.position
  have inFile := sync.inFile
  unfold Obtains at obtains
  have notMinusOne : obtained ≠ -1 := by split at obtains <;> omega
  have total : s.filePos + obtained.toNat ≤ max p content.length := by
    split at obtains <;> omega
  refine ⟨⟨sync.opened, Nat.zero_le _, ?_, ?_, ?_⟩, rfl, by simp [fill, notMinusOne]⟩
  · simp only [fill, notMinusOne, ↓reduceIte]
    omega
  · simpa only [fill, notMinusOne, ↓reduceIte] using total
  · intro i inside
    simp only [fill, notMinusOne, ↓reduceIte, Nat.sub_zero, Nat.zero_add] at inside ⊢
    rw [if_pos inside, show s.filePos = p by omega]

def copyLength (s : Stream) (len : Nat) (obtained : Int) : Nat :=
  min len (if s.totalBytesBuffer - s.currentBufferPos = 0 then obtained.toNat
    else s.totalBytesBuffer - s.currentBufferPos)

theorem advance_inSync {p k : Nat} (sync : InSync content s p)
    (enough : k ≤ s.totalBytesBuffer - s.currentBufferPos) :
    ((List.range k).map fun i => s.buff (s.currentBufferPos + i)) = (content.drop p).take k ∧
      InSync content { s with currentBufferPos := s.currentBufferPos + k } (p + k) := by
  have position := sync.position
  have inFile := sync.inFile
  have cursor := sync.cursor
  refine ⟨?_, sync.opened, by simp only; omega, by simp only; omega, by simp only; omega, ?_⟩
  · rw [take_drop_eq_map content (by omega)]
    apply List.map_congr_left
    intro i mem
    exact sync.buffered i (by have := List.mem_range.mp mem; omega)
  · intro i inside
    have here := sync.buffered (k + i) (by simp only at inside; omega)
    simpa only [Nat.add_assoc] using here

theorem read_inSync {p : Nat} (sync : InSync content s p) (len : Nat) {obtained : Int}
    (obtains : Obtains content s.filePos obtained) :
    ∃ t, read content s len obtained =
        (t, some ((content.drop p).take (copyLength s len obtained))) ∧
      InSync content t (p + copyLength s len obtained) ∧
      t.filePos = s.filePos +
        (if s.totalBytesBuffer - s.currentBufferPos = 0 then obtained.toNat else 0) := by
  by_cases empty : s.totalBytesBuffer - s.currentBufferPos = 0
  · obtain ⟨filled, zero, total⟩ := fill_inSync sync empty obtains
    have amount : copyLength s len obtained =
        min len ((fill content s obtained).totalBytesBuffer -
          (fill content s obtained).currentBufferPos) := by
      rw [zero, total, copyLength, if_pos empty, Nat.sub_zero]
    obtain ⟨bytes, after⟩ := advance_inSync filled (Nat.min_le_right len _)
    rw [← amount] at bytes after
    refine ⟨_, ?_, after, ?_⟩
    · rw [FileMediaStream.read, if_pos sync.opened]
      simp only [empty, ↓reduceIte, ← amount, bytes]
    · have moved := filled.position
      have before := sync.position
      rw [if_pos empty]
      simp only [zero, total] at moved ⊢
      omega
  · have amount : copyLength s len obtained =
        min len (s.totalBytesBuffer - s.currentBufferPos) := by
      rw [copyLength, if_neg empty]
    obtain ⟨bytes, after⟩ := advance_inSync sync (Nat.min_le_right len _)
    rw [← amount] at bytes after
    refine ⟨_, ?_, after, ?_⟩
    · rw [FileMediaStream.read, if_pos sync.opened]
      simp only [empty, ↓reduceIte, ← amount, bytes]
    · rw [if_neg empty, Nat.add_zero]

theorem copyLength_inFile {p len : Nat} {obtained : Int} (sync : InSync content s p)
    (obtains : Obtains content s.filePos obtained) :
    copyLength s len obtained ≤ content.length - p := by
  have position := sync.position
  have inFile := sync.inFile
  unfold Obtains at obtains
  unfold copyLength
  split at obtains <;> split <;> omega

theorem copyLength_positive {p len : Nat} {obtained : Int} (sync : InSync content s p)
    (obtains : Obtains content s.filePos obtained) (some : 1 ≤ len) (more : p < content.length) :
    1 ≤ copyLength s len obtained := by
  have position := sync.position
  unfold Obtains at obtains
  unfold copyLength
  split at obtains <;> split <;> omega

theorem answers_inSync {p : Nat} (sync : InSync content s p) : Answers content s := by
  intro len obtained obtains
  obtain ⟨t, eq, _⟩ := read_inSync sync len obtains
  exact ⟨t, _, eq⟩

theorem reads_next {p len : Nat} {bytes : List UInt8} (sync : InSync content s p)
    (taken : Reads content s (len, bytes) t) :
    bytes = (content.drop p).take bytes.length ∧ InSync content t (p + bytes.length) ∧
      bytes.length ≤ len ∧ (1 ≤ len → bytes = [] → content.length ≤ p) := by
  obtain ⟨obtained, obtains, eq⟩ := taken
  obtain ⟨u, result, after, _⟩ := read_inSync sync len obtains
  have inFile : copyLength s len obtained ≤ content.length - p := copyLength_inFile sync obtains
  rw [eq] at result
  obtain ⟨rfl, taken⟩ := Prod.mk.inj result
  obtain rfl := Option.some.inj taken
  have amount : ((content.drop p).take (copyLength s len obtained)).length =
      copyLength s len obtained := by
    rw [List.length_take, List.length_drop]
    omega
  rw [amount]
  refine ⟨rfl, after, Nat.min_le_left _ _, ?_⟩
  intro some nothing
  by_contra more
  have positive := copyLength_positive sync obtains some (by omega)
  rw [nothing, List.length_nil] at amount
  omega

theorem run_inSync {p : Nat} (sync : InSync content s p)
    {steps : List (Stream × (Nat × List UInt8))} (run : Run (reads content) s steps t) :
    InSync content t (p + (delivered (steps.map Prod.snd)).length) ∧
      delivered (steps.map Prod.snd) <+: content.drop p := by
  induction run with
  | nil => exact ⟨sync, List.nil_prefix⟩
  | @snoc t u event steps run taken ih =>
    obtain ⟨here, sofar⟩ := ih
    obtain ⟨bytes, after, _⟩ := reads_next here taken
    have whole : delivered ((steps ++ [(t, event)]).map Prod.snd) =
        delivered (steps.map Prod.snd) ++ event.2 := by
      simp [delivered]
    rw [whole, List.length_append, ← Nat.add_assoc]
    refine ⟨after, ?_⟩
    obtain ⟨rest, left⟩ := sofar
    have behind : content.drop (p + (delivered (steps.map Prod.snd)).length) = rest := by
      rw [← List.drop_drop, ← left, List.drop_left]
    rw [← left, bytes, behind]
    exact (List.prefix_append_right_inj _).mpr (List.take_prefix _ _)

theorem inSync_keepsReading {p : Nat} (sync : InSync content s p) :
    KeepsReading content (content.drop p) s := by
  intro steps t run
  obtain ⟨here, sofar⟩ := run_inSync sync run
  refine ⟨answers_inSync here, fun len bytes u some taken nothing => ?_⟩
  have finished := (reads_next here taken).2.2.2 some nothing
  exact sofar.eq_of_length_le (by rw [List.length_drop]; omega)

theorem delivered_prefix {p : Nat} {events : List (Nat × List UInt8)}
    (sync : InSync content s p) (trace : Trace (Reads content) s events) :
    delivered events <+: content.drop p := by
  induction trace generalizing p with
  | nil => exact List.nil_prefix
  | @cons s t event events taken _ ih =>
    obtain ⟨next, after, _⟩ := reads_next sync taken
    have rest := ih after
    simp only [delivered, List.flatMap_cons] at rest ⊢
    rw [← List.take_append_drop event.2.length (content.drop p), ← next, List.drop_drop]
    exact (List.prefix_append_right_inj _).mpr rest

/-- Streams that have delivered the same bytes and stand at the same position of the file. -/
def Level (content : List UInt8) (s t : Stream) : Prop :=
  ∃ p, InSync content s p ∧ InSync content t p ∧ s.filePos = t.filePos

theorem level_simulates (s t : Stream) (event : Nat × List UInt8) (s' : Stream)
    (level : Level content s t) (taken : Reads content s event s') :
    ∃ t', Reads content t event t' ∧ Level content s' t' := by
  obtain ⟨p, sync, sync', same⟩ := level
  obtain ⟨obtained, obtains, eq⟩ := taken
  have obtains' : Obtains content t.filePos obtained := by rwa [← same]
  obtain ⟨u, result, after, moved⟩ := read_inSync sync event.1 obtains
  obtain ⟨u', result', after', moved'⟩ := read_inSync sync' event.1 obtains'
  have buffered : s.totalBytesBuffer - s.currentBufferPos =
      t.totalBytesBuffer - t.currentBufferPos := by
    have := sync.position
    have := sync'.position
    omega
  have amount : copyLength s event.1 obtained = copyLength t event.1 obtained := by
    simp only [copyLength, buffered]
  rw [result] at eq
  simp only [Prod.mk.injEq, Option.some.injEq] at eq
  obtain ⟨rfl, bytes⟩ := eq
  refine ⟨u', ⟨obtained, obtains', ?_⟩, ?_⟩
  · rw [result', ← amount, bytes]
  · rw [← amount] at after'
    exact ⟨_, after, after', by rw [moved, moved', same, buffered]⟩

theorem level_symmetric (s t : Stream) (level : Level content s t) : Level content t s := by
  obtain ⟨p, sync, sync', same⟩ := level
  exact ⟨p, sync', sync, same.symm⟩

theorem inSync_of_empty (content : List UInt8) (opened : s.isOpen = true)
    (empty : s.currentBufferPos = s.totalBytesBuffer) : InSync content s s.filePos :=
  ⟨opened, by omega, by omega, by omega, by intro i inside; omega⟩

theorem obtains_something (content : List UInt8) (filePos : Nat) :
    ∃ obtained, Obtains content filePos obtained := by
  by_cases more : filePos < content.length
  · refine ⟨1, ?_⟩
    rw [Obtains, if_pos more]
    simp only [buffSize]
    omega
  · exact ⟨0, by rw [Obtains, if_neg more]⟩

theorem reads_one {p : Nat} (sync : InSync content s p) (more : p < content.length) :
    ∃ t, Reads content s (1, (content.drop p).take 1) t ∧ InSync content t (p + 1) := by
  obtain ⟨obtained, obtains⟩ := obtains_something content s.filePos
  obtain ⟨t, eq, after, _⟩ := read_inSync sync 1 obtains
  have one : copyLength s 1 obtained = 1 :=
    Nat.le_antisymm (Nat.min_le_left _ _) (copyLength_positive sync obtains (Nat.le_refl 1) more)
  rw [one] at eq after
  exact ⟨t, ⟨obtained, obtains, eq⟩, after⟩

theorem reads_rest {p n : Nat} (sync : InSync content s p) (left : p + n = content.length) :
    ∃ events, Trace (Reads content) s events ∧ (delivered events).length = n := by
  induction n generalizing s p with
  | zero => exact ⟨[], .nil s, rfl⟩
  | succ n ih =>
    obtain ⟨t, taken, after⟩ := reads_one sync (by omega)
    obtain ⟨events, trace, length⟩ := ih after (by omega)
    refine ⟨_, .cons taken trace, ?_⟩
    simp only [delivered, List.flatMap_cons, List.length_append, List.length_take,
      List.length_drop] at length ⊢
    omega

/-- A reopened stream with bytes left in its buffer delivers more than the file holds. -/
theorem reads_too_much (content : List UInt8) (opened : s.isOpen = true) (start : s.filePos = 0)
    (left : s.currentBufferPos < s.totalBytesBuffer) :
    ∃ events, Trace (Reads content) s events ∧ content.length < (delivered events).length := by
  obtain ⟨obtained, obtains⟩ := obtains_something content s.filePos
  have full : ¬ s.totalBytesBuffer - s.currentBufferPos = 0 := by omega
  have sync := inSync_of_empty content (s := { s with
    currentBufferPos := s.currentBufferPos + (s.totalBytesBuffer - s.currentBufferPos) })
    opened (by simp only; omega)
  obtain ⟨events, trace, length⟩ :=
    reads_rest sync (show s.filePos + content.length = content.length by omega)
  have eq : FileMediaStream.read content s (s.totalBytesBuffer - s.currentBufferPos) obtained =
      ({ s with currentBufferPos :=
          s.currentBufferPos + (s.totalBytesBuffer - s.currentBufferPos) },
        some ((List.range (s.totalBytesBuffer - s.currentBufferPos)).map
          fun i => s.buff (s.currentBufferPos + i))) := by
    rw [FileMediaStream.read, if_pos opened]
    simp only [full, ↓reduceIte, Nat.min_self]
  refine ⟨_ :: events, .cons (e := (_, _)) ⟨obtained, obtains, eq⟩ trace, ?_⟩
  simp only [delivered, List.flatMap_cons, List.length_append, List.length_map,
    List.length_range] at length ⊢
  omega

/- Histories. -/

theorem history_cursor (reach : Reachable (history content) s) :
    s.currentBufferPos ≤ s.totalBytesBuffer := by
  have preserved : ∀ s call t, s.currentBufferPos ≤ s.totalBytesBuffer →
      (history content).step s call t → t.currentBufferPos ≤ t.totalBytesBuffer := by
    intro s call t before taken
    cases call with
    | openFile granted =>
      rw [show t = (FileMediaStream.openFile s granted).1 from taken, FileMediaStream.openFile]
      split <;> exact before
    | close =>
      rw [show t = FileMediaStream.close s from taken, FileMediaStream.close]
      split <;> exact before
    | seek offset granted left =>
      rw [show t = (FileMediaStream.seek s offset granted left).1 from taken, FileMediaStream.seek]
      split
      · exact Nat.le_refl _
      · exact before
    | read len obtained =>
      rw [taken.2, FileMediaStream.read]
      split
      · dsimp only
        split
        · simp only [fill]
          omega
        · omega
      · exact before
  have initially : ∀ s, (history content).start s → s.currentBufferPos ≤ s.totalBytesBuffer := by
    rintro s ⟨memory, rfl⟩
    exact Nat.le_refl _
  exact reachable_invariant initially preserved reach

theorem reopened_eq (result : openFile (FileMediaStream.close s) true = (t, 0)) :
    t = { s with isOpen := true, filePos := 0 } := by
  unfold openFile FileMediaStream.close at result
  cases s with
  | mk buff cur total isOpen filePos =>
    cases isOpen <;> simp_all

/-- The stream opens cleanly again exactly if nothing was left in its buffer at close. -/
theorem reopens_cleanly_iff (reach : Reachable (history content) s) :
    ReopensCleanly content s ↔ s.currentBufferPos = s.totalBytesBuffer := by
  have cursor := history_cursor reach
  constructor
  · intro clean
    by_contra left
    have result : openFile (FileMediaStream.close s) true =
        ({ s with isOpen := true, filePos := 0 }, 0) := by
      unfold openFile FileMediaStream.close
      cases opened : s.isOpen <;> simp [opened]
    obtain ⟨events, trace, more⟩ := reads_too_much content
      (s := { s with isOpen := true, filePos := 0 }) rfl rfl (by simp only; omega)
    have fits := ((clean _ result).2.1 events trace).length_le
    omega
  · intro empty t result
    have reopened := reopened_eq result
    subst reopened
    have sync : InSync content { s with isOpen := true, filePos := 0 } 0 :=
      inSync_of_empty content rfl empty
    refine ⟨fun memory events => ?_, fun events trace => ?_, inSync_keepsReading sync⟩
    · have fresh : InSync content (openFile (construct memory) true).1 0 :=
        inSync_of_empty content rfl rfl
      exact trace_iff_of_bisimulation level_symmetric level_simulates ⟨0, sync, fresh, rfl⟩ events
    · have whole := delivered_prefix sync trace
      rwa [List.drop_zero] at whole

/- A file of three bytes. -/

def threeBytes : List UInt8 := [1, 2, 3]

def opened : Stream := (openFile (construct fun _ => 0) true).1

theorem opened_reachable : Reachable (history threeBytes) opened :=
  .step (.start ⟨_, rfl⟩) (show (history threeBytes).step _ (.openFile true) _ from rfl)

theorem read_reachable (len : Nat) :
    Reachable (history threeBytes) (FileMediaStream.read threeBytes opened len 3).1 := by
  refine .step opened_reachable (show (history threeBytes).step _ (.read len 3) _ from ⟨?_, rfl⟩)
  simp [Obtains, opened, openFile, construct, threeBytes, buffSize]

theorem reopens_cleanly_after_whole_file :
    ReopensCleanly threeBytes (FileMediaStream.read threeBytes opened 3 3).1 :=
  (reopens_cleanly_iff (read_reachable 3)).mpr rfl

/-- One byte is read before close; the next stream starts with the other two. -/
theorem leftover_bytes_delivered_first :
    ¬ ∀ (content : List UInt8) (s : Stream), Reachable (history content) s →
      ReopensCleanly content s := by
  intro always
  have clean := always threeBytes _ (read_reachable 1)
  have trace : Trace (Reads threeBytes)
      (openFile (close (FileMediaStream.read threeBytes opened 1 3).1) true).1 [(2, [2, 3])] :=
    .cons ⟨3, by simp [Obtains, openFile, FileMediaStream.close, FileMediaStream.read, opened,
      construct, fill, threeBytes, buffSize], rfl⟩ (.nil _)
  have prefixed := (clean _ rfl).2.1 _ trace
  exact absurd prefixed (by decide)

end Reopening
