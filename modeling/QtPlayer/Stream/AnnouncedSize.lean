import Mathlib.Algebra.Order.Ring.Int
import QtPlayer.Stream.UnbufferedFile

/- The size that the callback of Media.cpp announces when it opens a stream, against the bytes
   the stream then delivers. -/
namespace AnnouncedSize
open FileMediaStream Reopening UnbufferedFile TransitionRuns

variable {content : List UInt8} {s t : Stream}

def UINT64_MAX : Nat := 2 ^ 64 - 1

def totalBytes (content : List UInt8) (s : Stream) : Nat :=
  if s.isOpen then content.length else UINT64_MAX

/-- vlc_mem_open: the stream, what is stored in `sizep`, and the result. -/
def vlcMemOpen (content : List UInt8) (s : Stream) (granted : Bool) : Stream × Nat × Int :=
  let sizep := totalBytes content s
  let opened := openFile s granted
  (opened.1, sizep, opened.2)

def vlcMemRead : List UInt8 → Stream → Nat → Int → Stream × Option (List UInt8) :=
  FileMediaStream.read

def VlcMemReads (content : List UInt8) (s : Stream) (len : Nat) (bytes : List UInt8)
    (t : Stream) : Prop :=
  ∃ obtained, Obtains content s.filePos obtained ∧
    vlcMemRead content s len obtained = (t, some bytes)

inductive ReadsOut (content : List UInt8) : Stream → List (Nat × List UInt8) → Prop where
  | last {s t : Stream} {len : Nat} (some : 1 ≤ len) (taken : VlcMemReads content s len [] t) :
      ReadsOut content s [(len, [])]
  | more {s t : Stream} {len : Nat} {bytes : List UInt8} {events : List (Nat × List UInt8)}
      (some : 1 ≤ len) (found : bytes ≠ []) (taken : VlcMemReads content s len bytes t)
      (rest : ReadsOut content t events) : ReadsOut content s ((len, bytes) :: events)

/-- When the stream is opened, the announced size is what it delivers. -/
def AnnouncesDelivered (content : List UInt8) (s : Stream) : Prop :=
  ∀ granted t size, vlcMemOpen content s granted = (t, size, 0) →
    ∀ events, ReadsOut content t events → (delivered events).length = size

theorem readsOut_length {p : Nat} {events : List (Nat × List UInt8)}
    (follows : Follows content s p) (inside : p ≤ content.length)
    (out : ReadsOut content s events) : (delivered events).length = content.length - p := by
  induction out generalizing p with
  | last some taken =>
    obtain ⟨⟨_, _, atEnd, _⟩, _⟩ := reads_inSync follows.1 follows.2 taken
    have ended := atEnd some rfl
    simp only [delivered, List.flatMap_cons, List.flatMap_nil, List.append_nil, List.length_nil]
    omega
  | @more s t len bytes events _ _ taken _ ih =>
    obtain ⟨⟨_, here, _, _⟩, after⟩ := reads_inSync follows.1 follows.2 taken
    have within := congrArg List.length here
    rw [List.length_take, List.length_drop] at within
    have rest := ih after (by omega)
    simp only [delivered, List.flatMap_cons, List.length_append] at rest ⊢
    omega

theorem readsOut_exists {p n : Nat} (sync : InSync content s p)
    (left : p + n = content.length) : ∃ events, ReadsOut content s events := by
  induction n generalizing s p with
  | zero =>
    obtain ⟨obtained, obtains⟩ := obtains_something content s.filePos
    obtain ⟨t, eq, _, _⟩ := read_inSync sync 1 obtains
    have none : copyLength s 1 obtained = 0 := by
      have inFile : copyLength s 1 obtained ≤ _ := copyLength_inFile sync obtains
      omega
    rw [none, List.take_zero] at eq
    exact ⟨_, .last (Nat.le_refl 1) ⟨obtained, obtains, eq⟩⟩
  | succ n ih =>
    obtain ⟨t, taken, after⟩ := reads_one sync (by omega)
    obtain ⟨events, rest⟩ := ih after (by omega)
    have found : (content.drop p).take 1 ≠ [] := by
      intro nothing
      have length := congrArg List.length nothing
      rw [List.length_take, List.length_drop, List.length_nil] at length
      omega
    exact ⟨_, .more (Nat.le_refl 1) found taken rest⟩

/-- A new stream is asked for its size before it is opened, and the answer is right only for a
    file of that very size. -/
theorem announces_delivered_iff (content : List UInt8) (memory : Nat → UInt8) :
    AnnouncesDelivered content (construct memory) ↔ content.length = UINT64_MAX := by
  constructor
  · intro announces
    have opened : openFile (construct memory) true = (_, 0) := rfl
    have sync := inSync_of_empty content (s := (openFile (construct memory) true).1) rfl rfl
    obtain ⟨events, out⟩ := readsOut_exists sync (Nat.zero_add content.length)
    rw [← announces true _ UINT64_MAX rfl events out,
      readsOut_length (opened_inSync opened) (Nat.zero_le _) out, Nat.sub_zero]
  · intro huge granted t size result events out
    obtain ⟨rfl, rest⟩ := Prod.mk.inj result
    obtain ⟨rfl, answer⟩ := Prod.mk.inj rest
    cases granted with
    | false => cases answer
    | true =>
      have opened : openFile (construct memory) true = (_, 0) := rfl
      rw [readsOut_length (opened_inSync opened) (Nat.zero_le _) out, Nat.sub_zero, huge]
      rfl

/-- Three bytes are delivered where the largest number was announced. -/
theorem three_bytes_announced_wrong : ¬ ∀ (content : List UInt8) (memory : Nat → UInt8),
    AnnouncesDelivered content (construct memory) := by
  intro always
  let whole := (FileMediaStream.read threeBytes opened 3 3).1
  have first : VlcMemReads threeBytes opened 3 [1, 2, 3] whole := ⟨3, obtains_whole_file rfl, rfl⟩
  have ended : Obtains threeBytes whole.filePos 0 := by
    rw [show whole.filePos = 3 from rfl]
    simp [Obtains, threeBytes]
  have last : VlcMemReads threeBytes whole 1 [] (FileMediaStream.read threeBytes whole 1 0).1 :=
    ⟨0, ended, rfl⟩
  have out : ReadsOut threeBytes opened [(3, [1, 2, 3]), (1, [])] :=
    .more (by decide) (by decide) first (.last (by decide) last)
  have announced := always threeBytes (fun _ => 0) true opened UINT64_MAX rfl _ out
  exact absurd announced (by decide)

end AnnouncedSize
