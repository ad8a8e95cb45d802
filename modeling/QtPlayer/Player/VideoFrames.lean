import QtPlayer.Library.MachineIntegers

/- YUVVideoFrame.cpp and AbstractVideoFrame.cpp: where the three planes of a frame lie in its
   buffer. A plane is its offset from the start of the buffer; unsigned values are Nat with
   their wraps written out. -/
namespace VideoFrames
open MachineIntegers

def quint16 (n : Nat) : Nat := n % 2 ^ 16
def quint32 (n : Nat) : Nat := n % 2 ^ 32

structure VlcAbstractVideoFrame where
  frameBuffer : Nat
  width : Nat
  height : Nat
  planes : List Nat
  planeSizes : List Nat
  deriving DecidableEq, Repr

/-- The size after QByteArray::resize, which takes an int and reads a negative one as 0. -/
def resize (size : Nat) : Nat := (wrap 31 size).toNat

/-- The loop of both setPitchesAndLines: each plane starts where the one before it ends. -/
def place : Nat → List Nat → List Nat
  | _, [] => []
  | start, size :: rest => start :: place (start + size) rest

structure NewFrame where
  frame : VlcAbstractVideoFrame
  pitches : List Nat
  lines : List Nat

def even (n : Nat) : Nat := quint16 (quint32 (n + if n % 2 = 1 then 1 else 0))

def alignToFour (n : Nat) : Nat := if n % 4 ≠ 0 then n + (4 - n % 4) else n

def planeSize (pitch lines : Nat) : Nat := quint32 (pitch * lines)

def yuvVideoFrame (width height : Nat) : NewFrame :=
  let evenWidth := even width
  let evenHeight := even height
  let pitches := [alignToFour evenWidth, alignToFour (evenWidth / 2), alignToFour (evenWidth / 2)]
  let lines := [evenHeight, evenHeight / 2, evenHeight / 2]
  let planeSizes := List.zipWith planeSize pitches lines
  { frame :=
      { frameBuffer := resize (quint32 planeSizes.sum)
        width := evenWidth
        height := evenHeight
        planes := place 0 planeSizes
        planeSizes := planeSizes }
    pitches := pitches
    lines := lines }

def clone (frame : VlcAbstractVideoFrame) : VlcAbstractVideoFrame where
  frameBuffer := resize frame.frameBuffer
  width := frame.width
  height := frame.height
  planes := place 0 frame.planeSizes
  planeSizes := frame.planeSizes

/- Any sizes. -/

theorem place_start {sizes : List Nat} {start i p : Nat} (here : (place start sizes)[i]? = some p) :
    p = start + (sizes.take i).sum := by
  induction sizes generalizing start i with
  | nil => simp [place] at here
  | cons size rest ih =>
    cases i with
    | zero =>
      simp only [place, List.getElem?_cons_zero, Option.some.injEq] at here
      simp [here]
    | succ i =>
      simp only [place, List.getElem?_cons_succ] at here
      rw [ih here, List.take_succ_cons, List.sum_cons]
      omega

theorem place_end {sizes : List Nat} {start i p size : Nat}
    (here : (place start sizes)[i]? = some p) (sized : sizes[i]? = some size) :
    p + size = start + (sizes.take (i + 1)).sum := by
  have inside := (List.getElem?_eq_some_iff.mp sized).1
  have value := (List.getElem?_eq_some_iff.mp sized).2
  rw [place_start here, List.take_succ_eq_append_getElem inside, List.sum_append, value]
  simp only [List.sum_singleton]
  omega

theorem take_sum_le (sizes : List Nat) {i j : Nat} (le : i ≤ j) :
    (sizes.take i).sum ≤ (sizes.take j).sum := by
  obtain ⟨k, rfl⟩ := Nat.exists_eq_add_of_le le
  rw [List.take_add, List.sum_append]
  exact Nat.le_add_right _ _

/- The layout of a frame. -/

/-- Every plane lies in the buffer with all the lines announced for it. -/
def InBuffer (f : NewFrame) : Prop :=
  ∀ (i plane pitch lines : Nat), f.frame.planes[i]? = some plane → f.pitches[i]? = some pitch →
    f.lines[i]? = some lines → plane + pitch * lines ≤ f.frame.frameBuffer

def Apart (f : NewFrame) : Prop :=
  ∀ (i j plane other pitch lines : Nat), i < j → f.frame.planes[i]? = some plane →
    f.frame.planes[j]? = some other → f.pitches[i]? = some pitch → f.lines[i]? = some lines →
      plane + pitch * lines ≤ other

def bindPlanes (frame : VlcAbstractVideoFrame) : List (Nat × Nat) :=
  [(frame.width, frame.height), (frame.width / 2, frame.height / 2),
    (frame.width / 2, frame.height / 2)]

/-- A texture has the lines announced for its plane, and the pitch is the least multiple of
    four that holds a row of it. -/
def RowsBound (f : NewFrame) : Prop :=
  ∀ (i width height pitch lines : Nat), (bindPlanes f.frame)[i]? = some (width, height) →
    f.pitches[i]? = some pitch → f.lines[i]? = some lines →
      height = lines ∧ width ≤ pitch ∧ pitch < width + 4 ∧ pitch % 4 = 0

def announced (f : NewFrame) : List Nat := List.zipWith (· * ·) f.pitches f.lines

theorem even_bounds (n : Nat) : even n ≤ 65534 ∧ even n % 2 = 0 := by
  unfold even quint16 quint32
  split <;> omega

theorem alignToFour_bounds (n : Nat) : n ≤ alignToFour n ∧ alignToFour n ≤ n + 3 ∧
    alignToFour n % 4 = 0 := by
  unfold alignToFour
  split <;> omega

theorem planeSize_exact {pitch lines : Nat} (narrow : pitch ≤ 65536) (low : lines ≤ 65534) :
    planeSize pitch lines = pitch * lines := by
  have := Nat.mul_le_mul narrow low
  exact Nat.mod_eq_of_lt (by omega)

theorem planeSizes_eq (width height : Nat) :
    (yuvVideoFrame width height).frame.planeSizes = announced (yuvVideoFrame width height) := by
  have evenWidth := even_bounds width
  have evenHeight := even_bounds height
  have first := alignToFour_bounds (even width)
  have rest := alignToFour_bounds (even width / 2)
  simp only [yuvVideoFrame, announced, List.zipWith_cons_cons, List.zipWith_nil_left]
  rw [planeSize_exact (by omega) (by omega), planeSize_exact (by omega) (by omega)]

theorem resize_le (n : Nat) : resize n ≤ 2147483647 := by
  have high := (fits_wrap 31 n).2
  unfold resize
  omega

theorem resize_eq {n : Nat} (fits : n ≤ 2147483647) : resize n = n := by
  have exact' : wrap 31 n = n := wrap_of_fits ⟨by omega, by omega⟩
  rw [resize, exact', Int.toNat_natCast]

theorem frameBuffer_eq (width height : Nat) : (yuvVideoFrame width height).frame.frameBuffer =
    resize (quint32 (announced (yuvVideoFrame width height)).sum) := by
  rw [← planeSizes_eq]
  simp only [yuvVideoFrame]

theorem buffer_whole_iff (width height : Nat) :
    (announced (yuvVideoFrame width height)).sum ≤
        (yuvVideoFrame width height).frame.frameBuffer ↔
      (announced (yuvVideoFrame width height)).sum ≤ 2147483647 := by
  rw [frameBuffer_eq]
  constructor
  · intro inside
    have := resize_le (quint32 (announced (yuvVideoFrame width height)).sum)
    omega
  · intro fits
    have whole : quint32 (announced (yuvVideoFrame width height)).sum =
        (announced (yuvVideoFrame width height)).sum := Nat.mod_eq_of_lt (by omega)
    rw [whole, resize_eq fits]

theorem announced_size {f : NewFrame} {i pitch lines : Nat} (hasPitch : f.pitches[i]? = some pitch)
    (hasLines : f.lines[i]? = some lines) : (announced f)[i]? = some (pitch * lines) := by
  simp [announced, List.getElem?_zipWith, hasPitch, hasLines]

theorem planes_eq (width height : Nat) : (yuvVideoFrame width height).frame.planes =
    place 0 (announced (yuvVideoFrame width height)) := by
  rw [← planeSizes_eq]
  simp only [yuvVideoFrame]

theorem pitch_holds_line_iff (width : Nat) : width ≤ alignToFour (even width) ↔ width ≤ 65534 := by
  have bounds := even_bounds width
  have aligned := alignToFour_bounds (even width)
  constructor
  · intro fits
    by_contra wide
    have none : even 65535 = 0 ∧ even 65536 = 0 := by decide
    rcases (by omega : width = 65535 ∨ width = 65536 ∨ 65537 ≤ width) with rfl | rfl | large
    · omega
    · omega
    · omega
  · intro narrow
    have kept : width ≤ even width := by
      unfold even quint16 quint32
      split <;> omega
    omega

theorem rowsBound (width height : Nat) : RowsBound (yuvVideoFrame width height) := by
  intro i w h pitch lines bound hasPitch hasLines
  have first := alignToFour_bounds (even width)
  have rest := alignToFour_bounds (even width / 2)
  rcases i with _ | _ | _ | i
  · simp only [bindPlanes, yuvVideoFrame, List.getElem?_cons_zero, Option.some.injEq,
      Prod.mk.injEq] at bound hasPitch hasLines
    omega
  · simp only [bindPlanes, yuvVideoFrame, List.getElem?_cons_succ, List.getElem?_cons_zero,
      Option.some.injEq, Prod.mk.injEq] at bound hasPitch hasLines
    omega
  · simp only [bindPlanes, yuvVideoFrame, List.getElem?_cons_succ, List.getElem?_cons_zero,
      Option.some.injEq, Prod.mk.injEq] at bound hasPitch hasLines
    omega
  · simp [bindPlanes] at bound

/-- The planes of a frame are apart, a clone has the same ones and the textures have their rows;
    they lie in the buffer exactly if their sizes fit an int together, and a line of the video
    fits its pitch exactly up to a width of 65534. -/
theorem yuv_layout (width height : Nat) :
    Apart (yuvVideoFrame width height) ∧
    clone (yuvVideoFrame width height).frame = (yuvVideoFrame width height).frame ∧
    RowsBound (yuvVideoFrame width height) ∧
    (InBuffer (yuvVideoFrame width height) ↔
      (announced (yuvVideoFrame width height)).sum ≤ 2147483647) ∧
    ((∀ pitch ∈ (yuvVideoFrame width height).pitches.head?, width ≤ pitch) ↔ width ≤ 65534) := by
  refine ⟨?_, ?_, rowsBound width height, ?_, ?_⟩
  · intro i j plane other pitch lines before here there hasPitch hasLines
    rw [planes_eq] at here there
    have stop := place_end here (announced_size hasPitch hasLines)
    rw [place_start there]
    have := take_sum_le (announced (yuvVideoFrame width height)) (show i + 1 ≤ j from before)
    omega
  · have again : resize (yuvVideoFrame width height).frame.frameBuffer =
        (yuvVideoFrame width height).frame.frameBuffer := by
      rw [frameBuffer_eq]
      exact resize_eq (resize_le _)
    simp only [clone, again]
    simp only [yuvVideoFrame]
  · rw [← buffer_whole_iff]
    constructor
    · intro inBuffer
      have last : (yuvVideoFrame width height).frame.planes[2]? =
          some (0 + alignToFour (even width) * even height +
            alignToFour (even width / 2) * (even height / 2)) := by
        rw [planes_eq]
        simp only [announced, yuvVideoFrame, List.zipWith_cons_cons, place,
          List.getElem?_cons_succ, List.getElem?_cons_zero]
      have inside := inBuffer 2 _ (alignToFour (even width / 2)) (even height / 2) last
        (by simp only [yuvVideoFrame, List.getElem?_cons_succ, List.getElem?_cons_zero])
        (by simp only [yuvVideoFrame, List.getElem?_cons_succ, List.getElem?_cons_zero])
      simp only [announced, yuvVideoFrame, List.zipWith_cons_cons, List.zipWith_nil_left,
        List.sum_cons, List.sum_nil] at inside ⊢
      omega
    · intro whole i plane pitch lines here hasPitch hasLines
      rw [planes_eq] at here
      have stop := place_end here (announced_size hasPitch hasLines)
      have size := announced_size hasPitch hasLines
      have short := (List.getElem?_eq_some_iff.mp size).1
      have := take_sum_le (announced (yuvVideoFrame width height)) (Nat.succ_le_of_lt short)
      rw [List.take_length, Nat.succ_eq_add_one] at this
      omega
  · simp only [yuvVideoFrame, List.head?_cons, Option.mem_some_iff, forall_eq',
      pitch_holds_line_iff]

end VideoFrames
