import Mathlib.Algebra.Order.Ring.Nat
import QtPlayer.Player.VideoFrames

/- VideoMemoryStream.cpp: setPitchAndLines, and the planes that VlcQmlVideoObject::formatCallback
   gives libvlc. Unsigned values are Nat with their wraps written out. -/
namespace ChromaPlanes
open VideoFrames

structure Rational where
  num : Nat
  den : Nat
  deriving DecidableEq

structure PlaneDescription where
  w : Rational
  h : Rational
  deriving DecidableEq

structure ChromaDescription where
  p : List PlaneDescription
  pixel_size : Nat

/-- A plane of VlcVideoFrame; `size` is that of its byte array. -/
structure FramePlane where
  pitch : Nat
  visiblePitch : Nat
  lines : Nat
  visibleLines : Nat
  size : Nat
  deriving DecidableEq

def lcm (a b : Nat) : Nat := a * b / Nat.gcd a b

def moduloW (desc : ChromaDescription) : Nat :=
  desc.p.foldl (fun modulo plane => lcm modulo (8 * plane.w.den)) 1

def moduloH (desc : ChromaDescription) : Nat :=
  lcm (desc.p.foldl (fun modulo plane => lcm modulo (8 * plane.h.den)) 1) 32

def ratioH (desc : ChromaDescription) : Nat :=
  desc.p.foldl (fun ratio plane => if ratio < plane.h.den then plane.h.den else ratio) 1

def aligned (size modulo : Nat) : Nat := quint32 (size + modulo - 1) / modulo * modulo

def heightExtra (desc : ChromaDescription) : Nat := 2 * ratioH desc

def part (size : Nat) (ratio : Rational) : Nat := quint32 (size * ratio.num) / ratio.den

def framePlane (desc : ChromaDescription) (width height : Nat) (plane : PlaneDescription) :
    FramePlane :=
  let pitch := quint32 (part (aligned width (moduloW desc)) plane.w * desc.pixel_size)
  let lines := part (quint32 (aligned height (moduloH desc) + heightExtra desc)) plane.h
  { pitch := pitch
    visiblePitch := quint32 (part width plane.w * desc.pixel_size)
    lines := lines
    visibleLines := part height plane.h
    size := resize (quint32 (pitch * lines)) }

def framePlanes (desc : ChromaDescription) (width height : Nat) : List FramePlane :=
  desc.p.map (framePlane desc width height)

def bufferSize (desc : ChromaDescription) (width height : Nat) : Nat :=
  quint32 ((framePlanes desc width height).map fun plane => plane.pitch * plane.lines).sum

/-- libvlc writes every line of a plane, and the painter reads the visible part of every visible
    line, at strides that are multiples of 4. -/
structure Holds (plane : FramePlane) : Prop where
  aligned : 8 ∣ plane.pitch
  wide : plane.visiblePitch ≤ plane.pitch
  written : plane.pitch * plane.lines ≤ plane.size
  read : ∀ y < plane.visibleLines, y * plane.pitch + plane.visiblePitch ≤ plane.size

/-- Planes of single bytes for every pixel, or for every second or fourth one, as in YV12. -/
structure Planar (desc : ChromaDescription) : Prop where
  single : ∀ plane ∈ desc.p, plane.w.num = 1 ∧ plane.h.num = 1
  sampled : ∀ plane ∈ desc.p, plane.w.den ∣ 4 ∧ plane.h.den ∣ 4
  whole : ∃ plane ∈ desc.p, plane.w.den = 1 ∧ plane.h.den = 1
  bytes : desc.pixel_size = 1

def alignUp (size modulo : Nat) : Nat := (size + modulo - 1) / modulo * modulo

def planeBytes (desc : ChromaDescription) (width height : Nat) : Nat :=
  alignUp width (moduloW desc) * (alignUp height (moduloH desc) + heightExtra desc)

theorem size_eq (desc : ChromaDescription) (width height : Nat) (plane : PlaneDescription) :
    (framePlane desc width height plane).size =
      resize (quint32 ((framePlane desc width height plane).pitch *
        (framePlane desc width height plane).lines)) := by
  simp only [framePlane]

/- Alignment. -/

theorem alignUp_bounds (size : Nat) {modulo : Nat} (positive : 0 < modulo) :
    size ≤ alignUp size modulo ∧ alignUp size modulo < size + modulo ∧
      modulo ∣ alignUp size modulo := by
  have split := Nat.div_add_mod (size + modulo - 1) modulo
  have small := Nat.mod_lt (size + modulo - 1) positive
  rw [Nat.mul_comm] at split
  refine ⟨?_, ?_, Nat.dvd_mul_left _ _⟩
  · unfold alignUp
    omega
  · unfold alignUp
    omega

theorem aligned_exact {size modulo : Nat} (fits : size + modulo - 1 < 2 ^ 32) :
    aligned size modulo = alignUp size modulo := by
  rw [aligned, quint32, Nat.mod_eq_of_lt fits]
  rfl

theorem aligned_wraps {size modulo : Nat} (small : size < 2 ^ 32) (large : modulo ≤ 2 ^ 32)
    (wraps : 2 ^ 32 ≤ size + modulo - 1) : aligned size modulo = 0 := by
  have rest : quint32 (size + modulo - 1) = size + modulo - 1 - 2 ^ 32 := by
    unfold quint32
    omega
  rw [aligned, rest, Nat.div_eq_of_lt (by omega), Nat.zero_mul]

theorem lcm_eq (a b : Nat) : lcm a b = Nat.lcm a b := rfl

theorem foldl_lcm (den : PlaneDescription → Nat) (planes : List PlaneDescription) (start : Nat) :
    start ∣ planes.foldl (fun modulo plane => lcm modulo (8 * den plane)) start ∧
    (∀ plane ∈ planes,
      8 * den plane ∣ planes.foldl (fun modulo plane => lcm modulo (8 * den plane)) start) ∧
    ∀ n, start ∣ n → (∀ plane ∈ planes, 8 * den plane ∣ n) →
      planes.foldl (fun modulo plane => lcm modulo (8 * den plane)) start ∣ n := by
  induction planes generalizing start with
  | nil => simp
  | cons plane planes ih =>
    obtain ⟨first, each, least⟩ := ih (lcm start (8 * den plane))
    rw [lcm_eq] at first
    simp only [List.foldl_cons, List.forall_mem_cons]
    refine ⟨(Nat.dvd_lcm_left _ _).trans first, ⟨(Nat.dvd_lcm_right _ _).trans first, each⟩, ?_⟩
    intro n here others
    exact least n (Nat.lcm_dvd here others.1) others.2

theorem foldl_ratio (planes : List PlaneDescription) (start bound : Nat) (low : start ≤ bound)
    (each : ∀ plane ∈ planes, plane.h.den ≤ bound) :
    start ≤ planes.foldl (fun ratio plane =>
      if ratio < plane.h.den then plane.h.den else ratio) start ∧
    planes.foldl (fun ratio plane =>
      if ratio < plane.h.den then plane.h.den else ratio) start ≤ bound := by
  induction planes generalizing start with
  | nil => exact ⟨le_refl start, low⟩
  | cons plane planes ih =>
    obtain ⟨first, others⟩ := List.forall_mem_cons.mp each
    rw [List.foldl_cons]
    split
    · rename_i larger
      obtain ⟨least, most⟩ := ih plane.h.den first others
      exact ⟨larger.le.trans least, most⟩
    · exact ih start low others

section PlanarDescriptions

variable {desc : ChromaDescription} (planar : Planar desc)
include planar

theorem moduloW_bounds : 8 ∣ moduloW desc ∧ 0 < moduloW desc ∧ moduloW desc ≤ 32 ∧
    ∀ plane ∈ desc.p, 8 * plane.w.den ∣ moduloW desc := by
  obtain ⟨_, each, least⟩ := foldl_lcm (fun plane => plane.w.den) desc.p 1
  obtain ⟨plane, mem, den, _⟩ := planar.whole
  have most : moduloW desc ∣ 32 := by
    apply least 32 (Nat.one_dvd _)
    intro plane mem
    exact Nat.mul_dvd_mul_left 8 (planar.sampled plane mem).1
  have eight := each plane mem
  rw [den] at eight
  exact ⟨eight, Nat.pos_of_dvd_of_pos most (by decide), Nat.le_of_dvd (by decide) most, each⟩

theorem moduloH_eq : moduloH desc = 32 := by
  have least := (foldl_lcm (fun plane => plane.h.den) desc.p 1).2.2
  apply Nat.lcm_eq_right
  apply least 32 (Nat.one_dvd _)
  intro plane mem
  exact Nat.mul_dvd_mul_left 8 (planar.sampled plane mem).2

theorem heightExtra_bounds : 0 < heightExtra desc ∧ heightExtra desc ≤ 8 := by
  have bounds := foldl_ratio desc.p 1 4 (by decide) fun plane mem =>
    Nat.le_of_dvd (by decide) (planar.sampled plane mem).2
  unfold heightExtra ratioH
  omega

theorem part_eq {plane : PlaneDescription} (mem : plane ∈ desc.p) {size : Nat}
    (small : size < 2 ^ 32) :
    part size plane.w = size / plane.w.den ∧ part size plane.h = size / plane.h.den := by
  obtain ⟨w, h⟩ := planar.single plane mem
  simp only [part, w, h, Nat.mul_one, quint32, Nat.mod_eq_of_lt small, and_self]

theorem pitch_eq {plane : PlaneDescription} (mem : plane ∈ desc.p) {width : Nat} (height : Nat)
    (wide : width + moduloW desc - 1 < 2 ^ 32) :
    (framePlane desc width height plane).pitch =
      alignUp width (moduloW desc) / plane.w.den := by
  obtain ⟨_, positive, narrow, _⟩ := moduloW_bounds planar
  have across := (alignUp_bounds width positive).2.1
  have fits : alignUp width (moduloW desc) < 2 ^ 32 := by
    omega
  have bytes := planar.bytes
  simp only [framePlane, aligned_exact wide, (part_eq planar mem fits).1, bytes, Nat.mul_one]
  exact Nat.mod_eq_of_lt ((Nat.div_le_self _ _).trans_lt fits)

theorem visible_eq {plane : PlaneDescription} (mem : plane ∈ desc.p) {width height : Nat}
    (narrow : width < 2 ^ 32) (low : height < 2 ^ 32) :
    (framePlane desc width height plane).visiblePitch = width / plane.w.den ∧
      (framePlane desc width height plane).visibleLines = height / plane.h.den := by
  have bytes := planar.bytes
  simp only [framePlane, (part_eq planar mem narrow).1, (part_eq planar mem low).2, bytes,
    Nat.mul_one, and_true]
  exact Nat.mod_eq_of_lt ((Nat.div_le_self _ _).trans_lt narrow)

theorem lines_eq {plane : PlaneDescription} (mem : plane ∈ desc.p) (width : Nat) {height : Nat}
    (high : height + 40 ≤ 2 ^ 32) :
    (framePlane desc width height plane).lines =
      (alignUp height (moduloH desc) + heightExtra desc) / plane.h.den := by
  obtain ⟨_, extra⟩ := heightExtra_bounds planar
  have up := (alignUp_bounds height (show 0 < 32 by decide)).2.1
  have fits : alignUp height 32 + heightExtra desc < 2 ^ 32 := by
    omega
  have whole : quint32 (alignUp height 32 + heightExtra desc) =
      alignUp height 32 + heightExtra desc := Nat.mod_eq_of_lt fits
  simp only [framePlane, moduloH_eq planar]
  rw [aligned_exact (by omega), whole, (part_eq planar mem fits).2]

theorem holds_of_small {plane : PlaneDescription} (mem : plane ∈ desc.p) {width height : Nat}
    (some : 0 < width) (fits : planeBytes desc width height ≤ 2147483647) :
    Holds (framePlane desc width height plane) := by
  obtain ⟨eight, positive, narrow, each⟩ := moduloW_bounds planar
  obtain ⟨extra, _⟩ := heightExtra_bounds planar
  obtain ⟨sampled, _⟩ := planar.sampled plane mem
  have den := Nat.pos_of_dvd_of_pos sampled (by decide)
  obtain ⟨across, _, divides⟩ := alignUp_bounds width positive
  have up := (alignUp_bounds height (show 0 < 32 by decide)).1
  rw [← moduloH_eq planar] at up
  unfold planeBytes at fits
  have least : 8 ≤ alignUp width (moduloW desc) :=
    Nat.le_of_dvd (by omega) (eight.trans divides)
  have wide : alignUp width (moduloW desc) ≤ 2147483647 :=
    (Nat.le_mul_of_pos_right _ (by omega)).trans fits
  have high : 8 * (alignUp height (moduloH desc) + heightExtra desc) ≤ 2147483647 :=
    (Nat.mul_le_mul_right _ least).trans fits
  have pitch := pitch_eq planar mem height (show width + moduloW desc - 1 < 2 ^ 32 by omega)
  have lines := lines_eq planar mem width (show height + 40 ≤ 2 ^ 32 by omega)
  obtain ⟨visible, visible'⟩ := visible_eq planar mem (show width < 2 ^ 32 by omega)
    (show height < 2 ^ 32 by omega)
  have wider : (framePlane desc width height plane).visiblePitch ≤
      (framePlane desc width height plane).pitch := by
    rw [visible, pitch]
    exact Nat.div_le_div_right across
  have higher : (framePlane desc width height plane).visibleLines ≤
      (framePlane desc width height plane).lines := by
    rw [visible', lines]
    exact Nat.div_le_div_right (by omega)
  have whole : (framePlane desc width height plane).pitch *
      (framePlane desc width height plane).lines ≤ 2147483647 := by
    rw [pitch, lines]
    exact (Nat.mul_le_mul (Nat.div_le_self _ _) (Nat.div_le_self _ _)).trans fits
  have size : (framePlane desc width height plane).size =
      (framePlane desc width height plane).pitch *
        (framePlane desc width height plane).lines := by
    rw [size_eq, quint32, Nat.mod_eq_of_lt (whole.trans_lt (by decide)), resize_eq whole]
  constructor
  · obtain ⟨k, same⟩ := (each plane mem).trans divides
    rw [pitch, same, Nat.mul_comm 8, Nat.mul_assoc, Nat.mul_div_cancel_left _ den]
    exact Nat.dvd_mul_right 8 k
  · exact wider
  · exact size.ge
  · intro y inside
    have below : y + 1 ≤ (framePlane desc width height plane).lines := inside.trans_le higher
    have rows := Nat.mul_le_mul_left (framePlane desc width height plane).pitch below
    rw [Nat.mul_add, Nat.mul_one, Nat.mul_comm _ y] at rows
    omega

theorem holds_of_empty {plane : PlaneDescription} (mem : plane ∈ desc.p) (height : Nat) :
    Holds (framePlane desc 0 height plane) := by
  obtain ⟨_, positive, narrow, _⟩ := moduloW_bounds planar
  have pitch := pitch_eq planar mem height (show 0 + moduloW desc - 1 < 2 ^ 32 by omega)
  have none : alignUp 0 (moduloW desc) = 0 := by
    rw [alignUp, Nat.div_eq_of_lt (by omega), Nat.zero_mul]
  rw [none, Nat.zero_div] at pitch
  have visible : (framePlane desc 0 height plane).visiblePitch = 0 := by
    simp [framePlane, part, quint32]
  constructor
  · rw [pitch]
    exact Nat.dvd_zero 8
  · rw [visible]
    exact Nat.zero_le _
  · rw [pitch, Nat.zero_mul]
    exact Nat.zero_le _
  · intro y _
    rw [pitch, visible]
    exact Nat.zero_le _

/-- A plane of whole size that holds its lines has not wrapped. -/
theorem small_of_holds {plane : PlaneDescription} (mem : plane ∈ desc.p)
    (across : plane.w.den = 1) (up : plane.h.den = 1) {width height : Nat} (some : 0 < width)
    (narrow : width < 2 ^ 32) (low : height < 2 ^ 32)
    (holds : Holds (framePlane desc width height plane)) :
    planeBytes desc width height ≤ 2147483647 := by
  obtain ⟨eight, positive, modulo, _⟩ := moduloW_bounds planar
  obtain ⟨least, _, divides⟩ := alignUp_bounds width positive
  obtain ⟨visible, visible'⟩ := visible_eq planar mem narrow low
  rw [across, Nat.div_one] at visible
  rw [up, Nat.div_one] at visible'
  have size : (framePlane desc width height plane).size ≤ 2147483647 := by
    rw [size_eq]
    exact resize_le _
  have wide : width + moduloW desc - 1 < 2 ^ 32 := by
    by_contra wraps
    have none := aligned_wraps narrow (by omega) (not_lt.mp wraps)
    have pitch : (framePlane desc width height plane).pitch = 0 := by
      simp [framePlane, none, part, quint32]
    have wider := holds.wide
    omega
  have pitch := pitch_eq planar mem height wide
  rw [across, Nat.div_one] at pitch
  have eight' : 8 ≤ alignUp width (moduloW desc) :=
    Nat.le_of_dvd (by omega) (eight.trans divides)
  have high : height + 40 ≤ 2 ^ 32 := by
    by_contra large
    have last := holds.read (height - 1) (by omega)
    have rows := Nat.mul_le_mul_left (height - 1) eight'
    rw [pitch] at last
    omega
  have lines := lines_eq planar mem width high
  have written := holds.written
  rw [up, Nat.div_one] at lines
  rw [pitch, lines] at written
  exact written.trans size

theorem planes_hold_of_fits {width height : Nat}
    (fits : planeBytes desc width height ≤ 2147483647) :
    ∀ plane ∈ framePlanes desc width height, Holds plane := by
  rw [framePlanes, List.forall_mem_map]
  intro plane mem
  rcases Nat.eq_zero_or_pos width with rfl | some
  · exact holds_of_empty planar mem height
  · exact holds_of_small planar mem some fits

theorem planes_hold_iff {width height : Nat} (narrow : width < 2 ^ 32) (low : height < 2 ^ 32) :
    (∀ plane ∈ framePlanes desc width height, Holds plane) ↔
      planeBytes desc width height ≤ 2147483647 := by
  constructor
  · intro holds
    rcases Nat.eq_zero_or_pos width with rfl | some
    · obtain ⟨_, positive, _, _⟩ := moduloW_bounds planar
      rw [planeBytes, alignUp, Nat.div_eq_of_lt (by omega), Nat.zero_mul, Nat.zero_mul]
      exact Nat.zero_le _
    · obtain ⟨plane, mem, across, up⟩ := planar.whole
      exact small_of_holds planar mem across up some narrow low
        (holds _ (List.mem_map_of_mem mem))
  · exact planes_hold_of_fits planar

end PlanarDescriptions

def yv12 : ChromaDescription :=
  ⟨[⟨⟨1, 1⟩, ⟨1, 1⟩⟩, ⟨⟨1, 2⟩, ⟨1, 2⟩⟩, ⟨⟨1, 2⟩, ⟨1, 2⟩⟩], 1⟩

theorem yv12_planar : Planar yv12 := by
  constructor
  · decide
  · decide
  · exact ⟨⟨⟨1, 1⟩, ⟨1, 1⟩⟩, by decide, rfl, rfl⟩
  · rfl

end ChromaPlanes
