import QtPlayer.Library.TransitionRuns
import QtPlayer.Player.PictureGeometry

/- QmlVideoObject.cpp: the item that paints the picture into its bounding rectangle. A reset is
   queued when libvlc cleans a format up, and may come after the next format. -/
namespace VideoObject
open AspectFit PictureGeometry TransitionRuns

variable {K : Type} [Field K] [LinearOrder K]

def scaled (ignore : Bool) (s target : Size K) : Size K :=
  if ignore ∨ s.width = 0 ∨ s.height = 0 then target
  else
    let rw := target.height * s.width / s.height
    if rw ≤ target.width then ⟨rw, target.height⟩
    else ⟨target.width, target.width * s.height / s.width⟩

structure Frame where
  inited : Bool
  width : Nat
  height : Nat

/-- `resets` are the calls of reset still queued. -/
structure Item (K : Type) where
  frame : Frame
  geometry : RectF K
  boundingRect : RectF K
  frameSize : Nat × Nat
  gotSize : Bool
  aspectRatio : Ratio
  cropRatio : Ratio
  resets : Nat

/-- The item in its own coordinates, in which it paints; `geometry` is in those of its parent. -/
def Item.own (s : Item K) : RectF K := ⟨0, 0, s.geometry.width, s.geometry.height⟩

def Item.first : Item K :=
  ⟨⟨false, 0, 0⟩, ⟨0, 0, 640, 480⟩, ⟨0, 0, 0, 0⟩, (0, 0), false, .original, .original, 0⟩

def resize (r : RectF K) (s : Size K) : RectF K := (r.setWidth s.width).setHeight s.height

def largest (ar : Size K) (r : RectF K) : Size K :=
  let ratio := min (r.width / ar.width) (r.height / ar.height)
  ⟨ratio * ar.width, ratio * ar.height⟩

def updateAspectRatio (aspectRatio : Ratio) (r : RectF K) : RectF K :=
  if isSet (K := K) aspectRatio then resize r (largest (ratioSize aspectRatio) r) else r

def updateCropRatio (cropRatio : Ratio) (geometry r : RectF K) : RectF K :=
  if isSet (K := K) cropRatio then
    let cropRect := largest (ratioSize cropRatio) r
    let scaledFrameSize := scaled false cropRect geometry.size
    resize r ⟨r.width * (scaledFrameSize.width / cropRect.width),
      r.height * (scaledFrameSize.height / cropRect.height)⟩
  else r

def bounding (aspectRatio cropRatio : Ratio) (frameSize : Nat × Nat) (geometry : RectF K) :
    RectF K :=
  let frameRect : RectF K := updateAspectRatio aspectRatio ⟨0, 0, frameSize.1, frameSize.2⟩
  let scaledFrameSize := scaled (aspectRatio = .ignore) frameRect.size geometry.size
  (updateCropRatio cropRatio geometry (resize frameRect scaledFrameSize)).moveCenter
    geometry.center

def updateBoundingRect (s : Item K) : Item K :=
  { s with boundingRect := bounding s.aspectRatio s.cropRatio s.frameSize s.geometry }

def setAspectRatio (s : Item K) (aspectRatio : Ratio) : Item K :=
  updateBoundingRect { s with aspectRatio := aspectRatio }

def setCropRatio (s : Item K) (cropRatio : Ratio) : Item K :=
  updateBoundingRect { s with cropRatio := cropRatio }

def geometryChanged (s : Item K) (newGeometry : RectF K) : Item K :=
  updateBoundingRect { s with geometry := newGeometry }

def paint (s : Item K) : Item K :=
  if s.frame.inited then
    if !s.gotSize || s.frameSize == (0, 0) then
      updateBoundingRect { s with gotSize := true, frameSize := (s.frame.width, s.frame.height) }
    else s
  else s

def reset (s : Item K) : Item K := { s with gotSize := false, resets := s.resets - 1 }

def formatCallback (s : Item K) (width height : Nat) : Item K :=
  { s with frame := ⟨s.frame.inited, width, height⟩ }

/-- `stretched` is the height times the sample aspect ratio, if that is positive. -/
def displayCallback (s : Item K) (stretched : Option Nat) : Item K :=
  if s.frame.inited then s
  else
    match stretched with
    | some height => { s with frame := ⟨true, s.frame.width, height⟩ }
    | none => s

def formatCleanUpCallback (s : Item K) : Item K :=
  { s with frame := { s.frame with inited := false }, resets := s.resets + 1 }

inductive Action (K : Type) where
  | setAspectRatio (aspectRatio : Ratio)
  | setCropRatio (cropRatio : Ratio)
  | geometryChanged (newGeometry : RectF K)
  | paint
  | reset
  | format (width height : Nat)
  | display (stretched : Option Nat)
  | formatCleanUp

inductive Step : Item K → Action K → Item K → Prop where
  | setAspectRatio (s : Item K) (aspectRatio : Ratio) :
      Step s (.setAspectRatio aspectRatio) (setAspectRatio s aspectRatio)
  | setCropRatio (s : Item K) (cropRatio : Ratio) :
      Step s (.setCropRatio cropRatio) (setCropRatio s cropRatio)
  | geometryChanged (s : Item K) (newGeometry : RectF K) :
      Step s (.geometryChanged newGeometry) (geometryChanged s newGeometry)
  | paint (s : Item K) : Step s .paint (paint s)
  | reset (s : Item K) (queued : 0 < s.resets) : Step s .reset (reset s)
  | format (s : Item K) (width height : Nat) (clean : s.frame.inited = false) :
      Step s (.format width height) (formatCallback s width height)
  | display (s : Item K) (stretched : Option Nat) :
      Step s (.display stretched) (displayCallback s stretched)
  | formatCleanUp (s : Item K) : Step s .formatCleanUp (formatCleanUpCallback s)

def item : System (Item K) (Action K) := ⟨(· = .first), Step⟩

def meantShape (aspectRatio : Ratio) (fw fh : Nat) (geometry : RectF K) : Size K :=
  if aspectRatio = .ignore then geometry.size
  else if isSet (K := K) aspectRatio then ratioSize aspectRatio
  else ⟨fw, fh⟩

section Rectangles

variable {r geometry : RectF K} {s target : Size K}

omit [Field K] [LinearOrder K] in
@[simp] theorem size_resize (r : RectF K) (s : Size K) : (resize r s).size = s := rfl

omit [LinearOrder K] in
@[simp] theorem size_moveCenter (r : RectF K) (c : K × K) : (r.moveCenter c).size = r.size := rfl

omit [LinearOrder K] in
@[simp] theorem center_moveCenter (r : RectF K) (c : K × K) : (r.moveCenter c).center = c := by
  simp [RectF.center, RectF.moveCenter]

theorem largest_eq_fit (ar : Size K) (r : RectF K) : largest ar r = fit ar r.size := rfl

variable [IsStrictOrderedRing K]

theorem scaled_eq_fit (positive : s.Positive) : scaled false s target = fit s target := by
  have wide := positive.width
  have high := positive.height
  have compare : target.height * s.width / s.height ≤ target.width ↔
      target.height / s.height ≤ target.width / s.width := by
    rw [mul_div_right_comm, ← le_div_iff₀ wide]
  simp only [scaled, wide.ne', high.ne', or_self, Bool.false_eq_true, if_false, compare]
  simp only [fit, Size.scale]
  split
  · rename_i least
    rw [min_eq_right least, div_mul_cancel₀ _ high.ne', mul_div_right_comm]
  · rename_i least
    rw [min_eq_left (not_le.mp least).le, div_mul_cancel₀ _ wide.ne', mul_div_right_comm]

theorem updateCropRatio_fits (cropRatio : Ratio) (set : isSet (K := K) cropRatio = true)
    (positive : r.size.Positive) (framed : geometry.size.Positive) :
    ∃ k, 0 < k ∧ (updateCropRatio cropRatio geometry r).size = r.size.scale k ∧
      fit (ratioSize cropRatio) (updateCropRatio cropRatio geometry r).size =
        fit (ratioSize cropRatio) geometry.size := by
  rcases ratioSize_cases (K := K) cropRatio with ⟨_, shape⟩ | unset
  · have cut := fit_positive shape positive
    have cutShape := fit_sameShape (ratioSize cropRatio) r.size
    have room : scaled false _ geometry.size = _ := scaled_eq_fit cut
    have same := fit_sameShape (fit (ratioSize cropRatio) r.size) geometry.size
    have grown := fit_positive cut framed
    have factor := (div_eq_div_iff cut.width.ne' cut.height.ne').mpr
      (Eq.trans same (mul_comm _ _))
    have scaled := (sameShape_iff_scale cut).mp same
    have larger : (updateCropRatio cropRatio geometry r).size =
        r.size.scale ((fit (fit (ratioSize cropRatio) r.size) geometry.size).height /
          (fit (ratioSize cropRatio) r.size).height) := by
      rw [updateCropRatio, if_pos set, size_resize, largest_eq_fit, room, factor]
      simp only [Size.scale, RectF.size, mul_comm]
    refine ⟨_, div_pos grown.height cut.height, larger, ?_⟩
    rw [larger, fit_scale_frame (div_pos grown.height cut.height), ← scaled]
    exact fit_congr cut shape cutShape
  · rw [unset] at set
    cases set

theorem meantShape_positive (aspectRatio : Ratio) {fw fh : Nat} (wide : 0 < fw) (high : 0 < fh)
    (framed : geometry.size.Positive) : (meantShape aspectRatio fw fh geometry).Positive := by
  unfold meantShape
  split
  · exact framed
  · rcases ratioSize_cases (K := K) aspectRatio with ⟨set, shape⟩ | unset
    · rw [if_pos set]
      exact shape
    · rw [if_neg (by simp [unset])]
      exact ⟨Nat.cast_pos.mpr wide, Nat.cast_pos.mpr high⟩

theorem updateAspectRatio_shape (aspectRatio : Ratio) (geometry : RectF K) {fw fh : Nat}
    (wide : 0 < fw) (high : 0 < fh) :
    (updateAspectRatio aspectRatio ⟨0, 0, (fw : K), fh⟩).size.Positive ∧
      (aspectRatio ≠ .ignore → (updateAspectRatio aspectRatio ⟨0, 0, (fw : K), fh⟩).size.SameShape
        (meantShape aspectRatio fw fh geometry)) := by
  have frame : (⟨0, 0, fw, fh⟩ : RectF K).size.Positive :=
    ⟨Nat.cast_pos.mpr wide, Nat.cast_pos.mpr high⟩
  unfold updateAspectRatio meantShape
  rcases ratioSize_cases (K := K) aspectRatio with ⟨set, shape⟩ | unset
  · simp only [set, if_true, size_resize, largest_eq_fit]
    constructor
    · exact fit_positive shape frame
    · intro kept
      rw [if_neg kept]
      exact fit_sameShape _ _
  · simp only [unset, Bool.false_eq_true, if_false]
    constructor
    · exact frame
    · intro kept
      rw [if_neg kept]
      rfl

theorem scaled_frame (aspectRatio : Ratio) {fw fh : Nat} (wide : 0 < fw) (high : 0 < fh)
    (framed : geometry.size.Positive) :
    scaled (aspectRatio = .ignore) (updateAspectRatio aspectRatio ⟨0, 0, (fw : K), fh⟩).size
      geometry.size = fit (meantShape aspectRatio fw fh geometry) geometry.size := by
  by_cases ignored : aspectRatio = .ignore
  · rw [meantShape, if_pos ignored, fit_eq_frame framed rfl, scaled, if_pos (by simp [ignored])]
  · obtain ⟨positive, shaped⟩ := updateAspectRatio_shape aspectRatio geometry wide high
    rw [decide_eq_false ignored, scaled_eq_fit positive]
    exact fit_congr positive (meantShape_positive aspectRatio wide high framed) (shaped ignored)

theorem bounding_placed (aspectRatio cropRatio : Ratio) {fw fh : Nat} (wide : 0 < fw)
    (high : 0 < fh) (framed : geometry.size.Positive) :
    (bounding aspectRatio cropRatio (fw, fh) geometry).center = geometry.center ∧
    (bounding aspectRatio cropRatio (fw, fh) geometry).size.Positive ∧
    (bounding aspectRatio cropRatio (fw, fh) geometry).size.SameShape
      (meantShape aspectRatio fw fh geometry) ∧
    (isSet (K := K) cropRatio = false →
      (bounding aspectRatio cropRatio (fw, fh) geometry).size =
        fit (meantShape aspectRatio fw fh geometry) geometry.size) ∧
    (isSet (K := K) cropRatio = true →
      fit (ratioSize cropRatio) (bounding aspectRatio cropRatio (fw, fh) geometry).size =
        fit (ratioSize cropRatio) geometry.size) := by
  have meant := meantShape_positive (K := K) aspectRatio wide high framed
  have largest := fit_positive meant framed
  have shape := fit_sameShape (meantShape aspectRatio fw fh geometry) geometry.size
  simp only [bounding, center_moveCenter, size_moveCenter, true_and]
  rw [scaled_frame aspectRatio wide high framed]
  generalize updateAspectRatio aspectRatio (⟨0, 0, fw, fh⟩ : RectF K) = frameRect
  by_cases set : isSet (K := K) cropRatio = true
  · obtain ⟨k, factor, larger, fits⟩ := updateCropRatio_fits cropRatio set
      (r := resize frameRect (fit (meantShape aspectRatio fw fh geometry) geometry.size))
      largest framed
    rw [larger]
    refine ⟨scale_positive largest factor, ?_, by simp [set], fun _ => larger ▸ fits⟩
    exact (scale_sameShape k _).trans largest shape
  · rw [updateCropRatio, if_neg set, size_resize]
    exact ⟨largest, shape, fun _ => rfl, fun crop => absurd crop set⟩

end Rectangles

section Runs

/-- The rectangle is up to date once a size is there; the size is that of the frame unless a reset
    is still queued. -/
structure Invariant (s : Item K) : Prop where
  upToDate : s.frameSize ≠ (0, 0) →
    s.boundingRect = bounding s.aspectRatio s.cropRatio s.frameSize s.geometry
  ofFrame : s.resets = 0 → s.gotSize = true →
    s.frame.inited = true ∧ s.frameSize = (s.frame.width, s.frame.height)

theorem first_invariant : Invariant (Item.first : Item K) := by
  constructor
  · intro some
    exact absurd rfl some
  · intro _ got
    cases got

theorem paint_invariant {s : Item K} (held : Invariant s) : Invariant (paint s) := by
  unfold paint
  split
  · rename_i inited
    split
    · constructor
      · intro _
        rfl
      · intro _ _
        exact ⟨inited, rfl⟩
    · exact held
  · exact held

theorem display_invariant {s : Item K} (stretched : Option Nat) (held : Invariant s) :
    Invariant (displayCallback s stretched) := by
  unfold displayCallback
  split
  · exact held
  · rename_i fresh
    split
    · constructor
      · exact held.upToDate
      · intro handled got
        exact absurd (held.ofFrame handled got).1 fresh
    · exact held

theorem step_invariant {s t : Item K} {a : Action K} (held : Invariant s) (step : Step s a t) :
    Invariant t := by
  cases step with
  | setAspectRatio | setCropRatio | geometryChanged => exact ⟨fun _ => rfl, held.ofFrame⟩
  | paint => exact paint_invariant held
  | reset => exact ⟨held.upToDate, fun _ got => by cases got⟩
  | format _ _ clean =>
    constructor
    · exact held.upToDate
    · intro handled got
      have inited := (held.ofFrame handled got).1
      rw [clean] at inited
      cases inited
  | display stretched => exact display_invariant stretched held
  | formatCleanUp => exact ⟨held.upToDate, fun handled => absurd handled (Nat.succ_ne_zero _)⟩

theorem reachable_held {s : Item K} (reach : Reachable item s) : Invariant s := by
  apply reachable_invariant _ _ reach
  · intro s first
    rw [show s = .first from first]
    exact first_invariant
  · intro s a t held taken
    exact step_invariant held taken

theorem paint_uses_frame {s : Item K} (held : Invariant s) (inited : s.frame.inited = true)
    (handled : s.resets = 0) :
    (paint s).boundingRect =
      bounding s.aspectRatio s.cropRatio (s.frame.width, s.frame.height) s.geometry := by
  rw [paint, if_pos inited]
  split
  · rfl
  · rename_i kept
    simp only [Bool.or_eq_true, Bool.not_eq_true', beq_iff_eq, not_or] at kept
    obtain ⟨got, some⟩ := kept
    have now := (held.ofFrame handled (by simpa using got)).2
    rw [held.upToDate some, now]

omit [LinearOrder K] in
theorem own_center_iff (s : Item K) :
    s.geometry.center = s.own.center ↔ s.geometry.x = 0 ∧ s.geometry.y = 0 := by
  simp [RectF.center, Item.own]

/-- In every run a picture is painted with its frame's size in the proportions meant: as large as
    fits, or so large that its part of the crop ratio does. Its middle is where the parent has the
    middle of the item, which is the item's own middle only at the origin of the parent. -/
theorem painted_in_place [IsStrictOrderedRing K] {s : Item K} (reach : Reachable item s)
    (inited : s.frame.inited = true) (handled : s.resets = 0) (wide : 0 < s.frame.width)
    (high : 0 < s.frame.height) (framed : s.geometry.size.Positive) :
    (paint s).boundingRect.center = s.geometry.center ∧
    ((paint s).boundingRect.center = s.own.center ↔ s.geometry.x = 0 ∧ s.geometry.y = 0) ∧
    (paint s).boundingRect.size.Positive ∧
    (paint s).boundingRect.size.SameShape
      (meantShape s.aspectRatio s.frame.width s.frame.height s.geometry) ∧
    (isSet (K := K) s.cropRatio = false → (paint s).boundingRect.size =
      fit (meantShape s.aspectRatio s.frame.width s.frame.height s.geometry) s.geometry.size) ∧
    (isSet (K := K) s.cropRatio = true →
      fit (ratioSize s.cropRatio) (paint s).boundingRect.size =
        fit (ratioSize s.cropRatio) s.geometry.size) := by
  rw [paint_uses_frame (reachable_held reach) inited handled]
  have placed := bounding_placed s.aspectRatio s.cropRatio wide high framed
  exact ⟨placed.1, by rw [placed.1, own_center_iff], placed.2⟩

/-- A film of 16:9 with the crop ratio 4:3 fills an item of 4:3 at the origin of its parent. -/
theorem wide_film_cropped : ∃ s : Item ℚ, Reachable item s ∧
    (paint s).boundingRect.center = s.own.center ∧
    fit ⟨4, 3⟩ (paint s).boundingRect.size = ⟨640, 480⟩ := by
  have reach : Reachable item (setCropRatio (displayCallback
      (formatCallback (Item.first : Item ℚ) 1920 1080) (some 1080)) .r_4_3) :=
    .step (.step (.step (.start rfl) (.format _ 1920 1080 rfl)) (.display _ (some 1080)))
      (.setCropRatio _ .r_4_3)
  have framed : (⟨0, 0, 640, 480⟩ : RectF ℚ).size.Positive := by
    constructor <;> norm_num [RectF.size]
  obtain ⟨_, middle, _, _, _, filled⟩ :=
    painted_in_place reach rfl rfl (by decide) (by decide) framed
  refine ⟨_, reach, ?_, ?_⟩
  · exact middle.mpr ⟨rfl, rfl⟩
  · apply (filled (by norm_num [setCropRatio, updateBoundingRect, isSet, ratioSize])).trans
    norm_num [fit, Size.scale, RectF.size, ratioSize, setCropRatio, updateBoundingRect,
      displayCallback, formatCallback, Item.first]

end Runs

end VideoObject
