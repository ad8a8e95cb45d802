import QtPlayer.Library.AspectFit

/- Where a picture is shown: what QmlVideoOutput.cpp makes of its fill mode, aspect ratio and
   crop ratio, and QmlVideoObject.cpp of its own. A qreal is an element of an ordered field here,
   so nothing is rounded. -/
namespace PictureGeometry
open AspectFit

variable {K : Type} [Field K] [LinearOrder K]

inductive Ratio where
  | original
  | ignore
  | r_16_9
  | r_16_10
  | r_185_100
  | r_221_100
  | r_235_100
  | r_239_100
  | r_4_3
  | r_5_4
  | r_5_3
  | r_1_1
  deriving DecidableEq, Repr

def ratioSize : Ratio → Size K
  | .r_16_9 => ⟨16, 9⟩
  | .r_16_10 => ⟨16, 10⟩
  | .r_185_100 => ⟨185, 100⟩
  | .r_221_100 => ⟨221, 100⟩
  | .r_235_100 => ⟨235, 100⟩
  | .r_239_100 => ⟨239, 100⟩
  | .r_4_3 => ⟨4, 3⟩
  | .r_5_4 => ⟨5, 4⟩
  | .r_5_3 => ⟨5, 3⟩
  | .r_1_1 => ⟨1, 1⟩
  | .original | .ignore => ⟨0, 0⟩

/-- Vlc::FillMode; setFillMode casts any int to one. -/
def stretch : Int := 0
def preserveAspectFit : Int := 1
def preserveAspectCrop : Int := 2

structure RectF (K : Type) where
  x : K
  y : K
  width : K
  height : K

def RectF.setX (r : RectF K) (x : K) : RectF K :=
  { r with x := x, width := r.width - (x - r.x) }

def RectF.setY (r : RectF K) (y : K) : RectF K :=
  { r with y := y, height := r.height - (y - r.y) }

def RectF.size (r : RectF K) : Size K := ⟨r.width, r.height⟩

def RectF.center (r : RectF K) : K × K := (r.x + r.width / 2, r.y + r.height / 2)

def RectF.moveCenter (r : RectF K) (c : K × K) : RectF K :=
  { r with x := c.1 - r.width / 2, y := c.2 - r.height / 2 }

def RectF.setWidth (r : RectF K) (width : K) : RectF K := { r with width := width }

def RectF.setHeight (r : RectF K) (height : K) : RectF K := { r with height := height }

/- VlcQmlVideoOutput::updatePaintNode. -/

def narrow (srcRect : RectF K) (part : K) : RectF K :=
  let moved := srcRect.setX ((1 - part) / 2)
  moved.setWidth (1 - moved.x - moved.x)

def flatten (srcRect : RectF K) (part : K) : RectF K :=
  let moved := srcRect.setY ((1 - part) / 2)
  moved.setHeight (1 - moved.y - moved.y)

/-- What both croppings do: a picture of aspect `own` is cut to another one. -/
def cutTo (srcRect : RectF K) (own aspect : K) : RectF K :=
  if aspect < own then narrow srcRect (aspect / own)
  else if own < aspect then flatten srcRect (own / aspect)
  else srcRect

def isSet (ratio : Ratio) : Bool :=
  decide ((ratioSize ratio : Size K).width ≠ 0 ∧ (ratioSize ratio : Size K).height ≠ 0)

def aspectOf (size : Size K) : K := size.width / size.height

def ownAspect (aspectRatio : Ratio) (fw fh : Nat) : K :=
  if isSet (K := K) aspectRatio then aspectOf (ratioSize aspectRatio) else fw / fh

def shownAspect (aspectRatio cropRatio : Ratio) (fw fh : Nat) : K :=
  if isSet (K := K) cropRatio then aspectOf (ratioSize cropRatio) else ownAspect aspectRatio fw fh

/-- outRect and srcRect; the latter is a part of the unit square. -/
def paintRects (fillMode : Int) (aspectRatio cropRatio : Ratio) (fw fh : Nat) (item : Size K) :
    RectF K × RectF K :=
  let outRect : RectF K := ⟨0, 0, item.width, item.height⟩
  let srcRect : RectF K := ⟨0, 0, 1, 1⟩
  if fillMode ≠ stretch then
    let srcRect :=
      if isSet (K := K) cropRatio then
        cutTo srcRect (ownAspect aspectRatio fw fh) (aspectOf (ratioSize cropRatio))
      else srcRect
    let itemAspect := aspectOf item
    let frameAspect := shownAspect aspectRatio cropRatio fw fh
    if fillMode = preserveAspectFit then
      let outWidth := if frameAspect < itemAspect then item.height * frameAspect else item.width
      let outHeight := if itemAspect < frameAspect then item.width / frameAspect else item.height
      (⟨(item.width - outWidth) / 2, (item.height - outHeight) / 2, outWidth, outHeight⟩, srcRect)
    else if fillMode = preserveAspectCrop then (outRect, cutTo srcRect frameAspect itemAspect)
    else (outRect, srcRect)
  else (outRect, srcRect)

/-- The part shown has the proportions of the place where it is shown. -/
def Undistorted (own : K) (rects : RectF K × RectF K) : Prop :=
  (⟨own * rects.2.width, rects.2.height⟩ : Size K).SameShape ⟨rects.1.width, rects.1.height⟩

def Between (c a b : K) : Prop := a < c ∧ c < b ∨ b < c ∧ c < a

structure Centred (r : RectF K) (frame : Size K) : Prop where
  middleX : r.x + (r.x + r.width) = frame.width
  middleY : r.y + (r.y + r.height) = frame.height
  wide : 0 < r.width ∧ r.width ≤ frame.width
  high : 0 < r.height ∧ r.height ≤ frame.height

variable [IsStrictOrderedRing K]

theorem ratioSize_cases (ratio : Ratio) : isSet (K := K) ratio = true ∧
    (ratioSize ratio : Size K).Positive ∨ isSet (K := K) ratio = false := by
  cases ratio with
  | original | ignore => exact Or.inr (by simp [isSet, ratioSize])
  | _ => exact Or.inl ⟨by simp [isSet, ratioSize], by constructor <;> norm_num [ratioSize]⟩

theorem aspectOf_pos {size : Size K} (positive : size.Positive) : 0 < aspectOf size :=
  div_pos positive.width positive.height

theorem ownAspect_pos (aspectRatio : Ratio) {fw fh : Nat} (wide : 0 < fw) (high : 0 < fh) :
    0 < (ownAspect aspectRatio fw fh : K) := by
  unfold ownAspect
  split
  · rename_i set
    rcases ratioSize_cases (K := K) aspectRatio with ⟨_, positive⟩ | unset
    · exact aspectOf_pos positive
    · exact absurd set (by simp [unset])
  · exact div_pos (Nat.cast_pos.mpr wide) (Nat.cast_pos.mpr high)

theorem narrow_eq (r : RectF K) (part : K) :
    narrow r part = { r with x := (1 - part) / 2, width := part } := by
  simp only [narrow, RectF.setX, RectF.setWidth, RectF.mk.injEq, true_and, and_true]
  field_simp
  ring

theorem flatten_eq (r : RectF K) (part : K) :
    flatten r part = { r with y := (1 - part) / 2, height := part } := by
  simp only [flatten, RectF.setY, RectF.setHeight, RectF.mk.injEq, true_and]
  field_simp
  ring

section Cropping

variable {r : RectF K} {own aspect : K}

theorem cutTo_centred (centred : Centred r ⟨1, 1⟩) (some : 0 < own) (other : 0 < aspect) :
    Centred (cutTo r own aspect) ⟨1, 1⟩ := by
  unfold cutTo
  split
  · rename_i wider
    rw [narrow_eq]
    refine ⟨?_, centred.middleY, ⟨div_pos other some, ?_⟩, centred.high⟩
    · dsimp only
      ring
    · exact (div_le_one some).mpr wider.le
  · split
    · rename_i higher
      rw [flatten_eq]
      refine ⟨centred.middleX, ?_, centred.wide, ⟨div_pos some other, ?_⟩⟩
      · dsimp only
        ring
      · exact (div_le_one other).mpr higher.le
    · exact centred

theorem cutTo_whole (some : 0 < own) (other : 0 < aspect) :
    own * (cutTo ⟨0, 0, 1, 1⟩ own aspect).width =
      aspect * (cutTo ⟨0, 0, 1, 1⟩ own aspect).height := by
  unfold cutTo
  split
  · rw [narrow_eq]
    field_simp
  · split
    · rw [flatten_eq]
      field_simp
    · rename_i notWider notHigher
      rw [le_antisymm (not_lt.mp notHigher) (not_lt.mp notWider)]

theorem cutTo_narrow (wider : aspect < own) :
    cutTo r own aspect = { r with x := (1 - aspect / own) / 2, width := aspect / own } := by
  rw [cutTo, if_pos wider, narrow_eq]

theorem cutTo_flatten (higher : own < aspect) :
    cutTo r own aspect = { r with y := (1 - own / aspect) / 2, height := own / aspect } := by
  rw [cutTo, if_neg higher.not_gt, if_pos higher, flatten_eq]

omit [IsStrictOrderedRing K] in
theorem cutTo_same : cutTo r own own = r := by
  rw [cutTo, if_neg (lt_irrefl own), if_neg (lt_irrefl own)]

/-- A frame that was cut is cut once more to any aspect, unless both cuts take from the same
    sides. -/
theorem cutTo_twice {last : K} (some : 0 < own) (other : 0 < aspect) (third : 0 < last) :
    own * (cutTo (cutTo ⟨0, 0, 1, 1⟩ own aspect) aspect last).width =
      last * (cutTo (cutTo ⟨0, 0, 1, 1⟩ own aspect) aspect last).height ↔
    ¬ Between aspect own last := by
  rcases lt_trichotomy last aspect with below | rfl | above
  · rw [cutTo_narrow below]
    have same (h : K) : own * (last / aspect) = last * h ↔ own = aspect * h := by
      rw [mul_div_assoc', div_eq_iff other.ne', mul_comm own, mul_assoc,
        mul_right_inj' third.ne', mul_comm h]
    rw [same]
    rcases lt_trichotomy aspect own with wider | rfl | higher
    · rw [cutTo_narrow wider]
      refine iff_of_false ?_ (not_not.mpr (Or.inr ⟨below, wider⟩))
      rw [mul_one]
      exact wider.ne'
    · rw [cutTo_same]
      exact iff_of_true (mul_one _).symm (by simp [Between])
    · rw [cutTo_flatten higher]
      refine iff_of_true (mul_div_cancel₀ own other.ne').symm ?_
      rintro (⟨_, between⟩ | ⟨_, between⟩)
      · exact below.not_gt between
      · exact higher.not_gt between
  · rw [cutTo_same]
    refine iff_of_true (cutTo_whole some third) ?_
    simp [Between]
  · rw [cutTo_flatten above]
    have same (w : K) : own * w = last * (aspect / last) ↔ own * w = aspect := by
      rw [mul_div_cancel₀ _ third.ne']
    rw [same]
    rcases lt_trichotomy aspect own with wider | rfl | higher
    · rw [cutTo_narrow wider]
      refine iff_of_true (mul_div_cancel₀ aspect some.ne') ?_
      rintro (⟨between, _⟩ | ⟨between, _⟩)
      · exact wider.not_gt between
      · exact above.not_gt between
    · rw [cutTo_same]
      exact iff_of_true (mul_one _) (by simp [Between])
    · rw [cutTo_flatten higher]
      refine iff_of_false ?_ (not_not.mpr (Or.inl ⟨higher, above⟩))
      rw [mul_one]
      exact higher.ne

end Cropping

section Painting

variable {fillMode : Int} {aspectRatio cropRatio : Ratio} {fw fh : Nat} {item : Size K}

theorem shownAspect_pos (aspectRatio cropRatio : Ratio) (wide : 0 < fw) (high : 0 < fh) :
    0 < (shownAspect aspectRatio cropRatio fw fh : K) := by
  unfold shownAspect
  rcases ratioSize_cases (K := K) cropRatio with ⟨set, positive⟩ | unset
  · rw [if_pos set]
    exact aspectOf_pos positive
  · rw [if_neg (by simp [unset])]
    exact ownAspect_pos aspectRatio wide high

omit [IsStrictOrderedRing K] in
theorem whole_centred (positive : item.Positive) :
    Centred ⟨0, 0, item.width, item.height⟩ item := by
  constructor
  · simp
  · simp
  · exact ⟨positive.width, le_rfl⟩
  · exact ⟨positive.height, le_rfl⟩

theorem centred_of_inside {s : Size K} (positive : s.Positive) (inside : s.Inside item) :
    Centred ⟨(item.width - s.width) / 2, (item.height - s.height) / 2, s.width, s.height⟩ item := by
  constructor
  · dsimp only
    ring
  · dsimp only
    ring
  · exact ⟨positive.width, inside.1⟩
  · exact ⟨positive.height, inside.2⟩

omit [IsStrictOrderedRing K] in
theorem aspectOf_fit {aspect : K} (positive : (fit ⟨aspect, 1⟩ item).Positive) :
    aspectOf (fit ⟨aspect, 1⟩ item) = aspect := by
  have same := fit_sameShape ⟨aspect, 1⟩ item
  simp only [Size.SameShape, mul_one] at same
  exact (div_eq_iff positive.height.ne').mpr same

omit [IsStrictOrderedRing K] in
theorem undistorted_iff {own x y : K} {r : RectF K} {s : Size K} (positive : s.Positive) :
    Undistorted own (⟨x, y, s.width, s.height⟩, r) ↔ own * r.width = aspectOf s * r.height := by
  have high := positive.height.ne'
  simp only [Undistorted, Size.SameShape, aspectOf]
  rw [div_mul_eq_mul_div, eq_div_iff high]

theorem fit_sides {aspect : K} (some : 0 < aspect) (positive : item.Positive) :
    fit ⟨aspect, 1⟩ item =
      ⟨if aspect < aspectOf item then item.height * aspect else item.width,
        if aspectOf item < aspect then item.width / aspect else item.height⟩ := by
  have compare : aspect < aspectOf item ↔ item.height < item.width / aspect := by
    rw [aspectOf, lt_div_iff₀ positive.height, lt_div_iff₀ some, mul_comm]
  have compare' : aspectOf item < aspect ↔ item.width / aspect < item.height := by
    rw [aspectOf, div_lt_iff₀ positive.height, div_lt_iff₀ some, mul_comm]
  simp only [fit, Size.scale, div_one, mul_one, Size.mk.injEq, compare, compare']
  rcases lt_trichotomy item.height (item.width / aspect) with tall | same | flat
  · rw [min_eq_right tall.le, if_pos tall, if_neg tall.not_gt]
    exact ⟨rfl, rfl⟩
  · rw [← same, min_self, if_neg (lt_irrefl _), if_neg (lt_irrefl _)]
    exact ⟨(eq_div_iff some.ne').mp same, rfl⟩
  · rw [min_eq_left flat.le, if_neg flat.not_gt, if_pos flat]
    exact ⟨div_mul_cancel₀ _ some.ne', rfl⟩

theorem cropped_aspect (aspectRatio cropRatio : Ratio) (wide : 0 < fw) (high : 0 < fh) :
    ∃ r : RectF K, Centred r ⟨1, 1⟩ ∧
      (if isSet (K := K) cropRatio then
        cutTo ⟨0, 0, 1, 1⟩ (ownAspect aspectRatio fw fh) (aspectOf (ratioSize cropRatio))
      else ⟨0, 0, 1, 1⟩) = r ∧
      ownAspect aspectRatio fw fh * r.width =
        shownAspect aspectRatio cropRatio fw fh * r.height := by
  have own := ownAspect_pos (K := K) aspectRatio wide high
  have unit : Centred (⟨0, 0, 1, 1⟩ : RectF K) ⟨1, 1⟩ := by constructor <;> norm_num
  unfold shownAspect
  rcases ratioSize_cases (K := K) cropRatio with ⟨set, positive⟩ | unset
  · rw [if_pos set, if_pos set]
    exact ⟨_, cutTo_centred unit own (aspectOf_pos positive), rfl,
      cutTo_whole own (aspectOf_pos positive)⟩
  · rw [if_neg (by simp [unset]), if_neg (by simp [unset])]
    exact ⟨_, unit, rfl, rfl⟩

/-- Cut to the item after the crop ratio, the picture is undistorted unless the crop ratio is
    between its own aspect and that of the item. -/
theorem cut_to_item (aspectRatio cropRatio : Ratio) (wide : 0 < fw) (high : 0 < fh)
    (positive : item.Positive) {r : RectF K}
    (cropped : (if isSet (K := K) cropRatio then
        cutTo ⟨0, 0, 1, 1⟩ (ownAspect aspectRatio fw fh) (aspectOf (ratioSize cropRatio))
      else ⟨0, 0, 1, 1⟩) = r) :
    ownAspect aspectRatio fw fh *
        (cutTo r (shownAspect aspectRatio cropRatio fw fh) (aspectOf item)).width =
      aspectOf item *
        (cutTo r (shownAspect aspectRatio cropRatio fw fh) (aspectOf item)).height ↔
    ¬ (isSet (K := K) cropRatio = true ∧ Between (aspectOf (ratioSize cropRatio))
      (ownAspect aspectRatio fw fh) (aspectOf item)) := by
  have own := ownAspect_pos (K := K) aspectRatio wide high
  subst cropped
  unfold shownAspect
  rcases ratioSize_cases (K := K) cropRatio with ⟨set, shape⟩ | unset
  · simp only [set, if_true, true_and]
    exact cutTo_twice own (aspectOf_pos shape) (aspectOf_pos positive)
  · simp only [unset, if_false, Bool.false_eq_true, false_and, not_false_iff, iff_true]
    exact cutTo_whole own (aspectOf_pos positive)

/-- In exact arithmetic, the picture is always in the middle of the item, and shows the middle of
    the frame. PreserveAspectFit makes it as large as it can be undistorted. PreserveAspectCrop
    fills the item, and distorts the picture exactly if there is a crop ratio between the aspect
    of the frame and that of the item. -/
theorem picture_shown (fillMode : Int) (aspectRatio cropRatio : Ratio) (wide : 0 < fw)
    (high : 0 < fh) (positive : item.Positive) :
    ∃ outRect srcRect, paintRects fillMode aspectRatio cropRatio fw fh item = (outRect, srcRect) ∧
      Centred outRect item ∧ Centred srcRect ⟨1, 1⟩ ∧
      (fillMode = preserveAspectFit →
        ⟨outRect.width, outRect.height⟩ = fit ⟨shownAspect aspectRatio cropRatio fw fh, 1⟩ item ∧
        Undistorted (ownAspect aspectRatio fw fh) (outRect, srcRect)) ∧
      (fillMode = preserveAspectCrop → outRect = ⟨0, 0, item.width, item.height⟩ ∧
        (Undistorted (ownAspect aspectRatio fw fh) (outRect, srcRect) ↔
          ¬ (isSet (K := K) cropRatio = true ∧ Between (aspectOf (ratioSize cropRatio))
            (ownAspect aspectRatio fw fh) (aspectOf item)))) := by
  have shown := shownAspect_pos (K := K) aspectRatio cropRatio wide high
  have whole := whole_centred positive
  have unit : Centred (⟨0, 0, 1, 1⟩ : RectF K) ⟨1, 1⟩ := by constructor <;> norm_num
  obtain ⟨r, centred, cropped, aspect⟩ := cropped_aspect (K := K) aspectRatio cropRatio wide high
  have cut := cut_to_item aspectRatio cropRatio wide high positive cropped
  simp only [paintRects, cropped]
  by_cases stretched : fillMode = stretch
  · rw [if_neg (not_not.mpr stretched)]
    exact ⟨_, _, rfl, whole, unit, by simp [stretched, stretch, preserveAspectFit],
      by simp [stretched, stretch, preserveAspectCrop]⟩
  · rw [if_pos stretched]
    by_cases fits : fillMode = preserveAspectFit
    · rw [if_pos fits]
      have shape : (⟨shownAspect aspectRatio cropRatio fw fh, 1⟩ : Size K).Positive :=
        ⟨shown, one_pos⟩
      have large := fit_positive shape positive
      have placed := centred_of_inside large (fit_inside shape)
      have undistorted (x y : K) := (undistorted_iff (x := x) (y := y) large).mpr
        (aspect.trans (congrArg (· * r.height) (aspectOf_fit large).symm))
      simp only [fit_sides shown positive] at placed undistorted ⊢
      exact ⟨_, _, rfl, placed, centred, fun _ => ⟨rfl, undistorted _ _⟩,
        fun crop => absurd (fits.symm.trans crop) (by decide)⟩
    · rw [if_neg fits]
      by_cases crops : fillMode = preserveAspectCrop
      · rw [if_pos crops]
        refine ⟨_, _, rfl, whole, cutTo_centred centred shown (aspectOf_pos positive),
          fun fit => absurd fit fits, fun _ => ⟨rfl, ?_⟩⟩
        exact (undistorted_iff positive).trans cut
      · rw [if_neg crops]
        exact ⟨_, _, rfl, whole, centred, fun fit => absurd fit fits, fun crop => absurd crop crops⟩

/-- A wide frame cut to 4:3 and then to a square is cut only once. -/
theorem square_item_distorted : ∃ outRect srcRect,
    paintRects preserveAspectCrop .original .r_4_3 1920 1080 (⟨720, 720⟩ : Size ℚ) =
      (outRect, srcRect) ∧ outRect = ⟨0, 0, 720, 720⟩ ∧
    ¬ Undistorted (ownAspect .original 1920 1080) (outRect, srcRect) := by
  have positive : (⟨720, 720⟩ : Size ℚ).Positive := by constructor <;> norm_num
  have between : isSet (K := ℚ) .r_4_3 = true ∧ Between (aspectOf (ratioSize .r_4_3))
      (ownAspect .original 1920 1080) (aspectOf (⟨720, 720⟩ : Size ℚ)) := by
    norm_num [isSet, ratioSize, Between, aspectOf, ownAspect]
  obtain ⟨outRect, srcRect, painted, _, _, _, crop⟩ := picture_shown preserveAspectCrop .original
    .r_4_3 (by decide : 0 < 1920) (by decide : 0 < 1080) positive
  obtain ⟨whole, undistorted⟩ := crop rfl
  exact ⟨outRect, srcRect, painted, whole, fun same => undistorted.mp same between⟩

end Painting

end PictureGeometry
