import Mathlib

/- The largest rectangle of a shape that fits into a frame, in exact arithmetic. -/
namespace AspectFit

@[ext] structure Size (K : Type) where
  width : K
  height : K

variable {K : Type} [Field K]

def Size.scale (k : K) (s : Size K) : Size K := ⟨k * s.width, k * s.height⟩

def Size.SameShape (s t : Size K) : Prop := s.width * t.height = t.width * s.height

theorem Size.SameShape.symm {s t : Size K} (same : s.SameShape t) : t.SameShape s := Eq.symm same

theorem scale_sameShape (k : K) (s : Size K) : (s.scale k).SameShape s := by
  simp only [Size.SameShape, Size.scale]
  ring

variable [LinearOrder K]

structure Size.Positive (s : Size K) : Prop where
  width : 0 < s.width
  height : 0 < s.height

def Size.Inside (s frame : Size K) : Prop := s.width ≤ frame.width ∧ s.height ≤ frame.height

omit [Field K] in
theorem inside_antisymm {s t : Size K} (first : s.Inside t) (second : t.Inside s) : s = t := by
  ext
  · exact le_antisymm first.1 second.1
  · exact le_antisymm first.2 second.2

def fit (shape frame : Size K) : Size K :=
  shape.scale (min (frame.width / shape.width) (frame.height / shape.height))

theorem fit_sameShape (shape frame : Size K) : (fit shape frame).SameShape shape :=
  scale_sameShape _ _

variable {shape other frame s t u : Size K} {k : K}

theorem Size.SameShape.trans (positive : t.Positive) (first : s.SameShape t)
    (second : t.SameShape u) : s.SameShape u := by
  apply mul_right_cancel₀ positive.height.ne'
  calc s.width * u.height * t.height = s.width * t.height * u.height := by ring
    _ = t.width * u.height * s.height := by rw [show s.width * t.height = _ from first]; ring
    _ = u.width * s.height * t.height := by rw [show t.width * u.height = _ from second]; ring

theorem sameShape_iff_scale (positive : t.Positive) :
    s.SameShape t ↔ s = t.scale (s.height / t.height) := by
  have nonzero := positive.height.ne'
  constructor
  · intro same
    ext
    · simp only [Size.scale]
      rw [div_mul_eq_mul_div, eq_div_iff nonzero, mul_comm s.height]
      exact same
    · simp only [Size.scale]
      rw [div_mul_cancel₀ _ nonzero]
  · intro scaled
    rw [scaled]
    exact scale_sameShape _ _

variable [IsStrictOrderedRing K]

theorem scale_positive (positive : s.Positive) (scale : 0 < k) : (s.scale k).Positive :=
  ⟨mul_pos scale positive.width, mul_pos scale positive.height⟩

theorem fit_positive (shaped : shape.Positive) (framed : frame.Positive) :
    (fit shape frame).Positive :=
  scale_positive shaped (lt_min (div_pos framed.width shaped.width)
    (div_pos framed.height shaped.height))

theorem fit_inside (shaped : shape.Positive) : (fit shape frame).Inside frame := by
  constructor
  · exact (le_div_iff₀ shaped.width).mp (min_le_left _ _)
  · exact (le_div_iff₀ shaped.height).mp (min_le_right _ _)

theorem inside_fit (shaped : shape.Positive) (same : s.SameShape shape) (inside : s.Inside frame) :
    s.Inside (fit shape frame) := by
  have scaled := (sameShape_iff_scale shaped).mp same
  have factor : s.height / shape.height ≤
      min (frame.width / shape.width) (frame.height / shape.height) := by
    apply le_min
    · rw [le_div_iff₀ shaped.width]
      have width := inside.1
      rw [scaled] at width
      exact width
    · exact div_le_div_of_nonneg_right inside.2 shaped.height.le
  rw [scaled]
  exact ⟨mul_le_mul_of_nonneg_right factor shaped.width.le,
    mul_le_mul_of_nonneg_right factor shaped.height.le⟩

theorem fit_congr (shaped : shape.Positive) (others : other.Positive)
    (same : shape.SameShape other) : fit shape frame = fit other frame := by
  apply inside_antisymm
  · apply inside_fit others
    · exact (fit_sameShape shape frame).trans shaped same
    · exact fit_inside shaped
  · apply inside_fit shaped
    · exact (fit_sameShape other frame).trans others same.symm
    · exact fit_inside others

theorem fit_scale_frame (scale : 0 < k) :
    fit shape (frame.scale k) = (fit shape frame).scale k := by
  simp only [fit, Size.scale, mul_div_assoc, ← mul_min_of_nonneg _ _ scale.le, mul_assoc]

theorem fit_eq_frame (shaped : shape.Positive) (same : shape.SameShape frame) :
    fit shape frame = frame := by
  apply inside_antisymm (fit_inside shaped)
  exact inside_fit shaped same.symm ⟨le_rfl, le_rfl⟩

end AspectFit
