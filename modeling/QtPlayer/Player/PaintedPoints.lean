import QtPlayer.Player.PictureGeometry

/- GlslPainter.cpp: paint. What OpenGL is given to draw for a picture, whatever transform the
   QPainter has, and what it then shows. -/
namespace PaintedPoints
open PictureGeometry

variable {K : Type} [Field K]

/-- QTransform; dx and dy are its m31 and m32. -/
structure QTransform (K : Type) where
  m11 : K
  m12 : K
  m13 : K
  m21 : K
  m22 : K
  m23 : K
  dx : K
  dy : K
  m33 : K

def QTransform.weight (t : QTransform K) (p : K × K) : K := t.m13 * p.1 + t.m23 * p.2 + t.m33

def QTransform.map (t : QTransform K) (p : K × K) : K × K :=
  ((t.m11 * p.1 + t.m21 * p.2 + t.dx) / t.weight p,
    (t.m12 * p.1 + t.m22 * p.2 + t.dy) / t.weight p)

structure Vec4 (K : Type) where
  x : K
  y : K
  z : K
  w : K

structure Mat4 (K : Type) where
  first : Vec4 K
  second : Vec4 K
  third : Vec4 K
  fourth : Vec4 K

def combine (a b c : K) (p q r : Vec4 K) : Vec4 K :=
  ⟨a * p.x + b * q.x + c * r.x, a * p.y + b * q.y + c * r.y, a * p.z + b * q.z + c * r.z,
    a * p.w + b * q.w + c * r.w⟩

def Mat4.mul (m : Mat4 K) (v : Vec4 K) : Vec4 K :=
  ⟨m.first.x * v.x + m.second.x * v.y + m.third.x * v.z + m.fourth.x * v.w,
    m.first.y * v.x + m.second.y * v.y + m.third.y * v.z + m.fourth.y * v.w,
    m.first.z * v.x + m.second.z * v.y + m.third.z * v.z + m.fourth.z * v.w,
    m.first.w * v.x + m.second.w * v.y + m.third.w * v.z + m.fourth.w * v.w⟩

def positionMatrix (transform : QTransform K) (width height : Int) : Mat4 K :=
  let wfactor := ((2 : Int) : K) / width
  let hfactor := ((-2 : Int) : K) / height
  { first :=
      ⟨wfactor * transform.m11 - transform.m13, hfactor * transform.m12 + transform.m13, 0,
        transform.m13⟩
    second :=
      ⟨wfactor * transform.m21 - transform.m23, hfactor * transform.m22 + transform.m23, 0,
        transform.m23⟩
    third := ⟨0, 0, -1, 0⟩
    fourth :=
      ⟨wfactor * transform.dx - transform.m33, hfactor * transform.dy + transform.m33, 0,
        transform.m33⟩ }

def position (transform : QTransform K) (width height : Int) (targetVertex : K × K) : Vec4 K :=
  (positionMatrix transform width height).mul ⟨targetVertex.1, targetVertex.2, 0, 1⟩

/-- The vertices of the target and their texture coordinates: bottom left, bottom right, top left,
    top right. -/
def vertices (target : RectF K) : List ((K × K) × (K × K)) :=
  [((target.x, target.y + target.height), (0, 1)),
    ((target.x + target.width, target.y + target.height), (1, 1)),
    ((target.x, target.y), (0, 0)),
    ((target.x + target.width, target.y), (1, 0))]

def strip {α : Type} : List α → List (α × α × α)
  | p :: q :: r :: rest => (p, q, r) :: strip (q :: r :: rest)
  | _ => []

def drawn (transform : QTransform K) (target : RectF K) (width height : Int) :
    List (Vec4 K × (K × K)) :=
  (vertices target).map fun vertex => (position transform width height vertex.1, vertex.2)

/-- OpenGL: the texture coordinates it shows at the points of a window of the given size, counted
    from its bottom left, for the vertices of a strip with their clip positions. -/
structure OpenGL (K : Type) where
  shows : List (Vec4 K × (K × K)) → Int → Int → K × K → K × K → Prop

/-- The view volume, to which OpenGL clips. -/
structure InView [LinearOrder K] (clip : Vec4 K) : Prop where
  inFront : 0 < clip.w
  x : -clip.w ≤ clip.x ∧ clip.x ≤ clip.w
  y : -clip.w ≤ clip.y ∧ clip.y ≤ clip.w
  z : -clip.w ≤ clip.z ∧ clip.z ≤ clip.w

def windowPoint (width height : Int) (clip : Vec4 K) : K × K :=
  ((clip.x / clip.w + 1) / ((2 : Int) : K) * width,
    (clip.y / clip.w + 1) / ((2 : Int) : K) * height)

/-- As OpenGL documents it: clip positions and texture coordinates are interpolated in each
    triangle alike, and what is in view is shown at its point of the window. -/
def Documented [LinearOrder K] (gl : OpenGL K) : Prop :=
  ∀ vertices width height point texture, gl.shows vertices width height point texture ↔
    ∃ p q r a b c, (p, q, r) ∈ strip vertices ∧ 0 ≤ a ∧ 0 ≤ b ∧ 0 ≤ c ∧ a + b + c = 1 ∧
      texture = (a * p.2.1 + b * q.2.1 + c * r.2.1, a * p.2.2 + b * q.2.2 + c * r.2.2) ∧
      InView (combine a b c p.1 q.1 r.1) ∧
      point = windowPoint width height (combine a b c p.1 q.1 r.1)

def place (target : RectF K) (texture : K × K) : K × K :=
  (target.x + texture.1 * target.width, target.y + texture.2 * target.height)

variable {transform : QTransform K} {target : RectF K} {width height : Int}

theorem position_eq (transform : QTransform K) (width height : Int) (p : K × K) :
    position transform width height p =
      ⟨2 / width * (transform.m11 * p.1 + transform.m21 * p.2 + transform.dx) - transform.weight p,
        transform.weight p -
          2 / height * (transform.m12 * p.1 + transform.m22 * p.2 + transform.dy),
        0, transform.weight p⟩ := by
  simp only [position, positionMatrix, Mat4.mul, QTransform.weight, Int.cast_ofNat, Int.cast_neg,
    Vec4.mk.injEq]
  refine ⟨?_, ?_, ?_, ?_⟩ <;> ring

variable [LinearOrder K] [IsStrictOrderedRing K]

def moved : QTransform ℚ := ⟨1, 0, 0, 0, 1, 0, 10, 20, 1⟩

end PaintedPoints
