import QtPlayer.Player.ChromaPlanes
import QtPlayer.Player.VideoObject

/- QmlVideoObject.cpp and GlPainter.cpp: the planes libvlc writes, and the painter that draws them.
   It keeps its colour matrix and its textures until a reset deletes it. -/
namespace PaintedTextures
open ChromaPlanes PictureGeometry TransitionRuns
open VideoObject (Item Action Step bounding)

variable {K : Type} [Field K] [LinearOrder K]

/-- `tall` chooses the colour matrix, and the textures have a width and a height each. -/
structure Prepared where
  tall : Bool
  textures : List (Nat × Nat)

/-- A painter that has not drawn yet has nothing prepared. -/
structure Screen (K : Type) where
  item : Item K
  planes : List FramePlane
  paintedOnce : Bool
  graphicsPainter : Option (Option Prepared)

def Screen.first : Screen K := ⟨.first, [], false, none⟩

def prepare (s : Screen K) : Prepared :=
  ⟨576 < s.item.frame.height, s.planes.map fun plane => (plane.visiblePitch, plane.visibleLines)⟩

def painter (s : Screen K) : Option Prepared := s.graphicsPainter.getD none

/-- What a paint draws the frame with; the first one after a reset only fills the rectangle. -/
def drawn (s : Screen K) : Option Prepared :=
  if s.item.frame.inited && s.paintedOnce then some ((painter s).getD (prepare s)) else none

def paint (s : Screen K) : Screen K :=
  { s with
    item := VideoObject.paint s.item
    paintedOnce := s.item.frame.inited || s.paintedOnce
    graphicsPainter :=
      if s.item.frame.inited then some ((drawn s).orElse fun _ => painter s)
      else s.graphicsPainter }

def reset (s : Screen K) : Screen K :=
  { s with
    item := VideoObject.reset s.item
    paintedOnce := false
    graphicsPainter := none }

def formatCallback (desc : ChromaDescription) (s : Screen K) (width height : Nat) : Screen K :=
  { s with
    item := VideoObject.formatCallback s.item width height
    planes := framePlanes desc width height
    graphicsPainter := some (painter s) }

def perform (desc : ChromaDescription) (s : Screen K) : Action K → Screen K
  | .setAspectRatio aspectRatio =>
    { s with item := VideoObject.setAspectRatio s.item aspectRatio }
  | .setCropRatio cropRatio => { s with item := VideoObject.setCropRatio s.item cropRatio }
  | .geometryChanged newGeometry =>
    { s with item := VideoObject.geometryChanged s.item newGeometry }
  | .paint => paint s
  | .reset => reset s
  | .format width height => formatCallback desc s width height
  | .display stretched => { s with item := VideoObject.displayCallback s.item stretched }
  | .formatCleanUp => { s with item := VideoObject.formatCleanUpCallback s.item }

def Unsigned : Action K → Prop
  | .format width height => width < 2 ^ 32 ∧ height < 2 ^ 32
  | _ => True

def screen (desc : ChromaDescription) : System (Screen K) (Action K) :=
  ⟨(· = .first), fun s a t => Step s.item a t.item ∧ Unsigned a ∧ t = perform desc s a⟩

def FormatFits (desc : ChromaDescription) (_ : Screen K) : Action K → Prop
  | .format width height => planeBytes desc width height ≤ 2147483647
  | _ => True

def AllHold (s : Screen K) : Prop := ∀ plane ∈ s.planes, Holds plane

variable {desc : ChromaDescription} {s t : Screen K} {a : Action K}

theorem perform_item {i : Item K} (step : Step s.item a i) : (perform desc s a).item = i := by
  cases step <;> rfl

def playing (width height : Nat) (s : Screen K) : Screen K :=
  perform yv12 (perform yv12 (perform yv12 s (.format width height)) (.display (some height)))
    .paint

theorem playing_reachable {width height : Nat} (narrow : width < 2 ^ 32) (low : height < 2 ^ 32)
    (reach : Reachable (screen yv12) s) (clean : s.item.frame.inited = false) :
    Reachable (screen yv12) (playing width height s) := by
  have format : (screen yv12).step s (.format width height)
      (perform yv12 s (.format width height)) :=
    ⟨.format s.item width height clean, ⟨narrow, low⟩, rfl⟩
  have display (t : Screen K) : (screen yv12).step t (.display (some height))
      (perform yv12 t (.display (some height))) := ⟨.display _ _, trivial, rfl⟩
  have paint (t : Screen K) : (screen yv12).step t .paint (perform yv12 t .paint) :=
    ⟨.paint _, trivial, rfl⟩
  exact .step (.step (.step reach format) (display _)) (paint _)

theorem steps_of_item {i : Item K} (step : Step s.item a i) (size : Unsigned a) :
    ∃ t, (screen desc).step s a t ∧ t.item = i := by
  have same : (perform desc s a).item = i := perform_item step
  refine ⟨perform desc s a, ⟨?_, size, rfl⟩, same⟩
  rw [same]
  exact step

theorem item_reachable (reach : Reachable (screen desc) s) : Reachable VideoObject.item s.item := by
  induction reach with
  | start initial =>
    rw [show _ = Screen.first from initial]
    exact .start rfl
  | step _ taken ih => exact .step ih taken.1

theorem step_holds_iff (planar : Planar desc) (held : AllHold s)
    (taken : (screen desc).step s a t) : AllHold t ↔ FormatFits desc s a := by
  obtain ⟨_, size, rfl⟩ := taken
  cases a with
  | format width height => exact planes_hold_iff planar size.1 size.2
  | _ => exact iff_of_true held trivial

theorem planes_held_throughout_iff (planar : Planar desc) {steps : List (Screen K × Action K)}
    (run : Run (screen desc) .first steps s) :
    Throughout AllHold steps s ↔ EveryStep (FormatFits desc) steps := by
  have always : ∀ (s : Screen K) (a : Action K) (t : Screen K), True →
      (screen desc).step s a t → True := fun _ _ _ _ _ => trivial
  have first : AllHold (Screen.first : Screen K) := by
    intro plane mem
    cases mem
  exact exact_guard always (fun _ _ _ _ held taken => step_holds_iff planar held taken) run trivial
    first

def oneFormat (width height : Nat) : List (Screen ℚ × Action ℚ) :=
  [(.first, .format width height)]

/-- The planes of 65536 by 32768 pixels are more than a byte array can hold. -/
theorem full_hd_held : ∃ small large : Screen ℚ, Throughout AllHold (oneFormat 1920 1080) small ∧
    Run (screen yv12) .first (oneFormat 65536 32768) large ∧
    ¬ Throughout AllHold (oneFormat 65536 32768) large := by
  have run (width height : Nat) (narrow : width < 2 ^ 32) (low : height < 2 ^ 32) :
      Run (screen yv12) .first (oneFormat width height)
        (perform yv12 .first (.format width height)) :=
    .snoc (.nil _) ⟨.format _ width height rfl, ⟨narrow, low⟩, rfl⟩
  have small := run 1920 1080 (by decide) (by decide)
  have large := run 65536 32768 (by decide) (by decide)
  refine ⟨_, _, (planes_held_throughout_iff yv12_planar small).mpr ?_, large, ?_⟩
  · intro p mem
    rw [List.mem_singleton.mp mem]
    have fits : planeBytes yv12 1920 1080 ≤ 2147483647 := by decide
    exact fits
  · intro held
    have every := (planes_held_throughout_iff yv12_planar large).mp held
    have fits : planeBytes yv12 65536 32768 ≤ 2147483647 := every _ (List.mem_singleton_self _)
    exact absurd fits (by decide)

/-- With no reset queued, what the painter has prepared is for the frame there is. -/
def OwnTextures (s : Screen K) : Prop :=
  s.item.resets = 0 → ∀ made, s.graphicsPainter = some (some made) →
    s.item.frame.inited = true ∧ made = prepare s

theorem paint_keeps_frame (i : Item K) :
    (VideoObject.paint i).frame = i.frame ∧ (VideoObject.paint i).resets = i.resets := by
  unfold VideoObject.paint
  split
  · split <;> exact ⟨rfl, rfl⟩
  · exact ⟨rfl, rfl⟩

omit [Field K] [LinearOrder K] in
theorem display_resets (i : Item K) (stretched : Option Nat) :
    (VideoObject.displayCallback i stretched).resets = i.resets := by
  unfold VideoObject.displayCallback
  split
  · rfl
  · split <;> rfl

omit [Field K] [LinearOrder K] in
theorem painter_some {made : Prepared} (kept : painter s = some made) :
    s.graphicsPainter = some (some made) := by
  unfold painter at kept
  cases here : s.graphicsPainter with
  | none =>
    rw [here] at kept
    cases kept
  | some inner =>
    rw [here, Option.getD_some] at kept
    rw [kept]

omit [Field K] [LinearOrder K] in
theorem drawn_own (own : OwnTextures s) (handled : s.item.resets = 0) {made : Prepared}
    (draws : drawn s = some made) : made = prepare s := by
  unfold drawn at draws
  split at draws
  · rw [Option.some.injEq] at draws
    subst draws
    cases kept : painter s with
    | none => rfl
    | some made => exact (own handled made (painter_some kept)).2
  · cases draws

theorem paint_own (own : OwnTextures s) : OwnTextures (paint s) := by
  obtain ⟨frame, resets⟩ := paint_keeps_frame s.item
  intro handled made here
  have same : prepare (paint s) = prepare s := by
    simp only [prepare, paint, frame]
  simp only [paint, resets] at handled
  simp only [paint] at here
  rw [same]
  simp only [paint, frame]
  split at here
  · rename_i inited
    rw [Option.some.injEq] at here
    cases draws : drawn s with
    | some now =>
      rw [draws] at here
      cases here
      exact ⟨inited, drawn_own own handled draws⟩
    | none =>
      rw [draws] at here
      exact own handled made (painter_some here)
  · exact own handled made here

/-- A frame is changed only while none is shown, so after a clean-up whose reset is queued. -/
theorem step_own (own : OwnTextures s) (taken : (screen desc).step s a t) : OwnTextures t := by
  obtain ⟨step, _, rfl⟩ := taken
  cases step with
  | paint => exact paint_own own
  | setAspectRatio | setCropRatio | geometryChanged => exact own
  | reset =>
    intro _ made here
    cases here
  | format width height clean =>
    intro handled made here
    have inited := (own handled made (painter_some (Option.some.inj here))).1
    rw [clean] at inited
    cases inited
  | display stretched =>
    by_cases shown : s.item.frame.inited = true
    · have same : VideoObject.displayCallback s.item stretched = s.item := by
        simp only [VideoObject.displayCallback, shown, if_true]
      simp only [perform, same]
      exact own
    · intro handled made here
      simp only [perform, display_resets] at handled
      exact absurd (own handled made here).1 shown
  | formatCleanUp =>
    intro handled
    exact absurd handled (Nat.succ_ne_zero _)

/-- With no reset queued a picture is drawn with textures of exactly its visible planes and the
    colours of its own height, into the rectangle of its own size. -/
theorem drawn_with_own_textures (reach : Reachable (screen desc) s) (handled : s.item.resets = 0)
    {made : Prepared} (draws : drawn s = some made) : made = prepare s ∧
      (paint s).item.boundingRect = bounding s.item.aspectRatio s.item.cropRatio
        (s.item.frame.width, s.item.frame.height) s.item.geometry := by
  have own : OwnTextures s := by
    apply reachable_invariant _ _ reach
    · intro s first _ made here
      rw [show s = .first from first] at here
      cases here
    · intro s a t own taken
      exact step_own own taken
  have inited : s.item.frame.inited = true := by
    by_contra hidden
    simp [drawn, hidden] at draws
  have held := VideoObject.reachable_held (item_reachable reach)
  exact ⟨drawn_own own handled draws, VideoObject.paint_uses_frame held inited handled⟩

/-- Full HD is drawn with its own textures, but with those of the film before as long as its reset
    is queued. -/
theorem film_drawn : ∃ s : Screen ℚ, Reachable (screen yv12) s ∧
    drawn s = some ⟨true, [(1920, 1080), (960, 540), (960, 540)]⟩ ∧
    (paint s).item.boundingRect = bounding .original .original (1920, 1080) ⟨0, 0, 640, 480⟩ ∧
    ∃ s : Screen ℚ, Reachable (screen yv12) s ∧ s.item.resets = 1 ∧
      drawn s = some ⟨true, [(1920, 1080), (960, 540), (960, 540)]⟩ ∧
      (prepare s).textures = [(640, 480), (320, 240), (320, 240)] := by
  have film : Reachable (screen yv12) (playing 1920 1080 (Screen.first : Screen ℚ)) :=
    playing_reachable (by decide) (by decide) (.start rfl) rfl
  have own := drawn_with_own_textures film rfl rfl
  have cleaned : Reachable (screen yv12) (perform yv12 (perform yv12 (playing 1920 1080
      (Screen.first : Screen ℚ)) .paint) .formatCleanUp) := by
    have paints : (screen yv12).step (playing 1920 1080 (Screen.first : Screen ℚ)) .paint
        (perform yv12 (playing 1920 1080 Screen.first) .paint) := ⟨.paint _, trivial, rfl⟩
    exact .step (.step film paints) ⟨.formatCleanUp _, trivial, rfl⟩
  have next : Reachable (screen yv12) (playing 640 480 (perform yv12 (perform yv12
      (playing 1920 1080 (Screen.first : Screen ℚ)) .paint) .formatCleanUp)) :=
    playing_reachable (by decide) (by decide) cleaned rfl
  exact ⟨_, film, rfl, own.2, _, next, rfl, rfl, rfl⟩

end PaintedTextures
