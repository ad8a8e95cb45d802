import Mathlib.Data.List.Dedup
import Mathlib.Data.List.Nodup
import Mathlib.Tactic.FinCases
import QtPlayer.Library.TransitionRuns

/- VideoStream.cpp and QmlVideoStream.cpp, with what VlcQmlVideoOutput and its scene graph node
   keep of a frame. The callbacks of libvlc and the calls of the GUI are taken one at a time. A
   frame is the number of its object; nothing is said of its bytes. -/
namespace VideoStream
open TransitionRuns

/-- `frame` and `frameUpdated` of VlcQmlVideoOutput, and the frame its node was given last. -/
structure Output where
  frame : Option Nat
  frameUpdated : Bool
  node : Option Nat
  deriving DecidableEq, Repr

/-- An output is named by its place among all that were made. `updates` are the calls of
    frameUpdated still queued, `handedOut` the pictures libvlc has locked and not unlocked. -/
structure World where
  frames : List Nat
  lockedFrames : List Nat
  renderFrame : Option Nat
  attachedOutputs : List Nat
  outputs : List Output
  updates : Nat
  handedOut : List Nat
  created : Nat
  deriving Repr

def World.first : World := ⟨[], [], none, [], [], 0, [], 0⟩

def Output.holds (output : Output) : List Nat := output.frame.toList ++ output.node.toList

def World.shown (w : World) : List Nat := w.renderFrame.toList ++ w.outputs.flatMap Output.holds

def World.holders (w : World) : List Nat := w.lockedFrames ++ w.shown

def World.use_count (w : World) (frame : Nat) : Nat :=
  w.frames.count frame + w.holders.count frame

def formatCallback (w : World) : World :=
  { w with frames := w.frames ++ [w.created], created := w.created + 1 }

def formatCleanUpCallback (w : World) : World :=
  { w with renderFrame := none, lockedFrames := [], frames := [], updates := w.updates + 1 }

def handOut (w : World) (frameNo frame : Nat) : World :=
  { w with lockedFrames := w.lockedFrames ++ [frame], handedOut := w.handedOut ++ [frameNo] }

/-- The picture number; none is front() of an empty deque. -/
def lockCallback (w : World) : Option (World × Nat) :=
  let frameNo := w.frames.findIdx fun frame => !decide (w.use_count frame > 1)
  match w.frames[frameNo]? with
  | some frame => some (handOut w frameNo frame, frameNo)
  | none =>
    match w.frames with
    | [] => none
    | _ :: _ => some (handOut (formatCallback w) frameNo w.created, frameNo)

/-- None is erase of the end of the list. -/
def unlockCallback (w : World) (picture : Nat) : Option World :=
  match w.frames[picture]? with
  | none => some w
  | some frame =>
    if frame ∈ w.lockedFrames then
      some { w with
        lockedFrames := w.lockedFrames.erase frame
        handedOut := w.handedOut.erase picture }
    else none

def displayCallback (w : World) (picture : Nat) : World :=
  match w.frames[picture]? with
  | none => w
  | some frame => { w with renderFrame := some frame, updates := w.updates + 1 }

def presentFrame (frame : Nat) (output : Output) : Output :=
  { output with frame := some frame, frameUpdated := true }

def World.setOutput (w : World) (o : Nat) (output : Output) : World :=
  { w with outputs := w.outputs.set o output }

def presentAll (frame : Nat) : List Nat → World → World
  | [], w => w
  | o :: rest, w =>
    match w.outputs[o]? with
    | some output => presentAll frame rest (w.setOutput o (presentFrame frame output))
    | none => presentAll frame rest w

def frameUpdated (w : World) : World :=
  let w := { w with updates := w.updates - 1 }
  match w.renderFrame with
  | none => w
  | some frame => presentAll frame w.attachedOutputs w

def registerVideoOutput (w : World) (o : Nat) : World :=
  if o ∈ w.attachedOutputs then w else { w with attachedOutputs := w.attachedOutputs ++ [o] }

def deregisterVideoOutput (w : World) (o : Nat) : World :=
  { w with attachedOutputs := w.attachedOutputs.erase o }

def newOutput (w : World) : World := { w with outputs := w.outputs ++ [⟨none, false, none⟩] }

/-- What updatePaintNode does with the frame; without one it deletes the node. -/
def updatePaintNode (output : Output) : Output :=
  match output.frame with
  | none => { output with node := none }
  | some frame =>
    if output.frameUpdated then { output with node := some frame, frameUpdated := false }
    else output

def bindPlanes (output : Output) : Output := { output with node := none }

def destroyed (_ : Output) : Output := ⟨none, false, none⟩

def onOutput (w : World) (o : Nat) (f : Output → Output) : World :=
  match w.outputs[o]? with
  | some output => w.setOutput o (f output)
  | none => w

inductive Action where
  | format
  | formatCleanUp
  | lock
  | unlock (picture : Nat)
  | display (picture : Nat)
  | frameUpdated
  | newOutput
  | register (o : Nat)
  | deregister (o : Nat)
  | updatePaintNode (o : Nat)
  | bindPlanes (o : Nat)
  | destroy (o : Nat)
  deriving DecidableEq, Repr

def perform (w : World) : Action → Option World
  | .format => some (formatCallback w)
  | .formatCleanUp => some { formatCleanUpCallback w with handedOut := [] }
  | .lock => (lockCallback w).map Prod.fst
  | .unlock picture => unlockCallback w picture
  | .display picture => some (displayCallback w picture)
  | .frameUpdated => some (frameUpdated w)
  | .newOutput => some (newOutput w)
  | .register o => some (registerVideoOutput w o)
  | .deregister o => some (deregisterVideoOutput w o)
  | .updatePaintNode o => some (onOutput w o updatePaintNode)
  | .bindPlanes o => some (onOutput w o bindPlanes)
  | .destroy o => some (onOutput (deregisterVideoOutput w o) o destroyed)

/-- What libvlc promises: one format at a time, locks only with a format, and it unlocks what it
    has locked and displays pictures of the present format. -/
def Promised (w : World) : Action → Prop
  | .format => w.frames = []
  | .lock => w.frames ≠ []
  | .unlock picture => picture ∈ w.handedOut
  | .display picture => picture < w.frames.length
  | .frameUpdated => 0 < w.updates
  | _ => True

instance (w : World) (action : Action) : Decidable (Promised w action) :=
  match action with
  | .format => inferInstanceAs (Decidable (w.frames = []))
  | .lock => inferInstanceAs (Decidable (w.frames ≠ []))
  | .unlock picture => inferInstanceAs (Decidable (picture ∈ w.handedOut))
  | .display picture => inferInstanceAs (Decidable (picture < w.frames.length))
  | .frameUpdated => inferInstanceAs (Decidable (0 < w.updates))
  | .formatCleanUp | .newOutput | .register _ | .deregister _ | .updatePaintNode _
  | .bindPlanes _ | .destroy _ => inferInstanceAs (Decidable True)

def callbacks : System World Action where
  start w := w = .first
  step w action w' := Promised w action ∧ perform w action = some w'

def next (w : World) (action : Action) : Option World :=
  if Promised w action then perform w action else none

theorem next_step (w : World) (action : Action) (w' : World)
    (computed : next w action = some w') : callbacks.step w action w' := by
  unfold next at computed
  split at computed
  · rename_i promised
    exact ⟨promised, computed⟩
  · cases computed

variable {w w' : World} {action : Action}

/- What a step can do. -/

structure Quiet (w w' : World) : Prop where
  frames : w'.frames = w.frames
  lockedFrames : w'.lockedFrames = w.lockedFrames
  handedOut : w'.handedOut = w.handedOut
  created : w'.created = w.created
  shown : ∀ frame ∈ w'.shown, frame ∈ w.shown

theorem quiet_refl (w : World) : Quiet w w := ⟨rfl, rfl, rfl, rfl, fun _ mem => mem⟩

theorem quiet_trans {w'' : World} (first : Quiet w w') (second : Quiet w' w'') :
    Quiet w w'' where
  frames := second.frames.trans first.frames
  lockedFrames := second.lockedFrames.trans first.lockedFrames
  handedOut := second.handedOut.trans first.handedOut
  created := second.created.trans first.created
  shown := fun frame mem => first.shown frame (second.shown frame mem)

theorem setOutput_quiet {o : Nat} {before after : Output} (here : w.outputs[o]? = some before)
    (kept : ∀ frame ∈ after.holds, frame ∈ before.holds ∨ frame ∈ w.shown) :
    Quiet w (w.setOutput o after) := by
  refine ⟨rfl, rfl, rfl, rfl, ?_⟩
  intro frame mem
  rcases List.mem_append.mp mem with rendered | held
  · exact List.mem_append.mpr (Or.inl rendered)
  · obtain ⟨output, isOutput, holds⟩ := List.mem_flatMap.mp held
    rcases List.mem_or_eq_of_mem_set isOutput with old | new
    · exact List.mem_append.mpr (Or.inr (List.mem_flatMap.mpr ⟨output, old, holds⟩))
    · rw [new] at holds
      rcases kept frame holds with same | already
      · exact List.mem_append.mpr
          (Or.inr (List.mem_flatMap.mpr ⟨before, List.mem_of_getElem? here, same⟩))
      · exact already

theorem onOutput_quiet (w : World) (o : Nat) {f : Output → Output}
    (kept : ∀ output, ∀ frame ∈ (f output).holds, frame ∈ output.holds) :
    Quiet w (onOutput w o f) := by
  unfold onOutput
  split
  · rename_i output here
    exact setOutput_quiet here fun frame mem => Or.inl (kept output frame mem)
  · exact quiet_refl w

theorem updatePaintNode_holds (output : Output) :
    ∀ frame ∈ (updatePaintNode output).holds, frame ∈ output.holds := by
  intro frame mem
  unfold updatePaintNode at mem
  split at mem
  · rename_i none
    simp [Output.holds, none] at mem
  · rename_i shown some
    split at mem
    · have same : frame = shown := by simpa [Output.holds, some] using mem
      simp [Output.holds, some, same]
    · exact mem

theorem presentAll_quiet (frame : Nat) (os : List Nat) :
    ∀ w : World, w.renderFrame = some frame → Quiet w (presentAll frame os w) := by
  induction os with
  | nil => exact fun w _ => quiet_refl w
  | cons o rest ih =>
    intro w rendered
    simp only [presentAll]
    split
    · rename_i output here
      refine quiet_trans (setOutput_quiet here ?_) (ih _ rendered)
      intro x mem
      rcases List.mem_append.mp mem with presented | inNode
      · have same : x = frame := List.mem_singleton.mp presented
        exact Or.inr (List.mem_append.mpr (Or.inl (by simp [rendered, same])))
      · exact Or.inl (List.mem_append.mpr (Or.inr inNode))
    · exact ih w rendered

theorem frameUpdated_quiet (w : World) : Quiet w (frameUpdated w) := by
  have dequeued : Quiet w { w with updates := w.updates - 1 } :=
    ⟨rfl, rfl, rfl, rfl, fun _ mem => mem⟩
  simp only [frameUpdated]
  split
  · exact dequeued
  · rename_i frame rendered
    exact quiet_trans dequeued (presentAll_quiet frame _ _ rendered)

theorem newOutput_quiet (w : World) : Quiet w (newOutput w) := by
  refine ⟨rfl, rfl, rfl, rfl, ?_⟩
  intro frame mem
  simpa [World.shown, newOutput, Output.holds] using mem

inductive Locked (w : World) : World → Prop where
  | reused (frameNo frame : Nat) (here : w.frames[frameNo]? = some frame)
      (free : frame ∉ w.holders) : Locked w (handOut w frameNo frame)
  | grown (busy : ∀ frame ∈ w.frames, 1 < w.use_count frame) (format : w.frames ≠ []) :
      Locked w (handOut (formatCallback w) w.frames.length w.created)

theorem lock_result {picture : Nat} (eq : lockCallback w = some (w', picture)) :
    Locked w w' := by
  simp only [lockCallback] at eq
  split at eq
  · rename_i frame here
    simp only [Option.some.injEq, Prod.mk.injEq] at eq
    obtain ⟨rfl, -⟩ := eq
    have inside := (List.getElem?_eq_some_iff.mp here).1
    have found := List.findIdx_getElem (w := inside)
    rw [(List.getElem?_eq_some_iff.mp here).2] at found
    have few : w.use_count frame ≤ 1 := by simpa using found
    have pooled := List.one_le_count_iff.mpr (List.mem_of_getElem? here)
    refine .reused _ _ here (List.count_eq_zero.mp ?_)
    unfold World.use_count at few
    omega
  · rename_i past
    split at eq
    · cases eq
    · rename_i first rest shape
      simp only [Option.some.injEq, Prod.mk.injEq] at eq
      obtain ⟨rfl, -⟩ := eq
      have atEnd := List.getElem?_eq_none_iff.mp past
      have whole := Nat.le_antisymm List.findIdx_le_length atEnd
      rw [whole]
      refine .grown ?_ (by simp [shape])
      intro frame mem
      have all := List.findIdx_eq_length.mp whole frame mem
      simpa using all

theorem lock_succeeds (format : w.frames ≠ []) : ∃ w', perform w .lock = some w' := by
  simp only [perform, lockCallback]
  split
  · exact ⟨_, rfl⟩
  · split
    · rename_i empty
      exact absurd empty format
    · exact ⟨_, rfl⟩

inductive Outcome (w : World) : Action → World → Prop where
  | format : Outcome w .format (formatCallback w)
  | cleanedUp : Outcome w .formatCleanUp { formatCleanUpCallback w with handedOut := [] }
  | locked {w' : World} (result : Locked w w') : Outcome w .lock w'
  | unlocked (picture frame : Nat) (here : w.frames[picture]? = some frame)
      (wasLocked : frame ∈ w.lockedFrames) : Outcome w (.unlock picture) { w with
        lockedFrames := w.lockedFrames.erase frame
        handedOut := w.handedOut.erase picture }
  | displayed (picture frame : Nat) (here : w.frames[picture]? = some frame) :
      Outcome w (.display picture)
        { w with renderFrame := some frame, updates := w.updates + 1 }
  | quiet {action : Action} {w' : World} (other : ∀ picture, action ≠ .display picture)
      (same : Quiet w w') : Outcome w action w'

theorem step_outcome (taken : callbacks.step w action w') : Outcome w action w' := by
  obtain ⟨promised, performed⟩ := taken
  cases action with
  | format =>
    rw [← Option.some.inj performed]
    exact .format
  | formatCleanUp =>
    rw [← Option.some.inj performed]
    exact .cleanedUp
  | lock =>
    obtain ⟨⟨v, picture⟩, eq, rfl⟩ := Option.map_eq_some_iff.mp performed
    exact .locked (lock_result eq)
  | unlock picture =>
    simp only [perform, unlockCallback] at performed
    split at performed
    · rw [← Option.some.inj performed]
      exact .quiet (by simp) (quiet_refl w)
    · rename_i frame here
      split at performed
      · rename_i wasLocked
        rw [← Option.some.inj performed]
        exact .unlocked picture frame here wasLocked
      · cases performed
  | display picture =>
    have here := List.getElem?_eq_getElem (show picture < w.frames.length from promised)
    simp only [perform, displayCallback, here, Option.some.injEq] at performed
    rw [← performed]
    exact .displayed picture _ here
  | frameUpdated =>
    rw [← Option.some.inj performed]
    exact .quiet (by simp) (frameUpdated_quiet w)
  | newOutput =>
    rw [← Option.some.inj performed]
    exact .quiet (by simp) (newOutput_quiet w)
  | register o =>
    rw [← Option.some.inj performed]
    unfold registerVideoOutput
    split
    · exact .quiet (by simp) (quiet_refl w)
    · exact .quiet (by simp) ⟨rfl, rfl, rfl, rfl, fun _ mem => mem⟩
  | deregister o =>
    rw [← Option.some.inj performed]
    exact .quiet (by simp) ⟨rfl, rfl, rfl, rfl, fun _ mem => mem⟩
  | updatePaintNode o =>
    rw [← Option.some.inj performed]
    exact .quiet (by simp) (onOutput_quiet w o updatePaintNode_holds)
  | bindPlanes o =>
    rw [← Option.some.inj performed]
    refine .quiet (by simp) (onOutput_quiet w o ?_)
    intro output frame mem
    simp only [bindPlanes, Output.holds, Option.toList_none, List.append_nil] at mem
    exact List.mem_append.mpr (Or.inl mem)
  | destroy o =>
    rw [← Option.some.inj performed]
    have detached : Quiet w (deregisterVideoOutput w o) :=
      ⟨rfl, rfl, rfl, rfl, fun _ mem => mem⟩
    refine .quiet (by simp) (quiet_trans detached (onOutput_quiet _ o ?_))
    intro output frame mem
    simp [destroyed, Output.holds] at mem

/- The pool. -/

structure Pool (w : World) : Prop where
  frames : w.frames.Nodup
  locked : w.lockedFrames.Nodup
  handed : w.handedOut.Nodup
  inside : ∀ picture ∈ w.handedOut, picture < w.frames.length
  pooled : ∀ frame ∈ w.lockedFrames, frame ∈ w.frames
  matching : ∀ picture frame, w.frames[picture]? = some frame →
    (picture ∈ w.handedOut ↔ frame ∈ w.lockedFrames)
  made : ∀ frame ∈ w.frames ++ w.shown, frame < w.created

theorem quiet_pool (pool : Pool w) (quiet : Quiet w w') : Pool w' := by
  obtain ⟨frames, locked, handed, created, shown⟩ := quiet
  refine ⟨by rw [frames]; exact pool.frames, by rw [locked]; exact pool.locked,
    by rw [handed]; exact pool.handed, ?_, ?_, ?_, ?_⟩
  · rw [handed, frames]
    exact pool.inside
  · rw [locked, frames]
    exact pool.pooled
  · rw [handed, locked, frames]
    exact pool.matching
  · rw [frames, created]
    intro frame mem
    rcases List.mem_append.mp mem with inPool | isShown
    · exact pool.made frame (List.mem_append.mpr (Or.inl inPool))
    · exact pool.made frame (List.mem_append.mpr (Or.inr (shown frame isShown)))

theorem nodup_snoc {l : List Nat} {x : Nat} (nodup : l.Nodup) (fresh : x ∉ l) :
    (l ++ [x]).Nodup := by
  rw [← List.concat_eq_append]
  exact nodup.concat fresh

theorem format_pool (pool : Pool w) : Pool (formatCallback w) := by
  have fresh : w.created ∉ w.frames := fun mem =>
    Nat.lt_irrefl _ (pool.made _ (List.mem_append.mpr (Or.inl mem)))
  refine ⟨?_, pool.locked, pool.handed, ?_, ?_, ?_, ?_⟩
  · exact nodup_snoc pool.frames fresh
  · intro picture mem
    have := pool.inside picture mem
    simp only [formatCallback, List.length_append, List.length_singleton]
    omega
  · exact fun frame mem => List.mem_append.mpr (Or.inl (pool.pooled frame mem))
  · intro picture frame here
    simp only [formatCallback] at here
    rcases Nat.lt_or_ge picture w.frames.length with old | new
    · rw [List.getElem?_append_left old] at here
      exact pool.matching picture frame here
    · rw [List.getElem?_append_right new] at here
      have isNew : frame = w.created := by
        have := List.mem_of_getElem? here
        simpa using this
      refine iff_of_false ?_ ?_
      · intro mem
        have := pool.inside picture mem
        omega
      · intro mem
        exact fresh (isNew ▸ pool.pooled frame mem)
  · intro frame mem
    rcases List.mem_append.mp mem with inPool | isShown
    · rcases List.mem_append.mp inPool with old | new
      · exact Nat.lt_succ_of_lt (pool.made frame (List.mem_append.mpr (Or.inl old)))
      · rw [List.mem_singleton.mp new]
        exact Nat.lt_succ_self _
    · exact Nat.lt_succ_of_lt (pool.made frame (List.mem_append.mpr (Or.inr isShown)))

theorem place_iff {l : List Nat} (nodup : l.Nodup) {i j x y : Nat} (here : l[i]? = some x)
    (there : l[j]? = some y) : j = i ↔ y = x := by
  obtain ⟨inside, atI⟩ := List.getElem?_eq_some_iff.mp here
  obtain ⟨inside', atJ⟩ := List.getElem?_eq_some_iff.mp there
  rw [← atI, ← atJ, nodup.getElem_inj_iff]

theorem handOut_pool (pool : Pool w) {frameNo frame : Nat}
    (here : w.frames[frameNo]? = some frame) (free : frame ∉ w.lockedFrames) :
    Pool (handOut w frameNo frame) := by
  have notHanded : frameNo ∉ w.handedOut := fun mem => free ((pool.matching _ _ here).mp mem)
  refine ⟨pool.frames, ?_, ?_, ?_, ?_, ?_, pool.made⟩
  · exact nodup_snoc pool.locked free
  · exact nodup_snoc pool.handed notHanded
  · intro picture mem
    rcases List.mem_append.mp mem with old | new
    · exact pool.inside picture old
    · rw [List.mem_singleton.mp new]
      exact (List.getElem?_eq_some_iff.mp here).1
  · intro x mem
    rcases List.mem_append.mp mem with old | new
    · exact pool.pooled x old
    · rw [List.mem_singleton.mp new]
      exact List.mem_of_getElem? here
  · intro picture x there
    simp only [handOut, List.mem_append, List.mem_singleton, pool.matching picture x there,
      place_iff pool.frames here there]

theorem unlock_pool (pool : Pool w) {picture : Nat} {frame : Nat}
    (here : w.frames[picture]? = some frame) : Pool { w with
      lockedFrames := w.lockedFrames.erase frame
      handedOut := w.handedOut.erase picture } := by
  refine ⟨pool.frames, pool.locked.erase frame, pool.handed.erase picture, ?_, ?_, ?_, pool.made⟩
  · exact fun p mem => pool.inside p (List.mem_of_mem_erase mem)
  · exact fun x mem => pool.pooled x (List.mem_of_mem_erase mem)
  · intro p x there
    simp only [pool.handed.mem_erase_iff, pool.locked.mem_erase_iff, pool.matching p x there, ne_eq,
      place_iff pool.frames here there]

theorem outcome_pool (pool : Pool w) (outcome : Outcome w action w') : Pool w' := by
  cases outcome with
  | format => exact format_pool pool
  | cleanedUp =>
    refine ⟨List.nodup_nil, List.nodup_nil, List.nodup_nil, by simp,
      by simp [formatCleanUpCallback], by simp [formatCleanUpCallback], ?_⟩
    intro frame mem
    refine pool.made frame (List.mem_append.mpr (Or.inr ?_))
    simpa [World.shown, formatCleanUpCallback] using Or.inr mem
  | locked result =>
    cases result with
    | reused frameNo frame here free =>
      exact handOut_pool pool here fun mem => free (List.mem_append.mpr (Or.inl mem))
    | grown busy format =>
      refine handOut_pool (format_pool pool) (by simp [formatCallback]) ?_
      intro mem
      exact Nat.lt_irrefl _ (pool.made _ (List.mem_append.mpr (Or.inl (pool.pooled _ mem))))
  | unlocked picture frame here wasLocked => exact unlock_pool pool here
  | displayed picture frame here =>
    refine ⟨pool.frames, pool.locked, pool.handed, pool.inside, pool.pooled, pool.matching, ?_⟩
    intro x mem
    rcases List.mem_append.mp mem with inPool | isShown
    · exact pool.made x (List.mem_append.mpr (Or.inl inPool))
    · rcases List.mem_append.mp isShown with rendered | held
      · rw [List.mem_singleton.mp (show x ∈ [frame] from rendered)]
        exact pool.made frame (List.mem_append.mpr (Or.inl (List.mem_of_getElem? here)))
      · exact pool.made x (List.mem_append.mpr (Or.inr (List.mem_append.mpr (Or.inr held))))
  | quiet other same => exact quiet_pool pool same

theorem step_pool (w : World) (action : Action) (w' : World) (pool : Pool w)
    (taken : callbacks.step w action w') : Pool w' :=
  outcome_pool pool (step_outcome taken)

theorem first_pool : Pool .first := by
  refine ⟨List.nodup_nil, List.nodup_nil, List.nodup_nil, ?_, ?_, ?_, ?_⟩ <;>
    simp [World.first, World.shown]

theorem unlock_succeeds (pool : Pool w) {picture : Nat} (held : picture ∈ w.handedOut) :
    ∃ w', perform w (.unlock picture) = some w' := by
  have here := List.getElem?_eq_getElem (pool.inside picture held)
  have wasLocked := (pool.matching picture _ here).mp held
  simp only [perform, unlockCallback, here, wasLocked, ↓reduceIte]
  exact ⟨_, rfl⟩

/-- No callback that libvlc may make goes wrong, two pictures it holds are never one frame, and
    the locked frames are exactly those it holds. -/
theorem pictures_are_distinct_frames (reach : Reachable callbacks w) :
    (∀ action, Promised w action → ∃ w', callbacks.step w action w') ∧
      (∀ picture ∈ w.handedOut, picture < w.frames.length) ∧
      (w.handedOut.map fun picture => w.frames[picture]?).Nodup ∧
      ∀ frame, frame ∈ w.lockedFrames ↔
        some frame ∈ w.handedOut.map fun picture => w.frames[picture]? := by
  have pool : Pool w := by
    refine reachable_invariant ?_ step_pool reach
    rintro w rfl
    exact first_pool
  refine ⟨?_, pool.inside, ?_, ?_⟩
  · intro action promised
    cases action with
    | lock =>
      obtain ⟨w', eq⟩ := lock_succeeds promised
      exact ⟨w', promised, eq⟩
    | unlock picture =>
      obtain ⟨w', eq⟩ := unlock_succeeds pool promised
      exact ⟨w', promised, eq⟩
    | _ => exact ⟨_, promised, rfl⟩
  · refine List.Nodup.map_on ?_ pool.handed
    intro p held q held' same
    have here := List.getElem?_eq_getElem (pool.inside p held)
    exact ((place_iff pool.frames here (same ▸ here)).mpr rfl).symm
  · intro frame
    rw [List.mem_map]
    constructor
    · intro isLocked
      obtain ⟨picture, inside, here⟩ := List.mem_iff_getElem.mp (pool.pooled frame isLocked)
      have here := List.getElem?_eq_some_iff.mpr ⟨inside, here⟩
      exact ⟨picture, (pool.matching picture frame here).mpr isLocked, here⟩
    · rintro ⟨picture, held, here⟩
      exact (pool.matching picture frame here).mp held

theorem two_locked_pictures :
    ∃ w, replay next .first [.format, .lock, .lock] = some w ∧ w.handedOut = [0, 1] ∧
      ∀ frame, frame ∈ w.lockedFrames ↔
        some frame ∈ w.handedOut.map fun picture => w.frames[picture]? := by
  have reach := replay_reachable next_step (.start rfl)
    (show replay next .first [.format, .lock, .lock] = some _ from rfl)
  exact ⟨_, rfl, rfl, (pictures_are_distinct_frames reach).2.2.2⟩

/- Writing and showing. -/

/-- No frame that libvlc writes to is shown. -/
def NotTorn (w : World) : Prop := ∀ frame ∈ w.lockedFrames, frame ∉ w.shown

def DisplaysFinished (w : World) (action : Action) : Prop :=
  ∀ picture, action = .display picture → picture ∉ w.handedOut

theorem outcome_notTorn_iff (pool : Pool w) (notTorn : NotTorn w)
    (outcome : Outcome w action w') : NotTorn w' ↔ DisplaysFinished w action := by
  have other : (∀ picture, action ≠ .display picture) → DisplaysFinished w action :=
    fun other picture same => absurd same (other picture)
  cases outcome with
  | format => exact iff_of_true notTorn (other (by simp))
  | cleanedUp =>
    refine iff_of_true ?_ (other (by simp))
    intro frame mem
    simp [formatCleanUpCallback] at mem
  | locked result =>
    refine iff_of_true ?_ (other (by simp))
    cases result with
    | reused frameNo frame here free =>
      intro x mem
      rcases List.mem_append.mp mem with old | new
      · exact notTorn x old
      · rw [List.mem_singleton.mp new]
        exact fun isShown => free (List.mem_append.mpr (Or.inr isShown))
    | grown busy format =>
      intro x mem isShown
      rcases List.mem_append.mp mem with old | new
      · exact notTorn x old isShown
      · rw [List.mem_singleton.mp new] at isShown
        exact Nat.lt_irrefl _ (pool.made _ (List.mem_append.mpr (Or.inr isShown)))
  | unlocked picture frame here wasLocked =>
    refine iff_of_true ?_ (other (by simp))
    exact fun x mem => notTorn x (List.mem_of_mem_erase mem)
  | displayed picture frame here =>
    have asked : DisplaysFinished w (.display picture) ↔ frame ∉ w.lockedFrames := by
      simp only [DisplaysFinished, Action.display.injEq, forall_eq',
        pool.matching picture frame here]
    rw [asked]
    constructor
    · intro after isLocked
      exact after frame isLocked (List.mem_append.mpr (Or.inl (by simp)))
    · intro unlocked x isLocked isShown
      rcases List.mem_append.mp isShown with rendered | held
      · rw [List.mem_singleton.mp (show x ∈ [frame] from rendered)] at isLocked
        exact unlocked isLocked
      · exact notTorn x isLocked (List.mem_append.mpr (Or.inr held))
  | quiet notDisplay same =>
    refine iff_of_true ?_ (other notDisplay)
    intro frame isLocked isShown
    rw [same.lockedFrames] at isLocked
    exact notTorn frame isLocked (same.shown frame isShown)

/-- The decoder never writes into a frame that is shown or about to be, exactly if no picture
    is displayed while it is locked again. -/
theorem never_torn_iff {steps : List (World × Action)} (run : Run callbacks .first steps w) :
    Throughout NotTorn steps w ↔ EveryStep DisplaysFinished steps := by
  refine exact_guard step_pool ?_ run first_pool (by simp [NotTorn, World.first])
  exact fun w action w' pool notTorn taken => outcome_notTorn_iff pool notTorn (step_outcome taken)

/-- A display in time, and one that comes after the next lock. -/
theorem late_display_tears :
    (∃ w, replay next .first [.format, .lock, .unlock 0, .display 0, .lock] = some w ∧
      Throughout NotTorn (trail next .first [.format, .lock, .unlock 0, .display 0, .lock]) w) ∧
    ∃ w, replay next .first [.format, .lock, .unlock 0, .lock, .display 0] = some w ∧
      ¬ Throughout NotTorn
        (trail next .first [.format, .lock, .unlock 0, .lock, .display 0]) w := by
  constructor
  · refine ⟨_, rfl, (never_torn_iff (trail_run next_step rfl)).mpr ?_⟩
    intro p mem picture isDisplay
    fin_cases mem <;> cases isDisplay
    decide
  · refine ⟨_, rfl, fun untorn => ?_⟩
    have finished := (never_torn_iff (trail_run next_step rfl)).mp untorn
    exact absurd (finished _ (List.mem_of_getLast? rfl) 0 rfl) (by decide)

/- The size of the pool. -/

structure Bounded (k n : Nat) (w : World) : Prop where
  pool : Pool w
  sameLength : w.lockedFrames.length = w.handedOut.length
  small : w.frames.length ≤ k + 2 * n + 1

end VideoStream
