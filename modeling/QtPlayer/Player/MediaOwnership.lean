import Mathlib.Data.List.Nodup
import QtPlayer.Library.TransitionRuns

/- QmlPlayer.cpp: setUrl and setUrlFile, with the media objects that they hand over to
   deleteLater. What the player itself does with the media is left out. -/
namespace MediaOwnership
open TransitionRuns

/-- QUrl. `ofString` is its constructor from a QString, `encoded` toString(FullyEncoded). -/
structure QUrl (Url : Type) where
  ofString : String → Url
  isLocalFile : Url → Bool
  encoded : Url → String

/-- `address` is where the object is. A media that reads a stream has no location. -/
structure VlcMedia where
  address : Nat
  currentLocation : String

/-- `scheduled` are the addresses that deleteLater was called on, `allocated` is the address of
    the next new object. -/
structure VlcQmlPlayer where
  media : Option VlcMedia
  scheduled : List Nat
  allocated : Nat

def newPlayer : VlcQmlPlayer := ⟨none, [], 0⟩

section Setters

variable {Url : Type} [DecidableEq Url] (qurl : QUrl Url)

def url (s : VlcQmlPlayer) : Url :=
  match s.media with
  | some media => qurl.ofString media.currentLocation
  | none => qurl.ofString ""

def release (s : VlcQmlPlayer) : VlcQmlPlayer :=
  match s.media with
  | some media => { s with scheduled := s.scheduled ++ [media.address] }
  | none => s

def openMedia (s : VlcQmlPlayer) (location : String) : VlcQmlPlayer :=
  { s with media := some ⟨s.allocated, location⟩, allocated := s.allocated + 1 }

def setUrl (s : VlcQmlPlayer) (value : Url) : VlcQmlPlayer × Bool :=
  if value = url qurl s then (s, false)
  else if qurl.isLocalFile value then (openMedia (release s) "", true)
  else (openMedia (release s) (qurl.encoded value), true)

def setUrlFile (s : VlcQmlPlayer) (filename : String) : VlcQmlPlayer × Bool :=
  if filename = "" then (s, false)
  else
    let s := release s
    let url := qurl.ofString filename
    if !qurl.isLocalFile url then (s, false)
    else (openMedia s "", true)

inductive Call (Url : Type) where
  | setUrl (value : Url)
  | setUrlFile (filename : String)

def perform (s : VlcQmlPlayer) : Call Url → VlcQmlPlayer × Bool
  | .setUrl value => setUrl qurl s value
  | .setUrlFile filename => setUrlFile qurl s filename

def calls : System VlcQmlPlayer (Call Url) where
  start s := s = newPlayer
  step s call t := t = (perform qurl s call).1

end Setters

/-- The media is not about to be deleted, and nothing is deleted twice. -/
structure Owned (s : VlcQmlPlayer) : Prop where
  kept : ∀ media, s.media = some media → media.address ∉ s.scheduled
  once : s.scheduled.Nodup

variable {Url : Type} [DecidableEq Url] {qurl : QUrl Url} {s t : VlcQmlPlayer}

def Undisturbed (qurl : QUrl Url) (s : VlcQmlPlayer) (call : Call Url) : Prop :=
  (perform qurl s call).2 = false → (perform qurl s call).1.media = s.media ∧
    ∀ media, s.media = some media →
      (media.address ∈ (perform qurl s call).1.scheduled ↔ media.address ∈ s.scheduled)

/-- No name of a file that is not local is set over media. -/
def NamesLocalFile (qurl : QUrl Url) (s : VlcQmlPlayer) : Call Url → Prop
  | .setUrl _ => True
  | .setUrlFile filename =>
    filename = "" ∨ qurl.isLocalFile (qurl.ofString filename) = true ∨ s.media = none

structure Allocated (s : VlcQmlPlayer) : Prop where
  media : ∀ media, s.media = some media → media.address < s.allocated
  scheduled : ∀ address ∈ s.scheduled, address < s.allocated

theorem release_media (s : VlcQmlPlayer) : (release s).media = s.media := by
  unfold release
  split <;> rfl

theorem release_allocated (s : VlcQmlPlayer) : (release s).allocated = s.allocated := by
  unfold release
  split <;> rfl

theorem release_scheduled (allocated : Allocated s) :
    ∀ address ∈ (release s).scheduled, address < s.allocated := by
  unfold release
  split
  · rename_i media here
    intro address mem
    rcases List.mem_append.mp mem with before | new
    · exact allocated.scheduled address before
    · rw [List.mem_singleton.mp new]
      exact allocated.media media here
  · exact allocated.scheduled

theorem release_once (owned : Owned s) : (release s).scheduled.Nodup := by
  unfold release
  split
  · rename_i media here
    rw [← List.concat_eq_append, List.nodup_concat]
    exact ⟨owned.kept media here, owned.once⟩
  · exact owned.once

theorem release_allocated_still (allocated : Allocated s) : Allocated (release s) := by
  constructor
  · rw [release_media, release_allocated]
    exact allocated.media
  · rw [release_allocated]
    exact release_scheduled allocated

theorem openMedia_allocated (allocated : Allocated s) (location : String) :
    Allocated (openMedia s location) := by
  constructor
  · rintro media same
    cases same
    exact Nat.lt_succ_self _
  · intro address mem
    exact Nat.lt_succ_of_lt (allocated.scheduled address mem)

theorem openMedia_owned (allocated : Allocated s) (owned : Owned s) (location : String) :
    Owned (openMedia (release s) location) := by
  constructor
  · intro media same mem
    cases same
    have below := release_scheduled allocated _ mem
    rw [release_allocated] at below
    exact Nat.lt_irrefl _ below
  · exact release_once owned

/-- What one call can do: nothing, giving up the media without new media, or both. -/
theorem perform_cases (qurl : QUrl Url) (s : VlcQmlPlayer) (call : Call Url) :
    (perform qurl s call = (s, false) ∧ NamesLocalFile qurl s call) ∨
      (perform qurl s call = (release s, false) ∧
        (NamesLocalFile qurl s call ↔ s.media = none)) ∨
      ((∃ location, perform qurl s call = (openMedia (release s) location, true)) ∧
        NamesLocalFile qurl s call) := by
  cases call with
  | setUrl value =>
    simp only [perform, setUrl, NamesLocalFile, and_true]
    split
    · exact Or.inl rfl
    · split
      · exact Or.inr (Or.inr ⟨_, rfl⟩)
      · exact Or.inr (Or.inr ⟨_, rfl⟩)
  | setUrlFile filename =>
    by_cases empty : filename = ""
    · exact Or.inl ⟨if_pos empty, Or.inl empty⟩
    · simp only [perform, setUrlFile, NamesLocalFile, empty, false_or]
      cases qurl.isLocalFile (qurl.ofString filename) with
      | true => exact Or.inr (Or.inr ⟨⟨_, rfl⟩, Or.inl rfl⟩)
      | false => exact Or.inr (Or.inl ⟨rfl, by simp⟩)

theorem perform_allocated (allocated : Allocated s) (call : Call Url) :
    Allocated (perform qurl s call).1 := by
  have released := release_allocated_still allocated
  rcases perform_cases qurl s call with ⟨same, _⟩ | ⟨same, _⟩ | ⟨⟨location, same⟩, _⟩
  · rw [same]
    exact allocated
  · rw [same]
    exact released
  · rw [same]
    exact openMedia_allocated released location

theorem release_none (none : s.media = none) : release s = s := by
  simp only [release, none]

theorem release_owned_iff (owned : Owned s) : Owned (release s) ↔ s.media = none := by
  constructor
  · intro after
    cases here : s.media with
    | none => rfl
    | some media =>
      have kept := after.kept media (by rw [release_media, here])
      simp [release, here] at kept
  · intro none
    rw [release_none none]
    exact owned

theorem perform_owned_iff (allocated : Allocated s) (owned : Owned s) (call : Call Url) :
    Owned (perform qurl s call).1 ↔ NamesLocalFile qurl s call := by
  rcases perform_cases qurl s call with ⟨same, named⟩ | ⟨same, exactly⟩ | ⟨⟨location, same⟩, named⟩
  · rw [same]
    exact iff_of_true owned named
  · rw [same, exactly]
    exact release_owned_iff owned
  · rw [same]
    exact iff_of_true (openMedia_owned allocated owned location) named

theorem undisturbed_of_local (call : Call Url) (named : NamesLocalFile qurl s call) :
    Undisturbed qurl s call := by
  intro closed
  rcases perform_cases qurl s call with ⟨same, _⟩ | ⟨same, exactly⟩ | ⟨⟨location, same⟩, _⟩
  · simp only [same, implies_true, and_self]
  · simp only [same, release_none (exactly.mp named), implies_true, and_self]
  · rw [same] at closed
    cases closed

theorem step_allocated (s : VlcQmlPlayer) (call : Call Url) (t : VlcQmlPlayer)
    (allocated : Allocated s) (taken : (calls qurl).step s call t) : Allocated t := by
  have same : t = (perform qurl s call).1 := taken
  rw [same]
  exact perform_allocated allocated call

theorem step_owned_iff (s : VlcQmlPlayer) (call : Call Url) (t : VlcQmlPlayer)
    (allocated : Allocated s) (owned : Owned s) (taken : (calls qurl).step s call t) :
    Owned t ↔ NamesLocalFile qurl s call := by
  have same : t = (perform qurl s call).1 := taken
  rw [same]
  exact perform_owned_iff allocated owned call

theorem newPlayer_allocated : Allocated newPlayer :=
  ⟨by simp [newPlayer], by simp [newPlayer]⟩

theorem newPlayer_owned : Owned newPlayer :=
  ⟨by simp [newPlayer], by simp [newPlayer]⟩

/-- A player owns its media in every state of a run exactly if no call of the run names a
    file that is not local while there is media. -/
theorem owned_throughout_iff {steps : List (VlcQmlPlayer × Call Url)}
    (initial : (calls qurl).start s) (run : Run (calls qurl) s steps t) :
    (Throughout Owned steps t ∧ EveryStep (Undisturbed qurl) steps) ↔
      EveryStep (NamesLocalFile qurl) steps := by
  have new : s = newPlayer := initial
  subst new
  have guard := exact_guard step_allocated step_owned_iff run newPlayer_allocated newPlayer_owned
  rw [guard]
  constructor
  · intro both
    exact both.1
  · intro every
    constructor
    · exact every
    · intro entry mem
      exact undisturbed_of_local entry.2 (every entry mem)

def writtenUrl : QUrl String where
  ofString text := text
  isLocalFile text := "file:".toList.isPrefixOf text.toList
  encoded text := text

theorem owned_after_file_and_stream :
    ∃ steps t, Run (calls writtenUrl) newPlayer steps t ∧
      steps.map Prod.snd = [.setUrlFile "file:/home/film.mp4", .setUrl "rtsp://camera/1"] ∧
      Throughout Owned steps t ∧ EveryStep (Undisturbed writtenUrl) steps := by
  have run : Run (calls writtenUrl) newPlayer _ _ :=
    .snoc (.snoc (.nil newPlayer) (l := .setUrlFile "file:/home/film.mp4") rfl)
      (l := .setUrl "rtsp://camera/1") rfl
  refine ⟨_, _, run, rfl, (owned_throughout_iff rfl run).mpr ?_⟩
  simp only [everyStep_snoc]
  exact ⟨⟨by simp [EveryStep], Or.inr (Or.inl (by decide))⟩, trivial⟩

/-- A plain path is no local file: the player gives its media up and keeps playing it. -/
theorem media_given_up_and_kept :
    ¬ ∀ (s t : VlcQmlPlayer) (steps : List (VlcQmlPlayer × Call String)),
      (calls writtenUrl).start s → Run (calls writtenUrl) s steps t →
        Throughout Owned steps t ∧ EveryStep (Undisturbed writtenUrl) steps := by
  intro always
  have run : Run (calls writtenUrl) newPlayer _ _ :=
    .snoc (.snoc (.nil newPlayer) (l := .setUrl "file:/home/film.mp4") rfl)
      (l := .setUrlFile "/home/other.mp4") rfl
  have last := (always _ _ _ rfl run).1.2
  exact absurd (last.kept _ rfl) (by decide)

end MediaOwnership
