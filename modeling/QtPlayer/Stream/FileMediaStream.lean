import QtPlayer.Library.TransitionRuns
import Mathlib.Data.List.GetD

/- FileMediaStream.h and FileMediaStream.cpp over a QFile on an unchanging file. The content is
   the file; how many bytes one QFile::read returns, and whether QFile::open and QFile::seek
   succeed, is left to the caller of these functions. -/
namespace FileMediaStream
open TransitionRuns

def buffSize : Nat := 1024 * 1024 * 2

structure Stream where
  buff : Nat → UInt8
  currentBufferPos : Nat
  totalBytesBuffer : Nat
  isOpen : Bool
  filePos : Nat

/-- `memory` is what the member array happens to hold. -/
def construct (memory : Nat → UInt8) : Stream where
  buff := memory
  currentBufferPos := 0
  totalBytesBuffer := 0
  isOpen := false
  filePos := 0

/-- QFile::open fails on a file that is open already. -/
def openFile (s : Stream) (granted : Bool) : Stream × Int :=
  if granted ∧ ¬ s.isOpen then ({ s with isOpen := true, filePos := 0 }, 0) else (s, -1)

def close (s : Stream) : Stream := if s.isOpen then { s with isOpen := false } else s

/-- totalBytesBuffer = file.read(buff, sizeof (buff)), with -1 read as 0. -/
def fill (content : List UInt8) (s : Stream) (obtained : Int) : Stream :=
  let total := if obtained = -1 then 0 else obtained.toNat
  { s with
    buff := fun i => if i < total then content.getD (s.filePos + i) 0 else s.buff i
    totalBytesBuffer := total
    currentBufferPos := 0
    filePos := s.filePos + total }

def read (content : List UInt8) (s : Stream) (len : Nat) (obtained : Int) :
    Stream × Option (List UInt8) :=
  if s.isOpen then
    let s := if s.totalBytesBuffer - s.currentBufferPos = 0 then fill content s obtained else s
    let copyBytes := min len (s.totalBytesBuffer - s.currentBufferPos)
    ({ s with currentBufferPos := s.currentBufferPos + copyBytes },
      some ((List.range copyBytes).map fun i => s.buff (s.currentBufferPos + i)))
  else (s, none)

/-- `left` is where a failed QFile::seek leaves the file. -/
def seek (s : Stream) (offset : Nat) (granted : Bool) (left : Nat) : Stream × Int :=
  if s.isOpen then
    ({ s with
        totalBytesBuffer := 0
        currentBufferPos := 0
        filePos := if granted then offset else left },
      if granted then 0 else -1)
  else (s, -1)

/-- What one QFile::read into the buffer may return. -/
def Obtains (content : List UInt8) (filePos : Nat) (obtained : Int) : Prop :=
  if filePos < content.length then
    1 ≤ obtained ∧ obtained ≤ buffSize ∧ filePos + obtained ≤ content.length
  else obtained = 0

inductive Call where
  | openFile (granted : Bool)
  | close
  | read (len : Nat) (obtained : Int)
  | seek (offset : Nat) (granted : Bool) (left : Nat)

def history (content : List UInt8) : System Stream Call where
  start s := ∃ memory, s = construct memory
  step s call t :=
    match call with
    | .openFile granted => t = (openFile s granted).1
    | .close => t = close s
    | .read len obtained => Obtains content s.filePos obtained ∧ t = (read content s len obtained).1
    | .seek offset granted left => t = (seek s offset granted left).1

def Reads (content : List UInt8) (s : Stream) (event : Nat × List UInt8) (t : Stream) : Prop :=
  ∃ obtained, Obtains content s.filePos obtained ∧
    read content s event.1 obtained = (t, some event.2)

def delivered (events : List (Nat × List UInt8)) : List UInt8 := events.flatMap Prod.snd

def reads (content : List UInt8) : System Stream (Nat × List UInt8) where
  start s := s.isOpen = true
  step := Reads content

/-- Any read returns bytes, and not -1. -/
def Answers (content : List UInt8) (s : Stream) : Prop :=
  ∀ len obtained, Obtains content s.filePos obtained →
    ∃ t bytes, read content s len obtained = (t, some bytes)

/-- After any reads the next one returns bytes, at least one until all of `rest` is delivered. -/
def KeepsReading (content rest : List UInt8) (s : Stream) : Prop :=
  ∀ steps t, Run (reads content) s steps t → Answers content t ∧
    ∀ len bytes u, 1 ≤ len → Reads content t (len, bytes) u → bytes = [] →
      delivered (steps.map Prod.snd) = rest

/-- After close and a successful open, the successive reads are those of a new stream, and
    deliver the file from its first byte on. -/
def ReopensCleanly (content : List UInt8) (s : Stream) : Prop :=
  ∀ t, openFile (close s) true = (t, 0) →
    (∀ memory events, Trace (Reads content) t events ↔
      Trace (Reads content) (openFile (construct memory) true).1 events) ∧
    (∀ events, Trace (Reads content) t events → delivered events <+: content) ∧
    KeepsReading content content t

end FileMediaStream
