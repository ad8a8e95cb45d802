import QtPlayer.Library.MachineIntegers

/- FlatPieceMemoryStorage.h: what the constructor is given, and the functions of piece indices and
   positions. `Geometry` has what they mean, on unbounded integers; `Machine` computes them as the
   source does, with int and qlonglong. -/
namespace FlatPieceMemoryStorage

def INT_MAX : Int := 2147483647

/-- What the constructor is given. The product is the size of the allocated buffer. -/
structure Geometry where
  pieceLen : Int
  cacheSizeInPieces : Int
  fOffset : Int
  fSize : Int
  pieceLen_pos : 1 ≤ pieceLen
  cacheSizeInPieces_pos : 1 ≤ cacheSizeInPieces
  cacheSize_fits : pieceLen * cacheSizeInPieces ≤ INT_MAX
  fOffset_nonneg : 0 ≤ fOffset
  fSize_pos : 1 ≤ fSize

namespace Geometry

def firstPiece (g : Geometry) : Int := g.fOffset.tdiv g.pieceLen
def lastPiece (g : Geometry) : Int := (g.fOffset + g.fSize - 1).tdiv g.pieceLen
def maxPieces (g : Geometry) : Int := min g.cacheSizeInPieces (g.lastPiece - g.firstPiece + 1)
def cacheSize (g : Geometry) : Int := g.pieceLen * g.cacheSizeInPieces
def bytesInLastPiece (g : Geometry) : Int := g.fSize + g.fOffset - g.lastPiece * g.pieceLen
def pieceAbsPos (g : Geometry) (pieceIndex : Int) : Int := pieceIndex * g.pieceLen
def firstPieceOffset (g : Geometry) : Int := g.pieceAbsPos g.firstPiece

def posInCacheByAbsPos (g : Geometry) (absoluteOffset : Int) : Int :=
  (absoluteOffset - g.firstPieceOffset).tmod g.cacheSize

def posInCacheByPiece (g : Geometry) (pieceIndex : Int) : Int :=
  (pieceIndex - g.firstPiece).tmod g.cacheSizeInPieces * g.pieceLen

/-- An int counts one piece more than the file ends with. -/
class Counted (g : Geometry) : Prop where
  lastPiece_lt : g.lastPiece < INT_MAX

end Geometry

end FlatPieceMemoryStorage

namespace MachineGeometry
open FlatPieceMemoryStorage MachineIntegers

abbrev int (n : Int) : Int := wrap 31 n
abbrev qlonglong (n : Int) : Int := wrap 63 n

/- An operand is widened to qlonglong only beside another one. Overflows wrap. -/
namespace Machine

def firstPiece (g : Geometry) : Int := int (g.fOffset.tdiv g.pieceLen)

def lastPiece (g : Geometry) : Int :=
  int ((qlonglong (qlonglong (g.fOffset + g.fSize) - 1)).tdiv g.pieceLen)

def maxPieces (g : Geometry) : Int :=
  min g.cacheSizeInPieces (int (int (lastPiece g - firstPiece g) + 1))

def cacheSize (g : Geometry) : Int := int (g.pieceLen * g.cacheSizeInPieces)

def bytesInLastPiece (g : Geometry) : Int :=
  qlonglong (qlonglong (g.fSize + g.fOffset) - int (lastPiece g * g.pieceLen))

def pieceAbsPos (g : Geometry) (pieceIndex : Int) : Int := qlonglong (pieceIndex * g.pieceLen)

def firstPieceOffset (g : Geometry) : Int := pieceAbsPos g (firstPiece g)

def posInCacheByAbsPos (g : Geometry) (absoluteOffset : Int) : Int :=
  int ((qlonglong (absoluteOffset - firstPieceOffset g)).tmod (cacheSize g))

def posInCacheByPiece (g : Geometry) (pieceIndex : Int) : Int :=
  int ((int (pieceIndex - firstPiece g)).tmod g.cacheSizeInPieces * g.pieceLen)

end Machine

end MachineGeometry
