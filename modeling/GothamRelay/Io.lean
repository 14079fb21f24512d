import GothamRelay.Data.FileSystem
import GothamRelay.Path

namespace GothamRelay

open Data

inductive IoErrorKind where
  | notFound
  | invalidData
  | other
  deriving DecidableEq, Repr

structure IoError where
  kind : IoErrorKind
  message : String
  deriving DecidableEq, Repr

/-- `std::fs::read`, when nothing but a missing file can go wrong. -/
def readFile (fs : FileSystem Path) (path : Path) :
    Except IoError (List UInt8) :=
  match fs.read path with
  | some bytes => .ok bytes
  | none => .error ⟨.notFound, "entity not found"⟩

end GothamRelay
