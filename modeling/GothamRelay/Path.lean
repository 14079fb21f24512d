import Mathlib.Init

namespace GothamRelay

/-- The path of a file, taken apart as `Path::with_extension` does. -/
structure Path where
  parent : String
  stem : String
  extension : Option String
  deriving DecidableEq, Repr

namespace Path

def withExtension (path : Path) (extension : String) : Path :=
  { path with extension := some extension }

def tmp (path : Path) : Path := path.withExtension "tmp"

theorem tmp_ne {path : Path} (different : path.extension ≠ some "tmp") :
    path.tmp ≠ path := by
  intro same
  exact different (congrArg Path.extension same).symm

end Path

end GothamRelay
