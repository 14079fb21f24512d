import Mathlib.Logic.Function.Basic

namespace GothamRelay.Data

/-! Files behind a directory. A path leads to a file and an open handle is the
file itself, so a handle follows its file when the path is moved. -/

structure FileSystem (π : Type) where
  directory : π → Option Nat
  contents : Nat → List UInt8
  next : Nat
  allocated : ∀ {path file}, directory path = some file → file < next
  injective : ∀ {first second file}, directory first = some file →
    directory second = some file → first = second

/-- The bytes of a file after a write at an offset. A gap is filled with
zeros. -/
def splice (content : List UInt8) (offset : Nat) (bytes : List UInt8) :
    List UInt8 :=
  content.take offset ++ List.replicate (offset - content.length) 0 ++
    bytes ++ content.drop (offset + bytes.length)

private theorem splice_take {bytes : List UInt8} {offset : Nat}
    (inside : offset ≤ bytes.length) (count : Nat) :
    splice (bytes.take offset) offset ((bytes.drop offset).take count) =
      bytes.take (offset + count) := by
  have written : (bytes.take offset).length = offset :=
    List.length_take_of_le inside
  have past : (bytes.take offset).drop
      (offset + ((bytes.drop offset).take count).length) = [] :=
    List.drop_eq_nil_of_le
      (Nat.le_trans (Nat.le_of_eq written) (Nat.le_add_right _ _))
  rw [splice, past, written, List.take_take, Nat.min_self, Nat.sub_self,
    List.replicate_zero, List.append_nil, List.append_nil, List.take_add]

namespace FileSystem

variable {π : Type} [DecidableEq π]

def empty : FileSystem π where
  directory _ := none
  contents _ := []
  next := 0
  allocated := nofun
  injective := nofun

def read (fs : FileSystem π) (path : π) : Option (List UInt8) :=
  (fs.directory path).map fs.contents

def write (fs : FileSystem π) (file offset : Nat) (bytes : List UInt8) :
    FileSystem π :=
  { fs with
    contents := Function.update fs.contents file
      (splice (fs.contents file) offset bytes) }

theorem update_cases {directory : π → Option Nat} {path other : π}
    {entry : Option Nat} {file : Nat}
    (found : Function.update directory path entry other = some file) :
    (other = path ∧ entry = some file) ∨
      (other ≠ path ∧ directory other = some file) := by
  by_cases same : other = path
  · subst other
    rw [Function.update_self] at found
    exact .inl ⟨rfl, found⟩
  · rw [Function.update_of_ne same] at found
    exact .inr ⟨same, found⟩

def create (fs : FileSystem π) (path : π) : FileSystem π where
  directory := Function.update fs.directory path (some fs.next)
  contents := Function.update fs.contents fs.next []
  next := fs.next + 1
  allocated := by
    intro other file found
    cases update_cases found with
    | inl new =>
        cases new.2
        exact Nat.lt_succ_self _
    | inr old => exact Nat.lt_succ_of_lt (fs.allocated old.2)
  injective := by
    intro first second file foundFirst foundSecond
    cases update_cases foundFirst with
    | inl newFirst =>
        cases update_cases foundSecond with
        | inl newSecond => exact newFirst.1.trans newSecond.1.symm
        | inr old =>
            cases newFirst.2
            exact absurd (fs.allocated old.2) (Nat.lt_irrefl _)
    | inr oldFirst =>
        cases update_cases foundSecond with
        | inl newSecond =>
            cases newSecond.2
            exact absurd (fs.allocated oldFirst.2) (Nat.lt_irrefl _)
        | inr oldSecond => exact fs.injective oldFirst.2 oldSecond.2

/-- Opens a path for writing: an existing file is emptied, a missing one is
created. -/
def openTruncate (fs : FileSystem π) (path : π) : Nat × FileSystem π :=
  match fs.directory path with
  | some file =>
      (file, { fs with contents := Function.update fs.contents file [] })
  | none => (fs.next, fs.create path)

theorem moved_cases {directory : π → Option Nat} {source target path : π}
    {file found : Nat}
    (at_path : Function.update (Function.update directory source none) target
      (some file) path = some found) :
    (path = target ∧ found = file) ∨
      (path ≠ source ∧ directory path = some found) := by
  cases update_cases at_path with
  | inl moved => exact .inl ⟨moved.1, (Option.some.inj moved.2).symm⟩
  | inr kept =>
      cases update_cases kept.2 with
      | inl gone => cases gone.2
      | inr old => exact .inr old

/-- Moves a file to another path. A file that was there can only be reached
through handles any more. -/
def move (fs : FileSystem π) (source target : π) (file : Nat)
    (found : fs.directory source = some file) : FileSystem π :=
  { fs with
    directory := Function.update (Function.update fs.directory source none)
      target (some file)
    allocated := by
      intro path entry at_path
      cases moved_cases at_path with
      | inl moved =>
          rw [moved.2]
          exact fs.allocated found
      | inr old => exact fs.allocated old.2
    injective := by
      intro first second entry at_first at_second
      cases moved_cases at_first with
      | inl moved =>
          cases moved_cases at_second with
          | inl same => exact moved.1.trans same.1.symm
          | inr old =>
              rw [moved.2] at old
              exact absurd (fs.injective old.2 found) old.1
      | inr oldFirst =>
          cases moved_cases at_second with
          | inl moved =>
              rw [moved.2] at oldFirst
              exact absurd (fs.injective oldFirst.2 found) oldFirst.1
          | inr old => exact fs.injective oldFirst.2 old.2 }

def rename (fs : FileSystem π) (source target : π) :
    Option (FileSystem π) :=
  match found : fs.directory source with
  | none => none
  | some file => some (fs.move source target file found)

/-! ## What a path reads after a step -/

theorem openTruncate_directory (fs : FileSystem π) (path : π) :
    (fs.openTruncate path).2.directory path =
      some (fs.openTruncate path).1 := by
  cases found : fs.directory path with
  | none =>
      simp only [openTruncate, found, create]
      exact Function.update_self _ _ _
  | some file =>
      simp only [openTruncate, found]

theorem openTruncate_contents (fs : FileSystem π) (path : π) :
    (fs.openTruncate path).2.contents (fs.openTruncate path).1 = [] := by
  cases found : fs.directory path with
  | none =>
      simp only [openTruncate, found, create]
      exact Function.update_self _ _ _
  | some file =>
      simp only [openTruncate, found]
      exact Function.update_self _ _ _

theorem map_update_of_ne {contents : Nat → List UInt8} {file : Nat}
    {entry : Option Nat} (other : entry ≠ some file) (bytes : List UInt8) :
    entry.map (Function.update contents file bytes) = entry.map contents := by
  cases entry with
  | none => rfl
  | some found =>
      have ne : found ≠ file := fun same => other (congrArg some same)
      rw [Option.map_some, Function.update_of_ne ne, Option.map_some]

theorem read_openTruncate_of_ne (fs : FileSystem π) {path other : π}
    (ne : other ≠ path) :
    (fs.openTruncate path).2.read other = fs.read other := by
  cases found : fs.directory path with
  | none =>
      simp only [openTruncate, found, create, read]
      rw [Function.update_of_ne ne]
      apply map_update_of_ne
      exact fun same => Nat.lt_irrefl _ (fs.allocated same)
  | some file =>
      simp only [openTruncate, found, read]
      apply map_update_of_ne
      exact fun same => ne (fs.injective same found)

theorem read_rename {fs after : FileSystem π} {source target : π}
    (renamed : fs.rename source target = some after) :
    after.read target = fs.read source := by
  rw [rename] at renamed
  split at renamed
  · cases renamed
  · rename_i file found
    cases renamed
    simp only [read, move, Function.update_self, found, Option.map_some]

theorem rename_of_read {fs : FileSystem π} {source : π} (target : π)
    {bytes : List UInt8} (found : fs.read source = some bytes) :
    ∃ after, fs.rename source target = some after := by
  obtain ⟨file, entry, _⟩ := Option.map_eq_some_iff.mp found
  rw [rename]
  split
  · rename_i missing
    rw [missing] at entry
    cases entry
  · exact ⟨_, rfl⟩

/-! ## Writing a file bit by bit -/

/-- `file` is open at `path`, with the first `offset` of `bytes` in it. -/
structure Drafted (fs : FileSystem π) (path : π) (file : Nat)
    (bytes : List UInt8) (offset : Nat) : Prop where
  inside : offset ≤ bytes.length
  found : fs.directory path = some file
  written : fs.contents file = bytes.take offset

theorem drafted_openTruncate (fs : FileSystem π) (path : π)
    (bytes : List UInt8) :
    Drafted (fs.openTruncate path).2 path (fs.openTruncate path).1 bytes 0 :=
  ⟨Nat.zero_le _, openTruncate_directory fs path,
    openTruncate_contents fs path⟩

section Drafted

variable {fs : FileSystem π} {path : π} {file : Nat} {bytes : List UInt8}
  {offset : Nat}

omit [DecidableEq π]

theorem Drafted.write (drafted : fs.Drafted path file bytes offset)
    {count : Nat} (fits : offset + count ≤ bytes.length) :
    (fs.write file offset ((bytes.drop offset).take count)).Drafted path file
      bytes (offset + count) where
  inside := fits
  found := drafted.found
  written := by
    simp only [FileSystem.write, Function.update_self]
    rw [drafted.written, splice_take drafted.inside]

theorem Drafted.read_write_of_ne (drafted : fs.Drafted path file bytes offset)
    {other : π} (ne : other ≠ path) (position : Nat) (more : List UInt8) :
    (fs.write file position more).read other = fs.read other :=
  map_update_of_ne (fun same => ne (fs.injective same drafted.found)) _

theorem Drafted.read_complete
    (drafted : fs.Drafted path file bytes bytes.length) :
    fs.read path = some bytes := by
  rw [read, drafted.found, Option.map_some, drafted.written, List.take_length]

end Drafted

end FileSystem

end GothamRelay.Data
