import GothamRelay.Data.FileSystem
import GothamRelay.Data.Transition
import GothamRelay.Path
import GothamRelay.Replay.Persist

namespace GothamRelay.Persist

open Data

/-! `write_encoded` as the steps of any number of calls for one path. -/

/-- Where a call is. From `locked` to `synced` it holds `WRITE_LOCK`. -/
inductive CallPhase where
  | waiting
  | locked
  | opened (file : Nat)
  | writing (file : Nat) (offset : Nat)
  | synced
  | returned (result : Except IoError Nat)

def CallPhase.holding : CallPhase → Bool
  | .waiting => false
  | .returned _ => false
  | _ => true

structure WriteCall where
  buf : List UInt8
  phase : CallPhase

/-- `completed` has the calls whose rename succeeded, in that order. -/
structure Writers where
  fs : FileSystem Path
  lock : Option Nat
  calls : List WriteCall
  completed : List Nat

inductive WriteAction where
  | call (buf : List UInt8)
  | lock (call : Nat)
  | openTmp (call : Nat)
  | setPermissions (call : Nat)
  | write (call : Nat) (count : Nat)
  | sync (call : Nat)
  | rename (call : Nat)
  | fail (call : Nat) (error : IoError)

namespace Writers

def setCall (writers : Writers) (call : Nat) (buf : List UInt8)
    (phase : CallPhase) : Writers :=
  { writers with calls := writers.calls.set call ⟨buf, phase⟩ }

def call (writers : Writers) (buf : List UInt8) : Writers :=
  { writers with calls := writers.calls ++ [⟨buf, .waiting⟩] }

def recordsIn (buf : List UInt8) : Nat :=
  (buf.length - magic.length) / record

def returnError (writers : Writers) (call : Nat) (buf : List UInt8)
    (error : IoError) : Writers :=
  { writers.setCall call buf (.returned (.error error)) with lock := none }

/-- One step of a call, if it is at that point. Every step that holds the lock
can fail. -/
def step (path : Path) (writers : Writers) : WriteAction → Option Writers
  | .call buf => some (writers.call buf)
  | .lock call =>
      match writers.calls[call]?, writers.lock with
      | some ⟨buf, .waiting⟩, none =>
          some { writers.setCall call buf .locked with lock := some call }
      | _, _ => none
  | .openTmp call =>
      match writers.calls[call]? with
      | some ⟨buf, .locked⟩ =>
          let opened := writers.fs.openTruncate path.tmp
          some { writers.setCall call buf (.opened opened.1) with
            fs := opened.2 }
      | _ => none
  | .setPermissions call =>
      match writers.calls[call]? with
      | some ⟨buf, .opened file⟩ =>
          some (writers.setCall call buf (.writing file 0))
      | _ => none
  | .write call count =>
      match writers.calls[call]? with
      | some ⟨buf, .writing file offset⟩ =>
          if 0 < count ∧ offset + count ≤ buf.length then
            some { writers.setCall call buf
                (.writing file (offset + count)) with
              fs := writers.fs.write file offset
                ((buf.drop offset).take count) }
          else none
      | _ => none
  | .sync call =>
      match writers.calls[call]? with
      | some ⟨buf, .writing _ offset⟩ =>
          if offset = buf.length then some (writers.setCall call buf .synced)
          else none
      | _ => none
  | .rename call =>
      match writers.calls[call]? with
      | some ⟨buf, .synced⟩ =>
          match writers.fs.rename path.tmp path with
          | some fs =>
              some { writers.setCall call buf
                  (.returned (.ok (recordsIn buf))) with
                fs
                lock := none
                completed := writers.completed ++ [call] }
          | none =>
              some (writers.returnError call buf
                ⟨.notFound, "entity not found"⟩)
      | _ => none
  | .fail call error =>
      match writers.calls[call]? with
      | some ⟨buf, phase⟩ =>
          if phase.holding then some (writers.returnError call buf error)
          else none
      | none => none

def start (fs : FileSystem Path) : Writers where
  fs := fs
  lock := none
  calls := []
  completed := []

inductive Stepped (path : Path) (writers : Writers) :
    WriteAction → Writers → Prop where
  | call (buf : List UInt8) :
      Stepped path writers (.call buf) (writers.call buf)
  | lock {call : Nat} {buf : List UInt8}
      (found : writers.calls[call]? = some ⟨buf, .waiting⟩)
      (free : writers.lock = none) :
      Stepped path writers (.lock call)
        { writers.setCall call buf .locked with lock := some call }
  | openTmp {call : Nat} {buf : List UInt8}
      (found : writers.calls[call]? = some ⟨buf, .locked⟩) :
      Stepped path writers (.openTmp call)
        { writers.setCall call buf
            (.opened (writers.fs.openTruncate path.tmp).1) with
          fs := (writers.fs.openTruncate path.tmp).2 }
  | setPermissions {call : Nat} {buf : List UInt8} {file : Nat}
      (found : writers.calls[call]? = some ⟨buf, .opened file⟩) :
      Stepped path writers (.setPermissions call)
        (writers.setCall call buf (.writing file 0))
  | write {call : Nat} {buf : List UInt8} {file offset count : Nat}
      (found : writers.calls[call]? = some ⟨buf, .writing file offset⟩)
      (fits : offset + count ≤ buf.length) :
      Stepped path writers (.write call count)
        { writers.setCall call buf (.writing file (offset + count)) with
          fs := writers.fs.write file offset ((buf.drop offset).take count) }
  | sync {call : Nat} {buf : List UInt8} {file : Nat}
      (found : writers.calls[call]? = some ⟨buf, .writing file buf.length⟩) :
      Stepped path writers (.sync call) (writers.setCall call buf .synced)
  | rename {call : Nat} {buf : List UInt8} {fs : FileSystem Path}
      (found : writers.calls[call]? = some ⟨buf, .synced⟩)
      (renamed : writers.fs.rename path.tmp path = some fs) :
      Stepped path writers (.rename call)
        { writers.setCall call buf (.returned (.ok (recordsIn buf))) with
          fs
          lock := none
          completed := writers.completed ++ [call] }
  | fail {call : Nat} {buf : List UInt8} {phase : CallPhase}
      {action : WriteAction} (error : IoError)
      (found : writers.calls[call]? = some ⟨buf, phase⟩)
      (holding : phase.holding = true) :
      Stepped path writers action (writers.returnError call buf error)

theorem stepped_of_step {path : Path} {writers after : Writers}
    {action : WriteAction} (taken : writers.step path action = some after) :
    Stepped path writers action after := by
  cases action with
  | call buf =>
      cases taken
      exact .call buf
  | lock call =>
      simp only [step] at taken
      split at taken <;> cases taken
      rename_i found free
      exact .lock found free
  | openTmp call =>
      simp only [step] at taken
      split at taken <;> cases taken
      rename_i found
      exact .openTmp found
  | setPermissions call =>
      simp only [step] at taken
      split at taken <;> cases taken
      rename_i found
      exact .setPermissions found
  | write call count =>
      simp only [step] at taken
      split at taken
      · rename_i found
        split at taken <;> cases taken
        rename_i fits
        exact .write found fits.2
      · cases taken
  | sync call =>
      simp only [step] at taken
      split at taken
      · rename_i found
        split at taken <;> cases taken
        rename_i complete
        subst complete
        exact .sync found
      · cases taken
  | rename call =>
      simp only [step] at taken
      split at taken
      · rename_i found
        split at taken <;> cases taken
        · rename_i renamed
          exact .rename found renamed
        · exact .fail _ found rfl
      · cases taken
  | fail call error =>
      simp only [step] at taken
      split at taken
      · rename_i found
        split at taken <;> cases taken
        rename_i holding
        exact .fail error found holding
      · cases taken

/-! ## The lock keeps the temporary file to one call -/

def bufs (writers : Writers) : List (List UInt8) :=
  writers.calls.map WriteCall.buf

/-- The file that the last completed call left, or the one before them all. -/
def latest (writers : Writers) (before : Option (List UInt8)) :
    Option (List UInt8) :=
  match writers.completed.getLast? with
  | none => before
  | some call => writers.bufs[call]?

def PhaseSound (path : Path) (fs : FileSystem Path) (call : WriteCall) :
    Prop :=
  match call.phase with
  | .opened file => fs.Drafted path.tmp file call.buf 0
  | .writing file offset => fs.Drafted path.tmp file call.buf offset
  | .synced => fs.read path.tmp = some call.buf
  | _ => True

private theorem phaseSound_of_not_holding {path : Path} {fs : FileSystem Path}
    {call : WriteCall} (released : call.phase.holding = false) :
    PhaseSound path fs call := by
  obtain ⟨buf, phase⟩ := call
  cases phase with
  | waiting => trivial
  | returned result => trivial
  | locked => trivial
  | opened file => cases released
  | writing file offset => cases released
  | synced => cases released

structure Sound (path : Path) (before : Option (List UInt8))
    (writers : Writers) : Prop where
  holder : ∀ {call : Nat} {state : WriteCall},
    writers.calls[call]? = some state → state.phase.holding = true →
      writers.lock = some call
  phases : ∀ {call : Nat} {state : WriteCall},
    writers.calls[call]? = some state → PhaseSound path writers.fs state
  known : ∀ {call : Nat}, call ∈ writers.completed →
    call < writers.calls.length
  content : writers.fs.read path = writers.latest before

theorem bufs_setCall {writers : Writers} {call : Nat} {buf : List UInt8}
    {phase : CallPhase} (found : writers.calls[call]? = some ⟨buf, phase⟩)
    (next : CallPhase) :
    (writers.setCall call buf next).bufs = writers.bufs :=
  map_set_of_eq found rfl

section Steps

variable {path : Path} {before : Option (List UInt8)} {writers : Writers}

theorem sound_start (path : Path) (fs : FileSystem Path) :
    Sound path (fs.read path) (start fs) :=
  ⟨nofun, nofun, nofun, rfl⟩

theorem Sound.read_last (sound : Sound path before writers) {last : Nat}
    (isLast : writers.completed.getLast? = some last) :
    ∃ buf, writers.bufs[last]? = some buf ∧
      writers.fs.read path = some buf := by
  have inside : last < writers.bufs.length := by
    rw [bufs, List.length_map]
    exact sound.known (List.mem_of_getLast? isLast)
  have had := List.getElem?_eq_getElem inside
  refine ⟨writers.bufs[last], had, ?_⟩
  rw [sound.content, latest, isLast]
  exact had

theorem Sound.advance (sound : Sound path before writers) {call : Nat}
    {buf : List UInt8} {phase next : CallPhase} {fs : FileSystem Path}
    {lock : Option Nat} {completed : List Nat}
    (found : writers.calls[call]? = some ⟨buf, phase⟩)
    (exclusive : ∀ other, other ≠ call → writers.lock ≠ some other)
    (mine : PhaseSound path fs ⟨buf, next⟩)
    (owned : next.holding = true → lock = some call)
    (known : ∀ {call : Nat}, call ∈ completed → call < writers.calls.length)
    (content : fs.read path =
      { writers with completed }.latest before) :
    Sound path before
      { writers.setCall call buf next with fs, lock, completed } := by
  refine ⟨?_, ?_, ?_, ?_⟩
  · intro other state there holding
    cases getElem?_set_cases there with
    | inl here =>
        obtain ⟨rfl, rfl⟩ := here
        exact owned holding
    | inr old =>
        exact absurd (sound.holder old.2 holding) (exclusive other old.1)
  · intro other state there
    cases getElem?_set_cases there with
    | inl here =>
        rw [here.2]
        exact mine
    | inr old =>
        cases held : state.phase.holding with
        | false => exact phaseSound_of_not_holding held
        | true =>
            exact absurd (sound.holder old.2 held) (exclusive other old.1)
  · intro other member
    simp only [setCall, List.length_set]
    exact known member
  · rw [content]
    have same := bufs_setCall found next
    simp only [latest, bufs, setCall] at same ⊢
    rw [same]

theorem Sound.exclusive (sound : Sound path before writers) {call : Nat}
    {state : WriteCall} (found : writers.calls[call]? = some state)
    (holding : state.phase.holding = true) :
    ∀ other, other ≠ call → writers.lock ≠ some other := by
  intro other ne locked
  exact ne (Option.some.inj (locked.symm.trans (sound.holder found holding)))

private theorem latest_call (writers : Writers) (before : Option (List UInt8))
    (buf : List UInt8)
    (known : ∀ {call : Nat}, call ∈ writers.completed →
      call < writers.calls.length) :
    (writers.call buf).latest before = writers.latest before := by
  simp only [latest, Writers.call, bufs]
  cases last : writers.completed.getLast? with
  | none => rfl
  | some call =>
      have inside := known (List.mem_of_getLast? last)
      rw [List.map_append]
      exact List.getElem?_append_left (by rwa [List.length_map])

private theorem latest_completed {call : Nat} {state : WriteCall}
    (found : writers.calls[call]? = some state) :
    { writers with completed := writers.completed ++ [call] }.latest before =
      some state.buf := by
  rw [latest, List.getLast?_concat]
  simp only [bufs, List.getElem?_map, found, Option.map_some]

theorem Sound.call (sound : Sound path before writers) (buf : List UInt8) :
    Sound path before (writers.call buf) := by
  refine ⟨?_, ?_, ?_, ?_⟩
  · intro call state found holding
    cases getElem?_append_singleton_cases found with
    | inl new =>
        subst state
        cases holding
    | inr old => exact sound.holder old holding
  · intro call state found
    cases getElem?_append_singleton_cases found with
    | inl new =>
        subst state
        trivial
    | inr old => exact sound.phases old
  · intro call member
    have inside := sound.known member
    simp only [Writers.call, List.length_append, List.length_singleton]
    omega
  · rw [latest_call writers before buf sound.known]
    exact sound.content

theorem Sound.of_stepped (separate : path.tmp ≠ path)
    (sound : Sound path before writers) {action : WriteAction}
    {after : Writers} (stepped : Stepped path writers action after) :
    Sound path before after := by
  cases stepped with
  | call buf => exact sound.call buf
  | lock found free =>
      refine sound.advance found ?_ trivial (fun _ => rfl) sound.known
        sound.content
      intro other _
      rw [free]
      exact (Option.some_ne_none other).symm
  | openTmp found =>
      refine sound.advance found (sound.exclusive found rfl)
        (writers.fs.drafted_openTruncate path.tmp _)
        (fun _ => sound.holder found rfl) sound.known ?_
      rw [FileSystem.read_openTruncate_of_ne _ separate.symm]
      exact sound.content
  | setPermissions found =>
      have drafted : FileSystem.Drafted _ _ _ _ _ := sound.phases found
      exact sound.advance found (sound.exclusive found rfl) drafted
        (fun _ => sound.holder found rfl) sound.known sound.content
  | write found fits =>
      have drafted : FileSystem.Drafted _ _ _ _ _ := sound.phases found
      refine sound.advance found (sound.exclusive found rfl)
        (drafted.write fits) (fun _ => sound.holder found rfl) sound.known ?_
      rw [drafted.read_write_of_ne separate.symm]
      exact sound.content
  | sync found =>
      have drafted : FileSystem.Drafted _ _ _ _ _ := sound.phases found
      exact sound.advance found (sound.exclusive found rfl)
        drafted.read_complete (fun _ => sound.holder found rfl) sound.known
        sound.content
  | rename found renamed =>
      have synced : writers.fs.read path.tmp = some _ := sound.phases found
      refine sound.advance found (sound.exclusive found rfl) trivial
        (fun holding => absurd holding Bool.false_ne_true) ?_ ?_
      · intro other member
        cases List.mem_append.mp member with
        | inl old => exact sound.known old
        | inr new =>
            rw [List.mem_singleton.mp new]
            exact (List.getElem?_eq_some_iff.mp found).1
      · rw [FileSystem.read_rename renamed, latest_completed found, synced]
  | fail error found holding =>
      exact sound.advance found (sound.exclusive found holding) trivial
        (fun holding => absurd holding Bool.false_ne_true) sound.known
        sound.content

end Steps

end Writers

end GothamRelay.Persist
