import GothamRelay.Data.Transition
import GothamRelay.Io

namespace GothamRelay

open Data

/-! The mailbox store on disk: `load_mailbox`, and `persist_mailbox` as the
steps of its two callers, the maintenance task and the shutdown save. -/

/-- What is called in `rmp_serde` and `crypto_gotham::mailbox`. -/
structure MailboxFormat (Snapshot Mailbox : Type) where
  toVecNamed : Snapshot → Option (List UInt8)
  fromSlice : List UInt8 → Option Snapshot
  fromSnapshot : Snapshot → Nat → Mailbox
  withDefaults : Mailbox
  fromSlice_toVecNamed : ∀ {snap bytes}, toVecNamed snap = some bytes →
    fromSlice bytes = some snap

inductive LoadReport where
  | silent
  | loaded
  | corrupt
  deriving DecidableEq, Repr

variable {Snapshot Mailbox : Type}

def loadMailbox (format : MailboxFormat Snapshot Mailbox)
    (file : Option (Except IoError (List UInt8))) (nowUnix : Nat) :
    Mailbox × LoadReport :=
  match file with
  | none => (format.withDefaults, .silent)
  | some (.ok bytes) =>
      match format.fromSlice bytes with
      | some snap => (format.fromSnapshot snap nowUnix, .loaded)
      | none => (format.withDefaults, .corrupt)
  | some (.error _) => (format.withDefaults, .silent)

inductive Writer where
  | maintenance
  | shutdown
  deriving DecidableEq

/-- Where a caller is. Between `snapped` and `written` it is inside
`persist_mailbox`, and from `writing` on the temporary file is its own. -/
inductive WriterPhase (Snapshot : Type) where
  | idle
  | snapped (snap : Snapshot)
  | serialised (bytes : List UInt8)
  | writing (file : Nat) (bytes : List UInt8) (offset : Nat)
  | written
  | finished

namespace WriterPhase

def openedTmp : WriterPhase Snapshot → Bool
  | .writing _ _ _ => true
  | .written => true
  | _ => false

end WriterPhase

def Writer.ended : Writer → WriterPhase Snapshot
  | .maintenance => .idle
  | .shutdown => .finished

structure MailboxFiles (Snapshot : Type) where
  fs : FileSystem Path
  phase : Writer → WriterPhase Snapshot

inductive FileAction (Snapshot : Type) where
  | snapshot (writer : Writer) (snap : Snapshot)
  | serialise (writer : Writer)
  | openTmp (writer : Writer)
  | write (writer : Writer) (count : Nat)
  | close (writer : Writer)
  | rename (writer : Writer)
  | fail (writer : Writer)

namespace MailboxFiles

def setPhase (state : MailboxFiles Snapshot) (writer : Writer)
    (phase : WriterPhase Snapshot) : MailboxFiles Snapshot :=
  { state with phase := Function.update state.phase writer phase }

/-- One step of a caller, if it is at that point. `write_all` writes as many
bytes at a time as the system takes, `close` ends `std::fs::write`, and any
call of the file system can fail. -/
def step (format : MailboxFormat Snapshot Mailbox) (path : Path)
    (state : MailboxFiles Snapshot) :
    FileAction Snapshot → Option (MailboxFiles Snapshot)
  | .snapshot writer snap =>
      match state.phase writer with
      | .idle => some (state.setPhase writer (.snapped snap))
      | _ => none
  | .serialise writer =>
      match state.phase writer with
      | .snapped snap =>
          match format.toVecNamed snap with
          | some bytes => some (state.setPhase writer (.serialised bytes))
          | none => some (state.setPhase writer writer.ended)
      | _ => none
  | .openTmp writer =>
      match state.phase writer with
      | .serialised bytes =>
          let opened := state.fs.openTruncate path.tmp
          some { state.setPhase writer (.writing opened.1 bytes 0) with
            fs := opened.2 }
      | _ => none
  | .write writer count =>
      match state.phase writer with
      | .writing file bytes offset =>
          if 0 < count ∧ offset + count ≤ bytes.length then
            some { state.setPhase writer
                (.writing file bytes (offset + count)) with
              fs := state.fs.write file offset
                ((bytes.drop offset).take count) }
          else none
      | _ => none
  | .close writer =>
      match state.phase writer with
      | .writing _ bytes offset =>
          if offset = bytes.length then
            some (state.setPhase writer .written)
          else none
      | _ => none
  | .rename writer =>
      match state.phase writer with
      | .written =>
          match state.fs.rename path.tmp path with
          | some fs => some { state.setPhase writer writer.ended with fs }
          | none => some (state.setPhase writer writer.ended)
      | _ => none
  | .fail writer =>
      match state.phase writer with
      | .serialised _ => some (state.setPhase writer writer.ended)
      | .writing _ _ _ => some (state.setPhase writer writer.ended)
      | .written => some (state.setPhase writer writer.ended)
      | _ => none

def start (fs : FileSystem Path) : MailboxFiles Snapshot where
  fs := fs
  phase _ := .idle

inductive Stepped (format : MailboxFormat Snapshot Mailbox) (path : Path)
    (state : MailboxFiles Snapshot) :
    FileAction Snapshot → MailboxFiles Snapshot → Prop where
  | snapshot {writer : Writer} (snap : Snapshot) :
      Stepped format path state (.snapshot writer snap)
        (state.setPhase writer (.snapped snap))
  | serialise {writer : Writer} {snap : Snapshot} {bytes : List UInt8}
      (taken : state.phase writer = .snapped snap)
      (encoded : format.toVecNamed snap = some bytes) :
      Stepped format path state (.serialise writer)
        (state.setPhase writer (.serialised bytes))
  | openTmp {writer : Writer} {bytes : List UInt8}
      (ready : state.phase writer = .serialised bytes) :
      Stepped format path state (.openTmp writer)
        { state.setPhase writer
            (.writing (state.fs.openTruncate path.tmp).1 bytes 0) with
          fs := (state.fs.openTruncate path.tmp).2 }
  | write {writer : Writer} {file : Nat} {bytes : List UInt8}
      {offset count : Nat}
      (opened : state.phase writer = .writing file bytes offset)
      (fits : offset + count ≤ bytes.length) :
      Stepped format path state (.write writer count)
        { state.setPhase writer (.writing file bytes (offset + count)) with
          fs := state.fs.write file offset
            ((bytes.drop offset).take count) }
  | close {writer : Writer} {file : Nat} {bytes : List UInt8}
      (opened : state.phase writer = .writing file bytes bytes.length) :
      Stepped format path state (.close writer)
        (state.setPhase writer .written)
  | rename {writer : Writer} {fs : FileSystem Path}
      (closed : state.phase writer = .written)
      (renamed : state.fs.rename path.tmp path = some fs) :
      Stepped format path state (.rename writer)
        { state.setPhase writer writer.ended with fs }
  | fail {writer : Writer} {action : FileAction Snapshot} :
      Stepped format path state action (state.setPhase writer writer.ended)

theorem stepped_of_step {format : MailboxFormat Snapshot Mailbox}
    {path : Path} {state after : MailboxFiles Snapshot}
    {action : FileAction Snapshot}
    (taken : state.step format path action = some after) :
    Stepped format path state action after := by
  cases action with
  | snapshot writer snap =>
      simp only [step] at taken
      split at taken <;> cases taken
      exact .snapshot snap
  | serialise writer =>
      simp only [step] at taken
      split at taken
      · rename_i snap phase
        split at taken <;> cases taken
        · rename_i bytes encoded
          exact .serialise phase encoded
        · exact .fail
      · cases taken
  | openTmp writer =>
      simp only [step] at taken
      split at taken <;> cases taken
      rename_i bytes ready
      exact .openTmp ready
  | write writer count =>
      simp only [step] at taken
      split at taken
      · rename_i file bytes offset opened
        split at taken <;> cases taken
        rename_i fits
        exact .write opened fits.2
      · cases taken
  | close writer =>
      simp only [step] at taken
      split at taken
      · rename_i file bytes offset opened
        split at taken <;> cases taken
        rename_i complete
        subst offset
        exact .close opened
      · cases taken
  | rename writer =>
      simp only [step] at taken
      split at taken
      · rename_i closed
        split at taken <;> cases taken
        · rename_i fs renamed
          exact .rename closed renamed
        · exact .fail
      · cases taken
  | fail writer =>
      simp only [step] at taken
      split at taken <;> cases taken <;> exact .fail

/-! ## Writers that take turns -/

def Serialised (format : MailboxFormat Snapshot Mailbox)
    (actions : List (FileAction Snapshot)) (bytes : List UInt8) : Prop :=
  ∃ writer snap, .snapshot writer snap ∈ actions ∧
    format.toVecNamed snap = some bytes

/-- The file is what it was, or one whole snapshot. -/
def Whole (format : MailboxFormat Snapshot Mailbox)
    (actions : List (FileAction Snapshot))
    (before after : Option (List UInt8)) : Prop :=
  after = before ∨
    ∃ bytes, after = some bytes ∧ Serialised format actions bytes

/-- A writer opens the temporary file only while the other one is not between
its opening and its rename. -/
def TakesTurns (state : MailboxFiles Snapshot) : FileAction Snapshot → Prop
  | .openTmp writer =>
      ∀ other, other ≠ writer → (state.phase other).openedTmp = false
  | _ => True

instance decidableTakesTurns (state : MailboxFiles Snapshot) :
    ∀ action, Decidable (state.TakesTurns action)
  | .openTmp writer =>
      decidable_of_iff
        (∀ other ∈ [Writer.maintenance, Writer.shutdown], other ≠ writer →
          (state.phase other).openedTmp = false)
        ⟨fun turns other => turns other (by cases other <;> decide),
          fun turns other _ => turns other⟩
  | .snapshot _ _ => isTrue trivial
  | .serialise _ => isTrue trivial
  | .write _ _ => isTrue trivial
  | .close _ => isTrue trivial
  | .rename _ => isTrue trivial
  | .fail _ => isTrue trivial

theorem Serialised.mono {format : MailboxFormat Snapshot Mailbox}
    {actions : List (FileAction Snapshot)} {bytes : List UInt8}
    (serialised : Serialised format actions bytes)
    (action : FileAction Snapshot) :
    Serialised format (actions ++ [action]) bytes := by
  obtain ⟨writer, snap, member, encoded⟩ := serialised
  exact ⟨writer, snap, List.mem_append_left _ member, encoded⟩

theorem Whole.mono {format : MailboxFormat Snapshot Mailbox}
    {actions : List (FileAction Snapshot)}
    {before after : Option (List UInt8)}
    (whole : Whole format actions before after)
    (action : FileAction Snapshot) :
    Whole format (actions ++ [action]) before after := by
  cases whole with
  | inl same => exact .inl same
  | inr replaced =>
      obtain ⟨bytes, read, serialised⟩ := replaced
      exact .inr ⟨bytes, read, serialised.mono action⟩

def PhaseSound (format : MailboxFormat Snapshot Mailbox) (path : Path)
    (actions : List (FileAction Snapshot)) (fs : FileSystem Path)
    (writer : Writer) : WriterPhase Snapshot → Prop
  | .idle => True
  | .snapped snap => .snapshot writer snap ∈ actions
  | .serialised bytes => Serialised format actions bytes
  | .writing file bytes offset =>
      Serialised format actions bytes ∧
        fs.Drafted path.tmp file bytes offset
  | .written =>
      ∃ bytes, fs.read path.tmp = some bytes ∧
        Serialised format actions bytes
  | .finished => True

theorem PhaseSound.mono {format : MailboxFormat Snapshot Mailbox}
    {path : Path} {actions : List (FileAction Snapshot)}
    {before after : FileSystem Path} {writer : Writer}
    {phase : WriterPhase Snapshot}
    (sound : PhaseSound format path actions before writer phase)
    (unchanged : phase.openedTmp = true → after = before)
    (action : FileAction Snapshot) :
    PhaseSound format path (actions ++ [action]) after writer phase := by
  cases phase with
  | idle => trivial
  | snapped snap => exact List.mem_append_left _ sound
  | serialised bytes => exact Serialised.mono sound action
  | writing file bytes offset =>
      rw [unchanged rfl]
      exact ⟨sound.1.mono action, sound.2⟩
  | written =>
      rw [unchanged rfl]
      obtain ⟨bytes, read, serialised⟩ := sound
      exact ⟨bytes, read, serialised.mono action⟩
  | finished => trivial

structure Sound (format : MailboxFormat Snapshot Mailbox) (path : Path)
    (before : Option (List UInt8)) (actions : List (FileAction Snapshot))
    (state : MailboxFiles Snapshot) : Prop where
  whole : Whole format actions before (state.fs.read path)
  phases : ∀ writer,
    PhaseSound format path actions state.fs writer (state.phase writer)
  alone : ∀ {first second : Writer},
    (state.phase first).openedTmp = true →
      (state.phase second).openedTmp = true → first = second

section Steps

variable {format : MailboxFormat Snapshot Mailbox} {path : Path}
  {before : Option (List UInt8)} {actions : List (FileAction Snapshot)}
  {state : MailboxFiles Snapshot}

theorem Sound.advance (sound : Sound format path before actions state)
    {writer : Writer} {phase : WriterPhase Snapshot} {fs : FileSystem Path}
    {action : FileAction Snapshot}
    (whole : Whole format (actions ++ [action]) before (fs.read path))
    (mine : PhaseSound format path (actions ++ [action]) fs writer phase)
    (unchanged : fs = state.fs ∨ ∀ other, other ≠ writer →
      (state.phase other).openedTmp = false)
    (exclusive : phase.openedTmp = true → ∀ other, other ≠ writer →
      (state.phase other).openedTmp = false) :
    Sound format path before (actions ++ [action])
      { state.setPhase writer phase with fs } := by
  refine ⟨whole, ?_, ?_⟩
  · intro other
    simp only [setPhase]
    by_cases same : other = writer
    · subst other
      rw [Function.update_self]
      exact mine
    · rw [Function.update_of_ne same]
      refine (sound.phases other).mono ?_ action
      intro opened
      cases unchanged with
      | inl kept => exact kept
      | inr unopened =>
          rw [unopened other same] at opened
          cases opened
  · intro first second openedFirst openedSecond
    simp only [setPhase] at openedFirst openedSecond
    by_cases isFirst : first = writer
    · by_cases isSecond : second = writer
      · exact isFirst.trans isSecond.symm
      · subst first
        rw [Function.update_self] at openedFirst
        rw [Function.update_of_ne isSecond,
          exclusive openedFirst second isSecond] at openedSecond
        cases openedSecond
    · rw [Function.update_of_ne isFirst] at openedFirst
      by_cases isSecond : second = writer
      · subst second
        rw [Function.update_self] at openedSecond
        rw [exclusive openedSecond first isFirst] at openedFirst
        cases openedFirst
      · rw [Function.update_of_ne isSecond] at openedSecond
        exact sound.alone openedFirst openedSecond

theorem Sound.others (sound : Sound format path before actions state)
    (writer : Writer) (opened : (state.phase writer).openedTmp = true) :
    ∀ other, other ≠ writer → (state.phase other).openedTmp = false := by
  intro other ne
  cases openedOther : (state.phase other).openedTmp with
  | false => rfl
  | true => exact absurd (sound.alone openedOther opened) ne

private theorem ended_openedTmp (writer : Writer) :
    (writer.ended : WriterPhase Snapshot).openedTmp = false := by
  cases writer <;> rfl

private theorem ended_sound (fs : FileSystem Path) (writer : Writer) :
    PhaseSound format path actions fs writer writer.ended := by
  cases writer <;> trivial

theorem Sound.of_stepped (separate : path.tmp ≠ path)
    (sound : Sound format path before actions state)
    {action : FileAction Snapshot} {after : MailboxFiles Snapshot}
    (turns : state.TakesTurns action)
    (stepped : Stepped format path state action after) :
    Sound format path before (actions ++ [action]) after := by
  have whole := sound.whole.mono action
  cases stepped with
  | snapshot snap =>
      exact sound.advance whole
        (List.mem_append_right _ List.mem_cons_self) (.inl rfl) nofun
  | @serialise writer snap bytes taken encoded =>
      have mine := sound.phases writer
      rw [taken] at mine
      exact sound.advance whole
        ⟨writer, snap, List.mem_append_left _ mine, encoded⟩
        (.inl rfl) nofun
  | @openTmp writer bytes ready =>
      have mine := sound.phases writer
      rw [ready] at mine
      refine sound.advance ?_ ?_ (.inr turns) (fun _ => turns)
      · rw [FileSystem.read_openTruncate_of_ne _ separate.symm]
        exact whole
      · exact ⟨Serialised.mono mine _,
          state.fs.drafted_openTruncate path.tmp bytes⟩
  | @write writer file bytes offset count opened fits =>
      have mine := sound.phases writer
      have others := sound.others writer
      rw [opened] at mine others
      obtain ⟨serialised, drafted⟩ := mine
      refine sound.advance ?_ ?_ (.inr (others rfl)) (fun _ => others rfl)
      · rw [drafted.read_write_of_ne separate.symm]
        exact whole
      · exact ⟨serialised.mono _, drafted.write fits⟩
  | @close writer file bytes opened =>
      have mine := sound.phases writer
      have others := sound.others writer
      rw [opened] at mine others
      obtain ⟨serialised, drafted⟩ := mine
      exact sound.advance whole
        ⟨bytes, drafted.read_complete, serialised.mono _⟩ (.inl rfl)
        (fun _ => others rfl)
  | @rename writer fs closed renamed =>
      have mine := sound.phases writer
      have others := sound.others writer
      rw [closed] at mine others
      obtain ⟨bytes, read, serialised⟩ := mine
      refine sound.advance ?_ (ended_sound fs writer) (.inr (others rfl)) ?_
      · rw [FileSystem.read_rename renamed]
        exact .inr ⟨bytes, read, serialised.mono _⟩
      · rw [ended_openedTmp]
        exact nofun
  | @fail writer =>
      refine sound.advance whole (ended_sound _ writer) (.inl rfl) ?_
      rw [ended_openedTmp]
      exact nofun

end Steps

private theorem load_of_whole {format : MailboxFormat Snapshot Mailbox}
    {path : Path} {actions : List (FileAction Snapshot)}
    {before after : FileSystem Path} {nowUnix : Nat}
    (whole : Whole format actions (before.read path) (after.read path))
    (sound : (loadMailbox format (some (readFile before path))
      nowUnix).2 ≠ .corrupt) :
    (loadMailbox format (some (readFile after path)) nowUnix).2 ≠
      .corrupt := by
  cases whole with
  | inl same =>
      rw [readFile, same]
      exact sound
  | inr replaced =>
      obtain ⟨bytes, read, writer, snap, _, encoded⟩ := replaced
      rw [readFile, read]
      simp only [loadMailbox, format.fromSlice_toVecNamed encoded]
      exact nofun

/-! ## A save that nothing disturbs -/

/-- The bytes go out in one write, if there are any. -/
def saveActions (writer : Writer) (length : Nat) :
    List (FileAction Snapshot) :=
  [.serialise writer, .openTmp writer] ++
    (if length = 0 then [] else [.write writer length]) ++
    [.close writer, .rename writer]

section Save

variable {format : MailboxFormat Snapshot Mailbox} {path : Path}
  {state start : MailboxFiles Snapshot} {actions : List (FileAction Snapshot)}
  {writer : Writer} {bytes : List UInt8}

@[simp] theorem phase_setPhase (state : MailboxFiles Snapshot)
    (writer : Writer) (phase : WriterPhase Snapshot) :
    (state.setPhase writer phase).phase writer = phase :=
  Function.update_self _ _ _

theorem opens (path : Path) {snap : Snapshot}
    (ready : state.phase writer = .snapped snap)
    (encoded : format.toVecNamed snap = some bytes)
    (alone : ∀ other, other ≠ writer →
      (state.phase other).openedTmp = false) :
    ∃ after file, Trace (step format path) TakesTurns state
        [.serialise writer, .openTmp writer] after ∧
      after.phase writer = .writing file bytes 0 ∧
      after.fs.Drafted path.tmp file bytes 0 := by
  have serialised : state.step format path (.serialise writer) =
      some (state.setPhase writer (.serialised bytes)) := by
    simp only [step, ready, encoded]
  have turns : (state.setPhase writer (.serialised bytes)).TakesTurns
      (.openTmp writer) := by
    intro other ne
    simp only [setPhase, Function.update_of_ne ne]
    exact alone other ne
  have opened : (state.setPhase writer (.serialised bytes)).step format path
      (.openTmp writer) =
        some { (state.setPhase writer (.serialised bytes)).setPhase writer
            (.writing (state.fs.openTruncate path.tmp).1 bytes 0) with
          fs := (state.fs.openTruncate path.tmp).2 } := by
    simp only [step, phase_setPhase]
    rfl
  exact ⟨_, _, .snoc (.snoc (.nil state) trivial serialised) turns opened,
    phase_setPhase _ writer _, state.fs.drafted_openTruncate path.tmp bytes⟩

theorem writes {file : Nat}
    (earlier : Trace (step format path) TakesTurns start actions state)
    (opened : state.phase writer = .writing file bytes 0)
    (drafted : state.fs.Drafted path.tmp file bytes 0) :
    ∃ after, Trace (step format path) TakesTurns start
        (actions ++ if bytes.length = 0 then []
          else [.write writer bytes.length]) after ∧
      after.phase writer = .writing file bytes bytes.length ∧
      after.fs.Drafted path.tmp file bytes bytes.length := by
  by_cases empty : bytes.length = 0
  · rw [if_pos empty, List.append_nil, empty]
    exact ⟨state, earlier, opened, drafted⟩
  · rw [if_neg empty]
    have fits : 0 < bytes.length ∧ bytes.length ≤ bytes.length :=
      ⟨Nat.pos_of_ne_zero empty, Nat.le_refl _⟩
    have written : state.step format path (.write writer bytes.length) =
        some { state.setPhase writer (.writing file bytes bytes.length) with
          fs := state.fs.write file 0
            ((bytes.drop 0).take bytes.length) } := by
      simp only [step, opened, Nat.zero_add, if_pos fits]
    have whole := drafted.write (Nat.le_of_eq (Nat.zero_add bytes.length))
    rw [Nat.zero_add] at whole
    exact ⟨_, .snoc earlier trivial written, phase_setPhase _ writer _, whole⟩

theorem saves (path : Path) {snap : Snapshot}
    (ready : state.phase writer = .snapped snap)
    (encoded : format.toVecNamed snap = some bytes)
    (alone : ∀ other, other ≠ writer →
      (state.phase other).openedTmp = false) :
    ∃ after, Trace (step format path) TakesTurns state
        (saveActions writer bytes.length) after ∧
      after.fs.read path = some bytes := by
  obtain ⟨_, file, earlier, opened, drafted⟩ := opens path ready encoded alone
  obtain ⟨whole, earlier, opened, drafted⟩ := writes earlier opened drafted
  have closed : whole.step format path (.close writer) =
      some (whole.setPhase writer .written) := by
    simp only [step, opened, if_true]
  obtain ⟨fs, renamed⟩ := FileSystem.rename_of_read path drafted.read_complete
  have moved : (whole.setPhase writer .written).step format path
      (.rename writer) =
        some { (whole.setPhase writer .written).setPhase writer
          writer.ended with fs } := by
    simp only [step, phase_setPhase]
    rw [show (whole.setPhase writer .written).fs = whole.fs from rfl, renamed]
  have complete : Trace (step format path) TakesTurns state
      (_ ++ [.close writer] ++ [.rename writer]) _ :=
    .snoc (.snoc earlier trivial closed) trivial moved
  rw [List.append_assoc] at complete
  exact ⟨_, complete,
    (FileSystem.read_rename renamed).trans drafted.read_complete⟩

end Save

/-- At every moment of a run in which the writers take turns the file is what
it was or one whole snapshot, and the next start does not find it corrupt. -/
theorem mailbox_file_never_torn (format : MailboxFormat Snapshot Mailbox)
    (path : Path) (separate : path.extension ≠ some "tmp")
    (fs : FileSystem Path) {actions : List (FileAction Snapshot)}
    {state : MailboxFiles Snapshot}
    (trace : Trace (step format path) TakesTurns (start fs) actions state) :
    Whole format actions (fs.read path) (state.fs.read path) ∧
      ∀ nowUnix,
        (loadMailbox format (some (readFile fs path)) nowUnix).2 ≠
            .corrupt →
          (loadMailbox format (some (readFile state.fs path)) nowUnix).2 ≠
            .corrupt := by
  have sound : Sound format path (fs.read path) actions state := by
    apply trace.invariant fun actions state =>
      Sound format path (fs.read path) actions state
    · exact ⟨.inl rfl, fun _ => trivial, nofun⟩
    · intro done before after action sound turns taken
      exact sound.of_stepped (Path.tmp_ne separate) turns
        (stepped_of_step taken)
  exact ⟨sound.whole, fun _ => load_of_whole sound.whole⟩

def packByte (byte : UInt8) : List UInt8 :=
  if byte < 128 then [byte] else [0xcc, byte]

def unpackBytes : Nat → List UInt8 → Option (List UInt8)
  | 0, _ => some []
  | count + 1, byte :: rest =>
      if byte < 128 then (unpackBytes count rest).map (byte :: ·)
      else if byte = 0xcc then
        match rest with
        | [] => none
        | byte :: rest => (unpackBytes count rest).map (byte :: ·)
      else none
  | _ + 1, [] => none

private theorem unpackBytes_flatMap (snap : List UInt8) :
    unpackBytes snap.length (snap.flatMap packByte) = some snap := by
  induction snap with
  | nil => rfl
  | cons byte snap ih =>
      rw [List.flatMap_cons, List.length_cons, packByte]
      split
      · rename_i small
        simp only [List.cons_append, List.nil_append, unpackBytes,
          if_pos small, ih, Option.map_some]
      · have marker : ¬ (0xcc : UInt8) < 128 := by decide
        simp only [List.cons_append, List.nil_append, unpackBytes,
          if_neg marker, if_true, ih, Option.map_some]

/-- Snapshots of at most 15 bytes as MessagePack arrays. As in `rmp_serde`,
what follows the array is not looked at. -/
def sampleFormat : MailboxFormat (List UInt8) (List UInt8) where
  toVecNamed snap :=
    if snap.length < 16 then
      some (UInt8.ofNat (0x90 + snap.length) :: snap.flatMap packByte)
    else none
  fromSlice
    | [] => none
    | marker :: rest =>
        if 0x90 ≤ marker.toNat ∧ marker.toNat < 0xa0 then
          unpackBytes (marker.toNat - 0x90) rest
        else none
  fromSnapshot snap _ := snap
  withDefaults := []
  fromSlice_toVecNamed := by
    intro snap bytes encoded
    split at encoded
    · rename_i short
      cases encoded
      have marker : (UInt8.ofNat (0x90 + snap.length)).toNat =
          0x90 + snap.length :=
        UInt8.toNat_ofNat_of_lt' (Nat.lt_trans (Nat.add_lt_add_left short _)
          (by decide))
      simp only [marker]
      rw [if_pos ⟨Nat.le_add_right _ _, Nat.add_lt_add_left short _⟩,
        Nat.add_sub_cancel_left, unpackBytes_flatMap]
    · cases encoded

def samplePath : Path := ⟨"", "mailbox", some "bin"⟩

def sampleRun (actions : List (FileAction (List UInt8))) :
    MailboxFiles (List UInt8) :=
  (Trace.exec (step sampleFormat samplePath) (start .empty) actions).getD
    (start .empty)

/-- The maintenance task saves one snapshot and starts on the next, while the
shutdown save has serialised its own. -/
def sampleTurns : List (FileAction (List UInt8)) :=
  [.snapshot .shutdown [9], .serialise .shutdown,
    .snapshot .maintenance [1, 2, 3], .serialise .maintenance,
    .openTmp .maintenance, .write .maintenance 2, .write .maintenance 2,
    .close .maintenance, .rename .maintenance, .openTmp .shutdown,
    .write .shutdown 1]

set_option maxRecDepth 8192 in
private theorem sampleTurns_trace :
    Trace (step sampleFormat samplePath) TakesTurns (start .empty) sampleTurns
      (sampleRun sampleTurns) := by
  refine Trace.of_permitted ?_ (by decide +kernel)
  refine ⟨trivial, trivial, trivial, trivial, ?_, trivial, trivial, trivial,
    trivial, ?_, trivial, trivial⟩
  · intro other ne
    cases other with
    | maintenance => exact absurd rfl ne
    | shutdown => rfl
  · intro other ne
    cases other with
    | maintenance => rfl
    | shutdown => exact absurd rfl ne

theorem sampleTurns_whole :
    (sampleRun sampleTurns).fs.read samplePath = some [0x93, 1, 2, 3] ∧
      Whole sampleFormat sampleTurns none
        ((sampleRun sampleTurns).fs.read samplePath) :=
  ⟨by decide +kernel, (mailbox_file_never_torn sampleFormat samplePath
    (by decide) .empty sampleTurns_trace).1⟩

/-- The shutdown save opens and renames the temporary file while the
maintenance task still has a byte to write to it. -/
def sampleOverlap : List (FileAction (List UInt8)) :=
  [.snapshot .maintenance [1, 200], .serialise .maintenance,
    .openTmp .maintenance, .write .maintenance 3,
    .snapshot .shutdown [7, 8, 9, 10], .serialise .shutdown,
    .openTmp .shutdown, .write .shutdown 5, .close .shutdown,
    .rename .shutdown, .write .maintenance 1, .close .maintenance,
    .rename .maintenance]

private theorem sampleOverlap_trace :
    Trace (step sampleFormat samplePath) (fun _ _ => True) (start .empty)
      sampleOverlap (sampleRun sampleOverlap) := by
  exact Trace.of_possible (by decide +kernel)

/-- What is left is neither the file before nor a snapshot, and the next start
drops the whole store: the fourth byte is no integer. -/
theorem overlapping_writers_tear_mailbox_file :
    ∃ state : MailboxFiles (List UInt8),
      Trace (step sampleFormat samplePath) (fun _ _ => True) (start .empty)
        sampleOverlap state ∧
      state.fs.read samplePath = some [0x94, 7, 8, 0xc8, 10] ∧
      ¬ Whole sampleFormat sampleOverlap
        (FileSystem.empty.read samplePath) (state.fs.read samplePath) ∧
      (loadMailbox sampleFormat (some (readFile state.fs samplePath)) 0).2 =
        .corrupt := by
  have corrupt : (loadMailbox sampleFormat (some (readFile
      (sampleRun sampleOverlap).fs samplePath)) 0).2 = .corrupt := by
    decide +kernel
  refine ⟨_, sampleOverlap_trace, by decide +kernel, ?_, corrupt⟩
  exact fun whole => load_of_whole whole (by decide) corrupt

end MailboxFiles

end GothamRelay
