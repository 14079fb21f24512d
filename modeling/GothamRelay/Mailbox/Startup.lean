import Mathlib.Tactic.Abel
import GothamRelay.Mailbox.Snapshot
import GothamRelay.Mailbox.Store

namespace GothamRelay

open Data

/-! The mailbox store from one start of the relay to its shutdown: what
`load_mailbox` makes of the file, and what the maintenance task and the
shutdown save put in its place. -/

/-- A snapshot holds what the mailbox stores, the default mailbox is empty, and
an empty mailbox can be serialised. -/
structure PersistentMailbox (Id Snapshot : Type) extends MailboxStore Id where
  format : MailboxFormat Snapshot Mailbox
  snapshot : Mailbox → Snapshot
  entries : Snapshot → Id → Multiset Stored
  entries_snapshot : ∀ mailbox id,
    entries (snapshot mailbox) id = stored mailbox id
  withDefaults_empty : ∀ id, stored format.withDefaults id = 0
  serialises_empty : ∀ mailbox, (∀ id, stored mailbox id = 0) →
    (format.toVecNamed (snapshot mailbox)).isSome

variable {Id Snapshot : Type}

/-- The unexpired envelopes of a snapshot that `from_snapshot` does not take
over. -/
def PersistentMailbox.refused (api : PersistentMailbox Id Snapshot)
    (snap : Snapshot) (started : Nat) (id : Id) : Multiset Stored :=
  (api.entries snap id).filter (fun entry => entry.unexpired started) -
    api.stored (api.format.fromSnapshot snap started) id

def FileAction.saves : FileAction Snapshot → Bool
  | .snapshot _ _ => false
  | _ => true

/-- The mailbox, the files with the two callers of `persist_mailbox`, and what
was fetched so far. The clock is the latest time at which mail was pruned. -/
structure MailboxStart (api : PersistentMailbox Id Snapshot) where
  mailbox : api.Mailbox
  files : MailboxFiles Snapshot
  fetched : Id → Multiset Stored
  clock : Nat

inductive StartAction (Id Snapshot : Type) where
  | deposit (id : Id) (sealed : Envelope) (now ttlSecs : Nat)
  | fetch (id : Id) (now budget : Nat)
  | tick (now : Nat)
  | shutdown
  | save (action : FileAction Snapshot)

namespace MailboxStart

variable {api : PersistentMailbox Id Snapshot}

/-- What `std::fs::read` returns, which may fail on a file that is there. -/
def readResult (fs : FileSystem Path) (path : Path) :
    Option IoError → Except IoError (List UInt8)
  | none => readFile fs path
  | some error => .error error

def boot (api : PersistentMailbox Id Snapshot) (path : Path)
    (fs : FileSystem Path) (failure : Option IoError) (started : Nat) :
    MailboxStart api where
  mailbox :=
    (loadMailbox api.format (some (readResult fs path failure)) started).1
  files := .start fs
  fetched _ := 0
  clock := started

def fileStep (path : Path) (state : MailboxStart api)
    (action : FileAction Snapshot) : Option (MailboxStart api) :=
  (state.files.step api.format path action).map fun files =>
    { state with files }

def step [DecidableEq Id] (path : Path) (state : MailboxStart api) :
    StartAction Id Snapshot → Option (MailboxStart api)
  | .deposit id sealed now ttlSecs =>
      some { state with
        mailbox := (api.deposit state.mailbox id sealed now ttlSecs).2 }
  | .fetch id now budget =>
      some { state with
        mailbox := (api.fetchBatch state.mailbox id now budget).2
        fetched := Function.update state.fetched id (state.fetched id +
          api.selected state.mailbox id now budget) }
  | .tick now =>
      let pruned := { state with
        mailbox := api.pruneExpired state.mailbox now
        clock := max state.clock now }
      pruned.fileStep path
        (.snapshot .maintenance (api.snapshot pruned.mailbox))
  | .shutdown =>
      state.fileStep path (.snapshot .shutdown (api.snapshot state.mailbox))
  | .save action =>
      if action.saves then state.fileStep path action else none

def TakesTurns (state : MailboxStart api) : StartAction Id Snapshot → Prop
  | .save action => state.files.TakesTurns action
  | _ => True

instance decidableTakesTurns (state : MailboxStart api) :
    ∀ action, Decidable (state.TakesTurns action)
  | .save action => state.files.decidableTakesTurns action
  | .deposit _ _ _ _ => isTrue trivial
  | .fetch _ _ _ => isTrue trivial
  | .tick _ => isTrue trivial
  | .shutdown => isTrue trivial

def onDisk (path : Path) (state : MailboxStart api) (id : Id) :
    Multiset Stored :=
  match (state.files.fs.read path).bind api.format.fromSlice with
  | some snap => api.entries snap id
  | none => 0

/-- Every envelope of the first snapshot that has not expired is among the
given ones, was fetched, or is refused by the default policy. -/
def Covered (first : Snapshot) (started : Nat) (state : MailboxStart api)
    (held : Id → Multiset Stored) : Prop :=
  ∀ id, (api.entries first id).filter
      (fun entry => entry.unexpired state.clock) ≤
    held id + state.fetched id + api.refused first started id

def Intact (path : Path) (first : Snapshot) (started : Nat)
    (state : MailboxStart api) : Prop :=
  state.Covered first started (state.onDisk path)

/-- `taken` are the steps of the two callers so far. -/
structure Safe (path : Path) (bytes : List UInt8) (first : Snapshot)
    (started : Nat) (taken : List (FileAction Snapshot))
    (state : MailboxStart api) : Prop where
  sound : state.files.Sound api.format path (some bytes) taken
  mailbox : state.Covered first started (api.stored state.mailbox)
  snapshots : ∀ {writer snap}, .snapshot writer snap ∈ taken →
    state.Covered first started (api.entries snap)

section Steps

variable {path : Path} {bytes : List UInt8} {first : Snapshot} {started : Nat}
  {taken : List (FileAction Snapshot)} {before after : MailboxStart api}

private theorem filter_unexpired_le (entries : Multiset Stored)
    {now later : Nat} (order : now ≤ later) :
    entries.filter (fun entry => entry.unexpired later) ≤
      entries.filter (fun entry => entry.unexpired now) := by
  apply Multiset.monotone_filter_right
  intro entry live
  simp only [Stored.unexpired, decide_eq_true_eq] at live ⊢
  omega

theorem Covered.mono {held more : Id → Multiset Stored}
    (covered : before.Covered first started held)
    (order : before.clock ≤ after.clock)
    (fetched : ∀ id, before.fetched id ≤ after.fetched id)
    (kept : ∀ id, held id ≤ more id) :
    after.Covered first started more := by
  intro id
  refine (filter_unexpired_le _ order).trans ((covered id).trans ?_)
  gcongr
  · exact kept id
  · exact fetched id

private theorem Safe.of_mailbox
    (safe : before.Safe path bytes first started taken)
    (order : before.clock ≤ after.clock)
    (fetched : ∀ id, before.fetched id ≤ after.fetched id)
    (files : after.files = before.files)
    (mailbox : after.Covered first started (api.stored after.mailbox)) :
    after.Safe path bytes first started taken where
  sound := by
    rw [files]
    exact safe.sound
  mailbox := mailbox
  snapshots member := (safe.snapshots member).mono order fetched fun _ => le_rfl

theorem Safe.deposit (safe : before.Safe path bytes first started taken)
    (id : Id) (sealed : Envelope) (now ttlSecs : Nat) :
    Safe path bytes first started taken { before with
      mailbox := (api.deposit before.mailbox id sealed now ttlSecs).2 } := by
  refine safe.of_mailbox le_rfl (fun _ => le_rfl) rfl ?_
  apply safe.mailbox.mono le_rfl (fun _ => le_rfl)
  intro other
  by_cases same : other = id
  · subst other
    cases verdict : (api.deposit before.mailbox id sealed now ttlSecs).1 with
    | ok done =>
        rw [api.deposit_ok verdict]
        exact Multiset.le_cons_self _ _
    | error error => rw [api.deposit_error verdict]
  · rw [api.deposit_other same]

theorem Safe.fetch [DecidableEq Id]
    (safe : before.Safe path bytes first started taken) (id : Id)
    (now budget : Nat) :
    Safe path bytes first started taken { before with
      mailbox := (api.fetchBatch before.mailbox id now budget).2
      fetched := Function.update before.fetched id (before.fetched id +
        api.selected before.mailbox id now budget) } := by
  refine safe.of_mailbox le_rfl ?_ rfl ?_
  · intro other
    by_cases same : other = id
    · subst other
      simp only [Function.update_self]
      exact Multiset.le_add_right _ _
    · simp only [Function.update_of_ne same, le_rfl]
  · intro other
    have covered := safe.mailbox other
    by_cases same : other = id
    · subst other
      rw [api.fetch_removes before.mailbox id now budget] at covered
      refine covered.trans (le_of_eq ?_)
      simp only [Function.update_self]
      abel
    · rw [← api.fetch_other same] at covered
      simp only [Function.update_of_ne same]
      exact covered

theorem Safe.prune (safe : before.Safe path bytes first started taken)
    (now : Nat) :
    Safe path bytes first started taken { before with
      mailbox := api.pruneExpired before.mailbox now
      clock := max before.clock now } := by
  refine safe.of_mailbox (le_max_left _ _) (fun _ => le_rfl) rfl ?_
  intro id
  have live := Multiset.filter_le_filter
    (fun entry => entry.unexpired now = true) (safe.mailbox id)
  rw [Multiset.filter_add, Multiset.filter_add, Multiset.filter_filter,
    ← api.prune_stored] at live
  refine le_trans (le_trans (le_of_eq ?_) live) ?_
  · apply Multiset.filter_congr
    intro entry _
    simp only [Stored.unexpired, decide_eq_true_eq]
    omega
  · gcongr
    · exact Multiset.filter_le _ _
    · exact Multiset.filter_le _ _

private theorem Safe.fileStep (separate : path.extension ≠ some "tmp")
    (safe : before.Safe path bytes first started taken)
    {action : FileAction Snapshot}
    (stepped : before.fileStep path action = some after)
    (turns : before.files.TakesTurns action)
    (snapped : ∀ {writer snap}, action = .snapshot writer snap →
      snap = api.snapshot before.mailbox) :
    after.Safe path bytes first started (taken ++ [action]) := by
  obtain ⟨files, advanced, rfl⟩ := Option.map_eq_some_iff.mp stepped
  refine ⟨safe.sound.of_stepped (Path.tmp_ne separate) turns
    (MailboxFiles.stepped_of_step advanced), safe.mailbox, ?_⟩
  intro writer snap member id
  rcases List.mem_append.mp member with earlier | last
  · exact safe.snapshots earlier id
  · rw [snapped (List.mem_singleton.mp last).symm, api.entries_snapshot]
    exact safe.mailbox id

theorem Safe.of_step [DecidableEq Id] (separate : path.extension ≠ some "tmp")
    (safe : before.Safe path bytes first started taken)
    {action : StartAction Id Snapshot} (turns : before.TakesTurns action)
    (stepped : before.step path action = some after) :
    ∃ more, after.Safe path bytes first started more := by
  cases action with
  | deposit id sealed now ttlSecs =>
      cases stepped
      exact ⟨taken, safe.deposit id sealed now ttlSecs⟩
  | fetch id now budget =>
      cases stepped
      exact ⟨taken, safe.fetch id now budget⟩
  | tick now =>
      refine ⟨_, (safe.prune now).fileStep separate stepped trivial ?_⟩
      intro writer snap same
      cases same
      rfl
  | shutdown =>
      refine ⟨_, safe.fileStep separate stepped trivial ?_⟩
      intro writer snap same
      cases same
      rfl
  | save action =>
      simp only [step] at stepped
      split at stepped
      · rename_i saving
        refine ⟨_, safe.fileStep separate stepped turns ?_⟩
        intro writer snap same
        rw [same] at saving
        cases saving
      · cases stepped

theorem Safe.intact (safe : before.Safe path bytes first started taken)
    (valid : api.format.fromSlice bytes = some first) :
    before.Intact path first started := by
  intro id
  rcases safe.sound.whole with same | ⟨written, read, writer, snap, member,
    encoded⟩
  · rw [onDisk, same, Option.bind_some, valid]
    exact (Multiset.filter_le _ _).trans
      ((Multiset.le_add_right _ _).trans (Multiset.le_add_right _ _))
  · rw [onDisk, read, Option.bind_some,
      api.format.fromSlice_toVecNamed encoded]
    exact safe.snapshots member id

private theorem clock_le_of_step [DecidableEq Id]
    {action : StartAction Id Snapshot}
    (stepped : before.step path action = some after) :
    before.clock ≤ after.clock := by
  cases action with
  | deposit id sealed now ttlSecs =>
      cases stepped
      exact le_rfl
  | fetch id now budget =>
      cases stepped
      exact le_rfl
  | tick now =>
      obtain ⟨files, _, rfl⟩ := Option.map_eq_some_iff.mp stepped
      exact le_max_left _ _
  | shutdown =>
      obtain ⟨files, _, rfl⟩ := Option.map_eq_some_iff.mp stepped
      exact le_rfl
  | save action =>
      simp only [step] at stepped
      split at stepped
      · obtain ⟨files, _, rfl⟩ := Option.map_eq_some_iff.mp stepped
        exact le_rfl
      · cases stepped

end Steps

private theorem safe_boot {path : Path} {fs : FileSystem Path}
    {bytes : List UInt8} (found : fs.read path = some bytes) {first : Snapshot}
    (valid : api.format.fromSlice bytes = some first) (started : Nat) :
    (boot api path fs none started).Safe path bytes first started [] := by
  refine ⟨?_, ?_, ?_⟩
  · refine ⟨.inl found, fun _ => trivial, ?_⟩
    intro writer other opened
    cases opened
  · intro id
    simp only [boot, readResult, readFile, found, loadMailbox, valid, add_zero]
    exact le_add_tsub
  · intro writer snap member
    exact absurd member List.not_mem_nil

private theorem trace_save [DecidableEq Id] {path : Path}
    {start before : MailboxStart api}
    {done : List (StartAction Id Snapshot)}
    (earlier : Trace (step path) TakesTurns start done before)
    {actions : List (FileAction Snapshot)} {files : MailboxFiles Snapshot}
    (run : Trace (MailboxFiles.step api.format path) MailboxFiles.TakesTurns
      before.files actions files)
    (saving : ∀ action ∈ actions, action.saves = true) :
    Trace (step path) TakesTurns start (done ++ actions.map .save)
      { before with files } := by
  induction run with
  | nil =>
      rw [List.map_nil, List.append_nil]
      exact earlier
  | @snoc _ _ _ action _ turns advanced ih =>
      have saved := saving action (List.mem_append_right _ List.mem_cons_self)
      have sofar := ih
        fun other member => saving other (List.mem_append_left _ member)
      rw [List.map_append, List.map_singleton, ← List.append_assoc]
      refine .snoc sofar turns ?_
      simp only [step, if_pos saved, fileStep, advanced, Option.map_some]

private theorem saves_of_mem_saveActions {writer : Writer} {length : Nat}
    {action : FileAction Snapshot}
    (member : action ∈ MailboxFiles.saveActions writer length) :
    action.saves = true := by
  simp only [MailboxFiles.saveActions, List.mem_append, List.mem_cons,
    List.not_mem_nil, or_false] at member
  rcases member with ((rfl | rfl) | written) | rfl | rfl
  · rfl
  · rfl
  · split at written
    · exact absurd written List.not_mem_nil
    · rw [List.mem_singleton.mp written]
      rfl
  · rfl
  · rfl

private theorem onDisk_of_failed_read [DecidableEq Id]
    (api : PersistentMailbox Id Snapshot) (path : Path) (fs : FileSystem Path)
    (error : IoError) (started : Nat) :
    ∃ actions state, Trace (step path) TakesTurns
        (boot api path fs (some error) started) actions state ∧
      state.clock = started ∧ (∀ id, state.fetched id = 0) ∧
      ∀ id, state.onDisk path id = 0 := by
  have empty : ∀ id, api.stored
      (api.pruneExpired api.format.withDefaults started) id = 0 := by
    intro id
    rw [api.prune_stored, api.withDefaults_empty, Multiset.filter_zero]
  obtain ⟨encoded, serialised⟩ := Option.isSome_iff_exists.mp
    (api.serialises_empty _ empty)
  have ticked : Trace (step path) TakesTurns
      (boot api path fs (some error) started) [.tick started] _ :=
    .snoc (.nil _) trivial rfl
  have alone : ∀ other, other ≠ Writer.maintenance →
      (((MailboxFiles.start fs).setPhase .maintenance (.snapped (api.snapshot
        (api.pruneExpired api.format.withDefaults started)))).phase
          other).openedTmp = false := by
    intro other ne
    simp only [MailboxFiles.setPhase, Function.update_of_ne ne]
    rfl
  obtain ⟨files, run, read⟩ := MailboxFiles.saves path
    (MailboxFiles.phase_setPhase _ _ _) serialised alone
  refine ⟨_, _, trace_save ticked run fun _ => saves_of_mem_saveActions,
    max_self started, fun _ => rfl, ?_⟩
  intro id
  simp only [onDisk, read, Option.bind_some,
    api.format.fromSlice_toVecNamed serialised, api.entries_snapshot, empty]

/-- Whatever happens until the relay stops, the envelopes of a valid file are
kept exactly when the file could be read, or when the default policy refuses all
that has not expired. -/
theorem mailbox_survives_start_iff [DecidableEq Id]
    (api : PersistentMailbox Id Snapshot) {path : Path}
    (separate : path.extension ≠ some "tmp") {fs : FileSystem Path}
    {bytes : List UInt8} (found : fs.read path = some bytes)
    {first : Snapshot} (valid : api.format.fromSlice bytes = some first)
    (failure : Option IoError) (started : Nat) :
    (∀ actions state, Trace (step path) TakesTurns
        (boot api path fs failure started) actions state →
        state.Intact path first started) ↔
      failure = none ∨ ∀ id,
        (api.entries first id).filter
            (fun entry => entry.unexpired started) ≤
          api.refused first started id := by
  constructor
  · intro intact
    cases failure with
    | none => exact .inl rfl
    | some error =>
        right
        intro id
        obtain ⟨actions, state, trace, clock, fetched, lost⟩ :=
          onDisk_of_failed_read api path fs error started
        have kept := intact _ state trace id
        rw [clock, fetched, lost, zero_add, zero_add] at kept
        exact kept
  · rintro (rfl | refused) actions state trace
    · have safe : ∃ taken, state.Safe path bytes first started taken := by
        apply trace.invariant fun _ state =>
          ∃ taken, state.Safe path bytes first started taken
        · exact ⟨[], safe_boot found valid started⟩
        · rintro done before after action ⟨taken, safe⟩ turns stepped
          exact safe.of_step separate turns stepped
      obtain ⟨taken, safe⟩ := safe
      exact safe.intact valid
    · have order : started ≤ state.clock := by
        apply trace.invariant fun _ state => started ≤ state.clock
        · exact le_rfl
        · intro done before after action order _ stepped
          exact order.trans (clock_le_of_step stepped)
      intro id
      refine ((filter_unexpired_le _ order).trans (refused id)).trans ?_
      exact Multiset.le_add_left _ _

def encodeEntries : List (UInt8 × Stored) → Option (List UInt8)
  | [] => some []
  | (id, ⟨[byte], expiresAt⟩) :: entries =>
      if expiresAt < 256 then
        (encodeEntries entries).map fun bytes =>
          id :: byte :: UInt8.ofNat expiresAt :: bytes
      else none
  | _ :: _ => none

def decodeEntries : List UInt8 → Option (List (UInt8 × Stored))
  | [] => some []
  | id :: byte :: expiresAt :: bytes =>
      (decodeEntries bytes).map fun entries =>
        (id, ⟨[byte], expiresAt.toNat⟩) :: entries
  | _ => none

private theorem decodeEntries_encodeEntries {entries : List (UInt8 × Stored)}
    {bytes : List UInt8} (encoded : encodeEntries entries = some bytes) :
    decodeEntries bytes = some entries := by
  fun_induction encodeEntries entries generalizing bytes with
  | case1 =>
      cases encoded
      rfl
  | case2 id byte expiresAt entries small ih =>
      obtain ⟨rest, later, rfl⟩ := Option.map_eq_some_iff.mp encoded
      rw [decodeEntries, ih later, Option.map_some, UInt8.toNat_ofNat',
        Nat.mod_eq_of_lt small]
  | case3 => cases encoded
  | case4 => cases encoded

def sampleMailbox : PersistentMailbox UInt8 (List (UInt8 × Stored)) where
  toMailboxStore := .queue UInt8 4 100
  format :=
    { toVecNamed := encodeEntries
      fromSlice := decodeEntries
      fromSnapshot := fun snap now =>
        (snap.filter fun entry => entry.2.unexpired now).take 4
      withDefaults := []
      fromSlice_toVecNamed := decodeEntries_encodeEntries }
  snapshot mailbox := mailbox
  entries := (MailboxStore.queue UInt8 4 100).stored
  entries_snapshot _ _ := rfl
  withDefaults_empty _ := rfl
  serialises_empty := by
    intro mailbox empty
    cases mailbox with
    | nil => rfl
    | cons entry mailbox =>
        have none := empty entry.1
        simp [MailboxStore.queue] at none

def samplePath : Path := ⟨"", "mailbox", some "bin"⟩

def sampleFiles : FileSystem Path :=
  let opened := FileSystem.empty.openTruncate samplePath
  opened.2.write opened.1 0 [7, 65, 90]

/-- A tick at 20 and the shutdown, each with its save of so many bytes. -/
def sampleActions (length : Nat) :
    List (StartAction UInt8 (List (UInt8 × Stored))) :=
  [.tick 20] ++
    (MailboxFiles.saveActions .maintenance length).map .save ++
    [.shutdown] ++ (MailboxFiles.saveActions .shutdown length).map .save

def sampleEnd (failure : Option IoError) (length : Nat) :
    MailboxStart sampleMailbox :=
  (Trace.exec (step samplePath)
    (boot sampleMailbox samplePath sampleFiles failure 10)
    (sampleActions length)).getD
      (boot sampleMailbox samplePath sampleFiles failure 10)

theorem sample_mailbox_survives_start :
    sampleFiles.read samplePath = some [7, 65, 90] ∧
      (sampleEnd none 3).Intact samplePath [(7, ⟨[65], 90⟩)] 10 := by
  have found : sampleFiles.read samplePath = some [7, 65, 90] := by
    decide +kernel
  exact ⟨found, (mailbox_survives_start_iff sampleMailbox (by decide) found rfl
    none 10).mpr (.inl rfl) (sampleActions 3) _
      (Trace.of_permitted (by decide +kernel) (by decide +kernel))⟩

/-- The file cannot be read at the start, for lack of a file descriptor say. -/
theorem failed_read_destroys_mailbox :
    sampleFiles.read samplePath = some [7, 65, 90] ∧
      sampleMailbox.format.fromSlice [7, 65, 90] = some [(7, ⟨[65], 90⟩)] ∧
      Trace (step samplePath) TakesTurns
        (boot sampleMailbox samplePath sampleFiles
          (some ⟨.other, "too many files"⟩) 10)
        (sampleActions 0) (sampleEnd (some ⟨.other, "too many files"⟩) 0) ∧
      (sampleEnd (some ⟨.other, "too many files"⟩) 0).files.fs.read
        samplePath = some [] ∧
      ¬(sampleEnd (some ⟨.other, "too many files"⟩) 0).Intact samplePath
        [(7, ⟨[65], 90⟩)] 10 := by
  refine ⟨by decide +kernel, rfl,
    Trace.of_permitted (by decide +kernel) (by decide +kernel),
    by decide +kernel, ?_⟩
  intro intact
  exact absurd (intact 7) (by decide +kernel)

end MailboxStart

end GothamRelay
