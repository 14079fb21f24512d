import GothamRelay.Replay.WriteEncoded

namespace GothamRelay.Persist

open Data

/-! A reader of the snapshot, at whatever step the relay stops. -/

namespace Writers

variable {path : Path} {before : Option (List UInt8)} {writers : Writers}

theorem Sound.whole (sound : Sound path before writers) :
    writers.fs.read path = before ∨
      ∃ buf ∈ writers.bufs, writers.fs.read path = some buf := by
  cases last : writers.completed.getLast? with
  | none =>
      refine .inl ?_
      rw [sound.content, latest, last]
  | some call =>
      obtain ⟨buf, had, content⟩ := sound.read_last last
      exact .inr ⟨buf, List.mem_of_getElem? had, content⟩

private theorem Sound.returned_of_stepped (sound : Sound path before writers)
    {action : WriteAction} {after : Writers}
    (stepped : Stepped path writers action after) {call records : Nat}
    {buf : List UInt8}
    (returned : after.calls[call]? = some ⟨buf, .returned (.ok records)⟩) :
    writers.calls[call]? = some ⟨buf, .returned (.ok records)⟩ ∨
      after.fs.read path = some buf := by
  cases stepped with
  | call new =>
      cases getElem?_append_singleton_cases returned with
      | inl here => cases here
      | inr old => exact .inl old
  | rename found renamed =>
      cases getElem?_set_cases returned with
      | inl here =>
          have synced : writers.fs.read path.tmp = some _ :=
            sound.phases found
          cases here.2
          exact .inr ((FileSystem.read_rename renamed).trans synced)
      | inr old => exact .inl old.2
  | lock found _ | openTmp found | setPermissions found | write found _
  | sync found | fail _ found _ =>
      cases getElem?_set_cases returned with
      | inl here => cases here.2
      | inr old => exact .inl old.2

theorem sound_of_trace (separate : path.tmp ≠ path) {fs : FileSystem Path}
    {actions : List WriteAction}
    (trace : Trace (step path) (fun _ _ => True) (start fs) actions writers) :
    Sound path (fs.read path) writers := by
  apply trace.invariant fun _ writers => Sound path (fs.read path) writers
  · exact sound_start path fs
  · intro _ _ _ _ sound _ taken
    exact sound.of_stepped separate (stepped_of_step taken)

private theorem published_of_returned (separate : path.tmp ≠ path)
    {fs : FileSystem Path} {actions : List WriteAction}
    (trace : Trace (step path) (fun _ _ => True) (start fs) actions writers)
    {call records : Nat} {buf : List UInt8}
    (returned : writers.calls[call]? =
      some ⟨buf, .returned (.ok records)⟩) :
    ∃ done rest earlier, actions = done ++ rest ∧
      Trace (step path) (fun _ _ => True) (start fs) done earlier ∧
      earlier.fs.read path = some buf := by
  induction trace with
  | nil => cases returned
  | @snoc _ _ actions action earlier permitted taken ih =>
      have sound := sound_of_trace separate earlier
      cases sound.returned_of_stepped (stepped_of_step taken) returned with
      | inl old =>
          obtain ⟨done, rest, moment, rfl, reached, published⟩ := ih old
          exact ⟨done, rest ++ [action], moment, List.append_assoc _ _ _,
            reached, published⟩
      | inr published =>
          exact ⟨actions ++ [action], [], _, (List.append_nil _).symm,
            earlier.snoc permitted taken, published⟩

end Writers

private theorem Writers.Sound.load_ok {path : Path}
    {before : Option (List UInt8)}
    {writers : Writers} (sound : Sound path before writers)
    (intact : ∀ {bytes}, before = some bytes →
      ∃ entries, parse bytes = .ok entries)
    (encoded : ∀ buf ∈ writers.bufs,
      ∃ cache now nowUnix, buf = encode cache now nowUnix)
    (cache : ReplayCache) (now : Instant) (nowUnix : UInt64) :
    ∃ restored,
      (load cache (readFile writers.fs path) now nowUnix).1 = .ok restored := by
  cases content : writers.fs.read path with
  | none =>
      simp only [readFile, content, load, if_true]
      exact ⟨0, rfl⟩
  | some bytes =>
      have parsed : ∃ entries, parse bytes = .ok entries := by
        cases sound.whole with
        | inl unchanged => exact intact (unchanged.symm.trans content)
        | inr written =>
            obtain ⟨buf, member, published⟩ := written
            obtain ⟨source, at_, unix, rfl⟩ := encoded buf member
            cases content.symm.trans published
            exact ⟨_, parse_encode source at_ unix⟩
      obtain ⟨entries, parsed⟩ := parsed
      simp only [readFile, content, load, parsed]
      exact ⟨_, rfl⟩

theorem replay_snapshot_all_or_nothing {path : Path}
    (separate : path.extension ≠ some "tmp") (fs : FileSystem Path)
    {actions : List WriteAction} {writers : Writers}
    (trace : Trace (Writers.step path) (fun _ _ => True) (.start fs) actions
      writers) :
    (writers.fs.read path = fs.read path ∨
      ∃ buf ∈ writers.bufs, writers.fs.read path = some buf) ∧
    (∀ {call records : Nat} {buf : List UInt8},
      writers.calls[call]? = some ⟨buf, .returned (.ok records)⟩ →
        ∃ done rest earlier, actions = done ++ rest ∧
          Trace (Writers.step path) (fun _ _ => True) (.start fs) done
            earlier ∧
          earlier.fs.read path = some buf) ∧
    ((∀ {bytes}, fs.read path = some bytes →
        ∃ entries, parse bytes = .ok entries) →
      (∀ buf ∈ writers.bufs,
        ∃ cache now nowUnix, buf = encode cache now nowUnix) →
      ∀ (cache : ReplayCache) (now : Instant) (nowUnix : UInt64),
        ∃ restored,
          (load cache (readFile writers.fs path) now nowUnix).1 =
            .ok restored) := by
  have apart := Path.tmp_ne separate
  have sound := Writers.sound_of_trace apart trace
  refine ⟨sound.whole, ?_, ?_⟩
  · intro call records buf returned
    exact Writers.published_of_returned apart trace returned
  · intro intact encoded cache now nowUnix
    exact sound.load_ok intact encoded cache now nowUnix

/-- A call stops in the middle of its buffer and the next one finds its
temporary file. -/
def tornThenWhole : List WriteAction :=
  [.call magic, .call magic, .lock 0, .openTmp 0, .setPermissions 0,
    .write 0 3, .fail 0 ⟨.other, "no space left on device"⟩, .lock 1,
    .openTmp 1, .setPermissions 1, .write 1 5, .write 1 3, .sync 1,
    .rename 1]

def replayBin : Path := ⟨"", "replay", some "bin"⟩

def tornThenWholeEnd : Writers :=
  (Trace.exec (Writers.step replayBin) (.start .empty) tornThenWhole).getD
    (.start .empty)

theorem tornThenWhole_all_or_nothing :
    tornThenWholeEnd.fs.read replayBin = some magic ∧
      ∀ (cache : ReplayCache) (now : Instant) (nowUnix : UInt64),
        ∃ restored,
          (load cache (readFile tornThenWholeEnd.fs replayBin) now
            nowUnix).1 = .ok restored := by
  refine ⟨by decide +kernel, ?_⟩
  apply (replay_snapshot_all_or_nothing (by decide) .empty
    (Trace.of_possible (by decide +kernel))).2.2
  · exact nofun
  · have bufs_eq : tornThenWholeEnd.bufs = [magic, magic] := by
      decide +kernel
    intro buf member
    rw [← tornThenWholeEnd, bufs_eq] at member
    simp only [List.mem_cons, List.not_mem_nil, or_false, or_self] at member
    exact ⟨.new 1 0, 0, 0, member⟩

end GothamRelay.Persist
