import GothamRelay.Replay.WriteEncoded

namespace GothamRelay.Persist

open Data

/-! The snapshot format read backwards: what `load` accepts are exactly the
files that a list of entries is written to. -/

private theorem encodeRecord_parseRecord {chunk : List UInt8}
    (size : chunk.length = record) :
    encodeRecord (parseRecord chunk) = chunk := by
  have key : (Bytes.ofSlice 16 (chunk.take 16)).val = chunk.take 16 := by
    have full : (chunk.take 16).length = 16 := by
      rw [List.length_take, size]
      rfl
    have whole := Bytes.ofSlice_append ⟨chunk.take 16, full⟩ []
    rw [List.append_nil] at whole
    rw [whole]
  have eight : (chunk.drop 16).length = 8 := by
    rw [List.length_drop, size]
    rfl
  have time : (UInt64.ofNat (ofBeBytes (chunk.drop 16))).toNat =
      ofBeBytes (chunk.drop 16) := by
    have bound := ofBeBytes_lt (chunk.drop 16)
    rw [eight] at bound
    rw [UInt64.toNat_ofNat']
    exact Nat.mod_eq_of_lt bound
  rw [encodeRecord, parseRecord, key, time, ← eight, beBytes_ofBeBytes,
    List.take_append_drop]

private theorem exists_encodeRecords {count : Nat} {body : List UInt8}
    (size : body.length = count * record) :
    ∃ entries : List (Gamma × UInt64), body = entries.flatMap encodeRecord := by
  induction count generalizing body with
  | zero =>
      rw [Nat.zero_mul] at size
      exact ⟨[], List.eq_nil_of_length_eq_zero size⟩
  | succ count ih =>
      rw [Nat.succ_mul] at size
      have chunk : (body.take record).length = record := by
        rw [List.length_take, size]
        omega
      have rest : (body.drop record).length = count * record := by
        rw [List.length_drop, size]
        omega
      obtain ⟨entries, tail⟩ := ih rest
      refine ⟨parseRecord (body.take record) :: entries, ?_⟩
      rw [List.flatMap_cons, encodeRecord_parseRecord chunk, ← tail,
        List.take_append_drop]

/-- The two checks of `load`. -/
def WellFormed (bytes : List UInt8) : Prop :=
  magic <+: bytes ∧ (bytes.length - magic.length) % record = 0

private theorem wellFormed_iff {bytes : List UInt8} :
    WellFormed bytes ↔ ∃ entries : List (Gamma × UInt64),
      bytes = magic ++ entries.flatMap encodeRecord := by
  constructor
  · rintro ⟨⟨body, rfl⟩, whole⟩
    rw [List.length_append, Nat.add_sub_cancel_left] at whole
    obtain ⟨entries, rfl⟩ := exists_encodeRecords
      (Nat.div_mul_cancel (Nat.dvd_of_mod_eq_zero whole)).symm
    exact ⟨entries, rfl⟩
  · rintro ⟨entries, rfl⟩
    refine ⟨List.prefix_append _ _, ?_⟩
    rw [List.length_append, Nat.add_sub_cancel_left, length_encodeRecords,
      Nat.mul_mod_left]

private theorem wellFormed_of_parse {bytes : List UInt8}
    {entries : List (Gamma × UInt64)} (parsed : parse bytes = .ok entries) :
    WellFormed bytes := by
  rw [parse] at parsed
  split at parsed
  · cases parsed
  · rename_i begins
    split at parsed
    · cases parsed
    · rename_i whole
      obtain ⟨_, starts⟩ := not_or.mp begins
      rw [List.length_drop] at whole
      refine ⟨?_, not_not.mp whole⟩
      rw [← not_not.mp starts]
      exact List.take_prefix _ _

private theorem parse_eq_ok_iff {bytes : List UInt8}
    {entries : List (Gamma × UInt64)} :
    parse bytes = .ok entries ↔
      bytes = magic ++ entries.flatMap encodeRecord := by
  constructor
  · intro parsed
    obtain ⟨written, rfl⟩ := wellFormed_iff.mp (wellFormed_of_parse parsed)
    rw [parse_encodeRecords] at parsed
    cases parsed
    rfl
  · rintro rfl
    exact parse_encodeRecords entries

private theorem load_ok_iff (cache : ReplayCache) (bytes : List UInt8)
    (now : Instant) (nowUnix : UInt64) :
    (∃ count, (load cache (.ok bytes) now nowUnix).1 = .ok count) ↔
      WellFormed bytes := by
  rw [load]
  cases parsed : parse bytes with
  | error error =>
      constructor
      · rintro ⟨count, loaded⟩
        cases loaded
      · intro wellFormed
        obtain ⟨entries, rfl⟩ := wellFormed_iff.mp wellFormed
        rw [parse_encodeRecords] at parsed
        cases parsed
  | ok entries =>
      exact ⟨fun _ => wellFormed_of_parse parsed, fun _ => ⟨_, rfl⟩⟩

private theorem load_of_rejected {cache : ReplayCache}
    {file : Except IoError (List UInt8)} {now : Instant} {nowUnix : UInt64}
    {error : IoError}
    (rejected : (load cache file now nowUnix).1 = .error error) :
    (load cache file now nowUnix).2 = cache := by
  cases file with
  | error failure =>
      rw [load]
      split <;> rfl
  | ok bytes =>
      rw [load] at rejected ⊢
      cases parsed : parse bytes with
      | error failure => rfl
      | ok entries =>
          rw [parsed] at rejected
          cases rejected

namespace Writers

private theorem recordsIn_of_parse {buf : List UInt8}
    {entries : List (Gamma × UInt64)} (parsed : parse buf = .ok entries) :
    recordsIn buf = entries.length := by
  rw [parse_eq_ok_iff.mp parsed, recordsIn, List.length_append,
    Nat.add_sub_cancel_left, length_encodeRecords]
  exact Nat.mul_div_cancel _ (by decide)

def Counted (writers : Writers) : Prop :=
  ∀ {call : Nat} {buf : List UInt8} {count : Nat},
    writers.calls[call]? = some ⟨buf, .returned (.ok count)⟩ →
      count = recordsIn buf

theorem Counted.setCall {writers : Writers} (counted : writers.Counted)
    {call : Nat} {buf : List UInt8} {next : CallPhase}
    (returns : ∀ count, next = .returned (.ok count) →
      count = recordsIn buf) :
    (writers.setCall call buf next).Counted := by
  intro other otherBuf count found
  cases getElem?_set_cases found with
  | inl here =>
      cases here.2
      exact returns count rfl
  | inr old => exact counted old.2

theorem Counted.of_stepped {path : Path} {writers after : Writers}
    (counted : writers.Counted) {action : WriteAction}
    (stepped : Stepped path writers action after) : after.Counted := by
  cases stepped with
  | call buf =>
      intro other otherBuf count found
      cases getElem?_append_singleton_cases found with
      | inl new => cases new
      | inr old => exact counted old
  | lock found free =>
      exact counted.setCall fun _ returned => by cases returned
  | openTmp found =>
      exact counted.setCall fun _ returned => by cases returned
  | setPermissions found =>
      exact counted.setCall fun _ returned => by cases returned
  | write found fits =>
      exact counted.setCall fun _ returned => by cases returned
  | sync found =>
      exact counted.setCall fun _ returned => by cases returned
  | rename found renamed =>
      refine counted.setCall ?_
      intro count returned
      cases returned
      rfl
  | fail error found holding =>
      exact counted.setCall fun _ returned => by cases returned

end Writers

/-- The encoder, the snapshot list and the parser of the replay cache agree in
both directions, and so does the count of `write_encoded`. -/
theorem replay_codec_exact :
    (∀ (cache : ReplayCache) (now : Instant) (nowUnix : UInt64),
      parse (cache.encodeInto now nowUnix magic 24) =
        .ok (cache.snapshotAt now nowUnix)) ∧
    (∀ (bytes : List UInt8) (cache : ReplayCache) (now : Instant)
        (nowUnix : UInt64),
      (∃ count, (load cache (.ok bytes) now nowUnix).1 = .ok count) ↔
        magic <+: bytes ∧ (bytes.length - 8) % 24 = 0) ∧
    (∀ (bytes : List UInt8) (entries : List (Gamma × UInt64)),
      parse bytes = .ok entries →
        magic ++ entries.flatMap encodeRecord = bytes ∧
          ∀ (cache : ReplayCache) (now : Instant) (nowUnix : UInt64),
            load cache (.ok bytes) now nowUnix =
              (.ok (cache.restoreAt entries now nowUnix).1,
                (cache.restoreAt entries now nowUnix).2)) ∧
    (∀ (cache : ReplayCache) (file : Except IoError (List UInt8))
        (now : Instant) (nowUnix : UInt64) (error : IoError),
      (load cache file now nowUnix).1 = .error error →
        (load cache file now nowUnix).2 = cache) ∧
    ∀ (path : Path) (fs : FileSystem Path) (actions : List WriteAction)
        (writers : Writers),
      Trace (Writers.step path) (fun _ _ => True) (.start fs) actions
          writers →
        ∀ (call : Nat) (buf : List UInt8) (count : Nat)
            (entries : List (Gamma × UInt64)),
          writers.calls[call]? = some ⟨buf, .returned (.ok count)⟩ →
            parse buf = .ok entries → count = entries.length := by
  refine ⟨parse_encode, ?_, ?_, ?_, ?_⟩
  · intro bytes cache now nowUnix
    exact load_ok_iff cache bytes now nowUnix
  · intro bytes entries parsed
    refine ⟨(parse_eq_ok_iff.mp parsed).symm, ?_⟩
    intro cache now nowUnix
    simp only [load, parsed]
  · intro cache file now nowUnix error rejected
    exact load_of_rejected rejected
  · intro path fs actions writers trace call buf count entries found parsed
    have counted : writers.Counted := by
      apply trace.invariant fun _ writers => writers.Counted
      · intro other otherBuf otherCount missing
        cases missing
      · intro done before after action counted _ taken
        exact counted.of_stepped (Writers.stepped_of_step taken)
    rw [counted found, Writers.recordsIn_of_parse parsed]

end GothamRelay.Persist
