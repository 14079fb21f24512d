import GothamRelay.Io
import GothamRelay.Replay.Cache

namespace GothamRelay

open Data

namespace Persist

def magic : List UInt8 := [71, 84, 72, 77, 82, 80, 76, 49]

def record : Nat := 24

def encode (cache : ReplayCache) (now : Instant) (nowUnix : UInt64) :
    List UInt8 :=
  cache.encodeInto now nowUnix magic record

def parseRecord (chunk : List UInt8) : Gamma × UInt64 :=
  (Bytes.ofSlice 16 (chunk.take 16),
    UInt64.ofNat (ofBeBytes (chunk.drop 16)))

/-- `as_chunks::<RECORD>().0`, each chunk read as a key and a big-endian
time. -/
def parseEntries (body : List UInt8) : List (Gamma × UInt64) :=
  (List.range (body.length / record)).map fun index =>
    parseRecord ((body.drop (index * record)).take record)

def parse (bytes : List UInt8) : Except IoError (List (Gamma × UInt64)) :=
  if bytes.length < magic.length ∨ bytes.take magic.length ≠ magic then
    .error ⟨.invalidData, "replay cache: bad magic"⟩
  else if (bytes.drop magic.length).length % record ≠ 0 then
    .error ⟨.invalidData, "replay cache: truncated record"⟩
  else
    .ok (parseEntries (bytes.drop magic.length))

def load (cache : ReplayCache) (file : Except IoError (List UInt8))
    (now : Instant) (nowUnix : UInt64) : Except IoError Nat × ReplayCache :=
  match file with
  | .error error =>
      if error.kind = .notFound then (.ok 0, cache) else (.error error, cache)
  | .ok bytes =>
      match parse bytes with
      | .error error => (.error error, cache)
      | .ok entries =>
          let restored := cache.restoreAt entries now nowUnix
          (.ok restored.1, restored.2)

def encodeRecord (entry : Gamma × UInt64) : List UInt8 :=
  entry.1.val ++ beBytes 8 entry.2.toNat

@[simp] theorem length_encodeRecord (entry : Gamma × UInt64) :
    (encodeRecord entry).length = record := by
  rw [encodeRecord, List.length_append, entry.1.property, length_beBytes]
  rfl

@[simp] theorem parseRecord_encodeRecord (entry : Gamma × UInt64) :
    parseRecord (encodeRecord entry) = entry := by
  have key_take : (encodeRecord entry).take 16 = entry.1.val :=
    List.take_left' entry.1.property
  have time_drop : (encodeRecord entry).drop 16 = beBytes 8 entry.2.toNat :=
    List.drop_left' entry.1.property
  have key_eq := Bytes.ofSlice_append entry.1 []
  rw [List.append_nil] at key_eq
  rw [parseRecord, key_take, time_drop, key_eq,
    ofBeBytes_beBytes entry.2.toNat_lt, UInt64.ofNat_toNat]

theorem length_encodeRecords (entries : List (Gamma × UInt64)) :
    (entries.flatMap encodeRecord).length = entries.length * record := by
  induction entries with
  | nil => simp
  | cons entry entries ih =>
      rw [List.flatMap_cons, List.length_append, ih, length_encodeRecord,
        List.length_cons, Nat.succ_mul, Nat.add_comm]

private theorem parseEntries_encodeRecords (entries : List (Gamma × UInt64)) :
    parseEntries (entries.flatMap encodeRecord) = entries := by
  have count : (entries.flatMap encodeRecord).length / record =
      entries.length := by
    rw [length_encodeRecords]
    exact Nat.mul_div_cancel _ (by decide)
  rw [parseEntries, count]
  clear count
  induction entries with
  | nil => rfl
  | cons entry entries ih =>
      rw [List.length_cons, List.range_succ_eq_map, List.map_cons,
        List.map_map, List.flatMap_cons]
      congr 1
      · rw [Nat.zero_mul, List.drop_zero,
          List.take_left' (length_encodeRecord entry),
          parseRecord_encodeRecord]
      · refine Eq.trans ?_ ih
        apply List.map_congr_left
        intro index _
        have skip : (index + 1) * record =
            (encodeRecord entry).length + index * record := by
          rw [length_encodeRecord, Nat.succ_mul, Nat.add_comm]
        simp only [Function.comp, Nat.succ_eq_add_one]
        rw [skip, ← List.drop_drop, List.drop_left]

private theorem encode_eq (cache : ReplayCache) (now : Instant)
    (nowUnix : UInt64) :
    encode cache now nowUnix =
      magic ++ (cache.snapshotAt now nowUnix).flatMap encodeRecord := by
  rw [encode, ReplayCache.encodeInto, ReplayCache.snapshotAt]
  congr 1
  induction cache.queue with
  | nil => rfl
  | cons entry rest ih =>
      by_cases live : now.durationSince entry.2 ≤ cache.ttl
      · rw [List.flatMap_cons, ih, List.filter_cons_of_pos (by simpa using live)]
        simp only [List.map_cons, List.flatMap_cons, encodeRecord]
        rw [if_neg (Nat.not_lt.mpr live)]
      · rw [List.flatMap_cons, ih, List.filter_cons_of_neg (by simpa using live),
          if_pos (Nat.not_le.mp live), List.nil_append]

theorem parse_encodeRecords (entries : List (Gamma × UInt64)) :
    parse (magic ++ entries.flatMap encodeRecord) = .ok entries := by
  rw [parse, List.drop_left, List.take_left, if_neg (by simp), if_neg,
    parseEntries_encodeRecords]
  rw [length_encodeRecords, Nat.mul_mod_left]
  exact fun nonzero => nonzero rfl

theorem parse_encode (cache : ReplayCache) (now : Instant)
    (nowUnix : UInt64) :
    parse (encode cache now nowUnix) = .ok (cache.snapshotAt now nowUnix) := by
  rw [encode_eq, parse_encodeRecords]

end Persist

end GothamRelay
