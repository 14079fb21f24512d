import Mathlib.Data.List.AList
import Mathlib.Data.List.Sort
import GothamRelay.Data.Bytes
import GothamRelay.Time

namespace GothamRelay

open Data

abbrev Gamma := Bytes 16

inductive ReplayCheck where
  | fresh
  | replay
  deriving DecidableEq, Repr

structure ReplayCache where
  map : AList fun _ : Gamma => Instant
  queue : List (Gamma × Instant)
  ttl : Duration
  maxSize : Nat

namespace ReplayCache

def new (maxSize : Nat) (ttl : Duration) : ReplayCache where
  map := ∅
  queue := []
  ttl := ttl
  maxSize := maxSize

def len (cache : ReplayCache) : Nat := cache.map.keys.length

/-- The loop of `sweep_expired`: it stops at the first entry that is not
expired, wherever the expired ones are. -/
def sweep (ttl : Duration) (now : Instant) :
    List (Gamma × Instant) → (AList fun _ : Gamma => Instant) →
      List (Gamma × Instant) × (AList fun _ : Gamma => Instant)
  | [], map => ([], map)
  | (key, ts) :: rest, map =>
      if now.durationSince ts > ttl then
        sweep ttl now rest (map.erase key)
      else
        ((key, ts) :: rest, map)

def sweepExpired (cache : ReplayCache) (now : Instant) : ReplayCache :=
  let swept := sweep cache.ttl now cache.queue cache.map
  { cache with queue := swept.1, map := swept.2 }

def popFront (cache : ReplayCache) : ReplayCache :=
  match cache.queue with
  | [] => cache
  | (key, _) :: rest =>
      { cache with queue := rest, map := cache.map.erase key }

def pushBack (cache : ReplayCache) (key : Gamma) (ts : Instant) :
    ReplayCache :=
  { cache with
    map := cache.map.insert key ts
    queue := cache.queue ++ [(key, ts)] }

def checkAndInsertAt (cache : ReplayCache) (key : Gamma) (now : Instant) :
    ReplayCheck × ReplayCache :=
  let swept := cache.sweepExpired now
  if key ∈ swept.map then
    (.replay, swept)
  else
    let room := if swept.len ≥ swept.maxSize then swept.popFront else swept
    (.fresh, room.pushBack key now)

def snapshotAt (cache : ReplayCache) (now : Instant) (nowUnix : UInt64) :
    List (Gamma × UInt64) :=
  (cache.queue.filter fun entry =>
      decide (now.durationSince entry.2 ≤ cache.ttl)).map fun entry =>
    (entry.1, saturatingSub nowUnix (now.durationSince entry.2).asSecs)

def encodeInto (cache : ReplayCache) (now : Instant) (nowUnix : UInt64)
    (magic : List UInt8) (_record : Nat) : List UInt8 :=
  magic ++ cache.queue.flatMap fun entry =>
    let elapsed := now.durationSince entry.2
    if elapsed > cache.ttl then
      []
    else
      entry.1.val ++
        beBytes 8 (saturatingSub nowUnix elapsed.asSecs).toNat

/-- `retain(|(key, _)| !map.contains_key(key) && seen.insert(*key))`: a key
that is already cached is not recorded as seen. -/
def retainUnseen (map : AList fun _ : Gamma => Instant) :
    List Gamma → List (Gamma × Instant) → List (Gamma × Instant)
  | _, [] => []
  | seen, (key, ts) :: rest =>
      if key ∉ map ∧ key ∉ seen then
        (key, ts) :: retainUnseen map (key :: seen) rest
      else
        retainUnseen map seen rest

def adopt : ReplayCache → List (Gamma × Instant) → Nat × ReplayCache
  | cache, [] => (0, cache)
  | cache, (key, ts) :: rest =>
      if cache.len ≥ cache.maxSize then
        (0, cache)
      else
        let adopted := adopt (cache.pushBack key ts) rest
        (adopted.1 + 1, adopted.2)

def restoredInstant (now : Instant) (age : Duration) : Instant :=
  (now.checkedSub age).getD now

/-- One turn of the first loop of `restore_at`: an entry older than the TTL is
skipped, any other gets the instant its age says. -/
def restoredEntry (ttl : Duration) (now : Instant) (nowUnix : UInt64)
    (entry : Gamma × UInt64) : Option (Gamma × Instant) :=
  let age := Duration.fromSecs (saturatingSub nowUnix entry.2.toNat).toNat
  if age > ttl then none else some (entry.1, restoredInstant now age)

def restoreCandidates (cache : ReplayCache) (entries : List (Gamma × UInt64))
    (now : Instant) (nowUnix : UInt64) : List (Gamma × Instant) :=
  let adopted := entries.filterMap (restoredEntry cache.ttl now nowUnix)
  retainUnseen cache.map []
    (adopted.insertionSort fun first second => first.2 ≤ second.2)

def restoreAt (cache : ReplayCache) (entries : List (Gamma × UInt64))
    (now : Instant) (nowUnix : UInt64) : Nat × ReplayCache :=
  let adopted := cache.restoreCandidates entries now nowUnix
  let room := cache.maxSize - cache.len
  let skip := adopted.length - room
  cache.adopt (adopted.drop skip)

def checkAll : ReplayCache → List (Gamma × Instant) →
    List ReplayCheck × ReplayCache
  | cache, [] => ([], cache)
  | cache, (key, now) :: calls =>
      let checked := cache.checkAndInsertAt key now
      let rest := checkAll checked.2 calls
      (checked.1 :: rest.1, rest.2)

end ReplayCache

end GothamRelay
