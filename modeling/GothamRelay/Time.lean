import Mathlib.Init

namespace GothamRelay

/-! The two clocks of the relay. An `Instant` counts the nanoseconds since the
earliest instant the monotonic clock can represent; wall-clock seconds are
`u64`. -/

abbrev Instant := Nat

abbrev Duration := Nat

def nanosPerSec : Nat := 1000000000

def Duration.fromSecs (secs : Nat) : Duration := secs * nanosPerSec

def Duration.fromMicros (micros : Nat) : Duration := micros * 1000

def Duration.asSecs (duration : Duration) : Nat := duration / nanosPerSec

def Duration.asMicros (duration : Duration) : Nat := duration / 1000

/-- `Instant::duration_since`, which saturates at zero. -/
def Instant.durationSince (now earlier : Instant) : Duration := now - earlier

def Instant.checkedSub (now : Instant) (age : Duration) : Option Instant :=
  if age ≤ now then some (now - age) else none

/-- `u64::saturating_add`. -/
def saturatingAdd (left right : UInt64) : UInt64 :=
  if left.toNat + right.toNat < UInt64.size then left + right
  else UInt64.ofNat (UInt64.size - 1)

theorem toNat_saturatingAdd {left right : UInt64}
    (fits : left.toNat + right.toNat < UInt64.size) :
    (saturatingAdd left right).toNat = left.toNat + right.toNat := by
  rw [saturatingAdd, if_pos fits, UInt64.toNat_add]
  exact Nat.mod_eq_of_lt fits

/-- `u64::saturating_sub`. -/
def saturatingSub (wall : UInt64) (secs : Nat) : UInt64 :=
  UInt64.ofNat (wall.toNat - secs)

@[simp] theorem toNat_saturatingSub (wall : UInt64) (secs : Nat) :
    (saturatingSub wall secs).toNat = wall.toNat - secs := by
  have bound := wall.toNat_lt
  exact UInt64.toNat_ofNat_of_lt' (Nat.lt_of_le_of_lt (Nat.sub_le _ _) bound)

end GothamRelay
