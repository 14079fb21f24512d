import Mathlib.Algebra.Order.Ring.Nat
import Mathlib.Data.List.Induction
import Mathlib.Tactic.Ring

namespace GothamRelay.Data

/-! Byte arrays of a fixed length and big-endian integers. -/

abbrev Bytes (width : Nat) := { bytes : List UInt8 // bytes.length = width }

namespace Bytes

def replicate (width : Nat) (byte : UInt8) : Bytes width :=
  ⟨List.replicate width byte, List.length_replicate⟩

/-- A zeroed array into which the first `width` bytes of a slice are copied. -/
def ofSlice (width : Nat) (slice : List UInt8) : Bytes width :=
  ⟨slice.take width ++ List.replicate (width - slice.length) 0, by
    simp only [List.length_append, List.length_take, List.length_replicate]
    omega⟩

@[simp] theorem ofSlice_append (bytes : Bytes width) (rest : List UInt8) :
    ofSlice width (bytes.val ++ rest) = bytes := by
  apply Subtype.ext
  simp only [ofSlice]
  rw [List.take_left' bytes.property, List.length_append, bytes.property,
    Nat.sub_eq_zero_of_le (Nat.le_add_right _ _), List.replicate_zero,
    List.append_nil]

end Bytes

def beBytes : Nat → Nat → List UInt8
  | 0, _ => []
  | width + 1, value => beBytes width (value / 256) ++ [UInt8.ofNat value]

def ofBeBytes (bytes : List UInt8) : Nat :=
  bytes.foldl (fun value byte => value * 256 + byte.toNat) 0

@[simp] theorem length_beBytes (width value : Nat) :
    (beBytes width value).length = width := by
  induction width generalizing value with
  | zero => rfl
  | succ width ih => simp [beBytes, ih]

@[simp] theorem ofBeBytes_append_singleton (bytes : List UInt8) (byte : UInt8) :
    ofBeBytes (bytes ++ [byte]) = ofBeBytes bytes * 256 + byte.toNat := by
  simp [ofBeBytes]

theorem ofBeBytes_beBytes {width value : Nat} (bound : value < 256 ^ width) :
    ofBeBytes (beBytes width value) = value := by
  induction width generalizing value with
  | zero =>
      have zero : value = 0 := by simpa using bound
      rw [zero]
      rfl
  | succ width ih =>
      have high : value / 256 < 256 ^ width := by
        rw [Nat.pow_succ] at bound
        omega
      have low : (UInt8.ofNat value).toNat = value % 256 := by
        simp
      rw [beBytes, ofBeBytes_append_singleton, ih high, low]
      omega

theorem beBytes_ofBeBytes (bytes : List UInt8) :
    beBytes bytes.length (ofBeBytes bytes) = bytes := by
  induction bytes using List.reverseRecOn with
  | nil => rfl
  | append_singleton bytes byte ih =>
      have small := byte.toNat_lt
      have high : (ofBeBytes bytes * 256 + byte.toNat) / 256 =
          ofBeBytes bytes := by
        omega
      have low : UInt8.ofNat (ofBeBytes bytes * 256 + byte.toNat) = byte := by
        apply UInt8.toNat_inj.mp
        rw [UInt8.toNat_ofNat']
        omega
      rw [List.length_append, List.length_singleton, beBytes,
        ofBeBytes_append_singleton, high, low, ih]

theorem ofBeBytes_lt (bytes : List UInt8) :
    ofBeBytes bytes < 256 ^ bytes.length := by
  induction bytes using List.reverseRecOn with
  | nil => decide
  | append_singleton bytes byte ih =>
      have small := byte.toNat_lt
      rw [ofBeBytes_append_singleton, List.length_append,
        List.length_singleton, Nat.pow_succ]
      omega

end GothamRelay.Data
