import Mathlib.Data.List.Basic

namespace GothamRelay.Data

/-! Bytes as hexadecimal digits, two to a byte. -/

inductive FromHexError where
  | invalidHexCharacter (c : UInt8) (index : Nat)
  | oddLength
  deriving DecidableEq, Repr

namespace Hex

def digit (value : Nat) : UInt8 :=
  UInt8.ofNat (if value < 10 then 48 + value else 87 + value)

def encode (bytes : List UInt8) : List UInt8 :=
  bytes.flatMap fun byte => [digit (byte.toNat / 16), digit (byte.toNat % 16)]

def valueOf (c : UInt8) : Option Nat :=
  if 48 ≤ c.toNat ∧ c.toNat ≤ 57 then some (c.toNat - 48)
  else if 97 ≤ c.toNat ∧ c.toNat ≤ 102 then some (c.toNat - 87)
  else if 65 ≤ c.toNat ∧ c.toNat ≤ 70 then some (c.toNat - 55)
  else none

def decodeFrom (index : Nat) : List UInt8 → Except FromHexError (List UInt8)
  | high :: low :: rest =>
      match valueOf high with
      | none => .error (.invalidHexCharacter high index)
      | some upper =>
          match valueOf low with
          | none => .error (.invalidHexCharacter low (index + 1))
          | some lower =>
              (decodeFrom (index + 2) rest).map
                (UInt8.ofNat (16 * upper + lower) :: ·)
  | _ => .ok []

def decode (digits : List UInt8) : Except FromHexError (List UInt8) :=
  if digits.length % 2 ≠ 0 then .error .oddLength
  else decodeFrom 0 digits

private theorem valueOf_digit {value : Nat} (small : value < 16) :
    valueOf (digit value) = some value := by
  have all : ∀ value : Fin 16, valueOf (digit value) = some value.val := by
    decide
  exact all ⟨value, small⟩

@[simp] theorem encode_cons (byte : UInt8) (bytes : List UInt8) :
    encode (byte :: bytes) =
      digit (byte.toNat / 16) :: digit (byte.toNat % 16) :: encode bytes :=
  rfl

@[simp] theorem length_encode (bytes : List UInt8) :
    (encode bytes).length = 2 * bytes.length := by
  induction bytes with
  | nil => rfl
  | cons byte bytes ih =>
      rw [encode_cons, List.length_cons, List.length_cons, List.length_cons, ih]
      omega

private theorem decodeFrom_encode (index : Nat) (bytes : List UInt8) :
    decodeFrom index (encode bytes) = .ok bytes := by
  induction bytes generalizing index with
  | nil => rfl
  | cons byte bytes ih =>
      have small := byte.toNat_lt
      have whole : 16 * (byte.toNat / 16) + byte.toNat % 16 = byte.toNat := by
        omega
      rw [encode_cons, decodeFrom, valueOf_digit (by omega),
        valueOf_digit (by omega)]
      simp only [ih, whole, UInt8.ofNat_toNat, Except.map]

theorem decode_encode (bytes : List UInt8) :
    decode (encode bytes) = .ok bytes := by
  rw [decode, length_encode, if_neg (by omega), decodeFrom_encode]

private theorem digits_of_decodeFrom {index : Nat} {digits bytes : List UInt8}
    (even : digits.length % 2 = 0)
    (decoded : decodeFrom index digits = .ok bytes) :
    digits.length = 2 * bytes.length ∧
      ∀ byte ∈ digits, (valueOf byte).isSome = true := by
  fun_induction decodeFrom index digits generalizing bytes with
  | case1 => cases decoded
  | case2 => cases decoded
  | case3 index high low rest upper highValue lower lowValue ih =>
      cases further : decodeFrom (index + 2) rest with
      | error error =>
          rw [further] at decoded
          cases decoded
      | ok tail =>
          rw [further] at decoded
          cases decoded
          have evenRest : rest.length % 2 = 0 := by
            simp only [List.length_cons] at even
            omega
          obtain ⟨length, known⟩ := ih evenRest further
          simp only [List.length_cons, List.forall_mem_cons, highValue,
            lowValue, Option.isSome_some, true_and]
          exact ⟨by omega, known⟩
  | case4 digits index short =>
      cases decoded
      match digits, even, short with
      | [], _, _ => exact ⟨rfl, fun _ member => absurd member List.not_mem_nil⟩
      | high :: low :: rest, _, short =>
          exact (short high low rest rfl).elim

theorem digits_of_decode {digits bytes : List UInt8}
    (decoded : decode digits = .ok bytes) :
    digits.length = 2 * bytes.length ∧
      ∀ byte ∈ digits, (valueOf byte).isSome = true := by
  rw [decode] at decoded
  split at decoded
  · cases decoded
  · rename_i even
    exact digits_of_decodeFrom (Decidable.not_not.mp even) decoded

end Hex

end GothamRelay.Data
