import Mathlib.Data.List.Flatten
import GothamRelay.Data.Hex
import GothamRelay.Enroll.Loop
import GothamRelay.Io
import GothamRelay.Process.Crypto

namespace GothamRelay

open Data

/-! The file with the relay's secret key, as it is read. -/

def readToString (file : Except IoError (List UInt8)) :
    Except IoError String :=
  match file with
  | .error error => .error error
  | .ok bytes =>
      match bytes.toByteArray.utf8Decode? with
      | some text => .ok (String.ofList text.toList)
      | none => .error ⟨.invalidData, "stream did not contain valid UTF-8"⟩

/-- `u8::is_ascii_hexdigit`. -/
def isAsciiHexdigit (byte : UInt8) : Bool :=
  (48 ≤ byte.toNat && byte.toNat ≤ 57) ||
    (65 ≤ byte.toNat && byte.toNat ≤ 70) ||
    (97 ≤ byte.toNat && byte.toNat ≤ 102)

/-- What is called in the `hex` crate. -/
structure HexCrate where
  FromHexError : Type
  display : FromHexError → String
  encode : List UInt8 → List UInt8
  decode : List UInt8 → Except FromHexError (List UInt8)
  decode_encode : ∀ bytes, decode (encode bytes) = .ok bytes
  length_of_decode : ∀ {digits bytes}, decode digits = .ok bytes →
    digits.length = 2 * bytes.length
  digits_of_decode : ∀ {digits bytes}, decode digits = .ok bytes →
    ∀ byte ∈ digits, isAsciiHexdigit byte = true

variable (hex : HexCrate)

def readKeyFile (file : Except IoError (List UInt8)) : Except IoError Key :=
  match readToString file with
  | .error error => .error error
  | .ok raw =>
      match hex.decode ((trim raw).toList.flatMap String.utf8EncodeChar) with
      | .error error =>
          .error ⟨.invalidData, "bad hex: " ++ hex.display error⟩
      | .ok bytes =>
          if sized : bytes.length = 32 then .ok ⟨bytes, sized⟩
          else .error ⟨.invalidData,
            "secret key file must be 64 hex chars (32 bytes)"⟩

def keyLine (sk : Key) : List UInt8 := hex.encode sk.val ++ [10]

/-! ## Reading back a part of what was written -/

def asciiChar (byte : UInt8) : Char := Char.ofNat byte.toNat

private theorem utf8EncodeChar_asciiChar {byte : UInt8}
    (ascii : byte.toNat < 128) :
    String.utf8EncodeChar (asciiChar byte) = [byte] := by
  have all : ∀ code : Fin 128,
      String.utf8EncodeChar (Char.ofNat code) = [UInt8.ofNat code] := by
    decide +kernel
  have same := all ⟨byte.toNat, ascii⟩
  rw [UInt8.ofNat_toNat] at same
  exact same

private theorem flatMap_asciiChar {bytes : List UInt8}
    (ascii : ∀ byte ∈ bytes, byte.toNat < 128) :
    (bytes.map asciiChar).flatMap String.utf8EncodeChar = bytes := by
  induction bytes with
  | nil => rfl
  | cons byte bytes ih =>
      rw [List.map_cons, List.flatMap_cons,
        utf8EncodeChar_asciiChar (ascii byte List.mem_cons_self),
        ih fun other member => ascii other (List.mem_cons_of_mem _ member)]
      rfl

private theorem utf8Decode?_ascii {bytes : List UInt8}
    (ascii : ∀ byte ∈ bytes, byte.toNat < 128) :
    bytes.toByteArray.utf8Decode? = some (bytes.map asciiChar).toArray := by
  rw [← List.utf8Decode?_utf8Encode, List.utf8Encode, flatMap_asciiChar ascii]

private theorem readToString_ascii {bytes : List UInt8}
    (ascii : ∀ byte ∈ bytes, byte.toNat < 128) :
    readToString (.ok bytes) = .ok (String.ofList (bytes.map asciiChar)) := by
  simp only [readToString, utf8Decode?_ascii ascii]

private theorem trim_padded {lead text trail : List Char}
    (leads : ∀ c ∈ lead, isWhitespace c = true)
    (trails : ∀ c ∈ trail, isWhitespace c = true)
    (dark : ∀ c ∈ text, isWhitespace c = false) :
    trim (String.ofList (lead ++ text ++ trail)) = String.ofList text := by
  have front : (lead ++ text ++ trail).dropWhile isWhitespace =
      (text ++ trail).dropWhile isWhitespace := by
    rw [List.append_assoc, List.dropWhile_append_of_pos leads]
  rw [trim, String.toList_ofList, front]
  apply congrArg
  cases text with
  | nil =>
      rw [List.nil_append, List.dropWhile_eq_nil_iff.mpr trails]
      rfl
  | cons first rest =>
      have kept : (first :: rest ++ trail).dropWhile isWhitespace =
          first :: rest ++ trail := by
        apply List.dropWhile_cons_of_neg
        rw [dark first List.mem_cons_self]
        exact Bool.false_ne_true
      have last : (first :: rest).reverse.dropWhile isWhitespace =
          (first :: rest).reverse := by
        rw [List.dropWhile_eq_self_iff]
        intro nonempty
        rw [dark _ (List.mem_reverse.mp (List.getElem_mem nonempty))]
        exact Bool.false_ne_true
      rw [kept, List.rdropWhile, List.reverse_append,
        List.dropWhile_append_of_pos
          fun c member => trails c (List.mem_reverse.mp member),
        last, List.reverse_reverse]

private theorem digits_of_padded (lead digits trail : List UInt8)
    (leads : ∀ byte ∈ lead, isWhitespace (asciiChar byte) = true)
    (trails : ∀ byte ∈ trail, isWhitespace (asciiChar byte) = true)
    (dark : ∀ byte ∈ digits, byte.toNat < 128 ∧
      isWhitespace (asciiChar byte) = false) :
    (trim (String.ofList
        ((lead ++ digits ++ trail).map asciiChar))).toList.flatMap
      String.utf8EncodeChar = digits := by
  rw [List.map_append, List.map_append, trim_padded, String.toList_ofList,
    flatMap_asciiChar fun byte member => (dark byte member).1]
  · exact List.forall_mem_map.mpr leads
  · exact List.forall_mem_map.mpr trails
  · exact List.forall_mem_map.mpr fun byte member => (dark byte member).2

private theorem forall_byte {holds : UInt8 → Prop}
    (all : ∀ code : Fin 256, holds (UInt8.ofNat code)) (byte : UInt8) :
    holds byte := by
  have checked := all ⟨byte.toNat, byte.toNat_lt⟩
  rw [UInt8.ofNat_toNat] at checked
  exact checked

private theorem isAsciiHexdigit_spec {byte : UInt8} :
    isAsciiHexdigit byte = true →
      byte.toNat < 128 ∧ isWhitespace (asciiChar byte) = false := by
  revert byte
  apply forall_byte
  decide +kernel

namespace HexCrate

theorem length_encode (bytes : List UInt8) :
    (hex.encode bytes).length = 2 * bytes.length :=
  hex.length_of_decode (hex.decode_encode bytes)

private theorem encode_spec {bytes : List UInt8} {byte : UInt8}
    (member : byte ∈ hex.encode bytes) :
    byte.toNat < 128 ∧ isWhitespace (asciiChar byte) = false :=
  isAsciiHexdigit_spec
    (hex.digits_of_decode (hex.decode_encode bytes) byte member)

private theorem isAsciiHexdigit_of_valueOf {byte : UInt8} :
    (Hex.valueOf byte).isSome = true → isAsciiHexdigit byte = true := by
  revert byte
  apply forall_byte
  decide +kernel

def plain : HexCrate where
  FromHexError := Data.FromHexError
  display _ := ""
  encode := Hex.encode
  decode := Hex.decode
  decode_encode := Hex.decode_encode
  length_of_decode decoded := (Hex.digits_of_decode decoded).1
  digits_of_decode decoded byte member :=
    isAsciiHexdigit_of_valueOf ((Hex.digits_of_decode decoded).2 byte member)

end HexCrate

private theorem isWhitespace_lineFeed {byte : UInt8} {count : Nat}
    (member : byte ∈ ([10] : List UInt8).take count) :
    byte.toNat < 128 ∧ isWhitespace (asciiChar byte) = true := by
  rw [List.mem_singleton.mp (List.mem_of_mem_take member)]
  decide +kernel

private theorem readKeyFile_digits (sk : Key) (count after : Nat) :
    readKeyFile hex
        (.ok ((hex.encode sk.val).take count ++ [10].take after)) =
      match hex.decode ((hex.encode sk.val).take count) with
      | .error error =>
          .error ⟨.invalidData, "bad hex: " ++ hex.display error⟩
      | .ok bytes =>
          if sized : bytes.length = 32 then .ok ⟨bytes, sized⟩
          else .error ⟨.invalidData,
            "secret key file must be 64 hex chars (32 bytes)"⟩ := by
  have dark : ∀ byte ∈ (hex.encode sk.val).take count, byte.toNat < 128 ∧
      isWhitespace (asciiChar byte) = false :=
    fun byte member => hex.encode_spec (List.mem_of_mem_take member)
  have ascii : ∀ byte ∈ (hex.encode sk.val).take count ++ [10].take after,
      byte.toNat < 128 := by
    intro byte member
    cases List.mem_append.mp member with
    | inl digit => exact (dark byte digit).1
    | inr trail => exact (isWhitespace_lineFeed trail).1
  have digits := digits_of_padded [] _ ([10].take after)
    (fun byte member => absurd member List.not_mem_nil)
    (fun byte member => (isWhitespace_lineFeed member).2) dark
  rw [List.nil_append] at digits
  simp only [readKeyFile, readToString_ascii ascii, digits]

/-- What becomes of a key file of which only a part was written: it is refused
unless the whole key is there. -/
theorem readKeyFile_take (sk : Key) (written : Nat) :
    (64 ≤ written →
      readKeyFile hex (.ok ((keyLine hex sk).take written)) = .ok sk) ∧
    (written < 64 → ∃ error,
      readKeyFile hex (.ok ((keyLine hex sk).take written)) =
        .error error) := by
  have length : (hex.encode sk.val).length = 64 := by
    rw [hex.length_encode, sk.property]
  rw [keyLine, List.take_append, readKeyFile_digits]
  constructor
  · intro whole
    rw [List.take_of_length_le (length ▸ whole), hex.decode_encode]
    exact dif_pos sk.property
  · intro torn
    cases decoded : hex.decode ((hex.encode sk.val).take written) with
    | error error => exact ⟨_, rfl⟩
    | ok bytes =>
        have digits := hex.length_of_decode decoded
        rw [List.length_take, length] at digits
        exact ⟨_, dif_neg (by omega)⟩

/-! ## The seed of an authority -/

/-- `u8::is_ascii_whitespace`. -/
def isAsciiWhitespace (byte : UInt8) : Bool :=
  [9, 10, 12, 13, 32].contains byte.toNat

def isHexText (byte : UInt8) : Bool :=
  isAsciiHexdigit byte || isAsciiWhitespace byte

def seedBytes (raw : List UInt8) : Except IoError (List UInt8) :=
  if raw.all isHexText then
    match raw.toByteArray.utf8Decode? with
    | none => .error ⟨.invalidData, "non-utf8"⟩
    | some text =>
        let digits := (trim (String.ofList text.toList)).toList
        match hex.decode (digits.flatMap String.utf8EncodeChar) with
        | .error error =>
            .error ⟨.invalidData, "bad hex: " ++ hex.display error⟩
        | .ok bytes => .ok bytes
  else .ok raw

def readEd25519Seed (file : Except IoError (List UInt8)) :
    Except IoError (Bytes 32) :=
  match file with
  | .error error => .error error
  | .ok raw =>
      match seedBytes hex raw with
      | .error error => .error error
      | .ok trimmed =>
          if sized : trimmed.length = 32 then .ok ⟨trimmed, sized⟩
          else .error ⟨.invalidData,
            "authority key must be 32 bytes (or 64 hex chars)"⟩

private theorem isHexText_ascii {byte : UInt8} :
    isHexText byte = true → byte.toNat < 128 := by
  revert byte
  apply forall_byte
  decide +kernel

private theorem isAsciiWhitespace_spec {byte : UInt8} :
    isAsciiWhitespace byte = true →
      isWhitespace (asciiChar byte) = true ∧ isHexText byte = true := by
  revert byte
  apply forall_byte
  decide +kernel

def trimmedBytes (raw : List UInt8) : List UInt8 :=
  (trim (String.ofList (raw.map asciiChar))).toList.flatMap
    String.utf8EncodeChar

private theorem length_trimmedBytes_le {raw : List UInt8}
    (ascii : ∀ byte ∈ raw, byte.toNat < 128) :
    (trimmedBytes raw).length ≤ raw.length := by
  have part : (((raw.map asciiChar).dropWhile isWhitespace).rdropWhile
      isWhitespace).Sublist (raw.map asciiChar) :=
    (List.rdropWhile_prefix _ _).sublist.trans (List.dropWhile_sublist _)
  have bytes := part.flatMap String.utf8EncodeChar
  rw [flatMap_asciiChar ascii] at bytes
  rw [trimmedBytes, trim, String.toList_ofList, String.toList_ofList]
  exact bytes.length_le

private theorem seedBytes_text {raw : List UInt8}
    (text : raw.all isHexText = true) :
    seedBytes hex raw =
      match hex.decode (trimmedBytes raw) with
      | .error error =>
          .error ⟨.invalidData, "bad hex: " ++ hex.display error⟩
      | .ok bytes => .ok bytes := by
  have decoded := utf8Decode?_ascii fun byte member =>
    isHexText_ascii (List.all_eq_true.mp text byte member)
  simp only [seedBytes, text, decoded, if_true, trimmedBytes]

/-- A seed is read back from any digits of it, with any whitespace around them.
From its own bytes it is read back unless they all look like digits or
whitespace, in which case the file is refused. -/
theorem seed_files_read_back (seed : Bytes 32) {lead digits trail : List UInt8}
    (leads : ∀ byte ∈ lead, isAsciiWhitespace byte = true)
    (trails : ∀ byte ∈ trail, isAsciiWhitespace byte = true)
    (decodes : hex.decode digits = .ok seed.val) :
    readEd25519Seed hex (.ok (lead ++ digits ++ trail)) = .ok seed ∧
      (seed.val.all isHexText = false →
        readEd25519Seed hex (.ok seed.val) = .ok seed) ∧
      (seed.val.all isHexText = true →
        ∃ error, readEd25519Seed hex (.ok seed.val) = .error error) := by
  have hexdigits := hex.digits_of_decode decodes
  refine ⟨?_, ?_, ?_⟩
  · have text : (lead ++ digits ++ trail).all isHexText = true := by
      rw [List.all_eq_true]
      intro byte member
      simp only [List.mem_append] at member
      rcases member with (lead | digit) | trail
      · exact (isAsciiWhitespace_spec (leads byte lead)).2
      · rw [isHexText, hexdigits byte digit, Bool.true_or]
      · exact (isAsciiWhitespace_spec (trails byte trail)).2
    have trimmed := digits_of_padded lead digits trail
      (fun byte member => (isAsciiWhitespace_spec (leads byte member)).1)
      (fun byte member => (isAsciiWhitespace_spec (trails byte member)).1)
      fun byte member => isAsciiHexdigit_spec (hexdigits byte member)
    simp only [readEd25519Seed, seedBytes_text hex text, trimmedBytes,
      trimmed, decodes]
    exact dif_pos seed.property
  · intro raw
    simp only [readEd25519Seed, seedBytes, raw, Bool.false_eq_true, if_false]
    exact dif_pos seed.property
  · intro text
    have ascii : ∀ byte ∈ seed.val, byte.toNat < 128 := fun byte member =>
      isHexText_ascii (List.all_eq_true.mp text byte member)
    have short := length_trimmedBytes_le ascii
    rw [seed.property] at short
    simp only [readEd25519Seed, seedBytes_text hex text]
    cases decoded : hex.decode (trimmedBytes seed.val) with
    | error error => exact ⟨_, rfl⟩
    | ok bytes =>
        have half := hex.length_of_decode decoded
        exact ⟨_, dif_neg (by omega)⟩

def sampleDigits (last : UInt8) : List UInt8 :=
  (List.replicate 32 [48, last]).flatten

/-- A seed of line feeds is read from its digits and refused as it is, and one
of other control characters is read in both forms. -/
theorem sample_seed_files_read_back :
    (readEd25519Seed .plain (.ok ([32] ++ sampleDigits 65 ++ [10])) =
        .ok (.replicate 32 10) ∧
      ∃ error, readEd25519Seed .plain (.ok (List.replicate 32 10)) =
        .error error) ∧
    readEd25519Seed .plain (.ok ([32] ++ sampleDigits 70 ++ [10])) =
        .ok (.replicate 32 15) ∧
      readEd25519Seed .plain (.ok (List.replicate 32 15)) =
        .ok (.replicate 32 15) := by
  have leads : ∀ byte ∈ ([32] : List UInt8), isAsciiWhitespace byte = true :=
    List.forall_mem_singleton.mpr rfl
  have trails : ∀ byte ∈ ([10] : List UInt8), isAsciiWhitespace byte = true :=
    List.forall_mem_singleton.mpr rfl
  have feeds := seed_files_read_back .plain (.replicate 32 10) leads trails
    (rfl : HexCrate.plain.decode (sampleDigits 65) = _)
  have others := seed_files_read_back .plain (.replicate 32 15) leads trails
    (rfl : HexCrate.plain.decode (sampleDigits 70) = _)
  exact ⟨⟨feeds.1, feeds.2.2 (by decide +kernel)⟩, others.1,
    others.2.1 (by decide +kernel)⟩

end GothamRelay
