import GothamRelay.Data.ByteSource
import GothamRelay.Transport.Buffer

namespace GothamRelay

open Data

/-! What `read_noise_blob_capped` accepts, when it stops and how much it
buffers, for any stream and any Noise session. -/

/-- A Noise session that opens what it likes. What it opens is shorter by the
tag. -/
structure NoiseOpener where
  openAt : Nat → List UInt8 → Option (List UInt8)
  length_openAt : ∀ {number sealed msg}, openAt number sealed = some msg →
    msg.length = sealed.length - noiseTagLen

structure NoisePosition where
  nonce : Nat
  offset : Nat
  deriving DecidableEq, Repr

namespace NoisePosition

def skip (position : NoisePosition) (msg : List UInt8) : NoisePosition where
  nonce := position.nonce + 1
  offset := position.offset + 2 + (msg.length + noiseTagLen)

def skipAll : NoisePosition → List (List UInt8) → NoisePosition
  | position, [] => position
  | position, msg :: msgs => (position.skip msg).skipAll msgs

end NoisePosition

namespace NoiseOpener

variable (noise : NoiseOpener) (source : ByteSource)

def reader : NoiseReader NoisePosition where
  readExact len := ExceptT.mk fun position =>
    match source.readAt position.offset len with
    | none => (.error .read, position)
    | some bytes => (.ok bytes, ⟨position.nonce, position.offset + len⟩)
  readMessage cbuf := ExceptT.mk fun position =>
    match noise.openAt position.nonce cbuf with
    | none => (.error .noise, position)
    | some msg => (.ok msg, ⟨position.nonce + 1, position.offset⟩)

/-! ## The grammar -/

/-- A well-formed message: its length, and a ciphertext of that length that
opens to 1 to 32768 bytes. -/
def Message (position : NoisePosition) (msg : List UInt8) : Prop :=
  Sized noiseChunk msg ∧
    ∃ sealed, sealed.length = msg.length + noiseTagLen ∧
      source.Holds position.offset (beBytes 2 sealed.length ++ sealed) ∧
      noise.openAt position.nonce sealed = some msg

def Messages : NoisePosition → List (List UInt8) → Prop
  | _, [] => True
  | position, msg :: msgs =>
      noise.Message source position msg ∧ Messages (position.skip msg) msgs

/-- A blob: its length in a message of four bytes, and messages that have this
length together. -/
def Blob (maxFrame : Nat) (position : NoisePosition) (out : List UInt8)
    (after : NoisePosition) : Prop :=
  ∃ total msgs, total ≤ maxFrame ∧ total < 2 ^ 32 ∧
    noise.Messages source position (beBytes 4 total :: msgs) ∧
    (msgs.map List.length).sum = total ∧ out = msgs.flatten ∧
    after = position.skipAll (beBytes 4 total :: msgs)

variable {noise source}

private theorem answer_eq_ok_iff {found : Option (List UInt8)}
    {error : TransportError} {bytes : List UInt8}
    {position next after : NoisePosition} :
    (match found with
      | none => (Except.error error, position)
      | some answer => (.ok answer, next)) = (.ok bytes, after) ↔
      found = some bytes ∧ after = next := by
  cases found with
  | none =>
      constructor
      · intro failed
        cases failed
      · rintro ⟨missing, _⟩
        cases missing
  | some answer =>
      constructor
      · intro answered
        cases answered
        exact ⟨rfl, rfl⟩
      · rintro ⟨same, rfl⟩
        cases same
        rfl

private theorem run_readExact_iff {len : Nat} {position after : NoisePosition}
    {bytes : List UInt8} :
    ((noise.reader source).readExact len).run position = (.ok bytes, after) ↔
      (bytes.length = len ∧ source.Holds position.offset bytes) ∧
        after = ⟨position.nonce, position.offset + len⟩ := by
  rw [← ByteSource.readAt_eq_some_iff]
  exact answer_eq_ok_iff

private theorem run_readMessage_iff {cbuf msg : List UInt8}
    {position after : NoisePosition} :
    ((noise.reader source).readMessage cbuf).run position =
        (.ok msg, after) ↔
      noise.openAt position.nonce cbuf = some msg ∧
        after = ⟨position.nonce + 1, position.offset⟩ :=
  answer_eq_ok_iff

private theorem run_readOneNoiseMsg_iff {out : List UInt8}
    {position after : NoisePosition} {read : Nat × List UInt8} :
    ((noise.reader source).readOneNoiseMsg out).run position =
        (.ok read, after) ↔
      ∃ msg, noise.Message source position msg ∧
        read = (msg.length, out ++ msg) ∧ after = position.skip msg := by
  unfold NoiseReader.readOneNoiseMsg
  rw [Transport.run_bind_eq_ok_iff]
  constructor
  · rintro ⟨lenBytes, _, readLen, checked⟩
    obtain ⟨⟨two, announced⟩, rfl⟩ := run_readExact_iff.mp readLen
    obtain ⟨inside, taken⟩ := Transport.run_check_eq_ok_iff.mp checked
    obtain ⟨cbuf, _, readBuf, opening⟩ :=
      Transport.run_bind_eq_ok_iff.mp taken
    obtain ⟨⟨size, held⟩, rfl⟩ := run_readExact_iff.mp readBuf
    obtain ⟨msg, _, readMsg, done⟩ :=
      Transport.run_bind_eq_ok_iff.mp opening
    obtain ⟨opened, rfl⟩ := run_readMessage_iff.mp readMsg
    cases done
    have inside := not_not.mp inside
    have shorter := noise.length_openAt opened
    have lenBytes_eq : beBytes 2 cbuf.length = lenBytes := by
      rw [size, ← two, beBytes_ofBeBytes]
    have total : ofBeBytes lenBytes = msg.length + noiseTagLen := by
      omega
    refine ⟨msg, ⟨⟨?_, ?_⟩, cbuf, ?_, ?_, opened⟩, rfl, ?_⟩
    · omega
    · omega
    · exact size.trans total
    · rw [lenBytes_eq, ByteSource.holds_append, two]
      exact ⟨announced, held⟩
    · rw [NoisePosition.skip, ← total]
  · rintro ⟨msg, ⟨sized, sealed, size, held, opened⟩, rfl, rfl⟩
    obtain ⟨announced, held⟩ := ByteSource.holds_append.mp held
    rw [length_beBytes] at held
    have positive := sized.1
    have short := sized.2
    have len : ofBeBytes (beBytes 2 sealed.length) = sealed.length := by
      apply ofBeBytes_beBytes
      unfold noiseChunk at short
      unfold noiseTagLen at size
      omega
    refine ⟨_, _, run_readExact_iff.mpr
      ⟨⟨length_beBytes 2 sealed.length, announced⟩, rfl⟩, ?_⟩
    apply Transport.run_check_eq_ok_iff.mpr
    rw [len]
    refine ⟨by omega, Transport.run_bind_eq_ok_iff.mpr ⟨sealed, _,
      run_readExact_iff.mpr ⟨⟨rfl, held⟩, rfl⟩, ?_⟩⟩
    apply Transport.run_bind_eq_ok_iff.mpr
    refine ⟨msg, _, run_readMessage_iff.mpr ⟨opened, rfl⟩, ?_⟩
    rw [NoisePosition.skip, ← size]
    rfl

private theorem run_readUntil_iff {total : Nat} {out : List UInt8}
    (fits : out.length ≤ total) {position after : NoisePosition}
    {result : List UInt8} :
    ((noise.reader source).readUntil total out).run position =
        (.ok result, after) ↔
      ∃ msgs, noise.Messages source position msgs ∧
        out.length + (msgs.map List.length).sum = total ∧
        result = out ++ msgs.flatten ∧ after = position.skipAll msgs := by
  -- The induction is on what is left to read. A message that would go past the
  -- total is refused, and one that adds nothing is not well formed.
  induction left : total - out.length using Nat.strong_induction_on
    generalizing out position with
  | h left ih =>
      rw [NoiseReader.readUntil]
      by_cases unfinished : out.length < total
      · rw [if_pos unfinished, Transport.run_bind_eq_ok_iff]
        constructor
        · rintro ⟨read, _, readMsg, checked⟩
          obtain ⟨msg, message, rfl, rfl⟩ :=
            run_readOneNoiseMsg_iff.mp readMsg
          obtain ⟨within, rest⟩ := Transport.run_else_eq_ok_iff.mp checked
          rw [List.length_append] at within
          obtain ⟨msgs, messages, sum, rfl, rfl⟩ :=
            (ih (total - (out ++ msg).length)
              (by rw [List.length_append]; omega)
              (by rw [List.length_append]; omega) rfl).mp rest
          refine ⟨msg :: msgs, ⟨message, messages⟩, ?_, ?_, rfl⟩
          · rw [List.length_append] at sum
            rw [List.map_cons, List.sum_cons]
            omega
          · rw [List.flatten_cons, List.append_assoc]
        · rintro ⟨msgs, messages, sum, rfl, rfl⟩
          cases msgs with
          | nil =>
              simp only [List.map_nil, List.sum_nil] at sum
              omega
          | cons msg msgs =>
              obtain ⟨message, messages⟩ := messages
              have positive := message.1.1
              rw [List.map_cons, List.sum_cons] at sum
              refine ⟨_, _, run_readOneNoiseMsg_iff.mpr
                ⟨msg, message, rfl, rfl⟩, ?_⟩
              apply Transport.run_else_eq_ok_iff.mpr
              rw [List.length_append]
              refine ⟨by omega, ?_⟩
              apply (ih (total - (out ++ msg).length)
                (by rw [List.length_append]; omega)
                (by rw [List.length_append]; omega) rfl).mpr
              refine ⟨msgs, messages, ?_, ?_, rfl⟩
              · rw [List.length_append]
                omega
              · rw [List.flatten_cons, List.append_assoc]
      · rw [if_neg unfinished]
        constructor
        · intro done
          cases done
          refine ⟨[], trivial, ?_, (List.append_nil _).symm, rfl⟩
          simp only [List.map_nil, List.sum_nil]
          omega
        · rintro ⟨msgs, messages, sum, rfl, rfl⟩
          cases msgs with
          | nil =>
              rw [List.flatten_nil, List.append_nil]
              rfl
          | cons msg msgs =>
              have positive := messages.1.1.1
              rw [List.map_cons, List.sum_cons] at sum
              omega

private theorem run_readNoiseBlobCapped_iff {maxFrame : Nat}
    {position after : NoisePosition} {out : List UInt8} :
    ((noise.reader source).readNoiseBlobCapped maxFrame).run position =
        (.ok out, after) ↔
      noise.Blob source maxFrame position out after := by
  unfold NoiseReader.readNoiseBlobCapped
  rw [Transport.run_bind_eq_ok_iff]
  constructor
  · rintro ⟨read, _, readMsg, checked⟩
    obtain ⟨header, message, rfl, rfl⟩ := run_readOneNoiseMsg_iff.mp readMsg
    obtain ⟨four, capped⟩ := Transport.run_check_eq_ok_iff.mp checked
    have four : header.length = 4 := not_not.mp four
    obtain ⟨small, rest⟩ := Transport.run_check_eq_ok_iff.mp capped
    obtain ⟨msgs, messages, sum, rfl, rfl⟩ :=
      (run_readUntil_iff (Nat.zero_le _)).mp rest
    have total : beBytes 4 (ofBeBytes header) = header := by
      rw [← four, beBytes_ofBeBytes]
    refine ⟨ofBeBytes header, msgs, Nat.not_lt.mp small, ?_, ?_, ?_, rfl, ?_⟩
    · have bound := ofBeBytes_lt header
      rw [four] at bound
      exact bound
    · rw [total]
      exact ⟨message, messages⟩
    · rw [List.length_nil, Nat.zero_add] at sum
      exact sum
    · rw [total]
      rfl
  · rintro ⟨total, msgs, small, encoded, ⟨message, messages⟩, sum, rfl, rfl⟩
    have decoded : ofBeBytes (beBytes 4 total) = total :=
      ofBeBytes_beBytes encoded
    refine ⟨_, _, run_readOneNoiseMsg_iff.mpr ⟨_, message, rfl, rfl⟩, ?_⟩
    apply Transport.run_check_eq_ok_iff.mpr
    refine ⟨not_not.mpr (length_beBytes 4 total), ?_⟩
    apply Transport.run_check_eq_ok_iff.mpr
    rw [List.nil_append, decoded]
    refine ⟨Nat.not_lt.mpr small, ?_⟩
    apply (run_readUntil_iff (Nat.zero_le _)).mpr
    refine ⟨msgs, messages, ?_, rfl, rfl⟩
    rw [List.length_nil, Nat.zero_add]
    exact sum

private theorem length_le_of_blob {maxFrame : Nat}
    {position after : NoisePosition}
    {out : List UInt8} (blob : noise.Blob source maxFrame position out after) :
    out.length ≤ maxFrame := by
  obtain ⟨total, msgs, small, _, _, sum, rfl, _⟩ := blob
  rw [List.length_flatten, sum]
  exact small

/-- For every stream the reader accepts the blobs of the grammar and reads no
further, opens at most one message more than the header announces bytes, and
buffers no more than what is announced and one ciphertext. -/
theorem blob_reader_accepts_grammar (noise : NoiseOpener)
    (source : ByteSource) (maxFrame : Nat) (position : NoisePosition) :
    let reader := noise.reader source
    let read := (reader.readNoiseBlobCapped maxFrame).run position
    let measured :=
      (reader.readNoiseBlobCappedMeasured maxFrame).run (position, [])
    (∀ out after, read = (.ok out, after) ↔
        noise.Blob source maxFrame position out after) ∧
      (∀ out, read.1 = .ok out → out.length ≤ maxFrame) ∧
      (measured.1 = read.1 ∧ measured.2.1 = read.2) ∧
      measured.2.2.length ≤ reader.announced position + 1 ∧
      ∀ size ∈ measured.2.2, size ≤ reader.announced position + 32784 := by
  intro reader read measured
  refine ⟨?_, ?_, ?_, ?_⟩
  · intro out after
    exact run_readNoiseBlobCapped_iff
  · intro out accepted
    have ran : read = (.ok out, read.2) := Prod.ext accepted rfl
    exact length_le_of_blob (run_readNoiseBlobCapped_iff.mp ran)
  · exact reader.measures_readNoiseBlobCapped maxFrame position []
  · exact reader.sizes_readNoiseBlobCapped maxFrame position

end NoiseOpener

end GothamRelay
