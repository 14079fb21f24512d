import GothamRelay.Data.Chunks
import GothamRelay.Transport.Noise

namespace GothamRelay

open Data

/-- A Noise session as an ordered channel: what was sealed as the message of
a number is opened as the message of that number. -/
structure OrderedNoise where
  sealAt : Nat → List UInt8 → List UInt8
  openAt : Nat → List UInt8 → Option (List UInt8)
  length_sealAt : ∀ number msg,
    (sealAt number msg).length = msg.length + noiseTagLen
  openAt_sealAt : ∀ number msg, openAt number (sealAt number msg) = some msg

/-- One end of the connection: how many messages it has sealed or opened, and
the bytes written to the stream or still to be read from it. -/
structure NoiseStream where
  nonce : Nat
  bytes : List UInt8
  deriving DecidableEq, Repr

def noiseMaxMsgLen : Nat := 65535

namespace Transport

variable {χ α β : Type}

private theorem bind_apply (step : StateM χ (Except TransportError α))
    (rest : Except TransportError α → StateM χ (Except TransportError β))
    (before : χ) :
    (step >>= rest) before = rest (step before).1 (step before).2 :=
  rfl

theorem run_bind_ok {first : Transport χ α} {next : α → Transport χ β}
    {before after : χ} {value : α}
    (ran : first.run before = (.ok value, after)) :
    (first >>= next).run before = (next value).run after := by
  rw [ExceptT.run_bind, bind_apply, ran]

theorem run_bind_error {first : Transport χ α} (next : α → Transport χ β)
    {before after : χ} {error : TransportError}
    (ran : first.run before = (.error error, after)) :
    (first >>= next).run before = (.error error, after) := by
  rw [ExceptT.run_bind, bind_apply, ran]
  rfl

theorem run_bind_eq_ok_iff {first : Transport χ α} {next : α → Transport χ β}
    {before after : χ} {value : β} :
    (first >>= next).run before = (.ok value, after) ↔
      ∃ middle between, first.run before = (.ok middle, between) ∧
        (next middle).run between = (.ok value, after) := by
  cases ran : first.run before with
  | mk result between =>
      cases result with
      | error error =>
          rw [run_bind_error next ran]
          constructor
          · intro same
            cases same
          · rintro ⟨middle, between', same, _⟩
            cases same
      | ok middle =>
          rw [run_bind_ok ran]
          constructor
          · intro rest
            exact ⟨middle, between, rfl, rest⟩
          · rintro ⟨middle', between', same, rest⟩
            cases same
            exact rest

theorem run_check_eq_ok_iff {bad : Prop} [Decidable bad]
    {error : TransportError} {next : Unit → Transport χ β} {before after : χ}
    {value : β} :
    (if bad then (throw error : Transport χ Unit) >>= next
        else next ()).run before = (.ok value, after) ↔
      ¬bad ∧ (next ()).run before = (.ok value, after) := by
  by_cases holds : bad
  · rw [if_pos holds]
    constructor
    · intro same
      cases same
    · rintro ⟨fails, _⟩
      exact absurd holds fails
  · rw [if_neg holds]
    exact ⟨fun rest => ⟨holds, rest⟩, And.right⟩

theorem run_else_eq_ok_iff {bad : Prop} [Decidable bad]
    {error : TransportError} {next : Transport χ β} {before after : χ}
    {value : β} :
    (if bad then throw error else next).run before = (.ok value, after) ↔
      ¬bad ∧ next.run before = (.ok value, after) := by
  by_cases holds : bad
  · rw [if_pos holds]
    constructor
    · intro same
      cases same
    · rintro ⟨fails, _⟩
      exact absurd holds fails
  · rw [if_neg holds]
    exact ⟨fun rest => ⟨holds, rest⟩, And.right⟩

end Transport

namespace OrderedNoise

variable (noise : OrderedNoise)

def link : NoiseLink NoiseStream where
  writeMessage msg := ExceptT.mk fun stream =>
    if msg.length + noiseTagLen > noiseMaxMsgLen then
      (.error .noise, stream)
    else
      (.ok (noise.sealAt stream.nonce msg), ⟨stream.nonce + 1, stream.bytes⟩)
  writeAll bytes := ExceptT.mk fun stream =>
    (.ok (), ⟨stream.nonce, stream.bytes ++ bytes⟩)

def reader : NoiseReader NoiseStream where
  readExact len := ExceptT.mk fun stream =>
    if stream.bytes.length < len then
      (.error .read, stream)
    else
      (.ok (stream.bytes.take len), ⟨stream.nonce, stream.bytes.drop len⟩)
  readMessage cbuf := ExceptT.mk fun stream =>
    match noise.openAt stream.nonce cbuf with
    | none => (.error .noise, stream)
    | some msg => (.ok msg, ⟨stream.nonce + 1, stream.bytes⟩)

def frame (number : Nat) (msg : List UInt8) : List UInt8 :=
  beBytes 2 (msg.length + noiseTagLen) ++ noise.sealAt number msg

def frames : Nat → List (List UInt8) → List UInt8
  | _, [] => []
  | number, msg :: msgs => noise.frame number msg ++ frames (number + 1) msgs

private theorem frames_append (number : Nat) (msgs later : List (List UInt8)) :
    noise.frames number (msgs ++ later) =
      noise.frames number msgs ++ noise.frames (number + msgs.length) later := by
  induction msgs generalizing number with
  | nil => rfl
  | cons msg msgs ih =>
      rw [List.cons_append, frames, frames, ih, List.append_assoc,
        List.length_cons, Nat.add_assoc, Nat.add_comm 1]

private theorem run_writeMessage {msg : List UInt8}
    (short : msg.length ≤ noiseChunk) (nonce : Nat) (bytes : List UInt8) :
    (noise.link.writeMessage msg).run ⟨nonce, bytes⟩ =
      (.ok (noise.sealAt nonce msg), ⟨nonce + 1, bytes⟩) := by
  have allowed : ¬ msg.length + noiseTagLen > noiseMaxMsgLen := by
    unfold noiseChunk at short
    unfold noiseTagLen noiseMaxMsgLen
    omega
  exact if_neg allowed

private theorem run_writeOneNoiseMsg {msg : List UInt8}
    (short : msg.length ≤ noiseChunk) (nonce : Nat) (bytes : List UInt8) :
    (noise.link.writeOneNoiseMsg msg).run ⟨nonce, bytes⟩ =
      (.ok (), ⟨nonce + 1, bytes ++ noise.frame nonce msg⟩) := by
  have allowed : ¬ (noise.sealAt nonce msg).length ≥ 2 ^ 16 := by
    rw [noise.length_sealAt]
    unfold noiseChunk at short
    unfold noiseTagLen
    omega
  unfold NoiseLink.writeOneNoiseMsg
  rw [Transport.run_bind_ok (noise.run_writeMessage short nonce bytes),
    if_neg allowed, frame, ← List.append_assoc, noise.length_sealAt]
  rfl

private theorem run_writeChunks {chunks : List (List UInt8)}
    (sized : ∀ chunk ∈ chunks, Sized noiseChunk chunk) (nonce : Nat)
    (bytes : List UInt8) :
    (noise.link.writeChunks chunks).run ⟨nonce, bytes⟩ =
      (.ok (), ⟨nonce + chunks.length, bytes ++ noise.frames nonce chunks⟩) := by
  induction chunks generalizing nonce bytes with
  | nil =>
      rw [frames, List.append_nil]
      rfl
  | cons chunk chunks ih =>
      have short := (sized chunk List.mem_cons_self).2
      have later := fun other member => sized other (List.mem_cons_of_mem _ member)
      rw [NoiseLink.writeChunks,
        Transport.run_bind_ok (noise.run_writeOneNoiseMsg short nonce bytes),
        ih later, frames, List.append_assoc, List.length_cons,
        Nat.add_assoc, Nat.add_comm 1]

def blobMessages (blob : List UInt8) : List (List UInt8) :=
  beBytes 4 blob.length :: blob.toChunks noiseChunk

private theorem sized_chunks (blob : List UInt8) :
    ∀ chunk ∈ blob.toChunks noiseChunk, Sized noiseChunk chunk :=
  sized_toChunks (by decide) blob

private theorem sized_header (blob : List UInt8) :
    Sized noiseChunk (beBytes 4 blob.length) := by
  unfold Sized noiseChunk
  rw [length_beBytes]
  decide

private theorem run_writeNoiseBlob {maxMailboxFrame : Nat} {blob : List UInt8}
    (fits : blob.length ≤ maxMailboxFrame) (nonce : Nat) (bytes : List UInt8) :
    (noise.link.writeNoiseBlob maxMailboxFrame blob).run ⟨nonce, bytes⟩ =
      (.ok (), ⟨nonce + (blobMessages blob).length,
        bytes ++ noise.frames nonce (blobMessages blob)⟩) := by
  have header := noise.run_writeOneNoiseMsg (sized_header blob).2 nonce bytes
  unfold NoiseLink.writeNoiseBlob
  rw [if_neg (Nat.not_lt.mpr fits), Transport.run_bind_ok header,
    noise.run_writeChunks (sized_chunks blob), blobMessages, frames,
    List.append_assoc, List.length_cons, Nat.add_assoc, Nat.add_comm 1]

private theorem run_readExact (nonce : Nat) (front later : List UInt8) :
    (noise.reader.readExact front.length).run ⟨nonce, front ++ later⟩ =
      (.ok front, ⟨nonce, later⟩) := by
  have enough : ¬ (front ++ later).length < front.length := by
    rw [List.length_append]
    omega
  simp only [reader, ExceptT.run_mk]
  rw [if_neg enough, List.take_left, List.drop_left]

private theorem run_readMessage (nonce : Nat) (msg bytes : List UInt8) :
    (noise.reader.readMessage (noise.sealAt nonce msg)).run ⟨nonce, bytes⟩ =
      (.ok msg, ⟨nonce + 1, bytes⟩) := by
  simp only [reader, ExceptT.run_mk]
  rw [noise.openAt_sealAt]

private theorem run_readOneNoiseMsg {msg : List UInt8}
    (sized : Sized noiseChunk msg) (nonce : Nat) (out later : List UInt8) :
    (noise.reader.readOneNoiseMsg out).run
        ⟨nonce, noise.frame nonce msg ++ later⟩ =
      (.ok (msg.length, out ++ msg), ⟨nonce + 1, later⟩) := by
  have clen : msg.length + noiseTagLen < 256 ^ 2 := by
    have short := sized.2
    unfold noiseChunk at short
    unfold noiseTagLen
    omega
  have inside : ¬ ¬ (noiseTagLen + 1 ≤ msg.length + noiseTagLen ∧
      msg.length + noiseTagLen ≤ noiseChunk + noiseTagLen) := by
    have positive := sized.1
    have short := sized.2
    omega
  have readLen := noise.run_readExact nonce
    (beBytes 2 (msg.length + noiseTagLen)) (noise.sealAt nonce msg ++ later)
  have readBuf := noise.run_readExact nonce (noise.sealAt nonce msg) later
  rw [length_beBytes] at readLen
  rw [noise.length_sealAt] at readBuf
  unfold NoiseReader.readOneNoiseMsg
  rw [frame, List.append_assoc, Transport.run_bind_ok readLen,
    ofBeBytes_beBytes clen, if_neg inside, Transport.run_bind_ok readBuf,
    Transport.run_bind_ok (noise.run_readMessage nonce msg later)]
  rfl

private theorem run_readUntil {chunks : List (List UInt8)}
    (sized : ∀ chunk ∈ chunks, Sized noiseChunk chunk) (nonce : Nat)
    (out later : List UInt8) :
    (noise.reader.readUntil (out ++ chunks.flatten).length out).run
        ⟨nonce, noise.frames nonce chunks ++ later⟩ =
      (.ok (out ++ chunks.flatten), ⟨nonce + chunks.length, later⟩) := by
  -- Reading goes on to the total and no further, since every chunk adds
  -- something and all of them add up to it.
  induction chunks generalizing nonce out with
  | nil =>
      rw [NoiseReader.readUntil, List.flatten_nil, List.append_nil,
        if_neg (Nat.lt_irrefl _)]
      rfl
  | cons chunk chunks ih =>
      have first := sized chunk List.mem_cons_self
      have rest := fun other member => sized other (List.mem_cons_of_mem _ member)
      have positive := first.1
      have total : (out ++ (chunk :: chunks).flatten).length =
          out.length + chunk.length + chunks.flatten.length := by
        rw [List.length_append, List.flatten_cons, List.length_append,
          Nat.add_assoc]
      have unfinished : out.length < (out ++ (chunk :: chunks).flatten).length := by
        omega
      have within : ¬ ((out ++ chunk).length ≤ out.length ∨
          (out ++ chunk).length > (out ++ (chunk :: chunks).flatten).length) := by
        rw [List.length_append]
        omega
      have read := noise.run_readOneNoiseMsg first nonce out
        (noise.frames (nonce + 1) chunks ++ later)
      rw [NoiseReader.readUntil, if_pos unfinished, frames, List.append_assoc,
        Transport.run_bind_ok read, if_neg within, List.flatten_cons,
        ← List.append_assoc, ih rest, List.length_cons, Nat.add_assoc,
        Nat.add_comm 1]

private theorem run_readNoiseBlobCapped {maxFrame : Nat} {blob : List UInt8}
    (encoded : blob.length < 2 ^ 32) (capped : blob.length ≤ maxFrame)
    (nonce : Nat) (later : List UInt8) :
    (noise.reader.readNoiseBlobCapped maxFrame).run
        ⟨nonce, noise.frames nonce (blobMessages blob) ++ later⟩ =
      (.ok blob, ⟨nonce + (blobMessages blob).length, later⟩) := by
  have header := noise.run_readOneNoiseMsg (sized_header blob) nonce []
    (noise.frames (nonce + 1) (blob.toChunks noiseChunk) ++ later)
  have four : ¬ (beBytes 4 blob.length).length ≠ 4 := by
    rw [length_beBytes]
    exact fun unequal => unequal rfl
  have body := noise.run_readUntil (sized_chunks blob) (nonce + 1) [] later
  rw [List.nil_append, flatten_toChunks] at body
  unfold NoiseReader.readNoiseBlobCapped
  rw [blobMessages, frames, List.append_assoc, Transport.run_bind_ok header,
    List.nil_append, if_neg four, ofBeBytes_beBytes encoded,
    if_neg (Nat.not_lt.mpr capped), body, List.length_cons, Nat.add_assoc,
    Nat.add_comm 1]

end OrderedNoise

def NoiseLink.writeNoiseBlobs (link : NoiseLink χ) (maxMailboxFrame : Nat) :
    List (List UInt8) → Transport χ Unit
  | [] => pure ()
  | blob :: blobs => do
      link.writeNoiseBlob maxMailboxFrame blob
      link.writeNoiseBlobs maxMailboxFrame blobs

def NoiseReader.readNoiseBlobs (reader : NoiseReader χ) (maxFrame : Nat) :
    Nat → Transport χ (List (List UInt8))
  | 0 => pure []
  | count + 1 => do
      let blob ← reader.readNoiseBlobCapped maxFrame
      let blobs ← reader.readNoiseBlobs maxFrame count
      return blob :: blobs

namespace OrderedNoise

variable (noise : OrderedNoise)

private theorem run_writeNoiseBlobs {maxMailboxFrame : Nat}
    {blobs : List (List UInt8)}
    (fit : ∀ blob ∈ blobs, blob.length ≤ maxMailboxFrame) (nonce : Nat)
    (bytes : List UInt8) :
    (noise.link.writeNoiseBlobs maxMailboxFrame blobs).run ⟨nonce, bytes⟩ =
      (.ok (), ⟨nonce + (blobs.flatMap blobMessages).length,
        bytes ++ noise.frames nonce (blobs.flatMap blobMessages)⟩) := by
  induction blobs generalizing nonce bytes with
  | nil =>
      rw [List.flatMap_nil, frames, List.append_nil]
      rfl
  | cons blob blobs ih =>
      have first := fit blob List.mem_cons_self
      have rest := fun other member => fit other (List.mem_cons_of_mem _ member)
      rw [NoiseLink.writeNoiseBlobs,
        Transport.run_bind_ok (noise.run_writeNoiseBlob first nonce bytes),
        ih rest, List.flatMap_cons, frames_append, List.append_assoc,
        List.length_append, Nat.add_assoc]

private theorem run_readNoiseBlobs {maxFrame : Nat} {blobs : List (List UInt8)}
    (encoded : ∀ blob ∈ blobs, blob.length < 2 ^ 32)
    (capped : ∀ blob ∈ blobs, blob.length ≤ maxFrame) (nonce : Nat)
    (later : List UInt8) :
    (noise.reader.readNoiseBlobs maxFrame blobs.length).run
        ⟨nonce, noise.frames nonce (blobs.flatMap blobMessages) ++ later⟩ =
      (.ok blobs, ⟨nonce + (blobs.flatMap blobMessages).length, later⟩) := by
  induction blobs generalizing nonce with
  | nil => rfl
  | cons blob blobs ih =>
      have first := noise.run_readNoiseBlobCapped
        (encoded blob List.mem_cons_self) (capped blob List.mem_cons_self) nonce
        (noise.frames (nonce + (blobMessages blob).length)
          (blobs.flatMap blobMessages) ++ later)
      have rest := ih
        (fun other member => encoded other (List.mem_cons_of_mem _ member))
        (fun other member => capped other (List.mem_cons_of_mem _ member))
        (nonce + (blobMessages blob).length)
      rw [List.length_cons, NoiseReader.readNoiseBlobs, List.flatMap_cons,
        frames_append, List.append_assoc, Transport.run_bind_ok first,
        Transport.run_bind_ok rest, List.length_append, Nat.add_assoc]
      rfl

/-- A session whose tag is the number of the message. -/
def numbered : OrderedNoise where
  sealAt number msg := msg ++ beBytes noiseTagLen number
  openAt number sealed :=
    let msg := sealed.take (sealed.length - noiseTagLen)
    if msg ++ beBytes noiseTagLen number = sealed then some msg else none
  length_sealAt number msg := by
    rw [List.length_append, length_beBytes]
  openAt_sealAt number msg := by
    simp only [List.length_append, length_beBytes, Nat.add_sub_cancel,
      List.take_left, if_true]

/-- An empty blob, one that takes two chunks and one that takes one. -/
def sampleBlobs : List (List UInt8) :=
  [[], List.replicate (noiseChunk + 1) 7, [1, 2, 3]]

private theorem length_sampleBlobs :
    ∀ blob ∈ sampleBlobs, blob.length ≤ noiseChunk + 1 := by
  intro blob member
  simp only [sampleBlobs, List.mem_cons, List.not_mem_nil, or_false] at member
  rcases member with same | same | same
  · rw [same]
    exact Nat.zero_le _
  · rw [same, List.length_replicate]
  · rw [same]
    decide

/-- What was written is read back blob by blob, up to its last byte and not
beyond, and the two ends have counted the same messages. -/
theorem blobs_round_trip {maxMailboxFrame maxFrame : Nat}
    (encoded : maxMailboxFrame < 2 ^ 32) {blobs : List (List UInt8)}
    (fit : ∀ blob ∈ blobs, blob.length ≤ maxMailboxFrame)
    (capped : ∀ blob ∈ blobs, blob.length ≤ maxFrame) :
    ∃ messages written,
      (noise.link.writeNoiseBlobs maxMailboxFrame blobs).run ⟨0, []⟩ =
        (.ok (), ⟨messages, written⟩) ∧
      ∀ later,
        (noise.reader.readNoiseBlobs maxFrame blobs.length).run
            ⟨0, written ++ later⟩ =
          (.ok blobs, ⟨messages, later⟩) := by
  refine ⟨_, _, noise.run_writeNoiseBlobs fit 0 [], ?_⟩
  intro later
  exact noise.run_readNoiseBlobs
    (fun blob member => Nat.lt_of_le_of_lt (fit blob member) encoded) capped 0
    later

theorem sampleBlobs_round_trip :
    noiseChunk + 1 < 2 ^ 32 ∧
    ∃ messages written,
      (numbered.link.writeNoiseBlobs (noiseChunk + 1) sampleBlobs).run ⟨0, []⟩ =
        (.ok (), ⟨messages, written⟩) ∧
      ∀ later,
        (numbered.reader.readNoiseBlobs (noiseChunk + 1) 3).run
            ⟨0, written ++ later⟩ =
          (.ok sampleBlobs, ⟨messages, later⟩) :=
  ⟨by decide, numbered.blobs_round_trip (by decide) length_sampleBlobs
    length_sampleBlobs⟩

end OrderedNoise

end GothamRelay
