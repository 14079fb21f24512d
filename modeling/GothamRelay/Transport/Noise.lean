import Mathlib.Data.List.Defs
import GothamRelay.Data.Bytes
import GothamRelay.Time

namespace GothamRelay

open Data

inductive TransportError where
  | io
  | write
  | read
  | noise
  | badHandshake
  | unreachable (timeout : Duration)
  deriving DecidableEq, Repr

abbrev Transport (χ : Type) := ExceptT TransportError (StateM χ)

/-- The sending half of a connection: the Noise state, which seals messages,
and the stream, either of which may fail at any call. -/
structure NoiseLink (χ : Type) where
  writeMessage : List UInt8 → Transport χ (List UInt8)
  writeAll : List UInt8 → Transport χ Unit

def noiseChunk : Nat := 32 * 1024

namespace NoiseLink

def writeOneNoiseMsg (link : NoiseLink χ) (msg : List UInt8) :
    Transport χ Unit := do
  let sealed ← link.writeMessage msg
  if sealed.length ≥ 2 ^ 16 then
    throw .badHandshake
  link.writeAll (beBytes 2 sealed.length)
  link.writeAll sealed

def writeChunks (link : NoiseLink χ) : List (List UInt8) → Transport χ Unit
  | [] => pure ()
  | chunk :: chunks => do
      link.writeOneNoiseMsg chunk
      link.writeChunks chunks

def writeNoiseBlob (link : NoiseLink χ) (maxMailboxFrame : Nat)
    (blob : List UInt8) : Transport χ Unit := do
  if blob.length > maxMailboxFrame then
    throw .badHandshake
  link.writeOneNoiseMsg (beBytes 4 blob.length)
  link.writeChunks (blob.toChunks noiseChunk)

end NoiseLink

structure NoiseReader (χ : Type) where
  readExact : Nat → Transport χ (List UInt8)
  readMessage : List UInt8 → Transport χ (List UInt8)

def noiseTagLen : Nat := 16

namespace NoiseReader

/-- The length of the message, and `out` with the message at its end. -/
def readOneNoiseMsg (reader : NoiseReader χ) (out : List UInt8) :
    Transport χ (Nat × List UInt8) := do
  let lenBytes ← reader.readExact 2
  let clen := ofBeBytes lenBytes
  if ¬(noiseTagLen + 1 ≤ clen ∧ clen ≤ noiseChunk + noiseTagLen) then
    throw .badHandshake
  let cbuf ← reader.readExact clen
  let msg ← reader.readMessage cbuf
  return (msg.length, out ++ msg)

/-- The loop of `read_noise_blob_capped`. A message has to add something, so
that it ends. -/
def readUntil (reader : NoiseReader χ) (total : Nat) (out : List UInt8) :
    Transport χ (List UInt8) :=
  if out.length < total then do
    let read ← reader.readOneNoiseMsg out
    if read.2.length ≤ out.length ∨ read.2.length > total then
      throw .badHandshake
    else
      reader.readUntil total read.2
  else pure out
termination_by total - out.length

def readNoiseBlobCapped (reader : NoiseReader χ) (maxFrame : Nat) :
    Transport χ (List UInt8) := do
  let header ← reader.readOneNoiseMsg []
  if header.2.length ≠ 4 then
    throw .badHandshake
  let total := ofBeBytes header.2
  if total > maxFrame then
    throw .badHandshake
  reader.readUntil total []

def readNoiseBlob (reader : NoiseReader χ) (maxMailboxFrame : Nat) :
    Transport χ (List UInt8) :=
  reader.readNoiseBlobCapped maxMailboxFrame

end NoiseReader

end GothamRelay
