import GothamRelay.Transport.Blobs

namespace GothamRelay

open Data

/-! The blob reader with the sizes that its buffer takes. Before a message is
opened the buffer grows by the length of the ciphertext. -/

variable {χ α β : Type}

namespace Transport

def unmeasured (action : Transport χ α) : Transport (χ × List Nat) α :=
  ExceptT.mk fun state =>
    let ran := action.run state.1
    (ran.1, ran.2, state.2)

def resize (size : Nat) : Transport (χ × List Nat) Unit :=
  ExceptT.mk fun state => (.ok (), state.1, state.2 ++ [size])

def Measures (measured : Transport (χ × List Nat) α)
    (plain : Transport χ α) : Prop :=
  ∀ stream sizes,
    (measured.run (stream, sizes)).1 = (plain.run stream).1 ∧
      (measured.run (stream, sizes)).2.1 = (plain.run stream).2

def Within (count bound : Nat) (measured : Transport (χ × List Nat) α) :
    Prop :=
  ∀ stream sizes, ∃ added,
    (measured.run (stream, sizes)).2.2 = sizes ++ added ∧
      added.length ≤ count ∧ ∀ size ∈ added, size ≤ bound

theorem Measures.bind {measured : Transport (χ × List Nat) α}
    {plain : Transport χ α} {next : α → Transport (χ × List Nat) β}
    {plainNext : α → Transport χ β} (first : Measures measured plain)
    (rest : ∀ value, Measures (next value) (plainNext value)) :
    Measures (measured >>= next) (plain >>= plainNext) := by
  intro stream sizes
  have same := first stream sizes
  cases ran : measured.run (stream, sizes) with
  | mk result state =>
      cases plainRan : plain.run stream with
      | mk plainResult after =>
          rw [ran, plainRan] at same
          obtain ⟨rfl, rfl⟩ := same
          cases result with
          | error error =>
              rw [run_bind_error next ran, run_bind_error plainNext plainRan]
              exact ⟨rfl, rfl⟩
          | ok value =>
              rw [run_bind_ok ran, run_bind_ok plainRan]
              exact rest value state.1 state.2

theorem Within.bind {first later bound : Nat}
    {measured : Transport (χ × List Nat) α}
    {next : α → Transport (χ × List Nat) β}
    (before : Within first bound measured)
    (after : ∀ value, Within later bound (next value)) :
    Within (first + later) bound (measured >>= next) := by
  intro stream sizes
  obtain ⟨added, grown, few, small⟩ := before stream sizes
  cases ran : measured.run (stream, sizes) with
  | mk result state =>
      rw [ran] at grown
      cases result with
      | error error =>
          rw [run_bind_error next ran]
          exact ⟨added, grown, by omega, small⟩
      | ok value =>
          obtain ⟨more, grownMore, fewMore, smallMore⟩ :=
            after value state.1 state.2
          rw [run_bind_ok ran]
          refine ⟨added ++ more, ?_, ?_, ?_⟩
          · rw [← List.append_assoc, ← grown]
            exact grownMore
          · rw [List.length_append]
            omega
          · intro size member
            cases List.mem_append.mp member with
            | inl early => exact small size early
            | inr late => exact smallMore size late

theorem Within.mono {count more bound higher : Nat}
    {measured : Transport (χ × List Nat) α}
    (within : Within count bound measured) (fewer : count ≤ more)
    (lower : bound ≤ higher) : Within more higher measured := by
  intro stream sizes
  obtain ⟨added, grown, few, small⟩ := within stream sizes
  exact ⟨added, grown, few.trans fewer,
    fun size member => (small size member).trans lower⟩

theorem Within.run {first count bound : Nat}
    {measured : Transport (χ × List Nat) α}
    (within : Within count bound measured) {state : χ × List Nat}
    (few : state.2.length ≤ first) (small : ∀ size ∈ state.2, size ≤ bound) :
    (measured.run state).2.2.length ≤ count + first ∧
      ∀ size ∈ (measured.run state).2.2, size ≤ bound := by
  obtain ⟨added, grown, fewAdded, smallAdded⟩ := within state.1 state.2
  rw [grown, List.length_append]
  refine ⟨by omega, ?_⟩
  intro size member
  cases List.mem_append.mp member with
  | inl early => exact small size early
  | inr late => exact smallAdded size late

private theorem measures_unmeasured (action : Transport χ α) :
    Measures (unmeasured action) action :=
  fun _ _ => ⟨rfl, rfl⟩

private theorem Measures.resize {measured : Transport (χ × List Nat) α}
    {plain : Transport χ α} (rest : Measures measured plain) (size : Nat) :
    Measures (resize size >>= fun _ => measured) plain :=
  fun stream sizes => rest stream (sizes ++ [size])

private theorem within_of_silent {measured : Transport (χ × List Nat) α}
    (silent : ∀ stream sizes, (measured.run (stream, sizes)).2.2 = sizes)
    (count bound : Nat) : Within count bound measured := by
  intro stream sizes
  refine ⟨[], ?_, Nat.zero_le count, ?_⟩
  · rw [silent, List.append_nil]
  · intro size member
    exact absurd member List.not_mem_nil

private theorem Within.unmeasured_bind {count bound : Nat}
    {action : Transport χ α} {next : α → Transport (χ × List Nat) β}
    (rest : ∀ value, Within count bound (next value)) :
    Within count bound (unmeasured action >>= next) := by
  have within := (within_of_silent (fun _ _ => rfl) 0 bound :
    Within 0 bound (unmeasured action)).bind rest
  rw [Nat.zero_add] at within
  exact within

private theorem Within.resize_bind {count bound size : Nat}
    {measured : Transport (χ × List Nat) α}
    (rest : Within count bound measured) (small : size ≤ bound) :
    Within (count + 1) bound (resize size >>= fun _ => measured) := by
  rw [Nat.add_comm]
  apply Within.bind _ fun _ => rest
  intro stream sizes
  refine ⟨[size], rfl, Nat.le_refl 1, ?_⟩
  intro other member
  rw [List.mem_singleton.mp member]
  exact small

end Transport

open Transport

namespace NoiseReader

variable (reader : NoiseReader χ)

def readOneNoiseMsgMeasured (out : List UInt8) :
    Transport (χ × List Nat) (Nat × List UInt8) := do
  let lenBytes ← unmeasured (reader.readExact 2)
  let clen := ofBeBytes lenBytes
  if ¬(noiseTagLen + 1 ≤ clen ∧ clen ≤ noiseChunk + noiseTagLen) then
    throw .badHandshake
  let cbuf ← unmeasured (reader.readExact clen)
  resize (out.length + clen)
  let msg ← unmeasured (reader.readMessage cbuf)
  return (msg.length, out ++ msg)

def readUntilMeasured (total : Nat) (out : List UInt8) :
    Transport (χ × List Nat) (List UInt8) :=
  if out.length < total then do
    let read ← reader.readOneNoiseMsgMeasured out
    if read.2.length ≤ out.length ∨ read.2.length > total then
      throw .badHandshake
    else
      readUntilMeasured total read.2
  else pure out
termination_by total - out.length

def readNoiseBlobCappedMeasured (maxFrame : Nat) :
    Transport (χ × List Nat) (List UInt8) := do
  let header ← reader.readOneNoiseMsgMeasured []
  if header.2.length ≠ 4 then
    throw .badHandshake
  let total := ofBeBytes header.2
  if total > maxFrame then
    throw .badHandshake
  reader.readUntilMeasured total []

private theorem measures_readOneNoiseMsg (out : List UInt8) :
    Measures (reader.readOneNoiseMsgMeasured out)
      (reader.readOneNoiseMsg out) := by
  unfold readOneNoiseMsgMeasured readOneNoiseMsg
  apply (measures_unmeasured _).bind
  intro lenBytes
  dsimp only
  split
  · exact fun _ _ => ⟨rfl, rfl⟩
  · apply (measures_unmeasured _).bind
    intro cbuf
    apply Measures.resize
    apply (measures_unmeasured _).bind
    intro msg
    exact fun _ _ => ⟨rfl, rfl⟩

private theorem within_readOneNoiseMsg (out : List UInt8) :
    Within 1 (out.length + (noiseChunk + noiseTagLen))
      (reader.readOneNoiseMsgMeasured out) := by
  unfold readOneNoiseMsgMeasured
  apply Within.unmeasured_bind
  intro lenBytes
  dsimp only
  split
  · exact within_of_silent (fun _ _ => rfl) _ _
  · rename_i inside
    have inside := not_not.mp inside
    apply Within.unmeasured_bind
    intro cbuf
    refine Within.resize_bind ?_ (by omega)
    apply Within.unmeasured_bind
    intro msg
    exact within_of_silent (fun _ _ => rfl) _ _

private theorem measures_readUntil (total : Nat) (out : List UInt8) :
    Measures (reader.readUntilMeasured total out)
      (reader.readUntil total out) := by
  induction left : total - out.length using Nat.strong_induction_on
    generalizing out with
  | h remaining ih =>
      rw [readUntilMeasured, readUntil]
      split
      · apply (reader.measures_readOneNoiseMsg out).bind
        intro read
        split
        · exact fun _ _ => ⟨rfl, rfl⟩
        · exact ih (total - read.2.length) (by omega) read.2 rfl
      · exact fun _ _ => ⟨rfl, rfl⟩

private theorem within_readUntil {total : Nat} {out : List UInt8}
    (fits : out.length ≤ total) :
    Within (total - out.length) (total + (noiseChunk + noiseTagLen))
      (reader.readUntilMeasured total out) := by
  induction left : total - out.length using Nat.strong_induction_on
    generalizing out with
  | h remaining ih =>
      rw [readUntilMeasured]
      split
      · rename_i unfinished
        have rest : ∀ read : Nat × List UInt8,
            Within (remaining - 1) (total + (noiseChunk + noiseTagLen))
              (if read.2.length ≤ out.length ∨ read.2.length > total then
                throw .badHandshake
              else reader.readUntilMeasured total read.2) := by
          intro read
          split
          · exact within_of_silent (fun _ _ => rfl) _ _
          · apply (ih (total - read.2.length) (by omega) (by omega) rfl).mono
              (by omega) (Nat.le_refl _)
        have first := (reader.within_readOneNoiseMsg out).mono (Nat.le_refl 1)
          (Nat.add_le_add_right fits _)
        exact (first.bind rest).mono (by omega) (Nat.le_refl _)
      · exact within_of_silent (fun _ _ => rfl) _ _

theorem measures_readNoiseBlobCapped (maxFrame : Nat) :
    Measures (reader.readNoiseBlobCappedMeasured maxFrame)
      (reader.readNoiseBlobCapped maxFrame) := by
  unfold readNoiseBlobCappedMeasured readNoiseBlobCapped
  apply (reader.measures_readOneNoiseMsg []).bind
  intro header
  dsimp only
  split
  · exact fun _ _ => ⟨rfl, rfl⟩
  · split
    · exact fun _ _ => ⟨rfl, rfl⟩
    · exact reader.measures_readUntil _ []

def announced (stream : χ) : Nat :=
  match ((reader.readOneNoiseMsg []).run stream).1 with
  | .ok header => if header.2.length = 4 then ofBeBytes header.2 else 0
  | .error _ => 0

theorem sizes_readNoiseBlobCapped (maxFrame : Nat) (stream : χ) :
    let sizes := ((reader.readNoiseBlobCappedMeasured maxFrame).run
      (stream, [])).2.2
    sizes.length ≤ reader.announced stream + 1 ∧
      ∀ size ∈ sizes,
        size ≤ reader.announced stream + (noiseChunk + noiseTagLen) := by
  have same := (reader.measures_readOneNoiseMsg [] stream []).1
  obtain ⟨added, grown, few, small⟩ :=
    reader.within_readOneNoiseMsg [] stream []
  rw [List.length_nil, Nat.zero_add] at small
  unfold readNoiseBlobCappedMeasured announced
  cases ran : (reader.readOneNoiseMsgMeasured []).run (stream, []) with
  | mk result state =>
      rw [ran, List.nil_append] at grown
      rw [ran] at same
      rw [← same]
      cases result with
      | error error =>
          rw [run_bind_error _ ran, grown]
          exact ⟨by omega, fun size member =>
            Nat.le_add_left_of_le (small size member)⟩
      | ok header =>
          rw [run_bind_ok ran]
          dsimp only at grown ⊢
          rw [← grown] at few small
          apply Within.run _ few fun size member =>
            Nat.le_add_left_of_le (small size member)
          by_cases four : header.2.length = 4
          · rw [if_pos four, if_neg (not_not.mpr four)]
            split
            · exact within_of_silent (fun _ _ => rfl) _ _
            · exact reader.within_readUntil (Nat.zero_le _)
          · rw [if_pos four]
            exact within_of_silent (fun _ _ => rfl) _ _

end NoiseReader

end GothamRelay
