import GothamRelay.Data.Transition
import GothamRelay.Identity.KeyFile

namespace GothamRelay

open Data

/-! `write_key_file` as the steps of any number of processes that are given
the same path. -/

inductive KeygenError where
  | alreadyExists (message : String)
  | io
  deriving DecidableEq, Repr

inductive KeygenPhase where
  | starting
  | checked
  | writing (file offset : Nat)
  | returned (result : Except KeygenError Unit)
  | crashed

structure Keygen where
  sk : Key
  phase : KeygenPhase

structure KeygenRace where
  fs : FileSystem Path
  keygens : List Keygen

inductive KeygenAction where
  | start (sk : Key)
  | checkExists (keygen : Nat)
  | createNew (keygen : Nat)
  | write (keygen count : Nat)
  | finish (keygen : Nat)
  | fail (keygen : Nat)
  | crash (keygen : Nat)

namespace KeygenRace

def setPhase (race : KeygenRace) (keygen : Nat) (sk : Key)
    (phase : KeygenPhase) : KeygenRace :=
  { race with keygens := race.keygens.set keygen ⟨sk, phase⟩ }

/-- One step of a process, if it is at that point. `create_new` is one call of
the system, and `write_all` writes as many bytes at a time as the system
takes. -/
def step (hex : HexCrate) (path : Path) (race : KeygenRace) :
    KeygenAction → Option KeygenRace
  | .start sk =>
      some { race with keygens := race.keygens ++ [⟨sk, .starting⟩] }
  | .checkExists keygen =>
      match race.keygens[keygen]? with
      | some ⟨sk, .starting⟩ =>
          if (race.fs.directory path).isSome then
            some (race.setPhase keygen sk (.returned (.error (.alreadyExists
              "key file already exists — refusing to overwrite"))))
          else some (race.setPhase keygen sk .checked)
      | _ => none
  | .createNew keygen =>
      match race.keygens[keygen]? with
      | some ⟨sk, .checked⟩ =>
          if (race.fs.directory path).isSome then
            some (race.setPhase keygen sk (.returned (.error (.alreadyExists
              "File exists (os error 17)"))))
          else
            some { race.setPhase keygen sk (.writing race.fs.next 0) with
              fs := race.fs.create path }
      | _ => none
  | .write keygen count =>
      match race.keygens[keygen]? with
      | some ⟨sk, .writing file offset⟩ =>
          if 0 < count ∧ offset + count ≤ (keyLine hex sk).length then
            some { race.setPhase keygen sk (.writing file (offset + count)) with
              fs := race.fs.write file offset
                (((keyLine hex sk).drop offset).take count) }
          else none
      | _ => none
  | .finish keygen =>
      match race.keygens[keygen]? with
      | some ⟨sk, .writing _ offset⟩ =>
          if offset = (keyLine hex sk).length then
            some (race.setPhase keygen sk (.returned (.ok ())))
          else none
      | _ => none
  | .fail keygen =>
      match race.keygens[keygen]? with
      | some ⟨sk, .checked⟩ | some ⟨sk, .writing _ _⟩ =>
          some (race.setPhase keygen sk (.returned (.error .io)))
      | _ => none
  | .crash keygen =>
      match race.keygens[keygen]? with
      | some ⟨_, .returned _⟩ | some ⟨_, .crashed⟩ | none => none
      | some ⟨sk, _⟩ => some (race.setPhase keygen sk .crashed)

end KeygenRace

/-! ## Who has the file -/

namespace KeygenPhase

def opened : KeygenPhase → Bool
  | writing _ _ | returned (.ok ()) => true
  | _ => false

/-- How much of the line is in the file, if the process still knows. -/
def Wrote (hex : HexCrate) (phase : KeygenPhase) (sk : Key)
    (file offset : Nat) : Prop :=
  match phase with
  | writing own written => own = file ∧ written = offset
  | returned (.ok ()) => offset = (keyLine hex sk).length
  | _ => True

private theorem wrote_of_not_opened {phase : KeygenPhase}
    (idle : phase.opened = false) (hex : HexCrate) (sk : Key)
    (file offset : Nat) :
    phase.Wrote hex sk file offset := by
  cases phase with
  | writing own written => cases idle
  | returned result =>
      cases result with
      | ok value => cases idle
      | error error => trivial
  | starting => trivial
  | checked => trivial
  | crashed => trivial

end KeygenPhase

namespace KeygenRace

variable {hex : HexCrate} {path : Path} {before : FileSystem Path}
  {race : KeygenRace}

/-- One process has created the file, which has a part of its line. -/
structure Won (hex : HexCrate) (path : Path) (before : FileSystem Path)
    (race : KeygenRace)
    (winner : Nat) (sk : Key) (file offset : Nat) : Prop where
  absent : before.directory path = none
  drafted : race.fs.Drafted path file (keyLine hex sk) offset
  elsewhere : ∀ other, other ≠ path → race.fs.read other = before.read other
  own : ∃ phase, race.keygens[winner]? = some ⟨sk, phase⟩ ∧
    phase.Wrote hex sk file offset
  others : ∀ {other : Nat} {keygen : Keygen}, other ≠ winner →
    race.keygens[other]? = some keygen → keygen.phase.opened = false

inductive Owned (hex : HexCrate) (path : Path) (before : FileSystem Path)
    (race : KeygenRace) :
    Prop where
  | untouched (fs : race.fs = before)
      (idle : ∀ {other : Nat} {keygen : Keygen},
        race.keygens[other]? = some keygen → keygen.phase.opened = false)
  | won {winner : Nat} {sk : Key} {file offset : Nat}
      (won : Won hex path before race winner sk file offset)

private theorem idle_set {keygens : List Keygen} {index other : Nat}
    {moved keygen : Keygen} (idle : moved.phase.opened = false)
    (rest : keygens[other]? = some keygen → keygen.phase.opened = false)
    (found : (keygens.set index moved)[other]? = some keygen) :
    keygen.phase.opened = false := by
  cases getElem?_set_cases found with
  | inl here =>
      rw [here.2]
      exact idle
  | inr old => exact rest old.2

theorem Owned.moved (owned : Owned hex path before race) {keygen : Nat}
    {sk : Key}
    {old phase : KeygenPhase} (found : race.keygens[keygen]? = some ⟨sk, old⟩)
    (idle : phase.opened = false) :
    Owned hex path before (race.setPhase keygen sk phase) := by
  cases owned with
  | untouched fs rest =>
      exact .untouched fs fun there => idle_set idle rest there
  | @won winner ownSk file offset won =>
      refine .won ⟨won.absent, won.drafted, won.elsewhere, ?_,
        fun different there => idle_set idle (won.others different) there⟩
      obtain ⟨ownPhase, own, wrote⟩ := won.own
      by_cases same : keygen = winner
      · subst keygen
        rw [own] at found
        cases found
        refine ⟨phase, ?_, KeygenPhase.wrote_of_not_opened idle _ _ _ _⟩
        exact List.getElem?_set_self (List.getElem?_eq_some_iff.mp own).1
      · refine ⟨ownPhase, ?_, wrote⟩
        rw [← own]
        exact List.getElem?_set_ne same

theorem Owned.started (owned : Owned hex path before race) (sk : Key) :
    Owned hex path before
      { race with keygens := race.keygens ++ [⟨sk, .starting⟩] } := by
  have idleAppend : ∀ {other : Nat} {keygen : Keygen},
      (race.keygens[other]? = some keygen → keygen.phase.opened = false) →
        (race.keygens ++ [⟨sk, .starting⟩])[other]? = some keygen →
          keygen.phase.opened = false := by
    intro other keygen rest there
    cases getElem?_append_singleton_cases there with
    | inl new => rw [new]; rfl
    | inr old => exact rest old
  cases owned with
  | untouched fs idle => exact .untouched fs fun there => idleAppend idle there
  | won won =>
      obtain ⟨phase, own, wrote⟩ := won.own
      have inside := (List.getElem?_eq_some_iff.mp own).1
      refine .won ⟨won.absent, won.drafted, won.elsewhere, ⟨phase, ?_, wrote⟩,
        fun different there => idleAppend (won.others different) there⟩
      rw [← own]
      exact List.getElem?_append_left inside

theorem Owned.created (owned : Owned hex path before race) {keygen : Nat}
    {sk : Key} {old : KeygenPhase}
    (found : race.keygens[keygen]? = some ⟨sk, old⟩)
    (absent : race.fs.directory path = none) :
    Owned hex path before
      { race.setPhase keygen sk (.writing race.fs.next 0) with
        fs := race.fs.create path } := by
  cases owned with
  | won won =>
      rw [won.drafted.found] at absent
      cases absent
  | untouched fs idle =>
      have opened : race.fs.openTruncate path =
          (race.fs.next, race.fs.create path) := by
        simp only [FileSystem.openTruncate, absent]
      have drafted := race.fs.drafted_openTruncate path (keyLine hex sk)
      rw [opened] at drafted
      have own : (race.keygens.set keygen
          ⟨sk, .writing race.fs.next 0⟩)[keygen]? =
            some ⟨sk, .writing race.fs.next 0⟩ :=
        List.getElem?_set_self (List.getElem?_eq_some_iff.mp found).1
      refine .won ⟨fs ▸ absent, drafted, ?_, ⟨_, own, rfl, rfl⟩, ?_⟩
      · intro other different
        have kept := race.fs.read_openTruncate_of_ne different
        rw [opened] at kept
        rw [kept, fs]
      · intro other value different there
        cases getElem?_set_cases there with
        | inl here => exact absurd here.1 different
        | inr rest => exact idle rest.2

private theorem Owned.won_of_writing (owned : Owned hex path before race)
    {keygen : Nat} {sk : Key} {file offset : Nat}
    (found : race.keygens[keygen]? = some ⟨sk, .writing file offset⟩) :
    Won hex path before race keygen sk file offset := by
  cases owned with
  | untouched fs idle => cases idle found
  | @won winner ownSk ownFile ownOffset won =>
      by_cases same : keygen = winner
      · subst keygen
        obtain ⟨phase, own, wrote⟩ := won.own
        rw [own] at found
        cases found
        obtain ⟨rfl, rfl⟩ := wrote
        exact won
      · cases won.others same found

private theorem Won.others_set {keygen : Nat} {sk : Key} {file offset : Nat}
    (won : Won hex path before race keygen sk file offset) {moved : Keygen}
    {other : Nat} {value : Keygen} (different : other ≠ keygen)
    (there : (race.keygens.set keygen moved)[other]? = some value) :
    value.phase.opened = false := by
  rw [List.getElem?_set_ne fun same => different same.symm] at there
  exact won.others different there

theorem Won.written {keygen : Nat} {sk : Key} {file offset count : Nat}
    (won : Won hex path before race keygen sk file offset)
    (found : race.keygens[keygen]? = some ⟨sk, .writing file offset⟩)
    (fits : offset + count ≤ (keyLine hex sk).length) :
    Won hex path before
      { race.setPhase keygen sk (.writing file (offset + count)) with
        fs := race.fs.write file offset
          (((keyLine hex sk).drop offset).take count) }
      keygen sk file (offset + count) where
  absent := won.absent
  drafted := won.drafted.write fits
  elsewhere other different := by
    rw [← won.elsewhere other different]
    exact won.drafted.read_write_of_ne different _ _
  own := ⟨_, List.getElem?_set_self (List.getElem?_eq_some_iff.mp found).1,
    rfl, rfl⟩
  others different there := won.others_set different there

theorem Won.finished {keygen : Nat} {sk : Key} {file offset : Nat}
    (won : Won hex path before race keygen sk file offset)
    (found : race.keygens[keygen]? = some ⟨sk, .writing file offset⟩)
    (whole : offset = (keyLine hex sk).length) :
    Won hex path before (race.setPhase keygen sk (.returned (.ok ()))) keygen sk
      file offset where
  absent := won.absent
  drafted := won.drafted
  elsewhere := won.elsewhere
  own := ⟨_, List.getElem?_set_self (List.getElem?_eq_some_iff.mp found).1,
    whole⟩
  others different there := won.others_set different there

theorem Owned.of_step (owned : Owned hex path before race)
    {action : KeygenAction} {after : KeygenRace}
    (taken : race.step hex path action = some after) :
    Owned hex path before after := by
  cases action with
  | start sk =>
      cases taken
      exact owned.started sk
  | checkExists keygen =>
      simp only [step] at taken
      split at taken
      · rename_i found
        split at taken <;> cases taken
        all_goals exact owned.moved found rfl
      · cases taken
  | createNew keygen =>
      simp only [step] at taken
      split at taken
      · rename_i found
        split at taken
        · cases taken
          exact owned.moved found rfl
        · rename_i absent
          cases taken
          exact owned.created found (Option.not_isSome_iff_eq_none.mp absent)
      · cases taken
  | write keygen count =>
      simp only [step] at taken
      split at taken
      · rename_i found
        split at taken <;> cases taken
        rename_i fits
        exact .won ((owned.won_of_writing found).written found fits.2)
      · cases taken
  | finish keygen =>
      simp only [step] at taken
      split at taken
      · rename_i found
        split at taken <;> cases taken
        rename_i whole
        exact .won ((owned.won_of_writing found).finished found whole)
      · cases taken
  | fail keygen =>
      simp only [step] at taken
      split at taken
      · rename_i found
        cases taken
        exact owned.moved found rfl
      · rename_i found
        cases taken
        exact owned.moved found rfl
      · cases taken
  | crash keygen =>
      simp only [step] at taken
      split at taken
      · cases taken
      · cases taken
      · cases taken
      · rename_i found
        cases taken
        exact owned.moved found rfl

/-! ## What can be read -/

/-- Whatever the processes have come to: a key file that was there is
untouched, and so is every other file. What is read from a new one is refused
or the key of a process, and once a process has returned `Ok` it is the key of
that process, which is then the only one. -/
structure OneKey (hex : HexCrate) (path : Path)
    (before : FileSystem Path) (race : KeygenRace) : Prop where
  existing : before.directory path ≠ none → race.fs = before
  elsewhere : ∀ other, other ≠ path → race.fs.read other = before.read other
  readable : before.directory path = none → ∀ {sk : Key},
    readKeyFile hex (readFile race.fs path) = .ok sk →
      ∃ keygen ∈ race.keygens, keygen.sk = sk
  finished : ∀ {keygen : Nat} {sk : Key},
    race.keygens[keygen]? = some ⟨sk, .returned (.ok ())⟩ →
      readKeyFile hex (readFile race.fs path) = .ok sk ∧
        ∀ {other : Nat} {otherSk : Key},
          race.keygens[other]? = some ⟨otherSk, .returned (.ok ())⟩ →
            other = keygen

private theorem Won.read_eq {winner : Nat} {sk : Key} {file offset : Nat}
    (won : Won hex path before race winner sk file offset) :
    readFile race.fs path = .ok ((keyLine hex sk).take offset) := by
  have read : race.fs.read path = some ((keyLine hex sk).take offset) := by
    rw [FileSystem.read, won.drafted.found, Option.map_some,
      won.drafted.written]
  simp only [readFile, read]

private theorem length_keyLine (hex : HexCrate) (sk : Key) :
    (keyLine hex sk).length = 65 := by
  rw [keyLine, List.length_append, hex.length_encode, sk.property]
  rfl

private theorem Won.oneKey {winner : Nat} {ownSk : Key} {file offset : Nat}
    (won : Won hex path before race winner ownSk file offset) :
    OneKey hex path before race := by
  obtain ⟨whole, torn⟩ := readKeyFile_take hex ownSk offset
  obtain ⟨phase, own, wrote⟩ := won.own
  have winners : ∀ {other : Nat} {sk : Key},
      race.keygens[other]? = some ⟨sk, .returned (.ok ())⟩ →
        other = winner := by
    intro other sk found
    by_contra different
    cases won.others different found
  refine ⟨fun there => absurd won.absent there, won.elsewhere, ?_, ?_⟩
  · intro _ sk read
    rw [won.read_eq] at read
    by_cases short : offset < 64
    · obtain ⟨error, refused⟩ := torn short
      rw [refused] at read
      cases read
    · rw [whole (Nat.not_lt.mp short)] at read
      cases read
      exact ⟨_, List.mem_of_getElem? own, rfl⟩
  · intro keygen sk found
    have same := winners found
    subst keygen
    rw [own] at found
    cases found
    have all : offset = (keyLine hex ownSk).length := wrote
    rw [length_keyLine] at all
    rw [won.read_eq]
    exact ⟨whole (by omega), winners⟩

theorem keygens_leave_one_key {actions : List KeygenAction}
    (trace : Trace (step hex path) (fun _ _ => True) ⟨before, []⟩ actions race) :
    OneKey hex path before race := by
  have owned : Owned hex path before race := by
    apply trace.invariant fun _ race => Owned hex path before race
    · exact .untouched rfl fun found => by cases found
    · intro _ _ _ _ owned _ taken
      exact owned.of_step taken
  cases owned with
  | won won => exact won.oneKey
  | untouched fs idle =>
      refine ⟨fun _ => fs, fun other _ => by rw [fs], ?_, ?_⟩
      · intro absent sk read
        have missing : race.fs.read path = none := by
          rw [fs, FileSystem.read, absent]
          rfl
        simp only [readFile, missing, readKeyFile, readToString] at read
        cases read
      · intro keygen sk found
        cases idle found

def samplePath : Path := ⟨"", "relay", some "key"⟩

def sampleActions : List KeygenAction :=
  [.start (.replicate 32 1), .start (.replicate 32 2), .checkExists 0,
    .checkExists 1, .createNew 1, .createNew 0, .write 1 40, .write 1 25,
    .finish 1]

def sampleRace : KeygenRace :=
  (Trace.exec (step .plain samplePath) ⟨.empty, []⟩ sampleActions).getD
    ⟨.empty, []⟩

theorem sampleRace_leaves_one_key :
    (Trace.exec (step .plain samplePath) ⟨.empty, []⟩ sampleActions).isSome =
        true ∧
      OneKey .plain samplePath .empty sampleRace :=
  ⟨by decide +kernel,
    keygens_leave_one_key (Trace.of_possible (by decide +kernel))⟩

end KeygenRace

end GothamRelay
