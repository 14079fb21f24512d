import Mathlib.Data.List.Infix
import Mathlib.Data.Set.Insert
import GothamRelay.Data.Json

namespace GothamRelay

open Data

/-! The two answers to whether the authorities list this relay: the self-check
of a running relay and `gotham-relay doctor`. -/

/-- What comes of `GET {url}/directory`: no response, a response whose text
cannot be read, or its text. -/
inductive DirectoryReply where
  | unreachable
  | unreadable
  | body (text : String)

section SelfCheck

structure ListingCount where
  seen : Nat
  asked : Nat

inductive SelfCheckLog where
  | listed (authorities : Nat)
  | failed (listedBy quorum : Nat)

def watchQuorum : Nat := 2

def mentions (pkHex : String) : DirectoryReply → Bool
  | .body text => decide (pkHex.toList <:+: text.toList)
  | _ => false

def DirectoryReply.answered : DirectoryReply → Bool
  | .unreachable => false
  | _ => true

def countReply (pkHex : String) (count : ListingCount)
    (reply : DirectoryReply) : ListingCount :=
  match reply with
  | .unreachable => count
  | .unreadable => { count with asked := count.asked + 1 }
  | .body text =>
      { asked := count.asked + 1
        seen :=
          if pkHex.toList <:+: text.toList then count.seen + 1
          else count.seen }

/-- One round of the loop of `watch_own_listing`: what it remembers as
`was_listed`, and what it logs. -/
def watchOwnListing (pkHex : String) (wasListed : Option Bool)
    (replies : List DirectoryReply) : Option Bool × Option SelfCheckLog :=
  let count := replies.foldl (countReply pkHex) { seen := 0, asked := 0 }
  if count.asked = 0 then
    (wasListed, none)
  else
    let listed := decide (count.seen ≥ watchQuorum)
    if wasListed = some listed then
      (wasListed, none)
    else
      (some listed, some (
        if listed then .listed count.seen
        else .failed count.seen watchQuorum))

private theorem mentions_iff {pkHex : String} {reply : DirectoryReply} :
    mentions pkHex reply = true ↔
      ∃ text, reply = .body text ∧ pkHex.toList <:+: text.toList := by
  cases reply <;> simp [mentions]

theorem foldl_countReply (pkHex : String) (replies : List DirectoryReply)
    (count : ListingCount) :
    replies.foldl (countReply pkHex) count =
      { seen := count.seen + replies.countP (mentions pkHex)
        asked := count.asked + replies.countP DirectoryReply.answered } := by
  induction replies generalizing count with
  | nil => rfl
  | cons reply replies ih =>
      rw [List.foldl_cons, ih, List.countP_cons, List.countP_cons]
      cases reply with
      | unreachable => rfl
      | unreadable =>
          simp [countReply, mentions, DirectoryReply.answered, Nat.add_assoc,
            Nat.add_comm 1]
      | body text =>
          by_cases found : pkHex.toList <:+: text.toList <;>
            simp [countReply, mentions, DirectoryReply.answered, found,
              Nat.add_assoc, Nat.add_comm 1]

private theorem watchOwnListing_verdict (pkHex : String)
    (wasListed : Option Bool) {replies : List DirectoryReply}
    (answered : ∃ reply ∈ replies, reply ≠ .unreachable) :
    (watchOwnListing pkHex wasListed replies).1 =
      some (decide (2 ≤ replies.countP (mentions pkHex))) := by
  have asked : replies.countP DirectoryReply.answered ≠ 0 := by
    obtain ⟨reply, member, reached⟩ := answered
    apply Nat.ne_of_gt
    apply List.countP_pos_iff.mpr
    refine ⟨reply, member, ?_⟩
    cases reply with
    | unreachable => exact absurd rfl reached
    | unreadable => rfl
    | body _ => rfl
  simp only [watchOwnListing, foldl_countReply, Nat.zero_add, if_neg asked,
    watchQuorum]
  split
  · assumption
  · rfl

end SelfCheck

section Doctor

structure AuthorityView where
  url : String
  reachable : Bool
  listed : Bool
  tier : Option String
  operator : Option String
  addr : Option String
  rendezvousCapable : Bool

def directoryRelays (document : Json) : List Json :=
  (((document.get "doc").bind (Json.get "relays")).bind Json.asArray).getD []

variable (fromStr : String → Option Json)

/-- A client that cannot be built counts as an authority that cannot be
reached. `fromStr` is `serde_json::from_str`. -/
def askAuthority (url pkHex : String) (reply : DirectoryReply) :
    AuthorityView :=
  let view : AuthorityView :=
    { url := url, reachable := false, listed := false, tier := none
      operator := none, addr := none, rendezvousCapable := false }
  match reply with
  | .unreachable => view
  | .unreadable => view
  | .body text =>
      let view := { view with reachable := true }
      match fromStr text with
      | none => view
      | some document =>
          match (directoryRelays document).find? fun relay =>
              (relay.get "id_pubkey_hex").bind Json.asStr = some pkHex with
          | none => view
          | some relay =>
              { view with
                listed := true
                tier := (relay.get "tier").bind Json.asStr
                operator := (relay.get "operator").bind Json.asStr
                addr := (relay.get "addr").bind Json.asStr
                rendezvousCapable :=
                  ((relay.get "rendezvous_capable").bind
                    Json.asBool).getD false }

inductive DoctorVerdict where
  | notUsed
  | neverChosen (sample : AuthorityView)
  | works (sample : AuthorityView)

/-- What the doctor prints, up to its wording, and its exit code. -/
structure DoctorReport where
  views : List AuthorityView
  unreachable : Nat
  listed : Nat
  verdict : DoctorVerdict
  code : Int

/-- `none` is the panic of `listed[0]`, which a quorum of zero leads to. -/
def runDoctor (pkHex : String) (responses : List (String × DirectoryReply))
    (quorum : Nat) : Option DoctorReport :=
  let views := responses.map fun response =>
    askAuthority fromStr response.1 pkHex response.2
  let unreachable := (views.filter fun view => !view.reachable).length
  let listed := views.filter AuthorityView.listed
  if listed.length < quorum then
    some ⟨views, unreachable, listed.length, .notUsed, 1⟩
  else
    match listed with
    | [] => none
    | sample :: _ =>
        if sample.operator.isNone then
          some ⟨views, unreachable, listed.length, .neverChosen sample, 1⟩
        else
          some ⟨views, unreachable, listed.length, .works sample, 0⟩

/-- A descriptor in the document that a text stands for has the key as its
identity. -/
def Describes (text pkHex : String) : Prop :=
  ∃ document inner relays relay,
    fromStr text = some document ∧
      document.get "doc" = some inner ∧
      inner.get "relays" = some (.array relays) ∧
      relay ∈ relays ∧
      relay.get "id_pubkey_hex" = some (.string pkHex)

private theorem mem_directoryRelays_iff {document relay : Json} :
    relay ∈ directoryRelays document ↔
      ∃ inner relays, document.get "doc" = some inner ∧
        inner.get "relays" = some (.array relays) ∧ relay ∈ relays := by
  constructor
  · intro member
    rw [directoryRelays] at member
    cases found : ((document.get "doc").bind (Json.get "relays")).bind
        Json.asArray with
    | none =>
        rw [found] at member
        exact absurd member List.not_mem_nil
    | some relays =>
        rw [found] at member
        obtain ⟨value, inside, isArray⟩ := Option.bind_eq_some_iff.mp found
        obtain ⟨inner, outside, field⟩ := Option.bind_eq_some_iff.mp inside
        rw [Json.asArray_eq_some_iff.mp isArray] at field
        exact ⟨inner, relays, outside, field, member⟩
  · rintro ⟨inner, relays, outside, field, member⟩
    rw [directoryRelays, outside, Option.bind_some, field]
    exact member

private theorem listed_askAuthority_iff {url pkHex : String}
    {reply : DirectoryReply} :
    (askAuthority fromStr url pkHex reply).listed = true ↔
      ∃ text, reply = .body text ∧ Describes fromStr text pkHex := by
  cases reply with
  | unreachable =>
      exact ⟨fun listed => absurd listed Bool.false_ne_true,
        fun ⟨_, same, _⟩ => by cases same⟩
  | unreadable =>
      exact ⟨fun listed => absurd listed Bool.false_ne_true,
        fun ⟨_, same, _⟩ => by cases same⟩
  | body text =>
      simp only [askAuthority]
      constructor
      · intro listed
        refine ⟨text, rfl, ?_⟩
        split at listed
        · exact absurd listed Bool.false_ne_true
        · rename_i document parsed
          split at listed
          · exact absurd listed Bool.false_ne_true
          · rename_i relay found
            have named :
                (relay.get "id_pubkey_hex").bind Json.asStr = some pkHex :=
              decide_eq_true_iff.mp (List.find?_some found :)
            obtain ⟨value, field, isKey⟩ := Option.bind_eq_some_iff.mp named
            obtain ⟨inner, relays, outside, inside, member⟩ :=
              mem_directoryRelays_iff.mp (List.mem_of_find?_eq_some found)
            rw [Json.asStr_eq_some_iff.mp isKey] at field
            exact ⟨document, inner, relays, relay, parsed, outside, inside,
              member, field⟩
      · rintro ⟨_, same, document, inner, relays, relay, parsed, outside,
          inside, member, field⟩
        cases same
        have described : relay ∈ directoryRelays document :=
          mem_directoryRelays_iff.mpr ⟨inner, relays, outside, inside, member⟩
        simp only [parsed]
        split
        · rename_i missing
          refine absurd ?_ (List.find?_eq_none.mp missing relay described)
          simp only [field, Option.bind_some, Json.asStr, decide_true]
        · rfl

private theorem describes_iff_listed {text pkHex : String} :
    Describes fromStr text pkHex ↔
      (askAuthority fromStr "" pkHex (.body text)).listed = true := by
  rw [listed_askAuthority_iff]
  constructor
  · intro described
    exact ⟨text, rfl, described⟩
  · rintro ⟨_, same, described⟩
    cases same
    exact described

private theorem listed_runDoctor (pkHex : String)
    (responses : List (String × DirectoryReply)) {quorum : Nat}
    (positive : 0 < quorum) :
    ∃ report, runDoctor fromStr pkHex responses quorum = some report ∧
      report.listed = responses.countP fun response =>
        (askAuthority fromStr response.1 pkHex response.2).listed := by
  have counted : ((responses.map fun response =>
      askAuthority fromStr response.1 pkHex response.2).filter
        AuthorityView.listed).length =
      responses.countP fun response =>
        (askAuthority fromStr response.1 pkHex response.2).listed := by
    rw [← List.countP_eq_length_filter, List.countP_map]
    rfl
  simp only [runDoctor]
  split
  · exact ⟨_, rfl, counted⟩
  · rename_i enough
    split
    · rename_i none
      rw [none] at enough
      exact absurd positive enough
    · split
      · exact ⟨_, rfl, counted⟩
      · exact ⟨_, rfl, counted⟩

end Doctor

section Agreement

variable (fromStr : String → Option Json)

private theorem mentions_eq_listed {served : Set String} {pkHex : String}
    (exact : ∀ text ∈ served,
      pkHex.toList <:+: text.toList ↔ Describes fromStr text pkHex)
    {url : String} {reply : DirectoryReply}
    (within : ∀ text, reply = .body text → text ∈ served) :
    mentions pkHex reply = (askAuthority fromStr url pkHex reply).listed := by
  rw [Bool.eq_iff_iff, mentions_iff, listed_askAuthority_iff]
  apply exists_congr
  intro text
  apply and_congr_right
  intro body
  exact exact text (within text body)

/-- Once an authority has answered, agreement is agreement of the two counts
about the quorum. -/
private theorem agrees_iff_counts (pkHex : String) (wasListed : Option Bool)
    {responses : List (String × DirectoryReply)}
    (answered : ∃ response ∈ responses, response.2 ≠ .unreachable) :
    (∃ report, runDoctor fromStr pkHex responses 2 = some report ∧
        (watchOwnListing pkHex wasListed (responses.map Prod.snd)).1 =
          some (decide (2 ≤ report.listed))) ↔
      (2 ≤ responses.countP (fun response => mentions pkHex response.2) ↔
        2 ≤ responses.countP fun response =>
          (askAuthority fromStr response.1 pkHex response.2).listed) := by
  obtain ⟨response, member, reached⟩ := answered
  obtain ⟨report, ran, counted⟩ :=
    listed_runDoctor fromStr pkHex responses Nat.two_pos
  rw [watchOwnListing_verdict pkHex wasListed
    ⟨response.2, List.mem_map_of_mem member, reached⟩, List.countP_map,
    ← counted, ran]
  constructor
  · rintro ⟨_, same, agree⟩
    cases same
    exact decide_eq_decide.mp (Option.some.inj agree)
  · intro agree
    exact ⟨report, rfl, congrArg some (decide_eq_decide.mpr agree)⟩

def bothServe (text : String) : List (String × DirectoryReply) :=
  [("one", .body text), ("two", .body text)]

private theorem mem_bothServe {text other url : String}
    (member : (url, DirectoryReply.body other) ∈ bothServe text) :
    other = text := by
  simp only [bothServe, List.mem_cons, Prod.mk.injEq,
    DirectoryReply.body.injEq, List.not_mem_nil, or_false] at member
  exact member.elim And.right And.right

private theorem answered_bothServe (text : String) :
    ∃ response ∈ bothServe text, response.2 ≠ .unreachable := by
  refine ⟨_, List.mem_cons_self, ?_⟩
  intro same
  cases same

private theorem two_le_mentions_bothServe (pkHex text : String) :
    2 ≤ (bothServe text).countP (fun response =>
        mentions pkHex response.2) ↔
      pkHex.toList <:+: text.toList := by
  by_cases found : pkHex.toList <:+: text.toList <;>
    simp [bothServe, mentions, found]

private theorem listed_bothServe (pkHex text : String) :
    (bothServe text).countP (fun response =>
        (askAuthority fromStr response.1 pkHex response.2).listed) =
      if (askAuthority fromStr "" pkHex (.body text)).listed then 2 else 0 := by
  have anyUrl : ∀ url, (askAuthority fromStr url pkHex (.body text)).listed =
      (askAuthority fromStr "" pkHex (.body text)).listed := by
    intro url
    rw [Bool.eq_iff_iff, listed_askAuthority_iff, listed_askAuthority_iff]
  simp only [bothServe, List.countP_cons, List.countP_nil, anyUrl]
  split <;> rfl

def keyOf (digit : Char) : List Char := List.replicate 64 digit

def directoryOf (relay rendezvous : Char) : List Char :=
  "\x7b\"doc\":\x7b\"relays\":[\x7b\"id_pubkey_hex\":\"".toList ++
    keyOf relay ++ "\",\"rendezvous\":\"".toList ++ keyOf rendezvous ++
    "\"\x7d]\x7d\x7d".toList

private theorem listed_ofList (pkHex : String) (text : List Char) :
    (askAuthority readJson "" pkHex (.body (String.ofList text))).listed =
      (askAuthority (fun _ => readChars text) "" pkHex (.body "")).listed := by
  simp only [askAuthority, readJson_ofList]

theorem self_check_agrees_with_doctor_iff (pkHex : String)
    (served : Set String) :
    (∀ (responses : List (String × DirectoryReply)) (wasListed : Option Bool),
      (∀ url text, (url, DirectoryReply.body text) ∈ responses →
        text ∈ served) →
      (∃ response ∈ responses, response.2 ≠ .unreachable) →
      ∃ report, runDoctor fromStr pkHex responses 2 = some report ∧
        (watchOwnListing pkHex wasListed (responses.map Prod.snd)).1 =
          some (decide (2 ≤ report.listed))) ↔
      ∀ text ∈ served,
        pkHex.toList <:+: text.toList ↔ Describes fromStr text pkHex := by
  constructor
  · -- Two authorities that serve the same text decide the verdict alone.
    intro agree text member
    have within : ∀ url other, (url, DirectoryReply.body other) ∈
        bothServe text → other ∈ served := by
      intro url other listed
      rw [mem_bothServe listed]
      exact member
    have same := (agrees_iff_counts fromStr pkHex none
      (answered_bothServe text)).mp
        (agree _ none within (answered_bothServe text))
    rw [two_le_mentions_bothServe, listed_bothServe] at same
    rw [same, describes_iff_listed]
    split <;> simp [*]
  · intro exact responses wasListed within answered
    rw [agrees_iff_counts fromStr pkHex wasListed answered]
    have counts : responses.countP (fun response =>
          mentions pkHex response.2) =
        responses.countP fun response =>
          (askAuthority fromStr response.1 pkHex response.2).listed := by
      apply List.countP_congr
      rintro ⟨url, reply⟩ listed
      rw [mentions_eq_listed fromStr exact]
      intro text body
      apply within url text
      rw [← body]
      exact listed
    rw [counts]

theorem own_listing_agrees :
    ∃ report,
      runDoctor readJson (String.ofList (keyOf 'a'))
          (bothServe (String.ofList (directoryOf 'a' 'b'))) 2 = some report ∧
        (watchOwnListing (String.ofList (keyOf 'a')) none
            ((bothServe (String.ofList (directoryOf 'a' 'b'))).map
              Prod.snd)).1 =
          some (decide (2 ≤ report.listed)) := by
  refine (self_check_agrees_with_doctor_iff readJson
    (String.ofList (keyOf 'a'))
    {String.ofList (directoryOf 'a' 'b')}).mpr ?_ _ none
      (fun _ _ => mem_bothServe) (answered_bothServe _)
  rintro text rfl
  rw [describes_iff_listed, listed_ofList, String.toList_ofList,
    String.toList_ofList]
  exact iff_of_true (by decide +kernel) (by decide +kernel)

/-- The relay is in neither directory, but is the rendezvous of the one relay
that is. -/
theorem rendezvous_of_another_passes_self_check :
    (watchOwnListing (String.ofList (keyOf 'a')) none
        ((bothServe (String.ofList (directoryOf 'b' 'a'))).map
          Prod.snd)).1 = some true ∧
      ∃ report,
        runDoctor readJson (String.ofList (keyOf 'a'))
            (bothServe (String.ofList (directoryOf 'b' 'a'))) 2 =
          some report ∧
          report.listed = 0 := by
  have answered := answered_bothServe (String.ofList (directoryOf 'b' 'a'))
  have found : (String.ofList (keyOf 'a')).toList <:+:
      (String.ofList (directoryOf 'b' 'a')).toList := by
    rw [String.toList_ofList, String.toList_ofList]
    decide +kernel
  have missing : (askAuthority readJson "" (String.ofList (keyOf 'a'))
      (.body (String.ofList (directoryOf 'b' 'a')))).listed = false := by
    rw [listed_ofList]
    decide +kernel
  constructor
  · obtain ⟨response, member, reached⟩ := answered
    rw [watchOwnListing_verdict _ none
      ⟨response.2, List.mem_map_of_mem member, reached⟩, List.countP_map]
    exact congrArg some
      (decide_eq_true ((two_le_mentions_bothServe _ _).mpr found))
  · obtain ⟨report, ran, counted⟩ := listed_runDoctor readJson
      (String.ofList (keyOf 'a'))
      (bothServe (String.ofList (directoryOf 'b' 'a'))) Nat.two_pos
    refine ⟨report, ran, ?_⟩
    rw [counted, listed_bothServe, missing]
    rfl

end Agreement

end GothamRelay
