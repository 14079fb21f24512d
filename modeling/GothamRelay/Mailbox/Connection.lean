import GothamRelay.Mailbox.Wire
import GothamRelay.Transport.Noise

namespace GothamRelay

/-! `serve_mailbox_connection`. -/

def mailboxFetchBudget : Nat := 1024 * 1024

def maxMailboxRequestsPerConn : Nat := 512

/-- What the loop finds when it reads: a request and the wall clock at which it
is handled, or the error of the read. -/
inductive Incoming where
  | blob (bytes : List UInt8) (now : Nat)
  | failed (error : TransportError)

structure MailboxHost (Id χ : Type) where
  api : MailboxApi Id
  link : NoiseLink χ
  hostSk : Key
  allowUnauthenticatedFetch : Bool

namespace MailboxHost

variable {Id χ : Type}

def respond (host : MailboxHost Id χ) (binding : List UInt8)
    (mailbox : host.api.Mailbox) (bytes : List UInt8) (now : Nat) :
    MailboxResponse × host.api.Mailbox :=
  match host.api.requestFromBytes bytes with
  | .ok (.deposit id sealed ttlSecs) =>
      match host.api.deposit mailbox id sealed now ttlSecs with
      | (.ok (), mailbox) => (.ack, mailbox)
      | (.error error, mailbox) =>
          (.error (host.api.wireError error), mailbox)
  | .ok (.fetch id (some auth)) =>
      if host.api.proves host.hostSk auth binding id then
        let fetched := host.api.fetchBatch mailbox id now mailboxFetchBudget
        (.delivery fetched.1.1 fetched.1.2, fetched.2)
      else
        (.error .unauthorized, mailbox)
  | .ok (.fetch id none) =>
      if host.allowUnauthenticatedFetch then
        let fetched := host.api.fetchBatch mailbox id now mailboxFetchBudget
        (.delivery fetched.1.1 fetched.1.2, fetched.2)
      else
        (.error .unauthorized, mailbox)
  | .ok (.fetchWithSurb _ _ _) => (.error .malformed, mailbox)
  | .error _ => (.error .malformed, mailbox)

def reply (host : MailboxHost Id χ) (response : MailboxResponse) :
    Transport χ Unit :=
  match host.api.responseToBytes response with
  | .error _ => throw .badHandshake
  | .ok bytes => host.link.writeNoiseBlob host.api.maxMailboxFrame bytes

/-- The loop, from the request after the first `served`. The result is that of
`serve_mailbox_connection`, with the stream and the mailbox it leaves. -/
def serve (host : MailboxHost Id χ) (binding : List UInt8) :
    Nat → χ → host.api.Mailbox → List Incoming →
      Except TransportError Unit × χ × host.api.Mailbox
  | _, stream, mailbox, [] => (.ok (), stream, mailbox)
  | _, stream, mailbox, .failed .read :: _ => (.ok (), stream, mailbox)
  | _, stream, mailbox, .failed .io :: _ => (.ok (), stream, mailbox)
  | _, stream, mailbox, .failed error :: _ => (.error error, stream, mailbox)
  | served, stream, mailbox, .blob bytes now :: incoming =>
      if served + 1 > maxMailboxRequestsPerConn then
        match host.api.responseToBytes (.error .rateLimited) with
        | .error _ => (.error .badHandshake, stream, mailbox)
        | .ok bytes =>
            let written :=
              (host.link.writeNoiseBlob host.api.maxMailboxFrame bytes).run
                stream
            (.ok (), written.2, mailbox)
      else
        let answered := host.respond binding mailbox bytes now
        match (host.reply answered.1).run stream with
        | (.error error, stream) => (.error error, stream, answered.2)
        | (.ok (), stream) =>
            host.serve binding (served + 1) stream answered.2 incoming

private theorem respond_of_proven (host : MailboxHost Id χ)
    {binding : List UInt8}
    (mailbox : host.api.Mailbox) {bytes : List UInt8} (now : Nat) {id : Id}
    {auth : host.api.Auth}
    (request : host.api.requestFromBytes bytes = .ok (.fetch id (some auth)))
    (proven : host.api.proves host.hostSk auth binding id = true) :
    let fetched := host.api.fetchBatch mailbox id now mailboxFetchBudget
    host.respond binding mailbox bytes now =
      (.delivery fetched.1.1 fetched.1.2, fetched.2) := by
  simp only [respond, request, proven, if_true]

private theorem serve_of_failed (host : MailboxHost Id χ) {binding : List UInt8}
    {served : Nat} (within : served < maxMailboxRequestsPerConn) {stream : χ}
    {mailbox : host.api.Mailbox} {bytes : List UInt8} {now : Nat}
    (incoming : List Incoming) {error : TransportError}
    (failed : ((host.reply (host.respond binding mailbox bytes now).1).run
      stream).1 = .error error) :
    (host.serve binding served stream mailbox
        (.blob bytes now :: incoming)).2.2 =
      (host.respond binding mailbox bytes now).2 := by
  rw [serve, if_neg (Nat.not_lt.mpr within)]
  cases written : (host.reply (host.respond binding mailbox bytes now).1).run
      stream with
  | mk result stream' =>
      rw [written] at failed
      cases failed
      simp only [written]

private theorem unexpired_kept_iff (store : MailboxStore Id)
    (mailbox : store.Mailbox) (id : Id) (now budget : Nat) :
    (store.stored mailbox id).filter (fun entry => entry.unexpired now) ≤
        store.stored (store.fetchBatch mailbox id now budget).2 id ↔
      ∀ entry ∈ store.selected mailbox id now budget,
        entry.unexpired now = false := by
  have removed := store.fetch_removes mailbox id now budget
  rw [removed, Multiset.filter_add]
  constructor
  · intro kept entry member
    have live := Multiset.filter_le_filter
      (fun entry => entry.unexpired now = true) kept
    rw [Multiset.filter_add, Multiset.filter_filter, Multiset.filter_filter]
      at live
    simp only [and_self] at live
    have none := add_le_iff_nonpos_left.mp live
    rw [Multiset.le_zero, Multiset.filter_eq_nil] at none
    exact Bool.eq_false_iff.mpr (none entry member)
  · intro stale
    have none : Multiset.filter (fun entry => entry.unexpired now = true)
        (store.selected mailbox id now budget : Multiset Stored) = 0 := by
      rw [Multiset.filter_eq_nil]
      intro entry member
      rw [stale entry member]
      decide
    rw [none, zero_add]
    exact Multiset.filter_le _ _

/-- A delivery that is not completely written loses no unexpired envelope
exactly when the fetch had taken none. -/
theorem failed_fetch_keeps_mail_iff (host : MailboxHost Id χ)
    (binding : List UInt8) (served : Nat)
    (within : served < maxMailboxRequestsPerConn) (stream : χ)
    (mailbox : host.api.Mailbox) (bytes : List UInt8) (now : Nat)
    (incoming : List Incoming) (id : Id) (auth : host.api.Auth)
    (request : host.api.requestFromBytes bytes = .ok (.fetch id (some auth)))
    (proven : host.api.proves host.hostSk auth binding id = true)
    (error : TransportError)
    (failed : ((host.reply (host.respond binding mailbox bytes now).1).run
      stream).1 = .error error) :
    (host.api.stored mailbox id).filter
          (fun entry => entry.unexpired now) ≤
        host.api.stored (host.serve binding served stream mailbox
          (.blob bytes now :: incoming)).2.2 id ↔
      ∀ entry ∈ host.api.selected mailbox id now mailboxFetchBudget,
        entry.unexpired now = false := by
  rw [host.serve_of_failed within incoming failed,
    host.respond_of_proven mailbox now request proven]
  exact unexpired_kept_iff host.api.toMailboxStore mailbox id now
    mailboxFetchBudget

def closingLink : NoiseLink Nat where
  writeMessage msg := pure (msg ++ List.replicate 16 0)
  writeAll _ := do
    match ← get with
    | 0 => throw .write
    | left + 1 => set left

def sampleHost : MailboxHost UInt8 Nat where
  api := .plain 4 100
  link := closingLink
  hostSk := Data.Bytes.replicate 32 0
  allowUnauthenticatedFetch := false

/-- Mail for two ids, of which one has an envelope that expires at 50 and one
that expires at 70. The fetch of the other id takes nothing after 50, while
the fetch of this one takes what it loses. -/
theorem sample_failed_fetches :
    let mailbox := [(7, ⟨[5], 50⟩), (7, ⟨[6], 70⟩), (8, ⟨[4], 50⟩)]
    (sampleHost.api.stored mailbox 8).filter
          (fun entry => entry.unexpired 60) ≤
        sampleHost.api.stored (sampleHost.serve [9] 0 2 mailbox
          [.blob [1, 8, 9] 60]).2.2 8 ∧
      ¬ (sampleHost.api.stored mailbox 7).filter
          (fun entry => entry.unexpired 60) ≤
        sampleHost.api.stored (sampleHost.serve [9] 0 2 mailbox
          [.blob [1, 7, 9] 60]).2.2 7 := by
  intro mailbox
  constructor
  · exact (failed_fetch_keeps_mail_iff sampleHost [9] 0 (by decide) 2 mailbox
      [1, 8, 9] 60 [] 8 ([9], 8) rfl rfl .write (by decide +kernel)).mpr
        (by decide)
  · rw [failed_fetch_keeps_mail_iff sampleHost [9] 0 (by decide) 2 mailbox
      [1, 7, 9] 60 [] 7 ([9], 7) rfl rfl .write (by decide +kernel)]
    decide

/-- The length of the delivery is written, then the peer is gone, and the one
envelope of the id is stored no more. -/
theorem failed_fetch_loses_mail :
    ((sampleHost.reply (sampleHost.respond [9] [(7, ⟨[5], 50⟩)] [1, 7, 9]
        10).1).run 2).1 = .error .write ∧
      ¬ (sampleHost.api.stored [(7, ⟨[5], 50⟩)] 7).filter
          (fun entry => entry.unexpired 10) ≤
        sampleHost.api.stored (sampleHost.serve [9] 0 2 [(7, ⟨[5], 50⟩)]
          [.blob [1, 7, 9] 10]).2.2 7 := by
  decide +kernel

end MailboxHost

end GothamRelay
