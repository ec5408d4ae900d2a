import Mistlib.Overlay.RoutingTable
import Mistlib.Signaling.DiscoveryTable

/-!
# Admitting a message

What a message from a relay has to pass. Its event and its message id must be
new (`DedupeCache`), its number must not be too old (`acceptMessageOrder`), and
its sender must be one that may speak for the node id the message names
(`admitsSender`, `bindNodeWithEpoch`).
-/

namespace Mistlib

/-- Only a `Rejoin` is made by the signaling layer itself. -/
def SignalingType.isLocalOnly (signalingType : SignalingType) : Bool := signalingType = .rejoin

namespace Overlay.TtlCache

theorem get_of_evictRounds {K : Type} [DecidableEq K] {maxEntries rounds : Nat} {entries : Table K Instant}
    {key : K} {t : Instant} (h : (evictRounds maxEntries rounds entries).get key = some t) :
    entries.get key = some t := by
  induction rounds generalizing entries with
  | zero => exact h
  | succ rounds ih =>
    unfold evictRounds at h
    split at h
    · split at h
      · have herased := ih h
        rw [Table.get_erase] at herased
        split at herased
        · cases herased
        · exact herased
      · exact h
    · exact h

end Overlay.TtlCache

namespace Signaling

open Overlay (TtlCache)

def DEFAULT_MAX_ENTRIES : Nat := 4096

abbrev DedupeCache := TtlCache String

namespace DedupeCache

def new (ttl : Duration) : DedupeCache := TtlCache.new ttl DEFAULT_MAX_ENTRIES

/-- Whether the id has not been seen yet, and the cache that has seen it. -/
def checkAndInsert (c : DedupeCache) (eventId : String) (now : Instant) : Bool × DedupeCache :=
  let c := TtlCache.sweep c now
  if c.entries.contains eventId then (false, c)
  else
    let c := TtlCache.evictOldestUntilBelowLimit c
    (true, { c with entries := c.entries.insert eventId now })

/-- Whether the cache still knows the id at this time. -/
def remembers (c : DedupeCache) (eventId : String) (now : Instant) : Bool :=
  (TtlCache.sweep c now).entries.contains eventId

theorem checkAndInsert_fst (c : DedupeCache) (eventId : String) (now : Instant) :
    (c.checkAndInsert eventId now).1 = !c.remembers eventId now := by
  unfold checkAndInsert remembers
  simp only
  split
  · next h => rw [h, Bool.not_true]
  · next h => rw [Bool.eq_false_iff.mpr h, Bool.not_false]

theorem contains_sweep {c : DedupeCache} {id : String} {now : Instant}
    (h : (TtlCache.sweep c now).entries.contains id = true) : c.entries.contains id = true := by
  obtain ⟨t, ht⟩ := Table.contains_iff.mp h
  simp only [TtlCache.sweep, Table.get_retain] at ht
  exact Table.contains_iff.mpr ⟨t, (Option.filter_eq_some_iff.mp ht).1⟩

/-- A cache knows what it knew and what was entered, and no more. -/
theorem contains_checkAndInsert {c : DedupeCache} {eventId id : String} {now : Instant}
    (h : (c.checkAndInsert eventId now).2.entries.contains id = true) :
    c.entries.contains id = true ∨ id = eventId := by
  unfold checkAndInsert at h
  simp only at h
  split at h
  · exact .inl (contains_sweep h)
  · obtain ⟨t, ht⟩ := Table.contains_iff.mp h
    simp only [Table.get_insert] at ht
    split at ht
    · next heq => exact .inr heq
    · exact .inl (contains_sweep (Table.contains_iff.mpr ⟨t, TtlCache.get_of_evictRounds ht⟩))

end DedupeCache

/-! ## The order of a sender's messages -/

def NOSTR_SEQUENCE_REORDER_WINDOW : Nat := 64

inductive MessageOrderAcceptance where
  | accepted
  | duplicateMessageId
  | reorderedWithinWindow (last sequence : Nat)
  | staleSequence (last sequence : Nat)
  | gap (last sequence : Nat)
deriving DecidableEq, Repr

def MessageOrderAcceptance.isAccepted : MessageOrderAcceptance → Bool
  | .accepted | .gap _ _ | .reorderedWithinWindow _ _ => true
  | .duplicateMessageId | .staleSequence _ _ => false

/-- The part of `accept_message_order` after the check of the message id. -/
def acceptSequence (incomingSequences : Table String Nat) (senderPubkey : String)
    (sequence : Option Nat) : MessageOrderAcceptance × Table String Nat :=
  match sequence with
  | none => (.accepted, incomingSequences)
  | some sequence =>
    match incomingSequences.get senderPubkey with
    | none => (.accepted, incomingSequences.insert senderPubkey sequence)
    | some last =>
      if sequence ≤ last then
        if last - sequence < NOSTR_SEQUENCE_REORDER_WINDOW then
          (.reorderedWithinWindow last sequence, incomingSequences)
        else (.staleSequence last sequence, incomingSequences)
      else if sequence > saturatingAdd last 1 then
        (.gap last sequence, incomingSequences.insert senderPubkey sequence)
      else (.accepted, incomingSequences.insert senderPubkey sequence)

def acceptMessageOrder (messageDedupe : DedupeCache) (incomingSequences : Table String Nat)
    (senderPubkey : String) (messageId : Option String) (sequence : Option Nat) (now : Instant) :
    MessageOrderAcceptance × DedupeCache × Table String Nat :=
  match messageId with
  | none =>
    let (acceptance, sequences) := acceptSequence incomingSequences senderPubkey sequence
    (acceptance, messageDedupe, sequences)
  | some messageId =>
    let (isNew, messageDedupe) := messageDedupe.checkAndInsert messageId now
    if isNew then
      let (acceptance, sequences) := acceptSequence incomingSequences senderPubkey sequence
      (acceptance, messageDedupe, sequences)
    else (.duplicateMessageId, messageDedupe, incomingSequences)

/-! ## The sender of a message -/

inductive BindOutcome where
  | known
  | new
  | rebound (previousPubkey : String)
deriving DecidableEq, Repr

def BindOutcome.reboundFrom : BindOutcome → Option String
  | .rebound previousPubkey => some previousPubkey
  | _ => none

def newerEpoch (stored incoming : Option Nat) : Option Nat :=
  match stored, incoming with
  | some stored, some incoming => some (max stored incoming)
  | some stored, none => some stored
  | none, incoming => incoming

/-- Whether a sender's session is newer than the one on record, if there is one. -/
def epochIsNewer (stored candidate : Option Nat) : Bool :=
  candidate.any fun candidate => stored.all fun stored => decide (stored < candidate)

namespace DiscoveryTable

variable (t : DiscoveryTable)

def pubkeyForNode (now : Nat) (nodeId : NodeId) : Option String × DiscoveryTable :=
  let t := t.sweepExpired now
  ((t.nodeToPubkey.get nodeId).map NodeBinding.pubkey, t)

def epochForNode (nodeId : NodeId) : Option Nat :=
  (t.nodeToPubkey.get nodeId).bind NodeBinding.epoch

def acceptSenderForPayload (now : Nat) (senderWasRequested : Bool) (senderPubkey : String)
    (data : SignalingData) : Bool × DiscoveryTable :=
  if data.signalingType = .request ∨ senderWasRequested then (true, t)
  else
    let (pubkey, t) := t.pubkeyForNode now data.senderId
    (decide (pubkey = some senderPubkey), t)

/-- `NostrSignaler::accept_sender_for_payload`, with the table locked. It also
admits a newer session of a node that is bound to another key. -/
def admitsSender (now : Nat) (senderWasRequested : Bool) (senderPubkey : String)
    (data : SignalingData) (senderEpoch : Option Nat) : Bool × DiscoveryTable :=
  let (accepted, t) := t.acceptSenderForPayload now senderWasRequested senderPubkey data
  if accepted then (true, t)
  else
    let (pubkey, t) := t.pubkeyForNode now data.senderId
    if pubkey = none then (false, t)
    else (epochIsNewer (t.epochForNode data.senderId) senderEpoch, t)

def removePubkey (pubkey : String) : DiscoveryTable :=
  { t with
    byPubkey := t.byPubkey.erase pubkey
    keyed := fun key entry h => by
      rw [Table.get_erase] at h
      split at h
      · cases h
      · exact t.keyed key entry h }

def bindNodeWithEpoch (now : Nat) (nodeId : NodeId) (signalingPubkey : String) (expiresAt : Nat)
    (topologyRank : String) (senderEpoch : Option Nat) (allowRebind : Bool) :
    Except MistError BindOutcome × DiscoveryTable :=
  let t := t.sweepExpired now
  let bind (t : DiscoveryTable) (outcome : BindOutcome) (epoch : Option Nat) :
      Except MistError BindOutcome × DiscoveryTable :=
    let t := t.insertPubkeyWithRank now signalingPubkey expiresAt topologyRank
    (.ok outcome,
      { t with nodeToPubkey := t.nodeToPubkey.insert nodeId ⟨signalingPubkey, epoch⟩ })
  match t.nodeToPubkey.get nodeId with
  | none => bind t .new senderEpoch
  | some existing =>
    if existing.pubkey = signalingPubkey then
      bind t .known (newerEpoch existing.epoch senderEpoch)
    else if epochIsNewer existing.epoch senderEpoch ∨ allowRebind then
      bind (t.removePubkey existing.pubkey) (.rebound existing.pubkey) senderEpoch
    else (.error (.signaling "Nostr sender node id changed pubkey"), t)

/-- A node that is heard of stays known for the time to live. -/
def touchNode (now : Nat) (nodeId : NodeId) (ttlSeconds : Nat) : DiscoveryTable :=
  let t := t.sweepExpired now
  match t.nodeToPubkey.get nodeId with
  | none => t
  | some binding =>
    { t with
      byPubkey := t.byPubkey.modify binding.pubkey fun entry =>
        { entry with expiresAt := max entry.expiresAt (saturatingAdd now ttlSeconds) }
      keyed := fun key entry h => by
        rw [Table.get_modify] at h
        split at h
        · obtain ⟨before, hbefore, rfl⟩ := Option.map_eq_some_iff.mp h
          exact t.keyed key before hbefore
        · exact t.keyed key entry h }

end DiscoveryTable

end Signaling

end Mistlib
