import Mathlib.Data.List.Nodup
import Mathlib.Algebra.Ring.Nat

/-!
# Shared types

The values the overlay and the storage layer exchange.

Instants and durations are natural numbers of nanoseconds. A difference of
two instants is truncated at zero, which is what `Instant::duration_since`
answers for an earlier instant.
-/

namespace Mistlib

abbrev Bytes := List UInt8

abbrev Instant := Nat

abbrev Duration := Nat

def Duration.fromSecs (n : Nat) : Duration := n * 1000000000

def utf8 (s : String) : Bytes := s.toUTF8.data.toList

/-- The string whose UTF-8 bytes are given, if they are UTF-8 at all. -/
def fromUtf8 (bytes : Bytes) : Option String := String.fromUTF8? ⟨bytes.toArray⟩

/-- A text is read back from its bytes. -/
theorem fromUtf8_utf8 (s : String) : fromUtf8 (utf8 s) = some s := by
  have hbytes : (⟨(utf8 s).toArray⟩ : ByteArray) = s.toUTF8 := rfl
  rw [fromUtf8, hbytes, String.fromUTF8?, String.toUTF8_eq_toByteArray, dif_pos s.isValidUTF8]
  rfl

theorem utf8_of_fromUtf8 {bytes : Bytes} {s : String} (h : fromUtf8 bytes = some s) :
    utf8 s = bytes := by
  simp only [fromUtf8, String.fromUTF8?] at h
  split at h
  · cases h
    rfl
  · cases h

/-- `u64::to_le_bytes`. -/
def toLeBytes (n : Nat) : Bytes := (List.range 8).map fun i => UInt8.ofNat (n / 256 ^ i)

/-- A node's id. The empty id addresses everybody. -/
structure NodeId where
  id : String
deriving DecidableEq, Repr, Inhabited

namespace NodeId

def server : NodeId := ⟨"server"⟩

def broadcast : NodeId := ⟨""⟩

def isServer (n : NodeId) : Bool := n.id == "server"

def isBroadcast (n : NodeId) : Bool := n.id.isEmpty

theorem isBroadcast_iff {n : NodeId} : n.isBroadcast = true ↔ n = broadcast := by
  cases n with
  | mk id => simp [isBroadcast, broadcast]

end NodeId

inductive MistError where
  | internal (text : String)
  | config (text : String)
  | network (text : String)
  | signaling (text : String)
  | serialization (text : String)
  | nodeNotFound (node : NodeId)
  | routeNotFound (node : NodeId)
  | messageTooLarge (size limit : Nat)
  | other (text : String)
deriving DecidableEq, Repr

inductive DeliveryMethod where
  | reliableOrdered
  | unreliableOrdered
  | unreliable
  | reliableUnordered
deriving DecidableEq, Repr

inductive ConnectionState where
  | disconnected
  | connecting
  | connected
  | reconnecting
  | failed
deriving DecidableEq, Repr

inductive SignalingType where
  | offer
  | answer
  | candidate
  | candidates
  | request
  | rejoin
  | candidateAck
  | negotiationAck
deriving DecidableEq, Repr

structure SignalingData where
  senderId : NodeId
  receiverId : NodeId
  roomId : String
  data : String
  signalingType : SignalingType
deriving DecidableEq, Repr

structure OverlayMessage where
  messageType : Nat
  payload : Bytes
deriving DecidableEq, Repr

inductive MessageContent where
  | data (data : SignalingData)
  | overlay (message : OverlayMessage)
  | raw (bytes : Bytes)
deriving DecidableEq, Repr

/-- What travels between routers. `msgId` 0 is never remembered by the
duplicate suppression and `seq` 0 is never reordered. -/
structure OverlayEnvelope where
  source : NodeId
  dest : NodeId
  msgId : Nat
  seq : Nat
  hopCount : Nat
  content : MessageContent
deriving DecidableEq, Repr

/-- A fresh envelope; `msgId` is the random non-zero id drawn for it. -/
def OverlayEnvelope.new (source dest : NodeId) (msgId hopCount : Nat) (content : MessageContent) :
    OverlayEnvelope :=
  { source, dest, msgId, seq := 0, hopCount, content }

def OverlayEnvelope.withSeq (e : OverlayEnvelope) (seq : Nat) : OverlayEnvelope := { e with seq }

/-- What the duplicate suppression knows an envelope by. -/
def OverlayEnvelope.key (e : OverlayEnvelope) : NodeId × Nat := (e.source, e.msgId)

/-- The wire encoding of envelopes. What the router relies on is that a decoded frame is the
envelope it was made from. -/
structure Wire where
  serialize : OverlayEnvelope → Except String Bytes
  deserialize : Bytes → Option OverlayEnvelope
  roundTrip : ∀ {e b}, serialize e = .ok b → deserialize b = some e

/-- The wire that carries the frames listed and no others. -/
def Wire.ofFrames (frames : List (OverlayEnvelope × Bytes))
    (distinct : (frames.map Prod.snd).Nodup) : Wire where
  serialize e :=
    match frames.find? fun f => decide (f.1 = e) with
    | some f => .ok f.2
    | none => .error "not a frame of this wire"
  deserialize b := (frames.find? fun f => decide (f.2 = b)).map Prod.fst
  roundTrip := by
    intro e b h
    cases hf : frames.find? fun f => decide (f.1 = e) with
    | none => simp [hf] at h
    | some f =>
      simp only [hf, Except.ok.injEq] at h
      have hmem := List.mem_of_find?_eq_some hf
      have he : f.1 = e := by simpa using List.find?_some hf
      cases hg : frames.find? fun g => decide (g.2 = b) with
      | none =>
        have := List.find?_eq_none.mp hg f hmem
        simp [h] at this
      | some g =>
        have hb : g.2 = b := by simpa using List.find?_some hg
        have hfg : g = f :=
          List.inj_on_of_nodup_map distinct (List.mem_of_find?_eq_some hg) hmem (hb.trans h.symm)
        simp [hfg, he]

end Mistlib
