import Mistlib.Transport.LaneQueue

/-!
# The channel a frame travels on

The source decides method, lane and number of a frame when it dispatches it; every relay derives
method and lane again from the bytes it received, with switches of its own. The queue in front
of the transport derives the lane a third time (`SendClass.fromWire`). Over any number of
relays, each with any configuration, the three derivations agree and a frame with a number stays
on the ordered channel.
-/

namespace Mistlib.Transport

open Overlay Overlay.OverlayRouter

/-- The class of a frame as its bytes tell it; what is no envelope is general. -/
def SendClass.fromWire (w : Wire) (data : Bytes) : SendClass :=
  match w.deserialize data with
  | none => {}
  | some envelope =>
    let lane := SendLane.classify envelope.content envelope.dest.isBroadcast
    { lane, unsequencedBulk := lane = .bulk ∧ envelope.seq = 0 }

/-- The dispatch whose commit takes every frame, so that the frame shows. -/
def offered {τ : Type} (d : Dispatch τ) : Dispatch OverlayAction :=
  { d with commit := .ok }

/-- A frame handed to a transport, with what its bytes carry. `asked` is the
method its first sender was asked for. -/
structure OrderKept (w : Wire) (asked method : DeliveryMethod) (lane : SendLane) (data : Bytes)
    (envelope : OverlayEnvelope) : Prop where
  carries : w.deserialize data = some envelope
  unordered : method = .reliableUnordered →
    asked = .reliableUnordered ∨ lane = .bulk ∧ envelope.seq = 0
  numbered : 0 < envelope.seq → method ≠ .reliableUnordered
  sameLane : (SendClass.fromWire w data).lane = lane

theorem storageDelivery_unordered {method : DeliveryMethod} {lane : SendLane} {seq : Nat}
    {bulkChannel : Bool} (h : storageDelivery method lane seq bulkChannel = .reliableUnordered) :
    method = .reliableUnordered ∨ lane = .bulk ∧ seq = 0 := by
  unfold storageDelivery at h
  split at h
  · next hbulk => exact .inr hbulk.2.2
  · exact .inl h

variable {w : Wire} {r : OverlayRouter} {action : OverlayAction}

theorem buildFrame_orderKept {τ : Type} {d : Dispatch τ} {r' : OverlayRouter} {seq : Nat}
    (h : buildFrame w (offered d) r seq = .ok (action, r'))
    (hseq : 0 < seq → d.method ≠ .reliableUnordered) :
    ∃ dest data method lane envelope, action = .sendMessage dest data method lane ∧
      OrderKept w d.method method lane data envelope := by
  simp only [buildFrame, offered, Dispatch.lane, bind, Except.bind, pure, Except.pure] at h
  cases hserialized : w.serialize ((OverlayEnvelope.new r.localNodeId d.dest d.msgId r.hopCount
      (.raw d.data)).withSeq seq) with
  | error e =>
    rw [hserialized] at h
    cases h
  | ok encoded =>
    have hdecoded := w.roundTrip hserialized
    have hkept : OrderKept w d.method
        (storageDelivery d.method (SendLane.classify (.raw d.data) d.dest.isBroadcast) seq
          r.transfer.bulkChannel)
        (SendLane.classify (.raw d.data) d.dest.isBroadcast) encoded _ :=
      { carries := hdecoded
        unordered := storageDelivery_unordered
        numbered := by
          intro hpos hunordered
          rcases storageDelivery_unordered hunordered with hasked | ⟨_, hzero⟩
          · exact hseq hpos hasked
          · exact absurd hzero (Nat.pos_iff_ne_zero.mp hpos)
        sameLane := by
          simp [SendClass.fromWire, hdecoded, OverlayEnvelope.new, OverlayEnvelope.withSeq] }
    rw [hserialized] at h
    simp only [Except.mapError] at h
    split at h
    · cases h
    · cases hhop : d.nextHop with
      | none =>
        simp only [hhop, createSendAction] at h
        cases h
        exact ⟨_, _, _, _, _, rfl, hkept⟩
      | some hop =>
        simp only [hhop] at h
        cases h
        exact ⟨_, _, _, _, _, rfl, hkept⟩

/-- What a dispatch hands to the transport keeps the order asked for. -/
theorem dispatch_orderKept {τ : Type} {d : Dispatch τ} {r' : OverlayRouter}
    (h : r.dispatchDataVia w (offered d) = .ok (action, r')) :
    ∃ dest data method lane envelope, action = .sendMessage dest data method lane ∧
      OrderKept w d.method method lane data envelope := by
  unfold dispatchDataVia at h
  split at h
  · next htakes =>
    have hordered : d.method = .reliableOrdered := by
      simp only [Dispatch.takesSeq, decide_eq_true_eq] at htakes
      exact htakes.1
    simp only [withNextSeq, bind, Except.bind] at h
    split at h
    · cases h
    · next built hbuilt =>
      cases h
      exact buildFrame_orderKept hbuilt (by simp [hordered])
  · exact buildFrame_orderKept h (by simp)

/-- A relay, whatever its switches, sends on the ordered channel all but
chunks without a number. -/
theorem forward_orderKept {envelope : OverlayEnvelope} {targets : ForwardTargets}
    (h : action ∈ forwardActions w r envelope targets) (asked : DeliveryMethod) :
    ∃ dest data method lane envelope', action = .sendMessage dest data method lane ∧
      OrderKept w asked method lane data envelope' := by
  unfold forwardActions at h
  split at h
  · simp only at h
    split at h
    · cases h
    · next data hserialized =>
      have hdecoded := w.roundTrip hserialized
      have hkept : OrderKept w asked
          (storageDelivery .reliableOrdered
            (SendLane.classify envelope.content envelope.dest.isBroadcast) envelope.seq
            r.transfer.bulkChannel)
          (SendLane.classify envelope.content envelope.dest.isBroadcast) data (relayed envelope) :=
        { carries := hdecoded
          unordered := by
            intro hunordered
            rcases storageDelivery_unordered hunordered with hasked | hbulk
            · cases hasked
            · exact .inr hbulk
          numbered := by
            intro hpos hunordered
            rcases storageDelivery_unordered hunordered with hasked | ⟨_, hzero⟩
            · cases hasked
            · exact absurd hzero (Nat.pos_iff_ne_zero.mp hpos)
          sameLane := by simp [SendClass.fromWire, hdecoded, relayed] }
      split at h
      · obtain ⟨dest, _, rfl⟩ := List.mem_map.mp h
        exact ⟨_, _, _, _, _, rfl, hkept⟩
      · simp only [List.mem_singleton] at h
        exact ⟨_, _, _, _, _, h, hkept⟩
      · cases h
  · cases h

/-- The frames on a path: dispatched by a source that was asked for `asked`, or forwarded by a
relay that received one. Every router on the path is any router, with any configuration. -/
inductive OnPath (w : Wire) (asked : DeliveryMethod) : OverlayAction → Prop
  | source {τ : Type} {r r' : OverlayRouter} {d : Dispatch τ} {action : OverlayAction}
      (hasked : d.method = asked) (h : r.dispatchDataVia w (offered d) = .ok (action, r')) :
      OnPath w asked action
  | relay {dest : NodeId} {data : Bytes} {method : DeliveryMethod} {lane : SendLane}
      (hbefore : OnPath w asked (.sendMessage dest data method lane)) {envelope : OverlayEnvelope}
      (hreceived : w.deserialize data = some envelope) {r : OverlayRouter}
      {targets : ForwardTargets} {action : OverlayAction}
      (h : action ∈ forwardActions w r envelope targets) : OnPath w asked action
  | foreign {envelope : OverlayEnvelope} {r : OverlayRouter} {targets : ForwardTargets}
      {action : OverlayAction} (h : action ∈ forwardActions w r envelope targets) :
      OnPath w asked action

/-- **No frame with a number leaves the ordered path.** Whatever the switches
of the source and of every relay, a frame handed to the transport as reliable
unordered was asked for as such, or is a chunk on the bulk lane without a
number; and the lane read from its bytes is the lane it is handed over with. -/
theorem onPath_orderKept {w : Wire} {asked : DeliveryMethod} {action : OverlayAction}
    (h : OnPath w asked action) :
    ∃ dest data method lane envelope, action = .sendMessage dest data method lane ∧
      OrderKept w asked method lane data envelope := by
  cases h with
  | source hasked h =>
    subst hasked
    exact dispatch_orderKept h
  | relay _ _ h | foreign h => exact forward_orderKept h asked

/-! ### A chunk over one relay -/

namespace ChunkPath

def chunk : Bytes := Storage.buildHaveChunkMessage "ba" 0 2 [7]

def frame (hopCount : Nat) : OverlayEnvelope := .new ⟨"a"⟩ ⟨"c"⟩ 5 hopCount (.raw chunk)

def wire : Wire := .ofFrames [(frame 2, [2]), (frame 1, [1])] (by decide)

/-- The source sends chunks without a number, the relay has an unordered channel. -/
def source : OverlayRouter := .new ⟨"a"⟩ 2 ⟨true, false⟩ []

def relay : OverlayRouter := .new ⟨"b"⟩ 2 ⟨false, true⟩ []

def dispatch : Dispatch Unit where
  dest := ⟨"c"⟩
  nextHop := some ⟨"b"⟩
  data := chunk
  method := .reliableOrdered
  msgId := 5
  now := 1
  rememberedAt := 1
  validate _ := .ok ()
  commit _ := .ok ()

theorem sent : ∃ r, source.dispatchDataVia wire (offered dispatch) =
    .ok (.sendMessage ⟨"b"⟩ [2] .reliableOrdered .bulk, r) := by
  exact ⟨_, rfl⟩

end ChunkPath

open ChunkPath in
theorem chunk_orderKept :
    OnPath wire .reliableOrdered (.sendMessage ⟨"c"⟩ [1] .reliableUnordered .bulk) ∧
      ∃ envelope, OrderKept wire .reliableOrdered .reliableUnordered .bulk [1] envelope := by
  obtain ⟨r, hsent⟩ := ChunkPath.sent
  have hreceived : wire.deserialize [2] = some (frame 2) := by decide
  have hforwarded : OverlayAction.sendMessage ⟨"c"⟩ [1] .reliableUnordered .bulk ∈
      forwardActions wire relay (frame 2) (.unicast ⟨"c"⟩) := by decide
  have hpath : OnPath wire .reliableOrdered (.sendMessage ⟨"c"⟩ [1] .reliableUnordered .bulk) :=
    .relay (.source rfl hsent) hreceived hforwarded
  refine ⟨hpath, ?_⟩
  obtain ⟨dest, data, method, lane, envelope, haction, hkept⟩ := onPath_orderKept hpath
  cases haction
  exact ⟨envelope, hkept⟩

end Mistlib.Transport
