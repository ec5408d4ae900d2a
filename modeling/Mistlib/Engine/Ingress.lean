import Mistlib.Overlay.BroadcastRoute
import Mistlib.Overlay.ReorderRestart
import Mistlib.Signaling.RelayReaders

/-!
# Where signaling comes in

A session takes signaling from the reader of the signaling websocket, the readers of the relays,
and the overlay, whose envelopes carry the same `SignalingData` as what applications send to
each other. All three end at the transport's `SignalingHandler`.

What the readers let through goes over one channel to the signaling loop; what the overlay
delivers goes to a dispatcher that hands it on, one after the other in the native engine and
each in a task of its own in the core engine. What the handler does with a message is left out,
and of the messages of applications and of the storage layer only where they go.
-/

namespace Mistlib

/-! ## What the reorder buffer holds -/

namespace Overlay.ReorderBuffer

variable {κ : Type} {P : κ → Prop} {b : ReorderBuffer κ}

/-- Everything held of any source satisfies `P`. -/
def Holds (P : κ → Prop) (b : ReorderBuffer κ) : Prop :=
  ∀ source s, b.sources.get source = some s → s.Holds P

namespace Holds

section

variable (h : b.Holds P) (source : NodeId)
include h source

theorem insert {s : SourceState κ} (hs : s.Holds P) :
    Holds P { b with sources := b.sources.insert source s } := by
  intro other s' hget
  rw [Table.get_insert] at hget
  split at hget
  · cases hget
    exact hs
  · exact h other s' hget

theorem evictSourcesIfNeeded : (b.evictSourcesIfNeeded source).Holds P := by
  unfold ReorderBuffer.evictSourcesIfNeeded
  split
  · exact h
  · split
    · intro other s hget
      rw [Table.get_erase] at hget
      split at hget
      · cases hget
      · exact h other s hget
    · exact h

theorem stateOf (now : Instant) : (b.stateOf source now).Holds P := by
  unfold ReorderBuffer.stateOf
  cases hget : b.sources.get source with
  | none => exact fun k c hk => by simp [SourceState.new] at hk
  | some s => exact h source s hget

theorem acceptAt (seq : Nat) {content : κ} (hc : P content) (now : Instant) :
    (∀ c ∈ (b.acceptAt source seq content now).1, P c) ∧
      (b.acceptAt source seq content now).2.Holds P := by
  have hlast {out : List κ} (hout : ∀ c ∈ out, P c) : ∀ c ∈ out ++ [content], P c := by
    intro c hmem
    rcases List.mem_append.mp hmem with hmem | hmem
    · exact hout c hmem
    · exact List.mem_singleton.mp hmem ▸ hc
  unfold ReorderBuffer.acceptAt
  split
  · split
    · next state hget =>
      have hstate : SourceState.Holds P { state with lastActivity := now } := h source state hget
      obtain ⟨hout, hheld⟩ := hstate.flushStale b.gapTimeout now
      exact ⟨hlast hout, h.insert source hheld⟩
    · exact ⟨fun c hmem => List.mem_singleton.mp hmem ▸ hc, h⟩
  · have hroom := h.evictSourcesIfNeeded source
    have hstate : SourceState.Holds P
        { (b.evictSourcesIfNeeded source).stateOf source now with lastActivity := now } :=
      hroom.stateOf source now
    obtain ⟨hout, hflushed⟩ :=
      hstate.flushStale (b.evictSourcesIfNeeded source).gapTimeout now
    obtain ⟨hnext, hheld⟩ :=
      hflushed.sequence (b.evictSourcesIfNeeded source).maxPerSource seq hc now
    refine ⟨fun c hmem => ?_, hroom.insert source hheld⟩
    rcases List.mem_append.mp hmem with hmem | hmem
    · exact hout c hmem
    · exact hnext c hmem

end

theorem flushExpired (h : b.Holds P) (now : Instant) :
    (∀ c ∈ (b.flushExpired now).1.flatMap Prod.snd, P c) ∧ (b.flushExpired now).2.Holds P := by
  constructor
  · intro c hmem
    obtain ⟨out, hout, hc⟩ := List.mem_flatMap.mp hmem
    obtain ⟨e, he, hsome⟩ := List.mem_filterMap.mp hout
    simp only at hsome
    split at hsome
    · cases hsome
    · cases hsome
      have hheld := h e.1 e.2 (Table.get_eq_some_iff.mpr he)
      exact (hheld.flushStale b.gapTimeout now).1 c hc
  · intro source s hget
    simp only [ReorderBuffer.flushExpired, Table.get_mapVals] at hget
    obtain ⟨before, hbefore, rfl⟩ := Option.map_eq_some_iff.mp hget
    exact ((h source before hbefore).flushStale b.gapTimeout now).2

end Holds

end Overlay.ReorderBuffer

/-! The router leaves the reorder buffer to its callers. -/

namespace Overlay.OverlayRouter

theorem reorderBuffer_learnRoute (r : OverlayRouter) (source link : NodeId) :
    (r.learnRoute source link).reorderBuffer = r.reorderBuffer := by
  unfold learnRoute
  split
  · rfl
  · rfl

theorem reorderBuffer_handleEnvelope (w : Wire) (r : OverlayRouter) (envelope : OverlayEnvelope)
    (link : NodeId) (now : Instant) :
    (r.handleEnvelope w envelope link now).2.reorderBuffer = r.reorderBuffer := by
  have hnoted : (r.noteInboundActivity link).2.reorderBuffer = r.reorderBuffer := by
    unfold noteInboundActivity
    split
    · rfl
    · rfl
  have hseen (r : OverlayRouter) : (r.markSeen envelope now).2.reorderBuffer = r.reorderBuffer := by
    unfold markSeen
    split
    · rfl
    · rfl
  have hdelivered (r : OverlayRouter) :
      (r.deliverToStrategies envelope).2.reorderBuffer = r.reorderBuffer := by
    unfold deliverToStrategies
    split
    · split
      · rfl
      · rfl
    · rfl
  rw [handleEnvelope_router]
  split
  · rw [hdelivered, hseen, hnoted]
  · rw [hseen, hnoted]

end Overlay.OverlayRouter

namespace Engine

open Overlay Signaling

/-! ## The three sides -/

/-- Whether a message carries signaling that only this node may make. -/
def isLocalOnly : MessageContent → Bool
  | .data data => data.signalingType.isLocalOnly
  | .overlay _ | .raw _ => false

inductive Side where
  | websocket
  | relay
  | overlay
deriving DecidableEq, Repr

/-- Which engine runs the session. Without an overlay router the core engine
delivers an envelope for this node as it is, and the native one drops it. -/
inductive Kind where
  | native
  | core
deriving DecidableEq, Repr

/-- The session's signaling on its way in, and what the handler has been given. -/
structure Ingress where
  /-- What the websocket's reader has put on the channel. -/
  websocket : List SignalingData
  relays : NostrSignaler
  /-- How much of the relays' channel the signaling loop has taken. -/
  relayed : Nat
  router : Option OverlayRouter
  dispatched : List SignalingData
  handled : List (Side × SignalingData)

inductive IngressInput where
  /-- A text or a binary frame of the websocket. -/
  | websocketFrame (frame : Bytes)
  | relay (input : ReaderInput)
  /-- A frame from a connected peer. -/
  | overlayFrame (link : NodeId) (data : Bytes) (now : Instant)
  /-- The periodic flush of the reorder buffer. -/
  | tick (now : Instant)
  | handleWebsocket
  | handleRelay
  | handleOverlay (index : Nat)
deriving DecidableEq, Repr

/-- What is common to all steps of a session: the engine, the wire of the overlay,
the JSON decoder of the websocket, the relays' session, and the engine's own id. -/
structure Setting where
  kind : Kind
  wire : Wire
  decode : Bytes → Option SignalingData
  session : NostrSession
  selfId : NodeId

/-- The router's part of an overlay frame, with the envelope that gets through to this node. -/
def letThrough (e : Setting) (router : Option OverlayRouter) (link : NodeId) (data : Bytes)
    (now : Instant) : Option OverlayEnvelope × Option OverlayRouter :=
  match e.wire.deserialize data with
  | none => (none, router)
  | some envelope =>
    let toSelf := decide (envelope.dest = e.selfId) || envelope.dest.isBroadcast
    match router with
    | some r =>
      let (result, r) := (r.learnRoute envelope.source link).handleEnvelope e.wire envelope link now
      (if toSelf && result.shouldDeliver then some envelope else none, some r)
    | none => (if toSelf && decide (e.kind = .core) then some envelope else none, none)

namespace Ingress

/-- A session begins with a router, if it has one, that holds nothing back yet. -/
def new (dedupeTtl : Duration) (router : Option OverlayRouter) : Ingress where
  websocket := []
  relays := .new dedupeTtl
  relayed := 0
  router := router.map fun r => { r with reorderBuffer := .default }
  dispatched := []
  handled := []

def readWebsocket (e : Setting) (s : Ingress) (frame : Bytes) : Ingress :=
  match e.decode frame with
  | none => s
  | some data =>
    if data.signalingType.isLocalOnly then s else { s with websocket := s.websocket ++ [data] }

/-- `dispatch_local_message`. Storage and application messages leave signaling alone. -/
def dispatchLocalMessage (s : Ingress) : MessageContent → Ingress
  | .data data => { s with dispatched := s.dispatched ++ [data] }
  | .overlay _ | .raw _ => s

def dispatchAll (s : Ingress) (contents : List MessageContent) : Ingress :=
  contents.foldl dispatchLocalMessage s

/-- `handle_overlay_envelope` and `process_network_event`, on a frame that may be no envelope. -/
def receive (e : Setting) (s : Ingress) (link : NodeId) (data : Bytes) (now : Instant) : Ingress :=
  match letThrough e s.router link data now with
  | (none, router) => { s with router }
  | (some envelope, none) => { s with router := none }.dispatchLocalMessage envelope.content
  | (some envelope, some r) =>
    let (contents, reorderBuffer) :=
      r.reorderBuffer.acceptAt envelope.source envelope.seq envelope.content now
    { s with router := some { r with reorderBuffer } }.dispatchAll contents

def flushExpiredReorder (s : Ingress) (now : Instant) : Ingress :=
  match s.router with
  | none => s
  | some r =>
    let (expired, reorderBuffer) := r.reorderBuffer.flushExpired now
    { s with router := some { r with reorderBuffer } }.dispatchAll (expired.flatMap Prod.snd)

def handle (s : Ingress) (side : Side) (data : SignalingData) : Ingress :=
  { s with handled := s.handled ++ [(side, data)] }

def putData : Put → SignalingData
  | .rejoin _ data | .message _ data => data

def step (e : Setting) (s : Ingress) : IngressInput → Option Ingress
  | .websocketFrame frame => some (s.readWebsocket e frame)
  | .relay input => (s.relays.step e.session input).map fun relays => { s with relays }
  | .overlayFrame link data now => some (s.receive e link data now)
  | .tick now => some (s.flushExpiredReorder now)
  | .handleWebsocket =>
    match s.websocket with
    | [] => none
    | data :: websocket => some ({ s with websocket }.handle .websocket data)
  | .handleRelay =>
    s.relays.channel[s.relayed]?.map fun put =>
      { s with relayed := s.relayed + 1 }.handle .relay (putData put)
  | .handleOverlay index =>
    s.dispatched[index]?.map fun data =>
      { s with dispatched := s.dispatched.eraseIdx index }.handle .overlay data

/-- A notice that `process_event` has made because a binding answered `Rebound`. -/
def FromRebound (s : Ingress) (side : Side) (data : SignalingData) : Prop :=
  side = .relay ∧ ∃ event, .rejoin event data ∈ s.relays.channel ∧ s.relays.Reached Phase.rebound event

/-- The only local-only signaling the handler has been given from a side was made here. -/
def GuardedFrom (side : Side) (s : Ingress) : Prop :=
  ∀ data, (side, data) ∈ s.handled → data.signalingType.isLocalOnly = true → s.FromRebound side data

def Guarded (s : Ingress) : Prop := ∀ side, s.GuardedFrom side

/-- No envelope that gets through to this node carries local-only signaling. -/
def Clean (e : Setting) (s : Ingress) : IngressInput → Prop
  | .overlayFrame link data now =>
    ∀ envelope ∈ (letThrough e s.router link data now).1, isLocalOnly envelope.content = false
  | _ => True

instance (e : Setting) (s : Ingress) : DecidablePred (s.Clean e)
  | .overlayFrame link data now =>
    inferInstanceAs (Decidable (∀ envelope ∈ (letThrough e s.router link data now).1, _))
  | .websocketFrame _ | .relay _ | .tick _ | .handleWebsocket | .handleRelay | .handleOverlay _ =>
    .isTrue trivial

/-! ## What each side lets through -/

variable {e : Setting} {s s' : Ingress} {input : IngressInput}

/-- What the overlay has in store is not local-only. -/
structure Harmless (s : Ingress) : Prop where
  held : ∀ r ∈ s.router, r.reorderBuffer.Holds fun content => isLocalOnly content = false
  dispatched : ∀ data ∈ s.dispatched, data.signalingType.isLocalOnly = false

/-- The websocket's reader lets nothing local-only through, and neither do the
relays' readers, whose own notices aside. -/
structure Filtered (session : NostrSession) (s : Ingress) : Prop where
  websocket : ∀ data ∈ s.websocket, data.signalingType.isLocalOnly = false
  relays : s.relays.Genuine session

theorem dispatchAll_eq (s : Ingress) (contents : List MessageContent) :
    ∃ more, s.dispatchAll contents = { s with dispatched := s.dispatched ++ more } ∧
      ∀ data ∈ more, .data data ∈ contents := by
  induction contents generalizing s with
  | nil => exact ⟨[], by simp [dispatchAll], nofun⟩
  | cons content rest ih =>
    obtain ⟨more, hmore, hin⟩ := ih (s.dispatchLocalMessage content)
    have hunfold : s.dispatchAll (content :: rest) = (s.dispatchLocalMessage content).dispatchAll rest :=
      rfl
    rw [hunfold, hmore]
    cases content with
    | data data =>
      refine ⟨data :: more, by simp [dispatchLocalMessage], fun d hd => ?_⟩
      rcases List.mem_cons.mp hd with rfl | hd
      · exact List.mem_cons_self
      · exact List.mem_cons_of_mem _ (hin d hd)
    | overlay message | raw bytes => exact ⟨more, rfl, fun d hd => List.mem_cons_of_mem _ (hin d hd)⟩

theorem Harmless.dispatchAll (h : s.Harmless) {contents : List MessageContent}
    (hcontents : ∀ content ∈ contents, isLocalOnly content = false) :
    (s.dispatchAll contents).Harmless := by
  obtain ⟨more, hmore, hin⟩ := s.dispatchAll_eq contents
  rw [hmore]
  refine ⟨h.held, fun data hdata => ?_⟩
  rcases List.mem_append.mp hdata with hold | hnew
  · exact h.dispatched data hold
  · exact hcontents _ (hin data hnew)

theorem receive_eq (e : Setting) (s : Ingress) (link : NodeId) (data : Bytes) (now : Instant) :
    ∃ router dispatched, s.receive e link data now = { s with router, dispatched } := by
  unfold receive
  split
  · exact ⟨_, _, rfl⟩
  · obtain ⟨more, hmore, _⟩ := dispatchAll_eq { s with router := none } [_]
    exact ⟨_, _, hmore⟩
  · obtain ⟨more, hmore, _⟩ := dispatchAll_eq { s with router := some _ } _
    exact ⟨_, _, hmore⟩

theorem flushExpiredReorder_eq (s : Ingress) (now : Instant) :
    ∃ router dispatched, s.flushExpiredReorder now = { s with router, dispatched } := by
  unfold flushExpiredReorder
  split
  · exact ⟨s.router, s.dispatched, rfl⟩
  · obtain ⟨more, hmore, _⟩ := dispatchAll_eq { s with router := some _ } _
    exact ⟨_, _, hmore⟩

theorem letThrough_reorderBuffer {router : Option OverlayRouter} {link : NodeId} {data : Bytes}
    {now : Instant} {r : OverlayRouter} (h : r ∈ (letThrough e router link data now).2) :
    ∃ before ∈ router, r.reorderBuffer = before.reorderBuffer := by
  unfold letThrough at h
  split at h
  · exact ⟨r, h, rfl⟩
  · cases router with
    | none => cases h
    | some before =>
      refine ⟨before, rfl, ?_⟩
      rw [← Option.some.inj h, OverlayRouter.reorderBuffer_handleEnvelope, OverlayRouter.reorderBuffer_learnRoute]

theorem Harmless.receive (h : s.Harmless) {link : NodeId} {data : Bytes} {now : Instant}
    (hclean : s.Clean e (.overlayFrame link data now)) : (s.receive e link data now).Harmless := by
  have hheld {r : OverlayRouter} (hr : r ∈ (letThrough e s.router link data now).2) :
      r.reorderBuffer.Holds fun content => isLocalOnly content = false := by
    obtain ⟨before, hbefore, hsame⟩ := letThrough_reorderBuffer hr
    rw [hsame]
    exact h.held before hbefore
  unfold Ingress.receive
  split
  · next router hthrough =>
    rw [hthrough] at hheld
    exact ⟨fun r hr => hheld hr, h.dispatched⟩
  · next envelope hthrough =>
    have hcontent := hclean envelope (by rw [hthrough]; rfl)
    have hbefore : Harmless { s with router := none } := by
      refine ⟨fun r hr => ?_, h.dispatched⟩
      cases hr
    have hall : ∀ content ∈ [envelope.content], isLocalOnly content = false := by
      intro content hmem
      exact List.mem_singleton.mp hmem ▸ hcontent
    exact hbefore.dispatchAll hall
  · next envelope r hthrough =>
    have hcontent := hclean envelope (by rw [hthrough]; rfl)
    have hbuffer := hheld (r := r) (by rw [hthrough]; rfl)
    obtain ⟨hout, hafter⟩ := hbuffer.acceptAt envelope.source envelope.seq hcontent now
    have hbefore : Harmless { s with router := some { r with reorderBuffer := _ } } :=
      ⟨fun _ hr' => Option.some.inj hr' ▸ hafter, h.dispatched⟩
    exact hbefore.dispatchAll hout

theorem Harmless.flushExpiredReorder (h : s.Harmless) (now : Instant) :
    (s.flushExpiredReorder now).Harmless := by
  unfold Ingress.flushExpiredReorder
  split
  · exact h
  · next r hr =>
    obtain ⟨hout, hafter⟩ := (h.held r hr).flushExpired now
    have hbefore : Harmless { s with router := some { r with reorderBuffer := _ } } :=
      ⟨fun _ hr' => Option.some.inj hr' ▸ hafter, h.dispatched⟩
    exact hbefore.dispatchAll hout

/-- A clean step lets nothing harmful in. -/
theorem Harmless.step (h : s.Harmless) (hclean : s.Clean e input) (hstep : s.step e input = some s') :
    s'.Harmless := by
  cases input with
  | websocketFrame frame =>
    cases hstep
    unfold readWebsocket
    split
    · exact h
    · split
      · exact h
      · exact ⟨h.held, h.dispatched⟩
  | relay input =>
    obtain ⟨relays, _, rfl⟩ := Option.map_eq_some_iff.mp hstep
    exact ⟨h.held, h.dispatched⟩
  | overlayFrame link data now =>
    cases hstep
    exact h.receive hclean
  | tick now =>
    cases hstep
    exact h.flushExpiredReorder now
  | handleWebsocket =>
    simp only [Ingress.step] at hstep
    split at hstep
    · cases hstep
    · cases hstep
      exact ⟨h.held, h.dispatched⟩
  | handleRelay =>
    obtain ⟨put, _, rfl⟩ := Option.map_eq_some_iff.mp hstep
    exact ⟨h.held, h.dispatched⟩
  | handleOverlay index =>
    obtain ⟨data, _, rfl⟩ := Option.map_eq_some_iff.mp hstep
    exact ⟨h.held, fun data hdata => h.dispatched data (List.mem_of_mem_eraseIdx hdata)⟩

/-- Each step keeps what is queued filtered for the session. -/
theorem Filtered.step (h : s.Filtered e.session) (hstep : s.step e input = some s') :
    s'.Filtered e.session := by
  cases input with
  | websocketFrame frame =>
    cases hstep
    unfold readWebsocket
    split
    · exact h
    · split
      · exact h
      · next hlocal =>
        refine ⟨fun data hdata => ?_, h.relays⟩
        rcases List.mem_append.mp hdata with hold | hnew
        · exact h.websocket data hold
        · exact List.mem_singleton.mp hnew ▸ Bool.eq_false_iff.mpr hlocal
  | relay input =>
    obtain ⟨relays, hrelays, rfl⟩ := Option.map_eq_some_iff.mp hstep
    exact ⟨h.websocket, h.relays.step hrelays⟩
  | overlayFrame link data now =>
    cases hstep
    obtain ⟨router, dispatched, hsame⟩ := receive_eq e s link data now
    rw [hsame]
    exact ⟨h.websocket, h.relays⟩
  | tick now =>
    cases hstep
    obtain ⟨router, dispatched, hsame⟩ := flushExpiredReorder_eq s now
    rw [hsame]
    exact ⟨h.websocket, h.relays⟩
  | handleWebsocket =>
    simp only [Ingress.step] at hstep
    split at hstep
    · cases hstep
    · next data websocket hwebsocket =>
      cases hstep
      refine ⟨fun d hd => h.websocket d ?_, h.relays⟩
      rw [hwebsocket]
      exact List.mem_cons_of_mem _ hd
  | handleRelay =>
    obtain ⟨put, _, rfl⟩ := Option.map_eq_some_iff.mp hstep
    exact ⟨h.websocket, h.relays⟩
  | handleOverlay index =>
    obtain ⟨data, _, rfl⟩ := Option.map_eq_some_iff.mp hstep
    exact ⟨h.websocket, h.relays⟩

/-! ## What the handler is given -/

/-- Where a step's message for the handler comes from. -/
def Given (s : Ingress) (side : Side) (data : SignalingData) : Prop :=
  match side with
  | .websocket => data ∈ s.websocket
  | .relay => ∃ put ∈ s.relays.channel, data = putData put
  | .overlay => data ∈ s.dispatched

/-- What a step leaves of the relays' notices, and what it gives to the handler. -/
structure Step (s s' : Ingress) : Prop where
  grows : s.relays.channel <+: s'.relays.channel
  reached : ∀ event, s.relays.Reached Phase.rebound event → s'.relays.Reached Phase.rebound event
  given : ∀ side data, (side, data) ∈ s'.handled → (side, data) ∈ s.handled ∨ s.Given side data

theorem Step.aside (hrelays : s'.relays = s.relays) (hhandled : s'.handled = s.handled) : Step s s' where
  grows := hrelays ▸ List.prefix_rfl
  reached _ h := hrelays ▸ h
  given _ _ h := .inl (hhandled ▸ h)

theorem Step.handle {side : Side} {data : SignalingData} (hrelays : s'.relays = s.relays)
    (hhandled : s'.handled = s.handled ++ [(side, data)]) (hgiven : s.Given side data) : Step s s' where
  grows := hrelays ▸ List.prefix_rfl
  reached _ h := hrelays ▸ h
  given side data h := by
    rw [hhandled] at h
    rcases List.mem_append.mp h with h | h
    · exact .inl h
    · cases List.mem_singleton.mp h
      exact .inr hgiven

/-- Every step is one of the cases of `Step`. -/
theorem step_cases (hstep : s.step e input = some s') : Step s s' := by
  cases input with
  | websocketFrame frame =>
    cases hstep
    unfold readWebsocket
    split
    · exact .aside rfl rfl
    · split
      · exact .aside rfl rfl
      · exact .aside rfl rfl
  | relay input =>
    obtain ⟨relays, hrelays, rfl⟩ := Option.map_eq_some_iff.mp hstep
    obtain ⟨hgrows, hreached⟩ := NostrSignaler.grows_step hrelays
    exact ⟨hgrows, hreached, fun _ _ h => .inl h⟩
  | overlayFrame link data now =>
    cases hstep
    obtain ⟨router, dispatched, hsame⟩ := receive_eq e s link data now
    rw [hsame]
    exact .aside rfl rfl
  | tick now =>
    cases hstep
    obtain ⟨router, dispatched, hsame⟩ := flushExpiredReorder_eq s now
    rw [hsame]
    exact .aside rfl rfl
  | handleWebsocket =>
    simp only [Ingress.step] at hstep
    split at hstep
    · cases hstep
    · next data websocket hwebsocket =>
      cases hstep
      refine .handle rfl rfl ?_
      rw [Given, hwebsocket]
      exact List.mem_cons_self
  | handleRelay =>
    obtain ⟨put, hput, rfl⟩ := Option.map_eq_some_iff.mp hstep
    exact .handle rfl rfl ⟨put, List.mem_of_getElem? hput, rfl⟩
  | handleOverlay index =>
    obtain ⟨data, hdata, rfl⟩ := Option.map_eq_some_iff.mp hstep
    exact .handle rfl rfl (List.mem_of_getElem? hdata)

/-- Each step keeps a side guarded. -/
theorem GuardedFrom.step {side : Side} (h : s.GuardedFrom side) (hfiltered : s.Filtered e.session)
    (hharmless : side = .overlay → s.Harmless) (hstep : s.step e input = some s') :
    s'.GuardedFrom side := by
  obtain ⟨hgrows, hreached, hgiven⟩ := step_cases hstep
  intro data hdata hlocal
  rcases hgiven side data hdata with hold | hnew
  · obtain ⟨hside, event, hput, hrebound⟩ := h data hold hlocal
    exact ⟨hside, event, hgrows.subset hput, hreached event hrebound⟩
  · cases side with
    | websocket =>
      rw [hfiltered.websocket data hnew] at hlocal
      cases hlocal
    | relay =>
      obtain ⟨put, hput, rfl⟩ := hnew
      cases put with
      | message event data =>
        rw [putData, hfiltered.relays.messages event data hput] at hlocal
        cases hlocal
      | rejoin event data =>
        have hrebound := hfiltered.relays.rejoins event data hput
        exact ⟨rfl, event, hgrows.subset hput, hreached event hrebound⟩
    | overlay =>
      rw [(hharmless rfl).dispatched data hnew] at hlocal
      cases hlocal

/-! ## Runs -/

open Reactive

variable {ttl : Duration} {router : Option OverlayRouter} {moves : List (Move Ingress IngressInput)}

theorem Filtered.new (session : NostrSession) (ttl : Duration) (router : Option OverlayRouter) :
    (Ingress.new ttl router).Filtered session where
  websocket := nofun
  relays := .new session ttl

/-- Nothing local-only ever comes from the websocket, and from the relays only what
`process_event` has made. -/
theorem guardedFrom_of_ne_overlay {side : Side} (hside : side ≠ .overlay)
    (run : Run (step e) (.new ttl router) moves s) : s.GuardedFrom side := by
  have hinv : s.Filtered e.session ∧ s.GuardedFrom side := by
    refine run.keeps (P := fun _ s => s.Filtered e.session ∧ s.GuardedFrom side)
      ⟨.new e.session ttl router, nofun⟩ ?_
    rintro past s i s' ⟨hfiltered, hguarded⟩ hstep
    exact ⟨hfiltered.step hstep, hguarded.step hfiltered (absurd · hside) hstep⟩
  exact hinv.2

theorem Harmless.new (ttl : Duration) (router : Option OverlayRouter) :
    (Ingress.new ttl router).Harmless where
  held r hr := by
    obtain ⟨before, _, rfl⟩ := Option.map_eq_some_iff.mp hr
    intro source s hs
    simp [ReorderBuffer.default, ReorderBuffer.new] at hs
  dispatched := nofun

/-- Where no envelope that gets through to this node carries local-only signaling,
the only such signaling that the handler is given was made here. -/
theorem guarded_of_clean (run : Run (step e) (.new ttl router) moves s) (hok : ∀ m ∈ moves, m.before.Clean e m.input) :
    s.Guarded := by
  have hinv : s.Filtered e.session ∧ s.Harmless ∧ s.GuardedFrom .overlay := by
    refine run.keepsUnder (P := fun s => s.Filtered e.session ∧ s.Harmless ∧ s.GuardedFrom .overlay)
      (C := Clean e) ⟨.new e.session ttl router, .new ttl router, nofun⟩ ?_ hok
    rintro s i s' ⟨hfiltered, hharmless, hguarded⟩ hclean hstep
    exact ⟨hfiltered.step hstep, hharmless.step hclean hstep,
      hguarded.step hfiltered (fun _ => hharmless) hstep⟩
  intro side
  cases side with
  | websocket | relay => exact guardedFrom_of_ne_overlay nofun run
  | overlay => exact hinv.2.2

/-! ### A neighbour's envelopes -/

section Runs

def a : NodeId := ⟨"a"⟩
def b : NodeId := ⟨"b"⟩
def c : NodeId := ⟨"c"⟩

/-- Signaling of `b` for `a`. -/
def offerOfB : OverlayEnvelope := ⟨b, a, 5, 0, 3, .data ⟨b, a, "r", "sdp", .offer⟩⟩

/-- Signaling that `b` sends to `a` in the name of `c`. -/
def rejoinOfC : OverlayEnvelope := ⟨b, a, 6, 0, 3, .data ⟨c, a, "r", "0", .rejoin⟩⟩

/-- A node with a wire for these two envelopes. -/
def node : Setting where
  kind := .native
  wire := Wire.ofFrames [(offerOfB, [1]), (rejoinOfC, [2])] (by decide)
  decode _ := none
  session := ⟨a, "r", 60, id, fun _ => .malformed⟩
  selfId := a

def begin : Ingress := .new 0 (some (.new a 3 ⟨false, false⟩ []))

/-- The offer comes in and is handed on. The latest input is the first. -/
def offered : List IngressInput := [.handleOverlay 0, .overlayFrame b [1] 0]

theorem offered_guarded :
    (play (step node) begin offered).2.handled = [(.overlay, ⟨b, a, "r", "sdp", .offer⟩)] ∧
      (play (step node) begin offered).2.Guarded := by
  refine ⟨by decide +kernel, guarded_of_clean (run_play (step node) begin offered) ?_⟩
  decide +kernel

/-- The neighbour's `Rejoin` reaches the handler, and nothing has rebound. -/
theorem rejoinOfC_handled :
    ∃ moves s, Run (step node) begin moves s ∧ s.relays.channel = [] ∧
      s.handled = [(.overlay, ⟨c, a, "r", "0", .rejoin⟩)] ∧ ¬ s.Guarded := by
  have hhandled : (play (step node) begin [.handleOverlay 0, .overlayFrame b [2] 0]).2.handled =
      [(.overlay, ⟨c, a, "r", "0", .rejoin⟩)] := by
    decide +kernel
  refine ⟨_, _, run_play _ _ [.handleOverlay 0, .overlayFrame b [2] 0], by decide +kernel, hhandled,
    fun h => ?_⟩
  have hmem : (Side.overlay, ⟨c, a, "r", "0", .rejoin⟩) ∈
      (play (step node) begin [.handleOverlay 0, .overlayFrame b [2] 0]).2.handled := by
    rw [hhandled]
    exact List.mem_cons_self
  cases (h .overlay _ hmem rfl).1

end Runs

end Ingress

end Engine

end Mistlib
