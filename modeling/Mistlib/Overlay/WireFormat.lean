import Mistlib.Overlay.Router

/-!
# The wire format of envelopes

`overlay::wire` leaves the encoding to a library, which is a parameter here: numbers are of variable
length, texts and byte strings have their length before them, and the variant of an enumeration is
its index. What it documents is stated where it is used: the lengths, and that a frame
is in the shortest form.
-/

namespace Mistlib

/-! ### Lengths -/

/-- How many bytes a variable-length integer takes: one, or a marker and two, four or eight. -/
def varintWidth (n : Nat) : Nat :=
  if n < 251 then 1 else if n < 2 ^ 16 then 3 else if n < 2 ^ 32 then 5 else 9

theorem varintWidth_le_three {n : Nat} (h : n < 2 ^ 16) : varintWidth n ≤ 3 := by
  unfold varintWidth
  split
  · decide
  · decide

theorem varintWidth_le_five {n : Nat} (h : n < 2 ^ 32) : varintWidth n ≤ 5 := by
  unfold varintWidth
  grind

theorem varintWidth_le_nine (n : Nat) : varintWidth n ≤ 9 := by
  unfold varintWidth
  grind

theorem varintWidth_eq_three {n : Nat} (hleast : 251 ≤ n) (h : n < 2 ^ 16) : varintWidth n = 3 := by
  rw [varintWidth, if_neg (Nat.not_lt.mpr hleast), if_pos h]

/-- How many bytes an id takes. -/
def NodeId.width (node : NodeId) : Nat := varintWidth (utf8 node.id).length + (utf8 node.id).length

namespace OverlayEnvelope

def headerLength (e : OverlayEnvelope) : Nat :=
  e.source.width + e.dest.width + varintWidth e.msgId + varintWidth e.seq + varintWidth e.hopCount

def carrying (e : OverlayEnvelope) (payload : Bytes) : OverlayEnvelope :=
  { e with content := .raw payload }

/-- How many bytes the envelope takes with a payload: its fields, the tag of a payload, which is its
variant, and the payload with its length. -/
def wireLength (e : OverlayEnvelope) (payload : Bytes) : Nat :=
  e.headerLength + (varintWidth 2 + varintWidth payload.length) + payload.length

/-- Every payload can be written, in as many bytes as the library documents. -/
def DocumentedLengths (serialize : OverlayEnvelope → Except String Bytes) : Prop :=
  ∀ (e : OverlayEnvelope) payload, ∃ frame, serialize (e.carrying payload) = .ok frame ∧ frame.length = e.wireLength payload

end OverlayEnvelope

/-! ### Relaying -/

/-- Envelopes are written in the shortest form. A frame may come in a longer one. -/
structure Wire.Compact (w : Wire) : Prop where
  /-- What is read can be written, in no more bytes. -/
  shortest {frame : Bytes} {e : OverlayEnvelope} : w.deserialize frame = some e →
    ∃ own, w.serialize e = .ok own ∧ own.length ≤ frame.length
  /-- Fewer hops take no more bytes. -/
  fewerHops {e : OverlayEnvelope} {n : Nat} {own copy : Bytes} : n ≤ e.hopCount →
    w.serialize e = .ok own → w.serialize { e with hopCount := n } = .ok copy → copy.length ≤ own.length

theorem Wire.compact_ofFrames {frames : List (OverlayEnvelope × Bytes)} {distinct : (frames.map Prod.snd).Nodup}
    (h : ∀ f ∈ frames, ∀ g ∈ frames, { g.1 with hopCount := f.1.hopCount } = f.1 →
      g.1.hopCount ≤ f.1.hopCount → g.2.length ≤ f.2.length) : (Wire.ofFrames frames distinct).Compact := by
  have hwritten : ∀ {e own}, (Wire.ofFrames frames distinct).serialize e = .ok own → (e, own) ∈ frames := by
    intro e own hown
    unfold Wire.ofFrames at hown
    dsimp only at hown
    split at hown
    · next f hf =>
      cases hown
      have hsame : f.1 = e := by simpa using List.find?_some hf
      rw [← hsame]
      exact List.mem_of_find?_eq_some hf
    · cases hown
  constructor
  · intro frame e hread
    obtain ⟨f, hf, rfl⟩ := Option.map_eq_some_iff.mp hread
    obtain rfl : f.2 = frame := by simpa using List.find?_some hf
    have hmem := List.mem_of_find?_eq_some hf
    cases hfound : frames.find? fun g => decide (g.1 = f.1) with
    | none => exact absurd (List.find?_eq_none.mp hfound f hmem) (by simp)
    | some g =>
      have hsame : g.1 = f.1 := by simpa using List.find?_some hfound
      refine ⟨g.2, by simp [Wire.ofFrames, hfound], ?_⟩
      apply h f hmem g (List.mem_of_find?_eq_some hfound)
      · rw [← hsame]
      · rw [hsame]
  · intro e n own copy hn hown hcopy
    exact h (e, own) (hwritten hown) ({ e with hopCount := n }, copy) (hwritten hcopy) rfl hn

namespace Overlay.OverlayRouter

/-- `copy` is what `n` routers in turn made of `frame`: each took one of the copies the one before
sent on and sent it on in turn, over whatever link and whatever its tables held. -/
inductive Relayed (w : Wire) (frame : Bytes) : Nat → Bytes → Prop where
  | arrived {e : OverlayEnvelope} (h : w.deserialize frame = some e) : Relayed w frame 0 frame
  | sentOn {n : Nat} {copy : Bytes} (h : Relayed w frame n copy) {e : OverlayEnvelope}
    (hread : w.deserialize copy = some e) (hforward : canForward e = true)
    (r : OverlayRouter) (link : NodeId) {next : NodeId} {data : Bytes} {method : DeliveryMethod}
    {lane : SendLane}
    (hsent : .sendMessage next data method lane ∈ forwardActions w r e (r.forwardTargets e link)) :
    Relayed w frame (n + 1) data

theorem mem_forwardActions {w : Wire} {r : OverlayRouter} {e : OverlayEnvelope}
    {targets : ForwardTargets} {next : NodeId} {data : Bytes} {method : DeliveryMethod}
    {lane : SendLane} (h : .sendMessage next data method lane ∈ forwardActions w r e targets) :
    w.serialize (relayed e) = .ok data := by
  unfold forwardActions at h
  grind

/-- However the routers on the way are wired, a frame is relayed at most as often as its hop count
allows. Only the hop count of a copy differs, and a copy is never longer than the frame. -/
theorem relayed_sound {w : Wire} (hcompact : w.Compact) {frame copy : Bytes} {n : Nat}
    (h : Relayed w frame n copy) :
    ∃ e, w.deserialize frame = some e ∧ n ≤ e.hopCount ∧
      w.deserialize copy = some { e with hopCount := e.hopCount - n } ∧
      copy.length ≤ frame.length := by
  induction h with
  | arrived h => exact ⟨_, h, Nat.zero_le _, h, Nat.le_refl _⟩
  | @sentOn n copy _ e' hread hforward r link _ data _ _ hsent ih =>
    obtain ⟨e, hframe, hn, hcopy, hlength⟩ := ih
    have hserialize := mem_forwardActions hsent
    have hcount : e' = { e with hopCount := e.hopCount - n } :=
      Option.some.inj (hread.symm.trans hcopy)
    have hhops : 0 < e.hopCount - n := by
      rw [hcount] at hforward
      simpa [canForward] using hforward
    refine ⟨e, hframe, by omega, ?_, ?_⟩
    · rw [w.roundTrip hserialize, hcount]
      rfl
    · obtain ⟨own, hown, hshort⟩ := hcompact.shortest hread
      have hdata := hcompact.fewerHops (Nat.sub_le e'.hopCount 1) hown hserialize
      omega

namespace Sample

/-- An envelope whose message id takes a marker and two bytes. -/
def numbered : OverlayEnvelope :=
  { source := ⟨"a"⟩, dest := ⟨"c"⟩, msgId := 300, seq := 1, hopCount := 2, content := .raw [7] }

/-- The envelope with this hop count on the wire. -/
def numberedFrame (hops : UInt8) : Bytes := [1, 97, 1, 99, 251, 44, 1, 1, hops, 2, 1, 7]

def numberedWire : Wire :=
  .ofFrames [(numbered, numberedFrame 2), (relayed numbered, numberedFrame 1),
    (relayed (relayed numbered), numberedFrame 0)] (by decide)

end Sample

open Sample in
theorem numbered_relayed :
    ∃ (copy : Bytes) (e : OverlayEnvelope), Relayed numberedWire (numberedFrame 2) 2 copy ∧
      numberedWire.deserialize (numberedFrame 2) = some e ∧ 2 ≤ e.hopCount ∧
      numberedWire.deserialize copy = some { e with hopCount := e.hopCount - 2 } ∧
      copy.length ≤ (numberedFrame 2).length := by
  have hread : numberedWire.deserialize (numberedFrame 2) = some Sample.numbered := by decide
  have hagain : numberedWire.deserialize (numberedFrame 1) = some (relayed Sample.numbered) := by decide
  have hfirst := Relayed.arrived hread
  have hsecond := hfirst.sentOn hread rfl
    (.new ⟨"b"⟩ 4 ⟨true, true⟩ []) ⟨"a"⟩ (List.mem_singleton.mpr rfl)
  have hthird := hsecond.sentOn hagain rfl
    (.new ⟨"d"⟩ 4 ⟨true, true⟩ []) ⟨"b"⟩ (List.mem_singleton.mpr rfl)
  obtain ⟨e, hframe, hhops, hcopy, hlength⟩ := relayed_sound (Wire.compact_ofFrames (by decide)) hthird
  exact ⟨_, e, hthird, hframe, hhops, hcopy, hlength⟩

end Overlay.OverlayRouter

end Mistlib
