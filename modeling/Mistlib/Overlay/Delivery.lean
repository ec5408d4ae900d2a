import Mistlib.Overlay.ReorderRun
import Mistlib.Overlay.Router

/-!
# Ordered delivery from end to end

The sender numbers what it commits to a destination 1, 2, 3, … (`Sends`), the
receiver releases in that order whatever the order of arrival
(`Receives.in_order`), so the contents released are the payloads committed.
-/

namespace Mistlib.Overlay

namespace OverlayRouter

/-- A dispatch that answers the frame it handed off. -/
def Dispatch.tracked {τ : Type} (d : Dispatch τ) : Dispatch OverlayAction :=
  { d with commit := fun action => (d.commit action).map fun _ => action }

/-- Run a dispatch: the frame handed off, if any, and the router afterwards.
A dispatch that fails leaves the router as it was. -/
def dispatched (w : Wire) (r : OverlayRouter) (d : Dispatch OverlayAction) :
    Option OverlayAction × OverlayRouter :=
  match r.dispatchDataVia w d with
  | .ok (action, r') => (some action, r')
  | .error _ => (none, r)

/-- The number last committed to a destination. -/
def counterOf (r : OverlayRouter) (dest : NodeId) : Nat :=
  ((r.seqCounters.get dest).map SeqCounter.value).getD 0

end OverlayRouter

open OverlayRouter

def OverlayAction.envelope (w : Wire) : OverlayAction → Option OverlayEnvelope
  | .sendMessage _ data _ _ => w.deserialize data
  | _ => none

/-- What a dispatch committed to `dest` under a number: the payload and the frame. -/
def committedTo (w : Wire) (dest : NodeId) (r : OverlayRouter) (d : Dispatch Unit) :
    List (Bytes × OverlayAction) :=
  if d.dest = dest ∧ d.takesSeq r.transfer then
    ((r.dispatched w d.tracked).1.map fun action => (d.data, action)).toList
  else []

/-- A run of the sender with everything it committed to `dest` under a number. The counter of
`dest` is never evicted. Before each dispatch the counters may be in another iteration order. -/
inductive Sends (w : Wire) (dest : NodeId) :
    OverlayRouter → List (Dispatch Unit) → List (Bytes × OverlayAction) → OverlayRouter → Prop
  | nil (r : OverlayRouter) : Sends w dest r [] [] r
  | cons {r r' : OverlayRouter} {d : Dispatch Unit} {rest : List (Dispatch Unit)}
      {sent : List (Bytes × OverlayAction)} (t : Table NodeId SeqCounter)
      (shuffle : r.seqCounters.Shuffle t)
      (kept : t.contains dest →
        ({ r with seqCounters := t }.dispatched w d.tracked).2.seqCounters.contains dest)
      (next : Sends w dest ({ r with seqCounters := t }.dispatched w d.tracked).2 rest sent r') :
      Sends w dest r (d :: rest) (committedTo w dest { r with seqCounters := t } d ++ sent) r'

/-- The numbers and contents of the frames committed. -/
def framesOf (w : Wire) (sent : List (Bytes × OverlayAction)) : List (Nat × MessageContent) :=
  sent.filterMap fun e => (e.2.envelope w).map fun envelope => (envelope.seq, envelope.content)

/-- The contents numbered from `n + 1`. -/
def numberedFrom {κ : Type} : Nat → List κ → List (Nat × κ)
  | _, [] => []
  | n, c :: cs => (n + 1, c) :: numberedFrom (n + 1) cs

theorem numberedFrom_zero {κ : Type} (contents : List κ) :
    numberedFrom 0 contents = numbered contents := by
  have h : ∀ n, numberedFrom n contents = (contents.zipIdx (n + 1)).map fun e => (e.2, e.1) := by
    induction contents with
    | nil => intro n; rfl
    | cons c cs ih =>
      intro n
      simp only [numberedFrom, ih, List.zipIdx_cons, List.map_cons]
  exact h 0

theorem nextSeq_eq (r : OverlayRouter) (dest : NodeId) :
    nextSeq r.seqCounters dest = r.counterOf dest + 1 := by
  unfold nextSeq OverlayRouter.counterOf
  cases r.seqCounters.get dest <;> rfl

/-! ## What one dispatch does -/

variable {w : Wire} {d : Dispatch Unit} {r : OverlayRouter}

/-- A frame that was built carries the number and the payload, and only the
memory of outgoing envelopes has changed. -/
theorem buildFrame_ok {r' : OverlayRouter} {seq : Nat} {action : OverlayAction}
    (h : buildFrame w d.tracked r seq = .ok (action, r')) :
    (∃ envelope, action.envelope w = some envelope ∧ envelope.seq = seq ∧
        envelope.content = .raw d.data) ∧
      r'.seqCounters = r.seqCounters ∧ r'.localNodeId = r.localNodeId := by
  unfold buildFrame at h
  simp only [bind, Except.bind] at h
  split at h
  · cases h
  · next encoded hencoded =>
    split at h
    · cases h
    · split at h
      · cases h
      · next result hcommit =>
        simp only [pure, Except.pure, Except.ok.injEq, Prod.mk.injEq] at h
        obtain ⟨rfl, rfl⟩ := h
        refine ⟨?_, rfl, rfl⟩
        have hdecoded : w.deserialize encoded =
            some ((OverlayEnvelope.new r.localNodeId d.dest d.msgId r.hopCount
              (.raw d.data)).withSeq seq) := by
          apply w.roundTrip
          cases hs : w.serialize ((OverlayEnvelope.new r.localNodeId d.dest d.msgId r.hopCount
              (.raw d.data)).withSeq seq) with
          | error e =>
            simp only [Dispatch.tracked, hs, Except.mapError] at hencoded
            cases hencoded
          | ok b =>
            simp only [Dispatch.tracked, hs, Except.mapError] at hencoded
            cases hencoded
            rfl
        -- The commit answered the action it was given.
        have haction : ∃ hop method, result = .sendMessage hop encoded method d.lane := by
          simp only [Dispatch.tracked, createSendAction] at hcommit
          cases hc : d.nextHop <;> simp only [hc, Except.map] at hcommit <;> split at hcommit <;>
            cases hcommit
          · exact ⟨_, _, rfl⟩
          · exact ⟨_, _, rfl⟩
        obtain ⟨hop, method, rfl⟩ := haction
        exact ⟨_, hdecoded, rfl, rfl⟩

variable {dest : NodeId}

/-- A dispatch numbered for `dest` carries the next number and moves the
counter there. -/
theorem dispatched_sequenced {action : OverlayAction} (hdest : d.dest = dest)
    (hseq : d.takesSeq r.transfer = true) (hsome : (r.dispatched w d.tracked).1 = some action) :
    (∃ envelope, action.envelope w = some envelope ∧ envelope.seq = r.counterOf dest + 1 ∧
        envelope.content = .raw d.data) ∧
      (r.dispatched w d.tracked).2.counterOf dest = r.counterOf dest + 1 := by
  subst hdest
  have htracked : d.tracked.takesSeq r.transfer = true := hseq
  simp only [OverlayRouter.dispatched, dispatchDataVia, htracked, if_true, withNextSeq, bind,
    Except.bind] at hsome ⊢
  cases hb : buildFrame w d.tracked r (nextSeq r.seqCounters d.tracked.dest) with
  | error e => simp [hb] at hsome
  | ok built =>
    obtain ⟨a, r'⟩ := built
    simp only [hb, pure, Except.pure, Option.some.injEq] at hsome ⊢
    subst hsome
    obtain ⟨⟨envelope, hframe, hnum, hcontent⟩, hcounters, _⟩ := buildFrame_ok hb
    have hnext := nextSeq_eq r d.dest
    refine ⟨⟨envelope, hframe, hnum.trans hnext, hcontent⟩, ?_⟩
    simp only [OverlayRouter.counterOf]
    change ((Table.get (Table.insert _ d.dest _) d.dest).map SeqCounter.value).getD 0 = _
    rw [Table.get_insert_self]
    exact hnext

theorem dispatched_other (hother : ¬ (d.dest = dest ∧ d.takesSeq r.transfer = true))
    (hkept : r.seqCounters.contains dest → (r.dispatched w d.tracked).2.seqCounters.contains dest) :
    (r.dispatched w d.tracked).2.counterOf dest = r.counterOf dest := by
  by_cases hseq : d.takesSeq r.transfer = true
  · have hdest : dest ≠ d.dest := fun h => hother ⟨h.symm, hseq⟩
    have htracked : d.tracked.takesSeq r.transfer = true := hseq
    simp only [OverlayRouter.dispatched, dispatchDataVia, htracked, if_true, withNextSeq, bind,
      Except.bind] at hkept ⊢
    cases hb : buildFrame w d.tracked r (nextSeq r.seqCounters d.tracked.dest) with
    | error e => simp
    | ok built =>
      obtain ⟨a, r'⟩ := built
      obtain ⟨_, hcounters, _⟩ := buildFrame_ok hb
      simp only [hb, pure, Except.pure, hcounters] at hkept ⊢
      have hget : (evictSeqCounter r.seqCounters d.tracked.dest).get dest =
          r.seqCounters.get dest := by
        cases hs : r.seqCounters.get dest with
        | none =>
          unfold evictSeqCounter
          split
          · split
            · simp only [Table.get_erase, hs, ite_self]
            · exact hs
          · exact hs
        | some counter =>
          obtain ⟨c, hc⟩ := Table.contains_iff.mp (hkept (Table.contains_iff.mpr ⟨counter, hs⟩))
          have hne : dest ≠ d.tracked.dest := hdest
          rw [Table.get_insert, if_neg hne] at hc
          rw [hc]
          unfold evictSeqCounter at hc
          split at hc
          · split at hc
            · rw [Table.get_erase] at hc
              split at hc
              · cases hc
              · exact hc.symm.trans hs
            · exact hc.symm.trans hs
          · exact hc.symm.trans hs
      have hne : dest ≠ d.tracked.dest := hdest
      simp only [OverlayRouter.counterOf, Table.get_insert, if_neg hne, hget]
  · have htracked : ¬ d.tracked.takesSeq r.transfer = true := hseq
    simp only [OverlayRouter.dispatched, dispatchDataVia, htracked]
    cases hb : buildFrame w d.tracked r 0 with
    | error e => simp
    | ok built =>
      obtain ⟨a, r'⟩ := built
      obtain ⟨_, hcounters, _⟩ := buildFrame_ok hb
      simp [OverlayRouter.counterOf, hcounters]

/-! ## The run of the sender -/

/-- The frames committed to a destination carry its numbers without a gap or
a repetition. -/
theorem Sends.numbered {r' : OverlayRouter} {dispatches : List (Dispatch Unit)}
    {sent : List (Bytes × OverlayAction)} (h : Sends w dest r dispatches sent r') :
    framesOf w sent = numberedFrom (r.counterOf dest) (sent.map fun e => .raw e.1) := by
  induction h with
  | nil r => rfl
  | @cons r r' d rest sent t shuffle kept _ ih =>
    have hcounter : ({ r with seqCounters := t } : OverlayRouter).counterOf dest =
        r.counterOf dest := by
      simp only [OverlayRouter.counterOf, shuffle.get dest]
    by_cases hmine : d.dest = dest ∧ d.takesSeq r.transfer = true
    · cases hout : ({ r with seqCounters := t }.dispatched w d.tracked).1 with
      | none =>
        have hrouter : ({ r with seqCounters := t }.dispatched w d.tracked).2 =
            { r with seqCounters := t } := by
          unfold OverlayRouter.dispatched at hout ⊢
          split at hout
          · cases hout
          · rfl
        rw [hrouter, hcounter] at ih
        simp only [committedTo, if_pos hmine, hout, Option.map_none, Option.toList_none,
          List.nil_append]
        exact ih
      | some action =>
        obtain ⟨⟨envelope, hframe, hnum, hcontent⟩, hmoved⟩ :=
          dispatched_sequenced (r := { r with seqCounters := t }) hmine.1 hmine.2 hout
        rw [hmoved, hcounter] at ih
        simp only [committedTo, if_pos hmine, hout, Option.map_some, Option.toList_some,
          List.cons_append, List.nil_append, List.map_cons, numberedFrom]
        rw [← ih]
        simp [framesOf, hframe, hnum, hcontent, hcounter]
    · have hsame := dispatched_other (r := { r with seqCounters := t }) hmine kept
      rw [hsame, hcounter] at ih
      simp only [committedTo, if_neg hmine, List.nil_append]
      exact ih

theorem Follows.new (src : NodeId) {κ : Type} (contents : List κ) (maxPerSource maxSources : Nat)
    (gapTimeout : Duration) :
    Follows src contents [] [] (ReorderBuffer.new maxPerSource maxSources gapTimeout) where
  tracks now := Tracks.new contents now
  drained now := by
    change (SourceState.new (κ := κ) now).buffered[_]? = none
    simp [SourceState.new]

/-- Ordered delivery from end to end. Whatever a sender commits to a destination under a number,
and in whatever order the frames arrive, once each, at a fresh receiver that meanwhile sees
anything else, the contents released are the payloads committed, in the order they were committed,
and nothing stays held. -/
theorem reliableOrdered_endToEnd (w : Wire) {dest : NodeId} {sender sender' : OverlayRouter}
    {dispatches : List (Dispatch Unit)} {sent : List (Bytes × OverlayAction)}
    (fresh : sender.seqCounters.get dest = none)
    (send : Sends w dest sender dispatches sent sender')
    {maxPerSource maxSources : Nat} {gapTimeout : Duration}
    {arrivals : List (Arrival MessageContent)} {released : List MessageContent}
    {receiver : ReorderBuffer MessageContent}
    (receive : Receives sender.localNodeId (ReorderBuffer.new maxPerSource maxSources gapTimeout)
      arrivals released receiver)
    (arrive : (arrivals.filterMap (·.sequenced sender.localNodeId)).Perm (framesOf w sent)) :
    released = sent.map (fun e => .raw e.1) ∧
      ∀ state, receiver.sources.get sender.localNodeId = some state → state.buffered = ∅ := by
  have hzero : sender.counterOf dest = 0 := by simp [OverlayRouter.counterOf, fresh]
  have hframes : framesOf w sent = Mistlib.Overlay.numbered (sent.map fun e => .raw e.1) := by
    rw [send.numbered, hzero, numberedFrom_zero]
  rw [hframes] at arrive
  have hfollows := Follows.new sender.localNodeId (sent.map fun e => MessageContent.raw e.1)
    maxPerSource maxSources gapTimeout
  have hrun := receive.in_order hfollows (by simpa using arrive)
  simpa using hrun

/-! ### A run of two messages that arrive in the wrong order -/

namespace TwoMessages

def alice : NodeId := ⟨"a"⟩
def bob : NodeId := ⟨"b"⟩

def frame (seq : Nat) (text : UInt8) : OverlayEnvelope :=
  (OverlayEnvelope.new alice bob (6 + seq) 2 (.raw [text])).withSeq seq

/-- The wire bytes of the two frames of the run: lengths, ids and numbers as
single bytes, the tag of a raw content, its length and its byte. -/
def bytesOf (seq : Nat) (text : UInt8) : Bytes :=
  [1, 97, 1, 98, UInt8.ofNat (6 + seq), UInt8.ofNat seq, 2, 2, 1, text]

def wire : Wire :=
  .ofFrames [(frame 1 120, bytesOf 1 120), (frame 2 121, bytesOf 2 121)] (by decide)

def sender : OverlayRouter := .new alice 2 ⟨true, true⟩ []

def dispatch (seq : Nat) (text : UInt8) : Dispatch Unit where
  dest := bob
  nextHop := none
  data := [text]
  method := .reliableOrdered
  msgId := 6 + seq
  now := seq
  rememberedAt := seq
  validate _ := .ok ()
  commit _ := .ok ()

def arrivals : List (Arrival MessageContent) :=
  [.message alice 2 (.raw [121]) 10, .message alice 0 (.raw [33]) 11, .poll 12,
    .message bob 5 (.raw [34]) 13, .message alice 1 (.raw [120]) 14]

end TwoMessages

open TwoMessages in
/-- Both messages are released in the order they were sent. -/
theorem reliableOrdered_twoMessages :
    ∃ sender' sent receiver released,
      Sends wire bob sender [dispatch 1 120, dispatch 2 121] sent sender' ∧
      Receives alice ReorderBuffer.default arrivals released receiver ∧
      released = [.raw [120], .raw [121]] := by
  have send : Sends wire bob sender [dispatch 1 120, dispatch 2 121] _ _ :=
    .cons _ (.refl _) (by decide) (.cons _ (.refl _) (by decide) (.nil _))
  have receive : Receives alice ReorderBuffer.default arrivals _ _ :=
    .cons _ (.refl _) (by decide) <| .cons _ (.refl _) (by decide) <|
      .cons _ (.refl _) (by decide) <| .cons _ (.refl _) (by decide) <|
        .cons _ (.refl _) (by decide) (.nil _)
  refine ⟨_, _, _, _, send, receive, ?_⟩
  rw [(reliableOrdered_endToEnd wire (by decide) send receive (by decide)).1]
  decide

end Mistlib.Overlay
