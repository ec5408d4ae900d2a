import Mistlib.Async.Calls
import Mistlib.Async.Reactive
import Mistlib.Data.Text

/-!
# Offers, answers and which belongs to which

Two browser peers that renegotiate: on either side offers are made, offers of the other side are
applied, and answers complete what was offered. The steps of one connection are serialized by
its `negotiating` lock, and the browser takes an offer over its own by rolling its own back.

A message may arrive at any time and any number of times, which covers delays, duplicates and
the resends of `send_negotiation_reliably`. A connection that is rebuilt after a failed offer is
another pair. Besides their text, an offer and an answer keep who made them, which one of all,
and for what.
-/

namespace Mistlib.Browser.Negotiation

/-! ## Session descriptions -/

/-- The kind and the mid of each m-line, in order. -/
abbrev MlineSignature := List (List Char × List Char)

def addLine (sections : MlineSignature) (line : List Char) : MlineSignature :=
  let line := Text.trimEndMatches (· == '\r') line
  match Text.stripPrefix ['m', '='] line with
  | some rest => sections ++ [(Text.firstWord rest, [])]
  | none =>
    match Text.stripPrefix ['a', '=', 'm', 'i', 'd', ':'] line, sections.getLast? with
    | some mid, some current => sections.dropLast ++ [(current.1, Text.trim mid)]
    | _, _ => sections

def mlineSignature (sdp : String) : MlineSignature := (Text.lines sdp.toList).foldl addLine []

/-- Whether a line counts when two answers are compared: candidates do not. -/
def negotiated (line : List Char) : Bool :=
  !"a=candidate:".toList.isPrefixOf line && line != "a=end-of-candidates".toList

def sameNegotiation (applied incoming : String) : Bool :=
  (Text.lines applied.toList).filter negotiated == (Text.lines incoming.toList).filter negotiated

inductive Side where
  | left
  | right
deriving DecidableEq, Repr

def Side.other : Side → Side
  | .left => .right
  | .right => .left

/-- An offer that a side has set as its local description. -/
structure Offer where
  by_ : Side
  number : Nat
  sdp : String
deriving DecidableEq, Repr

/-- An answer that a side has created for an offer. -/
structure Answer where
  by_ : Side
  offer : Offer
  sdp : String
deriving DecidableEq, Repr

inductive Description where
  | offer (offer : Offer)
  | answer (answer : Answer)
deriving DecidableEq, Repr

/-- A `NegotiationEnvelope`. The id is drawn at random. -/
structure Message where
  sender : Side
  id : Nat
  body : Description
deriving DecidableEq, Repr

/-! ## The two ends -/

inductive Signaling where
  | stable
  | haveLocalOffer (offer : Offer)
  | haveRemoteOffer (offer : Offer)
deriving DecidableEq, Repr

structure End where
  signaling : Signaling
  /-- The current remote description is an answer. -/
  remoteIsAnswer : Bool
  appliedAnswerSdp : Option String
  /-- The call that holds the lock. -/
  negotiating : Option Nat
  /-- The ids of the messages that were acknowledged, the oldest first. -/
  received : List Nat
deriving DecidableEq, Repr

def MAX_NEGOTIATIONS_PER_NODE : Nat := 64

namespace End

def new : End where
  signaling := .stable
  remoteIsAnswer := true
  appliedAnswerSdp := none
  negotiating := none
  received := []

/-- `remember_received`. -/
def remember (e : End) (id : Nat) : End :=
  if id ∈ e.received then e
  else if MAX_NEGOTIATIONS_PER_NODE ≤ e.received.length then
    { e with received := e.received.tail ++ [id] }
  else { e with received := e.received ++ [id] }

def unlock (e : End) : End := { e with negotiating := none }

/-- `rollback_to_stable_on_failure`, where the browser does not refuse. -/
def rollbackToStable (e : End) : End := { e with signaling := .stable }

end End

/-- Where a call stands. From `creatingOffer`, `settingRemote`, `addingCandidates`
and `settingAnswer` on it holds the lock. -/
inductive Phase where
  /-- `renegotiate_peer`, or an ICE restart. -/
  | offering (restart : Bool)
  | creatingOffer (restart : Bool)
  | settingLocalOffer (restart : Bool) (offer : Offer)
  | sendingOffer
  /-- `handle_offer` and `apply_offer_in_place`, for a message with this id. -/
  | offered (id : Nat) (offer : Offer)
  | settingRemote (id : Nat) (offer : Offer)
  | creatingAnswer (id : Nat) (offer : Offer)
  | settingLocalAnswer (id : Nat) (answer : Answer)
  | sendingAnswer (id : Nat)
  | answered (id : Nat) (answer : Answer)
  | addingCandidates (id : Nat)
  | settingAnswer (id : Nat) (answer : Answer)
  | rollingBack
  | returned
deriving DecidableEq, Repr

structure Call where
  side : Side
  phase : Phase
deriving DecidableEq, Repr

structure Pair where
  left : End
  right : End
  sent : List Message
  offers : Nat
  calls : List Call
deriving DecidableEq, Repr

/-- How a wait ends. A lock is `fulfilled` if the further preconditions hold
that do not concern the signaling state, and a description that is created has a
text. An offer that the browser rejects may have rolled back its own before. -/
inductive Outcome where
  | fulfilled (sdp : String) (id : Nat)
  | rejected (rolledBack : Bool)
  | noText
deriving DecidableEq, Repr

namespace Pair

def new : Pair where
  left := .new
  right := .new
  sent := []
  offers := 0
  calls := []

def at_ (p : Pair) : Side → End
  | .left => p.left
  | .right => p.right

def setEnd (p : Pair) (side : Side) (e : End) : Pair :=
  match side with
  | .left => { p with left := e }
  | .right => { p with right := e }

def send (p : Pair) (sender : Side) (id : Nat) (body : Description) : Pair :=
  { p with sent := p.sent ++ [⟨sender, id, body⟩] }

/-- The next phase of a call and what the step leaves of the pair. -/
abbrev Turn := Pair × Phase

def lock (p : Pair) (side : Side) (call : Nat) (phase : Phase) : Turn :=
  (p.setEnd side { p.at_ side with negotiating := some call }, phase)

def finish (p : Pair) (side : Side) (e : End) : Turn := (p.setEnd side e.unlock, .returned)

def makeOffer (p : Pair) (side : Side) (call : Nat) (outcome : Outcome) (restart : Bool) : Turn :=
  match outcome, (p.at_ side).signaling with
  | .fulfilled _ _, .stable => p.lock side call (.creatingOffer restart)
  | _, _ => (p, .returned)

/-- A failed call on the connection, where a restart leaves it at that. -/
def offerFailed (p : Pair) (side : Side) (restart : Bool) : Turn :=
  if restart then p.finish side (p.at_ side) else (p, .rollingBack)

/-- `handle_offer` once it has the lock. -/
def applyOffer (p : Pair) (side : Side) (call id : Nat) (offer : Offer) : Turn :=
  match (p.at_ side).signaling with
  | .haveRemoteOffer _ => (p, .returned)
  | _ => p.lock side call (.settingRemote id offer)

/-- The `Answer` arm once it has the lock. -/
def takeAnswer (p : Pair) (side : Side) (call id : Nat) (answer : Answer) : Turn :=
  match (p.at_ side).signaling with
  | .stable =>
    if (p.at_ side).remoteIsAnswer ∧
        (p.at_ side).appliedAnswerSdp.any fun applied => sameNegotiation applied answer.sdp then
      p.lock side call (.addingCandidates id)
    else (p, .returned)
  | .haveLocalOffer offer =>
    if mlineSignature offer.sdp = mlineSignature answer.sdp then
      p.lock side call (.settingAnswer id answer)
    else (p, .returned)
  | .haveRemoteOffer _ => (p, .returned)

/-- A call goes on with what its wait has come to, or `none` if it still waits
for the lock, or if the browser does not answer so: its answers have the m-lines
of the offer. -/
def resume (p : Pair) (call : Nat) (side : Side) (outcome : Outcome) : Phase → Option Turn
  | .offering restart =>
    if (p.at_ side).negotiating = none then some (p.makeOffer side call outcome restart) else none
  | .creatingOffer restart =>
    match outcome with
    | .fulfilled sdp _ =>
      some ({ p with offers := p.offers + 1 }, .settingLocalOffer restart ⟨side, p.offers, sdp⟩)
    | .rejected _ => some (p.offerFailed side restart)
    | .noText => some (p.finish side (p.at_ side))
  | .settingLocalOffer restart offer =>
    match outcome with
    | .fulfilled _ id =>
      some ((p.setEnd side { p.at_ side with signaling := .haveLocalOffer offer }).send side id
        (.offer offer), .sendingOffer)
    | _ => some (p.offerFailed side restart)
  | .sendingOffer => some (p.finish side (p.at_ side))
  | .offered id offer =>
    if (p.at_ side).negotiating = none then some (p.applyOffer side call id offer) else none
  | .settingRemote id offer =>
    match outcome with
    | .fulfilled _ _ =>
      some (p.setEnd side { p.at_ side with signaling := .haveRemoteOffer offer },
        .creatingAnswer id offer)
    | .rejected true => some (p.setEnd side (p.at_ side).rollbackToStable, .rollingBack)
    | .rejected false => some (p, .rollingBack)
    | .noText => none
  | .creatingAnswer id offer =>
    match outcome with
    | .fulfilled sdp _ =>
      if mlineSignature sdp = mlineSignature offer.sdp then
        some (p, .settingLocalAnswer id ⟨side, offer, sdp⟩)
      else none
    | .rejected _ => some (p, .rollingBack)
    | .noText => some (p.finish side (p.at_ side))
  | .settingLocalAnswer id answer =>
    match outcome with
    | .fulfilled _ sendId =>
      some ((p.setEnd side { p.at_ side with signaling := .stable, remoteIsAnswer := false }).send
        side sendId (.answer answer), .sendingAnswer id)
    | _ => some (p, .rollingBack)
  | .sendingAnswer id => some (p.finish side ((p.at_ side).remember id))
  | .answered id answer =>
    if (p.at_ side).negotiating = none then some (p.takeAnswer side call id answer) else none
  | .addingCandidates id => some (p.finish side ((p.at_ side).remember id))
  | .settingAnswer id answer =>
    match outcome with
    | .fulfilled _ _ =>
      some (p.finish side ({ p.at_ side with
        signaling := .stable
        remoteIsAnswer := true
        appliedAnswerSdp := some answer.sdp }.remember id))
    | _ => some (p, .rollingBack)
  | .rollingBack =>
    match outcome with
    | .rejected _ => some (p.finish side (p.at_ side))
    | _ => some (p.finish side (p.at_ side).rollbackToStable)
  | .returned => none

/-- The first step of what a message is for: a message that was acknowledged
before is acknowledged again, and an offer is deferred while another one is
being answered. -/
def receive (p : Pair) (side : Side) (id : Nat) : Description → Phase
  | .offer offer =>
    if id ∈ (p.at_ side).received then .returned
    else
      match (p.at_ side).signaling with
      | .haveRemoteOffer _ => .returned
      | _ => .offered id offer
  | .answer answer => if id ∈ (p.at_ side).received then .returned else .answered id answer

end Pair

inductive Input where
  | renegotiate (side : Side) (restart : Bool)
  /-- A message that was sent arrives, once more perhaps. -/
  | deliver (message : Nat)
  | resume (call : Nat) (outcome : Outcome)
deriving DecidableEq, Repr

namespace Pair

def begin (p : Pair) (side : Side) (phase : Phase) : Pair :=
  { p with calls := p.calls ++ [⟨side, phase⟩] }

def step (p : Pair) : Input → Option Pair
  | .renegotiate side restart => some (p.begin side (.offering restart))
  | .deliver i => p.sent[i]?.map fun m => p.begin m.sender.other (p.receive m.sender.other m.id m.body)
  | .resume i outcome =>
    p.calls[i]?.bind fun c => (p.resume i c.side outcome c.phase).map fun turn =>
      { turn.1 with calls := turn.1.calls.set i ⟨c.side, turn.2⟩ }

end Pair

/-! ## Where answers come from -/

/-- An answer has the m-lines of the offer it was created for. -/
def Answer.Fits (a : Answer) : Prop := mlineSignature a.sdp = mlineSignature a.offer.sdp

def Description.answer? : Description → Option Answer
  | .offer _ => none
  | .answer a => some a

namespace Phase

/-- The answer of the other side that a call handles. -/
def incoming : Phase → Option Answer
  | .answered _ answer | .settingAnswer _ answer => some answer
  | _ => none

/-- The answer that a call is about to send. -/
def outgoing : Phase → Option Answer
  | .settingLocalAnswer _ answer => some answer
  | _ => none

/-- The answers of a call are from the side they are said to be from. -/
structure Genuine (side : Side) (phase : Phase) : Prop where
  incoming : ∀ a, phase.incoming = some a → a.by_ = side.other ∧ a.Fits
  outgoing : ∀ a, phase.outgoing = some a → a.by_ = side ∧ a.Fits

theorem Genuine.none {side : Side} {phase : Phase} (hin : phase.incoming = .none)
    (hout : phase.outgoing = .none) : phase.Genuine side where
  incoming := by
    intro a ha
    rw [hin] at ha
    cases ha
  outgoing := by
    intro a ha
    rw [hout] at ha
    cases ha

end Phase

def Message.Genuine (m : Message) : Prop :=
  ∀ a, m.body.answer? = some a → a.by_ = m.sender ∧ a.Fits

namespace Pair

structure Genuine (p : Pair) : Prop where
  sent : ∀ m ∈ p.sent, m.Genuine
  calls : ∀ c ∈ p.calls, c.phase.Genuine c.side

variable {p p' : Pair} {side : Side} {e : End} {call id : Nat} {outcome : Outcome} {input : Input}

@[simp] theorem calls_setEnd : (p.setEnd side e).calls = p.calls := by
  cases side with
  | left | right => rfl

@[simp] theorem sent_setEnd : (p.setEnd side e).sent = p.sent := by
  cases side with
  | left | right => rfl

/-- What a turn keeps of the pair, and the answers it brings. -/
structure Fits (p : Pair) (side : Side) (turn : Turn) : Prop where
  calls : turn.1.calls = p.calls
  sent : ∀ m ∈ turn.1.sent, m ∈ p.sent ∨ m.Genuine
  phase : turn.2.Genuine side

theorem Fits.quiet {phase : Phase} (hcalls : p'.calls = p.calls) (hsent : p'.sent = p.sent)
    (hin : phase.incoming = none) (hout : phase.outgoing = none) : Fits p side (p', phase) where
  calls := hcalls
  sent := by
    intro m hm
    rw [hsent] at hm
    exact .inl hm
  phase := .none hin hout

theorem fits_lock {phase : Phase} (hphase : phase.Genuine side) : Fits p side (p.lock side call phase) where
  calls := calls_setEnd
  sent := by
    intro m hm
    rw [lock, sent_setEnd] at hm
    exact .inl hm
  phase := hphase

theorem fits_finish : Fits p side (p.finish side e) :=
  .quiet calls_setEnd sent_setEnd rfl rfl

theorem fits_makeOffer (restart : Bool) : Fits p side (p.makeOffer side call outcome restart) := by
  unfold makeOffer
  split
  · exact fits_lock (.none rfl rfl)
  · exact .quiet rfl rfl rfl rfl

theorem fits_offerFailed (restart : Bool) : Fits p side (p.offerFailed side restart) := by
  unfold offerFailed
  split
  · exact fits_finish
  · exact .quiet rfl rfl rfl rfl

theorem fits_applyOffer (offer : Offer) : Fits p side (p.applyOffer side call id offer) := by
  unfold applyOffer
  split
  · exact .quiet rfl rfl rfl rfl
  · exact fits_lock (.none rfl rfl)

theorem fits_takeAnswer {answer : Answer} (h : answer.by_ = side.other ∧ answer.Fits) :
    Fits p side (p.takeAnswer side call id answer) := by
  have hset : (Phase.settingAnswer id answer).Genuine side := by
    refine ⟨?_, nofun⟩
    intro a ha
    cases ha
    exact h
  unfold takeAnswer
  split
  · split
    · exact fits_lock (.none rfl rfl)
    · exact .quiet rfl rfl rfl rfl
  · split
    · exact fits_lock hset
    · exact .quiet rfl rfl rfl rfl
  · exact .quiet rfl rfl rfl rfl

theorem fits_send {q : Pair} {phase : Phase} {body : Description} (hcalls : q.calls = p.calls)
    (hsent : q.sent = p.sent) (hbody : Message.Genuine ⟨side, id, body⟩)
    (hphase : phase.Genuine side) : Fits p side (q.send side id body, phase) where
  calls := hcalls
  sent := by
    intro m hm
    rw [send, hsent] at hm
    rcases List.mem_append.mp hm with hm | hm
    · exact .inl hm
    · cases List.mem_singleton.mp hm
      exact .inr hbody
  phase := hphase

theorem fits_resume {phase : Phase} (h : phase.Genuine side) {turn : Turn}
    (hresume : p.resume call side outcome phase = some turn) : Fits p side turn := by
  cases phase with
  | offering restart =>
    simp only [resume] at hresume
    split at hresume
    · cases hresume
      exact fits_makeOffer restart
    · cases hresume
  | creatingOffer restart =>
    cases outcome with
    | fulfilled sdp id =>
      cases hresume
      exact .quiet rfl rfl rfl rfl
    | rejected rolledBack =>
      cases hresume
      exact fits_offerFailed restart
    | noText =>
      cases hresume
      exact fits_finish
  | settingLocalOffer restart offer =>
    cases outcome with
    | fulfilled sdp id =>
      cases hresume
      exact fits_send calls_setEnd sent_setEnd nofun (.none rfl rfl)
    | rejected rolledBack | noText =>
      cases hresume
      exact fits_offerFailed restart
  | sendingOffer | sendingAnswer id | addingCandidates id =>
    cases hresume
    exact fits_finish
  | offered id offer =>
    simp only [resume] at hresume
    split at hresume
    · cases hresume
      exact fits_applyOffer offer
    · cases hresume
  | settingRemote id offer =>
    simp only [resume] at hresume
    split at hresume
    · cases hresume
      exact .quiet calls_setEnd sent_setEnd rfl rfl
    · cases hresume
      exact .quiet calls_setEnd sent_setEnd rfl rfl
    · cases hresume
      exact .quiet rfl rfl rfl rfl
    · cases hresume
  | creatingAnswer id offer =>
    simp only [resume] at hresume
    split at hresume
    · split at hresume
      · next sdp _ hsame =>
        cases hresume
        refine ⟨rfl, fun m hm => .inl hm, nofun, ?_⟩
        intro a ha
        cases ha
        exact ⟨rfl, hsame⟩
      · cases hresume
    · cases hresume
      exact .quiet rfl rfl rfl rfl
    · cases hresume
      exact fits_finish
  | settingLocalAnswer id answer =>
    have hanswer := h.outgoing answer rfl
    simp only [resume] at hresume
    split at hresume
    · cases hresume
      refine fits_send calls_setEnd sent_setEnd ?_ (.none rfl rfl)
      intro a ha
      cases ha
      exact hanswer
    · cases hresume
      exact .quiet rfl rfl rfl rfl
  | answered id answer =>
    simp only [resume] at hresume
    split at hresume
    · cases hresume
      exact fits_takeAnswer (h.incoming answer rfl)
    · cases hresume
  | settingAnswer id answer =>
    simp only [resume] at hresume
    split at hresume
    · cases hresume
      exact fits_finish
    · cases hresume
      exact .quiet rfl rfl rfl rfl
  | rollingBack =>
    simp only [resume] at hresume
    split at hresume
    all_goals
      cases hresume
      exact fits_finish
  | returned => cases hresume

theorem genuine_receive {m : Message} (h : m.Genuine) :
    (p.receive m.sender.other m.id m.body).Genuine m.sender.other := by
  obtain ⟨sender, id, body⟩ := m
  cases body with
  | offer offer =>
    simp only [receive]
    split
    · exact .none rfl rfl
    · split
      · exact .none rfl rfl
      · exact .none rfl rfl
  | answer answer =>
    simp only [receive]
    split
    · exact .none rfl rfl
    · refine ⟨?_, nofun⟩
      intro a ha
      cases ha
      obtain ⟨hby, hfits⟩ := h answer rfl
      refine ⟨hby.trans ?_, hfits⟩
      cases sender with
      | left | right => rfl

namespace Genuine

theorem new : Genuine .new where
  sent := by simp [Pair.new]
  calls := by simp [Pair.new]

theorem begin (h : p.Genuine) {phase : Phase} (hphase : phase.Genuine side) :
    (p.begin side phase).Genuine where
  sent := h.sent
  calls := Calls.forall_begin h.calls hphase

/-- Each step keeps every answer from the side it names. -/
theorem step (h : p.Genuine) (hstep : p.step input = some p') : p'.Genuine := by
  cases input with
  | renegotiate side restart =>
    cases hstep
    exact h.begin (.none rfl rfl)
  | deliver i =>
    obtain ⟨m, hm, rfl⟩ := Option.map_eq_some_iff.mp hstep
    exact h.begin (genuine_receive (h.sent m (List.mem_of_getElem? hm)))
  | resume i outcome =>
    obtain ⟨c, hc, hturn⟩ := Option.bind_eq_some_iff.mp hstep
    obtain ⟨turn, hresume, rfl⟩ := Option.map_eq_some_iff.mp hturn
    have hfits := fits_resume (h.calls c (List.mem_of_getElem? hc)) hresume
    refine ⟨?_, ?_⟩
    · intro m hm
      exact (hfits.sent m hm).elim (h.sent m) id
    · intro d hd
      rw [hfits.calls] at hd
      exact Calls.forall_set h.calls hfits.phase d hd

end Genuine

/-! ## Answers and pending offers -/

/-- In the step from `p` to `p'` the `Answer` arm of a side hands an answer to
`set_remote_description`. -/
def Applied (p p' : Pair) (side : Side) (a : Answer) : Prop :=
  ∃ (i id : Nat), p.calls[i]? = some ⟨side, .answered id a⟩ ∧
    p'.calls[i]? = some ⟨side, .settingAnswer id a⟩

/-- An answer that is applied was created by the other side for the offer that
is pending. -/
def AnswersPending (p p' : Pair) : Prop :=
  ∀ side a, Applied p p' side a →
    (p.at_ side).signaling = .haveLocalOffer a.offer ∧ a.by_ = side.other

/-- When the `Answer` arm has the lock while an offer is pending, its answer is
for that offer, or for one with other m-lines. -/
def Unmistakable (p : Pair) : Input → Prop
  | .resume i _ => ∀ (side : Side) (id : Nat) (a : Answer) (offer : Offer), p.calls[i]? = some ⟨side, .answered id a⟩ →
      (p.at_ side).negotiating = none → (p.at_ side).signaling = .haveLocalOffer offer →
      a.offer = offer ∨ mlineSignature a.offer.sdp ≠ mlineSignature offer.sdp
  | _ => True

/-- A call leaves the wait for the lock towards `set_remote_description` where it
finds a pending offer with the m-lines of the answer. -/
theorem takeAnswer_setting {id' : Nat} {a a' : Answer}
    (h : (p.takeAnswer side call id a).2 = .settingAnswer id' a') :
    ∃ offer, (p.at_ side).signaling = .haveLocalOffer offer ∧
      mlineSignature offer.sdp = mlineSignature a.sdp := by
  unfold takeAnswer at h
  split at h
  · split at h
    · cases h
    · cases h
  · next offer hpending =>
    split at h
    · next hsame => exact ⟨offer, hpending, hsame⟩
    · cases h
  · cases h

theorem applied_resume (hg : p.Genuine) {a : Answer} (hstep : p.step input = some p') (h : Applied p p' side a) :
    ∃ i id outcome, input = .resume i outcome ∧ p.calls[i]? = some ⟨side, .answered id a⟩ ∧
      (p.at_ side).negotiating = none ∧ ∃ offer,
        (p.at_ side).signaling = .haveLocalOffer offer ∧
        mlineSignature offer.sdp = mlineSignature a.sdp := by
  obtain ⟨i, id, hbefore, hafter⟩ := h
  have hlt := (List.getElem?_eq_some_iff.mp hbefore).1
  cases input with
  | renegotiate side' restart =>
    cases hstep
    rw [Pair.begin, List.getElem?_append_left hlt, hbefore] at hafter
    cases hafter
  | deliver j =>
    obtain ⟨m, hm, rfl⟩ := Option.map_eq_some_iff.mp hstep
    rw [Pair.begin, List.getElem?_append_left hlt, hbefore] at hafter
    cases hafter
  | resume j outcome =>
    obtain ⟨c, hc, hturn⟩ := Option.bind_eq_some_iff.mp hstep
    obtain ⟨turn, hresume, rfl⟩ := Option.map_eq_some_iff.mp hturn
    have hsame := (fits_resume (hg.calls c (List.mem_of_getElem? hc)) hresume).calls
    have hcalls : turn.1.calls[j]? = some c := by
      rw [hsame]
      exact hc
    rw [Calls.get_set hcalls] at hafter
    split at hafter
    · next hij =>
      subst hij
      cases hc.symm.trans hbefore
      refine ⟨i, id, outcome, rfl, hbefore, ?_⟩
      simp only [resume] at hresume
      split at hresume
      · next hfree =>
        cases hresume
        exact ⟨hfree, takeAnswer_setting (congrArg Call.phase (Option.some.inj hafter))⟩
      · cases hresume
    · rw [hsame, hbefore] at hafter
      cases hafter

/-- A step applies answers to the offers they are for exactly if none can be
mistaken in it. -/
theorem answersPending_iff (h : p.Genuine) (hstep : p.step input = some p') :
    AnswersPending p p' ↔ p.Unmistakable input := by
  constructor
  · intro hpending
    cases input with
    | resume i outcome =>
      intro side id a offer hcall hfree hoffer
      by_contra hnot
      rw [not_or, not_not] at hnot
      have hfits := ((h.calls _ (List.mem_of_getElem? hcall)).incoming a rfl).2
      have happlied : Applied p p' side a := by
        refine ⟨i, id, hcall, ?_⟩
        have hlt := (List.getElem?_eq_some_iff.mp hcall).1
        simp only [step, hcall, Option.bind_some, resume, hfree, takeAnswer, hoffer,
          if_pos (hnot.2.symm.trans hfits.symm), if_true, Option.map_some, Option.some.injEq] at hstep
        rw [← hstep]
        simp [lock, hlt]
      have hsame := (hpending side a happlied).1
      rw [hoffer] at hsame
      cases hsame
      exact hnot.1 rfl
    | renegotiate side restart | deliver i => trivial
  · intro hclear side a happlied
    obtain ⟨i, id, outcome, rfl, hcall, hfree, offer, hoffer, hsame⟩ := applied_resume h hstep happlied
    obtain ⟨hby, hfits⟩ := (h.calls _ (List.mem_of_getElem? hcall)).incoming a rfl
    rcases hclear side id a offer hcall hfree hoffer with rfl | hother
    · exact ⟨hoffer, hby⟩
    · exact absurd (hfits.symm.trans hsame.symm) hother

end Pair

open Reactive Pair

/-- In a run every answer that is applied was created for the offer that is
pending then exactly if no answer for another offer with the same m-lines comes
up while an offer is pending. -/
theorem answersPending_throughout_iff {moves : List (Move Pair Input)} {s : Pair}
    (run : Run Pair.step .new moves s) :
    (∀ m ∈ moves, ∀ p', m.before.step m.input = some p' → AnswersPending m.before p') ↔
      ∀ m ∈ moves, m.before.Unmistakable m.input := by
  have hmoves : s.Genuine ∧ ∀ m ∈ moves, m.before.Genuine ∧ ∃ p', m.before.step m.input = some p' := by
    refine run.keeps (P := fun moves s => s.Genuine ∧
      ∀ m ∈ moves, m.before.Genuine ∧ ∃ p', m.before.step m.input = some p') ⟨.new, by simp⟩ ?_
    rintro past s i s' ⟨hs, hpast⟩ hstep
    exact ⟨hs.step hstep, List.forall_mem_cons.mpr ⟨⟨hs, s', hstep⟩, hpast⟩⟩
  constructor
  · intro hpending m hm
    obtain ⟨hgenuine, p', hstep⟩ := hmoves.2 m hm
    exact (answersPending_iff hgenuine hstep).mp (hpending m hm p' hstep)
  · intro hclear m hm p' hstep
    exact (answersPending_iff (hmoves.2 m hm).1 hstep).mpr (hclear m hm)

/-! ### An answer for an offer that was rolled back -/

section Runs

/-- A data channel and nothing else, after a line that tells descriptions apart. -/
def dataOnly (origin : String) : String := origin ++ "\r\nm=application 9 UDP\r\na=mid:0\r\n"

def offers (call : Nat) (sdp : String) (id : Nat) : List Input :=
  [.resume call (.fulfilled "" 0), .resume call (.fulfilled sdp 0), .resume call (.fulfilled "" id),
    .resume call (.fulfilled "" 0)]

def answers (call : Nat) (sdp : String) (id : Nat) : List Input :=
  [.resume call (.fulfilled "" 0), .resume call (.fulfilled "" 0), .resume call (.fulfilled sdp 0),
    .resume call (.fulfilled "" id), .resume call (.fulfilled "" 0)]

def after (inputs : List Input) : List (Move Pair Input) × Pair := play Pair.step .new inputs.reverse

def exchange : List Input :=
  [Input.renegotiate .left false] ++ offers 0 (dataOnly "o=1") 10 ++ [Input.deliver 0] ++
    answers 1 (dataOnly "o=2") 11

def answeredTwice : List Input :=
  exchange ++ [Input.deliver 1, .deliver 1, .resume 2 (.fulfilled "" 0), .resume 2 (.fulfilled "" 0),
    .resume 3 (.fulfilled "" 0)]

def unmistakable (p : Pair) : Input → Bool
  | .resume i _ =>
    match p.calls[i]? with
    | some ⟨side, .answered _ a⟩ =>
      match (p.at_ side).signaling with
      | .haveLocalOffer offer =>
        decide (a.offer = offer ∨ mlineSignature a.offer.sdp ≠ mlineSignature offer.sdp)
      | _ => true
    | _ => true
  | _ => true

/-- What the check of a schedule lets through is unmistakable. -/
theorem unmistakable_sound {p : Pair} {input : Input} (h : unmistakable p input = true) :
    p.Unmistakable input := by
  cases input with
  | resume i outcome =>
    intro side id a offer hcall _ hoffer
    simp only [unmistakable, hcall, hoffer, decide_eq_true_eq] at h
    exact h
  | renegotiate side restart | deliver i => trivial

theorem answeredTwice_pending :
    Run Pair.step .new (after answeredTwice).1 (after answeredTwice).2 ∧
      ∀ m ∈ (after answeredTwice).1, ∀ p', m.before.step m.input = some p' →
        AnswersPending m.before p' := by
  have hrun := run_play Pair.step .new answeredTwice.reverse
  refine ⟨hrun, (answersPending_throughout_iff hrun).mpr ?_⟩
  have hchecked : ∀ m ∈ (after answeredTwice).1, unmistakable m.before m.input = true := by
    decide +kernel
  exact fun m hm => unmistakable_sound (hchecked m hm)

/-- The answer is late. The right offers as well, the left rolls its own offer
back for it, and then makes another one with the same m-lines. -/
def crossed : List Input :=
  exchange ++ [Input.renegotiate .right false] ++ offers 2 (dataOnly "o=3") 12 ++ [Input.deliver 2] ++
    answers 3 (dataOnly "o=4") 13 ++ [Input.renegotiate .left false] ++ offers 4 (dataOnly "o=5") 14 ++
    [Input.deliver 1]

/-- The answer to the offer that was rolled back is applied to the new one. -/
theorem crossed_misapplied :
    ∃ moves p input p' a, Run Pair.step .new moves p ∧ p.step input = some p' ∧
      Applied p p' .left a ∧ a.offer = ⟨.left, 0, dataOnly "o=1"⟩ ∧
      p.left.signaling = .haveLocalOffer ⟨.left, 2, dataOnly "o=5"⟩ ∧ ¬ AnswersPending p p' := by
  have hrun : Run Pair.step .new (after crossed).1 (after crossed).2 := run_play _ _ _
  have hcall : (after crossed).2.calls[5]? =
      some ⟨.left, .answered 11 ⟨.right, ⟨.left, 0, dataOnly "o=1"⟩, dataOnly "o=2"⟩⟩ := by
    decide +kernel
  have hpending : (after crossed).2.left.signaling = .haveLocalOffer ⟨.left, 2, dataOnly "o=5"⟩ := by
    decide +kernel
  have hset : ((after crossed).2.step (.resume 5 (.fulfilled "" 0))).any (fun p' =>
      decide (p'.calls[5]? =
        some ⟨.left, .settingAnswer 11 ⟨.right, ⟨.left, 0, dataOnly "o=1"⟩, dataOnly "o=2"⟩⟩)) = true := by
    decide +kernel
  obtain ⟨p', hstep, hafter⟩ := (Option.any_eq_true _ _).mp hset
  have happlied := (⟨5, 11, hcall, of_decide_eq_true hafter⟩ : Applied _ p' .left _)
  refine ⟨_, _, _, p', _, hrun, hstep, happlied, rfl, hpending, fun h => ?_⟩
  have hsame := (h .left _ happlied).1.symm.trans hpending
  cases hsame

end Runs

end Mistlib.Browser.Negotiation
