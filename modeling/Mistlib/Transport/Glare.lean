import Mistlib.Async.Calls
import Mistlib.Async.Reactive

/-!
# Offers that cross

Two native peers with an established session that renegotiate. `send_offer` and
`reconcile_track_offer` make offers on either side, and every message is delivered once, in any
order, as a call of its handler that begins at any later time. The steps on one connection are
serialized by its `negotiating` lock, and the connection has no way back from an offer.

Calls on the connection succeed where the signaling state allows them, and sends succeed. The
session is not taken over, and as an offer comes once it is never the one applied last.
-/

open Reactive

namespace Mistlib.Transport.Glare

/-- The side with the lower node id, and the other one. -/
inductive Side where
  | lower
  | higher
deriving DecidableEq, Repr

def Side.other : Side → Side
  | .lower => .higher
  | .higher => .lower

inductive Signaling where
  | stable
  | haveLocalOffer
  | haveRemoteOffer
deriving DecidableEq, Repr

structure End where
  signaling : Signaling
  /-- The call that holds the lock. -/
  negotiating : Option Nat
  localOfferUnsent : Bool
  needsTrackReconcile : Bool
deriving DecidableEq, Repr

inductive Maker where
  | sendOffer
  | reconcileTrackOffer
deriving DecidableEq, Repr

inductive Phase where
  /-- It waits for the lock to make an offer. -/
  | offering (maker : Maker)
  | creatingOffer (maker : Maker)
  | settingLocalOffer (maker : Maker)
  | sendingOffer (maker : Maker)
  | offerSent (maker : Maker)
  /-- An offer is about to be handled. -/
  | offerArrived
  /-- It waits for the lock to apply the offer. -/
  | applying
  | settingRemoteOffer
  | creatingAnswer
  | settingLocalAnswer
  | sendingAnswer
  | answerSent
  /-- An answer has arrived and waits for the lock. -/
  | answerArrived
  | settingRemoteAnswer
  | returned
deriving DecidableEq, Repr

namespace End

def new : End where
  signaling := .stable
  negotiating := none
  localOfferUnsent := false
  needsTrackReconcile := false

def lock (e : End) (call : Nat) : End := { e with negotiating := some call }

def unlock (e : End) : End := { e with negotiating := none }

/-- An offer that was set and not delivered may be made again. -/
def mayReoffer (e : End) : Prop := e.signaling = .haveLocalOffer ∧ e.localOfferUnsent = true
deriving Decidable

/-- What a step makes of the connection and of the call, and the handler it
begins on the other side. -/
structure Turn where
  end_ : End
  phase : Phase
  message : Option Phase
deriving DecidableEq, Repr

/-- The next step of a call. `ready` says that the connection's and the node's
states allow an offer. A wait for the lock goes on only when it is free. -/
def turn (e : End) (side : Side) (call : Nat) (ready : Bool) : Phase → Option Turn
  | .offering .sendOffer =>
    if e.negotiating ≠ none then none
    else if e.mayReoffer ∨ ready ∧ e.signaling = .stable then
      some ⟨e.lock call, .creatingOffer .sendOffer, none⟩
    else some ⟨e, .returned, none⟩
  | .offering .reconcileTrackOffer =>
    if e.negotiating ≠ none then none
    else if ready ∧ (e.signaling = .stable ∨ e.mayReoffer) then
      some ⟨{ e.lock call with needsTrackReconcile := false }, .creatingOffer .reconcileTrackOffer, none⟩
    else some ⟨e, .returned, none⟩
  | .creatingOffer maker => some ⟨e, .settingLocalOffer maker, none⟩
  | .settingLocalOffer maker =>
    some ⟨{ e with
      signaling := .haveLocalOffer
      localOfferUnsent := if maker = .reconcileTrackOffer then true else e.localOfferUnsent },
      .sendingOffer maker, none⟩
  | .sendingOffer maker => some ⟨e, .offerSent maker, some .offerArrived⟩
  | .offerSent _ => some ⟨{ e with localOfferUnsent := false }.unlock, .returned, none⟩
  | .offerArrived =>
    if side = .lower ∧ e.signaling = .haveLocalOffer then some ⟨e, .returned, none⟩
    else some ⟨e, .applying, none⟩
  | .applying =>
    if e.negotiating ≠ none then none
    else if e.signaling ≠ .stable then some ⟨e, .returned, none⟩
    else some ⟨e.lock call, .settingRemoteOffer, none⟩
  | .settingRemoteOffer => some ⟨{ e with signaling := .haveRemoteOffer }, .creatingAnswer, none⟩
  | .creatingAnswer => some ⟨e, .settingLocalAnswer, none⟩
  | .settingLocalAnswer => some ⟨{ e with signaling := .stable }, .sendingAnswer, none⟩
  | .sendingAnswer => some ⟨e, .answerSent, some .answerArrived⟩
  | .answerSent => some ⟨e.unlock, .returned, none⟩
  | .answerArrived =>
    if e.negotiating ≠ none then none
    else if e.signaling ≠ .haveLocalOffer then some ⟨e, .returned, none⟩
    else some ⟨e.lock call, .settingRemoteAnswer, none⟩
  | .settingRemoteAnswer => some ⟨{ e with signaling := .stable }.unlock, .returned, none⟩
  | .returned => none

end End

structure Call where
  side : Side
  phase : Phase
deriving DecidableEq, Repr

structure Pair where
  lower : End
  higher : End
  calls : List Call
deriving DecidableEq, Repr

inductive Input where
  | sendOffer (side : Side)
  /-- `reconcile_track_offer`, which reads its flag first. -/
  | reconcile (side : Side)
  /-- A change of tracks is left to the next reconciliation. -/
  | flag (side : Side)
  | call (i : Nat) (ready : Bool)
deriving DecidableEq, Repr

namespace Pair

def new : Pair where
  lower := .new
  higher := .new
  calls := []

def at_ (p : Pair) : Side → End
  | .lower => p.lower
  | .higher => p.higher

def setEnd (p : Pair) (side : Side) (e : End) : Pair :=
  match side with
  | .lower => { p with lower := e }
  | .higher => { p with higher := e }

def begin (p : Pair) (side : Side) (phase : Phase) : Pair :=
  { p with calls := p.calls ++ [⟨side, phase⟩] }

def apply (p : Pair) (i : Nat) (side : Side) (turn : End.Turn) : Pair :=
  { p.setEnd side turn.end_ with
    calls := p.calls.set i ⟨side, turn.phase⟩ ++
      (turn.message.map fun phase => (⟨side.other, phase⟩ : Call)).toList }

def step (p : Pair) : Input → Option Pair
  | .sendOffer side => some (p.begin side (.offering .sendOffer))
  | .reconcile side =>
    some (p.begin side
      (if (p.at_ side).needsTrackReconcile then .offering .reconcileTrackOffer else .returned))
  | .flag side => some (p.setEnd side { p.at_ side with needsTrackReconcile := true })
  | .call i ready =>
    p.calls[i]?.bind fun c =>
      ((p.at_ c.side).turn c.side i ready c.phase).map (p.apply i c.side)

/-- No message is in flight and no negotiation step is in progress. -/
def Quiescent (p : Pair) : Prop := ∀ c ∈ p.calls, c.phase = .returned
deriving Decidable

/-- The call's next step gives an offer up: the lower side ignores it for its
own, or the connection is not stable when it would be applied. -/
def Drops (p : Pair) : Input → Prop
  | .call i _ => ∃ side, (p.calls[i]? = some ⟨side, .offerArrived⟩ ∧ side = .lower ∧
        (p.at_ side).signaling = .haveLocalOffer) ∨
      (p.calls[i]? = some ⟨side, .applying⟩ ∧ (p.at_ side).negotiating = none ∧
        (p.at_ side).signaling ≠ .stable)
  | _ => False

instance (p : Pair) : DecidablePred p.Drops
  | .call i _ =>
    let dropped (side : Side) : Prop := (p.calls[i]? = some ⟨side, .offerArrived⟩ ∧ side = .lower ∧
        (p.at_ side).signaling = .haveLocalOffer) ∨
      (p.calls[i]? = some ⟨side, .applying⟩ ∧ (p.at_ side).negotiating = none ∧
        (p.at_ side).signaling ≠ .stable)
    decidable_of_iff (dropped .lower ∨ dropped .higher)
      ⟨fun h => h.elim (⟨_, ·⟩) (⟨_, ·⟩), fun ⟨side, h⟩ => by
        cases side with
        | lower => exact .inl h
        | higher => exact .inr h⟩
  | .sendOffer _ | .reconcile _ | .flag _ => isFalse id

end Pair

/-! ## The lock -/

/-- Phases in which a call holds the lock. -/
def Phase.critical : Phase → Bool
  | .offering _ | .offerArrived | .applying | .answerArrived | .returned => false
  | _ => true

namespace End

/-- The signaling state in the phases of the call that holds the lock. -/
def Agrees (e : End) : Phase → Prop
  | .creatingOffer _ | .settingLocalOffer _ => e.signaling = .stable ∧ e.localOfferUnsent = false
  | .sendingOffer _ | .offerSent _ => e.signaling = .haveLocalOffer
  | .settingRemoteOffer => e.signaling = .stable ∧ e.localOfferUnsent = false
  | .creatingAnswer
  | .settingLocalAnswer => e.signaling = .haveRemoteOffer ∧ e.localOfferUnsent = false
  | .sendingAnswer | .answerSent => e.signaling = .stable ∧ e.localOfferUnsent = false
  | .settingRemoteAnswer => e.signaling = .haveLocalOffer ∧ e.localOfferUnsent = false
  | _ => True

/-- What holds of a connection whose lock is free. -/
structure Rests (e : End) : Prop where
  noRemote : e.signaling ≠ .haveRemoteOffer
  sent : e.localOfferUnsent = false

inductive Turns (e : End) (side : Side) (call : Nat) : Phase → Turn → Prop where
  | refused (maker : Maker) : e.negotiating = none →
      Turns e side call (.offering maker) ⟨e, .returned, none⟩
  | offers (maker : Maker) (needs : Bool) : e.negotiating = none →
      e.signaling = .stable ∨ e.mayReoffer →
      Turns e side call (.offering maker)
        ⟨{ e.lock call with needsTrackReconcile := needs }, .creatingOffer maker, none⟩
  | created (maker : Maker) : Turns e side call (.creatingOffer maker) ⟨e, .settingLocalOffer maker, none⟩
  | setLocal (maker : Maker) (unsent : Bool) : Turns e side call (.settingLocalOffer maker)
      ⟨{ e with signaling := .haveLocalOffer, localOfferUnsent := unsent }, .sendingOffer maker, none⟩
  | sends (maker : Maker) :
      Turns e side call (.sendingOffer maker) ⟨e, .offerSent maker, some .offerArrived⟩
  | offered (maker : Maker) : Turns e side call (.offerSent maker)
      ⟨{ e with localOfferUnsent := false }.unlock, .returned, none⟩
  | ignores : side = .lower → e.signaling = .haveLocalOffer →
      Turns e side call .offerArrived ⟨e, .returned, none⟩
  | accepts : ¬ (side = .lower ∧ e.signaling = .haveLocalOffer) →
      Turns e side call .offerArrived ⟨e, .applying, none⟩
  | rejects : e.negotiating = none → e.signaling ≠ .stable →
      Turns e side call .applying ⟨e, .returned, none⟩
  | applies : e.negotiating = none → e.signaling = .stable →
      Turns e side call .applying ⟨e.lock call, .settingRemoteOffer, none⟩
  | setRemote : Turns e side call .settingRemoteOffer
      ⟨{ e with signaling := .haveRemoteOffer }, .creatingAnswer, none⟩
  | answerCreated : Turns e side call .creatingAnswer ⟨e, .settingLocalAnswer, none⟩
  | answerSet : Turns e side call .settingLocalAnswer
      ⟨{ e with signaling := .stable }, .sendingAnswer, none⟩
  | answers : Turns e side call .sendingAnswer ⟨e, .answerSent, some .answerArrived⟩
  | answered : Turns e side call .answerSent ⟨e.unlock, .returned, none⟩
  | tooLate : e.negotiating = none → e.signaling ≠ .haveLocalOffer →
      Turns e side call .answerArrived ⟨e, .returned, none⟩
  | takesAnswer : e.negotiating = none → e.signaling = .haveLocalOffer →
      Turns e side call .answerArrived ⟨e.lock call, .settingRemoteAnswer, none⟩
  | settled : Turns e side call .settingRemoteAnswer
      ⟨{ e with signaling := .stable }.unlock, .returned, none⟩

variable {e : End} {side : Side} {call : Nat} {ready : Bool} {phase : Phase} {t : Turn}

theorem turn_cases (h : e.turn side call ready phase = some t) : e.Turns side call phase t := by
  cases phase with
  | offering maker =>
    cases maker with
    | sendOffer =>
      simp only [turn] at h
      split at h
      · cases h
      · next hfree =>
        split at h
        · next hmay =>
          cases h
          exact .offers .sendOffer e.needsTrackReconcile (not_not.mp hfree) (hmay.symm.imp And.right id)
        · cases h
          exact .refused .sendOffer (not_not.mp hfree)
    | reconcileTrackOffer =>
      simp only [turn] at h
      split at h
      · cases h
      · next hfree =>
        split at h
        · next hmay =>
          cases h
          exact .offers .reconcileTrackOffer false (not_not.mp hfree) hmay.2
        · cases h
          exact .refused .reconcileTrackOffer (not_not.mp hfree)
  | creatingOffer maker =>
    cases h
    exact .created maker
  | settingLocalOffer maker =>
    cases h
    exact .setLocal maker _
  | sendingOffer maker =>
    cases h
    exact .sends maker
  | offerSent maker =>
    cases h
    exact .offered maker
  | offerArrived =>
    simp only [turn] at h
    split at h
    · next hglare =>
      cases h
      exact .ignores hglare.1 hglare.2
    · next hclear =>
      cases h
      exact .accepts hclear
  | applying =>
    simp only [turn] at h
    split at h
    · cases h
    · next hfree =>
      split at h
      · next hunstable =>
        cases h
        exact .rejects (not_not.mp hfree) hunstable
      · next hstable =>
        cases h
        exact .applies (not_not.mp hfree) (not_not.mp hstable)
  | settingRemoteOffer =>
    cases h
    exact .setRemote
  | creatingAnswer =>
    cases h
    exact .answerCreated
  | settingLocalAnswer =>
    cases h
    exact .answerSet
  | sendingAnswer =>
    cases h
    exact .answers
  | answerSent =>
    cases h
    exact .answered
  | answerArrived =>
    simp only [turn] at h
    split at h
    · cases h
    · next hfree =>
      split at h
      · next hlate =>
        cases h
        exact .tooLate (not_not.mp hfree) hlate
      · next hlocal =>
        cases h
        exact .takesAnswer (not_not.mp hfree) (not_not.mp hlocal)
  | settingRemoteAnswer =>
    cases h
    exact .settled
  | returned => cases h

inductive LockStep (e : End) (call : Nat) (phase : Phase) (t : Turn) : Prop where
  | outside : phase.critical = false → t.phase.critical = false → t.end_ = e → LockStep e call phase t
  | takes : phase.critical = false → e.negotiating = none → t.phase.critical = true →
      t.end_.negotiating = some call → LockStep e call phase t
  | keeps : phase.critical = true → t.phase.critical = true →
      t.end_.negotiating = e.negotiating → LockStep e call phase t
  | gives : phase.critical = true → t.phase.critical = false → t.end_.negotiating = none →
      LockStep e call phase t

theorem Turns.locks (h : e.Turns side call phase t) : e.LockStep call phase t := by
  cases h with
  | refused maker _ | ignores _ _ | accepts _ | rejects _ _ | tooLate _ _ => exact .outside rfl rfl rfl
  | offers maker needs hfree _ | applies hfree _ | takesAnswer hfree _ => exact .takes rfl hfree rfl rfl
  | created maker | setLocal maker unsent | sends maker | setRemote | answerCreated | answerSet
  | answers => exact .keeps rfl rfl rfl
  | offered maker | answered | settled => exact .gives rfl rfl rfl

theorem Rests.of_local (h : e.signaling = .haveLocalOffer) (hsent : e.localOfferUnsent = false) :
    e.Rests := ⟨by rw [h]; nofun, hsent⟩

theorem Rests.of_stable (h : e.signaling = .stable) (hsent : e.localOfferUnsent = false) :
    e.Rests := ⟨by rw [h]; nofun, hsent⟩

theorem Turns.agrees (h : e.Turns side call phase t) (hholds : phase.critical = true → e.Agrees phase)
    (hfree : e.negotiating = none → e.Rests) (hcritical : t.phase.critical = true) :
    t.end_.Agrees t.phase := by
  cases h with
  | offers maker needs hnone hmay =>
    have hrests := hfree hnone
    refine ⟨hmay.elim id fun hagain => ?_, hrests.sent⟩
    exact absurd (hrests.sent.symm.trans hagain.2) Bool.false_ne_true
  | created maker | sends maker | answerCreated | answers => exact hholds rfl
  | setLocal maker unsent => exact rfl
  | applies hnone hstable => exact ⟨hstable, (hfree hnone).sent⟩
  | setRemote | answerSet => exact ⟨rfl, (hholds rfl).2⟩
  | takesAnswer hnone hlocal => exact ⟨hlocal, (hfree hnone).sent⟩
  | _ => cases hcritical

theorem Turns.rests (h : e.Turns side call phase t) (hholds : phase.critical = true → e.Agrees phase)
    (hcritical : phase.critical = true) (hgiven : t.phase.critical = false) : t.end_.Rests := by
  cases h with
  | offered maker =>
    have hlocal : e.signaling = .haveLocalOffer := hholds rfl
    exact .of_local hlocal rfl
  | answered => exact .of_stable (hholds rfl).1 (hholds rfl).2
  | settled => exact .of_stable rfl (hholds rfl).2
  | refused maker _ | offers maker needs _ _ | ignores _ _ | accepts _ | rejects _ _
  | applies _ _ | tooLate _ _ | takesAnswer _ _ => cases hcritical
  | _ => cases hgiven

theorem Turns.message (h : e.Turns side call phase t) {m : Phase} (hm : t.message = some m) :
    m.critical = false := by
  cases h with
  | sends maker | answers =>
    cases hm
    rfl
  | _ => cases hm

end End

namespace Pair

/-- The lock of a side is held by the call that is in a critical phase, if there
is one, and the signaling state agrees with that phase. -/
structure Locked (p : Pair) : Prop where
  held : ∀ s i, (p.at_ s).negotiating = some i →
    ∃ phase, p.calls[i]? = some ⟨s, phase⟩ ∧ phase.critical = true
  holds : ∀ s i phase, p.calls[i]? = some ⟨s, phase⟩ → phase.critical = true →
    (p.at_ s).negotiating = some i ∧ (p.at_ s).Agrees phase
  rests : ∀ s, (p.at_ s).negotiating = none → (p.at_ s).Rests

variable {p p' : Pair} {side s : Side} {e : End} {i : Nat} {phase : Phase} {t : End.Turn}
  {input : Input}

theorem at_setEnd : (p.setEnd side e).at_ s = if s = side then e else p.at_ s := by
  cases side with
  | lower | higher =>
    cases s with
    | lower | higher => rfl

theorem at_apply : (p.apply i side t).at_ s = if s = side then t.end_ else p.at_ s := at_setEnd

namespace Locked

theorem new : Locked .new where
  held := by
    intro s i h
    cases s with
    | lower | higher => cases h
  holds := by simp [Pair.new]
  rests := by
    intro s _
    cases s with
    | lower | higher => exact .of_stable rfl rfl

theorem begin (h : p.Locked) (hfresh : phase.critical = false) : (p.begin side phase).Locked where
  held := by
    intro s i hi
    obtain ⟨held, hcall, hcritical⟩ := h.held s i hi
    exact ⟨held, Calls.get_before hcall _, hcritical⟩
  holds := by
    intro s i held hcall hcritical
    rw [Pair.begin, Calls.get_begin] at hcall
    split at hcall
    · cases hcall
      rw [hfresh] at hcritical
      cases hcritical
    · exact h.holds s i held hcall hcritical
  rests := h.rests

theorem flag (h : p.Locked) (side : Side) :
    (p.setEnd side { p.at_ side with needsTrackReconcile := true }).Locked := by
  have hcalls : (p.setEnd side { p.at_ side with needsTrackReconcile := true }).calls = p.calls := by
    cases side with
    | lower | higher => rfl
  refine ⟨?_, ?_, ?_⟩
  · intro s i hi
    rw [hcalls]
    rw [at_setEnd] at hi
    split at hi
    · next hs => exact h.held s i (hs ▸ hi)
    · exact h.held s i hi
  · intro s i phase hcall hcritical
    rw [hcalls] at hcall
    obtain ⟨hheld, hagrees⟩ := h.holds s i phase hcall hcritical
    rw [at_setEnd]
    split
    · next hs =>
      subst hs
      exact ⟨hheld, by cases phase <;> exact hagrees⟩
    · exact ⟨hheld, hagrees⟩
  · intro s hs
    rw [at_setEnd] at hs ⊢
    split at hs
    · next hside =>
      subst hside
      rw [if_pos rfl]
      exact ⟨(h.rests s hs).noRemote, (h.rests s hs).sent⟩
    · next hside =>
      rw [if_neg hside]
      exact h.rests s hs

/-- A turn keeps the locks of both sides. -/
theorem turn (h : p.Locked) (hcall : p.calls[i]? = some ⟨side, phase⟩)
    (hturn : (p.at_ side).Turns side i phase t) : (p.apply i side t).Locked := by
  have hholds : phase.critical = true → (p.at_ side).Agrees phase :=
    fun hcritical => (h.holds side i phase hcall hcritical).2
  have hmessage : ∀ d ∈ (t.message.map fun phase => (⟨side.other, phase⟩ : Call)).toList,
      d.phase.critical = false := by
    intro d hd
    obtain ⟨m, hm, rfl⟩ := Option.map_eq_some_iff.mp (Option.mem_toList.mp hd)
    exact hturn.message hm
  have hself : (p.apply i side t).calls[i]? = some ⟨side, t.phase⟩ := Calls.get_self hcall _ _
  have hlock := hturn.locks
  refine ⟨?_, ?_, ?_⟩
  · intro s j hj
    rw [at_apply] at hj
    split at hj
    · next hs =>
      subst hs
      have hbefore : ∀ k, (p.at_ s).negotiating = some k → k ≠ i →
          ∃ held, (p.apply i s t).calls[k]? = some ⟨s, held⟩ ∧ held.critical = true := by
        intro k hk hne
        obtain ⟨held, hheld, hcritical⟩ := h.held s k hk
        exact ⟨held, Calls.get_other hcall _ _ hne hheld, hcritical⟩
      cases hlock with
      | outside hout _ hend =>
        rw [hend] at hj
        refine hbefore j hj ?_
        rintro rfl
        obtain ⟨held, hheld, hcritical⟩ := h.held s j hj
        cases hcall.symm.trans hheld
        rw [hout] at hcritical
        cases hcritical
      | takes _ _ hin htaken =>
        cases htaken.symm.trans hj
        exact ⟨t.phase, hself, hin⟩
      | keeps hcritical hin hkept =>
        have hown := (h.holds s i phase hcall hcritical).1
        cases hown.symm.trans (hkept.symm.trans hj)
        exact ⟨t.phase, hself, hin⟩
      | gives _ _ hgiven =>
        rw [hgiven] at hj
        cases hj
    · next hs =>
      obtain ⟨held, hheld, hcritical⟩ := h.held s j hj
      refine ⟨held, Calls.get_other hcall _ _ ?_ hheld, hcritical⟩
      rintro rfl
      cases hcall.symm.trans hheld
      exact hs rfl
  · intro s j held hheld hcritical
    rcases Calls.cases_of_get hcall hheld with ⟨rfl, hd⟩ | ⟨hne, hd⟩ | hd
    · cases hd
      rw [at_apply, if_pos rfl]
      refine ⟨?_, hturn.agrees hholds (h.rests side) hcritical⟩
      cases hlock with
      | outside _ hout _ | gives _ hout _ =>
        rw [hout] at hcritical
        cases hcritical
      | takes _ _ _ htaken => exact htaken
      | keeps hbefore _ hkept => exact hkept.trans (h.holds side j phase hcall hbefore).1
    · obtain ⟨hother, hagrees⟩ := h.holds s j held hd hcritical
      rw [at_apply]
      split
      · next hs =>
        subst hs
        cases hlock with
        | outside _ _ hend =>
          rw [hend]
          exact ⟨hother, hagrees⟩
        | takes _ hfree _ _ =>
          rw [hfree] at hother
          cases hother
        | keeps hbefore _ _ | gives hbefore _ _ =>
          have hown := (h.holds s i phase hcall hbefore).1
          exact absurd (Option.some.inj (hother.symm.trans hown)) hne
      · exact ⟨hother, hagrees⟩
    · rw [hmessage _ hd] at hcritical
      cases hcritical
  · intro s hs
    rw [at_apply] at hs ⊢
    split at hs
    · next hside =>
      subst hside
      rw [if_pos rfl]
      cases hlock with
      | outside _ _ hend =>
        rw [hend] at hs ⊢
        exact h.rests s hs
      | takes _ _ _ htaken =>
        rw [htaken] at hs
        cases hs
      | keeps hbefore _ hkept =>
        have hown := (h.holds s i phase hcall hbefore).1
        cases hs.symm.trans (hkept.trans hown)
      | gives hbefore hout _ => exact hturn.rests hholds hbefore hout
    · next hside =>
      rw [if_neg hside]
      exact h.rests s hs

end Locked

theorem step_call {ready : Bool} (h : p.step (.call i ready) = some p') :
    ∃ side phase t, p.calls[i]? = some ⟨side, phase⟩ ∧ (p.at_ side).Turns side i phase t ∧
      p' = p.apply i side t := by
  obtain ⟨⟨side, phase⟩, hcall, hturn⟩ := Option.bind_eq_some_iff.mp h
  obtain ⟨t, ht, rfl⟩ := Option.map_eq_some_iff.mp hturn
  exact ⟨side, phase, t, hcall, End.turn_cases ht, rfl⟩

/-- Each step keeps the locks of both sides. -/
theorem Locked.step (h : p.Locked) (hstep : p.step input = some p') : p'.Locked := by
  cases input with
  | sendOffer side =>
    cases hstep
    exact h.begin rfl
  | reconcile side =>
    cases hstep
    refine h.begin ?_
    split
    · rfl
    · rfl
  | flag side =>
    cases hstep
    exact h.flag side
  | call i ready =>
    obtain ⟨side, phase, t, hcall, hturn, rfl⟩ := step_call hstep
    exact h.turn hcall hturn

end Pair

/-! ## The offers under way -/

namespace Call

/-- The side whose offer a call carries on, from before it is sent until its
answer is applied. -/
def offerOf (c : Call) : Option Side :=
  match c.phase with
  | .sendingOffer _ => some c.side
  | .offerArrived | .applying | .settingRemoteOffer | .creatingAnswer | .settingLocalAnswer
  | .sendingAnswer => some c.side.other
  | .answerArrived | .settingRemoteAnswer => some c.side
  | _ => none

def carries (u : Side) (c : Call) : Bool := decide (c.offerOf = some u)

/-- How many offers of a side the call carries on. -/
def load (c : Call) (u : Side) : Nat := if c.carries u then 1 else 0

end Call

namespace End

/-- The load of a call after a turn, with that of the handler it begins. -/
def Turn.load (t : Turn) (side u : Side) : Nat :=
  (⟨side, t.phase⟩ : Call).load u + t.message.elim 0 fun m => (⟨side.other, m⟩ : Call).load u

/-- What a turn does to the offers under way. -/
inductive Carries (e : End) (side : Side) (phase : Phase) (t : Turn) : Prop where
  | on : (t.end_.signaling = .haveLocalOffer ↔ e.signaling = .haveLocalOffer) →
      (∀ u, t.load side u = (⟨side, phase⟩ : Call).load u) → Carries e side phase t
  | offers : e.signaling ≠ .haveLocalOffer → t.end_.signaling = .haveLocalOffer →
      (∀ u, t.load side u = (⟨side, phase⟩ : Call).load u + if u = side then 1 else 0) →
      Carries e side phase t
  | settles : t.end_.signaling ≠ .haveLocalOffer →
      (∀ u, (t.load side u + if u = side then 1 else 0) = (⟨side, phase⟩ : Call).load u) →
      Carries e side phase t
  | drops : t.end_ = e →
      (phase = .offerArrived ∧ side = .lower ∧ e.signaling = .haveLocalOffer ∨
        phase = .applying ∧ e.negotiating = none ∧ e.signaling ≠ .stable) →
      (∀ u, (t.load side u + if u = side.other then 1 else 0) = (⟨side, phase⟩ : Call).load u) →
      Carries e side phase t

variable {e : End} {side : Side} {call : Nat} {phase : Phase} {t : Turn}

theorem load_eq (c : Call) (u : Side) : c.load u = if c.offerOf = some u then 1 else 0 := by
  simp [Call.load, Call.carries]

theorem Turns.carries (h : e.Turns side call phase t) (hholds : phase.critical = true → e.Agrees phase) :
    e.Carries side phase t := by
  cases h with
  | refused maker _ | offers maker needs _ _ | created maker | offered maker | accepts _
  | applies _ _ | answerCreated | answered | takesAnswer _ _ => exact .on Iff.rfl fun u => rfl
  | setLocal maker unsent =>
    have hstable : e.signaling = .stable := (hholds rfl).1
    refine .offers (by rw [hstable]; nofun) rfl fun u => ?_
    simp [Turn.load, load_eq, Call.offerOf, eq_comm]
  | sends maker =>
    refine .on Iff.rfl fun u => ?_
    cases side with
    | lower | higher => simp [Turn.load, load_eq, Call.offerOf, Side.other]
  | ignores hside hlocal =>
    refine .drops rfl (.inl ⟨rfl, hside, hlocal⟩) fun u => ?_
    simp [Turn.load, load_eq, Call.offerOf, eq_comm]
  | rejects hfree hunstable =>
    refine .drops rfl (.inr ⟨rfl, hfree, hunstable⟩) fun u => ?_
    simp [Turn.load, load_eq, Call.offerOf, eq_comm]
  | setRemote =>
    have hstable : e.signaling = .stable := (hholds rfl).1
    exact .on (by simp [hstable]) fun u => rfl
  | answerSet =>
    have hremote : e.signaling = .haveRemoteOffer := (hholds rfl).1
    exact .on (by simp [hremote]) fun u => rfl
  | answers =>
    refine .on Iff.rfl fun u => ?_
    simp [Turn.load, load_eq, Call.offerOf]
  | tooLate _ hlate =>
    refine .settles hlate fun u => ?_
    simp [Turn.load, load_eq, Call.offerOf, eq_comm]
  | settled =>
    refine .settles (by nofun) fun u => ?_
    simp [Turn.load, load_eq, Call.offerOf, eq_comm]

end End

namespace Pair

/-- How many calls carry on an offer of a side. -/
def underWay (p : Pair) (u : Side) : Nat := p.calls.countP (Call.carries u)

variable {p p' : Pair} {side u : Side} {e : End} {i : Nat} {phase : Phase} {t : End.Turn}
  {input : Input}

theorem underWay_apply (hcall : p.calls[i]? = some ⟨side, phase⟩) (t : End.Turn) (u : Side) :
    (p.apply i side t).underWay u + (⟨side, phase⟩ : Call).load u = p.underWay u + t.load side u := by
  have hset := Calls.countP_set hcall ⟨side, t.phase⟩ (Call.carries u)
  unfold underWay apply
  rw [List.countP_append]
  cases hm : t.message with
  | none =>
    simp only [Option.map_none, Option.toList_none, List.countP_nil, End.Turn.load, hm,
      Option.elim_none, Call.load]
    omega
  | some m =>
    simp only [Option.map_some, Option.toList_some, List.countP_singleton, End.Turn.load, hm,
      Option.elim_some, Call.load]
    omega

theorem load_le (hcall : p.calls[i]? = some ⟨side, phase⟩) (u : Side) :
    (⟨side, phase⟩ : Call).load u ≤ p.underWay u := by
  unfold Call.load
  split
  · next hcarries => exact List.countP_pos_iff.mpr ⟨_, List.mem_of_getElem? hcall, hcarries⟩
  · exact Nat.zero_le _

/-- At most one offer of a side is under way, and only while it is pending. -/
def Single (p : Pair) : Prop :=
  ∀ u, p.underWay u ≤ 1 ∧ (1 ≤ p.underWay u → (p.at_ u).signaling = .haveLocalOffer)

/-- A pending offer that nothing carries on. -/
def Stuck (p : Pair) (u : Side) : Prop :=
  (p.at_ u).signaling = .haveLocalOffer ∧ p.underWay u = 0

def Lively (p : Pair) : Prop := ∀ u, (p.at_ u).signaling = .haveLocalOffer → p.underWay u = 1

theorem underWay_begin (hfresh : ∀ u, (⟨side, phase⟩ : Call).carries u = false) :
    (p.begin side phase).underWay u = p.underWay u := by
  simp [underWay, Pair.begin, List.countP_append, hfresh]

/-- Only the turn of a call changes the offers under way. -/
theorem step_underWay (hl : p.Locked) (hstep : p.step input = some p') :
    (∀ u, p'.underWay u = p.underWay u ∧
        ((p'.at_ u).signaling = .haveLocalOffer ↔ (p.at_ u).signaling = .haveLocalOffer)) ∨
      ∃ i ready side phase t, input = .call i ready ∧ p.calls[i]? = some ⟨side, phase⟩ ∧
        (p.at_ side).Carries side phase t ∧ p' = p.apply i side t := by
  cases input with
  | sendOffer side =>
    cases hstep
    exact .inl fun u => ⟨underWay_begin fun _ => rfl, Iff.rfl⟩
  | reconcile side =>
    cases hstep
    refine .inl fun u => ⟨underWay_begin fun u => ?_, Iff.rfl⟩
    split
    · rfl
    · rfl
  | flag side =>
    cases hstep
    refine .inl fun u => ⟨?_, ?_⟩
    · cases side with
      | lower | higher => rfl
    · rw [at_setEnd]
      split
      · next hu => rw [hu]
      · rfl
  | call i ready =>
    obtain ⟨side, phase, t, hcall, hturn, rfl⟩ := step_call hstep
    exact .inr ⟨i, ready, side, phase, t, rfl, hcall,
      hturn.carries fun hcritical => (hl.holds side i phase hcall hcritical).2, rfl⟩

/-- Each step keeps one offer under way for a side. -/
theorem Single.step (h : p.Single) (hl : p.Locked) (hstep : p.step input = some p') : p'.Single := by
  rcases step_underWay hl hstep with hsame | ⟨i, ready, side, phase, t, rfl, hcall, hcarries, rfl⟩
  · intro u
    rw [(hsame u).1, (hsame u).2]
    exact h u
  · intro u
    have hcount := underWay_apply hcall t u
    have hload := load_le hcall u
    obtain ⟨hone, hpending⟩ := h u
    rw [at_apply]
    cases hcarries with
    | on hsignaling hkept =>
      rw [hkept u] at hcount
      refine ⟨by omega, fun hsome => ?_⟩
      split
      · next hu =>
        subst hu
        exact hsignaling.mpr (hpending (by omega))
      · exact hpending (by omega)
    | offers hno hyes hmore =>
      rw [hmore u] at hcount
      split
      · next hu =>
        subst hu
        have hnone : p.underWay u = 0 := by
          by_contra hsome
          exact hno (hpending (by omega))
        rw [if_pos rfl] at hcount
        exact ⟨by omega, fun _ => hyes⟩
      · next hu =>
        rw [if_neg hu] at hcount
        exact ⟨by omega, fun hsome => hpending (by omega)⟩
    | settles hno hless =>
      rw [← hless u] at hcount hload
      split
      · next hu =>
        rw [if_pos hu] at hcount hload
        exact ⟨by omega, fun hsome => by omega⟩
      · next hu =>
        rw [if_neg hu] at hcount
        exact ⟨by omega, fun hsome => hpending (by omega)⟩
    | drops hend _ hless =>
      rw [← hless u] at hcount
      have hsignaling : (if u = side then t.end_ else p.at_ u) = p.at_ u := by
        split
        · next hu => rw [hend, hu]
        · rfl
      rw [hsignaling]
      exact ⟨by omega, fun hsome => hpending (by omega)⟩

/-- A step that drops no offer keeps the pair lively. -/
theorem Lively.step (h : p.Lively) (hs : p.Single) (hl : p.Locked) (hkeeps : ¬ p.Drops input)
    (hstep : p.step input = some p') : p'.Lively := by
  rcases step_underWay hl hstep with hsame | ⟨i, ready, side, phase, t, rfl, hcall, hcarries, rfl⟩
  · intro u hu
    rw [(hsame u).1]
    exact h u ((hsame u).2.mp hu)
  · intro u hu
    have hcount := underWay_apply hcall t u
    rw [at_apply] at hu
    cases hcarries with
    | on hsignaling hkept =>
      rw [hkept u] at hcount
      split at hu
      · next hside =>
        subst hside
        have := h u (hsignaling.mp hu)
        omega
      · have := h u hu
        omega
    | offers hno hyes hmore =>
      rw [hmore u] at hcount
      split at hu
      · next hside =>
        subst hside
        have hnone : p.underWay u = 0 := by
          by_contra hsome
          exact hno ((hs u).2 (by omega))
        rw [if_pos rfl] at hcount
        omega
      · next hside =>
        have := h u hu
        rw [if_neg hside] at hcount
        omega
    | settles hno hless =>
      split at hu
      · exact absurd hu hno
      · next hside =>
        have hkept := hless u
        rw [if_neg hside] at hkept
        have := h u hu
        omega
    | drops hend hdrop _ =>
      refine absurd ?_ hkeeps
      rcases hdrop with ⟨rfl, hside, hlocal⟩ | ⟨rfl, hfree, hunstable⟩
      · exact ⟨side, .inl ⟨hcall, hside, hlocal⟩⟩
      · exact ⟨side, .inr ⟨hcall, hfree, hunstable⟩⟩

/-- An offer that was dropped stays pending. -/
theorem Stuck.step (h : p.Stuck u) (hl : p.Locked) (hstep : p.step input = some p') : p'.Stuck u := by
  obtain ⟨hlocal, hnone⟩ := h
  rcases step_underWay hl hstep with hsame | ⟨i, ready, side, phase, t, rfl, hcall, hcarries, rfl⟩
  · exact ⟨(hsame u).2.mpr hlocal, (hsame u).1.trans hnone⟩
  · have hcount := underWay_apply hcall t u
    have hload := load_le hcall u
    rw [Stuck, at_apply]
    cases hcarries with
    | on hsignaling hkept =>
      rw [hkept u] at hcount
      refine ⟨?_, by omega⟩
      split
      · next hu =>
        subst hu
        exact hsignaling.mpr hlocal
      · exact hlocal
    | offers hno _ hmore =>
      have hne : u ≠ side := by
        rintro rfl
        exact hno hlocal
      rw [hmore u, if_neg hne] at hcount
      rw [if_neg hne]
      exact ⟨hlocal, by omega⟩
    | settles _ hless =>
      have hkept := hless u
      have hne : u ≠ side := by
        rintro rfl
        rw [if_pos rfl] at hkept
        omega
      rw [if_neg hne] at hkept ⊢
      exact ⟨hlocal, by omega⟩
    | drops hend _ hless =>
      have hkept := hless u
      refine ⟨?_, by omega⟩
      split
      · next hu =>
        subst hu
        rw [hend]
        exact hlocal
      · exact hlocal

theorem stuck_of_drops (hs : p.Single) (hdrops : p.Drops input)
    (hstep : p.step input = some p') : ∃ u, p'.Stuck u := by
  cases input with
  | call j ready' =>
    obtain ⟨s, hdrop⟩ := hdrops
    obtain ⟨side, phase, t, hcall, hturn, rfl⟩ := step_call hstep
    have hgone : side = s ∧ t.end_ = p.at_ s ∧ t.load s s.other = 0 ∧
        (⟨s, phase⟩ : Call).load s.other = 1 := by
      rcases hdrop with ⟨hs', hside, hlocal⟩ | ⟨hs', hfree, hunstable⟩
      · cases hcall.symm.trans hs'
        cases hturn with
        | ignores _ _ => exact ⟨rfl, rfl, by simp [End.Turn.load, End.load_eq, Call.offerOf],
            by simp [End.load_eq, Call.offerOf]⟩
        | accepts hclear => exact absurd ⟨hside, hlocal⟩ hclear
      · cases hcall.symm.trans hs'
        cases hturn with
        | rejects _ _ => exact ⟨rfl, rfl, by simp [End.Turn.load, End.load_eq, Call.offerOf],
            by simp [End.load_eq, Call.offerOf]⟩
        | applies _ hstable => exact absurd hstable hunstable
    obtain ⟨rfl, hend, hafter, hbefore⟩ := hgone
    have hcount := underWay_apply hcall t side.other
    have hload := load_le hcall side.other
    have hne : side.other ≠ side := by
      cases side with
      | lower | higher => nofun
    refine ⟨side.other, ?_, ?_⟩
    · rw [at_apply, if_neg hne]
      exact (hs side.other).2 (by omega)
    · have := (hs side.other).1
      omega
  | sendOffer side | reconcile side | flag side => cases hdrops

/-! ## What renegotiation comes to -/

/-- What holds after every run: the offers that were dropped are pending for
good, and as long as none was dropped no offer is. -/
structure Invariant (moves : List (Move Pair Input)) (p : Pair) : Prop where
  locked : p.Locked
  single : p.Single
  lively : (∀ m ∈ moves, ¬ m.before.Drops m.input) → p.Lively
  stuck : (∃ m ∈ moves, m.before.Drops m.input) → ∃ u, p.Stuck u

theorem Invariant.new : Invariant [] .new where
  locked := .new
  single := by
    intro u
    cases u with
    | lower | higher => exact ⟨Nat.zero_le _, nofun⟩
  lively := by
    intro _ u hu
    cases u with
    | lower | higher => cases hu
  stuck := by simp

theorem Invariant.step {past : List (Move Pair Input)} (h : Invariant past p)
    (hstep : p.step input = some p') : Invariant (⟨p, input⟩ :: past) p' where
  locked := h.locked.step hstep
  single := h.single.step h.locked hstep
  lively := by
    intro hnone
    obtain ⟨hkeeps, hpast⟩ := List.forall_mem_cons.mp hnone
    exact (h.lively hpast).step h.single h.locked hkeeps hstep
  stuck := by
    rintro ⟨m, hm, hdrops⟩
    rcases List.mem_cons.mp hm with rfl | hm
    · exact stuck_of_drops h.single hdrops hstep
    · obtain ⟨u, hu⟩ := h.stuck ⟨m, hm, hdrops⟩
      exact ⟨u, hu.step h.locked hstep⟩

/-- The invariant holds after every run of the pair. -/
theorem invariant_of_run {moves : List (Move Pair Input)} (run : Run Pair.step .new moves p) :
    Invariant moves p := by
  refine run.keeps (P := Invariant) .new ?_
  intro past p input p' h hstep
  exact h.step hstep

theorem Quiescent.underWay (h : p.Quiescent) (u : Side) : p.underWay u = 0 := by
  refine List.countP_eq_zero.mpr fun c hc => ?_
  have hreturned := h c hc
  obtain ⟨side, phase⟩ := c
  cases hreturned
  nofun

theorem Quiescent.free (h : p.Quiescent) (hl : p.Locked) (u : Side) : (p.at_ u).negotiating = none := by
  cases hheld : (p.at_ u).negotiating with
  | none => rfl
  | some i =>
    obtain ⟨phase, hcall, hcritical⟩ := hl.held u i hheld
    cases h _ (List.mem_of_getElem? hcall)
    cases hcritical

/-- When everything has returned both connections are stable exactly if no offer
was given up on the way. -/
theorem settles_iff {moves : List (Move Pair Input)} (run : Run Pair.step .new moves p)
    (hquiet : p.Quiescent) :
    (∀ side, (p.at_ side).signaling = .stable) ↔ ∀ m ∈ moves, ¬ m.before.Drops m.input := by
  have hinv := invariant_of_run run
  constructor
  · intro hstable m hm hdrops
    obtain ⟨u, hlocal, _⟩ := hinv.stuck ⟨m, hm, hdrops⟩
    cases (hstable u).symm.trans hlocal
  · intro hkept side
    have hrests := hinv.locked.rests side (hquiet.free hinv.locked side)
    cases hsignaling : (p.at_ side).signaling with
    | stable => rfl
    | haveRemoteOffer => exact absurd hsignaling hrests.noRemote
    | haveLocalOffer =>
      have hone := hinv.lively hkept side hsignaling
      rw [hquiet.underWay side] at hone
      cases hone

end Pair

/-! ## Runs -/

section Runs

/-- Both sides renegotiate. The lower side's offer waits until it has answered the higher side's, and
then arrives there before that answer has been set. -/
def inTurn : List Input :=
  [Input.sendOffer .higher, .sendOffer .lower] ++ List.replicate 5 (Input.call 0 true) ++
    List.replicate 7 (Input.call 2 true) ++ List.replicate 5 (Input.call 1 true) ++ [Input.call 4 true] ++
    List.replicate 2 (Input.call 3 true) ++ List.replicate 6 (Input.call 4 true) ++
    List.replicate 2 (Input.call 5 true)

/-- Both sides have set an offer before either has arrived. -/
def bothOffer : List Input :=
  [Input.sendOffer .lower, .sendOffer .higher] ++ List.replicate 5 (Input.call 0 true) ++
    List.replicate 5 (Input.call 1 true) ++ List.replicate 2 (Input.call 2 true) ++ [Input.call 3 true]

def after (inputs : List Input) : List (Move Pair Input) × Pair := play Pair.step .new inputs.reverse

theorem inTurn_settles :
    (after inTurn).1.length = 30 ∧ (after inTurn).2.Quiescent ∧
      ∀ side, ((after inTurn).2.at_ side).signaling = .stable := by
  refine ⟨by decide, by decide, (Pair.settles_iff (run_play Pair.step .new inTurn.reverse) ?_).mpr ?_⟩
  · exact (by decide : (after inTurn).2.Quiescent)
  · exact (by decide : ∀ m ∈ (after inTurn).1, ¬ m.before.Drops m.input)

/-- The lower side ignores the offer it gets and the higher side does not apply
the one it gets: both offers stay pending. -/
theorem bothOffer_stuck :
    ∃ moves p, Run Pair.step .new moves p ∧ p.Quiescent ∧
      (p.at_ .lower).signaling = .haveLocalOffer ∧ (p.at_ .higher).signaling = .haveLocalOffer :=
  ⟨_, (after bothOffer).2, run_play _ _ _, by decide, by decide, by decide⟩

/-- Whatever crosses, one call at a time negotiates on a side, and at most one of its offers is under
way, while it is pending. A side whose lock is free is not between an offer and its answer. -/
theorem negotiations_exclusive {moves : List (Move Pair Input)} {p : Pair}
    (run : Run Pair.step .new moves p) (side : Side) :
    (∀ (i j : Nat) (phase phase' : Phase), p.calls[i]? = some ⟨side, phase⟩ →
      p.calls[j]? = some ⟨side, phase'⟩ →
      phase.critical = true → phase'.critical = true → i = j) ∧
    p.underWay side ≤ 1 ∧ (1 ≤ p.underWay side → (p.at_ side).signaling = .haveLocalOffer) ∧
    ((p.at_ side).negotiating = none → (p.at_ side).Rests) := by
  have hinv := Pair.invariant_of_run run
  refine ⟨fun i j phase phase' hi hj hcritical hcritical' => ?_, (hinv.single side).1,
    (hinv.single side).2, hinv.locked.rests side⟩
  have hfirst := (hinv.locked.holds side i phase hi hcritical).1
  have hsecond := (hinv.locked.holds side j phase' hj hcritical').1
  exact Option.some.inj (hfirst.symm.trans hsecond)

theorem bothOffer_exclusive : (after bothOffer).2.underWay .lower ≤ 1 ∧
    ((after bothOffer).2.at_ .lower).signaling ≠ .haveRemoteOffer := by
  obtain ⟨-, hone, -, hfree⟩ := negotiations_exclusive (run_play _ _ bothOffer.reverse) .lower
  exact ⟨hone, (hfree (by decide)).noRemote⟩

end Runs

end Mistlib.Transport.Glare
