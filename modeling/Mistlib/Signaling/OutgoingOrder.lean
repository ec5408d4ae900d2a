import Mistlib.Signaling.Publishing

/-!
# The order of outgoing numbers

`send_order` lets one publish at a time take a number and put its frames on the queues, so
numbers that come out of one counter leave in order. The counters are kept by receiver, and
`reset_session` puts its identity in and clears the counters without the lock. A publish that
falls between numbers the frames of the new identity from counters that are then cleared.

Where nothing like that reaches a queue (`InOrder`), every queue has the frames of an identity
for a receiver in ascending order.
-/

namespace Mistlib.Signaling.Publishing

open Reactive

/-! ## What a publish has before it -/

/-- The relays that the frame may still be put on the queue of. -/
def Phase.Reaches : Phase → Relay → Prop
  | .enqueueing p, relay => relay ∈ p.todo ++ p.backpressured
  | .permitted next p, relay => relay = next ∨ relay ∈ p.todo ++ p.backpressured
  | .waiting _ backpressured, relay => relay ∈ backpressured
  | _, _ => True

/-- The relays passed and those to come are different channels, all of them open once. -/
structure Progress.Sound (opened : Nat) (p : Progress) : Prop where
  distinct : (p.alive ++ p.todo).Nodup
  kept : p.backpressured ⊆ p.alive
  below : ∀ relay ∈ p.alive ++ p.todo, relay < opened

def Phase.Sound (opened : Nat) : Phase → Prop
  | .enqueueing p => p.Sound opened
  | .permitted next p => Progress.Sound opened { p with todo := next :: p.todo }
  | .waiting alive _ => alive.Nodup ∧ ∀ relay ∈ alive, relay < opened
  | _ => True

/-- What a turn may make of a frame that has some relays before it: it takes one
of them, goes on with others, and leaves distinct senders. -/
structure Turn.Fits (turn : Turn) (opened : Nat) (Reaches : Relay → Prop) : Prop where
  enqueued : ∀ relay, turn.enqueued = some relay → Reaches relay
  sound : ∀ phase, turn.next = some phase → phase.Sound opened
  next : ∀ phase, turn.next = some phase → ∀ relay, phase.Reaches relay →
    Reaches relay ∧ turn.enqueued ≠ some relay
  senders : ∀ left, turn.senders = some left → left.Nodup ∧ ∀ relay ∈ left, relay < opened

section Turns

variable {opened : Nat} {Reaches : Relay → Prop} {p : Progress} {enqueued : Option Relay}
  {reserved current : Bool} {senders : List Relay} {answer : Answer} {phase : Phase} {turn : Turn}

theorem Turn.fits_ends (h : ∀ relay, enqueued = some relay → Reaches relay) :
    Turn.Fits { next := none, enqueued } opened Reaches where
  enqueued := h
  sound := by rintro _ ⟨⟩
  next := by rintro _ ⟨⟩
  senders := by rintro _ ⟨⟩

theorem Turn.fits_next (hsound : phase.Sound opened)
    (hnext : ∀ relay, phase.Reaches relay → Reaches relay) :
    Turn.Fits { next := some phase } opened Reaches where
  enqueued := by rintro _ ⟨⟩
  sound := by rintro _ ⟨⟩; exact hsound
  next := by
    rintro _ ⟨⟩ relay hrelay
    exact ⟨hnext relay hrelay, by rintro ⟨⟩⟩
  senders := by rintro _ ⟨⟩

theorem Progress.turn_fits (hsound : p.Sound opened)
    (hrest : ∀ relay ∈ p.todo ++ p.backpressured, Reaches relay ∧ enqueued ≠ some relay)
    (henqueued : ∀ relay, enqueued = some relay → Reaches relay) :
    (p.turn reserved enqueued).Fits opened Reaches := by
  have halive : p.alive.Nodup := (List.nodup_append.mp hsound.distinct).1
  have hbelow : ∀ relay ∈ p.alive, relay < opened := fun relay hrelay =>
    hsound.below relay (List.mem_append_left _ hrelay)
  unfold Progress.turn
  split
  · refine ⟨henqueued, ?_, ?_, by rintro _ ⟨⟩⟩
    · rintro _ ⟨⟩
      exact hsound
    · rintro _ ⟨⟩
      exact hrest
  · split
    · refine ⟨henqueued, ?_, ?_, by rintro _ ⟨⟩⟩
      · rintro _ ⟨⟩
        exact ⟨halive, hbelow⟩
      · rintro _ ⟨⟩ relay hrelay
        exact hrest relay (List.mem_append_right _ hrelay)
    · refine ⟨henqueued, by rintro _ ⟨⟩, by rintro _ ⟨⟩, ?_⟩
      rintro _ ⟨⟩
      exact ⟨halive, hbelow⟩

variable {relay : Relay} {todo alive backpressured : List Relay} {delivered : Nat}

section

variable (h : Progress.Sound opened ⟨relay :: todo, alive, backpressured, delivered⟩)
include h

theorem Progress.Sound.pass (delivered' : Nat) :
    Progress.Sound opened ⟨todo, alive ++ [relay], backpressured, delivered'⟩ ∧
      relay ∉ todo ++ backpressured := by
  obtain ⟨hdistinct, hkept, hbelow⟩ := h
  dsimp only at hdistinct hkept hbelow
  have hsame : alive ++ [relay] ++ todo = alive ++ relay :: todo := by
    rw [List.append_assoc, List.singleton_append]
  refine ⟨⟨by rw [hsame]; exact hdistinct, fun r hr => List.mem_append_left _ (hkept hr),
    by rw [hsame]; exact hbelow⟩, ?_⟩
  obtain ⟨_, hrest, happart⟩ := List.nodup_append.mp hdistinct
  intro hmem
  rcases List.mem_append.mp hmem with hmem | hmem
  · exact (List.nodup_cons.mp hrest).1 hmem
  · exact happart relay (hkept hmem) relay List.mem_cons_self rfl

theorem Progress.Sound.skip : Progress.Sound opened ⟨todo, alive, backpressured, delivered⟩ := by
  obtain ⟨hdistinct, hkept, hbelow⟩ := h
  have hsub : (alive ++ todo).Sublist (alive ++ relay :: todo) :=
    (List.Sublist.refl alive).append (List.sublist_cons_self relay todo)
  exact ⟨hdistinct.sublist hsub, hkept, fun r hr => hbelow r (hsub.subset hr)⟩

theorem Progress.Sound.defer :
    Progress.Sound opened ⟨todo, alive ++ [relay], backpressured ++ [relay], delivered⟩ := by
  obtain ⟨⟨hdistinct, hkept, hbelow⟩, _⟩ := h.pass delivered
  refine ⟨hdistinct, fun r hr => ?_, hbelow⟩
  rcases List.mem_append.mp hr with hr | hr
  · exact hkept hr
  · exact List.mem_append_right _ hr

end

/-- A turn takes one of the relays before the frame, and leaves the others. -/
theorem Phase.turn_fits (hsound : phase.Sound opened) (hdistinct : senders.Nodup)
    (hbelow : ∀ relay ∈ senders, relay < opened)
    (h : phase.turn reserved current senders answer = some turn) :
    turn.Fits opened phase.Reaches := by
  have hgone : ∀ relay, (none : Option Relay) = some relay → phase.Reaches relay := by
    rintro _ ⟨⟩
  cases phase with
  | dating =>
    cases h
    split
    · exact Turn.fits_next (by split <;> trivial) fun _ _ => trivial
    · exact Turn.fits_ends hgone
  | reconfirming =>
    cases h
    split
    · exact Turn.fits_next trivial fun _ _ => trivial
    · exact Turn.fits_ends hgone
  | entering =>
    cases h
    split
    · exact Turn.fits_ends hgone
    · exact Turn.fits_next ⟨hdistinct, List.nil_subset _, hbelow⟩ fun _ _ => trivial
  | enqueueing p =>
    obtain ⟨_ | ⟨relay, todo⟩, alive, backpressured, delivered⟩ := p
    · cases h
    have hrest : ∀ r ∈ todo ++ backpressured, r ∈ relay :: todo ++ backpressured :=
      fun r hr => List.mem_cons_of_mem _ hr
    obtain ⟨hpassed, hapart⟩ := hsound.pass (delivered + 1)
    cases hanswer : answer.reserve with
    | closed =>
      simp only [Phase.turn, hanswer] at h
      cases h
      exact Progress.turn_fits hsound.skip (fun r hr => ⟨hrest r hr, by rintro ⟨⟩⟩) hgone
    | timedOut =>
      simp only [Phase.turn, hanswer] at h
      cases h
      refine Progress.turn_fits hsound.defer (fun r hr => ⟨?_, by rintro ⟨⟩⟩) hgone
      rcases List.mem_append.mp hr with hr | hr
      · exact hrest r (List.mem_append_left _ hr)
      · rcases List.mem_append.mp hr with hr | hr
        · exact hrest r (List.mem_append_right _ hr)
        · obtain rfl := List.mem_singleton.mp hr
          exact List.mem_cons_self
    | givenUp =>
      simp only [Phase.turn, hanswer] at h
      split at h
      · cases h
        exact Turn.fits_ends hgone
      · cases h
    | ready =>
      simp only [Phase.turn, hanswer] at h
      split at h
      · cases h
        refine Turn.fits_next hsound fun r hr => ?_
        rcases hr with rfl | hr
        · exact List.mem_cons_self
        · exact hrest r hr
      · cases h
        refine Progress.turn_fits hpassed (fun r hr => ⟨hrest r hr, ?_⟩) ?_
        · rintro ⟨⟩
          exact hapart hr
        · rintro _ ⟨⟩
          exact List.mem_cons_self
  | permitted relay p =>
    obtain ⟨hpassed, hapart⟩ := Progress.Sound.pass hsound (p.delivered + 1)
    simp only [Phase.turn] at h
    split at h
    · cases h
      refine Progress.turn_fits hpassed (fun r hr => ⟨.inr hr, ?_⟩) ?_
      · rintro ⟨⟩
        exact hapart hr
      · rintro _ ⟨⟩
        exact .inl rfl
    · cases h
      exact Turn.fits_ends hgone
  | waiting alive backpressured =>
    obtain _ | ⟨relay, backpressured⟩ := backpressured
    · cases h
    have hleft : ∀ left, some alive = some left →
        left.Nodup ∧ ∀ relay ∈ left, relay < opened := by
      rintro _ ⟨⟩
      exact hsound
    cases hanswer : answer.reserve with
    | closed =>
      simp only [Phase.turn, hanswer] at h
      cases h
      split
      · exact ⟨hgone, by rintro _ ⟨⟩, by rintro _ ⟨⟩, hleft⟩
      · exact Turn.fits_next hsound fun r hr => List.mem_cons_of_mem _ hr
    | timedOut | givenUp => simp [Phase.turn, hanswer] at h
    | ready =>
      simp only [Phase.turn, hanswer] at h
      cases h
      refine ⟨?_, by rintro _ ⟨⟩, by rintro _ ⟨⟩, hleft⟩
      rintro _ ⟨⟩
      exact List.mem_cons_self

@[simp] theorem Progress.turn_enqueued : (p.turn reserved enqueued).enqueued = enqueued := by
  unfold Progress.turn
  split
  · rfl
  · split <;> rfl

theorem Phase.sends_eq (h : phase.turn reserved current senders answer = some turn) :
    phase.sends reserved current answer = turn.enqueued.isSome := by
  cases phase with
  | dating | reconfirming | entering =>
    cases h
    rfl
  | enqueueing p =>
    obtain ⟨_ | ⟨relay, todo⟩, alive, backpressured, delivered⟩ := p
    · cases h
    cases hanswer : answer.reserve <;> simp only [Phase.turn, hanswer] at h
    · cases h
      simp [Phase.sends, hanswer]
    · cases h
      simp [Phase.sends, hanswer]
    · split at h
      · cases h
        simp [Phase.sends, hanswer]
      · cases h
    · cases hreserved : reserved <;> rw [hreserved] at h <;> obtain rfl := Option.some.inj h <;>
        simp [Phase.sends, hanswer]
  | permitted relay p =>
    simp only [Phase.turn] at h
    by_cases hgo : current = true ∧ answer.wanted = true
    · rw [if_pos hgo] at h
      cases h
      simp [Phase.sends, hgo]
    · rw [if_neg hgo] at h
      cases h
      simpa [Phase.sends] using hgo
  | waiting alive backpressured =>
    obtain _ | ⟨relay, backpressured⟩ := backpressured
    · cases h
    cases hanswer : answer.reserve <;> simp only [Phase.turn, hanswer] at h
    · cases h
      split <;> simp [Phase.sends, hanswer]
    · cases h
    · cases h
    · cases h
      simp [Phase.sends, hanswer]

end Turns

/-! ## What holds of every run -/

/-- From its turn to its end, a publish holds `send_order`. -/
def Stage.locked : Stage → Bool
  | .ordering | .returned => false
  | _ => true

def Stage.ticket : Stage → Option Ticket
  | .identifying ticket | .signed ticket _ _ => some ticket
  | _ => none

def Stage.Reaches : Stage → Relay → Prop
  | .signed _ _ phase => phase.Reaches
  | _ => fun _ => True

def Stage.Sound (opened : Nat) : Stage → Prop
  | .signed _ _ phase => phase.Sound opened
  | _ => True

def Turn.stage (turn : Turn) (ticket : Ticket) (identity : Identity) : Stage :=
  match turn.next with
  | some phase => .signed ticket identity phase
  | none => .returned

theorem Progress.Sound.mono {opened opened' : Nat} {p : Progress} (h : p.Sound opened)
    (hle : opened ≤ opened') : p.Sound opened' :=
  ⟨h.distinct, h.kept, fun relay hrelay => (h.below relay hrelay).trans_le hle⟩

theorem Stage.Sound.mono {opened opened' : Nat} {stage : Stage} (h : stage.Sound opened)
    (hle : opened ≤ opened') : stage.Sound opened' := by
  cases stage with
  | signed ticket identity phase =>
    cases phase with
    | enqueueing p | permitted relay p => exact Progress.Sound.mono h hle
    | waiting alive backpressured => exact ⟨h.1, fun relay hrelay => (h.2 relay hrelay).trans_le hle⟩
    | _ => trivial
  | _ => trivial

theorem Stage.locked_of_ticket {stage : Stage} {ticket : Ticket} (h : stage.ticket = some ticket) :
    stage.locked = true := by
  cases stage with
  | ordering | confirming | numbering | returned => cases h
  | _ => rfl

theorem Turn.Fits.stage_sound {turn : Turn} {opened : Nat} {Reaches : Relay → Prop}
    (h : turn.Fits opened Reaches) (ticket : Ticket) (identity : Identity) :
    (turn.stage ticket identity).Sound opened := by
  unfold Turn.stage
  cases hnext : turn.next with
  | some phase => exact h.sound phase hnext
  | none => trivial

namespace NostrSignaler

variable {s s' : NostrSignaler} {i : Nat} {c : Call}

/-- The lock has one holder, the senders are different channels, and the numbers are `u64`s. -/
structure Books (s : NostrSignaler) : Prop where
  locked : ∀ i c, s.calls[i]? = some c → c.stage.locked = true → s.sendOrder = some i
  distinct : s.senders.Nodup
  below : ∀ relay ∈ s.senders, relay < s.opened
  sound : ∀ c ∈ s.calls, c.stage.Sound s.opened
  bounded : ∀ receiver, s.counter receiver ≤ U64_MAX

theorem take_eq (s : NostrSignaler) (i : Nat) (c : Call) (ticket : Ticket) (identity : Identity)
    (turn : Turn) :
    ∃ sendOrder sendersHolder, s.take i c ticket identity turn =
      { s with
        log := s.log ++ turn.enqueued.toList.map fun relay =>
          (relay, (⟨identity, c.receiver, ticket.sequence⟩ : Frame))
        senders := turn.senders.getD s.senders
        sendOrder
        sendersHolder
        calls := s.calls.set i { c with stage := turn.stage ticket identity } } ∧
      (∀ j, j ≠ i → s.sendOrder = some j → sendOrder = some j) ∧
      ((turn.stage ticket identity).locked = true → sendOrder = s.sendOrder) := by
  unfold take Turn.stage
  cases turn.next with
  | some phase => exact ⟨_, _, rfl, fun j _ h => h, fun _ => rfl⟩
  | none =>
    refine ⟨_, _, rfl, fun j hj h => ?_, by rintro ⟨⟩⟩
    have hother : s.sendOrder ≠ some i := fun hi => hj (Option.some.inj (h.symm.trans hi))
    exact (if_neg hother).trans h

/-- What a publish can do when it goes on. -/
inductive Goes (s : NostrSignaler) (i : Nat) (c : Call) (answer : Answer) : NostrSignaler → Prop
  | orders {stage : Stage} (hfree : s.sendOrder = none)
      (hstage : stage = .confirming ∨ stage = .numbering) :
      Goes s i c answer ({ s with sendOrder := some i }.put i c stage)
  | passes {stage : Stage} (hlocked : stage.locked = true → c.stage.locked = true)
      (hsound : stage.Sound s.opened)
      (hticket : ∀ ticket, stage.ticket = some ticket →
        c.stage.ticket = some ticket ∧ ∀ relay, c.stage.Reaches relay) :
      Goes s i c answer (s.put i c stage)
  | ends : Goes s i c answer (s.finish i c)
  | numbers (hstage : c.stage = .numbering) :
      Goes s i c answer
        ({ s with
          outgoingSequences := (nextOutgoingSequence s.outgoingSequences c.receiver).2 }.put i c
          (.identifying ⟨(nextOutgoingSequence s.outgoingSequences c.receiver).1, s.identity,
            s.clearing, s.counter c.receiver = U64_MAX⟩))
  | takes {ticket : Ticket} {identity : Identity} {phase : Phase} {turn : Turn}
      (hstage : c.stage = .signed ticket identity phase)
      (hturn : phase.turn c.reserved (decide (s.sessionEpoch = c.expectedEpoch)) s.senders answer =
        some turn) :
      Goes s i c answer (s.take i c ticket identity turn)

variable {answer : Answer}

theorem goOn_goes (h : s.goOn i c answer = some s') : Goes s i c answer s' := by
  have hnone : ∀ stage : Stage, stage.ticket = none → ∀ ticket, stage.ticket = some ticket →
      c.stage.ticket = some ticket ∧ ∀ relay, c.stage.Reaches relay := by
    intro stage hstage ticket hticket
    rw [hstage] at hticket
    cases hticket
  cases hc : c.stage with
  | ordering =>
    simp only [goOn, hc] at h
    split at h
    · next hfree =>
      split at h
      · cases h
        refine .orders hfree ?_
        split
        · exact .inl rfl
        · exact .inr rfl
      · cases h
        exact .passes (by rintro ⟨⟩) trivial (hnone _ rfl)
    · cases h
  | confirming =>
    simp only [goOn, hc] at h
    cases h
    split
    · exact .passes (fun _ => by rw [hc]; rfl) trivial (hnone _ rfl)
    · exact .ends
  | numbering =>
    simp only [goOn, hc] at h
    cases h
    exact .numbers hc
  | identifying ticket =>
    simp only [goOn, hc] at h
    cases h
    refine .passes (fun _ => by rw [hc]; rfl) trivial ?_
    rintro _ ⟨⟩
    rw [hc]
    exact ⟨rfl, fun _ => trivial⟩
  | signed ticket identity phase =>
    simp only [goOn, hc] at h
    split at h
    · cases h
    · obtain ⟨turn, hturn, rfl⟩ := Option.map_eq_some_iff.mp h
      exact .takes hc hturn
  | returned =>
    simp only [goOn, hc] at h
    cases h

/-- A turn of a call keeps the books of the queue. -/
theorem Books.turn (h : s.Books) (hc : s.calls[i]? = some c) {stage : Stage}
    (hcalls : s'.calls = s.calls.set i { c with stage }) (hopened : s'.opened = s.opened)
    (hself : stage.locked = true → s'.sendOrder = some i)
    (hother : ∀ j, j ≠ i → s.sendOrder = some j → s'.sendOrder = some j)
    (hsenders : s'.senders.Nodup ∧ ∀ relay ∈ s'.senders, relay < s.opened)
    (hsound : stage.Sound s.opened) (hbounded : ∀ receiver, s'.counter receiver ≤ U64_MAX) :
    s'.Books where
  locked := by
    intro j d hd hlocked
    rw [hcalls, Calls.get_set hc] at hd
    split at hd
    · next hj =>
      cases hd
      exact hj ▸ hself hlocked
    · next hj => exact hother j hj (h.locked j d hd hlocked)
  distinct := hsenders.1
  below := hopened ▸ hsenders.2
  sound := by
    rw [hcalls, hopened]
    exact Calls.forall_set h.sound hsound
  bounded := hbounded

theorem Books.finish (h : s.Books) (hc : s.calls[i]? = some c) : (s.finish i c).Books := by
  refine h.turn hc rfl rfl (by rintro ⟨⟩) (fun j hj hlock => ?_) ⟨h.distinct, h.below⟩ trivial
    h.bounded
  have hother : s.sendOrder ≠ some i := fun hi => hj (Option.some.inj (hlock.symm.trans hi))
  exact (if_neg hother).trans hlock

theorem counter_next (outgoingSequences : Table String Nat) (receiver receiver' : String) :
    ((nextOutgoingSequence outgoingSequences receiver).2.get receiver').getD 0 =
      if receiver' = receiver then (nextOutgoingSequence outgoingSequences receiver).1
      else (outgoingSequences.get receiver').getD 0 := by
  unfold nextOutgoingSequence
  rw [Table.get_insert]
  split <;> rfl

theorem next_le (outgoingSequences : Table String Nat) (receiver : String) :
    (nextOutgoingSequence outgoingSequences receiver).1 ≤ U64_MAX := by
  simp only [nextOutgoingSequence, saturatingAdd, U64_MAX]
  omega

theorem Books.goes (h : s.Books) (hc : s.calls[i]? = some c) (hgoes : Goes s i c answer s') :
    s'.Books := by
  have hin : c.stage.locked = true → s.sendOrder = some i := h.locked i c hc
  have hsenders := And.intro h.distinct h.below
  cases hgoes with
  | orders hfree hstage =>
    refine h.turn hc rfl rfl (fun _ => rfl) (fun j _ hj => ?_) hsenders ?_ h.bounded
    · rw [hfree] at hj
      cases hj
    · rcases hstage with rfl | rfl <;> trivial
  | passes hlocked hsound _ =>
    exact h.turn hc rfl rfl (fun hl => hin (hlocked hl)) (fun _ _ hj => hj) hsenders hsound h.bounded
  | ends => exact h.finish hc
  | numbers hstage =>
    refine h.turn hc rfl rfl (fun _ => hin (by rw [hstage]; rfl)) (fun _ _ hj => hj) hsenders trivial
      fun receiver => ?_
    refine (counter_next s.outgoingSequences c.receiver receiver).trans_le ?_
    split
    · exact next_le _ _
    · exact h.bounded receiver
  | @takes ticket identity phase turn hstage hturn =>
    have hphase : phase.Sound s.opened := by
      have hsound := Calls.of_get h.sound hc
      rw [hstage] at hsound
      exact hsound
    have hfits := Phase.turn_fits hphase h.distinct h.below hturn
    obtain ⟨sendOrder, sendersHolder, heq, hother, hself⟩ := take_eq s i c ticket identity turn
    rw [heq]
    refine h.turn hc rfl rfl (fun hl => ?_) hother ?_ (hfits.stage_sound ticket identity) h.bounded
    · exact (hself hl).trans (hin (by rw [hstage]; rfl))
    · cases hleft : turn.senders with
      | none => exact hsenders
      | some left => exact hfits.senders left hleft

theorem Books.begin (h : s.Books) (hunlocked : c.stage.locked = false)
    (hsound : c.stage.Sound s.opened) : Books { s with calls := s.calls ++ [c] } where
  locked := by
    intro j d hd hlocked
    rw [Calls.get_begin] at hd
    split at hd
    · cases hd
      rw [hunlocked] at hlocked
      cases hlocked
    · exact h.locked j d hd hlocked
  distinct := h.distinct
  below := h.below
  sound := Calls.forall_begin h.sound hsound
  bounded := h.bounded

theorem Books.connections {kept : List Relay} {opens : Bool} (h : s.Books) :
    Books { s with
      senders := s.senders.filter (· ∈ kept) ++ if opens then [s.opened] else []
      opened := if opens then s.opened + 1 else s.opened } where
  locked := h.locked
  distinct := by
    refine List.nodup_append.mpr ⟨h.distinct.filter _, by split <;> simp, ?_⟩
    intro relay hrelay new hnew
    have hbelow := h.below relay (List.mem_of_mem_filter hrelay)
    split at hnew
    · obtain rfl := List.mem_singleton.mp hnew
      exact hbelow.ne
    · cases hnew
  below := by
    intro relay hrelay
    rcases List.mem_append.mp hrelay with hrelay | hrelay
    · have hbelow := h.below relay (List.mem_of_mem_filter hrelay)
      split
      · exact hbelow.trans (Nat.lt_succ_self _)
      · exact hbelow
    · split at hrelay
      · next hopens =>
        obtain rfl := List.mem_singleton.mp hrelay
        simp [hopens]
      · cases hrelay
  sound := by
    intro d hd
    refine (h.sound d hd).mono ?_
    show s.opened ≤ if opens then s.opened + 1 else s.opened
    split <;> omega
  bounded := h.bounded

/-- Each step keeps the books of the queue. -/
theorem Books.step {input : Input} (h : s.Books) (hstep : step s input = some s') : s'.Books := by
  cases input with
  | publish receiver localOnly =>
    cases hstep
    exact h.begin (by cases localOnly <;> rfl) (by cases localOnly <;> trivial)
  | publishReserved receiver expectedEpoch =>
    cases hstep
    exact h.begin rfl trivial
  | goOn i answer =>
    obtain ⟨c, hc, hgo⟩ := Option.bind_eq_some_iff.mp hstep
    exact h.goes hc (goOn_goes hgo)
  | drop i =>
    obtain ⟨c, hc, rfl⟩ := Option.map_eq_some_iff.mp hstep
    exact h.finish hc
  | reset =>
    cases hstep
    exact { h with }
  | advance r =>
    obtain ⟨stage, hr, hadvance⟩ := Option.bind_eq_some_iff.mp hstep
    cases stage with
    | entering | rotating =>
      cases hadvance
      exact { h with }
    | clearing =>
      cases hadvance
      exact ⟨h.locked, h.distinct, h.below, h.sound, fun receiver => by simp [counter]⟩
    | returned => cases hadvance
  | dropReset r =>
    obtain ⟨stage, hr, rfl⟩ := Option.map_eq_some_iff.mp hstep
    exact { h with }
  | connections kept opens =>
    simp only [Publishing.NostrSignaler.step] at hstep
    split at hstep
    · cases hstep
      exact h.connections
    · cases hstep

/-! ## What holds where the order is kept -/

/-- What a publish with a number may count on: while its identity is in place, its
number is not above the counter, and the queues it has yet to come to have lower
numbers only. -/
structure Given (s : NostrSignaler) (receiver : String) (ticket : Ticket)
    (Reaches : Relay → Prop) : Prop where
  known : ticket.identity ≤ s.identity
  taken : ticket.clearing = false → ticket.identity = s.identity →
    s.clearing = false ∧ ticket.sequence ≤ s.counter receiver
  above : ticket.clearing = false → ticket.exhausted = false → ∀ e ∈ s.log, Reaches e.1 →
    e.2.identity = ticket.identity → e.2.receiver = receiver → e.2.sequence < ticket.sequence

structure Numbered (s : NostrSignaler) : Prop where
  known : ∀ e ∈ s.log, e.2.identity ≤ s.identity
  counted : ∀ e ∈ s.log, e.2.identity = s.identity →
    s.clearing = false ∧ e.2.sequence ≤ s.counter e.2.receiver
  given : ∀ c ∈ s.calls, ∀ ticket, c.stage.ticket = some ticket →
    s.Given c.receiver ticket c.stage.Reaches
  ordered : s.Ascending

/-- Nothing is put on a queue, and while an identity stays in place the counters
only go up and no reset comes between putting it in and clearing them. -/
structure Quiet (s s' : NostrSignaler) : Prop where
  log : s'.log = s.log
  identity : s.identity ≤ s'.identity
  same : s'.identity = s.identity → s.clearing = false →
    s'.clearing = false ∧ ∀ receiver, s.counter receiver ≤ s'.counter receiver

variable {ticket : Ticket}

theorem Given.keep {receiver : String} {Reaches Reaches' : Relay → Prop}
    (h : s.Given receiver ticket Reaches) (hquiet : Quiet s s')
    (hreaches : ∀ relay, Reaches' relay → Reaches relay) : s'.Given receiver ticket Reaches' where
  known := h.known.trans hquiet.identity
  taken := by
    intro hclearing hidentity
    have hsame : s'.identity = s.identity :=
      le_antisymm (hidentity ▸ h.known) hquiet.identity
    obtain ⟨hclear, hle⟩ := h.taken hclearing (hidentity.trans hsame)
    obtain ⟨hclear', hcounters⟩ := hquiet.same hsame hclear
    exact ⟨hclear', hle.trans (hcounters receiver)⟩
  above := by
    intro hclearing hexhausted e he hrelay
    rw [hquiet.log] at he
    exact h.above hclearing hexhausted e he (hreaches _ hrelay)

section

variable (h : s.Numbered)
include h

theorem Numbered.keep (hquiet : Quiet s s')
    (hcalls : ∀ c' ∈ s'.calls, ∀ ticket, c'.stage.ticket = some ticket →
      s'.Given c'.receiver ticket c'.stage.Reaches ∨ ∃ c ∈ s.calls, c.stage.ticket = some ticket ∧
      c'.receiver = c.receiver ∧ ∀ relay, c'.stage.Reaches relay → c.stage.Reaches relay) :
    s'.Numbered where
  known := fun e he => (h.known e (hquiet.log ▸ he)).trans hquiet.identity
  counted := by
    intro e he hidentity
    rw [hquiet.log] at he
    have hsame : s'.identity = s.identity :=
      le_antisymm (hidentity ▸ h.known e he) hquiet.identity
    obtain ⟨hclear, hle⟩ := h.counted e he (hidentity.trans hsame)
    obtain ⟨hclear', hcounters⟩ := hquiet.same hsame hclear
    exact ⟨hclear', hle.trans (hcounters _)⟩
  given := by
    intro c' hc' ticket hticket
    rcases hcalls c' hc' ticket hticket with hgiven | ⟨c, hc, hsame, hreceiver, hreaches⟩
    · exact hgiven
    · rw [hreceiver]
      exact (h.given c hc ticket hsame).keep hquiet hreaches
  ordered := by
    unfold Ascending
    rw [hquiet.log]
    exact h.ordered

theorem Numbered.quiet (hquiet : Quiet s s') (hcalls : s'.calls = s.calls) : s'.Numbered :=
  h.keep hquiet fun c hc _ hticket =>
    .inr ⟨c, hcalls ▸ hc, hticket, rfl, fun _ hrelay => hrelay⟩

theorem Numbered.turn (hquiet : Quiet s s') (hc : s.calls[i]? = some c) {stage : Stage}
    (hcalls : s'.calls = s.calls.set i { c with stage })
    (hstage : ∀ ticket, stage.ticket = some ticket → s'.Given c.receiver ticket stage.Reaches ∨
      (c.stage.ticket = some ticket ∧ ∀ relay, stage.Reaches relay → c.stage.Reaches relay)) :
    s'.Numbered := by
  refine h.keep hquiet ?_
  rw [hcalls]
  intro c' hc' ticket hticket
  rcases List.mem_or_eq_of_mem_set hc' with hc' | rfl
  · exact .inr ⟨c', hc', hticket, rfl, fun _ hrelay => hrelay⟩
  · refine (hstage ticket hticket).imp_right ?_
    rintro ⟨hsame, hreaches⟩
    exact ⟨c, List.mem_of_getElem? hc, hsame, rfl, hreaches⟩

section

variable (hbooks : s.Books) (hc : s.calls[i]? = some c)
include hbooks hc

theorem Numbered.numbers : Numbered ({ s with
      outgoingSequences := (nextOutgoingSequence s.outgoingSequences c.receiver).2 }.put i c
      (.identifying ⟨(nextOutgoingSequence s.outgoingSequences c.receiver).1, s.identity,
        s.clearing, s.counter c.receiver = U64_MAX⟩)) := by
  have hnext : (nextOutgoingSequence s.outgoingSequences c.receiver).1 =
      max (min (s.counter c.receiver + 1) U64_MAX) 1 := rfl
  have hbounded := hbooks.bounded c.receiver
  refine h.turn ⟨rfl, le_rfl, fun _ hclear => ⟨hclear, fun receiver => ?_⟩⟩ hc rfl ?_
  · refine le_of_le_of_eq ?_ (counter_next s.outgoingSequences c.receiver receiver).symm
    split
    · next hsame =>
      rw [hsame, hnext]
      omega
    · exact le_rfl
  · rintro _ ⟨⟩
    refine .inl ⟨le_rfl, fun hclear _ => ⟨hclear, ?_⟩, ?_⟩
    · refine le_of_eq_of_le ?_ (counter_next s.outgoingSequences c.receiver c.receiver).ge
      rw [if_pos rfl]
    · intro hclear hexhausted e he _ hidentity hreceiver
      obtain ⟨_, hle⟩ := h.counted e he hidentity
      have hroom : s.counter c.receiver ≠ U64_MAX := of_decide_eq_false hexhausted
      rw [hreceiver] at hle
      show e.2.sequence < (nextOutgoingSequence s.outgoingSequences c.receiver).1
      rw [hnext]
      omega

theorem Numbered.enqueues {phase : Phase} {turn : Turn} {relay : Relay}
    (hstage : c.stage = .signed ticket ticket.identity phase)
    (hfits : turn.Fits s.opened phase.Reaches) (henqueued : turn.enqueued = some relay)
    (hclearing : ticket.clearing = false) (hexhausted : ticket.exhausted = false) :
    (s.take i c ticket ticket.identity turn).Numbered := by
  have hticket : c.stage.ticket = some ticket := by rw [hstage]; rfl
  have hgiven := h.given c (List.mem_of_getElem? hc) ticket hticket
  have hreaches : c.stage.Reaches = phase.Reaches := by rw [hstage]; rfl
  have hholds := hbooks.locked i c hc (Stage.locked_of_ticket hticket)
  rw [hreaches] at hgiven
  obtain ⟨sendOrder, sendersHolder, heq, _, _⟩ := take_eq s i c ticket ticket.identity turn
  have hlog : ∀ e ∈ (s.take i c ticket ticket.identity turn).log,
      e ∈ s.log ∨ e = (relay, ⟨ticket.identity, c.receiver, ticket.sequence⟩) := by
    intro e he
    rw [heq, henqueued] at he
    exact (List.mem_append.mp he).imp_right List.mem_singleton.mp
  have hsame : (s.take i c ticket ticket.identity turn).identity = s.identity := by rw [heq]
  have hclear : (s.take i c ticket ticket.identity turn).clearing = s.clearing := by rw [heq]; rfl
  have hcounter : (s.take i c ticket ticket.identity turn).counter = s.counter := by rw [heq]; rfl
  refine ⟨?_, ?_, ?_, ?_⟩
  · intro e he
    rw [hsame]
    rcases hlog e he with hold | rfl
    · exact h.known e hold
    · exact hgiven.known
  · intro e he
    rw [hsame, hclear, hcounter]
    rcases hlog e he with hold | rfl
    · exact h.counted e hold
    · exact hgiven.taken hclearing
  · intro c' hc' ticket' hticket'
    obtain ⟨j, hj⟩ := List.mem_iff_getElem?.mp hc'
    rw [heq, Calls.get_set hc] at hj
    split at hj
    · cases hj
      cases hnext : turn.next with
      | none => simp [Turn.stage, hnext, Stage.ticket] at hticket'
      | some next =>
        simp only [Turn.stage, hnext, Stage.ticket, Option.some.injEq] at hticket'
        subst hticket'
        refine ⟨hsame ▸ hgiven.known, ?_, ?_⟩
        · rw [hsame, hclear, hcounter]
          exact hgiven.taken
        · intro hc₁ hc₂ e he hrelay hidentity hreceiver
          simp only [Turn.stage, hnext, Stage.Reaches] at hrelay
          obtain ⟨hbefore, hother⟩ := hfits.next next hnext e.1 hrelay
          rcases hlog e he with hold | rfl
          · exact hgiven.above hc₁ hc₂ e hold hbefore hidentity hreceiver
          · exact absurd henqueued hother
    · -- Another call with a number would hold the lock as well.
      next hother =>
      have hholds' := hbooks.locked j c' hj (Stage.locked_of_ticket hticket')
      exact absurd (Option.some.inj (hholds'.symm.trans hholds)) hother
  · unfold Ascending
    rw [heq, henqueued]
    refine List.pairwise_append.mpr ⟨h.ordered, List.pairwise_singleton _ _, ?_⟩
    rintro e he _ hnew hrelay hidentity hreceiver
    obtain rfl := List.mem_singleton.mp hnew
    exact hgiven.above hclearing hexhausted e he (hrelay ▸ hfits.enqueued relay henqueued) hidentity
      hreceiver

theorem Numbered.takes {identity : Identity} {phase : Phase} {turn : Turn}
    (hstage : c.stage = .signed ticket identity phase)
    (hturn : phase.turn c.reserved (decide (s.sessionEpoch = c.expectedEpoch)) s.senders answer = some turn)
    (hok : s.InOrder (.goOn i answer)) : (s.take i c ticket identity turn).Numbered := by
  have hphase : phase.Sound s.opened := by
    have hsound := Calls.of_get hbooks.sound hc
    rw [hstage] at hsound
    exact hsound
  have hfits := Phase.turn_fits hphase hbooks.distinct hbooks.below hturn
  cases henqueued : turn.enqueued with
  | some relay =>
    have hcall := hok c hc
    rw [hstage] at hcall
    obtain ⟨rfl, hclearing, hexhausted⟩ := hcall (by rw [Phase.sends_eq hturn, henqueued]; rfl)
    exact h.enqueues hbooks hc hstage hfits henqueued hclearing hexhausted
  | none =>
    obtain ⟨sendOrder, sendersHolder, heq, _, _⟩ := take_eq s i c ticket identity turn
    rw [heq, henqueued]
    refine h.turn ⟨List.append_nil _, le_rfl, fun _ hclear => ⟨hclear, fun _ => le_rfl⟩⟩ hc rfl ?_
    intro ticket' hticket'
    cases hnext : turn.next with
    | none => simp [Turn.stage, hnext, Stage.ticket] at hticket'
    | some next =>
      simp only [Turn.stage, hnext] at hticket' ⊢
      rw [hstage]
      exact .inr ⟨hticket', fun relay hrelay => (hfits.next next hnext relay hrelay).1⟩

theorem Numbered.goes (hgoes : Goes s i c answer s') (hok : s.InOrder (.goOn i answer)) :
    s'.Numbered := by
  have hquiet : s.clearing = false →
      s.clearing = false ∧ ∀ receiver, s.counter receiver ≤ s.counter receiver :=
    fun hclear => ⟨hclear, fun _ => le_rfl⟩
  cases hgoes with
  | orders hfree hstage =>
    refine h.turn ⟨rfl, le_rfl, fun _ => hquiet⟩ hc rfl ?_
    rcases hstage with rfl | rfl <;> rintro _ ⟨⟩
  | passes _ _ hticket =>
    refine h.turn ⟨rfl, le_rfl, fun _ => hquiet⟩ hc rfl fun ticket hsome => .inr ?_
    obtain ⟨hsame, hall⟩ := hticket ticket hsome
    exact ⟨hsame, fun relay _ => hall relay⟩
  | ends => exact h.turn ⟨rfl, le_rfl, fun _ => hquiet⟩ hc rfl (by rintro _ ⟨⟩)
  | numbers _ => exact h.numbers hbooks hc
  | takes hstage hturn => exact h.takes hbooks hc hstage hturn hok

end

end

theorem clearing_set {r : Nat} {stage : ResetStage} (hstage : stage ≠ .clearing)
    (h : s.clearing = false) : decide (.clearing ∈ s.resets.set r stage) = false := by
  refine decide_eq_false fun hmem => ?_
  rcases List.mem_or_eq_of_mem_set hmem with hmem | heq
  · exact of_decide_eq_false h hmem
  · exact hstage heq.symm

/-- Each step in order keeps the numbers ascending. -/
theorem Numbered.step {input : Input} (h : s.Numbered) (hbooks : s.Books) (hok : s.InOrder input)
    (hstep : step s input = some s') : s'.Numbered := by
  have hbegin : ∀ c : Call, c.stage.ticket = none → Numbered { s with calls := s.calls ++ [c] } := by
    intro c hnone
    refine h.keep ⟨rfl, le_rfl, fun _ hclear => ⟨hclear, fun _ => le_rfl⟩⟩ ?_
    intro c' hc' ticket hticket
    rcases List.mem_append.mp hc' with hc' | hc'
    · exact .inr ⟨c', hc', hticket, rfl, fun _ hrelay => hrelay⟩
    · obtain rfl := List.mem_singleton.mp hc'
      rw [hnone] at hticket
      cases hticket
  cases input with
  | publish receiver localOnly =>
    cases hstep
    exact hbegin _ (by cases localOnly <;> rfl)
  | publishReserved receiver expectedEpoch =>
    cases hstep
    exact hbegin _ rfl
  | goOn i answer =>
    obtain ⟨c, hc, hgo⟩ := Option.bind_eq_some_iff.mp hstep
    exact h.goes hbooks hc (goOn_goes hgo) hok
  | drop i =>
    obtain ⟨c, hc, rfl⟩ := Option.map_eq_some_iff.mp hstep
    exact h.turn ⟨rfl, le_rfl, fun _ hclear => ⟨hclear, fun _ => le_rfl⟩⟩ hc rfl (by rintro _ ⟨⟩)
  | reset =>
    cases hstep
    refine h.quiet ⟨rfl, le_rfl, fun _ hclear => ⟨?_, fun _ => le_rfl⟩⟩ rfl
    have hnone := of_decide_eq_false hclear
    exact decide_eq_false (by simpa using hnone)
  | advance r =>
    obtain ⟨stage, hr, hadvance⟩ := Option.bind_eq_some_iff.mp hstep
    cases stage with
    | entering =>
      cases hadvance
      exact h.quiet ⟨rfl, le_rfl, fun _ hclear =>
        ⟨clearing_set (by decide) hclear, fun _ => le_rfl⟩⟩ rfl
    | rotating =>
      cases hadvance
      exact h.quiet ⟨rfl, Nat.le_succ _, fun hsame => absurd hsame (Nat.succ_ne_self _)⟩ rfl
    | clearing =>
      cases hadvance
      refine h.quiet ⟨rfl, le_rfl, fun _ hclear => ?_⟩ rfl
      exact absurd (List.mem_of_getElem? hr) (of_decide_eq_false hclear)
    | returned => cases hadvance
  | dropReset r =>
    obtain ⟨stage, hr, rfl⟩ := Option.map_eq_some_iff.mp hstep
    exact h.quiet ⟨rfl, le_rfl, fun _ hclear =>
      ⟨clearing_set (by decide) hclear, fun _ => le_rfl⟩⟩ rfl
  | connections kept opens =>
    simp only [Publishing.NostrSignaler.step] at hstep
    split at hstep
    · cases hstep
      exact h.quiet ⟨rfl, le_rfl, fun _ hclear => ⟨hclear, fun _ => le_rfl⟩⟩ rfl
    · cases hstep

theorem new_books : new.Books where
  locked := by intro i c hc; cases hc
  distinct := List.nodup_nil
  below := by rintro _ ⟨⟩
  sound := by rintro _ ⟨⟩
  bounded := fun receiver => by simp [counter, new]

theorem new_numbered : new.Numbered where
  known := by rintro _ ⟨⟩
  counted := by rintro _ ⟨⟩
  given := by rintro _ ⟨⟩
  ordered := List.Pairwise.nil

/-- Where no frame that reaches a queue has been numbered or signed around a reset,
every queue has the frames of an identity for a receiver in ascending order. -/
theorem ascending_inOrder {moves : List (Move NostrSignaler Input)}
    (run : Run step new moves s) (hok : ∀ m ∈ moves, m.before.InOrder m.input) : s.Ascending := by
  have hboth : s.Books ∧ s.Numbered := by
    refine run.keepsUnder (P := fun s => s.Books ∧ s.Numbered) (C := InOrder)
      ⟨new_books, new_numbered⟩ ?_ hok
    rintro s input s' ⟨hbooks, hnumbered⟩ hinOrder hstep
    exact ⟨hbooks.step hstep, hnumbered.step hbooks hinOrder hstep⟩
  exact hboth.2.ordered

/-- A publish, a reset, and two more publishes. -/
def calm : List Input :=
  let sent := fun call => List.replicate 6 (Input.goOn call ⟨true, true, .ready⟩)
  let reset := fun r => [Input.reset, .advance r, .advance r, .advance r]
  .connections [] true :: (.publish "bob" false :: sent 0) ++ reset 0 ++
    (.publish "bob" false :: sent 1) ++ (.publish "bob" false :: sent 2)

theorem ascending_inOrder_calm : ((play step new calm.reverse).2.log.map fun e => e.2.sequence) =
    [1, 1, 2] ∧ (play step new calm.reverse).2.Ascending :=
  ⟨by decide +kernel, ascending_inOrder (run_play step new calm.reverse) (by decide +kernel)⟩

/-- The second publish reads the epoch of the new session and takes its number before the
reset has put its identity in, and signs after it. -/
def mixed : List Input :=
  let sent := fun call count => List.replicate count (Input.goOn call ⟨true, true, .ready⟩)
  Input.connections [] true :: (.publish "bob" false :: sent 0 6) ++
    [Input.reset, .advance 0, .publish "bob" false] ++ sent 1 2 ++ Input.advance 0 :: sent 1 4 ++
    Input.advance 0 :: .publish "bob" false :: sent 2 6

theorem mixed_not_ascending : ¬ ∀ moves s, Run step new moves s → s.Ascending := fun h =>
  absurd (h _ _ (run_play step new mixed.reverse)) (by decide +kernel)

end NostrSignaler

end Mistlib.Signaling.Publishing
