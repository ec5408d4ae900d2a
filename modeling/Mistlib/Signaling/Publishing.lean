import Mistlib.Async.Calls
import Mistlib.Async.Reactive
import Mistlib.Data.Table
import Mistlib.Signaling.Event

/-!
# The numbers of outgoing messages

Any number of `publish_message_to_pubkey` and `publish_reserved_request` calls of the native
`NostrSignaler`, and any number of `reset_session` calls, in one room. What a call does between
two awaits is one step, and awaits with nothing of this model between them are one. A call may
be dropped where it stands.

A publish holds `send_order` from the first check of its session to its end, and `senders` while
it goes through the relays. A reset takes neither: it counts the session up, puts a new identity
in and clears the numbers, with awaits in between. How long a queue stays full is left to the
environment, and so is what the exchanges and the connected peers say of a request.
-/

namespace Mistlib.Signaling.Publishing

/-- The channel to the writer of one relay connection. -/
abbrev Relay := Nat

/-- A `TemporarySignalingIdentity`, by how many were in place before it. -/
abbrev Identity := Nat

/-- A message event as the receiver's window looks at it. -/
structure Frame where
  identity : Identity
  receiver : String
  sequence : Nat
deriving DecidableEq, Repr

/-- The number a publish has taken, and what stood when it did: the identity,
whether a reset had put its identity in and not yet cleared the numbers, and
whether the counter could not go up. The code keeps the number alone. -/
structure Ticket where
  sequence : Nat
  identity : Identity
  clearing : Bool
  exhausted : Bool
deriving DecidableEq, Repr

/-- Where `publish_frame_guarded` stands in its loop over the relays. -/
structure Progress where
  todo : List Relay
  alive : List Relay
  backpressured : List Relay
  delivered : Nat
deriving DecidableEq, Repr

/-- What a publish does with the event it has signed. -/
inductive Phase where
  /-- It reads `local_joined_at`, builds the event and checks the session again. -/
  | dating
  | reconfirming
  | entering
  | enqueueing (p : Progress)
  /-- A request has space on a relay, and waits for the exchanges. -/
  | permitted (relay : Relay) (p : Progress)
  /-- No relay has taken the frame; it waits for those that were full. -/
  | waiting (alive backpressured : List Relay)
deriving DecidableEq, Repr

inductive Stage where
  | ordering
  | confirming
  | numbering
  | identifying (ticket : Ticket)
  | signed (ticket : Ticket) (identity : Identity) (phase : Phase)
  | returned
deriving DecidableEq, Repr

/-- `publish_message_in_session`, with the arguments its steps read. -/
structure Call where
  receiver : String
  expectedEpoch : Nat
  reserved : Bool
  stage : Stage
deriving DecidableEq, Repr

/-- `reset_session`; what it does after it has cleared the numbers is left out. -/
inductive ResetStage where
  | entering
  | rotating
  | clearing
  | returned
deriving DecidableEq, Repr

structure NostrSignaler where
  sessionEpoch : Nat
  identity : Identity
  outgoingSequences : Table String Nat
  senders : List Relay
  /-- How many connections have been made. -/
  opened : Nat
  /-- What has been put on the queues, in order. -/
  log : List (Relay × Frame)
  /-- The calls that hold the two locks. -/
  sendOrder : Option Nat
  sendersHolder : Option Nat
  calls : List Call
  resets : List ResetStage
deriving DecidableEq

/-- What comes of waiting for space on a relay. -/
inductive Reserve where
  | closed
  | timedOut
  | givenUp
  | ready
deriving DecidableEq, Repr

/-- What a step finds: whether the request is still wanted (it is pending, and
the peers do not suffice for a proactive one), whether the event can be built,
and how waiting for space ends. -/
structure Answer where
  wanted : Bool
  built : Bool
  reserve : Reserve
deriving DecidableEq, Repr

inductive Input where
  /-- `publish_message_to_pubkey` reads the epoch, and waits for its turn. -/
  | publish (receiver : String) (localOnly : Bool)
  | publishReserved (receiver : String) (expectedEpoch : Nat)
  | goOn (call : Nat) (answer : Answer)
  | drop (call : Nat)
  | reset
  | advance (reset : Nat)
  | dropReset (reset : Nat)
  /-- Others drop closed senders, and a connection adds its own. -/
  | connections (kept : List Relay) (opens : Bool)
deriving DecidableEq, Repr

/-! ## Going through the relays -/

/-- What a step makes of a signed event: where it goes on, if it does, the
relay whose queue has got the frame, and the senders it leaves behind. -/
structure Turn where
  next : Option Phase
  enqueued : Option Relay := none
  senders : Option (List Relay) := none
deriving DecidableEq, Repr

/-- After a relay: the next one, or, if no relay has taken a frame that must
not be dropped, those that were full. -/
def Progress.turn (p : Progress) (reserved : Bool) (enqueued : Option Relay) : Turn :=
  if p.todo ≠ [] then { next := some (.enqueueing p), enqueued }
  else if p.delivered = 0 ∧ ¬ reserved ∧ p.backpressured ≠ [] then
    { next := some (.waiting p.alive p.backpressured), enqueued }
  else { next := none, enqueued, senders := some p.alive }

/-- The rest of `publish_message_in_session`, and `publish_frame_guarded`. -/
def Phase.turn (reserved current : Bool) (senders : List Relay) (answer : Answer) :
    Phase → Option Turn
  | .dating =>
    some { next :=
      if answer.built ∧ current then some (if reserved then .reconfirming else .entering)
      else none }
  | .reconfirming => some { next := if answer.wanted then some .entering else none }
  | .entering =>
    some { next := if senders = [] then none else some (.enqueueing ⟨senders, [], [], 0⟩) }
  | .enqueueing ⟨[], _, _, _⟩ => none
  | .enqueueing ⟨relay :: todo, alive, backpressured, delivered⟩ =>
    match answer.reserve with
    | .closed => some (Progress.turn ⟨todo, alive, backpressured, delivered⟩ reserved none)
    | .timedOut =>
      -- Its sender is kept for later.
      some (Progress.turn ⟨todo, alive ++ [relay], backpressured ++ [relay], delivered⟩ reserved
        none)
    | .givenUp => if reserved ∧ ¬ (current ∧ answer.wanted) then some { next := none } else none
    | .ready =>
      if reserved then
        some { next := some (.permitted relay ⟨todo, alive, backpressured, delivered⟩) }
      else
        some (Progress.turn ⟨todo, alive ++ [relay], backpressured, delivered + 1⟩ reserved
          (some relay))
  | .permitted relay p =>
    if current ∧ answer.wanted then
      some (Progress.turn { p with alive := p.alive ++ [relay], delivered := p.delivered + 1 }
        reserved (some relay))
    else some { next := none }
  | .waiting _ [] => none
  | .waiting alive (relay :: backpressured) =>
    match answer.reserve with
    | .closed =>
      some (if backpressured = [] then { next := none, senders := some alive }
        else { next := some (.waiting alive backpressured) })
    | .timedOut | .givenUp => none
    | .ready => some { next := none, enqueued := some relay, senders := some alive }

/-- Whether the step puts the frame on a queue. -/
def Phase.sends (reserved current : Bool) (answer : Answer) : Phase → Bool
  | .enqueueing ⟨_ :: _, _, _, _⟩ => answer.reserve = .ready && !reserved
  | .permitted _ _ => current && answer.wanted
  | .waiting _ (_ :: _) => answer.reserve = .ready
  | _ => false

/-- Whether a publish holds the lock of `senders`. -/
def Phase.holdsSenders : Phase → Bool
  | .enqueueing _ | .permitted _ _ | .waiting _ _ => true
  | _ => false

/-! ## Steps -/

def nextOutgoingSequence (outgoingSequences : Table String Nat) (receiverPubkey : String) :
    Nat × Table String Nat :=
  let sequence := max (saturatingAdd ((outgoingSequences.get receiverPubkey).getD 0) 1) 1
  (sequence, outgoingSequences.insert receiverPubkey sequence)

namespace NostrSignaler

def new : NostrSignaler where
  sessionEpoch := 0
  identity := 0
  outgoingSequences := ∅
  senders := []
  opened := 0
  log := []
  sendOrder := none
  sendersHolder := none
  calls := []
  resets := []

variable (s : NostrSignaler)

/-- Some reset has put its identity in and has yet to clear the numbers. -/
def clearing : Bool := decide (ResetStage.clearing ∈ s.resets)

def counter (receiver : String) : Nat := (s.outgoingSequences.get receiver).getD 0

def put (i : Nat) (c : Call) (stage : Stage) : NostrSignaler :=
  { s with calls := s.calls.set i { c with stage } }

/-- A call that ends gives up what it holds. -/
def finish (i : Nat) (c : Call) : NostrSignaler :=
  { s with
    sendOrder := if s.sendOrder = some i then none else s.sendOrder
    sendersHolder := if s.sendersHolder = some i then none else s.sendersHolder }.put i c .returned

/-- The signed event goes one turn further. -/
def take (i : Nat) (c : Call) (ticket : Ticket) (identity : Identity) (turn : Turn) :
    NostrSignaler :=
  let s := { s with
    log := s.log ++ turn.enqueued.toList.map fun relay =>
      (relay, (⟨identity, c.receiver, ticket.sequence⟩ : Frame))
    senders := turn.senders.getD s.senders }
  match turn.next with
  | some phase =>
    { s with sendersHolder := if phase.holdsSenders then some i else s.sendersHolder }.put i c
      (.signed ticket identity phase)
  | none => s.finish i c

def goOn (i : Nat) (c : Call) (answer : Answer) : Option NostrSignaler :=
  let current := decide (s.sessionEpoch = c.expectedEpoch)
  match c.stage with
  | .ordering =>
    if s.sendOrder = none then
      if current then
        some ({ s with sendOrder := some i }.put i c
          (if c.reserved then .confirming else .numbering))
      else some (s.put i c .returned)
    else none
  | .confirming => some (if answer.wanted then s.put i c .numbering else s.finish i c)
  | .numbering =>
    let (sequence, outgoingSequences) := nextOutgoingSequence s.outgoingSequences c.receiver
    some ({ s with outgoingSequences }.put i c
      (.identifying ⟨sequence, s.identity, s.clearing, s.counter c.receiver = U64_MAX⟩))
  | .identifying ticket => some (s.put i c (.signed ticket s.identity .dating))
  | .signed ticket identity phase =>
    if phase = .entering ∧ s.sendersHolder ≠ none then none
    else (phase.turn c.reserved current s.senders answer).map (s.take i c ticket identity)
  | .returned => none

def advance (r : Nat) : ResetStage → Option NostrSignaler
  | .entering =>
    some { s with
      sessionEpoch := (s.sessionEpoch + 1) % 2 ^ 64
      resets := s.resets.set r .rotating }
  | .rotating =>
    some { s with
      identity := s.identity + 1
      resets := s.resets.set r .clearing }
  | .clearing => some { s with outgoingSequences := ∅, resets := s.resets.set r .returned }
  | .returned => none

def step (s : NostrSignaler) : Input → Option NostrSignaler
  | .publish receiver localOnly =>
    some { s with
      calls := s.calls ++
        [⟨receiver, s.sessionEpoch, false, if localOnly then .returned else .ordering⟩] }
  | .publishReserved receiver expectedEpoch =>
    some { s with calls := s.calls ++ [⟨receiver, expectedEpoch, true, .ordering⟩] }
  | .goOn i answer => s.calls[i]?.bind fun c => s.goOn i c answer
  | .drop i => s.calls[i]?.map fun c => s.finish i c
  | .reset => some { s with resets := s.resets ++ [.entering] }
  | .advance r => s.resets[r]?.bind fun stage => s.advance r stage
  | .dropReset r => s.resets[r]?.map fun _ => { s with resets := s.resets.set r .returned }
  | .connections kept opens =>
    if s.sendersHolder = none then
      some { s with
        senders := s.senders.filter (· ∈ kept) ++ if opens then [s.opened] else []
        opened := if opens then s.opened + 1 else s.opened }
    else none

end NostrSignaler

/-! ## What is asked of the queues -/

/-- What a step puts on a queue is signed by the identity that was there when its
number was taken, no reset was then between putting its identity in and clearing the
numbers, and the counter could go up. -/
def Stage.InOrder (reserved current : Bool) (answer : Answer) : Stage → Prop
  | .signed ticket identity phase => phase.sends reserved current answer = true →
      ticket.identity = identity ∧ ticket.clearing = false ∧ ticket.exhausted = false
  | _ => True

instance (reserved current : Bool) (answer : Answer) :
    DecidablePred (Stage.InOrder reserved current answer)
  | .signed _ _ _ => inferInstanceAs (Decidable (_ → _))
  | .ordering | .confirming | .numbering | .identifying _ | .returned =>
    inferInstanceAs (Decidable True)

namespace NostrSignaler

variable (s : NostrSignaler)

/-- In every queue, the frames that one identity has signed for one receiver
carry strictly increasing numbers. -/
def Ascending : Prop :=
  s.log.Pairwise fun a b => a.1 = b.1 → a.2.identity = b.2.identity →
    a.2.receiver = b.2.receiver → a.2.sequence < b.2.sequence
deriving Decidable

def InOrder (s : NostrSignaler) : Input → Prop
  | .goOn i answer => ∀ c ∈ s.calls[i]?,
      c.stage.InOrder c.reserved (decide (s.sessionEpoch = c.expectedEpoch)) answer
  | _ => True

instance : DecidablePred s.InOrder
  | .goOn i _ => inferInstanceAs (Decidable (∀ c ∈ s.calls[i]?, _))
  | .publish _ _ | .publishReserved _ _ | .drop _ | .reset | .advance _ | .dropReset _
  | .connections _ _ => inferInstanceAs (Decidable True)

end NostrSignaler

end Mistlib.Signaling.Publishing
