import Mistlib.Storage.BlockReads
import Mistlib.Storage.WantRun

/-!
# Fetching from providers

`NetworkPeerResolver` asks the providers of a block one after the other until one of them
answers; the engine above it checks the answer against the content id. Which provider comes next
depends on the permits that are free and on what discovery finds; what a provider does with a
request is its own choice.

Left out are the timers and re-requests inside one attempt, of which only the outcome matters
here, and the sharing of one fetch by several callers.
-/

namespace Mistlib.Storage

open Async

inductive Behaviour where
  /-- It never answers, and the attempt runs into its cap. -/
  | silent
  /-- No WANT reaches it. -/
  | sendFails
  /-- It answers with these bytes. -/
  | answers (data : Bytes)
deriving DecidableEq, Repr

/-- What an attempt brings: the registry takes any answer that is not too
large, and drops the others. -/
def Behaviour.attempt : Behaviour → Option Bytes
  | .silent | .sendFails => none
  | .answers data => if data.length ≤ MAX_WANT_BLOCK_BYTES then some data else none

/-! ### The resolver -/

inductive DiscoveryFailure where
  | noReachablePeers
  | queryBudgetExhausted
  | transportTimeout
deriving DecidableEq, Repr

def DiscoveryFailure.message : DiscoveryFailure → String
  | .noReachablePeers => "No reachable peers on the queried discovery paths"
  | .queryBudgetExhausted => "No provider answered within the discovery query budget"
  | .transportTimeout => "Block discovery transport timeout (fixed cap exceeded)"

/-- A resolver and what it meets while it fetches one block. What changes on
the way is told by the providers tried so far. -/
structure NetworkPeerResolver where
  maxAttempts : Nat
  maxFetchesPerProvider : Nat
  nextPeer : Nat
  /-- The providers cached for the block when the fetch begins. -/
  known : List NodeId
  behaviour : NodeId → Behaviour
  /-- The permits a provider has free, with these tried and these left to try. -/
  availablePermits : List NodeId → List NodeId → NodeId → Nat
  /-- What a discovery ends with. -/
  discovery : List NodeId → Except DiscoveryFailure (List NodeId)
  /-- The providers cached once those left to try have been tried. -/
  getPeers : List NodeId → List NodeId

/-- How the inner loop of a fetch is left. -/
inductive Swept where
  | found (data : Bytes)
  /-- `max_attempts` providers have been tried. -/
  | spent
  /-- All providers at hand have been tried. -/
  | through
deriving DecidableEq, Repr

namespace NetworkPeerResolver

variable (n : NetworkPeerResolver)

/-- The index of the provider to try next: the first untried one with a free
permit, or else the first. -/
def nextIndex (peers tried : List NodeId) : Nat :=
  if n.maxFetchesPerProvider = 0 then 0
  else
    (peers.findIdx? fun peer =>
      decide (peer ∉ tried ∧ n.availablePermits tried peers peer > 0)).getD 0

/-- The inner loop of `resolve_uncoalesced`, with the providers tried when it
is left. Each pass takes one of `peers`. -/
def sweep : Nat → List NodeId → List NodeId → Swept × List NodeId
  | 0, _, tried => (.through, tried)
  | passes + 1, peers, tried =>
    match peers[n.nextIndex peers tried]? with
    | none => (.through, tried)
    | some peer =>
      let left := peers.eraseIdx (n.nextIndex peers tried)
      if tried.length ≥ n.maxAttempts then (.spent, tried)
      else if peer ∈ tried then sweep passes left tried
      else
        match (n.behaviour peer).attempt with
        | some data => (.found data, tried ++ [peer])
        | none => sweep passes left (tried ++ [peer])

/-- Providers that have not been tried. -/
def untried (peers tried : List NodeId) : List NodeId := peers.filter fun peer => peer ∉ tried

/-- What a fetch ends with, and the providers tried. -/
abbrev Fetched : Type := Except String (Option Bytes) × List NodeId

/-- What the outer loop of `resolve_uncoalesced` does once all providers at
hand have been tried; `again` is its next round. -/
def afterSweep (cid : Cid) (again : List NodeId → List NodeId → Option Fetched) (discovered : Bool)
    (tried : List NodeId) : Option Fetched :=
  if tried.length ≥ n.maxAttempts then some (.ok none, tried)
  else if discovered then
    if (untried (n.getPeers tried) tried).isEmpty then some (.ok none, tried)
    else again (untried (n.getPeers tried) tried) tried
  else
    match n.discovery tried with
    | .error reason => some (.error (reason.message ++ ": " ++ cid), tried)
    | .ok peers => again (untried peers tried) tried

/-- The outer loop of `resolve_uncoalesced`, if it ends within so many rounds. -/
def rounds (cid : Cid) : Nat → Bool → List NodeId → List NodeId → Option Fetched
  | 0, _, _, _ => none
  | fuel + 1, discovered, peers, tried =>
    if tried.length < n.maxAttempts then
      match n.sweep peers.length peers tried with
      | (.found data, tried) => some (.ok (some data), tried)
      | (.spent, tried) => some (.ok none, tried)
      | (.through, tried) => n.afterSweep cid (rounds cid fuel true) discovered tried
    else some (.ok none, tried)

/-- The most rounds a fetch takes: one over the providers known, one over
those discovered, and then each finds somebody new. -/
def maxRounds : Nat := n.maxAttempts + 3

/-- The loop ends within these rounds, so that there is always a result. -/
def resolveUncoalesced (cid : Cid) : Fetched :=
  (n.rounds cid n.maxRounds false (n.known.rotate (n.nextPeer % n.known.length)) []).getD (.ok none, [])

def resolve (cid : Cid) : Except MistError (Option Bytes) :=
  match (n.resolveUncoalesced cid).1 with
  | .ok data => .ok data
  | .error e => .error (.network e)

/-- The same resolver with nobody answering. -/
def silenced : NetworkPeerResolver := { n with behaviour := fun _ => .silent }

/-- The providers in the order in which they are tried as long as none answers. -/
def tries (cid : Cid) : List NodeId := (n.silenced.resolveUncoalesced cid).2

def attempt (peer : NodeId) : Option Bytes := (n.behaviour peer).attempt

variable {n}

/-! ### The loop ends -/

theorem sweep_tried (passes : Nat) (peers tried : List NodeId) (hle : tried.length ≤ n.maxAttempts) :
    tried.length ≤ (n.sweep passes peers tried).2.length ∧
      (n.sweep passes peers tried).2.length ≤ n.maxAttempts := by
  induction passes generalizing peers tried with
  | zero => exact ⟨le_rfl, hle⟩
  | succ passes ih =>
    unfold sweep
    split
    · exact ⟨le_rfl, hle⟩
    · next peer _ =>
      simp only
      split
      · exact ⟨le_rfl, hle⟩
      · next hroom =>
        have hone : (tried ++ [peer]).length ≤ n.maxAttempts := by
          simp only [List.length_append, List.length_singleton]
          omega
        split
        · exact ih _ _ hle
        · split
          · exact ⟨by simp, hone⟩
          · obtain ⟨hmore, hless⟩ := ih (peers.eraseIdx (n.nextIndex peers tried)) _ hone
            simp only [List.length_append, List.length_singleton] at hmore
            exact ⟨by omega, hless⟩

variable {peers : List NodeId}

theorem nextIndex_lt (hne : peers ≠ []) (tried : List NodeId) :
    n.nextIndex peers tried < peers.length := by
  have hpos := List.length_pos_iff.mpr hne
  unfold nextIndex
  split
  · exact hpos
  · cases hfound : peers.findIdx? fun peer =>
        decide (peer ∉ tried ∧ n.availablePermits tried peers peer > 0) with
    | none => exact hpos
    | some i => exact (List.findIdx?_eq_some_iff_getElem.mp hfound).1

variable {tried : List NodeId}

theorem sweep_grows (hroom : tried.length < n.maxAttempts) (hne : peers ≠ [])
    (hnew : ∀ peer ∈ peers, peer ∉ tried) :
    tried.length < (n.sweep peers.length peers tried).2.length := by
  obtain ⟨passes, hpasses⟩ := Nat.exists_eq_add_one_of_ne_zero (List.length_pos_iff.mpr hne).ne'
  have hlt := nextIndex_lt (n := n) hne tried
  rw [hpasses]
  unfold sweep
  rw [List.getElem?_eq_getElem hlt]
  simp only
  rw [if_neg (by omega), if_neg (hnew _ (List.getElem_mem hlt))]
  split
  · simp
  · have hone : (tried ++ [peers[n.nextIndex peers tried]]).length ≤ n.maxAttempts := by
      simp only [List.length_append, List.length_singleton]
      omega
    obtain ⟨hmore, _⟩ :=
      sweep_tried passes (peers.eraseIdx (n.nextIndex peers tried)) _ hone
    simp only [List.length_append, List.length_singleton] at hmore
    omega

theorem untried_new (peers tried : List NodeId) : ∀ peer ∈ untried peers tried, peer ∉ tried := by
  intro peer hpeer
  simpa using (List.mem_filter.mp hpeer).2

variable (cid : Cid) (passes : Nat)

/-- A round over providers that have not been tried tries one of them, so that there are no more
rounds than attempts left. -/
theorem rounds_of_new (fuel : Nat) (hne : peers ≠ []) (hnew : ∀ peer ∈ peers, peer ∉ tried)
    (hle : tried.length ≤ n.maxAttempts) (hfuel : n.maxAttempts - tried.length < fuel) :
    ∃ out, n.rounds cid fuel true peers tried = some out := by
  induction fuel generalizing peers tried with
  | zero => omega
  | succ fuel ih =>
    unfold rounds
    split
    · next hroom =>
      have hgrows := sweep_grows hroom hne hnew
      have hmost := (sweep_tried (n := n) peers.length peers tried hle).2
      rcases hswept : n.sweep peers.length peers tried with ⟨left, tried'⟩
      rw [hswept] at hgrows hmost
      simp only at hgrows hmost
      cases left with
      | found data | spent => exact ⟨_, rfl⟩
      | through =>
        simp only [afterSweep, if_true]
        split
        · exact ⟨_, rfl⟩
        · split
          · exact ⟨_, rfl⟩
          · next hmore => exact ih (by simpa using hmore) (untried_new _ _) hmost (by omega)
    · exact ⟨_, rfl⟩

/-- Two rounds more are enough: the first sweep may find nobody new, and so may the one over the
providers discovered. -/
theorem rounds_end (fuel : Nat) (discovered : Bool) (peers : List NodeId)
    (hle : tried.length ≤ n.maxAttempts)
    (hfuel : n.maxAttempts - tried.length + (if discovered then 1 else 2) < fuel) :
    ∃ out, n.rounds cid fuel discovered peers tried = some out := by
  induction fuel generalizing discovered peers tried with
  | zero => omega
  | succ fuel ih =>
    unfold rounds
    split
    · obtain ⟨hleast, hmost⟩ := sweep_tried (n := n) peers.length peers tried hle
      rcases hswept : n.sweep peers.length peers tried with ⟨left, tried'⟩
      rw [hswept] at hleast hmost
      simp only at hleast hmost
      cases left with
      | found data | spent => exact ⟨_, rfl⟩
      | through =>
        simp only [afterSweep]
        split
        · exact ⟨_, rfl⟩
        · cases discovered with
          | true =>
            simp only [if_true] at hfuel ⊢
            split
            · exact ⟨_, rfl⟩
            · next hmore =>
              exact rounds_of_new cid fuel (by simpa using hmore) (untried_new _ _) hmost (by omega)
          | false =>
            simp only [Bool.false_eq_true, if_false] at hfuel ⊢
            split
            · exact ⟨_, rfl⟩
            · exact ih true _ hmost (by simp only [if_true]; omega)
    · exact ⟨_, rfl⟩

theorem afterSweep_mono {cid : Cid} {again more : List NodeId → List NodeId → Option Fetched} {out : Fetched}
    {discovered : Bool} (hagain : ∀ peers tried, again peers tried = some out → more peers tried = some out)
    (h : n.afterSweep cid again discovered tried = some out) :
    n.afterSweep cid more discovered tried = some out := by
  unfold afterSweep at h ⊢
  split
  · next hspent => rwa [if_pos hspent] at h
  · next hroom =>
    rw [if_neg hroom] at h
    split
    · next hdiscovered =>
      rw [if_pos hdiscovered] at h
      split
      · next hnobody => rwa [if_pos hnobody] at h
      · next hmore =>
        rw [if_neg hmore] at h
        exact hagain _ _ h
    · next hfirst =>
      rw [if_neg hfirst] at h
      cases hreason : n.discovery tried with
      | error reason =>
        rw [hreason] at h
        exact h
      | ok peers =>
        rw [hreason] at h
        exact hagain _ _ h

/-- A loop that has ended is not changed by the rounds it is allowed besides. -/
theorem rounds_succ (fuel : Nat) {discovered : Bool} {out : Fetched}
    (h : n.rounds cid fuel discovered peers tried = some out) :
    n.rounds cid (fuel + 1) discovered peers tried = some out := by
  induction fuel generalizing discovered peers tried with
  | zero => cases h
  | succ fuel ih =>
    rw [rounds] at h ⊢
    split
    · next hroom =>
      rw [if_pos hroom] at h
      rcases hswept : n.sweep peers.length peers tried with ⟨left, tried'⟩
      rw [hswept] at h
      cases left with
      | found data | spent => exact h
      | through => exact afterSweep_mono (fun _ _ hagain => ih hagain) h
    · next hspent => rwa [if_neg hspent] at h

/-- The loop ends within its attempts, whatever turns remain. -/
theorem resolveUncoalesced_rounds (cid : Cid) (more : Nat) :
    n.rounds cid (n.maxAttempts + 3 + more) false (n.known.rotate (n.nextPeer % n.known.length)) [] =
      some (n.resolveUncoalesced cid) := by
  induction more with
  | zero =>
    obtain ⟨out, hout⟩ : ∃ out, n.rounds cid n.maxRounds false _ [] = some out :=
      rounds_end cid _ false (n.known.rotate (n.nextPeer % n.known.length)) (Nat.zero_le _)
        (by simp [maxRounds])
    rw [resolveUncoalesced, hout]
    exact hout
  | succ more ih => exact rounds_succ cid _ ih

/-! ### Who is tried, and what is found -/

theorem sweep_pass {peer : NodeId} (hpeer : peers[n.nextIndex peers tried]? = some peer) :
    n.sweep (passes + 1) peers tried =
      if tried.length ≥ n.maxAttempts then (.spent, tried)
      else if peer ∈ tried then n.sweep passes (peers.eraseIdx (n.nextIndex peers tried)) tried
      else
        match n.attempt peer with
        | some data => (.found data, tried ++ [peer])
        | none => n.sweep passes (peers.eraseIdx (n.nextIndex peers tried)) (tried ++ [peer]) := by
  rw [sweep, hpeer]
  rfl

theorem sweep_silencedPass {peer : NodeId} (hpeer : peers[n.nextIndex peers tried]? = some peer) :
    n.silenced.sweep (passes + 1) peers tried =
      if tried.length ≥ n.maxAttempts then (.spent, tried)
      else if peer ∈ tried then
        n.silenced.sweep passes (peers.eraseIdx (n.nextIndex peers tried)) tried
      else
        n.silenced.sweep passes (peers.eraseIdx (n.nextIndex peers tried)) (tried ++ [peer]) :=
  sweep_pass passes hpeer

theorem sweep_found (peers tried : List NodeId) :
    ∃ new, (n.silenced.sweep passes peers tried).2 = tried ++ new ∧
      (∀ data, (n.silenced.sweep passes peers tried).1 ≠ .found data) ∧
      (∀ data, new.findSome? n.attempt = some data → (n.sweep passes peers tried).1 = .found data) ∧
      (new.findSome? n.attempt = none →
        n.sweep passes peers tried = n.silenced.sweep passes peers tried) := by
  induction passes generalizing peers tried with
  | zero => exact ⟨[], by simp [sweep], by simp [sweep], by simp, fun _ => rfl⟩
  | succ passes ih =>
    cases hpeer : peers[n.nextIndex peers tried]? with
    | none =>
      have hout : n.sweep (passes + 1) peers tried = (.through, tried) := by rw [sweep, hpeer]
      have hsilent : n.silenced.sweep (passes + 1) peers tried = (.through, tried) := by
        rw [sweep, show n.silenced.nextIndex peers tried = n.nextIndex peers tried from rfl, hpeer]
      rw [hout, hsilent]
      exact ⟨[], by simp, by simp, by simp, fun _ => rfl⟩
    | some peer =>
      rw [sweep_pass passes hpeer, sweep_silencedPass passes hpeer]
      split
      · exact ⟨[], by simp, by simp, by simp, fun _ => rfl⟩
      · split
        · exact ih _ _
        · obtain ⟨new, htried, hnone, hfound, hsame⟩ :=
            ih (peers.eraseIdx (n.nextIndex peers tried)) (tried ++ [peer])
          refine ⟨peer :: new, by rw [htried]; simp, hnone, ?_, ?_⟩
          · intro data hdata
            rw [List.findSome?_cons] at hdata
            cases hattempt : n.attempt peer with
            | some answer =>
              rw [hattempt] at hdata
              cases hdata
              rfl
            | none =>
              rw [hattempt] at hdata
              exact hfound data hdata
          · intro hall
            rw [List.findSome?_cons] at hall
            cases hattempt : n.attempt peer with
            | some answer =>
              rw [hattempt] at hall
              cases hall
            | none =>
              rw [hattempt] at hall
              exact hsame hall

variable {cid : Cid} {fuel : Nat}

theorem rounds_succ_sweep {discovered : Bool} (hroom : tried.length < n.maxAttempts) :
    n.rounds cid (fuel + 1) discovered peers tried =
      match n.sweep peers.length peers tried with
      | (.found data, tried) => some (.ok (some data), tried)
      | (.spent, tried) => some (.ok none, tried)
      | (.through, tried) => n.afterSweep cid (n.rounds cid fuel true) discovered tried := by
  rw [rounds, if_pos hroom]

variable {data : Bytes}

theorem sweep_answered {passes : Nat} (h : (n.sweep passes peers tried).1 = .found data) :
    ∃ peer, n.attempt peer = some data := by
  induction passes generalizing peers tried with
  | zero => cases h
  | succ passes ih =>
    cases hpeer : peers[n.nextIndex peers tried]? with
    | none =>
      rw [sweep, hpeer] at h
      cases h
    | some peer =>
      rw [sweep_pass passes hpeer] at h
      split at h
      · cases h
      · split at h
        · exact ih h
        · split at h
          · next answer hattempt =>
            cases h
            exact ⟨peer, hattempt⟩
          · exact ih h

/-- `out` is what the first of `new` to answer answers, and `silent` if none does. -/
def FirstAnswers (n : NetworkPeerResolver) (new : List NodeId) (out : Option Fetched) (silent : Fetched) : Prop :=
  (∀ data, new.findSome? n.attempt = some data → ∃ tried, out = some (.ok (some data), tried)) ∧
    (new.findSome? n.attempt = none → out = some silent)

theorem FirstAnswers.nobody (silent : Fetched) : n.FirstAnswers [] (some silent) silent :=
  ⟨by simp, fun _ => rfl⟩

/-- The loop ends with the first answer of those it tries when nobody answers, after
those tried before. -/
def Finds (n : NetworkPeerResolver) (tried : List NodeId) (out : Option Fetched) (silent : Fetched) : Prop :=
  ∃ new, silent.2 = tried ++ new ∧ n.FirstAnswers new out silent

theorem Finds.nobody {answer : Except String (Option Bytes)} :
    n.Finds tried (some (answer, tried)) (answer, tried) :=
  ⟨[], by simp, .nobody _⟩

theorem afterSweep_found {silent : Fetched} {discovered : Bool}
    (hagain : ∀ peers, n.silenced.rounds cid fuel true peers tried = some silent →
      n.Finds tried (n.rounds cid fuel true peers tried) silent)
    (h : n.silenced.afterSweep cid (n.silenced.rounds cid fuel true) discovered tried = some silent) :
    n.Finds tried (n.afterSweep cid (n.rounds cid fuel true) discovered tried) silent := by
  -- silence changes neither what is allowed nor what is discovered
  change n.afterSweep cid (n.silenced.rounds cid fuel true) discovered tried = some silent at h
  unfold afterSweep at h ⊢
  split at h
  · next hspent =>
    cases h
    rw [if_pos hspent]
    exact .nobody
  · next hroom =>
    rw [if_neg hroom]
    split at h
    · next hdiscovered =>
      rw [if_pos hdiscovered]
      split at h
      · next hnobody =>
        cases h
        rw [if_pos hnobody]
        exact .nobody
      · next hmore =>
        rw [if_neg hmore]
        exact hagain _ h
    · next hfirst =>
      rw [if_neg hfirst]
      split at h
      · cases h
        exact .nobody
      · exact hagain _ h

theorem rounds_found {silent : Fetched} {discovered : Bool}
    (h : n.silenced.rounds cid fuel discovered peers tried = some silent) :
    n.Finds tried (n.rounds cid fuel discovered peers tried) silent := by
  induction fuel generalizing discovered peers tried silent with
  | zero => cases h
  | succ fuel ih =>
    by_cases hroom : tried.length < n.maxAttempts
    · obtain ⟨new, htried, hnone, hfound, hsame⟩ := sweep_found (n := n) peers.length peers tried
      rw [rounds_succ_sweep (n := n.silenced) hroom] at h
      rcases hswept : n.silenced.sweep peers.length peers tried with ⟨left, tried'⟩
      rw [hswept] at h htried hnone hsame
      obtain rfl : tried' = tried ++ new := htried
      obtain ⟨more, htried, hlater⟩ : ∃ more, silent.2 = tried ++ new ++ more ∧
          (new.findSome? n.attempt = none →
            n.FirstAnswers more (n.rounds cid (fuel + 1) discovered peers tried) silent) := by
        rw [rounds_succ_sweep hroom]
        cases left with
        | found data => exact absurd rfl (hnone data)
        | spent =>
          cases h
          refine ⟨[], by simp, fun hnew => ?_⟩
          rw [hsame hnew]
          exact .nobody _
        | through =>
          obtain ⟨more, htried, hanswers⟩ := afterSweep_found (fun _ => ih) h
          refine ⟨more, htried, fun hnew => ?_⟩
          rw [hsame hnew]
          exact hanswers
      refine ⟨new ++ more, by rw [htried, List.append_assoc], ?_⟩
      unfold FirstAnswers
      rw [List.findSome?_append]
      cases hnew : new.findSome? n.attempt with
      | none => exact hlater hnew
      | some answer =>
        refine ⟨fun data hdata => ?_, by simp⟩
        cases hdata
        rw [rounds_succ_sweep hroom]
        have hanswer := hfound _ hnew
        rcases hrest : n.sweep peers.length peers tried with ⟨left', tried'⟩
        rw [hrest] at hanswer
        cases hanswer
        exact ⟨tried', rfl⟩
    · rw [rounds, show n.silenced.maxAttempts = n.maxAttempts from rfl, if_neg hroom] at h
      cases h
      rw [rounds, if_neg hroom]
      exact .nobody

/-- What a fetch ends with is the first answer of those it tries. -/
theorem resolve_finds (cid : Cid) :
    n.FirstAnswers (n.tries cid) (some (n.resolveUncoalesced cid)) (n.silenced.resolveUncoalesced cid) := by
  obtain ⟨new, htried, hanswers⟩ := rounds_found (resolveUncoalesced_rounds (n := n.silenced) cid 0)
  have hnew : n.tries cid = new := htried
  have hrounds := resolveUncoalesced_rounds (n := n) cid 0
  rw [← hrounds, hnew]
  exact hanswers

theorem resolve_found (h : (n.tries cid).findSome? n.attempt = some data) :
    n.resolve cid = .ok (some data) := by
  obtain ⟨tried, hfound⟩ := (resolve_finds cid).1 data h
  unfold resolve
  rw [Option.some.inj hfound]

theorem rounds_answered {discovered : Bool} {tried' : List NodeId}
    (h : n.rounds cid fuel discovered peers tried = some (.ok (some data), tried')) :
    ∃ peer, n.attempt peer = some data := by
  induction fuel generalizing discovered peers tried with
  | zero => cases h
  | succ fuel ih =>
    unfold rounds at h
    split at h
    · rcases hswept : n.sweep peers.length peers tried with ⟨left, tried''⟩
      rw [hswept] at h
      cases left with
      | found data =>
        cases h
        exact sweep_answered (congrArg Prod.fst hswept)
      | spent => cases h
      | through =>
        simp only [afterSweep] at h
        split at h
        · cases h
        · split at h
          all_goals
            split at h
            · cases h
            · exact ih h
    · cases h

theorem resolve_unanswered (h : (n.tries cid).findSome? n.attempt = none) (data : Bytes) :
    n.resolve cid ≠ .ok (some data) := by
  intro hresolve
  have hsame := Option.some.inj ((resolve_finds cid).2 h)
  have hrounds := resolveUncoalesced_rounds (n := n.silenced) cid 0
  unfold resolve at hresolve
  rw [hsame] at hresolve
  rcases hout : n.silenced.resolveUncoalesced cid with ⟨answer, tried⟩
  rw [hout] at hresolve hrounds
  cases answer with
  | error e => cases hresolve
  | ok found =>
    cases hresolve
    obtain ⟨peer, hpeer⟩ := rounds_answered hrounds
    cases hpeer

end NetworkPeerResolver

/-! ### The engine over the resolver -/

namespace Engine

variable (setting : Setting) (n : NetworkPeerResolver)

/-- Backends for a block that the store does not hold: it comes from the resolver. -/
def fetchBackends : Possible engineSig :=
  workingBackends setting (fun _ held => held = none) (fun cid answer => answer = n.resolve cid)

/-- A fetch ends, and always with bytes that hash to the content id. -/
def Fetches (cid : Cid) (codec : Nat) : Prop :=
  (∃ r left, EngineEnds setting (fetchBackends setting n) 0 (resolveOrFetch setting cid codec) r
    left) ∧
  ∀ r left, EngineEnds setting (fetchBackends setting n) 0 (resolveOrFetch setting cid codec) r left →
    ∃ data, r = .ok data ∧ verifyCid setting.sha256 cid data codec = true

/-- A provider that answers with bytes that hash to the content id. -/
def Honest (cid : Cid) (codec : Nat) (peer : NodeId) : Prop :=
  ∃ data, n.behaviour peer = .answers data ∧ verifyCid setting.sha256 cid data codec = true

/-- The first provider whose answer is not too large for the registry is honest. -/
def HonestFirst (cid : Cid) (codec : Nat) : Prop :=
  ∃ before peer after data, n.tries cid = before ++ peer :: after ∧
    n.behaviour peer = .answers data ∧ data.length ≤ MAX_WANT_BLOCK_BYTES ∧
    verifyCid setting.sha256 cid data codec = true ∧
    ∀ earlier ∈ before, ∀ other, n.behaviour earlier = .answers other →
      other.length > MAX_WANT_BLOCK_BYTES

variable {setting n}

/-- A fetch is a read over a block store that has nothing. -/
theorem fetchBackends_eq : fetchBackends setting n = blockBackends setting ∅ n.resolve := by
  simp only [fetchBackends, blockBackends, Table.get_empty]

theorem ends_fetch {cid : Cid} {codec : Nat} {r : Except MistError Bytes}
    {left : Multiset (AnyJob engineSig)}
    (h : EngineEnds setting (fetchBackends setting n) 0 (resolveOrFetch setting cid codec) r left) :
    r = match n.resolve cid with
      | .error e => .error e
      | .ok none => .error (unavailable cid)
      | .ok (some data) =>
        if verifyCid setting.sha256 cid data codec then .ok data
        else .error (.internal "Hash mismatch") := by
  rw [fetchBackends_eq] at h
  have hread := ends_readAnswer h
  rw [readAnswer, Table.get_empty] at hread
  exact hread

theorem fetch_ends (cid : Cid) (codec : Nat) :
    ∃ r left, EngineEnds setting (fetchBackends setting n) 0 (resolveOrFetch setting cid codec) r
      left := by
  rw [fetchBackends_eq]
  exact ⟨_, readAnswer_ends ..⟩

theorem attempt_eq_some_iff {peer : NodeId} {data : Bytes} :
    n.attempt peer = some data ↔
      n.behaviour peer = .answers data ∧ data.length ≤ MAX_WANT_BLOCK_BYTES := by
  unfold NetworkPeerResolver.attempt Behaviour.attempt
  cases n.behaviour peer with
  | silent | sendFails => simp
  | answers other =>
    simp only [Option.ite_none_right_eq_some, Option.some.injEq, Behaviour.answers.injEq]
    constructor
    · rintro ⟨hle, rfl⟩
      exact ⟨rfl, hle⟩
    · rintro ⟨rfl, hle⟩
      exact ⟨hle, rfl⟩

theorem attempt_eq_none_iff {peer : NodeId} :
    n.attempt peer = none ↔
      ∀ data, n.behaviour peer = .answers data → data.length > MAX_WANT_BLOCK_BYTES := by
  rw [Option.eq_none_iff_forall_ne_some]
  refine forall_congr' fun data => ?_
  rw [Ne, attempt_eq_some_iff, not_and, Nat.not_le]

theorem honestFirst_iff {cid : Cid} {codec : Nat} :
    HonestFirst setting n cid codec ↔
      ∃ data, (n.tries cid).findSome? n.attempt = some data ∧
        verifyCid setting.sha256 cid data codec = true := by
  constructor
  · rintro ⟨before, peer, after, data, htries, hanswer, hle, hverify, hbefore⟩
    refine ⟨data, ?_, hverify⟩
    have hnone : before.findSome? n.attempt = none :=
      List.findSome?_eq_none_iff.mpr fun q hq => attempt_eq_none_iff.mpr (hbefore q hq)
    have hpeer : n.attempt peer = some data := attempt_eq_some_iff.mpr ⟨hanswer, hle⟩
    rw [htries, List.findSome?_append, hnone, List.findSome?_cons, hpeer]
    rfl
  · rintro ⟨data, hfound, hverify⟩
    obtain ⟨before, peer, after, htries, hpeer, hnone⟩ := List.findSome?_eq_some_iff.mp hfound
    obtain ⟨hanswer, hle⟩ := attempt_eq_some_iff.mp hpeer
    exact ⟨before, peer, after, data, htries, hanswer, hle, hverify,
      fun q hq => attempt_eq_none_iff.mp (hnone q hq)⟩

end Engine

open Engine in
/-- A fetch brings the block exactly when the first provider whose answer is taken is honest: the
engine asks nobody else when it does not hash to the content id. -/
theorem fetch_honestFirst (setting : Setting) (n : NetworkPeerResolver) (cid : Cid) (codec : Nat) :
    Fetches setting n cid codec ↔ HonestFirst setting n cid codec := by
  rw [honestFirst_iff]
  constructor
  · rintro ⟨⟨r, left, hends⟩, hall⟩
    obtain ⟨data, rfl, hverify⟩ := hall r left hends
    have hr := ends_fetch hends
    cases hfound : (n.tries cid).findSome? n.attempt with
    | none =>
      have hunanswered := NetworkPeerResolver.resolve_unanswered hfound
      cases hresolve : n.resolve cid with
      | error e =>
        rw [hresolve] at hr
        cases hr
      | ok found =>
        cases found with
        | none =>
          rw [hresolve] at hr
          cases hr
        | some other => exact absurd hresolve (hunanswered other)
    | some other =>
      rw [NetworkPeerResolver.resolve_found hfound] at hr
      simp only at hr
      split at hr
      · next hother => exact ⟨other, rfl, hother⟩
      · cases hr
  · rintro ⟨data, hfound, hverify⟩
    refine ⟨fetch_ends cid codec, fun r left hends => ⟨data, ?_, hverify⟩⟩
    have hr := ends_fetch hends
    rw [NetworkPeerResolver.resolve_found hfound] at hr
    simpa only [hverify, if_true] using hr

/-! ### A corrupt provider that comes first -/

namespace Sample

def mallory : NodeId := ⟨"mallory"⟩

def alice : NodeId := ⟨"alice"⟩

/-- Alice answers with the chunk, Mallory with another block. -/
def resolver (known : List NodeId) : NetworkPeerResolver where
  maxAttempts := 3
  maxFetchesPerProvider := 0
  nextPeer := 0
  known
  behaviour peer := if peer = alice then .answers [7] else .answers bareText
  availablePermits _ _ _ := 0
  discovery _ := .error .noReachablePeers
  getPeers _ := known

end Sample

open Engine Sample in
/-- Alice is tried, but Mallory comes first and the fetch fails. -/
theorem fetch_corruptFirst :
    (∃ peer ∈ (resolver [mallory, alice]).tries chunk,
      Honest (setting true) (resolver [mallory, alice]) chunk MULTICODEC_RAW peer) ∧
    ¬ Fetches (setting true) (resolver [mallory, alice]) chunk MULTICODEC_RAW := by
  have hverify : verifyCid (setting true).sha256 chunk [7] MULTICODEC_RAW = true := by
    decide +kernel
  have hmismatch : verifyCid (setting true).sha256 chunk bareText MULTICODEC_RAW = false := by
    decide +kernel
  have hfound : ((resolver [mallory, alice]).tries chunk).findSome?
      (resolver [mallory, alice]).attempt = some bareText := by decide +kernel
  refine ⟨⟨alice, by decide +kernel, [7], rfl, hverify⟩, ?_⟩
  rintro ⟨⟨r, left, hends⟩, hall⟩
  obtain ⟨data, rfl, _⟩ := hall r left hends
  have hr := ends_fetch hends
  rw [NetworkPeerResolver.resolve_found hfound] at hr
  simp only [hmismatch] at hr
  cases hr

end Mistlib.Storage
