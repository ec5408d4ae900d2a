import Mistlib.Browser.NodeEntries

/-!
# What the host is told of a peer

A peer is announced when its reliable channel opens. Some of the ways in which
it ends tell the host if it was announced, some tell it always, and the clean-up
of a call tells it nothing.
-/

namespace Mistlib.Browser

/-- The notices alternate and start with `connected`; the latest comes first. -/
def alternates : List Notice → Bool
  | [] => true
  | .connected :: past => past.head? != some .connected && alternates past
  | .disconnected :: past => past.head? == some .connected && alternates past

namespace Node

/-- The registered peer is one that the host was told of. -/
def hasAnnounced (n : Node) : Bool := n.transport.peers.any fun peer => decide (peer ∈ n.announced)

/-- No call takes an announced peer away, a callback ends only an announced peer,
and no channel opens anew for a peer that is announced. -/
def Accounted (n : Node) : NodeInput → Prop
  | .call input => n.transport.takesAway input = true → n.hasAnnounced = false
  | .iceStateChange peer ice _ => n.isCurrent peer = true → ice.terminal = true → n.hasAnnounced = true
  | .channelOpen peer channel =>
    n.isCurrent peer = true → channel = .reliableOrdered →
      n.transport.connectionStates ≠ some .connected → n.hasAnnounced = false
  | .channelClose peer channel => n.isCurrent peer = true → channel ≠ .bulk → n.hasAnnounced = true
  | _ => True

instance (n : Node) : DecidablePred n.Accounted
  | .call _ => inferInstanceAs (Decidable (_ → _))
  | .iceStateChange _ _ _ => inferInstanceAs (Decidable (_ → _ → _))
  | .channelOpen _ _ => inferInstanceAs (Decidable (_ → _ → _ → _))
  | .channelClose _ _ => inferInstanceAs (Decidable (_ → _ → _))
  | .watchdog _ _ _ _ | .sweep _ => .isTrue trivial

/-- The notices alternate, and where no handler runs and no peer is registered
the last one is not `connected`. -/
structure WellTold (n : Node) : Prop where
  alternates : alternates n.notices = true
  ended : (∀ c ∈ n.transport.calls, c = .returned) → n.transport.peers = none →
    n.notices.head? ≠ some .connected

/-- The last notice is `connected` while the registered peer is announced. -/
structure Told (n : Node) : Prop where
  alternates : alternates n.notices = true
  last : n.notices.head? = some .connected ↔ n.hasAnnounced = true
  announced : ∀ peer ∈ n.announced, peer < n.transport.registered
  registered : ∀ peer ∈ n.transport.peers, peer < n.transport.registered

variable {n n' : Node} {peer : PeerId} {t : Transport}

theorem hasAnnounced_of_current (hcurrent : n.isCurrent peer = true) :
    n.hasAnnounced = decide (peer ∈ n.announced) := by
  rw [hasAnnounced, eq_of_beq hcurrent]
  rfl

namespace Told

theorem new : Told .new where
  alternates := rfl
  last := ⟨nofun, nofun⟩
  announced := nofun
  registered := nofun

section

variable (h : Told n)
include h

theorem keeps (hgrows : n.transport.registered ≤ t.registered)
    (hregistered : ∀ peer ∈ t.peers, peer < t.registered)
    (hsame : hasAnnounced { n with transport := t } = n.hasAnnounced) :
    Told { n with transport := t } where
  alternates := h.alternates
  last := by
    rw [hsame]
    exact h.last
  announced := fun peer hpeer => Nat.lt_of_lt_of_le (h.announced peer hpeer) hgrows
  registered := hregistered

theorem ends (hbefore : n.hasAnnounced = true) {announced : List PeerId}
    (hannounced : ∀ peer ∈ announced, peer ∈ n.announced)
    (hregistered : t.registered = n.transport.registered) (hpeers : t.peers = none) :
    Told ⟨t, announced, .disconnected :: n.notices⟩ where
  alternates := by
    rw [Browser.alternates, h.last.mpr hbefore, h.alternates]
    rfl
  last := by
    rw [hasAnnounced, hpeers]
    exact ⟨nofun, nofun⟩
  announced := by
    rw [hregistered]
    exact fun peer hpeer => h.announced peer (hannounced peer hpeer)
  registered := by
    rw [hpeers]
    nofun

theorem replaces (hbefore : n.hasAnnounced = false) (hgrows : n.transport.registered ≤ t.registered)
    (hpeers : ∀ peer ∈ t.peers, peer = n.transport.registered ∧ peer < t.registered) :
    Told { n with transport := t } := by
  refine h.keeps hgrows (fun peer hpeer => (hpeers peer hpeer).2) ?_
  rw [hbefore, hasAnnounced]
  cases hpeer : t.peers with
  | none => rfl
  | some peer =>
    have hnew := (hpeers peer hpeer).1
    refine decide_eq_false fun hold => ?_
    exact absurd (h.announced peer hold) (hnew ▸ Nat.lt_irrefl _)

theorem call {input : Input} (haccounted : n.Accounted (.call input))
    (hstep : n.step (.call input) = some n') : Told n' := by
  obtain ⟨t, hcall, rfl⟩ := Option.map_eq_some_iff.mp hstep
  have htakes : n.transport.cleansUp input = true ∨ n.transport.displaces input = true →
      n.transport.takesAway input = true := Bool.or_eq_true_iff.mpr
  have hnone : n.transport.peers = none → n.hasAnnounced = false := by
    intro hpeers
    rw [hasAnnounced, hpeers]
    rfl
  have hsame : t.peers = n.transport.peers → t.registered = n.transport.registered →
      Told { n with transport := t } := by
    intro hpeers hregistered
    refine h.keeps (Nat.le_of_eq hregistered.symm) ?_ ?_
    · rw [hpeers, hregistered]
      exact h.registered
    · rw [hasAnnounced, hpeers]
      rfl
  have hbuilt : n.hasAnnounced = false → t.peers = some n.transport.registered →
      t.registered = n.transport.registered + 1 → Told { n with transport := t } := by
    intro hbefore hpeers hregistered
    rw [← Nat.succ_eq_add_one] at hregistered
    refine h.replaces hbefore (hregistered ▸ Nat.le_succ _) ?_
    rw [hpeers, hregistered]
    rintro peer ⟨⟩
    exact ⟨rfl, Nat.lt_succ_self _⟩
  cases Transport.step_does hcall with
  | same hpeers hstates hattempts hregistered => exact hsame hpeers hregistered
  | cleans hcleans hpeers hstates hattempts hregistered =>
    refine h.replaces (haccounted (htakes (.inl hcleans))) (Nat.le_of_eq hregistered.symm) ?_
    rw [hpeers]
    nofun
  | reserves hinactive hroom hstates hattempts hpeers =>
    rcases hpeers with ⟨hnew, hregistered, hold⟩ | ⟨hold, hregistered, -⟩
    · refine hbuilt ?_ hnew hregistered
      exact hold.elim hnone fun hdisplaces => haccounted (htakes (.inr hdisplaces))
    · exact hsame hold hregistered
  | builds hpeers hattempts hstates hregistered =>
    refine hbuilt ?_ hpeers hregistered
    rcases hstates with ⟨-, hold⟩ | ⟨-, hcleans⟩
    · exact hnone hold
    · exact haccounted (htakes (.inl hcleans))

theorem iceStateChange {ice : IceState} {hasOpenChannel : Bool}
    (hends : ice.terminal = true → n.hasAnnounced = true) :
    Told (n.onIceStateChange ice hasOpenChannel) := by
  unfold onIceStateChange
  split
  · exact h
  · simp only
    split
    · next hterminal => exact h.ends (hends hterminal) (fun _ hpeer => hpeer) rfl rfl
    · exact h.keeps le_rfl h.registered rfl

theorem channelOpen (hcurrent : n.isCurrent peer = true)
    (hnew : n.transport.connectionStates ≠ some .connected → n.hasAnnounced = false) :
    Told (n.onOpen peer) := by
  unfold onOpen
  simp only
  split
  · exact h.keeps le_rfl h.registered rfl
  · next hstate =>
    have hbefore := hnew hstate
    have hlast : n.notices.head? ≠ some .connected := by
      rw [Ne, h.last, hbefore]
      nofun
    refine ⟨?_, ?_, ?_, h.registered⟩
    · rw [tell, Browser.alternates, h.alternates]
      simpa using hlast
    · refine ⟨fun _ => ?_, fun _ => rfl⟩
      have hcurrent : n.transport.peers = some peer := eq_of_beq hcurrent
      rw [tell, hasAnnounced, hcurrent]
      exact decide_eq_true List.mem_cons_self
    · refine List.forall_mem_cons.mpr ⟨h.registered peer (eq_of_beq hcurrent), h.announced⟩

theorem givesUp (hcurrent : n.isCurrent peer = true)
    (hregistered : t.registered = n.transport.registered) (hpeers : t.peers = none) :
    Told (tellIfAnnounced { n with transport := t } peer) := by
  have hbefore := hasAnnounced_of_current hcurrent
  unfold tellIfAnnounced
  split
  · next hin =>
    rw [decide_eq_true hin] at hbefore
    exact h.ends hbefore (fun _ hpeer => List.mem_of_mem_filter hpeer) hregistered hpeers
  · next hnot =>
    rw [decide_eq_false hnot] at hbefore
    refine h.replaces hbefore (Nat.le_of_eq hregistered.symm) ?_
    rw [hpeers]
    nofun

theorem sweep (failing : Bool) : Told (n.sweep failing) := by
  unfold Node.sweep
  split
  · exact h
  · split
    · exact h.keeps le_rfl h.registered rfl
    · next peer hpeers =>
      split
      · exact h.givesUp (beq_iff_eq.mpr hpeers) rfl rfl
      · exact h

/-- An accounted step keeps the last notice in line with the peer. -/
theorem step {input : NodeInput} (haccounted : n.Accounted input) (hstep : n.step input = some n') :
    Told n' := by
  cases input with
  | call input => exact h.call haccounted hstep
  | iceStateChange peer ice hasOpenChannel =>
    cases hstep
    split
    · next hcurrent => exact h.iceStateChange (haccounted hcurrent)
    · exact h
  | channelOpen peer channel =>
    cases hstep
    split
    · next hopen => exact h.channelOpen hopen.2 (haccounted hopen.2 hopen.1)
    · exact h
  | channelClose peer channel =>
    cases hstep
    split
    · next hclose => exact h.ends (haccounted hclose.2 hclose.1) (fun _ hpeer => hpeer) rfl rfl
    · exact h
  | watchdog peer attemptId phase healthy =>
    cases hstep
    split
    · next hgivesUp => exact h.givesUp hgivesUp.2.1 rfl rfl
    · exact h
  | sweep failing =>
    cases hstep
    exact h.sweep failing

end

end Told

end Node

open Reactive

/-- In a run whose steps are all accounted for, the host is told of the node's
peers in turns. -/
theorem wellTold_of_accounted {moves : List (Move Node NodeInput)} {n : Node} (run : Run Node.step .new moves n)
    (haccounted : ∀ m ∈ moves, m.before.Accounted m.input) : n.WellTold := by
  have htold : n.Told := by
    refine run.keepsUnder (P := Node.Told) (C := Node.Accounted) .new ?_ haccounted
    exact fun n input n' hn hin hstep => hn.step hin hstep
  refine ⟨htold.alternates, fun _ hpeers hlast => ?_⟩
  have hannounced := htold.last.mp hlast
  rw [Node.hasAnnounced, hpeers] at hannounced
  cases hannounced

/-! ### A peer that goes unnoticed -/

section Runs

/-- A peer opens and its channel closes, and a second attempt is given up; the
latest input first. -/
def openedAndClosed : List NodeInput :=
  [.watchdog 1 2 .legacy false, .call (.connect calm), .channelClose 0 .reliableOrdered,
    .channelOpen 0 .reliableOrdered, .call (.connect calm)]

theorem openedAndClosed_wellTold :
    (play Node.step .new openedAndClosed).1.length = 5 ∧
      (play Node.step .new openedAndClosed).2.notices = [.disconnected, .connected] ∧
        (play Node.step .new openedAndClosed).2.WellTold :=
  ⟨by decide, by decide, wellTold_of_accounted (run_play Node.step .new openedAndClosed) (by decide)⟩

/-- The node rejoins after its peer has opened, and its next peer opens too. -/
def rejoinedAndOpened : List NodeInput :=
  [.channelOpen 1 .reliableOrdered, .call (.offer calm), .call (.rejoin 0),
    .channelOpen 0 .reliableOrdered, .call (.connect calm)]

/-- The clean-up of the first peer tells the host nothing. -/
theorem rejoinedAndOpened_doubled :
    ∃ moves n, Run Node.step .new moves n ∧ n.notices = [.connected, .connected] ∧ ¬ n.WellTold := by
  have hnotices : (play Node.step .new rejoinedAndOpened).2.notices = [.connected, .connected] := by decide
  refine ⟨_, _, run_play Node.step .new rejoinedAndOpened, hnotices, fun htold => ?_⟩
  have halternates := htold.alternates
  rw [hnotices] at halternates
  cases halternates

end Runs

end Mistlib.Browser
