import Mistlib.Async.Reactive
import Mistlib.Signaling.DiscoveryRequests

/-!
# The budget of the bootstrap

The bootstrap sends `Request`s to a few keys that the ring would not pick: at most six in two
rounds over the life of a session. A round takes keys that answer this node in the table of the
moment, without those requested before and those of an earlier round, and the keys it takes are
remembered (`Kept`). Once the rounds are spent or the bootstrap has stopped, no call changes
that (`over_step`).

A poll reads the clock whenever it sweeps the table, and each reading is an argument.
-/

namespace Mistlib.Signaling

open Reactive (Move Run)

/-! ## Who answers this node -/

namespace DiscoveryTable

variable (t : DiscoveryTable) (now : Nat) (localPubkey localRank : String)

/-- The rank an unexpired key has in the table, and this node's own rank for any other. -/
def rankOf (pubkey : String) : String :=
  (((t.sweepExpired now).byPubkey.get pubkey).map DiscoveryEntry.topologyRank).getD localRank

/-- The unexpired keys and this node's own. -/
def memberKeys : Finset String := insert localPubkey (t.sweepExpired now).byPubkey.keys.toFinset

theorem knows_memberKeys :
    Knows (t.rankOf now localRank) (t.memberKeys now localPubkey) localPubkey localPubkey now t := by
  refine ⟨?_, ?_⟩
  · intro pubkey entry hget hfresh
    have hlive := get_sweepExpired.mpr ⟨hget, hfresh⟩
    refine ⟨Finset.mem_insert_of_mem (List.mem_toFinset.mpr (Table.mem_keys_iff.mpr ⟨entry, hlive⟩)), ?_⟩
    rw [rankOf, hlive]
    rfl
  · intro pubkey hmem hne _
    obtain ⟨entry, hlive⟩ := Table.mem_keys_iff.mp (List.mem_toFinset.mp ((Finset.mem_insert.mp hmem).resolve_left hne))
    exact ⟨entry, get_sweepExpired.mp hlive⟩

theorem pushMissing_rankOf :
    pushMissing ((t.sweepExpired now).byPubkey.values.map fun entry => (entry.topologyRank, entry.signalingPubkey))
        (t.rankOf now localRank localPubkey) localPubkey =
      pushMissing ((t.sweepExpired now).byPubkey.values.map fun entry => (entry.topologyRank, entry.signalingPubkey))
        localRank localPubkey := by
  cases hget : (t.sweepExpired now).byPubkey.get localPubkey with
  | none => rw [rankOf, hget]; rfl
  | some entry =>
    have hkey := (t.sweepExpired now).keyed localPubkey entry hget
    have hany : ((t.sweepExpired now).byPubkey.values.map fun entry => (entry.topologyRank, entry.signalingPubkey)).any
        (fun entry => decide (entry.2 = localPubkey)) = true := by
      refine List.any_eq_true.mpr ⟨(entry.topologyRank, entry.signalingPubkey), ?_, decide_eq_true hkey⟩
      exact List.mem_map.mpr ⟨entry, Table.mem_values_iff.mpr ⟨localPubkey, hget⟩, rfl⟩
    rw [pushMissing, pushMissing, if_pos hany, if_pos hany]

theorem pushMissing_again (ranked : List Ranked) (rank rank' pubkey : String) :
    pushMissing (pushMissing ranked rank pubkey) rank' pubkey = pushMissing ranked rank pubkey := by
  have hany : (pushMissing ranked rank pubkey).any (fun entry => decide (entry.2 = pubkey)) = true := by
    unfold pushMissing
    split
    · next hany => exact hany
    · simp
  rw [pushMissing, if_pos hany]

/-- Whatever the table holds, the keys that answer this node are those of a ring with it. -/
theorem responderPubkeysFor_local (limit : Nat) :
    (t.responderPubkeysFor now localPubkey localRank localPubkey localRank limit).1 =
      responders (t.rankOf now localRank) (t.memberKeys now localPubkey) localPubkey limit := by
  have hmem : localPubkey ∈ t.memberKeys now localPubkey := Finset.mem_insert_self _ _
  rw [← responderPubkeysFor_eq (knows_memberKeys t now localPubkey localRank) hmem hmem]
  simp only [responderPubkeysFor, pushMissing_again, pushMissing_rankOf]

end DiscoveryTable

namespace DiscoveryBootstrap

variable (b : DiscoveryBootstrap)

/-- `poll`, with the reading of the clock for either sweep of the table: one when the keys
are counted and one when they are chosen. -/
def pollAt (now : Instant) (counted chosen : Nat) (table : DiscoveryTable) (localPubkey localRank : String)
    (requested : List String) (connected : Nat) : List String × DiscoveryBootstrap × DiscoveryTable :=
  let b := if connected ≥ TARGET_PEERS then b.stop else b
  if b.finished ∨ b.rounds ≥ MAX_ROUNDS then ([], b, table)
  else
    match b.nextProbe with
    | none => ([], b, table)
    | some deadline =>
      if now < deadline then ([], b, table)
      else
        let table := table.sweepExpired counted
        let answering := table.responderPubkeysFor chosen localPubkey localRank localPubkey localRank
          table.byPubkey.size
        let table := answering.2
        let candidates := answering.1.reverse.filter fun key => !requested.contains key && !b.probed.contains key
        let advertisements := b.advertisements.retain fun key _ => table.byPubkey.contains key
        let b := { b with advertisements }
        let candidates := candidates.insertionSort fun left right => atLeast (b.evidence left) (b.evidence right)
        let batch := if connected > 0 then 1 else if b.rounds = 0 then 4 else 2
        let candidates := candidates.take (min batch (MAX_PROBES - b.probed.length))
        let probed := b.probed ++ candidates
        let rounds := b.rounds + 1
        (candidates,
          { b with
            probed, rounds
            advertisements :=
              if rounds = MAX_ROUNDS then b.advertisements.retain fun key _ => probed.contains key
              else b.advertisements
            nextProbe := some (now + INITIAL_DELAY) },
          table)

def Over : Prop := b.finished = true ∨ b.rounds ≥ MAX_ROUNDS
deriving Decidable

variable {b} {now : Instant} {counted chosen : Nat} {table : DiscoveryTable} {localPubkey localRank : String}
  {requested : List String} {connected : Nat}

/-- The keys of a round, and what is known of them beforehand. -/
structure Round (b b' : DiscoveryBootstrap) (localPubkey : String) (requested : List String) (connected : Nat)
    (keys : List String) : Prop where
  short : connected < TARGET_PEERS
  running : b.finished = false ∧ b.rounds < MAX_ROUNDS
  nodup : keys.Nodup
  fresh : ∀ key ∈ keys, key ≠ localPubkey ∧ key ∉ requested ∧ key ∉ b.probed
  room : keys.length ≤ MAX_PROBES - b.probed.length
  probed : b'.probed = b.probed ++ keys
  rounds : b'.rounds = b.rounds + 1
  finished : b'.finished = b.finished
  kept : ∀ key ad, b'.advertisements.get key = some ad → b.advertisements.get key = some ad
  hints : b'.rounds = MAX_ROUNDS → ∀ key ad, b'.advertisements.get key = some ad → key ∈ b'.probed

theorem candidates_spec {answering : List String} (hnodup : answering.Nodup) (p : String → Bool)
    (r : String → String → Prop) [DecidableRel r] (n : Nat) :
    (((answering.reverse.filter p).insertionSort r).take n).Nodup ∧
      (∀ key ∈ ((answering.reverse.filter p).insertionSort r).take n, key ∈ answering ∧ p key = true) ∧
      (((answering.reverse.filter p).insertionSort r).take n).length ≤ n := by
  have hperm := List.perm_insertionSort r (answering.reverse.filter p)
  refine ⟨?_, ?_, List.length_take_le _ _⟩
  · apply List.Nodup.sublist (List.take_sublist _ _)
    rw [hperm.nodup_iff]
    exact (List.nodup_reverse.mpr hnodup).filter p
  · intro key hkey
    obtain ⟨hmem, hp⟩ := List.mem_filter.mp (hperm.mem_iff.mp (List.mem_of_mem_take hkey))
    exact ⟨List.mem_reverse.mp hmem, hp⟩

theorem answering_nodup (t : DiscoveryTable) (now : Nat) (localPubkey localRank : String) (limit : Nat) :
    (t.responderPubkeysFor now localPubkey localRank localPubkey localRank limit).1.Nodup := by
  rw [DiscoveryTable.responderPubkeysFor_local]
  exact responders_nodup (Finset.mem_insert_self _ _)

theorem answering_not_local (t : DiscoveryTable) (now : Nat) (localPubkey localRank : String) (limit : Nat) :
    localPubkey ∉ (t.responderPubkeysFor now localPubkey localRank localPubkey localRank limit).1 := by
  rw [DiscoveryTable.responderPubkeysFor_local]
  exact subject_notMem_responders (Finset.mem_insert_self _ _)

theorem round_of {answering keys : List String} {deadline : Option Instant} {live : String → Advertisement → Bool}
    {batch : Nat} (hshort : ¬ connected ≥ TARGET_PEERS) (hfinished : ¬ b.finished = true)
    (hrounds : ¬ b.rounds ≥ MAX_ROUNDS)
    (hkeys : keys.Nodup ∧ (∀ key ∈ keys, key ∈ answering ∧
      (!requested.contains key && !b.probed.contains key) = true) ∧
      keys.length ≤ min batch (MAX_PROBES - b.probed.length))
    (hlocal : localPubkey ∉ answering) :
    Round b ⟨deadline, b.rounds + 1, b.finished,
      if b.rounds + 1 = MAX_ROUNDS then
        (b.advertisements.retain live).retain fun key _ => (b.probed ++ keys).contains key
      else b.advertisements.retain live,
      b.probed ++ keys⟩ localPubkey requested connected keys := by
  obtain ⟨hnodup, hchosen, hlength⟩ := hkeys
  refine
    { short := Nat.lt_of_not_le hshort
      running := ⟨Bool.eq_false_of_not_eq_true hfinished, Nat.lt_of_not_le hrounds⟩
      nodup := hnodup
      fresh := ?_
      room := Nat.le_trans hlength (Nat.min_le_right _ _)
      probed := rfl
      rounds := rfl
      finished := rfl
      kept := ?_
      hints := ?_ }
  · intro key hkey
    obtain ⟨hanswers, hnew⟩ := hchosen key hkey
    simp only [Bool.and_eq_true, Bool.not_eq_true', List.contains_eq_mem, decide_eq_false_iff_not] at hnew
    exact ⟨fun heq => hlocal (heq ▸ hanswers), hnew⟩
  · intro key ad hget
    split at hget
    · simp only [Table.get_retain, Option.filter_eq_some_iff] at hget
      exact hget.1.1
    · simp only [Table.get_retain, Option.filter_eq_some_iff] at hget
      exact hget.1
  · intro hlast key ad hget
    simp only [if_pos hlast, Table.get_retain, Option.filter_eq_some_iff, List.contains_eq_mem,
      decide_eq_true_eq] at hget
    exact hget.2

/-- A poll does nothing, stops, or makes a round. -/
theorem pollAt_cases (b : DiscoveryBootstrap) (now : Instant) (counted chosen : Nat) (table : DiscoveryTable)
    (localPubkey localRank : String) (requested : List String) (connected : Nat) :
    let after := b.pollAt now counted chosen table localPubkey localRank requested connected
    (after.1 = [] ∧ after.2.1 = if connected ≥ TARGET_PEERS then b.stop else b) ∨
      Round b after.2.1 localPubkey requested connected after.1 := by
  intro after
  by_cases hhealthy : connected ≥ TARGET_PEERS
  · refine .inl ?_
    have hstopped : b.stop.finished = true ∨ b.stop.rounds ≥ MAX_ROUNDS := .inl rfl
    simp only [after, pollAt, if_pos hhealthy, if_pos hstopped]
    exact ⟨trivial, trivial⟩
  · simp only [after, pollAt, if_neg hhealthy]
    split
    · exact .inl ⟨rfl, rfl⟩
    · next hrunning =>
      split
      · exact .inl ⟨rfl, rfl⟩
      · next deadline hdeadline =>
        split
        · exact .inl ⟨rfl, rfl⟩
        · obtain ⟨hfinished, hrounds⟩ := not_or.mp hrunning
          exact .inr (round_of hhealthy hfinished hrounds (candidates_spec (answering_nodup _ _ _ _ _) _ _ _)
            (answering_not_local _ _ _ _ _))

end DiscoveryBootstrap

inductive BootstrapCall where
  | observe (pubkey : String) (createdAt : Nat) (joinedAt : Option Nat) (now : Instant)
  | observeActivity (pubkey : String) (createdAt : Nat)
  | poll (now : Instant) (counted chosen : Nat) (table : DiscoveryTable) (localPubkey localRank : String)
      (requested : List String) (connected : Nat)
  | stop

namespace DiscoveryBootstrap

def bootstrapStep (b : DiscoveryBootstrap) : BootstrapCall → Option DiscoveryBootstrap
  | .observe pubkey createdAt joinedAt now => some (b.observe pubkey createdAt joinedAt now)
  | .observeActivity pubkey createdAt => some (b.observeActivity pubkey createdAt)
  | .poll now counted chosen table localPubkey localRank requested connected =>
    some (b.pollAt now counted chosen table localPubkey localRank requested connected).2.1
  | .stop => some b.stop

def probes (m : Move DiscoveryBootstrap BootstrapCall) : List String :=
  match m.input with
  | .poll now counted chosen table localPubkey localRank requested connected =>
    (m.before.pollAt now counted chosen table localPubkey localRank requested connected).1
  | _ => []

/-- The call stops the bootstrap: it is told so, or learns that enough peers are connected. -/
def Closes : BootstrapCall → Prop
  | .poll _ _ _ _ _ _ _ connected => connected ≥ TARGET_PEERS
  | .stop => True
  | _ => False

/-- What a run keeps. The keys probed are those answered, and once the rounds are spent
evidence is left of them alone. -/
structure Kept (past : List (Move DiscoveryBootstrap BootstrapCall)) (b : DiscoveryBootstrap) : Prop where
  probed : (past.flatMap probes).Perm b.probed
  nodup : b.probed.Nodup
  limit : b.probed.length ≤ MAX_PROBES
  counted : (past.countP fun m => probes m ≠ []) ≤ b.rounds
  rounds : b.rounds ≤ MAX_ROUNDS
  ordered : ∀ key ad, b.advertisements.get key = some ad → ad.first ≤ ad.latest
  hints : b.rounds = MAX_ROUNDS → ∀ key ad, b.advertisements.get key = some ad → key ∈ b.probed

variable {b' : DiscoveryBootstrap} {past : List (Move DiscoveryBootstrap BootstrapCall)} {call : BootstrapCall}

theorem kept_new : Kept [] new := by
  refine ⟨List.Perm.refl _, List.nodup_nil, Nat.zero_le _, le_rfl, Nat.zero_le _, ?_, ?_⟩
  · intro key ad hget
    rw [new, Table.get_empty] at hget
    cases hget
  · intro hrounds
    cases hrounds

theorem Kept.quiet (h : Kept past b) (hprobes : probes ⟨b, call⟩ = []) (hprobed : b'.probed = b.probed)
    (hrounds : b'.rounds = b.rounds)
    (hordered : ∀ key ad, b'.advertisements.get key = some ad → ad.first ≤ ad.latest)
    (hhints : b.rounds = MAX_ROUNDS → ∀ key ad, b'.advertisements.get key = some ad →
      b.advertisements.get key = some ad) : Kept (⟨b, call⟩ :: past) b' := by
  refine ⟨?_, hprobed ▸ h.nodup, hprobed ▸ h.limit, ?_, hrounds ▸ h.rounds, hordered, ?_⟩
  · rw [List.flatMap_cons, hprobes, List.nil_append, hprobed]
    exact h.probed
  · rw [List.countP_cons_of_neg (by rw [hprobes]; simp), hrounds]
    exact h.counted
  · rw [hrounds, hprobed]
    exact fun hspent key ad hget => h.hints hspent key ad (hhints hspent key ad hget)

theorem Kept.round {keys : List String} (h : Kept past b) (hprobes : probes ⟨b, call⟩ = keys)
    (hround : Round b b' localPubkey requested connected keys) : Kept (⟨b, call⟩ :: past) b' := by
  have hlimit := h.limit
  have hroom := hround.room
  refine ⟨?_, ?_, ?_, ?_, ?_, fun key ad hget => h.ordered key ad (hround.kept key ad hget), hround.hints⟩
  · rw [List.flatMap_cons, hprobes, hround.probed]
    exact (List.perm_append_comm).trans (h.probed.append_right keys)
  · rw [hround.probed]
    refine List.nodup_append.mpr ⟨h.nodup, hround.nodup, ?_⟩
    rintro key hkey other hother rfl
    exact (hround.fresh key hother).2.2 hkey
  · rw [hround.probed, List.length_append]
    omega
  · rw [List.countP_cons, hround.rounds]
    have hcounted := h.counted
    split
    · omega
    · omega
  · rw [hround.rounds]
    exact hround.running.2

theorem Kept.same (h : Kept past b) (hprobes : probes ⟨b, call⟩ = []) : Kept (⟨b, call⟩ :: past) b :=
  h.quiet hprobes rfl rfl h.ordered fun _ _ _ hget => hget

theorem Kept.stopped (h : Kept past b) (hprobes : probes ⟨b, call⟩ = []) : Kept (⟨b, call⟩ :: past) b.stop := by
  have hcleared : ∀ key ad, b.stop.advertisements.get key ≠ some ad := by
    intro key ad hget
    rw [stop, Table.get_empty] at hget
    cases hget
  exact h.quiet hprobes rfl rfl (fun key ad hget => absurd hget (hcleared key ad))
    fun _ key ad hget => absurd hget (hcleared key ad)

theorem kept_observe {pubkey : String} {createdAt : Nat} {joinedAt : Option Nat} (h : Kept past b)
    (hprobes : probes ⟨b, call⟩ = []) :
    Kept (⟨b, call⟩ :: past) (b.observe pubkey createdAt joinedAt now) := by
  unfold observe
  split
  · exact h.same hprobes
  · next hrunning =>
    refine h.quiet hprobes rfl rfl ?_ fun hspent => absurd (.inr hspent.ge) hrunning
    intro key ad hget
    rw [Table.get_insert] at hget
    split at hget
    · cases hget
      exact Nat.le_trans (Nat.min_le_right _ _) (Nat.le_max_right _ _)
    · exact h.ordered key ad hget

theorem kept_observeActivity {pubkey : String} {createdAt : Nat} (h : Kept past b)
    (hprobes : probes ⟨b, call⟩ = []) : Kept (⟨b, call⟩ :: past) (b.observeActivity pubkey createdAt) := by
  unfold observeActivity
  split
  · exact h.same hprobes
  · next hrunning =>
    refine h.quiet hprobes rfl rfl ?_ fun hspent => absurd (.inr hspent.ge) hrunning
    intro key ad hget
    rw [Table.get_modify] at hget
    split at hget
    · obtain ⟨old, hold, rfl⟩ := Option.map_eq_some_iff.mp hget
      exact Nat.le_trans (h.ordered key old hold) (Nat.le_max_left _ _)
    · exact h.ordered key ad hget

/-- Each call keeps the keys probed those answered. -/
theorem kept_step (h : Kept past b) (hstep : bootstrapStep b call = some b') : Kept (⟨b, call⟩ :: past) b' := by
  cases call with
  | observe pubkey createdAt joinedAt now =>
    cases hstep
    exact kept_observe h rfl
  | observeActivity pubkey createdAt =>
    cases hstep
    exact kept_observeActivity h rfl
  | poll now counted chosen table localPubkey localRank requested connected =>
    cases hstep
    rcases pollAt_cases b now counted chosen table localPubkey localRank requested connected with
      ⟨hnone, hafter⟩ | hround
    · rw [hafter]
      split
      · exact h.stopped hnone
      · exact h.same hnone
    · exact h.round rfl hround
  | stop =>
    cases hstep
    exact h.stopped rfl

/-- After every run the keys probed are those answered. -/
theorem Kept.of_run {moves : List (Move DiscoveryBootstrap BootstrapCall)} (run : Run bootstrapStep new moves b) :
    Kept moves b :=
  run.keeps (P := Kept) kept_new fun _ _ _ _ => kept_step

theorem Kept.retained (h : Kept past b) (hspent : b.rounds = MAX_ROUNDS) : b.advertisements.size ≤ MAX_PROBES := by
  have hsub : b.advertisements.keys ⊆ b.probed := by
    intro key hkey
    obtain ⟨ad, hget⟩ := Table.mem_keys_iff.mp hkey
    exact h.hints hspent key ad hget
  have hle := (b.advertisements.keys_nodup.subperm hsub).length_le
  rw [Table.keys, List.length_map] at hle
  exact Nat.le_trans hle h.limit

/-! ### The end of the probes -/

/-- Once the rounds are spent no step probes. -/
theorem over_step (h : b.Over) (hstep : bootstrapStep b call = some b') : b'.Over ∧ probes ⟨b, call⟩ = [] := by
  cases call with
  | observe pubkey createdAt joinedAt now =>
    cases hstep
    have hsame : b.observe pubkey createdAt joinedAt now = b := if_pos h
    rw [hsame]
    exact ⟨h, rfl⟩
  | observeActivity pubkey createdAt =>
    cases hstep
    have hsame : b.observeActivity pubkey createdAt = b := if_pos h
    rw [hsame]
    exact ⟨h, rfl⟩
  | poll now counted chosen table localPubkey localRank requested connected =>
    cases hstep
    rcases pollAt_cases b now counted chosen table localPubkey localRank requested connected with
      ⟨hnone, hafter⟩ | hround
    · refine ⟨?_, hnone⟩
      rw [hafter]
      split
      · exact .inl rfl
      · exact h
    · obtain ⟨hfinished, hrounds⟩ := hround.running
      rcases h with h | h
      · exact absurd h (ne_true_of_eq_false hfinished)
      · exact absurd h (Nat.not_le.mpr hrounds)
  | stop =>
    cases hstep
    exact ⟨.inl rfl, rfl⟩

theorem over_of_closes (h : Closes call) (hstep : bootstrapStep b call = some b') :
    b'.Over ∧ probes ⟨b, call⟩ = [] := by
  cases call with
  | observe pubkey createdAt joinedAt now | observeActivity pubkey createdAt => cases h
  | poll now counted chosen table localPubkey localRank requested connected =>
    cases hstep
    rcases pollAt_cases b now counted chosen table localPubkey localRank requested connected with
      ⟨hnone, hafter⟩ | hround
    · refine ⟨?_, hnone⟩
      have hhealthy : connected ≥ TARGET_PEERS := h
      rw [hafter, if_pos hhealthy]
      exact .inl rfl
    · exact absurd h (Nat.not_le.mpr hround.short)
  | stop =>
    cases hstep
    exact ⟨.inl rfl, rfl⟩

theorem silent_of_over {moves : List (Move DiscoveryBootstrap BootstrapCall)} (h : b.Over)
    (run : Run bootstrapStep b moves b') : ∀ m ∈ moves, probes m = [] := by
  have hsilent : b'.Over ∧ ∀ m ∈ moves, probes m = [] := by
    refine run.keeps (P := fun moves s => s.Over ∧ ∀ m ∈ moves, probes m = []) ⟨h, List.forall_mem_nil _⟩ ?_
    rintro past s call s' ⟨hover, hpast⟩ hstep
    obtain ⟨hover', hnone⟩ := over_step hover hstep
    exact ⟨hover', List.forall_mem_cons.mpr ⟨hnone, hpast⟩⟩
  exact hsilent.2

/-- A run answers six keys at most, in two polls at most and none of them twice; a poll answers
neither this node's key nor one that is requested already. Nothing is answered once a call has
stopped the bootstrap or the rounds are spent. -/
theorem probes_bounded {moves : List (Move DiscoveryBootstrap BootstrapCall)} (run : Run bootstrapStep new moves b) :
    (moves.flatMap probes).length ≤ MAX_PROBES ∧ (moves.countP fun m => probes m ≠ []) ≤ MAX_ROUNDS ∧
      (moves.flatMap probes).Nodup ∧
      (∀ before now counted chosen table localPubkey localRank requested connected,
        ⟨before, .poll now counted chosen table localPubkey localRank requested connected⟩ ∈ moves →
          ∀ key ∈ (before.pollAt now counted chosen table localPubkey localRank requested connected).1,
            key ≠ localPubkey ∧ key ∉ requested) ∧
      (∀ newer m older, moves = newer ++ m :: older → Closes m.input ∨ m.before.Over →
        probes m = [] ∧ ∀ later ∈ newer, probes later = []) ∧
      b.probed.length ≤ MAX_PROBES ∧ (∀ key ad, b.advertisements.get key = some ad → ad.first ≤ ad.latest) ∧
      (b.rounds ≥ MAX_ROUNDS → b.advertisements.size ≤ MAX_PROBES) := by
  have hkept := Kept.of_run run
  refine ⟨hkept.probed.length_eq.le.trans hkept.limit, Nat.le_trans hkept.counted hkept.rounds,
    hkept.probed.nodup_iff.mpr hkept.nodup, ?_, ?_, hkept.limit, hkept.ordered,
    fun hspent => hkept.retained (Nat.le_antisymm hkept.rounds hspent)⟩
  · intro before now counted chosen table localPubkey localRank requested connected _ key hkey
    rcases pollAt_cases before now counted chosen table localPubkey localRank requested connected with
      ⟨hnone, -⟩ | hround
    · rw [hnone] at hkey
      cases hkey
    · obtain ⟨hlocal, hrequested, -⟩ := hround.fresh key hkey
      exact ⟨hlocal, hrequested⟩
  · rintro newer m older rfl hends
    obtain ⟨mid, -, hstep, hlater⟩ := run.split
    obtain ⟨hover, hnone⟩ := hends.elim (over_of_closes · hstep) (over_step · hstep)
    exact ⟨hnone, silent_of_over hover hlater⟩

/-- Five keys are known, and one of them is this node's. -/
def fiveKeys : DiscoveryTable :=
  ["10", "20", "30", "40", "50"].foldl (fun t pubkey => t.insertPubkeyWithRank 0 pubkey 100 pubkey)
    DiscoveryTable.new

/-- Two rounds of a node that hears of all of them again before each, the first without a
connection and the second with one. -/
def twoRounds : List BootstrapCall :=
  [.poll (fromMillis 1600) 3 3 fiveKeys "10" "10" [] 1, .observe "40" 2 none (fromMillis 1100),
    .poll (fromMillis 1000) 2 2 fiveKeys "10" "10" ["30"] 0, .observe "20" 1 none 0]

theorem probes_bounded_twoRounds :
    (Reactive.play bootstrapStep new twoRounds).1.flatMap probes = ["30", "20", "40", "50"] ∧
      ((Reactive.play bootstrapStep new twoRounds).1.flatMap probes).Nodup ∧
      (Reactive.play bootstrapStep new twoRounds).2.advertisements.size ≤ MAX_PROBES := by
  obtain ⟨-, -, hnodup, -, -, -, -, hretained⟩ := probes_bounded (Reactive.run_play bootstrapStep new twoRounds)
  exact ⟨by decide +kernel, hnodup, hretained (by decide +kernel)⟩

end DiscoveryBootstrap

end Mistlib.Signaling
