import Mistlib.Async.Reactive
import Mistlib.Signaling.DiscoveryRequests

/-!
# The budget of retries

A session makes twelve retries at most, and three to one peer. A retry is charged to both, and
one that was not sent is given back by both, so the session's count is the sum over the peers
(`Budgeted`).

A poll walks the peers in the order of a ranking that its caller supplies, and spends the budget
that it also divides up: `pollKeys_spares` is the invariant of its loop. What is left whenever a
retry is granted covers one retry to each peer that ranks higher, still waits and got none.
-/

namespace Mistlib.Signaling

open Reactive (Move Run)

namespace DiscoveryExchanges

variable (x : DiscoveryExchanges)

/-- The keys in the order in which a poll looks at them. -/
def ranked (evidence : String → Evidence) : List String :=
  (x.peers.keys.insertionSort (· ≤ ·)).insertionSort fun a b => (x.rank evidence a).before (x.rank evidence b)

theorem pollWithEvidence_eq (now : Instant) (evidence : String → Evidence) :
    x.pollWithEvidence now evidence = pollKeys now (x.ranked evidence) x 0 [] := rfl

theorem ranked_nodup (evidence : String → Evidence) : (x.ranked evidence).Nodup := by
  have hperm := (List.perm_insertionSort (fun a b => (x.rank evidence a).before (x.rank evidence b))
    (x.peers.keys.insertionSort (· ≤ ·))).trans (List.perm_insertionSort (· ≤ ·) x.peers.keys)
  exact hperm.nodup_iff.mpr x.peers.keys_nodup

/-- The peer has not answered and may be asked again. -/
def Awaits (key : String) : Prop :=
  ∃ peer ∈ x.peers.get key, peer.progressed = false ∧ peer.retries < MAX_RETRIES
deriving Decidable

/-- A retry to the peer is due: none is queued, it has not answered, its time has come
and its cap is not reached. -/
def Due (now : Instant) (key : String) : Prop :=
  ∃ peer, x.peers.get key = some peer ∧ peer.queued = false ∧ peer.progressed = false ∧ peer.next ≤ now ∧
    peer.retries < MAX_RETRIES

/-- The session's count of retries is the sum of those of its peers, and all are within
their caps. -/
structure Budgeted : Prop where
  total : x.retries = x.peers.sumBy Exchange.retries
  within : x.retries ≤ MAX_SESSION_RETRIES
  capped : ∀ key peer, x.peers.get key = some peer → peer.retries ≤ MAX_RETRIES

variable {x} {key pubkey : String} {now : Instant}

/-! ### The operations keep the budget -/

theorem budgeted_new : new.Budgeted := by
  refine ⟨rfl, Nat.zero_le _, ?_⟩
  intro key peer hget
  rw [new, Table.get_empty] at hget
  cases hget

theorem Budgeted.insert {peer : Exchange} {n sent : Nat} (h : x.Budgeted) (hpeer : peer.retries ≤ MAX_RETRIES)
    (hn : n + ((x.peers.get pubkey).map Exchange.retries).getD 0 = x.retries + peer.retries)
    (hwithin : n ≤ MAX_SESSION_RETRIES) : Budgeted ⟨x.peers.insert pubkey peer, n, sent⟩ := by
  refine ⟨?_, hwithin, ?_⟩
  · show n = (x.peers.insert pubkey peer).sumBy Exchange.retries
    rw [Table.sumBy_insert]
    cases hget : x.peers.get pubkey with
    | none =>
      rw [hget, h.total] at hn
      rw [Table.erase_of_get_none hget, ← hn.trans (Nat.add_comm _ _)]
      rfl
    | some old =>
      rw [hget, h.total, Table.sumBy_of_get Exchange.retries hget] at hn
      simp only [Option.map_some, Option.getD_some] at hn
      omega
  · intro key other hget
    rw [Table.get_insert] at hget
    split at hget
    · cases hget
      exact hpeer
    · exact h.capped key other hget

theorem Budgeted.modify {f : Exchange → Exchange} (h : x.Budgeted) (hf : ∀ peer, (f peer).retries = peer.retries) :
    Budgeted { x with peers := x.peers.modify pubkey f } := by
  have hget : ∀ key, ((x.peers.modify pubkey f).get key).map Exchange.retries =
      (x.peers.get key).map Exchange.retries := by
    intro key
    rw [Table.get_modify]
    split
    · rw [Option.map_map]
      exact congrArg (Option.map · _) (funext hf)
    · rfl
  refine ⟨h.total.trans (Table.sumBy_congr fun key => (hget key).symm), h.within, ?_⟩
  intro key peer hpeer
  have hold := hget key
  rw [hpeer] at hold
  obtain ⟨old, hold, hretries⟩ := Option.map_eq_some_iff.mp hold.symm
  rw [← hretries]
  exact h.capped key old hold

theorem budgeted_request (h : x.Budgeted) : (x.request pubkey now).2.Budgeted := by
  unfold request
  split
  · next peer hget =>
    have hold : ((x.peers.get pubkey).map Exchange.retries).getD 0 = peer.retries := by rw [hget]; rfl
    split
    · exact h
    · split
      · exact h.insert (h.capped pubkey peer hget) (by rw [hold]) h.within
      · next hcaps =>
        obtain ⟨hpeer, hsession⟩ := not_or.mp hcaps
        exact h.insert (Nat.lt_of_not_le hpeer) (by rw [hold]; show _ = _ + (_ + 1); omega)
          (Nat.lt_of_not_le hsession)
  · next hget => exact h.insert (Nat.zero_le _) (by rw [hget]; rfl) h.within

theorem get_request_of_ne (hne : key ≠ pubkey) :
    (x.request pubkey now).2.peers.get key = x.peers.get key := by
  unfold request
  split
  · split
    · rfl
    · split
      · rw [Table.get_insert, if_neg hne]
      · rw [Table.get_insert, if_neg hne]
  · rw [Table.get_insert, if_neg hne]

theorem request_retry {peer : Exchange} (hget : x.peers.get pubkey = some peer)
    (h : (x.request pubkey now).1 = true) :
    x.Due now pubkey ∧ (x.request pubkey now).2.retries = x.retries + 1 := by
  unfold request at h ⊢
  simp only [hget] at h ⊢
  split at h
  · cases h
  · next hready =>
    split at h
    · cases h
    · next hcaps =>
      obtain ⟨hqueued, hrest⟩ := not_or.mp hready
      obtain ⟨hprogressed, hlate⟩ := not_or.mp hrest
      rw [if_neg hready, if_neg hcaps]
      exact ⟨⟨peer, hget, Bool.eq_false_of_not_eq_true hqueued, Bool.eq_false_of_not_eq_true hprogressed,
        Nat.le_of_not_lt hlate, Nat.lt_of_not_le (not_or.mp hcaps).1⟩, rfl⟩

theorem budgeted_release (h : x.Budgeted) : (x.release pubkey now).Budgeted := by
  unfold release
  split
  · exact h
  · next peer hget =>
    have htotal := h.total
    rw [Table.sumBy_of_get Exchange.retries hget] at htotal
    have hwithin := h.within
    split
    · next hfresh =>
      rw [hfresh.1, Nat.zero_add] at htotal
      refine ⟨htotal, hwithin, ?_⟩
      intro key other hother
      rw [Table.get_erase] at hother
      split at hother
      · cases hother
      · exact h.capped key other hother
    · have hpeer := h.capped pubkey peer hget
      refine h.insert (Nat.le_trans (Nat.sub_le _ _) hpeer) ?_ ?_
      · rw [hget]
        show (if peer.retries > 0 then x.retries - 1 else x.retries) + peer.retries =
          x.retries + (peer.retries - 1)
        split
        · omega
        · omega
      · split
        · omega
        · exact hwithin

theorem budgeted_progress (h : x.Budgeted) : (x.progress pubkey now).Budgeted := by
  unfold progress
  split
  · next peer hget => exact h.insert (h.capped pubkey peer hget) (by rw [hget]; rfl) h.within
  · next hget => exact h.insert (Nat.zero_le _) (by rw [hget]; rfl) h.within

theorem budgeted_logSent (h : x.Budgeted) : (x.logSent pubkey).Budgeted := by
  unfold logSent
  split
  · split
    · exact { h with }
    · exact h
  · exact h

/-! ### The loop of a poll -/

theorem budgeted_pollKeys (keys : List String) (spared : Nat) (due : List String) (h : x.Budgeted) :
    (pollKeys now keys x spared due).2.Budgeted :=
  pollKeys_keeps (fun _ _ _ => budgeted_request) spared due h

theorem get_pollKeys_of_not_mem {keys : List String} (hkey : key ∉ keys) (spared : Nat) (due : List String) :
    (pollKeys now keys x spared due).2.peers.get key = x.peers.get key := by
  refine pollKeys_keeps (P := fun y => y.peers.get key = x.peers.get key) ?_ spared due rfl
  intro next hnext y hy
  have hne : key ≠ next := fun heq => hkey (by rw [heq]; exact hnext)
  rw [get_request_of_ne hne, hy]

theorem Due.congr {y : DiscoveryExchanges} (h : y.Due now key) (hget : y.peers.get key = x.peers.get key) :
    x.Due now key := by
  rw [Due, ← hget]
  exact h

theorem Awaits.congr {y : DiscoveryExchanges} (h : y.Awaits key) (hget : y.peers.get key = x.peers.get key) :
    x.Awaits key := by
  rw [Awaits, ← hget]
  exact h

/-! #### One key -/

section

variable {next : String} {keys : List String} {spared : Nat} {due : List String}

theorem pollKeys_skip (h : ¬ x.Awaits next) :
    pollKeys now (next :: keys) x spared due = pollKeys now keys x spared due := by
  rw [pollKeys]
  split
  · rfl
  · next peer hget =>
    refine if_pos (not_not.mp fun hopen => ?_)
    obtain ⟨hprogressed, hretries⟩ := not_or.mp hopen
    exact h ⟨peer, hget, Bool.eq_false_of_not_eq_true hprogressed, Nat.lt_of_not_le hretries⟩

theorem pollKeys_stop (h : x.Awaits next) (hleft : MAX_SESSION_RETRIES - x.retries ≤ spared) :
    (pollKeys now (next :: keys) x spared due).1 = due := by
  obtain ⟨peer, hget, hprogressed, hretries⟩ := h
  rw [pollKeys, hget]
  dsimp only
  rw [if_neg (not_or.mpr ⟨ne_true_of_eq_false hprogressed, Nat.not_le.mpr hretries⟩), if_pos hleft]

theorem pollKeys_go (h : x.Awaits next) (hleft : ¬ MAX_SESSION_RETRIES - x.retries ≤ spared) :
    pollKeys now (next :: keys) x spared due =
      if (x.request next now).1 = true then pollKeys now keys (x.request next now).2 spared (due ++ [next])
      else pollKeys now keys (x.request next now).2 (spared + 1) due := by
  obtain ⟨peer, hget, hprogressed, hretries⟩ := h
  rw [pollKeys, hget]
  dsimp only
  rw [if_neg (not_or.mpr ⟨ne_true_of_eq_false hprogressed, Nat.not_le.mpr hretries⟩), if_neg hleft]

end

/-! #### All keys -/

/-- The keys in front that wait and are granted nothing number no more than the budget that
is left once a key is granted. -/
def LeavesEnough (now : Instant) (front : List String) (key : String) (x : DiscoveryExchanges) (spared : Nat)
    (due granted : List String) : Prop :=
  let reached := (pollKeys now (front ++ [key]) x spared due).2
  spared + (front.countP fun other => reached.Awaits other ∧ other ∉ granted) ≤
    MAX_SESSION_RETRIES - reached.retries

section

variable {next : String} {front granted : List String} {spared : Nat} {due : List String}

theorem LeavesEnough.granted_here (hawaits : x.Awaits next) (hleft : ¬ MAX_SESSION_RETRIES - x.retries ≤ spared)
    (hgrant : (x.request next now).1 = true) : LeavesEnough now [] next x spared due granted := by
  obtain ⟨peer, hget, -⟩ := id hawaits
  have hcharged := (request_retry hget hgrant).2
  rw [LeavesEnough, List.nil_append, pollKeys_go hawaits hleft, if_pos hgrant, pollKeys, List.countP_nil, hcharged]
  omega

theorem LeavesEnough.skip (hskip : ¬ x.Awaits next) (hout : next ∉ front ++ [key])
    (h : LeavesEnough now front key x spared due granted) :
    LeavesEnough now (next :: front) key x spared due granted := by
  have hsettled : ¬ (pollKeys now (front ++ [key]) x spared due).2.Awaits next := fun hlater =>
    hskip (hlater.congr (get_pollKeys_of_not_mem hout spared due))
  rw [LeavesEnough, List.cons_append, pollKeys_skip hskip, List.countP_cons_of_neg]
  · exact h
  · exact fun hcounted => hsettled (of_decide_eq_true hcounted).1

theorem LeavesEnough.grant (hawaits : x.Awaits next) (hleft : ¬ MAX_SESSION_RETRIES - x.retries ≤ spared)
    (hgrant : (x.request next now).1 = true)
    (h : LeavesEnough now front key (x.request next now).2 spared (due ++ [next]) granted) :
    LeavesEnough now (next :: front) key x spared due (next :: granted) := by
  rw [LeavesEnough, List.cons_append, pollKeys_go hawaits hleft, if_pos hgrant, List.countP_cons_of_neg]
  · refine Nat.le_trans (Nat.add_le_add_left (List.countP_mono_left ?_) spared) h
    intro other _ hcounted
    obtain ⟨hother, hnew⟩ := of_decide_eq_true hcounted
    exact decide_eq_true ⟨hother, fun hmem => hnew (List.mem_cons_of_mem next hmem)⟩
  · exact fun hcounted => (of_decide_eq_true hcounted).2 List.mem_cons_self

theorem LeavesEnough.pass (hawaits : x.Awaits next) (hleft : ¬ MAX_SESSION_RETRIES - x.retries ≤ spared)
    (hpass : ¬ (x.request next now).1 = true)
    (h : LeavesEnough now front key (x.request next now).2 (spared + 1) due granted) :
    LeavesEnough now (next :: front) key x spared due granted := by
  rw [LeavesEnough, List.cons_append, pollKeys_go hawaits hleft, if_neg hpass, List.countP_cons]
  refine Nat.le_trans ?_ h
  split
  · omega
  · omega

end

/-- A poll grants what is due, and leaves enough for the keys in front. -/
theorem pollKeys_spares (now : Instant) {keys : List String} (hnodup : keys.Nodup) (x : DiscoveryExchanges) (spared : Nat)
    (due : List String) :
    ∃ granted, (pollKeys now keys x spared due).1 = due ++ granted ∧ granted.Sublist keys ∧
      (∀ key ∈ granted, x.Due now key) ∧ ∀ front key back, keys = front ++ key :: back → key ∈ granted →
        LeavesEnough now front key x spared due granted := by
  induction keys generalizing x spared due with
  | nil =>
    refine ⟨[], (List.append_nil due).symm, List.Sublist.refl _, List.forall_mem_nil _, ?_⟩
    exact nofun
  | cons next keys ih =>
    obtain ⟨hfresh, hnodup⟩ := List.nodup_cons.mp hnodup
    -- The rest of the loop does not grant the key that comes next, nor touch its entry.
    have hothers : ∀ {granted : List String}, granted.Sublist keys → ∀ key ∈ granted, key ≠ next := by
      rintro granted hsub key hkey rfl
      exact hfresh (hsub.subset hkey)
    by_cases hawaits : x.Awaits next
    · by_cases hleft : MAX_SESSION_RETRIES - x.retries ≤ spared
      · refine ⟨[], ?_, List.nil_sublist _, List.forall_mem_nil _, nofun⟩
        rw [pollKeys_stop hawaits hleft, List.append_nil]
      · by_cases hgrant : (x.request next now).1 = true
        · obtain ⟨granted, hresult, hsub, hdue, hleaves⟩ := ih hnodup (x.request next now).2 spared (due ++ [next])
          obtain ⟨peer, hget, -⟩ := id hawaits
          refine ⟨next :: granted, ?_, hsub.cons_cons next, List.forall_mem_cons.mpr
            ⟨(request_retry hget hgrant).1, ?_⟩, ?_⟩
          · rw [pollKeys_go hawaits hleft, if_pos hgrant, hresult, List.append_assoc, List.singleton_append]
          · intro key hkey
            exact (hdue key hkey).congr (get_request_of_ne (hothers hsub key hkey))
          · intro front key back hkeys hkey
            obtain ⟨rfl, hback⟩ | ⟨front, rfl, hrest⟩ := List.cons_eq_append_iff.mp hkeys
            · obtain ⟨rfl, -⟩ := List.cons.inj hback
              exact .granted_here hawaits hleft hgrant
            · have hne : key ≠ next := by
                rintro rfl
                exact hfresh (hrest ▸ List.mem_append_right front List.mem_cons_self)
              have hgranted := (List.mem_cons.mp hkey).resolve_left hne
              exact .grant hawaits hleft hgrant (hleaves front key back hrest hgranted)
        · obtain ⟨granted, hresult, hsub, hdue, hleaves⟩ := ih hnodup (x.request next now).2 (spared + 1) due
          refine ⟨granted, ?_, hsub.cons next, ?_, ?_⟩
          · rw [pollKeys_go hawaits hleft, if_neg hgrant, hresult]
          · intro key hkey
            exact (hdue key hkey).congr (get_request_of_ne (hothers hsub key hkey))
          · intro front key back hkeys hkey
            obtain ⟨rfl, hback⟩ | ⟨front, rfl, hrest⟩ := List.cons_eq_append_iff.mp hkeys
            · exact absurd (List.cons.inj hback).1.symm (hothers hsub key hkey).symm
            · exact .pass hawaits hleft hgrant (hleaves front key back hrest hkey)
    · obtain ⟨granted, hresult, hsub, hdue, hleaves⟩ := ih hnodup x spared due
      refine ⟨granted, ?_, hsub.cons next, hdue, ?_⟩
      · rw [pollKeys_skip hawaits, hresult]
      · intro front key back hkeys hkey
        obtain ⟨rfl, hback⟩ | ⟨front, rfl, hrest⟩ := List.cons_eq_append_iff.mp hkeys
        · exact absurd (List.cons.inj hback).1.symm (hothers hsub key hkey).symm
        · refine .skip hawaits ?_ (hleaves front key back hrest hkey)
          intro hmem
          apply hfresh
          rw [hrest]
          rcases List.mem_append.mp hmem with hfront | hkey
          · exact List.mem_append_left _ hfront
          · exact List.mem_append_right front (List.mem_cons.mpr (.inl (List.mem_singleton.mp hkey)))

/-! ### Runs -/

inductive ExchangeCall where
  | request (pubkey : String) (now : Instant)
  | pollWithEvidence (now : Instant) (evidence : String → Evidence)
  | queued (pubkey : String)
  | logSent (pubkey : String)
  | sent (pubkey : String) (now : Instant)
  | release (pubkey : String) (now : Instant)
  | progress (pubkey : String) (now : Instant)
  | observeEvidence (pubkey : String) (evidence : Evidence)
  | observeAdvertisement (pubkey : String) (createdAt : Nat) (joinedAt : Option Nat)
  | observeActivity (pubkey : String) (createdAt : Nat)

/-- One call. What `release` reads off the clock comes with it. -/
def exchangeStep (x : DiscoveryExchanges) : ExchangeCall → Option DiscoveryExchanges
  | .request pubkey now => some (x.request pubkey now).2
  | .pollWithEvidence now evidence => some (x.pollWithEvidence now evidence).2
  | .queued pubkey => some (x.queued pubkey)
  | .logSent pubkey => some (x.logSent pubkey)
  | .sent pubkey now => some (x.sent pubkey now)
  | .release pubkey now => some (x.release pubkey now)
  | .progress pubkey now => some (x.progress pubkey now)
  | .observeEvidence pubkey evidence => some (x.observeEvidence pubkey evidence)
  | .observeAdvertisement pubkey createdAt joinedAt => some (x.observeAdvertisement pubkey createdAt joinedAt)
  | .observeActivity pubkey createdAt => some (x.observeActivity pubkey createdAt)

/-- Each call keeps the session's count the sum of its peers' retries. -/
theorem budgeted_step {x' : DiscoveryExchanges} {call : ExchangeCall} (h : x.Budgeted)
    (hstep : exchangeStep x call = some x') : x'.Budgeted := by
  cases call with
  | request pubkey now =>
    cases hstep
    exact budgeted_request h
  | pollWithEvidence now evidence =>
    cases hstep
    exact budgeted_pollKeys _ _ _ h
  | queued pubkey | sent pubkey now | observeEvidence pubkey evidence
  | observeAdvertisement pubkey createdAt joinedAt | observeActivity pubkey createdAt =>
    cases hstep
    exact h.modify fun _ => rfl
  | logSent pubkey =>
    cases hstep
    exact budgeted_logSent h
  | release pubkey now =>
    cases hstep
    exact budgeted_release h
  | progress pubkey now =>
    cases hstep
    exact budgeted_progress h

/-- In every state a session reaches the counts agree and keep their caps. A poll grants retries
that are due, each key once, within the session's cap, and what is left at each grant covers the
peers passed over. -/
theorem budget_kept {moves : List (Move DiscoveryExchanges ExchangeCall)} (run : Run exchangeStep new moves x) :
    x.Budgeted ∧ ∀ now evidence,
      (x.pollWithEvidence now evidence).1.Nodup ∧
      (∀ key ∈ (x.pollWithEvidence now evidence).1, x.Due now key) ∧
      (∀ front, front <+: x.ranked evidence → (pollKeys now front x 0 []).2.retries ≤ MAX_SESSION_RETRIES) ∧
      ∀ front key back, x.ranked evidence = front ++ key :: back → key ∈ (x.pollWithEvidence now evidence).1 →
        LeavesEnough now front key x 0 [] (x.pollWithEvidence now evidence).1 := by
  have hbudget : x.Budgeted := run.keeps (P := fun _ x => x.Budgeted) budgeted_new fun _ _ _ _ h => budgeted_step h
  refine ⟨hbudget, fun now evidence => ?_⟩
  obtain ⟨granted, hresult, hsub, hdue, hleaves⟩ := pollKeys_spares now (x.ranked_nodup evidence) x 0 []
  rw [List.nil_append] at hresult
  rw [pollWithEvidence_eq, hresult]
  exact ⟨hsub.nodup (x.ranked_nodup evidence), hdue, fun front _ => (budgeted_pollKeys front 0 [] hbudget).within,
    hleaves⟩

/-- Two peers are asked, and two seconds later only one of the requests has been sent. -/
def askedTwo : List ExchangeCall :=
  [.sent "b" 0, .queued "a", .queued "b", .request "b" 0, .request "a" 0]

theorem budget_kept_askedTwo :
    (Reactive.play exchangeStep new askedTwo).2.Budgeted ∧
      ((Reactive.play exchangeStep new askedTwo).2.pollWithEvidence (fromMillis 2000) fun _ => (false, 0)).1 = ["b"] ∧
      LeavesEnough (fromMillis 2000) ["a"] "b" (Reactive.play exchangeStep new askedTwo).2 0 [] ["b"] := by
  have hgranted : ((Reactive.play exchangeStep new askedTwo).2.pollWithEvidence (fromMillis 2000)
      fun _ => (false, 0)).1 = ["b"] := by decide +kernel
  obtain ⟨hbudget, hpoll⟩ := budget_kept (Reactive.run_play exchangeStep new askedTwo)
  have hleaves := (hpoll (fromMillis 2000) fun _ => (false, 0)).2.2.2 ["a"] "b" [] (by decide +kernel)
  rw [hgranted] at hleaves
  exact ⟨hbudget, hgranted, hleaves List.mem_cons_self⟩

end DiscoveryExchanges

end Mistlib.Signaling
