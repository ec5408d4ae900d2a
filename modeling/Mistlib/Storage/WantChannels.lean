import Mistlib.Storage.WantBounds

/-!
# The channels of the waiters

A registration makes the channel its waiter is handed the block on, and no
operation gives a waiter another one. So in every state that traffic can lead
to a channel belongs to one waiter (`Distinct`): an operation other than a
registration can only lose channels (`Fewer`), and a registration brings one
that was never made before.
-/

namespace Mistlib.Storage

open WantState

def WantState.txs (s : WantState) (cid : Cid) : List Channel := (s.wants cid).map PendingWant.tx

theorem WantState.mem_txs {s : WantState} {cid : Cid} {want : PendingWant}
    (h : want ∈ s.wants cid) : want.tx ∈ s.txs cid :=
  List.mem_map_of_mem h

theorem Fewer.txs {s s' : WantState} (h : Fewer s s') (cid : Cid) :
    (s'.txs cid).Sublist (s.txs cid) := by
  have hfaces := (h.wants cid).map Prod.fst
  rw [List.map_map, List.map_map] at hfaces
  exact hfaces

/-! ## Runs -/

/-- Every waiter has a channel of its own, made by a registration. -/
structure WantState.Distinct (s : WantState) : Prop where
  once : ∀ cid, (s.txs cid).Nodup
  apart : ∀ {cid cid' tx}, tx ∈ s.txs cid → tx ∈ s.txs cid' → cid = cid'
  made : ∀ {cid tx}, tx ∈ s.txs cid → tx < s.channels

namespace WantState

theorem Distinct.fewer {s s' : WantState} (h : s.Distinct) (hfewer : Fewer s s') : s'.Distinct where
  once cid := (h.once cid).sublist (hfewer.txs cid)
  apart htx htx' := h.apart ((hfewer.txs _).subset htx) ((hfewer.txs _).subset htx')
  made htx := Nat.lt_of_lt_of_le (h.made ((hfewer.txs _).subset htx)) hfewer.made

theorem register_txs (s : WantState) (env : Surroundings) (cid : Cid) (peers : List NodeId)
    (isLocal : Bool) :
    let s₀ := s.prune env 0
    let s' := (s.registerAttemptForPeers env cid peers isLocal).2
    s'.channels = s₀.channels + 1 ∧ ∀ cid', s'.txs cid' = s₀.txs cid' ∨
      cid' = cid ∧ s'.txs cid' = s₀.txs cid' ++ [s₀.channels] := by
  dsimp only
  unfold registerAttemptForPeers
  dsimp only
  split
  · exact ⟨rfl, fun _ => .inl rfl⟩
  · refine ⟨rfl, fun cid' => ?_⟩
    simp only [txs, wants, Table.get_insert]
    split
    · next heq =>
      subst heq
      exact .inr ⟨rfl, by rw [Option.getD_some, List.map_append, List.map_singleton]⟩
    · exact .inl rfl

theorem Distinct.add {s s' : WantState} {cid : Cid} (h : s.Distinct)
    (hmade : s'.channels = s.channels + 1)
    (htxs : ∀ cid', s'.txs cid' = s.txs cid' ∨
      cid' = cid ∧ s'.txs cid' = s.txs cid' ++ [s.channels]) : s'.Distinct := by
  have hnew : ∀ cid', s.channels ∉ s.txs cid' := fun cid' hmem => Nat.lt_irrefl _ (h.made hmem)
  have hcases : ∀ {cid' tx}, tx ∈ s'.txs cid' → tx ∈ s.txs cid' ∨ cid' = cid ∧ tx = s.channels := by
    intro cid' tx hmem
    rcases htxs cid' with hsame | ⟨heq, hlast⟩
    · exact .inl (hsame ▸ hmem)
    · rw [hlast] at hmem
      exact (List.mem_append.mp hmem).imp_right fun h => ⟨heq, List.mem_singleton.mp h⟩
  refine ⟨fun cid' => ?_, fun {cid₁ cid₂ tx} h₁ h₂ => ?_, fun {cid' tx} hmem => ?_⟩
  · rcases htxs cid' with hsame | ⟨-, hlast⟩
    · rw [hsame]
      exact h.once cid'
    · rw [hlast]
      exact List.nodup_append'.mpr ⟨h.once cid', List.nodup_singleton _,
        List.disjoint_singleton.mpr (hnew cid')⟩
  · rcases hcases h₁ with hold₁ | ⟨rfl, rfl⟩
    · rcases hcases h₂ with hold₂ | ⟨rfl, rfl⟩
      · exact h.apart hold₁ hold₂
      · exact absurd hold₁ (hnew cid₁)
    · rcases hcases h₂ with hold₂ | ⟨rfl, -⟩
      · exact absurd hold₂ (hnew cid₂)
      · rfl
  · rw [hmade]
    rcases hcases hmem with hold | ⟨-, rfl⟩
    · exact Nat.lt_succ_of_lt (h.made hold)
    · exact Nat.lt_succ_self _

theorem Distinct.apply {s : WantState} (h : s.Distinct) (op : WantOp) (env : Surroundings) :
    (op.apply env s).state.Distinct := by
  have hquiet (hq : op.Quiet) : (op.apply env s).state.Distinct := h.fewer (hq.step env s).1.toFewer
  cases op with
  | registerForPeers cid peers isLocal =>
    obtain ⟨hmade, htxs⟩ := register_txs s env cid peers isLocal
    exact (h.fewer (Sheds.prune s env 0).toFewer).add hmade htxs
  | fulfill room cid sender data => exact h.fewer (s.fulfillDataIn_step env room cid sender data).1.toFewer
  | fulfillChunk room cid sender chunkIndex chunkTotal data =>
    cases s.fulfillChunkDataIn_step env room cid sender chunkIndex chunkTotal data with
    | refused _ hstate => exact h.fewer hstate.toFewer
    | stored _ _ _ hfewer => exact h.fewer hfewer
  | _ => exact hquiet trivial

/-- A channel belongs to one registration. -/
theorem Distinct.unique {s : WantState} (h : s.Distinct) {cid cid' : Cid} {want want' : PendingWant}
    (hmem : want ∈ s.wants cid) (hmem' : want' ∈ s.wants cid') (htx : want.tx = want'.tx) :
    cid = cid' ∧ want = want' := by
  have heq : cid = cid' := h.apart (mem_txs hmem) (htx ▸ mem_txs hmem')
  subst heq
  exact ⟨rfl, List.inj_on_of_nodup_map (h.once cid) hmem hmem' htx⟩

end WantState

theorem WantRun.distinct {ms : List Moment} {s : WantState} (run : WantRun ms s) : s.Distinct := by
  induction run with
  | nil =>
    have hnone : ∀ cid, WantState.default.txs cid = [] := fun _ => rfl
    refine ⟨fun cid => ?_, fun {cid cid' tx} hmem _ => ?_, fun {cid tx} hmem => ?_⟩
    · rw [hnone]
      exact List.nodup_nil
    · rw [hnone] at hmem
      cases hmem
    · rw [hnone] at hmem
      cases hmem
  | step _ op env ih => exact ih.apply op env

end Mistlib.Storage
