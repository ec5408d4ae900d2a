import Mistlib.Storage.EngineRun
import Mistlib.Storage.Formats

/-!
# Eviction and pins

An eviction pass chooses its victims once and deletes them one by one, with
an await at each. What it chooses is not pinned when it chooses; a pin that
is published while the pass is at work can still hit a block on its list.
-/

namespace Mistlib.Storage

open Async

/-- The protected set that an operation publishes. -/
def Op.published : (o : Op) → o.Res → Option (Finset Cid)
  | .protect _ _, pinned => some pinned
  | .install (some registry), _ => some registry.pinnedCids
  | .republish, pinned => some pinned
  | _, _ => none

/-! ### What leaves the protected set and the victims alone -/

variable {setting : Setting} {A : Cid → Bytes → Prop}

theorem World.pinned_perform (o : Op) (ω : Circumstance) (w : World) :
    (w.perform setting o ω).2.manager.pinned = w.manager.pinned ∨
      o.published (w.perform setting o ω).1 = some (w.perform setting o ω).2.manager.pinned := by
  cases o with
  | protect root cids | republish => exact Or.inr rfl
  | install registry =>
    cases registry with
    | none => exact Or.inl rfl
    | some registry => exact Or.inr rfl
  | touch cid => exact Or.inl (StorageManager.pinned_touch _ _)
  | trackBlock cid size position => exact Or.inl (StorageManager.pinned_trackBlock _ _ _ _)
  | untrackBlock cid => exact Or.inl (StorageManager.pinned_untrackBlock _ _)
  | _ => exact Or.inl rfl

theorem Note.condemned_op {o : Op} {ω : Circumstance} {w : World} {g : Ledger} {n : Note}
    {cid : Cid} (h : cid ∈ (Note.op o (w.perform setting o ω).1 w g n).2.condemned) :
    cid ∈ n.condemned ∨ ((w.perform setting o ω).2.manager.pinned = w.manager.pinned ∧
      w.manager.Loose cid) := by
  cases o with
  | victims positions =>
    have h : cid ∈ if positions.isEmpty then w.manager.evictionCandidates
        else w.manager.spatialEvictionCandidates ω.scores := h
    refine Or.inr ⟨rfl, ?_⟩
    split at h
    · exact StorageManager.loose_of_mem_evictionCandidates h
    · exact StorageManager.loose_of_mem_spatialEvictionCandidates h
  | decayVictims positions => exact Or.inr ⟨rfl, StorageManager.loose_of_mem_decayCandidates h⟩
  | _ => exact Or.inl h

theorem Note.condemned_issue {c : Call} {n : Note} {cid : Cid}
    (h : cid ∈ (Note.issue c n).condemned) : cid ∈ n.condemned := by
  cases c with
  | deleteBlock cid' => exact List.mem_of_mem_tail h
  | _ => exact h

@[simp] theorem Note.condemned_effect (c : Call) (a : c.Ans) (g : Ledger) (n : Note) :
    (Note.effect c a g n).2.condemned = n.condemned := by
  cases c with
  | storeBlock cid data | deleteBlock cid =>
    cases a with
    | error e | ok u => rfl
  | metaGet =>
    cases a with
    | error e | ok pins => rfl
  | metaSet data =>
    cases a with
    | error e => rfl
    | ok u =>
      simp only [Note.effect]
      split
      · rfl
      · rfl
      · rfl
  | _ => rfl

/-! ### No delete of a pinned block -/

/-- A step publishes no protection for a block that a pass in progress has
chosen and not yet issued the delete for. -/
def Spares (v : EngineView) : EngineEvent → Prop
  | .did _ o r => ∀ pinned, o.published r = some pinned →
      ∀ t n, v.note t = some n → ∀ cid ∈ n.condemned, cid ∉ pinned
  | _ => True

/-- No victim that is still to be deleted is pinned. -/
def Spared (v : EngineView) : Prop :=
  ∀ t n, v.note t = some n → ∀ cid ∈ n.condemned, cid ∉ v.world.manager.pinned

/-- A move that spares them leaves no pinned victim to delete. -/
theorem Spared.moves {v v' : EngineView} {event : EngineEvent}
    (hmove : EngineMoves setting A v event v') (hguard : Spares v event) (h : Spared v) :
    Spared v' := by
  cases hmove with
  | start hrun hnone hentry hfit =>
    intro i m hi cid hcid
    rcases View.note_of_write hi with ⟨rfl, rfl⟩ | ⟨_, hi⟩
    · cases hcid
    · exact h i m hi cid hcid
  | resume hrun hnote | park hrun hnote hwait | ended hrun hnote hpost | leave hrun => exact h
  | @op t n o ω hrun hnote hgood hop =>
    intro i m hi cid hcid
    -- Whoever holds the victim, it was spared before, and what is published spares it.
    have hspared : ∀ j k, v.note j = some k → cid ∈ k.condemned →
        cid ∉ (v.world.perform setting o ω).2.manager.pinned := by
      intro j k hj hk
      rcases World.pinned_perform o ω v.world with hsame | hpub
      · rw [hsame]
        exact h j k hj cid hk
      · exact hguard _ hpub j k hj cid hk
    rcases View.note_of_write hi with ⟨rfl, rfl⟩ | ⟨_, hi⟩
    · rcases Note.condemned_op hcid with hold | ⟨hsame, hloose⟩
      · exact hspared i n hnote hold
      · show cid ∉ (v.world.perform setting o ω).2.manager.pinned
        rw [hsame]
        exact hloose.2
    · exact hspared i m hi hcid
  | @issue t n c hrun hnote hissue =>
    intro i m hi cid hcid
    rcases View.note_of_write hi with ⟨rfl, rfl⟩ | ⟨_, hi⟩
    · exact h i n hnote cid (Note.condemned_issue hcid)
    · exact h i m hi cid hcid
  | @spawn t i n κ job hrun hnote hnone hfit hspawn =>
    intro j m hj cid hcid
    rcases View.note_of_write hj with ⟨rfl, rfl⟩ | ⟨_, hj⟩
    · cases hcid
    · rcases View.note_of_write hj with ⟨rfl, rfl⟩ | ⟨_, hj⟩
      · exact h j n hnote cid hcid
      · exact h j m hj cid hcid
  | @answer t n c ω a w' hrun hnote hgood hissue hans =>
    intro i m hi cid hcid
    show cid ∉ w'.manager.pinned
    rw [World.manager_answer hans]
    rcases View.note_of_write hi with ⟨rfl, rfl⟩ | ⟨_, hi⟩
    · exact h i _ hnote cid (by simpa [observer] using hcid)
    · exact h i m hi cid hcid
  | @join t i n m κ job r hrun hnote hwait hkid hne hfit hpost =>
    intro j k hj cid hcid
    rcases View.note_of_write hj with ⟨rfl, rfl⟩ | ⟨_, hj⟩
    · exact h j n hnote cid hcid
    · exact h j k (View.note_of_drop hj).2 cid hcid
  | @finish t n κ job r dropped hrun hnote hentry hpost hkids =>
    intro i m hi cid hcid
    show cid ∉ (dropped.foldl (fun w i => World.release i w) v.world).manager.pinned
    rw [World.releaseAll_eq]
    exact h i m (View.note_of_drop hi).2 cid hcid
  | renew hrun hnone =>
    intro i m hi
    have hi : v.note i = some m := hi
    rw [hnone i] at hi
    cases hi

/-- In every run in which no protected set is published that has a block on
the list of a pass in progress, no delete is issued for a pinned block. -/
theorem eviction_spares_pinned {w : World} {pool pool' : EnginePool}
    (hreach : EngineReach setting Spares w pool) {choice : Choice engineSig Circumstance}
    {t : Tid} {cid : Cid}
    (hstep : pool.step (engine setting) observer choice =
      some (.issued t (.deleteBlock cid), pool')) :
    cid ∉ pool.world.manager.pinned := by
  have hA : Covers setting fun _ _ => True := fun _ _ _ => trivial
  have hstore : ∀ cid data, w.store.get cid = some data → True := fun _ _ _ => trivial
  have hspared : Spared pool.view := by
    refine hreach.invariant hA hstore Spared.moves ?_
    intro t n hn
    cases hn
  obtain ⟨n, hnote, _, rest, hcondemned⟩ := (hreach.moves hA hstore hstep).of_issued
  exact hspared t n hnote cid (hcondemned ▸ List.mem_cons_self)

def spares (pool : EnginePool) : EngineEvent → Bool
  | .did _ o r =>
    match o.published r with
    | some pinned => pool.all fun _ n => n.condemned.all fun cid => decide (cid ∉ pinned)
    | none => true
  | _ => true

theorem spares_sound {pool : EnginePool} {event : EngineEvent} (h : spares pool event = true) :
    Spares pool.view event := by
  cases event with
  | did t o r =>
    intro pinned hpub i n hn cid hcid
    simp only [spares, hpub] at h
    exact of_decide_eq_true (List.all_eq_true.mp (Pool.of_all h hn) cid hcid)
  | _ => trivial

section Race

open Sample

/-- `add` of the one-byte file, over a capacity of one byte, up to where it
has chosen both blocks and issued the delete of the chunk. -/
def evicting : List (Choice engineSig Circumstance) :=
  [.start 0 (.add "f" [7])] ++ run 0 2 1 ++ run 1 1 1 ++ serve 1 1 1 ++ [.wake 0 (some 1)] ++
    run 0 4 1 ++ serve 0 4 1 ++ serve 0 2 1 ++ serve 0 4 1

/-- A fresh engine with the bare file in its store. -/
def withBare : World := .new 1 ((∅ : Table Cid Bytes).insert bareRoot bareText) none

def played (check : EnginePool → EngineEvent → Bool)
    (schedule : List (Choice engineSig Circumstance)) : Option EnginePool :=
  (Pool.init withBare Ledger.new).exec (engine (Sample.setting true)) observer check schedule

/-- Whether the next step of the running task issues the delete of a block
that is, or is not, pinned. -/
def deletes (cid : Cid) (pinned : Bool) (pool : EnginePool) : Bool :=
  match pool.step (engine (Sample.setting true)) observer (.move working 1) with
  | some (.issued t (.deleteBlock c), _) =>
    decide (t = 0 ∧ c = cid ∧ (cid ∈ pool.world.manager.pinned ↔ pinned = true))
  | _ => false

theorem deletes_step {cid : Cid} {pinned : Bool} {pool : EnginePool}
    (h : deletes cid pinned pool = true) :
    (∃ pool', pool.step (engine (Sample.setting true)) observer (.move working 1) =
      some (.issued 0 (.deleteBlock cid), pool')) ∧
      (cid ∈ pool.world.manager.pinned ↔ pinned = true) := by
  unfold deletes at h
  split at h
  · rename_i hstep
    obtain ⟨rfl, rfl, hpinned⟩ := of_decide_eq_true h
    exact ⟨⟨_, hstep⟩, hpinned⟩
  · cases h

/-- While a pass has the blocks of a file on its list the bare file is pinned:
the next delete is of a block that is not pinned. -/
theorem eviction_spares_pinned_bare :
    ∃ pool pool', EngineReach (Sample.setting true) Spares withBare pool ∧
      pool.step (engine (Sample.setting true)) observer (.move working 1) =
        some (.issued 0 (.deleteBlock fileRoot), pool') ∧
      fileRoot ∉ pool.world.manager.pinned := by
  have hrun : (played spares (evicting ++ [.start 2 (.pin bareRoot)] ++ run 2 3 3 ++ serve 2 3 3 ++
      serve 0 1 1)).any (deletes fileRoot false) = true := by
    decide +kernel
  obtain ⟨pool, hexec, hdeletes⟩ := Option.any_eq_true _ _ |>.mp hrun
  obtain ⟨pool', hstep⟩ := (deletes_step hdeletes).1
  have hreach := Reach.of_exec hexec spares_sound
  exact ⟨pool, pool', hreach, hstep, eviction_spares_pinned hreach hstep⟩

/-- The file whose blocks a pass has chosen is pinned while the pass awaits its first delete. The
pass goes on to delete the pinned root. -/
theorem eviction_races_pin :
    ∃ pool pool', EngineReach (Sample.setting true) (fun _ event => BackendsWork event = true)
        withBare pool ∧
      pool.step (engine (Sample.setting true)) observer (.move working 1) =
        some (.issued 0 (.deleteBlock fileRoot), pool') ∧
      fileRoot ∈ pool.world.manager.pinned := by
  have hrun : (played (fun _ => BackendsWork) (evicting ++ [.start 2 (.pin fileRoot)] ++ run 2 3 3 ++
      serve 2 3 3 ++ serve 0 1 1)).any (deletes fileRoot true) = true := by
    decide +kernel
  obtain ⟨pool, hexec, hdeletes⟩ := Option.any_eq_true _ _ |>.mp hrun
  obtain ⟨⟨pool', hstep⟩, hpinned⟩ := deletes_step hdeletes
  exact ⟨pool, pool', Reach.of_exec hexec fun h => h, hstep, hpinned.mpr rfl⟩

end Race

end Mistlib.Storage
