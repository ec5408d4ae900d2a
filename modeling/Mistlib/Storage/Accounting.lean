import Mistlib.Storage.Books
import Mistlib.Storage.EngineRun
import Mistlib.Storage.Formats

/-!
# Capacity accounting

The books of an engine, and that they stay balanced in every run in which no
task evicts what another writes and no task leaves a write half done.
-/

namespace Mistlib.Storage

open Async

def Note.window (n : Note) : Window := { n with }

/-- A task that is not there has nothing under way. -/
def windowOf : Option Note → Window
  | some n => n.window
  | none => .clear

def World.tracked (w : World) : Set Cid := {cid | ∃ size, w.manager.Tracks cid size}

def World.stored (w : World) : Set Cid := {cid | ∃ data, w.store.get cid = some data}

/-- The books of an engine and its tasks. -/
def books (v : EngineView) : Books where
  tracked := v.world.tracked
  stored := v.world.stored
  window t := windowOf (v.note t)

variable {setting : Setting} {A : Cid → Bytes → Prop} {v v' : EngineView} {t : Tid} {n m : Note}

theorem books_window (h : v.note t = some n) : (books v).window t = n.window := by
  simp only [books, h, windowOf]

theorem books_write (w : World) (g : Ledger) (r : Option Tid) (m : Note) :
    books (View.write ⟨w, g, v.note, r⟩ t m) =
      ⟨w.tracked, w.stored, Function.update (books v).window t m.window⟩ := by
  simp only [books, View.write_world, Books.mk.injEq, true_and]
  funext i
  rw [View.write_note, Function.update_apply]
  split
  · rfl
  · rfl

section Step

variable {w : World} {g : Ledger} {r : Option Tid}

theorem balanced_change (h : (books v).Balanced)
    (hchange : (books v).Change t m.window w.tracked w.stored) :
    (books (View.write ⟨w, g, v.note, r⟩ t m)).Balanced := by
  rw [books_write]
  exact h.change hchange

theorem balanced_same (h : (books v).Balanced) (htracked : w.tracked = v.world.tracked)
    (hstored : w.stored = v.world.stored) (hwindow : (books v).window t = m.window) :
    (books (View.write ⟨w, g, v.note, r⟩ t m)).Balanced := by
  rw [books_write, htracked, hstored, ← hwindow, Function.update_eq_self]
  exact h

end Step

/-! ### What a run has to respect -/

def Written (v : EngineView) (cid : Cid) : Prop := ∃ t, ((books v).window t).Writes cid

/-- Some task has chosen the block, and has not yet untracked it. -/
def Doomed (v : EngineView) (cid : Cid) : Prop := ∃ t, ((books v).window t).Dooms cid

/-- No victim is chosen that a task is writing, no task starts to write a
victim, and no task goes, or is dropped, with a write or an eviction half
done. The engine is not replaced. -/
def Orderly (v : EngineView) : EngineEvent → Prop
  | .did t (.trackBlock cid _ _) _ => ((books v).window t).write = .idle → ¬ Doomed v cid
  | .did _ (.victims _) chosen
  | .did _ (.decayVictims _) chosen => ∀ cid ∈ chosen, ¬ Written v cid
  | .issued t (.storeBlock cid _) => ((books v).window t).write = .idle → ¬ Doomed v cid
  | .finished t _ _ dropped => ∀ i ∈ t :: dropped, ((books v).window i).write = .idle ∧
      ∀ cid, ((books v).window i).deleting ≠ some (cid, true)
  | .renewed => False
  | _ => True

section Sets

variable {w : World} {cid : Cid}

theorem tracked_trackBlock (size : Nat) (position : Option Vector3) :
    World.tracked { w with manager := w.manager.trackBlock cid size position } =
      insert cid w.tracked := by
  ext c
  simp only [World.tracked, Set.mem_ofPred_eq, Set.mem_insert_iff, StorageManager.tracks_trackBlock]
  constructor
  · rintro ⟨k, htracks | ⟨rfl, _⟩⟩
    · exact Or.inr ⟨k, htracks⟩
    · exact Or.inl rfl
  · rintro (rfl | ⟨k, htracks⟩)
    · by_cases hnone : w.manager.blocksMeta.get c = none
      · exact ⟨size, Or.inr ⟨rfl, rfl, hnone⟩⟩
      · obtain ⟨entry, hentry⟩ := Option.ne_none_iff_exists'.mp hnone
        exact ⟨entry.size, Or.inl ⟨entry, hentry, rfl⟩⟩
    · exact ⟨k, Or.inl htracks⟩

theorem tracked_untrackBlock :
    World.tracked { w with manager := w.manager.untrackBlock cid } = w.tracked \ {cid} := by
  ext c
  simp only [World.tracked, Set.mem_ofPred_eq, Set.mem_sdiff, Set.mem_singleton_iff,
    StorageManager.tracks_untrackBlock]
  constructor
  · rintro ⟨k, hne, htracks⟩
    exact ⟨⟨k, htracks⟩, hne⟩
  · rintro ⟨⟨k, htracks⟩, hne⟩
    exact ⟨k, hne, htracks⟩

theorem tracked_touch : World.tracked { w with manager := w.manager.touch cid } = w.tracked := by
  ext c
  simp only [World.tracked, Set.mem_ofPred_eq, StorageManager.tracks_touch]

theorem stored_insert (data : Bytes) :
    World.stored { w with store := w.store.insert cid data } = insert cid w.stored := by
  ext c
  simp only [World.stored, Set.mem_ofPred_eq, Set.mem_insert_iff, Table.get_insert]
  by_cases hc : c = cid
  · simp [hc]
  · simp [hc]

theorem stored_erase :
    World.stored { w with store := w.store.erase cid } = w.stored \ {cid} := by
  ext c
  simp only [World.stored, Set.mem_ofPred_eq, Set.mem_sdiff, Set.mem_singleton_iff, Table.get_erase]
  by_cases hc : c = cid
  · simp [hc]
  · simp [hc]

end Sets

/-! ### Every step keeps the books balanced -/

variable {ω : Circumstance}

variable {g : Ledger} {r : Option Tid}

theorem balanced_op {o : Op} (hnote : v.note t = some n) (hop : contractOp setting A n o)
    (hguard : Orderly v (.did t o (v.world.perform setting o ω).1)) (h : (books v).Balanced) :
    (books (View.write ⟨(v.world.perform setting o ω).2, g, v.note, r⟩ t
      (Note.op o (v.world.perform setting o ω).1 v.world v.past n).2)).Balanced := by
  have hwindow := books_window hnote
  cases o with
  | trackBlock cid size position =>
    obtain ⟨hwrite, _⟩ := hop
    refine balanced_change h ?_
    show (books v).Change t _ (World.tracked { v.world with manager := _ }) v.world.stored
    rw [tracked_trackBlock]
    rcases hwrite with hwrite | hwrite
    · simp only [Note.op, hwrite, if_true]
      exact h.record hwindow hwrite
    · have hsafe := hguard (by rw [hwindow]; exact hwrite)
      simp only [Note.op, hwrite, reduceCtorEq, if_false]
      exact h.claim hwindow hwrite (not_exists.mp hsafe)
  | untrackBlock cid =>
    refine balanced_change h ?_
    show (books v).Change t _ (World.tracked { v.world with manager := _ }) v.world.stored
    rw [tracked_untrackBlock]
    exact h.forget hwindow hop
  | victims positions | decayVictims positions =>
    exact balanced_change h (h.choose hwindow fun cid hcid => not_exists.mp (hguard cid hcid))
  | touch cid => exact balanced_same h tracked_touch rfl hwindow
  | install registry =>
    cases registry with
    | none | some registry => exact balanced_same h rfl rfl hwindow
  | _ => exact balanced_same h rfl rfl hwindow

theorem balanced_issue {c : Call} (hnote : v.note t = some n) (hissue : contractIssue A n c)
    (hguard : Orderly v (.issued t c)) (h : (books v).Balanced) :
    (books (View.write ⟨v.world, v.past, v.note, r⟩ t (Note.issue c n))).Balanced := by
  have hwindow := books_window hnote
  cases c with
  | storeBlock cid data =>
    obtain ⟨hwrite | hwrite, _⟩ := hissue
    · refine balanced_same h rfl rfl ?_
      simp only [hwindow, Note.issue, hwrite, if_true]
      exact congrArg (fun write => (⟨write, n.condemned, n.deleting⟩ : Window)) hwrite
    · have hsafe := hguard (by rw [hwindow]; exact hwrite)
      refine balanced_change h ?_
      simp only [Note.issue, hwrite, reduceCtorEq, if_false]
      exact h.enter hwindow hwrite (not_exists.mp hsafe)
  | deleteBlock cid =>
    obtain ⟨hnone, rest, hcondemned⟩ := hissue
    have hcid : cid ∈ n.condemned := by
      rw [hcondemned]
      exact List.mem_cons_self
    exact balanced_change h (h.aim hwindow hnone hcid)
  | _ => exact balanced_same h rfl rfl hwindow

theorem write_issue_store {cid : Cid} {data : Bytes}
    (h : contractIssue A n (.storeBlock cid data)) :
    (Note.issue (.storeBlock cid data) n).write = .tracked cid ∨
      (Note.issue (.storeBlock cid data) n).write = .storing cid := by
  obtain ⟨hwrite | hwrite, _⟩ := h
  · exact Or.inl (by simp [Note.issue, hwrite])
  · exact Or.inr (by simp [Note.issue, hwrite])

theorem balanced_answer {c : Call} {a : c.Ans} {w' : World}
    (hnote : v.note t = some (Note.issue c n)) (hissue : contractIssue A n c)
    (hanswer : World.answer c ω t v.world = some (a, w')) (h : (books v).Balanced) :
    (books (View.write ⟨w', g, v.note, r⟩ t (Note.effect c a v.past (Note.issue c n)).2)).Balanced := by
  have hwindow := books_window hnote
  cases World.answers hanswer with
  | storeBlock cid data =>
    refine balanced_change h ?_
    show (books v).Change t _ v.world.tracked (World.stored { v.world with store := _ })
    rw [stored_insert]
    rcases write_issue_store hissue with hwrite | hwrite
    · simp only [Note.effect, hwrite]
      exact h.settle hwindow hwrite
    · simp only [Note.effect, hwrite]
      exact h.land hwindow hwrite
  | storeFailed cid data e =>
    rcases write_issue_store hissue with hwrite | hwrite
    · refine balanced_same h rfl rfl ?_
      simp only [Note.effect, hwrite]
      exact hwindow.trans (congrArg (fun write => (⟨write, _, _⟩ : Window)) hwrite)
    · refine balanced_change h ?_
      simp only [Note.effect, hwrite]
      exact h.abandon hwindow hwrite
  | deleteBlock cid =>
    refine balanced_change h ?_
    show (books v).Change t _ v.world.tracked (World.stored { v.world with store := _ })
    rw [stored_erase]
    exact h.strike hwindow rfl
  | deleteFailed cid e => exact balanced_change h (h.spare hwindow rfl)
  | metaSet data =>
    refine balanced_same h rfl rfl (hwindow.trans ?_)
    simp only [Note.effect]
    split
    · rfl
    · rfl
    · rfl
  | _ => exact balanced_same h rfl rfl hwindow

theorem balanced_join {i : Tid} (hnote : v.note t = some n) (hwrite : n.write = .idle)
    (hkid : v.note i = some m) (hne : i ≠ t) (hclosed : m.Closed) (h : (books v).Balanced) :
    (books ((v.drop [i]).write t (observer.join m n))).Balanced := by
  have hwindow := books_window hkid
  have hgone : ∀ cid, ((books v).window i).deleting ≠ some (cid, true) := by
    rw [hwindow]
    exact hclosed.deleting
  have hbooks : books ((v.drop [i]).write t (observer.join m n)) =
      { books v with window := Function.update (Function.update (books v).window t
        { n.window with write := ((books v).window i).write }) i .clear } := by
    refine Books.mk.injEq .. |>.mpr ⟨rfl, rfl, ?_⟩
    funext j
    rw [View.write_note, Function.update_apply, Function.update_apply]
    by_cases hj : j = i
    · rw [if_neg (hj ▸ hne), if_pos hj]
      simp [View.drop, hj, windowOf]
    · rw [if_neg hj]
      split
      · simp only [hwindow]
        rfl
      · simp [View.drop, hj, books]
  rw [hbooks]
  exact h.handOver hne (books_window hnote) hwrite hgone

theorem balanced_finish {w : World} {gone : List Tid} (htracked : w.tracked = v.world.tracked)
    (hstored : w.stored = v.world.stored)
    (hidle : ∀ i ∈ gone, ((books v).window i).write = .idle ∧
      ∀ cid, ((books v).window i).deleting ≠ some (cid, true))
    (h : (books v).Balanced) :
    (books { View.drop v gone with world := w, past := g }).Balanced := by
  have hbooks : books { View.drop v gone with world := w, past := g } =
      { books v with window := fun i => if i ∈ gone then .clear else (books v).window i } := by
    simp only [books, Books.mk.injEq]
    refine ⟨htracked, hstored, ?_⟩
    funext i
    simp only [View.drop]
    split
    · rfl
    · rfl
  rw [hbooks]
  exact h.leaveAll gone hidle

variable {event : EngineEvent}

/-- Each move of the engine keeps the books balanced. -/
theorem balanced_moves (hmove : EngineMoves setting A v event v') (hguard : Orderly v event)
    (h : (books v).Balanced) : (books v').Balanced := by
  cases hmove with
  | @start t κ job hrun hnone hentry hfit =>
    refine balanced_same h rfl rfl ?_
    simp only [books, hnone]
    rfl
  | resume hrun hnote | park hrun hnote hwait | ended hrun hnote hpost | leave hrun => exact h
  | op hrun hnote hgood hop => exact balanced_op hnote hop hguard h
  | issue hrun hnote hissue => exact balanced_issue hnote hissue hguard h
  | @spawn t i n κ job hrun hnote hnone hfit hspawn =>
    have hsame : (books (View.write { v with } t
        (observer.spawn n))).Balanced := balanced_same h rfl rfl ((books_window hnote).trans rfl)
    refine balanced_same hsame rfl rfl ?_
    have hne : i ≠ t := by
      rintro rfl
      rw [hnone] at hnote
      cases hnote
    simp only [books, View.write_note, if_neg hne, hnone]
    rfl
  | answer hrun hnote hgood hissue hanswer => exact balanced_answer hnote hissue hanswer h
  | join hrun hnote hwait hkid hne hfit hpost =>
    exact balanced_join hnote hwait hkid hne hpost.2 h
  | finish hrun hnote hentry hpost hkids =>
    refine balanced_finish ?_ ?_ hguard h
    · show World.tracked (List.foldl (fun w i => World.release i w) _ _) = _
      rw [World.releaseAll_eq]
      rfl
    · show World.stored (List.foldl (fun w i => World.release i w) _ _) = _
      rw [World.releaseAll_eq]
      rfl
  | renew hrun hnone => exact hguard.elim

/-! ### Sizes and usage -/

/-- The usage counts the entries' bytes, and an entry's bytes are those of the
block with its content id. -/
structure Sized (setting : Setting) (m : StorageManager) : Prop where
  usage : m.Exact
  size : ∀ cid n, m.Tracks cid n → ∃ data, Addresses setting.sha256 cid data ∧ data.length = n

theorem Sized.perform {o : Op} {w : World} (hop : contractOp setting (Addresses setting.sha256) n o)
    (h : Sized setting w.manager) :
    Sized setting (w.perform setting o ω).2.manager := by
  cases o with
  | trackBlock cid size position =>
    obtain ⟨_, data, haddress, hlength⟩ := hop
    refine ⟨h.usage.trackBlock cid size position, ?_⟩
    intro c k htracks
    rcases StorageManager.tracks_trackBlock.mp htracks with htracks | ⟨rfl, rfl, _⟩
    · exact h.size c k htracks
    · exact ⟨data, haddress, hlength⟩
  | untrackBlock cid =>
    refine ⟨h.usage.untrackBlock cid, ?_⟩
    intro c k htracks
    exact h.size c k (StorageManager.tracks_untrackBlock.mp htracks).2
  | touch cid =>
    refine ⟨h.usage.touch cid, ?_⟩
    intro c k htracks
    exact h.size c k (StorageManager.tracks_touch.mp htracks)
  | install registry =>
    cases registry with
    | none => exact h
    | some registry => exact ⟨h.usage, h.size⟩
  | protect root cids | republish => exact ⟨h.usage, h.size⟩
  | _ => exact h

theorem Sized.new (maxCapacityBytes : Nat) : Sized setting (.new maxCapacityBytes) := by
  refine ⟨rfl, ?_⟩
  rintro cid n ⟨entry, hentry, _⟩
  cases hentry

/-- Each move keeps the usage the sum of the blocks' sizes. -/
theorem Sized.moves (hmove : EngineMoves setting (Addresses setting.sha256) v event v')
    (h : Sized setting v.world.manager) : Sized setting v'.world.manager := by
  cases hmove with
  | op hrun hnote hgood hop => exact h.perform hop
  | @answer t n c ω a w' hrun hnote hgood hissue hanswer =>
    show Sized setting w'.manager
    rw [World.manager_answer hanswer]
    exact h
  | finish hrun hnote hentry hpost hkids =>
    show Sized setting (List.foldl (fun w i => World.release i w) _ _).manager
    rw [World.releaseAll_eq]
    exact h
  | renew hrun hnone => exact .new _
  | _ => exact h

/-! ### Between calls -/

/-- What is tracked is what is stored, and the usage is its size. -/
structure Settled (w : World) : Prop where
  blocks : ∀ cid, w.manager.blocksMeta.contains cid = w.store.contains cid
  usage : w.manager.currentUsage = w.store.sumBy List.length

/-- In every run in which the calls respect `Orderly`, from an empty store on,
the books agree whenever no call is in progress. The blocks in the store share their digests with
no other bytes. -/
theorem accounting_settled {maxCapacityBytes : Nat} {pins : Option Bytes} {pool : EnginePool}
    (hapart : ∀ cid data, pool.world.store.get cid = some data →
      ∀ other, setting.sha256 other = setting.sha256 data → other = data)
    (hreach : EngineReach setting Orderly (World.new maxCapacityBytes ∅ pins) pool)
    (hdone : pool.threads.size = 0) : Settled pool.world := by
  let A := Addresses setting.sha256
  have hA : Covers setting A := fun _ _ h => h
  have hstore : ∀ cid data, (World.new maxCapacityBytes ∅ pins).store.get cid = some data →
      A cid data := nofun
  have hgood : ∀ cid data, pool.world.store.get cid = some data → A cid data :=
    (hreach.kept (engine_sound hA) (Pool.Kept.init hstore _)).good
  have hsized : Sized setting pool.world.manager :=
    hreach.invariant hA hstore (fun hmove _ => Sized.moves hmove) (.new maxCapacityBytes)
  have hbalanced : (books pool.view).Balanced := by
    refine hreach.invariant hA hstore balanced_moves ?_
    have hempty : books (Pool.init (World.new maxCapacityBytes ∅ pins) Ledger.new : EnginePool).view =
        ⟨∅, ∅, fun _ => .clear⟩ := by
      simp only [books, Books.mk.injEq]
      refine ⟨?_, ?_, rfl⟩
      · ext cid
        simp [World.tracked, StorageManager.Tracks, Pool.view, Pool.init, World.new,
          StorageManager.new]
      · ext cid
        simp [World.stored, Pool.view, Pool.init, World.new]
    rw [hempty]
    exact .empty
  have hsame : pool.world.tracked = pool.world.stored := by
    refine hbalanced.settled fun t => ?_
    simp only [books, Pool.note_of_done hdone]
    rfl
  -- A block has one size: that of the only block with its content id.
  have hsize : ∀ cid, (pool.world.manager.blocksMeta.get cid).map BlockMeta.size =
      (pool.world.store.get cid).map List.length := by
    intro cid
    have hiff := Set.ext_iff.mp hsame cid
    cases hentry : pool.world.manager.blocksMeta.get cid with
    | some entry =>
      obtain ⟨data, hdata⟩ := hiff.mp ⟨_, entry, hentry, rfl⟩
      obtain ⟨data', haddress, hlength⟩ := hsized.size cid _ ⟨entry, hentry, rfl⟩
      obtain rfl := hapart cid data hdata data' (haddress.digest (hgood cid data hdata))
      rw [hdata, Option.map_some, Option.map_some, hlength]
    | none =>
      cases hdata : pool.world.store.get cid with
      | none => rfl
      | some data =>
        obtain ⟨n, entry, hentry', _⟩ := hiff.mpr ⟨data, hdata⟩
        rw [hentry] at hentry'
        cases hentry'
  refine ⟨fun cid => ?_, ?_⟩
  · have hcid := congrArg Option.isSome (hsize cid)
    simp only [Option.isSome_map] at hcid
    exact hcid
  · rw [hsized.usage]
    exact Table.sumBy_congr hsize

def orderly (pool : EnginePool) : EngineEvent → Bool
  | .did _ (.trackBlock cid _ _) _ => pool.all fun _ n => decide (¬ n.window.Dooms cid)
  | .did _ (.victims _) chosen | .did _ (.decayVictims _) chosen =>
    pool.all fun _ n => decide (∀ cid ∈ chosen, ¬ n.window.Writes cid)
  | .issued _ (.storeBlock cid _) => pool.all fun _ n => decide (¬ n.window.Dooms cid)
  | .finished t _ _ dropped => pool.all fun i n =>
    decide (i ∈ t :: dropped → n.write = .idle ∧ n.deleting.map Prod.snd ≠ some true)
  | .renewed => false
  | _ => true

/-- What the notes of a pool pass, and nothing under way passes, every window
passes. -/
theorem window_of_all {pool : EnginePool} {P : Tid → Window → Prop} [∀ t w, Decidable (P t w)]
    (h : (pool.all fun t n => decide (P t n.window)) = true) (hclear : ∀ t, P t .clear) (t : Tid) :
    P t ((books pool.view).window t) := by
  simp only [books]
  cases hnote : pool.view.note t with
  | none => exact hclear t
  | some n => exact of_decide_eq_true (Pool.of_all h hnote)

/-- What the check of a schedule lets through is orderly. -/
theorem orderly_sound {pool : EnginePool} (h : orderly pool event = true) : Orderly pool.view event := by
  have hdoomed : ∀ {cid}, (pool.all fun _ n => decide (¬ n.window.Dooms cid)) = true →
      ¬ Doomed pool.view cid := by
    rintro cid hall ⟨t, ht⟩
    exact window_of_all (P := fun _ w => ¬ w.Dooms cid) hall (by simp [Window.Dooms, Window.clear])
      t ht
  have hwritten : ∀ {chosen : List Cid},
      (pool.all fun _ n => decide (∀ cid ∈ chosen, ¬ n.window.Writes cid)) = true →
      ∀ cid ∈ chosen, ¬ Written pool.view cid := by
    rintro chosen hall cid hcid ⟨t, ht⟩
    exact window_of_all (P := fun _ w => ∀ cid ∈ chosen, ¬ w.Writes cid) hall
      (by simp [Window.Writes, Window.clear]) t cid hcid ht
  cases event with
  | did t o r =>
    cases o with
    | trackBlock cid size position => exact fun _ => hdoomed h
    | victims positions | decayVictims positions => exact hwritten h
    | _ => trivial
  | issued t c =>
    cases c with
    | storeBlock cid data => exact fun _ => hdoomed h
    | _ => trivial
  | finished t job r dropped =>
    intro i hi
    have hall := window_of_all (P := fun i w => i ∈ t :: dropped →
      w.write = .idle ∧ w.deleting.map Prod.snd ≠ some true) h (by simp [Window.clear]) i hi
    refine ⟨hall.1, ?_⟩
    intro cid hdeleting
    exact hall.2 (by rw [hdeleting]; rfl)
  | renewed => cases h
  | _ => trivial

section Runs

open Sample

/-- A file is added, and then another is fetched for which it has to go. -/
def addThenGet : List (Choice engineSig Circumstance) :=
  [.start 0 (.add "f" [7])] ++ run 0 2 1 ++ run 1 1 1 ++ serve 1 1 1 ++ [.wake 0 (some 1)] ++
    run 0 4 1 ++ serve 0 4 1 ++ [.finish 0, .start 0 (.get bareRoot)] ++ run 0 1 1 ++
    serve 0 1 1 ++ serve 0 5 1 ++ serve 0 2 1 ++ serve 0 2 1 ++ serve 0 1 1 ++ serve 0 2 1 ++
    [.finish 0]

theorem accounting_settled_fetch :
    ∃ pool, EngineReach (Sample.setting false) Orderly (World.new 90 ∅ none) pool ∧
      pool.world.store.get bareRoot = some bareText ∧ Settled pool.world := by
  have hrun : ((Pool.init (World.new 90 ∅ none) Ledger.new).exec (engine (Sample.setting false))
      observer orderly addThenGet).any (fun pool => decide (pool.threads.size = 0 ∧
        pool.world.store.get bareRoot = some bareText)) = true := by
    decide +kernel
  obtain ⟨pool, hexec, hpool⟩ := Option.any_eq_true _ _ |>.mp hrun
  obtain ⟨hdone, hbare⟩ := of_decide_eq_true hpool
  have hreach := Reach.of_exec hexec orderly_sound
  exact ⟨pool, hreach, hbare,
    accounting_settled (fun _ _ _ _ heq => Sample.sha256_injective false heq) hreach hdone⟩

/-- A fetch under a capacity of nothing: the block is tracked, evicted on its
own account, and then stored. -/
def getOver : List (Choice engineSig Circumstance) :=
  [.start 0 (.get bareRoot)] ++ run 0 1 1 ++ serve 0 1 1 ++ serve 0 5 1 ++ serve 0 2 1 ++
    serve 0 1 1 ++ serve 0 2 1 ++ [.finish 0]

/-- One call of `get` on an empty store, every backend call of which succeeds,
leaves a stored block that is not tracked. -/
theorem accounting_fetch_evicts_itself :
    ∃ pool, EngineReach (Sample.setting false) (fun _ event => BackendsWork event = true)
        (World.new 0 ∅ none) pool ∧
      pool.threads.size = 0 ∧ pool.world.store.contains bareRoot = true ∧
      pool.world.manager.blocksMeta.contains bareRoot = false ∧ ¬ Settled pool.world := by
  have hrun : ((Pool.init (World.new 0 ∅ none) Ledger.new).exec (engine (Sample.setting false))
      observer (fun _ => BackendsWork) getOver).any (fun pool => decide (pool.threads.size = 0 ∧
        pool.world.store.contains bareRoot = true ∧
        pool.world.manager.blocksMeta.contains bareRoot = false)) = true := by
    decide +kernel
  obtain ⟨pool, hexec, hpool⟩ := Option.any_eq_true _ _ |>.mp hrun
  obtain ⟨hdone, hstored, htracked⟩ := of_decide_eq_true hpool
  refine ⟨pool, Reach.of_exec hexec fun h => h, hdone, hstored, htracked, ?_⟩
  intro hsettled
  have hblocks := hsettled.blocks bareRoot
  rw [hstored, htracked] at hblocks
  cases hblocks

end Runs

end Mistlib.Storage
