import Mistlib.Storage.EngineRun

/-!
# How the pin registry is loaded

What every run of the engine keeps, whatever its backends answer and however
its tasks interleave: the registry is read once, under `pin_registry_io`,
from what the metadata store holds, and nothing changes it before.
-/

namespace Mistlib.Storage

open Async

/-- What the note on a task says about the registry is so. -/
structure Fits (w : World) (t : Tid) (n : Note) : Prop where
  seen : n.seen = true → w.pinRegistryLoaded = true
  locked : n.lock ≠ .free → w.pinRegistryIo = some t
  unloaded : n.lock = .unloaded → w.pinRegistryLoaded = false
  fetched : ∀ pins, n.lock = .fetched pins → w.pinRegistryLoaded = false ∧ pins = w.pins
  active : ¬ n.phase.Resting → w.pinRegistryLoaded = true ∧ n.main = true

/-- The registry and the notes agree on whether it is loaded. -/
structure Loading (v : EngineView) : Prop where
  notes : ∀ t n, v.note t = some n → Fits v.world t n
  version : v.world.pinRegistry.v = REGISTRY_VERSION
  fresh : v.world.pinRegistryLoaded = false →
    v.world.pinRegistry = .new ∧ v.world.manager.pinned = ∅

variable {setting : Setting} {A : Cid → Bytes → Prop} {v v' : EngineView} {t : Tid} {n m : Note}
  {w w' : World}

theorem Fits.start {κ : Kind} (job : Job κ) : Fits w t (Note.start job) :=
  ⟨nofun, fun h => absurd rfl h, nofun, nofun, fun h => absurd trivial h⟩

theorem Fits.frame (h : Fits w t n) (hloaded : w'.pinRegistryLoaded = w.pinRegistryLoaded)
    (hio : w'.pinRegistryIo = w.pinRegistryIo) (hpins : w'.pins = w.pins) : Fits w' t n := by
  obtain ⟨h1, h2, h3, h4, h5⟩ := h
  exact ⟨hloaded ▸ h1, hio ▸ h2, hloaded ▸ h3, hloaded ▸ hpins ▸ h4, hloaded ▸ h5⟩

variable {g : Ledger} {r : Option Tid}

/-- A step that leaves the registry alone keeps the loading. -/
theorem Loading.step (h : Loading v) (hloaded : w.pinRegistryLoaded = v.world.pinRegistryLoaded)
    (hio : w.pinRegistryIo = v.world.pinRegistryIo) (hpins : w.pins = v.world.pins)
    (hversion : w.pinRegistry.v = v.world.pinRegistry.v)
    (hfresh : v.world.pinRegistryLoaded = false → w.pinRegistry = v.world.pinRegistry ∧
      w.manager.pinned = v.world.manager.pinned)
    (hm : Fits v.world t m) : Loading (View.write ⟨w, g, v.note, r⟩ t m) := by
  refine ⟨?_, hversion.trans h.version, ?_⟩
  · intro i k hi
    rcases View.note_of_write hi with ⟨rfl, rfl⟩ | ⟨_, hi⟩
    · exact hm.frame hloaded hio hpins
    · exact (h.notes i k hi).frame hloaded hio hpins
  · intro hnot
    have hold : v.world.pinRegistryLoaded = false := hloaded.symm.trans hnot
    obtain ⟨hregistry, hpinned⟩ := hfresh hold
    exact ⟨hregistry.trans (h.fresh hold).1, hpinned.trans (h.fresh hold).2⟩

theorem Phase.resting_idle {p : Phase} (h : p = .idle) : p.Resting := by
  rw [h]
  trivial

theorem Fits.keep (h : Fits w t n) (hseen : m.seen = n.seen) (hlock : m.lock = n.lock)
    (hphase : ¬ m.phase.Resting → ¬ n.phase.Resting) (hmain : m.main = n.main) : Fits w t m := by
  obtain ⟨h1, h2, h3, h4, h5⟩ := h
  exact ⟨hseen ▸ h1, hlock ▸ h2, hlock ▸ h3, hlock ▸ h4, fun hp => hmain ▸ h5 (hphase hp)⟩

theorem Fits.change (h : Fits w t n) (hseen : m.seen = n.seen) (hlock : m.lock = n.lock)
    (hmain : m.main = true) (hloaded : w.pinRegistryLoaded = true) : Fits w t m := by
  obtain ⟨h1, h2, h3, h4, _⟩ := h
  exact ⟨hseen ▸ h1, hlock ▸ h2, hlock ▸ h3, hlock ▸ h4, fun _ => ⟨hloaded, hmain⟩⟩

theorem Fits.saw (h : Fits w t n) : Fits w t (n.saw w.pinRegistryLoaded) := by
  obtain ⟨h1, h2, h3, h4, h5⟩ := h
  refine ⟨?_, ?_, ?_, ?_, h5⟩
  · intro hseen
    simp only [Note.saw, Bool.or_eq_true] at hseen
    exact hseen.elim h1 id
  · intro hlock
    simp only [Note.saw] at hlock
    split at hlock
    · rename_i hheld
      exact h2 (by rw [hheld.1]; simp)
    · exact h2 hlock
  · intro hlock
    simp only [Note.saw] at hlock
    split at hlock
    · rename_i hheld
      exact hheld.2
    · exact h3 hlock
  · intro pins hlock
    simp only [Note.saw] at hlock
    split at hlock
    · cases hlock
    · exact h4 pins hlock

theorem Fits.stored (h : Fits w t n) (hloaded : w.pinRegistryLoaded = true) (pins : Option Bytes) :
    Fits { w with pins } t n := by
  refine ⟨h.seen, h.locked, h.unloaded, ?_, h.active⟩
  intro pins' hlock
  have hnot := (h.fetched pins' hlock).1
  rw [hloaded] at hnot
  cases hnot

theorem Loading.lock_free (h : Loading v) (hn : v.note t = some n) (hlock : n.lock ≠ .free)
    {i : Tid} {k : Note} (hk : v.note i = some k) (hne : i ≠ t) : k.lock = .free := by
  by_contra hkl
  have ht := (h.notes t n hn).locked hlock
  have hi := (h.notes i k hk).locked hkl
  rw [ht] at hi
  exact hne (Option.some.inj hi).symm

theorem Fits.unlock (h : Fits w t n) (hlock : n.lock = .free)
    (hloaded : w.pinRegistryLoaded = true → w'.pinRegistryLoaded = true) : Fits w' t n := by
  refine ⟨fun hs => hloaded (h.seen hs), ?_, ?_, ?_, fun hp => ⟨hloaded (h.active hp).1, (h.active hp).2⟩⟩
  · exact fun hl => absurd hlock hl
  · intro hl
    rw [hlock] at hl
    cases hl
  · intro pins hl
    rw [hlock] at hl
    cases hl

theorem Loading.op {o : Op} {ω : Circumstance} (h : Loading v) (hnote : v.note t = some n)
    (hop : contractOp setting A n o) :
    Loading (View.write ⟨(v.world.perform setting o ω).2, g, v.note, r⟩ t
      (Note.op o (v.world.perform setting o ω).1 v.world v.past n).2) := by
  have hn := h.notes t n hnote
  cases o with
  | registryLoaded => exact h.step rfl rfl rfl rfl (fun _ => ⟨rfl, rfl⟩) hn.saw
  | isPinned root =>
    refine h.step rfl rfl rfl rfl (fun _ => ⟨rfl, rfl⟩) (hn.keep rfl rfl ?_ rfl)
    simp only [Note.op, Note.found]
    split
    · exact fun hp => absurd trivial hp
    · exact id
  | protect root cids | forget root =>
    obtain ⟨hmain, hseen, _⟩ := hop
    have hloaded := hn.seen hseen
    exact h.step rfl rfl rfl rfl (fun hnot => by rw [hloaded] at hnot; cases hnot)
      (hn.change rfl rfl hmain hloaded)
  | snapshot =>
    obtain ⟨root, hphase⟩ := hop
    have hactive := hn.active (by rw [hphase]; exact id)
    exact h.step rfl rfl rfl rfl (fun _ => ⟨rfl, rfl⟩) (hn.change rfl rfl hactive.2 hactive.1)
  | republish =>
    obtain ⟨root, hphase⟩ := hop
    have hactive := hn.active (by rw [hphase]; exact id)
    exact h.step rfl rfl rfl rfl (fun hnot => by rw [hactive.1] at hnot; cases hnot)
      (hn.change rfl rfl hactive.2 hactive.1)
  | install registry =>
    obtain ⟨pins, hlock, hread⟩ := hop
    have hheld : n.lock ≠ .free := by
      rw [hlock]
      simp
    obtain ⟨hnot, rfl⟩ := hn.fetched pins hlock
    have hself : ∀ {w' : World}, w'.pinRegistryLoaded = true →
        w'.pinRegistryIo = v.world.pinRegistryIo →
        Fits w' t { n with seen := true, lock := .held } := by
      intro w' hloaded hio
      exact ⟨fun _ => hloaded, fun _ => hio.trans (hn.locked hheld), (by simp), (by simp),
        fun hp => ⟨hloaded, (hn.active hp).2⟩⟩
    cases registry with
    | none =>
      refine ⟨?_, h.version, (by rintro ⟨⟩)⟩
      intro i k hi
      rcases View.note_of_write hi with ⟨rfl, rfl⟩ | ⟨hne, hi⟩
      · exact hself rfl rfl
      · exact (h.notes i k hi).unlock (h.lock_free hnote hheld hi hne) fun _ => rfl
    | some registry =>
      refine ⟨?_, ?_, (by rintro ⟨⟩)⟩
      · intro i k hi
        rcases View.note_of_write hi with ⟨rfl, rfl⟩ | ⟨hne, hi⟩
        · exact hself rfl rfl
        · exact (h.notes i k hi).unlock (h.lock_free hnote hheld hi hne) fun _ => rfl
      · split at hread
        · obtain ⟨r', hr', heq⟩ := hread
          cases heq
          exact RegistryText.version_fromJson hr'
        · cases hread
  | unlockIo =>
    refine ⟨?_, h.version, h.fresh⟩
    intro i k hi
    rcases View.note_of_write hi with ⟨rfl, rfl⟩ | ⟨hne, hi⟩
    · exact ⟨hn.seen, fun hl => absurd rfl hl, (by rintro ⟨⟩), (by rintro _ ⟨⟩), hn.active⟩
    · exact (h.notes i k hi).unlock (h.lock_free hnote hop hi hne) id
  | touch cid =>
    exact h.step rfl rfl rfl rfl (fun _ => ⟨rfl, StorageManager.pinned_touch _ _⟩) hn
  | trackBlock cid size position =>
    exact h.step rfl rfl rfl rfl (fun _ => ⟨rfl, StorageManager.pinned_trackBlock _ _ _ _⟩)
      (hn.keep rfl rfl id rfl)
  | untrackBlock cid =>
    exact h.step rfl rfl rfl rfl (fun _ => ⟨rfl, StorageManager.pinned_untrackBlock _ _⟩)
      (hn.keep rfl rfl id rfl)
  | _ => exact h.step rfl rfl rfl rfl (fun _ => ⟨rfl, rfl⟩) (hn.keep rfl rfl id rfl)

theorem Loading.issue {c : Call} (h : Loading v) (hnote : v.note t = some n) :
    Loading (View.write ⟨v.world, v.past, v.note, r⟩ t (Note.issue c n)) := by
  refine h.step rfl rfl rfl rfl (fun _ => ⟨rfl, rfl⟩) ?_
  have hn := h.notes t n hnote
  cases c with
  | _ => exact hn.keep rfl rfl id rfl

theorem active_of_metaSet {data : Bytes} (h : contractIssue A n (.metaSet data)) :
    ¬ n.phase.Resting := by
  rcases h with ⟨root, number, hphase⟩ | ⟨root, number, hphase⟩
  all_goals
    rw [hphase]
    exact id

theorem Loading.store (h : Loading v) (hloaded : v.world.pinRegistryLoaded = true)
    (pins : Option Bytes) (hm : Fits v.world t m) :
    Loading (View.write ⟨{ v.world with pins }, g, v.note, r⟩ t m) := by
  refine ⟨?_, h.version, h.fresh⟩
  intro i k hi
  rcases View.note_of_write hi with ⟨rfl, rfl⟩ | ⟨_, hi⟩
  · exact hm.stored hloaded pins
  · exact (h.notes i k hi).stored hloaded pins

theorem Loading.answer {c : Call} {ω : Circumstance} {a : c.Ans} (h : Loading v)
    (hnote : v.note t = some (Note.issue c n)) (hissue : contractIssue A n c)
    (hanswer : World.answer c ω t v.world = some (a, w')) :
    Loading (View.write ⟨w', g, v.note, r⟩ t (Note.effect c a v.past (Note.issue c n)).2) := by
  have hn := h.notes t _ hnote
  cases World.answers hanswer with
  | lockIo hfree =>
    have hlock : n.lock = .free := hissue
    refine ⟨?_, h.version, h.fresh⟩
    intro i k hi
    rcases View.note_of_write hi with ⟨rfl, rfl⟩ | ⟨hne, hi⟩
    · exact ⟨hn.seen, fun _ => rfl, nofun, nofun, hn.active⟩
    · have hk := h.notes i k hi
      refine hk.unlock ?_ id
      by_contra hkl
      have hio := hk.locked hkl
      rw [hfree] at hio
      cases hio
  | metaGet =>
    have hlock : n.lock = .unloaded := hissue
    refine h.step rfl rfl rfl rfl (fun _ => ⟨rfl, rfl⟩) ⟨hn.seen, ?_, nofun, ?_, hn.active⟩
    · exact fun _ => hn.locked (by show n.lock ≠ _; rw [hlock]; nofun)
    · rintro pins heq
      cases heq
      exact ⟨hn.unloaded hlock, rfl⟩
  | metaSet data =>
    have hactive := hn.active (active_of_metaSet (A := A) hissue)
    refine h.store hactive.1 _ ?_
    refine hn.change ?_ ?_ ((Note.main_effect _ _ _ _).trans hactive.2) hactive.1
    · simp only [Note.effect]
      split <;> rfl
    · simp only [Note.effect]
      split <;> rfl
  | metaSetFailed data e hpins =>
    have hactive := hn.active (active_of_metaSet (A := A) hissue)
    exact h.store hactive.1 _ (hn.keep rfl rfl (fun hp => absurd trivial hp) rfl)
  | storeBlock cid data | deleteBlock cid | deleteFailed cid e | storeFailed cid data e =>
    exact h.step rfl rfl rfl rfl (fun _ => ⟨rfl, rfl⟩) (hn.keep rfl rfl id rfl)
  | _ => exact h.step rfl rfl rfl rfl (fun _ => ⟨rfl, rfl⟩) hn

theorem pinRegistryIo_releaseAll {gone : List Tid} (hmem : t ∉ gone)
    (h : w.pinRegistryIo = some t) :
    (gone.foldl (fun w i => World.release i w) w).pinRegistryIo = some t := by
  induction gone generalizing w with
  | nil => exact h
  | cons i rest ih =>
    obtain ⟨hne, hrest⟩ := not_or.mp (fun hor => hmem (List.mem_cons.mpr hor))
    refine ih hrest ?_
    have hio : w.pinRegistryIo ≠ some i := by
      rw [h]
      exact fun heq => hne (Option.some.inj heq)
    show (World.release i w).pinRegistryIo = some t
    unfold World.release
    rw [if_neg hio]
    exact h

theorem Loading.finish {gone : List Tid} (h : Loading v) :
    Loading { View.drop v (t :: gone) with
      world := gone.foldl (fun w i => World.release i w) v.world
      past := g
      running := r } := by
  have hw := World.releaseAll_eq gone v.world
  refine ⟨?_, ?_, ?_⟩
  · intro i k hi
    obtain ⟨hmem, hi⟩ := View.note_of_drop hi
    have hk := h.notes i k hi
    refine ⟨?_, ?_, ?_, ?_, ?_⟩
    · rw [hw]
      exact hk.seen
    · exact fun hl => pinRegistryIo_releaseAll (fun hg => hmem (List.mem_cons_of_mem _ hg)) (hk.locked hl)
    · rw [hw]
      exact hk.unloaded
    · rw [hw]
      exact hk.fetched
    · rw [hw]
      exact hk.active
  · show (List.foldl _ _ _ : World).pinRegistry.v = _
    rw [hw]
    exact h.version
  · show (List.foldl _ _ _ : World).pinRegistryLoaded = false → _
    rw [hw]
    exact h.fresh

/-- Each move keeps the loading of the registry. -/
theorem Loading.moves {event : EngineEvent} (hmove : EngineMoves setting A v event v')
    (h : Loading v) : Loading v' := by
  cases hmove with
  | start hrun hnone hentry hfit => exact h.step rfl rfl rfl rfl (fun _ => ⟨rfl, rfl⟩) (.start _)
  | resume hrun hnote | park hrun hnote hwait | ended hrun hnote hpost => exact { h with }
  | op hrun hnote hgood hop => exact h.op hnote hop
  | issue hrun hnote hissue => exact h.issue hnote
  | @spawn t i n κ job hrun hnote hnone hfit hspawn =>
    have hspawned : Loading (View.write { v with } t (observer.spawn n)) :=
      h.step rfl rfl rfl rfl (fun _ => ⟨rfl, rfl⟩) ((h.notes t n hnote).keep rfl rfl id rfl)
    exact hspawned.step rfl rfl rfl rfl (fun _ => ⟨rfl, rfl⟩) (.start job)
  | answer hrun hnote hgood hissue hanswer => exact h.answer hnote hissue hanswer
  | @join t i n m κ job r hrun hnote hwait hkid hne hfit hpost =>
    refine ⟨?_, h.version, h.fresh⟩
    intro j k hj
    rcases View.note_of_write hj with ⟨rfl, rfl⟩ | ⟨_, hj⟩
    · exact (h.notes j n hnote).keep rfl rfl id rfl
    · exact h.notes j k (View.note_of_drop hj).2
  | leave hrun => exact h
  | finish hrun hnote hentry hpost hkids => exact h.finish
  | renew hrun hnone =>
    refine ⟨?_, rfl, fun _ => ⟨rfl, rfl⟩⟩
    intro i k hi
    have hi : v.note i = some k := hi
    rw [hnone i] at hi
    cases hi

theorem Loading.init (maxCapacityBytes : Nat) (store : Table Cid Bytes) (pins : Option Bytes) :
    Loading (Pool.init (World.new maxCapacityBytes store pins) Ledger.new : EnginePool).view := by
  refine ⟨?_, rfl, fun _ => ⟨rfl, rfl⟩⟩
  intro t n hn
  cases hn

end Mistlib.Storage
