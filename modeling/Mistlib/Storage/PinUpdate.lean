import Mistlib.Storage.Formats
import Mistlib.Storage.PinLoading

/-!
# Concurrent changes of the pin registry

`pin` and `add_pinned` take a snapshot of the registry and write it under
`pin_registry_io`; `unpin` takes and writes one without it. The snapshots are
numbered in the order they are taken. As long as they are written in that
order, the last change is not lost.
-/

namespace Mistlib.Storage

open Async

/-- The text reads back as the registry. -/
def Reads (setting : Setting) (data : Bytes) (registry : PinRegistry) : Prop :=
  ∃ r, setting.registries.fromJson data = .ok r ∧ r.Same registry

/-- What is persisted is the registry. No entry stands for an empty one. -/
def Holds (setting : Setting) : Option Bytes → PinRegistry → Prop
  | some data, registry => Reads setting data registry
  | none, registry => PinRegistry.new.Same registry

/-- The metadata store, the registry in memory and the protected set agree. -/
structure Agrees (setting : Setting) (w : World) : Prop where
  persisted : Holds setting w.pins w.pinRegistry
  pinned : w.manager.pinned = w.pinRegistry.pinnedCids

def Phase.number : Phase → Option Nat
  | .saving _ number _ | .forgetting _ number _ => some number
  | _ => none

/-- Writes of the registry succeed, and none takes effect after the write of a
later snapshot. The engine is not replaced. -/
def InOrder (v : EngineView) : EngineEvent → Prop
  | .answered t (.metaSet _) answer => answer = .ok () ∧
      ∀ n number, v.note t = some n → n.phase.number = some number → v.past.landed < number
  | .renewed => False
  | _ => True

variable {setting : Setting} {A : Cid → Bytes → Prop} {v v' : EngineView} {t : Tid} {n m : Note}
  {pins₀ : Option Bytes}

/-- The task will write the registry as it stands, or has taken its snapshot
and is writing it. -/
def Note.Carries (setting : Setting) (w : World) (g : Ledger) (n : Note) : Prop :=
  match n.phase with
  | .changed _ => True
  | .saving _ number data
  | .forgetting _ number data => number = g.snapshots ∧ Reads setting data w.pinRegistry
  | _ => False

/-- The task has changed the registry and will publish the protected set. -/
def Note.Unpublished (n : Note) : Prop :=
  match n.phase with
  | .forgetting _ _ _ | .forgotten _ => True
  | _ => False

variable {w : World} {g : Ledger}

theorem Note.Carries.active (h : n.Carries setting w g) : ¬ n.phase.Resting := by
  intro hrest
  cases hphase : n.phase <;> simp_all [Note.Carries, Phase.Resting]

theorem Note.Unpublished.active (h : n.Unpublished) : ¬ n.phase.Resting := by
  intro hrest
  cases hphase : n.phase <;> simp_all [Note.Unpublished, Phase.Resting]

/-- The registry in memory is persisted, or a task is about to persist it; it
is published, or a task is about to publish it. -/
structure Tended (setting : Setting) (pins₀ : Option Bytes) (v : EngineView) : Prop where
  loading : Loading v
  numbers : ∀ t n number, v.note t = some n → n.phase.number = some number →
    number ≤ v.past.snapshots
  landed : v.past.landed ≤ v.past.snapshots
  start : v.world.pinRegistryLoaded = false →
    v.past.landed = v.past.snapshots ∧ v.world.pins = pins₀
  latest : v.world.pinRegistryLoaded = true →
    (∃ t n, v.note t = some n ∧ n.Carries setting v.world v.past) ∨
      (v.past.landed = v.past.snapshots ∧ Holds setting v.world.pins v.world.pinRegistry)
  published : (∃ t n, v.note t = some n ∧ n.Unpublished) ∨
    v.world.manager.pinned = v.world.pinRegistry.pinnedCids

variable {r : Option Tid}

section

variable (h : Tended setting pins₀ v) (hloading : Loading (View.write ⟨w, v.past, v.note, r⟩ t m))
  (hloaded : w.pinRegistryLoaded = v.world.pinRegistryLoaded) (hpins : w.pins = v.world.pins)
  (hregistry : w.pinRegistry = v.world.pinRegistry)
  (hpinned : w.manager.pinned = v.world.manager.pinned)
include h hloading hloaded hpins hregistry hpinned

/-- A step that leaves the phases alone keeps the registry tended. -/
theorem Tended.step (hphase : ∀ n, v.note t = some n → n.phase.Resting ∨ m.phase = n.phase)
    (hnumber : ∀ number, m.phase.number = some number → ∃ n, v.note t = some n ∧ m.phase = n.phase) :
    Tended setting pins₀ (View.write ⟨w, v.past, v.note, r⟩ t m) := by
  refine ⟨hloading, ?_, h.landed, ?_, ?_, ?_⟩
  · intro i k number hi hk
    rcases View.note_of_write hi with ⟨rfl, rfl⟩ | ⟨_, hi⟩
    · obtain ⟨n, hn, heq⟩ := hnumber number hk
      exact h.numbers i n number hn (heq ▸ hk)
    · exact h.numbers i k number hi hk
  · intro hnot
    obtain ⟨hlanded, hp⟩ := h.start (hloaded.symm.trans hnot)
    exact ⟨hlanded, hpins.trans hp⟩
  · intro hyes
    show _ ∨ (_ ∧ Holds setting w.pins w.pinRegistry)
    rw [hpins, hregistry]
    refine (h.latest (hloaded.symm.trans hyes)).imp ?_ id
    intro hcarries
    refine View.exists_write (P := fun n : Note => n.Carries setting w v.past) ?_ ?_
    · simpa only [Note.Carries, hregistry] using hcarries
    · intro n hn hc
      rcases hphase n hn with hrest | heq
      · exact absurd hrest hc.active
      · simpa only [Note.Carries, heq] using hc
  · show _ ∨ w.manager.pinned = w.pinRegistry.pinnedCids
    rw [hpinned, hregistry]
    refine h.published.imp (fun hun => View.exists_write hun ?_) id
    intro n hn hu
    rcases hphase n hn with hrest | heq
    · exact absurd hrest hu.active
    · simpa only [Note.Unpublished, heq] using hu

theorem Tended.keep (hnote : v.note t = some n) (hphase : m.phase = n.phase) :
    Tended setting pins₀ (View.write ⟨w, v.past, v.note, r⟩ t m) := by
  refine h.step hloading hloaded hpins hregistry hpinned ?_ fun _ _ => ⟨n, hnote, hphase⟩
  intro k hk
  rw [hnote] at hk
  cases hk
  exact Or.inr hphase

end

theorem Tended.numbers_write (h : Tended setting pins₀ v) (hle : v.past.snapshots ≤ g.snapshots)
    (hm : ∀ number, m.phase.number = some number → number ≤ g.snapshots) (i : Tid) (k : Note)
    (number : Nat) (hi : (View.write ⟨w, g, v.note, r⟩ t m).note i = some k)
    (hk : k.phase.number = some number) : number ≤ g.snapshots := by
  rcases View.note_of_write hi with ⟨rfl, rfl⟩ | ⟨_, hi⟩
  · exact hm number hk
  · exact (h.numbers i k number hi hk).trans hle

theorem Tended.reads (h : Loading v) :
    Reads setting (setting.registries.print v.world.pinRegistry) v.world.pinRegistry :=
  setting.registries.fromJson_print h.version

theorem Tended.op {o : Op} {ω : Circumstance} (h : Tended setting pins₀ v) (hnote : v.note t = some n)
    (hop : contractOp setting A n o) :
    Tended setting pins₀ (View.write ⟨(v.world.perform setting o ω).2,
      (Note.op o (v.world.perform setting o ω).1 v.world v.past n).1, v.note, r⟩ t
      (Note.op o (v.world.perform setting o ω).1 v.world v.past n).2) := by
  have hn := h.loading.notes t n hnote
  have hloading := h.loading.op (ω := ω) (r := r)
    (g := (Note.op o (v.world.perform setting o ω).1 v.world v.past n).1) hnote hop
  cases o with
  | isPinned root =>
    have hidle : n.phase = .idle := hop
    refine h.step hloading rfl rfl rfl rfl ?_ ?_
    · intro k hk
      rw [hnote] at hk
      cases hk
      exact Or.inl (Phase.resting_idle hidle)
    · intro number hnumber
      simp only [Note.op, Note.found] at hnumber
      split at hnumber
      · cases hnumber
      · rw [hidle] at hnumber
        cases hnumber
  | protect root cids =>
    obtain ⟨_, hseen, hidle, _⟩ := hop
    have hloaded := hn.seen hseen
    refine ⟨hloading, h.numbers_write le_rfl (by rintro _ ⟨⟩), h.landed, ?_, ?_, Or.inr rfl⟩
    · exact fun hnot => absurd (hloaded.symm.trans hnot) (by simp)
    · exact fun _ => Or.inl ⟨t, _, View.write_note_self _ _ _, trivial⟩
  | forget root =>
    obtain ⟨_, hseen, hidle, _⟩ := hop
    have hloaded := hn.seen hseen
    refine ⟨hloading, h.numbers_write (Nat.le_succ _) ?_, Nat.le_succ_of_le h.landed, ?_, ?_, ?_⟩
    · intro number hk
      cases hk
      exact le_rfl
    · exact fun hnot => absurd (hloaded.symm.trans hnot) (by simp)
    · exact fun _ => Or.inl ⟨t, _, View.write_note_self _ _ _, rfl, Tended.reads hloading⟩
    · exact Or.inl ⟨t, _, View.write_note_self _ _ _, trivial⟩
  | snapshot =>
    obtain ⟨root, hphase⟩ := hop
    have hactive := hn.active (by rw [hphase]; exact id)
    refine ⟨hloading, h.numbers_write (Nat.le_succ _) ?_, Nat.le_succ_of_le h.landed, ?_, ?_, ?_⟩
    · intro number hk
      simp only [Note.op, hphase] at hk
      cases hk
      exact le_rfl
    · exact fun hnot => absurd (hactive.1.symm.trans hnot) (by simp)
    · intro _
      refine Or.inl ⟨t, _, View.write_note_self _ _ _, ?_⟩
      simp only [Note.Carries, Note.op, hphase]
      exact ⟨rfl, Tended.reads h.loading⟩
    · refine h.published.imp (fun hun => View.exists_write hun ?_) id
      intro k hk hu
      rw [hnote] at hk
      cases hk
      simp [Note.Unpublished, hphase] at hu
  | install registry =>
    obtain ⟨pins, hlock, hread⟩ := hop
    obtain ⟨hnot, rfl⟩ := hn.fetched pins hlock
    obtain ⟨hnew, hpinned⟩ := h.loading.fresh hnot
    have hlanded := (h.start hnot).1
    have hnumbers := h.numbers_write (w := v.world) (r := r) (t := t) (g := v.past)
      (m := { n with seen := true, lock := .held }) le_rfl
      fun number hk => h.numbers t n number hnote hk
    cases registry with
    | none =>
      have hpins : v.world.pins = none := by
        cases hp : v.world.pins with
        | none => rfl
        | some bytes =>
          rw [hp] at hread
          obtain ⟨_, _, heq⟩ := hread
          cases heq
      refine ⟨hloading, hnumbers, h.landed, (by rintro ⟨⟩), ?_, Or.inr ?_⟩
      · intro _
        refine Or.inr ⟨hlanded, ?_⟩
        show Holds setting v.world.pins v.world.pinRegistry
        rw [hpins, hnew]
        exact .refl _
      · show v.world.manager.pinned = v.world.pinRegistry.pinnedCids
        rw [hpinned, hnew]
        rfl
    | some registry =>
      obtain ⟨bytes, hp, hjson⟩ : ∃ bytes, v.world.pins = some bytes ∧
          setting.registries.fromJson bytes = .ok registry := by
        cases hp : v.world.pins with
        | none =>
          rw [hp] at hread
          cases hread
        | some bytes =>
          rw [hp] at hread
          obtain ⟨r', hjson, heq⟩ := hread
          cases heq
          exact ⟨bytes, rfl, hjson⟩
      refine ⟨hloading, hnumbers, h.landed, (by rintro ⟨⟩), ?_, Or.inr rfl⟩
      intro _
      refine Or.inr ⟨hlanded, ?_⟩
      show Holds setting v.world.pins registry
      rw [hp]
      exact ⟨registry, hjson, .refl _⟩
  | republish =>
    obtain ⟨root, hphase⟩ := hop
    have hactive := hn.active (by rw [hphase]; exact id)
    refine ⟨hloading, h.numbers_write le_rfl ?_, h.landed, ?_, ?_, Or.inr rfl⟩
    · intro number hk
      simp only [Note.op, hphase] at hk
      cases hk
    · exact fun hnot => absurd (hactive.1.symm.trans hnot) (by simp)
    · intro hyes
      refine (h.latest hyes).imp (fun hcarries => View.exists_write hcarries ?_) id
      intro k hk hc
      rw [hnote] at hk
      cases hk
      simp [Note.Carries, hphase] at hc
  | registryLoaded => exact h.keep hloading rfl rfl rfl rfl hnote rfl
  | touch cid =>
    exact h.keep hloading rfl rfl rfl (StorageManager.pinned_touch _ _) hnote rfl
  | trackBlock cid size position =>
    exact h.keep hloading rfl rfl rfl (StorageManager.pinned_trackBlock _ _ _ _) hnote rfl
  | untrackBlock cid =>
    exact h.keep hloading rfl rfl rfl (StorageManager.pinned_untrackBlock _ _) hnote rfl
  | _ => exact h.keep hloading rfl rfl rfl rfl hnote rfl

theorem Tended.issue {c : Call} (h : Tended setting pins₀ v) (hnote : v.note t = some n) :
    Tended setting pins₀ (View.write ⟨v.world, v.past, v.note, r⟩ t (Note.issue c n)) := by
  refine h.keep (h.loading.issue hnote) rfl rfl rfl rfl hnote ?_
  cases c <;> rfl

/-- A snapshot is written. If it is the last one taken, the registry is
persisted; if not, the task that took a later one still carries it. -/
theorem Tended.metaSet {data : Bytes} {number : Nat} (h : Tended setting pins₀ v)
    (hnote : v.note t = some n) (hnumber : n.phase.number = some number)
    (horder : v.past.landed < number)
    (hdata : n.Carries setting v.world v.past → Reads setting data v.world.pinRegistry ∧
      number = v.past.snapshots)
    (hm : m.phase.number = none) (hpublish : n.Unpublished → m.Unpublished)
    (hg : g = { v.past with landed := number })
    (hloading : Loading (View.write ⟨{ v.world with pins := some data }, g, v.note, r⟩ t m)) :
    Tended setting pins₀ (View.write ⟨{ v.world with pins := some data }, g, v.note, r⟩ t m) := by
  subst hg
  have hle := h.numbers t n number hnote hnumber
  have hactive : ¬ n.phase.Resting := by
    intro hrest
    cases hphase : n.phase <;> simp_all [Phase.number, Phase.Resting]
  have hloaded := ((h.loading.notes t n hnote).active hactive).1
  refine ⟨hloading, h.numbers_write le_rfl ?_, hle, ?_, ?_, ?_⟩
  · intro number' hk
    rw [hm] at hk
    cases hk
  · exact fun hnot => absurd (hloaded.symm.trans hnot) nofun
  · intro _
    rcases h.latest hloaded with ⟨i, k, hi, hc⟩ | ⟨hlanded, _⟩
    · by_cases hit : i = t
      · subst hit
        rw [hnote] at hi
        cases hi
        exact Or.inr ⟨(hdata hc).2, (hdata hc).1⟩
      · refine Or.inl ⟨i, k, ?_, hc⟩
        rw [View.write_note, if_neg hit]
        exact hi
    · omega
  · refine h.published.imp (fun hun => View.exists_write hun ?_) id
    intro k hk hu
    rw [hnote] at hk
    cases hk
    exact hpublish hu

theorem Tended.answer {c : Call} {ω : Circumstance} {a : c.Ans} {w' : World}
    (h : Tended setting pins₀ v) (hnote : v.note t = some (Note.issue c n))
    (hissue : contractIssue A n c) (hanswer : World.answer c ω t v.world = some (a, w'))
    (hguard : InOrder v (.answered t c a)) :
    Tended setting pins₀ (View.write ⟨w', (Note.effect c a v.past (Note.issue c n)).1, v.note, r⟩ t
      (Note.effect c a v.past (Note.issue c n)).2) := by
  have hloading := h.loading.answer (r := r) (g := (Note.effect c a v.past (Note.issue c n)).1)
    hnote hissue hanswer
  cases World.answers hanswer with
  | metaSet data =>
    rcases hissue with ⟨root, number, hphase⟩ | ⟨root, number, hphase⟩
    all_goals
      have hissued : (Note.issue (.metaSet data) n).phase = _ := hphase
      have hnumber : (Note.issue (.metaSet data) n).phase.number = some number := by rw [hissued]; rfl
      refine h.metaSet hnote hnumber (hguard.2 _ number hnote hnumber) ?_ ?_ ?_ ?_ hloading
      · simp only [Note.Carries, hissued]
        exact fun hc => ⟨hc.2, hc.1⟩
      · simp only [Note.effect, hissued, Phase.number]
      · simp [Note.Unpublished, Note.effect, hissued]
      · simp only [Note.effect, hissued]
  | metaSetFailed data e hpins => exact absurd hguard.1 (by simp)
  | _ => exact h.keep hloading rfl rfl rfl rfl hnote rfl

theorem Tended.drop {gone : List Tid} (h : Tended setting pins₀ v)
    (hloading : Loading { View.drop v gone with world := w, past := g, running := r })
    (hrest : ∀ i ∈ gone, ∀ k, v.note i = some k → k.phase.Resting)
    (hloaded : w.pinRegistryLoaded = v.world.pinRegistryLoaded) (hpins : w.pins = v.world.pins)
    (hregistry : w.pinRegistry = v.world.pinRegistry)
    (hpinned : w.manager.pinned = v.world.manager.pinned) (hsnapshots : g.snapshots = v.past.snapshots)
    (hlanded : g.landed = v.past.landed) :
    Tended setting pins₀ { View.drop v gone with world := w, past := g, running := r } := by
  have hkeep : ∀ {P : Note → Prop}, (∀ k, P k → ¬ k.phase.Resting) →
      (∃ i k, v.note i = some k ∧ P k) → ∃ i k, (v.drop gone).note i = some k ∧ P k := by
    rintro P hP ⟨i, k, hi, hk⟩
    refine ⟨i, k, ?_, hk⟩
    simp only [View.drop]
    rw [if_neg fun hmem => hP k hk (hrest i hmem k hi)]
    exact hi
  refine ⟨hloading, ?_, ?_, ?_, ?_, ?_⟩
  · intro i k number hi hk
    show number ≤ g.snapshots
    rw [hsnapshots]
    exact h.numbers i k number (View.note_of_drop hi).2 hk
  · show g.landed ≤ g.snapshots
    rw [hlanded, hsnapshots]
    exact h.landed
  · intro hnot
    show g.landed = g.snapshots ∧ w.pins = pins₀
    rw [hlanded, hsnapshots, hpins]
    exact h.start (hloaded.symm.trans hnot)
  · intro hyes
    show _ ∨ (g.landed = g.snapshots ∧ Holds setting w.pins w.pinRegistry)
    rw [hlanded, hsnapshots, hpins, hregistry]
    refine (h.latest (hloaded.symm.trans hyes)).imp (fun hc => ?_) id
    refine hkeep (P := fun k => k.Carries setting w g) (fun k hk => hk.active) ?_
    simpa only [Note.Carries, hregistry, hsnapshots] using hc
  · show _ ∨ w.manager.pinned = w.pinRegistry.pinnedCids
    rw [hpinned, hregistry]
    exact h.published.imp (hkeep fun k hk => hk.active) id

/-- Each move in order keeps the registry tended. -/
theorem Tended.moves {event : EngineEvent} (hmove : EngineMoves setting A v event v')
    (hguard : InOrder v event) (h : Tended setting pins₀ v) : Tended setting pins₀ v' := by
  have hloading := h.loading.moves hmove
  cases hmove with
  | start hrun hnone hentry hfit =>
    refine h.step hloading rfl rfl rfl rfl ?_ ?_
    · intro k hk
      rw [hnone] at hk
      cases hk
    · intro number hnumber
      cases hnumber
  | resume hrun hnote | park hrun hnote hwait | ended hrun hnote hpost =>
    exact ⟨hloading, h.numbers, h.landed, h.start, h.latest, h.published⟩
  | op hrun hnote hgood hop => exact h.op hnote hop
  | issue hrun hnote hissue => exact h.issue hnote
  | @spawn t i n κ job hrun hnote hnone hfit hspawn =>
    have hspawned : Tended setting pins₀
        (View.write { v with } t (observer.spawn n)) :=
      h.keep (h.loading.step rfl rfl rfl rfl (fun _ => ⟨rfl, rfl⟩)
        ((h.loading.notes t n hnote).keep rfl rfl id rfl)) rfl rfl rfl rfl hnote rfl
    refine hspawned.step hloading rfl rfl rfl rfl ?_ ?_
    · intro k hk
      have hne : i ≠ t := by
        rintro rfl
        rw [hnone] at hnote
        cases hnote
      rw [View.write_note, if_neg hne, hnone] at hk
      cases hk
    · intro number hnumber
      cases hnumber
  | answer hrun hnote hgood hissue hanswer => exact h.answer hnote hissue hanswer hguard
  | @join t i n m κ job r hrun hnote hwait hkid hne hfit hpost =>
    have hdrop : Tended setting pins₀ { View.drop v [i] with
        world := v.world, past := v.past, running := v.running } := by
      refine h.drop ⟨?_, h.loading.version, h.loading.fresh⟩ ?_ rfl rfl rfl rfl rfl rfl
      · intro j k hj
        exact h.loading.notes j k (View.note_of_drop hj).2
      · intro j hj k hk
        obtain rfl := List.mem_singleton.mp hj
        rw [hkid] at hk
        cases hk
        exact hpost.2.phase
    refine hdrop.keep hloading rfl rfl rfl rfl (n := n) ?_ rfl
    simp only [View.drop, List.mem_singleton]
    rw [if_neg hne.symm]
    exact hnote
  | leave hrun => exact h
  | @finish t n κ job r dropped hrun hnote hentry hpost hkids =>
    have hw := World.releaseAll_eq dropped v.world
    refine h.drop hloading ?_ ?_ ?_ ?_ ?_ ?_ ?_
    · intro i hi k hk
      rcases List.mem_cons.mp hi with rfl | hi
      · rw [hnote] at hk
        cases hk
        exact hpost.2.phase
      · obtain ⟨k', hk', hmain⟩ := hkids i hi
        rw [hk] at hk'
        cases hk'
        by_contra hactive
        have hyes := ((h.loading.notes i k hk).active hactive).2
        rw [show k.main = false from hmain] at hyes
        cases hyes
    · exact (congrArg World.pinRegistryLoaded hw).trans rfl
    · exact (congrArg World.pins hw).trans rfl
    · exact (congrArg World.pinRegistry hw).trans rfl
    · exact (congrArg (fun w => w.manager.pinned) hw).trans rfl
    · exact Ledger.snapshots_finish ..
    · exact Ledger.landed_finish ..
  | renew hrun hnone => exact hguard.elim

/-- In every run in which the snapshots of the registry are written in the order they are taken,
whenever no call is in progress the metadata store, the registry in memory and the protected set
agree. -/
theorem pinUpdate_agrees {maxCapacityBytes : Nat} {store : Table Cid Bytes} {pins : Option Bytes}
    {pool : EnginePool}
    (hreach : EngineReach setting InOrder (World.new maxCapacityBytes store pins) pool)
    (hdone : pool.threads.size = 0)
    (hread : pool.world.pinRegistryLoaded = true ∨ pins = none) : Agrees setting pool.world := by
  have hA : Covers setting fun _ _ => True := fun _ _ _ => trivial
  have htended : Tended setting pins pool.view := by
    refine hreach.invariant hA (fun _ _ _ => trivial) Tended.moves ?_
    refine ⟨.init _ _ _, ?_, le_rfl, fun _ => ⟨rfl, rfl⟩, nofun, Or.inr rfl⟩
    intro t n number hn
    cases hn
  have hnone := Pool.note_of_done hdone
  refine ⟨?_, ?_⟩
  · cases hloaded : pool.world.pinRegistryLoaded with
    | true =>
      rcases htended.latest hloaded with ⟨t, n, hn, _⟩ | ⟨_, hholds⟩
      · rw [hnone t] at hn
        cases hn
      · exact hholds
    | false =>
      have hpins : pins = none := hread.resolve_left (by rw [hloaded]; nofun)
      have hstart : pool.world.pins = none := (htended.start hloaded).2.trans hpins
      have hnew : pool.world.pinRegistry = .new := (htended.loading.fresh hloaded).1
      rw [hstart, hnew]
      exact .refl _
  · rcases htended.published with ⟨t, n, hn, _⟩ | hpublished
    · rw [hnone t] at hn
      cases hn
    · exact hpublished

def inOrder (pool : EnginePool) : EngineEvent → Bool
  | .answered t (.metaSet _) answer => answer.isOk && pool.all fun i n =>
    decide (i = t → ∀ number ∈ n.phase.number, pool.past.landed < number)
  | .renewed => false
  | _ => true

theorem inOrder_sound {pool : EnginePool} {event : EngineEvent} (h : inOrder pool event = true) :
    InOrder pool.view event := by
  cases event with
  | answered t c a =>
    cases c with
    | metaSet data =>
      obtain ⟨hok, hall⟩ := Bool.and_eq_true_iff.mp h
      refine ⟨?_, ?_⟩
      · cases a with
        | ok u => rfl
        | error e => cases hok
      · intro n number hn hnumber
        exact of_decide_eq_true (Pool.of_all hall hn) rfl number hnumber
    | _ => trivial
  | renewed => cases h
  | _ => trivial

section Runs

open Sample

/-- A fresh engine with the manifests of both files in its store. -/
def withBoth : World :=
  .new 1 (((∅ : Table Cid Bytes).insert bareRoot bareText).insert fileRoot fileText) none

/-- `unpin` of the bare file takes its snapshot. Before that is written, the
other file is pinned, up to where its own snapshot is taken. -/
def unpinThenPin : List (Choice engineSig Circumstance) :=
  [.start 0 (.unpin bareRoot)] ++ run 0 2 2 ++ serve 0 2 2 ++ serve 0 4 2 ++
    [.start 1 (.pin fileRoot)] ++ run 1 3 2 ++ serve 1 3 2 ++ serve 1 2 2

/-- The two snapshots are written in the order they were taken. -/
theorem pinUpdate_agrees_twoCalls :
    ∃ pool, EngineReach (Sample.setting true) InOrder withBoth pool ∧
      pool.world.pinRegistry.isPinned fileRoot = true ∧ Agrees (Sample.setting true) pool.world := by
  have hrun : ((Pool.init withBoth Ledger.new).exec (engine (Sample.setting true)) observer inOrder
      (unpinThenPin ++ serve 0 2 2 ++ serve 1 2 2 ++ [.finish 0, .finish 1])).any
      (fun pool => decide (pool.threads.size = 0 ∧ pool.world.pinRegistry.isPinned fileRoot = true))
      = true := by
    decide +kernel
  obtain ⟨pool, hexec, hpool⟩ := Option.any_eq_true _ _ |>.mp hrun
  obtain ⟨hdone, hpinned⟩ := of_decide_eq_true hpool
  have hreach := Reach.of_exec hexec inOrder_sound
  exact ⟨pool, hreach, hpinned, pinUpdate_agrees hreach hdone (Or.inr rfl)⟩

/-- What is persisted reads as a registry without a root. -/
def forgot (setting : Setting) (root : Cid) (pins : Option Bytes) : Bool :=
  match pins.map setting.registries.fromJson with
  | some (.ok registry) => !registry.isPinned root
  | _ => false

theorem forgot_not_holds {root : Cid} {pins : Option Bytes} {registry : PinRegistry}
    (h : forgot setting root pins = true) (hpinned : registry.isPinned root = true) :
    ¬ Holds setting pins registry := by
  unfold forgot at h
  intro hholds
  cases pins with
  | none => cases h
  | some data =>
    obtain ⟨r, hr, hsame⟩ := hholds
    simp only [Option.map_some, hr] at h
    have heq : r.isPinned root = registry.isPinned root := by
      simp only [PinRegistry.isPinned, Table.contains, hsame.entries root]
    rw [heq, hpinned] at h
    cases h

/-- The snapshot of `unpin`, taken before the pin, is written after it: the
pin is in memory and not in the metadata store. Every backend call
succeeds. -/
theorem pinUpdate_lost :
    ∃ pool, EngineReach (Sample.setting true) (fun _ event => BackendsWork event = true) withBoth
        pool ∧
      pool.threads.size = 0 ∧ pool.world.pinRegistryLoaded = true ∧
      pool.world.pinRegistry.isPinned fileRoot = true ∧ ¬ Agrees (Sample.setting true) pool.world := by
  have hrun : ((Pool.init withBoth Ledger.new).exec (engine (Sample.setting true)) observer
      (fun _ => BackendsWork) (unpinThenPin ++ serve 1 2 2 ++ serve 0 2 2 ++
        [.finish 0, .finish 1])).any
      (fun pool => decide (pool.threads.size = 0 ∧ pool.world.pinRegistryLoaded = true ∧
        pool.world.pinRegistry.isPinned fileRoot = true ∧
        forgot (Sample.setting true) fileRoot pool.world.pins = true)) = true := by
    decide +kernel
  obtain ⟨pool, hexec, hpool⟩ := Option.any_eq_true _ _ |>.mp hrun
  obtain ⟨hdone, hloaded, hpinned, hforgot⟩ := of_decide_eq_true hpool
  refine ⟨pool, Reach.of_exec hexec fun h => h, hdone, hloaded, hpinned, ?_⟩
  exact fun hagrees => forgot_not_holds hforgot hpinned hagrees.persisted

end Runs

end Mistlib.Storage
