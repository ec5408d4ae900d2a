import Mathlib.Data.Set.Insert
import Mistlib.Storage.Notes

/-!
# The books of the block store

The blocks that are tracked are meant to be the blocks that are stored. Neither write path keeps
this at every instant: a fetch tracks a block before it stores it, an add stores it before it
tracks it, and an eviction deletes before it untracks. `Books` holds the two sets and what each
task has under way; `Books.Balanced` says that every difference between the sets is some task's
business, and that no block is written by one task and evicted by another.
-/

namespace Mistlib.Storage

open Async

/-- What a task has under way with blocks. -/
structure Window where
  write : Write
  condemned : List Cid
  deleting : Option (Cid × Bool)

namespace Window

def clear : Window := ⟨.idle, [], none⟩

@[grind =] def Writes (w : Window) (cid : Cid) : Prop :=
  w.write = .tracked cid ∨ w.write = .storing cid ∨ w.write = .stored cid

@[grind =] def Dooms (w : Window) (cid : Cid) : Prop :=
  cid ∈ w.condemned ∨ ∃ gone, w.deleting = some (cid, gone)

instance (w : Window) (cid : Cid) : Decidable (w.Writes cid) :=
  inferInstanceAs (Decidable (_ ∨ _ ∨ _))

instance (w : Window) (cid : Cid) : Decidable (w.Dooms cid) :=
  decidable_of_iff (cid ∈ w.condemned ∨ w.deleting.map Prod.fst = some cid) (by
    simp [Dooms, Option.map_eq_some_iff])

@[grind =] def Owes (w : Window) (cid : Cid) : Prop :=
  w.write = .tracked cid ∨ w.deleting = some (cid, true)

end Window

structure Books where
  tracked : Set Cid
  stored : Set Cid
  window : Tid → Window

namespace Books

/-- Every difference between what is tracked and what is stored is under way
in some window, and writers and evictions keep apart. -/
@[grind cases]
structure Balanced (b : Books) : Prop where
  unstored : ∀ cid ∈ b.tracked, cid ∉ b.stored →
    ∃ t, (b.window t).Owes cid
  untracked : ∀ cid ∈ b.stored, cid ∉ b.tracked → ∃ t, (b.window t).write = .stored cid
  apart : ∀ t t' cid, (b.window t).Writes cid → ¬ (b.window t').Dooms cid
  claimed : ∀ t cid, (b.window t).write = .tracked cid → cid ∈ b.tracked
  landed : ∀ t cid, (b.window t).write = .stored cid → cid ∈ b.stored
  gone : ∀ t cid, (b.window t).deleting = some (cid, true) → cid ∉ b.stored

variable {b : Books}

theorem Balanced.empty : Balanced ⟨∅, ∅, fun _ => .clear⟩ := by
  constructor <;> simp [Window.clear, Window.Writes]

/-- Balanced books with no window open list what is stored. -/
theorem Balanced.settled (h : b.Balanced) (hclear : ∀ t, b.window t = .clear) :
    b.tracked = b.stored := by
  ext cid
  constructor
  · intro htracked
    by_contra hstored
    obtain ⟨t, ht⟩ := h.unstored cid htracked hstored
    rw [hclear] at ht
    rcases ht with ht | ht
    · cases ht
    · cases ht
  · intro hstored
    by_contra htracked
    obtain ⟨t, ht⟩ := h.untracked cid hstored htracked
    rw [hclear] at ht
    cases ht

/-- What one task's step has to respect: it takes on the differences it makes,
it starts writing no block that is on its way out and evicting no block that
is being written, and it leaves the other tasks' blocks alone. -/
structure Change (b : Books) (t : Tid) (w : Window) (tracked stored : Set Cid) : Prop where
  unstored : ∀ cid ∈ tracked, cid ∉ stored → w.Owes cid ∨ (∃ t' ≠ t, (b.window t').Owes cid) ∨
    (cid ∈ b.tracked ∧ cid ∉ b.stored ∧ ¬ (b.window t).Owes cid)
  untracked : ∀ cid ∈ stored, cid ∉ tracked → w.write = .stored cid ∨
    (∃ t' ≠ t, (b.window t').write = .stored cid) ∨
    (cid ∈ b.stored ∧ cid ∉ b.tracked ∧ (b.window t).write ≠ .stored cid)
  writes : ∀ cid, w.Writes cid → (b.window t).Writes cid ∨ ∀ t', ¬ (b.window t').Dooms cid
  dooms : ∀ cid, w.Dooms cid → (b.window t).Dooms cid ∨
    (¬ w.Writes cid ∧ ∀ t', ¬ (b.window t').Writes cid)
  claimed : ∀ t' cid, (Function.update b.window t w t').write = .tracked cid → cid ∈ tracked
  landed : ∀ t' cid, (Function.update b.window t w t').write = .stored cid → cid ∈ stored
  gone : ∀ t' cid, (Function.update b.window t w t').deleting = some (cid, true) → cid ∉ stored

theorem Balanced.change (h : b.Balanced) {t : Tid} {w : Window} {tracked stored : Set Cid}
    (hchange : b.Change t w tracked stored) :
    Balanced { tracked, stored, window := Function.update b.window t w } := by
  have hself : ∀ {P : Window → Prop}, P w → ∃ t', P (Function.update b.window t w t') := by
    intro P hP
    exact ⟨t, by rwa [Function.update_self]⟩
  have hother : ∀ {P : Window → Prop}, (∃ t' ≠ t, P (b.window t')) →
      ∃ t', P (Function.update b.window t w t') := by
    rintro P ⟨t', hne, hP⟩
    exact ⟨t', by rwa [Function.update_of_ne hne]⟩
  -- A difference that was not the task's own is another task's.
  have helse : ∀ {P : Window → Prop}, (∃ t', P (b.window t')) → ¬ P (b.window t) →
      ∃ t' ≠ t, P (b.window t') := by
    rintro P ⟨t', hP⟩ hnot
    refine ⟨t', ?_, hP⟩
    rintro rfl
    exact hnot hP
  refine ⟨?_, ?_, ?_, hchange.claimed, hchange.landed, hchange.gone⟩
  · intro cid htracked hstored
    let P : Window → Prop := fun w => w.Owes cid
    rcases hchange.unstored cid htracked hstored with hw | hw | ⟨htracked, hstored, hw⟩
    · exact hself (P := P) hw
    · exact hother (P := P) hw
    · exact hother (P := P) (helse (P := P) (h.unstored cid htracked hstored) hw)
  · intro cid hstored htracked
    let P : Window → Prop := fun w => w.write = .stored cid
    rcases hchange.untracked cid hstored htracked with hw | hw | ⟨hstored, htracked, hw⟩
    · exact hself (P := P) hw
    · exact hother (P := P) hw
    · exact hother (P := P) (helse (P := P) (h.untracked cid hstored htracked) hw)
  · have hwrites : ∀ cid, w.Writes cid → ∀ t', ¬ (b.window t').Dooms cid := by
      intro cid hw t'
      rcases hchange.writes cid hw with hown | hnone
      · exact h.apart t t' cid hown
      · exact hnone t'
    have hdooms : ∀ cid, w.Dooms cid → ¬ w.Writes cid ∧ ∀ t', ¬ (b.window t').Writes cid := by
      intro cid hw
      rcases hchange.dooms cid hw with hown | hnone
      · exact ⟨fun hw' => hwrites cid hw' t hown, fun t' hw' => h.apart t' t cid hw' hown⟩
      · exact hnone
    intro i j cid hi hj
    simp only [Function.update_apply] at hi hj
    split at hi
    · split at hj
      · exact (hdooms cid hj).1 hi
      · exact hwrites cid hi j hj
    · split at hj
      · exact (hdooms cid hj).2 i hi
      · exact h.apart i j cid hi hj

theorem Balanced.unwritten (h : b.Balanced) {t : Tid} {cid : Cid} {gone : Bool}
    (hdeleting : (b.window t).deleting = some (cid, gone)) (t' : Tid) :
    (b.window t').write ≠ .tracked cid ∧ (b.window t').write ≠ .stored cid := by
  have hnot : ¬ (b.window t').Writes cid := fun hw => h.apart t' t cid hw (Or.inr ⟨gone, hdeleting⟩)
  exact ⟨fun hw => hnot (Or.inl hw), fun hw => hnot (Or.inr (Or.inr hw))⟩

theorem Balanced.undeleted (h : b.Balanced) {t : Tid} {cid : Cid}
    (hwrite : (b.window t).Writes cid) (t' : Tid) : (b.window t').deleting ≠ some (cid, true) :=
  fun hd => h.apart t t' cid hwrite (Or.inr ⟨true, hd⟩)

section Changes

variable {t i : Tid} {cid : Cid} {w : Window}

section

variable (h : b.Balanced) (hw : b.window t = w)
include h hw

theorem Balanced.record (hwrite : w.write = .stored cid) :
    b.Change t { w with write := .idle } (insert cid b.tracked) b.stored := by
  constructor <;> grind [Function.update_apply]

theorem Balanced.claim (hwrite : w.write = .idle) (hsafe : ∀ t', ¬ (b.window t').Dooms cid) :
    b.Change t { w with write := .tracked cid } (insert cid b.tracked) b.stored := by
  constructor <;> grind [Function.update_apply]

theorem Balanced.forget (hgone : w.deleting = some (cid, true)) :
    b.Change t { w with deleting := none } (b.tracked \ {cid}) b.stored := by
  have hun := h.unwritten (hw ▸ hgone)
  constructor <;> grind [Function.update_apply]

theorem Balanced.choose {chosen : List Cid}
    (hsafe : ∀ cid ∈ chosen, ∀ t', ¬ (b.window t').Writes cid) :
    b.Change t { w with condemned := chosen } b.tracked b.stored := by
  constructor <;> grind [Function.update_apply]

theorem Balanced.enter (hwrite : w.write = .idle) (hsafe : ∀ t', ¬ (b.window t').Dooms cid) :
    b.Change t { w with write := .storing cid } b.tracked b.stored := by
  constructor <;> grind [Function.update_apply]

theorem Balanced.land (hwrite : w.write = .storing cid) :
    b.Change t { w with write := .stored cid } b.tracked (insert cid b.stored) := by
  have hun := h.undeleted (Or.inr (Or.inl (hw ▸ hwrite)))
  constructor <;> grind [Function.update_apply]

theorem Balanced.settle (hwrite : w.write = .tracked cid) :
    b.Change t { w with write := .idle } b.tracked (insert cid b.stored) := by
  have hun := h.undeleted (Or.inl (hw ▸ hwrite))
  constructor <;> grind [Function.update_apply]

theorem Balanced.abandon (hwrite : w.write = .storing cid) :
    b.Change t { w with write := .idle } b.tracked b.stored := by
  constructor <;> grind [Function.update_apply]

theorem Balanced.aim (hnone : w.deleting = none) (hcid : cid ∈ w.condemned) : b.Change t { w with
      condemned := w.condemned.tail, deleting := some (cid, false) }
      b.tracked b.stored := by
  have htail : ∀ c, c ∈ w.condemned.tail → c ∈ w.condemned :=
    fun c => List.mem_of_mem_tail
  constructor <;> grind [Function.update_apply]

theorem Balanced.strike (hdeleting : w.deleting = some (cid, false)) :
    b.Change t { w with deleting := some (cid, true) } b.tracked (b.stored \ {cid}) := by
  have hun := h.unwritten (hw ▸ hdeleting)
  constructor <;> grind [Function.update_apply]

theorem Balanced.spare (hdeleting : w.deleting = some (cid, false)) :
    b.Change t { w with deleting := none } b.tracked b.stored := by
  constructor <;> grind [Function.update_apply]

theorem Balanced.inherit (hwrite : w.write = .idle) :
    b.Change t { w with write := (b.window i).write } b.tracked b.stored := by
  constructor <;> grind [Function.update_apply]

end

theorem Balanced.leave (h : b.Balanced)
    (hwrite : (b.window i).write = .idle ∨ ∃ t ≠ i, (b.window t).write = (b.window i).write)
    (hgone : ∀ cid, (b.window i).deleting ≠ some (cid, true)) :
    b.Change i .clear b.tracked b.stored := by
  constructor <;> grind [Function.update_apply, Window.clear]

theorem Balanced.handOver (h : b.Balanced) (hne : i ≠ t) (hw : b.window t = w)
    (hwrite : w.write = .idle) (hgone : ∀ cid, (b.window i).deleting ≠ some (cid, true)) :
    Balanced { b with
      window := Function.update
        (Function.update b.window t { w with write := (b.window i).write }) i .clear } := by
  have hshare := h.change (h.inherit (i := i) hw hwrite)
  refine hshare.change (hshare.leave (Or.inr ⟨t, hne.symm, ?_⟩) ?_)
  · simp only [Function.update_self, Function.update_of_ne hne]
  · simpa only [Function.update_of_ne hne] using hgone

theorem Balanced.leaveAll (h : b.Balanced) (gone : List Tid)
    (hidle : ∀ i ∈ gone, (b.window i).write = .idle ∧
      ∀ cid, (b.window i).deleting ≠ some (cid, true)) :
    Balanced { b with window := fun i => if i ∈ gone then .clear else b.window i } := by
  induction gone with
  | nil => exact h
  | cons i rest ih =>
    have hrest := ih fun j hj => hidle j (List.mem_cons_of_mem _ hj)
    by_cases hmem : i ∈ rest
    · have hwindow : (fun j => if j ∈ i :: rest then Window.clear else b.window j) =
          fun j => if j ∈ rest then Window.clear else b.window j := by
        funext j
        by_cases hj : j = i
        · simp [hj, hmem]
        · simp [hj]
      rw [hwindow]
      exact hrest
    · obtain ⟨hwrite, hgone⟩ := hidle i List.mem_cons_self
      have hleave := hrest.change (hrest.leave (i := i) (Or.inl (by simpa [hmem] using hwrite))
        (by simpa [hmem] using hgone))
      have hwindow : Function.update (fun j => if j ∈ rest then Window.clear else b.window j) i
          .clear = fun j => if j ∈ i :: rest then Window.clear else b.window j := by
        funext j
        rw [Function.update_apply]
        by_cases hj : j = i
        · simp [hj]
        · simp [hj]
      rw [hwindow] at hleave
      exact hleave

end Changes

end Books

end Mistlib.Storage
