import Mathlib.Data.Fintype.Defs
import Mathlib.Data.List.Infix
import Mathlib.Logic.Function.Basic

/-!
# Couriers

One source releases items in batches. Each batch is taken by a courier, who hands its items over
one at a time, in any turn with the others. Runs are lists of moves with the latest first.

As long as a batch is taken only when no other courier has anything to hand over (`Solo`), what
is delivered is a prefix of what was released. If the source releases in the order of an
asymmetric relation, this is also necessary for deliveries in that order (`solo_iff`).
-/

namespace Couriers

variable {ι α : Type}

inductive Move (ι α : Type) where
  | take (who : ι) (batch : List α)
  | hand (who : ι)

/-- The items the source released, in order. -/
def released : List (Move ι α) → List α
  | [] => []
  | .take _ batch :: past => released past ++ batch
  | .hand _ :: past => released past

theorem released_append (more past : List (Move ι α)) :
    released (more ++ past) = released past ++ released more := by
  induction more with
  | nil => simp [released]
  | cons move more ih =>
    cases move with
    | take who batch => simp only [List.cons_append, released, ih, List.append_assoc]
    | hand who => simp only [List.cons_append, released, ih]

/-- A run followed by moves that only hand over. -/
def handing (hands : List ι) (past : List (Move ι α)) : List (Move ι α) :=
  hands.map Move.hand ++ past

theorem released_handing (hands : List ι) (past : List (Move ι α)) :
    released (handing hands past) = released past := by
  induction hands with
  | nil => rfl
  | cons who hands ih => exact ih

section Runs

variable [DecidableEq ι]

/-- What each courier has still to hand over. -/
def held : List (Move ι α) → ι → List α
  | [] => fun _ => []
  | .take who batch :: past => Function.update (held past) who (held past who ++ batch)
  | .hand who :: past => Function.update (held past) who (held past who).tail

def delivered : List (Move ι α) → List α
  | [] => []
  | .take _ _ :: past => delivered past
  | .hand who :: past => delivered past ++ (held past who).head?.toList

/-- Whoever takes a batch with something in it is the only one to hold anything. -/
def Solo : List (Move ι α) → Prop
  | [] => True
  | .take who batch :: past =>
    Solo past ∧ (batch ≠ [] → ∀ other, other ≠ who → held past other = [])
  | .hand _ :: past => Solo past

instance Solo.decidable [Fintype ι] : (run : List (Move ι α)) → Decidable (Solo run)
  | [] => inferInstanceAs (Decidable True)
  | .take who batch :: past =>
    have : Decidable (Solo past) := Solo.decidable past
    inferInstanceAs (Decidable (Solo past ∧
      (batch ≠ [] → ∀ other, other ≠ who → held past other = [])))
  | .hand _ :: past => Solo.decidable past

variable {run past : List (Move ι α)}

theorem mem_released_of_held {who : ι} {x : α} (h : x ∈ held run who) : x ∈ released run := by
  induction run generalizing who with
  | nil => cases h
  | cons move past ih =>
    cases move with
    | take taker batch =>
      unfold held at h
      unfold released
      rw [Function.update_apply] at h
      split at h
      · rcases List.mem_append.mp h with hold | hnew
        · exact List.mem_append_left _ (ih hold)
        · exact List.mem_append_right _ hnew
      · exact List.mem_append_left _ (ih h)
    | hand hander =>
      unfold held at h
      rw [Function.update_apply] at h
      split at h
      · exact ih (List.mem_of_mem_tail h)
      · exact ih h

theorem Solo.of_append {more : List (Move ι α)} (h : Solo (more ++ past)) : Solo past := by
  induction more with
  | nil => exact h
  | cons move more ih =>
    cases move with
    | take who batch => exact ih h.1
    | hand who => exact ih h

/-! ## Handing over -/

theorem Solo.handing (h : Solo past) (hands : List ι) : Solo (handing hands past) := by
  induction hands with
  | nil => exact h
  | cons who hands ih => exact ih

theorem held_hands (who : ι) (n : Nat) :
    held (handing (List.replicate n who) past) =
      Function.update (held past) who ((held past who).drop n) := by
  induction n with
  | zero => simp [Couriers.handing]
  | succ n ih =>
    have hstep : held (Couriers.handing (List.replicate (n + 1) who) past) =
        Function.update (held (Couriers.handing (List.replicate n who) past)) who
          (held (Couriers.handing (List.replicate n who) past) who).tail := rfl
    rw [hstep, ih, Function.update_self, Function.update_idem, List.tail_drop]

theorem delivered_hands (who : ι) (n : Nat) :
    delivered (handing (List.replicate n who) past) = delivered past ++ (held past who).take n := by
  induction n with
  | zero => simp [Couriers.handing]
  | succ n ih =>
    have hstep : delivered (Couriers.handing (List.replicate (n + 1) who) past) =
        delivered (Couriers.handing (List.replicate n who) past) ++
          (held (Couriers.handing (List.replicate n who) past) who).head?.toList := rfl
    rw [hstep, ih, held_hands, Function.update_self, List.head?_drop, List.append_assoc,
      List.take_add_one]

/-! ## Deliveries in the order of release -/

theorem Solo.released_eq [Nonempty ι] (h : Solo run) :
    ∃ who, (∀ other, other ≠ who → held run other = []) ∧
      released run = delivered run ++ held run who := by
  induction run with
  | nil =>
    obtain ⟨who⟩ := ‹Nonempty ι›
    exact ⟨who, fun _ _ => rfl, rfl⟩
  | cons move past ih =>
    cases move with
    | take who batch =>
      obtain ⟨hpast, hfree⟩ := h
      obtain ⟨last, hothers, hall⟩ := ih hpast
      by_cases hbatch : batch = []
      · subst hbatch
        refine ⟨last, ?_, ?_⟩
        · simpa only [held, List.append_nil, Function.update_eq_self] using hothers
        · simpa only [released, delivered, held, List.append_nil, Function.update_eq_self] using hall
      · have hfree := hfree hbatch
        -- what is left of earlier batches, if anything, is with `who`
        have hwho : released past = delivered past ++ held past who := by
          by_cases hlast : last = who
          · rw [hall, hlast]
          · rw [hall, hfree last hlast, hothers who (Ne.symm hlast)]
        refine ⟨who, ?_, ?_⟩
        · intro other hne
          rw [held, Function.update_of_ne hne]
          exact hfree other hne
        · rw [released, hwho, held, Function.update_self, delivered, List.append_assoc]
    | hand who =>
      obtain ⟨last, hothers, hall⟩ := ih h
      refine ⟨last, ?_, ?_⟩
      · intro other hne
        rw [held, Function.update_apply]
        split
        · next heq => rw [← heq, hothers other hne, List.tail_nil]
        · exact hothers other hne
      · rw [released, hall, delivered, held, List.append_assoc, Function.update_apply]
        by_cases hlast : last = who
        · rw [if_pos hlast, hlast]
          cases held past who <;> rfl
        · rw [if_neg hlast, hothers who (Ne.symm hlast)]
          rfl

theorem Solo.delivered_prefix [Nonempty ι] (h : Solo run) : delivered run <+: released run := by
  obtain ⟨who, _, hall⟩ := h.released_eq
  exact ⟨held run who, hall.symm⟩

/-- A batch taken beside a courier who holds something can be delivered before it. -/
theorem overtakes {who other : ι} {batch : List α} (hne : other ≠ who) {R : α → α → Prop}
    (horder : ∀ hands : List ι,
      (delivered (handing hands (.take who batch :: past))).Pairwise R) {x y : α} (hx : x ∈ batch)
    (hy : y ∈ held past other) : R x y := by
  have hboth := horder (List.replicate (held past other).length other ++
    List.replicate (held past who ++ batch).length who)
  have hsplit : handing (List.replicate (held past other).length other ++
        List.replicate (held past who ++ batch).length who) (.take who batch :: past) =
      handing (List.replicate (held past other).length other)
        (handing (List.replicate (held past who ++ batch).length who) (.take who batch :: past)) := by
    simp only [handing, List.map_append, List.append_assoc]
  rw [hsplit, delivered_hands, delivered_hands, held_hands, Function.update_of_ne hne, held,
    Function.update_self, Function.update_of_ne hne, List.take_length, List.take_length] at hboth
  refine (List.pairwise_append.mp hboth).2.2 x ?_ y hy
  exact List.mem_append_right _ (List.mem_append_right _ hx)

/-- The items released in order are delivered in order, from every point of
the run on and whatever the turns are, if and only if the run is solo. -/
theorem solo_iff [Nonempty ι] {R : α → α → Prop} (asymm : ∀ x y, R x y → ¬ R y x)
    (sorted : (released run).Pairwise R) :
    Solo run ↔ ∀ past, past <:+ run → ∀ hands, (delivered (handing hands past)).Pairwise R := by
  constructor
  · rintro h past ⟨more, rfl⟩ hands
    have hsolo := h.of_append.handing hands
    have hprefix := hsolo.delivered_prefix
    rw [released_handing] at hprefix
    refine List.Pairwise.sublist ?_ sorted
    rw [released_append]
    exact hprefix.sublist.trans (List.sublist_append_left _ _)
  · intro horder
    induction run with
    | nil => trivial
    | cons move past ih =>
      have hpast : ∀ old, old <:+ past → ∀ hands, (delivered (handing hands old)).Pairwise R :=
        fun old hold => horder old (hold.trans (List.suffix_cons _ _))
      cases move with
      | hand who => exact ih sorted hpast
      | take who batch =>
        obtain ⟨hsorted, _, habove⟩ := List.pairwise_append.mp sorted
        refine ⟨ih hsorted hpast, fun hbatch other hne => ?_⟩
        by_contra hholds
        obtain ⟨x, hx⟩ := List.exists_mem_of_ne_nil _ hbatch
        obtain ⟨y, hy⟩ := List.exists_mem_of_ne_nil _ hholds
        have hovertakes := overtakes hne (horder _ List.suffix_rfl) hx hy
        exact asymm x y hovertakes (habove y (mem_released_of_held hy) x hx)

end Runs

end Couriers
