import Mathlib.Data.List.Infix

/-!
# Sending in rounds

In a round a sender lists the receivers it knows of and goes through the list once, leaving out
some; it may also break off, list them anew as long as it has sent nothing in the round, or go
on to the next round.

`Before`, `Within` and the rules about them are the invariant of a loop that sends so. They give
`Covered`: in a round nobody is sent to more often than the list has them.
-/

namespace Rounds

variable {α : Type}

inductive Event (α : Type) where
  | listed (round : Nat) (receivers : List α)
  | sent (round : Nat) (receiver : α)

/-- Whom a round sent to, in order. Logs have the latest event first. -/
def sends (round : Nat) : List (Event α) → List α
  | [] => []
  | .listed _ _ :: past => sends round past
  | .sent r x :: past => if r = round then sends round past ++ [x] else sends round past

/-- A round sent to part of a list it made, in the order of the list. -/
def Covered (log : List (Event α)) (round : Nat) : Prop :=
  sends round log = [] ∨ ∃ receivers, .listed round receivers ∈ log ∧
    (sends round log).Sublist receivers

/-- The rounds before `round` are over and it has sent nothing yet. -/
structure Before (log : List (Event α)) (round : Nat) : Prop where
  covered : ∀ r, Covered log r
  unsent : ∀ r, round ≤ r → sends r log = []

/-- `round` has come to `rest` in its list. -/
structure Within (log : List (Event α)) (round : Nat) (rest : List α) : Prop where
  covered : ∀ r, r ≠ round → Covered log r
  unsent : ∀ r, round < r → sends r log = []
  current : ∃ done, .listed round (done ++ rest) ∈ log ∧ (sends round log).Sublist done

variable {log : List (Event α)} {round : Nat} {x : α} {rest : List α}

theorem Covered.listed {r : Nat} (h : Covered log r) (receivers : List α) :
    Covered (.listed round receivers :: log) r := by
  rcases h with hnone | ⟨all, hmem, hsub⟩
  · exact .inl hnone
  · exact .inr ⟨all, List.mem_cons_of_mem _ hmem, hsub⟩

theorem Covered.sent {r : Nat} (h : Covered log r) (hne : r ≠ round) :
    Covered (.sent round x :: log) r := by
  have hsends : sends r (.sent round x :: log) = sends r log := if_neg (Ne.symm hne)
  rcases h with hnone | ⟨all, hmem, hsub⟩
  · exact .inl (hsends.trans hnone)
  · exact .inr ⟨all, List.mem_cons_of_mem _ hmem, hsends ▸ hsub⟩

theorem before_nil (round : Nat) : Before ([] : List (Event α)) round :=
  ⟨fun _ => .inl rfl, fun _ _ => rfl⟩

theorem Before.mono (h : Before log round) {later : Nat} (hle : round ≤ later) :
    Before log later :=
  ⟨h.covered, fun r hr => h.unsent r (Nat.le_trans hle hr)⟩

theorem Before.listed (h : Before log round) (receivers : List α) :
    Within (.listed round receivers :: log) round receivers where
  covered r _ := (h.covered r).listed receivers
  unsent r hr := h.unsent r (Nat.le_of_lt hr)
  current := ⟨[], List.mem_cons_self, by
    rw [sends, h.unsent round le_rfl]⟩

theorem Within.skip (h : Within log round (x :: rest)) : Within log round rest := by
  obtain ⟨done, hmem, hsub⟩ := h.current
  refine ⟨h.covered, h.unsent, done ++ [x], ?_, hsub.trans (List.sublist_append_left _ _)⟩
  rwa [List.append_assoc]

theorem Within.sent (h : Within log round (x :: rest)) :
    Within (.sent round x :: log) round rest := by
  obtain ⟨done, hmem, hsub⟩ := h.current
  refine ⟨fun r hr => (h.covered r hr).sent hr, fun r hr => ?_, done ++ [x], ?_, ?_⟩
  · rw [sends, if_neg (Nat.ne_of_lt hr)]
    exact h.unsent r hr
  · rw [List.append_assoc]
    exact List.mem_cons_of_mem _ hmem
  · rw [sends, if_pos rfl]
    exact hsub.append (List.Sublist.refl _)

/-- A round that is over leaves the next one open. -/
theorem Within.over (h : Within log round rest) : Before log (round + 1) where
  covered r := by
    by_cases hr : r = round
    · subst hr
      obtain ⟨done, hmem, hsub⟩ := h.current
      exact .inr ⟨_, hmem, hsub.trans (List.sublist_append_left _ _)⟩
    · exact h.covered r hr
  unsent r hr := h.unsent r hr

theorem Within.again (h : Within log round rest) (hnone : sends round log = []) :
    Before log round where
  covered := h.over.covered
  unsent r hr := by
    rcases Nat.eq_or_lt_of_le hr with rfl | hlt
    · exact hnone
    · exact h.unsent r hlt

end Rounds
