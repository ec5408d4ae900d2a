import Mistlib.Storage.EngineKeeps

/-!
# Runs of the engine

Runs of a pool of the engine's tasks, and what every proof about them needs
to know of the calls: which of them change what.
-/

namespace Mistlib.Storage

open Async

abbrev EnginePool := Pool engineSig World Ledger Note

abbrev EngineView := View World Ledger Note

abbrev EngineEvent := Event engineSig

abbrev EngineMoves (setting : Setting) (A : Cid → Bytes → Prop) :=
  Moves (engine setting) observer (contract setting A)

/-- The pools an engine reaches from a world in which nothing runs. -/
abbrev EngineReach (setting : Setting) (guard : EngineView → EngineEvent → Prop) (w : World)
    (pool : EnginePool) : Prop :=
  Reach (engine setting) observer guard (Pool.init w Ledger.new) pool

/-- Whether a call was answered without an error. -/
def Call.succeeded : (c : Call) → c.Ans → Bool
  | .loadBlock _, answer | .storeBlock _ _, answer | .deleteBlock _, answer
  | .resolveBlock _, answer | .metaGet, answer | .metaSet _, answer => answer.isOk
  | _, _ => true

/-- Every backend call that is answered succeeds. -/
def BackendsWork : EngineEvent → Bool
  | .answered _ c a => c.succeeded a
  | _ => true

variable {setting : Setting} {A : Cid → Bytes → Prop}

section

variable (hA : Covers setting A) {w : World}
  (hstore : ∀ cid data, w.store.get cid = some data → A cid data)
  {guard : EngineView → EngineEvent → Prop}
include hA hstore

/-- What the moves under a condition preserve holds in every pool that an
engine reaches over a store of which `A` is known. -/
theorem EngineReach.invariant {I : EngineView → Prop}
    (hI : ∀ {v event v'}, EngineMoves setting A v event v' → guard v event → I v → I v')
    {pool : EnginePool} (h : EngineReach setting guard w pool)
    (hstart : I (Pool.init w Ledger.new : EnginePool).view) : I pool.view :=
  Reach.invariant (engine_sound hA) hI h (Pool.Kept.init hstore _) hstart

/-- A step of a reached pool is a move of its view. -/
theorem EngineReach.moves {pool pool' : EnginePool} (h : EngineReach setting guard w pool)
    {choice : Choice engineSig Circumstance} {event : EngineEvent}
    (hstep : pool.step (engine setting) observer choice = some (event, pool')) :
    EngineMoves setting A pool.view event pool'.view :=
  (Pool.step_moves (engine_sound hA) (Reach.kept (engine_sound hA) h (Pool.Kept.init hstore _))
    hstep).1

end

/-- What each call can answer, and what it leaves. -/
inductive Answers : (c : Call) → c.Ans → Tid → World → World → Prop where
  | selfPositions {t : Tid} {w : World} (positions : List Vector3) :
      Answers .selfPositions positions t w w
  | loadBlock {t : Tid} {w : World} {cid : Cid} (answer : Except MistError (Option Bytes)) :
      Answers (.loadBlock cid) answer t w w
  | storeBlock {t : Tid} {w : World} (cid : Cid) (data : Bytes) :
      Answers (.storeBlock cid data) (.ok ()) t w { w with store := w.store.insert cid data }
  | storeFailed {t : Tid} {w : World} (cid : Cid) (data : Bytes) (e : MistError) :
      Answers (.storeBlock cid data) (.error e) t w w
  | deleteBlock {t : Tid} {w : World} (cid : Cid) :
      Answers (.deleteBlock cid) (.ok ()) t w { w with store := w.store.erase cid }
  | deleteFailed {t : Tid} {w : World} (cid : Cid) (e : MistError) :
      Answers (.deleteBlock cid) (.error e) t w w
  | resolveBlock {t : Tid} {w : World} {cid : Cid} (answer : Except MistError (Option Bytes)) :
      Answers (.resolveBlock cid) answer t w w
  | prefetchProviders {t : Tid} {w : World} (cids : List Cid) :
      Answers (.prefetchProviders cids) () t w w
  | metaGet {t : Tid} {w : World} : Answers .metaGet (.ok w.pins) t w w
  | metaGetFailed {t : Tid} {w : World} (e : MistError) : Answers .metaGet (.error e) t w w
  | metaSet {t : Tid} {w : World} (data : Bytes) :
      Answers (.metaSet data) (.ok ()) t w { w with pins := some data }
  /-- The write may have been made, or not. -/
  | metaSetFailed {t : Tid} {w : World} (data : Bytes) (e : MistError) {pins : Option Bytes} :
      pins = w.pins ∨ pins = some data → Answers (.metaSet data) (.error e) t w { w with pins }
  | lockIo {t : Tid} {w : World} :
      w.pinRegistryIo = none → Answers .lockIo () t w { w with pinRegistryIo := some t }

section

variable {c : Call} {ω : Circumstance} {t : Tid} {w w' : World} {a : c.Ans}
  (h : World.answer c ω t w = some (a, w'))
include h

theorem World.answers : Answers c a t w w' := by
  cases c with
  | selfPositions =>
    cases h
    exact .selfPositions _
  | loadBlock cid =>
    cases h
    exact .loadBlock _
  | storeBlock cid data =>
    simp only [World.answer] at h
    split at h
    · cases h
      exact .storeBlock cid data
    · cases h
      exact .storeFailed cid data _
  | deleteBlock cid =>
    simp only [World.answer] at h
    split at h
    · cases h
      exact .deleteBlock cid
    · cases h
      exact .deleteFailed cid _
  | resolveBlock cid =>
    cases h
    exact .resolveBlock _
  | prefetchProviders cids =>
    cases h
    exact .prefetchProviders cids
  | metaGet =>
    simp only [World.answer] at h
    split at h
    · cases h
      exact .metaGet
    · cases h
      exact .metaGetFailed _
  | metaSet data =>
    simp only [World.answer] at h
    split at h
    · cases h
      exact .metaSet data
    · cases h
      split
      · exact .metaSetFailed data _ (Or.inr rfl)
      · exact .metaSetFailed data _ (Or.inl rfl)
  | lockIo =>
    simp only [World.answer] at h
    split at h
    · cases h
      exact .lockIo ‹_›
    · cases h

theorem World.manager_answer : w'.manager = w.manager := by
  cases World.answers h <;> rfl

end

theorem World.release_eq (i : Tid) (w : World) :
    World.release i w = { w with pinRegistryIo := (World.release i w).pinRegistryIo } := by
  unfold World.release
  split
  · rfl
  · rfl

theorem World.releaseAll_eq (gone : List Tid) (w : World) :
    gone.foldl (fun w i => World.release i w) w =
      { w with pinRegistryIo := (gone.foldl (fun w i => World.release i w) w).pinRegistryIo } := by
  induction gone generalizing w with
  | nil => rfl
  | cons i rest ih =>
    simp only [List.foldl_cons]
    rw [ih, World.release_eq]

end Mistlib.Storage
