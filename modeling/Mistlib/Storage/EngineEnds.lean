import Mistlib.Async.Ends
import Mistlib.Storage.Engine

/-!
# What the engine's functions end with

One lemma for each function that several of the engine's jobs go through: what
it ends with when backend calls succeed. Operations and answers are whatever
`P` allows, so the lemmas hold for any interleaving.
-/

namespace Mistlib.Storage

open Async

/-- What an engine's program ends with. -/
abbrev EngineEnds (setting : Setting) (P : Possible engineSig) {α : Type}
    (jobs : Multiset (AnyJob engineSig)) (p : Engine α) (r : Except MistError α)
    (left : Multiset (AnyJob engineSig)) : Prop :=
  Ends (engine setting) P jobs p r left

/-- Backends that work: writes and deletions succeed, the metadata store holds a registry that can
be read or none, the block store answers with what `loads` allows and the resolver with what
`resolves` allows. -/
def workingBackends (setting : Setting) (loads : Cid → Option Bytes → Prop)
    (resolves : Cid → Except MistError (Option Bytes) → Prop) : Possible engineSig where
  op _ _ := True
  call
    | .loadBlock cid, a => ∃ held, a = .ok held ∧ loads cid held
    | .resolveBlock cid, a => resolves cid a
    | .storeBlock _ _, a | .deleteBlock _, a => a = .ok ()
    | .metaGet, a => ∃ held, a = .ok held ∧
        ∀ bytes ∈ held, ∃ registry, setting.registries.fromJson bytes = .ok registry
    | .metaSet _, a => a = .ok ()
    | .selfPositions, _ | .prefetchProviders _, _ | .lockIo, _ => True

namespace Engine

variable {setting : Setting} {P : Possible engineSig} {jobs left : Multiset (AnyJob engineSig)}

variable {cid : Cid}

theorem ends_perform {o : Op} {r : Except MistError o.Res}
    (h : EngineEnds setting P jobs (perform o) r left) :
    ∃ x, r = .ok x ∧ P.op o x ∧ left = jobs :=
  Ends.of_perform h

theorem ends_call {c : Call} {r : Except MistError c.Ans}
    (h : EngineEnds setting P jobs (call c) r left) :
    ∃ x, r = .ok x ∧ P.call c x ∧ left = jobs :=
  Ends.of_call h

variable {α : Type}

/-- An operation of the engine is performed, then the rest goes on. -/
theorem ends_perform_bind {o : Op} {f : o.Res → Engine α} {r : Except MistError α}
    (h : EngineEnds setting P jobs (perform o >>= f) r left) :
    ∃ x, P.op o x ∧ EngineEnds setting P jobs (f x) r left := by
  cases h with
  | op x hx h => exact ⟨x, hx, h⟩

theorem ends_call_bind {c : Call} {f : c.Ans → Engine α} {r : Except MistError α}
    (h : EngineEnds setting P jobs (call c >>= f) r left) :
    ∃ x, P.call c x ∧ EngineEnds setting P jobs (f x) r left := by
  cases h with
  | await x hx h => exact ⟨x, hx, h⟩

theorem ends_loadBlock {r : Except MistError (Option Bytes)}
    (h : EngineEnds setting P jobs (loadBlock cid) r left) :
    P.call (.loadBlock cid) r ∧ left = jobs := by
  obtain ⟨x, hx, h⟩ := ends_call_bind h
  obtain ⟨rfl, rfl⟩ := h.of_ofExcept
  exact ⟨hx, rfl⟩

variable {r : Except MistError Unit}

theorem ends_storeBlock {data : Bytes} (h : EngineEnds setting P jobs (storeBlock cid data) r left) :
    P.call (.storeBlock cid data) r ∧ left = jobs := by
  obtain ⟨x, hx, h⟩ := ends_call_bind h
  obtain ⟨rfl, rfl⟩ := h.of_ofExcept
  exact ⟨hx, rfl⟩

/-- A part that always returns hands its result to the rest. -/
theorem ends_bind_ok {β : Type} {p : Engine α} {f : α → Engine β} {r : Except MistError β}
    (hok : ∀ {x : Except MistError α} {mid}, EngineEnds setting P jobs p x mid → (∃ a, x = .ok a) ∧ mid = jobs)
    (h : EngineEnds setting P jobs (p >>= f) r left) :
    ∃ a, EngineEnds setting P jobs p (.ok a) jobs ∧ EngineEnds setting P jobs (f a) r left := by
  rcases h.of_bind with ⟨a, mid, hfirst, hrest⟩ | ⟨e, _, hfirst⟩
  · obtain ⟨_, rfl⟩ := hok hfirst
    exact ⟨a, hfirst, hrest⟩
  · obtain ⟨⟨a, ha⟩, _⟩ := hok hfirst
    cases ha

/-- A first part that can only end in one way. -/
theorem ends_bind_of {β : Type} {p : Engine α} {f : α → Engine β} {a : α} {r : Except MistError β}
    (hok : ∀ {x : Except MistError α} {mid}, EngineEnds setting P jobs p x mid → x = .ok a ∧ mid = jobs)
    (h : EngineEnds setting P jobs (p >>= f) r left) : EngineEnds setting P jobs (f a) r left := by
  obtain ⟨_, hfirst, hrest⟩ := ends_bind_ok (fun hx => ⟨⟨a, (hok hx).1⟩, (hok hx).2⟩) h
  cases (hok hfirst).1
  exact hrest

theorem ends_positions {r : Except MistError (List Vector3)}
    (h : EngineEnds setting P jobs (resolvePositionsForEviction setting) r left) :
    (∃ positions, r = .ok positions) ∧ left = jobs := by
  unfold resolvePositionsForEviction at h
  split at h
  · obtain ⟨x, rfl, _, rfl⟩ := ends_call h
    exact ⟨⟨x, rfl⟩, rfl⟩
  · cases h
    exact ⟨⟨[], rfl⟩, rfl⟩

theorem ends_autoPosition {r : Except MistError (Option Vector3)}
    (h : EngineEnds setting P jobs (resolveAutoPosition setting) r left) :
    (∃ position, r = .ok position) ∧ left = jobs := by
  obtain ⟨positions, _, hrest⟩ := ends_bind_ok ends_positions h
  cases hrest
  exact ⟨⟨_, rfl⟩, rfl⟩

theorem ends_missing (hload : ∀ cid a, P.call (.loadBlock cid) a → ∃ held, a = .ok held)
    (cids : List Cid) {r : Except MistError (List Cid)}
    (h : EngineEnds setting P jobs (missing cids) r left) :
    (∃ absent, r = .ok absent) ∧ left = jobs := by
  induction cids generalizing r left with
  | nil =>
    cases h
    exact ⟨⟨_, rfl⟩, rfl⟩
  | cons cid rest ih =>
    obtain ⟨block, _, hrest⟩ := ends_bind_ok (fun hx => by
      obtain ⟨hcall, rfl⟩ := ends_loadBlock hx
      exact ⟨hload cid _ hcall, rfl⟩) h
    obtain ⟨others, _, hrest⟩ := ends_bind_ok ih hrest
    cases hrest
    exact ⟨⟨_, rfl⟩, rfl⟩

theorem ends_evict (hdelete : ∀ cid a, P.call (.deleteBlock cid) a → a = .ok ()) (cids : List Cid)
    (h : EngineEnds setting P jobs (evict cids) r left) :
    r = .ok () ∧ left = jobs := by
  induction cids with
  | nil =>
    cases h
    exact ⟨rfl, rfl⟩
  | cons cid rest ih =>
    obtain ⟨a, ha, hrest⟩ := ends_call_bind h
    rw [hdelete cid a ha] at hrest
    obtain ⟨_, _, hrest⟩ := ends_perform_bind hrest
    exact ih hrest

theorem ends_enforceCapacityLimit
    (hload : ∀ exceeded, P.op .overCapacity exceeded →
      ∀ {r : Except MistError Unit} {left}, EngineEnds setting P jobs (loadIfOver setting exceeded) r left →
      r = .ok () ∧ left = jobs)
    (hdelete : ∀ cid a, P.call (.deleteBlock cid) a → a = .ok ())
    (h : EngineEnds setting P jobs (enforceCapacityLimit setting) r left) :
    r = .ok () ∧ left = jobs := by
  obtain ⟨positions, _, hrest⟩ := ends_bind_ok ends_positions h
  obtain ⟨exceeded, hover, hrest⟩ := ends_perform_bind hrest
  have hafter := ends_bind_of (hload exceeded hover) hrest
  obtain ⟨chosen, _, hrest⟩ := ends_perform_bind hafter
  exact ends_evict hdelete chosen hrest

/-! ### Backends that work -/

section Working

variable {loads : Cid → Option Bytes → Prop} {resolves : Cid → Except MistError (Option Bytes) → Prop}

variable {r : Except MistError Unit}

theorem ends_loadPinRegistry
    (h : EngineEnds setting (workingBackends setting loads resolves) jobs (loadPinRegistry setting) r left) :
    r = .ok () ∧ left = jobs := by
  obtain ⟨loaded, _, hrest⟩ := ends_perform_bind h
  cases loaded with
  | true =>
    cases hrest
    exact ⟨rfl, rfl⟩
  | false =>
    obtain ⟨answer, ⟨held, rfl, hreads⟩, hrest⟩ := ends_call_bind hrest
    cases held with
    | none =>
      obtain ⟨_, rfl, _, rfl⟩ := ends_perform hrest
      exact ⟨rfl, rfl⟩
    | some bytes =>
      obtain ⟨registry, hregistry⟩ := hreads bytes rfl
      change EngineEnds setting _ jobs (ofExcept (setting.registries.fromJson bytes) >>= _) r left
        at hrest
      rw [hregistry] at hrest
      obtain ⟨_, rfl, _, rfl⟩ := ends_perform hrest
      exact ⟨rfl, rfl⟩

theorem ends_ensurePinRegistryLoaded
    (h : EngineEnds setting (workingBackends setting loads resolves) jobs (ensurePinRegistryLoaded setting) r left) :
    r = .ok () ∧ left = jobs := by
  obtain ⟨loaded, _, hrest⟩ := ends_perform_bind h
  split at hrest
  · cases hrest
    exact ⟨rfl, rfl⟩
  · split at hrest
    · obtain ⟨_, _, hlocked⟩ := ends_call_bind hrest
      rcases hlocked.of_bind with ⟨result, mid, hbody, hunlock⟩ | ⟨e, _, hbody⟩
      · obtain ⟨result', hresult, hload⟩ := hbody.of_attempt
        cases hresult
        obtain ⟨rfl, rfl⟩ := ends_loadPinRegistry hload
        obtain ⟨_, _, hdone⟩ := ends_perform_bind hunlock
        obtain ⟨rfl, rfl⟩ := hdone.of_ofExcept
        exact ⟨rfl, rfl⟩
      · obtain ⟨_, hresult, _⟩ := hbody.of_attempt
        cases hresult
    · cases hrest
      exact ⟨rfl, rfl⟩

theorem ends_capacity
    (h : EngineEnds setting (workingBackends setting loads resolves) jobs (enforceCapacityLimit setting) r left) :
    r = .ok () ∧ left = jobs := by
  refine ends_enforceCapacityLimit ?_ (fun cid a ha => ha) h
  intro exceeded _ r left hload
  unfold loadIfOver at hload
  split at hload
  · exact ends_ensurePinRegistryLoaded hload
  · cases hload
    exact ⟨rfl, rfl⟩

variable (setting loads resolves) in
theorem positions_end (jobs : Multiset (AnyJob engineSig)) :
    ∃ positions, EngineEnds setting (workingBackends setting loads resolves) jobs
      (resolvePositionsForEviction setting) (.ok positions) jobs := by
  unfold resolvePositionsForEviction
  split
  · exact ⟨[], .await [] trivial (.pure [])⟩
  · exact ⟨[], .pure []⟩

variable (setting loads resolves) in
theorem autoPosition_ends (jobs : Multiset (AnyJob engineSig)) :
    ∃ position, EngineEnds setting (workingBackends setting loads resolves) jobs
      (resolveAutoPosition setting) (.ok position) jobs := by
  obtain ⟨positions, hpositions⟩ := positions_end setting loads resolves jobs
  exact ⟨positions.head?, hpositions.bind (.pure _)⟩

variable (setting loads resolves) in
theorem capacity_ends (jobs : Multiset (AnyJob engineSig)) :
    EngineEnds setting (workingBackends setting loads resolves) jobs
      (enforceCapacityLimit setting) (.ok ()) jobs := by
  obtain ⟨positions, hpositions⟩ := positions_end setting loads resolves jobs
  have hchecked : EngineEnds setting (workingBackends setting loads resolves) jobs
      (do loadIfOver setting (← overCapacity); evict (← perform (.victims positions))) (.ok ()) jobs :=
    .op false trivial (.op [] trivial (.pure ()))
  exact hpositions.bind hchecked

end Working

/-- What a fetch ends with when the block comes from the resolver and what
follows goes well. -/
theorem ends_resolveOrFetch {codec : Nat}
    (hcapacity : ∀ {r : Except MistError Unit} {left},
      EngineEnds setting P jobs (enforceCapacityLimit setting) r left → r = .ok () ∧ left = jobs)
    (hstore : ∀ data a, P.call (.storeBlock cid data) a → a = .ok ()) {r : Except MistError Bytes}
    (h : EngineEnds setting P jobs (resolveOrFetch setting cid codec) r left) :
    left = jobs ∧
      ((∃ e, P.call (.loadBlock cid) (.error e) ∧ r = .error e) ∨
        (∃ data, P.call (.loadBlock cid) (.ok (some data)) ∧ r = .ok data) ∨
        P.call (.loadBlock cid) (.ok none) ∧
          ((∃ e, P.call (.resolveBlock cid) (.error e) ∧ r = .error e) ∨
            P.call (.resolveBlock cid) (.ok none) ∧ r = .error (unavailable cid) ∨
            ∃ data, P.call (.resolveBlock cid) (.ok (some data)) ∧
              r = if verifyCid setting.sha256 cid data codec then .ok data
                else .error (.internal "Hash mismatch"))) := by
  rcases h.of_bind with ⟨block, mid, hfirst, hrest⟩ | ⟨e, rfl, hfirst⟩
  · obtain ⟨hload, rfl⟩ := ends_loadBlock hfirst
    clear hfirst
    cases block with
    | some data =>
      obtain ⟨_, _, hdone⟩ := ends_perform_bind hrest
      cases hdone
      exact ⟨rfl, .inr (.inl ⟨data, hload, rfl⟩)⟩
    | none =>
      obtain ⟨answer, hanswer, hafter⟩ := ends_call_bind hrest
      clear hrest
      rcases hafter.of_bind with ⟨resolved, mid', hresolved, htaken⟩ | ⟨e, rfl, hresolved⟩
      · obtain ⟨rfl, rfl⟩ := hresolved.of_ofExcept
        cases resolved with
        | none =>
          cases htaken
          exact ⟨rfl, .inr (.inr ⟨hload, .inr (.inl ⟨hanswer, rfl⟩)⟩)⟩
        | some data =>
          simp only at htaken
          split at htaken
          · next hverify =>
            obtain ⟨position, _, hplaced⟩ := ends_bind_ok ends_autoPosition htaken
            obtain ⟨_, _, htracked⟩ := ends_perform_bind hplaced
            have hchecked := ends_bind_of hcapacity htracked
            have hdone := ends_bind_of (fun hx => (ends_storeBlock hx).imp_left (hstore data _)) hchecked
            cases hdone
            refine ⟨rfl, .inr (.inr ⟨hload, .inr (.inr ⟨data, hanswer, ?_⟩)⟩)⟩
            rw [if_pos hverify]
          · next hverify =>
            cases htaken
            refine ⟨rfl, .inr (.inr ⟨hload, .inr (.inr ⟨data, hanswer, ?_⟩)⟩)⟩
            rw [if_neg hverify]
      · obtain ⟨rfl, rfl⟩ := hresolved.of_ofExcept
        exact ⟨rfl, .inr (.inr ⟨hload, .inl ⟨e, hanswer, rfl⟩⟩)⟩
  · obtain ⟨hload, rfl⟩ := ends_loadBlock hfirst
    exact ⟨rfl, .inl ⟨e, hload, rfl⟩⟩

end Engine

end Mistlib.Storage
