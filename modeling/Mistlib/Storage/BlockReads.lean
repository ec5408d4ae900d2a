import Mistlib.Storage.EngineEnds
import Mistlib.Storage.Formats

/-!
# Blocks that are held and blocks that are sent

`resolve_or_fetch` checks what a peer sends against the content id and the codec it was
asked for. A block of the store it returns as it is, so the codec is looked at on one of
its two ways only.
-/

namespace Mistlib.Storage

open Async

/-- Reads of the block store tell what it holds. Whatever else is asked may be answered
in any way. -/
def ReadsFrom (store : Table Cid Bytes) (P : Possible engineSig) : Prop :=
  ∀ cid held, P.call (.loadBlock cid) (.ok held) → held = store.get cid

/-- Backends that work, over this block store and this resolver. -/
def blockBackends (setting : Setting) (store : Table Cid Bytes)
    (resolver : Cid → Except MistError (Option Bytes)) : Possible engineSig :=
  workingBackends setting (fun cid held => held = store.get cid)
    fun cid answer => answer = resolver cid

namespace Engine

section Reads

variable {setting : Setting} {P : Possible engineSig} {jobs left : Multiset (AnyJob engineSig)}
  {store : Table Cid Bytes} {resolver : Cid → Except MistError (Option Bytes)}
  {cid : Cid} {codec : Nat} {data : Bytes} {r : Except MistError Bytes}

theorem ok_bind {α β : Type} {p : Engine α} {f : α → Engine β} {b : β}
    (h : EngineEnds setting P jobs (p >>= f) (.ok b) left) :
    ∃ a mid, EngineEnds setting P mid (f a) (.ok b) left := by
  rcases h.of_bind with ⟨a, mid, _, hrest⟩ | ⟨e, he, _⟩
  · exact ⟨a, mid, hrest⟩
  · cases he

theorem resolveOrFetch_ok
    (h : EngineEnds setting P jobs (resolveOrFetch setting cid codec) (.ok data) left) :
    P.call (.loadBlock cid) (.ok (some data)) ∨ verifyCid setting.sha256 cid data codec = true := by
  rcases h.of_bind with ⟨block, mid, hfirst, hrest⟩ | ⟨e, he, _⟩
  · obtain ⟨hload, rfl⟩ := ends_loadBlock hfirst
    clear hfirst
    cases block with
    | some held =>
      obtain ⟨_, _, hdone⟩ := ends_perform_bind hrest
      cases hdone
      exact .inl hload
    | none =>
      obtain ⟨answer, _, hafter⟩ := ends_call_bind hrest
      obtain ⟨resolved, mid', htaken⟩ := ok_bind hafter
      clear hrest hafter
      cases resolved with
      | none => cases htaken
      | some sent =>
        simp only at htaken
        split at htaken
        · next hverify =>
          obtain ⟨_, _, hplaced⟩ := ok_bind htaken
          obtain ⟨_, _, htracked⟩ := ok_bind hplaced
          obtain ⟨_, _, hchecked⟩ := ok_bind htracked
          obtain ⟨_, _, hstored⟩ := ok_bind hchecked
          cases hstored
          exact .inr hverify
        · cases htaken
  · cases he

/-! ### What a read answers -/

/-- The answer to a read, by what the store holds and the resolver finds. -/
def readAnswer (setting : Setting) (store : Table Cid Bytes)
    (resolver : Cid → Except MistError (Option Bytes)) (cid : Cid) (codec : Nat) :
    Except MistError Bytes :=
  match store.get cid with
  | some data => .ok data
  | none =>
    match resolver cid with
    | .error e => .error e
    | .ok none => .error (unavailable cid)
    | .ok (some data) =>
      if verifyCid setting.sha256 cid data codec then .ok data
      else .error (.internal "Hash mismatch")

theorem ends_readAnswer (h : EngineEnds setting (blockBackends setting store resolver) 0
    (resolveOrFetch setting cid codec) r left) : r = readAnswer setting store resolver cid codec := by
  obtain ⟨_, h⟩ := ends_resolveOrFetch ends_capacity (fun _ _ ha => ha) h
  rcases h with ⟨e, ⟨held, hheld, _⟩, _⟩ | ⟨data, ⟨held, hheld, hstore⟩, rfl⟩ | ⟨⟨held, hheld, hstore⟩, h⟩
  · cases hheld
  · cases hheld
    rw [readAnswer, ← hstore]
  · cases hheld
    rw [readAnswer, ← hstore]
    rcases h with ⟨e, hanswer, rfl⟩ | ⟨hanswer, rfl⟩ | ⟨data, hanswer, rfl⟩
    · rw [← show (.error e : Except MistError (Option Bytes)) = resolver cid from hanswer]
    · rw [← show (.ok none : Except MistError (Option Bytes)) = resolver cid from hanswer]
    · rw [← show (.ok (some data) : Except MistError (Option Bytes)) = resolver cid from hanswer]

/-- A read of one block ends with the answer that is written down. -/
theorem readAnswer_ends (setting : Setting) (store : Table Cid Bytes)
    (resolver : Cid → Except MistError (Option Bytes)) (cid : Cid) (codec : Nat) :
    ∃ left, EngineEnds setting (blockBackends setting store resolver) 0
      (resolveOrFetch setting cid codec) (readAnswer setting store resolver cid codec) left := by
  have hload : (blockBackends setting store resolver).call (.loadBlock cid) (.ok (store.get cid)) :=
    ⟨_, rfl, rfl⟩
  have hanswer : (blockBackends setting store resolver).call (.resolveBlock cid) (resolver cid) := rfl
  unfold readAnswer
  cases hheld : store.get cid with
  | some data =>
    rw [hheld] at hload
    exact ⟨0, .await _ hload (.op () trivial (.pure data))⟩
  | none =>
    rw [hheld] at hload
    cases hfound : resolver cid with
    | error e =>
      rw [hfound] at hanswer
      have hfails : EngineEnds setting (blockBackends setting store resolver) 0
        (ofExcept (.error e) : Engine Bytes) (.error e) 0 := .throw _
      exact ⟨0, .await _ hload (.await _ hanswer hfails)⟩
    | ok found =>
      rw [hfound] at hanswer
      cases found with
      | none =>
        have hfails : EngineEnds setting (blockBackends setting store resolver) 0
          (throw (unavailable cid) : Engine Bytes) (.error (unavailable cid)) 0 := .throw _
        exact ⟨0, .await _ hload (.await _ hanswer hfails)⟩
      | some data =>
        suffices htaken : EngineEnds setting (blockBackends setting store resolver) 0
            (if verifyCid setting.sha256 cid data codec then do
              let position ← resolveAutoPosition setting
              perform (.trackBlock cid data.length position)
              enforceCapacityLimit setting
              storeBlock cid data
              return data
            else throw (.internal "Hash mismatch"))
            (if verifyCid setting.sha256 cid data codec then .ok data
              else .error (.internal "Hash mismatch")) 0 by
          exact ⟨0, .await _ hload (.await _ hanswer htaken)⟩
        split
        · obtain ⟨position, hposition⟩ := autoPosition_ends setting _ _ 0
          have hstores : EngineEnds setting (blockBackends setting store resolver) 0
              (do storeBlock cid data; return data) (.ok data) 0 := .await (.ok ()) rfl (.pure data)
          exact hposition.bind (.op () trivial ((capacity_ends setting _ _ 0).bind hstores))
        · exact .throw _

/-! ### Both ways -/

variable (setting store resolver cid codec)

/-- Bytes that a read returns hash to the content id under the codec asked for. -/
def Verified : Prop :=
  ∀ P : Possible engineSig, ReadsFrom store P → ∀ jobs data left,
    EngineEnds setting P jobs (resolveOrFetch setting cid codec) (.ok data) left →
      verifyCid setting.sha256 cid data codec = true

def Answered (r : Except MistError Bytes) : Prop :=
  ∃ left, EngineEnds setting (blockBackends setting store resolver) 0
    (resolveOrFetch setting cid codec) r left

/-- A read is answered alike whether the store has these bytes or the resolver finds them. -/
def Alike (data : Bytes) : Prop :=
  ∀ r, Answered setting (store.insert cid data) resolver cid codec r ↔
    Answered setting (store.erase cid) (Function.update resolver cid (.ok (some data))) cid codec r

variable {setting store resolver cid codec}

theorem answered_iff :
    Answered setting store resolver cid codec r ↔ r = readAnswer setting store resolver cid codec := by
  constructor
  · rintro ⟨left, h⟩
    exact ends_readAnswer h
  · rintro rfl
    exact readAnswer_ends _ _ _ _ _

theorem verified_iff : Verified setting store cid codec ↔
    ∀ data, store.get cid = some data → verifyCid setting.sha256 cid data codec = true := by
  constructor
  · intro h data hdata
    have hreads : ReadsFrom store (blockBackends setting store fun _ => .ok none) := by
      rintro c held ⟨_, heq, hheld⟩
      cases heq
      exact hheld
    obtain ⟨left, hends⟩ := readAnswer_ends setting store (fun _ => .ok none) cid codec
    rw [readAnswer, hdata] at hends
    exact h _ hreads _ _ _ hends
  · intro h P hreads jobs data left hends
    rcases resolveOrFetch_ok hends with hload | hverify
    · exact h data (hreads cid _ hload).symm
    · exact hverify

/-- A read answers alike exactly for bytes that verify. -/
theorem alike_iff : Alike setting store resolver cid codec data ↔
    verifyCid setting.sha256 cid data codec = true := by
  have hheld : readAnswer setting (store.insert cid data) resolver cid codec = .ok data := by
    rw [readAnswer, Table.get_insert_self]
  have hsent : readAnswer setting (store.erase cid)
      (Function.update resolver cid (.ok (some data))) cid codec =
      if verifyCid setting.sha256 cid data codec then .ok data
      else .error (.internal "Hash mismatch") := by
    rw [readAnswer, Table.get_erase, if_pos rfl, Function.update_self]
  simp only [Alike, answered_iff, hheld, hsent]
  constructor
  · intro h
    have hok := (h (.ok data)).mp rfl
    by_contra hverify
    rw [if_neg hverify] at hok
    cases hok
  · intro hverify r
    rw [if_pos hverify]

end Reads

/-- Reads return verified bytes exactly if what the store holds verifies, and bytes are
treated alike on both ways exactly if they verify. -/
theorem blockReads_iff (setting : Setting) (store : Table Cid Bytes)
    (resolver : Cid → Except MistError (Option Bytes)) (cid : Cid) (codec : Nat) :
    (Verified setting store cid codec ↔
      ∀ data, store.get cid = some data → verifyCid setting.sha256 cid data codec = true) ∧
    ∀ data, Alike setting store resolver cid codec data ↔
      verifyCid setting.sha256 cid data codec = true :=
  ⟨verified_iff, fun _ => alike_iff⟩

open Sample in
/-- A chunk in the store is returned to a read for a manifest. -/
theorem heldChunk_unverified :
    ¬ ∀ (store : Table Cid Bytes) (resolver : Cid → Except MistError (Option Bytes)) (cid : Cid)
      (codec : Nat), Verified (setting true) store cid codec ∧
        ∀ data, Alike (setting true) store resolver cid codec data := by
  intro h
  have hverified := (h ((∅ : Table Cid Bytes).insert chunk [7]) (fun _ => .ok none) chunk
    MULTICODEC_DAG_CBOR).1
  have hverify := verified_iff.mp hverified [7] (Table.get_insert_self _ _ _)
  have hmismatch : verifyCid (setting true).sha256 chunk [7] MULTICODEC_DAG_CBOR = false := by
    decide +kernel
  rw [hmismatch] at hverify
  cases hverify

end Engine

end Mistlib.Storage
