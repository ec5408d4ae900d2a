import Mistlib.Storage.LocalGet

/-!
# Files that are added with a pin

`add_pinned` writes the blocks of a file as `add` does and pins them when all
are written. Until then none of them is protected, and the capacity is looked at
after every write: a block of the file is kept if no pass chooses it once its
last write has been started.
-/

namespace Mistlib.Storage

open Async

namespace Engine

variable (setting : Setting) (name : String) (data : Bytes)

/-- The text of a file's manifest, if it can be encoded. -/
def manifestText : Option Bytes := (setting.manifests.toVec (manifestOf setting name data)).toOption

/-- The digests of the blocks of a file tell them from all other blocks. -/
def BlocksApart : Prop :=
  ∀ block ∈ chunks data ++ (manifestText setting name data).toList, ∀ other,
    setting.sha256 other = setting.sha256 block → other = block

/-- A pass takes no block of the file all of whose writes have been started. -/
def Spares (n : Progress) (chosen : List Cid) : Prop :=
  ∀ cid ∈ chosen,
    (∀ chunk ∈ chunks data, chunkCid setting chunk = cid →
      cid ∈ ((chunks data).drop n.started).map (chunkCid setting)) ∧
    ∀ text ∈ manifestText setting name data, rootOf setting text = cid → n.manifest = false

def sparingTerms : Terms engineSig Progress where
  op
    | n, .victims _, chosen => Spares setting name data n chosen
    | _, _, _ => True
  answer _ _ := True
  asks _ := True

/-! ### The chunks -/

/-- The write of a chunk, as far as it may have come. -/
inductive Storing (chunk : Bytes) : Hand engineSig → Prop
  | asked : Storing chunk (.fresh (engine setting) (Job.writeChunk (chunkCid setting chunk) chunk))
  | done : Storing chunk ⟨Kind.written, Job.writeChunk (chunkCid setting chunk) chunk,
      .pure (chunkCid setting chunk, chunk.length)⟩
  | failed (e : MistError) : Storing chunk ⟨Kind.written,
      Job.writeChunk (chunkCid setting chunk) chunk, .throw e⟩

/-- A chunk has a write that is still to be started, is being written, is in the
block store, or a write has failed of which the `add` does not know yet. -/
inductive Secured (chunk : Bytes) (x : EngineScene) : Prop
  | due : chunk ∈ (chunks data).drop x.note.started → Secured chunk x
  | underWay : .fresh (engine setting) (Job.writeChunk (chunkCid setting chunk) chunk) ∈ x.crew →
      Secured chunk x
  | lost {job : Job .written} {e : MistError} : ⟨Kind.written, job, .throw e⟩ ∈ x.crew →
      Secured chunk x
  | stored : x.world.store.get (chunkCid setting chunk) = some chunk → Secured chunk x

/-- While the chunks are written, and a pass has the blocks `doomed` still to
delete, no chunk is lost. -/
structure Keeps (doomed : List Cid) (x : EngineScene) : Prop where
  hands : ∀ hand ∈ x.crew, ∃ chunk ∈ chunks data, Storing setting chunk hand
  secured : ∀ chunk ∈ chunks data, Secured setting data chunk x
  doomed : ∀ chunk ∈ chunks data, chunkCid setting chunk ∈ doomed →
    chunk ∈ (chunks data).drop x.note.started
  manifest : x.note.manifest = false

/-- When all is written, the blocks are in the store, and none of those that a
pass has still to delete is one of them. -/
structure Whole (text : Bytes) (doomed : List Cid) (x : EngineScene) : Prop where
  crew : x.crew = 0
  held : x.world.Holds setting data text
  doomed : ∀ cid codec block, (cid, codec, block) ∈ fileBlocks setting data text → cid ∉ doomed
  started : (chunks data).length ≤ x.note.started
  manifest : x.note.manifest = true

variable {setting} {name} {data}

theorem chunk_of_chunkCid (hapart : BlocksApart setting name data) {chunk other : Bytes}
    (hchunk : chunk ∈ chunks data) (hcid : chunkCid setting other = chunkCid setting chunk) :
    other = chunk :=
  hapart chunk (List.mem_append_left _ hchunk) other (computeCid_digest (by decide) (by decide) hcid)

theorem writeChunk_eq (setting : Setting) (chunk : Bytes) :
    ∃ k, Hand.fresh (engine setting) (Job.writeChunk (chunkCid setting chunk) chunk) =
        ⟨Kind.written, Job.writeChunk (chunkCid setting chunk) chunk,
          .await (.storeBlock (chunkCid setting chunk) chunk) k⟩ ∧
      k (.ok ()) = .pure (chunkCid setting chunk, chunk.length) ∧ ∀ e, k (.error e) = .throw e :=
  ⟨_, rfl, rfl, fun _ => rfl⟩

theorem chunk_of_fresh {chunk other : Bytes}
    (h : Hand.fresh (engine setting) (Job.writeChunk (chunkCid setting other) other) =
      .fresh (engine setting) (Job.writeChunk (chunkCid setting chunk) chunk)) : other = chunk := by
  have hjob := eq_of_heq (Hand.mk.inj h).2.1
  exact (Job.writeChunk.inj hjob).2

section Secured

variable {chunk other : Bytes} {w w' : World} {rest : Multiset (Hand engineSig)} {n : Progress}
  {hand : Hand engineSig}

theorem Secured.without (h : Secured setting data other ⟨w, hand ::ₘ rest, n⟩)
    (hfresh : .fresh (engine setting) (Job.writeChunk (chunkCid setting other) other) ≠ hand)
    (hthrow : ∀ job e, ⟨Kind.written, job, .throw e⟩ ≠ hand) :
    Secured setting data other ⟨w, rest, n⟩ := by
  cases h with
  | due h => exact .due h
  | stored h => exact .stored h
  | underWay h => exact .underWay ((Multiset.mem_cons.mp h).resolve_left hfresh)
  | lost h => exact .lost ((Multiset.mem_cons.mp h).resolve_left (hthrow _ _))

theorem Secured.beside (h : Secured setting data other ⟨w, rest, n⟩) (hand : Hand engineSig) :
    Secured setting data other ⟨w, hand ::ₘ rest, n⟩ := by
  cases h with
  | due h => exact .due h
  | stored h => exact .stored h
  | underWay h => exact .underWay (Multiset.mem_cons_of_mem h)
  | lost h => exact .lost (Multiset.mem_cons_of_mem h)

theorem Secured.overwrite (h : Secured setting data other ⟨w, rest, n⟩)
    (hstore : w.store.get (chunkCid setting other) = some other →
      other ∈ (chunks data).drop n.started ∨ w'.store.get (chunkCid setting other) = some other) :
    Secured setting data other ⟨w', rest, n⟩ := by
  cases h with
  | due h => exact .due h
  | stored h =>
    rcases hstore h with hdue | hstored
    · exact .due hdue
    · exact .stored hstored
  | underWay h => exact .underWay h
  | lost h => exact .lost h

end Secured

/-- While a call's blocks are spared no other step disturbs it. -/
theorem stable_keeps (hapart : BlocksApart setting name data) (doomed : List Cid) :
    Stable (engine setting) (sparingTerms setting name data) (Keeps setting data doomed) where
  goes := by
    intro w w' hand hand' rest n h hgoes
    obtain ⟨chunk, hchunk, hstoring⟩ := h.hands hand (Multiset.mem_cons_self _ _)
    cases hstoring with
    | done => exact (Hand.not_goes_pure hgoes).elim
    | failed e => exact (Hand.not_goes_throw hgoes).elim
    | asked =>
      have hothers : ∀ other ∈ chunks data, other ≠ chunk →
          Secured setting data other ⟨w, rest, n⟩ := fun other hother hne =>
        (h.secured other hother).without (fun heq => hne (chunk_of_fresh heq)) fun _ _ heq => by cases heq
      obtain ⟨k, hfresh, hlanded, hlost⟩ := writeChunk_eq setting chunk
      rw [hfresh] at hgoes
      obtain ⟨ω, t, a, hanswer, _, rfl⟩ := hgoes.of_await
      have hhands : ∀ hand', Storing setting chunk hand' → ∀ hand ∈ hand' ::ₘ rest,
          ∃ chunk ∈ chunks data, Storing setting chunk hand := by
        intro hand' hstoring hand hhand
        rcases Multiset.mem_cons.mp hhand with rfl | hhand
        · exact ⟨chunk, hchunk, hstoring⟩
        · exact h.hands hand (Multiset.mem_cons_of_mem hhand)
      have hanswer : World.answer (.storeBlock (chunkCid setting chunk) chunk) ω t w = some (a, w') :=
        hanswer
      cases World.answers hanswer with
      | storeBlock =>
        rw [hlanded]
        refine ⟨hhands _ .done, fun other hother => ?_, h.doomed, h.manifest⟩
        by_cases hne : other = chunk
        · subst hne
          exact .stored (Table.get_insert_self _ _ _)
        · refine ((hothers other hother hne).beside _).overwrite fun hstored => .inr ?_
          have hcid : chunkCid setting other ≠ chunkCid setting chunk := fun heq =>
            hne (chunk_of_chunkCid hapart hchunk heq)
          exact (Table.get_insert _ _ _ _).trans ((if_neg hcid).trans hstored)
      | storeFailed _ _ e =>
        rw [hlost]
        refine ⟨hhands _ (.failed e), fun other hother => ?_, h.doomed, h.manifest⟩
        exact .lost (Multiset.mem_cons_self _ _)
  asks _ := trivial

/-! ### What a pass does to such an assertion -/

variable (setting) (name) (data) in
/-- An assertion on the file and on what a pass has still to delete, which is
kept as long as passes spare the file. -/
structure Endures (I : List Cid → EngineScene → Prop) : Prop where
  stable : ∀ doomed, Stable (engine setting) (sparingTerms setting name data) (I doomed)
  world : ∀ {doomed w w' crew n}, I doomed ⟨w, crew, n⟩ → w'.store = w.store → I doomed ⟨w', crew, n⟩
  chosen : ∀ {chosen w crew n}, I [] ⟨w, crew, n⟩ → Spares setting name data n chosen →
    I chosen ⟨w, crew, n⟩
  erased : ∀ {cid rest w crew n}, I (cid :: rest) ⟨w, crew, n⟩ →
    I rest ⟨{ w with store := w.store.erase cid }, crew, n⟩

/-- The call leaves the block store as it is. -/
def Call.sparing : Call → Prop
  | .storeBlock _ _ | .deleteBlock _ => False
  | _ => True

theorem World.store_answer {c : Call} (hc : Call.sparing c) {ω : Circumstance} {t : Tid} {w w' : World}
    {a : c.Ans} (h : World.answer c ω t w = some (a, w')) : w'.store = w.store := by
  cases World.answers h with
  | storeBlock | deleteBlock => exact hc.elim
  | _ => rfl

section Passes

variable {I : List Cid → EngineScene → Prop} {doomed : List Cid} {α : Type} {A : EngineScene → Prop}
  {E : MistError → EngineScene → Prop}

variable (setting) (name) (data) in
/-- An outline over passes that spare the file. -/
abbrev Outline (B : α → EngineScene → Prop) (E : MistError → EngineScene → Prop)
    (A : EngineScene → Prop) (p : Engine α) : Prop :=
  EngineTriple setting (sparingTerms setting name data) B E A p

variable (setting) (name) (data) in
/-- However the program ends, the assertion is left as it is. -/
abbrev Leaves (A : EngineScene → Prop) (p : Engine α) : Prop :=
  Outline setting name data (fun _ => A) (fun _ => A) A p

/-- Nothing is said of a call that fails. -/
def unsaid (_ : MistError) (_ : EngineScene) : Prop := True

theorem Leaves.outline {p : Engine α} (h : Leaves setting name data A p) :
    Outline setting name data (fun _ => A) unsaid A p :=
  Triple.post h id fun _ => trivial

theorem leaves_ofExcept (r : Except MistError α) : Leaves setting name data A (ofExcept r) := by
  cases r with
  | ok a | error e => exact fun x hx => hx

variable (h : Endures setting name data I)

include h

theorem outline_perform (o : Op) :
    Outline setting name data (fun _ => I doomed) E (I doomed) (perform o) :=
  Triple.perform fun hI _ => h.world hI (World.store_perform _ _ _ _)

theorem outline_victims (positions : List Vector3) :
    Outline setting name data (fun chosen => I chosen) E (I []) (perform (.victims positions)) :=
  Triple.perform fun hI hspares => h.chosen hI hspares

theorem outline_call {c : Call} (hc : Call.sparing c) :
    Outline setting name data (fun _ => I doomed) E (I doomed) (call c) := by
  refine Triple.call (h.stable doomed) (fun hI => ⟨trivial, ?_⟩) (fun _ => h.stable doomed) ?_
  · cases c with
    | storeBlock cid block | deleteBlock cid => exact hc.elim
    | _ => exact hI
  · intro w w' crew n ω t g a hI hanswer _
    exact h.world hI (World.store_answer hc (t := t) hanswer)

theorem leaves_positions :
    Leaves setting name data (I doomed) (resolvePositionsForEviction setting) := by
  unfold resolvePositionsForEviction
  split
  · exact outline_call h trivial
  · exact fun x hI => hI

theorem leaves_autoPosition : Leaves setting name data (I doomed) (resolveAutoPosition setting) :=
  Triple.bind (leaves_positions h) fun _ _ hI => hI

theorem leaves_withIo {body : Engine α} (hbody : Leaves setting name data (I doomed) body) :
    Leaves setting name data (I doomed) (withIo body) := by
  refine Triple.bind (outline_call h trivial) fun _ => ?_
  refine Triple.bind (B := fun _ => I doomed) (Triple.attempt hbody) fun result => ?_
  exact Triple.bind (outline_perform h _) fun _ => leaves_ofExcept result

theorem leaves_loadPinRegistry : Leaves setting name data (I doomed) (loadPinRegistry setting) := by
  refine Triple.bind (outline_perform h _) fun loaded => ?_
  split
  · exact fun x hI => hI
  · refine Triple.bind (outline_call h trivial) fun answer =>
      Triple.bind (leaves_ofExcept answer) fun held => ?_
    cases held with
    | none => exact outline_perform h _
    | some bytes => exact Triple.bind (leaves_ofExcept _) fun _ => outline_perform h _

theorem leaves_ensurePinRegistryLoaded :
    Leaves setting name data (I doomed) (ensurePinRegistryLoaded setting) := by
  refine Triple.bind (outline_perform h _) fun loaded => ?_
  split
  · exact fun x hI => hI
  · split
    · exact leaves_withIo h (leaves_loadPinRegistry h)
    · exact fun x hI => hI

theorem leaves_persistPinRegistry : Leaves setting name data (I doomed) persistPinRegistry :=
  leaves_withIo h <| Triple.bind (outline_perform h _) fun _ =>
    Triple.bind (outline_call h trivial) leaves_ofExcept

theorem outline_evict (cids : List Cid) :
    Outline setting name data (fun _ => I []) unsaid (I cids) (evict cids) := by
  induction cids with
  | nil => exact fun x hI => hI
  | cons cid rest ih =>
    refine Triple.bind (B := fun a x => a = .ok () → I rest x)
      (Triple.call (h.stable (cid :: rest)) (fun hI => ⟨trivial, hI⟩) (fun a => ⟨?_, ?_⟩) ?_)
      fun a => ?_
    · exact fun hI hgoes hok => (h.stable rest).goes (hI hok) hgoes
    · exact fun _ => trivial
    · intro w w' crew n ω t g a hI hanswer _ hok
      have hanswer : World.answer (.deleteBlock cid) ω t w = some (a, w') := hanswer
      cases World.answers hanswer with
      | deleteBlock => exact h.erased hI
      | deleteFailed => cases hok
    · cases a with
      | error e => exact fun _ _ => trivial
      | ok _ =>
        refine Triple.bind (B := fun _ => I rest) (fun x hI => hI rfl) fun _ => ?_
        exact Triple.bind (outline_perform h _) fun _ => ih

theorem outline_enforceCapacityLimit :
    Outline setting name data (fun _ => I []) unsaid (I []) (enforceCapacityLimit setting) := by
  refine Triple.bind (leaves_positions h).outline fun positions => ?_
  refine Triple.bind (outline_perform h _) fun exceeded => ?_
  refine Triple.bind (B := fun _ => I []) ?_ fun _ =>
    Triple.bind (outline_victims h positions) fun chosen => outline_evict h chosen
  unfold loadIfOver
  split
  · exact (leaves_ensurePinRegistryLoaded h).outline
  · exact fun x hI => hI

end Passes

/-! ### The loops of `add` -/

variable (setting) (data) in
/-- The chunks are secured, `inFlight` of their writes are not collected, and those
of the chunks `rest` are still to be started. -/
structure Adds (rest : List Bytes) (inFlight : Nat) (doomed : List Cid) (x : EngineScene) : Prop where
  keeps : Keeps setting data doomed x
  card : x.crew.card = inFlight
  due : (chunks data).drop x.note.started = rest

section Adds

variable (hapart : BlocksApart setting name data) {rest : List Bytes} {inFlight : Nat}

include hapart

theorem stable_adds (doomed : List Cid) : Stable (engine setting) (sparingTerms setting name data)
    (Adds setting data rest inFlight doomed) where
  goes := by
    rintro w w' hand hand' others n ⟨h, hcard, hdue⟩ hgoes
    refine ⟨(stable_keeps hapart doomed).goes h hgoes, ?_, hdue⟩
    simpa using hcard
  asks _ := trivial

theorem endures_adds : Endures setting name data (Adds setting data rest inFlight) where
  stable := stable_adds hapart
  world := by
    rintro doomed w w' crew n ⟨h, hcard, hdue⟩ hstore
    refine ⟨⟨h.hands, fun chunk hchunk => ?_, h.doomed, h.manifest⟩, hcard, hdue⟩
    exact (h.secured chunk hchunk).overwrite fun hstored => .inr (hstore ▸ hstored)
  chosen := by
    rintro chosen w crew n ⟨h, hcard, hdue⟩ hspares
    refine ⟨⟨h.hands, h.secured, fun chunk hchunk hchosen => ?_, h.manifest⟩, hcard, hdue⟩
    obtain ⟨other, hother, hcid⟩ := List.mem_map.mp ((hspares _ hchosen).1 chunk hchunk rfl)
    rwa [← chunk_of_chunkCid hapart hchunk hcid]
  erased := by
    rintro cid others w crew n ⟨h, hcard, hdue⟩
    refine ⟨⟨h.hands, fun chunk hchunk => ?_, fun chunk hchunk hrest =>
      h.doomed chunk hchunk (List.mem_cons_of_mem _ hrest), h.manifest⟩, hcard, hdue⟩
    refine (h.secured chunk hchunk).overwrite fun hstored => ?_
    by_cases hcid : chunkCid setting chunk = cid
    · exact .inl (h.doomed chunk hchunk (hcid ▸ List.mem_cons_self))
    · exact .inr ((Table.get_erase _ _ _).trans ((if_neg hcid).trans hstored))

omit hapart in
variable (setting) (data) (rest) (inFlight) in
/-- What is known when a write has been collected. One that failed is the end of
the `add`. -/
def Landed : Option (Except MistError (Cid × Nat)) → EngineScene → Prop
  | some (.ok _) => Adds setting data rest inFlight []
  | some (.error _) => fun _ => True
  | none => fun _ => False

theorem outline_next {E : MistError → EngineScene → Prop} :
    Outline setting name data (Landed setting data rest inFlight) E
      (Adds setting data rest (inFlight + 1) []) (next .written) := by
  refine Triple.next (stable_adds hapart _) (fun got => ?_) ⟨?_, ?_⟩
  · rcases got with _ | (e | out)
    · exact stable_false
    · exact ⟨fun _ _ => trivial, fun _ => trivial⟩
    · exact stable_adds hapart _
  · rintro w others m n job (e | out) ⟨h, hcard, hdue⟩
    · trivial
    · refine ⟨⟨fun hand hhand => h.hands hand (Multiset.mem_cons_of_mem hhand), fun chunk hchunk => ?_,
        h.doomed, h.manifest⟩, ?_, hdue⟩
      · exact (h.secured chunk hchunk).without (fun heq => by cases heq) fun _ _ heq => by cases heq
      · simpa using hcard
  · rintro w n ⟨_, hcard, _⟩
    cases hcard

theorem outline_collect {α : Type} {B : α → EngineScene → Prop} {position : Option Vector3}
    {k none : Engine α}
    (hk : Outline setting name data B unsaid (Adds setting data rest inFlight []) k) :
    Outline setting name data B unsaid (Adds setting data rest (inFlight + 1) []) (do
      match ← next .written with
      | some written =>
        trackWritten position written
        enforceCapacityLimit setting
        k
      | .none => none) := by
  refine Triple.bind (outline_next hapart) fun got => ?_
  rcases got with _ | (e | out)
  · exact Triple.unreached _
  · exact fun _ _ => trivial
  · refine Triple.bind (outline_perform (endures_adds hapart) _) fun _ => ?_
    exact Triple.bind (outline_enforceCapacityLimit (endures_adds hapart)) fun _ => hk

omit hapart in
theorem Adds.spawn {chunk : Bytes} {w : World} {crew : Multiset (Hand engineSig)} {n : Progress}
    (h : Adds setting data (chunk :: rest) inFlight [] ⟨w, crew, n⟩) :
    Adds setting data rest (inFlight + 1) []
      ⟨w, .fresh (engine setting) (Job.writeChunk (chunkCid setting chunk) chunk) ::ₘ crew,
        { n with started := n.started + 1 }⟩ := by
  have hdue : (chunks data).drop n.started = chunk :: rest := h.due
  have hchunk : chunk ∈ chunks data := List.mem_of_mem_drop (hdue ▸ List.mem_cons_self)
  have hrest : (chunks data).drop (n.started + 1) = rest := by
    rw [← List.drop_drop, hdue]
    rfl
  refine ⟨⟨fun hand hhand => ?_, fun other hother => ?_, fun other _ hother => absurd hother (by simp),
    h.keeps.manifest⟩, ?_, hrest⟩
  · rcases Multiset.mem_cons.mp hhand with rfl | hhand
    · exact ⟨chunk, hchunk, .asked⟩
    · exact h.keeps.hands hand hhand
  · cases h.keeps.secured other hother with
    | due hmem =>
      rw [hdue] at hmem
      rcases List.mem_cons.mp hmem with rfl | hmem
      · exact .underWay (Multiset.mem_cons_self _ _)
      · exact .due (hrest ▸ hmem)
    | underWay hmem => exact .underWay (Multiset.mem_cons_of_mem hmem)
    | lost hmem => exact .lost (Multiset.mem_cons_of_mem hmem)
    | stored hstored => exact .stored hstored
  · rw [Multiset.card_cons, h.card]

theorem outline_writeChunks (position : Option Vector3) (cids : List Cid) :
    Outline setting name data
      (fun out x => out.2 = cids ++ rest.map (chunkCid setting) ∧ Adds setting data [] out.1 [] x) unsaid
      (Adds setting data rest inFlight []) (writeChunks setting position rest inFlight cids) := by
  induction rest generalizing inFlight cids with
  | nil => exact fun x h => ⟨by simp, h⟩
  | cons chunk rest ih =>
    have hcids : cids ++ (chunk :: rest).map (chunkCid setting) =
        cids ++ [chunkCid setting chunk] ++ rest.map (chunkCid setting) := by simp
    rw [hcids]
    refine Triple.bind (B := fun _ => Adds setting data rest (inFlight + 1) []) (Triple.spawn Adds.spawn)
      fun _ => ?_
    split
    · exact outline_collect hapart (ih _)
    · exact ih _

theorem outline_drainWrites (position : Option Vector3) :
    Outline setting name data (fun _ => Adds setting data rest 0 []) unsaid
      (Adds setting data rest inFlight []) (drainWrites setting position inFlight) := by
  induction inFlight with
  | zero => exact fun x h => h
  | succ inFlight ih => exact outline_collect hapart ih

end Adds

/-! ### The whole file -/

section Whole

variable {text : Bytes} (hapart : BlocksApart setting name data)
  (htext : text ∈ manifestText setting name data)

theorem endures_whole (htext : text ∈ manifestText setting name data) :
    Endures setting name data (Whole setting data text) where
  stable doomed := ⟨fun h => absurd h.crew (Multiset.cons_ne_zero), fun _ => trivial⟩
  world := by
    intro doomed w w' crew n h hstore
    refine ⟨h.crew, fun cid codec block hblock => ?_, h.doomed, h.started, h.manifest⟩
    show w'.store.get cid = _
    rw [hstore]
    exact h.held cid codec block hblock
  chosen := by
    intro chosen w crew n h hspares
    refine ⟨h.crew, h.held, fun cid codec block hblock hchosen => ?_, h.started, h.manifest⟩
    obtain ⟨hchunk, hroot⟩ := hspares cid hchosen
    rcases List.mem_cons.mp hblock with heq | hmem
    · cases heq
      cases h.manifest.symm.trans (hroot text htext rfl)
    · obtain ⟨chunk, hchunkMem, heq⟩ := List.mem_map.mp hmem
      cases heq
      have hdue := hchunk block hchunkMem rfl
      rw [List.drop_eq_nil_of_le h.started] at hdue
      cases hdue
  erased := by
    intro cid rest w crew n h
    refine ⟨h.crew, fun cid' codec block hblock => ?_, fun cid' codec block hblock hmem =>
      h.doomed cid' codec block hblock (List.mem_cons_of_mem _ hmem), h.started, h.manifest⟩
    have hne : cid' ≠ cid := fun heq => h.doomed cid' codec block hblock (heq ▸ List.mem_cons_self)
    exact (Table.get_erase _ _ _).trans ((if_neg hne).trans (h.held cid' codec block hblock))

theorem Adds.stored {x : EngineScene} (h : Adds setting data [] 0 [] x) :
    x.crew = 0 ∧ (chunks data).length ≤ x.note.started ∧
      ∀ chunk ∈ chunks data, x.world.store.get (chunkCid setting chunk) = some chunk := by
  have hcrew : x.crew = 0 := Multiset.card_eq_zero.mp h.card
  refine ⟨hcrew, List.drop_eq_nil_iff.mp h.due, fun chunk hchunk => ?_⟩
  cases h.keeps.secured chunk hchunk with
  | stored hstored => exact hstored
  | due hmem =>
    rw [h.due] at hmem
    cases hmem
  | underWay hmem | lost hmem => simp [hcrew] at hmem

include hapart htext

theorem outline_storeManifest :
    Outline setting name data (fun _ => Whole setting data text []) unsaid
      (Adds setting data [] 0 []) (storeBlock (rootOf setting text) text) := by
  refine Triple.bind (B := fun a x => a = .ok () → Whole setting data text [] x)
    (Triple.call (I := fun x => x.crew = 0 ∧ (chunks data).length ≤ x.note.started ∧
        (∀ chunk ∈ chunks data, x.world.store.get (chunkCid setting chunk) = some chunk) ∧
        x.note.manifest = true) ?_ (fun h => ⟨trivial, ?_⟩) (fun a => ?_) ?_) fun a => ?_
  · exact ⟨fun h => absurd h.1 (Multiset.cons_ne_zero), fun _ => trivial⟩
  · obtain ⟨hcrew, hstarted, hstored⟩ := h.stored
    exact ⟨hcrew, hstarted, hstored, rfl⟩
  · exact ⟨fun h _ hok => absurd (h hok).crew (Multiset.cons_ne_zero), fun _ => trivial⟩
  · rintro w w' crew n ω t g a ⟨hcrew, hstarted, hstored, hmanifest⟩ hanswer _ hok
    have hanswer : World.answer (.storeBlock (rootOf setting text) text) ω t w = some (a, w') := hanswer
    cases World.answers hanswer with
    | storeFailed => cases hok
    | storeBlock =>
      refine ⟨hcrew, fun cid codec block hblock => ?_, fun _ _ _ _ => List.not_mem_nil, hstarted,
        hmanifest⟩
      refine (Table.get_insert _ _ _ _).trans ?_
      rcases List.mem_cons.mp hblock with heq | hmem
      · cases heq
        exact if_pos rfl
      · obtain ⟨chunk, hchunkMem, heq⟩ := List.mem_map.mp hmem
        cases heq
        split
        · next hcid =>
          -- a chunk with the content id of the manifest is the manifest
          have hdigest := computeCid_digest (by decide) (by decide) hcid
          have hmem : text ∈ chunks data ++ (manifestText setting name data).toList :=
            List.mem_append_right _ (Option.mem_toList.mpr htext)
          rw [hapart text hmem block hdigest]
        · exact hstored block hchunkMem
  · cases a with
    | error e => exact fun _ _ => trivial
    | ok _ => exact fun x h => h rfl

end Whole

theorem outline_addPlaced (hapart : BlocksApart setting name data) (position : Option Vector3) :
    Outline setting name data
      (fun out x => ∃ text ∈ manifestText setting name data, out.1 = rootOf setting text ∧
        Whole setting data text [] x) unsaid
      (Adds setting data (chunks data) 0 []) (addPlaced setting name data position) := by
  refine Triple.bind (outline_writeChunks hapart position []) fun out => Triple.fact fun hcids => ?_
  obtain ⟨inFlight, cids⟩ := out
  obtain rfl : cids = (chunks data).map (chunkCid setting) := hcids
  refine Triple.bind (outline_drainWrites hapart position) fun _ => ?_
  show Outline setting name data _ unsaid _
    (ofExcept (serialized (setting.manifests.toVec (manifestOf setting name data))) >>= _)
  cases hencoded : setting.manifests.toVec (manifestOf setting name data) with
  | error e => exact fun _ _ => trivial
  | ok text =>
    have htext : text ∈ manifestText setting name data := by
      rw [manifestText, hencoded]
      rfl
    have hwhole := endures_whole htext
    refine Triple.bind (B := fun bytes x => bytes = text ∧ Adds setting data [] 0 [] x)
      (fun x h => ⟨rfl, h⟩) fun bytes => Triple.fact ?_
    rintro rfl
    refine Triple.bind (outline_storeManifest hapart htext) fun _ => ?_
    refine Triple.bind (outline_perform hwhole _) fun _ => ?_
    refine Triple.bind (outline_enforceCapacityLimit hwhole) fun _ => ?_
    exact fun x h => ⟨bytes, htext, rfl, h⟩

theorem outline_addPinned (hapart : BlocksApart setting name data) :
    Outline setting name data
      (fun root x => ∃ text ∈ manifestText setting name data, root = rootOf setting text ∧
        Whole setting data text [] x) unsaid
      (Adds setting data (chunks data) 0 []) (addPinned setting name data) := by
  unfold addPinned
  split
  · have hadds : Endures setting name data (Adds setting data (chunks data) 0) := endures_adds hapart
    refine Triple.bind (leaves_ensurePinRegistryLoaded hadds).outline fun _ => ?_
    rw [addAtInner_none]
    refine Triple.bind (Triple.bind (leaves_autoPosition hadds).outline
      (outline_addPlaced hapart)) fun out => ?_
    cases htext : manifestText setting name data with
    | none =>
      refine (Triple.unreached _).pre ?_
      rintro x ⟨text, hmem, _⟩
      cases hmem
    | some text =>
      have hwhole := endures_whole htext
      refine Triple.pre (A := fun x => out.1 = rootOf setting text ∧ Whole setting data text [] x)
        (Triple.fact fun hroot => ?_) ?_
      · refine Triple.bind (outline_perform hwhole _) fun _ => ?_
        refine Triple.bind (leaves_persistPinRegistry hwhole).outline fun _ => ?_
        exact fun x h => ⟨text, rfl, hroot, h⟩
      · rintro x ⟨text', hmem, h⟩
        cases hmem
        exact h
  · exact fun _ _ => trivial

end Engine

/-! ### Calls of `add_pinned`, one at a time -/

def Job.addsPinned (name : String) (data : Bytes) : {κ : Kind} → Job κ → Prop
  | _, .addPinned n d => n = name ∧ d = data
  | _, _ => False

/-- The root is that of the file, all of whose blocks are in the block store, and a
`get` of it returns the data from there. -/
def World.HasFile (setting : Setting) (name : String) (data : Bytes) (root : Cid) (w : World) :
    Prop :=
  ∃ text, setting.manifests.toVec (Engine.manifestOf setting name data) = .ok text ∧
    root = Engine.rootOf setting text ∧ w.Holds setting data text ∧ w.Serves setting root data

section Keeping

variable (setting : Setting) (name : String) (data : Bytes)

/-- Every `add_pinned` of the file leaves it whole, if it returns. -/
def addPlan : Plan engineSig World Progress where
  fit := Job.addsPinned name data
  world _ := True
  returns job out x := match job, out with
    | .addPinned _ _, root => ∃ text ∈ Engine.manifestText setting name data,
        root = Engine.rootOf setting text ∧ Engine.Whole setting data text [] x
    | _, _ => False
  fails _ _ _ := True

variable {setting name data}

/-- The plan of a pinned add describes the engine's program. -/
theorem addPlan_sound (hapart : Engine.BlocksApart setting name data) :
    (addPlan setting name data).Sound (engine setting) progress
      (Engine.sparingTerms setting name data) where
  code := by
    intro κ job hfit
    cases job with
    | addPinned n d =>
      obtain ⟨rfl, rfl⟩ : n = name ∧ d = data := hfit
      refine Triple.pre (Triple.post (Engine.outline_addPinned hapart) id fun _ => trivial) ?_
      rintro ⟨w, crew, note⟩ ⟨_, rfl, rfl⟩
      refine ⟨⟨by simp, fun chunk hchunk => .due hchunk, by simp, rfl⟩, rfl, rfl⟩
    | _ => exact hfit.elim
  returns := by
    intro κ job out
    cases job with
    | addPinned n d =>
      refine ⟨?_, fun _ => trivial⟩
      rintro w w' hand hand' rest note ⟨text, _, _, h⟩
      exact absurd h.crew (Multiset.cons_ne_zero)
    | _ => exact stable_false
  fails _ _ := ⟨fun _ _ => trivial, fun _ => trivial⟩
  returned _ := trivial
  failed _ := trivial
  release _ := trivial
  renew _ := trivial

/-- A file that `add_pinned` has returned the root of, running alone over any state
of the engine, is in the block store and is served from there, if no pass of the call
chooses one of its blocks after the last write of that block has been started. -/
theorem addPinned_keeps (hapart : Engine.BlocksApart setting name data) {w : World}
    {pool pool' : Pool engineSig World Unit Progress}
    (hreach : Reach (engine setting) progress
      ((Engine.sparingTerms setting name data).Alone (Job.addsPinned name data)) (Pool.init w ()) pool)
    {choice : Choice engineSig Circumstance} {t : Tid} {root : Cid} {dropped : List Tid}
    (hstep : pool.step (engine setting) progress choice =
      some (.finished t (.addPinned name data) (.ok root) dropped, pool')) :
    pool'.world.HasFile setting name data root := by
  obtain ⟨⟨crew, note, text, htext, rfl, hwhole⟩, hworld⟩ :=
    Plan.returned (addPlan_sound hapart) trivial hreach hstep
  have hheld : pool'.world.Holds setting data text := by
    have hheld : pool.world.Holds setting data text := hwhole.held
    intro cid codec block hblock
    show pool'.world.store.get cid = _
    rw [hworld]
    show (dropped.foldl (fun w i => World.release i w) pool.world).store.get cid = _
    rw [World.releaseAll_eq]
    exact hheld cid codec block hblock
  have hencoded : setting.manifests.toVec (Engine.manifestOf setting name data) = .ok text := by
    revert htext
    unfold Engine.manifestText
    cases setting.manifests.toVec (Engine.manifestOf setting name data) with
    | error e => exact nofun
    | ok other =>
      intro htext
      cases htext
      rfl
  exact ⟨text, hencoded, rfl, hheld, hheld.serves hencoded⟩

end Keeping

/-! ### A file of one byte -/

section OneByte

open Sample

/-- The one-byte file is added with a pin, up to where a pass looks for victims of the
manifest's write. -/
def pinning : List (Choice engineSig Circumstance) :=
  [.start 0 (.addPinned "f" [7])] ++ run 0 2 1 ++ serve 0 2 1 ++ serve 0 4 1 ++ run 1 1 1 ++
    serve 1 1 1 ++ [.wake 0 (some 1)] ++ run 0 4 1 ++ serve 0 5 1

def saving : List (Choice engineSig Circumstance) := serve 0 2 1 ++ serve 0 2 1

/-- An engine of a given capacity with nothing in it. -/
def emptyPool (capacity : Nat) : Pool engineSig World Unit Progress :=
  Pool.init (World.new capacity ∅ none) ()

def startsAlone (pool : Pool engineSig World Unit Progress) : {κ : Kind} → Job κ → Bool
  | _, .addPinned name data => decide (name = "f" ∧ data = [7] ∧ pool.threads.size = 0)
  | _, _ => false

variable {pool : Pool engineSig World Unit Progress}

theorem startsAlone_sound {κ : Kind} {job : Job κ} (h : startsAlone pool job = true) :
    (∀ i, pool.view.note i = none) ∧ Job.addsPinned "f" [7] job := by
  cases job with
  | addPinned name data =>
    obtain ⟨hname, hdata, hsize⟩ := of_decide_eq_true h
    exact ⟨Pool.note_of_done hsize, hname, hdata⟩
  | _ => cases h

/-- An engine of a hundred bytes with an older file in it, which nobody has pinned. -/
def crowded : World :=
  { World.new 100 ((∅ : Table Cid Bytes).insert bareRoot bareText) none with
    manager := (StorageManager.new 100).trackBlock bareRoot bareText.length none }

/-- The call runs alone, and no pass chooses anything but the older file. -/
def sparing (pool : Pool engineSig World Unit Progress) : EngineEvent → Bool
  | .started _ job => startsAlone pool job
  | .did _ (.victims _) chosen => List.all chosen fun cid => decide (cid = bareRoot)
  | _ => true

theorem spares_bareRoot (n : Progress) :
    Engine.Spares (Sample.setting true) "f" [7] n [bareRoot] := by
  rintro cid hcid
  obtain rfl := List.mem_singleton.mp hcid
  have hchunk : ∀ chunk ∈ Engine.chunks [7], Engine.chunkCid (Sample.setting true) chunk ≠ bareRoot := by
    decide +kernel
  have hroot : ∀ text ∈ Engine.manifestText (Sample.setting true) "f" [7],
      Engine.rootOf (Sample.setting true) text ≠ bareRoot := by
    decide +kernel
  exact ⟨fun chunk hmem heq => absurd heq (hchunk chunk hmem),
    fun text hmem heq => absurd heq (hroot text hmem)⟩

theorem sparing_sound {event : EngineEvent} (h : sparing pool event = true) :
    (Engine.sparingTerms (Sample.setting true) "f" [7]).Alone (Job.addsPinned "f" [7]) pool.view
      event := by
  cases event with
  | started t job => exact startsAlone_sound h
  | did t o chosen =>
    intro n _
    cases o with
    | victims positions =>
      intro cid hcid
      obtain rfl : cid = bareRoot := of_decide_eq_true (List.all_eq_true.mp h cid hcid)
      exact spares_bareRoot n _ (List.mem_singleton_self _)
    | _ => trivial
  | _ => trivial

/-- Backend calls succeed. Passes choose whatever they find. -/
def workingTerms : Terms engineSig Progress where
  op _ _ _ := True
  answer c a := c.succeeded a = true
  asks _ := True

/-- The call runs alone, over backends that work. -/
def succeeding (pool : Pool engineSig World Unit Progress) : EngineEvent → Bool
  | .started _ job => startsAlone pool job
  | .answered _ c a => c.succeeded a
  | _ => true

theorem succeeding_sound {event : EngineEvent} (h : succeeding pool event = true) :
    workingTerms.Alone (Job.addsPinned "f" [7]) pool.view event := by
  cases event with
  | started t job => exact startsAlone_sound h
  | did t o r => exact fun _ _ => trivial
  | answered t c a => exact h
  | _ => trivial

/-- Whether the call is about to return the root of the file, with the blocks of the file in
the store, or with none of them. -/
def returnsRoot (there : Bool) (pool : Pool engineSig World Unit Progress) : Bool :=
  match pool.step (engine (Sample.setting true)) progress (.finish 0) with
  | some (.finished t (Job.addPinned name data) (.ok root) _, pool') =>
    decide (t = 0 ∧ name = "f" ∧ data = [7] ∧ root = fileRoot ∧
      (pool'.world.store.get fileRoot).isSome = there ∧ (pool'.world.store.get chunk).isSome = there)
  | _ => false

theorem returnsRoot_step {there : Bool} (h : returnsRoot there pool = true) : ∃ dropped pool',
      pool.step (engine (Sample.setting true)) progress (.finish 0) =
        some (.finished 0 (.addPinned "f" [7]) (.ok fileRoot) dropped, pool') ∧
      (pool'.world.store.get fileRoot).isSome = there ∧
      (pool'.world.store.get chunk).isSome = there := by
  unfold returnsRoot at h
  split at h
  · next hstep =>
    obtain ⟨rfl, rfl, rfl, rfl, hroot, hchunk⟩ := of_decide_eq_true h
    exact ⟨_, _, hstep, hroot, hchunk⟩
  · cases h

/-- The manifest's write takes the engine over its capacity, and the pass deletes the older
file. -/
theorem addPinned_keeps_crowded : ∃ pool dropped pool',
    Reach (engine (Sample.setting true)) progress
      ((Engine.sparingTerms (Sample.setting true) "f" [7]).Alone (Job.addsPinned "f" [7]))
      (Pool.init crowded ()) pool ∧
    pool.step (engine (Sample.setting true)) progress (.finish 0) =
      some (.finished 0 (.addPinned "f" [7]) (.ok fileRoot) dropped, pool') ∧
    crowded.store.get bareRoot = some bareText ∧ pool.world.store.get bareRoot = none ∧
    pool'.world.HasFile (Sample.setting true) "f" [7] fileRoot := by
  have hrun : ((Pool.init crowded ()).exec (engine (Sample.setting true)) progress sparing
      (pinning ++ serve 0 3 1 ++ saving)).any
      (fun pool => returnsRoot true pool && (pool.world.store.get bareRoot).isNone) = true := by
    decide +kernel
  have hapart : Engine.BlocksApart (Sample.setting true) "f" [7] :=
    fun _ _ _ heq => sha256_injective true heq
  obtain ⟨pool, hexec, hboth⟩ := Option.any_eq_true _ _ |>.mp hrun
  obtain ⟨hreturns, hgone⟩ := Bool.and_eq_true_iff.mp hboth
  obtain ⟨dropped, pool', hstep, _⟩ := returnsRoot_step hreturns
  have hreach := Reach.of_exec hexec sparing_sound
  exact ⟨pool, dropped, pool', hreach, hstep, Table.get_insert_self _ _ _, Option.isNone_iff_eq_none.mp hgone,
    addPinned_keeps hapart hreach hstep⟩

/-- Over a capacity of one byte the pass that follows the write of the manifest deletes the chunk
and the manifest, and the root is returned all the same. -/
theorem addPinned_evicts_own : ∃ pool dropped pool',
    Reach (engine (Sample.setting true)) progress
      (workingTerms.Alone (Job.addsPinned "f" [7])) (emptyPool 1) pool ∧
    pool.step (engine (Sample.setting true)) progress (.finish 0) =
      some (.finished 0 (.addPinned "f" [7]) (.ok fileRoot) dropped, pool') ∧
    pool'.world.store.get fileRoot = none ∧ pool'.world.store.get chunk = none ∧
    ¬ pool'.world.HasFile (Sample.setting true) "f" [7] fileRoot := by
  have hrun : ((emptyPool 1).exec (engine (Sample.setting true)) progress succeeding
      (pinning ++ serve 0 2 1 ++ serve 0 3 1 ++ saving)).any (returnsRoot false) = true := by
    decide +kernel
  obtain ⟨pool, hexec, hreturns⟩ := Option.any_eq_true _ _ |>.mp hrun
  obtain ⟨dropped, pool', hstep, hroot, hchunk⟩ := returnsRoot_step hreturns
  have hnone : pool'.world.store.get fileRoot = none := by simpa using hroot
  refine ⟨pool, dropped, pool', Reach.of_exec hexec succeeding_sound, hstep, hnone, by simpa using hchunk,
    ?_⟩
  rintro ⟨text, _, hroot, hheld, _⟩
  have hblock := hheld _ _ _ (List.mem_cons_self :
    (Engine.rootOf (Sample.setting true) text, MULTICODEC_DAG_CBOR, text) ∈
      Engine.fileBlocks (Sample.setting true) [7] text)
  rw [← hroot, hnone] at hblock
  cases hblock

end OneByte

end Mistlib.Storage
