import Mistlib.Storage.Notes

/-!
# The engine keeps its contract

One specification for each function of the engine: from what note it may be
run, and what note it leaves. A caller cites the specification and never
looks into the callee.
-/

namespace Mistlib.Storage

open Async

/-- The program keeps the engine's contract and ends in `Q`. -/
abbrev EngineKeeps (setting : Setting) (A : Cid → Bytes → Prop) {α : Type} (p : Engine α)
    (n : Note) (Q : Except MistError α → Note → Prop) : Prop :=
  Keeps (engine setting) observer (contract setting A) p n Q

/-- `A` holds of every block under its content id. -/
def Covers (setting : Setting) (A : Cid → Bytes → Prop) : Prop :=
  ∀ cid data, Addresses setting.sha256 cid data → A cid data

namespace Note

/-- What no function changes outside the pin protocol. -/
structure After (n n' : Note) : Prop where
  main : n'.main = n.main
  pinning : n'.pinning = n.pinning
  lock : n'.lock = n.lock
  phase : n'.phase = n.phase
  seen : n.seen = true → n'.seen = true

theorem After.refl (n : Note) : n.After n := ⟨rfl, rfl, rfl, rfl, id⟩

variable {n n' : Note}

theorem After.trans {n'' : Note} (h : n.After n') (h' : n'.After n'') : n.After n'' :=
  ⟨h'.main.trans h.main, h'.pinning.trans h.pinning, h'.lock.trans h.lock,
    h'.phase.trans h.phase, fun hn => h'.seen (h.seen hn)⟩

/-- Victims chosen may be left over, but none that is gone is still tracked. -/
def Left (n : Note) : Prop := ∀ cid, n.deleting ≠ some (cid, true)

theorem Quiet.left (h : n.Quiet) : n.Left := by
  intro cid hd
  rw [h.deleting] at hd
  cases hd

/-- Between the windows: neither eviction, lock nor registry change. -/
structure Clear (n : Note) : Prop where
  lock : n.lock = .free
  phase : n.phase = .idle
  quiet : n.Quiet

theorem Clear.after (h : n.Clear) (hafter : n.After n') (hquiet : n'.Quiet) : n'.Clear :=
  ⟨hafter.lock.trans h.lock, hafter.phase.trans h.phase, hquiet⟩

theorem Clear.closed (h : n.Clear) (hafter : n.After n') (hleft : n'.Left) : n'.Closed :=
  ⟨hafter.lock.trans h.lock, by rw [hafter.phase, h.phase]; trivial, hleft⟩

end Note

open Note (After)

namespace Engine

variable {setting : Setting} {A : Cid → Bytes → Prop} {α : Type} {n : Note}

/-! ### The registry's lock and load -/

theorem keeps_withIo {body : Engine α} {Q : Except MistError α → Note → Prop}
    (hfree : n.lock = .free)
    (hbody : EngineKeeps setting A body { n with lock := .held, calm := false }
      fun r n' => n'.lock ≠ .free ∧ Q r { n' with lock := .free }) :
    EngineKeeps setting A (withIo body) n Q := by
  refine Keeps.bind (Keeps.call hfree ?_)
  intro ω t s g a s' _ _
  refine Keeps.bind (Keeps.attempt (hbody.imp ?_))
  intro r n' h
  refine Keeps.bind (Keeps.perform h.1 ?_)
  intro ω s g _
  exact Keeps.ofExcept h.2

theorem keeps_registryLoaded {Q : Except MistError Bool → Note → Prop}
    (h : ∀ loaded, Q (.ok loaded) (n.saw loaded)) : EngineKeeps setting A registryLoaded n Q :=
  Keeps.perform trivial fun _ s _ _ => h s.pinRegistryLoaded

/-- What a load leaves, however it ends. -/
structure Loads (n : Note) (r : Except MistError Unit) (n' : Note) : Prop where
  main : n'.main = n.main
  spawned : n'.spawned = n.spawned
  pinning : n'.pinning = n.pinning
  write : n'.write = n.write
  condemned : n'.condemned = n.condemned
  deleting : n'.deleting = n.deleting
  phase : n'.phase = n.phase
  seen : n.seen = true → n'.seen = true

variable {Q : Except MistError Unit → Note → Prop}

/-- Loading the registry under the lock keeps the contract. -/
theorem keeps_loadPinRegistry (hheld : n.lock = .held)
    (hQ : ∀ r n', Loads n r n' → n'.lock ≠ .free → (r = .ok () → n'.seen = true) → Q r n') :
    EngineKeeps setting A (loadPinRegistry setting) n Q := by
  refine Keeps.bind (keeps_registryLoaded fun loaded => ?_)
  cases loaded with
  | true =>
    refine hQ _ _ ⟨rfl, rfl, rfl, rfl, rfl, rfl, rfl, fun h => ?_⟩ ?_ fun _ => ?_
    · simp [Note.saw]
    · simp [Note.saw, hheld]
    · simp [Note.saw]
  | false =>
    have hunloaded : (n.saw false).lock = .unloaded := by simp [Note.saw, hheld]
    have hseen : (n.saw false).seen = n.seen := by simp [Note.saw]
    refine Keeps.bind (Keeps.call hunloaded ?_)
    intro ω t s g pins s' _ _
    refine Keeps.bind (Keeps.ofExcept ?_)
    cases pins with
    | error e =>
      refine hQ _ _ ⟨rfl, rfl, rfl, rfl, rfl, rfl, rfl, fun h => hseen.trans h⟩ ?_ nofun
      show (n.saw false).lock ≠ .free
      rw [hunloaded]
      nofun
    | ok pins =>
      cases pins with
      | none =>
        refine Keeps.perform ⟨none, rfl, rfl⟩ ?_
        intro ω s g _
        exact hQ _ _ ⟨rfl, rfl, rfl, rfl, rfl, rfl, rfl, fun _ => rfl⟩ nofun fun _ => rfl
      | some bytes =>
        refine Keeps.bind (Keeps.ofExcept ?_)
        cases hread : setting.registries.fromJson bytes with
        | error e =>
          exact hQ _ _ ⟨rfl, rfl, rfl, rfl, rfl, rfl, rfl, fun h => hseen.trans h⟩ nofun nofun
        | ok registry =>
          refine Keeps.perform ⟨some bytes, rfl, registry, hread, rfl⟩ ?_
          intro ω s g _
          exact hQ _ _ ⟨rfl, rfl, rfl, rfl, rfl, rfl, rfl, fun _ => rfl⟩ nofun fun _ => rfl

theorem keeps_ensurePinRegistryLoaded (hfree : n.lock = .free)
    (hQ : ∀ r n', Loads n r n' → n'.lock = .free → (r = .ok () → setting.metaStore = true →
      n'.seen = true) → Q r n') :
    EngineKeeps setting A (ensurePinRegistryLoaded setting) n Q := by
  refine Keeps.bind (keeps_registryLoaded fun loaded => ?_)
  cases loaded with
  | true =>
    refine hQ _ _ ⟨rfl, rfl, rfl, rfl, rfl, rfl, rfl, fun _ => ?_⟩ ?_ fun _ _ => ?_
    · simp [Note.saw]
    · simp [Note.saw, hfree]
    · simp [Note.saw]
  | false =>
    have hlock : (n.saw false).lock = .free := by simp [Note.saw, hfree]
    have hseen : (n.saw false).seen = n.seen := by simp [Note.saw]
    show EngineKeeps setting A (if setting.metaStore = true then _ else _) _ _
    split
    · refine keeps_withIo hlock (keeps_loadPinRegistry rfl ?_)
      intro r n' hloads hheld hok
      refine ⟨hheld, hQ _ _ ?_ rfl fun hr _ => hok hr⟩
      exact ⟨hloads.main, hloads.spawned, hloads.pinning, hloads.write, hloads.condemned,
        hloads.deleting, hloads.phase, fun h => hloads.seen (hseen.trans h)⟩
    · rename_i hmeta
      exact hQ _ _ ⟨rfl, rfl, rfl, rfl, rfl, rfl, rfl, fun h => hseen.trans h⟩ hlock
        fun _ h => absurd h hmeta

variable {n' : Note}

theorem Loads.after {r : Except MistError Unit} (h : Loads n r n') (hlock : n'.lock = n.lock) :
    n.After n' :=
  ⟨h.main, h.pinning, hlock, h.phase, h.seen⟩

theorem Loads.quiet {r : Except MistError Unit} (h : Loads n r n') (hquiet : n.Quiet) : n'.Quiet :=
  ⟨h.condemned.trans hquiet.condemned, h.deleting.trans hquiet.deleting⟩

/-! ### Eviction -/

theorem keeps_positions {Q : Except MistError (List Vector3) → Note → Prop}
    (h : ∀ positions, Q (.ok positions) { n with calm := false }) (h' : Q (.ok []) n) :
    EngineKeeps setting A (resolvePositionsForEviction setting) n Q := by
  unfold resolvePositionsForEviction
  by_cases hsource : setting.positionSource = true
  · rw [if_pos hsource]
    exact Keeps.call trivial fun ω t s g positions s' _ _ => h positions
  · rw [if_neg hsource]
    exact h'

theorem keeps_evict (cids : List Cid) (hchosen : n.condemned = cids) (hdeleting : n.deleting = none)
    (hQ : ∀ r n', n.After n' → n'.write = n.write → n'.Left → (r = .ok () → n'.Quiet) → Q r n') :
    EngineKeeps setting A (evict cids) n Q := by
  induction cids generalizing n with
  | nil =>
    have hquiet : n.Quiet := ⟨hchosen, hdeleting⟩
    exact hQ _ _ (After.refl n) rfl hquiet.left fun _ => hquiet
  | cons cid rest ih =>
    refine Keeps.bind (Keeps.call ⟨hdeleting, rest, hchosen⟩ ?_)
    intro ω t s g a s' _ _
    refine Keeps.bind (Keeps.ofExcept ?_)
    cases a with
    | error e => exact hQ _ _ ⟨rfl, rfl, rfl, rfl, id⟩ rfl nofun nofun
    | ok u =>
      refine Keeps.bind (Keeps.perform rfl ?_)
      intro ω s g _
      refine ih (congrArg List.tail hchosen) rfl ?_
      intro r n' hafter hwrite hleft hquiet
      exact hQ r n' { hafter with } hwrite
        hleft hquiet

theorem keeps_loadIfOver {exceeded : Bool} (hn : n.Clear) (hcalm : exceeded = false → n.calm = true)
    (hQ : ∀ r n', n.After n' → n'.write = n.write → n'.Quiet → (r = .ok () → n'.calm = true ∨
      n'.seen = true ∨ setting.metaStore = false) → Q r n') :
    EngineKeeps setting A (loadIfOver setting exceeded) n Q := by
  cases exceeded with
  | false => exact hQ _ _ (After.refl n) rfl hn.quiet fun _ => Or.inl (hcalm rfl)
  | true =>
    refine keeps_ensurePinRegistryLoaded hn.lock ?_
    intro r n' hloads hlock hseen
    refine hQ r n' (hloads.after (hlock.trans hn.lock.symm)) hloads.write (hloads.quiet hn.quiet) ?_
    intro hr
    by_cases hmeta : setting.metaStore = true
    · exact Or.inr (Or.inl (hseen hr hmeta))
    · exact Or.inr (Or.inr (by simpa using hmeta))

/-- The capacity pass keeps the contract. -/
theorem keeps_enforceCapacityLimit (hn : n.Clear)
    (hQ : ∀ r n', n.After n' → n'.write = n.write → n'.Left → (r = .ok () → n'.Quiet) → Q r n') :
    EngineKeeps setting A (enforceCapacityLimit setting) n Q := by
  -- The positions are asked for before the capacity is looked at.
  have hrest : ∀ (positions : List Vector3) (m : Note), n.After m → m.Clear → m.write = n.write →
      EngineKeeps setting A (overCapacity >>= fun exceeded => loadIfOver setting exceeded >>= fun _ =>
        perform (.victims positions) >>= fun chosen => evict chosen) m Q := by
    intro positions m hafter hclear hwrite
    refine Keeps.bind (Keeps.perform trivial ?_)
    intro ω s g _
    refine Keeps.bind (keeps_loadIfOver ⟨hclear.lock, hclear.phase, hclear.quiet.1, hclear.quiet.2⟩
      (fun hover => ?_) ?_)
    · exact congrArg not hover
    intro r m' hafter' hwrite' hquiet hmay
    have hafter' : n.After m' :=
      hafter.trans { hafter' with }
    have hwrite' : m'.write = n.write := hwrite'.trans hwrite
    cases r with
    | error e => exact hQ _ _ hafter' hwrite' hquiet.left nofun
    | ok u =>
      refine Keeps.bind (Keeps.perform ⟨hquiet, hafter'.phase.trans hn.phase, hmay rfl⟩ ?_)
      intro ω s g _
      refine keeps_evict _ rfl hquiet.deleting ?_
      intro r n' hafter'' hwrite'' hleft hok
      exact hQ r n' (hafter'.trans { hafter'' with }) (hwrite''.trans hwrite') hleft hok
  refine Keeps.bind (keeps_positions (fun positions => ?_) ?_)
  · exact hrest positions _ ⟨rfl, rfl, rfl, rfl, id⟩
      ⟨hn.lock, hn.phase, hn.quiet.condemned, hn.quiet.deleting⟩ rfl
  · exact hrest [] n (After.refl n) hn rfl

theorem keeps_decay (cids : List Cid) (evicted : Nat) {Q : Except MistError Nat → Note → Prop}
    (hchosen : n.condemned = cids) (hdeleting : n.deleting = none)
    (hQ : ∀ r n', n.After n' → n'.Quiet → Q r n') :
    EngineKeeps setting A (decay cids evicted) n Q := by
  induction cids generalizing n evicted with
  | nil => exact hQ _ _ (After.refl n) ⟨hchosen, hdeleting⟩
  | cons cid rest ih =>
    refine Keeps.bind (Keeps.call ⟨hdeleting, rest, hchosen⟩ ?_)
    intro ω t s g a s' _ _
    cases a with
    | error e =>
      refine ih evicted (congrArg List.tail hchosen) rfl ?_
      intro r n' hafter hquiet
      exact hQ r n' { hafter with } hquiet
    | ok u =>
      refine Keeps.bind (Keeps.perform rfl ?_)
      intro ω s g _
      refine ih (evicted + 1) (congrArg List.tail hchosen) rfl ?_
      intro r n' hafter hquiet
      exact hQ r n' { hafter with } hquiet

theorem keeps_runDecaySweep {Q : Except MistError Nat → Note → Prop} (hn : n.Clear)
    (hQ : ∀ r n', n.After n' → n'.Quiet → Q r n') :
    EngineKeeps setting A (runDecaySweep setting) n Q := by
  have hempty : Q (.ok 0) n := hQ _ _ (After.refl n) hn.quiet
  refine Keeps.bind (keeps_positions (fun positions => ?_) hempty)
  show EngineKeeps setting A (if positions.isEmpty = true then _ else _) _ _
  split
  · exact hQ _ _ ⟨rfl, rfl, rfl, rfl, id⟩ ⟨hn.quiet.condemned, hn.quiet.deleting⟩
  · refine Keeps.bind (Keeps.attempt (keeps_ensurePinRegistryLoaded hn.lock ?_))
    intro r m hloads hlock hseen
    have hafter : n.After m := by
      have h := hloads.after (hlock.trans hn.lock.symm)
      exact { h with }
    have hquiet : m.Quiet := hloads.quiet ⟨hn.quiet.condemned, hn.quiet.deleting⟩
    cases r with
    | error e => exact hQ _ _ hafter hquiet
    | ok u =>
      have hmay : m.seen = true ∨ setting.metaStore = false := by
        by_cases hmeta : setting.metaStore = true
        · exact Or.inl (hseen rfl hmeta)
        · exact Or.inr (by simpa using hmeta)
      refine Keeps.bind (Keeps.perform ⟨hquiet, hafter.phase.trans hn.phase, hmay⟩ ?_)
      intro ω s g _
      refine keeps_decay _ 0 rfl hquiet.deleting ?_
      intro r n' hafter' hquiet'
      exact hQ r n' (hafter.trans { hafter' with }) hquiet'

/-! ### Blocks -/

variable {cid : Cid}

theorem keeps_loadBlock {Q : Except MistError (Option Bytes) → Note → Prop}
    (hQ : ∀ r, (∀ data, r = .ok (some data) → A cid data) → Q r { n with calm := false }) :
    EngineKeeps setting A (loadBlock cid) n Q := by
  refine Keeps.bind (Keeps.call trivial ?_)
  intro ω t s g a s' hgood hans
  refine Keeps.ofExcept (hQ a ?_)
  intro data ha
  have hans : (if ω.succeeds then Except.ok (s.store.get cid) else .error ω.error) = a :=
    congrArg Prod.fst (Option.some.inj hans)
  split at hans
  · rw [ha] at hans
    exact hgood cid data (Except.ok.inj hans)
  · rw [ha] at hans
    cases hans

theorem keeps_storeBlock {data : Bytes} (hwrite : n.write = .tracked cid ∨ n.write = .idle)
    (haddr : A cid data)
    (hok : Q (.ok ()) { n with write := if n.write = .idle then .stored cid else .idle, calm := false })
    (herr : ∀ e, Q (.error e) { n with calm := false }) :
    EngineKeeps setting A (storeBlock cid data) n Q := by
  refine Keeps.bind (Keeps.call ⟨hwrite, haddr⟩ ?_)
  intro ω t s g a s' _ _
  refine Keeps.ofExcept ?_
  obtain ⟨main, spawned, pinning, write, condemned, deleting, calm, seen, lock, phase⟩ := n
  rcases hwrite with hwrite | hwrite
  all_goals
    simp only at hwrite
    subst hwrite
    cases a with
    | error e => simpa [observer, Note.effect, Note.issue] using herr e
    | ok u => simpa [observer, Note.effect, Note.issue] using hok

theorem keeps_getBlock {Q : Except MistError (Option Bytes) → Note → Prop}
    (hQ : ∀ r, Q r { n with calm := false }) : EngineKeeps setting A (getBlock cid) n Q := by
  refine Keeps.bind (keeps_loadBlock ?_)
  intro r _
  cases r with
  | error e => exact hQ _
  | ok block =>
    cases block with
    | none => exact hQ _
    | some data =>
      refine Keeps.bind (Keeps.perform trivial ?_)
      intro ω s g _
      exact hQ _

/-- A block that was resolved: it is the block of its content id, nothing of
it is left to be written, and no eviction is under way. -/
structure Resolved (A : Cid → Bytes → Prop) (cid : Cid) (data : Bytes) (n : Note) : Prop where
  addresses : A cid data
  write : n.write = .idle
  quiet : n.Quiet

/-- To resolve or fetch a block keeps the contract. -/
theorem keeps_resolveOrFetch (hA : Covers setting A) {codec : Nat}
    {Q : Except MistError Bytes → Note → Prop}
    (hcodec : codec = MULTICODEC_RAW ∨ codec = MULTICODEC_DAG_CBOR) (hn : n.Clear)
    (hwrite : n.write = .idle)
    (hQ : ∀ r n', n.After n' → n'.Left → (∀ data, r = .ok data → Resolved A cid data n') → Q r n') :
    EngineKeeps setting A (resolveOrFetch setting cid codec) n Q := by
  have hquiet : ({ n with calm := false } : Note).Quiet :=
    ⟨hn.quiet.condemned, hn.quiet.deleting⟩
  refine Keeps.bind (keeps_loadBlock ?_)
  intro r hlocal
  cases r with
  | error e => exact hQ _ _ ⟨rfl, rfl, rfl, rfl, id⟩ hquiet.left nofun
  | ok block =>
  cases block with
  | some data =>
    refine Keeps.bind (Keeps.perform trivial ?_)
    intro ω s g _
    refine hQ _ _ ⟨rfl, rfl, rfl, rfl, id⟩ hquiet.left ?_
    intro data' hr
    cases hr
    exact ⟨hlocal data rfl, hwrite, hquiet⟩
  | none =>
    refine Keeps.bind (Keeps.call trivial ?_)
    intro ω t s g a s' _ _
    refine Keeps.bind (Keeps.ofExcept ?_)
    cases a with
    | error e => exact hQ _ _ ⟨rfl, rfl, rfl, rfl, id⟩ hquiet.left nofun
    | ok answer =>
    cases answer with
    | none => exact hQ _ _ ⟨rfl, rfl, rfl, rfl, id⟩ hquiet.left nofun
    | some data =>
      show EngineKeeps setting A (if verifyCid setting.sha256 cid data codec = true then _ else _) _ _
      split
      · rename_i hverify
        have haddr : A cid data := by
          have hcid : computeCid setting.sha256 data codec = cid := by
            simpa [verifyCid] using hverify
          rcases hcodec with rfl | rfl
          · exact hA _ _ (Or.inl hcid)
          · exact hA _ _ (Or.inr hcid)
        -- From here on the block is tracked and not yet stored.
        have hrest : ∀ (position : Option Vector3) (m : Note), n.After m → m.Quiet →
            m.write = .idle → EngineKeeps setting A (perform (.trackBlock cid data.length position)
              >>= fun _ => enforceCapacityLimit setting >>= fun _ => storeBlock cid data
              >>= fun _ => pure data) m Q := by
          intro position m hafter hmquiet hmwrite
          refine Keeps.bind (Keeps.perform ⟨Or.inr hmwrite, data, haddr, rfl⟩ ?_)
          intro ω s g _
          have hclear : Note.Clear
              { m with
                write := if m.write = .stored cid then .idle else .tracked cid
                calm := false } :=
            ⟨hafter.lock.trans hn.lock, hafter.phase.trans hn.phase, hmquiet.condemned,
              hmquiet.deleting⟩
          refine Keeps.bind (keeps_enforceCapacityLimit hclear ?_)
          intro r m' hafter' hwrite' hleft hok
          have hafter' : n.After m' := hafter.trans
            { hafter' with }
          have htracked : m'.write = .tracked cid := hwrite'.trans (if_neg (by simp [hmwrite]))
          cases r with
          | error e => exact hQ _ _ hafter' hleft nofun
          | ok u =>
            have hquiet' := hok rfl
            refine Keeps.bind (keeps_storeBlock (Or.inl htracked) haddr ?_ ?_)
            · refine hQ _ _ { hafter' with } hquiet'.left ?_
              intro data' hr
              cases hr
              exact ⟨haddr, by simp [htracked], hquiet'.condemned, hquiet'.deleting⟩
            · intro e
              exact hQ _ _ { hafter' with } hquiet'.left nofun
        refine Keeps.bind (Keeps.bind (keeps_positions (fun positions => ?_) ?_))
        · exact hrest _ _ ⟨rfl, rfl, rfl, rfl, id⟩ hquiet hwrite
        · exact hrest _ _ ⟨rfl, rfl, rfl, rfl, id⟩ hquiet hwrite
      · exact hQ _ _ ⟨rfl, rfl, rfl, rfl, id⟩ hquiet.left nofun

/-! ### Adding and reading files -/

/-- What a loop that collects futures leaves. -/
structure Collected (n n' : Note) : Prop where
  after : n.After n'
  write : n'.write = .idle
  quiet : n'.Quiet

theorem Collected.refl (hwrite : n.write = .idle) (hquiet : n.Quiet) : Collected n n :=
  ⟨After.refl n, hwrite, hquiet⟩

theorem Collected.trans {n'' : Note} (h : Collected n n') (h' : Collected n' n'') : Collected n n'' :=
  ⟨h.after.trans h'.after, h'.write, h'.quiet⟩

theorem keeps_spawn {κ : Kind} {job : Job κ} (hfit : (contract setting A).fit job)
    (hkid : job.entry = false) (hphase : n.phase = .idle) (hQ : Q (.ok ()) { n with spawned := true }) :
    EngineKeeps setting A (spawn job) n Q :=
  ⟨⟨hfit, hkid⟩, hphase, hQ⟩

theorem keeps_next {κ : Kind} {Q : Except MistError (Option (Except MistError κ.Out)) → Note → Prop}
    (hwrite : n.write = .idle) (hnone : Q (.ok none) n)
    (hsome : ∀ (job : Job κ) r m, (contract setting A).fit job → (contract setting A).post job r m →
      Q (.ok (some r)) { n with write := m.write }) : EngineKeeps setting A (next κ) n Q :=
  ⟨hwrite, hnone, hsome⟩

theorem keeps_trackWritten (hA : Covers setting A) {chunk : Bytes} {r : Except MistError (Cid × Nat)}
    {m : Note} {position : Option Vector3}
    (hcid : computeCid setting.sha256 chunk MULTICODEC_RAW = cid)
    (hpost : (contract setting A).post (Job.writeChunk cid chunk) r m) (hn : n.Clear)
    (hQ : ∀ r n', n.After n' → n'.Left → (r = .ok () → Collected n n') → Q r n') :
    EngineKeeps setting A (trackWritten position r >>= fun _ => enforceCapacityLimit setting)
      { n with write := m.write } Q := by
  have hquiet : ({ n with write := m.write } : Note).Quiet :=
    ⟨hn.quiet.condemned, hn.quiet.deleting⟩
  cases r with
  | error e => exact hQ _ _ ⟨rfl, rfl, rfl, rfl, id⟩ hquiet.left nofun
  | ok out =>
    obtain ⟨⟨rfl, hstored⟩, _⟩ := hpost
    refine Keeps.bind (Keeps.bind (Keeps.ofExcept ?_))
    refine Keeps.perform ⟨Or.inl hstored, chunk, hA _ _ (Or.inl hcid), rfl⟩ ?_
    intro ω s g _
    refine keeps_enforceCapacityLimit ⟨hn.lock, hn.phase, hquiet.1, hquiet.2⟩ ?_
    intro r n' hafter hwrite hleft hok
    have hafter : n.After n' :=
      { hafter with }
    refine hQ r n' hafter hleft fun hr => ⟨hafter, ?_, hok hr⟩
    exact hwrite.trans (if_pos hstored)

/-- Writing the chunks of a file keeps the contract. -/
theorem keeps_writeChunks (hA : Covers setting A) (position : Option Vector3) (data : List Bytes) (inFlight : Nat)
    (cids : List Cid) {Q : Except MistError (Nat × List Cid) → Note → Prop}
    (hn : n.Clear) (hwrite : n.write = .idle)
    (hQ : ∀ r n', n.After n' → n'.Left → (∀ out, r = .ok out → Collected n n') → Q r n') :
    EngineKeeps setting A (writeChunks setting position data inFlight cids) n Q := by
  induction data generalizing n inFlight cids with
  | nil => exact hQ _ _ (After.refl n) hn.quiet.left fun _ _ => .refl hwrite hn.quiet
  | cons chunk rest ih =>
    -- The loop goes on from a note that only differs in what the contract leaves open.
    have hloop : ∀ (k : Nat) (m : Note), Collected n m →
        EngineKeeps setting A (writeChunks setting position rest k
          (cids ++ [computeCid setting.sha256 chunk MULTICODEC_RAW])) m Q := by
      intro k m hm
      refine ih k _ (hn.after hm.after hm.quiet) hm.write ?_
      intro r n' hafter hleft hok
      exact hQ r n' (hm.after.trans hafter) hleft fun out hr => hm.trans (hok out hr)
    have hspawned : Collected n { n with spawned := true } :=
      ⟨⟨rfl, rfl, rfl, rfl, id⟩, hwrite, hn.quiet.condemned, hn.quiet.deleting⟩
    refine Keeps.bind (keeps_spawn rfl rfl hn.phase ?_)
    show EngineKeeps setting A (if inFlight + 1 ≥ writeConcurrency then _ else _) _ _
    split
    · refine Keeps.bind (keeps_next hwrite ?_ ?_)
      · refine Keeps.bind (keeps_enforceCapacityLimit (hn.after hspawned.after hspawned.quiet) ?_)
        intro r n' hafter hwrite' hleft hok
        have hafter := hspawned.after.trans hafter
        cases r with
        | error e => exact hQ _ _ hafter hleft nofun
        | ok u => exact hloop _ _ ⟨hafter, hwrite'.trans hwrite, hok rfl⟩
      · intro job r m hfit hpost
        cases job with
        | writeChunk cid chunk' =>
          refine Keeps.bind_assoc (Keeps.bind (keeps_trackWritten hA hfit hpost
            (hn.after hspawned.after hspawned.quiet) ?_))
          intro r n' hafter hleft hok
          cases r with
          | error e => exact hQ _ _ (hspawned.after.trans hafter) hleft nofun
          | ok u => exact hloop _ _ (hspawned.trans (hok rfl))
    · exact hloop _ _ hspawned

theorem keeps_drainWrites (hA : Covers setting A) (position : Option Vector3) (inFlight : Nat)
    (hn : n.Clear) (hwrite : n.write = .idle)
    (hQ : ∀ r n', n.After n' → n'.Left → (r = .ok () → Collected n n') → Q r n') :
    EngineKeeps setting A (drainWrites setting position inFlight) n Q := by
  induction inFlight generalizing n with
  | zero => exact hQ _ _ (After.refl n) hn.quiet.left fun _ => .refl hwrite hn.quiet
  | succ inFlight ih =>
    refine Keeps.bind (keeps_next hwrite ?_ ?_)
    · exact hQ _ _ (After.refl n) hn.quiet.left fun _ => .refl hwrite hn.quiet
    · intro job r m hfit hpost
      cases job with
      | writeChunk cid chunk =>
        refine Keeps.bind_assoc (Keeps.bind (keeps_trackWritten hA hfit hpost hn ?_))
        intro r n' hafter hleft hok
        cases r with
        | error e => exact hQ _ _ hafter hleft nofun
        | ok u =>
          have hm := hok rfl
          refine ih (hn.after hm.after hm.quiet) hm.write ?_
          intro r n'' hafter' hleft' hok'
          exact hQ r n'' (hafter.trans hafter') hleft' fun hr => hm.trans (hok' hr)

/-- An added file: nothing of it is left to be written, and the root lists
its chunks. -/
structure Added (setting : Setting) (A : Cid → Bytes → Prop) (n : Note) (out : Cid × List Cid) (n' : Note) : Prop where
  collected : Collected n n'
  lists : Lists setting A out.1 (out.2 ++ [out.1])

/-- Adding a file keeps the contract. -/
theorem keeps_addAtInner (hA : Covers setting A) (name : String) (data : Bytes) (position : Option Vector3)
    {Q : Except MistError (Cid × List Cid) → Note → Prop} (hn : n.Clear) (hwrite : n.write = .idle)
    (hQ : ∀ r n', n.After n' → n'.Left → (∀ out, r = .ok out → Added setting A n out n') → Q r n') :
    EngineKeeps setting A (addAtInner setting name data position) n Q := by
  -- What comes after the chunks: the manifest is stored, and tracked after that.
  have hmanifest : ∀ (position : Option Vector3) (chunkCids : List Cid) (manifestBytes : Bytes)
      (m : Note), Collected n m →
      setting.manifests.toVec ⟨name, data.length, chunkCids⟩ = .ok manifestBytes →
      EngineKeeps setting A (
        storeBlock (computeCid setting.sha256 manifestBytes MULTICODEC_DAG_CBOR) manifestBytes
        >>= fun _ => perform (.trackBlock
          (computeCid setting.sha256 manifestBytes MULTICODEC_DAG_CBOR) manifestBytes.length position)
        >>= fun _ => enforceCapacityLimit setting
        >>= fun _ => pure (computeCid setting.sha256 manifestBytes MULTICODEC_DAG_CBOR, chunkCids))
        m Q := by
    intro position chunkCids manifestBytes m hm henc
    have haddr : A (computeCid setting.sha256 manifestBytes MULTICODEC_DAG_CBOR) manifestBytes :=
      hA _ _ (Or.inr rfl)
    have hclear := hn.after hm.after hm.quiet
    refine Keeps.bind (keeps_storeBlock (Or.inr hm.write) haddr ?_ ?_)
    · have hstored : (if m.write = .idle then Write.stored (computeCid setting.sha256 manifestBytes
          MULTICODEC_DAG_CBOR) else .idle) = .stored _ := if_pos hm.write
      refine Keeps.bind (Keeps.perform ⟨Or.inl hstored, manifestBytes, haddr, rfl⟩ ?_)
      intro ω s g _
      refine Keeps.bind (keeps_enforceCapacityLimit
        ⟨hclear.lock, hclear.phase, hclear.quiet.condemned, hclear.quiet.deleting⟩ ?_)
      intro r n' hafter hwrite' hleft hok
      have hafter : n.After n' := hm.after.trans
        { hafter with }
      cases r with
      | error e => exact hQ _ _ hafter hleft (by simp)
      | ok u =>
        refine hQ _ _ hafter hleft ?_
        intro out hr
        cases hr
        refine ⟨⟨hafter, hwrite'.trans (if_pos hstored), hok rfl⟩, manifestBytes, _, haddr,
          setting.manifests.roundTrip henc, rfl⟩
    · intro e
      exact hQ _ _ (hm.after.trans ⟨rfl, rfl, rfl, rfl, id⟩) hclear.quiet.left (by simp)
  have hrest : ∀ (position : Option Vector3) (m : Note), Collected n m →
      EngineKeeps setting A (writeChunks setting position (chunks data) 0 [] >>= fun
        written => drainWrites setting position written.1 >>= fun _ =>
          ofExcept (serialized (setting.manifests.toVec ⟨name, data.length, written.2⟩))
          >>= fun manifestBytes =>
          storeBlock (computeCid setting.sha256 manifestBytes MULTICODEC_DAG_CBOR) manifestBytes
          >>= fun _ => perform (.trackBlock
            (computeCid setting.sha256 manifestBytes MULTICODEC_DAG_CBOR) manifestBytes.length
              position)
          >>= fun _ => enforceCapacityLimit setting
          >>= fun _ => pure (computeCid setting.sha256 manifestBytes MULTICODEC_DAG_CBOR, written.2))
        m Q := by
    intro position m hm
    refine Keeps.bind (keeps_writeChunks hA position _ 0 [] (hn.after hm.after hm.quiet) hm.write ?_)
    intro r m' hafter hleft hok
    cases r with
    | error e => exact hQ _ _ (hm.after.trans hafter) hleft (by simp)
    | ok out =>
      obtain ⟨inFlight, chunkCids⟩ := out
      have hm' := hm.trans (hok _ rfl)
      refine Keeps.bind (keeps_drainWrites hA position inFlight (hn.after hm'.after hm'.quiet)
        hm'.write ?_)
      intro r m'' hafter' hleft' hok'
      cases r with
      | error e => exact hQ _ _ (hm'.after.trans hafter') hleft' (by simp)
      | ok u =>
        have hm'' := hm'.trans (hok' rfl)
        refine Keeps.bind (Keeps.ofExcept ?_)
        cases henc : setting.manifests.toVec ⟨name, data.length, chunkCids⟩ with
        | error e => exact hQ _ _ hm''.after hm''.quiet.left (by simp)
        | ok manifestBytes => exact hmanifest position chunkCids manifestBytes m'' hm'' henc
  cases position with
  | some p => exact hrest (some p) n (.refl hwrite hn.quiet)
  | none =>
    refine Keeps.bind (Keeps.bind (keeps_positions (fun positions => ?_) ?_))
    · exact hrest _ _ ⟨⟨rfl, rfl, rfl, rfl, id⟩, hwrite, hn.quiet.condemned, hn.quiet.deleting⟩
    · exact hrest _ _ (.refl hwrite hn.quiet)

theorem keeps_missing (cids : List Cid) {Q : Except MistError (List Cid) → Note → Prop}
    (hn : n.Clear) (hwrite : n.write = .idle)
    (hQ : ∀ r n', n.After n' → n'.write = .idle → n'.Quiet → Q r n') :
    EngineKeeps setting A (missing cids) n Q := by
  induction cids generalizing n Q with
  | nil => exact hQ _ _ (After.refl n) hwrite hn.quiet
  | cons cid rest ih =>
    refine Keeps.bind (keeps_loadBlock ?_)
    intro r _
    cases r with
    | error e =>
      exact hQ _ _ ⟨rfl, rfl, rfl, rfl, id⟩ hwrite ⟨hn.quiet.condemned, hn.quiet.deleting⟩
    | ok block =>
      refine Keeps.bind (ih ⟨hn.lock, hn.phase, hn.quiet.condemned, hn.quiet.deleting⟩ hwrite ?_)
      intro r n' hafter hwrite' hquiet
      have hafter : n.After n' :=
        { hafter with }
      cases r with
      | error e | ok others => exact hQ _ _ hafter hwrite' hquiet

theorem fetched_note {index : Nat} {data : Nat × Bytes} {m : Note}
    (hpost : (contract setting A).post (Job.fetchChunk index cid) (.ok data) m) (hquiet : n.Quiet) :
    Collected n { n with write := m.write } :=
  ⟨⟨rfl, rfl, rfl, rfl, id⟩, hpost.1, hquiet.condemned, hquiet.deleting⟩

/-- Fetching the chunks of a file keeps the contract. -/
theorem keeps_fetchChunks (concurrency : Nat) (cids : List Cid) (index inFlight : Nat)
    (a : Reassembly) {Q : Except MistError (Nat × Reassembly) → Note → Prop} (hn : n.Clear)
    (hwrite : n.write = .idle)
    (hQ : ∀ r n', n.After n' → n'.Left → (∀ out, r = .ok out → Collected n n') → Q r n') :
    EngineKeeps setting A (fetchChunks concurrency cids index inFlight a) n Q := by
  induction cids generalizing n index inFlight a with
  | nil => exact hQ _ _ (After.refl n) hn.quiet.left fun _ _ => .refl hwrite hn.quiet
  | cons cid rest ih =>
    have hloop : ∀ (k : Nat) (a' : Reassembly) (m : Note), Collected n m →
        EngineKeeps setting A (fetchChunks concurrency rest (index + 1) k a') m Q := by
      intro k a' m hm
      refine ih (index + 1) k a' (hn.after hm.after hm.quiet) hm.write ?_
      intro r n' hafter hleft hok
      exact hQ r n' (hm.after.trans hafter) hleft fun out hr => hm.trans (hok out hr)
    have hspawned : Collected n { n with spawned := true } :=
      ⟨⟨rfl, rfl, rfl, rfl, id⟩, hwrite, hn.quiet.condemned, hn.quiet.deleting⟩
    refine Keeps.bind (keeps_spawn trivial rfl hn.phase ?_)
    show EngineKeeps setting A (if inFlight + 1 ≥ concurrency then _ else _) _ _
    split
    · refine Keeps.bind (keeps_next hwrite (hloop _ _ _ hspawned) ?_)
      intro job r m _ hpost
      cases job with
      | fetchChunk i c =>
        refine Keeps.bind (Keeps.ofExcept ?_)
        cases r with
        | error e => exact hQ _ _ ⟨rfl, rfl, rfl, rfl, id⟩ hspawned.quiet.left nofun
        | ok out => exact hloop _ _ _ (hspawned.trans (fetched_note hpost hspawned.quiet))
    · exact hloop _ _ _ hspawned

theorem keeps_drainFetches (inFlight : Nat) (a : Reassembly)
    {Q : Except MistError Reassembly → Note → Prop} (hn : n.Clear) (hwrite : n.write = .idle)
    (hQ : ∀ r n', n.After n' → n'.Left → Q r n') :
    EngineKeeps setting A (drainFetches inFlight a) n Q := by
  induction inFlight generalizing n a with
  | zero => exact hQ _ _ (After.refl n) hn.quiet.left
  | succ inFlight ih =>
    refine Keeps.bind (keeps_next hwrite (hQ _ _ (After.refl n) hn.quiet.left) ?_)
    intro job r m _ hpost
    cases job with
    | fetchChunk i c =>
      refine Keeps.bind (Keeps.ofExcept ?_)
      cases r with
      | error e => exact hQ _ _ ⟨rfl, rfl, rfl, rfl, id⟩ hn.quiet.left
      | ok out =>
        have hm := fetched_note hpost hn.quiet
        refine ih _ (hn.after hm.after hm.quiet) hm.write ?_
        intro r n' hafter hleft
        exact hQ r n' (hm.after.trans hafter) hleft

/-- Reading a file keeps the contract. -/
theorem keeps_get (hA : Covers setting A) (root : Cid) {Q : Except MistError Bytes → Note → Prop} (hn : n.Clear)
    (hwrite : n.write = .idle) (hQ : ∀ r n', n.After n' → n'.Left → Q r n') :
    EngineKeeps setting A (get setting root) n Q := by
  refine Keeps.bind (keeps_resolveOrFetch hA (Or.inr rfl) hn hwrite ?_)
  intro r m hafter hleft hok
  cases r with
  | error e => exact hQ _ _ hafter hleft
  | ok bytes =>
    have hm := hok bytes rfl
    refine Keeps.bind (Keeps.ofExcept ?_)
    cases serialized (setting.manifests.fromSlice bytes) with
    | error e => exact hQ _ _ hafter hleft
    | ok manifest =>
      refine Keeps.bind (keeps_missing _ (hn.after hafter hm.quiet) hm.write ?_)
      intro r m' hafter' hwrite' hquiet'
      have hafter' := hafter.trans hafter'
      cases r with
      | error e => exact hQ _ _ hafter' hquiet'.left
      | ok absent =>
        refine Keeps.bind (Keeps.call trivial ?_)
        intro ω t s g a s' _ _
        refine Keeps.bind (Keeps.perform trivial ?_)
        intro ω s g _
        have hclear : Note.Clear { m' with calm := false } :=
          hn.after (hafter'.trans ⟨rfl, rfl, rfl, rfl, id⟩) ⟨hquiet'.condemned, hquiet'.deleting⟩
        refine Keeps.bind (keeps_fetchChunks _ _ 0 0 _ hclear hwrite' ?_)
        intro r m'' hafter'' hleft'' hok''
        have hafter'' : n.After m'' := hafter'.trans
          { hafter'' with }
        cases r with
        | error e => exact hQ _ _ hafter'' hleft''
        | ok out =>
          have hm'' := hok'' out rfl
          refine Keeps.bind (keeps_drainFetches _ _ (hn.after hafter'' hm''.quiet) hm''.write ?_)
          intro r n' hlast hleft
          cases r with
          | error e | ok a => exact hQ _ _ (hafter''.trans hlast) hleft

/-! ### Pins -/

variable {root : Cid}

theorem keeps_registryHas {Q : Except MistError Bool → Note → Prop} (hphase : n.phase = .idle)
    (hQ : ∀ found, Q (.ok found) (n.found root found)) :
    EngineKeeps setting A (registryHas root) n Q :=
  Keeps.perform hphase fun _ s _ _ => hQ (s.pinRegistry.isPinned root)

theorem keeps_persistPinRegistry (hfree : n.lock = .free) (hchanged : n.phase = .changed root)
    (hquiet : n.Quiet) (hok : ∀ n', n'.Closed → n'.phase = .settled root → Q (.ok ()) n')
    (herr : ∀ e n', n'.Closed → Q (.error e) n') :
    EngineKeeps setting A persistPinRegistry n Q := by
  obtain ⟨main, spawned, pinning, write, condemned, deleting, calm, seen, lock, phase⟩ := n
  obtain rfl : lock = .free := hfree
  obtain rfl : phase = .changed root := hchanged
  obtain rfl : deleting = none := hquiet.deleting
  refine keeps_withIo rfl (Keeps.bind (Keeps.perform ⟨root, rfl⟩ ?_))
  intro ω s g _
  refine Keeps.bind (Keeps.call (Or.inl ⟨root, g.snapshots + 1, rfl⟩) ?_)
  intro ω t s g a s' _ _
  cases a with
  | error e => exact ⟨nofun, herr e _ ⟨rfl, trivial, nofun⟩⟩
  | ok u => exact ⟨nofun, hok _ ⟨rfl, trivial, nofun⟩ rfl⟩

theorem keeps_registered {α : Type} {p : Unit → Engine α} {fault : MistError}
    {Q : Except MistError α → Note → Prop} (hn : n.Clear) (herr : ∀ e n', n'.Closed → Q (.error e) n')
    (hgo : ∀ m, Loads n (.ok ()) m → m.Clear → n.After m → m.seen = true → EngineKeeps setting A (p ()) m Q) :
    EngineKeeps setting A
      (if setting.metaStore = true then ensurePinRegistryLoaded setting >>= p else throw fault) n Q := by
  split
  · next hmeta =>
    refine Keeps.bind (keeps_ensurePinRegistryLoaded hn.lock ?_)
    intro r m hloads hlock hseen
    have hafter := hloads.after (hlock.trans hn.lock.symm)
    have hquiet := hloads.quiet hn.quiet
    cases r with
    | error e => exact herr e _ (hn.closed hafter hquiet.left)
    | ok u => exact hgo m hloads (hn.after hafter hquiet) hafter (hseen rfl hmeta)
  · exact herr _ _ ⟨hn.lock, by rw [hn.phase]; trivial, hn.quiet.left⟩

theorem keeps_protect {cids : List Cid} (hmain : n.main = true) (hseen : n.seen = true) (hn : n.Clear)
    (hlists : Lists setting A root cids)
    (hok : ∀ n', n'.Closed → n'.phase = .settled root → Q (.ok ()) n')
    (herr : ∀ e n', n'.Closed → Q (.error e) n') :
    EngineKeeps setting A (perform (.protect root cids) >>= fun _ => persistPinRegistry) n Q := by
  refine Keeps.bind (Keeps.perform ⟨hmain, hseen, hn.phase, hn.quiet, hlists⟩ ?_)
  intro ω s g _
  exact keeps_persistPinRegistry hn.lock rfl ⟨hn.quiet.condemned, hn.quiet.deleting⟩ hok herr

/-- Pinning a root keeps the contract. -/
theorem keeps_pin (hA : Covers setting A) (root : Cid) (hn : n.Clear) (hwrite : n.write = .idle)
    (hmain : n.main = true) (hpinning : n.pinning = some root)
    (hok : ∀ n', n'.Closed → n'.phase = .settled root → Q (.ok ()) n')
    (herr : ∀ e n', n'.Closed → Q (.error e) n') :
    EngineKeeps setting A (pin setting root) n Q := by
  refine keeps_registered hn herr ?_
  intro m hloads hclear hafter hseen
  refine Keeps.bind (keeps_registryHas hclear.phase fun found => ?_)
  cases found with
  | true =>
    have hphase : (m.found root true).phase = .settled root := by
      simp [Note.found, hafter.pinning, hpinning]
    exact hok _ ⟨hclear.lock, by rw [hphase]; trivial, hclear.quiet.left⟩ hphase
  | false =>
    have hsame : m.found root false = m := by simp [Note.found]
    show EngineKeeps setting A (resolveOrFetch setting root MULTICODEC_DAG_CBOR >>= _) _ _
    rw [hsame]
    refine Keeps.bind (keeps_resolveOrFetch hA (Or.inr rfl) hclear (hloads.write.trans hwrite) ?_)
    intro r m' hafter' hleft hresolved
    cases r with
    | error e => exact herr e _ (hclear.closed hafter' hleft)
    | ok bytes =>
      have hm' := hresolved bytes rfl
      refine Keeps.bind (Keeps.ofExcept ?_)
      cases hread : setting.manifests.fromSlice bytes with
      | error e => exact herr _ _ (hclear.closed hafter' hleft)
      | ok manifest =>
        exact keeps_protect (hafter'.main.trans (hafter.main.trans hmain)) (hafter'.seen hseen)
          (hclear.after hafter' hm'.quiet) ⟨bytes, manifest, hm'.addresses, hread, rfl⟩ hok herr

theorem keeps_addPinned (hA : Covers setting A) (name : String) (data : Bytes) {Q : Except MistError Cid → Note → Prop}
    (hn : n.Clear) (hwrite : n.write = .idle) (hmain : n.main = true)
    (hok : ∀ root n', n'.Closed → n'.phase = .settled root → Q (.ok root) n')
    (herr : ∀ e n', n'.Closed → Q (.error e) n') :
    EngineKeeps setting A (addPinned setting name data) n Q := by
  refine keeps_registered hn herr ?_
  intro m hloads hclear hafter hseen
  refine Keeps.bind (keeps_addAtInner hA name data none hclear (hloads.write.trans hwrite) ?_)
  intro r m' hafter' hleft hadded
  cases r with
  | error e => exact herr e _ (hclear.closed hafter' hleft)
  | ok out =>
    obtain ⟨root, cids⟩ := out
    obtain ⟨hcollected, hlists⟩ := hadded _ rfl
    refine Keeps.bind_assoc (Keeps.bind (keeps_protect (hafter'.main.trans (hafter.main.trans hmain))
      (hafter'.seen hseen) (hclear.after hafter' hcollected.quiet) hlists ?_ ?_))
    · exact fun n' hclosed hphase => hok root n' hclosed hphase
    · exact fun e n' hclosed => herr e n' hclosed

/-- Unpinning a root keeps the contract. -/
theorem keeps_unpin (root : Cid) (hn : n.Clear) (hmain : n.main = true) (hspawned : n.spawned = false)
    (hok : ∀ n', n'.Closed → n'.phase = .relaxed root → Q (.ok ()) n')
    (herr : ∀ e n', n'.Closed → Q (.error e) n') :
    EngineKeeps setting A (unpin setting root) n Q := by
  refine keeps_registered hn herr ?_
  intro m hloads hclear hafter hseen
  refine Keeps.bind (Keeps.perform ⟨hafter.main.trans hmain, hseen, hclear.phase, hclear.quiet,
    hloads.spawned.trans hspawned⟩ ?_)
  intro ω s g _
  refine Keeps.bind (Keeps.call (Or.inr ⟨root, g.snapshots + 1, rfl⟩) ?_)
  intro ω t s g a s' _ _
  refine Keeps.bind (Keeps.ofExcept ?_)
  cases a with
  | error e => exact herr e _ ⟨hclear.lock, trivial, hclear.quiet.left⟩
  | ok u =>
    refine Keeps.bind (Keeps.perform ⟨root, rfl⟩ ?_)
    intro ω s g _
    exact hok _ ⟨hclear.lock, trivial, hclear.quiet.left⟩ rfl

theorem keeps_isPinned (root : Cid) {Q : Except MistError Bool → Note → Prop} (hn : n.Clear)
    (hQ : ∀ r n', n'.Closed → Q r n') : EngineKeeps setting A (isPinned setting root) n Q := by
  refine Keeps.bind (Keeps.attempt (keeps_ensurePinRegistryLoaded hn.lock ?_))
  intro r m hloads hlock _
  have hafter := hloads.after (hlock.trans hn.lock.symm)
  have hquiet := hloads.quiet hn.quiet
  cases r with
  | error e => exact hQ _ _ (hn.closed hafter hquiet.left)
  | ok u =>
    have hclear := hn.after hafter hquiet
    refine keeps_registryHas hclear.phase fun found => hQ _ _ ⟨hclear.lock, ?_, hquiet.left⟩
    simp only [Note.found]
    split
    · trivial
    · rw [hclear.phase]
      trivial

end Engine

theorem Note.start_clear {κ : Kind} (job : Job κ) : (Note.start job).Clear :=
  ⟨rfl, rfl, rfl, rfl⟩

/-- Every program of the engine keeps the contract. -/
theorem engine_sound {setting : Setting} {A : Cid → Bytes → Prop} (hA : Covers setting A) :
    Sound (engine setting) observer (contract setting A) where
  op := by
    intro n o ω s hgood _
    cases o with
    | install registry =>
      cases registry with
      | none | some registry => exact hgood
    | _ => exact hgood
  answer := by
    intro n c ω t s a s' hgood hissue hans
    cases c with
    | storeBlock cid data =>
      simp only [engine, World.answer] at hans
      split at hans
      · cases hans
        intro cid' data' hget
        rw [Table.get_insert] at hget
        split at hget
        · rename_i heq
          cases hget
          exact heq ▸ hissue.2
        · exact hgood cid' data' hget
      · cases hans
        exact hgood
    | deleteBlock cid =>
      simp only [engine, World.answer] at hans
      split at hans
      · cases hans
        intro cid' data' hget
        rw [Table.get_erase] at hget
        split at hget
        · cases hget
        · exact hgood cid' data' hget
      · cases hans
        exact hgood
    | metaSet data =>
      simp only [engine, World.answer] at hans
      split at hans
      · cases hans
        exact hgood
      · cases hans
        split
        · exact hgood
        · exact hgood
    | lockIo =>
      simp only [engine, World.answer] at hans
      split at hans
      · cases hans
        exact hgood
      · cases hans
    | _ =>
      cases hans
      exact hgood
  release := by
    intro i s hgood
    simp only [engine, World.release]
    split
    · exact hgood
    · exact hgood
  renew := fun hgood => hgood
  entry := by
    intro κ job hentry
    cases job with
    | writeChunk cid chunk => cases hentry
    | _ => trivial
  code := by
    intro κ job hfit
    have hn := Note.start_clear job
    cases job with
    | addAt name data position =>
      refine Keeps.bind (Engine.keeps_addAtInner hA name data position hn rfl ?_)
      intro r n' hafter hleft _
      cases r with
      | error e | ok out => exact ⟨trivial, hn.closed hafter hleft⟩
    | addPinned name data =>
      exact Engine.keeps_addPinned hA name data hn rfl rfl
        (fun root n' hclosed hphase => ⟨hphase, hclosed⟩) fun e n' hclosed => ⟨trivial, hclosed⟩
    | get root =>
      exact Engine.keeps_get hA root hn rfl fun r n' hafter hleft =>
        ⟨by cases r <;> trivial, hn.closed hafter hleft⟩
    | getBlock cid =>
      exact Engine.keeps_getBlock fun r => ⟨by cases r <;> trivial, rfl, trivial, nofun⟩
    | pin root =>
      exact Engine.keeps_pin hA root hn rfl rfl rfl (fun n' hclosed hphase => ⟨hphase, hclosed⟩)
        fun e n' hclosed => ⟨trivial, hclosed⟩
    | unpin root =>
      exact Engine.keeps_unpin root hn rfl rfl (fun n' hclosed hphase => ⟨hphase, hclosed⟩)
        fun e n' hclosed => ⟨trivial, hclosed⟩
    | enforceCapacityLimit =>
      exact Engine.keeps_enforceCapacityLimit hn fun r n' hafter _ hleft _ =>
        ⟨by cases r <;> trivial, hn.closed hafter hleft⟩
    | runDecaySweep =>
      exact Engine.keeps_runDecaySweep hn fun r n' hafter hquiet =>
        ⟨by cases r <;> trivial, hn.closed hafter hquiet.left⟩
    | isPinned root =>
      exact Engine.keeps_isPinned root hn fun r n' hclosed => ⟨by cases r <;> trivial, hclosed⟩
    | writeChunk cid chunk =>
      refine Keeps.bind (Engine.keeps_storeBlock (Or.inr rfl) (hA _ _ (Or.inl hfit)) ?_ ?_)
      · exact ⟨⟨rfl, rfl⟩, rfl, trivial, nofun⟩
      · exact fun e => ⟨trivial, rfl, trivial, nofun⟩
    | fetchChunk index cid =>
      refine Keeps.bind (Engine.keeps_resolveOrFetch hA (Or.inl rfl) hn rfl ?_)
      intro r n' hafter hleft hok
      cases r with
      | error e => exact ⟨trivial, hn.closed hafter hleft⟩
      | ok data => exact ⟨(hok data rfl).write, hn.closed hafter hleft⟩
  kid_start := fun hentry => hentry
  kid_op := fun hkid => (Note.main_op _ _ _ _ _).trans hkid
  kid_issue := fun hkid => (Note.main_issue _ _).trans hkid
  kid_effect := fun hkid => (Note.main_effect _ _ _ _).trans hkid
  kid_join := fun hkid => hkid

end Mistlib.Storage
