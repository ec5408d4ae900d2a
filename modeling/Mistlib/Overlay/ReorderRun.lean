import Mistlib.Overlay.Reorder

/-!
# Runs of the reorder buffer

This module follows one source through a run of messages of any source and polls. As long as the
provisos of `Quiet` hold at every arrival, what has been released for the source is a prefix of
what was sent to it, and what is held is exactly what arrived beyond that prefix (`Tracks`).
-/

namespace Mistlib.Overlay

variable {κ : Type}

/-- One thing that happens to a receiver. -/
inductive Arrival (κ : Type) where
  | message (source : NodeId) (seq : Nat) (content : κ) (now : Instant)
  | poll (now : Instant)

def Arrival.now : Arrival κ → Instant
  | .message _ _ _ now | .poll now => now

/-- The sequenced message of `src` an arrival brings, if it brings one. -/
def Arrival.sequenced (src : NodeId) : Arrival κ → Option (Nat × κ)
  | .message source seq content _ => if source = src ∧ seq ≠ 0 then some (seq, content) else none
  | .poll _ => none

/-- What the receiver hands on, by source. -/
def ReorderBuffer.handle (b : ReorderBuffer κ) :
    Arrival κ → List (NodeId × List κ) × ReorderBuffer κ
  | .message source seq content now =>
    ([(source, (b.acceptAt source seq content now).1)], (b.acceptAt source seq content now).2)
  | .poll now => b.flushExpired now

/-- The sequenced contents released for `src`. An unsequenced message is
handed on behind whatever its arrival flushed, so it is the last one. -/
def Arrival.released (src : NodeId) (a : Arrival κ) (out : List (NodeId × List κ)) : List κ :=
  let mine := (out.filter fun e => e.1 = src).flatMap (·.2)
  match a with
  | .message source 0 _ _ => if source = src then mine.dropLast else mine
  | _ => mine

/-- The provisos on one arrival: the gap of `src` has not been open for the
timeout, a message of `src` that has to be held still fits, and `src` is not
evicted. -/
structure Quiet (src : NodeId) (b : ReorderBuffer κ) (a : Arrival κ) : Prop where
  gapOpen : ∀ st since, b.sources.get src = some st → st.gapSince = some since →
    a.now - since < b.gapTimeout
  roomLeft : ∀ seq content now, a = .message src seq content now →
    (b.stateOf src now).nextExpected < seq →
    ((b.stateOf src now).buffered.insert seq content).size ≤ b.maxPerSource
  notEvicted : b.sources.contains src → (b.handle a).2.sources.contains src

variable {src : NodeId} {b : ReorderBuffer κ} {a : Arrival κ}

theorem quiet_iff :
    Quiet src b a ↔
      (((b.sources.get src).bind (·.gapSince)).all fun since =>
        decide (a.now - since < b.gapTimeout)) = true ∧
      (match a with
        | .message source seq content now =>
          source = src → (b.stateOf src now).nextExpected < seq →
            ((b.stateOf src now).buffered.insert seq content).size ≤ b.maxPerSource
        | .poll _ => True) ∧
      (b.sources.contains src → (b.handle a).2.sources.contains src) := by
  constructor
  · rintro ⟨hgap, hroom, hkept⟩
    refine ⟨?_, ?_, hkept⟩
    · cases hs : b.sources.get src with
      | none => rfl
      | some st =>
        cases hg : st.gapSince with
        | none => simp [hg]
        | some since => simpa [hg] using hgap st since hs hg
    · cases a with
      | poll now => trivial
      | message source seq content now =>
        rintro rfl hlt
        exact hroom seq content now rfl hlt
  · rintro ⟨hgap, hroom, hkept⟩
    refine ⟨?_, ?_, hkept⟩
    · intro st since hs hg
      simpa [hs, hg] using hgap
    · rintro seq content now rfl hlt
      exact hroom rfl hlt

instance (src : NodeId) (b : ReorderBuffer κ) (a : Arrival κ) : Decidable (Quiet src b a) :=
  match a with
  | .message .. | .poll _ => decidable_of_iff' _ quiet_iff

/-- A run of the receiver with what it released for `src`. Before each
arrival the table may be in another iteration order. -/
inductive Receives (src : NodeId) :
    ReorderBuffer κ → List (Arrival κ) → List κ → ReorderBuffer κ → Prop
  | nil (b : ReorderBuffer κ) : Receives src b [] [] b
  | cons {b b' : ReorderBuffer κ} {a : Arrival κ} {rest : List (Arrival κ)} {out : List κ}
      (t : Table NodeId (SourceState κ)) (shuffle : b.sources.Shuffle t)
      (quiet : Quiet src { b with sources := t } a)
      (next : Receives src ({ b with sources := t }.handle a).2 rest out b') :
      Receives src b (a :: rest)
        (a.released src ({ b with sources := t }.handle a).1 ++ out) b'

/-- The contents numbered from 1, as the sender numbers them. -/
def numbered (contents : List κ) : List (Nat × κ) :=
  (contents.zipIdx 1).map fun e => (e.2, e.1)

variable {contents : List κ} {c : κ}

theorem mem_numbered {k : Nat} : (k, c) ∈ numbered contents ↔ 1 ≤ k ∧ contents[k - 1]? = some c := by
  simp only [numbered, List.mem_map, Prod.mk.injEq]
  constructor
  · rintro ⟨⟨c', k'⟩, hmem, rfl, rfl⟩
    have h := List.mem_zipIdx_iff_le_and_getElem?_sub.mp hmem
    exact h
  · rintro ⟨hk, hc⟩
    exact ⟨(c, k), List.mem_zipIdx_iff_le_and_getElem?_sub.mpr ⟨hk, hc⟩, rfl, rfl⟩

theorem numbered_keys_nodup (contents : List κ) : ((numbered contents).map Prod.fst).Nodup := by
  have hkeys : (numbered contents).map Prod.fst = List.range' 1 contents.length := by
    rw [numbered, List.map_map]
    exact List.zipIdx_map_snd 1 contents
  rw [hkeys]
  exact List.nodup_range'

theorem numbered_mem_keys {k : Nat} :
    k ∈ (numbered contents).map Prod.fst ↔ 1 ≤ k ∧ k ≤ contents.length := by
  simp only [List.mem_map, Prod.exists, exists_and_right, exists_eq_right, mem_numbered]
  constructor
  · rintro ⟨c, hk, hc⟩
    have := (List.getElem?_eq_some_iff.mp hc).1
    omega
  · rintro ⟨hk, hle⟩
    exact ⟨contents[k - 1], hk, List.getElem?_eq_getElem (by omega)⟩

/-! ## What the buffer knows about the source -/

/-- The state of a source in terms of what was sent (`contents`), what has
arrived of it (`done`) and what was released. -/
structure Tracks (contents : List κ) (done : List (Nat × κ)) (rel : List κ)
    (s : SourceState κ) : Prop where
  pos : 1 ≤ s.nextExpected
  released : rel = contents.take (s.nextExpected - 1)
  below : ∀ k, 1 ≤ k → k < s.nextExpected → k ∈ done.map Prod.fst
  held : ∀ k c, s.buffered[k]? = some c ↔ s.nextExpected ≤ k ∧ (k, c) ∈ done

theorem Tracks.new (contents : List κ) (now : Instant) :
    Tracks contents [] [] (SourceState.new now) where
  pos := Nat.le_refl 1
  released := rfl
  below := by
    intro k hk hlt
    simp only [SourceState.new] at hlt
    omega
  held := by simp [SourceState.new]

variable {done : List (Nat × κ)} {rel : List κ} {s : SourceState κ}

theorem Tracks.next_notMem (h : Tracks contents done rel s)
    (hnext : s.buffered[s.nextExpected]? = none) : s.nextExpected ∉ done.map Prod.fst := by
  intro hmem
  obtain ⟨⟨k, c⟩, hkc, hk⟩ := List.mem_map.mp hmem
  have hk' : k = s.nextExpected := hk
  subst hk'
  have := (h.held s.nextExpected c).mpr ⟨le_rfl, hkc⟩
  rw [hnext] at this
  cases this

theorem Tracks.complete (h : Tracks contents done rel s) (hnext : s.buffered[s.nextExpected]? = none)
    (hperm : done.Perm (numbered contents)) :
    rel = contents ∧ s.buffered = ∅ := by
  have hkeys := hperm.map Prod.fst
  -- The next number is above everything sent, and nothing below it is missing.
  have hbound : contents.length ≤ s.nextExpected - 1 := by
    have hnot := h.next_notMem hnext
    rw [hkeys.mem_iff, numbered_mem_keys] at hnot
    have := h.pos
    omega
  refine ⟨?_, ?_⟩
  · rw [h.released]
    exact List.take_of_length_le hbound
  · apply Std.ExtTreeMap.ext_getElem?
    intro k
    cases hk : s.buffered[k]? with
    | none => simp
    | some c =>
      obtain ⟨hle, hmem⟩ := (h.held k c).mp hk
      have hsent := numbered_mem_keys.mp
        (hkeys.mem_iff.mp (List.mem_map_of_mem (f := Prod.fst) hmem))
      have := h.pos
      simp only at hsent
      omega

theorem Tracks.advance (h : Tracks contents done rel s) (hc : contents[s.nextExpected - 1]? = some c) :
    rel ++ [c] = contents.take s.nextExpected := by
  have hsucc : s.nextExpected = s.nextExpected - 1 + 1 := by have := h.pos; omega
  rw [h.released]
  conv_rhs => rw [hsucc, List.take_add_one, hc]
  rfl

theorem Tracks.drain (hdone : ∀ e ∈ done, e ∈ numbered contents) :
    ∀ (fuel : Nat) {rel : List κ} {s : SourceState κ}, Tracks contents done rel s →
      Tracks contents done (rel ++ (s.drain fuel).1) (s.drain fuel).2 := by
  intro fuel
  induction fuel with
  | zero =>
    intro rel s h
    simpa [SourceState.drain] using h
  | succ fuel ih =>
    intro rel s h
    unfold SourceState.drain
    cases hb : s.buffered[s.nextExpected]? with
    | none => simpa using h
    | some c =>
      have hmem := ((h.held _ _).mp hb).2
      have hc := (mem_numbered.mp (hdone _ hmem)).2
      have hstep : Tracks contents done (rel ++ [c])
          { s with
            buffered := s.buffered.erase s.nextExpected
            nextExpected := s.nextExpected + 1 } := by
        refine ⟨Nat.le_add_left 1 _, h.advance hc, ?_, ?_⟩
        · intro k hk hlt
          by_cases heq : k = s.nextExpected
          · exact heq ▸ List.mem_map_of_mem (f := Prod.fst) hmem
          · exact h.below k hk (by simp only at hlt; omega)
        · intro k c'
          simp only [Std.ExtTreeMap.getElem?_erase, Nat.compare_eq_eq]
          split
          · next heq =>
            subst heq
            simp only [reduceCtorEq, false_iff, not_and]
            omega
          · next hne =>
            rw [h.held]
            constructor
            · rintro ⟨hle, hm⟩
              exact ⟨by omega, hm⟩
            · rintro ⟨hle, hm⟩
              exact ⟨by omega, hm⟩
      simpa using ih hstep

/-- With as much fuel as there are messages held, the loop stops because the
next number is not there. -/
theorem SourceState.drain_complete :
    ∀ (fuel : Nat) (s : SourceState κ), s.buffered.size ≤ fuel →
      (s.drain fuel).2.buffered[(s.drain fuel).2.nextExpected]? = none := by
  intro fuel
  induction fuel with
  | zero =>
    intro s hs
    have hempty : s.buffered = ∅ := by
      apply Std.ExtTreeMap.isEmpty_iff.mp
      rw [Std.ExtTreeMap.isEmpty_eq_size_beq_zero]
      simpa using hs
    simp [SourceState.drain, hempty]
  | succ fuel ih =>
    intro s hs
    unfold SourceState.drain
    cases hb : s.buffered[s.nextExpected]? with
    | none => simpa using hb
    | some c =>
      apply ih
      have hmem : s.nextExpected ∈ s.buffered := by
        rw [Std.ExtTreeMap.mem_iff_isSome_getElem?, hb]
        rfl
      simp only [Std.ExtTreeMap.size_erase, Std.ExtTreeMap.contains_iff_mem.mpr hmem, if_true]
      omega

/-! ## One arrival -/

variable {now : Instant}

theorem SourceState.flushStale_of_open {gapTimeout : Duration}
    (h : ∀ since, s.gapSince = some since → now - since < gapTimeout) :
    s.flushStale gapTimeout now = ([], s) := by
  have hstale : s.isStale gapTimeout now = false := by
    unfold SourceState.isStale
    cases hg : s.gapSince with
    | none => rfl
    | some since =>
      simp only [decide_eq_false_iff_not]
      exact Nat.not_le.mpr (h since hg)
  rw [SourceState.flushStale, hstale]
  rfl

variable {seq : Nat}

/-- Sequencing a message that was sent and has not arrived before releases the
next stretch of the stream, or holds the message. -/
theorem Tracks.sequence (maxPerSource : Nat) (now : Instant) (h : Tracks contents done rel s)
    (hnext : s.buffered[s.nextExpected]? = none)
    (hdone : ∀ e ∈ (seq, c) :: done, e ∈ numbered contents) (hfresh : seq ∉ done.map Prod.fst)
    (hroom : s.nextExpected < seq → (s.buffered.insert seq c).size ≤ maxPerSource) :
    Tracks contents ((seq, c) :: done) (rel ++ (s.sequence maxPerSource seq c now).1)
        (s.sequence maxPerSource seq c now).2 ∧
      (s.sequence maxPerSource seq c now).2.buffered[
        (s.sequence maxPerSource seq c now).2.nextExpected]? = none := by
  obtain ⟨hone, hc⟩ := mem_numbered.mp (hdone (seq, c) List.mem_cons_self)
  have hnotBelow : ¬ seq < s.nextExpected := fun hlt => hfresh (h.below seq hone hlt)
  -- Neither a restart nor a late message: both would have arrived before.
  have hnotRestart : ¬ (seq = 1 ∧ s.nextExpected > 1) := by
    rintro ⟨rfl, hgt⟩
    exact hnotBelow hgt
  unfold SourceState.sequence
  rw [if_neg hnotRestart, if_neg hnotBelow]
  by_cases heq : seq = s.nextExpected
  · subst heq
    rw [if_pos rfl]
    have hstart : Tracks contents ((s.nextExpected, c) :: done) (rel ++ [c])
        { s with nextExpected := s.nextExpected + 1 } := by
      refine ⟨Nat.le_add_left 1 _, h.advance hc, ?_, ?_⟩
      · intro k hk hlt
        by_cases hkn : k = s.nextExpected
        · subst hkn
          exact List.mem_map_of_mem (f := Prod.fst) List.mem_cons_self
        · have := h.below k hk (by simp only at hlt; omega)
          simp only [List.map_cons, List.mem_cons]
          exact Or.inr this
      · intro k c'
        rw [h.held]
        constructor
        · rintro ⟨hle, hm⟩
          refine ⟨?_, List.mem_cons_of_mem _ hm⟩
          have hkn : k ≠ s.nextExpected := by
            rintro rfl
            exact hfresh (List.mem_map_of_mem (f := Prod.fst) hm)
          simp only
          omega
        · rintro ⟨hle, hm⟩
          simp only at hle
          refine ⟨by omega, ?_⟩
          rcases List.mem_cons.mp hm with heq | hm'
          · cases heq
            omega
          · exact hm'
    have hdrained := hstart.drain hdone s.buffered.size
    have hcomplete := SourceState.drain_complete s.buffered.size
      { s with nextExpected := s.nextExpected + 1 } le_rfl
    refine ⟨⟨hdrained.pos, ?_, hdrained.below, hdrained.held⟩, hcomplete⟩
    simpa using hdrained.released
  · rw [if_neg heq]
    have hgt : s.nextExpected < seq := by omega
    simp only [Nat.not_lt.mpr (hroom hgt), if_false, List.append_nil]
    refine ⟨⟨h.pos, h.released, ?_, ?_⟩, ?_⟩
    · intro k hk hlt
      simp only [List.map_cons, List.mem_cons]
      exact Or.inr (h.below k hk hlt)
    · intro k c'
      simp only [Std.ExtTreeMap.getElem?_insert, Nat.compare_eq_eq, List.mem_cons, Prod.mk.injEq]
      split
      · next hk =>
        subst hk
        constructor
        · intro hsome
          cases hsome
          exact ⟨by omega, Or.inl ⟨rfl, rfl⟩⟩
        · rintro ⟨_, ⟨_, rfl⟩ | hm⟩
          · rfl
          · exact absurd (List.mem_map_of_mem (f := Prod.fst) hm) hfresh
      · next hk =>
        rw [h.held]
        constructor
        · rintro ⟨hle, hm⟩
          exact ⟨hle, Or.inr hm⟩
        · rintro ⟨hle, ⟨rfl, _⟩ | hm⟩
          · exact absurd rfl hk
          · exact ⟨hle, hm⟩
    · simp only [Std.ExtTreeMap.getElem?_insert, Nat.compare_eq_eq]
      rw [if_neg heq, hnext]

/-! ## The whole buffer

`Follows` is `Tracks` for a source that may not have a state yet: until its
first sequenced message it counts as a fresh one. -/

/-- What the buffer holds for `src` agrees with what arrived and what was released. -/
structure Follows (src : NodeId) (contents : List κ) (done : List (Nat × κ)) (rel : List κ)
    (b : ReorderBuffer κ) : Prop where
  tracks : ∀ now, Tracks contents done rel (b.stateOf src now)
  drained : ∀ now, (b.stateOf src now).buffered[(b.stateOf src now).nextExpected]? = none

variable {b' : ReorderBuffer κ}

theorem ReorderBuffer.stateOf_congr (now : Instant) (h : b'.sources.get src = b.sources.get src) :
    b'.stateOf src now = b.stateOf src now := by
  rw [ReorderBuffer.stateOf, ReorderBuffer.stateOf, h]

theorem Follows.congr (h : Follows src contents done rel b)
    (hget : b'.sources.get src = b.sources.get src) : Follows src contents done rel b' where
  tracks now := by
    rw [ReorderBuffer.stateOf_congr now hget]
    exact h.tracks now
  drained now := by
    rw [ReorderBuffer.stateOf_congr now hget]
    exact h.drained now

theorem Follows.of_get (hget : b.sources.get src = some s) (ht : Tracks contents done rel s)
    (hd : s.buffered[s.nextExpected]? = none) :
    Follows src contents done rel b := by
  have hstate : ∀ now, b.stateOf src now = s := by
    intro now
    rw [ReorderBuffer.stateOf, hget]
    rfl
  refine ⟨fun now => ?_, fun now => ?_⟩
  · rw [hstate]
    exact ht
  · rw [hstate]
    exact hd

theorem ReorderBuffer.evict_get {incoming : NodeId}
    (h : b.sources.contains src → (b.evictSourcesIfNeeded incoming).sources.contains src) :
    (b.evictSourcesIfNeeded incoming).sources.get src = b.sources.get src := by
  cases hs : b.sources.get src with
  | none =>
    unfold ReorderBuffer.evictSourcesIfNeeded
    split
    · exact hs
    · split
      · simp only [Table.get_erase, hs]
        split <;> rfl
      · exact hs
  | some s =>
    have hkept := h (Table.contains_iff.mpr ⟨s, hs⟩)
    unfold ReorderBuffer.evictSourcesIfNeeded at hkept ⊢
    split at hkept
    · next hroom => rw [if_pos hroom, hs]
    · next hroom =>
      rw [if_neg hroom]
      split at hkept
      · next e he =>
        simp only
        obtain ⟨s', hs'⟩ := Table.contains_iff.mp hkept
        simp only [Table.get_erase] at hs' ⊢
        split at hs'
        · cases hs'
        · next hne => rw [if_neg hne, hs]
      · next he => simp only [hs]

@[simp] theorem ReorderBuffer.evict_limits (b : ReorderBuffer κ) (incoming : NodeId) :
    (b.evictSourcesIfNeeded incoming).gapTimeout = b.gapTimeout ∧
      (b.evictSourcesIfNeeded incoming).maxPerSource = b.maxPerSource := by
  unfold ReorderBuffer.evictSourcesIfNeeded
  split
  · exact ⟨rfl, rfl⟩
  · split
    · exact ⟨rfl, rfl⟩
    · exact ⟨rfl, rfl⟩

theorem Quiet.flushStale (hq : Quiet src b a) (hs : b.sources.get src = some s) (stamp : Instant) :
    { s with lastActivity := stamp }.flushStale b.gapTimeout a.now =
      ([], { s with lastActivity := stamp }) :=
  SourceState.flushStale_of_open fun since hg => hq.gapOpen s since hs hg

theorem ReorderBuffer.acceptAt_get_of_ne {source : NodeId} {content : κ} (hne : src ≠ source)
    (hkept : b.sources.contains src → (b.acceptAt source seq content now).2.sources.contains src) :
    (b.acceptAt source seq content now).2.sources.get src = b.sources.get src := by
  unfold ReorderBuffer.acceptAt at hkept ⊢
  split at hkept
  · next hzero =>
    rw [if_pos hzero]
    split at hkept
    · simp only [Table.get_insert, if_neg hne]
    · rfl
  · next hzero =>
    rw [if_neg hzero]
    simp only [Table.get_insert, if_neg hne]
    apply ReorderBuffer.evict_get
    intro hsrc
    obtain ⟨s, hs⟩ := Table.contains_iff.mp (hkept hsrc)
    simp only [Table.get_insert, if_neg hne] at hs
    exact Table.contains_iff.mpr ⟨s, hs⟩

theorem Follows.handle_other (h : Follows src contents done rel b) (hq : Quiet src b a)
    (hnone : a.sequenced src = none) :
    a.released src (b.handle a).1 = [] ∧ Follows src contents done rel (b.handle a).2 := by
  cases a with
  | poll now =>
    have hstate : ∀ s, b.sources.get src = some s → s.flushStale b.gapTimeout now = ([], s) :=
      fun s hs => hq.flushStale hs s.lastActivity
    constructor
    · simp only [Arrival.released, ReorderBuffer.handle, ReorderBuffer.flushExpired,
        List.flatMap_eq_nil_iff, List.mem_filter, decide_eq_true_eq]
      rintro ⟨id, out⟩ ⟨hmem, rfl⟩
      obtain ⟨⟨id', s⟩, hs, hout⟩ := List.mem_filterMap.mp hmem
      simp only at hout
      split at hout
      · cases hout
      · next hne =>
        cases hout
        rw [hstate s (Table.get_eq_some_iff.mpr hs)] at hne
        exact absurd rfl hne
    · apply h.congr
      simp only [ReorderBuffer.handle, ReorderBuffer.flushExpired, Table.get_mapVals]
      cases hs : b.sources.get src with
      | none => rfl
      | some s => simp [hstate s hs]
  | message source seq content now =>
    by_cases hsrc : source = src
    · -- An unsequenced message of the source itself: only the stamp moves.
      subst hsrc
      have hzero : seq = 0 := by simpa [Arrival.sequenced] using hnone
      subst hzero
      cases hs : b.sources.get source with
      | none =>
        have haccept : b.acceptAt source 0 content now = ([content], b) := by
          simp [ReorderBuffer.acceptAt, hs]
        simpa [Arrival.released, ReorderBuffer.handle, haccept] using h
      | some s =>
        have hflush := hq.flushStale hs now
        simp only [Arrival.now] at hflush
        have haccept : b.acceptAt source 0 content now =
            ([content], { b with
              sources := b.sources.insert source { s with lastActivity := now } }) := by
          simp [ReorderBuffer.acceptAt, hs, hflush]
        have hstate : b.stateOf source now = s := by simp [ReorderBuffer.stateOf, hs]
        have ht := h.tracks now
        have hd := h.drained now
        rw [hstate] at ht hd
        refine ⟨by simp [Arrival.released, ReorderBuffer.handle, haccept], ?_⟩
        simp only [ReorderBuffer.handle, haccept]
        exact Follows.of_get (Table.get_insert_self _ _ _)
          { ht with } hd
    · constructor
      · simp only [Arrival.released, ReorderBuffer.handle, List.filter_cons, hsrc,
          decide_false, Bool.false_eq_true, if_false, List.filter_nil, List.flatMap_nil]
        split
        · simp
        · rfl
      · exact h.congr (ReorderBuffer.acceptAt_get_of_ne (Ne.symm hsrc) hq.notEvicted)

theorem Follows.handle_message (h : Follows src contents done rel b)
    (hq : Quiet src b (.message src seq c now)) (hdone : ∀ e ∈ (seq, c) :: done, e ∈ numbered contents)
    (hfresh : seq ∉ done.map Prod.fst) :
    Follows src contents ((seq, c) :: done)
      (rel ++ (Arrival.message src seq c now).released src (b.handle (.message src seq c now)).1)
      (b.handle (.message src seq c now)).2 := by
  have hseq : seq ≠ 0 := by
    have := (mem_numbered.mp (hdone (seq, c) List.mem_cons_self)).1
    omega
  -- Making room never evicts the source the message is from.
  have hget : (b.evictSourcesIfNeeded src).sources.get src = b.sources.get src := by
    apply ReorderBuffer.evict_get
    intro hsrc
    unfold ReorderBuffer.evictSourcesIfNeeded
    rw [if_pos (Or.inr hsrc)]
    exact hsrc
  have hstate := ReorderBuffer.stateOf_congr now hget
  have hflush : { b.stateOf src now with lastActivity := now }.flushStale b.gapTimeout now =
      ([], { b.stateOf src now with lastActivity := now }) := by
    apply SourceState.flushStale_of_open
    intro since hg
    cases hs : b.sources.get src with
    | none => simp [ReorderBuffer.stateOf, hs, SourceState.new] at hg
    | some s =>
      have hst : b.stateOf src now = s := by simp [ReorderBuffer.stateOf, hs]
      rw [hst] at hg
      exact hq.gapOpen s since hs hg
  have ht := h.tracks now
  obtain ⟨htrack, hdrain⟩ := Tracks.sequence (s := { b.stateOf src now with lastActivity := now })
    b.maxPerSource now
    { ht with } (h.drained now) hdone hfresh
    (hq.roomLeft seq c now rfl)
  have hlimits := b.evict_limits src
  have haccept : b.acceptAt src seq c now =
      (({ b.stateOf src now with lastActivity := now }.sequence b.maxPerSource seq c now).1,
        { b.evictSourcesIfNeeded src with
          sources := (b.evictSourcesIfNeeded src).sources.insert src
            ({ b.stateOf src now with lastActivity := now }.sequence b.maxPerSource seq c now).2 }) := by
    simp only [ReorderBuffer.acceptAt, if_neg hseq, hstate, hlimits.1, hlimits.2, hflush,
      List.nil_append]
  have hreleased : (Arrival.message src seq c now).released src
        (b.handle (.message src seq c now)).1 =
      ({ b.stateOf src now with lastActivity := now }.sequence b.maxPerSource seq c now).1 := by
    unfold Arrival.released
    cases seq with
    | zero => exact absurd rfl hseq
    | succ k => simp [ReorderBuffer.handle, haccept]
  rw [hreleased]
  simp only [ReorderBuffer.handle, haccept]
  exact Follows.of_get (Table.get_insert_self _ _ _) htrack hdrain

/-! ## The run -/

/-- Along a quiet run in which every numbered content arrives once, in any
order, the released contents are the sent ones, and nothing stays held. -/
theorem Receives.in_order {arrivals : List (Arrival κ)} {out : List κ}
    (hrun : Receives src b arrivals out b') :
    ∀ {done : List (Nat × κ)} {rel : List κ}, Follows src contents done rel b →
      (done ++ arrivals.filterMap (·.sequenced src)).Perm (numbered contents) →
      rel ++ out = contents ∧ ∀ st, b'.sources.get src = some st → st.buffered = ∅ := by
  induction hrun with
  | nil b =>
    intro done rel hf hperm
    simp only [List.filterMap_nil, List.append_nil] at hperm ⊢
    obtain ⟨hrel, _⟩ := (hf.tracks 0).complete (hf.drained 0) hperm
    refine ⟨hrel, fun st hst => ?_⟩
    have hstate : b.stateOf src 0 = st := by simp [ReorderBuffer.stateOf, hst]
    exact hstate ▸ ((hf.tracks 0).complete (hf.drained 0) hperm).2
  | @cons b b' a rest out t shuffle quiet _ ih =>
    intro done rel hf hperm
    have hf' : Follows src contents done rel { b with sources := t } :=
      hf.congr (shuffle.get src).symm
    cases hseq : a.sequenced src with
    | none =>
      obtain ⟨hreleased, hnext⟩ := hf'.handle_other quiet hseq
      rw [hreleased, List.nil_append]
      refine ih hnext ?_
      simpa [List.filterMap_cons, hseq] using hperm
    | some e =>
      obtain ⟨seq, c⟩ := e
      have hperm' : ((seq, c) :: done ++ rest.filterMap (·.sequenced src)).Perm
          (numbered contents) := by
        rw [List.filterMap_cons, hseq] at hperm
        exact List.perm_middle.symm.trans hperm
      have hmessage : ∃ now, a = .message src seq c now := by
        cases a with
        | poll now => simp [Arrival.sequenced] at hseq
        | message source seq' c' now =>
          simp only [Arrival.sequenced, Option.ite_none_right_eq_some, Option.some.injEq,
            Prod.mk.injEq] at hseq
          obtain ⟨⟨rfl, _⟩, rfl, rfl⟩ := hseq
          exact ⟨now, rfl⟩
      obtain ⟨now, rfl⟩ := hmessage
      have hnodup : (((seq, c) :: done ++ rest.filterMap (·.sequenced src)).map Prod.fst).Nodup :=
        (hperm'.map Prod.fst).nodup_iff.mpr (numbered_keys_nodup contents)
      rw [← List.append_assoc]
      refine ih (hf'.handle_message quiet ?_ ?_) hperm'
      · intro e he
        exact hperm'.mem_iff.mp (List.mem_append_left _ he)
      · simp only [List.cons_append, List.map_cons, List.map_append, List.nodup_cons,
          List.mem_append, not_or] at hnodup
        exact hnodup.1.1

end Mistlib.Overlay
