import Mistlib.Overlay.ReorderRestart

/-!
# The invariant of the reorder buffer

Every branch of `acceptAt` leaves a source well formed: it expects a number from 1 on, holds
only later ones, not too many of them, and its gap clock runs exactly while something is held
(`SourceState.WellFormed`). So a poll finds every gap, and what it hands on is in order.

The numbers of a run stay below the largest `u64`. Then the number expected next fits a `u64`
(`WellFormed.word`), and counting without a bound is exact.
-/

namespace Mistlib.Overlay

variable {κ : Type}

def U64_MAX : Nat := 2 ^ 64 - 1

/-- What holds of a source between any two calls. -/
structure SourceState.WellFormed (maxPerSource : Nat) (s : SourceState κ) : Prop where
  expects : 1 ≤ s.nextExpected
  ahead : ∀ k ∈ s.buffered, s.nextExpected < k
  capped : s.buffered.size ≤ maxPerSource
  clock : s.gapSince.isSome = true ↔ s.buffered ≠ ∅
  word : s.nextExpected ≤ U64_MAX

/-- A well-formed source that holds only what was accepted for it, each
message under the number it came with. -/
structure SourceState.Sound (maxPerSource : Nat) (accepted : Nat → κ → Prop)
    (s : SourceState κ) : Prop extends s.WellFormed maxPerSource where
  held : ∀ k c, s.buffered[k]? = some c → accepted k c

namespace SourceState

variable {s : SourceState κ} {maxPerSource : Nat} {accepted : Nat → κ → Prop}

/-- What the drain leaves: it stops behind the last message it took, and it
took nothing but a stretch from the number expected next. -/
theorem drain_spec (fuel : Nat) (s : SourceState κ)
    (hahead : ∀ k c, s.buffered[k]? = some c → s.nextExpected ≤ k) :
    ((s.drain fuel).2.nextExpected = s.nextExpected ∨
      ∃ k c, s.buffered[k]? = some c ∧ (s.drain fuel).2.nextExpected = k + 1) ∧
    s.nextExpected ≤ (s.drain fuel).2.nextExpected ∧
    (s.drain fuel).2.buffered.size ≤ s.buffered.size ∧
    ∀ k c, (s.drain fuel).2.buffered[k]? = some c →
      s.buffered[k]? = some c ∧ (s.drain fuel).2.nextExpected ≤ k := by
  induction fuel generalizing s with
  | zero => exact ⟨.inl rfl, le_rfl, le_rfl, fun k c hk => ⟨hk, hahead k c hk⟩⟩
  | succ fuel ih =>
    unfold drain
    cases hnext : s.buffered[s.nextExpected]? with
    | none => exact ⟨.inl rfl, le_rfl, le_rfl, fun k c hk => ⟨hk, hahead k c hk⟩⟩
    | some x =>
      have herased : ∀ k c, (s.buffered.erase s.nextExpected)[k]? = some c →
          s.buffered[k]? = some c ∧ s.nextExpected + 1 ≤ k := by
        intro k c hk
        simp only [Std.ExtTreeMap.getElem?_erase, Nat.compare_eq_eq] at hk
        split at hk
        · cases hk
        · next hne =>
          have hle := hahead k c hk
          exact ⟨hk, by omega⟩
      obtain ⟨hstops, hgrows, hsize, hleft⟩ :=
        ih { s with
          buffered := s.buffered.erase s.nextExpected
          nextExpected := s.nextExpected + 1 } fun k c hk => (herased k c hk).2
      refine ⟨.inr ?_, Nat.le_of_succ_le hgrows, ?_, ?_⟩
      · rcases hstops with hsame | ⟨k, c, hk, hk'⟩
        · exact ⟨s.nextExpected, x, hnext, hsame⟩
        · exact ⟨k, c, (herased k c hk).1, hk'⟩
      · exact Nat.le_trans hsize Std.ExtTreeMap.size_erase_le
      · intro k c hk
        obtain ⟨hwas, hle⟩ := hleft k c hk
        exact ⟨(herased k c hwas).1, hle⟩

namespace Sound

theorem new (now : Instant) : (SourceState.new now).Sound maxPerSource accepted where
  expects := Nat.le_refl 1
  ahead := by simp [SourceState.new]
  capped := by simp [SourceState.new]
  clock := by simp [SourceState.new]
  word := show 1 ≤ U64_MAX by decide
  held := by simp [SourceState.new]

theorem bare (hexpects : 1 ≤ s.nextExpected) (hword : s.nextExpected ≤ U64_MAX)
    (hempty : s.buffered = ∅) (hclock : s.gapSince = none) : s.Sound maxPerSource accepted where
  expects := hexpects
  ahead := by simp [hempty]
  capped := by simp [hempty]
  clock := by simp [hempty, hclock]
  word := hword
  held := by simp [hempty]

theorem of_flush (hexpects : 1 ≤ s.nextExpected) (hword : s.nextExpected ≤ U64_MAX)
    (hheld : ∀ k c, s.buffered[k]? = some c → k < U64_MAX) :
    s.flush.2.2.Sound maxPerSource accepted := by
  obtain ⟨_, hempty, _, hnext⟩ := s.flush_spec
  refine .bare ?_ ?_ hempty s.flush_gapSince
  · rcases hnext with hsame | ⟨k, c, _, hk⟩ <;> omega
  · rcases hnext with hsame | ⟨k, c, hmem, hk⟩
    · omega
    · have := hheld k c hmem
      omega

variable (hbound : ∀ k c, accepted k c → k < U64_MAX)
include hbound

section

variable (hs : s.Sound maxPerSource accepted)
include hs

theorem flush : s.flush.2.2.Sound maxPerSource accepted :=
  .of_flush hs.expects hs.word fun k c hk => hbound k c (hs.held k c hk)

theorem flushStale (gapTimeout : Duration) (now : Instant) :
    (s.flushStale gapTimeout now).2.Sound maxPerSource accepted := by
  unfold SourceState.flushStale
  split
  · exact hs.flush hbound
  · exact hs

theorem inOrder (hlt : s.nextExpected < U64_MAX) (now : Instant) :
    let drained := (drain s.buffered.size { s with nextExpected := s.nextExpected + 1 }).2
    SourceState.Sound maxPerSource accepted
      { drained with gapSince := if drained.buffered.isEmpty then none else some now } := by
  intro drained
  have hahead : ∀ k c, s.buffered[k]? = some c → s.nextExpected + 1 ≤ k := fun k c hk =>
    hs.ahead k (Std.ExtTreeMap.mem_iff_isSome_getElem?.mpr (by rw [hk]; rfl))
  obtain ⟨hstops, hgrows, hsize, hleft⟩ :=
    drain_spec s.buffered.size { s with nextExpected := s.nextExpected + 1 } hahead
  have hgone : drained.buffered[drained.nextExpected]? = none :=
    drain_complete _ { s with nextExpected := s.nextExpected + 1 } le_rfl
  refine ⟨⟨?_, ?_, Nat.le_trans hsize hs.capped, ?_, ?_⟩, ?_⟩
  · exact Nat.le_trans (Nat.le_add_left 1 _) hgrows
  · intro k hk
    obtain ⟨c, hc⟩ := Option.isSome_iff_exists.mp (Std.ExtTreeMap.mem_iff_isSome_getElem?.mp hk)
    refine Nat.lt_of_le_of_ne (hleft k c hc).2 ?_
    rintro rfl
    rw [hgone] at hc
    cases hc
  · by_cases hempty : drained.buffered = ∅
    · simp [hempty]
    · simp [hempty, Std.ExtTreeMap.isEmpty_iff]
  · rcases hstops with hsame | ⟨k, c, hk, hnext⟩
    · exact hsame.trans_le hlt
    · have hlast := hbound k c (hs.held k c hk)
      exact hnext.trans_le hlast
  · exact fun k c hk => hs.held k c (hleft k c hk).1

theorem hold {seq : Nat} {content : κ} (hlt : s.nextExpected < seq)
    (haccepted : accepted seq content) (now : Instant) : let held := { s with
      buffered := s.buffered.insert seq content
      gapSince := s.gapSince.or (some now) }
    (held.buffered.size > maxPerSource → held.flush.2.2.Sound maxPerSource accepted) ∧
      (¬ held.buffered.size > maxPerSource → held.Sound maxPerSource accepted) := by
  intro held
  have hheld : ∀ k c, held.buffered[k]? = some c → accepted k c := by
    intro k c hk
    simp only [held, Std.ExtTreeMap.getElem?_insert, Nat.compare_eq_eq] at hk
    split at hk
    · next heq =>
      cases hk
      exact heq ▸ haccepted
    · exact hs.held k c hk
  refine ⟨fun _ => ?_, fun hroom => ⟨⟨hs.expects, ?_, Nat.not_lt.mp hroom, ?_, hs.word⟩, hheld⟩⟩
  · exact .of_flush hs.expects hs.word fun k c hk => hbound k c (hheld k c hk)
  · intro k hk
    rcases Std.ExtTreeMap.mem_insert.mp hk with heq | hold
    · rw [← Nat.compare_eq_eq.mp heq]
      exact hlt
    · exact hs.ahead k hold
  · have hsome : held.gapSince.isSome = true := by simp [held]
    have hfull : held.buffered ≠ ∅ := Std.ExtTreeMap.insert_ne_empty
    exact iff_of_true hsome hfull

theorem sequence {seq : Nat} {content : κ} (haccepted : accepted seq content) (now : Instant) :
    (s.sequence maxPerSource seq content now).2.Sound maxPerSource accepted := by
  unfold SourceState.sequence
  split
  · exact .bare (show 1 ≤ 2 by decide) (show 2 ≤ U64_MAX by decide) s.flush_spec.2.1
      s.flush_gapSince
  · split
    · exact hs
    · split
      · next heq => exact hs.inOrder hbound (heq ▸ hbound seq content haccepted) now
      · next hle hne =>
        have hheld := hs.hold hbound (by omega) haccepted now
        simp only
        split
        · next hfull => exact hheld.1 hfull
        · next hroom => exact hheld.2 hroom

end

end Sound

theorem flushStale_open (s : SourceState κ) (gapTimeout : Duration) (now : Instant)
    {since : Instant} (h : (s.flushStale gapTimeout now).2.gapSince = some since) :
    now - since < gapTimeout := by
  unfold flushStale at h
  split at h
  · rw [s.flush_gapSince] at h
    cases h
  · next hfresh =>
    simp only at h
    simpa [isStale, h] using hfresh

end SourceState

/-! ## All sources -/

namespace ReorderBuffer

variable {b : ReorderBuffer κ} {accepted : NodeId → Nat → κ → Prop}

theorem evict_maxSources (b : ReorderBuffer κ) (incoming : NodeId) :
    (b.evictSourcesIfNeeded incoming).maxSources = b.maxSources := by
  unfold evictSourcesIfNeeded
  split
  · rfl
  · split <;> rfl

theorem handle_maxSources (b : ReorderBuffer κ) (a : Arrival κ) :
    (b.handle a).2.maxSources = b.maxSources := by
  cases a with
  | poll now => rfl
  | message source seq content now =>
    simp only [handle, acceptAt]
    split
    · cases b.sources.get source <;> rfl
    · exact b.evict_maxSources source

/-- Not too many sources are tracked, and each of them is sound. -/
structure Sound (accepted : NodeId → Nat → κ → Prop) (b : ReorderBuffer κ) : Prop where
  tracked : b.sources.size ≤ b.maxSources
  sources : ∀ source s, b.sources.get source = some s →
    s.Sound b.maxPerSource (accepted source)

namespace Sound

section

variable (hb : b.Sound accepted)
include hb

theorem shuffle {t : Table NodeId (SourceState κ)} (ht : b.sources.Shuffle t) :
    ({ b with sources := t } : ReorderBuffer κ).Sound accepted where
  tracked := by
    have hsize : b.sources.size = t.size := ht.length_eq
    exact hsize ▸ hb.tracked
  sources := fun source s hs => hb.sources source s ((ht.get source).trans hs)

theorem put {source : NodeId} {s : SourceState κ}
    (hroom : b.sources.contains source = true ∨ b.sources.size < b.maxSources)
    (hs : s.Sound b.maxPerSource (accepted source)) :
    ({ b with sources := b.sources.insert source s } : ReorderBuffer κ).Sound accepted where
  tracked := by
    have htracked := hb.tracked
    simp only [Table.size_insert]
    cases hget : b.sources.get source with
    | some old =>
      have hsize := Table.size_of_get hget
      omega
    | none =>
      have hlt := hroom.resolve_left (by simp [Table.contains, hget])
      rw [Table.erase_of_get_none hget]
      omega
  sources := by
    intro other st hst
    simp only [Table.get_insert] at hst
    split at hst
    · next heq =>
      cases hst
      exact heq ▸ hs
    · exact hb.sources other st hst

theorem evict (hsources : 1 ≤ b.maxSources) (incoming : NodeId) :
    (b.evictSourcesIfNeeded incoming).Sound accepted ∧
      ((b.evictSourcesIfNeeded incoming).sources.contains incoming = true ∨
        (b.evictSourcesIfNeeded incoming).sources.size < b.maxSources) := by
  unfold evictSourcesIfNeeded
  split
  · next hroom => exact ⟨hb, hroom.symm⟩
  · next hfull =>
    have htracked := hb.tracked
    split
    · next e he =>
      have hget : b.sources.get e.1 = some e.2 :=
        Table.get_eq_some_iff.mpr (Table.minByKey_mem he)
      have hsize := Table.size_of_get hget
      refine ⟨⟨?_, ?_⟩, .inr ?_⟩
      · simp only
        omega
      · intro source s hs
        simp only [Table.get_erase] at hs
        split at hs
        · cases hs
        · exact hb.sources source s hs
      · simp only
        omega
    · next hnone =>
      have hempty : b.sources.size = 0 := by
        rw [Table.size, Table.minByKey_eq_none.mp hnone]
        rfl
      exact absurd (.inl (by omega)) hfull

theorem stateOf (source : NodeId) (now : Instant) :
    (b.stateOf source now).Sound b.maxPerSource (accepted source) := by
  unfold ReorderBuffer.stateOf
  cases hget : b.sources.get source with
  | none => exact .new now
  | some s => exact hb.sources source s hget

end

variable (hbound : ∀ source k c, accepted source k c → k < U64_MAX)
include hbound

theorem acceptAt (hb : b.Sound accepted) (hsources : 1 ≤ b.maxSources) {source : NodeId}
    {seq : Nat} {content : κ} (haccepted : accepted source seq content) (now : Instant) :
    (b.acceptAt source seq content now).2.Sound accepted := by
  unfold ReorderBuffer.acceptAt
  split
  · split
    · next state hget =>
      have hstate := hb.sources source state hget
      have hstamped : SourceState.Sound b.maxPerSource (accepted source)
          { state with lastActivity := now } := ⟨{ hstate with }, hstate.held⟩
      exact hb.put (.inl (Table.contains_iff.mpr ⟨state, hget⟩))
        (hstamped.flushStale (hbound source) b.gapTimeout now)
    · exact hb
  · obtain ⟨hevicted, hroom⟩ := hb.evict hsources source
    have hstate := hevicted.stateOf source now
    have hstamped : SourceState.Sound (b.evictSourcesIfNeeded source).maxPerSource
        (accepted source)
        { (b.evictSourcesIfNeeded source).stateOf source now with lastActivity := now } :=
      ⟨{ hstate with }, hstate.held⟩
    refine hevicted.put (hroom.imp_right fun hlt => ?_)
      ((hstamped.flushStale (hbound source) _ now).sequence (hbound source) haccepted now)
    exact hlt.trans_eq (b.evict_maxSources source).symm

theorem flushExpired (hb : b.Sound accepted) (now : Instant) :
    (b.flushExpired now).2.Sound accepted where
  tracked := by
    simpa [ReorderBuffer.flushExpired, Table.size, Table.mapVals, Table.entries] using hb.tracked
  sources := by
    intro source s hs
    simp only [ReorderBuffer.flushExpired, Table.get_mapVals, Option.map_eq_some_iff] at hs
    obtain ⟨old, hold, rfl⟩ := hs
    exact (hb.sources source old hold).flushStale (hbound source) b.gapTimeout now

theorem handle (hb : b.Sound accepted) (hsources : 1 ≤ b.maxSources) {a : Arrival κ}
    (haccepted : ∀ source seq content now, a = .message source seq content now →
      accepted source seq content) : (b.handle a).2.Sound accepted := by
  cases a with
  | message source seq content now =>
    exact hb.acceptAt hbound hsources (haccepted source seq content now rfl) now
  | poll now => exact hb.flushExpired hbound now

/-- Every run over accepted messages keeps the buffer sound. -/
theorem run {b' : ReorderBuffer κ} {passes : List (Pass κ)} (hrun : Runs b passes b')
    (hb : b.Sound accepted) (hsources : 1 ≤ b.maxSources)
    (haccepted : ∀ p ∈ passes, ∀ source seq content now,
      p.arrival = .message source seq content now → accepted source seq content) :
    b'.Sound accepted := by
  induction hrun with
  | nil b => exact hb
  | @cons b b' a rest t shuffle _ ih =>
    have hfirst := (hb.shuffle shuffle).handle hbound hsources (haccepted _ List.mem_cons_self)
    refine ih hfirst ?_ fun p hp => haccepted p (List.mem_cons_of_mem _ hp)
    rwa [handle_maxSources]

end Sound

theorem flushExpired_nodup (b : ReorderBuffer κ) (now : Instant) :
    ((b.flushExpired now).1.map Prod.fst).Nodup := by
  refine b.sources.keys_nodup.sublist ?_
  simp only [flushExpired, Table.keys]
  induction b.sources.entries with
  | nil => exact .slnil
  | cons e rest ih =>
    simp only [List.filterMap_cons, List.map_cons]
    split
    · exact ih.cons _
    · next hout =>
      split at hout
      · cases hout
      · cases hout
        exact ih.cons_cons _

theorem flushExpired_open (b : ReorderBuffer κ) (now : Instant) {source : NodeId}
    {s : SourceState κ} (hs : (b.flushExpired now).2.sources.get source = some s)
    {since : Instant} (hsince : s.gapSince = some since) : now - since < b.gapTimeout := by
  simp only [flushExpired, Table.get_mapVals, Option.map_eq_some_iff] at hs
  obtain ⟨old, _, rfl⟩ := hs
  exact old.flushStale_open b.gapTimeout now hsince

theorem flushExpired_out {b : ReorderBuffer κ} {now : Instant} {source : NodeId} {out : List κ}
    (h : (source, out) ∈ (b.flushExpired now).1) :
    ∃ s, b.sources.get source = some s ∧ out = s.contents := by
  simp only [flushExpired, List.mem_filterMap] at h
  obtain ⟨e, he, hout⟩ := h
  split at hout
  · cases hout
  · next hfull =>
    cases hout
    refine ⟨e.2, Table.get_eq_some_iff.mpr he, ?_⟩
    unfold SourceState.flushStale at hfull ⊢
    split
    · exact e.2.flush_spec.1
    · next hfresh => simp [hfresh] at hfull

end ReorderBuffer

theorem Runs.maxSources {b b' : ReorderBuffer κ} {passes : List (Pass κ)}
    (hrun : Runs b passes b') : b'.maxSources = b.maxSources := by
  induction hrun with
  | nil b => rfl
  | @cons b b' a rest t shuffle _ ih => exact ih.trans (ReorderBuffer.handle_maxSources _ a)

/-- **The reorder buffer keeps its invariant.** In every state a run leads to,
not too many sources are tracked and each of them is well formed; and a poll
at any time leaves no message held behind a gap that has been open for the
timeout, and hands on, source by source, messages of that source in the order
of the numbers they came with. -/
theorem reorderBuffer_invariant {maxPerSource maxSources : Nat} {gapTimeout : Duration}
    (hsources : 1 ≤ maxSources) {passes : List (Pass κ)} {b : ReorderBuffer κ}
    (hrun : Runs (.new maxPerSource maxSources gapTimeout) passes b)
    (hseqs : ∀ p ∈ passes, ∀ source seq content now,
      p.arrival = .message source seq content now → seq < U64_MAX) :
    b.sources.size ≤ maxSources ∧
    (∀ source s, b.sources.get source = some s → s.WellFormed maxPerSource) ∧
    ∀ t now, b.sources.Shuffle t →
      let polled := { b with sources := t }.flushExpired now
      (∀ source s, polled.2.sources.get source = some s → s.buffered ≠ ∅ →
        ∃ since, s.gapSince = some since ∧ now - since < gapTimeout) ∧
      (polled.1.map Prod.fst).Nodup ∧
      ∀ source out, (source, out) ∈ polled.1 →
        ∃ held : List (Nat × κ), out = held.map Prod.snd ∧
          held.Pairwise (fun x y => x.1 < y.1) ∧
          ∀ x ∈ held, ∃ p ∈ passes, ∃ at', p.arrival = .message source x.1 x.2 at' := by
  let accepted : NodeId → Nat → κ → Prop := fun source seq content =>
    ∃ p ∈ passes, ∃ at', p.arrival = .message source seq content at'
  have hbound : ∀ source k c, accepted source k c → k < U64_MAX := by
    rintro source k c ⟨p, hp, at', harrival⟩
    exact hseqs p hp source k c at' harrival
  have hlimits := hrun.limits
  have hmax : b.maxSources = maxSources := hrun.maxSources
  have hnew : (ReorderBuffer.new maxPerSource maxSources gapTimeout).Sound accepted :=
    ⟨Nat.zero_le _, by simp [ReorderBuffer.new]⟩
  have hb : b.Sound accepted := ReorderBuffer.Sound.run hbound hrun hnew hsources
    fun p hp source seq content now harrival => ⟨p, hp, now, harrival⟩
  refine ⟨hmax ▸ hb.tracked, ?_, ?_⟩
  · intro source s hs
    have hroom : b.maxPerSource = maxPerSource := hlimits.1
    exact hroom ▸ (hb.sources source s hs).toWellFormed
  · intro t now hshuffle polled
    have hpolled := (hb.shuffle hshuffle).flushExpired hbound now
    refine ⟨?_, ?_, ?_⟩
    · intro source s hs hfull
      obtain ⟨since, hsince⟩ :=
        Option.isSome_iff_exists.mp ((hpolled.sources source s hs).clock.mpr hfull)
      have hopen := ReorderBuffer.flushExpired_open _ now hs hsince
      exact ⟨since, hsince, hopen.trans_eq hlimits.2⟩
    · exact ReorderBuffer.flushExpired_nodup _ now
    · intro source out hout
      obtain ⟨s, hs, rfl⟩ := ReorderBuffer.flushExpired_out hout
      refine ⟨s.buffered.toList, rfl, s.toList_sorted, ?_⟩
      rintro ⟨k, c⟩ hx
      have hheld := Std.ExtTreeMap.mem_toList_iff_getElem?_eq_some.mp hx
      exact ((hb.shuffle hshuffle).sources source s hs).held k c hheld

namespace Held

def frank : NodeId := ⟨"f"⟩

/-- Numbers 3 and 2, with number 1 missing. -/
def early : List (Arrival String) := [.message frank 3 "c" 0, .message frank 2 "b" 1]

def limits : ReorderBuffer String := .new 4 1 10

end Held

open Held in
/-- Both are held until a poll finds the gap open for too long. -/
theorem reorderBuffer_invariant_early :
    ((limits.passes early).2.flushExpired 10).1 = [(frank, ["b", "c"])] ∧
      ∃ held : List (Nat × String), ["b", "c"] = held.map Prod.snd ∧
        held.Pairwise (fun x y => x.1 < y.1) := by
  have hseqs : ∀ p ∈ (limits.passes early).1, ∀ source seq content now,
      p.arrival = .message source seq content now → seq < U64_MAX := by
    intro p hp source seq content now harrival
    simp only [ReorderBuffer.passes, early, List.mem_cons, List.not_mem_nil, or_false] at hp
    rcases hp with rfl | rfl
    all_goals
      cases harrival
      decide
  have hpolled : ((limits.passes early).2.flushExpired 10).1 = [(frank, ["b", "c"])] := by decide
  obtain ⟨_, _, hpolls⟩ := reorderBuffer_invariant (by decide) (limits.runs_passes early) hseqs
  obtain ⟨_, _, hout⟩ := hpolls _ 10 (.refl _)
  obtain ⟨held, hheld, hsorted, _⟩ :=
    hout frank ["b", "c"] (hpolled ▸ List.mem_singleton.mpr rfl)
  exact ⟨hpolled, held, hheld, hsorted⟩

end Mistlib.Overlay
