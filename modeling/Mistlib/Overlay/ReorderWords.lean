import Mistlib.Overlay.ReorderInvariant

/-!
# Sequence numbers as machine words

The source counts in `u64`, and a sender may put any number on a message. Here the functions of
the buffer stop where they would add one to the largest `u64` (`none`), and else come out as the
ones that count without a bound. They come out unless the call releases a message with the
largest number (`Overruns`), and then the number expected next is exact (`Counted.Exact`).

What is handed on keeps its number with it, 0 if it has none.
-/

namespace Mistlib.Overlay

variable {κ : Type}

def increment (n : Nat) : Option Nat := if n < U64_MAX then some (n + 1) else none

namespace SourceState

def flush? (s : SourceState κ) : Option (List (Nat × κ) × SourceState κ) :=
  match s.buffered.toList.getLast? with
  | some last => (increment last.1).map fun nextExpected =>
    (s.buffered.toList, { s with buffered := ∅, nextExpected, gapSince := none })
  | none => some ([], { s with gapSince := none })

def flushStale? (s : SourceState κ) (gapTimeout : Duration) (now : Instant) :
    Option (List (Nat × κ) × SourceState κ) :=
  if s.isStale gapTimeout now then s.flush? else some ([], s)

def drain? : Nat → SourceState κ → Option (List (Nat × κ) × SourceState κ)
  | 0, s => some ([], s)
  | fuel + 1, s =>
    match s.buffered[s.nextExpected]? with
    | some content =>
      (increment s.nextExpected).bind fun nextExpected =>
        (drain? fuel { s with buffered := s.buffered.erase s.nextExpected, nextExpected }).map fun rest =>
          ((s.nextExpected, content) :: rest.1, rest.2)
    | none => some ([], s)

/-- The part of `accept_at` after the lazy flush. -/
def sequence? (s : SourceState κ) (maxPerSource seq : Nat) (content : κ) (now : Instant) :
    Option (List (Nat × κ) × SourceState κ) :=
  if seq = 1 ∧ s.nextExpected > 1 then
    s.flush?.map fun flushed => (flushed.1 ++ [(seq, content)], { flushed.2 with nextExpected := 2 })
  else if seq < s.nextExpected then some ([], s)
  else if seq = s.nextExpected then
    (increment s.nextExpected).bind fun nextExpected =>
      (drain? s.buffered.size { s with nextExpected }).map fun drained =>
        ((seq, content) :: drained.1,
          { drained.2 with gapSince := if drained.2.buffered.isEmpty then none else some now })
  else
    let held := { s with
      buffered := s.buffered.insert seq content
      gapSince := s.gapSince.or (some now) }
    if held.buffered.size > maxPerSource then held.flush? else some ([], held)

end SourceState

namespace ReorderBuffer

def acceptAt? (b : ReorderBuffer κ) (source : NodeId) (seq : Nat) (content : κ) (now : Instant) :
    Option (List (Nat × κ) × ReorderBuffer κ) :=
  if seq = 0 then
    match b.sources.get source with
    | some state =>
      let state := { state with lastActivity := now }
      (state.flushStale? b.gapTimeout now).map fun flushed =>
        (flushed.1 ++ [(seq, content)], { b with sources := b.sources.insert source flushed.2 })
    | none => some ([(seq, content)], b)
  else
    let b := b.evictSourcesIfNeeded source
    let state := { b.stateOf source now with lastActivity := now }
    (state.flushStale? b.gapTimeout now).bind fun flushed =>
      (flushed.2.sequence? b.maxPerSource seq content now).map fun sequenced =>
        (flushed.1 ++ sequenced.1, { b with sources := b.sources.insert source sequenced.2 })

def flushExpired? (b : ReorderBuffer κ) (now : Instant) :
    Option (List (NodeId × List (Nat × κ)) × ReorderBuffer κ) :=
  if b.sources.entries.all fun e => (e.2.flushStale? b.gapTimeout now).isSome then
    some (b.sources.entries.filterMap fun e =>
        let out := ((e.2.flushStale? b.gapTimeout now).getD ([], e.2)).1
        if out.isEmpty then none else some (e.1, out),
      { b with sources := b.sources.mapVals fun _ s => ((s.flushStale? b.gapTimeout now).getD ([], s)).2 })
  else none

def handle? (b : ReorderBuffer κ) : Arrival κ → Option (List (NodeId × List (Nat × κ)) × ReorderBuffer κ)
  | .message source seq content now =>
    (b.acceptAt? source seq content now).map fun accepted => ([(source, accepted.1)], accepted.2)
  | .poll now => b.flushExpired? now

end ReorderBuffer

/-! ## Where the largest number would be passed -/

namespace SourceState

/-- The lazy flush releases the largest number. -/
def OverrunsStale (s : SourceState κ) (gapTimeout : Duration) (now : Instant) : Prop :=
  s.isStale gapTimeout now = true ∧ U64_MAX ∈ s.buffered

/-- A message, once the lazy flush is done, releases the largest number: with a
restart, at the end of a stretch that is complete, or because too many are held. -/
def Overruns (s : SourceState κ) (maxPerSource seq : Nat) : Prop :=
  if seq = 1 ∧ s.nextExpected > 1 then U64_MAX ∈ s.buffered
  else if seq < s.nextExpected then False
  else if seq = s.nextExpected then ∀ k, seq < k → k ≤ U64_MAX → k ∈ s.buffered
  else maxPerSource < (if seq ∈ s.buffered then s.buffered.size else s.buffered.size + 1) ∧
    (seq = U64_MAX ∨ U64_MAX ∈ s.buffered)

end SourceState

/-- The call releases a message with the largest number. -/
def ReorderBuffer.Overruns (b : ReorderBuffer κ) : Arrival κ → Prop
  | .message source seq _ now =>
    if seq = 0 then ∃ s ∈ b.sources.get source, s.OverrunsStale b.gapTimeout now
    else
      let b := b.evictSourcesIfNeeded source
      let s := { b.stateOf source now with lastActivity := now }
      s.OverrunsStale b.gapTimeout now ∨
        (s.flushStale b.gapTimeout now).2.Overruns b.maxPerSource seq
  | .poll now => ∃ source, ∃ s ∈ b.sources.get source, s.OverrunsStale b.gapTimeout now

/-! ## What is counted -/

/-- One call of the buffer, with the number as it comes from the wire. -/
inductive Call (κ : Type) where
  | accept (source : NodeId) (seq : UInt64) (content : κ) (now : Instant)
  | flushExpired (now : Instant)

def Call.arrival : Call κ → Arrival κ
  | .accept source seq content now => .message source seq.toNat content now
  | .flushExpired now => .poll now

/-- The numbers of the current stream among those released, the latest first: it
begins with the last message that had number 1. -/
def currentStream : List Nat → List Nat
  | [] => []
  | n :: earlier => if n = 1 then [1] else n :: currentStream earlier

/-- The buffer, with the numbers released from each source's state, the latest first. -/
structure Counted (κ : Type) where
  buffer : ReorderBuffer κ
  released : NodeId → List Nat

namespace Counted

def new (maxPerSource maxSources : Nat) (gapTimeout : Duration) : Counted κ :=
  ⟨.new maxPerSource maxSources gapTimeout, fun _ => []⟩

/-- The numbers that are handed on for the source, the latest first. -/
def numbers (source : NodeId) (out : List (NodeId × List (Nat × κ))) : List Nat :=
  ((((out.filter fun e => e.1 = source).flatMap (·.2)).map Prod.fst).filter (· ≠ 0)).reverse

/-- The buffer once there is room for the message. -/
def roomFor (b : ReorderBuffer κ) : Arrival κ → ReorderBuffer κ
  | .message source seq _ _ => if seq = 0 then b else b.evictSourcesIfNeeded source
  | .poll _ => b

def step (m : Counted κ) (call : Call κ) : Option (Counted κ) :=
  (m.buffer.handle? call.arrival).map fun handled =>
    { buffer := handled.2
      released source := numbers source handled.1 ++
        if (roomFor m.buffer call.arrival).sources.contains source then m.released source else [] }

/-- The states that calls lead to. The table may come to be in another iteration
order at any time. -/
inductive Reached (maxPerSource maxSources : Nat) (gapTimeout : Duration) : Counted κ → Prop
  | new : Reached maxPerSource maxSources gapTimeout (.new maxPerSource maxSources gapTimeout)
  | shuffle {m : Counted κ} (before : Reached maxPerSource maxSources gapTimeout m)
      (t : Table NodeId (SourceState κ)) (same : m.buffer.sources.Shuffle t) :
      Reached maxPerSource maxSources gapTimeout { m with buffer.sources := t }
  | step {m m' : Counted κ} {call : Call κ} (before : Reached maxPerSource maxSources gapTimeout m)
      (next : m.step call = some m') : Reached maxPerSource maxSources gapTimeout m'

/-- The number expected next is one more than the largest released one of the
current stream. -/
def Exact (m : Counted κ) : Prop :=
  ∀ source s, m.buffer.sources.get source = some s →
    s.nextExpected = (currentStream (m.released source)).max?.getD 0 + 1

end Counted

/-! ## A list of numbers that goes on -/

/-- The numbers released, and the number expected next. -/
structure Counts (next : Nat) (released : List Nat) : Prop where
  latest : next = released.head?.getD 0 + 1
  below : ∀ n ∈ currentStream released, n < next

namespace Counts

variable {next : Nat} {released : List Nat}

theorem nil : Counts 1 [] := ⟨rfl, nofun⟩

theorem release (h : Counts next released) {n : Nat} (hle : next ≤ n) : Counts (n + 1) (n :: released) where
  latest := rfl
  below := by
    intro k hk
    unfold currentStream at hk
    split at hk
    · next hone =>
      rw [List.mem_singleton.mp hk, hone]
      exact Nat.lt_succ_self 1
    · rcases List.mem_cons.mp hk with rfl | hk
      · exact Nat.lt_succ_self _
      · have hlt := h.below k hk
        omega

theorem restart (released : List Nat) : Counts 2 (1 :: released) where
  latest := rfl
  below := by
    intro k hk
    rw [List.mem_singleton.mp hk]
    exact Nat.lt_succ_self 1

theorem releaseAll (h : Counts next released) {numbers : List Nat} (hsorted : numbers.Pairwise (· < ·))
    (hle : ∀ n ∈ numbers, next ≤ n) :
    Counts ((numbers.getLast?.map (· + 1)).getD next) (numbers.reverse ++ released) := by
  induction numbers generalizing next released with
  | nil => exact h
  | cons n rest ih =>
    obtain ⟨hbefore, hrest⟩ := List.pairwise_cons.mp hsorted
    have hall := ih (h.release (hle n List.mem_cons_self)) hrest fun k hk => hbefore k hk
    rw [List.reverse_cons, List.append_assoc]
    cases rest with
    | nil | cons k rest => exact hall

theorem largest (h : Counts next released) : next = (currentStream released).max?.getD 0 + 1 := by
  cases released with
  | nil => exact h.latest
  | cons n earlier =>
    have hnext : next = n + 1 := h.latest
    have hmem : n ∈ currentStream (n :: earlier) := by
      unfold currentStream
      split
      · next hone => exact List.mem_singleton.mpr hone
      · exact List.mem_cons_self
    have hmax : (currentStream (n :: earlier)).max? = some n := by
      apply List.max?_eq_some_iff.mpr
      refine ⟨hmem, fun k hk => ?_⟩
      have hlt := h.below k hk
      omega
    rw [hmax, hnext]
    rfl

end Counts

/-! ## One source -/

theorem increment_eq_some {n k : Nat} : increment n = some k ↔ n < U64_MAX ∧ n + 1 = k := by
  unfold increment
  split
  · next hlt => exact ⟨fun h => ⟨hlt, Option.some.inj h⟩, fun h => congrArg some h.2⟩
  · next hnot => exact iff_of_false nofun fun h => hnot h.1

namespace SourceState

variable {s s' : SourceState κ} {out : List (Nat × κ)} {maxPerSource seq : Nat} {content : κ}
  {gapTimeout : Duration} {now : Instant} {released : List Nat}

/-- The numbers of a source fit their words. -/
structure Fits (s : SourceState κ) : Prop where
  expects : 1 ≤ s.nextExpected
  word : s.nextExpected ≤ U64_MAX
  ahead : ∀ k ∈ s.buffered, s.nextExpected < k
  words : ∀ k ∈ s.buffered, k ≤ U64_MAX

/-- What comes out of a step has numbers, and they are counted. -/
structure Comes (s : SourceState κ) (out : List (Nat × κ)) (s' : SourceState κ) : Prop where
  numbered : ∀ x ∈ out, x.1 ≠ 0
  fits : s'.Fits
  counts : ∀ released, Counts s.nextExpected released →
    Counts s'.nextExpected ((out.map Prod.fst).reverse ++ released)

namespace Comes

theorem refl (h : s.Fits) : s.Comes [] s := ⟨nofun, h, fun _ hcounts => hcounts⟩

theorem trans {s'' : SourceState κ} {out' : List (Nat × κ)} (h : s.Comes out s') (h' : s'.Comes out' s'') :
    s.Comes (out ++ out') s'' where
  numbered x hx := (List.mem_append.mp hx).elim (h.numbered x) (h'.numbered x)
  fits := h'.fits
  counts := by
    intro released hcounts
    have hall := h'.counts _ (h.counts _ hcounts)
    rwa [List.map_append, List.reverse_append, List.append_assoc]

end Comes

/-! ### A flush -/

theorem last_largest {last : Nat × κ} (h : s.buffered.toList.getLast? = some last) :
    last.1 ∈ s.buffered ∧ ∀ k ∈ s.buffered, k ≤ last.1 := by
  have hmem : last ∈ s.buffered.toList := List.mem_of_getLast? h
  have hnext : s.flush.2.2.nextExpected = last.1 + 1 := by
    unfold flush
    rw [h]
  refine ⟨?_, fun k hk => ?_⟩
  · rw [Std.ExtTreeMap.mem_iff_isSome_getElem?,
      Std.ExtTreeMap.mem_toList_iff_getElem?_eq_some.mp hmem]
    rfl
  · obtain ⟨c, hc⟩ := Option.isSome_iff_exists.mp (Std.ExtTreeMap.mem_iff_isSome_getElem?.mp hk)
    have hlt := s.flush_spec.2.2.1 k c hc
    omega

theorem flush?_isSome (hwords : ∀ k ∈ s.buffered, k ≤ U64_MAX) :
    s.flush?.isSome = true ↔ U64_MAX ∉ s.buffered := by
  unfold flush?
  cases hlast : s.buffered.toList.getLast? with
  | none =>
    have hempty : s.buffered = ∅ :=
      Std.ExtTreeMap.toList_eq_nil_iff.mp (List.getLast?_eq_none_iff.mp hlast)
    simp [hempty]
  | some last =>
    obtain ⟨hmem, hlargest⟩ := last_largest hlast
    have hword := hwords last.1 hmem
    simp only [Option.isSome_map, increment]
    constructor
    · intro hsome hmax
      have hle := hlargest U64_MAX hmax
      rw [if_neg (by omega)] at hsome
      cases hsome
    · intro hnot
      have hne : last.1 ≠ U64_MAX := by
        intro heq
        exact hnot (heq ▸ hmem)
      rw [if_pos (by omega)]
      rfl

theorem flush?_eq (h : s.flush? = some (out, s')) :
    s.flush.1 = out.map Prod.snd ∧ s.flush.2.2 = s' := by
  cases hlast : s.buffered.toList.getLast? with
  | some last =>
    rw [flush?, hlast] at h
    obtain ⟨nextExpected, hnext, heq⟩ := Option.map_eq_some_iff.mp h
    cases heq
    rw [flush, hlast, ← (increment_eq_some.mp hnext).2]
    exact ⟨rfl, rfl⟩
  | none =>
    rw [flush?, hlast] at h
    cases h
    rw [flush, hlast]
    exact ⟨rfl, rfl⟩

theorem flush?_comes (hs : s.nextExpected ≤ U64_MAX) (hexpects : 1 ≤ s.nextExpected)
    (hahead : ∀ k ∈ s.buffered, s.nextExpected < k) (h : s.flush? = some (out, s')) : s.Comes out s' := by
  unfold flush? at h
  split at h
  · next last hlast =>
    obtain ⟨nextExpected, hnext, heq⟩ := Option.map_eq_some_iff.mp h
    obtain ⟨hlt, rfl⟩ := increment_eq_some.mp hnext
    cases heq
    have hmem : ∀ x ∈ s.buffered.toList, s.nextExpected < x.1 := by
      intro x hx
      refine hahead x.1 ?_
      rw [Std.ExtTreeMap.mem_iff_isSome_getElem?, Std.ExtTreeMap.mem_toList_iff_getElem?_eq_some.mp hx]
      rfl
    refine ⟨fun x hx => ?_, ⟨Nat.succ_pos _, hlt, by simp, by simp⟩, fun released hcounts => ?_⟩
    · have hx := hmem x hx
      omega
    · have hsorted : (s.buffered.toList.map Prod.fst).Pairwise (· < ·) :=
        List.pairwise_map.mpr s.toList_sorted
      have hall := hcounts.releaseAll hsorted fun k hk => by
        obtain ⟨x, hx, rfl⟩ := List.mem_map.mp hk
        exact Nat.le_of_lt (hmem x hx)
      rwa [List.getLast?_map, hlast] at hall
  · next hlast =>
    cases h
    have hempty : s.buffered = ∅ :=
      Std.ExtTreeMap.toList_eq_nil_iff.mp (List.getLast?_eq_none_iff.mp hlast)
    exact ⟨nofun, ⟨hexpects, hs, by simp [hempty], by simp [hempty]⟩, fun _ hcounts => hcounts⟩

theorem flushStale?_isSome (hs : s.Fits) :
    (s.flushStale? gapTimeout now).isSome = true ↔ ¬ s.OverrunsStale gapTimeout now := by
  unfold flushStale? OverrunsStale
  split
  · next hstale => rw [flush?_isSome hs.words, and_iff_right hstale]
  · next hfresh => exact iff_of_true rfl fun h => hfresh h.1

theorem flushStale?_eq (h : s.flushStale? gapTimeout now = some (out, s')) :
    (s.flushStale gapTimeout now).1 = out.map Prod.snd ∧ (s.flushStale gapTimeout now).2 = s' := by
  unfold flushStale? at h
  unfold flushStale
  split at h
  · next hstale =>
    rw [if_pos hstale]
    exact flush?_eq h
  · next hfresh =>
    rw [if_neg hfresh]
    cases h
    exact ⟨rfl, rfl⟩

theorem flushStale?_comes (hs : s.Fits) (h : s.flushStale? gapTimeout now = some (out, s')) :
    s.Comes out s' := by
  unfold flushStale? at h
  split at h
  · exact flush?_comes hs.word hs.expects hs.ahead h
  · cases h
    exact .refl hs

/-! ### A stretch that is complete -/

theorem drain?_isSome (fuel : Nat) (s : SourceState κ) (hfuel : s.buffered.size ≤ fuel)
    (hword : s.nextExpected ≤ U64_MAX) :
    (s.drain? fuel).isSome = true ↔ ¬ ∀ k, s.nextExpected ≤ k → k ≤ U64_MAX → k ∈ s.buffered := by
  induction fuel generalizing s with
  | zero =>
    have hempty : s.buffered = ∅ := by
      apply Std.ExtTreeMap.isEmpty_iff.mp
      rw [Std.ExtTreeMap.isEmpty_eq_size_beq_zero]
      simpa using hfuel
    refine iff_of_true rfl fun hall => ?_
    have hmem := hall s.nextExpected (Nat.le_refl _) hword
    simp [hempty] at hmem
  | succ fuel ih =>
    unfold drain?
    cases hnext : s.buffered[s.nextExpected]? with
    | none =>
      refine iff_of_true rfl fun hall => ?_
      have hmem := hall s.nextExpected (Nat.le_refl _) hword
      rw [Std.ExtTreeMap.mem_iff_isSome_getElem?, hnext] at hmem
      cases hmem
    | some content =>
      have hmem : s.nextExpected ∈ s.buffered := by
        rw [Std.ExtTreeMap.mem_iff_isSome_getElem?, hnext]
        rfl
      simp only
      unfold increment
      split
      · next hlt =>
        have hsize : (s.buffered.erase s.nextExpected).size ≤ fuel := by
          simp only [Std.ExtTreeMap.size_erase, Std.ExtTreeMap.contains_iff_mem.mpr hmem, if_true]
          omega
        have hrest := ih { s with
          buffered := s.buffered.erase s.nextExpected
          nextExpected := s.nextExpected + 1 } hsize hlt
        rw [Option.bind_some, Option.isSome_map]
        refine hrest.trans (not_congr ?_)
        constructor
        · intro hall k hle hk
          rcases Nat.eq_or_lt_of_le hle with rfl | hlt
          · exact hmem
          · exact Std.ExtTreeMap.mem_of_mem_erase (hall k hlt hk)
        · intro hall k hle hk
          have hle' : s.nextExpected + 1 ≤ k := hle
          exact Std.ExtTreeMap.mem_erase.mpr ⟨by simp; omega, hall k (by omega) hk⟩
      · next hnot =>
        refine iff_of_false (by simp) fun hlack => hlack fun k hle hk => ?_
        have heq : k = s.nextExpected := by omega
        exact heq ▸ hmem

theorem drain?_comes (fuel : Nat) (s : SourceState κ) (h : s.drain? fuel = some (out, s')) :
    (s.drain fuel).1 = out.map Prod.snd ∧ (s.drain fuel).2 = s' ∧
      (s.nextExpected ≤ U64_MAX → s'.nextExpected ≤ U64_MAX) ∧ (∀ x ∈ out, s.nextExpected ≤ x.1) ∧
        ∀ released, Counts s.nextExpected released →
          Counts s'.nextExpected ((out.map Prod.fst).reverse ++ released) := by
  induction fuel generalizing s out with
  | zero =>
    cases h
    exact ⟨rfl, rfl, id, nofun, fun _ hcounts => hcounts⟩
  | succ fuel ih =>
    cases hnext : s.buffered[s.nextExpected]? with
    | some content =>
      rw [drain?, hnext] at h
      obtain ⟨nextExpected, hincrement, h⟩ := Option.bind_eq_some_iff.mp h
      obtain ⟨hlt, rfl⟩ := increment_eq_some.mp hincrement
      obtain ⟨⟨out', s''⟩, hrest, h⟩ := Option.map_eq_some_iff.mp h
      cases h
      obtain ⟨hout, hstate, hword, hle, hcounts⟩ := ih _ hrest
      rw [drain, hnext]
      refine ⟨?_, hstate, fun _ => hword hlt, ?_, fun released hbefore => ?_⟩
      · exact congrArg (content :: ·) hout
      · intro x hx
        rcases List.mem_cons.mp hx with rfl | hx
        · exact Nat.le_refl _
        · exact Nat.le_of_succ_le (hle x hx)
      · have hall := hcounts _ (hbefore.release (Nat.le_refl _))
        rwa [List.map_cons, List.reverse_cons, List.append_assoc]
    | none =>
      rw [drain?, hnext] at h
      cases h
      rw [drain, hnext]
      exact ⟨rfl, rfl, id, nofun, fun _ hcounts => hcounts⟩

/-! ### A message -/

theorem sequence?_isSome (hs : s.Fits) (hseq : seq ≤ U64_MAX) :
    (s.sequence? maxPerSource seq content now).isSome = true ↔ ¬ s.Overruns maxPerSource seq := by
  unfold sequence? Overruns
  split
  · rw [Option.isSome_map]
    exact flush?_isSome hs.words
  · split
    · exact iff_of_true rfl id
    · split
      · next hnext =>
        subst hnext
        unfold increment
        split
        · next hlt =>
          rw [Option.bind_some, Option.isSome_map]
          exact drain?_isSome _ { s with nextExpected := s.nextExpected + 1 } (Nat.le_refl _) hlt
        · next hnot => exact iff_of_false nofun fun hlack => hlack fun k hlt hk => absurd hlt (by omega)
      · next hne =>
        have hsize : (s.buffered.insert seq content).size =
            if seq ∈ s.buffered then s.buffered.size else s.buffered.size + 1 :=
          Std.ExtTreeMap.size_insert
        rw [← hsize]
        simp only
        split
        · next hfull =>
          rw [and_iff_right hfull]
          refine (flush?_isSome fun k hk => ?_).trans (not_congr ?_)
          · rcases Std.ExtTreeMap.mem_insert.mp hk with heq | hold
            · exact (Nat.compare_eq_eq.mp heq) ▸ hseq
            · exact hs.words k hold
          · rw [Std.ExtTreeMap.mem_insert, Nat.compare_eq_eq]
        · next hroom => exact iff_of_true rfl fun h => hroom h.1

theorem sequence?_eq (h : s.sequence? maxPerSource seq content now = some (out, s')) :
    s.sequence maxPerSource seq content now = (out.map Prod.snd, s') := by
  unfold sequence? at h
  unfold sequence
  split at h
  · next hrestart =>
    obtain ⟨⟨out', s''⟩, hflush, h⟩ := Option.map_eq_some_iff.mp h
    cases h
    obtain ⟨hout, rfl⟩ := flush?_eq hflush
    rw [if_pos hrestart, hout, List.map_append]
    rfl
  · next hrestart =>
    rw [if_neg hrestart]
    split at h
    · next hlate =>
      cases h
      rw [if_pos hlate]
      rfl
    · next hlate =>
      rw [if_neg hlate]
      split at h
      · next hnext =>
        obtain ⟨nextExpected, hincrement, h⟩ := Option.bind_eq_some_iff.mp h
        obtain ⟨-, rfl⟩ := increment_eq_some.mp hincrement
        obtain ⟨⟨out', s''⟩, hdrain, h⟩ := Option.map_eq_some_iff.mp h
        cases h
        obtain ⟨hout, rfl, -⟩ := drain?_comes _ _ hdrain
        rw [if_pos hnext]
        simp only [hout]
        rfl
      · next hnext =>
        rw [if_neg hnext]
        simp only at h ⊢
        split at h
        · next hfull =>
          obtain ⟨hout, rfl⟩ := flush?_eq h
          rw [if_pos hfull, hout]
        · next hroom =>
          cases h
          rw [if_neg hroom]
          rfl

theorem drained_comes (hs : s.Fits) (hlt : s.nextExpected < U64_MAX) {gapSince : Option Instant}
    (h : drain? s.buffered.size { s with nextExpected := s.nextExpected + 1 } = some (out, s')) :
    s.Comes ((s.nextExpected, content) :: out) { s' with gapSince } := by
  have hahead : ∀ k c, s.buffered[k]? = some c → s.nextExpected + 1 ≤ k := fun k c hk =>
    hs.ahead k (Std.ExtTreeMap.mem_iff_isSome_getElem?.mpr (by rw [hk]; rfl))
  obtain ⟨-, hstate, hword, hle, hcounts⟩ := drain?_comes _ _ h
  obtain ⟨-, hgrows, -, hleft⟩ :=
    drain_spec s.buffered.size { s with nextExpected := s.nextExpected + 1 } hahead
  have hgone := drain_complete _ { s with nextExpected := s.nextExpected + 1 } (Nat.le_refl _)
  rw [hstate] at hgrows hleft hgone
  have hexpects := hs.expects
  refine ⟨?_, ⟨Nat.le_trans (Nat.succ_pos _) hgrows, hword hlt, fun k hk => ?_, fun k hk => ?_⟩, ?_⟩
  · intro x hx
    rcases List.mem_cons.mp hx with rfl | hx
    · exact Nat.ne_of_gt hexpects
    · exact Nat.ne_of_gt (Nat.le_trans (Nat.succ_pos _) (hle x hx))
  · obtain ⟨c, hc⟩ := Option.isSome_iff_exists.mp (Std.ExtTreeMap.mem_iff_isSome_getElem?.mp hk)
    refine Nat.lt_of_le_of_ne (hleft k c hc).2 ?_
    rintro rfl
    rw [hgone] at hc
    cases hc
  · obtain ⟨c, hc⟩ := Option.isSome_iff_exists.mp (Std.ExtTreeMap.mem_iff_isSome_getElem?.mp hk)
    refine hs.words k (Std.ExtTreeMap.mem_iff_isSome_getElem?.mpr ?_)
    rw [(hleft k c hc).1]
    rfl
  · intro released hbefore
    have hall := hcounts _ (hbefore.release (Nat.le_refl _))
    rwa [List.map_cons, List.reverse_cons, List.append_assoc]

theorem sequence?_comes (hs : s.Fits) (hseq : seq ≤ U64_MAX)
    (h : s.sequence? maxPerSource seq content now = some (out, s')) : s.Comes out s' := by
  unfold sequence? at h
  split at h
  · next hrestart =>
    obtain ⟨rfl, -⟩ := hrestart
    obtain ⟨⟨out', s''⟩, hflush, h⟩ := Option.map_eq_some_iff.mp h
    cases h
    have hflushed := flush?_comes hs.word hs.expects hs.ahead hflush
    obtain ⟨-, hstate⟩ := flush?_eq hflush
    have hempty : s''.buffered = ∅ := hstate ▸ s.flush_spec.2.1
    refine ⟨?_, ⟨Nat.succ_pos _, show 2 ≤ U64_MAX by decide, by simp [hempty], by simp [hempty]⟩, ?_⟩
    · intro x hx
      rcases List.mem_append.mp hx with hx | hx
      · exact hflushed.numbered x hx
      · rw [List.mem_singleton.mp hx]
        nofun
    · intro released hbefore
      rw [List.map_append, List.reverse_append]
      exact .restart _
  · split at h
    · cases h
      exact .refl hs
    · split at h
      · next hnext =>
        subst hnext
        obtain ⟨nextExpected, hincrement, h⟩ := Option.bind_eq_some_iff.mp h
        obtain ⟨hlt, rfl⟩ := increment_eq_some.mp hincrement
        obtain ⟨⟨out', s''⟩, hdrain, h⟩ := Option.map_eq_some_iff.mp h
        cases h
        exact drained_comes hs hlt hdrain
      · next hlate hne =>
        have hahead : ∀ k ∈ s.buffered.insert seq content, s.nextExpected < k := by
          intro k hk
          rcases Std.ExtTreeMap.mem_insert.mp hk with heq | hold
          · rw [← Nat.compare_eq_eq.mp heq]
            omega
          · exact hs.ahead k hold
        simp only at h
        split at h
        · have hheld : SourceState.Comes { s with
              buffered := s.buffered.insert seq content
              gapSince := s.gapSince.or (some now) } out s' := flush?_comes hs.word hs.expects hahead h
          exact { hheld with }
        · cases h
          refine ⟨nofun, ⟨hs.expects, hs.word, hahead, fun k hk => ?_⟩, fun _ hcounts => hcounts⟩
          rcases Std.ExtTreeMap.mem_insert.mp hk with heq | hold
          · exact (Nat.compare_eq_eq.mp heq) ▸ hseq
          · exact hs.words k hold

end SourceState

/-! ## All sources -/

namespace ReorderBuffer

variable {b b' : ReorderBuffer κ} {source : NodeId} {seq : Nat} {content : κ} {now : Instant}

theorem acceptAt?_eq {out : List (Nat × κ)} (h : b.acceptAt? source seq content now = some (out, b')) :
    b.acceptAt source seq content now = (out.map Prod.snd, b') := by
  unfold acceptAt? at h
  unfold acceptAt
  split at h
  · next hzero =>
    rw [if_pos hzero]
    cases hget : b.sources.get source with
    | some state =>
      rw [hget] at h
      obtain ⟨⟨flushed, state'⟩, hflush, h⟩ := Option.map_eq_some_iff.mp h
      cases h
      obtain ⟨hout, hstate⟩ := SourceState.flushStale?_eq hflush
      simp only [hout, hstate, List.map_append]
      rfl
    | none =>
      rw [hget] at h
      cases h
      rfl
  · next hzero =>
    rw [if_neg hzero]
    obtain ⟨⟨flushed, state'⟩, hflush, h⟩ := Option.bind_eq_some_iff.mp h
    obtain ⟨⟨sequenced, state''⟩, hsequence, h⟩ := Option.map_eq_some_iff.mp h
    cases h
    obtain ⟨hout, hstate⟩ := SourceState.flushStale?_eq hflush
    have hsequenced := SourceState.sequence?_eq hsequence
    simp only at hout hstate hsequenced
    simp only [hout, hstate, hsequenced, List.map_append]

variable {out : List (NodeId × List (Nat × κ))}

theorem flushExpired?_of_get (h : b.flushExpired? now = some (out, b')) {s : SourceState κ}
    (hget : b.sources.get source = some s) :
    ∃ flushed, s.flushStale? b.gapTimeout now = some flushed := by
  unfold flushExpired? at h
  obtain ⟨hall, -⟩ := Option.ite_none_right_eq_some.mp h
  have hentry : (⟨source, s⟩ : Σ _ : NodeId, SourceState κ) ∈ b.sources.entries := Table.get_eq_some_iff.mp hget
  exact Option.isSome_iff_exists.mp (List.all_eq_true.mp hall _ hentry)

theorem flushExpired?_eq (h : b.flushExpired? now = some (out, b')) :
    b.flushExpired now = (out.map fun e => (e.1, e.2.map Prod.snd), b') := by
  have hcomes : ∀ e ∈ b.sources.entries, ∃ flushed, e.2.flushStale? b.gapTimeout now = some flushed :=
    fun e he => flushExpired?_of_get h (Table.get_eq_some_iff.mpr he)
  unfold flushExpired? at h
  obtain ⟨-, h⟩ := Option.ite_none_right_eq_some.mp h
  cases h
  unfold flushExpired
  refine Prod.ext ?_ ?_
  · simp only [List.map_filterMap]
    refine List.filterMap_congr fun e he => ?_
    obtain ⟨⟨out, s'⟩, hflushed⟩ := hcomes e he
    obtain ⟨hout, -⟩ := SourceState.flushStale?_eq hflushed
    rw [hflushed, hout]
    cases out <;> rfl
  · have hvals : (b.sources.mapVals fun _ s => (s.flushStale b.gapTimeout now).2) =
        b.sources.mapVals fun _ s => ((s.flushStale? b.gapTimeout now).getD ([], s)).2 := by
      refine Table.mapVals_congr fun source s hget => ?_
      obtain ⟨⟨out, s'⟩, hflushed⟩ := hcomes ⟨source, s⟩ (Table.get_eq_some_iff.mp hget)
      simp only at hflushed
      rw [hflushed, (SourceState.flushStale?_eq hflushed).2]
      rfl
    rw [hvals]

theorem handle?_eq {a : Arrival κ} (h : b.handle? a = some (out, b')) :
    b.handle a = (out.map fun e => (e.1, e.2.map Prod.snd), b') := by
  cases a with
  | message source seq content now =>
    obtain ⟨⟨accepted, b''⟩, haccepted, h⟩ := Option.map_eq_some_iff.mp h
    cases h
    rw [handle, acceptAt?_eq haccepted]
    rfl
  | poll now => exact flushExpired?_eq h

theorem stateOf_fits (hfits : ∀ source s, b.sources.get source = some s → s.Fits) (source : NodeId)
    (now : Instant) : (b.stateOf source now).Fits := by
  unfold stateOf
  cases hget : b.sources.get source with
  | none => exact ⟨Nat.le_refl 1, show 1 ≤ U64_MAX by decide, by simp [SourceState.new], by simp [SourceState.new]⟩
  | some s => exact hfits source s hget

theorem get_of_evict {incoming : NodeId} {s : SourceState κ}
    (h : (b.evictSourcesIfNeeded incoming).sources.get source = some s) : b.sources.get source = some s := by
  rw [← h]
  exact (evict_get fun _ => Table.contains_iff.mpr ⟨s, h⟩).symm

end ReorderBuffer

theorem SourceState.Fits.active {s : SourceState κ} (h : s.Fits) (now : Instant) :
    SourceState.Fits { s with lastActivity := now } := { h with }

namespace ReorderBuffer

variable {b : ReorderBuffer κ}

/-- A call has a result unless it releases the largest number. -/
theorem handle?_isSome (hfits : ∀ source s, b.sources.get source = some s → s.Fits) (call : Call κ) :
    (b.handle? call.arrival).isSome = true ↔ ¬ b.Overruns call.arrival := by
  cases call with
  | accept source seq content now =>
    have hword : seq.toNat ≤ U64_MAX := Nat.le_pred_of_lt seq.toNat_lt
    show ((b.acceptAt? source seq.toNat content now).map _).isSome = true ↔ _
    rw [Option.isSome_map]
    unfold acceptAt? Overruns
    simp only [Call.arrival]
    split
    · cases hget : b.sources.get source with
      | none => exact iff_of_true rfl (by simp)
      | some s =>
        rw [Option.isSome_map]
        refine (SourceState.flushStale?_isSome ((hfits source s hget).active now)).trans (not_congr ?_)
        exact ⟨fun hstale => ⟨s, rfl, hstale⟩, by rintro ⟨_, ⟨⟩, hstale⟩; exact hstale⟩
    · have hevicted : ∀ other s, (b.evictSourcesIfNeeded source).sources.get other = some s → s.Fits :=
        fun other s hget => hfits other s (get_of_evict hget)
      have hstate := (stateOf_fits hevicted source now).active now
      let s : SourceState κ := { (b.evictSourcesIfNeeded source).stateOf source now with lastActivity := now }
      have hstale : (s.flushStale? (b.evictSourcesIfNeeded source).gapTimeout now).isSome = true ↔
          ¬ s.OverrunsStale (b.evictSourcesIfNeeded source).gapTimeout now :=
        SourceState.flushStale?_isSome hstate
      simp only [not_or]
      rw [← hstale]
      cases hflush : SourceState.flushStale? _ _ _ with
      | none => exact iff_of_false (by simp) fun h => Bool.false_ne_true h.1
      | some flushed =>
        have hcomes := SourceState.flushStale?_comes hstate hflush
        rw [Option.bind_some, Option.isSome_map, (SourceState.flushStale?_eq hflush).2,
          Option.isSome_some, and_iff_right rfl]
        exact SourceState.sequence?_isSome hcomes.fits hword
  | flushExpired now =>
    show (b.flushExpired? now).isSome = true ↔ _
    have hall : (b.flushExpired? now).isSome = true ↔
        ∀ e ∈ b.sources.entries, (e.2.flushStale? b.gapTimeout now).isSome = true := by
      unfold flushExpired?
      split
      · next hall => exact iff_of_true rfl (List.all_eq_true.mp hall)
      · next hnot => exact iff_of_false (by simp) fun hall => hnot (List.all_eq_true.mpr hall)
    rw [hall]
    constructor
    · rintro hcomes ⟨source, s, hget, hstale⟩
      have hentry : (⟨source, s⟩ : Σ _ : NodeId, SourceState κ) ∈ b.sources.entries :=
        Table.get_eq_some_iff.mp hget
      exact (SourceState.flushStale?_isSome (hfits source s hget)).mp (hcomes _ hentry) hstale
    · intro hnone e he
      have hget : b.sources.get e.1 = some e.2 := Table.get_eq_some_iff.mpr he
      exact (SourceState.flushStale?_isSome (hfits e.1 e.2 hget)).mpr fun hstale =>
        hnone ⟨e.1, e.2, hget, hstale⟩

end ReorderBuffer

/-! ## Runs -/

namespace Counted

variable {m m' : Counted κ} {source other : NodeId} {out : List (Nat × κ)}

theorem filter_numbered (hnumbered : ∀ x ∈ out, x.1 ≠ 0) :
    (out.map Prod.fst).filter (· ≠ 0) = out.map Prod.fst := by
  refine List.filter_eq_self.mpr fun n hn => ?_
  obtain ⟨x, hx, rfl⟩ := List.mem_map.mp hn
  exact decide_eq_true (hnumbered x hx)

theorem numbers_self (hnumbered : ∀ x ∈ out, x.1 ≠ 0) :
    numbers source [(source, out)] = (out.map Prod.fst).reverse := by
  simp only [numbers, List.filter_cons, List.filter_nil, decide_true, if_true, List.flatMap_cons,
    List.flatMap_nil, List.append_nil, filter_numbered hnumbered]

theorem numbers_unnumbered (content : κ) :
    numbers source [(source, out ++ [(0, content)])] = numbers source [(source, out)] := by
  simp [numbers]

theorem numbers_other (hne : other ≠ source) : numbers other [(source, out)] = [] := by
  simp [numbers, hne.symm]

/-- The numbers fit, and what was released is counted. -/
structure Sound (m : Counted κ) : Prop where
  fits : ∀ source s, m.buffer.sources.get source = some s → s.Fits
  counts : ∀ source s, m.buffer.sources.get source = some s → Counts s.nextExpected (m.released source)

namespace Sound

theorem new (maxPerSource maxSources : Nat) (gapTimeout : Duration) :
    (Counted.new maxPerSource maxSources gapTimeout : Counted κ).Sound :=
  ⟨by simp [Counted.new, ReorderBuffer.new], by simp [Counted.new, ReorderBuffer.new]⟩

theorem shuffle (h : m.Sound) {t : Table NodeId (SourceState κ)} (same : m.buffer.sources.Shuffle t) :
    ({ m with buffer.sources := t } : Counted κ).Sound where
  fits source s hget := h.fits source s ((same.get source).trans hget)
  counts source s hget := h.counts source s ((same.get source).trans hget)

theorem put (h : m.Sound) {b : ReorderBuffer κ}
    (hkept : ∀ other s, b.sources.get other = some s → m.buffer.sources.get other = some s)
    {s s' : SourceState κ} (hcomes : s.Comes out s')
    (hcounts : Counts s.nextExpected (if b.sources.contains source then m.released source else [])) :
    Sound ⟨{ b with sources := b.sources.insert source s' }, fun other => numbers other [(source, out)] ++
      if b.sources.contains other then m.released other else []⟩ where
  fits := by
    intro other st hget
    rw [Table.get_insert] at hget
    split at hget
    · cases hget
      exact hcomes.fits
    · exact h.fits other st (hkept other st hget)
  counts := by
    intro other st hget
    rw [Table.get_insert] at hget
    split at hget
    · next heq =>
      cases hget
      subst heq
      simp only [numbers_self hcomes.numbered]
      exact hcomes.counts _ hcounts
    · next hne =>
      simp only [numbers_other hne, Table.contains_iff.mpr ⟨st, hget⟩, if_true, List.nil_append]
      exact h.counts other st (hkept other st hget)

variable {now : Instant} {b' : ReorderBuffer κ}

theorem accept (h : m.Sound) {seq : Nat} (hseq : seq ≤ U64_MAX) {content : κ}
    (haccept : m.buffer.acceptAt? source seq content now = some (out, b')) :
    Sound ⟨b', fun other => numbers other [(source, out)] ++
      if (roomFor m.buffer (.message source seq content now)).sources.contains other
        then m.released other else []⟩ := by
  unfold ReorderBuffer.acceptAt? at haccept
  show Sound ⟨b', fun other => numbers other [(source, out)] ++
    if (if seq = 0 then m.buffer else m.buffer.evictSourcesIfNeeded source).sources.contains other
      then m.released other else []⟩
  split at haccept
  · next hzero =>
    subst hzero
    rw [if_pos rfl]
    split at haccept
    · next s hget =>
      obtain ⟨⟨flushed, s'⟩, hflush, heq⟩ := Option.map_eq_some_iff.mp haccept
      cases heq
      have hcomes := SourceState.flushStale?_comes ((h.fits source s hget).active now) hflush
      have hput := h.put (fun _ _ hother => hother) hcomes (by
        rw [if_pos (Table.contains_iff.mpr ⟨s, hget⟩)]
        exact h.counts source s hget)
      refine ⟨hput.fits, fun other st hother => ?_⟩
      have hcounts := hput.counts other st hother
      by_cases heq : other = source
      · subst heq
        simp only at hcounts ⊢
        rwa [numbers_unnumbered]
      · simp only at hcounts ⊢
        rw [numbers_other heq] at hcounts ⊢
        exact hcounts
    · cases haccept
      refine ⟨h.fits, fun other st hother => ?_⟩
      have hnone : numbers other [(source, [(0, content)])] = [] := by
        by_cases heq : other = source
        · simp [numbers]
        · exact numbers_other heq
      simp only [hnone, Table.contains_iff.mpr ⟨st, hother⟩, if_true, List.nil_append]
      exact h.counts other st hother
  · next hzero =>
    rw [if_neg hzero]
    obtain ⟨⟨flushed, s'⟩, hflush, haccept⟩ := Option.bind_eq_some_iff.mp haccept
    obtain ⟨⟨sequenced, s''⟩, hsequence, heq⟩ := Option.map_eq_some_iff.mp haccept
    cases heq
    have hkept : ∀ other s, (m.buffer.evictSourcesIfNeeded source).sources.get other = some s →
        m.buffer.sources.get other = some s := fun other s hget => ReorderBuffer.get_of_evict hget
    have hevicted : ∀ other s, (m.buffer.evictSourcesIfNeeded source).sources.get other = some s → s.Fits :=
      fun other s hget => h.fits other s (hkept other s hget)
    have hstate := (ReorderBuffer.stateOf_fits hevicted source now).active now
    have hflushed := SourceState.flushStale?_comes hstate hflush
    refine h.put hkept (hflushed.trans (SourceState.sequence?_comes hflushed.fits hseq hsequence)) ?_
    show Counts ((m.buffer.evictSourcesIfNeeded source).stateOf source now).nextExpected _
    unfold ReorderBuffer.stateOf
    cases hget : (m.buffer.evictSourcesIfNeeded source).sources.get source with
    | none =>
      rw [if_neg (by rw [Table.contains, hget]; simp)]
      exact .nil
    | some s =>
      rw [if_pos (Table.contains_iff.mpr ⟨s, hget⟩)]
      exact h.counts source s (hkept source s hget)

theorem numbers_poll {b : ReorderBuffer κ} {handled : List (NodeId × List (Nat × κ))}
    (h : b.flushExpired? now = some (handled, b')) {s s' : SourceState κ}
    (hget : b.sources.get source = some s) (hflush : s.flushStale? b.gapTimeout now = some (out, s'))
    (hnumbered : ∀ x ∈ out, x.1 ≠ 0) :
    numbers source handled = (out.map Prod.fst).reverse := by
  unfold ReorderBuffer.flushExpired? at h
  obtain ⟨-, h⟩ := Option.ite_none_right_eq_some.mp h
  cases h
  have hfilter : (b.sources.entries.filterMap fun e =>
      let out := ((e.2.flushStale? b.gapTimeout now).getD ([], e.2)).1
      if out.isEmpty then none else some (e.1, out)).filter (fun e => e.1 = source) =
      (b.sources.entries.filter (·.1 = source)).filterMap fun e =>
        let out := ((e.2.flushStale? b.gapTimeout now).getD ([], e.2)).1
        if out.isEmpty then none else some (e.1, out) := by
    rw [List.filter_filterMap, List.filterMap_filter]
    refine List.filterMap_congr fun e _ => ?_
    by_cases heq : e.1 = source <;> simp only [heq] <;> split <;> simp [heq]
  unfold numbers
  rw [hfilter, Table.entries_filter_key, hget]
  simp only [Option.map_some, Option.toList_some, List.filterMap_cons, hflush, Option.getD_some]
  split
  · next hnone =>
    have hempty : out = [] := by
      cases out with
      | nil => rfl
      | cons x rest => cases hnone
    rw [hempty]
    rfl
  · next e he =>
    obtain ⟨-, rfl⟩ : out.isEmpty = false ∧ (source, out) = e := by
      split at he
      · cases he
      · next hfull => exact ⟨Bool.eq_false_iff.mpr hfull, Option.some.inj he⟩
    simp only [List.filterMap_nil, List.flatMap_cons, List.flatMap_nil, List.append_nil,
      filter_numbered hnumbered]

theorem poll (h : m.Sound) {handled : List (NodeId × List (Nat × κ))}
    (hpoll : m.buffer.flushExpired? now = some (handled, b')) :
    Sound ⟨b', fun other => numbers other handled ++
      if m.buffer.sources.contains other then m.released other else []⟩ := by
  have hstates : ∀ source s', b'.sources.get source = some s' → ∃ s out,
      m.buffer.sources.get source = some s ∧ s.flushStale? m.buffer.gapTimeout now = some (out, s') := by
    intro source s' hget'
    have hcomes : ∀ s, m.buffer.sources.get source = some s →
        ∃ flushed, s.flushStale? m.buffer.gapTimeout now = some flushed :=
      fun s hget => ReorderBuffer.flushExpired?_of_get hpoll hget
    unfold ReorderBuffer.flushExpired? at hpoll
    obtain ⟨-, heq⟩ := Option.ite_none_right_eq_some.mp hpoll
    cases heq
    obtain ⟨s, hget, hs⟩ := Option.map_eq_some_iff.mp ((Table.get_mapVals _ _ _).symm.trans hget')
    obtain ⟨⟨out, s''⟩, hflush⟩ := hcomes s hget
    rw [hflush] at hs
    cases hs
    exact ⟨s, out, hget, hflush⟩
  refine ⟨fun source s' hget' => ?_, fun source s' hget' => ?_⟩
  · obtain ⟨s, out, hget, hflush⟩ := hstates source s' hget'
    exact (SourceState.flushStale?_comes (h.fits source s hget) hflush).fits
  · obtain ⟨s, out, hget, hflush⟩ := hstates source s' hget'
    have hcomes := SourceState.flushStale?_comes (h.fits source s hget) hflush
    simp only [numbers_poll hpoll hget hflush hcomes.numbered, Table.contains_iff.mpr ⟨s, hget⟩, if_true]
    exact hcomes.counts _ (h.counts source s hget)

theorem step (h : m.Sound) {call : Call κ} (hstep : m.step call = some m') : m'.Sound := by
  obtain ⟨⟨handled, b'⟩, hhandle, rfl⟩ := Option.map_eq_some_iff.mp hstep
  cases call with
  | accept source seq content now =>
    obtain ⟨⟨out, b''⟩, haccept, heq⟩ := Option.map_eq_some_iff.mp hhandle
    cases heq
    exact h.accept (Nat.le_pred_of_lt seq.toNat_lt) haccept
  | flushExpired now => exact h.poll hhandle

theorem exact (h : m.Sound) : m.Exact := fun source s hget => (h.counts source s hget).largest

end Sound

/-- In every reachable state the numbers fit. -/
theorem Reached.sound {maxPerSource maxSources : Nat} {gapTimeout : Duration}
    (h : Reached maxPerSource maxSources gapTimeout m) : m.Sound := by
  induction h with
  | new => exact .new _ _ _
  | shuffle _ t same ih => exact ih.shuffle same
  | step _ next ih => exact ih.step next

end Counted

open Counted in
/-- **Sequence arithmetic.** In every state that calls lead to, the number expected
next of a source is one more than the largest number released in its current
stream, and a call passes the largest `u64` exactly if it releases a message with
that number. -/
theorem counts_exactly {maxPerSource maxSources : Nat} {gapTimeout : Duration} {m : Counted κ}
    (reached : Reached maxPerSource maxSources gapTimeout m) :
    m.Exact ∧ ∀ call, m.step call = none ↔ m.buffer.Overruns call.arrival := by
  have hsound := reached.sound
  refine ⟨hsound.exact, fun call => ?_⟩
  rw [step, Option.map_eq_none_iff, ← Option.not_isSome_iff_eq_none,
    ReorderBuffer.handle?_isSome hsound.fits, not_not]

namespace Counted

/-- The calls one after the other; one that does not come out is passed over. -/
def calls (m : Counted κ) : List (Call κ) → Counted κ
  | [] => m
  | call :: rest => calls ((m.step call).getD m) rest

theorem Reached.calls {maxPerSource maxSources : Nat} {gapTimeout : Duration} {m : Counted κ}
    (h : Reached maxPerSource maxSources gapTimeout m) (list : List (Call κ)) :
    Reached maxPerSource maxSources gapTimeout (m.calls list) := by
  induction list generalizing m with
  | nil => exact h
  | cons call rest ih =>
    refine ih ?_
    cases hstep : m.step call with
    | none => exact h
    | some m' => exact h.step hstep

def carol : NodeId := ⟨"c"⟩

def default : Counted String := .new REORDER_MAX_PER_SOURCE REORDER_MAX_SOURCES REORDER_GAP_TIMEOUT

end Counted

open Counted in
theorem counts_exactly_two :
    let m := Counted.default.calls [.accept carol 2 "b" 0, .accept carol 1 "a" 1]
    ((m.buffer.sources.get carol).map (·.nextExpected)) = some 3 ∧ m.released carol = [2, 1] ∧ m.Exact ∧
      ∀ call, m.step call = none ↔ m.buffer.Overruns call.arrival :=
  ⟨by decide +kernel, by decide +kernel, counts_exactly (Reached.new.calls _)⟩

open Counted in
/-- The largest number is held until a poll finds the gap open for too long. -/
theorem largest_overflows : ¬ ∀ m : Counted String,
    Reached REORDER_MAX_PER_SOURCE REORDER_MAX_SOURCES REORDER_GAP_TIMEOUT m →
      ∀ call, m.step call ≠ none := by
  intro h
  refine h (Counted.default.calls [.accept carol 18446744073709551615 "z" 0]) (Reached.new.calls _)
    (.flushExpired REORDER_GAP_TIMEOUT) ?_
  rw [← Option.not_isSome_iff_eq_none]
  decide +kernel

/-! ### The two ways of counting -/

namespace ReorderBuffer

/-- What the calls hand on one after the other, and the buffer they leave. -/
def handleAll (b : ReorderBuffer κ) :
    List (Call κ) → List (List (NodeId × List κ)) × ReorderBuffer κ
  | [] => ([], b)
  | call :: rest =>
    let later := (b.handle call.arrival).2.handleAll rest
    ((b.handle call.arrival).1 :: later.1, later.2)

def handleAll? (b : ReorderBuffer κ) :
    List (Call κ) → Option (List (List (NodeId × List κ)) × ReorderBuffer κ)
  | [] => some ([], b)
  | call :: rest =>
    (b.handle? call.arrival).bind fun handled =>
      (handled.2.handleAll? rest).map fun later =>
        ((handled.1.map fun e => (e.1, e.2.map Prod.snd)) :: later.1, later.2)

def OverrunsIn (b : ReorderBuffer κ) : List (Call κ) → Prop
  | [] => False
  | call :: rest => b.Overruns call.arrival ∨ (b.handle call.arrival).2.OverrunsIn rest

/-- From any state that calls lead to, further calls hand on the same and leave the same buffer in
words as without a bound, unless one of them releases a message with the largest number. -/
theorem words_exact {maxPerSource maxSources : Nat} {gapTimeout : Duration} {m : Counted κ}
    (reached : Counted.Reached maxPerSource maxSources gapTimeout m) (calls : List (Call κ)) :
    m.buffer.OverrunsIn calls ∧ m.buffer.handleAll? calls = none ∨
      ¬ m.buffer.OverrunsIn calls ∧ m.buffer.handleAll? calls = some (m.buffer.handleAll calls) := by
  induction calls generalizing m with
  | nil => exact .inr ⟨id, rfl⟩
  | cons call rest ih =>
    have hcomes := handle?_isSome reached.sound.fits call
    rw [OverrunsIn, handleAll?, handleAll]
    cases hhandle : m.buffer.handle? call.arrival with
    | none =>
      rw [hhandle] at hcomes
      exact .inl ⟨.inl (not_not.mp fun hnot => Bool.false_ne_true (hcomes.mpr hnot)), rfl⟩
    | some handled =>
      rw [hhandle] at hcomes
      have hstep : m.step call = some _ := congrArg (Option.map _) hhandle
      rw [handle?_eq hhandle, or_iff_right (hcomes.mp rfl), Option.bind_some]
      rcases ih (reached.step hstep) with ⟨hover, hnone⟩ | ⟨hnot, hrest⟩
      · exact .inl ⟨hover, congrArg (Option.map _) hnone⟩
      · exact .inr ⟨hnot, congrArg (Option.map _) hrest⟩

def early : List (Call String) := [.accept Counted.carol 2 "b" 0, .accept Counted.carol 1 "a" 1]

theorem words_exact_early :
    Counted.default.buffer.handleAll? early = some (Counted.default.buffer.handleAll early) := by
  rcases words_exact (m := Counted.default) .new early with ⟨-, hnone⟩ | ⟨-, hsome⟩
  · exact absurd hnone (Option.isSome_iff_ne_none.mp (by decide +kernel))
  · exact hsome

end ReorderBuffer

end Mistlib.Overlay
