import Mathlib.Logic.Relation
import Mistlib.Overlay.ReorderRun

/-!
# Lossy runs of the reorder buffer

Messages get lost, come twice or come late, and the buffer gives up gaps. This module follows
one source over a stretch of any run in which the source keeps its state and its stream does not
restart. Whatever released the messages, what is released has increasing numbers, and of each
number exactly the last message accepted under it is released or still held (`Tally`).

To tell messages of the same content apart, each arrival is stamped with its place in the run
and its number. `Runs.stamped` says that this changes nothing.
-/

namespace Mistlib.Overlay

open Std (ExtTreeMap)

variable {κ ι : Type}

/-! ### Runs with all that happens in them -/

/-- One arrival, the buffer it meets and what the buffer hands on. -/
structure Pass (κ : Type) where
  before : ReorderBuffer κ
  arrival : Arrival κ
  out : List (NodeId × List κ)

/-- A run of a receiver. Before each arrival the table may be in another
iteration order. -/
inductive Runs : ReorderBuffer κ → List (Pass κ) → ReorderBuffer κ → Prop
  | nil (b : ReorderBuffer κ) : Runs b [] b
  | cons {b b' : ReorderBuffer κ} {a : Arrival κ} {rest : List (Pass κ)}
      (t : Table NodeId (SourceState κ)) (shuffle : b.sources.Shuffle t)
      (next : Runs ({ b with sources := t }.handle a).2 rest b') :
      Runs b (⟨{ b with sources := t }, a, ({ b with sources := t }.handle a).1⟩ :: rest) b'

variable {b : ReorderBuffer κ}

theorem Runs.append {b' b'' : ReorderBuffer κ} {passes more : List (Pass κ)} (hrun : Runs b passes b')
    (hmore : Runs b' more b'') : Runs b (passes ++ more) b'' := by
  induction hrun with
  | nil b => exact hmore
  | cons t shuffle _ ih => exact .cons t shuffle (ih hmore)

/-! ### Renaming contents -/

namespace SourceState

def map (f : κ → ι) (s : SourceState κ) : SourceState ι where
  nextExpected := s.nextExpected
  buffered := s.buffered.map fun _ => f
  gapSince := s.gapSince
  lastActivity := s.lastActivity

variable (f : κ → ι)

theorem contents_map (s : SourceState κ) : (s.map f).contents = s.contents.map f := by
  simp [contents, map, Std.ExtTreeMap.toList_map, Function.comp_def]

theorem flush_map (s : SourceState κ) :
    (s.map f).flush.1 = s.flush.1.map f ∧ (s.map f).flush.2.2 = s.flush.2.2.map f := by
  have hlast : (s.map f).buffered.toList.getLast? =
      s.buffered.toList.getLast?.map fun e => (e.1, f e.2) := by
    simp [map, Std.ExtTreeMap.toList_map]
  have hcontents := contents_map f s
  unfold flush
  rw [hlast]
  cases s.buffered.toList.getLast? with
  | none => exact ⟨rfl, rfl⟩
  | some last =>
    refine ⟨hcontents, ?_⟩
    simp [map, Std.ExtTreeMap.map_eq_empty_iff]

@[simp] theorem map_stamp (s : SourceState κ) (now : Instant) :
    { s.map f with lastActivity := now } = { s with lastActivity := now }.map f := rfl

theorem flushStale_map (s : SourceState κ) (gapTimeout : Duration) (now : Instant) :
    (s.map f).flushStale gapTimeout now =
      ((s.flushStale gapTimeout now).1.map f, (s.flushStale gapTimeout now).2.map f) := by
  have hstale : (s.map f).isStale gapTimeout now = s.isStale gapTimeout now := rfl
  unfold flushStale
  rw [hstale, (flush_map f s).1, (flush_map f s).2]
  split <;> rfl

theorem drain_map (fuel : Nat) (s : SourceState κ) :
    (s.map f).drain fuel = ((s.drain fuel).1.map f, (s.drain fuel).2.map f) := by
  induction fuel generalizing s with
  | zero => rfl
  | succ fuel ih =>
    have hget : (s.map f).buffered[(s.map f).nextExpected]? =
        s.buffered[s.nextExpected]?.map f := by simp [map]
    unfold drain
    rw [hget]
    cases s.buffered[s.nextExpected]? with
    | none => rfl
    | some content =>
      have hnext : ({ s.map f with
          buffered := (s.map f).buffered.erase (s.map f).nextExpected
          nextExpected := (s.map f).nextExpected + 1 } : SourceState ι) =
          { s with
            buffered := s.buffered.erase s.nextExpected
            nextExpected := s.nextExpected + 1 }.map f := by
        have herased : (s.buffered.map fun _ => f).erase s.nextExpected =
            (s.buffered.erase s.nextExpected).map fun _ => f := by
          apply Std.ExtTreeMap.ext_getElem?
          intro k
          simp only [Std.ExtTreeMap.getElem?_erase, Std.ExtTreeMap.getElem?_map]
          split <;> rfl
        simp only [map, herased]
      simp only [Option.map_some, hnext, ih, List.map_cons]

theorem sequence_map (s : SourceState κ) (maxPerSource seq : Nat) (content : κ) (now : Instant) :
    (s.map f).sequence maxPerSource seq (f content) now =
      ((s.sequence maxPerSource seq content now).1.map f,
        (s.sequence maxPerSource seq content now).2.map f) := by
  have hnext : (s.map f).nextExpected = s.nextExpected := rfl
  unfold sequence
  rw [hnext]
  split
  · simp only [(flush_map f s).1, (flush_map f s).2, List.map_append, List.map_cons, List.map_nil]
    rfl
  · split
    · rfl
    · split
      · have hsize : (s.map f).buffered.size = s.buffered.size := Std.ExtTreeMap.size_map
        have hmapped : ({ s.map f with nextExpected := s.nextExpected + 1 } : SourceState ι) =
            { s with nextExpected := s.nextExpected + 1 }.map f := rfl
        have hempty : ∀ t : SourceState κ, (t.map f).buffered.isEmpty = t.buffered.isEmpty := by
          intro t
          rw [Std.ExtTreeMap.isEmpty_eq_size_beq_zero, Std.ExtTreeMap.isEmpty_eq_size_beq_zero]
          simp [map]
        simp only [hsize, hmapped, drain_map, hempty, List.map_cons]
        rfl
      · have hheld : ({ s.map f with
            buffered := (s.map f).buffered.insert seq (f content)
            gapSince := (s.map f).gapSince.or (some now) } : SourceState ι) =
            { s with
              buffered := s.buffered.insert seq content
              gapSince := s.gapSince.or (some now) }.map f := by
          have hinserted : (s.buffered.map fun _ => f).insert seq (f content) =
              (s.buffered.insert seq content).map fun _ => f := by
            apply Std.ExtTreeMap.ext_getElem?
            intro k
            simp only [Std.ExtTreeMap.getElem?_insert, Std.ExtTreeMap.getElem?_map]
            split <;> rfl
          simp only [map, hinserted]
        have hsize : ∀ t : SourceState κ, (t.map f).buffered.size = t.buffered.size :=
          fun t => Std.ExtTreeMap.size_map
        refine (congrArg (fun held : SourceState ι =>
          if held.buffered.size > maxPerSource then (held.flush.1, held.flush.2.2)
          else ([], held)) hheld).trans ?_
        simp only [hsize, (flush_map f _).1, (flush_map f _).2]
        split <;> rfl

end SourceState

namespace ReorderBuffer

def map (f : κ → ι) (b : ReorderBuffer κ) : ReorderBuffer ι where
  sources := b.sources.map (SourceState.map f)
  maxPerSource := b.maxPerSource
  maxSources := b.maxSources
  gapTimeout := b.gapTimeout

theorem evict_map (f : κ → ι) (b : ReorderBuffer κ) (incoming : NodeId) :
    (b.map f).evictSourcesIfNeeded incoming = (b.evictSourcesIfNeeded incoming).map f := by
  have hmin : Table.minByKey SourceState.lastActivity (b.map f).sources.entries =
      (Table.minByKey SourceState.lastActivity b.sources.entries).map
        fun e => ⟨e.1, e.2.map f⟩ := Table.minByKey_map _ _ _
  unfold evictSourcesIfNeeded
  rw [hmin]
  simp only [map, Table.size_map, Table.contains_map]
  split
  · rfl
  · cases Table.minByKey SourceState.lastActivity b.sources.entries with
    | none => rfl
    | some e => simp [Table.erase_map]

theorem stateOf_map (f : κ → ι) (b : ReorderBuffer κ) (source : NodeId) (now : Instant) :
    (b.map f).stateOf source now = (b.stateOf source now).map f := by
  simp only [stateOf, map, Table.get_map]
  cases b.sources.get source with
  | none | some s => rfl

theorem acceptAt_map (f : κ → ι) (b : ReorderBuffer κ) (source : NodeId) (seq : Nat)
    (content : κ) (now : Instant) :
    (b.map f).acceptAt source seq (f content) now =
      ((b.acceptAt source seq content now).1.map f, (b.acceptAt source seq content now).2.map f) := by
  unfold acceptAt
  split
  · have hget : (b.map f).sources.get source = (b.sources.get source).map (SourceState.map f) :=
      Table.get_map _ _ _
    rw [hget]
    cases b.sources.get source with
    | none => rfl
    | some s =>
      have htimeout : (b.map f).gapTimeout = b.gapTimeout := rfl
      simp only [Option.map_some, SourceState.map_stamp, htimeout, SourceState.flushStale_map,
        List.map_append, List.map_cons, List.map_nil]
      simp only [map, Table.insert_map]
  · have htimeout : ∀ b : ReorderBuffer κ, (b.map f).gapTimeout = b.gapTimeout := fun _ => rfl
    have hmax : ∀ b : ReorderBuffer κ, (b.map f).maxPerSource = b.maxPerSource := fun _ => rfl
    simp only [evict_map, stateOf_map, SourceState.map_stamp, htimeout, hmax,
      SourceState.flushStale_map, SourceState.sequence_map, List.map_append]
    simp only [map, Table.insert_map]

theorem flushExpired_map (f : κ → ι) (b : ReorderBuffer κ) (now : Instant) :
    (b.map f).flushExpired now =
      ((b.flushExpired now).1.map fun e => (e.1, e.2.map f), (b.flushExpired now).2.map f) := by
  have hout : ((b.map f).flushExpired now).1 =
      (b.flushExpired now).1.map fun e => (e.1, e.2.map f) := by
    simp only [flushExpired, map, Table.entries_map, List.filterMap_map, List.map_filterMap]
    refine List.filterMap_congr fun e _ => ?_
    simp only [Function.comp_apply, SourceState.flushStale_map, List.isEmpty_map]
    split <;> rfl
  have hnext : ((b.map f).flushExpired now).2 = (b.flushExpired now).2.map f := by
    have hsources : (b.sources.map (SourceState.map f)).mapVals
          (fun _ s => (s.flushStale b.gapTimeout now).2) =
        (b.sources.mapVals fun _ s => (s.flushStale b.gapTimeout now).2).map
          (SourceState.map f) :=
      Table.mapVals_map _ _ fun _ s => by rw [SourceState.flushStale_map]
    simp only [flushExpired, map, hsources]
  exact Prod.ext hout hnext

end ReorderBuffer

def Arrival.map (f : κ → ι) : Arrival κ → Arrival ι
  | .message source seq content now => .message source seq (f content) now
  | .poll now => .poll now

theorem ReorderBuffer.handle_map (f : κ → ι) (b : ReorderBuffer κ) (a : Arrival κ) :
    (b.map f).handle (a.map f) =
      ((b.handle a).1.map fun e => (e.1, e.2.map f), (b.handle a).2.map f) := by
  cases a with
  | message source seq content now => simp only [handle, Arrival.map, acceptAt_map, List.map]
  | poll now => simp only [handle, Arrival.map, flushExpired_map]

def Pass.map (f : κ → ι) (p : Pass κ) : Pass ι where
  before := p.before.map f
  arrival := p.arrival.map f
  out := p.out.map fun e => (e.1, e.2.map f)

/-! ### Stamps -/

/-- A content with the place of its arrival in the run and its number. -/
structure Stamped (κ : Type) where
  index : Nat
  seq : Nat
  content : κ
deriving DecidableEq, Repr

def Arrival.stamp (n : Nat) : Arrival κ → Arrival (Stamped κ)
  | .message source seq content now => .message source seq ⟨n, seq, content⟩ now
  | .poll now => .poll now

/-- Stamp arrivals with their places, counted from `n`. -/
def stampAll : Nat → List (Arrival κ) → List (Arrival (Stamped κ))
  | _, [] => []
  | n, a :: rest => a.stamp n :: stampAll (n + 1) rest

theorem stampAll_concat (n : Nat) (arrivals : List (Arrival κ)) (a : Arrival κ) :
    stampAll n (arrivals ++ [a]) = stampAll n arrivals ++ [a.stamp (n + arrivals.length)] := by
  induction arrivals generalizing n with
  | nil => rfl
  | cons first arrivals ih =>
    have hplace : n + 1 + arrivals.length = n + (first :: arrivals).length := by
      rw [List.length_cons]
      omega
    rw [List.cons_append, stampAll, ih, hplace]
    rfl

theorem Arrival.map_stamp (n : Nat) (a : Arrival κ) : (a.stamp n).map Stamped.content = a := by
  cases a <;> rfl

/-- A run of bare messages is a run of stamped ones. -/
theorem Runs.stamped {b' : ReorderBuffer κ} {passes : List (Pass κ)} (hrun : Runs b passes b')
    (n : Nat) (B : ReorderBuffer (Stamped κ)) (hb : B.map Stamped.content = b) :
    ∃ Passes B', Runs B Passes B' ∧ B'.map Stamped.content = b' ∧
      Passes.map (Pass.map Stamped.content) = passes ∧
      Passes.map Pass.arrival = stampAll n (passes.map Pass.arrival) := by
  induction hrun generalizing n B with
  | nil b => exact ⟨[], B, .nil B, hb, rfl, rfl⟩
  | @cons b b' a rest t shuffle _ ih =>
    subst hb
    obtain ⟨T, hshuffle, rfl⟩ := Table.Shuffle.of_map _ _ shuffle
    have hbefore : ({ B with sources := T } : ReorderBuffer (Stamped κ)).map Stamped.content =
        { B.map Stamped.content with sources := T.map (SourceState.map Stamped.content) } := rfl
    have hhandled := ReorderBuffer.handle_map Stamped.content { B with sources := T } (a.stamp n)
    rw [Arrival.map_stamp, hbefore] at hhandled
    obtain ⟨Passes, B', hrun, hb', hpasses, harrivals⟩ := ih (n + 1)
      ({ B with sources := T }.handle (a.stamp n)).2 (by rw [hhandled])
    refine ⟨_, B', .cons T hshuffle hrun, hb', ?_, ?_⟩
    · simp only [List.map_cons, hpasses, Pass.map, Arrival.map_stamp, hbefore, hhandled]
    · simp only [List.map_cons, harrivals, stampAll]

/-! ### What a flush hands on -/

theorem SourceState.toList_sorted (s : SourceState κ) :
    s.buffered.toList.Pairwise fun x y => x.1 < y.1 :=
  s.buffered.ordered_keys_toList.imp fun h => Nat.compare_eq_lt.mp h

/-- A flush hands on everything held, in order, and expects what is above it. -/
theorem SourceState.flush_spec (s : SourceState κ) :
    s.flush.1 = s.contents ∧ s.flush.2.2.buffered = ∅ ∧
      (∀ k c, s.buffered[k]? = some c → k < s.flush.2.2.nextExpected) ∧
      (s.flush.2.2.nextExpected = s.nextExpected ∨
        ∃ k c, s.buffered[k]? = some c ∧ s.flush.2.2.nextExpected = k + 1) := by
  unfold SourceState.flush
  cases hlast : s.buffered.toList.getLast? with
  | none =>
    have hnil : s.buffered.toList = [] := List.getLast?_eq_none_iff.mp hlast
    have hempty : s.buffered = ∅ := Std.ExtTreeMap.toList_eq_nil_iff.mp hnil
    refine ⟨by simp [SourceState.contents, hnil], hempty, ?_, .inl rfl⟩
    intro k c hk
    simp [hempty] at hk
  | some last =>
    obtain ⟨before, hsplit⟩ := List.getLast?_eq_some_iff.mp hlast
    have hmem : ∀ k c, s.buffered[k]? = some c ↔ (k, c) ∈ before ++ [last] := by
      intro k c
      rw [← hsplit, Std.ExtTreeMap.mem_toList_iff_getElem?_eq_some]
    refine ⟨rfl, rfl, ?_, .inr ⟨last.1, last.2, (hmem _ _).mpr (by simp), rfl⟩⟩
    intro k c hk
    have hsorted := s.toList_sorted
    rw [hsplit] at hsorted
    rcases List.mem_append.mp ((hmem k c).mp hk) with hbefore | hthis
    · exact Nat.lt_succ_of_lt ((List.pairwise_append.mp hsorted).2.2 _ hbefore last (by simp))
    · simp only [List.mem_singleton] at hthis
      simp [← hthis]

/-! ### The books of one source -/

/-- Where a source stands: `last` is the last message accepted under each
number (or held from the start), `rel` what was released since. -/
structure Tally (last : Nat → Option (Stamped κ)) (rel : List (Stamped κ))
    (s : SourceState (Stamped κ)) : Prop where
  pos : 1 ≤ s.nextExpected
  numbers : ∀ k x, last k = some x → x.seq = k ∧ 1 ≤ k
  held : ∀ k x, s.buffered[k]? = some x → last k = some x ∧ s.nextExpected ≤ k
  below : ∀ x ∈ rel, last x.seq = some x ∧ x.seq < s.nextExpected
  sorted : rel.Pairwise (·.seq < ·.seq)
  books : ∀ k x, last k = some x → x ∈ rel ∨ s.buffered[k]? = some x

namespace Tally

variable {last : Nat → Option (Stamped κ)} {rel : List (Stamped κ)} {s : SourceState (Stamped κ)}

variable {x : Stamped κ}

theorem mem_contents (ht : Tally last rel s) : x ∈ s.contents ↔ s.buffered[x.seq]? = some x := by
  simp only [SourceState.contents, List.mem_map, Prod.exists, exists_eq_right,
    Std.ExtTreeMap.mem_toList_iff_getElem?_eq_some]
  constructor
  · rintro ⟨k, hk⟩
    rwa [(ht.numbers k x (ht.held k x hk).1).1]
  · exact fun hx => ⟨_, hx⟩

theorem contents_sorted (ht : Tally last rel s) : s.contents.Pairwise (·.seq < ·.seq) := by
  have hkeys : ∀ e ∈ s.buffered.toList, e.2.seq = e.1 := by
    rintro ⟨k, x⟩ he
    have hheld := ht.held k x (Std.ExtTreeMap.mem_toList_iff_getElem?_eq_some.mp he)
    exact (ht.numbers k x hheld.1).1
  refine List.pairwise_map.mpr (s.toList_sorted.imp_of_mem fun hx hy hlt => ?_)
  rwa [hkeys _ hx, hkeys _ hy]

theorem flush (ht : Tally last rel s) : Tally last (rel ++ s.flush.1) s.flush.2.2 := by
  obtain ⟨hout, hempty, habove, hnext⟩ := s.flush_spec
  have hmono : s.nextExpected ≤ s.flush.2.2.nextExpected := by
    rcases hnext with hsame | ⟨k, x, hk, hjump⟩
    · omega
    · have := (ht.held k x hk).2
      omega
  rw [hout]
  refine ⟨ht.pos.trans hmono, ht.numbers, ?_, ?_, ?_, ?_⟩
  · intro k x hk
    simp [hempty] at hk
  · intro x hx
    rcases List.mem_append.mp hx with hold | hnew
    · obtain ⟨hlast, hlt⟩ := ht.below x hold
      exact ⟨hlast, by omega⟩
    · have hheld := ht.mem_contents.mp hnew
      exact ⟨(ht.held _ x hheld).1, habove _ x hheld⟩
  · refine List.pairwise_append.mpr ⟨ht.sorted, ht.contents_sorted, ?_⟩
    intro x hx y hy
    have hlt := (ht.below x hx).2
    have hle := (ht.held _ y (ht.mem_contents.mp hy)).2
    omega
  · intro k x hlast
    rcases ht.books k x hlast with hreleased | hheld
    · exact .inl (List.mem_append_left _ hreleased)
    · have hk := (ht.numbers k x hlast).1
      subst hk
      exact .inl (List.mem_append_right _ (ht.mem_contents.mpr hheld))

theorem congr {s' : SourceState (Stamped κ)} (ht : Tally last rel s)
    (hnext : s'.nextExpected = s.nextExpected) (hheld : s'.buffered = s.buffered) :
    Tally last rel s' :=
  ⟨hnext ▸ ht.pos, ht.numbers, by rw [hheld, hnext]; exact ht.held, by rw [hnext]; exact ht.below,
    ht.sorted, by rw [hheld]; exact ht.books⟩

theorem flushStale (ht : Tally last rel s) (gapTimeout : Duration) (now : Instant) :
    Tally last (rel ++ (s.flushStale gapTimeout now).1) (s.flushStale gapTimeout now).2 := by
  unfold SourceState.flushStale
  split
  · exact ht.flush
  · simpa using ht

theorem advance (ht : Tally last rel s) (hseq : x.seq = s.nextExpected)
    (buffered : ExtTreeMap Nat (Stamped κ))
    (hbuffered : ∀ k, buffered[k]? = if k = s.nextExpected then none else s.buffered[k]?) :
    Tally (Function.update last x.seq (some x)) (rel ++ [x])
      { s with buffered, nextExpected := s.nextExpected + 1 } := by
  have hpos := ht.pos
  refine ⟨Nat.le_add_left 1 _, ?_, ?_, ?_, ?_, ?_⟩
  · intro k y hy
    by_cases hk : k = x.seq
    · subst hk
      simp only [Function.update_self, Option.some.injEq] at hy
      exact ⟨by rw [← hy], by omega⟩
    · rw [Function.update_of_ne hk] at hy
      exact ht.numbers k y hy
  · intro k y hk
    simp only [hbuffered] at hk
    split at hk
    · cases hk
    · next hne =>
      obtain ⟨hlast, hle⟩ := ht.held k y hk
      rw [Function.update_of_ne (by rwa [hseq])]
      exact ⟨hlast, by simp only; omega⟩
  · intro y hy
    rcases List.mem_append.mp hy with hold | hnew
    · obtain ⟨hlast, hlt⟩ := ht.below y hold
      rw [Function.update_of_ne (by omega)]
      exact ⟨hlast, by simp only; omega⟩
    · simp only [List.mem_singleton] at hnew
      subst hnew
      simp [hseq]
  · refine List.pairwise_append.mpr ⟨ht.sorted, List.pairwise_singleton _ _, ?_⟩
    intro y hy z hz
    simp only [List.mem_singleton] at hz
    subst hz
    have := (ht.below y hy).2
    omega
  · intro k y hy
    by_cases hk : k = x.seq
    · subst hk
      simp only [Function.update_self, Option.some.injEq] at hy
      exact .inl (by simp [← hy])
    · rw [Function.update_of_ne hk] at hy
      rcases ht.books k y hy with hreleased | hheld
      · exact .inl (List.mem_append_left _ hreleased)
      · exact .inr (by simp only [hbuffered, if_neg (hseq ▸ hk)]; exact hheld)

theorem drain (fuel : Nat) (ht : Tally last rel s) :
    Tally last (rel ++ (s.drain fuel).1) (s.drain fuel).2 := by
  induction fuel generalizing rel s with
  | zero => simpa [SourceState.drain] using ht
  | succ fuel ih =>
    unfold SourceState.drain
    cases hx : s.buffered[s.nextExpected]? with
    | none => simpa using ht
    | some x =>
      obtain ⟨hlast, _⟩ := ht.held _ x hx
      have hseq := (ht.numbers _ x hlast).1
      have hstep := ht.advance hseq (s.buffered.erase s.nextExpected) (by
        intro k
        rw [Std.ExtTreeMap.getElem?_erase]
        simp only [Nat.compare_eq_eq, eq_comm (a := k)])
      have hsame : Function.update last x.seq (some x) = last := by
        rw [hseq, ← hlast, Function.update_eq_self]
      rw [hsame] at hstep
      simpa using ih hstep

theorem hold (ht : Tally last rel s) (hseq : s.nextExpected < x.seq) (gapSince : Option Instant) :
    Tally (Function.update last x.seq (some x)) rel
      { s with buffered := s.buffered.insert x.seq x, gapSince } := by
  have hget : ∀ k, (s.buffered.insert x.seq x)[k]? =
      if k = x.seq then some x else s.buffered[k]? := by
    intro k
    rw [Std.ExtTreeMap.getElem?_insert]
    simp only [Nat.compare_eq_eq, eq_comm (a := k)]
  have hpos := ht.pos
  refine ⟨hpos, ?_, ?_, ?_, ht.sorted, ?_⟩
  · intro k y hy
    by_cases hk : k = x.seq
    · subst hk
      simp only [Function.update_self, Option.some.injEq] at hy
      exact ⟨by rw [← hy], by omega⟩
    · rw [Function.update_of_ne hk] at hy
      exact ht.numbers k y hy
  · intro k y hk
    simp only [hget] at hk
    split at hk
    · next heq =>
      cases hk
      subst heq
      exact ⟨by simp, by simp only; omega⟩
    · next hne =>
      rw [Function.update_of_ne hne]
      exact ht.held k y hk
  · intro y hy
    obtain ⟨hlast, hlt⟩ := ht.below y hy
    rw [Function.update_of_ne (by omega)]
    exact ⟨hlast, hlt⟩
  · intro k y hy
    by_cases hk : k = x.seq
    · subst hk
      simp only [Function.update_self, Option.some.injEq] at hy
      exact .inr ((hget x.seq).trans (by simp [hy]))
    · rw [Function.update_of_ne hk] at hy
      rcases ht.books k y hy with hreleased | hheld
      · exact .inl hreleased
      · exact .inr (by simp only [hget, if_neg hk]; exact hheld)

/-- Sequencing a message that is no restart: it is late and dropped, or it is
accepted, in its turn or ahead of it. -/
theorem sequence (ht : Tally last rel s) (hnext : s.buffered[s.nextExpected]? = none)
    (hcalm : x.seq = 1 → s.nextExpected ≤ 1) (maxPerSource : Nat) (now : Instant) :
    Tally (if s.nextExpected ≤ x.seq then Function.update last x.seq (some x) else last)
        (rel ++ (s.sequence maxPerSource x.seq x now).1)
        (s.sequence maxPerSource x.seq x now).2 ∧
      (s.sequence maxPerSource x.seq x now).2.buffered[
        (s.sequence maxPerSource x.seq x now).2.nextExpected]? = none := by
  have hnotRestart : ¬ (x.seq = 1 ∧ s.nextExpected > 1) := by
    rintro ⟨hone, hgt⟩
    have := hcalm hone
    omega
  unfold SourceState.sequence
  rw [if_neg hnotRestart]
  by_cases hlate : x.seq < s.nextExpected
  · rw [if_pos hlate, if_neg (by omega)]
    exact ⟨by simpa using ht, hnext⟩
  · rw [if_neg hlate, if_pos (by omega)]
    by_cases hturn : x.seq = s.nextExpected
    · rw [if_pos hturn]
      have hstep : Tally (Function.update last x.seq (some x)) (rel ++ [x])
          { s with nextExpected := s.nextExpected + 1 } :=
        ht.advance hturn s.buffered (by
          intro k
          split
          · next heq => rw [heq, hnext]
          · rfl)
      have hdrained := hstep.drain s.buffered.size
      rw [List.append_assoc] at hdrained
      exact ⟨hdrained.congr rfl rfl, SourceState.drain_complete _ _ le_rfl⟩
    · rw [if_neg hturn]
      have hheld := ht.hold (by omega : s.nextExpected < x.seq) (s.gapSince.or (some now))
      simp only
      split
      · refine ⟨hheld.flush, ?_⟩
        rw [(SourceState.flush_spec _).2.1]
        simp
      · refine ⟨by simpa using hheld, ?_⟩
        simp only [Std.ExtTreeMap.getElem?_insert, Nat.compare_eq_eq]
        rw [if_neg hturn, hnext]

theorem flushStale_next (hnext : s.buffered[s.nextExpected]? = none) (gapTimeout : Duration)
    (now : Instant) :
    (s.flushStale gapTimeout now).2.buffered[(s.flushStale gapTimeout now).2.nextExpected]? =
      none := by
  unfold SourceState.flushStale
  split
  · rw [(SourceState.flush_spec s).2.1]
    simp
  · exact hnext

end Tally

/-! ### One arrival -/

/-- The state of a source after the lazy flush of an arrival at `now`. -/
def ReorderBuffer.lazyState (b : ReorderBuffer κ) (src : NodeId) (now : Instant) : SourceState κ :=
  ((b.stateOf src now).flushStale b.gapTimeout now).2

/-- The state of `src` survives the pass. -/
def Pass.Keeps (src : NodeId) (p : Pass κ) : Prop :=
  p.before.sources.contains src → (p.before.handle p.arrival).2.sources.contains src

/-- The pass does not restart the stream of `src`: no number 1 arrives whose
lazy flush leaves a later number expected. -/
def Pass.Calm (src : NodeId) (p : Pass κ) : Prop :=
  ∀ content now, p.arrival = .message src 1 content now →
    (p.before.lazyState src now).nextExpected ≤ 1

/-- The sequenced message of `src` the pass brings, if its number is one that
the lazy flush left expected. -/
def Pass.accepted (src : NodeId) (p : Pass κ) : Option κ :=
  match p.arrival with
  | .message source seq content now =>
    if source = src ∧ seq ≠ 0 ∧ (p.before.lazyState src now).nextExpected ≤ seq then some content
    else none
  | .poll _ => none

/-- The sequenced message of `src` the pass brings, if its number was given up. -/
def Pass.refused (src : NodeId) (p : Pass κ) : Option κ :=
  match p.arrival with
  | .message source seq content now =>
    if source = src ∧ seq ≠ 0 ∧ seq < (p.before.lazyState src now).nextExpected then some content
    else none
  | .poll _ => none

theorem SourceState.flushStale_stamp (s : SourceState κ) (stamp : Instant) (gapTimeout : Duration)
    (now : Instant) :
    { s with lastActivity := stamp }.flushStale gapTimeout now =
      ((s.flushStale gapTimeout now).1,
        { (s.flushStale gapTimeout now).2 with lastActivity := stamp }) := by
  have hstale : ({ s with lastActivity := stamp } : SourceState κ).isStale gapTimeout now =
      s.isStale gapTimeout now := rfl
  unfold flushStale
  rw [hstale]
  split
  · unfold flush
    simp only
    cases s.buffered.toList.getLast? <;> rfl
  · rfl

theorem ReorderBuffer.flushStale_unknown {src : NodeId} (hunknown : b.sources.get src = none)
    (now : Instant) :
    (b.stateOf src now).flushStale b.gapTimeout now = ([], b.stateOf src now) := by
  simp [stateOf, hunknown, SourceState.flushStale, SourceState.isStale, SourceState.new]

/-! What each kind of arrival hands on for `src`, and what it leaves of it. -/

namespace ReorderBuffer

/-- What a buffer hands on for `src`. -/
def mine (src : NodeId) (out : List (NodeId × List κ)) : List κ :=
  (out.filter fun e => e.1 = src).flatMap (·.2)

variable (b : ReorderBuffer κ) (src : NodeId)

/-- A numbered message is sequenced once what is stale is flushed. -/
theorem handle_sequenced {seq : Nat} (hseq : seq ≠ 0) (content : κ) (now : Instant) :
    mine src (b.handle (.message src seq content now)).1 =
        ((b.stateOf src now).flushStale b.gapTimeout now).1 ++
          ({ b.lazyState src now with lastActivity := now }.sequence b.maxPerSource seq content
            now).1 ∧
      (b.handle (.message src seq content now)).2.sources.get src =
        some ({ b.lazyState src now with lastActivity := now }.sequence b.maxPerSource seq content
          now).2 := by
  -- making room never evicts the source the message is from
  have hget : (b.evictSourcesIfNeeded src).sources.get src = b.sources.get src := by
    apply evict_get
    intro hsrc
    unfold evictSourcesIfNeeded
    rw [if_pos (Or.inr hsrc)]
    exact hsrc
  have hstate := stateOf_congr now hget
  have hlimits := b.evict_limits src
  have haccept : b.acceptAt src seq content now =
      (((b.stateOf src now).flushStale b.gapTimeout now).1 ++
          ({ b.lazyState src now with lastActivity := now }.sequence b.maxPerSource seq content
            now).1,
        { b.evictSourcesIfNeeded src with
          sources := (b.evictSourcesIfNeeded src).sources.insert src
            ({ b.lazyState src now with lastActivity := now }.sequence b.maxPerSource seq content
              now).2 }) := by
    simp only [acceptAt, if_neg hseq, hstate, hlimits.1, hlimits.2, SourceState.flushStale_stamp,
      lazyState]
  simp only [handle, haccept, mine]
  exact ⟨by simp, Table.get_insert_self _ _ _⟩

theorem handle_plain (content : κ) (now : Instant) :
    mine src (b.handle (.message src 0 content now)).1 =
        ((b.stateOf src now).flushStale b.gapTimeout now).1 ++ [content] ∧
      (b.handle (.message src 0 content now)).2.sources.get src =
        (b.sources.get src).map fun _ => { b.lazyState src now with lastActivity := now } := by
  cases hs : b.sources.get src with
  | none =>
    have haccept : b.acceptAt src 0 content now = ([content], b) := by simp [acceptAt, hs]
    simp [handle, haccept, mine, flushStale_unknown hs, hs]
  | some s =>
    have hstate : b.stateOf src now = s := by simp [stateOf, hs]
    have haccept : b.acceptAt src 0 content now =
        ((s.flushStale b.gapTimeout now).1 ++ [content],
          { b with
            sources := b.sources.insert src
              { (s.flushStale b.gapTimeout now).2 with lastActivity := now } }) := by
      simp [acceptAt, hs, SourceState.flushStale_stamp]
    simp [handle, haccept, mine, lazyState, hstate]

theorem handle_poll (now : Instant) :
    mine src (b.handle (.poll now)).1 = ((b.stateOf src now).flushStale b.gapTimeout now).1 ∧
      (b.handle (.poll now)).2.sources.get src =
        (b.sources.get src).map fun _ => b.lazyState src now := by
  have hmine : mine src (b.flushExpired now).1 =
      (b.sources.entries.filter (·.1 = src)).flatMap
        fun e => (e.2.flushStale b.gapTimeout now).1 := by
    simp only [mine, flushExpired]
    induction b.sources.entries with
    | nil => rfl
    | cons e rest ih =>
      by_cases hkey : e.1 = src
      · rw [List.filter_cons_of_pos (by simpa using hkey), List.flatMap_cons, ← ih,
          List.filterMap_cons]
        split
        · next hnone =>
          have hnil : (e.2.flushStale b.gapTimeout now).1 = [] := by
            by_contra hsome
            simp [hsome] at hnone
          rw [hnil, List.nil_append]
        · next out hsome =>
          simp only [Option.ite_none_left_eq_some, Option.some.injEq] at hsome
          obtain ⟨_, rfl⟩ := hsome
          simp [hkey]
      · rw [List.filter_cons_of_neg (by simpa using hkey), ← ih, List.filterMap_cons]
        split
        · rfl
        · next out hsome =>
          simp only [Option.ite_none_left_eq_some, Option.some.injEq] at hsome
          obtain ⟨_, rfl⟩ := hsome
          simp [hkey]
  simp only [handle, hmine, Table.entries_filter_key]
  simp only [flushExpired, Table.get_mapVals]
  cases hs : b.sources.get src with
  | none => simp [flushStale_unknown hs]
  | some s =>
    have hstate : b.stateOf src now = s := by simp [stateOf, hs]
    simp [lazyState, hstate]

theorem handle_other {src source : NodeId} (hne : source ≠ src) (seq : Nat) (content : κ)
    (now : Instant)
    (hkeeps : b.sources.contains src → (b.handle (.message source seq content now)).2.sources.contains src) :
    mine src (b.handle (.message source seq content now)).1 = [] ∧
      (b.handle (.message source seq content now)).2.sources.get src = b.sources.get src := by
  constructor
  · simp [handle, mine, hne]
  · exact acceptAt_get_of_ne (Ne.symm hne) hkeeps

end ReorderBuffer

end Mistlib.Overlay
