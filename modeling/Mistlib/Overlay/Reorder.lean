import Std.Data.ExtTreeMap
import Mistlib.Data.Table
import Mistlib.Types

/-!
# The reorder buffer

A receiver restores the order of sequenced messages per source: a message
that arrives early is held until the ones before it have arrived, until the
gap has been open for `gapTimeout`, or until too many messages are held.

Sequence numbers are `u64` in the source. The model counts without a bound,
so it is exact as long as no number passes the largest `u64`.
-/

namespace Mistlib.Overlay

open Std (ExtTreeMap)

def REORDER_MAX_PER_SOURCE : Nat := 256
def REORDER_MAX_SOURCES : Nat := 1024
def REORDER_GAP_TIMEOUT : Duration := Duration.fromSecs 8

/-- What the buffer knows about one source. -/
structure SourceState (κ : Type) where
  nextExpected : Nat
  buffered : ExtTreeMap Nat κ
  gapSince : Option Instant
  lastActivity : Instant

namespace SourceState

variable {κ : Type}

def new (now : Instant) : SourceState κ :=
  { nextExpected := 1, buffered := ∅, gapSince := none, lastActivity := now }

def contents (s : SourceState κ) : List κ := s.buffered.toList.map Prod.snd

/-- Deliver everything held, in sequence order, and advance past it. The
second component is the skipped range, for the log. -/
def flush (s : SourceState κ) : List κ × Option (Nat × Nat) × SourceState κ :=
  let skipped := s.buffered.toList.head?.bind fun first =>
    if first.1 > s.nextExpected then some (s.nextExpected, first.1) else none
  match s.buffered.toList.getLast? with
  | some last =>
    (s.contents, skipped,
      { s with buffered := ∅, nextExpected := last.1 + 1, gapSince := none })
  | none => ([], skipped, { s with gapSince := none })

/-- Whether the gap has been open for the timeout. -/
def isStale (s : SourceState κ) (gapTimeout : Duration) (now : Instant) : Bool :=
  match s.gapSince with
  | some since => decide (now - since ≥ gapTimeout)
  | none => false

def flushStale (s : SourceState κ) (gapTimeout : Duration) (now : Instant) :
    List κ × SourceState κ :=
  if s.isStale gapTimeout now then (s.flush.1, s.flush.2.2) else ([], s)

/-- The `while let Some(next) = buffered.remove(&next_expected)` loop. Each
round removes a held message, so `fuel` is the number of messages held. -/
def drain : Nat → SourceState κ → List κ × SourceState κ
  | 0, s => ([], s)
  | fuel + 1, s =>
    match s.buffered[s.nextExpected]? with
    | some content =>
      let rest := drain fuel
        { s with
          buffered := s.buffered.erase s.nextExpected
          nextExpected := s.nextExpected + 1 }
      (content :: rest.1, rest.2)
    | none => ([], s)

/-- The part of `accept_at` after the lazy flush: restart, late, in order, or
too early. -/
def sequence (s : SourceState κ) (maxPerSource seq : Nat) (content : κ) (now : Instant) :
    List κ × SourceState κ :=
  if seq = 1 ∧ s.nextExpected > 1 then
    -- The sender restarted its counter: give up the old stream.
    (s.flush.1 ++ [content], { s.flush.2.2 with nextExpected := 2 })
  else if seq < s.nextExpected then ([], s)
  else if seq = s.nextExpected then
    let drained := drain s.buffered.size { s with nextExpected := s.nextExpected + 1 }
    (content :: drained.1,
      { drained.2 with
        gapSince := if drained.2.buffered.isEmpty then none else some now })
  else
    let held := { s with
      buffered := s.buffered.insert seq content
      gapSince := s.gapSince.or (some now) }
    if held.buffered.size > maxPerSource then (held.flush.1, held.flush.2.2) else ([], held)

end SourceState

structure ReorderBuffer (κ : Type) where
  sources : Table NodeId (SourceState κ)
  maxPerSource : Nat
  maxSources : Nat
  gapTimeout : Duration

namespace ReorderBuffer

variable {κ : Type}

def new (maxPerSource maxSources : Nat) (gapTimeout : Duration) : ReorderBuffer κ :=
  { sources := ∅, maxPerSource, maxSources, gapTimeout }

def default : ReorderBuffer κ :=
  new REORDER_MAX_PER_SOURCE REORDER_MAX_SOURCES REORDER_GAP_TIMEOUT

def evictSourcesIfNeeded (b : ReorderBuffer κ) (incoming : NodeId) : ReorderBuffer κ :=
  if b.sources.size < b.maxSources ∨ b.sources.contains incoming then b
  else
    match Table.minByKey SourceState.lastActivity b.sources.entries with
    | some e => { b with sources := b.sources.erase e.1 }
    | none => b

/-- The state `accept_at` works on: the source's own, or a new one. -/
def stateOf (b : ReorderBuffer κ) (source : NodeId) (now : Instant) : SourceState κ :=
  (b.sources.get source).getD (SourceState.new now)

/-- Accept a message and answer what is deliverable now, in order. -/
def acceptAt (b : ReorderBuffer κ) (source : NodeId) (seq : Nat) (content : κ) (now : Instant) :
    List κ × ReorderBuffer κ :=
  if seq = 0 then
    match b.sources.get source with
    | some state =>
      let flushed := { state with lastActivity := now }.flushStale b.gapTimeout now
      (flushed.1 ++ [content], { b with sources := b.sources.insert source flushed.2 })
    | none => ([content], b)
  else
    let b := b.evictSourcesIfNeeded source
    let state := { b.stateOf source now with lastActivity := now }
    let flushed := state.flushStale b.gapTimeout now
    let sequenced := flushed.2.sequence b.maxPerSource seq content now
    (flushed.1 ++ sequenced.1, { b with sources := b.sources.insert source sequenced.2 })

/-- Flush every source whose gap has been open for the timeout. -/
def flushExpired (b : ReorderBuffer κ) (now : Instant) :
    List (NodeId × List κ) × ReorderBuffer κ :=
  (b.sources.entries.filterMap fun e =>
      let out := (e.2.flushStale b.gapTimeout now).1
      if out.isEmpty then none else some (e.1, out),
    { b with sources := b.sources.mapVals fun _ s => (s.flushStale b.gapTimeout now).2 })

end ReorderBuffer

end Mistlib.Overlay
