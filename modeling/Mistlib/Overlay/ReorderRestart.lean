import Mistlib.Overlay.ReorderStretch

/-!
# A sender that starts again at number 1

When a sender has lost its counter, its next stream is numbered from 1 again while the receiver
still expects a number of the old one. The buffer takes a number 1 for the new stream and
compares every other number with what it expects of the old one. So the new stream survives when
its number 1 comes first and no late message of the old stream is taken for one of the new, and
it does not when another message overtakes number 1.

Contents are stamped with their places. Which places are those of the new stream is a parameter
(`fresh`).
-/

namespace Mistlib.Overlay

variable {κ : Type}

/-! ### Nothing comes from nowhere -/

/-- Everything held satisfies `P`. -/
def SourceState.Holds (P : κ → Prop) (s : SourceState κ) : Prop :=
  ∀ (k : Nat) (c : κ), s.buffered[k]? = some c → P c

namespace SourceState.Holds

variable {P : κ → Prop} {s : SourceState κ}

theorem flush (h : s.Holds P) : (∀ c ∈ s.flush.1, P c) ∧ s.flush.2.2.Holds P := by
  obtain ⟨hout, hempty, _, _⟩ := s.flush_spec
  constructor
  · intro c hc
    rw [hout] at hc
    obtain ⟨⟨k, c'⟩, he, rfl⟩ := List.mem_map.mp hc
    exact h k c' (Std.ExtTreeMap.mem_toList_iff_getElem?_eq_some.mp he)
  · intro k c hk
    simp [hempty] at hk

theorem flushStale (h : s.Holds P) (gapTimeout : Duration) (now : Instant) :
    (∀ c ∈ (s.flushStale gapTimeout now).1, P c) ∧ (s.flushStale gapTimeout now).2.Holds P := by
  unfold SourceState.flushStale
  split
  · exact h.flush
  · exact ⟨by simp, h⟩

theorem drain (h : s.Holds P) (fuel : Nat) :
    (∀ c ∈ (s.drain fuel).1, P c) ∧ (s.drain fuel).2.Holds P := by
  induction fuel generalizing s with
  | zero => exact ⟨by simp [SourceState.drain], h⟩
  | succ fuel ih =>
    unfold SourceState.drain
    cases hx : s.buffered[s.nextExpected]? with
    | none => exact ⟨by simp, h⟩
    | some x =>
      have herased : SourceState.Holds P
          { s with
            buffered := s.buffered.erase s.nextExpected
            nextExpected := s.nextExpected + 1 } := by
        intro k c hk
        rw [Std.ExtTreeMap.getElem?_erase] at hk
        split at hk
        · cases hk
        · exact h k c hk
      obtain ⟨hout, hheld⟩ := ih herased
      refine ⟨fun c hc => ?_, hheld⟩
      rcases List.mem_cons.mp hc with rfl | hc
      · exact h _ _ hx
      · exact hout c hc

theorem sequence (h : s.Holds P) (maxPerSource seq : Nat) {content : κ} (hc : P content)
    (now : Instant) :
    (∀ c ∈ (s.sequence maxPerSource seq content now).1, P c) ∧
      (s.sequence maxPerSource seq content now).2.Holds P := by
  unfold SourceState.sequence
  split
  · refine ⟨fun c hmem => ?_, h.flush.2⟩
    rcases List.mem_append.mp hmem with hold | hnew
    · exact h.flush.1 c hold
    · exact List.mem_singleton.mp hnew ▸ hc
  · split
    · exact ⟨by simp, h⟩
    · split
      · have hstart : SourceState.Holds P { s with nextExpected := s.nextExpected + 1 } := h
        obtain ⟨hout, hheld⟩ := hstart.drain s.buffered.size
        refine ⟨fun c hmem => ?_, hheld⟩
        rcases List.mem_cons.mp hmem with rfl | hmem
        · exact hc
        · exact hout c hmem
      · have hadded : SourceState.Holds P
            { s with
              buffered := s.buffered.insert seq content
              gapSince := s.gapSince.or (some now) } := by
          intro k c hk
          simp only [Std.ExtTreeMap.getElem?_insert] at hk
          split at hk
          · cases hk
            exact hc
          · exact h k c hk
        simp only
        split
        · exact hadded.flush
        · exact ⟨by simp, hadded⟩

end SourceState.Holds

variable {a : Arrival κ}

theorem Pass.holds {src : NodeId} {P : κ → Prop} {b : ReorderBuffer κ}
    (hheld : ∀ now, (b.stateOf src now).Holds P)
    (harrived : ∀ seq c now, a = .message src seq c now → P c)
    (hkeeps : (⟨b, a, (b.handle a).1⟩ : Pass κ).Keeps src) :
    (∀ c ∈ ReorderBuffer.mine src (b.handle a).1, P c) ∧
      ∀ now, ((b.handle a).2.stateOf src now).Holds P := by
  have hknown : ∀ {s : SourceState κ}, (b.handle a).2.sources.get src = some s → s.Holds P →
      ∀ now, ((b.handle a).2.stateOf src now).Holds P := by
    intro s hs hholds now
    simpa [ReorderBuffer.stateOf, hs] using hholds
  have hsame : (b.handle a).2.sources.get src = b.sources.get src →
      ∀ now, ((b.handle a).2.stateOf src now).Holds P := by
    intro hget now
    rw [ReorderBuffer.stateOf_congr now hget]
    exact hheld now
  cases a with
  | poll now =>
    obtain ⟨hmine, hget⟩ := b.handle_poll src now
    obtain ⟨hout, hafter⟩ := (hheld now).flushStale b.gapTimeout now
    refine ⟨by rw [hmine]; exact hout, ?_⟩
    cases hs : b.sources.get src with
    | none => exact hsame (by rw [hget, hs]; rfl)
    | some s => exact hknown (by rw [hget, hs]; rfl) hafter
  | message source seq content now =>
    by_cases hsrc : source = src
    · subst hsrc
      have hcontent := harrived seq content now rfl
      obtain ⟨hout, hafter⟩ := (hheld now).flushStale b.gapTimeout now
      by_cases hseq : seq = 0
      · subst hseq
        obtain ⟨hmine, hget⟩ := b.handle_plain source content now
        refine ⟨fun c hc => ?_, ?_⟩
        · rw [hmine] at hc
          rcases List.mem_append.mp hc with hc | hc
          · exact hout c hc
          · exact List.mem_singleton.mp hc ▸ hcontent
        · cases hs : b.sources.get source with
          | none => exact hsame (by rw [hget, hs]; rfl)
          | some s =>
            exact hknown (s := { b.lazyState source now with lastActivity := now })
              (by rw [hget, hs]; rfl) hafter
      · obtain ⟨hmine, hget⟩ := b.handle_sequenced source hseq content now
        have hstamped : SourceState.Holds P { b.lazyState source now with lastActivity := now } :=
          hafter
        obtain ⟨hout', hafter'⟩ := hstamped.sequence b.maxPerSource seq hcontent now
        refine ⟨fun c hc => ?_, hknown hget hafter'⟩
        rw [hmine] at hc
        rcases List.mem_append.mp hc with hc | hc
        · exact hout c hc
        · exact hout' c hc
    · obtain ⟨hmine, hget⟩ := b.handle_other hsrc seq content now hkeeps
      exact ⟨by rw [hmine]; simp, hsame hget⟩

theorem Runs.holds {src : NodeId} {P : κ → Prop} {b b' : ReorderBuffer κ} {passes : List (Pass κ)}
    (hrun : Runs b passes b') (hkeeps : ∀ p ∈ passes, p.Keeps src)
    (hheld : ∀ now, (b.stateOf src now).Holds P)
    (harrived : ∀ p ∈ passes, ∀ seq c now, p.arrival = .message src seq c now → P c) :
    (∀ p ∈ passes, ∀ c ∈ ReorderBuffer.mine src p.out, P c) ∧
      ∀ now, (b'.stateOf src now).Holds P := by
  induction hrun with
  | nil b => exact ⟨by simp, hheld⟩
  | @cons b b' a rest t shuffle _ ih =>
    have hbefore : ∀ now, (({ b with sources := t } : ReorderBuffer κ).stateOf src now).Holds P := by
      intro now
      rw [ReorderBuffer.stateOf_congr now (shuffle.get src).symm]
      exact hheld now
    obtain ⟨hout, hafter⟩ := Pass.holds hbefore (harrived _ List.mem_cons_self)
      (hkeeps _ List.mem_cons_self)
    obtain ⟨hrest, hend⟩ := ih (fun p hp => hkeeps p (List.mem_cons_of_mem _ hp)) hafter
      (fun p hp => harrived p (List.mem_cons_of_mem _ hp))
    refine ⟨fun p hp => ?_, hend⟩
    rcases List.mem_cons.mp hp with rfl | hp
    · exact hout
    · exact hrest p hp

/-! ### A receiver past number 1 -/

/-- The receiver knows `src` and has moved past number 1. -/
def ReorderBuffer.PastOne (src : NodeId) (b : ReorderBuffer κ) : Prop :=
  ∃ s, b.sources.get src = some s ∧ 1 < s.nextExpected

namespace SourceState

/-- What is held is not below what is expected. -/
def Ahead (s : SourceState κ) : Prop :=
  ∀ (k : Nat) (c : κ), s.buffered[k]? = some c → s.nextExpected ≤ k

variable (s : SourceState κ)

theorem flush_next (h : s.Ahead) : s.nextExpected ≤ s.flush.2.2.nextExpected := by
  rcases s.flush_spec.2.2.2 with hsame | ⟨k, c, hk, hjump⟩
  · exact hsame.ge
  · have := h k c hk
    omega

theorem flushStale_next (h : s.Ahead) (gapTimeout : Duration) (now : Instant) :
    s.nextExpected ≤ (s.flushStale gapTimeout now).2.nextExpected := by
  unfold flushStale
  split
  · exact s.flush_next h
  · exact le_rfl

theorem drain_next (fuel : Nat) : s.nextExpected ≤ (s.drain fuel).2.nextExpected := by
  induction fuel generalizing s with
  | zero => exact le_rfl
  | succ fuel ih =>
    unfold drain
    cases s.buffered[s.nextExpected]? with
    | none => exact le_rfl
    | some c =>
      have := ih { s with
        buffered := s.buffered.erase s.nextExpected
        nextExpected := s.nextExpected + 1 }
      exact (Nat.le_succ s.nextExpected).trans this

theorem sequence_next (h : s.Ahead) (hpast : 1 < s.nextExpected) (maxPerSource seq : Nat)
    (content : κ) (now : Instant) :
    1 < (s.sequence maxPerSource seq content now).2.nextExpected := by
  unfold sequence
  split
  · exact Nat.one_lt_two
  · split
    · exact hpast
    · split
      · have := drain_next { s with nextExpected := s.nextExpected + 1 } s.buffered.size
        simp only at this ⊢
        omega
      · next hnotLate hne =>
        have hadded : Ahead
            { s with
              buffered := s.buffered.insert seq content
              gapSince := s.gapSince.or (some now) } := by
          intro k c hk
          simp only [Std.ExtTreeMap.getElem?_insert, Nat.compare_eq_eq] at hk
          split at hk
          · next heq =>
            simp only
            omega
          · exact h k c hk
        have := flush_next _ hadded
        simp only at this ⊢
        split
        · simp only
          omega
        · exact hpast

end SourceState

variable {src : NodeId} {rel : List (Stamped κ)} {b : ReorderBuffer (Stamped κ)}
  {last : Nat → Option (Stamped κ)}

theorem Known.ahead (h : Known src last rel b) (now : Instant) :
    (b.stateOf src now).Ahead ∧ (b.lazyState src now).Ahead :=
  ⟨fun k c hk => ((h.tally now).held k c hk).2, fun k c hk => ((h.lazy now).1.held k c hk).2⟩

theorem ReorderBuffer.PastOne.lazy (hpast : b.PastOne src) (h : Known src last rel b)
    (now : Instant) : 1 < (b.lazyState src now).nextExpected := by
  obtain ⟨s, hs, hlt⟩ := hpast
  have hstate : b.stateOf src now = s := by simp [stateOf, hs]
  have hnext := SourceState.flushStale_next _ (h.ahead now).1 b.gapTimeout now
  rw [hstate] at hnext
  unfold lazyState
  rw [hstate]
  omega

/-- A kept arrival leaves the receiver past number 1. -/
theorem ReorderBuffer.PastOne.pass (hpast : b.PastOne src) (h : Known src last rel b)
    {a : Arrival (Stamped κ)} (hkeeps : (⟨b, a, (b.handle a).1⟩ : Pass (Stamped κ)).Keeps src) :
    (b.handle a).2.PastOne src := by
  obtain ⟨s, hs, hlt⟩ := hpast
  have hlazy := fun now => ReorderBuffer.PastOne.lazy ⟨s, hs, hlt⟩ h now
  cases a with
  | poll now =>
    obtain ⟨_, hget⟩ := b.handle_poll src now
    exact ⟨_, by rw [hget, hs]; rfl, hlazy now⟩
  | message source seq content now =>
    by_cases hsrc : source = src
    · subst hsrc
      by_cases hseq : seq = 0
      · subst hseq
        obtain ⟨_, hget⟩ := b.handle_plain source content now
        exact ⟨{ b.lazyState source now with lastActivity := now }, by rw [hget, hs]; rfl, hlazy now⟩
      · obtain ⟨_, hget⟩ := b.handle_sequenced source hseq content now
        exact ⟨_, hget, SourceState.sequence_next { b.lazyState source now with lastActivity := now }
          (h.ahead now).2 (hlazy now) _ _ _ _⟩
    · obtain ⟨_, hget⟩ := b.handle_other hsrc seq content now hkeeps
      exact ⟨s, hget.trans hs, hlt⟩

variable {passes : List (Pass (Stamped κ))}

theorem Runs.pastOne {src : NodeId} {b b' : ReorderBuffer (Stamped κ)} (hrun : Runs b passes b')
    {n : Nat} {arrivals : List (Arrival κ)} (hstamps : passes.map Pass.arrival = stampAll n arrivals)
    (hkeeps : ∀ p ∈ passes, p.Keeps src) {last : Nat → Option (Stamped κ)} {rel : List (Stamped κ)}
    (h : Known src last rel b) (hindex : ∀ k x, last k = some x → x.index < n) (hpast : b.PastOne src) :
    b'.PastOne src ∧ ∃ last' rel', Known src last' rel' b' := by
  induction hrun generalizing n arrivals last rel with
  | nil b => exact ⟨hpast, last, rel, h⟩
  | @cons b b' a rest t shuffle _ ih =>
    cases arrivals with
    | nil => cases hstamps
    | cons a' arrivals =>
      obtain ⟨rfl, hrest⟩ := List.cons.inj hstamps
      have hbefore : Known src last rel { b with sources := t } := h.congr (shuffle.get src).symm
      have hpast' : ({ b with sources := t } : ReorderBuffer (Stamped κ)).PastOne src := by
        obtain ⟨s, hs, hlt⟩ := hpast
        exact ⟨s, (shuffle.get src).symm.trans hs, hlt⟩
      obtain ⟨last', rel', hnext, hindex'⟩ := hbefore.step n hindex a'
      exact ih hrest (fun p hp => hkeeps p (List.mem_cons_of_mem _ hp)) hnext hindex'
        (hpast'.pass hbefore (hkeeps _ List.mem_cons_self))

theorem SourceState.flush_gapSince (s : SourceState κ) : s.flush.2.2.gapSince = none := by
  unfold flush
  split <;> rfl

/-- A number 1 that meets a later one expected hands on all that is held, then
itself, and number 2 is expected with nothing held. -/
theorem ReorderBuffer.handle_restart {b : ReorderBuffer κ} {src : NodeId} {now : Instant}
    (habove : 1 < (b.lazyState src now).nextExpected) (content : κ) :
    mine src (b.handle (.message src 1 content now)).1 =
        ((b.stateOf src now).flushStale b.gapTimeout now).1 ++
          ((b.lazyState src now).flush.1 ++ [content]) ∧
      ∃ s, (b.handle (.message src 1 content now)).2.sources.get src = some s ∧
        s.nextExpected = 2 ∧ s.buffered = ∅ ∧ s.gapSince = none := by
  obtain ⟨hmine, hget⟩ := b.handle_sequenced src Nat.one_ne_zero content now
  have hrestart : ({ b.lazyState src now with lastActivity := now }.sequence b.maxPerSource 1
      content now) =
        (({ b.lazyState src now with lastActivity := now } : SourceState κ).flush.1 ++ [content],
          { ({ b.lazyState src now with lastActivity := now } : SourceState κ).flush.2.2 with
            nextExpected := 2 }) := by
    unfold SourceState.sequence
    rw [if_pos ⟨rfl, habove⟩]
  have hout : ({ b.lazyState src now with lastActivity := now } : SourceState κ).flush.1 =
      (b.lazyState src now).flush.1 := by
    rw [(SourceState.flush_spec _).1, (SourceState.flush_spec _).1]
    rfl
  rw [hrestart] at hmine hget
  refine ⟨by rw [hmine, hout], _, hget, rfl, (SourceState.flush_spec _).2.1, SourceState.flush_gapSince _⟩

theorem Runs.split {b b' : ReorderBuffer κ} {passes more : List (Pass κ)}
    (hrun : Runs b (passes ++ more) b') : ∃ m, Runs b passes m ∧ Runs m more b' := by
  induction passes generalizing b with
  | nil => exact ⟨b, .nil b, hrun⟩
  | cons p passes ih =>
    cases hrun with
    | cons t shuffle next =>
      obtain ⟨m, hpasses, hmore⟩ := ih next
      exact ⟨m, .cons t shuffle hpasses, hmore⟩

/-! ### The new stream -/

/-- The message of the new stream that a pass brings. -/
def Pass.renewed (src : NodeId) (fresh : Nat → Bool) (p : Pass (Stamped κ)) : Option (Stamped κ) :=
  match p.arrival with
  | .message source seq x _ => if source = src ∧ seq ≠ 0 ∧ fresh x.index then some x else none
  | .poll _ => none

/-- The pass takes a message of the old stream for one of the new: its number
is 1, or one that its lazy flush left expected. -/
def Pass.Mixes (src : NodeId) (fresh : Nat → Bool) (p : Pass (Stamped κ)) : Prop :=
  match p.arrival with
  | .message source seq x now =>
    source = src ∧ seq ≠ 0 ∧ fresh x.index = false ∧
      (seq = 1 ∨ (p.before.lazyState src now).nextExpected ≤ seq)
  | .poll _ => False

variable {p : Pass (Stamped κ)}

theorem Pass.Mixes.not_renewed {src : NodeId} {fresh : Nat → Bool} (h : p.Mixes src fresh) :
    p.renewed src fresh = none := by
  unfold Pass.Mixes at h
  unfold Pass.renewed
  cases harrival : p.arrival with
  | poll now => rfl
  | message source seq x now =>
    simp only [harrival] at h
    simp [h.2.2.1]

/-- Since `start` the buffer follows the new stream: `Tracks` holds of it, and
no gap is older than `start`. -/
def Rebased (src : NodeId) (contents : List κ) (done : List (Nat × κ)) (rel : List κ)
    (start : Instant) (b : ReorderBuffer κ) : Prop :=
  ∃ s, b.sources.get src = some s ∧ Tracks contents done rel s ∧
    s.buffered[s.nextExpected]? = none ∧ ∀ since, s.gapSince = some since → start ≤ since

theorem size_le_of_keys {m : Std.ExtTreeMap Nat κ} {n : Nat}
    (h : ∀ (k : Nat) (c : κ), m[k]? = some c → 1 ≤ k ∧ k ≤ n) : m.size ≤ n := by
  have hnodup : m.keys.Nodup :=
    m.ordered_keys.imp fun hlt => Nat.ne_of_lt (Nat.compare_eq_lt.mp hlt)
  have hsub : m.keys ⊆ List.range' 1 n := by
    intro k hk
    have hmem := Std.ExtTreeMap.mem_keys.mp hk
    obtain ⟨hone, hle⟩ := h k _ (Std.ExtTreeMap.getElem?_eq_some_getElem hmem)
    exact List.mem_range'_1.mpr ⟨hone, by omega⟩
  have hlength := (List.subperm_of_subset hnodup hsub).length_le
  rwa [Std.ExtTreeMap.length_keys, List.length_range'] at hlength

theorem SourceState.sequence_gap (s : SourceState κ) (maxPerSource seq : Nat) (content : κ)
    (now : Instant) {since : Instant}
    (h : (s.sequence maxPerSource seq content now).2.gapSince = some since) :
    since = now ∨ s.gapSince = some since := by
  unfold sequence at h
  split at h
  · simp [flush_gapSince] at h
  · split at h
    · exact .inr h
    · split at h
      · simp only [Option.ite_none_left_eq_some, Option.some.injEq] at h
        exact .inl h.2.symm
      · simp only at h
        split at h
        · simp [flush_gapSince] at h
        · cases hg : s.gapSince with
          | none =>
            simp only [hg, Option.none_or, Option.some.injEq] at h
            exact .inl h.symm
          | some old => exact .inr (by simpa [hg] using h)

/-- An arrival of either stream keeps the buffer on the new one. -/
theorem Rebased.pass {src : NodeId} {fresh : Nat → Bool} {contents : List (Stamped κ)}
    {done : List (Nat × Stamped κ)} {rel : List (Stamped κ)} {start : Instant}
    {b : ReorderBuffer (Stamped κ)} (h : Rebased src contents done rel start b) (n : Nat)
    (a : Arrival κ) (hp : p = ⟨b, a.stamp n, (b.handle (a.stamp n)).1⟩) (hkeeps : p.Keeps src)
    (hlater : start ≤ (a.stamp n).now) (hintime : (a.stamp n).now - start < b.gapTimeout)
    (hunmixed : ¬ p.Mixes src fresh)
    (hdone : ∀ e ∈ ((p.renewed src fresh).map fun x => (x.seq, x)).toList ++ done, e ∈ numbered contents)
    (hnew : ∀ x ∈ p.renewed src fresh, x.seq ∉ done.map Prod.fst)
    (hroom : contents.length ≤ b.maxPerSource) (hnumbers : ∀ x ∈ contents, x.seq ≠ 0) :
    Rebased src contents (((p.renewed src fresh).map fun x => (x.seq, x)).toList ++ done)
      (rel ++ p.released src) start (b.handle (a.stamp n)).2 := by
  obtain ⟨s, hs, htracks, hnext, hgap⟩ := h
  subst hp
  have hstate : ∀ now, b.stateOf src now = s := fun now => by simp [ReorderBuffer.stateOf, hs]
  have hopen : ∀ now, now = (a.stamp n).now → s.flushStale b.gapTimeout now = ([], s) := by
    rintro now rfl
    refine SourceState.flushStale_of_open fun since hsince => ?_
    have hle := hgap since hsince
    change (a.stamp n).now - since < b.gapTimeout
    exact lt_of_le_of_lt (Nat.sub_le_sub_left hle _) hintime
  have hlazy : ∀ now, now = (a.stamp n).now → b.lazyState src now = s := by
    intro now hnow
    rw [ReorderBuffer.lazyState, hstate, hopen now hnow]
  cases a with
  | poll now =>
    obtain ⟨hmine, hget⟩ := b.handle_poll src now
    rw [hstate, hopen now rfl] at hmine
    rw [hs, hlazy now rfl] at hget
    refine ⟨s, hget, ?_, hnext, hgap⟩
    simpa [Pass.renewed, Pass.released, Arrival.stamp, hmine] using htracks
  | message source seq content now =>
    by_cases hsrc : source = src
    · subst hsrc
      by_cases hseq : seq = 0
      · subst hseq
        obtain ⟨hmine, hget⟩ := b.handle_plain source (⟨n, 0, content⟩ : Stamped κ) now
        rw [hstate, hopen now rfl] at hmine
        rw [hs, hlazy now rfl] at hget
        refine ⟨_, hget, ?_, hnext, hgap⟩
        have hsame : Tracks contents done rel { s with lastActivity := now } :=
          { htracks with }
        simpa [Pass.renewed, Pass.released, Arrival.stamp, hmine] using hsame
      · obtain ⟨hmine, hget⟩ := b.handle_sequenced source hseq (⟨n, seq, content⟩ : Stamped κ) now
        rw [hstate, hopen now rfl, hlazy now rfl, List.nil_append] at hmine
        rw [hlazy now rfl] at hget
        have hstamped : Tracks contents done rel { s with lastActivity := now } :=
          { htracks with }
        cases hfresh : fresh n with
        | false =>
          -- a late message of the old stream
          have hlate : seq ≠ 1 ∧ seq < s.nextExpected := by
            simp only [Pass.Mixes, Arrival.stamp, hfresh, hseq, ne_eq, not_false_eq_true, true_and,
              not_or, Nat.not_le, hlazy now rfl] at hunmixed
            exact hunmixed
          have hdropped : ({ s with lastActivity := now } : SourceState (Stamped κ)).sequence
              b.maxPerSource seq ⟨n, seq, content⟩ now = ([], { s with lastActivity := now }) := by
            unfold SourceState.sequence
            rw [if_neg (fun h => hlate.1 h.1), if_pos hlate.2]
          rw [hdropped] at hmine hget
          refine ⟨_, hget, ?_, hnext, hgap⟩
          simpa [Pass.renewed, Pass.released, Arrival.stamp, hmine, hfresh] using hstamped
        | true =>
          have hrenewed : Pass.renewed source fresh
              ⟨b, (Arrival.message source seq content now).stamp n,
                (b.handle ((Arrival.message source seq content now).stamp n)).1⟩ =
                some ⟨n, seq, content⟩ := by
            simp [Pass.renewed, Arrival.stamp, hfresh, hseq]
          rw [hrenewed] at hdone hnew ⊢
          have hadded := hdone
          obtain ⟨hbooks, hdrained⟩ := hstamped.sequence b.maxPerSource now hnext hadded
            (hnew _ rfl) (by
              intro _
              refine (size_le_of_keys fun k c hk => ?_).trans hroom
              simp only [Std.ExtTreeMap.getElem?_insert, Nat.compare_eq_eq] at hk
              have hmem : (k, c) ∈ numbered contents := by
                split at hk
                · next heq =>
                  cases hk
                  exact heq ▸ hadded _ List.mem_cons_self
                · exact hadded _ (List.mem_cons_of_mem _ ((htracks.held k c).mp hk).2)
              exact numbered_mem_keys.mp (List.mem_map_of_mem (f := Prod.fst) hmem))
          refine ⟨_, hget, ?_, hdrained, ?_⟩
          · have hnumbered : (({ s with lastActivity := now } : SourceState (Stamped κ)).sequence
                b.maxPerSource seq ⟨n, seq, content⟩ now).1.filter (·.seq ≠ 0) =
                  (({ s with lastActivity := now } : SourceState (Stamped κ)).sequence
                    b.maxPerSource seq ⟨n, seq, content⟩ now).1 := by
              refine List.filter_eq_self.mpr fun x hx => ?_
              have hmem : x ∈ contents :=
                List.mem_of_mem_take (hbooks.released ▸ List.mem_append_right _ hx)
              simpa using hnumbers x hmem
            simp only [Pass.released, Arrival.stamp, hmine, hnumbered]
            exact hbooks
          · intro since hsince
            rcases SourceState.sequence_gap _ _ _ _ _ hsince with rfl | hold
            · exact hlater
            · exact hgap since hold
    · obtain ⟨hmine, hget⟩ := b.handle_other hsrc seq (⟨n, seq, content⟩ : Stamped κ) now hkeeps
      refine ⟨s, hget.trans hs, ?_, hnext, hgap⟩
      simpa [Pass.renewed, Pass.released, Arrival.stamp, hmine, hsrc] using htracks

variable {x : Stamped κ}

variable {n : Nat} {src : NodeId} {fresh : Nat → Bool} {arrivals : List (Arrival κ)}

theorem Pass.renewed_of_stamped (fresh : Nat → Bool) (hp : p.arrival = a.stamp n) {seq : Nat}
    {now : Instant} (harrival : p.arrival = .message src seq x now) :
    x.seq = seq ∧ p.renewed src fresh = if seq ≠ 0 ∧ fresh x.index then some x else none := by
  constructor
  · cases a with
    | poll now' =>
      rw [hp] at harrival
      cases harrival
    | message source seq' content now' =>
      rw [hp] at harrival
      cases harrival
      rfl
  · simp [Pass.renewed, harrival]

theorem stampAll_mem (hstamps : passes.map Pass.arrival = stampAll n arrivals) (hp : p ∈ passes) :
    ∃ i a, n ≤ i ∧ p.arrival = Arrival.stamp i a := by
  induction passes generalizing n arrivals with
  | nil => cases hp
  | cons q rest ih =>
    cases arrivals with
    | nil => cases hstamps
    | cons a arrivals =>
      obtain ⟨hq, hrest⟩ := List.cons.inj hstamps
      rcases List.mem_cons.mp hp with rfl | hp
      · exact ⟨n, a, Nat.le_refl n, hq⟩
      · obtain ⟨i, a, hle, hstamp⟩ := ih hrest hp
        exact ⟨i, a, by omega, hstamp⟩

theorem stampAll_split {more : List (Pass (Stamped κ))}
    (hstamps : (passes ++ more).map Pass.arrival = stampAll n arrivals) :
    ∃ front back, passes.map Pass.arrival = stampAll n front ∧
      more.map Pass.arrival = stampAll (n + passes.length) back := by
  induction passes generalizing n arrivals with
  | nil => exact ⟨[], arrivals, rfl, hstamps⟩
  | cons p passes ih =>
    cases arrivals with
    | nil => cases hstamps
    | cons a arrivals =>
      obtain ⟨hp, hrest⟩ := List.cons.inj hstamps
      obtain ⟨front, back, hfront, hback⟩ := ih hrest
      refine ⟨a :: front, back, ?_, ?_⟩
      · rw [List.map_cons, hp, hfront, stampAll]
      · rw [hback, List.length_cons, Nat.add_right_comm, Nat.add_assoc]

/-- The messages of the new stream among those released. -/
def renewedReleases (src : NodeId) (fresh : Nat → Bool) (passes : List (Pass (Stamped κ))) :
    List (Stamped κ) :=
  (passes.flatMap (Pass.released src)).filter fun x => fresh x.index

theorem renewedReleases_append (src : NodeId) (fresh : Nat → Bool)
    (passes more : List (Pass (Stamped κ))) :
    renewedReleases src fresh (passes ++ more) =
      renewedReleases src fresh passes ++ renewedReleases src fresh more := by
  simp [renewedReleases]

theorem Runs.renewedReleases_nil {b b' : ReorderBuffer (Stamped κ)} (hrun : Runs b passes b')
    (hstamps : passes.map Pass.arrival = stampAll n arrivals) (hkeeps : ∀ p ∈ passes, p.Keeps src)
    (hheld : ∀ now, (b.stateOf src now).Holds fun x => x.seq = 0 ∨ fresh x.index = false)
    (hnone : ∀ p ∈ passes, p.renewed src fresh = none) : renewedReleases src fresh passes = [] ∧
      ∀ now, (b'.stateOf src now).Holds fun x => x.seq = 0 ∨ fresh x.index = false := by
  obtain ⟨hout, hafter⟩ := hrun.holds hkeeps hheld (by
    intro p hp seq x now harrival
    obtain ⟨i, a, _, hstamp⟩ := stampAll_mem hstamps hp
    obtain ⟨hseq, hrenewed⟩ := Pass.renewed_of_stamped fresh hstamp harrival
    rw [hnone p hp] at hrenewed
    by_cases hzero : seq = 0
    · exact .inl (hseq.trans hzero)
    · refine .inr (Bool.eq_false_iff.mpr fun hfresh => ?_)
      rw [if_pos ⟨hzero, hfresh⟩] at hrenewed
      cases hrenewed)
  refine ⟨List.filter_eq_nil_iff.mpr fun x hx => ?_, hafter⟩
  obtain ⟨p, hp, hxp⟩ := List.mem_flatMap.mp hx
  obtain ⟨hmine, hnumbered⟩ := List.mem_filter.mp hxp
  rcases hout p hp x hmine with hzero | hold
  · simp [hzero] at hnumbered
  · simp [hold]

theorem Runs.rebased {contents : List (Stamped κ)} {start : Instant}
    {b b' : ReorderBuffer (Stamped κ)} {rest : List (Pass (Stamped κ))} (hrun : Runs b rest b')
    (hstamps : rest.map Pass.arrival = stampAll n arrivals) (hkeeps : ∀ p ∈ rest, p.Keeps src)
    (hfresh : ∀ x ∈ contents, fresh x.index = true ∧ x.seq ≠ 0)
    (hsorted : rest.Pairwise fun p q => p.arrival.now ≤ q.arrival.now)
    (hstart : ∀ p ∈ rest, start ≤ p.arrival.now)
    (hunmixed : ∀ before p behind, rest = before ++ p :: behind → p.Mixes src fresh →
      ∀ q ∈ behind, q.renewed src fresh = none)
    (hwithin : ∀ p ∈ rest, p.renewed src fresh ≠ none → p.arrival.now - start < b.gapTimeout)
    (hroom : contents.length ≤ b.maxPerSource) {done : List (Nat × Stamped κ)}
    {rel : List (Stamped κ)} (h : Rebased src contents done rel start b)
    (hperm : (done ++ (rest.filterMap (Pass.renewed src fresh)).map fun x => (x.seq, x)).Perm (numbered contents)) :
    rel ++ renewedReleases src fresh rest = contents := by
  induction hrun generalizing n arrivals done rel with
  | nil b =>
    obtain ⟨s, _, htracks, hnext, _⟩ := h
    have hperm' : done.Perm (numbered contents) := by simpa using hperm
    simpa [renewedReleases] using (htracks.complete hnext hperm').1
  | @cons b b' a rest t shuffle next ih =>
    have hrun : Runs b (⟨{ b with sources := t }, a, ({ b with sources := t }.handle a).1⟩ :: rest)
        b' := .cons t shuffle next
    by_cases hmore : ∀ p ∈ (⟨{ b with sources := t }, a,
        ({ b with sources := t }.handle a).1⟩ : Pass (Stamped κ)) :: rest,
        p.renewed src fresh = none
    · -- all have arrived, so all are released
      obtain ⟨s, hs, htracks, hnext, _⟩ := h
      have hnil : (_ :: rest).filterMap (Pass.renewed src fresh) = [] :=
        List.filterMap_eq_nil_iff.mpr hmore
      rw [hnil, List.map_nil, List.append_nil] at hperm
      obtain ⟨hrel, hempty⟩ := htracks.complete hnext hperm
      have hheld : ∀ now, (b.stateOf src now).Holds
          fun x => x.seq = 0 ∨ fresh x.index = false := by
        intro now k x hk
        simp [ReorderBuffer.stateOf, hs, hempty] at hk
      rw [(hrun.renewedReleases_nil hstamps hkeeps hheld hmore).1, List.append_nil, hrel]
    · cases arrivals with
      | nil => cases hstamps
      | cons a' arrivals =>
        obtain ⟨rfl, hrest⟩ := List.cons.inj hstamps
        generalize hp : (⟨{ b with sources := t }, a'.stamp n,
          ({ b with sources := t }.handle (a'.stamp n)).1⟩ : Pass (Stamped κ)) = p at *
        have harrival : p.arrival = a'.stamp n := by rw [← hp]
        obtain ⟨habove, hsorted'⟩ := List.pairwise_cons.mp hsorted
        -- some message of the new stream is still to come
        simp only [not_forall] at hmore
        obtain ⟨q, hq, hrenewed⟩ := hmore
        have hle : p.arrival.now ≤ q.arrival.now := by
          rcases List.mem_cons.mp hq with rfl | hq
          · exact le_rfl
          · exact habove q hq
        have hintime : (a'.stamp n).now - start < b.gapTimeout := by
          rw [← harrival]
          exact lt_of_le_of_lt (Nat.sub_le_sub_right hle start) (hwithin q hq hrenewed)
        have hnot : ¬ p.Mixes src fresh := by
          intro hmixes
          rcases List.mem_cons.mp hq with rfl | hq
          · exact hrenewed hmixes.not_renewed
          · exact hrenewed (hunmixed [] p rest rfl hmixes q hq)
        have hbefore : Rebased src contents done rel start { b with sources := t } := by
          obtain ⟨s, hs, hstate⟩ := h
          exact ⟨s, (shuffle.get src).symm.trans hs, hstate⟩
        have hsplit : (p :: rest).filterMap (Pass.renewed src fresh) =
            (p.renewed src fresh).toList ++ rest.filterMap (Pass.renewed src fresh) := by
          cases hr : p.renewed src fresh <;> simp [hr]
        have hperm' : ((((p.renewed src fresh).map fun x => (x.seq, x)).toList ++ done) ++
            (rest.filterMap (Pass.renewed src fresh)).map fun x => (x.seq, x)).Perm
              (numbered contents) := by
          rw [hsplit, List.map_append, ← Option.toList_map, ← List.append_assoc] at hperm
          exact (List.perm_append_comm.append_right _).trans hperm
        have hnodup := (hperm'.map Prod.fst).nodup_iff.mpr (numbered_keys_nodup contents)
        have hpass := hbefore.pass n a' hp.symm (hkeeps p List.mem_cons_self)
          (harrival ▸ hstart p List.mem_cons_self) hintime hnot
          (fun e he => hperm'.mem_iff.mp (List.mem_append_left _ he))
          (by
            intro x hx
            rw [Option.mem_def.mp hx] at hnodup
            simp only [Option.map_some, Option.toList_some, List.cons_append, List.nil_append,
              List.map_cons, List.nodup_cons, List.map_append, List.mem_append, not_or] at hnodup
            exact hnodup.1.1)
          hroom (fun x hx => (hfresh x hx).2)
        have hlimits := ReorderBuffer.handle_limits { b with sources := t } (a'.stamp n)
        have hcarried := ih hrest (fun q hq => hkeeps q (List.mem_cons_of_mem _ hq)) hsorted'
          (fun q hq => hstart q (List.mem_cons_of_mem _ hq))
          (fun before q behind heq => hunmixed (p :: before) q behind (by rw [heq]; rfl))
          (fun q hq hr => by rw [hlimits.2]; exact hwithin q (List.mem_cons_of_mem _ hq) hr)
          (by rw [hlimits.1]; exact hroom) hpass hperm'
        -- what the pass releases is of the new stream
        have hreleased : renewedReleases src fresh [p] = p.released src := by
          obtain ⟨s, _, htracks, _⟩ := hpass
          simp only [renewedReleases, List.flatMap_cons, List.flatMap_nil, List.append_nil]
          refine List.filter_eq_self.mpr fun x hx => ?_
          exact (hfresh x (List.mem_of_mem_take
            (htracks.released ▸ List.mem_append_right _ hx))).1
        rw [← List.singleton_append, renewedReleases_append, hreleased, ← List.append_assoc]
        exact hcarried

/-! ### The whole of a restart -/

theorem Runs.limits {b b' : ReorderBuffer κ} {passes : List (Pass κ)} (hrun : Runs b passes b') :
    b'.maxPerSource = b.maxPerSource ∧ b'.gapTimeout = b.gapTimeout := by
  induction hrun with
  | nil b => exact ⟨rfl, rfl⟩
  | @cons b b' a rest t shuffle _ ih =>
    have hlimits := ReorderBuffer.handle_limits { b with sources := t } a
    exact ⟨ih.1.trans hlimits.1, ih.2.trans hlimits.2⟩

theorem Pass.arrival_of_renewed (hp : p.arrival = a.stamp n) (hx : p.renewed src fresh = some x) :
    ∃ now, p.arrival = .message src x.seq x now ∧ fresh x.index = true ∧ x.seq ≠ 0 := by
  unfold Pass.renewed at hx
  cases a with
  | poll now => simp [hp, Arrival.stamp] at hx
  | message source seq content now =>
    simp only [hp, Arrival.stamp, Option.ite_none_right_eq_some, Option.some.injEq] at hx
    obtain ⟨⟨rfl, hseq, hfresh⟩, rfl⟩ := hx
    exact ⟨now, hp, hfresh, hseq⟩

theorem stampAll_renewed (hstamps : passes.map Pass.arrival = stampAll n arrivals) (hp : p ∈ passes)
    (hx : p.renewed src fresh = some x) : fresh x.index = true ∧ x.seq ≠ 0 := by
  obtain ⟨_, _, _, hstamp⟩ := stampAll_mem hstamps hp
  obtain ⟨_, _, hfresh⟩ := Pass.arrival_of_renewed hstamp hx
  exact hfresh

theorem numbered_of_seqs (contents : List (Stamped κ))
    (h : contents.map (·.seq) = List.range' 1 contents.length) :
    numbered contents = contents.map fun x => (x.seq, x) := by
  apply List.ext_getElem?
  intro i
  have hi := congrArg (·[i]?) h
  simp only [List.getElem?_map] at hi
  simp only [numbered, List.getElem?_map, List.getElem?_zipIdx]
  cases hx : contents[i]? with
  | none => rfl
  | some x =>
    have hlt := (List.getElem?_eq_some_iff.mp hx).1
    rw [hx, List.getElem?_range' hlt] at hi
    simp only [Option.map_some, Option.some.injEq] at hi ⊢
    rw [hi, Nat.one_mul]

/-- The messages of a new stream, numbered from 1 to `n`: each arrives once in
the stretch, they arrive within the gap timeout of one another, and they fit
into the buffer. -/
structure NewStream (src : NodeId) (fresh : Nat → Bool) (n : Nat) (b : ReorderBuffer (Stamped κ))
    (stretch : List (Pass (Stamped κ))) : Prop where
  numbers : ((stretch.filterMap (Pass.renewed src fresh)).map (·.seq)).Perm (List.range' 1 n)
  within : ∀ p ∈ stretch, ∀ q ∈ stretch, p.renewed src fresh ≠ none →
    q.renewed src fresh ≠ none → q.arrival.now - p.arrival.now < b.gapTimeout
  fits : n ≤ b.maxPerSource

/-- Number 1 of the new stream comes before its other messages. -/
def FirstComesFirst (src : NodeId) (fresh : Nat → Bool) (stretch : List (Pass (Stamped κ))) :
    Prop :=
  ∀ before p behind, stretch = before ++ p :: behind →
    (p.renewed src fresh).map (·.seq) = some 1 → ∀ q ∈ before, q.renewed src fresh = none

/-- While the new stream is under way, no message of the old one is taken for
one of its own. -/
def Unmixed (src : NodeId) (fresh : Nat → Bool) (stretch : List (Pass (Stamped κ))) : Prop :=
  ∀ before p behind, stretch = before ++ p :: behind → p.Mixes src fresh →
    (∃ q ∈ before, q.renewed src fresh ≠ none) → ∀ q ∈ behind, q.renewed src fresh = none

theorem forall_split_iff {α : Type} {l : List α} {P : List α → α → List α → Prop} :
    (∀ before p behind, l = before ++ p :: behind → P before p behind) ↔
      ∀ i : Fin l.length, P (l.take i) (l.get i) (l.drop (i + 1)) := by
  constructor
  · intro h i
    refine h _ _ _ ?_
    rw [List.get_eq_getElem, ← List.drop_eq_getElem_cons, List.take_append_drop]
  · rintro h before p behind rfl
    simpa using h ⟨before.length, by simp⟩

instance (src : NodeId) (fresh : Nat → Bool) (p : Pass (Stamped κ)) : Decidable (p.Mixes src fresh) :=
  match p with
  | ⟨_, .message .., _⟩ => inferInstanceAs (Decidable (_ ∧ _))
  | ⟨_, .poll _, _⟩ => inferInstanceAs (Decidable False)

instance [DecidableEq κ] (src : NodeId) (fresh : Nat → Bool) (stretch : List (Pass (Stamped κ))) :
    Decidable (FirstComesFirst src fresh stretch) :=
  decidable_of_iff' _ forall_split_iff

instance [DecidableEq κ] (src : NodeId) (fresh : Nat → Bool) (stretch : List (Pass (Stamped κ))) :
    Decidable (Unmixed src fresh stretch) :=
  decidable_of_iff' _ forall_split_iff

theorem Runs.restart {m b' : ReorderBuffer (Stamped κ)} {behind : List (Pass (Stamped κ))}
    (hrun : Runs m (p :: behind) b') (hp : p.arrival = a.stamp n)
    (hx : p.renewed src fresh = some x) (hone : x.seq = 1) (hpast : m.PastOne src)
    {last : Nat → Option (Stamped κ)} {rel : List (Stamped κ)} (hknown : Known src last rel m) :
    ∃ old m', Runs m' behind b' ∧ p.released src = old ++ [x] ∧
      (∀ P : Stamped κ → Prop, (∀ now, (m.stateOf src now).Holds P) → ∀ y ∈ old, P y) ∧
      (∃ s, m'.sources.get src = some s ∧ s.nextExpected = 2 ∧ s.buffered = ∅ ∧
        s.gapSince = none) ∧
      m'.maxPerSource = m.maxPerSource ∧ m'.gapTimeout = m.gapTimeout := by
  obtain ⟨now, harrival, _, hseq⟩ := Pass.arrival_of_renewed hp hx
  cases hrun with
  | @cons _ _ a' _ t shuffle next =>
    simp only at harrival
    subst harrival
    rw [hone] at next hp ⊢
    have hget : ({ m with sources := t } : ReorderBuffer (Stamped κ)).sources.get src =
        m.sources.get src := (shuffle.get src).symm
    have habove : 1 < (({ m with sources := t } : ReorderBuffer (Stamped κ)).lazyState src
        now).nextExpected := by
      obtain ⟨s, hs, hlt⟩ := hpast
      exact ReorderBuffer.PastOne.lazy ⟨s, hget.trans hs, hlt⟩ (hknown.congr hget) now
    obtain ⟨hmine, hafter⟩ := ReorderBuffer.handle_restart habove x
    have hlimits := ReorderBuffer.handle_limits { m with sources := t } (.message src 1 x now)
    let b : ReorderBuffer (Stamped κ) := { m with sources := t }
    refine ⟨(((b.stateOf src now).flushStale b.gapTimeout now).1 ++
      (b.lazyState src now).flush.1).filter (·.seq ≠ 0), _, next, ?_, ?_, hafter, hlimits.1,
      hlimits.2⟩
    · simp only [Pass.released, hmine]
      rw [← List.append_assoc, List.filter_append]
      congr 1
      simp [hone]
    · intro P hP y hy
      have hholds : ∀ now, (({ m with sources := t } : ReorderBuffer (Stamped κ)).stateOf src
          now).Holds P := by
        intro now
        rw [ReorderBuffer.stateOf_congr now hget]
        exact hP now
      obtain ⟨hstale, hlazy⟩ := (hholds now).flushStale m.gapTimeout now
      rcases List.mem_append.mp (List.mem_filter.mp hy).1 with hy | hy
      · exact hstale y hy
      · exact SourceState.Holds.flush hlazy |>.1 y hy

section Restart

variable {src : NodeId} {fresh : Nat → Bool} {n : Nat} {b b' : ReorderBuffer (Stamped κ)}
  {stretch : List (Pass (Stamped κ))} {k : Nat} {arrivals : List (Arrival κ)}
  {last : Nat → Option (Stamped κ)} {rel : List (Stamped κ)}

theorem Runs.atFirst {before behind : List (Pass (Stamped κ))} {p : Pass (Stamped κ)}
    (hrun : Runs b (before ++ p :: behind) b')
    (hstamps : (before ++ p :: behind).map Pass.arrival = stampAll k arrivals)
    (hkeeps : ∀ q ∈ before ++ p :: behind, q.Keeps src) (hknown : Known src last rel b)
    (hindex : ∀ j x, last j = some x → x.index < k) (hpast : b.PastOne src) {x : Stamped κ}
    (hx : p.renewed src fresh = some x) (hone : x.seq = 1) :
    ∃ m m' old, Runs b before m ∧ Runs m' behind b' ∧ p.released src = old ++ [x] ∧
      (∀ P : Stamped κ → Prop, (∀ now, (m.stateOf src now).Holds P) → ∀ y ∈ old, P y) ∧
      (∃ s, m'.sources.get src = some s ∧ s.nextExpected = 2 ∧ s.buffered = ∅ ∧
        s.gapSince = none) ∧
      m'.maxPerSource = b.maxPerSource ∧ m'.gapTimeout = b.gapTimeout := by
  obtain ⟨m, hbefore, hrest⟩ := hrun.split
  obtain ⟨i, a, _, hp⟩ := stampAll_mem hstamps (p := p) (by simp)
  obtain ⟨front, _, hfront, _⟩ := stampAll_split hstamps
  obtain ⟨hpast', last', rel', hknown'⟩ := hbefore.pastOne hfront
    (fun q hq => hkeeps q (List.mem_append_left _ hq)) hknown hindex hpast
  obtain ⟨old, m', hbehind, hreleased, hold, hafter, hroom, htimeout⟩ :=
    hrest.restart hp hx hone hpast' hknown'
  exact ⟨m, m', old, hbefore, hbehind, hreleased, hold, hafter, hroom.trans hbefore.limits.1,
    htimeout.trans hbefore.limits.2⟩

theorem Known.holds_old (hknown : Known src last rel b)
    (hindex : ∀ j x, last j = some x → x.index < k) (hold : ∀ i < k, fresh i = false)
    (now : Instant) :
    (b.stateOf src now).Holds fun x => x.seq = 0 ∨ fresh x.index = false :=
  fun j x hx => .inr (hold _ (hindex j x ((hknown.tally now).held j x hx).1))

section

variable (hrun : Runs b stretch b') (hstamps : stretch.map Pass.arrival = stampAll k arrivals)
  (hstream : NewStream src fresh n b stretch) (hkeeps : ∀ q ∈ stretch, q.Keeps src)
  (hknown : Known src last rel b) (hindex : ∀ j x, last j = some x → x.index < k)
include hrun hstamps hstream hkeeps hknown hindex

/-- The new stream comes out whole and in order. -/
theorem NewStream.released (hold : ∀ i < k, fresh i = false) (hpast : b.PastOne src)
    (htimes : stretch.Pairwise fun p q => p.arrival.now ≤ q.arrival.now)
    (hfirst : FirstComesFirst src fresh stretch) (hunmixed : Unmixed src fresh stretch) :
    (renewedReleases src fresh stretch).map (·.seq) = List.range' 1 n := by
  have hheld := hknown.holds_old hindex hold
  by_cases hzero : n = 0
  · subst hzero
    have hnil : stretch.filterMap (Pass.renewed src fresh) = [] := by
      simpa using hstream.numbers
    rw [(hrun.renewedReleases_nil hstamps hkeeps hheld (List.filterMap_eq_nil_iff.mp hnil)).1]
    rfl
  · -- the new messages in the order of their numbers
    have hlift := congrFun₂ (List.eq_map_comp_perm fun x : Stamped κ => x.seq) (List.range' 1 n)
      (stretch.filterMap (Pass.renewed src fresh))
    obtain ⟨contents, hcontents, hperm⟩ := hlift.mpr hstream.numbers.symm
    have hlength : contents.length = n := by simpa using (congrArg List.length hcontents).symm
    have hnumbered := numbered_of_seqs contents (by rw [hlength]; exact hcontents.symm)
    -- the pass of number 1
    have hmem : 1 ∈ contents.map (·.seq) := by
      rw [← hcontents]
      exact List.mem_range'_1.mpr ⟨Nat.le_refl 1, by omega⟩
    obtain ⟨x, hx, hone⟩ := List.mem_map.mp hmem
    obtain ⟨p, hp, hpx⟩ := List.mem_filterMap.mp (hperm.mem_iff.mp hx)
    obtain ⟨before, behind, rfl⟩ := List.append_of_mem hp
    obtain ⟨m, m', old, hbefore, hbehind, hreleased, hfrom, ⟨s, hs, hnext, hempty, hgap⟩, hroom,
      htimeout⟩ := hrun.atFirst hstamps hkeeps hknown hindex hpast hpx hone
    obtain ⟨front, back, hfront, hback⟩ := stampAll_split hstamps
    have hnone := hfirst before p behind rfl (by simp [hpx, hone])
    obtain ⟨hquiet, hheld'⟩ := hbefore.renewedReleases_nil hfront
      (fun q hq => hkeeps q (List.mem_append_left _ hq)) hheld hnone
    obtain ⟨hxfresh, _⟩ := stampAll_renewed hstamps hp hpx
    have hthis : renewedReleases src fresh [p] = [x] := by
      simp only [renewedReleases, List.flatMap_cons, List.flatMap_nil, List.append_nil, hreleased,
        List.filter_append]
      have hnumbered : ∀ y ∈ old, y.seq ≠ 0 := by
        intro y hy
        have hy' : y ∈ p.released src := hreleased ▸ List.mem_append_left _ hy
        simpa using (List.mem_filter.mp hy').2
      have hnil : old.filter (fun y => fresh y.index) = [] := by
        refine List.filter_eq_nil_iff.mpr fun y hy => ?_
        rcases hfrom _ hheld' y hy with hzero' | hstale
        · exact absurd hzero' (hnumbered y hy)
        · simp [hstale]
      rw [hnil, List.nil_append]
      simp [hxfresh]
    have hnilBefore : before.filterMap (Pass.renewed src fresh) = [] :=
      List.filterMap_eq_nil_iff.mpr hnone
    have hall : contents.Perm (x :: behind.filterMap (Pass.renewed src fresh)) := by
      simpa [hnilBefore, List.filterMap_cons, hpx] using hperm
    have hfreshAll : ∀ y ∈ contents, fresh y.index = true ∧ y.seq ≠ 0 := by
      intro y hy
      obtain ⟨q, hq, hqy⟩ := List.mem_filterMap.mp (hperm.mem_iff.mp hy)
      exact stampAll_renewed hstamps hq hqy
    have hdone : ([(1, x)] ++ (behind.filterMap (Pass.renewed src fresh)).map
        fun y : Stamped κ => (y.seq, y)).Perm (numbered contents) := by
      rw [hnumbered, ← hone]
      exact (hall.map fun y : Stamped κ => (y.seq, y)).symm
    have htracks : Tracks contents [(1, x)] [x] s := by
      have hhead := (mem_numbered.mp (hdone.mem_iff.mp (by simp : (1, x) ∈ _))).2
      refine ⟨by omega, ?_, ?_, ?_⟩
      · rw [hnext]
        cases contents with
        | nil => cases hhead
        | cons y rest => simpa using hhead.symm
      · intro j hj hlt
        have : j = 1 := by omega
        simp [this]
      · intro j c
        simp only [hempty, hnext, List.mem_singleton, Prod.mk.injEq]
        constructor
        · nofun
        · rintro ⟨hle, rfl, _⟩
          omega
    have hrebased : Rebased src contents [(1, x)] [x] p.arrival.now m' :=
      ⟨s, hs, htracks, by simp [hempty], by simp [hgap]⟩
    have hpairwise := List.pairwise_append.mp htimes
    obtain ⟨hlater, hsorted⟩ := List.pairwise_cons.mp hpairwise.2.1
    have hbackStamps : behind.map Pass.arrival = stampAll (k + before.length + 1) (back.drop 1) := by
      cases back with
      | nil => cases hback
      | cons a' back => exact (List.cons.inj hback).2
    have hrest := hbehind.rebased hbackStamps
      (fun q hq => hkeeps q (by simp [hq])) hfreshAll hsorted hlater
      (by
        intro before' q behind' heq hmixes
        exact hunmixed (before ++ p :: before') q behind' (by simp [heq]) hmixes
          ⟨p, by simp, by simp [hpx]⟩)
      (by
        intro q hq hr
        rw [htimeout]
        exact hstream.within p (by simp) q (by simp [hq]) (by simp [hpx]) hr)
      (by rw [hroom, hlength]; exact hstream.fits) hrebased hdone
    have hreleases : renewedReleases src fresh (before ++ p :: behind) = contents := by
      rw [renewedReleases_append, hquiet, List.nil_append, ← List.singleton_append,
        renewedReleases_append, hthis]
      exact hrest
    rw [hreleases, hcontents]

/-- Where the new stream is released in order, its number 1 came first: a
message that overtakes it is dropped, or handed on before it, or lost. -/
theorem NewStream.firstComesFirst (hpast : b.PastOne src)
    (hreleases : (renewedReleases src fresh stretch).map (·.seq) = List.range' 1 n) :
    FirstComesFirst src fresh stretch := by
  rintro before p behind rfl hnumber q hq
  by_contra hrenewed
  obtain ⟨x, hpx, hone⟩ := Option.map_eq_some_iff.mp hnumber
  obtain ⟨y, hqy⟩ := Option.ne_none_iff_exists'.mp hrenewed
  obtain ⟨m, m', old, hbefore, hbehind, hreleased, _, ⟨s, hs, _, hempty, _⟩, _, _⟩ :=
    hrun.atFirst hstamps hkeeps hknown hindex hpast hpx hone
  obtain ⟨front, back, _, hback⟩ := stampAll_split hstamps
  -- no other message of the new stream has the number of `y`
  have hnodup := hstream.numbers.nodup_iff.mpr List.nodup_range'
  simp only [List.filterMap_append, List.filterMap_cons, hpx, List.map_append, List.map_cons]
    at hnodup
  have hmem : y.seq ∈ (before.filterMap (Pass.renewed src fresh)).map (·.seq) :=
    List.mem_map_of_mem (List.mem_filterMap.mpr ⟨q, hq, hqy⟩)
  have hapart := (List.nodup_append.mp hnodup).2.2 _ hmem
  have hne : y.seq ≠ 1 := hone ▸ hapart x.seq List.mem_cons_self
  -- behind number 1 the number of `y` is not released any more
  obtain ⟨_, hyseq⟩ := stampAll_renewed hstamps (List.mem_append_left _ hq) hqy
  have hbehindNone : ∀ z ∈ renewedReleases src fresh behind, z.seq ≠ y.seq := by
    obtain ⟨hout, _⟩ := hbehind.holds
      (P := fun z => ¬ (fresh z.index = true ∧ z.seq = y.seq))
      (fun r hr => hkeeps r (by simp [hr]))
      (by
        intro now j z hz
        simp [ReorderBuffer.stateOf, hs, hempty] at hz)
      (by
        rintro r hr seq z now harrival ⟨hfresh, hsame⟩
        obtain ⟨_, _, _, hrstamp⟩ := stampAll_mem hback (List.mem_cons_of_mem p hr)
        obtain ⟨hseq, hrenewed⟩ := Pass.renewed_of_stamped fresh hrstamp harrival
        rw [if_pos ⟨by rw [← hseq, hsame]; exact hyseq, hfresh⟩] at hrenewed
        have hin : z.seq ∈ x.seq :: (behind.filterMap (Pass.renewed src fresh)).map (·.seq) :=
          List.mem_cons_of_mem _ (List.mem_map_of_mem (List.mem_filterMap.mpr ⟨r, hr, hrenewed⟩))
        exact hapart z.seq hin hsame.symm)
    intro z hz hsame
    obtain ⟨hzin, hzfresh⟩ := List.mem_filter.mp hz
    obtain ⟨r, hr, hzr⟩ := List.mem_flatMap.mp hzin
    exact hout r hr z (List.mem_filter.mp hzr).1 ⟨hzfresh, hsame⟩
  -- and ahead of it nothing of the new stream is released
  have hthis : renewedReleases src fresh [p] = old.filter (fun z => fresh z.index) ++ [x] := by
    obtain ⟨hxfresh, _⟩ := stampAll_renewed hstamps (p := p) (by simp) hpx
    simp [renewedReleases, hreleased, hxfresh]
  rw [← List.singleton_append, renewedReleases_append, renewedReleases_append, hthis,
    List.append_assoc, List.singleton_append, ← List.append_assoc, List.map_append,
    List.map_cons] at hreleases
  have hin : y.seq ∈ List.range' 1 n :=
    hstream.numbers.mem_iff.mp (List.mem_map_of_mem (List.mem_filterMap.mpr
      ⟨q, List.mem_append_left _ hq, hqy⟩))
  have hsorted := List.pairwise_lt_range' (s := 1) (n := n)
  rw [← hreleases] at hin hsorted
  rcases List.mem_append.mp hin with hahead | hbehindIn
  · have := (List.pairwise_append.mp hsorted).2.2 _ hahead x.seq List.mem_cons_self
    omega
  · rcases List.mem_cons.mp hbehindIn with hsame | hlater
    · exact hne (hsame.trans hone)
    · obtain ⟨z, hz, hzy⟩ := List.mem_map.mp hlater
      exact hbehindNone z hz hzy

end

end Restart

/-- A restarted sender's stream. Let the receiver be past number 1 of the old
stream, in any state a run has led to, and let all `n` messages of the new
stream arrive, in any order, amid late messages of the old one, messages of
other sources and polls. The new stream is released, in order, if its number 1
comes before its other messages and no message of the old stream is taken for
one of the new; it is not, if another message comes before its number 1. -/
theorem restartedStream_released {maxPerSource maxSources : Nat} {gapTimeout : Duration}
    {before stretch : List (Pass (Stamped κ))} {b b' : ReorderBuffer (Stamped κ)}
    {earlier arrivals : List (Arrival κ)}
    (start : Runs (ReorderBuffer.new maxPerSource maxSources gapTimeout) before b)
    (stamps : before.map Pass.arrival = stampAll 0 earlier)
    (run : Runs b stretch b')
    (stamps' : stretch.map Pass.arrival = stampAll earlier.length arrivals)
    (src : NodeId) (past : b.PastOne src) (fresh : Nat → Bool)
    (old : ∀ i < earlier.length, fresh i = false) {n : Nat}
    (stream : NewStream src fresh n b stretch)
    (times : stretch.Pairwise fun p q => p.arrival.now ≤ q.arrival.now)
    (keeps : ∀ p ∈ stretch, p.Keeps src) :
    (FirstComesFirst src fresh stretch ∧ Unmixed src fresh stretch →
      (renewedReleases src fresh stretch).map (·.seq) = List.range' 1 n) ∧
    ((renewedReleases src fresh stretch).map (·.seq) = List.range' 1 n →
      FirstComesFirst src fresh stretch) := by
  obtain ⟨last, rel, hknown, hindex⟩ :=
    start.known stamps src (.unknown rfl) (by simp)
  rw [Nat.zero_add] at hindex
  constructor
  · rintro ⟨hfirst, hunmixed⟩
    exact stream.released run stamps' keeps hknown hindex old past times hfirst hunmixed
  · intro hreleases
    exact stream.firstComesFirst run stamps' keeps hknown hindex past hreleases

/-! ### Two restarts on fixed arrivals -/

namespace Restarted

def erin : NodeId := ⟨"e"⟩

/-- The old stream: numbers 1 to 3, then 5. -/
def earlier : List (Arrival Unit) :=
  [.message erin 1 () 0, .message erin 2 () 1, .message erin 3 () 2, .message erin 5 () 3]

/-- Number 2 of the new stream overtakes number 1. -/
def overtaken : List (Arrival Unit) := [.message erin 2 () 4, .message erin 1 () 5]

/-- Numbers 1 and 2 of the new stream, a late number 2 of the old one, and
numbers 4 and 3 with a poll between them. -/
def inTime : List (Arrival Unit) :=
  [.message erin 1 () 4, .message erin 2 () 5, .message erin 2 () 6, .message erin 4 () 7, .poll 8,
    .message erin 3 () 9]

def limits : ReorderBuffer (Stamped Unit) := .new 4 1 10

def old : List (Pass (Stamped Unit)) × ReorderBuffer (Stamped Unit) :=
  limits.passes (stampAll 0 earlier)

end Restarted

open Restarted in
/-- A message that overtakes number 1 of the new stream is taken for a late
one of the old stream and dropped for good. -/
theorem restartedStream_overtaken :
    ∃ stretch b', Runs limits old.1 old.2 ∧ Runs old.2 stretch b' ∧ old.2.PastOne erin ∧
      stretch.map Pass.arrival = stampAll earlier.length overtaken ∧
      NewStream erin (fun i => decide (4 ≤ i)) 2 old.2 stretch ∧
      (stretch.Pairwise fun p q => p.arrival.now ≤ q.arrival.now) ∧
      (∀ p ∈ stretch, p.Keeps erin) ∧
      (renewedReleases erin (fun i => decide (4 ≤ i)) stretch).map (·.seq) = [1] := by
  have hpast : old.2.PastOne erin := ⟨_, rfl, by decide⟩
  exact ⟨_, _, limits.runs_passes _, old.2.runs_passes (stampAll 4 overtaken), hpast, rfl,
    ⟨by decide, by decide, by decide⟩, by decide, by decide, by decide⟩

open Restarted in
/-- With number 1 first, all of them are released. -/
theorem restartedStream_released_inTime :
    (renewedReleases erin (fun i => decide (4 ≤ i ∧ i ≠ 6))
      (old.2.passes (stampAll 4 inTime)).1).map (·.seq) = [1, 2, 3, 4] := by
  have hpast : old.2.PastOne erin := ⟨_, rfl, by decide⟩
  have hstamps : old.1.map Pass.arrival = stampAll 0 earlier := rfl
  have hstamps' : (old.2.passes (stampAll 4 inTime)).1.map Pass.arrival =
      stampAll earlier.length inTime := rfl
  have hstream : NewStream erin (fun i => decide (4 ≤ i ∧ i ≠ 6)) 4 old.2
      (old.2.passes (stampAll 4 inTime)).1 := ⟨by decide, by decide, by decide⟩
  exact (restartedStream_released (limits.runs_passes (stampAll 0 earlier)) hstamps
    (old.2.runs_passes (stampAll 4 inTime)) hstamps' erin hpast _ (by decide) hstream (by decide)
    (by decide)).1 (by decide)

end Mistlib.Overlay
