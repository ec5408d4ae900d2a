import Mistlib.Overlay.ReorderLossy

/-!
# A stretch of a lossy run

The books of one source (`Tally`) kept over passes and over whole runs. A
stretch starts in any state the buffer can reach, also behind restarts and
evictions of the source, and lasts as long as neither happens.
-/

namespace Mistlib.Overlay

variable {κ : Type}

/-! ### The books of a source that may be unknown -/

/-- `Tally` for a source of the buffer. Until its first sequenced message it
counts as a fresh one. -/
structure Known (src : NodeId) (last : Nat → Option (Stamped κ)) (rel : List (Stamped κ))
    (b : ReorderBuffer (Stamped κ)) : Prop where
  tally : ∀ now, Tally last rel (b.stateOf src now)
  drained : ∀ now, (b.stateOf src now).buffered[(b.stateOf src now).nextExpected]? = none

variable {s : SourceState (Stamped κ)}

theorem Tally.rebase {last : Nat → Option (Stamped κ)} {rel : List (Stamped κ)} (ht : Tally last rel s) :
    Tally (fun k => s.buffered[k]?) [] s where
  pos := ht.pos
  numbers := fun k x hx => ht.numbers k x (ht.held k x hx).1
  held := fun k x hx => ⟨hx, (ht.held k x hx).2⟩
  below := by simp
  sorted := .nil
  books := fun _ _ hx => .inr hx

theorem Tally.bare (hpos : 1 ≤ s.nextExpected) (hempty : s.buffered = ∅) :
    Tally (fun _ => none) [] s where
  pos := hpos
  numbers := by simp
  held := by simp [hempty]
  below := by simp
  sorted := .nil
  books := by simp

namespace Known

variable {src : NodeId} {last : Nat → Option (Stamped κ)} {rel : List (Stamped κ)}
  {b b' : ReorderBuffer (Stamped κ)}

theorem congr (h : Known src last rel b) (hget : b'.sources.get src = b.sources.get src) :
    Known src last rel b' := by
  constructor
  · intro now
    rw [ReorderBuffer.stateOf_congr now hget]
    exact h.tally now
  · intro now
    rw [ReorderBuffer.stateOf_congr now hget]
    exact h.drained now

theorem of_get {s : SourceState (Stamped κ)} (hs : b.sources.get src = some s)
    (ht : Tally last rel s) (hnext : s.buffered[s.nextExpected]? = none) :
    Known src last rel b := by
  have hstate : ∀ now, b.stateOf src now = s := fun now => by simp [ReorderBuffer.stateOf, hs]
  exact ⟨fun now => by rw [hstate]; exact ht, fun now => by rw [hstate]; exact hnext⟩

theorem unknown (hs : b.sources.get src = none) : Known src (fun _ => none) [] b := by
  have hstate : ∀ now, b.stateOf src now = SourceState.new now :=
    fun now => by simp [ReorderBuffer.stateOf, hs]
  constructor
  · intro now
    rw [hstate]
    exact .bare (Nat.le_refl 1) rfl
  · intro now
    rw [hstate]
    simp [SourceState.new]

theorem rebase (h : Known src last rel b) :
    Known src (fun k => (b.stateOf src 0).buffered[k]?) [] b := by
  refine ⟨fun now => ?_, h.drained⟩
  have hheld : (b.stateOf src now).buffered = (b.stateOf src 0).buffered := by
    unfold ReorderBuffer.stateOf
    cases b.sources.get src <;> rfl
  rw [← hheld]
  exact (h.tally now).rebase

theorem lazy (h : Known src last rel b) (now : Instant) :
    Tally last (rel ++ ((b.stateOf src now).flushStale b.gapTimeout now).1) (b.lazyState src now) ∧
      (b.lazyState src now).buffered[(b.lazyState src now).nextExpected]? = none :=
  ⟨(h.tally now).flushStale b.gapTimeout now,
    Tally.flushStale_next (h.drained now) b.gapTimeout now⟩

end Known

theorem Tally.filter_numbered {last : Nat → Option (Stamped κ)} {rel out : List (Stamped κ)}
    (ht : Tally last (rel ++ out) s) :
    out.filter (·.seq ≠ 0) = out := by
  refine List.filter_eq_self.mpr fun x hx => ?_
  have hlast := (ht.below x (List.mem_append_right _ hx)).1
  have := (ht.numbers _ x hlast).2
  simpa using by omega

/-! ### One pass -/

def Pass.released (src : NodeId) (p : Pass (Stamped κ)) : List (Stamped κ) :=
  (ReorderBuffer.mine src p.out).filter (·.seq ≠ 0)

/-- The message a pass accepted is the last one of its number. -/
def recordAccepted (last : Nat → Option (Stamped κ)) :
    Option (Stamped κ) → Nat → Option (Stamped κ)
  | some x => Function.update last x.seq (some x)
  | none => last

/-- A kept and calm arrival records what it accepts. -/
theorem Known.pass {src : NodeId} {last : Nat → Option (Stamped κ)} {rel : List (Stamped κ)}
    {b : ReorderBuffer (Stamped κ)} (h : Known src last rel b) (n : Nat) (a : Arrival κ)
    {p : Pass (Stamped κ)} (hp : p = ⟨b, a.stamp n, (b.handle (a.stamp n)).1⟩)
    (hkeeps : p.Keeps src) (hcalm : p.Calm src) :
    Known src (recordAccepted last (p.accepted src)) (rel ++ p.released src)
      (b.handle (a.stamp n)).2 := by
  subst hp
  cases a with
  | poll now =>
    obtain ⟨hmine, hget⟩ := b.handle_poll src now
    obtain ⟨ht, hnext⟩ := h.lazy now
    simp only [Arrival.stamp, Pass.accepted, Pass.released, recordAccepted, hmine,
      ht.filter_numbered]
    cases hs : b.sources.get src with
    | none =>
      rw [ReorderBuffer.flushStale_unknown hs, List.append_nil]
      exact h.congr (by rw [hget, hs]; rfl)
    | some s => exact .of_get (by rw [hget, hs]; rfl) ht hnext
  | message source seq content now =>
    by_cases hsrc : source = src
    · subst hsrc
      by_cases hseq : seq = 0
      · -- an unsequenced message is handed on behind a lazy flush
        subst hseq
        obtain ⟨hmine, hget⟩ := b.handle_plain source ⟨n, 0, content⟩ now
        obtain ⟨ht, hnext⟩ := h.lazy now
        have hout : (((b.stateOf source now).flushStale b.gapTimeout now).1 ++
            [(⟨n, 0, content⟩ : Stamped κ)]).filter (·.seq ≠ 0) =
              ((b.stateOf source now).flushStale b.gapTimeout now).1 := by
          rw [List.filter_append, ht.filter_numbered]
          exact List.append_nil _
        have haccepted : Pass.accepted source ⟨b, .message source 0 ⟨n, 0, content⟩ now,
            (b.handle (.message source 0 ⟨n, 0, content⟩ now)).1⟩ = none := by
          simp [Pass.accepted]
        simp only [Arrival.stamp, haccepted, Pass.released, recordAccepted, hmine, hout]
        cases hs : b.sources.get source with
        | none =>
          rw [ReorderBuffer.flushStale_unknown hs, List.append_nil]
          exact h.congr (by rw [hget, hs]; rfl)
        | some s =>
          refine .of_get (s := { b.lazyState source now with lastActivity := now })
            (by rw [hget, hs]; rfl) (ht.congr rfl rfl) hnext
      · obtain ⟨hmine, hget⟩ := b.handle_sequenced source hseq ⟨n, seq, content⟩ now
        obtain ⟨ht, hnext⟩ := h.lazy now
        have hstart : seq = 1 → (b.lazyState source now).nextExpected ≤ 1 := by
          rintro rfl
          exact hcalm _ now rfl
        have htouched : Tally last _ { b.lazyState source now with lastActivity := now } :=
          ht.congr rfl rfl
        obtain ⟨hbooks, hdrained⟩ :=
          htouched.sequence hnext (x := ⟨n, seq, content⟩) hstart b.maxPerSource now
        have haccepted : recordAccepted last
              (Pass.accepted source ⟨b, (Arrival.message source seq content now).stamp n,
                (b.handle ((Arrival.message source seq content now).stamp n)).1⟩) =
            if (b.lazyState source now).nextExpected ≤ seq then
              Function.update last seq (some ⟨n, seq, content⟩) else last := by
          simp only [Pass.accepted, Arrival.stamp, ne_eq, hseq, not_false_eq_true, true_and]
          split <;> rfl
        rw [haccepted]
        simp only [Arrival.stamp, Pass.released, hmine]
        rw [List.append_assoc] at hbooks
        rw [hbooks.filter_numbered]
        exact .of_get hget hbooks hdrained
    · obtain ⟨hmine, hget⟩ := b.handle_other hsrc seq ⟨n, seq, content⟩ now hkeeps
      simp only [Arrival.stamp, Pass.accepted, Pass.released, recordAccepted, hmine, hsrc,
        false_and, if_false, List.filter_nil, List.append_nil]
      exact h.congr hget

variable {n : Nat}

theorem Pass.brought {src : NodeId} {p : Pass (Stamped κ)} {a : Arrival κ} (hp : p.arrival = a.stamp n)
    {x : Stamped κ} (hx : p.accepted src = some x ∨ p.refused src = some x) : x.index = n := by
  cases a with
  | poll now => simp [Pass.accepted, Pass.refused, hp, Arrival.stamp] at hx
  | message source seq content now =>
    simp only [Pass.accepted, Pass.refused, hp, Arrival.stamp, Option.ite_none_right_eq_some,
      Option.some.injEq] at hx
    rcases hx with ⟨_, rfl⟩ | ⟨_, rfl⟩ <;> rfl

variable {p : Pass κ}

theorem Pass.accepted_of_refused {src : NodeId} {x : κ} (hx : p.refused src = some x) :
    p.accepted src = none := by
  unfold Pass.refused at hx
  unfold Pass.accepted
  cases ha : p.arrival with
  | poll now => rfl
  | message source seq content now =>
    simp only [ha, Option.ite_none_right_eq_some] at hx
    simp only [ite_eq_right_iff]
    rintro ⟨_, _, hle⟩
    exact absurd hx.1.2.2 (Nat.not_lt.mpr hle)

/-- Each arrival keeps what is known of the source. -/
theorem Known.step {src : NodeId} {last : Nat → Option (Stamped κ)} {rel : List (Stamped κ)}
    {b : ReorderBuffer (Stamped κ)} (h : Known src last rel b) (n : Nat)
    (hindex : ∀ k x, last k = some x → x.index < n) (a : Arrival κ) :
    ∃ last' rel', Known src last' rel' (b.handle (a.stamp n)).2 ∧
      ∀ k x, last' k = some x → x.index < n + 1 := by
  generalize hp : (⟨b, a.stamp n, (b.handle (a.stamp n)).1⟩ : Pass (Stamped κ)) = p
  by_cases hkeeps : p.Keeps src
  · by_cases hcalm : p.Calm src
    · refine ⟨_, _, h.pass n a hp.symm hkeeps hcalm, ?_⟩
      intro k x hx
      cases haccepted : p.accepted src with
      | none =>
        rw [haccepted] at hx
        exact Nat.lt_succ_of_lt (hindex k x hx)
      | some y =>
        simp only [haccepted, recordAccepted, Function.update_apply] at hx
        split at hx
        · cases hx
          have hbrought : p.arrival = a.stamp n := by rw [← hp]
          have hindex := Pass.brought hbrought (.inl haccepted)
          omega
        · exact Nat.lt_succ_of_lt (hindex k x hx)
    · -- a restart gives up everything held
      simp only [Pass.Calm, not_forall, Nat.not_le] at hcalm
      obtain ⟨content, now, harrival, habove⟩ := hcalm
      subst hp
      simp only at harrival habove
      refine ⟨fun _ => none, [], ?_, by simp⟩
      rw [harrival]
      obtain ⟨_, hget⟩ := b.handle_sequenced src Nat.one_ne_zero content now
      have hrestart : ({ b.lazyState src now with lastActivity := now }.sequence b.maxPerSource 1
          content now).2 =
            { ({ b.lazyState src now with lastActivity := now } :
                SourceState (Stamped κ)).flush.2.2 with nextExpected := 2 } := by
        unfold SourceState.sequence
        rw [if_pos ⟨rfl, habove⟩]
      have hempty := (SourceState.flush_spec
        ({ b.lazyState src now with lastActivity := now } : SourceState (Stamped κ))).2.1
      refine .of_get hget ?_ ?_
      · rw [hrestart]
        exact .bare (Nat.le_add_left 1 1) hempty
      · rw [hrestart]
        simp only [hempty]
        simp
  · simp only [Pass.Keeps, Classical.not_imp, Bool.not_eq_true] at hkeeps
    subst hp
    refine ⟨fun _ => none, [], .unknown ?_, by simp⟩
    simpa [Table.contains] using hkeeps.2

/-! ### Whole runs -/

variable {arrivals : List (Arrival κ)}

/-- A run keeps what is known of the source. -/
theorem Runs.known {b b' : ReorderBuffer (Stamped κ)} {passes : List (Pass (Stamped κ))}
    (hrun : Runs b passes b') (hstamps : passes.map Pass.arrival = stampAll n arrivals) (src : NodeId)
    {last : Nat → Option (Stamped κ)} {rel : List (Stamped κ)} (h : Known src last rel b)
    (hindex : ∀ k x, last k = some x → x.index < n) :
    ∃ last' rel', Known src last' rel' b' ∧
      ∀ k x, last' k = some x → x.index < n + arrivals.length := by
  induction hrun generalizing n arrivals last rel with
  | nil b =>
    cases arrivals with
    | nil => exact ⟨last, rel, h, hindex⟩
    | cons a rest => cases hstamps
  | @cons b b' a rest t shuffle _ ih =>
    cases arrivals with
    | nil => cases hstamps
    | cons a' arrivals =>
      obtain ⟨rfl, hrest⟩ := List.cons.inj hstamps
      have hbefore : Known src last rel { b with sources := t } := h.congr (shuffle.get src).symm
      obtain ⟨last', rel', hnext, hindex'⟩ := hbefore.step n hindex a'
      obtain ⟨last'', rel'', hknown, hindex''⟩ := ih hrest hnext hindex'
      refine ⟨last'', rel'', hknown, fun k x hx => ?_⟩
      have := hindex'' k x hx
      simp only [List.length_cons]
      omega

/-- The last message of each number after more of them were accepted. -/
def lastAfter (last : Nat → Option (Stamped κ)) (accepted : List (Stamped κ)) :
    Nat → Option (Stamped κ) :=
  accepted.foldl (fun last x => recordAccepted last (some x)) last

theorem lastAfter_eq (last : Nat → Option (Stamped κ)) (accepted : List (Stamped κ)) (k : Nat) :
    lastAfter last accepted k = ((accepted.filter (·.seq = k)).getLast?).or (last k) := by
  induction accepted generalizing last with
  | nil => rfl
  | cons x accepted ih =>
    refine (ih (recordAccepted last (some x))).trans ?_
    simp only [recordAccepted, Function.update_apply, List.filter_cons]
    by_cases hk : x.seq = k
    · subst hk
      simp only [decide_true, if_true, List.getLast?_cons, Option.some_or]
      cases (accepted.filter fun y => y.seq = x.seq).getLast? <;> rfl
    · simp only [hk, decide_false, Bool.false_eq_true, if_false, if_neg (Ne.symm hk)]

variable {stretch : List (Pass (Stamped κ))}

/-- Over a kept and calm stretch what was accepted and released tallies. -/
theorem Runs.tally {src : NodeId} {b b' : ReorderBuffer (Stamped κ)} (hrun : Runs b stretch b')
    (hstamps : stretch.map Pass.arrival = stampAll n arrivals) (hkeeps : ∀ p ∈ stretch, p.Keeps src)
    (hcalm : ∀ p ∈ stretch, p.Calm src) {last : Nat → Option (Stamped κ)} {rel : List (Stamped κ)}
    (h : Known src last rel b) :
    Known src (lastAfter last (stretch.filterMap (Pass.accepted src)))
      (rel ++ stretch.flatMap (Pass.released src)) b' := by
  induction hrun generalizing n arrivals last rel with
  | nil b => simpa [lastAfter] using h
  | @cons b b' a rest t shuffle _ ih =>
    cases arrivals with
    | nil => cases hstamps
    | cons a' arrivals =>
      obtain ⟨rfl, hrest⟩ := List.cons.inj hstamps
      have hbefore : Known src last rel { b with sources := t } := h.congr (shuffle.get src).symm
      have hpass := hbefore.pass n a' rfl (hkeeps _ List.mem_cons_self) (hcalm _ List.mem_cons_self)
      have hcarried := ih hrest (fun p hp => hkeeps p (List.mem_cons_of_mem _ hp))
        (fun p hp => hcalm p (List.mem_cons_of_mem _ hp)) hpass
      rw [List.flatMap_cons, ← List.append_assoc]
      rw [List.filterMap_cons]
      cases haccepted : Pass.accepted src ⟨{ b with sources := t }, a'.stamp n,
          ({ b with sources := t }.handle (a'.stamp n)).1⟩ with
      | none | some x =>
        rw [haccepted] at hcarried
        exact hcarried

theorem refused_notMem (src : NodeId) (hstamps : stretch.map Pass.arrival = stampAll n arrivals) :
    (∀ x ∈ stretch.filterMap (Pass.accepted src), n ≤ x.index) ∧
      ∀ x ∈ stretch.filterMap (Pass.refused src),
        n ≤ x.index ∧ x ∉ stretch.filterMap (Pass.accepted src) := by
  induction stretch generalizing n arrivals with
  | nil => simp
  | cons p rest ih =>
    cases arrivals with
    | nil => cases hstamps
    | cons a arrivals =>
      obtain ⟨hp, hrest⟩ := List.cons.inj hstamps
      obtain ⟨haccepted, hrefused⟩ := ih hrest
      refine ⟨?_, ?_⟩
      · intro x hx
        rcases List.mem_filterMap.mp hx with ⟨q, hq, hqx⟩
        rcases List.mem_cons.mp hq with rfl | hq
        · exact (Pass.brought hp (.inl hqx)).ge
        · have := haccepted x (List.mem_filterMap.mpr ⟨q, hq, hqx⟩)
          omega
      · intro x hx
        rcases List.mem_filterMap.mp hx with ⟨q, hq, hqx⟩
        rcases List.mem_cons.mp hq with rfl | hq
        · have hindex := Pass.brought hp (.inr hqx)
          refine ⟨hindex.ge, fun hmem => ?_⟩
          rw [List.filterMap_cons_none (Pass.accepted_of_refused hqx)] at hmem
          have := haccepted x hmem
          omega
        · obtain ⟨hindex, hnot⟩ := hrefused x (List.mem_filterMap.mpr ⟨q, hq, hqx⟩)
          refine ⟨by omega, fun hmem => ?_⟩
          rcases List.mem_filterMap.mp hmem with ⟨r, hr, hrx⟩
          rcases List.mem_cons.mp hr with rfl | hr
          · have := Pass.brought hp (.inl hrx)
            omega
          · exact hnot (List.mem_filterMap.mpr ⟨r, hr, hrx⟩)

/-! ### Other sources make no difference -/

/-- The arrival is a message of another source. -/
def Arrival.foreign (src : NodeId) : Arrival κ → Bool
  | .message source _ _ _ => source ≠ src
  | .poll _ => false

/-- Two buffers that agree on `src` and on the limits its messages meet. -/
structure Alike (src : NodeId) (b c : ReorderBuffer κ) : Prop where
  state : c.sources.get src = b.sources.get src
  room : c.maxPerSource = b.maxPerSource
  timeout : c.gapTimeout = b.gapTimeout

theorem ReorderBuffer.handle_limits (b : ReorderBuffer κ) (a : Arrival κ) :
    (b.handle a).2.maxPerSource = b.maxPerSource ∧ (b.handle a).2.gapTimeout = b.gapTimeout := by
  cases a with
  | poll now => exact ⟨rfl, rfl⟩
  | message source seq content now =>
    simp only [handle, acceptAt]
    split
    · cases b.sources.get source <;> exact ⟨rfl, rfl⟩
    · exact (b.evict_limits source).symm

variable {c : ReorderBuffer κ}

theorem Alike.lazy {src : NodeId} {b : ReorderBuffer κ} (h : Alike src b c) (now : Instant) :
    c.stateOf src now = b.stateOf src now ∧ c.lazyState src now = b.lazyState src now := by
  have hstate := ReorderBuffer.stateOf_congr now h.state
  exact ⟨hstate, by rw [ReorderBuffer.lazyState, ReorderBuffer.lazyState, hstate, h.timeout]⟩

theorem Alike.handle {src : NodeId} {b : ReorderBuffer κ} (h : Alike src b c) {a : Arrival κ}
    (hown : a.foreign src = false) :
    ReorderBuffer.mine src (c.handle a).1 = ReorderBuffer.mine src (b.handle a).1 ∧
      Alike src (b.handle a).2 (c.handle a).2 := by
  have hroom : (c.handle a).2.maxPerSource = (b.handle a).2.maxPerSource := by
    rw [(b.handle_limits a).1, (c.handle_limits a).1, h.room]
  have htimeout : (c.handle a).2.gapTimeout = (b.handle a).2.gapTimeout := by
    rw [(b.handle_limits a).2, (c.handle_limits a).2, h.timeout]
  suffices hsame : ReorderBuffer.mine src (c.handle a).1 = ReorderBuffer.mine src (b.handle a).1 ∧
      (c.handle a).2.sources.get src = (b.handle a).2.sources.get src from
    ⟨hsame.1, hsame.2, hroom, htimeout⟩
  cases a with
  | poll now =>
    obtain ⟨hstate, hlazy⟩ := h.lazy now
    obtain ⟨hb, hb'⟩ := b.handle_poll src now
    obtain ⟨hc, hc'⟩ := c.handle_poll src now
    exact ⟨by rw [hb, hc, hstate, h.timeout], by rw [hb', hc', hlazy, h.state]⟩
  | message source seq content now =>
    have hsrc : source = src := by simpa [Arrival.foreign] using hown
    subst hsrc
    obtain ⟨hstate, hlazy⟩ := h.lazy now
    by_cases hseq : seq = 0
    · subst hseq
      obtain ⟨hb, hb'⟩ := b.handle_plain source content now
      obtain ⟨hc, hc'⟩ := c.handle_plain source content now
      exact ⟨by rw [hb, hc, hstate, h.timeout], by rw [hb', hc', hlazy, h.state]⟩
    · obtain ⟨hb, hb'⟩ := b.handle_sequenced source hseq content now
      obtain ⟨hc, hc'⟩ := c.handle_sequenced source hseq content now
      exact ⟨by rw [hb, hc, hstate, hlazy, h.timeout, h.room], by rw [hb', hc', hlazy, h.room]⟩

/-- A stretch in which `src` is kept hands on for it what the arrivals do
without the messages of other sources, and those hand on nothing for it. -/
theorem Runs.alone {src : NodeId} {b b' : ReorderBuffer κ} {stretch : List (Pass κ)}
    (hrun : Runs b stretch b') (hkeeps : ∀ p ∈ stretch, p.Keeps src) {c' : ReorderBuffer κ}
    {own : List (Pass κ)} (hown : Runs c own c') (halike : Alike src b c)
    (harrivals : own.map Pass.arrival = (stretch.filter fun p => !p.arrival.foreign src).map Pass.arrival) :
    own.map (fun p => ReorderBuffer.mine src p.out) =
        (stretch.filter fun p => !p.arrival.foreign src).map
          (fun p => ReorderBuffer.mine src p.out) ∧
      ∀ p ∈ stretch, p.arrival.foreign src = true → ReorderBuffer.mine src p.out = [] := by
  induction hrun generalizing c own with
  | nil b =>
    cases own with
    | nil => simp
    | cons p rest => cases harrivals
  | @cons b b' a rest t shuffle _ ih =>
    have hrest : ∀ p ∈ rest, p.Keeps src := fun p hp => hkeeps p (List.mem_cons_of_mem _ hp)
    have hbefore : Alike src { b with sources := t } c :=
      ⟨by rw [halike.state]; exact shuffle.get src, halike.room, halike.timeout⟩
    cases hforeign : a.foreign src with
    | true =>
      cases a with
      | poll now => cases hforeign
      | message source seq content now =>
        have hne : source ≠ src := by simpa [Arrival.foreign] using hforeign
        obtain ⟨hmine, hget⟩ := ReorderBuffer.handle_other { b with sources := t } hne seq content
          now (hkeeps _ List.mem_cons_self)
        rw [List.filter_cons_of_neg (by simp [hforeign])] at harrivals ⊢
        have hlimits := ReorderBuffer.handle_limits { b with sources := t }
          (.message source seq content now)
        obtain ⟨hsame, hnone⟩ := ih hrest hown
          ⟨by rw [hget]; exact hbefore.state, by rw [hlimits.1]; exact hbefore.room,
            by rw [hlimits.2]; exact hbefore.timeout⟩ harrivals
        refine ⟨hsame, fun p hp hpf => ?_⟩
        rcases List.mem_cons.mp hp with rfl | hp
        · exact hmine
        · exact hnone p hp hpf
    | false =>
      rw [List.filter_cons_of_pos (by simp [hforeign])] at harrivals ⊢
      cases hown with
      | nil => cases harrivals
      | @cons _ _ a' own u shuffle' next =>
        obtain ⟨rfl, hothers⟩ := List.cons.inj harrivals
        have hboth : Alike src { b with sources := t } { c with sources := u } :=
          ⟨(shuffle'.get src).symm.trans hbefore.state, hbefore.room, hbefore.timeout⟩
        obtain ⟨hmine, hafter⟩ := hboth.handle hforeign
        obtain ⟨hsame, hnone⟩ := ih hrest next hafter hothers
        refine ⟨?_, fun p hp hpf => ?_⟩
        · simp only [List.map_cons]
          rw [hsame]
          exact congrArg (· :: _) hmine
        · rcases List.mem_cons.mp hp with rfl | hp
          · rw [hforeign] at hpf
            cases hpf
          · exact hnone p hp hpf

/-! ### A stretch without restart -/

instance (src : NodeId) (p : Pass κ) : Decidable (p.Keeps src) :=
  inferInstanceAs (Decidable (_ → _))

theorem Pass.calm_iff {src : NodeId} :
    p.Calm src ↔ match p.arrival with
      | .message source seq _ now =>
        source = src ∧ seq = 1 → (p.before.lazyState src now).nextExpected ≤ 1
      | .poll _ => True := by
  unfold Pass.Calm
  cases p.arrival with
  | poll now => simp
  | message source seq content now =>
    constructor
    · rintro h ⟨rfl, rfl⟩
      exact h content now rfl
    · rintro h content' now' ⟨⟩
      exact h ⟨rfl, rfl⟩

instance (src : NodeId) (p : Pass κ) : Decidable (p.Calm src) :=
  match p with
  | ⟨_, .message .., _⟩ | ⟨_, .poll _, _⟩ => decidable_of_iff' _ Pass.calm_iff

variable {ι : Type}

theorem Pass.Keeps.of_map {src : NodeId} {f : κ → ι} (h : (p.map f).Keeps src) : p.Keeps src := by
  intro hknown
  have hkept := h (by simpa [Pass.map, ReorderBuffer.map] using hknown)
  simp only [Pass.map, ReorderBuffer.handle_map] at hkept
  simpa [ReorderBuffer.map] using hkept

theorem ReorderBuffer.lazyState_map (f : κ → ι) (b : ReorderBuffer κ) (src : NodeId) (now : Instant) :
    (b.map f).lazyState src now = (b.lazyState src now).map f := by
  have htimeout : (b.map f).gapTimeout = b.gapTimeout := rfl
  simp only [lazyState, stateOf_map, htimeout, SourceState.flushStale_map]

theorem Pass.Calm.of_map {src : NodeId} {f : κ → ι} (h : (p.map f).Calm src) : p.Calm src := by
  intro content now harrival
  have hcalm := h (f content) now (by simp [Pass.map, harrival, Arrival.map])
  simp only [Pass.map, ReorderBuffer.lazyState_map] at hcalm
  exact hcalm

/-- What becomes of the messages of `src` over a stretch that leaves `b'`.
Each number is released once at most, in increasing order. Of the accepted
messages of a number the last one is released, once, or it is held still. A
refused message is never released. -/
structure InOrder (src : NodeId) (stretch : List (Pass (Stamped κ)))
    (b' : ReorderBuffer (Stamped κ)) : Prop where
  increasing : (stretch.flatMap (Pass.released src)).Pairwise (·.seq < ·.seq)
  accepted : ∀ x ∈ stretch.filterMap (Pass.accepted src), ∃ y,
    ((stretch.filterMap (Pass.accepted src)).filter (·.seq = x.seq)).getLast? = some y ∧
      ((stretch.flatMap (Pass.released src)).filter (·.seq = x.seq) = [y] ∧
          (b'.sources.get src).bind (·.buffered[x.seq]?) = none ∨
        (stretch.flatMap (Pass.released src)).filter (·.seq = x.seq) = [] ∧
          (b'.sources.get src).bind (·.buffered[x.seq]?) = some y)
  refused : ∀ x ∈ stretch.filterMap (Pass.refused src), x ∉ stretch.flatMap (Pass.released src)

theorem filter_seq_eq {rel : List (Stamped κ)} (hsorted : rel.Pairwise (·.seq < ·.seq)) {y : Stamped κ}
    (hy : y ∈ rel) : rel.filter (·.seq = y.seq) = [y] := by
  induction rel with
  | nil => cases hy
  | cons z rest ih =>
    obtain ⟨habove, hrest⟩ := List.pairwise_cons.mp hsorted
    rcases List.mem_cons.mp hy with rfl | hy
    · rw [List.filter_cons_of_pos (by simp), List.filter_eq_nil_iff.mpr]
      intro x hx
      have := habove x hx
      simpa using by omega
    · have := habove y hy
      rw [List.filter_cons_of_neg (by simpa using by omega)]
      exact ih hrest hy

/-- What is known of a source is released in order. -/
theorem Known.inOrder {src : NodeId} {b' : ReorderBuffer (Stamped κ)}
    (hstamps : stretch.map Pass.arrival = stampAll n arrivals) {last : Nat → Option (Stamped κ)}
    (hindex : ∀ k x, last k = some x → x.index < n)
    (h : Known src (lastAfter last (stretch.filterMap (Pass.accepted src))) (stretch.flatMap (Pass.released src)) b') :
    InOrder src stretch b' := by
  have ht := h.tally 0
  have hheld : ∀ k : Nat, (b'.sources.get src).bind (fun s => s.buffered[k]?) =
      (b'.stateOf src 0).buffered[k]? := by
    intro k
    unfold ReorderBuffer.stateOf
    cases b'.sources.get src with
    | none => simp [SourceState.new]
    | some s => rfl
  obtain ⟨_, hrefused⟩ := refused_notMem src hstamps
  refine ⟨ht.sorted, ?_, ?_⟩
  · intro x hx
    have hsome : ((stretch.filterMap (Pass.accepted src)).filter (·.seq = x.seq)).getLast?.isSome := by
      rw [List.getLast?_isSome]
      exact List.ne_nil_of_mem (List.mem_filter.mpr ⟨hx, by simp⟩)
    obtain ⟨y, hy⟩ := Option.isSome_iff_exists.mp hsome
    have hlast := lastAfter_eq last (stretch.filterMap (Pass.accepted src)) x.seq
    rw [hy, Option.some_or] at hlast
    have hseq : y.seq = x.seq := (ht.numbers _ y hlast).1
    refine ⟨y, hy, ?_⟩
    rw [hheld]
    rcases ht.books _ y hlast with hreleased | hstill
    · refine .inl ⟨hseq ▸ filter_seq_eq ht.sorted hreleased, ?_⟩
      cases hz : (b'.stateOf src 0).buffered[x.seq]? with
      | none => rfl
      | some z =>
        have := (ht.held _ z hz).2
        have := (ht.below y hreleased).2
        omega
    · refine .inr ⟨List.filter_eq_nil_iff.mpr fun z hz => ?_, hstill⟩
      have := (ht.held _ y hstill).2
      have := (ht.below z hz).2
      simpa using by omega
  · intro x hx hreleased
    obtain ⟨hle, hnot⟩ := hrefused x hx
    have hlast := (ht.below x hreleased).1
    rw [lastAfter_eq] at hlast
    cases hy : ((stretch.filterMap (Pass.accepted src)).filter (·.seq = x.seq)).getLast? with
    | none =>
      rw [hy, Option.none_or] at hlast
      have := hindex _ x hlast
      omega
    | some y =>
      rw [hy, Option.some_or, Option.some.injEq] at hlast
      subst hlast
      exact hnot (List.mem_of_mem_filter (List.mem_of_getLast? hy))

/-- Safety of the reorder buffer on lossy runs. Take any stretch of any run in which `src` is not
evicted and no number 1 of `src` arrives whose own lazy flush leaves a later number expected. With
the arrivals stamped, the stretch is `InOrder`, and the same arrivals without the messages of
other sources hand on the same for `src`. -/
theorem reorderBuffer_lossyStretch {maxPerSource maxSources : Nat} {gapTimeout : Duration}
    {before stretch : List (Pass κ)} {b b' : ReorderBuffer κ}
    (start : Runs (ReorderBuffer.new maxPerSource maxSources gapTimeout) before b)
    (run : Runs b stretch b') (src : NodeId) (keeps : ∀ p ∈ stretch, p.Keeps src)
    (calm : ∀ p ∈ stretch, p.Calm src) :
    (∃ (before' stretch' : List (Pass (Stamped κ))) (B B' : ReorderBuffer (Stamped κ)),
      Runs (ReorderBuffer.new maxPerSource maxSources gapTimeout) before' B ∧
      Runs B stretch' B' ∧
      before'.map (Pass.map Stamped.content) = before ∧
      stretch'.map (Pass.map Stamped.content) = stretch ∧
      B'.map Stamped.content = b' ∧
      before'.map Pass.arrival = stampAll 0 (before.map Pass.arrival) ∧
      stretch'.map Pass.arrival = stampAll before.length (stretch.map Pass.arrival) ∧
      InOrder src stretch' B') ∧
    ∀ (c c' : ReorderBuffer κ) (own : List (Pass κ)), Runs c own c' →
      c.sources.get src = b.sources.get src → c.maxPerSource = b.maxPerSource →
      c.gapTimeout = b.gapTimeout →
      own.map Pass.arrival =
        (stretch.filter fun p => !p.arrival.foreign src).map Pass.arrival →
      own.map (fun p => ReorderBuffer.mine src p.out) =
          (stretch.filter fun p => !p.arrival.foreign src).map
            (fun p => ReorderBuffer.mine src p.out) ∧
        ∀ p ∈ stretch, p.arrival.foreign src = true → ReorderBuffer.mine src p.out = [] := by
  constructor
  · obtain ⟨before', B, hstart, hb, hbefore, hstamps⟩ :=
      start.stamped 0 (ReorderBuffer.new maxPerSource maxSources gapTimeout) rfl
    obtain ⟨stretch', B', hrun, hb', hstretch, hstamps'⟩ := run.stamped before.length B hb
    refine ⟨before', stretch', B, B', hstart, hrun, hbefore, hstretch, hb', hstamps, hstamps', ?_⟩
    -- the books of the stretch begin with what is held when it starts
    obtain ⟨last, rel, hknown, hindex⟩ :=
      hstart.known hstamps src (.unknown rfl) (by simp)
    have hpage := hknown.rebase
    have hheld : ∀ (k : Nat) (x : Stamped κ), (B.stateOf src 0).buffered[k]? = some x → x.index < before.length := by
      intro k x hx
      have := hindex k x ((hknown.tally 0).held k x hx).1
      simpa using this
    have hkeeps : ∀ p ∈ stretch', p.Keeps src := fun p hp =>
      .of_map (keeps _ (hstretch ▸ List.mem_map_of_mem hp))
    have hcalm : ∀ p ∈ stretch', p.Calm src := fun p hp =>
      .of_map (calm _ (hstretch ▸ List.mem_map_of_mem hp))
    exact Known.inOrder hstamps' hheld (hrun.tally hstamps' hkeeps hcalm hpage)
  · intro c c' own hown hstate hroom htimeout harrivals
    exact run.alone keeps hown ⟨hstate, hroom, htimeout⟩ harrivals

/-! ### Two runs on fixed arrivals -/

/-- The passes of a run whose table is never reordered, and the last buffer. -/
def ReorderBuffer.passes : ReorderBuffer κ → List (Arrival κ) → List (Pass κ) × ReorderBuffer κ
  | b, [] => ([], b)
  | b, a :: rest =>
    (⟨b, a, (b.handle a).1⟩ :: ((b.handle a).2.passes rest).1, ((b.handle a).2.passes rest).2)

theorem ReorderBuffer.runs_passes (b : ReorderBuffer κ) (arrivals : List (Arrival κ)) :
    Runs b (b.passes arrivals).1 (b.passes arrivals).2 := by
  induction arrivals generalizing b with
  | nil => exact .nil b
  | cons a rest ih => exact .cons b.sources (.refl _) (ih _)

namespace LossyStretch

def carol : NodeId := ⟨"c"⟩
def dave : NodeId := ⟨"d"⟩

def limits : ReorderBuffer (Stamped Unit) := .new 2 1 5

/-- Number 3 early, number 1 when the gap is given up. -/
def restart : List (Arrival (Stamped Unit)) :=
  [.message carol 3 ⟨0, 3, ()⟩ 0, .message carol 1 ⟨1, 1, ()⟩ 5]

/-- Number 2 twice, an unsequenced message, number 1 in time, number 5 given
up by the idle flush, and number 4 too late. -/
def losses : List (Arrival (Stamped Unit)) :=
  [.message carol 2 ⟨0, 2, ()⟩ 0, .message carol 2 ⟨1, 2, ()⟩ 1, .message dave 0 ⟨2, 0, ()⟩ 2,
    .message carol 1 ⟨3, 1, ()⟩ 3, .message carol 5 ⟨4, 5, ()⟩ 4, .poll 9,
    .message carol 4 ⟨5, 4, ()⟩ 10]

end LossyStretch

open LossyStretch in
/-- A number 1 that meets number 1 expected may still restart the stream: its
own lazy flush has given the number up. Then 3 is released before 1, and
number 1 is below the number that the lazy flush left expected. -/
theorem reorderBuffer_restartsAtLazyFlush :
    ∃ stretch b', Runs limits stretch b' ∧ (∀ p ∈ stretch, p.Keeps carol) ∧
      (∀ p ∈ stretch, ∀ content now, p.arrival = .message carol 1 content now →
        (p.before.stateOf carol now).nextExpected ≤ 1) ∧
      ¬ (stretch.flatMap (Pass.released carol)).Pairwise (·.seq < ·.seq) ∧
      ∃ x ∈ stretch.filterMap (Pass.refused carol), x ∈ stretch.flatMap (Pass.released carol) := by
  refine ⟨_, _, limits.runs_passes restart, by decide, ?_, by decide, ⟨1, 1, ()⟩, by decide, by decide⟩
  intro p hp content now harrival
  simp only [ReorderBuffer.passes, restart, List.mem_cons, List.not_mem_nil, or_false] at hp
  rcases hp with rfl | rfl
  · cases harrival
  · cases harrival
    decide

open LossyStretch in
/-- Number 1, the second number 2 and number 5 are released, number 4 is not. -/
theorem reorderBuffer_lossyStretch_losses :
    (∀ p ∈ (limits.passes losses).1, p.Keeps carol ∧ p.Calm carol) ∧
      (limits.passes losses).1.flatMap (Pass.released carol) =
        [⟨3, 1, ()⟩, ⟨1, 2, ()⟩, ⟨4, 5, ()⟩] ∧
      ∃ stretch' B', InOrder carol stretch' B' ∧
        stretch'.map (Pass.map Stamped.content) = (limits.passes losses).1 := by
  have hkeeps : ∀ p ∈ (limits.passes losses).1, p.Keeps carol := by decide
  have hcalm : ∀ p ∈ (limits.passes losses).1, p.Calm carol := by decide
  obtain ⟨_, stretch', _, B', _, _, _, hstretch, _, _, _, hinOrder⟩ :=
    (reorderBuffer_lossyStretch (.nil _) (limits.runs_passes losses) carol hkeeps hcalm).1
  exact ⟨fun p hp => ⟨hkeeps p hp, hcalm p hp⟩, by decide, stretch', B', hinOrder, hstretch⟩

end Mistlib.Overlay
