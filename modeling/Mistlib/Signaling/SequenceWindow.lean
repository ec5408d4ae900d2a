import Mistlib.Signaling.Admission
import Mistlib.Signaling.Publishing

/-!
# The window of sequence numbers

Relays deliver a sender's messages in any order and more than once, and the receiver keeps the
greatest number it has accepted from it (`acceptedFrom`). As long as the cache of message ids
forgets nothing (`Lossless`), a message is rejected exactly if its id came before or its number
trails the mark by the window (`turn`). So a stream whose messages overtake each other by less
than the window is accepted message by message, each once (`accepted_once`).
-/

namespace Mistlib

open Reactive (Move Run)

namespace Overlay.TtlCache

variable {K : Type} [DecidableEq K]

theorem evictRounds_of_room {maxEntries : Nat} (rounds : Nat) {entries : Table K Instant}
    (h : entries.size < maxEntries) : evictRounds maxEntries rounds entries = entries := by
  cases rounds with
  | zero => rfl
  | succ rounds => exact if_neg (Nat.not_le.mpr h)

end Overlay.TtlCache

namespace Signaling

open Publishing (nextOutgoingSequence)

namespace DedupeCache

/-- A call at this time loses no entry: none has expired, and there is room for the id. -/
structure Lossless (c : DedupeCache) (id : String) (now : Instant) : Prop where
  young : ∀ known t, c.entries.get known = some t → now - t < c.ttl
  room : c.entries.contains id = true ∨ c.entries.size < c.maxEntries

variable {c : DedupeCache} {id : String} {now : Instant}

theorem Lossless.get_sweep (h : c.Lossless id now) (known : String) :
    (Overlay.TtlCache.sweep c now).entries.get known = c.entries.get known := by
  rw [Overlay.TtlCache.sweep, Table.get_retain]
  cases hget : c.entries.get known with
  | none => rfl
  | some t => exact Option.filter_eq_some_iff.mpr ⟨rfl, decide_eq_true (h.young known t hget)⟩

theorem Lossless.checkAndInsert (h : c.Lossless id now) :
    (c.checkAndInsert id now).1 = !c.entries.contains id ∧ ∀ other,
      ((c.checkAndInsert id now).2.entries.contains other = true ↔ c.entries.contains other = true ∨ other = id) := by
  have hcontains : ∀ known, (Overlay.TtlCache.sweep c now).entries.contains known = c.entries.contains known :=
    fun known => congrArg Option.isSome (h.get_sweep known)
  cases hin : c.entries.contains id with
  | true =>
    have hcall : c.checkAndInsert id now = (false, Overlay.TtlCache.sweep c now) :=
      if_pos ((hcontains id).trans hin)
    rw [hcall]
    refine ⟨rfl, fun other => ?_⟩
    rw [hcontains]
    constructor
    · exact .inl
    · rintro (hother | rfl)
      · exact hother
      · exact hin
  | false =>
    have hroom := h.room.resolve_left (ne_true_of_eq_false hin)
    have hsize : (Overlay.TtlCache.sweep c now).entries.size < c.maxEntries :=
      Nat.lt_of_le_of_lt (Table.size_retain_le _ _) hroom
    have hevict : (Overlay.TtlCache.evictOldestUntilBelowLimit (Overlay.TtlCache.sweep c now)).entries =
        (Overlay.TtlCache.sweep c now).entries := Overlay.TtlCache.evictRounds_of_room _ hsize
    have hnew : ¬ (Overlay.TtlCache.sweep c now).entries.contains id = true := by
      rw [hcontains, hin]
      decide
    unfold DedupeCache.checkAndInsert
    simp only
    rw [if_neg hnew]
    refine ⟨rfl, fun other => ?_⟩
    simp only [hevict, Table.contains, Table.get_insert]
    split
    · next heq => exact iff_of_true rfl (.inr heq)
    · next hne =>
      rw [h.get_sweep]
      exact (or_iff_left hne).symm

end DedupeCache

/-! ## One message -/

def raised (sequence last : Option Nat) : Option Nat :=
  match sequence with
  | none => last
  | some n => some (last.elim n (max n))

/-- The number of a message trails the mark by the window or more. -/
def Trails (sequence last : Option Nat) : Prop :=
  ∃ n ∈ sequence, ∃ mark ∈ last, n + NOSTR_SEQUENCE_REORDER_WINDOW ≤ mark

/-- A message that trails its sender's mark is rejected and changes nothing; another one
raises that mark. -/
theorem acceptSequence_cases (sequences : Table String Nat) (sender : String) (sequence : Option Nat) :
    let after := acceptSequence sequences sender sequence
    (after.1.isAccepted = false ∧ after.2 = sequences ∧ Trails sequence (sequences.get sender)) ∨
      (after.1.isAccepted = true ∧ ¬ Trails sequence (sequences.get sender) ∧
        ∀ other, after.2.get other =
          if other = sender then raised sequence (sequences.get sender) else sequences.get other) := by
  cases sequence with
  | none =>
    refine .inr ⟨rfl, ?_, fun other => ?_⟩
    · rintro ⟨n, hn, -⟩
      cases hn
    · split
      · next heq => rw [heq]; rfl
      · rfl
  | some n =>
    cases hlast : sequences.get sender with
    | none =>
      simp only [acceptSequence, hlast, Table.get_insert]
      refine .inr ⟨rfl, ?_, fun other => rfl⟩
      rintro ⟨n', hn, mark, hmark, -⟩
      cases hmark
    | some last =>
      have hinsert : n > last → ∀ other, (sequences.insert sender n).get other =
          if other = sender then raised (some n) (some last) else sequences.get other := by
        intro hgreater other
        have hmax : max n last = n := Nat.max_eq_left hgreater.le
        rw [Table.get_insert, raised, Option.elim_some, hmax]
      have hahead : n > last → ¬ Trails (some n) (some last) := by
        rintro hgreater ⟨n', hn, mark, hmark, hle⟩
        cases hn
        cases hmark
        omega
      simp only [acceptSequence, hlast]
      split
      · next hle =>
        split
        · next hwindow =>
          refine .inr ⟨rfl, ?_, fun other => ?_⟩
          · rintro ⟨n', hn, mark, hmark, htrails⟩
            cases hn
            cases hmark
            omega
          · split
            · next heq => rw [heq, hlast, raised, Option.elim_some, Nat.max_eq_right hle]
            · rfl
        · next hstale => exact .inl ⟨rfl, rfl, n, rfl, last, rfl, by omega⟩
      · next hgreater =>
        split
        · exact .inr ⟨rfl, hahead (Nat.lt_of_not_le hgreater), hinsert (Nat.lt_of_not_le hgreater)⟩
        · exact .inr ⟨rfl, hahead (Nat.lt_of_not_le hgreater), hinsert (Nat.lt_of_not_le hgreater)⟩

/-! ## Runs -/

/-- What a receiver keeps of the messages it has got. -/
structure MessageOrder where
  messageDedupe : DedupeCache
  incomingSequences : Table String Nat

structure Arrival where
  senderPubkey : String
  messageId : Option String
  sequence : Option Nat
  now : Instant
deriving DecidableEq, Repr

namespace MessageOrder

def new (ttl : Duration) : MessageOrder := ⟨.new ttl, ∅⟩

def accept (o : MessageOrder) (a : Arrival) : MessageOrderAcceptance × MessageOrder :=
  let after := acceptMessageOrder o.messageDedupe o.incomingSequences a.senderPubkey a.messageId a.sequence a.now
  (after.1, ⟨after.2.1, after.2.2⟩)

def orderStep (o : MessageOrder) (a : Arrival) : Option MessageOrder := some (o.accept a).2

def accepted (m : Move MessageOrder Arrival) : Bool := (m.before.accept m.input).1.isAccepted

/-- The message was looked up in a cache that loses nothing by it. -/
def Retains (m : Move MessageOrder Arrival) : Prop :=
  ∀ id ∈ m.input.messageId, m.before.messageDedupe.Lossless id m.input.now

def Seen (past : List (Move MessageOrder Arrival)) (messageId : Option String) : Prop :=
  ∃ id ∈ messageId, ∃ m ∈ past, m.input.messageId = some id

def acceptedFrom (past : List (Move MessageOrder Arrival)) (sender : String) : List Nat :=
  past.filterMap fun m => if m.input.senderPubkey = sender ∧ accepted m then m.input.sequence else none

variable {o o' : MessageOrder} {a : Arrival} {past moves : List (Move MessageOrder Arrival)} {sender : String}

/-- What a run keeps: the cache knows the ids that came, and a mark is the greatest number
accepted. -/
structure Kept (past : List (Move MessageOrder Arrival)) (o : MessageOrder) : Prop where
  seen : ∀ id, o.messageDedupe.entries.contains id = true ↔ ∃ m ∈ past, m.input.messageId = some id
  marks : ∀ sender, o.incomingSequences.get sender = (acceptedFrom past sender).max?

/-- What one message does in a run so far: it is rejected if its id came or its number
trails, and then no mark changes; otherwise its sender's mark is raised. -/
structure Turn (past : List (Move MessageOrder Arrival)) (m : Move MessageOrder Arrival) (o' : MessageOrder) : Prop where
  rejected : accepted m = false ↔
    Seen past m.input.messageId ∨ Trails m.input.sequence (m.before.incomingSequences.get m.input.senderPubkey)
  marks : ∀ sender, o'.incomingSequences.get sender =
    if sender = m.input.senderPubkey ∧ accepted m = true then
      raised m.input.sequence (m.before.incomingSequences.get sender)
    else m.before.incomingSequences.get sender
  seen : ∀ id, o'.messageDedupe.entries.contains id = true ↔
    m.before.messageDedupe.entries.contains id = true ∨ m.input.messageId = some id

theorem turn_unseen {dedupe : DedupeCache} (hunseen : ¬ Seen past a.messageId)
    (haccept : o.accept a = ((acceptSequence o.incomingSequences a.senderPubkey a.sequence).1,
      ⟨dedupe, (acceptSequence o.incomingSequences a.senderPubkey a.sequence).2⟩))
    (hseen : ∀ id, dedupe.entries.contains id = true ↔
      o.messageDedupe.entries.contains id = true ∨ a.messageId = some id) :
    Turn past ⟨o, a⟩ (o.accept a).2 := by
  have hanswer : accepted ⟨o, a⟩ = (acceptSequence o.incomingSequences a.senderPubkey a.sequence).1.isAccepted := by
    rw [accepted, haccept]
  rcases acceptSequence_cases o.incomingSequences a.senderPubkey a.sequence with
    ⟨hrejected, hsame, htrails⟩ | ⟨haccepted, htrails, hraised⟩
  · rw [hrejected] at hanswer
    refine ⟨iff_of_true hanswer (.inr htrails), fun sender => ?_, ?_⟩
    · rw [if_neg (fun h => ne_true_of_eq_false hanswer h.2), haccept, hsame]
    · rw [haccept]
      exact hseen
  · rw [haccepted] at hanswer
    refine ⟨iff_of_false (ne_false_of_eq_true hanswer) (not_or.mpr ⟨hunseen, htrails⟩), fun sender => ?_, ?_⟩
    · rw [haccept]
      refine (hraised sender).trans ?_
      by_cases heq : sender = a.senderPubkey
      · rw [if_pos heq, if_pos ⟨heq, hanswer⟩, heq]
      · rw [if_neg heq, if_neg fun h => heq h.1]
    · rw [haccept]
      exact hseen

/-- A message is rejected if its id came or its number trails. -/
theorem turn (h : Kept past o) (hretains : Retains ⟨o, a⟩) : Turn past ⟨o, a⟩ (o.accept a).2 := by
  obtain ⟨sender, messageId, sequence, now⟩ := a
  cases messageId with
  | none =>
    refine turn_unseen ?_ rfl fun id => (or_iff_left nofun).symm
    rintro ⟨id, hid, -⟩
    cases hid
  | some id =>
    have hlossless : o.messageDedupe.Lossless id now := hretains id rfl
    obtain ⟨hnew, hknown⟩ := hlossless.checkAndInsert
    have hcall : o.accept ⟨sender, some id, sequence, now⟩ =
        if (o.messageDedupe.checkAndInsert id now).1 then
          ((acceptSequence o.incomingSequences sender sequence).1, ⟨(o.messageDedupe.checkAndInsert id now).2,
            (acceptSequence o.incomingSequences sender sequence).2⟩)
        else (.duplicateMessageId, ⟨(o.messageDedupe.checkAndInsert id now).2, o.incomingSequences⟩) := by
      unfold accept acceptMessageOrder
      simp only
      split <;> rfl
    have hseen : ∀ other, (o.messageDedupe.checkAndInsert id now).2.entries.contains other = true ↔
        o.messageDedupe.entries.contains other = true ∨ some id = some other := by
      intro other
      rw [hknown, Option.some_inj, eq_comm (a := id)]
    cases hin : o.messageDedupe.entries.contains id with
    | true =>
      rw [hin] at hnew
      have haccept : o.accept ⟨sender, some id, sequence, now⟩ =
          (.duplicateMessageId, ⟨(o.messageDedupe.checkAndInsert id now).2, o.incomingSequences⟩) :=
        hcall.trans (if_neg (by rw [hnew]; decide))
      have hrejected : accepted ⟨o, ⟨sender, some id, sequence, now⟩⟩ = false := by
        rw [accepted, haccept]
        rfl
      refine ⟨iff_of_true hrejected (.inl ⟨id, rfl, (h.seen id).mp hin⟩), fun sender => ?_, ?_⟩
      · rw [if_neg (fun h => ne_true_of_eq_false hrejected h.2), haccept]
      · rw [haccept]
        exact hseen
    | false =>
      rw [hin] at hnew
      refine turn_unseen ?_ (hcall.trans (if_pos (by rw [hnew]; rfl))) hseen
      rintro ⟨id', hid', hcame⟩
      obtain rfl := Option.some.inj hid'
      exact ne_true_of_eq_false hin ((h.seen id).mpr hcame)

theorem acceptedFrom_cons (m : Move MessageOrder Arrival) (past : List (Move MessageOrder Arrival)) (sender : String) :
    (acceptedFrom (m :: past) sender).max? =
      if sender = m.input.senderPubkey ∧ accepted m = true then
        raised m.input.sequence (acceptedFrom past sender).max?
      else (acceptedFrom past sender).max? := by
  unfold acceptedFrom
  rw [List.filterMap_cons]
  by_cases hraises : sender = m.input.senderPubkey ∧ accepted m = true
  · rw [if_pos hraises, if_pos ⟨hraises.1.symm, hraises.2⟩]
    cases m.input.sequence with
    | none => rfl
    | some n => exact List.max?_cons
  · rw [if_neg hraises, if_neg fun h => hraises ⟨h.1.symm, h.2⟩]

theorem Kept.step (h : Kept past o) (hturn : Turn past ⟨o, a⟩ o') : Kept (⟨o, a⟩ :: past) o' := by
  refine ⟨fun id => ?_, fun sender => ?_⟩
  · rw [hturn.seen, List.exists_mem_cons_iff, ← h.seen]
    exact or_comm
  · rw [hturn.marks, acceptedFrom_cons, ← h.marks]

/-- Over a run a mark is the greatest number accepted. -/
theorem kept_run {ttl : Duration} (run : Run orderStep (new ttl) moves o) (hretains : ∀ m ∈ moves, Retains m) :
    Kept moves o := by
  induction run with
  | nil =>
    refine ⟨fun id => iff_of_false ?_ ?_, fun sender => Table.get_empty sender⟩
    · rw [new, DedupeCache.new, Overlay.TtlCache.new, Table.contains, Table.get_empty]
      decide
    · rintro ⟨m, hm, -⟩
      cases hm
  | snoc _ hstep ih =>
    obtain ⟨hlast, hpast⟩ := List.forall_mem_cons.mp hretains
    cases hstep
    exact (ih hpast).step (turn (ih hpast) hlast)

/-- Over a run every message is judged by those before it. -/
theorem turn_run {ttl : Duration} {newer older : List (Move MessageOrder Arrival)} {m : Move MessageOrder Arrival}
    (run : Run orderStep (new ttl) (newer ++ m :: older) o) (hretains : ∀ x ∈ newer ++ m :: older, Retains x) :
    Kept older m.before ∧ Turn older m (m.before.accept m.input).2 := by
  obtain ⟨mid, hbefore, -, -⟩ := run.split
  obtain ⟨hm, holder⟩ := List.forall_mem_cons.mp (List.forall_mem_append.mp hretains).2
  have hkept := kept_run hbefore holder
  exact ⟨hkept, turn hkept hm⟩

/-! ### A numbered stream -/

/-- A message on its way, with the number it was given. -/
structure Sent where
  receiverPubkey : String
  messageId : String
  sequence : Nat
deriving DecidableEq, Repr

/-- Number messages to several receivers. -/
def numbered : Table String Nat → List (String × String) → List Sent
  | _, [] => []
  | outgoing, (receiver, id) :: rest =>
    let next := nextOutgoingSequence outgoing receiver
    ⟨receiver, id, next.1⟩ :: numbered next.2 rest

/-- The messages of a stream arrive from their sender, and nothing else does: each one any
number of times, but none for the first time after one whose number is larger by the window
or more. -/
structure Delivers (stream : List Sent) (sender : String) (moves : List (Move MessageOrder Arrival)) : Prop where
  own : ∀ m ∈ moves, m.input.senderPubkey = sender →
    ∃ sent ∈ stream, m.input.messageId = some sent.messageId ∧ m.input.sequence = some sent.sequence
  foreign : ∀ m ∈ moves, m.input.senderPubkey ≠ sender → ∀ sent ∈ stream, m.input.messageId ≠ some sent.messageId
  ordered : ∀ newer m older, moves = newer ++ m :: older → m.input.senderPubkey = sender →
    ¬ Seen older m.input.messageId → ∀ earlier ∈ older, earlier.input.senderPubkey = sender →
      ∀ n ∈ m.input.sequence, ∀ k ∈ earlier.input.sequence, k < n + NOSTR_SEQUENCE_REORDER_WINDOW

def Takes (sent : Sent) (m : Move MessageOrder Arrival) : Prop :=
  m.input.messageId = some sent.messageId ∧ m.input.sequence = some sent.sequence ∧ accepted m = true
deriving Decidable

def timesAccepted (moves : List (Move MessageOrder Arrival)) (sent : Sent) : Nat := moves.countP (Takes sent)

theorem first_arrival {id : String} (h : ∃ m ∈ moves, m.input.messageId = some id) :
    ∃ newer m older, moves = newer ++ m :: older ∧ m.input.messageId = some id ∧
      ∀ earlier ∈ older, earlier.input.messageId ≠ some id := by
  induction moves with
  | nil =>
    obtain ⟨m, hm, -⟩ := h
    cases hm
  | cons latest past ih =>
    by_cases hpast : ∃ m ∈ past, m.input.messageId = some id
    · obtain ⟨newer, m, older, rfl, hfound⟩ := ih hpast
      exact ⟨latest :: newer, m, older, rfl, hfound⟩
    · have hnone : ∀ earlier ∈ past, earlier.input.messageId ≠ some id := fun earlier hearlier hid =>
        hpast ⟨earlier, hearlier, hid⟩
      obtain ⟨m, hm, hid⟩ := h
      rcases List.mem_cons.mp hm with rfl | hm
      · exact ⟨[], m, past, rfl, hid, hnone⟩
      · exact absurd hid (hnone m hm)

theorem accepted_first {stream : List Sent} {newer older : List (Move MessageOrder Arrival)}
    {m : Move MessageOrder Arrival} (hdelivers : Delivers stream sender (newer ++ m :: older))
    (hkept : Kept older m.before) (hturn : Turn older m o') (hsender : m.input.senderPubkey = sender)
    (hfirst : ¬ Seen older m.input.messageId) : accepted m = true := by
  refine Bool.eq_true_of_not_eq_false fun hrejected => ?_
  obtain ⟨n, hn, mark, hmark, hle⟩ := (hturn.rejected.mp hrejected).resolve_left hfirst
  rw [hsender, hkept.marks] at hmark
  obtain ⟨earlier, hearlier, hk⟩ := List.mem_filterMap.mp (List.max?_mem hmark)
  split at hk
  · next hfrom =>
    have hlt := hdelivers.ordered newer m older rfl hsender hfirst earlier hearlier hfrom.1 n hn mark hk
    exact absurd hle (Nat.not_le.mpr hlt)
  · cases hk

/-- A message of a stream that arrives is accepted once. -/
theorem accepted_once {ttl : Duration} {stream : List Sent} (run : Run orderStep (new ttl) moves o)
    (hretains : ∀ m ∈ moves, Retains m) (hdistinct : (stream.map Sent.messageId).Nodup)
    (hdelivers : Delivers stream sender moves) {sent : Sent} (hsent : sent ∈ stream)
    (harrives : ∃ m ∈ moves, m.input.messageId = some sent.messageId) : timesAccepted moves sent = 1 := by
  obtain ⟨newer, m, older, rfl, hid, hfirst⟩ := first_arrival harrives
  obtain ⟨hkept, hturn⟩ := turn_run run hretains
  have hmem : m ∈ newer ++ m :: older := List.mem_append_right newer List.mem_cons_self
  have hsender : m.input.senderPubkey = sender := not_not.mp fun hforeign =>
    hdelivers.foreign m hmem hforeign sent hsent hid
  have hunseen : ¬ Seen older m.input.messageId := by
    rintro ⟨id, hmessage, earlier, hearlier, hcame⟩
    exact hfirst earlier hearlier (hcame.trans (hmessage.symm.trans hid))
  -- No other message of the stream has this id, so what came first has its number.
  obtain ⟨sent', hsent', hid', hsequence⟩ := hdelivers.own m hmem hsender
  have hsame : sent' = sent :=
    List.inj_on_of_nodup_map hdistinct hsent' hsent (Option.some.inj (hid'.symm.trans hid))
  have hfirstTaken : Takes sent m :=
    ⟨hid, hsame ▸ hsequence, accepted_first hdelivers hkept hturn hsender hunseen⟩
  have holder : ∀ earlier ∈ older, ¬ Takes sent earlier := fun earlier hearlier htaken =>
    hfirst earlier hearlier htaken.1
  -- Every later copy finds the id in the cache.
  have hnewer : ∀ copy ∈ newer, ¬ Takes sent copy := by
    rintro copy hcopy ⟨hcopied, -, hagain⟩
    obtain ⟨newest, between, rfl⟩ := List.append_of_mem hcopy
    rw [List.append_assoc, List.cons_append] at run hretains
    have hrejected := (turn_run run hretains).2.rejected.mpr
      (.inl ⟨sent.messageId, hcopied, m, List.mem_append_right between List.mem_cons_self, hid⟩)
    rw [hrejected] at hagain
    cases hagain
  have hcountNewer : newer.countP (Takes sent) = 0 :=
    List.countP_eq_zero.mpr fun copy hcopy htaken => hnewer copy hcopy (of_decide_eq_true htaken)
  have hcountOlder : older.countP (Takes sent) = 0 :=
    List.countP_eq_zero.mpr fun earlier hearlier htaken => holder earlier hearlier (of_decide_eq_true htaken)
  have hcount : (m :: older).countP (Takes sent) = older.countP (Takes sent) + 1 :=
    List.countP_cons_of_pos (decide_eq_true hfirstTaken)
  rw [timesAccepted, List.countP_append, hcountNewer, hcount, hcountOlder]

theorem le_raised {sequence last : Option Nat} {mark : Nat} (h : last = some mark) :
    ∃ mark', raised sequence last = some mark' ∧ mark ≤ mark' := by
  subst h
  cases sequence with
  | none => exact ⟨mark, rfl, Nat.le_refl mark⟩
  | some n => exact ⟨max n mark, rfl, Nat.le_max_right n mark⟩

/-- In every run in which the cache of ids loses nothing the mark of each sender is the
greatest number accepted from it. A message is rejected exactly if its id came before or its
number trails that by the window; it lowers no mark and changes none but its sender's. A
message of a numbered stream that is delivered within the window is accepted once. -/
theorem sequence_window {ttl : Duration} (run : Run orderStep (new ttl) moves o)
    (hretains : ∀ m ∈ moves, Retains m) :
    (∀ sender, o.incomingSequences.get sender = (acceptedFrom moves sender).max?) ∧
      (∀ newer m older, moves = newer ++ m :: older →
        (accepted m = false ↔ Seen older m.input.messageId ∨
          Trails m.input.sequence (acceptedFrom older m.input.senderPubkey).max?) ∧
        (∀ sender mark, m.before.incomingSequences.get sender = some mark →
          ∃ mark', (m.before.accept m.input).2.incomingSequences.get sender = some mark' ∧ mark ≤ mark') ∧
        ∀ sender, sender ≠ m.input.senderPubkey →
          (m.before.accept m.input).2.incomingSequences.get sender = m.before.incomingSequences.get sender) ∧
      ∀ outgoing sends receiver sender,
        let stream := (numbered outgoing sends).filter fun sent => sent.receiverPubkey = receiver
        (stream.map Sent.messageId).Nodup → Delivers stream sender moves →
          ∀ sent ∈ stream, (∃ m ∈ moves, m.input.messageId = some sent.messageId) →
            timesAccepted moves sent = 1 := by
  refine ⟨(kept_run run hretains).marks, ?_, ?_⟩
  · rintro newer m older rfl
    obtain ⟨hkept, hturn⟩ := turn_run run hretains
    refine ⟨?_, fun sender mark hmark => ?_, fun sender hne => ?_⟩
    · rw [← hkept.marks]
      exact hturn.rejected
    · rw [hturn.marks]
      split
      · exact le_raised hmark
      · exact ⟨mark, hmark, Nat.le_refl mark⟩
    · rw [hturn.marks, if_neg fun h => hne h.1]
  · intro outgoing sends receiver sender stream hdistinct hdelivers sent hsent
    exact accepted_once run hretains hdistinct hdelivers hsent

/-- Three messages go out, two of them to this receiver; the second one arrives first, and
twice. -/
def overtaken : List Arrival :=
  [⟨"alice", some "b", some 2, 0⟩, ⟨"alice", some "a", some 1, 0⟩, ⟨"bob", some "z", some 7, 0⟩,
    ⟨"alice", some "b", some 2, 0⟩]

theorem sequence_window_overtaken :
    let moves := (Reactive.play orderStep (new 60) overtaken).1
    acceptedFrom moves "alice" = [1, 2] ∧
      (Reactive.play orderStep (new 60) overtaken).2.incomingSequences.get "alice" = some 2 ∧
      timesAccepted moves ⟨"carol", "a", 1⟩ = 1 ∧ timesAccepted moves ⟨"carol", "b", 2⟩ = 1 := by
  intro moves
  have hroom : ∀ m ∈ moves, m.input.now = 0 ∧ 0 < m.before.messageDedupe.ttl ∧
      m.before.messageDedupe.entries.size < m.before.messageDedupe.maxEntries := by decide
  have hretains : ∀ m ∈ moves, Retains m := by
    intro m hm id _
    obtain ⟨hnow, httl, hsize⟩ := hroom m hm
    refine ⟨fun known t _ => ?_, .inr hsize⟩
    rw [hnow, Nat.zero_sub]
    exact httl
  have hdelivers : Delivers [⟨"carol", "a", 1⟩, ⟨"carol", "b", 2⟩] "alice" moves := by
    refine ⟨by decide, by decide, ?_⟩
    rintro newer m older hmoves - - earlier hearlier - n - k hk
    have hsmall : ∀ m ∈ moves, ∀ k ∈ m.input.sequence, k < NOSTR_SEQUENCE_REORDER_WINDOW := by decide
    have hearlierIn : earlier ∈ moves := by
      rw [hmoves]
      exact List.mem_append_right newer (List.mem_cons_of_mem m hearlier)
    exact Nat.lt_of_lt_of_le (hsmall earlier hearlierIn k hk) (Nat.le_add_left _ n)
  obtain ⟨hmarks, -, hstream⟩ := sequence_window (Reactive.run_play orderStep (new 60) overtaken) hretains
  have honce := hstream ∅ [("carol", "a"), ("dave", "c"), ("carol", "b")] "carol" "alice" (by decide) hdelivers
  refine ⟨by decide, (hmarks "alice").trans (by decide), ?_, ?_⟩
  · exact honce ⟨"carol", "a", 1⟩ (by decide) (by decide)
  · exact honce ⟨"carol", "b", 2⟩ (by decide) (by decide)

end MessageOrder

end Signaling

end Mistlib
