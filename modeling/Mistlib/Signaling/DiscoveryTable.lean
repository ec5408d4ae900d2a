import Mathlib.Data.Finset.Card
import Mathlib.Data.String.Basic
import Mistlib.Data.Ring
import Mistlib.Data.Table
import Mistlib.Signaling.Codec

/-!
# The discovery table

What a node knows of the keys in its room: one entry a key, with the time it expires and its
topology rank, and the key each node id is bound to.

A newcomer is answered by a few members only, and each finds out by itself whether it is one: it
orders all keys it knows of by rank, with its own and the newcomer's, and walks back around that
ring from the newcomer. The tables differ from member to member; `responders_agree` is why the
members still pick the same ones.
-/

namespace Mistlib.Signaling

structure DiscoveryEntry where
  signalingPubkey : String
  expiresAt : Nat
  topologyRank : String
deriving DecidableEq, Repr

/-- The key a node id is bound to, with the session it was last seen in. -/
structure NodeBinding where
  pubkey : String
  epoch : Option Nat
deriving DecidableEq, Repr

/-- An entry is filed under its own key. -/
structure DiscoveryTable where
  byPubkey : Table String DiscoveryEntry
  nodeToPubkey : Table NodeId NodeBinding
  keyed : ∀ pubkey entry, byPubkey.get pubkey = some entry → entry.signalingPubkey = pubkey

namespace DiscoveryTable

def new : DiscoveryTable where
  byPubkey := ∅
  nodeToPubkey := ∅
  keyed _ _ h := by
    rw [Table.get_empty] at h
    cases h

variable (t : DiscoveryTable)

def sweepExpired (now : Nat) : DiscoveryTable :=
  let byPubkey := t.byPubkey.retain fun _ entry => decide (entry.expiresAt > now)
  { byPubkey
    nodeToPubkey := t.nodeToPubkey.retain fun _ binding => byPubkey.contains binding.pubkey
    keyed := fun pubkey entry h => by
      rw [Table.get_retain, Option.filter_eq_some_iff] at h
      exact t.keyed pubkey entry h.1 }

/-- An entry is renewed, never shortened; its rank is the latest one. -/
def insertPubkeyWithRank (now : Nat) (signalingPubkey : String) (expiresAt : Nat)
    (topologyRank : String) : DiscoveryTable :=
  let t := t.sweepExpired now
  let expiresAt :=
    match t.byPubkey.get signalingPubkey with
    | none => expiresAt
    | some entry => max entry.expiresAt expiresAt
  { t with
    byPubkey := t.byPubkey.insert signalingPubkey { signalingPubkey, expiresAt, topologyRank }
    keyed := fun pubkey entry h => by
      rw [Table.get_insert] at h
      split at h
      · next heq =>
        cases h
        exact heq.symm
      · exact t.keyed pubkey entry h }

end DiscoveryTable

/-! ## Choosing the responders -/

/-- Pairs of a rank and a key, in the order of tuples of strings. -/
abbrev Ranked := String × String

def rankedLe (a b : Ranked) : Prop := a.1 < b.1 ∨ a.1 = b.1 ∧ a.2 ≤ b.2
deriving Decidable

def pushMissing (ranked : List Ranked) (rank pubkey : String) : List Ranked :=
  if ranked.any fun entry => decide (entry.2 = pubkey) then ranked else ranked ++ [(rank, pubkey)]

/-- Walk back around the ring over the remaining offsets until the limit is met. -/
def walkBack (ranked : List Ranked) (subjectIndex : Nat) (subjectPubkey : String) (limit : Nat) :
    List Nat → List String → List String
  | [], responders => responders
  | offset :: offsets, responders =>
    let index := (subjectIndex + ranked.length - offset) % ranked.length
    let pubkey := (ranked.getD index ("", "")).2
    if pubkey = subjectPubkey then
      walkBack ranked subjectIndex subjectPubkey limit offsets responders
    else
      let responders := responders ++ [pubkey]
      if responders.length = limit then responders
      else walkBack ranked subjectIndex subjectPubkey limit offsets responders

namespace DiscoveryTable

variable (t : DiscoveryTable)

/-- The keys that answer the subject, and the table without the expired entries. -/
def responderPubkeysFor (now : Nat) (subjectPubkey subjectRank localPubkey localRank : String)
    (limit : Nat) : List String × DiscoveryTable :=
  let t := t.sweepExpired now
  if limit = 0 then ([], t)
  else
    let ranked := t.byPubkey.values.map fun entry => (entry.topologyRank, entry.signalingPubkey)
    let ranked := pushMissing ranked localRank localPubkey
    let ranked := pushMissing ranked subjectRank subjectPubkey
    let ranked := (ranked.insertionSort rankedLe).destutter fun left right => left.2 ≠ right.2
    if ranked.length ≤ 1 then ([], t)
    else
      match ranked.findIdx? fun entry => decide (entry.2 = subjectPubkey) with
      | none => ([], t)
      | some subjectIndex =>
        (walkBack ranked subjectIndex subjectPubkey limit (List.range' 1 (ranked.length - 1)) [], t)

theorem responderPubkeysFor_table (now : Nat)
    (subjectPubkey subjectRank localPubkey localRank : String) (limit : Nat) :
    (t.responderPubkeysFor now subjectPubkey subjectRank localPubkey localRank limit).2 = t.sweepExpired now := by
  unfold responderPubkeysFor
  dsimp only
  split
  · rfl
  · split
    · rfl
    · split
      · rfl
      · rfl

/-- Whether this node is one of those that answer a discovery. The first time
is when the entry is made, the second when the responders are chosen. -/
def recordDiscoveryAndShouldRequest (lib : Library) (config : NostrCodecConfig)
    (recorded chosen : Nat) (decoded : DecodedDiscovery) (roomId localPubkey : String)
    (maxResponders : Nat) : Bool × DiscoveryTable :=
  let localRank := config.topologyRank lib roomId localPubkey
  let t := t.insertPubkeyWithRank recorded decoded.signalingPubkey decoded.expiresAt
    decoded.topologyRank
  let (responders, t) := t.responderPubkeysFor chosen decoded.signalingPubkey decoded.topologyRank
    localPubkey localRank maxResponders
  (responders.any fun pubkey => decide (pubkey = localPubkey), t)

end DiscoveryTable

/-! ## The order of ranked keys -/

instance : Std.Total rankedLe where
  total a b := by
    rcases lt_trichotomy a.1 b.1 with h | h | h
    · exact .inl (.inl h)
    · rcases le_total a.2 b.2 with h' | h'
      · exact .inl (.inr ⟨h, h'⟩)
      · exact .inr (.inr ⟨h.symm, h'⟩)
    · exact .inr (.inl h)

instance : IsTrans Ranked rankedLe where
  trans a b c := by
    rintro (hab | ⟨hab, hab'⟩) (hbc | ⟨hbc, hbc'⟩)
    · exact .inl (hab.trans hbc)
    · exact .inl (hbc ▸ hab)
    · exact .inl (hab ▸ hbc)
    · exact .inr ⟨hab.trans hbc, hab'.trans hbc'⟩

instance : Std.Antisymm rankedLe where
  antisymm a b := by
    rintro (hab | ⟨hab, hab'⟩) (hba | ⟨hba, hba'⟩)
    · exact absurd hba (lt_asymm hab)
    · exact absurd hab (hba ▸ lt_irrefl _)
    · exact absurd hba (hab ▸ lt_irrefl _)
    · exact Prod.ext hab (le_antisymm hab' hba')

/-- The list has each key of the set once, with its rank, and nothing else. -/
structure Roll (rank : String → String) (keys : Finset String) (ranked : List Ranked) : Prop where
  nodup : (ranked.map Prod.snd).Nodup
  mem_iff : ∀ entry, entry ∈ ranked ↔ entry.2 ∈ keys ∧ entry.1 = rank entry.2

namespace Roll

variable {rank : String → String} {keys : Finset String} {ranked ranked' : List Ranked}

section

variable (h : Roll rank keys ranked)
include h

theorem pushMissing (pubkey : String) :
    Roll rank (insert pubkey keys) (pushMissing ranked (rank pubkey) pubkey) := by
  unfold Signaling.pushMissing
  split
  · next hany =>
    obtain ⟨entry, hentry, hkey⟩ := List.any_eq_true.mp hany
    obtain rfl := of_decide_eq_true hkey
    rw [Finset.insert_eq_of_mem ((h.mem_iff entry).mp hentry).1]
    exact h
  · next hany =>
    have hmissing : ∀ entry ∈ ranked, entry.2 ≠ pubkey := fun entry hentry heq =>
      hany (List.any_eq_true.mpr ⟨entry, hentry, decide_eq_true heq⟩)
    refine ⟨?_, fun entry => ?_⟩
    · rw [List.map_append, List.nodup_append]
      refine ⟨h.nodup, List.nodup_singleton _, fun key hkey other hother => ?_⟩
      obtain ⟨entry, hentry, rfl⟩ := List.mem_map.mp hkey
      obtain rfl := List.mem_singleton.mp hother
      exact hmissing entry hentry
    · rw [List.mem_append, h.mem_iff, List.mem_singleton, Finset.mem_insert]
      constructor
      · rintro (⟨hmem, hrank⟩ | rfl)
        · exact ⟨.inr hmem, hrank⟩
        · exact ⟨.inl rfl, rfl⟩
      · rintro ⟨rfl | hmem, hrank⟩
        · exact .inr (Prod.ext hrank rfl)
        · exact .inl ⟨hmem, hrank⟩

theorem nodup_entries : ranked.Nodup := h.nodup.of_map

theorem perm (h' : Roll rank keys ranked') : ranked.Perm ranked' :=
  (List.perm_ext_iff_of_nodup h.nodup_entries h'.nodup_entries).mpr fun entry => by
    rw [h.mem_iff, h'.mem_iff]

theorem of_perm (hperm : ranked.Perm ranked') : Roll rank keys ranked' :=
  ⟨(hperm.map _).nodup_iff.mp h.nodup, fun entry => by rw [← hperm.mem_iff, h.mem_iff]⟩

theorem mem_keys_iff {pubkey : String} : pubkey ∈ ranked.map Prod.snd ↔ pubkey ∈ keys := by
  rw [List.mem_map]
  constructor
  · rintro ⟨entry, hentry, rfl⟩
    exact ((h.mem_iff entry).mp hentry).1
  · intro hmem
    exact ⟨(rank pubkey, pubkey), (h.mem_iff _).mpr ⟨hmem, rfl⟩, rfl⟩

theorem length_eq : ranked.length = keys.card := by
  have hkeys : (ranked.map Prod.snd).toFinset = keys := by
    ext pubkey
    rw [List.mem_toFinset, h.mem_keys_iff]
  rw [← hkeys, List.toFinset_card_of_nodup h.nodup, List.length_map]

end

end Roll

/-! ## The ring of a room -/

section Room

variable (rank : String → String) (members : Finset String)

/-- The members in the order of their ranks. -/
noncomputable def ring : List Ranked :=
  (members.toList.map fun pubkey => (rank pubkey, pubkey)).insertionSort rankedLe

/-- The members that answer the subject: the first ones met walking back from it. -/
noncomputable def responders (subject : String) (limit : Nat) : List String :=
  let keys := (ring rank members).map Prod.snd
  (Ring.before keys (keys.idxOf subject)).take limit

theorem roll_ring : Roll rank members (ring rank members) := by
  have hroll : Roll rank members (members.toList.map fun pubkey => (rank pubkey, pubkey)) := by
    refine ⟨?_, fun entry => ?_⟩
    · rw [List.map_map]
      exact (List.map_id members.toList).symm ▸ members.nodup_toList
    · rw [List.mem_map]
      constructor
      · rintro ⟨pubkey, hmem, rfl⟩
        exact ⟨Finset.mem_toList.mp hmem, rfl⟩
      · rintro ⟨hmem, hrank⟩
        exact ⟨entry.2, Finset.mem_toList.mpr hmem, Prod.ext hrank.symm rfl⟩
  exact hroll.of_perm (List.perm_insertionSort _ _).symm

variable {rank members}

theorem Roll.sorted {ranked : List Ranked} (h : Roll rank members ranked) :
    (ranked.insertionSort rankedLe).destutter (fun left right => left.2 ≠ right.2) =
      ring rank members := by
  have hsort : ranked.insertionSort rankedLe = ring rank members := by
    have hperm := (h.perm (roll_ring rank members)).trans (List.perm_insertionSort rankedLe _)
    exact Ring.insertionSort_eq_of_perm hperm
  rw [hsort]
  exact Ring.destutter_eq_self (roll_ring rank members).nodup

variable {subject : String} {limit : Nat}

theorem mem_ring_keys {pubkey : String} :
    pubkey ∈ (ring rank members).map Prod.snd ↔ pubkey ∈ members :=
  (roll_ring rank members).mem_keys_iff

section

variable (h : subject ∈ members)
include h

theorem cons_before_subject_perm : let keys := (ring rank members).map Prod.snd
    (subject :: Ring.before keys (keys.idxOf subject)).Perm keys := by
  intro keys
  have hlt : keys.idxOf subject < keys.length :=
    List.idxOf_lt_length_iff.mpr (mem_ring_keys.mpr h)
  have hperm := Ring.cons_before_perm hlt
  rwa [List.getElem_idxOf hlt] at hperm

theorem nodup_cons_before_subject : let keys := (ring rank members).map Prod.snd
    (subject :: Ring.before keys (keys.idxOf subject)).Nodup :=
  (cons_before_subject_perm h).nodup_iff.mpr (roll_ring rank members).nodup

theorem responders_nodup : (responders rank members subject limit).Nodup :=
  (List.nodup_cons.mp (nodup_cons_before_subject h)).2.sublist (List.take_sublist _ _)

theorem subject_notMem_responders : subject ∉ responders rank members subject limit := fun hmem =>
  (List.nodup_cons.mp (nodup_cons_before_subject h)).1 (List.mem_of_mem_take hmem)

theorem responders_subset {pubkey : String} (hmem : pubkey ∈ responders rank members subject limit) :
    pubkey ∈ members :=
  mem_ring_keys.mp ((cons_before_subject_perm h).mem_iff.mp
    (List.mem_cons_of_mem _ (List.mem_of_mem_take hmem)))

theorem length_responders :
    (responders rank members subject limit).length = min limit (members.card - 1) := by
  have hlt : ((ring rank members).map Prod.snd).idxOf subject <
      ((ring rank members).map Prod.snd).length :=
    List.idxOf_lt_length_iff.mpr (mem_ring_keys.mpr h)
  rw [responders, List.length_take, Ring.length_before hlt, List.length_map,
    (roll_ring rank members).length_eq]

theorem card_filter_responders :
    (members.filter fun pubkey => pubkey ∈ responders rank members subject limit).card =
      min limit (members.card - 1) := by
  have hfilter : (members.filter fun pubkey => pubkey ∈ responders rank members subject limit) =
      (responders rank members subject limit).toFinset := by
    ext pubkey
    rw [Finset.mem_filter, List.mem_toFinset, and_iff_right_iff_imp]
    exact responders_subset h
  rw [hfilter, List.toFinset_card_of_nodup (responders_nodup h), length_responders h]

end

end Room

/-! ## The walk of the code -/

theorem walkBack_eq {ranked : List Ranked} {subjectIndex limit : Nat} {subject : String}
    {offsets : List Nat} {found : List String}
    (hother : ∀ offset ∈ offsets, (ranked.getD
      ((subjectIndex + ranked.length - offset) % ranked.length) ("", "")).2 ≠ subject)
    (hroom : found.length < limit) :
    walkBack ranked subjectIndex subject limit offsets found =
      found ++ (offsets.map fun offset => (ranked.getD
        ((subjectIndex + ranked.length - offset) % ranked.length) ("", "")).2).take
          (limit - found.length) := by
  induction offsets generalizing found with
  | nil => simp [walkBack]
  | cons offset offsets ih =>
    obtain ⟨hhead, htail⟩ := List.forall_mem_cons.mp hother
    obtain ⟨room, hroom'⟩ : ∃ room, limit - found.length = room + 1 :=
      ⟨limit - found.length - 1, by omega⟩
    rw [walkBack, if_neg hhead, List.map_cons, hroom', List.take_succ_cons]
    dsimp only
    split
    · next hfull =>
      rw [List.length_append, List.length_singleton] at hfull
      rw [show room = 0 by omega, List.take_zero]
    · next hfull =>
      rw [List.length_append, List.length_singleton] at hfull
      rw [ih htail (by rw [List.length_append, List.length_singleton]; omega),
        List.length_append, List.length_singleton, List.append_assoc,
        show limit - (found.length + 1) = room by omega]
      rfl

namespace DiscoveryTable

/-- What a member's table holds of the room at a time: every entry that has
not expired is a member's, with its rank, and only the entries of the member
itself and of the subject may be missing. -/
structure Knows (rank : String → String) (members : Finset String) (localPubkey subject : String)
    (now : Nat) (t : DiscoveryTable) : Prop where
  known : ∀ pubkey entry, t.byPubkey.get pubkey = some entry → now < entry.expiresAt →
    pubkey ∈ members ∧ entry.topologyRank = rank pubkey
  others : ∀ pubkey ∈ members, pubkey ≠ localPubkey → pubkey ≠ subject →
    ∃ entry, t.byPubkey.get pubkey = some entry ∧ now < entry.expiresAt

variable {rank : String → String} {members : Finset String} {localPubkey subject : String}
  {now limit : Nat} {t : DiscoveryTable}

theorem get_sweepExpired {pubkey : String} {entry : DiscoveryEntry} :
    (t.sweepExpired now).byPubkey.get pubkey = some entry ↔
      t.byPubkey.get pubkey = some entry ∧ now < entry.expiresAt := by
  rw [sweepExpired, Table.get_retain, Option.filter_eq_some_iff, decide_eq_true_iff]

section

variable (h : Knows rank members localPubkey subject now t)
include h

theorem roll_values :
    Roll rank (members.filter fun pubkey => (t.sweepExpired now).byPubkey.contains pubkey = true)
      ((t.sweepExpired now).byPubkey.values.map fun entry =>
        (entry.topologyRank, entry.signalingPubkey)) := by
  have hkeys : ((t.sweepExpired now).byPubkey.values.map fun entry => entry.signalingPubkey) =
      (t.sweepExpired now).byPubkey.keys := by
    rw [Table.values, Table.keys, List.map_map]
    refine List.map_congr_left fun e he => ?_
    exact (t.sweepExpired now).keyed e.1 e.2 (Table.get_eq_some_iff.mpr he)
  refine ⟨?_, fun entry => ?_⟩
  · rw [List.map_map]
    exact hkeys ▸ Table.keys_nodup _
  · rw [List.mem_map, Finset.mem_filter, Table.contains_iff]
    constructor
    · rintro ⟨found, hfound, rfl⟩
      obtain ⟨pubkey, hget⟩ := Table.mem_values_iff.mp hfound
      obtain rfl := (t.sweepExpired now).keyed pubkey found hget
      obtain ⟨hmem, hrank⟩ := h.known _ found (get_sweepExpired.mp hget).1
        (get_sweepExpired.mp hget).2
      exact ⟨⟨hmem, found, hget⟩, hrank⟩
    · rintro ⟨⟨-, found, hget⟩, hrank⟩
      refine ⟨found, Table.mem_values_iff.mpr ⟨_, hget⟩, Prod.ext ?_ ?_⟩
      · rw [hrank]
        exact (h.known _ found (get_sweepExpired.mp hget).1 (get_sweepExpired.mp hget).2).2
      · exact (t.sweepExpired now).keyed _ found hget

theorem roll_members (hlocal : localPubkey ∈ members) (hsubject : subject ∈ members) :
    Roll rank members
      (pushMissing
        (pushMissing ((t.sweepExpired now).byPubkey.values.map fun entry =>
          (entry.topologyRank, entry.signalingPubkey)) (rank localPubkey) localPubkey)
        (rank subject) subject) := by
  have hroll := ((roll_values h).pushMissing localPubkey).pushMissing subject
  have hkeys : insert subject (insert localPubkey (members.filter fun pubkey =>
      (t.sweepExpired now).byPubkey.contains pubkey = true)) = members := by
    ext pubkey
    rw [Finset.mem_insert, Finset.mem_insert, Finset.mem_filter]
    constructor
    · rintro (rfl | rfl | ⟨hmem, -⟩)
      · exact hsubject
      · exact hlocal
      · exact hmem
    · intro hmem
      by_cases hs : pubkey = subject
      · exact .inl hs
      · by_cases hl : pubkey = localPubkey
        · exact .inr (.inl hl)
        · obtain ⟨entry, hget, hfresh⟩ := h.others pubkey hmem hl hs
          exact .inr (.inr ⟨hmem, Table.contains_iff.mpr
            ⟨entry, get_sweepExpired.mpr ⟨hget, hfresh⟩⟩⟩)
  rwa [hkeys] at hroll

/-- The table chooses the responders that the ring of the members gives. -/
theorem responderPubkeysFor_eq (hlocal : localPubkey ∈ members) (hsubject : subject ∈ members) :
    (t.responderPubkeysFor now subject (rank subject) localPubkey (rank localPubkey) limit).1 =
      responders rank members subject limit := by
  unfold responderPubkeysFor
  split
  · next hzero => rw [hzero, responders, List.take_zero]
  · next hlimit =>
    dsimp only
    rw [(roll_members h hlocal hsubject).sorted]
    have hlength := (roll_ring rank members).length_eq
    split
    · next hone =>
      rw [hlength] at hone
      refine (List.eq_nil_of_length_eq_zero ?_).symm
      rw [length_responders hsubject]
      omega
    · have hlt : ((ring rank members).map Prod.snd).idxOf subject < (ring rank members).length := by
        have hmem : subject ∈ (ring rank members).map Prod.snd := mem_ring_keys.mpr hsubject
        have hindex := List.idxOf_lt_length_iff.mpr hmem
        rwa [List.length_map] at hindex
      have hfind : (ring rank members).findIdx? (fun entry => decide (entry.2 = subject)) =
          some (((ring rank members).map Prod.snd).idxOf subject) := by
        rw [List.findIdx?_eq_some_iff_findIdx_eq]
        refine ⟨hlt, ?_⟩
        rw [List.idxOf, List.findIdx_map]
        rfl
      rw [hfind]
      have hwalk := Ring.map_range_eq_before hlt ("", "")
      have hkeys : ((List.range' 1 ((ring rank members).length - 1)).map fun offset =>
          ((ring rank members).getD ((((ring rank members).map Prod.snd).idxOf subject +
            (ring rank members).length - offset) % (ring rank members).length) ("", "")).2) =
          Ring.before ((ring rank members).map Prod.snd)
            (((ring rank members).map Prod.snd).idxOf subject) := by
        rw [← Ring.map_before, ← hwalk, List.map_map]
        rfl
      have hother : ∀ offset ∈ List.range' 1 ((ring rank members).length - 1),
          ((ring rank members).getD ((((ring rank members).map Prod.snd).idxOf subject +
            (ring rank members).length - offset) % (ring rank members).length) ("", "")).2 ≠
              subject := by
        intro offset hoffset heq
        have hmet : subject ∈ Ring.before ((ring rank members).map Prod.snd)
            (((ring rank members).map Prod.snd).idxOf subject) := by
          rw [← hkeys]
          exact List.mem_map.mpr ⟨offset, hoffset, heq⟩
        exact (List.nodup_cons.mp (nodup_cons_before_subject hsubject)).1 hmet
      dsimp only
      rw [walkBack_eq hother (by rw [List.length_nil]; omega), hkeys, List.nil_append,
        List.length_nil, Nat.sub_zero, responders]

end

theorem Knows.insertPubkeyWithRank {recorded chosen : Nat} (expiresAt : Nat)
    (h : Knows rank members localPubkey subject (max recorded chosen) t)
    (hsubject : subject ∈ members) :
    Knows rank members localPubkey subject chosen
      (t.insertPubkeyWithRank recorded subject expiresAt (rank subject)) := by
  have hget : ∀ pubkey, pubkey ≠ subject →
      (t.insertPubkeyWithRank recorded subject expiresAt (rank subject)).byPubkey.get pubkey =
        (t.sweepExpired recorded).byPubkey.get pubkey := by
    intro pubkey hne
    simp only [DiscoveryTable.insertPubkeyWithRank, Table.get_insert, if_neg hne]
  refine ⟨fun pubkey entry hentry hfresh => ?_, fun pubkey hmem hlocal hne => ?_⟩
  · by_cases hpubkey : pubkey = subject
    · subst hpubkey
      simp only [DiscoveryTable.insertPubkeyWithRank, Table.get_insert_self] at hentry
      cases hentry
      exact ⟨hsubject, rfl⟩
    · rw [hget pubkey hpubkey, get_sweepExpired] at hentry
      exact h.known pubkey entry hentry.1 (max_lt hentry.2 hfresh)
  · obtain ⟨entry, hentry, hfresh⟩ := h.others pubkey hmem hlocal hne
    refine ⟨entry, ?_, lt_of_le_of_lt (le_max_right _ _) hfresh⟩
    rw [hget pubkey hne, get_sweepExpired]
    exact ⟨hentry, lt_of_le_of_lt (le_max_left _ _) hfresh⟩

end DiscoveryTable

/-! ## Agreement -/

/-- Members that know the room choose the same responders for a subject, each
other member once and as many as the limit allows, and just as many members
decide to respond. -/
theorem responders_agree {rank : String → String} {members : Finset String} {subject : String}
    (hsubject : subject ∈ members) (limit : Nat) (table : String → DiscoveryTable) :
    (∀ now : String → Nat,
      (∀ localPubkey ∈ members,
        (table localPubkey).Knows rank members localPubkey subject (now localPubkey)) →
      ∃ responders : List String,
        (∀ localPubkey ∈ members, ((table localPubkey).responderPubkeysFor (now localPubkey) subject
          (rank subject) localPubkey (rank localPubkey) limit).1 = responders) ∧
        responders.Nodup ∧ subject ∉ responders ∧
        responders.length = min limit (members.card - 1) ∧
        (members.filter fun localPubkey =>
          localPubkey ∈ ((table localPubkey).responderPubkeysFor (now localPubkey) subject
            (rank subject) localPubkey (rank localPubkey) limit).1).card =
          min limit (members.card - 1)) ∧
    (∀ (lib : Library) (config : NostrCodecConfig) (roomId : String) (decoded : DecodedDiscovery)
        (recorded chosen : String → Nat),
      (∀ pubkey ∈ members, config.topologyRank lib roomId pubkey = rank pubkey) →
      decoded.signalingPubkey = subject → decoded.topologyRank = rank subject →
      (∀ localPubkey ∈ members, (table localPubkey).Knows rank members localPubkey subject
        (max (recorded localPubkey) (chosen localPubkey))) →
      (members.filter fun localPubkey =>
        ((table localPubkey).recordDiscoveryAndShouldRequest lib config (recorded localPubkey)
          (chosen localPubkey) decoded roomId localPubkey limit).1 = true).card =
        min limit (members.card - 1)) := by
  refine ⟨fun now hknows => ?_, fun lib config roomId decoded recorded chosen hranks hkey hrank
    hknows => ?_⟩
  · have heq : ∀ localPubkey ∈ members, ((table localPubkey).responderPubkeysFor (now localPubkey)
        subject (rank subject) localPubkey (rank localPubkey) limit).1 =
          responders rank members subject limit := fun localPubkey hlocal =>
      DiscoveryTable.responderPubkeysFor_eq (hknows localPubkey hlocal) hlocal hsubject
    refine ⟨_, heq, responders_nodup hsubject, subject_notMem_responders hsubject,
      length_responders hsubject, ?_⟩
    rw [Finset.filter_congr fun localPubkey hlocal => by rw [heq localPubkey hlocal]]
    exact card_filter_responders hsubject
  · have heq : ∀ localPubkey ∈ members,
        ((table localPubkey).recordDiscoveryAndShouldRequest lib config (recorded localPubkey)
          (chosen localPubkey) decoded roomId localPubkey limit).1 = true ↔
        localPubkey ∈ responders rank members subject limit := by
      intro localPubkey hlocal
      have hknows' := (hknows localPubkey hlocal).insertPubkeyWithRank decoded.expiresAt hsubject
      simp only [DiscoveryTable.recordDiscoveryAndShouldRequest, hkey, hrank,
        hranks localPubkey hlocal, DiscoveryTable.responderPubkeysFor_eq hknows' hlocal hsubject,
        List.any_eq_true, decide_eq_true_eq, exists_eq_right]
    rw [Finset.filter_congr heq]
    exact card_filter_responders hsubject

namespace Sample

def third : String := "f9308a019258c31049344f85f89d5229b531c845836f99b08601f113bce036f9"

/-- A table that has heard of these members. -/
def heardOf (rank : String → String) : List String → DiscoveryTable
  | [] => .new
  | pubkey :: rest => (heardOf rank rest).insertPubkeyWithRank sent pubkey (sent + 60) (rank pubkey)

theorem get_heardOf (rank : String → String) (heard : List String) (pubkey : String) :
    (heardOf rank heard).byPubkey.get pubkey =
      if pubkey ∈ heard then some ⟨pubkey, sent + 60, rank pubkey⟩ else none := by
  induction heard generalizing pubkey with
  | nil => rfl
  | cons first rest ih =>
    -- Nobody has expired, and who is heard of again expires no later.
    have hswept : ∀ other, ((heardOf rank rest).sweepExpired sent).byPubkey.get other =
        (heardOf rank rest).byPubkey.get other := by
      intro other
      rw [DiscoveryTable.sweepExpired, Table.get_retain, ih]
      split
      · simp
      · rfl
    simp only [heardOf, DiscoveryTable.insertPubkeyWithRank, Table.get_insert, hswept, ih, List.mem_cons]
    by_cases hfirst : pubkey = first
    · subst hfirst
      by_cases hrest : pubkey ∈ rest
      all_goals simp [hrest]
    · simp [hfirst]

/-- Who has heard of all other members knows the room. -/
theorem knows_heardOf (rank : String → String) (members : List String) (localPubkey subject : String)
    {now : Nat} (hnow : now < sent + 60) :
    DiscoveryTable.Knows rank members.toFinset localPubkey subject now
      (heardOf rank (members.filter fun pubkey => pubkey ≠ localPubkey)) where
  known pubkey entry hentry _ := by
    rw [get_heardOf] at hentry
    split at hentry
    · next hheard =>
      cases hentry
      exact ⟨List.mem_toFinset.mpr (List.mem_of_mem_filter hheard), rfl⟩
    · cases hentry
  others pubkey hmem hlocal _ := by
    have hheard : pubkey ∈ members.filter fun pubkey => pubkey ≠ localPubkey :=
      List.mem_filter.mpr ⟨List.mem_toFinset.mp hmem, decide_eq_true hlocal⟩
    exact ⟨_, by rw [get_heardOf, if_pos hheard], hnow⟩

end Sample

open Sample DiscoveryTable in
/-- Of three members, each of which has heard of the others, one answers the first. -/
theorem responders_agree_three :
    let rank := config.topologyRank lib "lobby"
    let members := [sender.publicKey, receiver.publicKey, third]
    let table := fun localPubkey => heardOf rank (members.filter fun pubkey => pubkey ≠ localPubkey)
    (∃ responders : List String,
      (∀ localPubkey ∈ members.toFinset,
        ((table localPubkey).responderPubkeysFor sent sender.publicKey (rank sender.publicKey)
          localPubkey (rank localPubkey) 1).1 = responders) ∧
      responders.length = 1 ∧ sender.publicKey ∉ responders) ∧
    (members.toFinset.filter fun localPubkey =>
      ((table localPubkey).recordDiscoveryAndShouldRequest lib config sent (sent + 1)
        ⟨sender.publicKey, sent + 60, rank sender.publicKey, none⟩ "lobby" localPubkey 1).1 =
          true).card = 1 := by
  intro rank members table
  have hcard : members.toFinset.card = 3 := List.toFinset_card_of_nodup (by decide)
  obtain ⟨hchoose, hdecide⟩ := @responders_agree rank members.toFinset sender.publicKey
    (List.mem_toFinset.mpr List.mem_cons_self) 1 table
  obtain ⟨responders, hsame, -, hsubject, hlength, -⟩ := hchoose (fun _ => sent)
    fun localPubkey _ => knows_heardOf rank members localPubkey _ (by decide)
  have hcount := hdecide lib config "lobby" ⟨sender.publicKey, sent + 60, rank sender.publicKey, none⟩
    (fun _ => sent) (fun _ => sent + 1) (fun _ _ => rfl) rfl rfl
    fun localPubkey _ => knows_heardOf rank members localPubkey _ (by decide)
  rw [hcard] at hlength hcount
  exact ⟨⟨responders, hsame, hlength, hsubject⟩, hcount⟩

end Mistlib.Signaling
