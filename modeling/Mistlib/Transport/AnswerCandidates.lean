import Mathlib.Data.List.TakeWhile
import Mistlib.Data.Lines
import Mistlib.Transport.NegotiationAck

/-!
# The candidates of a repeated answer

An answer that comes again may bring candidates that the applied one did not have. The two are
compared without their candidate lines, and each candidate that is new is taken with its
section: the scan adds to the last of a list of sections, which comes to the blocks of lines
that the `m=` lines start (`scan_eq`).

A section whose mid is empty, is given twice or belongs to another section too says nothing
certain about where a candidate belongs, and is passed over.
-/

namespace Mistlib.Transport.AnswerSdp

open NegotiationAck (negotiated sameNegotiation)

structure Candidate where
  candidate : List Char
  sdpMid : Option (List Char)
  sdpMLineIndex : UInt16
deriving DecidableEq, Repr

/-- The mids and the candidates of a section. -/
abbrev Section := List (List Char) × List (List Char)

def isMLine (line : List Char) : Bool := "m=".toList.isPrefixOf line

def midOf (line : List Char) : Option (List Char) := Text.stripPrefix "a=mid:".toList line

def candidateOf (line : List Char) : Option (List Char) := Text.stripPrefix "a=candidate:".toList line

def Section.addLine (current : Section) (line : List Char) : Section :=
  match midOf line with
  | some mid => (current.1 ++ [mid], current.2)
  | none =>
    match candidateOf line with
    | some candidate => (current.1, current.2 ++ [candidate])
    | none => current

def scanLine (sections : List Section) (line : List Char) : List Section :=
  if isMLine line then sections ++ [([], [])]
  else
    match sections.getLast? with
    | none => sections
    | some current => sections.dropLast ++ [current.addLine line]

/-- The candidates of a section, with the mid that they are to carry. -/
def sectionCandidates (sections : List Section) (index : Nat) (current : Section) : List Candidate :=
  if index < UInt16.size then
    let carried (mid : Option (List Char)) : List Candidate :=
      current.2.map fun line => ⟨"candidate:".toList ++ line, mid, UInt16.ofNat index⟩
    match current.1 with
    | [] => carried none
    | [mid] => if mid ≠ [] ∧ sections.countP (fun other => mid ∈ other.1) = 1 then carried (some mid) else []
    | _ => []
  else []

def candidates (sdp : String) : List Candidate :=
  let sections := (Text.lines sdp.toList).foldl scanLine []
  sections.zipIdx.flatMap fun (current, index) => sectionCandidates sections index current

/-- The filter of `new_candidates`, with the set it inserts into. -/
def keepNew (seen : List Candidate) : List Candidate → List Candidate
  | [] => []
  | candidate :: rest =>
    if candidate ∈ seen then keepNew seen rest else candidate :: keepNew (candidate :: seen) rest

def newCandidates (applied incoming : String) : List Candidate := keepNew (candidates applied) (candidates incoming)

/-! ## The comparison -/

theorem sameNegotiation_iff {applied incoming : String} :
    sameNegotiation applied incoming = true ↔
      (Text.lines applied.toList).filter negotiated = (Text.lines incoming.toList).filter negotiated :=
  beq_iff_eq

theorem sameNegotiation_equivalence : Equivalence fun applied incoming => sameNegotiation applied incoming = true where
  refl _ := sameNegotiation_iff.mpr rfl
  symm h := sameNegotiation_iff.mpr (sameNegotiation_iff.mp h).symm
  trans h h' := sameNegotiation_iff.mpr ((sameNegotiation_iff.mp h).trans (sameNegotiation_iff.mp h'))

theorem sameNegotiation_congr {a b : String} {d d' : Text.Doc} (ha : a.toList = d.render) (hb : b.toList = d'.render)
    (h : d.Proper) (h' : d'.Proper) (heq : d.contents.filter negotiated = d'.contents.filter negotiated)
    (other : String) : sameNegotiation a other = sameNegotiation b other := by
  rw [sameNegotiation, sameNegotiation, ha, hb, Text.lines_render h, Text.lines_render h', heq]

variable {line : List Char}

theorem negotiated_eq_false_iff :
    negotiated line = false ↔ "a=candidate:".toList <+: line ∨ line = "a=end-of-candidates".toList := by
  rw [negotiated, Bool.and_eq_false_iff, Bool.not_eq_false', List.isPrefixOf_iff_prefix, bne_eq_false_iff_eq]

/-! ## The sections -/

/-- The lines that follow each `m=` line up to the next one. -/
def blocks : List (List Char) → List (List (List Char))
  | [] => []
  | line :: rest => if isMLine line then rest.takeWhile (fun l => !isMLine l) :: blocks rest else blocks rest

def ofBlock (block : List (List Char)) : Section := (block.filterMap midOf, block.filterMap candidateOf)

theorem candidateOf_of_mid {mid : List Char} (h : midOf line = some mid) : candidateOf line = none := by
  refine Option.eq_none_iff_forall_ne_some.mpr fun candidate hcandidate => ?_
  have hmid : "a=mid:".toList <+: line := ⟨mid, (Text.stripPrefix_eq_some.mp h).symm⟩
  have hcand : "a=candidate:".toList <+: line := ⟨candidate, (Text.stripPrefix_eq_some.mp hcandidate).symm⟩
  rcases List.prefix_or_prefix_of_prefix hmid hcand with hprefix | hprefix
  all_goals
    revert hprefix
    decide

theorem foldl_addLine (current : Section) (block : List (List Char)) :
    block.foldl Section.addLine current =
      (current.1 ++ block.filterMap midOf, current.2 ++ block.filterMap candidateOf) := by
  induction block generalizing current with
  | nil =>
    rw [List.foldl_nil, List.filterMap_nil, List.filterMap_nil, List.append_nil, List.append_nil]
  | cons line block ih =>
    rw [List.foldl_cons, ih, Section.addLine]
    cases hmid : midOf line with
    | some mid =>
      rw [List.filterMap_cons_some hmid, List.filterMap_cons_none (candidateOf_of_mid hmid), List.append_assoc]
      rfl
    | none =>
      rw [List.filterMap_cons_none hmid]
      cases hcandidate : candidateOf line with
      | some candidate =>
        rw [List.filterMap_cons_some hcandidate, List.append_assoc]
        rfl
      | none => rw [List.filterMap_cons_none hcandidate]

theorem scanLine_last (before : List Section) (current : Section) (hline : isMLine line = false) :
    scanLine (before ++ [current]) line = before ++ [current.addLine line] := by
  rw [scanLine, hline, List.getLast?_concat, List.dropLast_concat]
  rfl

theorem scan_from (lines : List (List Char)) (before : List Section) (current : Section) :
    lines.foldl scanLine (before ++ [current]) =
      before ++ (lines.takeWhile fun l => !isMLine l).foldl Section.addLine current :: (blocks lines).map ofBlock := by
  induction lines generalizing before current with
  | nil => rfl
  | cons line lines ih =>
    cases hline : isMLine line with
    | true =>
      have hnew : scanLine (before ++ [current]) line = before ++ [current] ++ [([], [])] := by
        rw [scanLine, hline]
        rfl
      rw [List.foldl_cons, hnew, ih, foldl_addLine, blocks, hline]
      simp only [List.takeWhile_cons, hline, Bool.not_true, List.append_assoc]
      rfl
    | false =>
      rw [List.foldl_cons, scanLine_last before current hline, ih, blocks, hline]
      simp only [List.takeWhile_cons, hline, Bool.not_false]
      rfl

theorem scan_eq (lines : List (List Char)) : lines.foldl scanLine [] = (blocks lines).map ofBlock := by
  induction lines with
  | nil => rfl
  | cons line lines ih =>
    cases hline : isMLine line with
    | true =>
      have hnew : scanLine [] line = [] ++ [([], [])] := by
        rw [scanLine, hline]
        rfl
      rw [List.foldl_cons, hnew, scan_from, foldl_addLine, blocks, hline]
      rfl
    | false =>
      have hsame : scanLine [] line = [] := by
        rw [scanLine, hline]
        rfl
      rw [List.foldl_cons, hsame, ih, blocks, hline]
      rfl

theorem countP_eq_one_iff {α : Type} {p : α → Bool} {l : List α} {i : Nat} {x : α} (hi : l[i]? = some x)
    (hx : p x = true) : l.countP p = 1 ↔ ∀ j y, l[j]? = some y → p y = true → j = i := by
  induction l generalizing i with
  | nil => cases hi
  | cons a l ih =>
    cases i with
    | zero =>
      obtain rfl : a = x := Option.some.inj hi
      rw [List.countP_cons_of_pos hx, Nat.add_eq_right, List.countP_eq_zero]
      refine ⟨fun hnone j y hj hy => ?_, fun hall y hmem hy => ?_⟩
      · cases j with
        | zero => rfl
        | succ j => exact absurd hy (hnone y (List.mem_of_getElem? hj))
      · obtain ⟨j, hj⟩ := List.getElem?_of_mem hmem
        cases hall (j + 1) y hj hy
    | succ i =>
      have hi : l[i]? = some x := hi
      cases ha : p a with
      | true =>
        have hpos : 0 < l.countP p := List.countP_pos_iff.mpr ⟨x, List.mem_of_getElem? hi, hx⟩
        rw [List.countP_cons_of_pos ha]
        refine iff_of_false (by omega) fun hall => ?_
        cases hall 0 a rfl ha
      | false =>
        have hneg : ¬ p a = true := Bool.not_eq_true _ ▸ ha
        rw [List.countP_cons_of_neg hneg, ih hi]
        refine ⟨fun hall j y hj hy => ?_, fun hall j y hj hy => Nat.succ_injective (hall (j + 1) y hj hy)⟩
        cases j with
        | zero => exact absurd (Option.some.inj hj ▸ hy) hneg
        | succ j => exact congrArg Nat.succ (hall j y hj hy)

variable {c : Candidate}

theorem mem_sectionCandidates {sections : List Section} {index : Nat} {current : Section} :
    c ∈ sectionCandidates sections index current ↔ index < UInt16.size ∧ c.sdpMLineIndex = UInt16.ofNat index ∧
      (∃ line ∈ current.2, c.candidate = "candidate:".toList ++ line) ∧
      ((current.1 = [] ∧ c.sdpMid = none) ∨ ∃ mid, current.1 = [mid] ∧ mid ≠ [] ∧ c.sdpMid = some mid ∧
        sections.countP (fun other => mid ∈ other.1) = 1) := by
  have hcarried : ∀ {mid : Option (List Char)},
      c ∈ current.2.map (fun line => (⟨"candidate:".toList ++ line, mid, UInt16.ofNat index⟩ : Candidate)) ↔
        c.sdpMLineIndex = UInt16.ofNat index ∧ (∃ line ∈ current.2, c.candidate = "candidate:".toList ++ line) ∧
          c.sdpMid = mid := by
    intro mid
    rw [List.mem_map]
    constructor
    · rintro ⟨line, hline, rfl⟩
      exact ⟨rfl, ⟨line, hline, rfl⟩, rfl⟩
    · rintro ⟨hindex, ⟨line, hline, hcandidate⟩, hmid⟩
      refine ⟨line, hline, ?_⟩
      rw [← hindex, ← hcandidate, ← hmid]
  obtain ⟨mids, lines⟩ := current
  rw [sectionCandidates]
  split
  · next hindex =>
    dsimp only at hcarried ⊢
    rw [and_iff_right hindex]
    match mids with
    | [] =>
      rw [hcarried]
      refine and_congr_right fun _ => and_congr_right fun _ => ⟨fun h => .inl ⟨rfl, h⟩, ?_⟩
      rintro (⟨_, h⟩ | ⟨_, hnil, _⟩)
      · exact h
      · cases hnil
    | [mid] =>
      dsimp only
      split
      · next hown =>
        rw [hcarried]
        refine and_congr_right fun _ => and_congr_right fun _ => ⟨fun h => .inr ⟨mid, rfl, hown.1, h, hown.2⟩, ?_⟩
        rintro (⟨hnil, _⟩ | ⟨other, heq, _, h, _⟩)
        · cases hnil
        · cases heq
          exact h
      · next hother =>
        refine iff_of_false List.not_mem_nil ?_
        rintro ⟨_, _, ⟨hnil, _⟩ | ⟨other, heq, hne, _, hcount⟩⟩
        · cases hnil
        · cases heq
          exact hother ⟨hne, hcount⟩
    | first :: second :: rest =>
      refine iff_of_false List.not_mem_nil ?_
      rintro ⟨_, _, ⟨hnil, _⟩ | ⟨_, heq, _⟩⟩
      · cases hnil
      · cases heq
  · next hindex => exact iff_of_false List.not_mem_nil fun h => hindex h.1

variable {i : Nat} {block : List (List Char)}

theorem mem_lines_of_block : line ∈ (ofBlock block).2 ↔ "a=candidate:".toList ++ line ∈ block := by
  rw [ofBlock, List.mem_filterMap]
  constructor
  · rintro ⟨whole, hmem, hwhole⟩
    rw [← Text.stripPrefix_eq_some.mp hwhole]
    exact hmem
  · exact fun hmem => ⟨_, hmem, Text.stripPrefix_eq_some.mpr rfl⟩

theorem countP_mids {all : List (List (List Char))} (hblock : all[i]? = some block)
    {mid : List Char} (hmid : block.filterMap midOf = [mid]) :
    (all.map ofBlock).countP (fun other => mid ∈ other.1) = 1 ↔
      ∀ j other, all[j]? = some other → mid ∈ other.filterMap midOf → j = i := by
  have hown : decide (mid ∈ (ofBlock block).1) = true := by
    rw [ofBlock, hmid]
    exact decide_eq_true List.mem_cons_self
  rw [List.countP_map]
  refine (countP_eq_one_iff hblock hown).trans ?_
  refine forall_congr' fun j => forall_congr' fun other => imp_congr_right fun _ => ?_
  exact imp_congr_left decide_eq_true_iff

/-- A candidate found stands in its section, with that section's mid. -/
theorem mem_candidates {sdp : String} :
    c ∈ candidates sdp ↔ ∃ i block, (blocks (Text.lines sdp.toList))[i]? = some block ∧ i < UInt16.size ∧
      c.sdpMLineIndex = UInt16.ofNat i ∧
      (∃ line, "a=candidate:".toList ++ line ∈ block ∧ c.candidate = "candidate:".toList ++ line) ∧
      ((block.filterMap midOf = [] ∧ c.sdpMid = none) ∨
        ∃ mid, block.filterMap midOf = [mid] ∧ mid ≠ [] ∧ c.sdpMid = some mid ∧
          ∀ j other, (blocks (Text.lines sdp.toList))[j]? = some other → mid ∈ other.filterMap midOf → j = i) := by
  rw [candidates, scan_eq, List.mem_flatMap]
  constructor
  · rintro ⟨⟨current, i⟩, hmem, hc⟩
    rw [List.mk_mem_zipIdx_iff_getElem?, List.getElem?_map, Option.map_eq_some_iff] at hmem
    obtain ⟨block, hblock, rfl⟩ := hmem
    obtain ⟨hsize, hindex, ⟨line, hline, hcandidate⟩, hmid⟩ := mem_sectionCandidates.mp hc
    refine ⟨i, block, hblock, hsize, hindex, ⟨line, mem_lines_of_block.mp hline, hcandidate⟩, hmid.imp_right ?_⟩
    rintro ⟨mid, hown, hne, hcmid, hcount⟩
    exact ⟨mid, hown, hne, hcmid, (countP_mids hblock hown).mp hcount⟩
  · rintro ⟨i, block, hblock, hsize, hindex, ⟨line, hline, hcandidate⟩, hmid⟩
    refine ⟨(ofBlock block, i), ?_, mem_sectionCandidates.mpr ⟨hsize, hindex, ⟨line, mem_lines_of_block.mpr hline,
      hcandidate⟩, hmid.imp_right ?_⟩⟩
    · rw [List.mk_mem_zipIdx_iff_getElem?, List.getElem?_map, hblock]
      rfl
    · rintro ⟨mid, hown, hne, hcmid, hothers⟩
      exact ⟨mid, hown, hne, hcmid, (countP_mids hblock hown).mpr hothers⟩

theorem mem_keepNew {seen l : List Candidate} : c ∈ keepNew seen l ↔ c ∈ l ∧ c ∉ seen := by
  induction l generalizing seen with
  | nil => exact (and_iff_left_of_imp nofun).symm
  | cons first rest ih =>
    rw [keepNew]
    split
    · next hseen =>
      rw [ih, List.mem_cons]
      refine ⟨fun h => ⟨.inr h.1, h.2⟩, fun h => ⟨h.1.resolve_left fun heq => h.2 (heq ▸ hseen), h.2⟩⟩
    · next hnew =>
      rw [List.mem_cons, ih, List.mem_cons, List.mem_cons]
      by_cases heq : c = first
      · exact iff_of_true (.inl heq) ⟨.inl heq, heq ▸ hnew⟩
      · rw [or_iff_right heq, or_iff_right heq, or_iff_right heq]

theorem nodup_keepNew (seen l : List Candidate) : (keepNew seen l).Nodup := by
  induction l generalizing seen with
  | nil => exact List.nodup_nil
  | cons first rest ih =>
    rw [keepNew]
    split
    · exact ih seen
    · exact List.nodup_cons.mpr ⟨fun hmem => (mem_keepNew.mp hmem).2 List.mem_cons_self, ih _⟩

theorem mem_newCandidates {applied incoming : String} :
    c ∈ newCandidates applied incoming ↔ c ∈ candidates incoming ∧ c ∉ candidates applied := mem_keepNew

/-- What makes a section say nothing certain: its mid is empty, there are several, or another
section has it too. -/
def Ambiguous (all : List (List (List Char))) (i : Nat) (block : List (List Char)) : Prop :=
  [] ∈ block.filterMap midOf ∨ 2 ≤ (block.filterMap midOf).length ∨
    ∃ mid ∈ block.filterMap midOf, ∃ j other, all[j]? = some other ∧ mid ∈ other.filterMap midOf ∧ j ≠ i

theorem toNat_index {index : UInt16} (hsize : i < UInt16.size) (h : index = UInt16.ofNat i) :
    index.toNat = i := by
  rw [h, UInt16.toNat_ofNat_of_lt' hsize]

theorem no_candidates_of_ambiguous {sdp : String}
    (hblock : (blocks (Text.lines sdp.toList))[i]? = some block)
    (hambiguous : Ambiguous (blocks (Text.lines sdp.toList)) i block) {c : Candidate}
    (hc : c ∈ candidates sdp) : c.sdpMLineIndex.toNat ≠ i := by
  obtain ⟨k, own, hown, hsize, hindex, _, hmid⟩ := mem_candidates.mp hc
  rw [toNat_index hsize hindex]
  rintro rfl
  cases hblock.symm.trans hown
  rcases hmid with ⟨hnil, _⟩ | ⟨mid, hone, hne, _, hothers⟩
  · rw [Ambiguous, hnil] at hambiguous
    rcases hambiguous with hmem | hlength | ⟨_, hmem, _⟩
    · cases hmem
    · cases hlength
    · cases hmem
  · rw [Ambiguous, hone] at hambiguous
    rcases hambiguous with hmem | hlength | ⟨shared, hmem, j, other, hother, hshared, hj⟩
    · exact hne (List.mem_singleton.mp hmem).symm
    · exact absurd hlength (Nat.not_succ_le_self 1)
    · rw [List.mem_singleton.mp hmem] at hshared
      exact hj (hothers j other hother hshared)

/-- The comparison is an equivalence. It sees the lines of a text but for candidates and the
end of candidates: these may come and go, and endings may change as long as the text is read
as the same lines. The new candidates are those of the incoming description that the applied
one does not have, once each. A candidate is of the section whose block has its line, with
that section's mid if it has one, and an ambiguous section has none. -/
theorem answers_add_missing_candidates :
    (Equivalence fun applied incoming => sameNegotiation applied incoming = true) ∧
    (∀ applied incoming, sameNegotiation applied incoming = true ↔
      (Text.lines applied.toList).filter negotiated = (Text.lines incoming.toList).filter negotiated) ∧
    (∀ a b other : String, ∀ d d' : Text.Doc, d.Proper → d'.Proper → a.toList = d.render → b.toList = d'.render →
      (d.contents = d'.contents ∨ ∃ before line after, d.contents = before ++ line :: after ∧
        d'.contents = before ++ after ∧
        ("a=candidate:".toList <+: line ∨ line = "a=end-of-candidates".toList)) →
      sameNegotiation a other = sameNegotiation b other) ∧
    (∀ a : String, ∃ d : Text.Doc, d.Proper ∧ a.toList = d.render ∧ Text.lines a.toList = d.contents) ∧
    (∀ applied incoming, (newCandidates applied incoming).Nodup ∧
      (∀ c ∈ newCandidates applied incoming, c ∉ candidates applied) ∧
      (∀ c, c ∈ candidates applied ∨ c ∈ newCandidates applied incoming ↔
        c ∈ candidates applied ∨ c ∈ candidates incoming) ∧
      (∀ c ∈ newCandidates applied incoming, ∃ block,
        (blocks (Text.lines incoming.toList))[c.sdpMLineIndex.toNat]? = some block ∧
        (∃ line, "a=candidate:".toList ++ line ∈ block ∧ c.candidate = "candidate:".toList ++ line) ∧
        ((block.filterMap midOf = [] ∧ c.sdpMid = none) ∨
          ∃ mid, block.filterMap midOf = [mid] ∧ c.sdpMid = some mid)) ∧
      ∀ i block, (blocks (Text.lines incoming.toList))[i]? = some block →
        Ambiguous (blocks (Text.lines incoming.toList)) i block →
        ∀ c ∈ newCandidates applied incoming, c.sdpMLineIndex.toNat ≠ i) := by
  refine ⟨sameNegotiation_equivalence, fun _ _ => sameNegotiation_iff, ?_, fun a => ?_, fun applied incoming => ?_⟩
  · intro a b other d d' h h' ha hb hchange
    refine sameNegotiation_congr ha hb h h' ?_ other
    rcases hchange with heq | ⟨before, line, after, hd, hd', hline⟩
    · rw [heq]
    · rw [hd, hd', List.filter_append, List.filter_append,
        List.filter_cons_of_neg (Bool.not_eq_true _ ▸ negotiated_eq_false_iff.mpr hline)]
  · obtain ⟨d, hproper, hrender⟩ := Text.exists_doc a.toList
    refine ⟨d, hproper, hrender.symm, ?_⟩
    rw [← hrender, Text.lines_render hproper]
  · refine ⟨nodup_keepNew _ _, fun c hc => (mem_newCandidates.mp hc).2, fun c => ?_, fun c hc => ?_,
      fun i block hblock hambiguous c hc => no_candidates_of_ambiguous hblock hambiguous (mem_newCandidates.mp hc).1⟩
    · rw [mem_newCandidates]
      by_cases hmem : c ∈ candidates applied
      · exact iff_of_true (.inl hmem) (.inl hmem)
      · rw [or_iff_right hmem, or_iff_right hmem, and_iff_left hmem]
    · obtain ⟨i, block, hblock, hsize, hindex, hline, hmid⟩ := mem_candidates.mp (mem_newCandidates.mp hc).1
      refine ⟨block, ?_, hline, hmid.imp_right fun ⟨mid, hone, _, hcmid, _⟩ => ⟨mid, hone, hcmid⟩⟩
      rw [toNat_index hsize hindex]
      exact hblock

/-- A line that ends in a carriage return of its own is another line when its ending is
switched to a line feed. -/
theorem endings_are_read :
    (⟨[⟨"s=-\r".toList, .crlf⟩], []⟩ : Text.Doc).render = "s=-\r\r\n".toList ∧
      (⟨[⟨"s=-\r".toList, .lf⟩], []⟩ : Text.Doc).render = "s=-\r\n".toList ∧
      sameNegotiation "s=-\r\r\n" "s=-\r\n" = false := by
  decide

end Mistlib.Transport.AnswerSdp
