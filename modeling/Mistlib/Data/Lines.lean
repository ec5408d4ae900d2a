import Mistlib.Data.Text

/-!
# Texts by their lines

A text is lines with an ending each and what follows the last ending. Every text is one of
these (`exists_doc`), and `Text.lines` gives back the contents whatever the endings are
(`lines_render`). A content may end in a carriage return only where a whole ending follows it:
before a lone line feed it would be read as part of the ending.
-/

namespace Text

theorem stripPrefix_eq_some {start s rest : List Char} : stripPrefix start s = some rest ↔ s = start ++ rest := by
  rw [stripPrefix]
  constructor
  · intro h
    split at h
    · next hstart =>
      obtain ⟨other, rfl⟩ := List.isPrefixOf_iff_prefix.mp hstart
      rw [List.drop_left] at h
      rw [Option.some.inj h]
    · cases h
  · rintro rfl
    rw [if_pos (List.isPrefixOf_iff_prefix.mpr (List.prefix_append start rest)), List.drop_left]

inductive Ending where
  | lf
  | crlf
deriving DecidableEq, Repr

def Ending.chars : Ending → List Char
  | .lf => ['\n']
  | .crlf => ['\r', '\n']

structure Line where
  content : List Char
  ending : Ending
deriving DecidableEq, Repr

structure Line.Proper (l : Line) : Prop where
  noBreak : '\n' ∉ l.content
  noReturn : l.ending = .lf → l.content.getLast? ≠ some '\r'

structure Doc where
  lines : List Line
  last : List Char
deriving DecidableEq, Repr

namespace Doc

structure Proper (d : Doc) : Prop where
  lines : ∀ l ∈ d.lines, l.Proper
  last : '\n' ∉ d.last

def render (d : Doc) : List Char := d.lines.flatMap (fun l => l.content ++ l.ending.chars) ++ d.last

/-- What follows the last ending is a line if it is not empty. -/
def contents (d : Doc) : List (List Char) := d.lines.map Line.content ++ if d.last = [] then [] else [d.last]

end Doc

theorem linesFrom_cons {c : Char} (hc : c ≠ '\n') (rest current : List Char) :
    linesFrom (c :: rest) current = linesFrom rest (c :: current) := by
  rw [linesFrom]
  · exact hc
  · exact fun _ _ => hc

theorem linesFrom_append {line : List Char} (hline : '\n' ∉ line) (rest current : List Char) :
    linesFrom (line ++ rest) current = linesFrom rest (line.reverse ++ current) := by
  induction line generalizing current with
  | nil => rfl
  | cons c line ih =>
    obtain ⟨hc, hrest⟩ := not_or.mp (List.mem_cons.not.mp hline)
    rw [List.cons_append, linesFrom_cons (Ne.symm hc), ih hrest, List.reverse_cons, List.append_assoc]
    rfl

theorem lines_cons {l : Line} (h : l.Proper) (rest : List Char) :
    lines (l.content ++ l.ending.chars ++ rest) = l.content :: lines rest := by
  obtain ⟨content, ending⟩ := l
  rw [lines, List.append_assoc, linesFrom_append h.noBreak, List.append_nil]
  cases ending with
  | crlf =>
    show linesFrom ('\r' :: '\n' :: rest) content.reverse = _
    rw [linesFrom_cons (by decide), linesFrom, List.reverse_reverse]
    rfl
  | lf =>
    show linesFrom ('\n' :: rest) content.reverse = _
    rw [linesFrom, List.reverse_reverse]
    · rfl
    · rintro current hcurrent
      refine h.noReturn rfl ?_
      rw [← List.reverse_reverse content, hcurrent, List.getLast?_reverse]
      rfl

theorem lines_last {last : List Char} (h : '\n' ∉ last) : lines last = if last = [] then [] else [last] := by
  have hfrom := linesFrom_append h [] []
  rw [List.append_nil, List.append_nil] at hfrom
  rw [lines, hfrom]
  split
  · next heq =>
    rw [heq]
    rfl
  · next hne =>
    cases hrev : last.reverse with
    | nil => exact absurd (List.reverse_eq_nil_iff.mp hrev) hne
    | cons c current =>
      rw [linesFrom, ← hrev, List.reverse_reverse]
      rintro ⟨⟩

/-- A rendered document is read as its own lines. -/
theorem lines_render {d : Doc} (h : d.Proper) : lines d.render = d.contents := by
  obtain ⟨ls, last⟩ := d
  induction ls with
  | nil => exact lines_last h.last
  | cons l ls ih =>
    have hrest : (⟨ls, last⟩ : Doc).Proper := ⟨fun x hx => h.lines x (List.mem_cons_of_mem l hx), h.last⟩
    rw [Doc.render, List.flatMap_cons, List.append_assoc]
    exact (lines_cons (h.lines l List.mem_cons_self) _).trans (congrArg (l.content :: ·) (ih hrest))

/-- Every text is the rendering of some document. -/
theorem exists_doc (t : List Char) : ∃ d : Doc, d.Proper ∧ d.render = t := by
  induction t with
  | nil => exact ⟨⟨[], []⟩, ⟨List.forall_mem_nil _, List.not_mem_nil⟩, rfl⟩
  | cons c t ih =>
    obtain ⟨⟨ls, last⟩, ⟨hls, hlast⟩, rfl⟩ := ih
    by_cases hbreak : c = '\n'
    · -- An empty line.
      refine ⟨⟨⟨[], .lf⟩ :: ls, last⟩, ⟨List.forall_mem_cons.mpr ⟨⟨List.not_mem_nil, nofun⟩, hls⟩, hlast⟩, ?_⟩
      rw [hbreak]
      rfl
    · cases ls with
      | nil => exact ⟨⟨[], c :: last⟩, ⟨hls, List.not_mem_cons_of_ne_of_not_mem (Ne.symm hbreak) hlast⟩, rfl⟩
      | cons l ls =>
        obtain ⟨⟨hnoBreak, hnoReturn⟩, hrest⟩ := List.forall_mem_cons.mp hls
        obtain ⟨content, ending⟩ := l
        have hcons : '\n' ∉ c :: content := List.not_mem_cons_of_ne_of_not_mem (Ne.symm hbreak) hnoBreak
        by_cases hreturn : content = [] ∧ ending = .lf ∧ c = '\r'
        · -- The return belongs to the ending.
          obtain ⟨rfl, rfl, rfl⟩ := hreturn
          have hproper := List.forall_mem_cons.mpr ⟨(⟨List.not_mem_nil, nofun⟩ : Line.Proper ⟨[], .crlf⟩), hrest⟩
          exact ⟨⟨⟨[], .crlf⟩ :: ls, last⟩, ⟨hproper, hlast⟩, rfl⟩
        · refine ⟨⟨⟨c :: content, ending⟩ :: ls, last⟩,
            ⟨List.forall_mem_cons.mpr ⟨⟨hcons, fun hlf => ?_⟩, hrest⟩, hlast⟩, rfl⟩
          cases content with
          | nil => exact fun h => hreturn ⟨rfl, hlf, Option.some.inj h⟩
          | cons x xs =>
            rw [List.getLast?_cons_cons]
            exact hnoReturn hlf

end Text
