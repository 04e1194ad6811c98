import Dialogue.Proofs.Compilation
import Dialogue.Proofs.SourceLines
import Mathlib.Logic.Relation

/-!
# Line ends and byte order marks

Editors differ in how they end lines, in whether they end the last one, and in the marks they write
in front of a text.  None of this reaches the tokens: a carriage return in front of a line feed is no
part of a line (`Text.lines_withReturns`), a line feed at the end adds a line without tokens or none
at all (`tokenize_append_feed`), and marks in front are taken off before columns are counted
(`tokenize_marks`).  The theorem is `tokenize_of_lineEndChanges`.
-/

namespace Dialogue

/-! ### Lines -/

namespace Text

/-- A text with a carriage return in front of each line feed. -/
def withReturns (cs : List Char) : List Char :=
  cs.flatMap fun c => if c = '\n' then ['\r', '\n'] else [c]

theorem withReturns_feed (cs : List Char) :
    withReturns ('\n' :: cs) = '\r' :: '\n' :: withReturns cs :=
  rfl

theorem withReturns_cons {c : Char} (h : c ≠ '\n') (cs : List Char) :
    withReturns (c :: cs) = c :: withReturns cs := by
  rw [withReturns, List.flatMap_cons, if_neg h]
  rfl

/-- The lines of a text depend on its first character and on the lines of the rest, unless that
character may belong to a line end. -/
theorem lines_cons_congr {c : Char} {cs cs' : List Char} (hfeed : c ≠ '\n') (hreturn : c ≠ '\r')
    (h : lines cs = lines cs') : lines (c :: cs) = lines (c :: cs') := by
  cases hlines : lines cs' with
  | nil =>
    rw [eq_nil_of_lines hlines, eq_nil_of_lines (h.trans hlines)]
  | cons l ls =>
    rw [lines_cons hfeed (fun heq => absurd heq hreturn) hlines,
      lines_cons hfeed (fun heq => absurd heq hreturn) (h.trans hlines)]

/-- **Carriage returns in front of line feeds do not change the lines.** -/
theorem lines_withReturns {cs : List Char} (h : '\r' ∉ cs) : lines (withReturns cs) = lines cs := by
  induction cs with
  | nil => rfl
  | cons c cs ih =>
    rw [List.mem_cons, not_or] at h
    by_cases hc : c = '\n'
    · rw [hc, withReturns_feed, lines, lines, ih h.2]
    · rw [withReturns_cons hc]
      exact lines_cons_congr hc (Ne.symm h.1) (ih h.2)

/-- A line feed at the end of a text ends the last line, or adds an empty one if that line has an
end already. -/
theorem lines_append_feed {cs : List Char} (h : cs.getLast? ≠ some '\r') :
    lines (cs ++ ['\n']) = lines cs ∨ lines (cs ++ ['\n']) = lines cs ++ [[]] := by
  obtain ⟨before, last, rfl, hbefore, hlast⟩ := exists_last_line cs
  by_cases hnil : last = []
  · -- the line feed stands behind whole lines
    right
    rw [hnil, List.append_nil, lines_append hbefore]
    rfl
  · -- the last line is not ended yet, and its end would not take in its last character
    left
    have htext : IsLineText last := by
      refine ⟨hlast, fun d hd => ?_⟩
      rintro rfl
      apply h
      rw [List.getLast?_append, hd]
      rfl
    rw [List.append_assoc, lines_append hbefore, lines_append hbefore, lines_line htext,
      lines_eq_singleton hlast hnil]
    rfl

theorem scriptLines_congr {source source' : String}
    (h : lines source'.toList = lines source.toList) : scriptLines source' = scriptLines source := by
  rw [scriptLines, h, scriptLines]

theorem scriptLines_of_append_nil {source source' : String}
    (h : lines source'.toList = lines source.toList ++ [[]]) :
    scriptLines source' = scriptLines source ++ [[]] := by
  rw [scriptLines, h, scriptLines]
  cases lines source.toList <;> rfl

end Text

/-! ### Tokens -/

/-- An empty line at the end has no tokens. -/
theorem Lexer.linesTokens_append_nil (line : Nat) (ls : List (List Char)) :
    linesTokens line (ls ++ [[]]) = linesTokens line ls := by
  rw [linesTokens_append, linesTokens_cons, lineTokens]
  cases linesTokens line ls with
  | error e => rfl
  | ok ts =>
    show Except.ok (ts ++ []) = .ok ts
    rw [List.append_nil]

theorem tokenize_append_feed {source : String} (h : source.toList.getLast? ≠ some '\r') :
    tokenize (source ++ "\n") = tokenize source := by
  have hlist : (source ++ "\n").toList = source.toList ++ ['\n'] := String.toList_append
  have hends := Text.lines_append_feed h
  rw [← hlist] at hends
  rw [tokenize, tokenize]
  rcases hends with hlines | hlines
  · rw [Text.scriptLines_congr hlines]
  · rw [Text.scriptLines_of_append_nil hlines, Lexer.linesTokens_append_nil]

theorem tokenize_withReturns {source : String} (h : '\r' ∉ source.toList) :
    tokenize (String.ofList (Text.withReturns source.toList)) = tokenize source := by
  rw [tokenize, tokenize, Text.scriptLines_congr]
  rw [String.toList_ofList, Text.lines_withReturns h]

/-- A mark in front of a script belongs to none of its columns. -/
theorem tokenize_mark (cs : List Char) :
    tokenize (String.ofList (Text.byteOrderMark :: cs)) = tokenize (String.ofList cs) := by
  rw [tokenize, tokenize, Text.scriptLines, Text.scriptLines, String.toList_ofList,
    String.toList_ofList]
  cases hlines : Text.lines cs with
  | nil =>
    -- of an empty script the mark leaves an empty line
    rw [Text.eq_nil_of_lines hlines]
    exact Lexer.linesTokens_append_nil 0 []
  | cons first rest =>
    rw [Text.lines_cons (by decide) (fun heq => absurd heq (by decide)) hlines]
    rfl

theorem tokenize_marks (n : Nat) (source : String) :
    tokenize (String.ofList (List.replicate n Text.byteOrderMark) ++ source) = tokenize source := by
  have hmarks : ∀ cs, tokenize (String.ofList (List.replicate n Text.byteOrderMark ++ cs)) =
      tokenize (String.ofList cs) := by
    intro cs
    induction n with
    | zero => rfl
    | succ n ih => rw [List.replicate_succ, List.cons_append, tokenize_mark, ih]
  have hsource := hmarks source.toList
  rwa [String.ofList_append, String.ofList_toList] at hsource

/-! ### The theorem -/

open Relation (EqvGen)

/-- Changes that leave the lines of a script as they are, but for their ends and the marks in front:
to put marks in front of it, to end all its lines with a carriage return and a line feed, and to end
its last line. -/
inductive LineEndChange : String → String → Prop
  | marked (n : Nat) (source : String) :
      LineEndChange source (String.ofList (List.replicate n Text.byteOrderMark) ++ source)
  | returned {source : String} : '\r' ∉ source.toList →
      LineEndChange source (String.ofList (Text.withReturns source.toList))
  | ended {source : String} : source.toList.getLast? ≠ some '\r' →
      LineEndChange source (source ++ "\n")

theorem LineEndChange.tokenize_eq {source source' : String} (h : LineEndChange source source') :
    tokenize source' = tokenize source := by
  cases h with
  | marked n => exact tokenize_marks n source
  | returned hreturn => exact tokenize_withReturns hreturn
  | ended hlast => exact tokenize_append_feed hlast

/-- **Line ends and byte order marks are immaterial.**  Scripts that differ by changes of line ends,
made or taken back in any order, have the same tokens at the same positions or fail at the same
position with the same error, denote the same segments, and are compiled to the same program. -/
theorem tokenize_of_lineEndChanges {source source' : String}
    (h : EqvGen LineEndChange source source') :
    tokenize source' = tokenize source ∧ ∀ name,
      readScript name source' = readScript name source ∧
        ∀ width, compile width name source' = compile width name source := by
  have htokens : tokenize source' = tokenize source := by
    induction h with
    | rel _ _ hchange => exact hchange.tokenize_eq
    | refl _ => rfl
    | symm _ _ _ ih => exact ih.symm
    | trans _ _ _ _ _ ih ih' => exact ih'.trans ih
  have hread : ∀ name, readScript name source' = readScript name source := by
    intro name
    rw [readScript, result_segmentsLogged, htokens, ← result_segmentsLogged, readScript]
  refine ⟨htokens, fun name => ⟨hread name, fun width => ?_⟩⟩
  rw [compile_eq, hread, compile_eq]

/-- A script as it is printed. -/
def cellarSource : String :=
  printLines [[.header "Cellar"], [.divert "Hall"]]

/-- The same script with marks in front, other line ends, and none at its last line. -/
def markedSource : String :=
  "\uFEFF\uFEFF=== Cellar ===\r\n-> Hall"

theorem lineEndChanges_cellarSource : EqvGen LineEndChange cellarSource markedSource := by
  have hended : LineEndChange "=== Cellar ===\n-> Hall" cellarSource :=
    @LineEndChange.ended "=== Cellar ===\n-> Hall" (by decide)
  have hreturned : LineEndChange "=== Cellar ===\n-> Hall" "=== Cellar ===\r\n-> Hall" :=
    @LineEndChange.returned "=== Cellar ===\n-> Hall" (by decide)
  have hmarked : LineEndChange "=== Cellar ===\r\n-> Hall" markedSource := .marked 2 _
  exact ((EqvGen.rel _ _ hended).symm.trans _ _ _ (.rel _ _ hreturned)).trans _ _ _
    (.rel _ _ hmarked)

theorem tokenize_markedSource :
    EqvGen LineEndChange cellarSource markedSource ∧
      tokenize markedSource =
        .ok [⟨.header "Cellar", ⟨0, 0⟩⟩, ⟨.divert "Hall", ⟨1, 0⟩⟩] ∧
      ∀ name, readScript name markedSource = readScript name cellarSource ∧
        ∀ width, compile width name markedSource = compile width name cellarSource := by
  have hname : IsSegmentName "Cellar" := by decide
  have htarget : IsTarget "Hall" := by decide
  have hfits : ∀ kinds ∈ [[Token.Kind.header "Cellar"], [.divert "Hall"]], LineFits true kinds := by
    simp [LineFits, Token.Kind.WellFormed, Token.Kind.Stands, hname, htarget]
  obtain ⟨htokens, hread⟩ := tokenize_of_lineEndChanges lineEndChanges_cellarSource
  exact ⟨lineEndChanges_cellarSource, htokens.trans (tokenize_printLines hfits), hread⟩

end Dialogue
