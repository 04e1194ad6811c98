import Dialogue.Proofs.Gaps
import Dialogue.Proofs.Tiling
import Mathlib.Computability.Language

/-!
# Headers and diverts as languages

`headerName?` and `divertTarget?` take runs of characters one after the other, each as long as it can
be, and never go back.  What they accept is nevertheless a product of simple languages
(`headerLines`, `divertTexts`): the classes of two neighbours have no character in common, so a run
that is as long as it can be ends where the factor does.  There are two classes of blanks in this.
Any blank may stand around the name in a header, but only spaces and tabs may follow the closing
signs or the target of a divert.

For a script this decides line by line which of these tokens there are.  A line has a header exactly
if it is one as a whole, a divert is the last token of its line, and a marker stands at the start of
exactly the lines that start with a star and a space.
-/

namespace Dialogue

open Text
open scoped Computability

namespace Lexer

/-! ### Runs of characters -/

/-- The texts of one character, which belongs to a class. -/
def oneOf (p : Char → Bool) : Language Char :=
  {text | ∃ c, p c = true ∧ text = [c]}

/-- The texts of at least `least` characters of a class. -/
def runs (least : Nat) (p : Char → Bool) : Language Char :=
  oneOf p ^ least * (oneOf p)∗

theorem mem_kstar_oneOf {p : Char → Bool} {text : List Char} :
    text ∈ (oneOf p)∗ ↔ ∀ c ∈ text, p c = true := by
  rw [Language.mem_kstar]
  constructor
  · rintro ⟨letters, rfl, hletters⟩ c hc
    obtain ⟨letter, hmem, hletter⟩ := List.mem_flatten.mp hc
    obtain ⟨d, hd, rfl⟩ := hletters letter hmem
    rw [List.mem_singleton.mp hletter]
    exact hd
  · intro h
    refine ⟨text.map ([·]), ?_, ?_⟩
    · rw [← List.flatMap_def, List.flatMap_singleton']
    · exact List.forall_mem_map.mpr fun c hc => ⟨c, h c hc, rfl⟩

theorem mem_runs {least : Nat} {p : Char → Bool} {text : List Char} :
    text ∈ runs least p ↔ least ≤ text.length ∧ ∀ c ∈ text, p c = true := by
  induction least generalizing text with
  | zero =>
    rw [runs, pow_zero, one_mul, mem_kstar_oneOf]
    exact ⟨fun h => ⟨Nat.zero_le _, h⟩, fun h => h.2⟩
  | succ least ih =>
    rw [runs, pow_succ', mul_assoc, ← runs, Language.mem_mul]
    constructor
    · rintro ⟨_, ⟨c, hc, rfl⟩, rest, hrest, rfl⟩
      obtain ⟨hle, hall⟩ := ih.mp hrest
      rw [List.singleton_append, List.length_cons]
      exact ⟨by omega, List.forall_mem_cons.mpr ⟨hc, hall⟩⟩
    · rintro ⟨hle, hall⟩
      cases text with
      | nil => cases hle
      | cons c rest =>
        rw [List.forall_mem_cons] at hall
        rw [List.length_cons] at hle
        exact ⟨[c], ⟨c, hall.1, rfl⟩, rest, ih.mpr ⟨by omega, hall.2⟩, rfl⟩

/-! ### The languages -/

/-- The header lines with a name: at least two equals signs, one blank, the name, blanks, at least
two equals signs, and spaces and tabs. -/
def headerLines (name : String) : Language Char :=
  runs 2 (· == '=') * oneOf isBlank * {name.toList} * runs 1 isBlank * runs 2 (· == '=') *
    runs 0 isSpace

/-- The diverts to a target: an arrow, one space, the target, and spaces and tabs. -/
def divertTexts (target : String) : Language Char :=
  {"-> ".toList} * {target.toList} * runs 0 isSpace

/-- The lexemes of headers are the header lines. -/
theorem denotes_header_iff {line : List Char} {name : String} :
    Denotes line (.header name) ↔ IsSegmentName name ∧ line ∈ headerLines name := by
  constructor
  · intro h
    cases h with
    | @header opening blanks closing spaces b _ hopen hopening hb hname hne hblanks hclose hclosing
        hspaces =>
      have hfirst : opening ∈ runs 2 (· == '=') :=
        mem_runs.mpr ⟨hopen, fun c hc => beq_iff_eq.mpr (hopening c hc)⟩
      have hgap : blanks ∈ runs 1 isBlank := mem_runs.mpr ⟨List.length_pos_iff.mpr hne, hblanks⟩
      have hlast : closing ∈ runs 2 (· == '=') :=
        mem_runs.mpr ⟨hclose, fun c hc => beq_iff_eq.mpr (hclosing c hc)⟩
      have htail : spaces ∈ runs 0 isSpace := mem_runs.mpr ⟨Nat.zero_le _, hspaces⟩
      have hblank : [b] ∈ oneOf isBlank := ⟨b, hb, rfl⟩
      have hmiddle : name.toList ∈ ({name.toList} : Language Char) := rfl
      have hmem := Language.append_mem_mul (Language.append_mem_mul (Language.append_mem_mul
        (Language.append_mem_mul (Language.append_mem_mul hfirst hblank) hmiddle) hgap) hlast) htail
      rw [List.append_assoc, List.append_assoc, List.append_assoc, List.append_assoc,
        List.singleton_append] at hmem
      exact ⟨hname, hmem⟩
  · rintro ⟨hname, ⟨_, ⟨_, ⟨_, ⟨_, ⟨opening, hfirst, _, ⟨b, hb, rfl⟩, rfl⟩, _, rfl, rfl⟩, blanks,
      hgap, rfl⟩, closing, hlast, rfl⟩, spaces, htail, rfl⟩⟩
    obtain ⟨hopen, hopening⟩ := mem_runs.mp hfirst
    obtain ⟨hlength, hblanks⟩ := mem_runs.mp hgap
    obtain ⟨hclose, hclosing⟩ := mem_runs.mp hlast
    have hdenotes := Denotes.header hopen (fun c hc => beq_iff_eq.mp (hopening c hc)) hb hname
      (List.ne_nil_of_length_pos hlength) hblanks hclose
      (fun c hc => beq_iff_eq.mp (hclosing c hc)) (mem_runs.mp htail).2
    dsimp only
    rw [List.append_assoc, List.append_assoc, List.append_assoc, List.append_assoc,
      List.singleton_append]
    exact hdenotes

/-- The lexemes of diverts are the divert texts. -/
theorem denotes_divert_iff {text : List Char} {target : String} :
    Denotes text (.divert target) ↔ IsTarget target ∧ text ∈ divertTexts target := by
  constructor
  · intro h
    cases h with
    | @divert _ spaces htarget hspaces =>
      have htail : spaces ∈ runs 0 isSpace := mem_runs.mpr ⟨Nat.zero_le _, hspaces⟩
      have harrow : "-> ".toList ∈ ({"-> ".toList} : Language Char) := rfl
      have hmiddle : target.toList ∈ ({target.toList} : Language Char) := rfl
      have hmem := Language.append_mem_mul (Language.append_mem_mul harrow hmiddle) htail
      rw [List.append_assoc] at hmem
      exact ⟨htarget, hmem⟩
  · rintro ⟨htarget, ⟨_, ⟨_, rfl, _, rfl, rfl⟩, spaces, htail, rfl⟩⟩
    have hdenotes := Denotes.divert htarget (mem_runs.mp htail).2
    dsimp only
    rw [List.append_assoc]
    exact hdenotes

/-! ### The recognisers -/

theorem toNat_of_isWordChar {c : Char} (h : isWordChar c = true) : 48 ≤ c.toNat ∧ c.toNat ≤ 122 := by
  rcases isWordChar_eq_true_iff.mp h with halphanum | rfl
  · have hrange : (decide (c.val ≥ 'A'.val ∧ c.val ≤ 'Z'.val) ||
        decide (c.val ≥ 'a'.val) && decide (c.val ≤ 'z'.val) ||
        decide (c.val ≥ '0'.val) && decide (c.val ≤ '9'.val)) = true := halphanum
    simp only [Bool.or_eq_true, Bool.and_eq_true, decide_eq_true_eq, ge_iff_le,
      UInt32.le_iff_toNat_le, Char.toNat_val] at hrange
    have hends : 'A'.toNat = 65 ∧ 'Z'.toNat = 90 ∧ 'a'.toNat = 97 ∧ 'z'.toNat = 122 ∧
        '0'.toNat = 48 ∧ '9'.toNat = 57 := by decide
    omega
  · decide

/-- A blank does not belong to a name. -/
theorem isWordChar_of_isBlank {c : Char} (h : isBlank c = true) : isWordChar c = false := by
  rw [← Bool.not_eq_true]
  intro hword
  obtain ⟨hlow, hhigh⟩ := toNat_of_isWordChar hword
  simp only [isBlank, inRanges, blankRanges, List.any_cons, List.any_nil, Bool.or_false,
    Bool.or_eq_true, Bool.and_eq_true, decide_eq_true_eq] at h
  omega

/-- **The recogniser of headers accepts the header lines**, and it finds their names. -/
theorem headerName?_eq_some_iff_denotes {line : List Char} {name : String} :
    headerName? line = some name.toList ↔ Denotes line (.header name) := by
  constructor
  · intro h
    have hdenotes := denotes_of_headerName? h
    rwa [String.ofList_toList] at hdenotes
  · intro h
    cases h with
    | @header opening blanks closing spaces b _ hopen hopening hb hname hne hblanks hclose hclosing
        hspaces =>
      -- each run ends where the next factor starts: there is no character in both classes
      have hafterOpening : (b == '=') = false := by
        rw [beq_eq_false_iff_ne]
        rintro rfl
        cases hb
      have hafterName : ∀ c ∈ (blanks ++ (closing ++ spaces)).head?, isWordChar c = false := by
        obtain ⟨c, rest, rfl⟩ := List.exists_cons_of_ne_nil hne
        rintro _ ⟨⟩
        exact isWordChar_of_isBlank (hblanks c List.mem_cons_self)
      have hafterBlanks : ∀ c ∈ (closing ++ spaces).head?, isBlank c = false := by
        obtain ⟨c, rest, rfl⟩ := List.exists_cons_of_ne_nil (List.ne_nil_of_length_pos
          (Nat.lt_of_lt_of_le Nat.zero_lt_two hclose))
        rintro _ ⟨⟩
        rw [hclosing c List.mem_cons_self]
        decide
      have hafterClosing : ∀ c ∈ spaces.head?, (c == '=') = false := by
        intro c hc
        rcases eq_of_isSpace (hspaces c (List.mem_of_head? hc)) with rfl | rfl <;> decide
      refine headerName?_eq_some_iff.mpr (.intro (run?_append hopen ?_ ?_) hb
        (run?_append (List.length_pos_iff.mpr hname.1) ?_ hafterName)
        (run?_append (List.length_pos_iff.mpr hne) hblanks hafterBlanks)
        (run?_append hclose ?_ hafterClosing) (List.all_eq_true.mpr hspaces))
      · exact fun c hc => beq_iff_eq.mpr (hopening c hc)
      · rintro _ ⟨⟩
        exact hafterOpening
      · exact fun c hc => isWordChar_eq_true_iff.mpr (hname.2 c hc)
      · exact fun c hc => beq_iff_eq.mpr (hclosing c hc)

/-- **The recogniser of diverts accepts the divert texts**, and it finds their targets. -/
theorem divertTarget?_eq_some_iff_denotes {text : List Char} {target : String} :
    divertTarget? text = some target.toList ↔ Denotes text (.divert target) := by
  constructor
  · intro h
    have hdenotes := denotes_of_divertTarget? h
    rwa [String.ofList_toList] at hdenotes
  · intro h
    cases h with
    | @divert _ spaces htarget hspaces =>
      obtain ⟨c, cs, htarget, hc, hcs⟩ := htarget
      have hword : ∀ d ∈ cs, isWordChar d = true := fun d hd => isWordChar_eq_true_iff.mpr (hcs d hd)
      have hafterTarget : ∀ d ∈ spaces.head?, isWordChar d = false :=
        fun d hd => isWordChar_of_isSpace (hspaces d (List.mem_of_head? hd))
      obtain ⟨htake, hdrop⟩ := takeWhile_append_of_stop hword hafterTarget
      have hrest : spaces.all isSpace = true := List.all_eq_true.mpr hspaces
      rw [htarget, List.cons_append]
      simp only [divertTarget?, htake, hdrop, hc, hrest, Bool.and_self, if_true]

/-! ### The tokens of a line -/

namespace Tiling

variable {line column : Nat} {cs : List Char} {ts : List Token}

/-- A header is the only token of its line, and its lexeme is the line. -/
theorem eq_header (h : Tiling line column cs ts) {t : Token} (ht : t ∈ ts) {name : String}
    (hkind : t.kind = .header name) :
    column = 0 ∧ Denotes cs (.header name) ∧ ts = [⟨.header name, ⟨line, column⟩⟩] := by
  induction h with
  | done | comment => cases ht
  | blank _ _ ih =>
    obtain ⟨hcolumn, -⟩ := ih ht
    omega
  | @token column c cs rest kind ts hdenotes hplaced hrest ih =>
    rcases List.mem_cons.mp ht with rfl | ht
    · have hheader : kind = .header name := hkind
      subst hheader
      obtain ⟨hstart, rfl⟩ := hplaced
      cases hrest
      rw [List.append_nil]
      exact ⟨beq_iff_eq.mp hstart, hdenotes, rfl⟩
    · obtain ⟨hcolumn, -⟩ := ih ht
      rw [List.length_cons] at hcolumn
      omega

/-- No token stands behind a divert. -/
theorem pairwise_not_divert (h : Tiling line column cs ts) :
    ts.Pairwise fun a _ => ∀ target, a.kind ≠ .divert target := by
  induction h with
  | done | comment => exact List.Pairwise.nil
  | blank _ _ ih => exact ih
  | @token column c cs rest kind ts hdenotes hplaced hrest ih =>
    refine List.Pairwise.cons (fun t ht target hkind => ?_) ih
    have hdivert : kind = .divert target := hkind
    subst hdivert
    have hnil : rest = [] := hplaced
    subst hnil
    cases hrest
    cases ht

/-- A marker stands at the start of its line, in front of a space. -/
theorem eq_marker (h : Tiling line column cs ts) {t : Token} (ht : t ∈ ts)
    (hkind : t.kind = .marker) : column = 0 ∧ ['*', ' '] <+: cs := by
  induction h with
  | done | comment => cases ht
  | blank _ _ ih =>
    obtain ⟨hcolumn, -⟩ := ih ht
    omega
  | @token column c cs rest kind ts hdenotes hplaced hrest ih =>
    rcases List.mem_cons.mp ht with rfl | ht
    · have hmarker : kind = .marker := hkind
      subst hmarker
      obtain ⟨hstart, hspace⟩ := hplaced
      obtain ⟨rest, rfl⟩ := List.head?_eq_some_iff.mp hspace
      generalize htext : c :: cs = text at hdenotes
      cases hdenotes
      exact ⟨beq_iff_eq.mp hstart, ⟨rest, rfl⟩⟩
    · obtain ⟨hcolumn, -⟩ := ih ht
      rw [List.length_cons] at hcolumn
      omega

end Tiling

/-- A header line is read as its header. -/
theorem lineTokens_of_denotes_header {l : List Char} {name : String}
    (h : Denotes l (.header name)) (line : Nat) :
    lineTokens line 0 l = .ok [⟨.header name, ⟨line, 0⟩⟩] := by
  have hname := headerName?_eq_some_iff_denotes.mpr h
  obtain ⟨cs, rfl⟩ : ∃ cs, l = '=' :: cs := by
    cases h with
    | @header opening _ _ _ _ _ hopen hopening =>
      obtain ⟨c, rest, rfl⟩ := List.exists_cons_of_ne_nil (List.ne_nil_of_length_pos
        (Nat.lt_of_lt_of_le Nat.zero_lt_two hopen))
      rw [hopening c List.mem_cons_self]
      exact ⟨_, rfl⟩
  have hpiece : piece (0 == 0) '=' cs = .ok (.token (.header name) cs.length) := by
    rw [beq_self_eq_true, piece_of_headerName? hname, String.ofList_toList]
  rw [lineTokens_cons hpiece, Piece.more, List.drop_length, lineTokens]
  rfl

/-- A line that starts with a star and a space is read as a marker and what follows it. -/
theorem exists_of_lineTokens_star {line : Nat} {rest : List Char} {ts : List Token}
    (h : lineTokens line 0 ('*' :: ' ' :: rest) = .ok ts) :
    ∃ others, ts = ⟨.marker, ⟨line, 0⟩⟩ :: others ∧ ∀ t ∈ others, t.kind ≠ .marker := by
  have hmarker : piece (0 == 0) '*' (' ' :: rest) = .ok (.token .marker 0) := rfl
  obtain ⟨found, others, hpiece, hothers, rfl⟩ := exists_piece_of_lineTokens h
  cases hmarker.symm.trans hpiece
  refine ⟨others, rfl, fun t ht hkind => ?_⟩
  -- behind the star the line has started
  obtain ⟨hcolumn, -⟩ := (tiling_of_lineTokens hothers).eq_marker ht hkind
  cases hcolumn

/-- A line has a header exactly if it is a header line. -/
theorem exists_header_iff {line : Nat} {l : List Char} {ts : List Token}
    (h : lineTokens line 0 l = .ok ts) :
    (∃ t ∈ ts, ∃ name, t.kind = .header name) ↔ ∃ name, Denotes l (.header name) := by
  constructor
  · rintro ⟨t, ht, name, hkind⟩
    exact ⟨name, ((tiling_of_lineTokens h).eq_header ht hkind).2.1⟩
  · rintro ⟨name, hdenotes⟩
    cases h.symm.trans (lineTokens_of_denotes_header hdenotes line)
    exact ⟨_, List.mem_singleton_self _, name, rfl⟩

/-- A line has a marker exactly if it starts with a star and a space. -/
theorem exists_marker_iff {line : Nat} {l : List Char} {ts : List Token}
    (h : lineTokens line 0 l = .ok ts) : (∃ t ∈ ts, t.kind = .marker) ↔ ['*', ' '] <+: l := by
  constructor
  · rintro ⟨t, ht, hkind⟩
    exact ((tiling_of_lineTokens h).eq_marker ht hkind).2
  · rintro ⟨rest, rfl⟩
    obtain ⟨others, rfl, -⟩ := exists_of_lineTokens_star h
    exact ⟨_, List.mem_cons_self, rfl⟩

theorem pairwise_not_divert_of_linesTokens {line : Nat} {ls : List (List Char)} {ts : List Token}
    (h : linesTokens line ls = .ok ts) :
    ts.Pairwise fun a b => a.line = b.line → ∀ target, a.kind ≠ .divert target := by
  induction ls generalizing line ts with
  | nil =>
    cases h
    exact List.Pairwise.nil
  | cons l ls ih =>
    obtain ⟨first, rest, hfirst, hrest, rfl⟩ := exists_of_linesTokens_cons h
    refine List.pairwise_append.mpr ⟨?_, ih hrest, fun a ha b hb heq => ?_⟩
    · refine List.Pairwise.imp ?_ (tiling_of_lineTokens hfirst).pairwise_not_divert
      exact fun hdivert _ => hdivert
    · have hline := line_of_mem_lineTokens hfirst a ha
      have hbound := (line_bounds_of_mem_linesTokens hrest b hb).1
      omega

end Lexer

/-! ### The theorem -/

/-- **Headers and diverts are recognised exactly.**  The two recognisers accept their languages, and
the name in a header is determined by the line.  In a script that can be read, a line has a header
exactly if the whole line is one, and then nothing else; no token follows a divert on its line; and a
line has a marker exactly if it starts with a star and a space, and then one, at its start. -/
theorem headers_and_diverts_recognized :
    (∀ (line : List Char) (name : String), Lexer.headerName? line = some name.toList ↔
      IsSegmentName name ∧ line ∈ Lexer.headerLines name) ∧
    (∀ (line : List Char) (name name' : String), IsSegmentName name → IsSegmentName name' →
      line ∈ Lexer.headerLines name → line ∈ Lexer.headerLines name' → name = name') ∧
    (∀ (rest : List Char) (target : String), Lexer.divertTarget? rest = some target.toList ↔
      IsTarget target ∧ rest ∈ Lexer.divertTexts target) ∧
    ∀ (source : String) (ts : List Token), tokenize source = .ok ts →
      (ts.Pairwise fun a b => a.line = b.line → ∀ target, a.kind ≠ .divert target) ∧
      ∀ (i : Nat) (l : List Char), (scriptLines source)[i]? = some l →
        ((∃ t ∈ ts, t.line = i ∧ ∃ name, t.kind = .header name) ↔
          ∃ name, IsSegmentName name ∧ l ∈ Lexer.headerLines name) ∧
        (∀ name, IsSegmentName name → l ∈ Lexer.headerLines name →
          ts.filter (·.line == i) = [⟨.header name, ⟨i, 0⟩⟩]) ∧
        ((∃ t ∈ ts, t.line = i ∧ t.kind = .marker) ↔ ['*', ' '] <+: l) ∧
        (['*', ' '] <+: l → ∃ others, ts.filter (·.line == i) = ⟨.marker, ⟨i, 0⟩⟩ :: others ∧
          ∀ t ∈ others, t.kind ≠ .marker) := by
  have hheader : ∀ (line : List Char) (name : String), Lexer.headerName? line = some name.toList ↔
      IsSegmentName name ∧ line ∈ Lexer.headerLines name :=
    fun _ _ => Lexer.headerName?_eq_some_iff_denotes.trans Lexer.denotes_header_iff
  have hdivert : ∀ (rest : List Char) (target : String),
      Lexer.divertTarget? rest = some target.toList ↔
        IsTarget target ∧ rest ∈ Lexer.divertTexts target :=
    fun _ _ => Lexer.divertTarget?_eq_some_iff_denotes.trans Lexer.denotes_divert_iff
  refine ⟨hheader, ?_, hdivert, fun source ts hts => ⟨?_, fun i l hl => ?_⟩⟩
  · intro line name name' hname hname' hline hline'
    have hfound := (hheader line name).mpr ⟨hname, hline⟩
    have hfound' := (hheader line name').mpr ⟨hname', hline'⟩
    exact String.toList_injective (Option.some.inj (hfound.symm.trans hfound'))
  · exact Lexer.pairwise_not_divert_of_linesTokens hts
  · have hown : Lexer.lineTokens i 0 l = .ok (ts.filter (·.line == i)) := by
      have htokens := Lexer.lineTokens_of_linesTokens hts hl
      rwa [Nat.zero_add] at htokens
    refine ⟨?_, fun name hname hline => ?_, ?_, ?_⟩
    · have hiff := Lexer.exists_header_iff hown
      simp only [List.mem_filter, beq_iff_eq, and_assoc, Lexer.denotes_header_iff] at hiff
      exact hiff
    · have hdenotes := Lexer.denotes_header_iff.mpr ⟨hname, hline⟩
      exact Except.ok.inj (hown.symm.trans (Lexer.lineTokens_of_denotes_header hdenotes i))
    · have hiff := Lexer.exists_marker_iff hown
      simp only [List.mem_filter, beq_iff_eq, and_assoc] at hiff
      exact hiff
    · rintro ⟨rest, rfl⟩
      exact Lexer.exists_of_lineTokens_star hown

/-- A header and a choice with a divert. -/
def stairsSource : String :=
  printLines [[.header "Stairs"], [.marker, .string "up", .divert "Hall"]]

/-- Any blank may stand in front of the name of a header, but not behind the closing signs.  In a
script, a header stands alone on its line, and a marker stands once, in front. -/
theorem recognized_stairsSource :
    "==\u3000Stairs ===\t".toList ∈ Lexer.headerLines "Stairs" ∧
      (∀ name, IsSegmentName name → "== Stairs ==\u3000".toList ∉ Lexer.headerLines name) ∧
      ∃ ts, tokenize stairsSource = .ok ts ∧
        ts.filter (·.line == 0) = [⟨.header "Stairs", ⟨0, 0⟩⟩] ∧
        ∃ others, ts.filter (·.line == 1) = ⟨.marker, ⟨1, 0⟩⟩ :: others ∧
          ∀ t ∈ others, t.kind ≠ .marker := by
  have hname : IsSegmentName "Stairs" := by decide
  have htarget : IsTarget "Hall" := by decide
  have hfits : ∀ kinds ∈ [[.header "Stairs"], [.marker, .string "up", .divert "Hall"]],
      LineFits true kinds := by
    simp [LineFits, Token.Kind.WellFormed, Token.Kind.Stands, hname, htarget]
  have hlines := scriptLines_printLines hfits
  obtain ⟨hheader, -, -, hscript⟩ := headers_and_diverts_recognized
  obtain ⟨-, haccount⟩ := hscript _ _ (tokenize_printLines hfits)
  refine ⟨((hheader _ _).mp (by decide)).2, fun name hname hmem => ?_, _,
    tokenize_printLines hfits, ?_, ?_⟩
  · have hnone : Lexer.headerName? "== Stairs ==\u3000".toList = none := by decide
    rw [(hheader _ _).mpr ⟨hname, hmem⟩] at hnone
    cases hnone
  · have hfirst := haccount 0 "=== Stairs ===".toList (by rw [hlines]; rfl)
    exact hfirst.2.1 "Stairs" hname ((hheader _ _).mp (by decide)).2
  · exact (haccount 1 _ (by rw [hlines]; rfl)).2.2.2 ⟨_, rfl⟩

end Dialogue
