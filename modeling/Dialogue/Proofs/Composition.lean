import Dialogue.Proofs.Continuation
import Dialogue.Proofs.SourceLines

/-!
# Scripts in one file

A header ends the segment in front of it, and nothing else is carried over it: no scope may be open,
and a phrase that depends on what follows it stops at a line end.  So a script that starts with a
header can be put behind another one (`readScript_append`).  If both are read, then together they
are read as the segments of both; if the second is refused, then so are both, with the same error as
many lines further down as the first one has.

For tokens this is `parse_append_header`.  The run over the first script is a part of the run over
both (`Reaches.append`), and from the header on it corresponds to the run over the second script
alone, but for positions and for the segments that are finished.
-/

namespace Dialogue

open Grammar

/-! ### Tokens -/

theorem lastPosition_append_cons (ts : List Token) (u : Token) (us : List Token) :
    lastPosition (ts ++ u :: us) = lastPosition (u :: us) := by
  rw [lastPosition, lastPosition, List.getLast?_append_of_ne_nil _ (List.cons_ne_nil u us)]

/-- Only the first segment can be dropped. -/
theorem State.dropEmptyLead_append {front : List Segment} (h : front ≠ []) (last : List Segment) :
    State.dropEmptyLead (front ++ last) = State.dropEmptyLead front ++ last := by
  cases front with
  | nil => exact absurd rfl h
  | cons first front =>
    rw [List.cons_append, State.dropEmptyLead, State.dropEmptyLead]
    split <;> rfl

/-- The state behind a header that stands where no scope is open. -/
def State.headed (earlier : List Segment) (name : String) : State :=
  ⟨earlier, ⟨name, []⟩, []⟩

theorem advances_header (stop p : Position) (name : String) (earlier : List Segment)
    (current : Segment) (us : List Token) :
    Advances stop (⟨earlier, current, []⟩, ⟨.header name, p⟩ :: us)
      (.headed (earlier ++ [current]) name, us) :=
  .clause (takeClause_yields_iff.mpr .header) (step_eq_ok_iff.mpr .header)

theorem State.Corresponds.headed {R : Position → Position → Prop} (front front' : List Segment)
    (name : String) :
    State.Corresponds R front front' (.headed front name) (.headed front' name) := by
  have h : State.Corresponds R front front' (.headed (front ++ []) name)
      (.headed (front' ++ []) name) := ⟨.nil⟩
  rw [List.append_nil, List.append_nil] at h
  exact h

/-- **Tokens that start with a header denote the same segments behind other tokens**, and are
refused for the same reason. -/
theorem parse_append_header {R : Position → Position → Prop} (hR : KeepsLines R)
    {ts us us' : List Token} {segments : List Segment} {name : String} {p p' : Position}
    (hparse : parse ts = .ok segments) (hline : ∀ t ∈ ts, p'.line ≠ t.line) (hp : R p p')
    (hus : TokensCorrespond R us us') :
    ResultsCorrespond R (fun own all => all = segments ++ own) (parse (⟨.header name, p⟩ :: us))
      (parse (ts ++ ⟨.header name, p'⟩ :: us')) := by
  rw [parse_eq] at hparse
  obtain ⟨earlier, current, hreach, rfl⟩ := run_bind_finish_eq_ok_iff.mp hparse
  have hapart : Apart ts [] (⟨.header name, p'⟩ :: us') := by
    rintro - _ ⟨⟩ t ht
    exact hline t ht
  -- behind the header both runs are in the same state but for the finished segments
  have hown : ∀ stop, Reaches stop (.initial, ⟨.header name, p⟩ :: us)
      (.headed [⟨"", []⟩] name, us) :=
    fun stop => .single (advances_header stop p name [] ⟨"", []⟩ us)
  have hall : ∀ stop, Reaches stop (.initial, ts ++ ⟨.header name, p'⟩ :: us')
      (.headed (earlier ++ [current]) name, us') :=
    fun stop => (hreach.append hapart stop).tail (advances_header stop p' name earlier current us')
  have hlast := lastPosition_corresponds (List.Forall₂.cons ⟨hp⟩ hus)
    (List.cons_ne_nil ⟨.header name, p⟩ us)
  have hresults := results_correspond_of_configurations hR hlast
    (State.nested_initial.reaches (hown ⟨0, 0⟩))
    ⟨State.Corresponds.headed [⟨"", []⟩] (earlier ++ [current]) name, hus⟩
  rw [parse_eq, parse_eq, lastPosition_append_cons, run_result_of_reaches (hown _),
    run_result_of_reaches (hall _)]
  refine hresults.mono ?_
  rintro _ _ ⟨last, rfl, rfl⟩
  exact State.dropEmptyLead_append (List.append_ne_nil_of_right_ne_nil _ (List.cons_ne_nil _ _)) _

/-! ### Sources -/

/-- The position `n` lines further down. -/
def Position.down (n : Nat) (p : Position) : Position :=
  ⟨p.line + n, p.column⟩

/-- The graph of `Position.down`: `q` is `n` lines below `p`. -/
def Below (n : Nat) (p q : Position) : Prop :=
  q = p.down n

theorem keepsLines_below (n : Nat) : KeepsLines (Below n) := by
  rintro p _ q _ rfl rfl
  exact Nat.add_right_cancel_iff.symm

/-- The first line of a source is a header. -/
def StartsWithHeader (source : String) : Prop :=
  ∃ first rest header p, Text.scriptLines source = first :: rest ∧
    Lexer.lineTokens 0 0 first = .ok [⟨.header header, p⟩]

theorem StartsWithHeader.exists_header {source : String} (h : StartsWithHeader source)
    {ts : List Token} (hts : tokenize source = .ok ts) :
    ∃ header p us, ts = ⟨.header header, p⟩ :: us := by
  obtain ⟨first, rest, header, p, hlines, hfirst⟩ := h
  rw [tokenize, hlines] at hts
  obtain ⟨ts₁, us, hts₁, -, rfl⟩ := Lexer.exists_of_linesTokens_cons hts
  rw [hfirst] at hts₁
  cases hts₁
  exact ⟨header, p, us, rfl⟩

theorem tokenize_append {a b : String} (ha : Text.AtLineStart a.toList)
    (hb : b.toList.head? ≠ some Text.byteOrderMark) {ts : List Token} (hts : tokenize a = .ok ts) :
    tokenize (a ++ b) =
      (Lexer.linesTokens (a.toList.count '\n') (Text.scriptLines b)).map (ts ++ ·) := by
  rw [tokenize] at hts
  rw [tokenize, Text.scriptLines_append ha hb, Lexer.linesTokens_append, hts,
    Text.length_scriptLines ha, Nat.zero_add]
  rfl

/-- The tokens of a source, and its tokens if its lines start at number `n`. -/
theorem tokenize_corresponds_below (b : String) (n : Nat) :
    ResultsCorrespond (Below n) (TokensCorrespond (Below n)) (tokenize b)
      (Lexer.linesTokens n (Text.scriptLines b)) := by
  refine Lexer.linesTokens_corresponds (fun i column => ?_) (Text.scriptLines b)
  rw [Below, Position.down, Nat.zero_add, Nat.add_comm]

/-- **What a source that starts with a header is read as, alone and behind another one.** -/
theorem results_correspond_append {a b : String} {segments : List Segment} {ts : List Token}
    (ha : Text.AtLineStart a.toList) (hts : tokenize a = .ok ts) (hparse : parse ts = .ok segments)
    (hb : b.toList.head? ≠ some Text.byteOrderMark) (hheader : StartsWithHeader b) :
    ResultsCorrespond (Below (a.toList.count '\n')) (fun own all => all = segments ++ own)
      ((tokenize b).bind parse) ((tokenize (a ++ b)).bind parse) := by
  have htokens := tokenize_corresponds_below b (a.toList.count '\n')
  rw [tokenize_append ha hb hts]
  generalize hown : tokenize b = own at htokens ⊢
  generalize hall : Lexer.linesTokens (a.toList.count '\n') (Text.scriptLines b) = all at htokens ⊢
  cases htokens with
  | error he => exact .error he
  | ok hus =>
    obtain ⟨header, p, us, rfl⟩ := hheader.exists_header hown
    obtain _ | ⟨⟨hp⟩, hus⟩ := hus
    refine parse_append_header (keepsLines_below _) hparse ?_ hp hus
    -- the header stands behind all lines of the first source
    intro t ht heq
    have hbefore := (Lexer.line_bounds_of_mem_linesTokens hts t ht).2
    have hbehind := (Lexer.line_bounds_of_mem_linesTokens hall _ List.mem_cons_self).1
    rw [Text.length_scriptLines ha] at hbefore
    rw [Token.line, heq] at hbehind
    omega

/-- **Scripts compose at headers.**  Behind whole lines that are read, a source that starts with a
header is read as its own segments, or refused with its own error, as many lines further down as
there are in front of it. -/
theorem readScript_append {name a b : String} {segments : List Segment}
    (ha : Text.AtLineStart a.toList) (hread : readScript name a = .ok segments)
    (hb : b.toList.head? ≠ some Text.byteOrderMark) (hheader : StartsWithHeader b) :
    (∀ own, readScript name b = .ok own → readScript name (a ++ b) = .ok (segments ++ own)) ∧
      (∀ detail p, readScript name b = .error ⟨name, .lexical detail p⟩ →
        readScript name (a ++ b) =
          .error ⟨name, .lexical detail ⟨p.line + a.toList.count '\n', p.column⟩⟩) ∧
      ∀ detail p, readScript name b = .error ⟨name, .syntactic detail p⟩ →
        readScript name (a ++ b) =
          .error ⟨name, .syntactic detail ⟨p.line + a.toList.count '\n', p.column⟩⟩ := by
  obtain ⟨ts, hts, hparse⟩ := readScript_eq_ok_iff.mp hread
  have hresults := results_correspond_append ha hts hparse hb hheader
  rw [readScript, readScript, result_segmentsLogged, result_segmentsLogged]
  generalize (tokenize b).bind parse = own at hresults ⊢
  generalize (tokenize (a ++ b)).bind parse = all at hresults ⊢
  cases hresults with
  | ok hsegments =>
    subst hsegments
    refine ⟨?_, ?_, ?_⟩
    · rintro _ ⟨⟩
      rfl
    · rintro _ _ ⟨⟩
    · rintro _ _ ⟨⟩
  | error he =>
    cases he with
    | lexical hp =>
      refine ⟨?_, ?_, ?_⟩
      · rintro _ ⟨⟩
      · rintro _ _ ⟨⟩
        rw [hp]
        rfl
      · rintro _ _ ⟨⟩
    | syntactic hp =>
      refine ⟨?_, ?_, ?_⟩
      · rintro _ ⟨⟩
      · rintro _ _ ⟨⟩
      · rintro _ _ ⟨⟩
        rw [hp]
        rfl
    | internal =>
      refine ⟨?_, ?_, ?_⟩
      · rintro _ ⟨⟩
      · rintro _ _ ⟨⟩
      · rintro _ _ ⟨⟩

/-- Printed lines that start with a header are a source that does. -/
theorem startsWithHeader_printLines {header : String} {lines : List (List Token.Kind)}
    (h : ∀ kinds ∈ [.header header] :: lines, LineFits true kinds) :
    StartsWithHeader (printLines ([.header header] :: lines)) :=
  ⟨_, _, header, ⟨0, 0⟩, scriptLines_printLines h,
    Lexer.lineTokens_printLine (h _ List.mem_cons_self) 0⟩

/-- A script without a header. -/
def hallSource : String :=
  printLines [[.actor "ann", .string "hi"], [.divert "Cave"]]

/-- A script that starts with a header. -/
def caveSource : String :=
  printLines [[.header "Cave"], [.divert "Hall"]]

/-- The same script with an end of a conditional that was never opened. -/
def brokenSource : String :=
  printLines [[.header "Cave"], [.keyword .endif]]

theorem readScript_append_hallSource :
    readScript "hall" hallSource = .ok [⟨"", [.speech "ann" "hi", .divert "Cave"]⟩] ∧
      readScript "hall" (hallSource ++ caveSource) =
        .ok ([⟨"", [.speech "ann" "hi", .divert "Cave"]⟩] ++ [⟨"Cave", [.divert "Hall"]⟩]) ∧
      readScript "hall" (hallSource ++ brokenSource) =
        .error ⟨"hall", .syntactic "no if closed by endif" ⟨1 + 2, 0⟩⟩ := by
  have hann : IsIdentifier "ann" := by decide
  have hcave : IsTarget "Cave" := by decide
  have hhall : IsTarget "Hall" := by decide
  have hname : IsSegmentName "Cave" := by decide
  have hread : readScript "hall" hallSource = .ok [⟨"", [.speech "ann" "hi", .divert "Cave"]⟩] := by
    have hparse : parse [⟨.actor "ann", ⟨0, 0⟩⟩, ⟨.string "hi", ⟨0, 5⟩⟩, ⟨.divert "Cave", ⟨1, 0⟩⟩] =
        .ok [⟨"", [.speech "ann" "hi", .divert "Cave"]⟩] := by cbv
    refine readScript_eq_ok_iff.mpr ⟨_, tokenize_printLines ?_, hparse⟩
    simp [LineFits, Token.Kind.WellFormed, Token.Kind.Stands, hann, hcave]
  have hlast : hallSource.toList.getLast? = some '\n' := by decide
  have hstart : Text.AtLineStart hallSource.toList := by
    intro c hc
    rw [hlast] at hc
    exact (Option.some.inj hc).symm
  refine ⟨hread, ?_, ?_⟩
  · have hfits : ∀ kinds ∈ [[.header "Cave"], [.divert "Hall"]], LineFits true kinds := by
      simp [LineFits, Token.Kind.WellFormed, Token.Kind.Stands, hname, hhall]
    have hparse : parse [⟨.header "Cave", ⟨0, 0⟩⟩, ⟨.divert "Hall", ⟨1, 0⟩⟩] =
        .ok [⟨"Cave", [.divert "Hall"]⟩] := by cbv
    have hown : readScript "hall" caveSource = .ok [⟨"Cave", [.divert "Hall"]⟩] :=
      readScript_eq_ok_iff.mpr ⟨_, tokenize_printLines hfits, hparse⟩
    exact (readScript_append hstart hread (by decide) (startsWithHeader_printLines hfits)).1 _ hown
  · have hfits : ∀ kinds ∈ [[.header "Cave"], [.keyword .endif]], LineFits true kinds := by
      simp [LineFits, Token.Kind.WellFormed, Token.Kind.Stands, hname]
    have hparse : parse [⟨.header "Cave", ⟨0, 0⟩⟩, ⟨.keyword .endif, ⟨1, 0⟩⟩] =
        .error (.syntactic .endifWithoutIf ⟨1, 0⟩) := by cbv
    have hown : readScript "hall" brokenSource =
        .error ⟨"hall", .syntactic "no if closed by endif" ⟨1, 0⟩⟩ := by
      rw [readScript, result_segmentsLogged, brokenSource, tokenize_printLines hfits]
      exact congrArg (diagnosed "hall") hparse
    have hcount : hallSource.toList.count '\n' = 2 := by decide
    rw [← hcount]
    exact (readScript_append hstart hread (by decide) (startsWithHeader_printLines hfits)).2.2 _ _
      hown

end Dialogue
