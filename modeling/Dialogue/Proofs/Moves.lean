import Dialogue.Proofs.Composition
import Dialogue.Proofs.Tiling

/-!
# Moved tokens

Where things stand can be changed by a map of positions.  `Token.moved` and `Error.moved` apply such
a map to a token and to an error, and keep the rest.  Both stages of reading commute with the maps
that suit them:

* The parser compares lines and does nothing else with positions, so it commutes with every map that
  keeps the tokens of one line together and those of different lines apart (`parse_map_moved`).
  Columns may change, and lines may change places.
* The reader of tokens starts afresh on every line, so it turns lines that are put one behind the
  other into tokens one behind the other, those of the later lines further down
  (`tokenize_append_eq`).

Both come from statements about corresponding results, for a relation between positions that is the
graph of the map.
-/

namespace Dialogue

/-! ### Maps of positions -/

/-- The token at the position to which `f` moves it. -/
def Token.moved (f : Position → Position) (t : Token) : Token :=
  ⟨t.kind, f t.position⟩

/-- The error at the position to which `f` moves it.  An internal error has no position. -/
def Error.moved (f : Position → Position) : Error → Error
  | lexical fault p => lexical fault (f p)
  | syntactic fault p => syntactic fault (f p)
  | internal fault => internal fault

section Graphs

variable {R : Position → Position → Prop} {f : Position → Position}

theorem Error.Corresponds.eq_moved (hR : ∀ p q, R p q → q = f p) {e e' : Error}
    (h : Error.Corresponds R e e') : e' = e.moved f := by
  cases h with
  | lexical hp => rw [Error.moved, hR _ _ hp]
  | syntactic hp => rw [Error.moved, hR _ _ hp]
  | internal => rfl

theorem TokensCorrespond.eq_map_moved (hR : ∀ p q, R p q → q = f p) {ts ts' : List Token}
    (h : TokensCorrespond R ts ts') : ts' = ts.map (Token.moved f) := by
  induction h with
  | nil => rfl
  | cons ht _ ih =>
    obtain ⟨hp⟩ := ht
    rw [List.map_cons, Token.moved, ← hR _ _ hp, ih]

/-- Results that correspond along a map are the same but for the map. -/
theorem ResultsCorrespond.eq_moved {α : Type} {V : α → α → Prop} {g : α → α}
    (hR : ∀ p q, R p q → q = f p) (hV : ∀ a b, V a b → b = g a) {x x' : Except Error α}
    (h : ResultsCorrespond R V x x') : x' = (x.mapError (Error.moved f)).map g := by
  cases h with
  | ok ha => rw [hV _ _ ha]; rfl
  | error he => rw [he.eq_moved hR]; rfl

end Graphs

/-! ### Parsing -/

/-- The graph of `f` on the positions of tokens. -/
def Moves (f : Position → Position) (ts : List Token) (p q : Position) : Prop :=
  (∃ t ∈ ts, t.position = p) ∧ q = f p

theorem tokensCorrespond_map_moved (f : Position → Position) (ts : List Token) :
    TokensCorrespond (Moves f ts) ts (ts.map (Token.moved f)) := by
  rw [TokensCorrespond, List.forall₂_map_right_iff, List.forall₂_same]
  exact fun t ht => ⟨⟨t, ht, rfl⟩, rfl⟩

/-- **The parser sees of positions only which tokens share a line.**  Tokens that are moved so that
exactly those stay on one line that were on one line denote the same segments, or are refused for
the same reason, at the place to which the position of the error is moved. -/
theorem parse_map_moved {ts : List Token} {f : Position → Position}
    (hf : ∀ t ∈ ts, ∀ u ∈ ts, ((f t.position).line = (f u.position).line ↔ t.line = u.line)) :
    parse (ts.map (Token.moved f)) = (parse ts).mapError (Error.moved f) := by
  have hkeeps : KeepsLines (Moves f ts) := by
    rintro _ _ _ _ ⟨⟨t, ht, rfl⟩, rfl⟩ ⟨⟨u, hu, rfl⟩, rfl⟩
    exact (hf t ht u hu).symm
  have hparse := parse_corresponds hkeeps (tokensCorrespond_map_moved f ts)
  have heq := hparse.eq_moved (g := id) (fun _ _ h => h.2) (fun _ _ h => h.symm)
  rw [heq]
  cases parse ts <;> rfl

/-- The lines 0 and 3 in the other order and with other columns. -/
def flipped (p : Position) : Position :=
  ⟨3 - p.line, 7 * p.column + 1⟩

/-- The tokens `ann: "hi"`, and on the last line an argument that is none. -/
def strayTokens : List Token :=
  [⟨.actor "ann", ⟨0, 0⟩⟩, ⟨.string "hi", ⟨0, 5⟩⟩, ⟨.symbol "wave", ⟨3, 0⟩⟩, ⟨.marker, ⟨3, 5⟩⟩]

theorem parse_flipped_strayTokens :
    (∀ t ∈ strayTokens, ∀ u ∈ strayTokens,
        ((flipped t.position).line = (flipped u.position).line ↔ t.line = u.line)) ∧
      parse strayTokens = .error (.syntactic (.badArgument .marker) ⟨3, 5⟩) ∧
      parse (strayTokens.map (Token.moved flipped)) =
        .error (.syntactic (.badArgument .marker) ⟨0, 36⟩) := by
  have hflipped : ∀ t ∈ strayTokens, ∀ u ∈ strayTokens,
      ((flipped t.position).line = (flipped u.position).line ↔ t.line = u.line) := by decide
  have hparse : parse strayTokens = .error (.syntactic (.badArgument .marker) ⟨3, 5⟩) := by cbv
  refine ⟨hflipped, hparse, ?_⟩
  rw [parse_map_moved hflipped, hparse]
  rfl

/-! ### Reading tokens -/

/-- **Lines behind other lines have their own tokens, further down.** -/
theorem tokenize_append_eq {a b : String} (ha : Text.AtLineStart a.toList)
    (hb : b.toList.head? ≠ some Text.byteOrderMark) :
    tokenize (a ++ b) = (tokenize a).bind fun ts =>
      ((tokenize b).mapError (Error.moved (Position.down (a.toList.count '\n')))).map fun us =>
        ts ++ us.map (Token.moved (Position.down (a.toList.count '\n'))) := by
  have hb' := (tokenize_corresponds_below b (a.toList.count '\n')).eq_moved
    (f := Position.down _) (fun _ _ h => h) (fun _ _ h => h.eq_map_moved fun _ _ h => h)
  rw [tokenize, Text.scriptLines_append ha hb, Lexer.linesTokens_append, Text.length_scriptLines ha,
    Nat.zero_add, hb', ← tokenize]
  cases tokenize a with
  | error e => rfl
  | ok ts => cases tokenize b <;> rfl

/-- **Reading tokens goes line by line.**  Behind whole lines that cannot be read, nothing changes
their error.  Behind whole lines that can be read, a source without a mark in front has its own
error or its own tokens, as many lines further down as there are line feeds in front of it. -/
theorem tokenize_append_of_atLineStart {a b : String} (ha : Text.AtLineStart a.toList)
    (hb : b.toList.head? ≠ some Text.byteOrderMark) :
    (∀ e, tokenize a = .error e → tokenize (a ++ b) = .error e) ∧
      ∀ ts, tokenize a = .ok ts →
        (∀ e, tokenize b = .error e → ∃ fault p, e = .lexical fault p ∧
          tokenize (a ++ b) =
            .error (.lexical fault ⟨p.line + a.toList.count '\n', p.column⟩)) ∧
        ∀ us, tokenize b = .ok us → tokenize (a ++ b) = .ok (ts ++ us.map fun u =>
          ⟨u.kind, ⟨u.position.line + a.toList.count '\n', u.position.column⟩⟩) := by
  have happend := tokenize_append_eq ha hb
  refine ⟨fun e he => ?_, fun ts hts => ⟨fun e he => ?_, fun us hus => ?_⟩⟩
  · rw [happend, he]
    rfl
  · obtain ⟨fault, i, column, -, rfl, -⟩ := Lexer.linesTokens_eq_error he
    refine ⟨fault, _, rfl, ?_⟩
    rw [happend, hts, he]
    rfl
  · rw [happend, hts, hus]
    rfl

/-- A source with a character that starts no token. -/
def atSource : String := "@\n"

theorem tokenize_atSource : tokenize atSource = .error (.lexical (.unknown '@') ⟨0, 0⟩) := by
  have hlines : Text.scriptLines atSource = [['@']] := by decide
  have hpiece : Lexer.piece (0 == 0) '@' [] = .error (.unknown '@') := by decide
  rw [tokenize, hlines, Lexer.linesTokens_cons, Lexer.lineTokens, hpiece]
  rfl

theorem tokenize_append_hallSource :
    tokenize (hallSource ++ caveSource) =
        .ok ([⟨.actor "ann", ⟨0, 0⟩⟩, ⟨.string "hi", ⟨0, 5⟩⟩, ⟨.divert "Cave", ⟨1, 0⟩⟩] ++
          [⟨.header "Cave", ⟨0 + 2, 0⟩⟩, ⟨.divert "Hall", ⟨1 + 2, 0⟩⟩]) ∧
      tokenize (hallSource ++ atSource) = .error (.lexical (.unknown '@') ⟨0 + 2, 0⟩) ∧
      tokenize (atSource ++ hallSource) = .error (.lexical (.unknown '@') ⟨0, 0⟩) := by
  have hhall : tokenize hallSource =
      .ok [⟨.actor "ann", ⟨0, 0⟩⟩, ⟨.string "hi", ⟨0, 5⟩⟩, ⟨.divert "Cave", ⟨1, 0⟩⟩] := by
    have hann : IsIdentifier "ann" := by decide
    have hcave : IsTarget "Cave" := by decide
    refine tokenize_printLines ?_
    simp [LineFits, Token.Kind.WellFormed, Token.Kind.Stands, hann, hcave]
  have hcave : tokenize caveSource =
      .ok [⟨.header "Cave", ⟨0, 0⟩⟩, ⟨.divert "Hall", ⟨1, 0⟩⟩] := by
    have hname : IsSegmentName "Cave" := by decide
    have htarget : IsTarget "Hall" := by decide
    refine tokenize_printLines ?_
    simp [LineFits, Token.Kind.WellFormed, Token.Kind.Stands, hname, htarget]
  have hstart : Text.AtLineStart hallSource.toList := by
    have hlast : hallSource.toList.getLast? = some '\n' := by decide
    rw [Text.AtLineStart, hlast]
    rintro _ ⟨⟩
    rfl
  have hstart' : Text.AtLineStart atSource.toList := by
    rintro _ ⟨⟩
    rfl
  refine ⟨?_, ?_, ?_⟩
  · exact ((tokenize_append_of_atLineStart hstart (by decide)).2 _ hhall).2 _ hcave
  · obtain ⟨_, _, ⟨⟩, happend⟩ :=
      ((tokenize_append_of_atLineStart hstart (by decide)).2 _ hhall).1 _ tokenize_atSource
    exact happend
  · exact (tokenize_append_of_atLineStart hstart' (by decide)).1 _ tokenize_atSource

end Dialogue
