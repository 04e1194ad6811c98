import Dialogue.Compile
import Dialogue.Proofs.Parsing
import Dialogue.Proofs.Printing

/-!
# Printed scripts are read back

`readScript_printScript`: reading the source of a well-formed script gives the script.

The tokens of a printed script are known, with their positions (`tokenize_printLines`), so it
remains to derive them in the grammar.  The derivation follows the printer.  Where the grammar
looks at what follows a phrase, it only asks whether that stands on the same line, and printed
phrases start on lines of their own (`From`).
-/

namespace Dialogue

open Grammar

/-! ### What follows stands on a later line -/

/-- No token stands in front of `line`: the first one is there or behind. -/
def From (line : Nat) (ts : List Token) : Prop :=
  ∀ t ∈ ts.head?, line ≤ t.line

theorem From.mono {line line' : Nat} {ts : List Token} (h : From line ts) (hle : line' ≤ line) :
    From line' ts :=
  fun t ht => Nat.le_trans hle (h t ht)

theorem From.stops {line : Nat} {ts : List Token} (h : From (line + 1) ts) :
    Stops (·.line = line) ts := by
  intro t ht hline
  have hle := h t ht
  omega

theorem laidLines_append (line : Nat) (a b : List (List Token.Kind)) :
    laidLines line (a ++ b) = laidLines line a ++ laidLines (line + a.length) b := by
  induction a generalizing line with
  | nil => rfl
  | cons kinds a ih =>
    have hline : line + 1 + a.length = line + (kinds :: a).length := by
      rw [List.length_cons]
      omega
    rw [List.cons_append, laidLines, ih, laidLines, hline, List.append_assoc]

/-- Lines that are laid start where they are laid. -/
theorem from_laidLines {line : Nat} {lines : List (List Token.Kind)} {rest : List Token}
    (h : From (line + lines.length) rest) : From line (laidLines line lines ++ rest) := by
  induction lines generalizing line with
  | nil => exact h
  | cons kinds lines ih =>
    cases kinds with
    | nil =>
      have hrest : From (line + 1 + lines.length) rest :=
        h.mono (by rw [List.length_cons]; omega)
      exact (ih hrest).mono (Nat.le_succ line)
    | cons kind kinds =>
      rintro _ ⟨⟩
      exact Nat.le_refl line

theorem from_laidLines_nil (line : Nat) (lines : List (List Token.Kind)) :
    From line (laidLines line lines) := by
  have hfrom := @from_laidLines line lines [] nofun
  rwa [List.append_nil] at hfrom

/-! ### Phrases bound to a line -/

theorem laidLine_append (line column : Nat) (a b : List Token.Kind) :
    ∃ column', laidLine line column (a ++ b) =
      laidLine line column a ++ laidLine line column' b := by
  induction a generalizing column with
  | nil => exact ⟨column, rfl⟩
  | cons kind a ih =>
    obtain ⟨column', h⟩ := ih (column + kind.lexeme.length + 1)
    exact ⟨column', by rw [List.cons_append, laidLine, h, laidLine, List.cons_append]⟩

theorem conditions_laidLine (line column : Nat) (exprs : List String) (rest : List Token) :
    Conditions line (laidLine line column (exprs.map .condition) ++ rest) exprs rest := by
  induction exprs generalizing column with
  | nil => exact .nil rest
  | cons expr exprs ih => exact .cons rfl (ih _)

theorem arguments_laidLine (line column : Nat) (args : List String) (rest : List Token) :
    Arguments line (laidLine line column (args.map .string) ++ rest) args rest := by
  induction args generalizing column with
  | nil => exact .nil rest
  | cons arg args ih => exact .string rfl (ih _)

theorem jump_laidLine (line column : Nat) (divert : Option String) (rest : List Token) :
    Jump line (laidLine line column (jumpKinds divert) ++ rest) divert rest := by
  cases divert with
  | none => exact .none rest
  | some target => exact .some rfl

/-! ### Offers -/

/-- The first line of a selection and what follows it. -/
theorem selection_laidLines {line column : Nat} {condition : String} {first second : Option Offer}
    {a b : List (List Token.Kind)} {rest : List Token}
    (hfirst : Body (laidLines (line + 1) a ++ (laidLines (line + 1 + a.length) b ++ rest)) first
      (laidLines (line + 1 + a.length) b ++ rest))
    (hsecond : SelectionTail (laidLines (line + 1 + a.length) b ++ rest) second rest) :
    Selection (laidLine line column [.condition condition] ++ laidLines (line + 1) (a ++ b) ++ rest)
      (.split condition first second) rest := by
  rw [laidLines_append, List.append_assoc, List.append_assoc]
  exact .intro hfirst hsecond

mutual

theorem body_laidLines : (o : Offer) → (n : Nat) → (rest : List Token) →
    Body (laidLines n o.bodyLines ++ rest) (some o) rest
  | .line text divert, n, rest => by
    have hjump := jump_laidLine n (0 + (Token.Kind.string text).lexeme.length + 1) divert rest
    rw [Offer.bodyLines, laidLines, laidLines, List.append_nil]
    exact .line hjump
  | .split _ consequent alternate, n, rest => by
    rw [Offer.bodyLines]
    exact .selection (selection_laidLines (body?_laidLines consequent _ _)
      (tail?_laidLines alternate _ rest))

theorem tail_laidLines : (o : Offer) → (n : Nat) → (rest : List Token) →
    SelectionTail (laidLines n o.tailLines ++ rest) (some o) rest
  | .line text divert, n, rest => by
    have hjump := jump_laidLine (n + 1) (0 + (Token.Kind.string text).lexeme.length + 1) divert
      (⟨.keyword .endif, ⟨n + 1 + 1, 0⟩⟩ :: rest)
    have hbody := @Body.line text ⟨n + 1, 0⟩ _ _ _ hjump
    have htail := @SelectionTail.else_ ⟨n, 0⟩ _ _ _ _ hbody
    rw [Offer.tailLines]
    simpa [laidLines, laidLine] using htail
  | .split _ consequent alternate, n, rest => by
    rw [Offer.tailLines]
    exact .elif (selection_laidLines (body?_laidLines consequent _ _)
      (tail?_laidLines alternate _ rest))

theorem body?_laidLines : (o? : Option Offer) → (n : Nat) → (rest : List Token) →
    Body (laidLines n (Offer.bodyLines? o?) ++ rest) o? rest
  | none, _, rest => .nothing rest
  | some o, n, rest => body_laidLines o n rest

theorem tail?_laidLines : (o? : Option Offer) → (n : Nat) → (rest : List Token) →
    SelectionTail (laidLines n (Offer.tailLines? o?) ++ rest) o? rest
  | none, _, _ => .endif
  | some o, n, rest => tail_laidLines o n rest

end

/-! ### Statements -/

/-- A statement on one line. -/
theorem simple_laidLines {stmt : Statement} (h : stmt.WellFormed)
    (hsimple : stmt.isConditional = false) {word : Keyword} {n : Nat} {rest : List Token}
    (hrest : From (n + (stmt.sourceLines word).length) rest) :
    Simple (laidLines n (stmt.sourceLines word) ++ rest) stmt rest := by
  cases h with
  | divert _ => exact .divert
  | speech _ => exact .speech rfl
  | @choice line conditions divert _ _ =>
    have hstop : Stops (·.line = n) rest := From.stops hrest
    let column := 0 + Token.Kind.marker.lexeme.length + 1
    obtain ⟨column', hline⟩ := laidLine_append n
      (column + (Token.Kind.string line).lexeme.length + 1) (conditions.map .condition)
      (jumpKinds divert)
    have hconditions := conditions_laidLine n (column + (Token.Kind.string line).lexeme.length + 1)
      conditions (laidLine n column' (jumpKinds divert) ++ rest)
    rw [← List.append_assoc, ← hline] at hconditions
    have hjump := jump_laidLine n column' divert rest
    -- behind the conditions stands the divert, or another line
    have hcond : Stops (ConditionOn n) (laidLine n column' (jumpKinds divert) ++ rest) := by
      cases divert with
      | none => exact fun t ht hon => hstop t ht hon.2
      | some target =>
        rintro _ ⟨⟩ ⟨⟨expr, hexpr⟩, -⟩
        cases hexpr
    have hphrase := @Simple.choice line ⟨n, 0⟩ ⟨n, column⟩ _ _ _ _ _ hconditions hcond hjump
      fun _ t ht hon => hstop t ht hon.2
    rw [Statement.sourceLines, laidLines, laidLines, List.append_nil]
    exact hphrase
  | @offer condition consequent alternate _ =>
    exact .offer (selection_laidLines (body?_laidLines consequent _ _)
      (tail?_laidLines alternate _ rest))
  | conditional _ _ _ _ => cases hsimple
  | @call name args _ =>
    have hstop : Stops (·.line = n) rest := From.stops hrest
    rw [Statement.sourceLines, laidLines, laidLines, List.append_nil]
    exact .call (arguments_laidLine n _ args rest) hstop
  | script _ => exact .script

/-- A statement in front of a block. -/
theorem block_cons_laidLines {stmt : Statement} (h : stmt.WellFormed) {stmts : List Statement}
    {lines : List (List Token.Kind)} {n : Nat} {rest : List Token}
    (hrest : From (n + (stmt.sourceLines .if_ ++ lines).length) rest)
    (hconditional : stmt.isConditional = true → ∀ rest,
      From (n + (stmt.sourceLines .if_).length) rest →
      ∃ ts, laidLines n (stmt.sourceLines .if_) ++ rest = ⟨.keyword .if_, ⟨n, 0⟩⟩ :: ts ∧
        Conditional n ts stmt rest)
    (hblock : Block (laidLines (n + (stmt.sourceLines .if_).length) lines ++ rest) stmts rest) :
    Block (laidLines n (stmt.sourceLines .if_ ++ lines) ++ rest) (stmt :: stmts) rest := by
  rw [List.length_append] at hrest
  have hfrom := from_laidLines (hrest.mono (Nat.le_of_eq (Nat.add_assoc _ _ _)))
  rw [laidLines_append, List.append_assoc]
  refine .cons ?_ hblock
  cases hkind : stmt.isConditional with
  | false => exact .simple (simple_laidLines h hkind hfrom)
  | true =>
    obtain ⟨ts, hts, hphrase⟩ := hconditional hkind _ hfrom
    rw [hts]
    exact .conditional hphrase

mutual

theorem conditional_laidLines (word : Keyword) : (stmt : Statement) → stmt.WellFormed →
    stmt.isConditional = true → (n : Nat) → (rest : List Token) →
    From (n + (stmt.sourceLines word).length) rest →
    ∃ ts, laidLines n (stmt.sourceLines word) ++ rest = ⟨.keyword word, ⟨n, 0⟩⟩ :: ts ∧
      Conditional n ts stmt rest
  | .conditional conditions consequent alternate, h, _, n, rest, hrest => by
    cases h with
    | conditional hne _ hconsequent halternate =>
      rw [Statement.sourceLines, List.length_cons, List.length_append] at hrest
      have htail := tail_alternateLines alternate halternate
        (n + 1 + (Statement.blockLines consequent).length) rest (hrest.mono (by omega))
      have hfrom : From (n + 1 + (Statement.blockLines consequent).length)
          (laidLines (n + 1 + (Statement.blockLines consequent).length)
            (Statement.alternateLines alternate) ++ rest) := from_laidLines (hrest.mono (by omega))
      have hblock := block_laidLines consequent hconsequent (n + 1) _ hfrom
      refine ⟨_, ?_, .intro (conditions_laidLine n
        (0 + (Token.Kind.keyword word).lexeme.length + 1) conditions _) hne hblock htail⟩
      rw [Statement.sourceLines, laidLines, laidLines_append, List.append_assoc, List.append_assoc]
      rfl
  | .divert _, _, hkind, _, _, _ => by cases hkind
  | .speech _ _, _, hkind, _, _, _ => by cases hkind
  | .choice _ _ _, _, hkind, _, _, _ => by cases hkind
  | .offer _, _, hkind, _, _, _ => by cases hkind
  | .call _ _, _, hkind, _, _, _ => by cases hkind
  | .script _, _, hkind, _, _, _ => by cases hkind

theorem tail_alternateLines : (stmts : List Statement) → (∀ stmt ∈ stmts, stmt.WellFormed) →
    (n : Nat) → (rest : List Token) → From (n + (Statement.alternateLines stmts).length) rest →
    ConditionalTail (laidLines n (Statement.alternateLines stmts) ++ rest) stmts rest
  | [], _, _, _, _ => .endif
  | stmt :: stmts, h, n, rest, hrest => by
    have hstmt := h stmt List.mem_cons_self
    have hstmts : ∀ s ∈ stmts, s.WellFormed := fun s hs => h s (List.mem_cons_of_mem stmt hs)
    rw [Statement.alternateLines] at hrest ⊢
    split at hrest
    · -- nothing but a conditional
      rename_i hsole
      obtain ⟨hnil, hkind⟩ := Bool.and_eq_true_iff.mp hsole
      obtain ⟨ts, hts, hphrase⟩ := conditional_laidLines .elif stmt hstmt hkind n rest hrest
      rw [if_pos hsole, hts, List.isEmpty_iff.mp hnil]
      exact .elif hphrase
    · rename_i hsole
      let lines := stmt.sourceLines .if_ ++ Statement.blockLines stmts
      have hfrom : From (n + 1 + lines.length)
          (⟨.keyword .endif, ⟨n + 1 + lines.length, 0⟩⟩ :: rest) := by
        rintro _ ⟨⟩
        exact Nat.le_refl _
      have hblock := block_laidLines stmts hstmts (n + 1 + (stmt.sourceLines .if_).length) _
        (hfrom.mono (by simp only [lines, List.length_append]; omega))
      have hbranch := block_cons_laidLines hstmt hfrom
        (fun hkind => conditional_laidLines .if_ stmt hstmt hkind (n + 1)) hblock
      rw [if_neg hsole, laidLines, laidLines_append, List.append_assoc, List.append_assoc]
      exact .else_ hbranch

theorem block_laidLines : (stmts : List Statement) → (∀ stmt ∈ stmts, stmt.WellFormed) →
    (n : Nat) → (rest : List Token) → From (n + (Statement.blockLines stmts).length) rest →
    Block (laidLines n (Statement.blockLines stmts) ++ rest) stmts rest
  | [], _, _, rest, _ => .nil rest
  | stmt :: stmts, h, n, rest, hrest => by
    have hstmt := h stmt List.mem_cons_self
    have hstmts : ∀ s ∈ stmts, s.WellFormed := fun s hs => h s (List.mem_cons_of_mem stmt hs)
    have hblock := block_laidLines stmts hstmts (n + (stmt.sourceLines .if_).length) rest
      (hrest.mono (by rw [Statement.blockLines, List.length_append]; omega))
    exact block_cons_laidLines hstmt hrest
      (fun hkind => conditional_laidLines .if_ stmt hstmt hkind n) hblock

end

/-! ### Segments -/

theorem Segment.sourceLines_of_isSegmentName {s : Segment} (h : IsSegmentName s.name) :
    s.sourceLines = [.header s.name] :: Statement.blockLines s.children := by
  have hname : s.isAnonymous = false := by
    rw [Segment.isAnonymous, beq_eq_false_iff_ne]
    intro hempty
    exact h.1 (by rw [hempty]; rfl)
  rw [Segment.sourceLines, hname]
  rfl

theorem headed_laidLines {segments : List Segment} (hname : ∀ s ∈ segments, IsSegmentName s.name)
    (h : ∀ s ∈ segments, ∀ stmt ∈ s.children, stmt.WellFormed) (n : Nat) :
    Headed (laidLines n (segments.flatMap Segment.sourceLines)) segments := by
  induction segments generalizing n with
  | nil => exact .nil
  | cons s segments ih =>
    have hrest := ih (fun t ht => hname t (List.mem_cons_of_mem s ht))
      (fun t ht => h t (List.mem_cons_of_mem s ht))
      (n + 1 + (Statement.blockLines s.children).length)
    have hblock := block_laidLines s.children (h s List.mem_cons_self) (n + 1) _
      (from_laidLines_nil _ (segments.flatMap Segment.sourceLines))
    rw [List.flatMap_cons, Segment.sourceLines_of_isSegmentName (hname s List.mem_cons_self),
      List.cons_append, laidLines, laidLines_append]
    exact .cons hblock hrest

/-- **The tokens of a printed script denote the script.** -/
theorem WellFormedScript.script_laidLines {segments : List Segment}
    (h : WellFormedScript segments) :
    Script (laidLines 0 (segments.flatMap Segment.sourceLines)) segments := by
  cases segments with
  | nil => exact ⟨[], [], [], .nil [], .nil, rfl⟩
  | cons first rest =>
    have hrest : ∀ s ∈ rest, ∀ stmt ∈ s.children, stmt.WellFormed :=
      fun s hs => h.children s (List.mem_cons_of_mem first hs)
    rcases h.first_name first rfl with hname | ⟨hname, hne⟩
    · -- every segment has a header
      have hnames : ∀ s ∈ first :: rest, IsSegmentName s.name :=
        List.forall_mem_cons.mpr ⟨hname, h.other_names⟩
      exact ⟨[], _, first :: rest, .nil _, headed_laidLines hnames h.children 0, rfl⟩
    · -- the statements of the first segment are the lead
      obtain ⟨name, children⟩ := first
      cases hname
      have hheaded := headed_laidLines h.other_names hrest
        (0 + (Statement.blockLines children).length)
      have hlead := block_laidLines children (h.children _ List.mem_cons_self) 0 _
        (from_laidLines_nil _ (rest.flatMap Segment.sourceLines))
      have hne' : children.isEmpty = false := List.isEmpty_eq_false_iff.mpr hne
      refine ⟨children, _, rest, ?_, hheaded, by rw [hne']; rfl⟩
      rw [List.flatMap_cons, laidLines_append]
      exact hlead

/-- The source of a well-formed script has tokens, and they are those of the script. -/
theorem WellFormedScript.exists_tokens {segments : List Segment} (h : WellFormedScript segments) :
    ∃ ts, tokenize (printScript segments) = .ok ts ∧ parse ts = .ok segments :=
  ⟨_, tokenize_printLines h.linesFit, h.script_laidLines.parse⟩

/-- **Reading the source of a well-formed script gives the script.** -/
theorem readScript_printScript (name : String) {segments : List Segment}
    (h : WellFormedScript segments) : readScript name (printScript segments) = .ok segments :=
  readScript_eq_ok_iff.mpr h.exists_tokens

/-- A script with every kind of statement: a speaker named like a keyword, an `elif` of both kinds,
and texts with quotes, brackets and line ends in them. -/
def sampleScript : List Segment :=
  [⟨"", [.speech "if" "say \"]\n\\ // =="]⟩,
   ⟨"2_Door",
    [.choice "knock" ["n < 3", " [x "] (some "Hall"),
     .offer (.split "key" none (some (.split "bribe" (some (.line "pay\r" (some "Hall"))) none))),
     .conditional ["seen"] [.call "play" ["", "\t*"]]
       [.conditional ["a", "b"] [] [.divert "Hall", .script "x = '] -> y'"]]]⟩,
   ⟨"Hall", []⟩]

theorem wellFormedScript_sampleScript : WellFormedScript sampleScript := by
  have hknock : ∀ e ∈ ["n < 3", " [x "], IsCondition e := by decide
  have hkey : IsCondition "key" ∧ IsCondition "bribe" := by decide
  have hseen : ∀ e ∈ ["seen"], IsCondition e := by decide
  have hboth : ∀ e ∈ ["a", "b"], IsCondition e := by decide
  have hcode : IsCode "x = '] -> y'" := by decide
  have hhall : IsTarget "Hall" := by decide
  have hplay : IsRoutineName "play" := ⟨by decide, by rintro ⟨⟩ <;> decide⟩
  have hactor : IsIdentifier "if" := by decide
  have hoffer : (Offer.split "key" none
      (some (.split "bribe" (some (.line "pay\r" (some "Hall"))) none))).WellFormed := by
    refine .split hkey.1 (by simp) ?_
    rintro _ ⟨⟩
    refine .split hkey.2 ?_ (by simp)
    rintro _ ⟨⟩
    exact .line (by rintro _ ⟨⟩; exact hhall)
  have hinner : ∀ stmt ∈ [Statement.divert "Hall", .script "x = '] -> y'"], stmt.WellFormed :=
    List.forall_mem_cons.mpr ⟨.divert hhall, List.forall_mem_singleton.mpr (.script hcode)⟩
  have helif := Statement.WellFormed.conditional (List.cons_ne_nil _ _) hboth
    (List.forall_mem_nil _) hinner
  refine ⟨?_, ?_, ?_⟩
  · rintro _ ⟨⟩
    exact .inr ⟨rfl, List.cons_ne_nil _ _⟩
  · refine List.forall_mem_cons.mpr ⟨by decide, ?_⟩
    exact List.forall_mem_singleton.mpr (by decide)
  · refine List.forall_mem_cons.mpr ⟨List.forall_mem_singleton.mpr (.speech hactor), ?_⟩
    refine List.forall_mem_cons.mpr ⟨?_, List.forall_mem_singleton.mpr (List.forall_mem_nil _)⟩
    refine List.forall_mem_cons.mpr ⟨.choice hknock (by rintro _ ⟨⟩; exact hhall), ?_⟩
    refine List.forall_mem_cons.mpr ⟨.offer hoffer, List.forall_mem_singleton.mpr ?_⟩
    exact .conditional (List.cons_ne_nil _ _) hseen (List.forall_mem_singleton.mpr (.call hplay))
      (List.forall_mem_singleton.mpr helif)

theorem readScript_printScript_sampleScript :
    WellFormedScript sampleScript ∧ readScript "sample" (printScript sampleScript) =
      .ok sampleScript :=
  ⟨wellFormedScript_sampleScript,
    readScript_printScript "sample" wellFormedScript_sampleScript⟩

end Dialogue
