import Dialogue.Proofs.Compilation
import Dialogue.Proofs.Grouping
import Dialogue.Proofs.Nesting
import Dialogue.Proofs.Tiling

/-!
# Generation never fails

There is no action for a choice outside of a menu, so `Action.ofStatement` fails on one.  It is the
only way in which lowering can fail (`Action.ofSteps_eq_error_iff`), and it never happens: the
statements of every block, at every depth, are lowered as steps, and grouping puts each choice into
a menu (`Step.isChoice_of_plain_mem_group`).  So whatever the segments are, those included that no
script denotes, they have a program, and compiling fails where reading does and nowhere else.
-/

namespace Dialogue

/-- **Grouping leaves no choice outside of a menu.** -/
theorem Step.isChoice_of_plain_mem_group {stmts : List Statement} {stmt : Statement}
    (h : .plain stmt ∈ group stmts) : stmt.isChoice = false :=
  (groups_group stmts).sound (.plain stmt) h

namespace Action

/-! ### The statements that lowering comes to -/

/-- The statements that are lowered one by one on the way through steps, each with the first slot
that is free for it: `Visits slot steps slot' stmt` says that lowering `steps` from `slot` on comes
to `stmt` with `slot'`.  What lies behind a statement is reached only if the statement is lowered. -/
inductive Visits : Nat → List Step → Nat → Statement → Prop
  | here {slot : Nat} {stmt : Statement} {rest : List Step} :
      Visits slot (.plain stmt :: rest) slot stmt
  | behindMenu {slot slot' : Nat} {choices : List Statement} {rest : List Step} {stmt : Statement} :
      Visits (slot + 1) rest slot' stmt → Visits slot (.menu choices :: rest) slot' stmt
  | behind {slot next slot' : Nat} {first stmt : Statement} {action : Action} {rest : List Step} :
      ofStatement slot first = .ok (action, next) → Visits next rest slot' stmt →
      Visits slot (.plain first :: rest) slot' stmt
  | consequent {slot slot' : Nat} {conditions : List String}
      {consequent alternate : List Statement} {rest : List Step} {stmt : Statement} :
      Visits slot (Step.group consequent) slot' stmt →
      Visits slot (.plain (.conditional conditions consequent alternate) :: rest) slot' stmt
  | alternate {slot next slot' : Nat} {conditions : List String}
      {consequent alternate : List Statement} {actions : List Action} {rest : List Step}
      {stmt : Statement} : ofBlock slot consequent = .ok (actions, next) →
      Visits next (Step.group alternate) slot' stmt →
      Visits slot (.plain (.conditional conditions consequent alternate) :: rest) slot' stmt

/-- No choice is met unless it is a plain step from the start: the blocks inside are grouped. -/
theorem Visits.isChoice_eq_false {slot slot' : Nat} {steps : List Step} {stmt : Statement}
    (h : Visits slot steps slot' stmt)
    (hplain : ∀ first, .plain first ∈ steps → first.isChoice = false) :
    stmt.isChoice = false := by
  induction h with
  | here => exact hplain _ List.mem_cons_self
  | behindMenu _ ih | behind _ _ ih =>
    exact ih fun first hfirst => hplain first (List.mem_cons_of_mem _ hfirst)
  | consequent _ ih | alternate _ _ ih => exact ih fun _ => Step.isChoice_of_plain_mem_group

/-! ### When lowering fails -/

theorem ofStatement_of_isChoice {stmt : Statement} (h : stmt.isChoice = true) (slot : Nat) :
    ofStatement slot stmt = .error (.internal .choiceOutsideMenu) := by
  cases stmt with
  | choice | offer => rw [ofStatement]
  | divert | speech | conditional | call | script => cases h

/-- A statement that is no choice can be lowered, as it can be in a block of its own. -/
theorem exists_ofStatement {stmt : Statement} (h : stmt.isChoice = false) (slot : Nat) :
    ∃ action free, ofStatement slot stmt = .ok (action, free) := by
  obtain ⟨actions, free, hlowers⟩ := exists_lowers [stmt] slot
  obtain ⟨action, slot', -, hstmt, -⟩ := (ofBlock_of_not_isChoice_iff h).mp hlowers.ofBlock_eq
  exact ⟨action, slot', hstmt⟩

theorem ofSteps_menu_eq_error_iff {slot : Nat} {choices : List Statement} {rest : List Step}
    {e : Error} : ofSteps slot (.menu choices :: rest) = .error e ↔
      ofSteps (slot + 1) rest = .error e := by
  rw [ofSteps]
  cases ofSteps (slot + 1) rest <;> simp

theorem ofSteps_plain_eq_error_iff {slot next : Nat} {first : Statement} {action : Action}
    (h : ofStatement slot first = .ok (action, next)) {rest : List Step} {e : Error} :
    ofSteps slot (.plain first :: rest) = .error e ↔ ofSteps next rest = .error e := by
  rw [ofSteps, h]
  dsimp only
  cases ofSteps next rest <;> simp

/-- Lowering fails where it meets a choice. -/
theorem Visits.ofSteps_eq {slot slot' : Nat} {steps : List Step} {stmt : Statement}
    (h : Visits slot steps slot' stmt) (hchoice : stmt.isChoice = true) :
    ofSteps slot steps = .error (.internal .choiceOutsideMenu) := by
  induction h with
  | here => rw [ofSteps, ofStatement_of_isChoice hchoice]
  | behindMenu _ ih => exact ofSteps_menu_eq_error_iff.mpr (ih hchoice)
  | behind hfirst _ ih => exact (ofSteps_plain_eq_error_iff hfirst).mpr (ih hchoice)
  | consequent _ ih => rw [ofSteps, ofStatement, ofBlock, ih hchoice]
  | alternate hfirst _ ih =>
    rw [ofSteps, ofStatement, hfirst]
    simp only [ofBlock, ih hchoice]

/-- **Lowering fails at a choice, and at nothing else.** -/
theorem ofSteps_eq_error_iff {slot : Nat} {steps : List Step} {e : Error} :
    ofSteps slot steps = .error e ↔ e = .internal .choiceOutsideMenu ∧
      ∃ slot' stmt, Visits slot steps slot' stmt ∧ stmt.isChoice = true := by
  constructor
  · intro h
    induction steps generalizing slot with
    | nil =>
      rw [ofSteps] at h
      cases h
    | cons step rest ih =>
      cases step with
      | menu choices =>
        obtain ⟨he, slot', stmt, hvisits, hchoice⟩ := ih (ofSteps_menu_eq_error_iff.mp h)
        exact ⟨he, slot', stmt, .behindMenu hvisits, hchoice⟩
      | plain first =>
        by_cases hfirst : first.isChoice = true
        · rw [ofSteps, ofStatement_of_isChoice hfirst] at h
          cases h
          exact ⟨rfl, slot, first, .here, hfirst⟩
        · -- the blocks inside a conditional cannot fail, so the failure lies behind it
          obtain ⟨action, next, hok⟩ := exists_ofStatement (eq_false_of_ne_true hfirst) slot
          obtain ⟨he, slot', stmt, hvisits, hchoice⟩ :=
            ih ((ofSteps_plain_eq_error_iff hok).mp h)
          exact ⟨he, slot', stmt, .behind hok hvisits, hchoice⟩
  · rintro ⟨rfl, slot', stmt, hvisits, hchoice⟩
    exact hvisits.ofSteps_eq hchoice

end Action

/-! ### Compiling -/

theorem segmentsLogged_ne_internal (source : String) (fault : InternalFault) :
    (segmentsLogged source).result ≠ .error (.internal fault) := by
  rw [result_segmentsLogged]
  cases htokens : tokenize source with
  | error e =>
    obtain ⟨cause, i, column, -, rfl, -⟩ := Lexer.linesTokens_eq_error htokens
    rintro ⟨⟩
  | ok ts =>
    intro hparse
    obtain ⟨cause, p, he⟩ := parse_onlySyntactic ts _ hparse
    cases he

theorem compileLogged_ne_internal (width : Nat) (source : String) (fault : InternalFault) :
    (compileLogged width source).result ≠ .error (.internal fault) := by
  rw [compileLogged, Logged.result_andThen]
  cases hread : (segmentsLogged source).result with
  | error e =>
    rintro ⟨⟩
    exact segmentsLogged_ne_internal source fault hread
  | ok segments =>
    obtain ⟨program, hprogram⟩ := exists_generate width segments
    simp [Except.bind, generateLogged, Logged.result_record, hprogram]

theorem compile_eq_ok_iff {width : Nat} {name source code : String} :
    compile width name source = .ok code ↔ ∃ ts segments, tokenize source = .ok ts ∧
      parse ts = .ok segments ∧ generate width segments = .ok code := by
  rw [compile_eq]
  cases hread : readScript name source with
  | error d =>
    refine ⟨nofun, ?_⟩
    rintro ⟨ts, segments, hts, hparse, -⟩
    rw [readScript_eq_ok_iff.mpr ⟨ts, hts, hparse⟩] at hread
    cases hread
  | ok segments =>
    obtain ⟨program, hprogram⟩ := exists_generate width segments
    obtain ⟨ts, hts, hparse⟩ := readScript_eq_ok_iff.mp hread
    rw [Except.bind, hprogram]
    constructor
    · rintro ⟨⟩
      exact ⟨ts, segments, hts, hparse, hprogram⟩
    · rintro ⟨ts', segments', hts', hparse', hcode⟩
      cases hts.symm.trans hts'
      cases hparse.symm.trans hparse'
      cases hprogram.symm.trans hcode
      rfl

/-- What cannot be compiled cannot be read, and is refused with the same message. -/
theorem compile_eq_error_iff {width : Nat} {name source : String} {d : Diagnostic} :
    compile width name source = .error d ↔ readScript name source = .error d := by
  rw [compile_eq]
  cases readScript name source with
  | error d' => rw [Except.bind, Except.error.injEq, Except.error.injEq]
  | ok segments =>
    obtain ⟨program, hprogram⟩ := exists_generate width segments
    rw [Except.bind, hprogram]
    exact ⟨nofun, nofun⟩

/-- **Every tree has a program, at every width.**  Lowering fails where it comes to a choice outside
of a menu; on the way through the steps of a block it never does, at any depth.  So a script is
compiled, to the program of its segments, exactly when its characters can be read and its tokens
fit together; otherwise it is refused as it is when it is only read, and never for a fault of the
compiler's own. -/
theorem generate_total_and_compile_iff :
    (∀ (width : Nat) (segments : List Segment), ∃ program, generate width segments = .ok program) ∧
      (∀ (slot : Nat) (steps : List Step) (e : Error), Action.ofSteps slot steps = .error e ↔
        e = .internal .choiceOutsideMenu ∧
          ∃ slot' stmt, Action.Visits slot steps slot' stmt ∧ stmt.isChoice = true) ∧
      (∀ (slot slot' : Nat) (stmts : List Statement) (stmt : Statement),
        Action.Visits slot (Step.group stmts) slot' stmt →
          stmt.isChoice = false ∧ ∃ action free, Action.ofStatement slot' stmt = .ok (action, free)) ∧
      ∀ (width : Nat) (name source : String),
        ((∃ code, compile width name source = .ok code) ↔
          ∃ ts segments, tokenize source = .ok ts ∧ parse ts = .ok segments) ∧
        (∀ code, compile width name source = .ok code ↔ ∃ ts segments,
          tokenize source = .ok ts ∧ parse ts = .ok segments ∧
            generate width segments = .ok code) ∧
        (∀ d, compile width name source = .error d ↔ readScript name source = .error d) ∧
        ∀ fault, (compileLogged width source).result ≠ .error (.internal fault) := by
  refine ⟨exists_generate, fun slot steps e => Action.ofSteps_eq_error_iff, ?_, ?_⟩
  · intro slot slot' stmts stmt hvisits
    have hplain := hvisits.isChoice_eq_false fun _ => Step.isChoice_of_plain_mem_group
    exact ⟨hplain, Action.exists_ofStatement hplain slot'⟩
  · intro width name source
    refine ⟨⟨?_, ?_⟩, fun code => compile_eq_ok_iff, fun d => compile_eq_error_iff,
      compileLogged_ne_internal width source⟩
    · rintro ⟨code, hcode⟩
      obtain ⟨ts, segments, hts, hparse, -⟩ := compile_eq_ok_iff.mp hcode
      exact ⟨ts, segments, hts, hparse⟩
    · rintro ⟨ts, segments, hts, hparse⟩
      obtain ⟨program, hprogram⟩ := exists_generate width segments
      exact ⟨program, compile_eq_ok_iff.mpr ⟨ts, segments, hts, hparse, hprogram⟩⟩

end Dialogue
