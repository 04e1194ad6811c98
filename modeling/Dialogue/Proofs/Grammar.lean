import Dialogue.Script
import Dialogue.Token

/-!
# The grammar of scripts

Which tokens are a script, and which segments they denote, without saying how they are read:

    script    ::= block (header block)*
    block     ::= statement*
    statement ::= actor string | divert | inline script | symbol (symbol | string)*
                | marker string condition* divert? | marker "if" selection | "if" conditional
    conditional ::= condition+ block ("elif" conditional | "else" block "endif" | "endif")
    selection ::= condition body ("elif" selection | "else" body "endif" | "endif")
    body      ::= (string divert?)? | "if" selection

An `elif` denotes the conditional that follows it, as the only statement of the alternate in front
of which it stands, and a selection likewise.

Lines matter in some places: an actor's words, the arguments of a call, the conditions of a
conditional and what follows the string of a choice stand on the line of the token they belong to.
Two phrases take all they can get.  A call goes on to the end of its line, and a choice absorbs the
conditions and the divert behind its string.  So what a phrase is depends on the tokens behind it,
and every phrase is a relation between the tokens from its first one on, what it denotes, and the
tokens that are left.
-/

namespace Dialogue.Grammar

/-! ### What may not follow -/

/-- No token of the class `p` comes next. -/
def Stops (p : Token → Prop) (ts : List Token) : Prop :=
  ∀ t ∈ ts.head?, ¬ p t

/-- A condition on `line`. -/
def ConditionOn (line : Nat) (t : Token) : Prop :=
  (∃ expr, t.kind = .condition expr) ∧ t.line = line

/-- A divert on `line`. -/
def DivertOn (line : Nat) (t : Token) : Prop :=
  (∃ target, t.kind = .divert target) ∧ t.line = line

/-! ### Phrases bound to a line -/

/-- Any number of conditions on `line`. -/
inductive Conditions (line : Nat) : List Token → List String → List Token → Prop
  | nil (ts : List Token) : Conditions line ts [] ts
  | cons {expr : String} {p : Position} {ts : List Token} {exprs : List String}
      {rest : List Token} : p.line = line → Conditions line ts exprs rest →
      Conditions line (⟨.condition expr, p⟩ :: ts) (expr :: exprs) rest

/-- Any number of symbols and strings on `line`. -/
inductive Arguments (line : Nat) : List Token → List String → List Token → Prop
  | nil (ts : List Token) : Arguments line ts [] ts
  | symbol {value : String} {p : Position} {ts : List Token} {args : List String}
      {rest : List Token} : p.line = line → Arguments line ts args rest →
      Arguments line (⟨.symbol value, p⟩ :: ts) (value :: args) rest
  | string {value : String} {p : Position} {ts : List Token} {args : List String}
      {rest : List Token} : p.line = line → Arguments line ts args rest →
      Arguments line (⟨.string value, p⟩ :: ts) (value :: args) rest

/-- A divert on `line`, or nothing. -/
inductive Jump (line : Nat) : List Token → Option String → List Token → Prop
  | none (ts : List Token) : Jump line ts none ts
  | some {target : String} {p : Position} {rest : List Token} : p.line = line →
      Jump line (⟨.divert target, p⟩ :: rest) (some target) rest

/-! ### Conditional choices -/

mutual

/-- A selection, from the token behind its `if` or `elif`. -/
inductive Selection : List Token → Offer → List Token → Prop
  | intro {expr : String} {p : Position} {ts ts' rest : List Token}
      {first second : Option Offer} : Body ts first ts' → SelectionTail ts' second rest →
      Selection (⟨.condition expr, p⟩ :: ts) (.split expr first second) rest

/-- How a selection goes on behind its first body. -/
inductive SelectionTail : List Token → Option Offer → List Token → Prop
  | elif {p : Position} {ts rest : List Token} {offer : Offer} : Selection ts offer rest →
      SelectionTail (⟨.keyword .elif, p⟩ :: ts) (some offer) rest
  | else_ {p q : Position} {ts rest : List Token} {second : Option Offer} :
      Body ts second (⟨.keyword .endif, q⟩ :: rest) →
      SelectionTail (⟨.keyword .else_, p⟩ :: ts) second rest
  | endif {p : Position} {rest : List Token} :
      SelectionTail (⟨.keyword .endif, p⟩ :: rest) none rest

/-- A branch of a selection. -/
inductive Body : List Token → Option Offer → List Token → Prop
  | nothing (ts : List Token) : Body ts none ts
  | line {text : String} {p : Position} {ts rest : List Token} {divert : Option String} :
      Jump p.line ts divert rest →
      Body (⟨.string text, p⟩ :: ts) (some (.line text divert)) rest
  | selection {p : Position} {ts rest : List Token} {offer : Offer} : Selection ts offer rest →
      Body (⟨.keyword .if_, p⟩ :: ts) (some offer) rest

end

/-! ### Statements -/

/-- A statement that holds no other statements. -/
inductive Simple : List Token → Statement → List Token → Prop
  | speech {actor text : String} {p q : Position} {rest : List Token} : q.line = p.line →
      Simple (⟨.actor actor, p⟩ :: ⟨.string text, q⟩ :: rest) (.speech actor text) rest
  | divert {target : String} {p : Position} {rest : List Token} :
      Simple (⟨.divert target, p⟩ :: rest) (.divert target) rest
  | script {code : String} {p : Position} {rest : List Token} :
      Simple (⟨.script code, p⟩ :: rest) (.script code) rest
  | call {name : String} {p : Position} {ts rest : List Token} {args : List String} :
      Arguments p.line ts args rest → Stops (·.line = p.line) rest →
      Simple (⟨.symbol name, p⟩ :: ts) (.call name args) rest
  | choice {text : String} {p q : Position} {ts ts' rest : List Token} {exprs : List String}
      {divert : Option String} : Conditions q.line ts exprs ts' →
      Stops (ConditionOn q.line) ts' → Jump q.line ts' divert rest →
      (divert = none → Stops (DivertOn q.line) rest) →
      Simple (⟨.marker, p⟩ :: ⟨.string text, q⟩ :: ts) (.choice text exprs divert) rest
  | offer {p q : Position} {ts rest : List Token} {offer : Offer} : Selection ts offer rest →
      Simple (⟨.marker, p⟩ :: ⟨.keyword .if_, q⟩ :: ts) (.offer offer) rest

mutual

/-- A sequence of statements. -/
inductive Block : List Token → List Statement → List Token → Prop
  | nil (ts : List Token) : Block ts [] ts
  | cons {ts ts' rest : List Token} {stmt : Statement} {stmts : List Statement} :
      Stmt ts stmt ts' → Block ts' stmts rest → Block ts (stmt :: stmts) rest

/-- A statement. -/
inductive Stmt : List Token → Statement → List Token → Prop
  | simple {ts rest : List Token} {stmt : Statement} : Simple ts stmt rest → Stmt ts stmt rest
  | conditional {p : Position} {ts rest : List Token} {stmt : Statement} :
      Conditional p.line ts stmt rest → Stmt (⟨.keyword .if_, p⟩ :: ts) stmt rest

/-- A conditional, from the token behind its `if` or `elif`, which stands on `line`. -/
inductive Conditional : Nat → List Token → Statement → List Token → Prop
  | intro {line : Nat} {ts ts' ts'' rest : List Token} {exprs : List String}
      {first second : List Statement} : Conditions line ts exprs ts' → exprs ≠ [] →
      Block ts' first ts'' → ConditionalTail ts'' second rest →
      Conditional line ts (.conditional exprs first second) rest

/-- How a conditional goes on behind its first block. -/
inductive ConditionalTail : List Token → List Statement → List Token → Prop
  | elif {p : Position} {ts rest : List Token} {stmt : Statement} :
      Conditional p.line ts stmt rest →
      ConditionalTail (⟨.keyword .elif, p⟩ :: ts) [stmt] rest
  | else_ {p q : Position} {ts rest : List Token} {second : List Statement} :
      Block ts second (⟨.keyword .endif, q⟩ :: rest) →
      ConditionalTail (⟨.keyword .else_, p⟩ :: ts) second rest
  | endif {p : Position} {rest : List Token} :
      ConditionalTail (⟨.keyword .endif, p⟩ :: rest) [] rest

end

/-! ### Scripts -/

/-- Segments with their headers, up to the end of the tokens. -/
inductive Headed : List Token → List Segment → Prop
  | nil : Headed [] []
  | cons {name : String} {p : Position} {ts rest : List Token} {stmts : List Statement}
      {segments : List Segment} : Block ts stmts rest → Headed rest segments →
      Headed (⟨.header name, p⟩ :: ts) (⟨name, stmts⟩ :: segments)

/-- The tokens of a whole script, and its segments.  What stands in front of the first header is a
segment without a name, unless nothing stands there. -/
def Script (ts : List Token) (segments : List Segment) : Prop :=
  ∃ lead rest headed, Block ts lead rest ∧ Headed rest headed ∧
    segments = if lead.isEmpty then headed else ⟨"", lead⟩ :: headed

end Dialogue.Grammar
