import Dialogue.Script
import Dialogue.Token.Taken

/-!
# Reading choices

A choice follows its marker, on the same line or a later one.  A choice that starts with `if`
selects its line:

    if [condition] branch (elif [condition] branch)* (else branch)? endif

where a branch is a line with an optional divert, a further selection, or nothing.  An `elif` is
read as the selection it stands for, nested in the alternate of the one before it; the `endif` that
ends the innermost of them ends all.

Two of the errors arise at the end of the tokens.  They are reported at the last token of the whole
list, which is the argument `stop`.
-/

namespace Dialogue

mutual

/-- A selection, from the token after its `word`, which stands at `start`. -/
def takeOffer (stop : Position) (word : Keyword) (start : Position) (ts : List Token) :
    Except Error (Taken Offer ts) :=
  match ts with
  | ⟨.condition expr, p⟩ :: ts₁ =>
    match takeBranch stop ts₁ with
    | .error e => .error e
    | .ok first =>
      match hrest : first.rest with
      | ⟨.keyword .elif, q⟩ :: ts₂ =>
        match takeOffer stop .elif q ts₂ with
        | .error e => .error e
        | .ok second =>
          .ok ⟨.split expr first.value (some second.value), second.rest,
            (second.behind ⟨.keyword .elif, q⟩).suffix.trans
              (hrest ▸ (first.behind ⟨.condition expr, p⟩).suffix)⟩
      | ⟨.keyword .else_, q⟩ :: ts₂ =>
        match takeBranch stop ts₂ with
        | .error e => .error e
        | .ok second =>
          match hend : second.rest with
          | ⟨.keyword .endif, _⟩ :: ts₃ =>
            .ok ⟨.split expr first.value second.value, ts₃,
              ((List.suffix_cons _ ts₃).trans
                (hend ▸ (second.behind ⟨.keyword .else_, q⟩).suffix)).trans
                (hrest ▸ (first.behind ⟨.condition expr, p⟩).suffix)⟩
          | t :: _ => .error (.syntactic (.missingEndif (some t.kind)) t.position)
          | [] => .error (.syntactic (.missingEndif none) stop)
      | ⟨.keyword .endif, _⟩ :: ts₂ =>
        .ok ⟨.split expr first.value none, ts₂,
          (List.suffix_cons _ ts₂).trans (hrest ▸ (first.behind ⟨.condition expr, p⟩).suffix)⟩
      | t :: _ => .error (.syntactic (.badContinuation t.kind) t.position)
      | [] => .error (.syntactic .unclosedChoice start)
  | _ => .error (.syntactic (.missingCondition word) start)
termination_by ts.length
decreasing_by
  · -- the first branch
    simp
  · -- the selection of an `elif`
    have hle := first.length_le
    rw [hrest] at hle
    simp only [List.length_cons] at hle ⊢
    omega
  · -- the branch of an `else`
    have hle := first.length_le
    rw [hrest] at hle
    simp only [List.length_cons] at hle ⊢
    omega

/-- A branch of a selection. -/
def takeBranch (stop : Position) (ts : List Token) : Except Error (Taken (Option Offer) ts) :=
  match ts with
  | ⟨.string text, p⟩ :: ts₁ =>
    .ok (((takeDivert p.line ts₁).map fun divert => some (.line text divert)).behind
      ⟨.string text, p⟩)
  | ⟨.keyword .if_, p⟩ :: ts₁ =>
    (takeOffer stop .if_ p ts₁).map fun r => (r.map some).behind ⟨.keyword .if_, p⟩
  | ⟨.keyword word, p⟩ :: ts₁ => .ok (.nothing none (⟨.keyword word, p⟩ :: ts₁))
  | t :: _ => .error (.syntactic (.badBody t.kind) t.position)
  | [] => .error (.syntactic .missingBody stop)
termination_by ts.length

end

/-- A choice, from the token after its marker, which stands at `start`. -/
def takeChoice (stop start : Position) : (ts : List Token) → Except Error (Taken Statement ts)
  | ⟨.string text, p⟩ :: ts =>
    let conditions := takeConditions p.line ts
    let divert := takeDivert p.line conditions.rest
    .ok (((conditions.onward divert).map (.choice text conditions.value)).behind ⟨.string text, p⟩)
  | ⟨.keyword .if_, p⟩ :: ts =>
    (takeOffer stop .if_ p ts).map fun r => (r.map .offer).behind ⟨.keyword .if_, p⟩
  | t :: _ => .error (.syntactic (.badChoice (some t.kind)) t.position)
  | [] => .error (.syntactic (.badChoice none) start)

end Dialogue
