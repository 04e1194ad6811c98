import Dialogue.Proofs.Denotation
import Dialogue.Proofs.Parsing

/-!
# Scripts that are read are well formed

`wellFormedScript_of_readScript`: whatever source is read, the script is well formed.  The texts of
tokens belong to the classes of their kinds (`wellFormed_of_tokenize`), since each class says no
more than what the lexer looks at.  The rest is how the grammar puts tokens together: texts go from
tokens to trees as they are, and a conditional has the conditions behind its keyword.
-/

namespace Dialogue

/-! ### Tokens -/

namespace Lexer

open Text

theorem dropWhile_isBlank_ne_nil {cs : List Char} (h : ∃ c ∈ cs, isBlank c = false) :
    cs.dropWhile isBlank ≠ [] := by
  obtain ⟨c, hc, hblank⟩ := h
  intro hnil
  rw [List.dropWhile_eq_nil_iff.mp hnil c hc] at hblank
  cases hblank

/-- What is left of a text without the blanks at its ends. -/
theorem trim_spec {cs : List Char} (h : ∃ c ∈ cs, isBlank c = false) :
    trim cs ≠ [] ∧ (∀ c ∈ trim cs, c ∈ cs) ∧ (∀ c ∈ (trim cs).head?, isBlank c = false) ∧
      ∀ c ∈ (trim cs).getLast?, isBlank c = false := by
  let front := cs.dropWhile isBlank
  let back := front.reverse.dropWhile isBlank
  have hfront : ∀ c ∈ front.head?, isBlank c = false := head?_dropWhile
  have hback : back ≠ [] := by
    obtain ⟨c, rest, hcons⟩ := List.exists_cons_of_ne_nil (dropWhile_isBlank_ne_nil h)
    have hcons' : front = c :: rest := hcons
    exact dropWhile_isBlank_ne_nil
      ⟨c, by rw [hcons']; simp, hfront c (by rw [hcons']; rfl)⟩
  -- trimming at the end keeps the first character
  have hsame : back.getLast? = front.head? := by
    obtain ⟨taken, htaken⟩ := List.dropWhile_suffix isBlank (l := front.reverse)
    have hlast : (taken ++ back).getLast? = front.reverse.getLast? := congrArg _ htaken
    have hsome := List.getLast?_eq_some_getLast hback
    rw [List.getLast?_reverse, List.getLast?_append, hsome, Option.some_or] at hlast
    rw [hsome]
    exact hlast
  refine ⟨fun hnil => hback (List.reverse_eq_nil_iff.mp hnil), ?_, ?_, ?_⟩
  · intro c hc
    have hmem : c ∈ front.reverse := List.dropWhile_subset _ (List.mem_reverse.mp hc)
    exact List.dropWhile_subset _ (List.mem_reverse.mp hmem)
  · rw [trim, List.head?_reverse]
    rw [hsame]
    exact hfront
  · rw [trim, List.getLast?_reverse]
    exact head?_dropWhile

/-- The text of a token belongs to the class of its kind, if its lexeme stands on one line. -/
theorem Denotes.wellFormed {text : List Char} {kind : Token.Kind} (h : Denotes text kind)
    (hline : '\n' ∉ text) : kind.WellFormed := by
  cases h with
  | string _ => trivial
  | header _ _ _ hname => exact hname
  | divert htarget _ => exact htarget
  | marker => trivial
  | condition hstop hblank =>
    refine ⟨hstop, fun hmem => hline ?_, hblank⟩
    exact List.mem_cons_of_mem _ (List.mem_append_left _ hmem)
  | script hstop hblank =>
    obtain ⟨hne, htrim, hhead, hlast⟩ := trim_spec hblank
    rw [Token.Kind.WellFormed, IsCode, String.toList_ofList]
    refine ⟨fun hmem => hstop (htrim _ hmem), fun hmem => hline ?_, hne, hhead, hlast⟩
    exact List.mem_cons_of_mem _ (List.mem_append_left _ (htrim _ hmem))
  | actor hname => exact hname
  | keyword word => trivial
  | symbol hname => exact hname

/-- **The text of a token belongs to the class of its kind.** -/
theorem wellFormed_of_piece {atStart : Bool} {c : Char} {cs : List Char} {kind : Token.Kind}
    {more : Nat} (h : piece atStart c cs = .ok (.token kind more)) (hline : '\n' ∉ c :: cs) :
    kind.WellFormed := by
  obtain ⟨text, rest, rfl, -, hdenotes, -⟩ := piece_eq_token h
  refine hdenotes.wellFormed fun hmem => hline ?_
  rw [← List.cons_append]
  exact List.mem_append_left rest hmem

theorem wellFormed_of_lineTokens {line column : Nat} {cs : List Char} {ts : List Token}
    (h : lineTokens line column cs = .ok ts) (hline : '\n' ∉ cs) :
    ∀ t ∈ ts, t.kind.WellFormed := by
  fun_induction lineTokens line column cs generalizing ts with
  | case1 column =>
    cases h
    nofun
  | case2 column c cs fault hpiece => cases h
  | case3 column c cs more hpiece ih =>
    exact ih h fun hmem => hline (List.mem_cons_of_mem c (List.mem_of_mem_drop hmem))
  | case4 column c cs kind more hpiece e hrest ih => cases h
  | case5 column c cs kind more hpiece tokens hrest ih =>
    cases h
    have htokens := ih hrest fun hmem =>
      hline (List.mem_cons_of_mem c (List.mem_of_mem_drop hmem))
    exact List.forall_mem_cons.mpr ⟨wellFormed_of_piece hpiece hline, htokens⟩

theorem wellFormed_of_linesTokens {line : Nat} {ls : List (List Char)} {ts : List Token}
    (h : linesTokens line ls = .ok ts) (hlines : ∀ l ∈ ls, '\n' ∉ l) :
    ∀ t ∈ ts, t.kind.WellFormed := by
  fun_induction linesTokens line ls generalizing ts with
  | case1 line =>
    cases h
    nofun
  | case2 line l ls e hfirst => cases h
  | case3 line l ls tokens hfirst e hrest ih => cases h
  | case4 line l ls tokens hfirst more hrest ih =>
    cases h
    exact List.forall_mem_append.mpr
      ⟨wellFormed_of_lineTokens hfirst (hlines l List.mem_cons_self),
        ih hrest fun l' hl' => hlines l' (List.mem_cons_of_mem l hl')⟩

end Lexer

/-- A line does not contain the line feed that ends it. -/
theorem Text.newline_notMem_of_mem_lines {cs l : List Char} (h : l ∈ Text.lines cs) : '\n' ∉ l := by
  fun_induction Text.lines cs generalizing l with
  | case1 => cases h
  | case2 cs ih =>
    rcases List.mem_cons.mp h with rfl | h
    · nofun
    · exact ih h
  | case3 cs ih =>
    rcases List.mem_cons.mp h with rfl | h
    · nofun
    · exact ih h
  | case4 c cs hfeed hreturn hnil ih =>
    rw [List.mem_singleton.mp h, List.mem_singleton]
    exact fun heq => hfeed heq.symm
  | case5 c cs hfeed hreturn l' ls hcons ih =>
    rcases List.mem_cons.mp h with rfl | h
    · intro hmem
      rcases List.mem_cons.mp hmem with heq | hmem
      · exact hfeed heq.symm
      · exact ih (by rw [hcons]; exact List.mem_cons_self) hmem
    · exact ih (by rw [hcons]; exact List.mem_cons_of_mem l' h)

theorem wellFormed_of_tokenize {source : String} {ts : List Token}
    (h : tokenize source = .ok ts) : ∀ t ∈ ts, t.kind.WellFormed := by
  refine Lexer.wellFormed_of_linesTokens h ?_
  intro l hl
  rw [Text.scriptLines] at hl
  split at hl
  · cases hl
  · rename_i first rest hlines
    have hmem : ∀ l' ∈ first :: rest, '\n' ∉ l' := by
      intro l' hl'
      rw [← hlines] at hl'
      exact Text.newline_notMem_of_mem_lines hl'
    rcases List.mem_cons.mp hl with rfl | hl
    · exact fun hnl => hmem first List.mem_cons_self (List.dropWhile_subset _ hnl)
    · exact hmem l (List.mem_cons_of_mem first hl)

/-! ### Trees -/

open Grammar

/-- Tokens whose texts belong to the classes of their kinds. -/
def TokensWellFormed (ts : List Token) : Prop :=
  ∀ t ∈ ts, t.kind.WellFormed

theorem TokensWellFormed.tail {t : Token} {ts : List Token} (h : TokensWellFormed (t :: ts)) :
    TokensWellFormed ts :=
  fun t' ht' => h t' (List.mem_cons_of_mem t ht')

theorem TokensWellFormed.head {t : Token} {ts : List Token} (h : TokensWellFormed (t :: ts)) :
    t.kind.WellFormed :=
  h t List.mem_cons_self

namespace Grammar

theorem Conditions.wellFormed {line : Nat} {ts rest : List Token} {exprs : List String}
    (h : Conditions line ts exprs rest) (hts : TokensWellFormed ts) :
    (∀ e ∈ exprs, IsCondition e) ∧ TokensWellFormed rest := by
  induction h with
  | nil ts => exact ⟨nofun, hts⟩
  | cons _ _ ih =>
    obtain ⟨hexprs, hrest⟩ := ih hts.tail
    exact ⟨List.forall_mem_cons.mpr ⟨hts.head, hexprs⟩, hrest⟩

theorem Arguments.wellFormed {line : Nat} {ts rest : List Token} {args : List String}
    (h : Arguments line ts args rest) (hts : TokensWellFormed ts) : TokensWellFormed rest := by
  induction h with
  | nil ts => exact hts
  | symbol _ _ ih => exact ih hts.tail
  | string _ _ ih => exact ih hts.tail

theorem Jump.wellFormed {line : Nat} {ts rest : List Token} {divert : Option String}
    (h : Jump line ts divert rest) (hts : TokensWellFormed ts) :
    (∀ t ∈ divert, IsTarget t) ∧ TokensWellFormed rest := by
  cases h with
  | none => exact ⟨nofun, hts⟩
  | some _ =>
    refine ⟨?_, hts.tail⟩
    rintro _ ⟨⟩
    exact hts.head

mutual

theorem Selection.wellFormed : {ts rest : List Token} → {offer : Offer} →
    Selection ts offer rest → TokensWellFormed ts →
    (∃ c first second, offer = .split c first second ∧ offer.WellFormed) ∧ TokensWellFormed rest
  | _, _, _, .intro hfirst hsecond, hts => by
    obtain ⟨hwf₁, hts₁⟩ := hfirst.wellFormed hts.tail
    obtain ⟨hwf₂, hts₂⟩ := hsecond.wellFormed hts₁
    exact ⟨⟨_, _, _, rfl, .split hts.head hwf₁ hwf₂⟩, hts₂⟩

theorem SelectionTail.wellFormed : {ts rest : List Token} → {second : Option Offer} →
    SelectionTail ts second rest → TokensWellFormed ts →
    (∀ o ∈ second, o.WellFormed) ∧ TokensWellFormed rest
  | _, _, _, .elif h, hts => by
    obtain ⟨⟨_, _, _, _, hwf⟩, hrest⟩ := h.wellFormed hts.tail
    refine ⟨?_, hrest⟩
    rintro _ ⟨⟩
    exact hwf
  | _, _, _, .else_ h, hts => by
    obtain ⟨hwf, hrest⟩ := h.wellFormed hts.tail
    exact ⟨hwf, hrest.tail⟩
  | _, _, _, .endif, hts => ⟨nofun, hts.tail⟩

theorem Body.wellFormed : {ts rest : List Token} → {o? : Option Offer} → Body ts o? rest →
    TokensWellFormed ts → (∀ o ∈ o?, o.WellFormed) ∧ TokensWellFormed rest
  | _, _, _, .nothing _, hts => ⟨nofun, hts⟩
  | _, _, _, .line hjump, hts => by
    obtain ⟨hwf, hrest⟩ := hjump.wellFormed hts.tail
    refine ⟨?_, hrest⟩
    rintro _ ⟨⟩
    exact .line hwf
  | _, _, _, .selection h, hts => by
    obtain ⟨⟨_, _, _, _, hwf⟩, hrest⟩ := h.wellFormed hts.tail
    refine ⟨?_, hrest⟩
    rintro _ ⟨⟩
    exact hwf

end

theorem Simple.wellFormed {ts rest : List Token} {stmt : Statement} (h : Simple ts stmt rest)
    (hts : TokensWellFormed ts) : stmt.WellFormed ∧ TokensWellFormed rest := by
  cases h with
  | speech _ => exact ⟨.speech hts.head, hts.tail.tail⟩
  | divert => exact ⟨.divert hts.head, hts.tail⟩
  | script => exact ⟨.script hts.head, hts.tail⟩
  | call hargs _ => exact ⟨.call hts.head, hargs.wellFormed hts.tail⟩
  | choice hconds _ hjump _ =>
    obtain ⟨hexprs, hts'⟩ := hconds.wellFormed hts.tail.tail
    obtain ⟨htarget, hrest⟩ := hjump.wellFormed hts'
    exact ⟨.choice hexprs htarget, hrest⟩
  | offer hselection =>
    obtain ⟨⟨_, _, _, rfl, hwf⟩, hrest⟩ := hselection.wellFormed hts.tail.tail
    exact ⟨.offer hwf, hrest⟩

mutual

theorem Block.wellFormed : {ts rest : List Token} → {stmts : List Statement} →
    Block ts stmts rest → TokensWellFormed ts →
    (∀ stmt ∈ stmts, stmt.WellFormed) ∧ TokensWellFormed rest
  | _, _, _, .nil _, hts => ⟨nofun, hts⟩
  | _, _, _, .cons hfirst hrest, hts => by
    obtain ⟨hwf₁, hts₁⟩ := hfirst.wellFormed hts
    obtain ⟨hwf₂, hts₂⟩ := hrest.wellFormed hts₁
    exact ⟨List.forall_mem_cons.mpr ⟨hwf₁, hwf₂⟩, hts₂⟩

theorem Stmt.wellFormed : {ts rest : List Token} → {stmt : Statement} → Stmt ts stmt rest →
    TokensWellFormed ts → stmt.WellFormed ∧ TokensWellFormed rest
  | _, _, _, .simple h, hts => h.wellFormed hts
  | _, _, _, .conditional h, hts => h.wellFormed hts.tail

theorem Conditional.wellFormed : {line : Nat} → {ts rest : List Token} → {stmt : Statement} →
    Conditional line ts stmt rest → TokensWellFormed ts →
    stmt.WellFormed ∧ TokensWellFormed rest
  | _, _, _, _, .intro hconds hne hfirst hsecond, hts => by
    obtain ⟨hexprs, hts₁⟩ := hconds.wellFormed hts
    obtain ⟨hwf₁, hts₂⟩ := hfirst.wellFormed hts₁
    obtain ⟨hwf₂, hts₃⟩ := hsecond.wellFormed hts₂
    exact ⟨.conditional hne hexprs hwf₁ hwf₂, hts₃⟩

theorem ConditionalTail.wellFormed : {ts rest : List Token} → {second : List Statement} →
    ConditionalTail ts second rest → TokensWellFormed ts →
    (∀ stmt ∈ second, stmt.WellFormed) ∧ TokensWellFormed rest
  | _, _, _, .elif h, hts => by
    obtain ⟨hwf, hrest⟩ := h.wellFormed hts.tail
    exact ⟨List.forall_mem_singleton.mpr hwf, hrest⟩
  | _, _, _, .else_ h, hts => by
    obtain ⟨hwf, hrest⟩ := h.wellFormed hts.tail
    exact ⟨hwf, hrest.tail⟩
  | _, _, _, .endif, hts => ⟨nofun, hts.tail⟩

end

theorem Headed.wellFormed {ts : List Token} {segments : List Segment} (h : Headed ts segments)
    (hts : TokensWellFormed ts) :
    ∀ s ∈ segments, IsSegmentName s.name ∧ ∀ stmt ∈ s.children, stmt.WellFormed := by
  induction h with
  | nil => nofun
  | cons hblock _ ih =>
    obtain ⟨hwf, hrest⟩ := hblock.wellFormed hts.tail
    exact List.forall_mem_cons.mpr ⟨⟨hts.head, hwf⟩, ih hrest⟩

theorem Script.wellFormed {ts : List Token} {segments : List Segment} (h : Script ts segments)
    (hts : TokensWellFormed ts) : WellFormedScript segments := by
  obtain ⟨lead, rest, headed, hblock, hheaded, rfl⟩ := h
  obtain ⟨hlead, hrest⟩ := hblock.wellFormed hts
  have hsegments := hheaded.wellFormed hrest
  cases lead with
  | nil =>
    refine ⟨?_, ?_, ?_⟩
    · intro s hs
      exact .inl (hsegments s (List.mem_of_head? hs)).1
    · intro s hs
      exact (hsegments s (List.mem_of_mem_tail hs)).1
    · intro s hs
      exact (hsegments s hs).2
  | cons stmt stmts =>
    refine ⟨?_, ?_, ?_⟩
    · rintro _ ⟨⟩
      exact .inr ⟨rfl, List.cons_ne_nil _ _⟩
    · intro s hs
      exact (hsegments s hs).1
    · exact List.forall_mem_cons.mpr ⟨hlead, fun s hs => (hsegments s hs).2⟩

end Grammar

/-- **Every script that is read is well formed.** -/
theorem wellFormedScript_of_readScript {name source : String} {segments : List Segment}
    (h : readScript name source = .ok segments) : WellFormedScript segments := by
  obtain ⟨ts, hts, hparse⟩ := readScript_eq_ok_iff.mp h
  exact (script_of_parse hparse).wellFormed (wellFormed_of_tokenize hts)

end Dialogue
