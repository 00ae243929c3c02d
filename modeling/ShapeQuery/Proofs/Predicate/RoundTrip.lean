import ShapeQuery.Proofs.Predicate.Tokens

/-!
# Reading back the text of a predicate

The tokens of a predicate that does not join parts are read as an operand, and so are those
of any other in parentheses, which is how a predicate becomes part of another one.
-/

namespace ShapeQuery

namespace Formula

variable {tokens : List Token} {formula : Formula}

/-- The tokens are read as the next operand of any conjunction. -/
def ReadsOperand (tokens : List Token) (formula : Formula) : Prop :=
  ∀ disjuncts conjuncts outer, ∃ pieces,
    tokens.foldlM Reader.step ⟨⟨disjuncts, conjuncts, []⟩, outer⟩ =
        some ⟨⟨disjuncts, conjuncts, pieces⟩, outer⟩ ∧
      ofPieces? pieces.reverse = some formula

/-- The tokens are read as all that stands between two parentheses. -/
def ReadsLevel (tokens : List Token) (formula : Formula) : Prop :=
  ∀ outer, ∃ level, tokens.foldlM Reader.step ⟨.empty, outer⟩ = some ⟨level, outer⟩ ∧
    level.formula? = some formula

theorem ReadsOperand.readsLevel (htokens : ReadsOperand tokens formula) :
    ReadsLevel tokens formula := by
  intro outer
  obtain ⟨pieces, hfold, hpieces⟩ := htokens [] [] outer
  refine ⟨_, hfold, ?_⟩
  simp [Level.formula?, Level.disjuncts?, Level.conjuncts?, hpieces, allOf, anyOf]

/-- Behind a negation sign or at its start, an operand may be a level in parentheses. -/
theorem ReadsLevel.enclosed (htokens : ReadsLevel tokens formula) (level : Level)
    (hpieces : level.pieces = [] ∨ level.pieces = [.token .negation]) (outer : List Level) :
    (.opening :: (tokens ++ [.closing])).foldlM Reader.step ⟨level, outer⟩ =
      some ⟨level.push (.formula formula), outer⟩ := by
  obtain ⟨inner, hfold, hinner⟩ := htokens (level :: outer)
  have hopen : Reader.step ⟨level, outer⟩ .opening = some ⟨.empty, level :: outer⟩ := rfl
  have hclose : Reader.step ⟨inner, level :: outer⟩ .closing =
      some ⟨level.push (.formula formula), outer⟩ := by
    rcases hpieces with hpieces | hpieces <;>
      simp [Reader.step, Level.enclose?, Level.enclosed?, Level.push, hpieces, hinner]
  rw [foldlM_cons_of_eq_some hopen, foldlM_append_of_eq_some hfold, foldlM_cons_of_eq_some hclose]
  rfl

/-- Whatever stands in parentheses is an operand. -/
theorem ReadsLevel.readsOperand_enclosed (htokens : ReadsLevel tokens formula) :
    ReadsOperand (.opening :: (tokens ++ [.closing])) formula :=
  fun disjuncts conjuncts outer =>
    ⟨[.formula formula], htokens.enclosed ⟨disjuncts, conjuncts, []⟩ (.inl rfl) outer, rfl⟩

theorem ReadsLevel.readsOperand_not (htokens : ReadsLevel tokens formula) :
    ReadsOperand (.negation :: .opening :: (tokens ++ [.closing])) (.not formula) :=
  fun disjuncts conjuncts outer =>
    ⟨[.formula formula, .token .negation],
      htokens.enclosed ⟨disjuncts, conjuncts, [.token .negation]⟩ (.inr rfl) outer, rfl⟩

/-- Operands between conjunction signs join the conjunction that is being read. -/
theorem foldlM_conjunction {tokenLists : List (List Token)} {formulas : List Formula}
    (hparts : List.Forall₂ ReadsOperand tokenLists formulas) (hne : tokenLists ≠ [])
    (disjuncts conjuncts : List Formula) (outer : List Level) :
    ∃ level, ([Token.conjunction].intercalate tokenLists).foldlM Reader.step
        ⟨⟨disjuncts, conjuncts, []⟩, outer⟩ = some ⟨level, outer⟩ ∧
      level.disjuncts = disjuncts ∧ level.conjuncts? = some (formulas.reverse ++ conjuncts) := by
  induction hparts generalizing conjuncts with
  | nil => exact absurd rfl hne
  | @cons tokens formula tokenLists formulas hpart hparts ih =>
      obtain ⟨pieces, hfold, hpieces⟩ := hpart disjuncts conjuncts outer
      cases hparts with
      | nil =>
          rw [List.intercalate_singleton]
          refine ⟨_, hfold, rfl, ?_⟩
          rw [Level.conjuncts?, hpieces]
          rfl
      | @cons next nextFormula tokenLists formulas hnext hparts =>
          obtain ⟨level, hrest, hlevel, hconjuncts⟩ := ih (by simp) (formula :: conjuncts)
          have hoperator : Reader.step ⟨⟨disjuncts, conjuncts, pieces⟩, outer⟩ .conjunction =
              some ⟨⟨disjuncts, formula :: conjuncts, []⟩, outer⟩ := by
            simp [Reader.step, Level.conjuncts?, hpieces]
          refine ⟨level, ?_, hlevel, ?_⟩
          · rw [List.intercalate_cons_cons, List.append_assoc, foldlM_append_of_eq_some hfold,
              List.singleton_append, foldlM_cons_of_eq_some hoperator, hrest]
          · rw [hconjuncts]
            simp

/-- Operands between disjunction signs join the disjunction that is being read. -/
theorem foldlM_disjunction {tokenLists : List (List Token)} {formulas : List Formula}
    (hparts : List.Forall₂ ReadsOperand tokenLists formulas) (hne : tokenLists ≠ [])
    (disjuncts : List Formula) (outer : List Level) :
    ∃ level, ([Token.disjunction].intercalate tokenLists).foldlM Reader.step
        ⟨⟨disjuncts, [], []⟩, outer⟩ = some ⟨level, outer⟩ ∧
      level.disjuncts? = some (formulas.reverse ++ disjuncts) := by
  induction hparts generalizing disjuncts with
  | nil => exact absurd rfl hne
  | @cons tokens formula tokenLists formulas hpart hparts ih =>
      obtain ⟨pieces, hfold, hpieces⟩ := hpart disjuncts [] outer
      have hdisjuncts : Level.disjuncts? ⟨disjuncts, [], pieces⟩ =
          some (formula :: disjuncts) := by
        simp [Level.disjuncts?, Level.conjuncts?, hpieces, allOf]
      cases hparts with
      | nil =>
          rw [List.intercalate_singleton]
          exact ⟨_, hfold, hdisjuncts⟩
      | @cons next nextFormula tokenLists formulas hnext hparts =>
          obtain ⟨level, hrest, hlevel⟩ := ih (by simp) (formula :: disjuncts)
          have hoperator : Reader.step ⟨⟨disjuncts, [], pieces⟩, outer⟩ .disjunction =
              some ⟨⟨formula :: disjuncts, [], []⟩, outer⟩ := by
            simp [Reader.step, hdisjuncts]
          refine ⟨level, ?_, ?_⟩
          · rw [List.intercalate_cons_cons, List.append_assoc, foldlM_append_of_eq_some hfold,
              List.singleton_append, foldlM_cons_of_eq_some hoperator, hrest]
          · rw [hlevel]
            simp

theorem readsLevel_allOf {tokenLists : List (List Token)} {formulas : List Formula}
    (hparts : List.Forall₂ ReadsOperand tokenLists formulas) (hne : tokenLists ≠ []) :
    ReadsLevel ([Token.conjunction].intercalate tokenLists) (allOf formulas) := by
  intro outer
  obtain ⟨level, hfold, hdisjuncts, hconjuncts⟩ := foldlM_conjunction hparts hne [] [] outer
  refine ⟨level, hfold, ?_⟩
  simp [Level.formula?, Level.disjuncts?, hconjuncts, hdisjuncts, anyOf]

theorem readsLevel_anyOf {tokenLists : List (List Token)} {formulas : List Formula}
    (hparts : List.Forall₂ ReadsOperand tokenLists formulas) (hne : tokenLists ≠ []) :
    ReadsLevel ([Token.disjunction].intercalate tokenLists) (anyOf formulas) := by
  intro outer
  obtain ⟨level, hfold, hdisjuncts⟩ := foldlM_disjunction hparts hne [] outer
  refine ⟨level, hfold, ?_⟩
  simp [Level.formula?, hdisjuncts]

/-- A token that joins nothing and opens or closes nothing. -/
def Token.IsPlain : Token → Prop
  | .json _ => True
  | .comparison _ => True
  | _ => False

theorem foldlM_push (htokens : ∀ token ∈ tokens, token.IsPlain)
    (disjuncts conjuncts : List Formula) (pieces : List Piece) (outer : List Level) :
    tokens.foldlM Reader.step ⟨⟨disjuncts, conjuncts, pieces⟩, outer⟩ =
      some ⟨⟨disjuncts, conjuncts, (tokens.map .token).reverse ++ pieces⟩, outer⟩ := by
  induction tokens generalizing pieces with
  | nil => rfl
  | cons token rest ih =>
      obtain ⟨htoken, hrest⟩ := List.forall_mem_cons.mp htokens
      have hstep : Reader.step ⟨⟨disjuncts, conjuncts, pieces⟩, outer⟩ token =
          some ⟨⟨disjuncts, conjuncts, .token token :: pieces⟩, outer⟩ := by
        match token, htoken with
        | .json token, _ => rfl
        | .comparison comparison, _ => rfl
      rw [foldlM_cons_of_eq_some hstep, ih hrest]
      simp

theorem mapM_token? (tokens : List Token) :
    (tokens.map Piece.token).mapM Piece.token? = some tokens := by
  induction tokens with
  | nil => rfl
  | cons token rest ih => simp [Piece.token?, ih]

/-- Plain tokens are a test, and hold no negation. -/
theorem ofPieces?_plain (htokens : ∀ token ∈ tokens, token.IsPlain) :
    ofPieces? (tokens.map .token) = test? tokens := by
  have hlast : ofPieces? (tokens.map .token) =
      ((tokens.map Piece.token).mapM Piece.token?).bind test? := by
    match tokens, htokens with
    | [], _ => rfl
    | .json token :: rest, _ => rw [List.map_cons, ofPieces?] <;> simp
    | .comparison comparison :: rest, _ => rw [List.map_cons, ofPieces?] <;> simp
    | .negation :: rest, htokens => exact absurd (htokens _ List.mem_cons_self) id
    | .conjunction :: rest, htokens => exact absurd (htokens _ List.mem_cons_self) id
    | .disjunction :: rest, htokens => exact absurd (htokens _ List.mem_cons_self) id
    | .opening :: rest, htokens => exact absurd (htokens _ List.mem_cons_self) id
    | .closing :: rest, htokens => exact absurd (htokens _ List.mem_cons_self) id
  rw [hlast, mapM_token?, Option.bind_some]

theorem readsOperand_plain (htokens : ∀ token ∈ tokens, token.IsPlain)
    (htest : test? tokens = some formula) : ReadsOperand tokens formula := by
  intro disjuncts conjuncts outer
  refine ⟨_, foldlM_push htokens disjuncts conjuncts [] outer, ?_⟩
  rw [List.append_nil, List.reverse_reverse, ofPieces?_plain htokens, htest]

theorem readsOperand_constant (truth : Bool) :
    ReadsOperand [.word (toString truth).toList] (.constant truth) := by
  refine readsOperand_plain ?_ ?_
  · intro token htoken
    rw [List.mem_singleton.mp htoken]
    trivial
  · cases truth <;> rfl

/-- The test of presence becomes one piece, so a negation sign before it stays visible. -/
theorem foldlM_presence {field : String} (hfield : isName field.toList = true)
    (disjuncts conjuncts : List Formula) (pieces : List Piece) (outer : List Level) :
    [Token.word "defined".toList, .opening, .word field.toList, .closing].foldlM Reader.step
        ⟨⟨disjuncts, conjuncts, pieces⟩, outer⟩ =
      some ⟨⟨disjuncts, conjuncts, .presence field :: pieces⟩, outer⟩ := by
  have hname : Level.name? ⟨[], [], [.token (.word field.toList)]⟩ = some field := by
    simp only [Level.name?, Token.word, hfield, if_true, String.ofList_toList]
  have hpresence : Level.presence? ⟨[], [], [.token (.word field.toList)]⟩ "defined".toList =
      some field := by
    rw [Level.presence?, if_pos rfl, hname]
  have hclose : Level.enclose?
      ⟨disjuncts, conjuncts, .token (.word "defined".toList) :: pieces⟩
      ⟨[], [], [.token (.word field.toList)]⟩ =
        some ⟨disjuncts, conjuncts, .presence field :: pieces⟩ := by
    have henclosed : Level.enclosed? ⟨[], [], [.token (.word field.toList)]⟩
        (.token (.word "defined".toList) :: pieces) = some (.presence field :: pieces) := by
      simp only [Level.enclosed?, Token.word]
      rw [← Token.word, hpresence]
    rw [Level.enclose?, henclosed, Option.map_some]
  have hinner : [Token.word "defined".toList, .opening, .word field.toList].foldlM Reader.step
      ⟨⟨disjuncts, conjuncts, pieces⟩, outer⟩ =
        some ⟨⟨[], [], [.token (.word field.toList)]⟩,
          ⟨disjuncts, conjuncts, .token (.word "defined".toList) :: pieces⟩ :: outer⟩ := rfl
  have hsplit : [Token.word "defined".toList, .opening, .word field.toList, .closing] =
      [.word "defined".toList, .opening, .word field.toList] ++ [.closing] := rfl
  have houter : Reader.step ⟨⟨[], [], [.token (.word field.toList)]⟩,
      ⟨disjuncts, conjuncts, .token (.word "defined".toList) :: pieces⟩ :: outer⟩ .closing =
        some ⟨⟨disjuncts, conjuncts, .presence field :: pieces⟩, outer⟩ := by
    simp only [Reader.step, hclose, Option.map_some]
  rw [hsplit, foldlM_append_of_eq_some hinner, foldlM_cons_of_eq_some houter]
  rfl

theorem readsOperand_defined {field : String} (hfield : isName field.toList = true)
    (present : Bool) : ReadsOperand (Predicate.defined field present).tokens
      (.defined field present) := by
  intro disjuncts conjuncts outer
  cases present with
  | true => exact ⟨[.presence field], foldlM_presence hfield disjuncts conjuncts [] outer, rfl⟩
  | false =>
      exact ⟨[.presence field, .token .negation],
        foldlM_presence hfield disjuncts conjuncts [.token .negation] outer, rfl⟩

end Formula

open Formula (Token ReadsOperand ReadsLevel)

namespace Operand

variable {operand : Operand}

theorem isPlain_of_mem_tokens (operand : Operand) :
    ∀ token ∈ operand.tokens, token.IsPlain := by
  intro token htoken
  cases operand with
  | value literal =>
      obtain ⟨inner, -, rfl⟩ := List.mem_map.mp htoken
      trivial
  | parameter name =>
      rw [List.mem_singleton.mp htoken]
      trivial

/-- Numbers start with a digit or a minus sign. -/
theorem ofWord?_eq_none {first : Char} {rest : List Char} (hdigit : first.isDigit = false)
    (hsign : first ≠ '-') : Number.ofWord? (first :: rest) = none := by
  rw [Number.ofWord?.eq_def]
  split
  · next heq => exact absurd (List.cons.inj heq).1 hsign
  · simp [Number.readMagnitude, hdigit]

/-- No name is the first token of an operand. -/
theorem Readable.exists_tokens_eq_cons (hoperand : operand.Readable) :
    ∃ first rest, operand.tokens = first :: rest ∧
      ∀ letters, first = .word letters → isName letters = false := by
  have hword (word : List Char) (hreserved : word ∈ reservedWords) :
      ∀ letters, Token.word word = .word letters → isName letters = false := by
    rintro letters ⟨⟩
    rw [← Bool.not_eq_true]
    exact fun hname => not_reserved_of_isName hname hreserved
  cases hoperand with
  | @parameter name hname =>
      refine ⟨_, [], rfl, ?_⟩
      rintro letters ⟨⟩
      rw [← Bool.not_eq_true]
      intro hname
      obtain ⟨first, rest, hcons, hfirst⟩ := exists_cons_of_isName hname
      obtain ⟨rfl, -⟩ := List.cons.inj hcons
      exact absurd hfirst (by decide)
  | @value literal hliteral =>
      cases literal with
      | null => exact ⟨_, [], rfl, hword _ (by decide)⟩
      | bool truth =>
          cases truth with
          | true => exact ⟨_, [], rfl, hword _ (by decide)⟩
          | false => exact ⟨_, [], rfl, hword _ (by decide)⟩
      | number number =>
          refine ⟨_, [], rfl, ?_⟩
          rintro letters ⟨⟩
          rw [← Bool.not_eq_true]
          intro hname
          obtain ⟨first, rest, hcons, hfirst⟩ := exists_cons_of_isName hname
          have hread := number.ofWord?_text
          rw [hcons, ofWord?_eq_none] at hread
          · exact absurd hread (by simp)
          · rcases hfirst with halpha | rfl
            · exact isDigit_eq_false_of_isAlpha halpha
            · rfl
          · rintro rfl
            exact absurd hfirst (by decide)
      | string text => exact ⟨_, [], rfl, by simp [Token.word]⟩
      | array items => exact ⟨_, _, rfl, by simp [Token.word]⟩
      | object fields => exact ⟨_, _, rfl, by simp [Token.word]⟩

theorem mapM_json? (tokens : List Json.Token) :
    (tokens.map Token.json).mapM Token.json? = some tokens := by
  induction tokens with
  | nil => rfl
  | cons token rest ih => simp [Token.json?, ih]

/-- The tokens of an operand are read as the operand. -/
theorem Readable.operand?_tokens (hoperand : operand.Readable) :
    Formula.operand? operand.tokens = some operand := by
  cases hoperand with
  | @parameter name hname => simp [tokens, Formula.operand?, Token.word, hname]
  | @value literal hliteral =>
      have hread := Json.ofTokens?_tokens hliteral
      rw [tokens, Formula.operand?]
      · rw [mapM_json?, Option.bind_some, hread, Option.map_some]
      · intro name hname
        have hsingle : literal.tokens = [.word ('$' :: name)] := by
          refine List.map_injective_iff.mpr (fun first second heq => ?_) hname
          exact Formula.Token.json.inj heq
        have hword : Json.ofWord? ('$' :: name) = none := by
          have hnumber : Number.ofWord? ('$' :: name) = none :=
            ofWord?_eq_none rfl (by decide)
          rw [Json.ofWord?, if_neg (by simp), if_neg (by simp), if_neg (by simp), hnumber]
          rfl
        rw [hsingle] at hread
        simp [Json.ofTokens?, Json.Reader.step, Json.Reader.value, hword] at hread

end Operand

namespace Comparison

variable {field : String} {operand : Operand}

theorem constant?_eq_none {tokens : List Token} (htokens : 1 < tokens.length) :
    Formula.constant? tokens = none := by
  match tokens, htokens with
  | first :: second :: rest, _ => simp [Formula.constant?]

/-- No comparison of a name starts with anything else. -/
theorem comparing?_eq_none {first : Token} {rest : List Token}
    (hfirst : ∀ letters, first = .word letters → isName letters = false) :
    Formula.comparing? (first :: rest) = none := by
  unfold Formula.comparing?
  split
  · next letters operator operand htokens =>
      have hname := hfirst letters (List.cons.inj htokens).1
      simp [hname]
  · rfl

theorem test?_comparing {comparison : Comparison} {operator : Token}
    (hoperator : Formula.comparison? operator = some comparison)
    (hfield : isName field.toList = true) (hoperand : operand.Readable) :
    Formula.test? (.word field.toList :: operator :: operand.tokens) =
      some (.compare field comparison operand) := by
  have hconstant : Formula.constant? (.word field.toList :: operator :: operand.tokens) = none :=
    constant?_eq_none (by simp)
  rw [Formula.test?, hconstant, Option.none_or]
  simp [Formula.comparing?, Token.word, hfield, hoperator, hoperand.operand?_tokens]

theorem test?_containing (hfield : isName field.toList = true) (hoperand : operand.Readable) :
    Formula.test? (operand.tokens ++ [.word "in".toList, .word field.toList]) =
      some (.compare field .contains operand) := by
  obtain ⟨first, rest, hcons, hfirst⟩ := hoperand.exists_tokens_eq_cons
  have hconstant : Formula.constant? (operand.tokens ++
      [.word "in".toList, .word field.toList]) = none := constant?_eq_none (by simp)
  have hcomparing : Formula.comparing? (operand.tokens ++
      [.word "in".toList, .word field.toList]) = none := by
    rw [hcons, List.cons_append]
    exact comparing?_eq_none hfirst
  rw [Formula.test?, hconstant, hcomparing, Option.none_or, Option.none_or]
  simp [Formula.containing?, Token.word, hfield, hoperand.operand?_tokens]

/-- The tokens of a comparison are read as the comparison. -/
theorem test?_tokens (comparison : Comparison) (hfield : isName field.toList = true)
    (hoperand : operand.Readable) :
    Formula.test? (comparison.tokens field operand) =
      some (.compare field comparison operand) := by
  cases comparison with
  | contains => exact test?_containing hfield hoperand
  | _ => exact test?_comparing rfl hfield hoperand

theorem isPlain_of_mem_tokens (comparison : Comparison) :
    ∀ token ∈ comparison.tokens field operand, token.IsPlain := by
  have hoperand := operand.isPlain_of_mem_tokens
  intro token htoken
  cases comparison with
  | contains =>
      rcases List.mem_append.mp htoken with hmem | hmem
      · exact hoperand token hmem
      · rcases List.mem_cons.mp hmem with rfl | hmem
        · trivial
        · obtain rfl := List.mem_singleton.mp hmem
          trivial
  | _ =>
      rcases List.mem_cons.mp htoken with rfl | hmem
      · trivial
      · rcases List.mem_cons.mp hmem with rfl | hmem
        · trivial
        · exact hoperand token hmem

end Comparison

namespace Predicate

/-- Parts that join parts of their own are operands thanks to their parentheses. -/
theorem readsOperand_partTokens {parts : List Predicate}
    (hparts : ∀ part ∈ parts,
      (part.joinsParts = false → ReadsOperand part.tokens part.normal) ∧
        ReadsLevel part.tokens part.normal) :
    List.Forall₂ ReadsOperand (partTokens parts) (partNormals parts) := by
  induction parts with
  | nil => exact .nil
  | cons part rest ih =>
      obtain ⟨⟨hoperand, hlevel⟩, hrest⟩ := List.forall_mem_cons.mp hparts
      refine .cons ?_ (ih hrest)
      split
      · exact hlevel.readsOperand_enclosed
      · next hjoins => exact hoperand (by simpa using hjoins)

theorem length_partTokens (parts : List Predicate) :
    (partTokens parts).length = parts.length := by
  induction parts with
  | nil => rfl
  | cons part rest ih => rw [partTokens, List.length_cons, List.length_cons, ih]

/-- Without an operator between parts there is one operand, which may be the neutral word. -/
theorem reads_joinedTokens {operator : Token} (neutral : Bool) {join : List Formula → Formula}
    {tokenLists : List (List Token)} {formulas : List Formula}
    (hparts : List.Forall₂ ReadsOperand tokenLists formulas)
    (hempty : join [] = .constant neutral) (hsingle : ∀ formula, join [formula] = formula)
    (hlevel : tokenLists ≠ [] →
      ReadsLevel ([operator].intercalate tokenLists) (join formulas)) :
    (¬1 < tokenLists.length →
        ReadsOperand (joinedTokens operator (toString neutral) tokenLists) (join formulas)) ∧
      ReadsLevel (joinedTokens operator (toString neutral) tokenLists) (join formulas) := by
  cases hparts with
  | nil =>
      have hoperand := Formula.readsOperand_constant neutral
      rw [← hempty] at hoperand
      exact ⟨fun _ => hoperand, hoperand.readsLevel⟩
  | @cons tokens formula tokenLists formulas hpart hrest =>
      refine ⟨fun hshort => ?_, hlevel (by simp)⟩
      cases hrest with
      | nil =>
          rw [hsingle, joinedTokens]
          simpa using hpart
      | cons _ _ => exact absurd hshort (by simp)

/-- The tokens of a predicate are read as its formula: as an operand where the predicate does
not join parts, and between parentheses in any case. -/
theorem Readable.reads {predicate : Predicate} (hpredicate : predicate.Readable) :
    (predicate.joinsParts = false → ReadsOperand predicate.tokens predicate.normal) ∧
      ReadsLevel predicate.tokens predicate.normal := by
  induction predicate using Predicate.induction with
  | all parts ih =>
      cases hpredicate with
      | all hparts =>
          have hoperands := readsOperand_partTokens fun part hpart =>
            ih part hpart (hparts part hpart)
          have hreads := reads_joinedTokens true hoperands rfl (fun _ => rfl)
            (Formula.readsLevel_allOf hoperands)
          rw [length_partTokens] at hreads
          exact hreads.imp_left fun hoperand hjoins => hoperand (of_decide_eq_false hjoins)
  | any parts ih =>
      cases hpredicate with
      | any hparts =>
          have hoperands := readsOperand_partTokens fun part hpart =>
            ih part hpart (hparts part hpart)
          have hreads := reads_joinedTokens false hoperands rfl (fun _ => rfl)
            (Formula.readsLevel_anyOf hoperands)
          rw [length_partTokens] at hreads
          exact hreads.imp_left fun hoperand hjoins => hoperand (of_decide_eq_false hjoins)
  | not part ih =>
      cases hpredicate with
      | not hpart =>
          have hoperand := (ih hpart).2.readsOperand_not
          exact ⟨fun _ => hoperand, hoperand.readsLevel⟩
  | defined field present =>
      cases hpredicate with
      | defined _ hfield =>
          have hoperand := Formula.readsOperand_defined hfield present
          exact ⟨fun _ => hoperand, hoperand.readsLevel⟩
  | compare field comparison operand =>
      cases hpredicate with
      | compare _ hfield hoperand =>
          have htest := comparison.test?_tokens hfield hoperand
          have hoperand := Formula.readsOperand_plain comparison.isPlain_of_mem_tokens htest
          exact ⟨fun _ => hoperand, hoperand.readsLevel⟩
  | verbatim text => nomatch hpredicate

/-- The text of a predicate reads back as its formula, which is true whenever the predicate is. -/
theorem ofText?_groq {predicate : Predicate} (hpredicate : predicate.Readable) :
    Formula.ofText? predicate.groq = some predicate.normal ∧
      ∀ valuation, predicate.normal.holds valuation = predicate.holds valuation := by
  refine ⟨?_, fun valuation => holds_normal valuation predicate⟩
  obtain ⟨level, hfold, hlevel⟩ := hpredicate.reads.2 []
  rw [Formula.ofText?, Formula.tokens?_eq_some hpredicate.scans, Option.bind_some,
    Formula.ofTokens?, hfold, Option.bind_some]
  exact hlevel

/-- Strings that spell operators, a value with containers, lists of one part and of none. -/
theorem ofText?_groq_nested :
    let spelled := compare "a.b" .equal (.value (.string "\" || (x && "))
    let contained := compare "tags" .contains (.value (.object [("key", .array [.null])]))
    let predicate := all [any [spelled], any [defined "slug" false, all [],
      all [contained, compare "rank_2" .like (.parameter "pattern")]], .not (any [])]
    Formula.ofText? predicate.groq = some (.all
        [.compare "a.b" .equal (.value (.string "\" || (x && ")),
          .any [.defined "slug" false, .constant true,
            .all [.compare "tags" .contains (.value (.object [("key", .array [.null])])),
              .compare "rank_2" .like (.parameter "pattern")]],
          .not (.constant false)]) ∧
      ∀ valuation, predicate.normal.holds valuation = predicate.holds valuation := by
  intro spelled contained predicate
  have hempty : ∀ part ∈ ([] : List Predicate), part.Readable := fun _ hpart =>
    absurd hpart List.not_mem_nil
  have hspelled : spelled.Readable := .compare _ rfl (.value (.string _))
  have hcontained : contained.Readable := by
    refine .compare _ rfl (.value (.object (by simp) ?_))
    intro field hfield
    obtain rfl := List.mem_singleton.mp hfield
    refine .array fun item hitem => ?_
    obtain rfl := List.mem_singleton.mp hitem
    exact .null
  have hinner : ∀ part ∈ [contained, compare "rank_2" .like (.parameter "pattern")],
      part.Readable := by
    simp only [List.forall_mem_cons]
    exact ⟨hcontained, .compare _ rfl (.parameter rfl), hempty⟩
  apply ofText?_groq
  refine .all ?_
  simp only [List.forall_mem_cons]
  refine ⟨.any ?_, .any ?_, .not (.any hempty), hempty⟩
  · simp only [List.forall_mem_cons]
    exact ⟨hspelled, hempty⟩
  · simp only [List.forall_mem_cons]
    exact ⟨.defined _ rfl, .all hempty, .all hinner, hempty⟩

end Predicate

end ShapeQuery
