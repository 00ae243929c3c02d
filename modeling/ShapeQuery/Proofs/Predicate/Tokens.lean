import ShapeQuery.Predicate.Text
import ShapeQuery.Proofs.Predicate.Normal
import ShapeQuery.Proofs.Predicate.Words

/-!
# Tokens of predicates

The text of a predicate is scanned as its tokens, whatever its strings spell.
-/

namespace ShapeQuery

open Formula (Token Scans ScansAlone Stops)

def Operand.tokens : Operand → List Token
  | .value literal => literal.tokens.map .json
  | .parameter name => [.word ('$' :: name.toList)]

def Comparison.token : Comparison → Token
  | .like => .word "match".toList
  | .elementOf => .word "in".toList
  | .contains => .word "in".toList
  | comparison => .comparison comparison

def Comparison.tokens (comparison : Comparison) (field : String) (operand : Operand) :
    List Token :=
  match comparison with
  | .contains => operand.tokens ++ [comparison.token, .word field.toList]
  | _ => .word field.toList :: comparison.token :: operand.tokens

namespace Predicate

/-- Joins the tokens of parts; without parts there is the neutral word. -/
def joinedTokens (operator : Token) (neutral : String) (parts : List (List Token)) : List Token :=
  if parts.isEmpty then [.word neutral.toList] else [operator].intercalate parts

mutual

def tokens : Predicate → List Token
  | .all parts => joinedTokens .conjunction "true" (partTokens parts)
  | .any parts => joinedTokens .disjunction "false" (partTokens parts)
  | .not part => .negation :: .opening :: (part.tokens ++ [.closing])
  | .defined field true => [.word "defined".toList, .opening, .word field.toList, .closing]
  | .defined field false =>
      [.negation, .word "defined".toList, .opening, .word field.toList, .closing]
  | .compare field comparison operand => comparison.tokens field operand
  | .verbatim _ => []

def partTokens : List Predicate → List (List Token)
  | [] => []
  | part :: parts =>
      (if part.joinsParts then .opening :: (part.tokens ++ [.closing]) else part.tokens) ::
        partTokens parts

end

end Predicate

theorem Operand.Readable.scans {operand : Operand} (hoperand : operand.Readable) :
    Scans operand.text.toList operand.tokens := by
  cases hoperand with
  | @value literal hliteral => exact Formula.scans_json literal
  | @parameter name hname =>
      have htext : (Operand.parameter name).text.toList = '$' :: name.toList := by
        rw [Operand.text, String.toList_append]
        rfl
      rw [htext]
      exact Formula.scans_parameter hname

theorem Comparison.scansAlone_symbol (comparison : Comparison) :
    ScansAlone (" ".toList ++ comparison.symbol.toList ++ " ".toList) [comparison.token] := by
  intro held rest
  cases comparison <;> rfl

theorem Comparison.stops_symbol (comparison : Comparison) :
    Stops (" ".toList ++ comparison.symbol.toList ++ " ".toList) := by
  rintro c ⟨⟩
  rfl

/-- A comparison is scanned as name, operator and operand. -/
theorem Comparison.scans {field : String} (comparison : Comparison) {operand : Operand}
    (hfield : isName field.toList = true) (hoperand : operand.Readable) :
    Scans (comparison.text field operand).toList (comparison.tokens field operand) := by
  have hsymbol := comparison.scansAlone_symbol
  have hstops := comparison.stops_symbol
  have hbefore := (Formula.scans_name hfield).append_alone hsymbol hstops (by simp)
  have hafter := (hbefore.append_scans hoperand.scans)
  have hreverse := (hoperand.scans.append_alone hsymbol hstops (by simp)).append_scans
    (Formula.scans_name hfield)
  cases comparison with
  | contains => simpa [Comparison.text, Comparison.tokens] using hreverse
  | _ => simpa [Comparison.text, Comparison.tokens] using hafter

namespace Predicate

/-- Joined texts are scanned with the token of the operator between those of the parts. -/
theorem scans_joined {operator neutral : String} {token : Token} {texts : List String}
    {tokenLists : List (List Token)}
    (htexts : List.Forall₂ Scans (texts.map String.toList) tokenLists)
    (hoperator : ScansAlone (" " ++ operator ++ " ").toList [token])
    (hneutral : Scans neutral.toList [.word neutral.toList]) :
    Scans (joined operator neutral texts).toList (joinedTokens token neutral tokenLists) := by
  cases texts with
  | nil =>
      cases htexts
      exact hneutral
  | cons text rest =>
      have hstops : Stops (" " ++ operator ++ " ").toList := by
        rw [String.toList_append, String.toList_append]
        rintro c ⟨⟩
        rfl
      have hne : (" " ++ operator ++ " ").toList ≠ [] := by simp
      have hscans := Formula.scans_intercalate htexts hoperator hstops hne
      cases htexts with
      | cons htext hrest => simpa [joined, joinedTokens] using hscans

theorem scans_enclosed {text : String} {tokens : List Token} (htext : Scans text.toList tokens) :
    ScansAlone ("(" ++ text ++ ")").toList (.opening :: (tokens ++ [.closing])) := by
  have hopen := Formula.scansAlone_bracket '(' rfl
  rw [String.toList_append, String.toList_append, List.append_assoc]
  exact hopen.append (htext.append_bracket ')' rfl)

theorem scans_partTexts {parts : List Predicate}
    (hparts : ∀ part ∈ parts, Scans part.groq.toList part.tokens) :
    List.Forall₂ Scans ((partTexts parts).map String.toList) (partTokens parts) := by
  induction parts with
  | nil => exact .nil
  | cons part rest ih =>
      obtain ⟨hpart, hrest⟩ := List.forall_mem_cons.mp hparts
      refine .cons ?_ (ih hrest)
      split
      · exact (scans_enclosed hpart).scans
      · exact hpart

/-- The text of a predicate is scanned as its tokens. -/
theorem Readable.scans {predicate : Predicate} (hpredicate : predicate.Readable) :
    Scans predicate.groq.toList predicate.tokens := by
  induction predicate using Predicate.induction with
  | all parts ih =>
      cases hpredicate with
      | all hparts =>
          have htexts := scans_partTexts fun part hpart => ih part hpart (hparts part hpart)
          exact scans_joined htexts (fun held rest => rfl) (Formula.scans_keyword ⟨rfl, rfl⟩)
  | any parts ih =>
      cases hpredicate with
      | any hparts =>
          have htexts := scans_partTexts fun part hpart => ih part hpart (hparts part hpart)
          exact scans_joined htexts (fun held rest => rfl) (Formula.scans_keyword ⟨rfl, rfl⟩)
  | not part ih =>
      cases hpredicate with
      | not hpart =>
          have hsign : ScansAlone "!(".toList [.negation, .opening] := fun held rest => rfl
          rw [groq, String.toList_append, String.toList_append, List.append_assoc]
          exact (hsign.append ((ih hpart).append_bracket ')' rfl)).scans
  | defined field present =>
      cases hpredicate with
      | defined _ hfield =>
          have hfunction : Scans "defined".toList [.word "defined".toList] :=
            Formula.scans_keyword ⟨rfl, rfl⟩
          have hstops : Stops ("(" ++ field ++ ")").toList := by
            rw [String.toList_append, String.toList_append]
            rintro c ⟨⟩
            rfl
          have hfield := scans_enclosed (Formula.scans_name hfield)
          cases present with
          | true =>
              have htest := hfunction.append_alone hfield hstops (by simp)
              have htext : (groq (.defined field true)).toList =
                  "defined".toList ++ ("(" ++ field ++ ")").toList := by
                simp [groq]
              rw [htext]
              exact htest.scans
          | false =>
              have hsign : Scans "!defined".toList [.negation, .word "defined".toList] :=
                fun held rest hrest => hfunction (.negation :: held) rest hrest
              have htest := hsign.append_alone hfield hstops (by simp)
              have htext : (groq (.defined field false)).toList =
                  "!defined".toList ++ ("(" ++ field ++ ")").toList := by
                simp [groq]
              rw [htext]
              exact htest.scans
  | compare field comparison operand =>
      cases hpredicate with
      | compare _ hfield hoperand => exact comparison.scans hfield hoperand
  | verbatim text => nomatch hpredicate

end Predicate

end ShapeQuery
