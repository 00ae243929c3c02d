import ShapeQuery.Proofs.Json.Agreement
import ShapeQuery.Proofs.Json.Tokens
import ShapeQuery.Proofs.RelatedLists

/-!
# Equality as an equivalence

Equality of JSON values can be turned round and chained.  The former takes distinct keys: of a key
that an object holds twice, only the first value is ever compared.
-/

namespace ShapeQuery

namespace Number

variable {number other third : Number}

theorem Equal.refl (number : Number) : number.Equal number := by
  cases number with
  | integer n => exact .integer n
  | float x => exact .float rfl

theorem Equal.symm (hnumbers : number.Equal other) : other.Equal number :=
  (hnumbers.congr number).mp (.refl number)

theorem Equal.trans (hfirst : number.Equal other) (hsecond : other.Equal third) :
    number.Equal third :=
  (hfirst.congr third).mpr hsecond

end Number

namespace Json

variable {value other third literal literal' : Json}

/-- Equal objects hold equal values under the same keys, in any order. -/
theorem Equal.matches_fields {fields others : List (String × Json)}
    (hdistinct : (Json.object fields).Distinct)
    (hequal : (Json.object fields).Equal (.object others)) :
    Assoc.Matches (fun value other => value.Distinct ∧ value.Equal other) fields others := by
  cases hdistinct with
  | object hfields hvalues =>
      cases hequal with
      | object hlength hkeys hequals =>
          exact .of_lookup hfields hlength hkeys fun field hfield other hother =>
            ⟨hvalues field hfield, hequals field hfield other hother⟩

/-- An attribute of equal values is missing from both of them, or it is held with equal values. -/
theorem Equal.field? (hdistinct : value.Distinct) (hequal : value.Equal other) (key : String) :
    Option.Rel (fun held other => held.Distinct ∧ held.Equal other) (value.field? key)
      (other.field? key) := by
  cases hequal with
  | object hlength hkeys hequals =>
      have hmatches := Equal.matches_fields hdistinct (.object hlength hkeys hequals)
      cases hdistinct with
      | object hfields _ => exact hmatches.lookup hfields key
  | _ => exact .none

/-- Objects with equal values under the same keys are equal, in whatever order. -/
theorem Equal.of_matches {fields others : List (String × Json)}
    (hdistinct : (fields.map Prod.fst).Nodup) (hmatches : Assoc.Matches Equal fields others) :
    (Json.object fields).Equal (.object others) := by
  have hperm := hmatches.perm_keys
  constructor
  · simpa using hperm.length_eq
  · exact fun field hfield => hperm.mem_iff.mp (List.mem_map_of_mem hfield)
  · intro field hfield other hother
    have hheld : fields.lookup field.1 = some field.2 :=
      (Assoc.mem_iff_lookup_eq_some hdistinct).mp hfield
    have hequal := hmatches.lookup hdistinct field.1
    rw [hheld, hother] at hequal
    cases hequal with
    | some hequal => exact hequal

/-- Equality goes both ways if no key is repeated, as a second value of a key is never looked up. -/
theorem Equal.symm (hdistinct : value.Distinct) (hequal : value.Equal other) :
    other.Equal value := by
  induction hdistinct generalizing other with
  | null =>
      cases hequal
      exact .null
  | bool truth =>
      cases hequal
      exact .bool truth
  | number number =>
      cases hequal with
      | number hnumbers => exact .number hnumbers.symm
  | string text =>
      cases hequal
      exact .string text
  | array _ ih =>
      cases hequal with
      | array hitems =>
          have hturned := forall₂_imp_of_mem (fun item hitem _ => ih item hitem) hitems
          exact .array hturned.flip
  | @object fields hdistinct _ ih =>
      cases hequal with
      | @object _ others hlength hkeys hequals =>
          have hmatches : Assoc.Matches (fun value other => other.Equal value) fields others :=
            .of_lookup hdistinct hlength hkeys fun field hfield other hother =>
              ih field hfield (hequals field hfield other hother)
          exact .of_matches (hmatches.perm_keys.nodup_iff.mp hdistinct) hmatches.flip

theorem Equal.trans (hfirst : value.Equal other) (hsecond : other.Equal third) :
    value.Equal third := by
  induction value using Json.induction generalizing other third with
  | null =>
      cases hfirst
      exact hsecond
  | bool truth =>
      cases hfirst
      exact hsecond
  | number number =>
      cases hfirst with
      | number hnumbers =>
          cases hsecond with
          | number hothers => exact .number (hnumbers.trans hothers)
  | string text =>
      cases hfirst
      exact hsecond
  | array items ih =>
      cases hfirst with
      | array hitems =>
          cases hsecond with
          | array hothers =>
              refine .array (forall₂_comp (forall₂_imp_of_mem ?_ hitems) hothers)
              exact fun item hitem other hequal third => ih item hitem hequal
  | object fields ih =>
      cases hfirst with
      | object hlength hkeys hequals =>
          cases hsecond with
          | object hlength' hkeys' hequals' =>
              refine .object (hlength.trans hlength') (fun field hfield => ?_)
                fun field hfield third hthird => ?_
              · obtain ⟨held, -, hheld⟩ := Assoc.exists_lookup_of_mem (hkeys field hfield)
                exact hkeys' (field.1, held) hheld
              · obtain ⟨held, hlookup, hheld⟩ := Assoc.exists_lookup_of_mem (hkeys field hfield)
                exact ih field hfield (hequals field hfield held hlookup)
                  (hequals' _ hheld third hthird)

theorem Equal.isStringOrNull_eq (hvalues : value.Equal other) :
    value.isStringOrNull = other.isStringOrNull := by
  cases hvalues <;> rfl

/-- Equal values pass a test for equality together, with equal values to compare them to. -/
theorem Equal.same_congr (hdistinct : value.Distinct) (hvalues : value.Equal other)
    (hliteral : literal.Distinct) (hliterals : literal.Equal literal') :
    value.same literal = other.same literal' := by
  rw [Bool.eq_iff_iff, same_iff, same_iff]
  constructor
  · intro hequal
    exact ((hvalues.symm hdistinct).trans hequal).trans hliterals
  · intro hequal
    exact (hvalues.trans hequal).trans (hliterals.symm hliteral)

end Json

end ShapeQuery
