import ShapeQuery.Proofs.Validation.Conformance
import ShapeQuery.Proofs.Validation.Issues
import ShapeQuery.Proofs.Validation.Pointers

/-!
# Issues point at mismatches

An issue is true of a value when its path leads to a part of the value that is not what the message
asks for, or when it misses an attribute that is indeed not there.  Every issue that a check
reports is true of the value that was checked.
-/

namespace ShapeQuery

namespace Json

/-- The words that messages say with what kind of value, or what else, was expected. -/
def kindWords : List String :=
  ["boolean", "number", "integer", "string", "object", "array", "union value", "required property"]

/-- The characters that numbers, strings, arrays and objects are written with at first. -/
def isOpening (c : Char) : Bool :=
  c.isDigit || ['.', 'e', '+', '-', '"', '[', '\x7b'].contains c

/-- Constants are written with letters, all other values start otherwise. -/
theorem text_cases (value : Json) : value = .null ∨ value.text ∈ ["true", "false"] ∨
    value.text.toList.head?.all isOpening = true := by
  cases value with
  | null => exact .inl rfl
  | bool truth => cases truth <;> exact .inr (.inl (by decide))
  | number number =>
      apply Or.inr ∘ Or.inr
      rw [Option.all_eq_true]
      intro c hc
      cases Number.mem_text (List.mem_of_mem_head? hc) with
      | inl hdigit => simp [isOpening, hdigit]
      | inr hmark =>
          simp only [List.mem_cons, List.not_mem_nil, or_false] at hmark
          rcases hmark with rfl | rfl | rfl | rfl <;> decide
  | string text =>
      apply Or.inr ∘ Or.inr
      rw [Json.text, Quoted.encode, String.toList_ofList]
      rfl
  | array items =>
      apply Or.inr ∘ Or.inr
      rw [text, String.toList_append, String.toList_append]
      rfl
  | object fields =>
      apply Or.inr ∘ Or.inr
      rw [text, String.toList_append, String.toList_append]
      rfl

theorem eq_null_of_text_eq {value : Json} (htext : value.text = "null") : value = .null := by
  rcases value.text_cases with hnull | hconstant | hopening
  · exact hnull
  · rw [htext] at hconstant
    exact absurd hconstant (by decide)
  · rw [htext] at hopening
    exact absurd hopening (by decide)

/-- No value is written like one of these words. -/
theorem text_not_mem_kindWords (value : Json) : value.text ∉ kindWords := by
  intro hword
  rcases value.text_cases with rfl | hconstant | hopening
  · exact absurd hword (by decide)
  · have hwords : ∀ word ∈ kindWords, word ∉ ["true", "false"] := by decide
    exact hwords _ hword hconstant
  · have hwords : ∀ word ∈ kindWords, word.toList.head?.all isOpening = false := by decide
    rw [hwords _ hword] at hopening
    exact Bool.false_ne_true hopening

/-- A message about a literal does not ask for an attribute. -/
theorem expected_ne_required (literal : Json) :
    "Expected " ++ literal.text ≠ "Expected required property" := by
  intro heq
  have hword : literal.text = "required property" :=
    (String.append_right_inj "Expected ").mp heq
  exact literal.text_not_mem_kindWords (hword ▸ by decide)

/-- A pointer that leads to an attribute that is not there: without its last segment, it leads to
an object with no attribute of that name. -/
def Lacks (value : Json) (path : String) : Prop :=
  ∃ keys key fields, Pointer.keys? path = some (keys ++ [key]) ∧
    value.walk? keys = some (.object fields) ∧ fields.lookup key = none

/-- What a part lacks, the value lacks further down. -/
theorem Lacks.child {value part : Json} {key path : String} (hpart : value.part? key = some part)
    (hpath : part.Lacks path) : value.Lacks (Pointer.child "" key ++ path) := by
  obtain ⟨keys, last, fields, hkeys, hwalk, hlast⟩ := hpath
  refine ⟨key :: keys, last, fields, Pointer.keys?_child_append hkeys key, ?_, hlast⟩
  exact (walk?_cons hpart keys).trans hwalk

theorem Lacks.of_lookup {fields : List (String × Json)} {key : String}
    (hkey : fields.lookup key = none) : (object fields).Lacks (Pointer.child "" key ++ "") :=
  ⟨[], key, fields, Pointer.keys?_child_append Pointer.keys?_empty key, rfl, hkey⟩

end Json

namespace Issue

/-- What a message says about the value that it is about. -/
def Says (message : String) (value : Json) : Prop :=
  match message with
  | "Expected null" => value ≠ .null
  | "Expected boolean" => ∀ truth, value ≠ .bool truth
  | "Expected number" => ∀ number, value ≠ .number number
  | "Expected integer" => ∀ number, number.Integral → value ≠ .number number
  | "Expected string" => ∀ text, value ≠ .string text
  | "Expected object" => ∀ fields, value ≠ .object fields
  | "Expected array" => ∀ items, value ≠ .array items
  | "Expected union value" => True
  | message => ∃ literal : Json, message = "Expected " ++ literal.text ∧ ¬value.Equal literal

theorem says_union (value : Json) : Says "Expected union value" value := trivial

/-- A literal is asked for where the value is not equal to it. -/
theorem says_literal {value literal : Json} (hvalue : ¬value.Equal literal) :
    Says ("Expected " ++ literal.text) value := by
  have hword : "Expected " ++ literal.text ∉ Json.kindWords.map ("Expected " ++ ·) := by
    intro hmem
    obtain ⟨word, hword, heq⟩ := List.mem_map.mp hmem
    rw [(String.append_right_inj _).mp heq] at hword
    exact literal.text_not_mem_kindWords hword
  unfold Says
  split
  case h_1 hnull =>
    obtain rfl := Json.eq_null_of_text_eq ((String.append_right_inj "Expected ").mp hnull)
    rintro rfl
    exact hvalue .null
  case h_8 => trivial
  case h_9 => exact ⟨literal, rfl, hvalue⟩
  -- The other messages name a kind, which no literal is written like.
  all_goals
    next heq => exact absurd (by rw [heq]; decide) hword

/-- An issue that is right about a value: the attribute that it misses is not there, or the part
that it leads to is there and is not what was expected. -/
def TrueOf (issue : Issue) (value : Json) : Prop :=
  if issue.message = "Expected required property" then value.Lacks issue.path
  else ∃ part, value.at? issue.path = some part ∧ Says issue.message part

variable {issue : Issue} {value part : Json} {message key : String}

/-- What is true of a part is true of the whole under the key of the part. -/
theorem TrueOf.below (hpart : value.part? key = some part) (hissue : issue.TrueOf part) :
    (issue.below (Pointer.child "" key)).TrueOf value := by
  unfold TrueOf at hissue ⊢
  split at hissue
  · next hmissing =>
      rw [if_pos (show (issue.below _).message = _ from hmissing)]
      exact Json.Lacks.child hpart hissue
  · next hother =>
      rw [if_neg (show (issue.below _).message ≠ _ from hother)]
      obtain ⟨target, htarget, hsaid⟩ := hissue
      exact ⟨target, Json.at?_child hpart htarget, hsaid⟩

theorem trueOf_of_says (hmessage : message ≠ "Expected required property")
    (hsaid : Says message value) : TrueOf ⟨"", message⟩ value := by
  rw [TrueOf, if_neg hmessage]
  exact ⟨value, Json.at?_empty value, hsaid⟩

theorem trueOf_of_mem_singleton (hmessage : message ≠ "Expected required property")
    (hsaid : Says message value) (hissue : issue ∈ [⟨"", message⟩]) : issue.TrueOf value := by
  obtain rfl := List.mem_singleton.mp hissue
  exact trueOf_of_says hmessage hsaid

/-- An attribute is reported missing where it is. -/
theorem trueOf_missing {fields : List (String × Json)} (hkey : fields.lookup key = none) :
    (below (Pointer.child "" key) ⟨"", "Expected required property"⟩).TrueOf (.object fields) := by
  exact (if_pos rfl).mpr (Json.Lacks.of_lookup hkey)

theorem trueOf_of_mem_failing {holds : Bool} (hmessage : message ≠ "Expected required property")
    (hsaid : holds = false → Says message value) (hissue : issue ∈ failing holds message) :
    issue.TrueOf value := by
  obtain ⟨hfails, rfl⟩ := mem_failing.mp hissue
  exact trueOf_of_says hmessage (hsaid hfails)

/-- What is true of a part is true of the value, one step further down. -/
theorem trueOf_of_mem_under (hpart : value.part? key = some part) {issues : List Issue}
    (hissues : ∀ inner ∈ issues, inner.TrueOf part) (hissue : issue ∈ under key issues) :
    issue.TrueOf value := by
  obtain ⟨inner, hinner, rfl⟩ := mem_under.mp hissue
  exact (hissues inner hinner).below hpart

theorem trueOf_of_mem_ofKey {item : Json} (hissue : issue ∈ ofKey item) : issue.TrueOf item := by
  unfold ofKey at hissue
  split at hissue
  · next held hheld =>
      have hpart : item.part? "_key" = some held := by
        cases item with
        | object fields => exact hheld
        | _ => exact absurd hheld.symm (Option.some_ne_none held)
      refine trueOf_of_mem_under hpart (fun inner hinner => ?_) hissue
      refine trueOf_of_mem_failing (by decide) (fun hfails => ?_) hinner
      rintro text rfl
      exact Bool.false_ne_true hfails.symm
  · exact absurd hissue List.not_mem_nil

end Issue

def Node.Truthful (schema : Node) : Prop :=
  ∀ value : Json, value.Distinct → ∀ issue ∈ schema.check value, issue.TrueOf value

namespace Issue

variable {issue : Issue} {value : Json} {node element : Node}

theorem trueOf_of_mem_ofItems (helement : element.Truthful) {keyed : Bool}
    (hvalue : value.Distinct) (hissue : issue ∈ ofItems element keyed value) :
    issue.TrueOf value := by
  cases hvalue with
  | array hitems =>
      obtain ⟨entry, hentry, hunder⟩ := List.mem_flatMap.mp hissue
      refine trueOf_of_mem_under (Json.part?_item hentry) (fun inner hinner => ?_) hunder
      cases List.mem_append.mp hinner with
      | inl hinner =>
          exact helement entry.1 (hitems _ (List.fst_mem_of_mem_zipIdx hentry)) inner hinner
      | inr hinner =>
          split at hinner
          · exact trueOf_of_mem_ofKey hinner
          · exact absurd hinner List.not_mem_nil
  | _ => exact trueOf_of_mem_singleton (by decide) (fun _ => nofun) hissue

theorem trueOf_of_mem_ofFields (hitem : node.Truthful) (hvalue : value.Distinct)
    (hissue : issue ∈ ofFields node value) : issue.TrueOf value := by
  cases hvalue with
  | object hkeys hfields =>
      obtain ⟨field, hfield, hunder⟩ := List.mem_flatMap.mp hissue
      exact trueOf_of_mem_under (Json.part?_field hkeys hfield)
        (hitem field.2 (hfields field hfield)) hunder
  | _ => exact trueOf_of_mem_singleton (by decide) (fun _ => nofun) hissue

/-- Of an object with distinct keys, only what holds of its attributes is reported. -/
theorem trueOf_of_mem_ofProperties {properties : List (String × Node)}
    (hproperties : ∀ property ∈ properties, property.2.Truthful) (hvalue : value.Distinct)
    (hissue : issue ∈ ofProperties properties value) : issue.TrueOf value := by
  cases hvalue with
  | @object fields hkeys hfields =>
      obtain ⟨property, hproperty, hunder⟩ := List.mem_flatMap.mp hissue
      cases hheld : fields.lookup property.1 with
      | some held =>
          have hdistinct : held.Distinct :=
            hfields (property.1, held) ((Assoc.mem_iff_lookup_eq_some hkeys).mpr hheld)
          rw [hheld] at hunder
          exact trueOf_of_mem_under hheld (hproperties property hproperty held hdistinct) hunder
      | none =>
          rw [hheld] at hunder
          obtain ⟨inner, hinner, rfl⟩ := mem_under.mp hunder
          obtain ⟨-, rfl⟩ := mem_failing.mp hinner
          exact trueOf_missing hheld
  | _ => exact trueOf_of_mem_singleton (by decide) (fun _ => nofun) hissue

end Issue

namespace Node

theorem truthful_leaf {id : Identity} {shape : Shape}
    (hchildren : ∀ child ∈ shape.children, child.Truthful) :
    (mk id (.leaf shape)).Truthful := by
  intro value hvalue issue hissue
  cases shape with
  | unknown => exact absurd hissue List.not_mem_nil
  | null =>
      rw [check_null] at hissue
      refine Issue.trueOf_of_mem_failing (by decide) ?_ hissue
      rintro hfails rfl
      exact Bool.false_ne_true hfails.symm
  | boolean =>
      rw [check_boolean] at hissue
      refine Issue.trueOf_of_mem_failing (by decide) ?_ hissue
      rintro hfails truth rfl
      exact Bool.false_ne_true hfails.symm
  | number =>
      rw [check_number] at hissue
      refine Issue.trueOf_of_mem_failing (by decide) ?_ hissue
      rintro hfails number rfl
      exact Bool.false_ne_true hfails.symm
  | integer =>
      rw [check_integer] at hissue
      refine Issue.trueOf_of_mem_failing (by decide) ?_ hissue
      rintro hfails number hintegral rfl
      exact Bool.false_ne_true (hfails.symm.trans (number.isWhole_iff.mpr hintegral))
  | string =>
      rw [check_string] at hissue
      refine Issue.trueOf_of_mem_failing (by decide) ?_ hissue
      rintro hfails text rfl
      exact Bool.false_ne_true hfails.symm
  | literal literal =>
      rw [check_literal] at hissue
      refine Issue.trueOf_of_mem_failing literal.expected_ne_required (fun hfails => ?_) hissue
      refine Issue.says_literal fun hequal => ?_
      exact Bool.false_ne_true (hfails.symm.trans ((value.same_iff literal).mpr hequal))
  | object properties =>
      rw [check_object] at hissue
      refine Issue.trueOf_of_mem_ofProperties (fun property hproperty => ?_) hvalue hissue
      exact hchildren property.2 (List.mem_map_of_mem hproperty)
  | record item =>
      rw [check_record] at hissue
      exact Issue.trueOf_of_mem_ofFields (hchildren item (List.mem_singleton_self item)) hvalue
        hissue
  | array item =>
      rw [check_array] at hissue
      exact Issue.trueOf_of_mem_ofItems (hchildren item (List.mem_singleton_self item)) hvalue
        hissue
  | union members =>
      rw [check_union] at hissue
      exact Issue.trueOf_of_mem_failing (by decide) (fun _ => Issue.says_union value) hissue

/-- No schema reports anything but mismatches. -/
theorem truthful (schema : Node) : schema.Truthful := by
  induction schema using Node.induction with
  | leaf id shape hchildren => exact truthful_leaf hchildren
  | fragment id text schema hschema => exact hschema
  | nullable id inner hinner =>
      intro value hvalue issue hissue
      by_cases hnull : value = .null
      · subst hnull
        exact absurd hissue List.not_mem_nil
      · rw [check_nullable id hnull] at hissue
        exact hinner value hvalue issue hissue
  | projection id properties options hproperties =>
      intro value hvalue issue hissue
      rw [check_projection] at hissue
      exact Issue.trueOf_of_mem_ofProperties hproperties hvalue hissue
  | collection id element narrowing helement =>
      intro value hvalue issue hissue
      rw [check_collection] at hissue
      exact Issue.trueOf_of_mem_ofItems helement hvalue hissue
  | select id branches expansion hbranches =>
      intro value _ issue hissue
      rw [check_select] at hissue
      exact Issue.trueOf_of_mem_failing (by decide) (fun _ => Issue.says_union value) hissue

/-- Every issue that a check reports leads to a part of the value that is not what was expected,
or misses an attribute that is not there.  Objects hold each key once, or a record would be checked
at places that no pointer leads to. -/
theorem trueOf_of_mem_check (schema : Node) {value : Json} (hvalue : value.Distinct)
    {issue : Issue} (hissue : issue ∈ schema.check value) : issue.TrueOf value :=
  schema.truthful value hvalue issue hissue

/-- Keys that pointers are written with, and an empty key, on the way to a string among the flags
of a record. -/
theorem trueOf_of_mem_check_escaped_keys :
    let flags : Node := .mk ⟨0⟩ (.leaf (.array (.mk ⟨1⟩ (.leaf .boolean))))
    let schema : Node := .mk ⟨2⟩ (.projection [("~1/", .mk ⟨3⟩ (.leaf (.record flags)))] .none)
    let value : Json :=
      .object [("~1/", .object [("", .array [.bool true, .string "x"]), ("~0", .array [])])]
    let issue : Issue := ⟨"/~01~1//1", "Expected boolean"⟩
    value.Distinct ∧ issue ∈ schema.check value ∧ issue.TrueOf value := by
  intro flags schema value issue
  have hitems : (Json.array [.bool true, .string "x"]).Distinct :=
    .array (List.forall_mem_cons.mpr ⟨.bool true, List.forall_mem_singleton.mpr (.string "x")⟩)
  have hempty : (Json.array []).Distinct := .array (List.forall_mem_nil _)
  have hrecord : (Json.object [("", .array [.bool true, .string "x"]),
      ("~0", .array [])]).Distinct :=
    .object (by decide) (List.forall_mem_cons.mpr ⟨hitems, List.forall_mem_singleton.mpr hempty⟩)
  have hvalue : value.Distinct := .object (by decide) (List.forall_mem_singleton.mpr hrecord)
  have hissue : issue ∈ schema.check value := List.mem_singleton.mpr rfl
  exact ⟨hvalue, hissue, schema.trueOf_of_mem_check hvalue hissue⟩

end Node

end ShapeQuery
