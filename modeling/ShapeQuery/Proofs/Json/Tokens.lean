import ShapeQuery.Json.Reader
import ShapeQuery.Json.Text
import ShapeQuery.Proofs.Assoc
import ShapeQuery.Proofs.Json.Induction
import ShapeQuery.Proofs.Json.NumberText

/-!
# Values read back from their tokens

Every value has a sequence of tokens, and reading the sequence with any containers
open puts the value into the innermost one.  Objects have to hold each key once, as
every object does that was written key by key.
-/

namespace ShapeQuery

section Runs

variable {α σ : Type} {step : σ → α → Option σ} {state next : σ}

/-- A run over two parts goes on from where the run over the first part ends. -/
theorem foldlM_append_of_eq_some {first : List α} (hfirst : first.foldlM step state = some next)
    (rest : List α) : (first ++ rest).foldlM step state = rest.foldlM step next := by
  rw [List.foldlM_append, hfirst, Option.bind_eq_bind, Option.bind_some]

theorem foldlM_cons_of_eq_some {first : α} (hfirst : step state first = some next)
    (rest : List α) : (first :: rest).foldlM step state = rest.foldlM step next := by
  rw [List.foldlM_cons, hfirst, Option.bind_eq_bind, Option.bind_some]

end Runs

namespace Json

/-- A value whose objects hold each key once, at every depth. -/
inductive Distinct : Json → Prop where
  | null : Distinct .null
  | bool (truth : Bool) : Distinct (.bool truth)
  | number (number : Number) : Distinct (.number number)
  | string (text : String) : Distinct (.string text)
  | array {items : List Json} : (∀ item ∈ items, Distinct item) → Distinct (.array items)
  | object {fields : List (String × Json)} : (fields.map Prod.fst).Nodup →
      (∀ field ∈ fields, Distinct field.2) → Distinct (.object fields)

mutual

def tokens : Json → List Token
  | .null => [.word "null".toList]
  | .bool true => [.word "true".toList]
  | .bool false => [.word "false".toList]
  | .number n => [.word n.text.toList]
  | .string s => [.string s]
  | .array items => .openArray :: ([Token.comma].intercalate (itemTokens items) ++ [.closeArray])
  | .object fields =>
      .openObject :: ([Token.comma].intercalate (fieldTokens fields) ++ [.closeObject])

def itemTokens : List Json → List (List Token)
  | [] => []
  | item :: items => item.tokens :: itemTokens items

def fieldTokens : List (String × Json) → List (List Token)
  | [] => []
  | (key, value) :: fields => (.string key :: .colon :: value.tokens) :: fieldTokens fields

end

/-- Numbers are read back from their texts. -/
theorem ofWord?_number (number : Number) :
    ofWord? number.text.toList = some (.number number) := by
  have hread := number.ofWord?_text
  have hother : ∀ word, Number.ofWord? word = none → number.text.toList ≠ word := by
    rintro word hword rfl
    simp [hread] at hword
  rw [ofWord?, if_neg (hother _ (by decide)), if_neg (hother _ (by decide)),
    if_neg (hother _ (by decide)), hread, Option.map_some]

/-- Reading the tokens of a value completes the value, whatever containers are open. -/
def Reads (value : Json) : Prop :=
  ∀ stack, value.tokens.foldlM Reader.step ⟨stack, .value⟩ = some (.complete stack value)

/-- Items with commas between them go into the open array. -/
theorem foldlM_itemTokens {items : List Json} (hitems : ∀ item ∈ items, item.Reads)
    (hne : items ≠ []) (held : List Json) (stack : List Frame) :
    ([Token.comma].intercalate (itemTokens items)).foldlM Reader.step
        ⟨.array held :: stack, .value⟩ =
      some ⟨.array (items.reverse ++ held) :: stack, .commaOrClose⟩ := by
  induction items generalizing held with
  | nil => exact absurd rfl hne
  | cons item rest ih =>
      obtain ⟨hitem, hrest⟩ := List.forall_mem_cons.mp hitems
      have hfirst := hitem (.array held :: stack)
      cases rest with
      | nil => simpa [itemTokens, Reader.complete] using hfirst
      | cons next rest =>
          rw [itemTokens, itemTokens, List.intercalate_cons_cons, ← itemTokens,
            List.append_assoc, foldlM_append_of_eq_some hfirst]
          have hrest := ih hrest (by simp) (item :: held)
          simpa [Reader.complete, Reader.step] using hrest

/-- Fields with commas between them go into the open object. -/
theorem foldlM_fieldTokens {fields : List (String × Json)}
    (hfields : ∀ field ∈ fields, field.2.Reads) (hne : fields ≠ [])
    (held : List (String × Json)) (stack : List Frame) :
    ([Token.comma].intercalate (fieldTokens fields)).foldlM Reader.step
        ⟨.object held :: stack, .key⟩ =
      some ⟨.object (fields.reverse ++ held) :: stack, .commaOrClose⟩ := by
  induction fields generalizing held with
  | nil => exact absurd rfl hne
  | cons field rest ih =>
      obtain ⟨key, value⟩ := field
      obtain ⟨hvalue, hrest⟩ := List.forall_mem_cons.mp hfields
      have hfirst : (Token.string key :: .colon :: value.tokens).foldlM Reader.step
          ⟨.object held :: stack, .key⟩ =
            some ⟨.object ((key, value) :: held) :: stack, .commaOrClose⟩ :=
        hvalue (.field held key :: stack)
      cases rest with
      | nil => simpa [fieldTokens] using hfirst
      | cons next rest =>
          obtain ⟨nextKey, nextValue⟩ := next
          rw [fieldTokens, fieldTokens, List.intercalate_cons_cons, ← fieldTokens,
            List.append_assoc, foldlM_append_of_eq_some hfirst]
          have hrest := ih hrest (by simp) ((key, value) :: held)
          simpa [Reader.step] using hrest

theorem exists_tokens_eq_cons (value : Json) :
    ∃ first rest, value.tokens = first :: rest ∧ first ≠ .closeArray := by
  cases value with
  | bool truth => cases truth <;> simp [tokens]
  | _ => simp [tokens]

theorem exists_itemTokens_eq_cons (item : Json) (items : List Json) :
    ∃ first rest, [Token.comma].intercalate (itemTokens (item :: items)) = first :: rest ∧
      first ≠ .closeArray := by
  obtain ⟨first, rest, hitem, hfirst⟩ := exists_tokens_eq_cons item
  cases items with
  | nil => exact ⟨first, rest, by simp [itemTokens, hitem], hfirst⟩
  | cons next items =>
      rw [itemTokens, itemTokens, List.intercalate_cons_cons, hitem, List.append_assoc,
        List.cons_append]
      exact ⟨first, _, rfl, hfirst⟩

theorem reads_array {items : List Json} (hitems : ∀ item ∈ items, item.Reads) :
    (Json.array items).Reads := by
  intro stack
  cases items with
  | nil => rfl
  | cons item rest =>
      obtain ⟨first, more, hcons, hfirst⟩ := exists_itemTokens_eq_cons item rest
      have hopen : ([Token.comma].intercalate (itemTokens (item :: rest))).foldlM Reader.step
          ⟨.array [] :: stack, .valueOrClose⟩ =
            some ⟨.array ((item :: rest).reverse ++ []) :: stack, .commaOrClose⟩ := by
        rw [← foldlM_itemTokens hitems (by simp) [] stack, hcons]
        simp [Reader.step, hfirst]
      have hstep : Reader.step ⟨stack, .value⟩ .openArray =
          some ⟨.array [] :: stack, .valueOrClose⟩ := rfl
      rw [tokens, foldlM_cons_of_eq_some hstep, foldlM_append_of_eq_some hopen]
      simp [Reader.step, Reader.close]

/-- An object reads back if no key is repeated; of a repeated one the reader keeps the last
value. -/
theorem reads_object {fields : List (String × Json)} (hfields : ∀ field ∈ fields, field.2.Reads)
    (hkeys : (fields.map Prod.fst).Nodup) : (Json.object fields).Reads := by
  intro stack
  cases fields with
  | nil => rfl
  | cons field rest =>
      obtain ⟨first, more, hcons, hfirst⟩ : ∃ first more,
          [Token.comma].intercalate (fieldTokens (field :: rest)) = first :: more ∧
            first ≠ .closeObject := by
        cases rest with
        | nil => simp [fieldTokens]
        | cons next rest => simp [fieldTokens]
      have hopen : ([Token.comma].intercalate (fieldTokens (field :: rest))).foldlM Reader.step
          ⟨.object [] :: stack, .keyOrClose⟩ =
            some ⟨.object ((field :: rest).reverse ++ []) :: stack, .commaOrClose⟩ := by
        rw [← foldlM_fieldTokens hfields (by simp) [] stack, hcons]
        simp [Reader.step, hfirst]
      have hstep : Reader.step ⟨stack, .value⟩ .openObject =
          some ⟨.object [] :: stack, .keyOrClose⟩ := rfl
      rw [tokens, foldlM_cons_of_eq_some hstep, foldlM_append_of_eq_some hopen]
      simp [Reader.step, Reader.close, -List.reverse_cons, Assoc.ofList_of_nodup hkeys]

/-- Values that repeat no key read back, inside of any containers. -/
theorem Distinct.reads {value : Json} (hvalue : value.Distinct) : value.Reads := by
  induction value using Json.induction with
  | null => exact fun stack => rfl
  | bool truth => cases truth <;> exact fun stack => rfl
  | string text => exact fun stack => rfl
  | number number =>
      intro stack
      simp [tokens, Reader.step, Reader.value, ofWord?_number]
  | array items ih =>
      cases hvalue with
      | array hitems => exact reads_array fun item hitem => ih item hitem (hitems item hitem)
  | object fields ih =>
      cases hvalue with
      | object hkeys hfields =>
          exact reads_object (fun field hfield => ih field hfield (hfields field hfield)) hkeys

/-- The tokens of a value read back as the value. -/
theorem ofTokens?_tokens {value : Json} (hvalue : value.Distinct) :
    ofTokens? value.tokens = some value := by
  rw [ofTokens?, hvalue.reads []]
  rfl

end Json

end ShapeQuery
