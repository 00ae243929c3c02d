import ShapeQuery.Proofs.Groq.BodyFraming

/-!
# Keys between quotes

The field of an alias has its key between quotes as it is, without escapes.  A key in which what
looks like a field comes to an end can therefore be read as several fields, and there are other
aliases with the same text.  Aliases under keys of no such form are determined by their text.
-/

namespace ShapeQuery

variable {key key' target target' rest rest' : List Char}

/-- A key in which a field comes to an end.  Behind the end stands the quote of another field,
unless the key ends there too. -/
def HoldsFieldEnd (key : List Char) : Prop :=
  ∃ first target more, first ≠ [] ∧ isIdentifier target = true ∧
    key = first ++ '"' :: ':' :: (target ++ ',' :: more) ∧ ∀ c ∈ more.head?, c = '"'

theorem HoldsFieldEnd.colon_mem (hkey : HoldsFieldEnd key) : ':' ∈ key := by
  obtain ⟨first, target, more, -, -, rfl, -⟩ := hkey
  simp

/-- What stands behind a field in a projection of aliases: the brace that ends the projection, or a
comma and the quote of the next field. -/
def BehindAlias (rest : List Char) : Prop :=
  rest = ['\x7d'] ∨ ∃ more, rest = ',' :: '"' :: more

theorem BehindAlias.not_isLetter (hrest : BehindAlias rest) : ∀ c ∈ rest.head?, ¬IsLetter c := by
  rcases hrest with rfl | ⟨more, rfl⟩
  · exact not_isLetter_head (by decide) []
  · exact not_isLetter_head (by decide) _

theorem BehindAlias.ne_quote (hrest : BehindAlias rest) (more : List Char) :
    rest ≠ '"' :: more := by
  rcases hrest with rfl | ⟨more, rfl⟩ <;> simp

/-- What stands behind a field and before some later quote starts with a comma, and goes on with the
quote of the next field unless that is the later quote. -/
theorem BehindAlias.exists_comma (hrest : BehindAlias rest) {excess : List Char}
    (heq : rest = excess ++ '"' :: rest') :
    ∃ more, excess = ',' :: more ∧ ∀ c ∈ more.head?, c = '"' := by
  cases excess with
  | nil => exact absurd heq (hrest.ne_quote rest')
  | cons c more =>
      rcases hrest with rfl | ⟨behind, rfl⟩
      · simp at heq
      · obtain ⟨rfl, hmore⟩ := List.cons.inj heq
        refine ⟨more, rfl, fun c hc => ?_⟩
        cases more with
        | nil => cases hc
        | cons first more =>
            cases hc
            exact (List.cons.inj hmore).1.symm

/-- A key that goes on where another one ends holds the end of a field. -/
theorem holdsFieldEnd_append {excess : List Char} (hkey : key ≠ [])
    (htarget : isIdentifier target = true) (hrest : BehindAlias rest) (hexcess : excess ≠ [])
    (heq : '"' :: ':' :: (target ++ rest) = excess ++ '"' :: rest') :
    HoldsFieldEnd (key ++ excess) := by
  match excess with
  | [] => exact absurd rfl hexcess
  | [_] => simp at heq
  | quote :: colon :: excess =>
      simp only [List.cons_append, List.cons.injEq] at heq
      obtain ⟨rfl, rfl, hafter⟩ := heq
      rcases List.append_eq_append_iff.mp hafter with ⟨behind, rfl, hbehind⟩ | ⟨part, rfl, hpart⟩
      · obtain ⟨more, rfl, hmore⟩ := hrest.exists_comma hbehind
        exact ⟨key, target, more, hkey, htarget, rfl, hmore⟩
      · -- The quote would stand in the target, or right behind it.
        cases part with
        | nil => exact absurd hpart.symm (hrest.ne_quote rest')
        | cons c part =>
            obtain ⟨rfl, -⟩ := List.cons.inj hpart
            exact absurd (isLetter_of_mem_identifier htarget '"' (by simp)) (by decide)

/-- A field without the quote in front of it is determined by the text that it begins, if no field
ends in its key. -/
theorem alias_append_inj (hkey : key ≠ []) (hkey' : key' ≠ []) (hends : ¬HoldsFieldEnd key)
    (hends' : ¬HoldsFieldEnd key') (htarget : isIdentifier target = true)
    (htarget' : isIdentifier target' = true) (hrest : BehindAlias rest) (hrest' : BehindAlias rest')
    (heq : key ++ '"' :: ':' :: (target ++ rest) = key' ++ '"' :: ':' :: (target' ++ rest')) :
    key = key' ∧ target = target' ∧ rest = rest' := by
  have hkeys : key = key' := by
    rcases List.append_eq_append_iff.mp heq with ⟨excess, rfl, hexcess⟩ | ⟨excess, rfl, hexcess⟩
    · by_cases hnone : excess = []
      · rw [hnone, List.append_nil]
      · exact absurd (holdsFieldEnd_append hkey htarget hrest hnone hexcess) hends'
    · by_cases hnone : excess = []
      · rw [hnone, List.append_nil]
      · exact absurd (holdsFieldEnd_append hkey' htarget' hrest' hnone hexcess) hends
  subst hkeys
  have hafter := (List.cons.inj (List.cons.inj (List.append_cancel_left heq)).2).2
  have hparts := run_append_inj IsLetter (isLetter_of_mem_identifier htarget)
    (isLetter_of_mem_identifier htarget') hrest.not_isLetter hrest'.not_isLetter hafter
  exact ⟨rfl, hparts⟩

/-- Two fields, the first under a key in which a field ends, are two other fields as well: the first
of these ends in the key, and what is left is the key of the second. -/
theorem HoldsFieldEnd.exists_other_fields (hkey : HoldsFieldEnd key) (target next : List Char) :
    ∃ first target' second, first ≠ [] ∧ isIdentifier target' = true ∧
      first.length < key.length ∧ next.length < second.length ∧
      ∀ rest, key ++ '"' :: ':' :: (target ++ ',' :: '"' :: (next ++ rest)) =
        first ++ '"' :: ':' :: (target' ++ ',' :: '"' :: (second ++ rest)) := by
  obtain ⟨first, target', more, hfirst, htarget', rfl, hmore⟩ := hkey
  obtain ⟨second, hsecond⟩ :
      ∃ second, more ++ '"' :: ':' :: (target ++ ',' :: '"' :: next) = '"' :: second := by
    cases more with
    | nil => exact ⟨_, rfl⟩
    | cons c more =>
        obtain rfl := hmore c rfl
        exact ⟨_, rfl⟩
  refine ⟨first, target', second, hfirst, htarget', by simp, ?_, fun rest => ?_⟩
  · have hlength := congrArg List.length hsecond
    simp only [List.length_append, List.length_cons] at hlength
    omega
  · have hrest := congrArg (· ++ rest) hsecond
    simpa using hrest

/-! ## Projections of aliases -/

namespace Skeleton

def IsAliasField (field : String × Skeleton) : Prop := field.1 ≠ "" ∧ field.2.IsAlias

variable {fields fields' : List (String × Skeleton)}

theorem behindAlias_fieldsText (hfields : ∀ field ∈ fields, IsAliasField field) :
    BehindAlias (fieldsText fields ++ ['\x7d']) := by
  cases fields with
  | nil => exact .inl rfl
  | cons field fields =>
      obtain ⟨key, skeleton⟩ := field
      obtain ⟨-, target, rfl : skeleton = _, htarget⟩ := hfields _ List.mem_cons_self
      simp only [fieldsText, List.flatMap_cons, fieldText_alias htarget]
      exact .inr ⟨_, rfl⟩

/-- Where no key holds the end of a field, aliases are read in one way only. -/
theorem fieldsText_injOn_aliases (hfields : ∀ field ∈ fields, IsAliasField field)
    (hfields' : ∀ field ∈ fields', IsAliasField field)
    (hends : ∀ field ∈ fields, ¬HoldsFieldEnd field.1.toList)
    (hends' : ∀ field ∈ fields', ¬HoldsFieldEnd field.1.toList)
    (heq : fieldsText fields ++ ['\x7d'] = fieldsText fields' ++ ['\x7d']) : fields = fields' := by
  induction fields generalizing fields' with
  | nil =>
      cases fields' with
      | nil => rfl
      | cons field' fields' => simp [fieldsText] at heq
  | cons field fields ih =>
      cases fields' with
      | nil => simp [fieldsText] at heq
      | cons field' fields' =>
          obtain ⟨key, skeleton⟩ := field
          obtain ⟨key', skeleton'⟩ := field'
          obtain ⟨⟨hkey, target, rfl : skeleton = _, htarget⟩, hmore⟩ :=
            List.forall_mem_cons.mp hfields
          obtain ⟨⟨hkey', target', rfl : skeleton' = _, htarget'⟩, hmore'⟩ :=
            List.forall_mem_cons.mp hfields'
          obtain ⟨hend, hlater⟩ := List.forall_mem_cons.mp hends
          obtain ⟨hend', hlater'⟩ := List.forall_mem_cons.mp hends'
          simp only [fieldsText, List.flatMap_cons, fieldText_alias htarget,
            fieldText_alias htarget', List.cons_append, List.append_assoc, List.cons.injEq,
            true_and] at heq
          obtain ⟨hkeys, htargets, hafter⟩ := alias_append_inj
            (mt String.toList_eq_nil_iff.mp hkey) (mt String.toList_eq_nil_iff.mp hkey') hend hend'
            htarget htarget' (behindAlias_fieldsText hmore) (behindAlias_fieldsText hmore') heq
          obtain rfl := String.toList_inj.mp hkeys
          obtain rfl := String.toList_inj.mp htargets
          rw [ih hmore hmore' hlater hlater' hafter]

theorem projectionBody_injOn_aliases (hfields : ∀ field ∈ fields, IsAliasField field)
    (hfields' : ∀ field ∈ fields', IsAliasField field)
    (hends : ∀ field ∈ fields, ¬HoldsFieldEnd field.1.toList)
    (hends' : ∀ field ∈ fields', ¬HoldsFieldEnd field.1.toList)
    (heq : projectionBody false fields = projectionBody false fields') : fields = fields' := by
  have hempty {first : String × Skeleton} {more : List (String × Skeleton)}
      (hfirst : IsAliasField first) :
      projectionBody false [] ≠ projectionBody false (first :: more) := by
    obtain ⟨key, skeleton⟩ := first
    obtain ⟨-, target, rfl : skeleton = _, htarget⟩ := hfirst
    have hfirst := projectionBody_cons (key, .fragment target) more []
    rw [List.append_nil, fieldText_alias htarget] at hfirst
    rw [hfirst]
    simp [projectionBody]
  cases fields with
  | nil =>
      cases fields' with
      | nil => rfl
      | cons field' fields' => exact absurd heq (hempty (hfields' field' List.mem_cons_self))
  | cons field fields =>
      cases fields' with
      | nil => exact absurd heq.symm (hempty (hfields field List.mem_cons_self))
      | cons field' fields' =>
          apply fieldsText_injOn_aliases hfields hfields' hends hends'
          have hbraces := projectionBody_cons field fields []
          rw [heq, projectionBody_cons] at hbraces
          -- With a comma in place of the brace these are fields behind a first part.
          have hcommas := congrArg (',' :: ·) (List.cons.inj hbraces).2
          simpa [fieldsText] using hcommas.symm

end Skeleton

namespace Node

variable {properties properties' : List (String × Node)}

/-- Properties that are all aliases, under keys that are not empty. -/
def AliasesOnly (properties : List (String × Node)) : Prop :=
  ∀ property ∈ properties, property.1 ≠ "" ∧ property.2.IsAlias

def targets (properties : List (String × Node)) : List (String × String) :=
  properties.map fun property => (property.1, property.2.groq)

theorem AliasesOnly.fields (hproperties : AliasesOnly properties) :
    ∀ field ∈ propertySkeletons properties, Skeleton.IsAliasField field := by
  intro field hfield
  obtain ⟨property, hproperty, rfl⟩ := mem_propertySkeletons hfield
  obtain ⟨hkey, halias⟩ := hproperties property hproperty
  exact ⟨hkey, halias.skeleton.1⟩

theorem AliasesOnly.targets_eq (hproperties : AliasesOnly properties) :
    targets properties =
      (propertySkeletons properties).map fun field => (field.1, field.2.groq) := by
  induction properties with
  | nil => rfl
  | cons property rest ih =>
      obtain ⟨hproperty, hrest⟩ := List.forall_mem_cons.mp hproperties
      simp only [targets, propertySkeletons, List.map_cons, hproperty.2.skeleton.2]
      exact congrArg _ (ih hrest)

theorem AliasesOnly.toList_groq (hproperties : AliasesOnly properties) (id : Identity) :
    (mk id (.projection properties .none)).groq.toList =
      Skeleton.projectionBody false (propertySkeletons properties) := by
  have hfields : Skeleton.fieldTexts (propertySkeletons properties) = fieldTexts properties :=
    fieldTexts_skeletons fun property hproperty => (hproperties property hproperty).2.skeleton.2
  have hgroq : (mk id (.projection properties .none)).groq =
      (Skeleton.projection (propertySkeletons properties) .none).groq :=
    congrArg (Groq.projection .none) hfields.symm
  rw [hgroq, Skeleton.toList_projection rfl]
  rfl

/-- Equal texts of such projections have the same targets under the same keys. -/
theorem targets_eq_of_groq_eq {id id' : Identity} (hproperties : AliasesOnly properties)
    (hproperties' : AliasesOnly properties')
    (hends : ∀ property ∈ properties, ¬HoldsFieldEnd property.1.toList)
    (hends' : ∀ property ∈ properties', ¬HoldsFieldEnd property.1.toList)
    (heq : (mk id (.projection properties .none)).groq =
      (mk id' (.projection properties' .none)).groq) :
    targets properties = targets properties' := by
  have hfields {properties : List (String × Node)}
      (hends : ∀ property ∈ properties, ¬HoldsFieldEnd property.1.toList) :
      ∀ field ∈ propertySkeletons properties, ¬HoldsFieldEnd field.1.toList := by
    intro field hfield
    obtain ⟨property, hproperty, rfl⟩ := mem_propertySkeletons hfield
    exact hends property hproperty
  have hbodies := congrArg String.toList heq
  rw [hproperties.toList_groq, hproperties'.toList_groq] at hbodies
  rw [hproperties.targets_eq, hproperties'.targets_eq,
    Skeleton.projectionBody_injOn_aliases hproperties.fields hproperties'.fields (hfields hends)
      (hfields hends') hbodies]

/-! ## Keys that are read back -/

theorem IsAlias.toList_field {node : Node} (hnode : node.IsAlias) (key : String) :
    (Groq.field key node.groq).toList =
      '"' :: (key.toList ++ '"' :: ':' :: node.groq.toList) := by
  obtain ⟨⟨target, hskeleton, htarget⟩, hgroq⟩ := hnode.skeleton
  rw [hskeleton] at hgroq
  obtain rfl : target = node.groq := hgroq
  exact Skeleton.fieldText_alias htarget

/-- The quoted key reads back exactly if no character of it would have to be escaped. -/
theorem read?_field_eq_some_iff {node : Node} (hnode : node.IsAlias) (key : String)
    (rest : List Char) :
    Quoted.read? ((Groq.field key node.groq).toList ++ rest) =
        some (key.toList, ':' :: (node.groq.toList ++ rest)) ↔
      ∀ c ∈ key.toList, Quoted.escape c = [c] := by
  rw [hnode.toList_field, List.cons_append, List.append_assoc]
  exact Quoted.read?_eq_self_iff key.toList _

/-! ## Other aliases with the same text -/

def aliasesOf (entries : List (String × String)) : List (String × Node) :=
  entries.map fun entry => (entry.1, mk ⟨1⟩ (.fragment entry.2 (mk ⟨0⟩ (.leaf .unknown))))

theorem keys_aliasesOf (entries : List (String × String)) :
    (aliasesOf entries).map Prod.fst = entries.map Prod.fst := by
  simp [aliasesOf]

theorem targets_aliasesOf (entries : List (String × String)) :
    targets (aliasesOf entries) = entries := by
  rw [targets, aliasesOf, List.map_map]
  exact List.map_id entries

theorem aliasesOnly_aliasesOf {entries : List (String × String)}
    (hentries : ∀ entry ∈ entries, entry.1 ≠ "" ∧ isIdentifier entry.2.toList = true) :
    AliasesOnly (aliasesOf entries) := by
  intro property hproperty
  obtain ⟨entry, hentry, rfl⟩ := List.mem_map.mp hproperty
  obtain ⟨hkey, htarget⟩ := hentries entry hentry
  exact ⟨hkey, .fragment _ _ htarget⟩

theorem toList_groq_aliasesOf_pair {first second : String × String}
    (hentries : ∀ entry ∈ [first, second], entry.1 ≠ "" ∧ isIdentifier entry.2.toList = true)
    (id : Identity) :
    (mk id (.projection (aliasesOf [first, second]) .none)).groq.toList =
      '\x7b' :: '"' :: (first.1.toList ++ '"' :: ':' :: (first.2.toList ++ ',' :: '"' ::
        (second.1.toList ++ '"' :: ':' :: (second.2.toList ++ ['\x7d'])))) := by
  have hfirst := (hentries first List.mem_cons_self).2
  have hsecond := (hentries second (List.mem_cons_of_mem _ List.mem_cons_self)).2
  have hfields : propertySkeletons (aliasesOf [first, second]) =
      [(first.1, .fragment first.2), (second.1, .fragment second.2)] := rfl
  have hbody := Skeleton.projectionBody_cons (first.1, .fragment first.2)
    [(second.1, .fragment second.2)] []
  rw [List.append_nil] at hbody
  rw [(aliasesOnly_aliasesOf hentries).toList_groq, hfields, hbody]
  simp [Skeleton.fieldsText, Skeleton.fieldText_alias hfirst, Skeleton.fieldText_alias hsecond]

/-- A key in which a field ends belongs to aliases that have the same text as others. -/
theorem exists_same_text_of_holdsFieldEnd {key : String} (hkey : HoldsFieldEnd key.toList)
    (id id' : Identity) :
    ∃ properties properties', AliasesOnly properties ∧ AliasesOnly properties' ∧
      (properties.map Prod.fst).Nodup ∧ (properties'.map Prod.fst).Nodup ∧
      key ∈ properties.map Prod.fst ∧ targets properties ≠ targets properties' ∧
      (mk id (.projection properties .none)).groq =
        (mk id' (.projection properties' .none)).groq := by
  let next := key ++ "x"
  have hnext : next.length = key.length + 1 := String.length_append ..
  obtain ⟨first, target, second, hfirst, htarget, hshorter, hlonger, htexts⟩ :=
    hkey.exists_other_fields "x".toList next.toList
  obtain ⟨first, rfl⟩ : ∃ string : String, first = string.toList := ⟨_, String.toList_ofList.symm⟩
  obtain ⟨target, rfl⟩ : ∃ string : String, target = string.toList :=
    ⟨_, String.toList_ofList.symm⟩
  obtain ⟨second, rfl⟩ : ∃ string : String, second = string.toList :=
    ⟨_, String.toList_ofList.symm⟩
  rw [String.length_toList, String.length_toList] at hshorter hlonger
  have hentries : ∀ entry ∈ [(key, "x"), (next, "y")],
      entry.1 ≠ "" ∧ isIdentifier entry.2.toList = true := by
    have hnonempty : key ≠ "" := by
      rintro rfl
      simp at hshorter
    simp only [List.forall_mem_cons]
    exact ⟨⟨hnonempty, rfl⟩, ⟨by simp [next], rfl⟩, List.forall_mem_nil _⟩
  have hentries' : ∀ entry ∈ [(first, target), (second, "y")],
      entry.1 ≠ "" ∧ isIdentifier entry.2.toList = true := by
    have hnonempty : second ≠ "" := by
      rintro rfl
      simp at hlonger
    simp only [List.forall_mem_cons]
    exact ⟨⟨by simpa using hfirst, htarget⟩, ⟨hnonempty, rfl⟩, List.forall_mem_nil _⟩
  have hne {shorter longer : String} (hlength : shorter.length < longer.length) :
      shorter ≠ longer := by
    rintro rfl
    exact lt_irrefl _ hlength
  refine ⟨aliasesOf _, aliasesOf _, aliasesOnly_aliasesOf hentries,
    aliasesOnly_aliasesOf hentries', ?_, ?_, ?_, ?_, ?_⟩
  · simpa [keys_aliasesOf] using hne (hnext ▸ Nat.lt_succ_self _)
  · simpa [keys_aliasesOf] using hne (hshorter.trans (by omega))
  · simp [keys_aliasesOf]
  · rw [targets_aliasesOf, targets_aliasesOf]
    intro heq
    exact hne hshorter (Prod.mk.inj (List.cons.inj heq).1).1.symm
  · rw [← String.toList_inj, toList_groq_aliasesOf_pair hentries,
      toList_groq_aliasesOf_pair hentries']
    exact congrArg (fun text => '\x7b' :: '"' :: text) (htexts _)

/-- Aliases are determined by the text of their projection if no field ends in a key.  Each key in
which a field ends stands among aliases that have the same text as others.  And from its field a key
is read as itself exactly if none of it would have to be escaped. -/
theorem aliases_determined_by_text (id id' : Identity)
    (hproperties : AliasesOnly properties) (hproperties' : AliasesOnly properties') :
    ((∀ property ∈ properties ++ properties', ¬HoldsFieldEnd property.1.toList) →
      (mk id (.projection properties .none)).groq = (mk id' (.projection properties' .none)).groq →
      targets properties = targets properties') ∧
    (∀ property ∈ properties, HoldsFieldEnd property.1.toList →
      ∃ forged forged', AliasesOnly forged ∧ AliasesOnly forged' ∧
        (forged.map Prod.fst).Nodup ∧ (forged'.map Prod.fst).Nodup ∧
        property.1 ∈ forged.map Prod.fst ∧ targets forged ≠ targets forged' ∧
        (mk id (.projection forged .none)).groq = (mk id' (.projection forged' .none)).groq) ∧
    ∀ property ∈ properties, ∀ rest,
      Quoted.read? ((Groq.field property.1 property.2.groq).toList ++ rest) =
          some (property.1.toList, ':' :: (property.2.groq.toList ++ rest)) ↔
        ∀ c ∈ property.1.toList, Quoted.escape c = [c] := by
  refine ⟨fun hends heq => ?_, fun property hproperty hend => ?_, fun property hproperty rest => ?_⟩
  · obtain ⟨hends, hends'⟩ := List.forall_mem_append.mp hends
    exact targets_eq_of_groq_eq hproperties hproperties' hends hends' heq
  · exact exists_same_text_of_holdsFieldEnd hend id id'
  · exact read?_field_eq_some_iff (hproperties property hproperty).2 property.1 rest

/-- A key with a quote is not read back, but no field ends in it, so that its target is known.  In
the other key a field ends. -/
theorem aliases_determined_by_text_inches :
    let size := mk ⟨1⟩ (.fragment "size" (mk ⟨0⟩ (.leaf .number)))
    let direct := [("7\" disc", size)]
    let maybe := [("7\" disc", mk ⟨2⟩ (.nullable size))]
    let ending := [("a\":x,\"b", size)]
    AliasesOnly direct ∧ AliasesOnly maybe ∧ AliasesOnly ending ∧
      targets direct = targets maybe ∧
      (∃ forged forged', "a\":x,\"b" ∈ forged.map Prod.fst ∧ targets forged ≠ targets forged' ∧
        (mk ⟨3⟩ (.projection forged .none)).groq = (mk ⟨4⟩ (.projection forged' .none)).groq) ∧
      Quoted.read? ((Groq.field "7\" disc" size.groq).toList ++ ['\x7d']) ≠
        some ("7\" disc".toList, ':' :: (size.groq.toList ++ ['\x7d'])) := by
  intro size direct maybe ending
  have hsize : size.IsAlias := .fragment _ _ (by decide)
  have hdirect : AliasesOnly direct := List.forall_mem_singleton.mpr ⟨by decide, hsize⟩
  have hmaybe : AliasesOnly maybe := List.forall_mem_singleton.mpr ⟨by decide, .nullable _ hsize⟩
  have hending : AliasesOnly ending := List.forall_mem_singleton.mpr ⟨by decide, hsize⟩
  have hends : ∀ property ∈ direct ++ maybe, ¬HoldsFieldEnd property.1.toList := by
    have hcolon : ∀ property ∈ direct ++ maybe, ':' ∉ property.1.toList := by decide
    exact fun property hproperty => mt HoldsFieldEnd.colon_mem (hcolon property hproperty)
  have hholds : HoldsFieldEnd "a\":x,\"b".toList :=
    ⟨['a'], ['x'], ['"', 'b'], by decide, by decide, rfl, by simp⟩
  obtain ⟨hdetermined, -, hread⟩ := aliases_determined_by_text ⟨3⟩ ⟨4⟩ hdirect hmaybe
  obtain ⟨-, hforged, -⟩ := aliases_determined_by_text ⟨3⟩ ⟨4⟩ hending hending
  refine ⟨hdirect, hmaybe, hending, hdetermined hends rfl, ?_, ?_⟩
  · obtain ⟨forged, forged', -, -, -, -, hkey, htargets, htexts⟩ :=
      hforged _ List.mem_cons_self hholds
    exact ⟨forged, forged', hkey, htargets, htexts⟩
  · intro hread'
    have hescape := (hread _ List.mem_cons_self _).mp hread'
    exact absurd (hescape '"' (by decide)) (by decide)

/-- One key that looks like two fields has the text of these two, and is not what is read back. -/
theorem alias_of_two_fields :
    let schema := mk ⟨0⟩ (.leaf .string)
    let first := mk ⟨1⟩ (.fragment "x" schema)
    let second := mk ⟨2⟩ (.fragment "y" schema)
    let one := [("a\":x,\"b", second)]
    let two := [("a", first), ("b", second)]
    AliasesOnly one ∧ AliasesOnly two ∧
      (mk ⟨3⟩ (.projection one .none)).groq = "\x7b\"a\":x,\"b\":y\x7d" ∧
      (mk ⟨4⟩ (.projection two .none)).groq = "\x7b\"a\":x,\"b\":y\x7d" ∧
      targets one = [("a\":x,\"b", "y")] ∧ targets two = [("a", "x"), ("b", "y")] ∧
      Quoted.read? (Groq.field "a\":x,\"b" "y").toList =
        some ("a".toList, ":x,\"b\":y".toList) := by
  intro schema first second one two
  have hfirst : first.IsAlias := .fragment _ _ (by decide)
  have hsecond : second.IsAlias := .fragment _ _ (by decide)
  have hone : AliasesOnly one := List.forall_mem_singleton.mpr ⟨by decide, hsecond⟩
  have htwo : AliasesOnly two := List.forall_mem_cons.mpr
    ⟨⟨by decide, hfirst⟩, List.forall_mem_singleton.mpr ⟨by decide, hsecond⟩⟩
  refine ⟨hone, htwo, ?_⟩
  decide

end Node

end ShapeQuery
