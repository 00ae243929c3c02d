import ShapeQuery.Proofs.Json.Tokens
import ShapeQuery.Validation.Issue

/-!
# Following pointers

The path of an issue is a pointer: it names the keys on the way from a value to a part of it.
Pointers are read back segment by segment, and a key may contain the characters that pointers are
written with.  A pointer to a part of a part leads where its pieces lead one after the other.
-/

namespace ShapeQuery

namespace Pointer

/-- Puts one character in the place of every pair of two others. -/
def replacePairs (first second whole : Char) : List Char → List Char
  | c :: d :: rest =>
      if c = first ∧ d = second then whole :: replacePairs first second whole rest
      else c :: replacePairs first second whole (d :: rest)
  | rest => rest

/-- The key that a segment stands for: `~1` is read as a slash, and `~0` as a tilde after that. -/
def unescape (segment : List Char) : List Char :=
  replacePairs '~' '0' '~' (replacePairs '~' '1' '/' segment)

def keys? (pointer : String) : Option (List String) :=
  match pointer.toList.splitOn '/' with
  | [] :: segments => some (segments.map fun segment => String.ofList (unescape segment))
  | _ => none

theorem replacePairs_cons {first c : Char} (second whole : Char) (hc : c ≠ first)
    (rest : List Char) :
    replacePairs first second whole (c :: rest) = c :: replacePairs first second whole rest := by
  cases rest with
  | nil => rfl
  | cons d rest => exact if_neg fun h => hc h.1

/-- A key with its tildes escaped, but not its slashes. -/
def escapeTildes (key : List Char) : List Char :=
  key.flatMap fun c => if c = '~' then ['~', '0'] else [c]

theorem toList_escape (key : String) : (escape key).toList = key.toList.flatMap fun c =>
    if c = '~' then ['~', '0'] else if c = '/' then ['~', '1'] else [c] :=
  String.toList_ofList

/-- Reading the slashes first leaves every tilde escaped. -/
theorem replacePairs_escape (key : String) :
    replacePairs '~' '1' '/' (escape key).toList = escapeTildes key.toList := by
  rw [toList_escape, escapeTildes]
  induction key.toList with
  | nil => rfl
  | cons c rest ih =>
      rw [List.flatMap_cons, List.flatMap_cons, ← ih]
      by_cases htilde : c = '~'
      · subst htilde
        exact congrArg ('~' :: ·) (replacePairs_cons '1' '/' (by decide) _)
      · by_cases hslash : c = '/'
        · subst hslash
          rfl
        · simp only [htilde, hslash, if_false]
          exact replacePairs_cons '1' '/' htilde _

/-- Tildes that were escaped come back. -/
theorem replacePairs_escapeTildes (key : List Char) :
    replacePairs '~' '0' '~' (escapeTildes key) = key := by
  induction key with
  | nil => rfl
  | cons c rest ih =>
      rw [escapeTildes, List.flatMap_cons, ← escapeTildes]
      by_cases htilde : c = '~'
      · subst htilde
        exact congrArg ('~' :: ·) ih
      · simp only [htilde, if_false]
        exact (replacePairs_cons '0' '~' htilde _).trans (congrArg (c :: ·) ih)

/-- Every key is read back from its segment. -/
theorem unescape_escape (key : String) : unescape (escape key).toList = key.toList := by
  rw [unescape, replacePairs_escape, replacePairs_escapeTildes]

/-- The escape of a key has no slash, so slashes end keys. -/
theorem slash_not_mem_escape (key : String) : '/' ∉ (escape key).toList := by
  rw [toList_escape, List.mem_flatMap]
  rintro ⟨c, -, hc⟩
  split at hc
  · exact absurd hc (by decide)
  split at hc
  · exact absurd hc (by decide)
  · next hslash => exact hslash (List.mem_singleton.mp hc).symm

theorem splitOn_append_of_not_mem {c : Char} {segment rest first : List Char}
    {segments : List (List Char)} (hsegment : c ∉ segment)
    (hrest : rest.splitOn c = first :: segments) :
    (segment ++ rest).splitOn c = (segment ++ first) :: segments := by
  induction segment with
  | nil => exact hrest
  | cons d segment ih =>
      rw [List.mem_cons, not_or] at hsegment
      have hne : (d == c) = false := beq_false_of_ne (Ne.symm hsegment.1)
      rw [List.cons_append, List.splitOn_cons_eq_if_modifyHead, hne, ih hsegment.2]
      rfl

@[simp]
theorem keys?_empty : keys? "" = some [] := rfl

/-- A pointer below a key names the key first. -/
theorem keys?_child_append {path : String} {keys : List String} (hpath : keys? path = some keys)
    (key : String) : keys? (child "" key ++ path) = some (key :: keys) := by
  unfold keys? at hpath
  split at hpath
  · next segments hsegments =>
      obtain rfl := Option.some.inj hpath
      have hlist : (child "" key ++ path).toList = '/' :: ((escape key).toList ++ path.toList) := by
        simp [child, String.toList_append]
      have hsplit := splitOn_append_of_not_mem (slash_not_mem_escape key) hsegments
      have hkey : String.ofList (unescape (escape key).toList) = key := by
        rw [unescape_escape, String.ofList_toList]
      rw [List.append_nil] at hsplit
      rw [keys?, hlist, List.splitOn_cons_eq_if_modifyHead, hsplit]
      simp [hkey]
  · exact absurd hpath.symm (Option.some_ne_none keys)

def ofKeys : List String → String
  | [] => ""
  | key :: keys => child "" key ++ ofKeys keys

/-- A pointer is taken apart into the keys that it was made of. -/
@[simp]
theorem keys?_ofKeys (keys : List String) : keys? (ofKeys keys) = some keys := by
  induction keys with
  | nil => rfl
  | cons key keys ih => exact keys?_child_append ih key

theorem ofKeys_injective : Function.Injective ofKeys := by
  intro keys keys' heq
  have hkeys := congrArg keys? heq
  rwa [keys?_ofKeys, keys?_ofKeys, Option.some.injEq] at hkeys

theorem ofKeys_append (keys keys' : List String) :
    ofKeys (keys ++ keys') = ofKeys keys ++ ofKeys keys' := by
  induction keys with
  | nil => exact String.empty_append.symm
  | cons key keys ih => rw [List.cons_append, ofKeys, ofKeys, ih, String.append_assoc]

end Pointer

namespace Json

/-- What the keys of pointers stand for: the attributes of an object, and the items of an array
under their positions. -/
def parts : Json → List (String × Json)
  | .object fields => fields
  | .array items => items.zipIdx.map fun entry => (toString entry.2, entry.1)
  | _ => []

def part? (value : Json) (key : String) : Option Json := value.parts.lookup key

def walk? (value : Json) (keys : List String) : Option Json := keys.foldlM part? value

def at? (value : Json) (pointer : String) : Option Json :=
  (Pointer.keys? pointer).bind value.walk?

variable {value part target : Json} {key : String}

@[simp]
theorem at?_empty (value : Json) : value.at? "" = some value := rfl

theorem walk?_cons (hpart : value.part? key = some part) (keys : List String) :
    value.walk? (key :: keys) = part.walk? keys := by
  rw [walk?, List.foldlM_cons, hpart]
  rfl

/-- A pointer may be followed from a part on. -/
theorem at?_child (hpart : value.part? key = some part) {path : String}
    (hpath : part.at? path = some target) :
    value.at? (Pointer.child "" key ++ path) = some target := by
  obtain ⟨keys, hkeys, hwalk⟩ := Option.bind_eq_some_iff.mp hpath
  rw [at?, Pointer.keys?_child_append hkeys, Option.bind_some, walk?_cons hpart]
  exact hwalk

/-- No position stands for two items. -/
theorem nodup_keys_parts_array (items : List Json) :
    ((array items).parts.map Prod.fst).Nodup := by
  have hpositions : (array items).parts.map Prod.fst =
      (List.range' 0 items.length).map toString := by
    rw [← List.zipIdx_map_snd 0 items, parts, List.map_map, List.map_map]
    rfl
  rw [hpositions]
  exact (List.nodup_range' 1).map fun _ _ => Nat.repr_injective

/-- An item of an array is found under its position. -/
theorem part?_item {items : List Json} {entry : Json × ℕ} (hentry : entry ∈ items.zipIdx) :
    (array items).part? (toString entry.2) = some entry.1 := by
  rw [part?, ← Assoc.mem_iff_lookup_eq_some (nodup_keys_parts_array items)]
  exact List.mem_map_of_mem hentry

theorem part?_field {fields : List (String × Json)} (hfields : (fields.map Prod.fst).Nodup)
    {field : String × Json} (hfield : field ∈ fields) :
    (object fields).part? field.1 = some field.2 :=
  (Assoc.mem_iff_lookup_eq_some hfields).mp hfield

theorem Distinct.nodup_keys (hvalue : value.Distinct) : (value.parts.map Prod.fst).Nodup := by
  cases hvalue with
  | array hitems => exact nodup_keys_parts_array _
  | object hkeys hfields => exact hkeys
  | _ => exact List.nodup_nil

/-- A part of a value that repeats no key repeats none. -/
theorem Distinct.of_part (hvalue : value.Distinct) (hpart : value.part? key = some part) :
    part.Distinct := by
  have hmem := (Assoc.mem_iff_lookup_eq_some hvalue.nodup_keys).mpr hpart
  cases hvalue with
  | array hitems =>
      obtain ⟨entry, hentry, heq⟩ := List.mem_map.mp hmem
      obtain rfl := congrArg Prod.snd heq
      exact hitems _ (List.fst_mem_of_mem_zipIdx hentry)
  | object hkeys hfields => exact hfields _ hmem
  | _ => exact absurd hmem List.not_mem_nil

end Json

end ShapeQuery
