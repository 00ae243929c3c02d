/-!
# Ordered association lists

Attributes of JSON objects, properties of schemas, branches of unions and query
parameters are all finite maps whose order is visible in what is printed.  They
are kept as plain lists of entries.  Writing a key again changes its value and
leaves its position alone; reading is `List.lookup`.
-/

namespace ShapeQuery.Assoc

variable {α β : Type} [BEq α]

/-- Writes one entry: in place when the key is present, at the end otherwise. -/
def insert (key : α) (value : β) : List (α × β) → List (α × β)
  | [] => [(key, value)]
  | (k, v) :: rest =>
      if k == key then (k, value) :: rest else (k, v) :: insert key value rest

/-- Writes entries one after another, so that every key keeps its first position
and its last value. -/
def ofList (entries : List (α × β)) : List (α × β) :=
  entries.foldl (fun written entry => insert entry.1 entry.2 written) []

def erase (key : α) (entries : List (α × β)) : List (α × β) :=
  entries.filter fun entry => !(entry.1 == key)

/-- Behind a written key stands the written value, and every other key keeps its own. -/
theorem lookup_insert [LawfulBEq α] (key : α) (value : β) (entries : List (α × β)) (k : α) :
    (insert key value entries).lookup k =
      if k == key then some value else entries.lookup k := by
  induction entries with
  | nil => simp only [insert, List.lookup_cons, List.lookup_nil]; cases k == key <;> rfl
  | cons entry rest ih =>
      obtain ⟨first, old⟩ := entry
      by_cases hfirst : first = key
      · subst hfirst
        simp only [insert, beq_self_eq_true, if_true, List.lookup_cons]
        cases k == first <;> rfl
      · have hne : (first == key) = false := by simpa using hfirst
        simp only [insert, hne, Bool.false_eq_true, if_false, List.lookup_cons]
        cases hk : k == first with
        | false => simpa using ih
        | true =>
            obtain rfl : k = first := by simpa using hk
            simp [hne]

theorem lookup_erase [LawfulBEq α] (key : α) (entries : List (α × β)) (k : α) :
    (erase key entries).lookup k = if k == key then none else entries.lookup k := by
  induction entries with
  | nil => simp [erase]
  | cons entry rest ih =>
      obtain ⟨first, old⟩ := entry
      by_cases hfirst : first = key
      · have hskip : erase key ((first, old) :: rest) = erase key rest := by
          simp [erase, hfirst]
        rw [hskip, ih, List.lookup_cons, hfirst]
        cases k == key <;> rfl
      · have hkeep : erase key ((first, old) :: rest) = (first, old) :: erase key rest := by
          simp [erase, hfirst]
        rw [hkeep, List.lookup_cons, List.lookup_cons, ih]
        by_cases hk : k = first
        · simp [hk, hfirst]
        · have hk' : (k == first) = false := by simpa using hk
          simp [hk']

/-- Writing an entry changes the keys only where the key is new. -/
theorem map_fst_insert [LawfulBEq α] (key : α) (value : β) (entries : List (α × β)) :
    (insert key value entries).map Prod.fst =
      if key ∈ entries.map Prod.fst then entries.map Prod.fst
      else entries.map Prod.fst ++ [key] := by
  induction entries with
  | nil => simp [insert]
  | cons entry rest ih =>
      obtain ⟨first, old⟩ := entry
      by_cases hfirst : first = key
      · simp [insert, hfirst]
      · have hkey : ¬key = first := fun h => hfirst h.symm
        have hne : (first == key) = false := by simpa using hfirst
        simp only [insert, hne, Bool.false_eq_true, if_false, List.map_cons, ih, List.mem_cons,
          hkey, false_or]
        split <;> simp

/-- Writing an entry repeats no key. -/
theorem nodup_insert [LawfulBEq α] (key : α) (value : β) {entries : List (α × β)}
    (hentries : (entries.map Prod.fst).Nodup) :
    ((insert key value entries).map Prod.fst).Nodup := by
  rw [map_fst_insert]
  split
  · exact hentries
  · next hkey =>
      rw [List.nodup_append]
      refine ⟨hentries, by simp, ?_⟩
      intro other hother last hlast
      obtain rfl : last = key := by simpa using hlast
      exact fun h => hkey (h ▸ hother)

/-- Entries that were written one after another have distinct keys. -/
theorem nodup_ofList [LawfulBEq α] (entries : List (α × β)) :
    ((ofList entries).map Prod.fst).Nodup := by
  have hwrite : ∀ written : List (α × β), (written.map Prod.fst).Nodup →
      ((entries.foldl (fun written entry => insert entry.1 entry.2 written) written).map
        Prod.fst).Nodup := by
    induction entries with
    | nil => exact fun _ h => h
    | cons entry rest ih => exact fun written h => ih _ (nodup_insert entry.1 entry.2 h)
  exact hwrite [] (by simp)

end ShapeQuery.Assoc
