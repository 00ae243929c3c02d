import Mathlib.Data.List.Induction
import ShapeQuery.Assoc

/-!
# Entries written in turn

Writing entries one after another keeps nothing but entries that were given, and changes
nothing where all keys are distinct.  Every key keeps the place where it is given first and the
value that it is given last.
-/

namespace ShapeQuery.Assoc

variable {α β : Type} [BEq α] [LawfulBEq α] {key : α} {value : β} {entries : List (α × β)}

/-- A new key goes to the end. -/
theorem insert_of_not_mem (hkey : key ∉ entries.map Prod.fst) :
    insert key value entries = entries ++ [(key, value)] := by
  induction entries with
  | nil => rfl
  | cons entry rest ih =>
      obtain ⟨first, old⟩ := entry
      simp only [List.map_cons, List.mem_cons, not_or] at hkey
      have hfirst : (first == key) = false := by simpa using fun h : first = key => hkey.1 h.symm
      simp only [insert, hfirst, ih hkey.2]
      rfl

/-- Entries with distinct keys stay as they are when they are written in turn. -/
theorem ofList_of_nodup (hentries : (entries.map Prod.fst).Nodup) : ofList entries = entries := by
  have hwrite (written rest : List (α × β)) (hnodup : ((written ++ rest).map Prod.fst).Nodup) :
      rest.foldl (fun written entry => insert entry.1 entry.2 written) written =
        written ++ rest := by
    induction rest generalizing written with
    | nil => simp
    | cons entry rest ih =>
        have hkey : entry.1 ∉ written.map Prod.fst := by
          rw [List.map_append, List.map_cons, List.nodup_append] at hnodup
          exact fun h => hnodup.2.2 _ h _ List.mem_cons_self rfl
        rw [List.foldl_cons, insert_of_not_mem hkey, ih, List.append_assoc]
        · rfl
        · simpa using hnodup
  simpa [ofList] using hwrite [] entries (by simpa using hentries)

theorem mem_insert {entry : α × β} (hentry : entry ∈ insert key value entries) :
    entry = (key, value) ∨ entry ∈ entries := by
  induction entries with
  | nil => exact .inl (List.mem_singleton.mp hentry)
  | cons first rest ih =>
      obtain ⟨firstKey, old⟩ := first
      rw [insert] at hentry
      split at hentry
      · next hkey =>
          obtain rfl : firstKey = key := by simpa using hkey
          exact (List.mem_cons.mp hentry).imp_right (List.mem_cons_of_mem _)
      · cases List.mem_cons.mp hentry with
        | inl hfirst => exact .inr (hfirst ▸ List.mem_cons_self)
        | inr hrest => exact (ih hrest).imp_right (List.mem_cons_of_mem _)

/-- Only given entries are kept. -/
theorem mem_of_mem_ofList {entry : α × β} (hentry : entry ∈ ofList entries) : entry ∈ entries := by
  have hwrite (written rest : List (α × β))
      (hmem : entry ∈ rest.foldl (fun written entry => insert entry.1 entry.2 written) written) :
      entry ∈ written ∨ entry ∈ rest := by
    induction rest generalizing written with
    | nil => exact .inl hmem
    | cons next rest ih =>
        cases ih _ hmem with
        | inl hwritten =>
            cases mem_insert hwritten with
            | inl hnext => exact .inr (hnext ▸ List.mem_cons_self)
            | inr hold => exact .inl hold
        | inr hrest => exact .inr (List.mem_cons_of_mem _ hrest)
  cases hwrite [] entries hentry with
  | inl hnone => exact absurd hnone List.not_mem_nil
  | inr hmem => exact hmem

/-- An entry whose key is not given again stays first. -/
theorem ofList_cons (hkey : key ∉ entries.map Prod.fst) :
    ofList ((key, value) :: entries) = (key, value) :: ofList entries := by
  have hwrite (written rest : List (α × β)) (hrest : key ∉ rest.map Prod.fst) :
      rest.foldl (fun written entry => insert entry.1 entry.2 written) ((key, value) :: written) =
        (key, value) ::
          rest.foldl (fun written entry => insert entry.1 entry.2 written) written := by
    induction rest generalizing written with
    | nil => rfl
    | cons next rest ih =>
        simp only [List.map_cons, List.mem_cons, not_or] at hrest
        have hnext : (key == next.1) = false := by simpa using hrest.1
        rw [List.foldl_cons, List.foldl_cons, ← ih _ hrest.2, insert, hnext]
        rfl
  exact hwrite [] entries hkey

/-! ## First places and last values -/

omit [LawfulBEq α] in
theorem ofList_concat (key : α) (value : β) (entries : List (α × β)) :
    ofList (entries ++ [(key, value)]) = insert key value (ofList entries) := by
  simp [ofList, List.foldl_append]

/-- What is read is what was given last. -/
theorem lookup_ofList (entries : List (α × β)) (key : α) :
    (ofList entries).lookup key = entries.reverse.lookup key := by
  induction entries using List.reverseRecOn with
  | nil => rfl
  | append_singleton entries entry ih =>
      obtain ⟨last, value⟩ := entry
      rw [ofList_concat, lookup_insert, ih, List.reverse_append, List.reverse_singleton,
        List.singleton_append, List.lookup_cons]
      cases key == last <;> rfl

/-- Keys stand where they are given first. -/
theorem map_fst_ofList (entries : List (α × β)) :
    (ofList entries).map Prod.fst = (entries.map Prod.fst).eraseDups := by
  induction entries using List.reverseRecOn with
  | nil => rfl
  | append_singleton entries entry ih =>
      obtain ⟨key, value⟩ := entry
      rw [ofList_concat, map_fst_insert, ih, List.map_append, List.map_singleton,
        List.eraseDups_append]
      have hsingle : [key].eraseDups = [key] := by simp [List.eraseDups_cons]
      by_cases hkey : key ∈ entries.map Prod.fst
      · simp [hkey, List.removeAll]
      · simp [hkey, List.removeAll, hsingle]

theorem lookup_eq_none_of_not_mem (hkey : key ∉ entries.map Prod.fst) :
    entries.lookup key = none := by
  refine List.lookup_eq_none_iff.mpr fun entry hentry => bne_iff_ne.mpr fun heq => ?_
  exact hkey (List.mem_map.mpr ⟨entry, hentry, heq.symm⟩)

/-- Where no key is repeated, what is there is what is found. -/
theorem mem_iff_lookup_eq_some (hentries : (entries.map Prod.fst).Nodup) :
    (key, value) ∈ entries ↔ entries.lookup key = some value := by
  induction entries with
  | nil => simp
  | cons entry rest ih =>
      obtain ⟨first, old⟩ := entry
      obtain ⟨hfirst, hrest⟩ := List.nodup_cons.mp hentries
      rw [List.mem_cons, ih hrest, List.lookup_cons]
      by_cases hkey : key = first
      · subst hkey
        simp [lookup_eq_none_of_not_mem hfirst, eq_comm]
      · have hother : (key == first) = false := by simpa using hkey
        simp [hother, hkey]

/-- An entry is kept if and only if it is the last one that is given for its key. -/
theorem mem_ofList_iff :
    (key, value) ∈ ofList entries ↔ entries.reverse.lookup key = some value := by
  rw [mem_iff_lookup_eq_some (nodup_ofList entries), lookup_ofList]

/-! ## Some of the keys -/

/-- Keys may be dropped before or after an entry is written. -/
theorem filter_insert (keep : α → Bool) (key : α) (value : β) (entries : List (α × β)) :
    ((insert key value entries).filter fun entry => keep entry.1) =
      if keep key then insert key value (entries.filter fun entry => keep entry.1)
      else entries.filter fun entry => keep entry.1 := by
  induction entries with
  | nil => simp [insert, List.filter_cons]
  | cons entry rest ih =>
      obtain ⟨first, old⟩ := entry
      by_cases hfirst : first = key
      · subst hfirst
        cases hkeep : keep first <;> simp [insert, hkeep]
      · have hother : (first == key) = false := by simpa using hfirst
        simp only [insert, hother, Bool.false_eq_true, if_false, List.filter_cons, ih]
        cases keep first <;> cases keep key <;> simp [insert, hother]

/-- Entries may be left out by their keys before or after they are written. -/
theorem ofList_filter (keep : α → Bool) (entries : List (α × β)) :
    ofList (entries.filter fun entry => keep entry.1) =
      (ofList entries).filter fun entry => keep entry.1 := by
  induction entries using List.reverseRecOn with
  | nil => rfl
  | append_singleton entries entry ih =>
      obtain ⟨key, value⟩ := entry
      rw [ofList_concat, filter_insert, ← ih, List.filter_append]
      cases hkeep : keep key with
      | false => simp [hkeep]
      | true => simp [hkeep, ofList_concat]

theorem filter_key_eq (key : α) (hentries : (entries.map Prod.fst).Nodup) :
    (entries.filter fun entry => entry.1 == key) =
      (entries.lookup key).toList.map fun value => (key, value) := by
  induction entries with
  | nil => rfl
  | cons entry rest ih =>
      obtain ⟨first, old⟩ := entry
      obtain ⟨hfirst, hrest⟩ := List.nodup_cons.mp hentries
      by_cases hkey : first = key
      · subst hkey
        have hnone : (rest.filter fun entry => entry.1 == first) = [] := by
          refine List.filter_eq_nil_iff.mpr fun other hother heq => hfirst ?_
          exact List.mem_map.mpr ⟨other, hother, by simpa using heq⟩
        simp [hnone]
      · have hother : (key == first) = false := by simpa using Ne.symm hkey
        simp [hkey, List.lookup_cons, hother, ih hrest]

section Renamed

variable {γ δ : Type} [BEq γ] [LawfulBEq γ] {rename : α → γ}

/-- Keys that stay apart may be renamed, and values changed, before or after an entry is written. -/
theorem insert_map (hrename : Function.Injective rename) (change : β → δ) (key : α) (value : β)
    (entries : List (α × β)) :
    insert (rename key) (change value)
        (entries.map fun entry => (rename entry.1, change entry.2)) =
      (insert key value entries).map fun entry => (rename entry.1, change entry.2) := by
  induction entries with
  | nil => rfl
  | cons entry rest ih =>
      obtain ⟨first, old⟩ := entry
      by_cases hfirst : first = key
      · simp [insert, hfirst]
      · have hrenamed : rename first ≠ rename key := fun heq => hfirst (hrename heq)
        simp [insert, hfirst, hrenamed, ih]

/-- Distinct keys may be renamed before or after the entries are written. -/
theorem ofList_map (hrename : Function.Injective rename) (change : β → δ)
    (entries : List (α × β)) :
    ofList (entries.map fun entry => (rename entry.1, change entry.2)) =
      (ofList entries).map fun entry => (rename entry.1, change entry.2) := by
  induction entries using List.reverseRecOn with
  | nil => rfl
  | append_singleton entries entry ih =>
      obtain ⟨key, value⟩ := entry
      rw [List.map_append, List.map_singleton, ofList_concat, ih, insert_map hrename,
        ofList_concat]

end Renamed

end ShapeQuery.Assoc
