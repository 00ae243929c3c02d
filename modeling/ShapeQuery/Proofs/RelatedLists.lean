import Mathlib.Data.List.Forall2
import Mathlib.Data.List.Nodup
import Mathlib.Data.List.Perm.Basic
import ShapeQuery.Proofs.Assoc

/-!
# Related lists

Lists are related position by position, or key by key where they hold the entries of a map, whose
order does not count.  What is put together from related lists is related again.
-/

namespace ShapeQuery

/-! ## Position by position -/

section Positions

variable {α β γ : Type} {items : List α} {others : List β}

theorem forall₂_imp_of_mem {related related' : α → β → Prop}
    (himp : ∀ item ∈ items, ∀ other, related item other → related' item other)
    (hitems : List.Forall₂ related items others) : List.Forall₂ related' items others := by
  have hboth := (List.forall₂_and_left items others).mpr ⟨himp, hitems⟩
  exact hboth.imp fun item other hitem => hitem.1 other hitem.2

theorem forall₂_comp {related : β → γ → Prop} {related' : α → γ → Prop} {thirds : List γ}
    (hitems : List.Forall₂ (fun item other => ∀ third, related other third → related' item third)
      items others) (hothers : List.Forall₂ related others thirds) :
    List.Forall₂ related' items thirds := by
  induction hitems generalizing thirds with
  | nil =>
      cases hothers
      exact .nil
  | cons hitem _ ih =>
      cases hothers with
      | cons hother hothers => exact .cons (hitem _ hother) (ih hothers)

/-- Lists that are joined of related lists, one of each, are related. -/
theorem forall₂_flatMap {related : γ → γ → Prop} {first : α → List γ} {second : β → List γ}
    (hitems : List.Forall₂ (fun item other => List.Forall₂ related (first item) (second other))
      items others) :
    List.Forall₂ related (items.flatMap first) (others.flatMap second) :=
  List.rel_flatMap hitems fun _ _ h => h

/-- Lists that are related item by item are so position by position. -/
theorem forall₂_zipIdx {related : α → β → Prop} (hitems : List.Forall₂ related items others) :
    List.Forall₂ (fun entry other => entry ∈ items.zipIdx ∧ other ∈ others.zipIdx ∧
      entry.2 = other.2 ∧ related entry.1 other.1) items.zipIdx others.zipIdx := by
  rw [List.forall₂_iff_get] at hitems ⊢
  obtain ⟨hlength, hrelated⟩ := hitems
  refine ⟨by simp [hlength], fun position hitem hother => ?_⟩
  refine ⟨List.get_mem _ _, List.get_mem _ _, by simp, ?_⟩
  simpa using hrelated position (by simpa using hitem) (by simpa using hother)

theorem any_eq_of_forall₂ {p : α → Bool} {q : β → Bool}
    (hitems : List.Forall₂ (fun item other => p item = q other) items others) :
    items.any p = others.any q := by
  induction hitems with
  | nil => rfl
  | cons hitem _ ih => rw [List.any_cons, List.any_cons, hitem, ih]

theorem any_eq_of_forall_mem {p q : α → Bool} (hitems : ∀ item ∈ items, p item = q item) :
    items.any p = items.any q :=
  any_eq_of_forall₂ (List.forall₂_same.mpr hitems)

/-- Lists that are joined of the same lists up to order are the same up to order. -/
theorem perm_flatMap_of_forall₂ {first : α → List γ} {second : β → List γ}
    (hitems : List.Forall₂ (fun item other => (first item).Perm (second other)) items others) :
    (items.flatMap first).Perm (others.flatMap second) := by
  induction hitems with
  | nil => exact .refl _
  | cons hitem _ ih =>
      rw [List.flatMap_cons, List.flatMap_cons]
      exact hitem.append ih

end Positions

/-! ## Key by key -/

namespace Assoc

variable {α β γ δ : Type} {related : β → γ → Prop} {entries : List (α × β)}
  {others : List (α × γ)}

/-- Related values under the same keys, in any order. -/
def Matches (related : β → γ → Prop) (entries : List (α × β)) (others : List (α × γ)) : Prop :=
  ∃ matched, List.Forall₂ (fun entry other => entry.1 = other.1 ∧ related entry.2 other.2) entries
    matched ∧ matched.Perm others

theorem map_fst_eq_of_forall₂ (hentries : List.Forall₂
      (fun entry other => entry.1 = other.1 ∧ related entry.2 other.2) entries others) :
    entries.map Prod.fst = others.map Prod.fst := by
  rw [← List.forall₂_eq_eq_eq, List.forall₂_map_left_iff, List.forall₂_map_right_iff]
  exact hentries.imp fun entry other hentry => hentry.1

theorem Matches.perm_keys (hmatches : Matches related entries others) :
    (entries.map Prod.fst).Perm (others.map Prod.fst) := by
  obtain ⟨matched, hpairs, hperm⟩ := hmatches
  rw [map_fst_eq_of_forall₂ hpairs]
  exact hperm.map Prod.fst

theorem Matches.flip (hmatches : Matches related entries others) :
    Matches (fun other entry => related entry other) others entries := by
  obtain ⟨matched, hpairs, hperm⟩ := hmatches
  obtain ⟨matched', hpairs', hperm'⟩ := List.perm_comp_forall₂ hperm.symm hpairs.flip
  exact ⟨matched', hpairs'.imp fun other entry hpair => ⟨hpair.1.symm, hpair.2⟩, hperm'⟩

/-- Lists that are put together entry by entry are the same up to order. -/
theorem Matches.perm_flatMap {first : α × β → List δ} {second : α × γ → List δ}
    (hmatches : Matches related entries others)
    (hvalues : ∀ key value other, related value other →
      (first (key, value)).Perm (second (key, other))) :
    (entries.flatMap first).Perm (others.flatMap second) := by
  obtain ⟨matched, hpairs, hperm⟩ := hmatches
  have hmatched : (entries.flatMap first).Perm (matched.flatMap second) := by
    refine perm_flatMap_of_forall₂ (hpairs.imp fun entry other hpair => ?_)
    obtain ⟨key, value⟩ := entry
    obtain ⟨key', other⟩ := other
    obtain ⟨rfl, hrelated⟩ : key = key' ∧ related value other := hpair
    exact hvalues key value other hrelated
  exact hmatched.trans (hperm.flatMap_right second)

variable [BEq α] [LawfulBEq α]

theorem exists_lookup_of_mem {key : α} (hkey : key ∈ others.map Prod.fst) :
    ∃ value, others.lookup key = some value ∧ (key, value) ∈ others := by
  cases hvalue : others.lookup key with
  | some value =>
      obtain ⟨before, after, hothers, -⟩ := List.lookup_eq_some_iff.mp hvalue
      exact ⟨value, rfl, by simp [hothers]⟩
  | none =>
      obtain ⟨entry, hentry, rfl⟩ := List.mem_map.mp hkey
      simpa using List.lookup_eq_none_iff.mp hvalue entry hentry

/-- A test of every entry together with its counterpart, which has to be there. -/
theorem all_lookup_any_iff {test : β → γ → Bool}
    (htest : ∀ entry ∈ entries, ∀ other, test entry.2 other = true ↔ related entry.2 other) :
    (entries.all fun entry => (others.lookup entry.1).any (test entry.2)) = true ↔
      (∀ entry ∈ entries, entry.1 ∈ others.map Prod.fst) ∧
        ∀ entry ∈ entries, ∀ other, others.lookup entry.1 = some other →
          related entry.2 other := by
  rw [List.all_eq_true, ← forall₂_and]
  refine forall₂_congr fun entry hentry => ?_
  cases hother : others.lookup entry.1 with
  | some other =>
      have hkey : entry.1 ∈ others.map Prod.fst := by
        obtain ⟨before, after, rfl, -⟩ := List.lookup_eq_some_iff.mp hother
        simp
      simp [hkey, htest entry hentry]
  | none =>
      have hkey : entry.1 ∉ others.map Prod.fst := by
        intro hkey
        obtain ⟨other, hlookup, -⟩ := exists_lookup_of_mem hkey
        exact Option.some_ne_none other (hlookup.symm.trans hother)
      simp [hkey]

/-- Maps of the same size match if every entry of one has a counterpart in the other. -/
theorem Matches.of_lookup (hdistinct : (entries.map Prod.fst).Nodup)
    (hlength : entries.length = others.length)
    (hkeys : ∀ entry ∈ entries, entry.1 ∈ others.map Prod.fst)
    (hvalues : ∀ entry ∈ entries, ∀ other, others.lookup entry.1 = some other →
      related entry.2 other) : Matches related entries others := by
  have hpaired : ∀ rest : List (α × β), (∀ entry ∈ rest, entry ∈ entries) → ∃ matched,
      List.Forall₂ (fun entry other => entry.1 = other.1 ∧ related entry.2 other.2) rest matched ∧
      ∀ other ∈ matched, other ∈ others := by
    intro rest hrest
    induction rest with
    | nil => exact ⟨[], .nil, List.forall_mem_nil _⟩
    | cons entry rest ih =>
        obtain ⟨hentry, hrest⟩ := List.forall_mem_cons.mp hrest
        obtain ⟨matched, hpairs, hmatched⟩ := ih hrest
        obtain ⟨value, hvalue, hmem⟩ := exists_lookup_of_mem (hkeys entry hentry)
        exact ⟨(entry.1, value) :: matched, .cons ⟨rfl, hvalues entry hentry value hvalue⟩ hpairs,
          List.forall_mem_cons.mpr ⟨hmem, hmatched⟩⟩
  obtain ⟨matched, hpairs, hmatched⟩ := hpaired entries fun _ hentry => hentry
  refine ⟨matched, hpairs, ?_⟩
  -- Distinct entries of a list that are as many as the list has are all it has.
  have hnodup : matched.Nodup := .of_map Prod.fst (map_fst_eq_of_forall₂ hpairs ▸ hdistinct)
  apply (List.subperm_of_subset hnodup hmatched).perm_of_length_le
  exact Nat.le_of_eq (hlength.symm.trans hpairs.length_eq)

/-- Where no key is repeated, the order of the entries makes no difference to what is found. -/
theorem lookup_eq_of_perm {others : List (α × β)} (hdistinct : (entries.map Prod.fst).Nodup)
    (hperm : entries.Perm others) (key : α) : entries.lookup key = others.lookup key := by
  have hothers : (others.map Prod.fst).Nodup := (hperm.map Prod.fst).nodup_iff.mp hdistinct
  ext value
  rw [← mem_iff_lookup_eq_some hdistinct, hperm.mem_iff, mem_iff_lookup_eq_some hothers]

/-- Maps that match hold related values under a key, or both of them hold none. -/
theorem Matches.lookup (hmatches : Matches related entries others)
    (hdistinct : (entries.map Prod.fst).Nodup) (key : α) :
    Option.Rel related (entries.lookup key) (others.lookup key) := by
  obtain ⟨matched, hpairs, hperm⟩ := hmatches
  rw [map_fst_eq_of_forall₂ hpairs] at hdistinct
  rw [← lookup_eq_of_perm hdistinct hperm]
  clear hdistinct hperm
  induction hpairs with
  | nil => exact .none
  | @cons entry other _ _ hpair _ ih =>
      rw [List.lookup_cons, List.lookup_cons, ← hpair.1]
      cases key == entry.1 with
      | true => exact .some hpair.2
      | false => exact ih

end Assoc

end ShapeQuery
