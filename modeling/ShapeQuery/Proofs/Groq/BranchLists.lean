import ShapeQuery.Groq.Text
import ShapeQuery.Proofs.Assoc
import ShapeQuery.Schema.Build

/-!
# Branches given by texts

The branches of a union may be given in any order, some of them again and again, and the fallback
anywhere among them.  The text of the union has a normal form: each named condition once, where it
is given first and with the node that is given last, and after them the last fallback.
-/

namespace ShapeQuery

theorem Guard.ofText_injective : Function.Injective Guard.ofText := by
  intro text other heq
  unfold Guard.ofText at heq
  split at heq <;> split at heq
  · next htext hother => rw [htext, hother]
  · cases heq
  · cases heq
  · exact Guard.when.inj heq

namespace Node

variable {branches others : List (String × Node)}

/-- The union of branches whose conditions are given by texts. -/
def selectByText (branches : List (String × Node)) (expansion : Option Expansion) : Build Node :=
  select (branches.map fun branch => (Guard.ofText branch.1, branch.2)) expansion

/-- The branches whose conditions are not the name of the fallback, as they are given. -/
def named (branches : List (String × Node)) : List (String × Node) :=
  branches.filter fun branch => branch.1 != "default"

def lastGiven? (branches : List (String × Node)) (condition : String) : Option Node :=
  branches.reverse.lookup condition

def branchText (branch : String × Node) : String × String :=
  (branch.1, branch.2.groq)

def namedBranch (branch : String × String) : String :=
  branch.1 ++ " => " ++ Groq.branchBody branch.2

theorem guardedTexts_ofText (branches : List (String × Node)) :
    Groq.guardedTexts (branches.map fun branch => (Guard.ofText branch.1, branch.2.groq)) =
      ((named branches).map branchText).map namedBranch := by
  induction branches with
  | nil => rfl
  | cons branch rest ih =>
      rw [Groq.guardedTexts, List.map_cons, List.filterMap_cons, ← Groq.guardedTexts, ih]
      by_cases hdefault : branch.1 = "default"
      · simp [Guard.ofText, named, hdefault]
      · simp [Guard.ofText, named, hdefault, branchText, namedBranch]

theorem fallbackTexts_ofText (branches : List (String × Node)) :
    Groq.fallbackTexts (branches.map fun branch => (Guard.ofText branch.1, branch.2.groq)) =
      (branches.filter fun branch => branch.1 == "default").map fun branch =>
        Groq.branchBody branch.2.groq := by
  induction branches with
  | nil => rfl
  | cons branch rest ih =>
      rw [Groq.fallbackTexts, List.map_cons, List.filterMap_cons, ← Groq.fallbackTexts, ih]
      by_cases hdefault : branch.1 = "default"
      · simp [Guard.ofText, hdefault]
      · simp [Guard.ofText, hdefault]

/-- The named branches that are kept: those that are written last, in the places of the first. -/
def kept (branches : List (String × Node)) : List (String × Node) :=
  Assoc.ofList (named branches)

theorem kept_eq_named (branches : List (String × Node)) :
    kept branches = named (Assoc.ofList branches) :=
  Assoc.ofList_filter (fun condition => condition != "default") branches

/-- Every condition is kept once, where it is given first. -/
theorem map_fst_kept (branches : List (String × Node)) :
    (kept branches).map Prod.fst =
      ((branches.map Prod.fst).filter (· != "default")).eraseDups := by
  rw [kept, Assoc.map_fst_ofList, named, List.filter_map]
  rfl

/-- Of the nodes for one condition the last is kept. -/
theorem lastGiven?_of_mem_kept {branch : String × Node} (hbranch : branch ∈ kept branches) :
    lastGiven? branches branch.1 = some branch.2 := by
  rw [kept_eq_named] at hbranch
  exact Assoc.mem_ofList_iff.mp (List.mem_filter.mp hbranch).1

/-- Repeated conditions may be merged before or after texts take the place of nodes. -/
theorem map_branchText_kept (branches : List (String × Node)) :
    (kept branches).map branchText = Assoc.ofList ((named branches).map branchText) :=
  (Assoc.ofList_map Function.injective_id Node.groq (named branches)).symm

/-- Of the branches that are written at most one is the fallback, the last one given. -/
theorem fallbackTexts_ofList (branches : List (String × Node)) :
    Groq.fallbackTexts ((Assoc.ofList branches).map fun branch =>
        (Guard.ofText branch.1, branch.2.groq)) =
      (lastGiven? branches "default").toList.map fun node => Groq.branchBody node.groq := by
  rw [fallbackTexts_ofText, Assoc.filter_key_eq "default" (Assoc.nodup_ofList branches),
    Assoc.lookup_ofList, List.map_map]
  rfl

/-- The text of a union, whatever branches are given for it and in whatever order. -/
theorem groq_selectByText (branches : List (String × Node)) (expansion : Option Expansion)
    (drawn : ℕ) :
    ((selectByText branches expansion).run drawn).1.groq =
      Groq.expanded (Groq.braced ("...select(" ++ ",".intercalate
        (((kept branches).map branchText).map namedBranch ++
          (lastGiven? branches "default").toList.map fun node => Groq.branchBody node.groq) ++
        ")")) expansion := by
  -- Different texts name different guards, so the branches may be written by their texts.
  have hwritten : branchTexts (Assoc.ofList
      (branches.map fun branch => (Guard.ofText branch.1, branch.2))) =
        (Assoc.ofList branches).map fun branch => (Guard.ofText branch.1, branch.2.groq) := by
    rw [branchTexts_eq_map, Assoc.ofList_map Guard.ofText_injective (fun node => node) branches,
      List.map_map]
    rfl
  have hselect : ((selectByText branches expansion).run drawn).1.groq =
      Groq.select expansion (branchTexts (Assoc.ofList
        (branches.map fun branch => (Guard.ofText branch.1, branch.2)))) := rfl
  rw [hselect, hwritten, Groq.select, guardedTexts_ofText, fallbackTexts_ofList, ← kept_eq_named]

/-- Only the texts of the named branches, in their order, and that of the last fallback count. -/
theorem groq_selectByText_congr
    (hnamed : (named branches).map branchText = (named others).map branchText)
    (hdefault : (lastGiven? branches "default").map Node.groq =
      (lastGiven? others "default").map Node.groq)
    (expansion : Option Expansion) (drawn drawn' : ℕ) :
    ((selectByText branches expansion).run drawn).1.groq =
      ((selectByText others expansion).run drawn').1.groq := by
  have hfallback (branches : List (String × Node)) :
      ((lastGiven? branches "default").toList.map fun node => Groq.branchBody node.groq) =
        ((lastGiven? branches "default").map Node.groq).toList.map Groq.branchBody := by
    cases lastGiven? branches "default" <;> rfl
  rw [groq_selectByText, groq_selectByText, map_branchText_kept, map_branchText_kept, hnamed,
    hfallback, hfallback, hdefault]

/-- Of the branches that are given to a union, each named condition is kept once, where it is given
first and with the node that is given last, and the last fallback comes after them.  A branch whose
node has no text takes everything.  So it does not matter where the fallbacks stand. -/
theorem selectByText_normal_form (branches : List (String × Node)) (expansion : Option Expansion)
    (drawn : ℕ) :
    let body := fun node : Node => if node.groq = "" then "..." else node.groq
    (∃ kept : List (String × Node),
      kept.map Prod.fst = ((branches.map Prod.fst).filter (· != "default")).eraseDups ∧
      (∀ branch ∈ kept, lastGiven? branches branch.1 = some branch.2) ∧
      ((selectByText branches expansion).run drawn).1.groq =
        Groq.expanded (Groq.braced ("...select(" ++ ",".intercalate
          (kept.map (fun branch => branch.1 ++ " => " ++ body branch.2) ++
            (lastGiven? branches "default").toList.map body) ++ ")")) expansion) ∧
    ∀ (others : List (String × Node)) (drawn' : ℕ),
      (named branches).map branchText = (named others).map branchText →
      (lastGiven? branches "default").map Node.groq =
        (lastGiven? others "default").map Node.groq →
      ((selectByText branches expansion).run drawn).1.groq =
        ((selectByText others expansion).run drawn').1.groq := by
  intro body
  constructor
  · refine ⟨kept branches, map_fst_kept branches, fun branch => lastGiven?_of_mem_kept, ?_⟩
    rw [groq_selectByText, List.map_map]
    rfl
  · intro others drawn' hnamed hdefault
    exact groq_selectByText_congr hnamed hdefault expansion drawn drawn'

/-- Two fallbacks around a condition that is given twice, and the second of them further on. -/
theorem selectByText_normal_form_moved_default :
    let leaf := mk ⟨0⟩ (.leaf .string)
    let person := mk ⟨1⟩ (.projection [("name", leaf)] .none)
    let branches := [("default", leaf), ("a", person), ("b", leaf), ("default", person), ("a", leaf)]
    let others := [("a", person), ("b", leaf), ("a", leaf), ("default", person)]
    ((named branches).map branchText = (named others).map branchText ∧
      (lastGiven? branches "default").map Node.groq =
        (lastGiven? others "default").map Node.groq) ∧
      ((selectByText branches none).run 2).1.groq =
        "\x7b...select(a => ...,b => ...,\x7bname\x7d)\x7d" ∧
      ((selectByText others none).run 2).1.groq =
        "\x7b...select(a => ...,b => ...,\x7bname\x7d)\x7d" := by
  intro leaf person branches others
  have hnamed : (named branches).map branchText = (named others).map branchText := rfl
  have hdefault : (lastGiven? branches "default").map Node.groq =
      (lastGiven? others "default").map Node.groq := rfl
  have hmoved := (selectByText_normal_form branches none 2).2 others 2 hnamed hdefault
  have htext : ((selectByText branches none).run 2).1.groq =
      "\x7b...select(a => ...,b => ...,\x7bname\x7d)\x7d" := by decide
  exact ⟨⟨hnamed, hdefault⟩, htext, hmoved.symm.trans htext⟩

end Node

end ShapeQuery
