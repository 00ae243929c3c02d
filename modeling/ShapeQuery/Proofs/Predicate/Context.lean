import ShapeQuery.Proofs.Predicate.RoundTrip

/-!
# Conditions in the text of others

What a text is scanned as does not depend on what was scanned before, and what stands in
parentheses is read as it is by itself.  But a condition that is joined to another one
without parentheses may be torn apart: only what stands before its first disjunction sign
becomes a part of the conjunction.
-/

namespace ShapeQuery.Formula

variable {tokens : List Token} {text : List Char} {formula : Formula}

def Scanner.behind (held : List Token) (scanner : Scanner) : Scanner :=
  { scanner with tokens := scanner.tokens ++ held }

theorem Scanner.start_behind (held tokens : List Token) (c : Char) :
    Scanner.start (tokens ++ held) c = (Scanner.start tokens c).behind held := by
  unfold start
  split_ifs with hblank hquote hoperator
  · rfl
  · rfl
  · rfl
  · cases bracket? c with
    | none => rfl
    | some token => rfl

theorem Scanner.step_behind (held : List Token) (scanner : Scanner) (c : Char) :
    (scanner.behind held).step c = (scanner.step c).map (behind held) := by
  obtain ⟨state, tokens⟩ := scanner
  cases state with
  | between => exact congrArg some (start_behind held tokens c)
  | word letters =>
      simp only [behind, step]
      split_ifs with hends
      · exact congrArg some (start_behind held (.word letters.reverse :: tokens) c)
      · rfl
  | operator first =>
      simp only [behind, step]
      cases twofold? first c with
      | some token => rfl
      | none =>
          cases single? first with
          | none => rfl
          | some token => exact congrArg some (start_behind held (token :: tokens) c)
  | quoted letters =>
      simp only [behind, step]
      split_ifs with hquote hslash
      · cases Quoted.decode letters.reverse with
        | none => rfl
        | some value => rfl
      · rfl
      · rfl
  | escaped letters => rfl

/-- What was scanned before goes on standing behind what is scanned now. -/
theorem Scanner.foldlM_behind (held : List Token) (text : List Char) (scanner : Scanner) :
    text.foldlM step (scanner.behind held) = (text.foldlM step scanner).map (behind held) := by
  induction text generalizing scanner with
  | nil => rfl
  | cons c rest ih =>
      rw [List.foldlM_cons, List.foldlM_cons, step_behind]
      cases scanner.step c with
      | none => rfl
      | some next => exact ih next

theorem Scanner.finish_behind (held : List Token) (scanner : Scanner) :
    (scanner.behind held).finish = scanner.finish.map (held.reverse ++ ·) := by
  obtain ⟨state, tokens⟩ := scanner
  cases state with
  | between => simp [behind, finish]
  | word letters => simp [behind, finish]
  | operator first =>
      simp only [behind, finish]
      cases single? first with
      | none => rfl
      | some token => simp
  | quoted letters => rfl
  | escaped letters => rfl

/-- A text is scanned as the same tokens behind any others. -/
theorem scan_eq_map_tokens? (held : List Token) (text : List Char) :
    scan held text = (tokens? text).map (held.reverse ++ ·) := by
  have hfold := Scanner.foldlM_behind held text ⟨.between, []⟩
  have hstart : Scanner.behind held ⟨.between, []⟩ = ⟨.between, held⟩ := rfl
  rw [hstart] at hfold
  rw [tokens?, scan, scan, hfold]
  cases text.foldlM Scanner.step ⟨.between, []⟩ with
  | none => rfl
  | some scanner => exact scanner.finish_behind held

theorem ScansAlone.tokens?_append {before : List Char} {beforeTokens : List Token}
    (hbefore : ScansAlone before beforeTokens) (text : List Char) :
    tokens? (before ++ text) = (tokens? text).map (beforeTokens ++ ·) := by
  rw [tokens?, hbefore, scan_eq_map_tokens?]
  simp

/-- A parenthesis ends a token where the end of the text would. -/
theorem Scanner.step_closing {scanner : Scanner} (hfinish : scanner.finish = some tokens) :
    scanner.step ')' = some ⟨.between, .closing :: tokens.reverse⟩ := by
  obtain ⟨state, read⟩ := scanner
  cases state with
  | between =>
      obtain rfl := Option.some.inj hfinish
      rw [List.reverse_reverse]
      rfl
  | word letters =>
      obtain rfl := Option.some.inj hfinish
      rw [List.reverse_reverse]
      rfl
  | operator first =>
      have htwofold : twofold? first ')' = none := by
        unfold twofold?
        split <;> first | rfl | simp_all
      obtain ⟨token, htoken, rfl⟩ := Option.map_eq_some_iff.mp hfinish
      simp only [step, htwofold, htoken, List.reverse_reverse]
      rfl
  | quoted letters => exact absurd hfinish (by simp [finish])
  | escaped letters => exact absurd hfinish (by simp [finish])

/-- A parenthesis that is closed behind a text ends its last token. -/
theorem tokens?_append_closing (htext : tokens? text = some tokens) :
    tokens? (text ++ [')']) = some (tokens ++ [.closing]) := by
  obtain ⟨scanner, hfold, hfinish⟩ := Option.bind_eq_some_iff.mp htext
  rw [tokens?, scan, foldlM_append_of_eq_some hfold,
    foldlM_cons_of_eq_some (Scanner.step_closing hfinish)]
  simp [Scanner.finish]

def Reader.inside (levels : List Level) (reader : Reader) : Reader :=
  { reader with outer := reader.outer ++ levels }

/-- A reader sees no more than the levels it opened itself. -/
theorem Reader.step_inside (reader : Reader) {token : Token}
    (htoken : token = .closing → reader.outer ≠ []) (levels : List Level) :
    (reader.inside levels).step token = (reader.step token).map (inside levels) := by
  obtain ⟨current, outer⟩ := reader
  cases token with
  | closing =>
      cases outer with
      | nil => exact absurd rfl (htoken rfl)
      | cons level outer =>
          simp only [inside, step, List.cons_append, Option.map_map]
          rfl
  | conjunction =>
      simp only [inside, step, Option.map_map]
      rfl
  | disjunction =>
      simp only [inside, step, Option.map_map]
      rfl
  | _ => rfl

theorem Reader.step_inside_of_eq_some {reader next : Reader} {token : Token}
    (hstep : reader.step token = some next) (levels : List Level) :
    (reader.inside levels).step token = some (next.inside levels) := by
  have htoken : token = .closing → reader.outer ≠ [] := by
    rintro rfl houter
    simp [step, houter] at hstep
  rw [reader.step_inside htoken levels, hstep, Option.map_some]

/-- Levels that were open before stay as they are. -/
theorem Reader.foldlM_inside {reader next : Reader}
    (hfold : tokens.foldlM step reader = some next) (levels : List Level) :
    tokens.foldlM step (reader.inside levels) = some (next.inside levels) := by
  induction tokens generalizing reader with
  | nil =>
      obtain rfl := Option.some.inj hfold
      rfl
  | cons token rest ih =>
      rw [List.foldlM_cons] at hfold
      obtain ⟨middle, hstep, hrest⟩ := Option.bind_eq_some_iff.mp hfold
      rw [foldlM_cons_of_eq_some (step_inside_of_eq_some hstep levels), ih hrest]

/-- What is read by itself is read the same in parentheses. -/
theorem readsLevel_iff : ReadsLevel tokens formula ↔ ofTokens? tokens = some formula := by
  constructor
  · intro hreads
    obtain ⟨level, hfold, hlevel⟩ := hreads []
    rw [ofTokens?, hfold, Option.bind_some]
    exact hlevel
  · intro hread outer
    obtain ⟨⟨level, levels⟩, hfold, hfinish⟩ := Option.bind_eq_some_iff.mp hread
    cases levels with
    | cons level levels => exact absurd hfinish (by simp [Reader.finish])
    | nil => exact ⟨level, Reader.foldlM_inside hfold outer, hfinish⟩

theorem ofText?_of_readsLevel {text : String} (htext : tokens? text.toList = some tokens)
    (htokens : ReadsLevel tokens formula) : ofText? text = some formula := by
  rw [ofText?, htext, Option.bind_some]
  exact readsLevel_iff.mp htokens

/-- How many parentheses are open behind a token, if as many as `depth` are open before it. -/
def Token.depth (depth : Nat) : Token → Nat
  | .opening => depth + 1
  | .closing => depth - 1
  | _ => depth

def Token.divides (depth : Nat) (token : Token) : Bool :=
  depth == 0 && token == .disjunction

/-- Whether a disjunction sign stands outside all parentheses. -/
def divides : Nat → List Token → Bool
  | _, [] => false
  | depth, token :: rest => token.divides depth || divides (token.depth depth) rest

variable {guard : Formula}

/-- Two readings of a level, of which the other one started behind a further part.  Once a
disjunction is divided, that part belongs to the first disjunct alone. -/
inductive Level.Guarded (guard : Formula) : Bool → Level → Level → Prop where
  | whole {conjuncts : List Formula} {pieces : List Piece} :
      Guarded guard false ⟨[], conjuncts, pieces⟩ ⟨[], conjuncts ++ [guard], pieces⟩
  | divided {disjuncts conjuncts : List Formula} {pieces : List Piece} {first guarded : Formula} :
      (∀ valuation, guarded.holds valuation = (guard.holds valuation && first.holds valuation)) →
      Guarded guard true ⟨disjuncts ++ [first], conjuncts, pieces⟩
        ⟨disjuncts ++ [guarded], conjuncts, pieces⟩

namespace Level

variable {level guarded : Level} {divided : Bool}

theorem Guarded.pieces_eq (hguarded : level.Guarded guard divided guarded) :
    guarded.pieces = level.pieces := by
  cases hguarded with
  | whole => rfl
  | divided hfirst => rfl

theorem Guarded.divided_iff (hguarded : level.Guarded guard divided guarded) :
    divided = true ↔ level.disjuncts ≠ [] := by
  cases hguarded with
  | whole => simp
  | divided hfirst => simp

theorem Guarded.withPieces (hguarded : level.Guarded guard divided guarded)
    (pieces : List Piece) :
    Guarded guard divided { level with pieces } { guarded with pieces } := by
  cases hguarded with
  | whole => exact .whole
  | divided hfirst => exact .divided hfirst

theorem Guarded.push (hguarded : level.Guarded guard divided guarded) (piece : Piece) :
    (level.push piece).Guarded guard divided (guarded.push piece) := by
  have hpush := hguarded.withPieces (piece :: level.pieces)
  rw [Level.push, Level.push, hguarded.pieces_eq]
  exact hpush

/-- At a conjunction sign the same operand joins both readings. -/
theorem Guarded.conjuncts? {conjuncts : List Formula}
    (hguarded : level.Guarded guard divided guarded)
    (hconjuncts : level.conjuncts? = some conjuncts) :
    ∃ others, guarded.conjuncts? = some others ∧
      Guarded guard divided ⟨level.disjuncts, conjuncts, []⟩ ⟨guarded.disjuncts, others, []⟩ := by
  obtain ⟨last, hlast, rfl⟩ := Option.map_eq_some_iff.mp hconjuncts
  rw [← hguarded.pieces_eq] at hlast
  refine ⟨last :: guarded.conjuncts, Option.map_eq_some_iff.mpr ⟨last, hlast, rfl⟩, ?_⟩
  cases hguarded with
  | whole => exact .whole
  | divided hfirst => exact .divided hfirst

/-- A disjunction sign ends the first disjunct, and the guard with it. -/
theorem Guarded.disjuncts? {disjuncts : List Formula}
    (hguarded : level.Guarded guard divided guarded)
    (hdisjuncts : level.disjuncts? = some disjuncts) :
    ∃ others, guarded.disjuncts? = some others ∧
      Guarded guard true ⟨disjuncts, [], []⟩ ⟨others, [], []⟩ := by
  obtain ⟨conjuncts, hconjuncts, rfl⟩ := Option.map_eq_some_iff.mp hdisjuncts
  obtain ⟨last, hlast, rfl⟩ := Option.map_eq_some_iff.mp hconjuncts
  cases hguarded with
  | @whole conjuncts pieces =>
      refine ⟨[allOf (last :: (conjuncts ++ [guard])).reverse], ?_,
        @Guarded.divided guard [] _ _ _ _ ?_⟩
      · simp only [Level.disjuncts?, Level.conjuncts?, hlast, Option.map_some]
      · intro valuation
        have hreverse : (last :: (conjuncts ++ [guard])).reverse =
            guard :: (last :: conjuncts).reverse := by simp
        rw [hreverse, holds_allOf, holds_allOf, allHold]
  | @divided disjuncts conjuncts pieces first guarded hfirst =>
      refine ⟨allOf (last :: conjuncts).reverse :: (disjuncts ++ [guarded]), ?_, ?_⟩
      · simp only [Level.disjuncts?, Level.conjuncts?, hlast, Option.map_some]
      · exact @Guarded.divided guard (allOf (last :: conjuncts).reverse :: disjuncts) _ _ _ _ hfirst

/-- Only the pieces of a level decide what a closed parenthesis makes of it, and only they
change. -/
theorem enclose?_of_pieces_eq {inner closed other : Level}
    (hclosed : level.enclose? inner = some closed) (hpieces : other.pieces = level.pieces) :
    closed = { level with pieces := closed.pieces } ∧
      other.enclose? inner = some { other with pieces := closed.pieces } := by
  obtain ⟨pieces, henclosed, rfl⟩ := Option.map_eq_some_iff.mp hclosed
  refine ⟨rfl, Option.map_eq_some_iff.mpr ⟨pieces, ?_, rfl⟩⟩
  rw [hpieces, henclosed]

theorem Guarded.enclose? {inner closed : Level} (hguarded : level.Guarded guard divided guarded)
    (hclosed : level.enclose? inner = some closed) :
    ∃ other, guarded.enclose? inner = some other ∧ Guarded guard divided closed other := by
  obtain ⟨hlevel, hother⟩ := enclose?_of_pieces_eq hclosed hguarded.pieces_eq
  refine ⟨_, hother, ?_⟩
  rw [hlevel]
  exact hguarded.withPieces closed.pieces

end Level

/-- Two readings in which the outermost level is guarded. -/
inductive Reader.Guarded (guard : Formula) : Bool → Reader → Reader → Prop where
  | outermost {divided : Bool} {level guarded : Level} :
      level.Guarded guard divided guarded →
      Guarded guard divided ⟨level, []⟩ ⟨guarded, []⟩
  | enclosed {divided : Bool} {current : Level} {levels : List Level} {level guarded : Level} :
      level.Guarded guard divided guarded →
      Guarded guard divided ⟨current, levels ++ [level]⟩ ⟨current, levels ++ [guarded]⟩

variable {reader guarded next : Reader} {divided : Bool} {token : Token}

/-- As many levels are open as the tokens have left parentheses open. -/
theorem Reader.length_outer_of_step (hstep : reader.step token = some next) :
    next.outer.length = token.depth reader.outer.length := by
  obtain ⟨current, outer⟩ := reader
  cases token with
  | closing =>
      cases outer with
      | nil => exact absurd hstep (by simp [step])
      | cons level outer =>
          obtain ⟨closed, hclosed, rfl⟩ := Option.map_eq_some_iff.mp hstep
          rfl
  | conjunction =>
      obtain ⟨conjuncts, hconjuncts, rfl⟩ := Option.map_eq_some_iff.mp hstep
      rfl
  | disjunction =>
      obtain ⟨disjuncts, hdisjuncts, rfl⟩ := Option.map_eq_some_iff.mp hstep
      rfl
  | _ =>
      obtain rfl := Option.some.inj hstep
      rfl

/-- A token leaves the outermost level guarded, and divides it if it is a disjunction sign
outside all parentheses. -/
theorem Reader.Guarded.step (hguarded : reader.Guarded guard divided guarded)
    (hstep : reader.step token = some next) :
    ∃ other, guarded.step token = some other ∧
      next.Guarded guard (token.divides reader.outer.length || divided) other := by
  cases hguarded with
  | outermost hlevel =>
      cases token with
      | closing => exact absurd hstep (by simp [Reader.step])
      | opening =>
          obtain rfl := Option.some.inj hstep
          exact ⟨_, rfl, @Guarded.enclosed guard _ _ [] _ _ hlevel⟩
      | conjunction =>
          obtain ⟨conjuncts, hconjuncts, rfl⟩ := Option.map_eq_some_iff.mp hstep
          obtain ⟨others, hothers, hnext⟩ := hlevel.conjuncts? hconjuncts
          exact ⟨_, Option.map_eq_some_iff.mpr ⟨others, hothers, rfl⟩, .outermost hnext⟩
      | disjunction =>
          obtain ⟨disjuncts, hdisjuncts, rfl⟩ := Option.map_eq_some_iff.mp hstep
          obtain ⟨others, hothers, hnext⟩ := hlevel.disjuncts? hdisjuncts
          exact ⟨_, Option.map_eq_some_iff.mpr ⟨others, hothers, rfl⟩, .outermost hnext⟩
      | _ =>
          obtain rfl := Option.some.inj hstep
          exact ⟨_, rfl, .outermost (hlevel.push _)⟩
  | @enclosed current levels level guarded hlevel =>
      -- Unless the last parenthesis is closed, neither reading looks at the outermost level.
      by_cases hlast : token = .closing ∧ levels = []
      · obtain ⟨rfl, rfl⟩ := hlast
        obtain ⟨closed, hclosed, rfl⟩ := Option.map_eq_some_iff.mp hstep
        obtain ⟨other, hother, hnext⟩ := hlevel.enclose? hclosed
        exact ⟨_, Option.map_eq_some_iff.mpr ⟨other, hother, rfl⟩, .outermost hnext⟩
      · have hinner (htoken : token = .closing) : levels ≠ [] :=
          fun hlevels => hlast ⟨htoken, hlevels⟩
        have hstep' : ((Reader.step ⟨current, levels⟩ token).map (inside [level])) = some next :=
          (Reader.step_inside ⟨current, levels⟩ hinner [level]).symm.trans hstep
        obtain ⟨middle, hmiddle, rfl⟩ := Option.map_eq_some_iff.mp hstep'
        refine ⟨middle.inside [guarded], ?_, ?_⟩
        · exact step_inside_of_eq_some hmiddle [guarded]
        · have hdepth : token.divides (levels ++ [level]).length = false := by
            simp [Token.divides]
          rw [hdepth]
          exact .enclosed hlevel

/-- Both readings go through the same tokens, and the first dividing sign divides them. -/
theorem Reader.Guarded.foldlM (hguarded : reader.Guarded guard divided guarded)
    (hfold : tokens.foldlM Reader.step reader = some next) :
    ∃ other, tokens.foldlM Reader.step guarded = some other ∧
      next.Guarded guard (divides reader.outer.length tokens || divided) other := by
  induction tokens generalizing reader guarded divided with
  | nil =>
      obtain rfl := Option.some.inj hfold
      exact ⟨guarded, rfl, hguarded⟩
  | cons token rest ih =>
      rw [List.foldlM_cons] at hfold
      obtain ⟨middle, hstep, hrest⟩ := Option.bind_eq_some_iff.mp hfold
      obtain ⟨other, hother, hmiddle⟩ := hguarded.step hstep
      obtain ⟨last, hlast, hnext⟩ := ih hmiddle hrest
      refine ⟨last, ?_, ?_⟩
      · rw [foldlM_cons_of_eq_some hother, hlast]
      · rw [Reader.length_outer_of_step hstep, Bool.or_left_comm, ← Bool.or_assoc] at hnext
        exact hnext

/-- What is read on a guarded level: the guard has joined the first disjunct. -/
theorem Level.Guarded.formula? {level guarded : Level}
    (hguarded : level.Guarded guard divided guarded) (hlevel : level.formula? = some formula) :
    ∃ first rest merged, formula = anyOf (first :: rest) ∧ guarded.formula? = some merged ∧
      (∀ valuation, merged.holds valuation =
        (guard.holds valuation && first.holds valuation || anyHolds valuation rest)) ∧
      (divided = true ↔ rest ≠ []) := by
  obtain ⟨disjuncts, hdisjuncts, rfl⟩ := Option.map_eq_some_iff.mp hlevel
  obtain ⟨others, hothers, hnext⟩ := hguarded.disjuncts? hdisjuncts
  cases hnext with
  | @divided disjuncts conjuncts pieces first joined hfirst =>
      refine ⟨first, disjuncts.reverse, anyOf (joined :: disjuncts.reverse), ?_, ?_, ?_, ?_⟩
      · rw [List.reverse_append]
        rfl
      · rw [Level.formula?, hothers, Option.map_some, List.reverse_append]
        rfl
      · intro valuation
        rw [holds_anyOf, anyHolds, hfirst]
      · obtain ⟨conjuncts, hconjuncts, hlast⟩ := Option.map_eq_some_iff.mp hdisjuncts
        have hlength : level.disjuncts.length = disjuncts.reverse.length := by
          simpa using congrArg List.length hlast
        rw [hguarded.divided_iff, ← List.length_pos_iff, ← List.length_pos_iff, hlength]

/-- A conjunction with an operand in front of other tokens takes in what stands before their
first disjunction sign outside parentheses. -/
theorem ofTokens?_behind_operand {guardTokens : List Token}
    (hguard : ReadsOperand guardTokens guard) (htokens : ofTokens? tokens = some formula) :
    ∃ first rest merged, formula = anyOf (first :: rest) ∧
      ofTokens? (guardTokens ++ .conjunction :: tokens) = some merged ∧
      (∀ valuation, merged.holds valuation =
        (guard.holds valuation && first.holds valuation || anyHolds valuation rest)) ∧
      (divides 0 tokens = true ↔ rest ≠ []) := by
  obtain ⟨pieces, hfold, hpieces⟩ := hguard [] [] []
  change guardTokens.foldlM Reader.step ⟨.empty, []⟩ = _ at hfold
  have hjoin : Reader.step ⟨⟨[], [], pieces⟩, []⟩ .conjunction =
      some ⟨⟨[], [guard], []⟩, []⟩ := by
    simp [Reader.step, Level.conjuncts?, hpieces]
  obtain ⟨reader, hread, hfinish⟩ := Option.bind_eq_some_iff.mp htokens
  have hstart : Reader.Guarded guard false ⟨.empty, []⟩ ⟨⟨[], [guard], []⟩, []⟩ :=
    .outermost (@Level.Guarded.whole guard [] [])
  obtain ⟨other, hother, hguarded⟩ := hstart.foldlM hread
  cases hguarded with
  | @enclosed current levels level guarded hlevel =>
      cases levels with
      | nil => exact absurd hfinish (by simp [Reader.finish])
      | cons _ _ => exact absurd hfinish (by simp [Reader.finish])
  | outermost hlevel =>
      obtain ⟨first, rest, merged, hformula, hmerged, hholds, hrest⟩ := hlevel.formula? hfinish
      refine ⟨first, rest, merged, hformula, ?_, hholds, ?_⟩
      · rw [ofTokens?, foldlM_append_of_eq_some hfold, foldlM_cons_of_eq_some hjoin, hother]
        exact hmerged
      · simpa using hrest

end ShapeQuery.Formula
