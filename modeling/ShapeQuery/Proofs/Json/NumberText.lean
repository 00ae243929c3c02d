import ShapeQuery.Json.Number
import ShapeQuery.Proofs.Binary64.Decimal

/-!
# Numbers read back

The text of every number reads back as the same number.  For doubles this joins two
facts: the decimal that is written reads back as the double, and the layout of its
digits keeps the value of the decimal.
-/

namespace ShapeQuery.Number

/-- A string of decimal digits that starts with zero only if it is zero alone. -/
structure Plain (digits : List Char) : Prop where
  ne_nil : digits ≠ []
  all_digits : ∀ c ∈ digits, c.isDigit = true
  no_padding : digits.head? = some '0' → digits = ['0']

/-- Such a string is not turned down as the beginning of a number. -/
theorem Plain.not_refused {digits : List Char} (hdigits : Plain digits) :
    ¬(digits = [] ∨ digits.head? = some '0' ∧ digits ≠ ['0']) := by
  intro hrefused
  cases hrefused with
  | inl hempty => exact hdigits.ne_nil hempty
  | inr hpadded => exact hpadded.2 (hdigits.no_padding hpadded.1)

/-- Every digit that follows makes those before it count ten times as much. -/
theorem digitsValue_append (first second : List Char) :
    digitsValue (first ++ second) =
      digitsValue first * 10 ^ second.length + digitsValue second := by
  have happend : digitsValue (first ++ second) =
      Nat.ofDigitChars 10 second (digitsValue first) := Nat.ofDigitChars_append 0
  rw [happend, Nat.ofDigitChars_eq_ofDigitChars_zero, mul_comm]
  rfl

theorem digitsValue_replicate_zero (count : ℕ) :
    digitsValue (List.replicate count '0') = 0 := by
  have hzeros : digitsValue (List.replicate count '0') = 10 ^ count * 0 :=
    Nat.ofDigitChars_replicate_zero
  rw [hzeros, mul_zero]

/-- The digits of a number have its value. -/
theorem digitsValue_toDigits (n : ℕ) : digitsValue (Nat.toDigits 10 n) = n :=
  Nat.ofDigitChars_ten_toDigits

theorem isDigit_of_mem_toDigits {n : ℕ} : ∀ c ∈ Nat.toDigits 10 n, c.isDigit = true :=
  fun _ hc => Nat.isDigit_of_mem_toDigits (by decide) (by decide) hc

theorem head?_toDigits_ne_zero {n : ℕ} (hn : 0 < n) :
    (Nat.toDigits 10 n).head? ≠ some '0' := by
  induction n using Nat.strongRecOn with
  | ind n ih =>
      rw [Nat.toDigits_eq_if (by decide)]
      split
      · next hsmall => interval_cases n <;> decide
      · next hlarge =>
          rw [List.head?_append_of_ne_nil _ Nat.toDigits_ne_nil]
          exact ih (n / 10) (by omega) (by omega)

/-- Numbers are written without zeros in front. -/
theorem plain_toDigits (n : ℕ) : Plain (Nat.toDigits 10 n) where
  ne_nil := Nat.toDigits_ne_nil
  all_digits := isDigit_of_mem_toDigits
  no_padding hzero := by
    by_cases hn : 0 < n
    · exact absurd hzero (head?_toDigits_ne_zero hn)
    · obtain rfl : n = 0 := by omega
      rfl

section Reading

variable {digits rest : List Char}

theorem takeWhile_isDigit (hdigits : ∀ c ∈ digits, c.isDigit = true)
    (hrest : ∀ c ∈ rest.head?, c.isDigit = false) :
    (digits ++ rest).takeWhile Char.isDigit = digits := by
  rw [List.takeWhile_append_of_pos hdigits]
  cases rest with
  | nil => simp
  | cons c rest => simp [hrest c rfl]

theorem dropWhile_isDigit (hdigits : ∀ c ∈ digits, c.isDigit = true)
    (hrest : ∀ c ∈ rest.head?, c.isDigit = false) :
    (digits ++ rest).dropWhile Char.isDigit = rest := by
  rw [List.dropWhile_append_of_pos hdigits]
  cases rest with
  | nil => simp
  | cons c rest => simp [hrest c rfl]

theorem readExponent_signed (negative : Bool) (n : ℕ) :
    readExponent ('e' :: (if negative then '-' else '+') :: Nat.toDigits 10 n) =
      some (if negative then -(n : ℤ) else n) := by
  have hall : (Nat.toDigits 10 n).all Char.isDigit = true :=
    List.all_eq_true.mpr isDigit_of_mem_toDigits
  cases negative <;> simp [readExponent, hall, digitsValue_toDigits]

def ofParts (negative : Bool) (whole fraction : List Char) (e : ℤ) : Option Number :=
  (Binary64.ofDecimal? negative (digitsValue (whole ++ fraction)) (e - fraction.length)).map
    .float

variable {whole fraction : List Char}

theorem readMagnitude_point (negative : Bool) (hwhole : Plain whole) (hfraction : fraction ≠ [])
    (hdigits : ∀ c ∈ fraction, c.isDigit = true) (hrest : ∀ c ∈ rest.head?, c.isDigit = false) :
    readMagnitude negative (whole ++ '.' :: (fraction ++ rest)) =
      (readExponent rest).bind (ofParts negative whole fraction) := by
  have hpoint : ∀ c ∈ ('.' :: (fraction ++ rest)).head?, c.isDigit = false := by
    rintro c ⟨⟩
    rfl
  simp only [readMagnitude, takeWhile_isDigit hwhole.all_digits hpoint,
    dropWhile_isDigit hwhole.all_digits hpoint, hwhole.not_refused, if_false,
    takeWhile_isDigit hdigits hrest, dropWhile_isDigit hdigits hrest, hfraction]
  rfl

theorem readMagnitude_exponent (negative : Bool) (hwhole : Plain whole) (rest : List Char) :
    readMagnitude negative (whole ++ 'e' :: rest) =
      (readExponent ('e' :: rest)).bind (ofParts negative whole []) := by
  have hmark : ∀ c ∈ ('e' :: rest).head?, c.isDigit = false := by
    rintro c ⟨⟩
    rfl
  simp only [readMagnitude, takeWhile_isDigit hwhole.all_digits hmark,
    dropWhile_isDigit hwhole.all_digits hmark, hwhole.not_refused, if_false]
  rfl

end Reading

section Layout

variable {digits : List Char} {power : ℤ}

theorem plain_of_leading (hne : digits ≠ []) (hdigits : ∀ c ∈ digits, c.isDigit = true)
    (hleading : digits.head? ≠ some '0') : Plain digits :=
  ⟨hne, hdigits, fun hzero => absurd hzero hleading⟩

/-- Zeros at the end of the digits go into the exponent. -/
theorem ofParts_eq (negative : Bool) (shift : ℕ) {whole fraction : List Char} {e e' : ℤ}
    (hvalue : digitsValue (whole ++ fraction) = digitsValue digits * 10 ^ shift)
    (hexponent : e - fraction.length + shift = e') :
    ofParts negative whole fraction e =
      (Binary64.ofDecimal? negative (digitsValue digits) e').map .float := by
  rw [ofParts, hvalue]
  congr 1
  refine Binary64.ofDecimal?_congr negative ?_
  rw [← hexponent, zpow_add₀ (by norm_num), zpow_natCast]
  push_cast
  ring

/-- Digits with the point among or behind them read back. -/
theorem readMagnitude_layout_whole (negative : Bool) (hne : digits ≠ [])
    (hdigits : ∀ c ∈ digits, c.isDigit = true) (hleading : digits.head? ≠ some '0')
    (hlow : 0 ≤ power) (hhigh : power ≤ 15) :
    readMagnitude negative (layout digits power) =
      (Binary64.ofDecimal? negative (digitsValue digits) (power - digits.length + 1)).map
        .float := by
  set count := power.toNat + 1 with hcount
  set padding := List.replicate (count - digits.length) '0' with hpadding
  set fraction := if digits.length ≤ count then ['0'] else digits.drop count with hfraction
  have hlayout : layout digits power = (digits.take count ++ padding) ++ '.' :: fraction := by
    simp only [layout, hlow, hhigh, and_self, if_true, hcount, hpadding, hfraction]
  have hwhole : Plain (digits.take count ++ padding) := by
    refine plain_of_leading ?_ ?_ ?_
    · simp [hne, hcount]
    · intro c hc
      rcases List.mem_append.mp hc with hc | hc
      · exact hdigits c (List.mem_of_mem_take hc)
      · rw [(List.mem_replicate.mp hc).2]
        rfl
    · rw [List.head?_append_of_ne_nil _ (by simp [hne, hcount]), List.head?_take,
        if_neg (by omega)]
      exact hleading
  have hfractionne : fraction ≠ [] := by
    rw [hfraction]
    split
    · simp
    · simp only [ne_eq, List.drop_eq_nil_iff]
      omega
  have hfractiondigits : ∀ c ∈ fraction, c.isDigit = true := by
    rw [hfraction]
    split
    · simp
    · exact fun c hc => hdigits c (List.mem_of_mem_drop hc)
  have hnone : ∀ c ∈ ([] : List Char).head?, c.isDigit = false := by simp
  have hread := readMagnitude_point negative hwhole hfractionne hfractiondigits hnone
  rw [List.append_nil] at hread
  rw [hlayout, hread]
  simp only [readExponent, Option.bind_some]
  by_cases hshort : digits.length ≤ count
  · -- All digits stand before the point.
    have hfraction' : fraction = ['0'] := by rw [hfraction, if_pos hshort]
    refine ofParts_eq negative (count - digits.length + 1) ?_ ?_
    · rw [hfraction', List.take_of_length_le hshort, List.append_assoc, digitsValue_append,
        hpadding, digitsValue_append, digitsValue_replicate_zero]
      simp [digitsValue]
    · rw [hfraction']
      simp only [List.length_singleton]
      omega
  · -- The digits reach beyond the point.
    have hfraction' : fraction = digits.drop count := by rw [hfraction, if_neg hshort]
    have hpadding' : padding = [] := by
      rw [hpadding, Nat.sub_eq_zero_of_le (by omega), List.replicate_zero]
    refine ofParts_eq negative 0 ?_ ?_
    · rw [hfraction', hpadding', List.append_nil, List.take_append_drop, pow_zero, mul_one]
    · rw [hfraction', List.length_drop]
      omega

/-- So do digits behind the point and some zeros. -/
theorem readMagnitude_layout_fraction (negative : Bool) (hne : digits ≠ [])
    (hdigits : ∀ c ∈ digits, c.isDigit = true) (hlow : -5 ≤ power) (hhigh : power < 0) :
    readMagnitude negative (layout digits power) =
      (Binary64.ofDecimal? negative (digitsValue digits) (power - digits.length + 1)).map
        .float := by
  set padding := List.replicate ((-power).toNat - 1) '0' with hpadding
  have hlayout : layout digits power = ['0'] ++ '.' :: (padding ++ digits) := by
    have hnot : ¬(0 ≤ power ∧ power ≤ 15) := by omega
    simp only [layout, hnot, if_false, hlow, hhigh, and_self, if_true, hpadding]
    rfl
  have hwhole : Plain ['0'] := ⟨by simp, by simp, by simp⟩
  have hfraction : padding ++ digits ≠ [] := by simp [hne]
  have hfractiondigits : ∀ c ∈ padding ++ digits, c.isDigit = true := by
    intro c hc
    rcases List.mem_append.mp hc with hc | hc
    · rw [(List.mem_replicate.mp hc).2]
      rfl
    · exact hdigits c hc
  have hnone : ∀ c ∈ ([] : List Char).head?, c.isDigit = false := by simp
  have hread := readMagnitude_point negative hwhole hfraction hfractiondigits hnone
  rw [List.append_nil] at hread
  rw [hlayout, hread]
  simp only [readExponent, Option.bind_some]
  refine ofParts_eq negative 0 ?_ ?_
  · rw [digitsValue_append, digitsValue_append, hpadding, digitsValue_replicate_zero]
    simp [digitsValue]
  · rw [List.length_append, hpadding, List.length_replicate]
    omega

/-- So do digits with an exponent. -/
theorem readMagnitude_layout_exponent (negative : Bool) (hne : digits ≠ [])
    (hdigits : ∀ c ∈ digits, c.isDigit = true) (hleading : digits.head? ≠ some '0')
    (hpower : ¬(0 ≤ power ∧ power ≤ 15)) (hpower' : ¬(-5 ≤ power ∧ power < 0)) :
    readMagnitude negative (layout digits power) =
      (Binary64.ofDecimal? negative (digitsValue digits) (power - digits.length + 1)).map
        .float := by
  obtain ⟨first, fraction, rfl⟩ := List.exists_cons_of_ne_nil hne
  have hfirst : Plain [first] := by
    refine plain_of_leading (by simp) ?_ (by simpa using hleading)
    simpa using hdigits first List.mem_cons_self
  set mark : List Char := 'e' :: (if power < 0 then '-' else '+') ::
    Nat.toDigits 10 power.natAbs with hmark
  have hmarkread : readExponent mark = some power := by
    have hsigned := readExponent_signed (decide (power < 0)) power.natAbs
    simp only [decide_eq_true_eq] at hsigned
    rw [hmark, hsigned]
    split <;> simp only [Option.some.injEq] <;> omega
  have hlayout : layout (first :: fraction) power =
      [first] ++ (if fraction = [] then [] else '.' :: fraction) ++ mark := by
    simp only [layout, hpower, hpower', if_false, hmark]
    by_cases hnegative : power < 0
    · simp [hnegative, not_le.mpr hnegative]
    · simp [hnegative, not_lt.mp hnegative]
  rw [hlayout]
  by_cases hfraction : fraction = []
  · subst hfraction
    rw [if_pos rfl, List.append_nil, hmark, readMagnitude_exponent negative hfirst, ← hmark,
      hmarkread, Option.bind_some]
    exact ofParts_eq negative 0 (by simp) (by simp)
  · have hfractiondigits : ∀ c ∈ fraction, c.isDigit = true :=
      fun c hc => hdigits c (List.mem_cons_of_mem _ hc)
    have hstop : ∀ c ∈ mark.head?, c.isDigit = false := by
      rintro c ⟨⟩
      rfl
    have hsplit : [first] ++ '.' :: fraction ++ mark = [first] ++ '.' :: (fraction ++ mark) :=
      List.append_assoc _ _ _
    rw [if_neg hfraction, hsplit,
      readMagnitude_point negative hfirst hfraction hfractiondigits hstop, hmarkread,
      Option.bind_some]
    refine ofParts_eq negative 0 (by simp) ?_
    simp only [List.length_cons]
    push_cast
    ring

/-- The layout of digits keeps the value of the decimal. -/
theorem readMagnitude_layout (negative : Bool) (hne : digits ≠ [])
    (hdigits : ∀ c ∈ digits, c.isDigit = true) (hleading : digits.head? ≠ some '0')
    (power : ℤ) :
    readMagnitude negative (layout digits power) =
      (Binary64.ofDecimal? negative (digitsValue digits) (power - digits.length + 1)).map
        .float := by
  by_cases hwhole : 0 ≤ power ∧ power ≤ 15
  · exact readMagnitude_layout_whole negative hne hdigits hleading hwhole.1 hwhole.2
  by_cases hfraction : -5 ≤ power ∧ power < 0
  · exact readMagnitude_layout_fraction negative hne hdigits hfraction.1 hfraction.2
  · exact readMagnitude_layout_exponent negative hne hdigits hleading hwhole hfraction

end Layout

section Trimming

def trimmed (digits : List Char) : List Char :=
  (digits.reverse.dropWhile (· == '0')).reverse

theorem exists_padding (digits : List Char) :
    ∃ count, digits = trimmed digits ++ List.replicate count '0' := by
  have hzeros : ∀ c ∈ digits.reverse.takeWhile (· == '0'), c = '0' := by
    intro c hc
    simpa using List.mem_takeWhile_imp hc
  have hsplit : digits.reverse.takeWhile (· == '0') ++ digits.reverse.dropWhile (· == '0') =
      digits.reverse := List.takeWhile_append_dropWhile
  have hreverse := congrArg List.reverse hsplit
  rw [List.reverse_reverse, List.reverse_append, List.eq_replicate_of_mem hzeros,
    List.reverse_replicate] at hreverse
  exact ⟨_, hreverse.symm⟩

variable {n : ℕ}

theorem isDigit_of_mem_trimmed : ∀ c ∈ trimmed (Nat.toDigits 10 n), c.isDigit = true := by
  intro c hc
  obtain ⟨count, hpadding⟩ := exists_padding (Nat.toDigits 10 n)
  apply isDigit_of_mem_toDigits (n := n)
  rw [hpadding]
  exact List.mem_append_left _ hc

/-- Only zero has no digits left. -/
theorem eq_zero_of_trimmed_eq_nil (hempty : trimmed (Nat.toDigits 10 n) = []) : n = 0 := by
  obtain ⟨count, hpadding⟩ := exists_padding (Nat.toDigits 10 n)
  rw [hempty, List.nil_append] at hpadding
  rw [← digitsValue_toDigits n, hpadding, digitsValue_replicate_zero]

theorem head?_trimmed_ne_zero (hne : trimmed (Nat.toDigits 10 n) ≠ []) :
    (trimmed (Nat.toDigits 10 n)).head? ≠ some '0' := by
  obtain ⟨count, hpadding⟩ := exists_padding (Nat.toDigits 10 n)
  have hpos : 0 < n := by
    apply Nat.pos_of_ne_zero
    intro hzero
    apply hne
    rw [hzero]
    rfl
  have hhead := head?_toDigits_ne_zero hpos
  rwa [hpadding, List.head?_append_of_ne_nil _ hne] at hhead

/-- Trimming keeps the place of the first digit, and with it the value. -/
theorem ofDecimal?_trimmed (negative : Bool) (n : ℕ) (e : ℤ) :
    Binary64.ofDecimal? negative (digitsValue (trimmed (Nat.toDigits 10 n)))
        (e + (Nat.toDigits 10 n).length - 1 - (trimmed (Nat.toDigits 10 n)).length + 1) =
      Binary64.ofDecimal? negative n e := by
  obtain ⟨count, hpadding⟩ := exists_padding (Nat.toDigits 10 n)
  have hvalue : n = digitsValue (trimmed (Nat.toDigits 10 n)) * 10 ^ count := by
    conv_lhs => rw [← digitsValue_toDigits n, hpadding]
    rw [digitsValue_append, digitsValue_replicate_zero, List.length_replicate, add_zero]
  have hlength : (Nat.toDigits 10 n).length = (trimmed (Nat.toDigits 10 n)).length + count := by
    conv_lhs => rw [hpadding]
    rw [List.length_append, List.length_replicate]
  have hexponent : e + (Nat.toDigits 10 n).length - 1 - (trimmed (Nat.toDigits 10 n)).length + 1 =
      e + (count : ℤ) := by omega
  apply Binary64.ofDecimal?_congr negative
  conv_rhs => rw [hvalue]
  rw [hexponent, zpow_add₀ (by norm_num), zpow_natCast]
  push_cast
  ring

end Trimming

theorem readMagnitude_zero (negative : Bool) :
    readMagnitude negative ['0', '.', '0'] = some (.float (.zero negative)) := by
  cases negative <;> rfl

theorem ofWord?_signed {negative : Bool} {word : List Char} {number : Number}
    (hread : readMagnitude negative word = some number) :
    ofWord? (if negative then '-' :: word else word) = some number := by
  cases negative with
  | true => exact hread
  | false =>
      unfold ofWord?
      split
      · next hword =>
          simp only [Bool.false_eq_true, if_false] at hword
          subst hword
          simp [readMagnitude] at hread
      · exact hread

/-- The text of a double reads back as the double. -/
theorem ofWord?_floatText (x : Binary64) : ofWord? (floatText x) = some (.float x) := by
  have hback := x.ofDecimal?_shortest
  apply ofWord?_signed
  rw [← trimmed]
  by_cases hempty : trimmed (Nat.toDigits 10 x.shortest.digits) = []
  · rw [eq_zero_of_trimmed_eq_nil hempty] at hback
    simp only [Binary64.ofDecimal?, decide_true, Bool.true_or, if_true, Option.some.injEq]
      at hback
    rw [if_pos hempty, readMagnitude_zero, hback]
  · have hleading := head?_trimmed_ne_zero hempty
    rw [if_neg hempty, readMagnitude_layout x.negative hempty isDigit_of_mem_trimmed hleading,
      ofDecimal?_trimmed, hback]
    rfl

/-- An integer that fits is read exactly, not by way of a double. -/
theorem readMagnitude_toDigits (negative : Bool) (n : ℕ)
    (hfits : -0x8000000000000000 ≤ (if negative then -(n : ℤ) else n) ∧
      (if negative then -(n : ℤ) else n) < 0x10000000000000000) (hzero : negative = true → n ≠ 0) :
    readMagnitude negative (Nat.toDigits 10 n) =
      some (.integer ⟨if negative then -(n : ℤ) else n, hfits⟩) := by
  have hplain := plain_toDigits n
  have hend : ∀ c ∈ ([] : List Char).head?, c.isDigit = false := by simp
  have htake := takeWhile_isDigit hplain.all_digits hend
  have hdrop := dropWhile_isDigit hplain.all_digits hend
  rw [List.append_nil] at htake hdrop
  have hsigned : (!(negative && (if negative then -(n : ℤ) else n) == 0)) = true := by
    cases negative with
    | false => rfl
    | true => simpa using hzero rfl
  simp only [readMagnitude, htake, hdrop, hplain.not_refused, if_false, digitsValue_toDigits]
  rw [dif_pos ⟨hfits, hsigned⟩]

theorem toList_toString_int (n : ℤ) :
    (toString n).toList =
      if n < 0 then '-' :: Nat.toDigits 10 n.natAbs else Nat.toDigits 10 n.natAbs := by
  cases n with
  | ofNat m =>
      have htext : toString (Int.ofNat m) = m.repr := rfl
      have hsign : ¬Int.ofNat m < 0 := by simp
      rw [htext, if_neg hsign, Nat.toList_repr]
      rfl
  | negSucc m =>
      have htext : toString (Int.negSucc m) = "-" ++ (m + 1).repr := rfl
      rw [htext, if_pos (Int.negSucc_lt_zero m), String.toList_append, Nat.toList_repr]
      rfl

theorem mem_layout {digits : List Char} {power : ℤ} {c : Char} (hc : c ∈ layout digits power) :
    c ∈ digits ∨ c.isDigit = true ∨ c ∈ ['.', 'e', '+', '-'] := by
  have hzeros (count : ℕ) (hc : c ∈ List.replicate count '0') : c.isDigit = true := by
    rw [(List.mem_replicate.mp hc).2]
    rfl
  have htake (count : ℕ) (hc : c ∈ digits.take count) : c ∈ digits := List.mem_of_mem_take hc
  have hdrop (count : ℕ) (hc : c ∈ digits.drop count) : c ∈ digits := List.mem_of_mem_drop hc
  have hexponent (hc : c ∈ Nat.toDigits 10 power.natAbs) : c.isDigit = true :=
    isDigit_of_mem_toDigits c hc
  unfold layout at hc
  split at hc
  · simp only [List.mem_append, List.mem_cons] at hc
    rcases hc with (hc | hc) | rfl | hc
    · exact .inl (htake _ hc)
    · exact .inr (.inl (hzeros _ hc))
    · exact .inr (by decide)
    · split at hc
      · obtain rfl := List.mem_singleton.mp hc
        exact .inr (by decide)
      · exact .inl (hdrop _ hc)
  split at hc
  · simp only [List.mem_cons, List.cons_append, List.mem_append] at hc
    rcases hc with rfl | rfl | hc | hc
    · exact .inr (by decide)
    · exact .inr (by decide)
    · exact .inr (.inl (hzeros _ hc))
    · exact .inl hc
  · simp only [List.mem_append, List.mem_cons] at hc
    rcases hc with (hc | hc) | rfl | hc | hc
    · exact .inl (htake _ hc)
    · split at hc
      · exact absurd hc List.not_mem_nil
      · rcases List.mem_cons.mp hc with rfl | hc
        · exact .inr (by decide)
        · exact .inl (hdrop _ hc)
    · exact .inr (by decide)
    · split at hc <;> simp [hc]
    · exact .inr (.inl (hexponent hc))

/-- The characters that numbers are written with. -/
theorem mem_text {number : Number} {c : Char} (hc : c ∈ number.text.toList) :
    c.isDigit = true ∨ c ∈ ['.', 'e', '+', '-'] := by
  cases number with
  | integer n =>
      rw [text, toList_toString_int] at hc
      split at hc
      · rcases List.mem_cons.mp hc with rfl | hc
        · decide
        · exact .inl (isDigit_of_mem_toDigits c hc)
      · exact .inl (isDigit_of_mem_toDigits c hc)
  | float x =>
      rw [text, String.toList_ofList, floatText] at hc
      set written := Nat.toDigits 10 x.shortest.digits
      have hmagnitude : ∀ c ∈ (if trimmed written = [] then ['0', '.', '0'] else
          layout (trimmed written) (x.shortest.exponent + written.length - 1)),
            c.isDigit = true ∨ c ∈ ['.', 'e', '+', '-'] := by
        intro c hc
        split at hc
        · simp only [List.mem_cons, List.not_mem_nil, or_false] at hc
          rcases hc with rfl | rfl | rfl <;> decide
        · cases mem_layout hc with
          | inl hdigit => exact .inl (isDigit_of_mem_trimmed c hdigit)
          | inr hother => exact hother
      split at hc
      · rcases List.mem_cons.mp hc with rfl | hc
        · decide
        · exact hmagnitude c hc
      · exact hmagnitude c hc

/-- The text of a number reads back as the number. -/
theorem ofWord?_text (number : Number) : ofWord? number.text.toList = some number := by
  cases number with
  | float x => simpa [text] using ofWord?_floatText x
  | integer n =>
      obtain ⟨value, hfits⟩ := n
      rw [text, toList_toString_int]
      have habs : (if decide (value < 0) = true then -(value.natAbs : ℤ) else value.natAbs) =
          value := by
        simp only [decide_eq_true_eq]
        split <;> omega
      have hread := readMagnitude_toDigits (decide (value < 0)) value.natAbs
        (by rw [habs]; exact hfits) (by simp only [decide_eq_true_eq]; omega)
      simp only [habs] at hread
      simpa using ofWord?_signed hread

end ShapeQuery.Number
