/-
  LedgerWatch.Proofs.Decimal.Grammar — which texts are numbers, and of what value.

  Behind a sign or none there is a word for infinity or NaN, in letters of either case, or
  digits with a point before, among or behind them or none, and an exponent or none
  (`Denotes`). The digits and the exponent make a decimal fraction, and the number nearest
  to it is meant. However many digits there are it is not rounded before: the short cuts
  for very large and very small fractions are taken only where infinity and zero are
  nearest (`nearest_ofDecimal`).

  - `read_eq_some_iff`: the texts that are read, and as what.
-/

import LedgerWatch.Decimal.Read
import LedgerWatch.Proofs.Decimal.Nearest
import LedgerWatch.Proofs.Text.Written

namespace LedgerWatch

open LedgerWatch.Text

namespace Text.Numeral

variable {ds : List Char}

theorem ofDigitChars_lt (hdigits : ∀ c ∈ ds, c.isDigit = true) : Nat.ofDigitChars 10 ds 0 < 10 ^ ds.length := by
  induction ds with
  | nil => decide
  | cons c cs ih =>
    obtain ⟨hc, hcs⟩ := List.forall_mem_cons.mp hdigits
    obtain ⟨d, hd, rfl⟩ := exists_digitChar hc
    rw [Nat.ofDigitChars_cons_digitChar_of_lt_ten hd, Nat.ofDigitChars_eq_ofDigitChars_zero, List.length_cons]
    calc 10 ^ cs.length * (10 * 0 + d) + Nat.ofDigitChars 10 cs 0
        < 10 ^ cs.length * (10 * 0 + d) + 10 ^ cs.length := Nat.add_lt_add_left (ih hcs) _
      _ = 10 ^ cs.length * (d + 1) := by ring
      _ ≤ 10 ^ (cs.length + 1) := Nat.mul_le_mul_left _ hd

theorem le_ofDigitChars {c : Char} (hdigits : ∀ d ∈ c :: ds, d.isDigit = true) (hc : c ≠ '0') :
    10 ^ ds.length ≤ Nat.ofDigitChars 10 (c :: ds) 0 := by
  obtain ⟨d, hd, rfl⟩ := exists_digitChar (hdigits c List.mem_cons_self)
  have hpos : 0 < d := Nat.pos_of_ne_zero fun hzero => hc (hzero ▸ rfl)
  rw [Nat.ofDigitChars_cons_digitChar_of_lt_ten hd, Nat.ofDigitChars_eq_ofDigitChars_zero]
  exact (Nat.le_mul_of_pos_right _ (by omega)).trans (Nat.le_add_right _ _)

theorem ofDigitChars_dropWhile (ds : List Char) :
    Nat.ofDigitChars 10 (ds.dropWhile (· = '0')) 0 = Nat.ofDigitChars 10 ds 0 := by
  induction ds with
  | nil => rfl
  | cons c cs ih =>
    rw [List.dropWhile_cons]
    split
    · rename_i hc
      rw [ih, of_decide_eq_true hc]
      rfl
    · rfl

end Text.Numeral

namespace Decimal

open Text.Numeral

/-! ## Decimal fractions -/

theorem magnitude_one : magnitude 1 = 2 ^ (-1074 : ℤ) := by
  have hgrid := magnitude_grid (e := 0) (m := 1) (by decide) (.inl rfl)
  simpa using hgrid

variable {r : ℚ} {negative : Bool}

/-- A fraction under half the smallest number is nearest to zero. -/
theorem closest_zero (hpos : 0 ≤ r) (hsmall : r < 10 ^ (-330 : ℤ)) : Closest r 0 := by
  refine ⟨Nat.zero_le _, fun k _ => preferred_lower (magnitude_zero.trans_le hpos) (.inl ?_) k⟩
  have hpowers : (2 : ℚ) ^ 1075 < 10 ^ 330 := calc
    (2 : ℚ) ^ 1075 = (2 ^ 43) ^ 25 := pow_mul 2 43 25
    _ < (10 ^ 13) ^ 25 := pow_lt_pow_left₀ (by norm_num) (by norm_num) (by decide)
    _ = 10 ^ 325 := (pow_mul 10 13 25).symm
    _ ≤ 10 ^ 330 := pow_le_pow_right₀ (by norm_num) (by decide)
  have htiny : (10 : ℚ) ^ (-330 : ℤ) < 2 ^ (-1075 : ℤ) := by
    rw [zpow_neg, zpow_neg]
    exact inv_strictAnti₀ (by positivity) hpowers
  have hhalf : (2 : ℚ) ^ (-1074 : ℤ) = 2 ^ (-1075 : ℤ) * 2 := by
    rw [← zpow_add_one₀ two_ne_zero]
    rfl
  rw [magnitude_zero, Nat.zero_add, magnitude_one, hhalf]
  linarith

/-- Beyond the largest number infinity is nearest. -/
theorem closest_infinity (hlarge : 10 ^ 400 ≤ r) : Closest r infinityBits := by
  refine ⟨le_rfl, fun k hk hne => .inl (nearer_above ?_ (Nat.lt_of_le_of_ne hk hne))⟩
  rw [magnitude_infinityBits]
  calc (2 : ℚ) ^ 1024 = (2 ^ 16) ^ 64 := pow_mul 2 16 64
    _ ≤ (10 ^ 5) ^ 64 := pow_le_pow_left₀ (by norm_num) (by norm_num) 64
    _ = 10 ^ 320 := (pow_mul 10 5 64).symm
    _ ≤ 10 ^ 400 := pow_le_pow_right₀ (by norm_num) (by decide)
    _ ≤ r := hlarge

theorem nearest_infinity (h : Closest r infinityBits) : Nearest negative r (infinity negative) :=
  nearest_iff.mpr ⟨_, h, by cases negative <;> rfl⟩

/-- The fraction of some digits and an exponent. -/
def fraction (digits : List Char) (exponent : Int) : ℚ := Nat.ofDigitChars 10 digits 0 * 10 ^ exponent

/-- A power of ten above a fraction, and one below it if the first digit is not zero. -/
theorem fraction_lt {digits : List Char} (hdigits : ∀ c ∈ digits, c.isDigit = true) (exponent : Int) :
    fraction digits exponent < 10 ^ (digits.length + exponent) := by
  have hlt : (Nat.ofDigitChars 10 digits 0 : ℚ) < 10 ^ digits.length := by exact_mod_cast ofDigitChars_lt hdigits
  rw [fraction, zpow_add₀ (by norm_num), zpow_natCast]
  exact mul_lt_mul_of_pos_right hlt (zpow_pos (by norm_num) _)

theorem le_fraction {c : Char} {digits : List Char} (hdigits : ∀ d ∈ c :: digits, d.isDigit = true) (hc : c ≠ '0')
    (exponent : Int) : 10 ^ (digits.length + exponent) ≤ fraction (c :: digits) exponent := by
  have hle : (10 : ℚ) ^ digits.length ≤ Nat.ofDigitChars 10 (c :: digits) 0 := by
    exact_mod_cast le_ofDigitChars hdigits hc
  rw [fraction, zpow_add₀ (by norm_num), zpow_natCast]
  exact mul_le_mul_of_nonneg_right hle (zpow_pos (by norm_num) _).le

theorem fraction_nonneg (digits : List Char) (exponent : Int) : 0 ≤ fraction digits exponent :=
  mul_nonneg (Nat.cast_nonneg _) (zpow_pos (by norm_num) _).le

theorem fraction_dropWhile (digits : List Char) (exponent : Int) :
    fraction (digits.dropWhile (· = '0')) exponent = fraction digits exponent := by
  rw [fraction, fraction, ofDigitChars_dropWhile]

theorem nearest_ofDecimal {digits : List Char} (hdigits : ∀ c ∈ digits, c.isDigit = true) (exponent : Int) :
    Nearest negative (fraction digits exponent) (ofDecimal negative digits exponent) := by
  have hds : ∀ c ∈ digits.dropWhile (· = '0'), c.isDigit = true :=
    fun c hc => hdigits c ((List.dropWhile_suffix _).subset hc)
  have hhead := List.head?_dropWhile_not (· = '0') digits
  unfold ofDecimal
  dsimp only
  rw [← fraction_dropWhile, readFrom_digits hds, Option.getD_some]
  generalize digits.dropWhile (· = '0') = ds at *
  split
  · rename_i hcase
    refine nearest_iff.mpr ⟨0, closest_zero (fraction_nonneg _ _) ?_, rfl⟩
    rcases hcase with hzero | hsize
    · rw [fraction, hzero, Nat.cast_zero, zero_mul]
      positivity
    · exact (fraction_lt hds exponent).trans (zpow_lt_zpow_right₀ (by norm_num) hsize)
  rename_i hcase
  split
  · rename_i hsize
    refine nearest_infinity (closest_infinity ?_)
    cases ds with
    | nil => exact absurd (.inl rfl) hcase
    | cons c ds =>
      have hc : c ≠ '0' := by simpa using hhead
      have hle : (400 : ℤ) ≤ ds.length + exponent := by
        rw [List.length_cons] at hsize
        omega
      rw [← zpow_natCast]
      exact (zpow_le_zpow_right₀ (by norm_num) hle).trans (le_fraction hds hc exponent)
  split
  · rename_i hexponent
    obtain ⟨e, rfl⟩ := Int.eq_ofNat_of_zero_le hexponent
    have hvalue : fraction ds e = (Nat.ofDigitChars 10 ds 0 * Nat.pow 10 e : ℕ) / (1 : ℕ) := by
      rw [fraction, zpow_natCast, Nat.pow_eq]
      push_cast
      rw [div_one]
    rw [hvalue]
    exact nearest_nearest negative _ one_ne_zero
  · rename_i hexponent
    obtain ⟨e, rfl⟩ : ∃ e : ℕ, exponent = -e := ⟨(-exponent).toNat, by omega⟩
    have hvalue : fraction ds (-e) = (Nat.ofDigitChars 10 ds 0 : ℚ) / (Nat.pow 10 e : ℕ) := by
      rw [fraction, zpow_neg, zpow_natCast, Nat.pow_eq, ← div_eq_mul_inv]
      push_cast
      rfl
    rw [hvalue, neg_neg, Int.toNat_natCast]
    exact nearest_nearest negative _ (by rw [Nat.pow_eq]; positivity)

/-! ## Parts of a text -/

/-- A text behind a sign, or without one, which counts as a plus. -/
def Signed (cs : List Char) (negative : Bool) (rest : List Char) : Prop :=
  cs = rest ∧ negative = false ∨ cs = '+' :: rest ∧ negative = false ∨ cs = '-' :: rest ∧ negative = true

/-- Digits before a point and behind it, at least one of them. With none behind it the point may be missing. -/
def Pointed (cs whole decimals : List Char) : Prop :=
  (cs = whole ++ '.' :: decimals ∨ cs = whole ∧ decimals = []) ∧ (∀ c ∈ whole ++ decimals, c.isDigit = true) ∧
    whole ++ decimals ≠ []

/-- Nothing, or an `e` with digits behind it that may have a sign, and the power of ten meant by it. -/
inductive Exponent : List Char → Int → Prop where
  | none : Exponent [] 0
  | some {e : Char} {cs ds : List Char} {negative : Bool} : e = 'e' ∨ e = 'E' → Signed cs negative ds → ds ≠ [] →
      (∀ c ∈ ds, c.isDigit = true) →
      Exponent (e :: cs) (if negative then -(Nat.ofDigitChars 10 ds 0 : Int) else Nat.ofDigitChars 10 ds 0)

/-- What a text denotes. -/
inductive Denotes (cs : List Char) : Float → Prop where
  | infinity {negative : Bool} {word : List Char} : Signed cs negative word →
      String.ofList (word.map Char.toLower) = "inf" ∨ String.ofList (word.map Char.toLower) = "infinity" →
      Denotes cs (infinity negative)
  | nan {negative : Bool} {word : List Char} : Signed cs negative word →
      String.ofList (word.map Char.toLower) = "nan" → Denotes cs (Float.ofBits 0x7ff8000000000000)
  | number {negative : Bool} {digits tail whole decimals : List Char} {e : Int} {x : Float} :
      Signed cs negative (digits ++ tail) → Pointed digits whole decimals → Exponent tail e →
      Nearest negative (fraction (whole ++ decimals) (e - decimals.length)) x → Denotes cs x

section

variable {cs rest : List Char}

theorem signed_splitSign (cs : List Char) : Signed cs (splitSign cs).1 (splitSign cs).2 := by
  unfold splitSign
  split
  · exact .inr (.inr ⟨rfl, rfl⟩)
  · exact .inr (.inl ⟨rfl, rfl⟩)
  · exact .inl ⟨rfl, rfl⟩

/-- The rest of a text has no sign in front of it. -/
def Unsigned (rest : List Char) : Prop := ∀ c ∈ rest.head?, c ≠ '+' ∧ c ≠ '-'

theorem splitSign_of_signed (h : Signed cs negative rest) (hrest : Unsigned rest) : splitSign cs = (negative, rest) := by
  rcases h with ⟨rfl, rfl⟩ | ⟨rfl, rfl⟩ | ⟨rfl, rfl⟩
  · unfold splitSign
    split
    · exact absurd rfl (hrest '-' rfl).2
    · exact absurd rfl (hrest '+' rfl).1
    · rfl
  · rfl
  · rfl

theorem unsigned_digit {c : Char} (h : c.isDigit = true) : c ≠ '+' ∧ c ≠ '-' := by
  constructor <;> (rintro rfl; cases h)

theorem readExponent_mark {c : Char} (hmark : c = 'e' ∨ c = 'E') (cs : List Char) : readExponent (c :: cs) =
    (readDigits (splitSign cs).2).map fun n : Nat => if (splitSign cs).1 then -(n : Int) else n := by
  rw [readExponent, if_pos hmark]
  dsimp only
  cases readDigits (splitSign cs).2 <;> rfl

theorem readExponent_eq_some_iff {e : Int} : readExponent cs = some e ↔ Exponent cs e := by
  constructor
  · intro h
    cases cs with
    | nil =>
      cases h
      exact .none
    | cons c cs =>
      by_cases hmark : c = 'e' ∨ c = 'E'
      · rw [readExponent_mark hmark] at h
        obtain ⟨n, hn, rfl⟩ := Option.map_eq_some_iff.mp h
        obtain ⟨hne, hdigits, rfl⟩ := readDigits_eq_some_iff.mp hn
        exact .some hmark (signed_splitSign cs) hne hdigits
      · rw [readExponent, if_neg hmark] at h
        cases h
  · intro h
    cases h with
    | none => rfl
    | @some c cs ds negative hmark hsigned hne hdigits =>
      have hunsigned : Unsigned ds := fun c hc => unsigned_digit (hdigits c (List.mem_of_mem_head? hc))
      have hread := readDigits_eq_some_iff.mpr ⟨hne, hdigits, rfl⟩
      rw [readExponent_mark hmark, splitSign_of_signed hsigned hunsigned, hread, Option.map_some]

/-- An exponent begins with neither a digit nor a point. -/
theorem Exponent.head {e : Int} (h : Exponent cs e) : ∀ c ∈ cs.head?, c.isDigit = false ∧ c ≠ '.' := by
  cases h with
  | none => nofun
  | some hmark =>
    intro c hc
    rw [List.head?_cons, Option.mem_some_iff] at hc
    subst hc
    rcases hmark with rfl | rfl <;> decide

/-- The digits behind the point, if there is one, and the rest. -/
def splitPoint : List Char → List Char × List Char
  | '.' :: cs => (cs.takeWhile Char.isDigit, cs.dropWhile Char.isDigit)
  | cs => ([], cs)

/-- The digits before the point, those behind it, and the rest. -/
def splitDigits (cs : List Char) : List Char × List Char × List Char :=
  (cs.takeWhile Char.isDigit, splitPoint (cs.dropWhile Char.isDigit))

theorem readUnsigned_of_split {whole decimals tail : List Char} (h : splitDigits cs = (whole, decimals, tail)) :
    readUnsigned negative cs = if whole ++ decimals = [] then none
      else (readExponent tail).map fun e => ofDecimal negative (whole ++ decimals) (e - decimals.length) := by
  obtain ⟨rfl, hsplit⟩ := Prod.mk.inj h
  have hempty : (((cs.takeWhile Char.isDigit).isEmpty && decimals.isEmpty) = true) =
      (cs.takeWhile Char.isDigit ++ decimals = []) := by simp
  have hread : readUnsigned negative cs =
      if (cs.takeWhile Char.isDigit).isEmpty && (splitPoint (cs.dropWhile Char.isDigit)).1.isEmpty then none
      else (readExponent (splitPoint (cs.dropWhile Char.isDigit)).2).map fun e =>
        ofDecimal negative (cs.takeWhile Char.isDigit ++ (splitPoint (cs.dropWhile Char.isDigit)).1)
          (e - (splitPoint (cs.dropWhile Char.isDigit)).1.length) := rfl
  rw [hread, hsplit]
  simp only [hempty]

/-- What is split is put together again. -/
theorem splitDigits_eq {whole decimals tail : List Char} (h : splitDigits cs = (whole, decimals, tail)) :
    (∀ c ∈ whole ++ decimals, c.isDigit = true) ∧
      (cs = whole ++ '.' :: (decimals ++ tail) ∨ cs = whole ++ tail ∧ decimals = []) := by
  obtain ⟨rfl, hsplit⟩ := Prod.mk.inj h
  have hwhole : cs.takeWhile Char.isDigit ++ cs.dropWhile Char.isDigit = cs := List.takeWhile_append_dropWhile
  have hdigits : ∀ cs : List Char, ∀ c ∈ cs.takeWhile Char.isDigit, c.isDigit = true := fun _ _ => List.mem_takeWhile_imp
  unfold splitPoint at hsplit
  split at hsplit
  · rename_i rest hrest
    obtain ⟨rfl, rfl⟩ := Prod.mk.inj hsplit
    refine ⟨fun c hc => (List.mem_append.mp hc).elim (hdigits _ c) (hdigits _ c), .inl ?_⟩
    rw [List.takeWhile_append_dropWhile, ← hrest, hwhole]
  · obtain ⟨rfl, rfl⟩ := Prod.mk.inj hsplit
    refine ⟨fun c hc => hdigits _ c (by rwa [List.append_nil] at hc), .inr ⟨hwhole.symm, rfl⟩⟩

theorem splitDigits_of_pointed {digits tail whole decimals : List Char} (h : Pointed digits whole decimals)
    (htail : ∀ c ∈ tail.head?, c.isDigit = false ∧ c ≠ '.') : splitDigits (digits ++ tail) = (whole, decimals, tail) := by
  obtain ⟨hpoint, hdigits, -⟩ := h
  have hwhole : ∀ c ∈ whole, c.isDigit = true := fun c hc => hdigits c (List.mem_append_left _ hc)
  have hdecimals : ∀ c ∈ decimals, c.isDigit = true := fun c hc => hdigits c (List.mem_append_right _ hc)
  rcases hpoint with rfl | ⟨rfl, rfl⟩
  · have hdot : ∀ c ∈ ('.' :: (decimals ++ tail)).head?, c.isDigit = false := by simp [Char.isDigit]
    obtain ⟨htake, hdrop⟩ := takeWhile_isDigit hwhole hdot
    obtain ⟨htake', hdrop'⟩ := takeWhile_isDigit hdecimals fun c hc => (htail c hc).1
    rw [splitDigits, List.append_assoc, List.cons_append, htake, hdrop, splitPoint, htake', hdrop']
  · obtain ⟨htake, hdrop⟩ := takeWhile_isDigit hwhole fun c hc => (htail c hc).1
    have hnone : splitPoint tail = ([], tail) := by
      unfold splitPoint
      split
      · exact absurd rfl (htail '.' rfl).2
      · rfl
    rw [splitDigits, htake, hdrop, hnone]

theorem readUnsigned_eq_some_iff {x : Float} : readUnsigned negative cs = some x ↔
    ∃ digits tail whole decimals e, cs = digits ++ tail ∧ Pointed digits whole decimals ∧ Exponent tail e ∧
      ofDecimal negative (whole ++ decimals) (e - decimals.length) = x := by
  constructor
  · intro h
    obtain ⟨whole, decimals, tail, hsplit⟩ : ∃ whole decimals tail, splitDigits cs = (whole, decimals, tail) :=
      ⟨_, _, _, rfl⟩
    obtain ⟨hdigits, hcs⟩ := splitDigits_eq hsplit
    rw [readUnsigned_of_split hsplit] at h
    split at h
    · cases h
    · rename_i hne
      obtain ⟨e, he, hx⟩ := Option.map_eq_some_iff.mp h
      have hexponent := readExponent_eq_some_iff.mp he
      rcases hcs with rfl | ⟨rfl, rfl⟩
      · refine ⟨whole ++ '.' :: decimals, tail, whole, decimals, e, ?_, ⟨.inl rfl, hdigits, hne⟩, hexponent, hx⟩
        rw [List.append_assoc, List.cons_append]
      · exact ⟨whole, tail, whole, [], e, rfl, ⟨.inr ⟨rfl, rfl⟩, hdigits, hne⟩, hexponent, hx⟩
  · rintro ⟨digits, tail, whole, decimals, e, rfl, hpointed, hexponent, rfl⟩
    rw [readUnsigned_of_split (splitDigits_of_pointed hpointed hexponent.head), if_neg hpointed.2.2,
      readExponent_eq_some_iff.mpr hexponent, Option.map_some]

/-! ## Texts of numbers -/

theorem read_of_split {rest : List Char} (h : splitSign cs = (negative, rest)) : read cs =
    if String.ofList (rest.map Char.toLower) = "inf" ∨ String.ofList (rest.map Char.toLower) = "infinity" then
      some (infinity negative)
    else if String.ofList (rest.map Char.toLower) = "nan" then some (Float.ofBits 0x7ff8000000000000)
    else readUnsigned negative rest := by
  rw [read, h]

/-- The words begin with letters. -/
theorem unsigned_word {word : List Char} {w : String} (h : String.ofList (word.map Char.toLower) = w)
    (hw : w = "inf" ∨ w = "infinity" ∨ w = "nan") : Unsigned word := by
  intro c hc
  have hlower : w.toList.head? = some c.toLower := by
    rw [← h, String.toList_ofList, List.head?_map, Option.mem_def.mp hc]
    rfl
  have hletter : c.toLower = 'i' ∨ c.toLower = 'n' := by
    rcases hw with rfl | rfl | rfl
    · exact .inl (Option.some.inj hlower).symm
    · exact .inl (Option.some.inj hlower).symm
    · exact .inr (Option.some.inj hlower).symm
  constructor <;> (rintro rfl; revert hletter; decide)

/-- Numbers begin with a digit or a point. -/
theorem Pointed.head {digits whole decimals : List Char} (h : Pointed digits whole decimals) :
    ∃ c rest, digits = c :: rest ∧ (c = '.' ∨ c.isDigit = true) := by
  obtain ⟨hpoint, hdigits, hne⟩ := h
  cases whole with
  | cons c whole =>
    have hc : c.isDigit = true := hdigits c List.mem_cons_self
    rcases hpoint with rfl | ⟨rfl, rfl⟩
    · exact ⟨c, _, rfl, .inr hc⟩
    · exact ⟨c, _, rfl, .inr hc⟩
  | nil =>
    rcases hpoint with rfl | ⟨rfl, rfl⟩
    · exact ⟨'.', _, rfl, .inl rfl⟩
    · exact absurd rfl hne

/-- So they have no sign in front, and are no words. -/
theorem number_head {c : Char} (h : c = '.' ∨ c.isDigit = true) :
    (c ≠ '+' ∧ c ≠ '-') ∧ c.toLower ≠ 'i' ∧ c.toLower ≠ 'n' := by
  rcases h with rfl | hc
  · decide
  · obtain ⟨d, hd, rfl⟩ := exists_digitChar hc
    revert d
    decide

theorem read_eq_some_iff {x : Float} : read cs = some x ↔ Denotes cs x := by
  constructor
  · intro h
    obtain ⟨negative, rest, hsplit⟩ : ∃ negative rest, splitSign cs = (negative, rest) := ⟨_, _, rfl⟩
    have hsigned := signed_splitSign cs
    rw [hsplit] at hsigned
    rw [read_of_split hsplit] at h
    split at h
    · rename_i hword
      cases h
      exact .infinity hsigned hword
    split at h
    · rename_i hword
      cases h
      exact .nan hsigned hword
    · obtain ⟨digits, tail, whole, decimals, e, hrest, hpointed, hexponent, rfl⟩ := readUnsigned_eq_some_iff.mp h
      exact .number (hrest ▸ hsigned) hpointed hexponent (nearest_ofDecimal hpointed.2.1 _)
  · intro h
    cases h with
    | infinity hsigned hword =>
      have hunsigned := hword.elim (fun h => unsigned_word h (.inl rfl)) fun h => unsigned_word h (.inr (.inl rfl))
      rw [read_of_split (splitSign_of_signed hsigned hunsigned), if_pos hword]
    | nan hsigned hword =>
      rw [read_of_split (splitSign_of_signed hsigned (unsigned_word hword (.inr (.inr rfl)))), hword]
      rfl
    | @number negative digits tail whole decimals e x hsigned hpointed hexponent hnearest =>
      obtain ⟨c, rest, hdigits, hc⟩ := hpointed.head
      obtain ⟨hsign, hi, hn⟩ := number_head hc
      have hunsigned : Unsigned (digits ++ tail) := by
        intro d hd
        rw [hdigits] at hd
        cases hd
        exact hsign
      have hword : ∀ w : String, w.toList.head? = some 'i' ∨ w.toList.head? = some 'n' →
          String.ofList ((digits ++ tail).map Char.toLower) ≠ w := by
        rintro w hw rfl
        rw [String.toList_ofList, hdigits] at hw
        simp [hi, hn] at hw
      have hvalue := hnearest.unique (nearest_ofDecimal hpointed.2.1 _)
      rw [read_of_split (splitSign_of_signed hsigned hunsigned),
        if_neg (not_or.mpr ⟨hword "inf" (.inl rfl), hword "infinity" (.inl rfl)⟩), if_neg (hword "nan" (.inr rfl))]
      exact readUnsigned_eq_some_iff.mpr ⟨digits, tail, whole, decimals, e, rfl, hpointed, hexponent, hvalue.symm⟩

example : read "+.1E-1".toList = some 0.01 := by decide +kernel

end

end Decimal

end LedgerWatch
