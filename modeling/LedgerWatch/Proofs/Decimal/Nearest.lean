/-
  LedgerWatch.Proofs.Decimal.Nearest — the number nearest to a fraction.

  A number is nearest if every other one of its sign is farther away, or as far and
  without even bits (`Nearest`). As more bits make a larger number, it is enough to look
  at the two numbers around a fraction (`preferred_lower`, `preferred_upper`): on a grid
  they are the whole numbers around it, and rounding a half to the even one picks the
  right one (`preferred_roundHalfEven`). There is a nearest number to every fraction, only one
  (`Nearest.unique`), and it is the one that is computed (`nearest_nearest`).
-/

import LedgerWatch.Proofs.Decimal.Bits

namespace LedgerWatch.Decimal

/-- `x` is the number nearest to `± r`. -/
def Nearest (negative : Bool) (r : ℚ) (x : Float) : Prop :=
  ∃ a, (valueOf x).parts = some (negative, a) ∧
    ∀ y b, y ≠ x → (valueOf y).parts = some (negative, b) →
      |r - a| < |r - b| ∨ |r - a| = |r - b| ∧ x.toBits.toNat % 2 = 0

/-- The bits `n` make a number nearer to `r` than `k`, or as near and they are even. -/
def Preferred (r : ℚ) (n k : Nat) : Prop :=
  |r - magnitude n| < |r - magnitude k| ∨ |r - magnitude n| = |r - magnitude k| ∧ n % 2 = 0

/-- `Nearest` for bits, sign apart. -/
def Closest (r : ℚ) (n : Nat) : Prop :=
  n ≤ infinityBits ∧ ∀ k ≤ infinityBits, k ≠ n → Preferred r n k

variable {r : ℚ} {negative : Bool} {n k : Nat}

/-! ## Two neighbours -/

theorem nearer_above (hlow : magnitude n ≤ r) (hk : k < n) : |r - magnitude n| < |r - magnitude k| := by
  have hlt := magnitude_strictMono hk
  rw [abs_of_nonneg (sub_nonneg.mpr hlow), abs_of_nonneg (sub_nonneg.mpr (hlt.le.trans hlow))]
  exact sub_lt_sub_left hlt r

theorem nearer_below (hhigh : r ≤ magnitude n) (hk : n < k) : |r - magnitude n| < |r - magnitude k| := by
  have hlt := magnitude_strictMono hk
  rw [abs_sub_comm, abs_sub_comm r, abs_of_nonneg (sub_nonneg.mpr hhigh),
    abs_of_nonneg (sub_nonneg.mpr (hhigh.trans hlt.le))]
  exact sub_lt_sub_right hlt r

/-- If `r` is between two neighbours and the lower one is preferred to the upper, it is to all. -/
theorem preferred_lower (hlow : magnitude n ≤ r)
    (h : r - magnitude n < magnitude (n + 1) - r ∨ r - magnitude n = magnitude (n + 1) - r ∧ n % 2 = 0) :
    ∀ k ≠ n, Preferred r n k := by
  intro k hne
  rcases Nat.lt_or_gt_of_ne hne with hlt | hgt
  · exact .inl (nearer_above hlow hlt)
  · have hupper : magnitude (n + 1) - r ≤ |r - magnitude k| := by
      have hmono := magnitude_strictMono.monotone (Nat.succ_le_of_lt hgt)
      rw [abs_sub_comm]
      exact (sub_le_sub_right hmono r).trans (le_abs_self _)
    rw [Preferred, abs_of_nonneg (sub_nonneg.mpr hlow)]
    rcases h with h | ⟨h, heven⟩
    · exact .inl (h.trans_le hupper)
    · exact (h.trans_le hupper).lt_or_eq.imp_right fun heq => ⟨heq, heven⟩

theorem preferred_upper (hhigh : r ≤ magnitude (n + 1))
    (h : magnitude (n + 1) - r < r - magnitude n ∨ magnitude (n + 1) - r = r - magnitude n ∧ (n + 1) % 2 = 0) :
    ∀ k ≠ n + 1, Preferred r (n + 1) k := by
  intro k hne
  rcases Nat.lt_or_gt_of_ne hne with hlt | hgt
  · have hlower : r - magnitude n ≤ |r - magnitude k| := by
      have hmono := magnitude_strictMono.monotone (Nat.le_of_lt_succ hlt)
      exact (sub_le_sub_left hmono r).trans (le_abs_self _)
    rw [Preferred, abs_sub_comm r (magnitude (n + 1)), abs_of_nonneg (sub_nonneg.mpr hhigh)]
    rcases h with h | ⟨h, heven⟩
    · exact .inl (h.trans_le hlower)
    · exact (h.trans_le hlower).lt_or_eq.imp_right fun heq => ⟨heq, heven⟩
  · exact .inl (nearer_below hhigh hgt)

theorem Preferred.le (h : Preferred r n k) : |r - magnitude n| ≤ |r - magnitude k| := h.elim le_of_lt fun h => h.1.le

/-- Beyond infinity there are no numbers, and infinity is taken. -/
theorem closest_min (h : ∀ k ≠ n, Preferred r n k) : Closest r (min n infinityBits) := by
  refine ⟨min_le_right _ _, fun k hk hne => ?_⟩
  rcases Nat.lt_or_ge infinityBits n with hlt | hge
  · rw [min_eq_right hlt.le] at hne ⊢
    have hbeyond : magnitude infinityBits ≤ r := by
      refine le_of_not_ge fun hle => ?_
      exact (nearer_below hle hlt).not_ge (h infinityBits hlt.ne).le
    exact .inl (nearer_above hbeyond (Nat.lt_of_le_of_ne hk hne))
  · rw [min_eq_left hge] at hne ⊢
    exact h k hne

/-- Two numbers with even bits have another one between them, which is nearer than one of them. -/
theorem Closest.not_lt (h : Closest r n) (h' : Closest r k) : ¬n < k := by
  intro hlt
  have hnk := h.2 k h'.1 hlt.ne'
  have hkn := h'.2 n h.1 hlt.ne
  have heven : n % 2 = 0 := hnk.elim (fun hn => absurd hkn.le hn.not_ge) And.right
  have heven' : k % 2 = 0 := hkn.elim (fun hk => absurd hnk.le hk.not_ge) And.right
  have hbetween : n + 1 < k := by omega
  have hn := (h.2 (n + 1) (hbetween.le.trans h'.1) n.succ_ne_self).le
  have hk := (h'.2 (n + 1) (hbetween.le.trans h'.1) hbetween.ne).le
  rcases le_total r (magnitude (n + 1)) with hle | hge
  · exact (nearer_below hle hbetween).not_ge hk
  · exact (nearer_above hge n.lt_succ_self).not_ge hn

theorem Closest.unique (h : Closest r n) (h' : Closest r k) : n = k :=
  le_antisymm (le_of_not_gt (h'.not_lt h)) (le_of_not_gt (h.not_lt h'))

theorem toBits_ofParts_mod_two (h : n ≤ infinityBits) : (ofParts negative n).toBits.toNat % 2 = n % 2 := by
  rw [toNat_toBits_ofParts h]
  cases negative with
  | true => simp only [signBit, if_true]; omega
  | false => rfl

theorem ofParts_inj (hn : n ≤ infinityBits) (hk : k ≤ infinityBits) (h : ofParts negative n = ofParts negative k) :
    n = k := by
  have hparts := congrArg (fun x => (valueOf x).parts) h
  simp only [parts_ofParts hn, parts_ofParts hk, Option.some.injEq, Prod.mk.injEq, true_and] at hparts
  exact magnitude_strictMono.injective hparts

theorem nearest_iff {x : Float} : Nearest negative r x ↔ ∃ n, Closest r n ∧ x = ofParts negative n := by
  constructor
  · rintro ⟨a, hparts, hothers⟩
    obtain ⟨n, hn, rfl, rfl⟩ := parts_eq_some_iff.mp hparts
    refine ⟨n, ⟨hn, fun k hk hne => ?_⟩, rfl⟩
    have hother := hothers (ofParts negative k) _ (fun h => hne (ofParts_inj hk hn h)) (parts_ofParts hk)
    rwa [toBits_ofParts_mod_two hn] at hother
  · rintro ⟨n, ⟨hn, hclosest⟩, rfl⟩
    refine ⟨_, parts_ofParts hn, fun y b hne hparts => ?_⟩
    obtain ⟨k, hk, rfl, rfl⟩ := parts_eq_some_iff.mp hparts
    rw [toBits_ofParts_mod_two hn]
    exact hclosest k hk fun h => hne (h ▸ rfl)

theorem Nearest.unique {x y : Float} (hx : Nearest negative r x) (hy : Nearest negative r y) : x = y := by
  obtain ⟨n, hn, rfl⟩ := nearest_iff.mp hx
  obtain ⟨k, hk, rfl⟩ := nearest_iff.mp hy
  rw [hn.unique hk]

/-! ## Rounding on a grid -/

/-- The whole number a half-to-even rounding takes, of the two around the quotient. -/
theorem roundHalfEven_cases (a b : Nat) :
    roundHalfEven a b = a / b ∧ (2 * (a % b) < b ∨ 2 * (a % b) = b ∧ a / b % 2 = 0) ∨
      roundHalfEven a b = a / b + 1 ∧ (b < 2 * (a % b) ∨ 2 * (a % b) = b ∧ (a / b + 1) % 2 = 0) := by
  unfold roundHalfEven
  dsimp only
  split
  · right
    omega
  · left
    omega

theorem div_eq_whole_add {a b : Nat} (hb : (0 : ℚ) < b) : (a : ℚ) / b = (a / b : ℕ) + (a % b : ℕ) / b := by
  have hsplit : (b * (a / b) + a % b : ℕ) = (a : ℚ) := congrArg Nat.cast (Nat.div_add_mod a b)
  rw [← hsplit, Nat.cast_add, Nat.cast_mul, add_div, mul_div_cancel_left₀ _ hb.ne']

theorem preferred_roundHalfEven {e a b : Nat} (hb : 0 < b) (hlt : a / b < 2 * hiddenBit)
    (he : e = 0 ∨ hiddenBit ≤ a / b) (hr : r = (a : ℚ) / b * 2 ^ ((e : ℤ) - 1074)) :
    ∀ k ≠ e * hiddenBit + roundHalfEven a b, Preferred r (e * hiddenBit + roundHalfEven a b) k := by
  have hlow : magnitude (e * hiddenBit + a / b) = (a / b : ℕ) * 2 ^ ((e : ℤ) - 1074) := magnitude_grid hlt.le he
  have hhigh : magnitude (e * hiddenBit + a / b + 1) = (a / b + 1 : ℕ) * 2 ^ ((e : ℤ) - 1074) := by
    rw [Nat.add_assoc]
    exact magnitude_grid (Nat.succ_le_of_lt hlt) (he.imp_right fun h => h.trans (Nat.le_succ _))
  have hbpos : (0 : ℚ) < b := Nat.cast_pos.mpr hb
  have hpart : 0 < (2 : ℚ) ^ ((e : ℤ) - 1074) / b := div_pos (zpow_pos two_pos _) hbpos
  have heven : (e * hiddenBit + a / b) % 2 = a / b % 2 := by
    rw [Nat.add_mod, Nat.mul_mod, show hiddenBit % 2 = 0 from rfl]
    omega
  -- both distances are parts of a step, for the remainder and for what it lacks
  have hbelow : r - magnitude (e * hiddenBit + a / b) = (a % b : ℕ) * (2 ^ ((e : ℤ) - 1074) / b) := by
    rw [hr, hlow, div_eq_whole_add hbpos]
    ring
  have habove : magnitude (e * hiddenBit + a / b + 1) - r = (b - (a % b : ℕ)) * (2 ^ ((e : ℤ) - 1074) / b) := by
    rw [hr, hhigh, div_eq_whole_add hbpos, Nat.cast_add_one, sub_mul, mul_div_cancel₀ _ hbpos.ne']
    ring
  have hrest : ((a % b : ℕ) : ℚ) ≤ b := Nat.cast_le.mpr (Nat.mod_lt a hb).le
  rcases roundHalfEven_cases a b with ⟨hround, hcase⟩ | ⟨hround, hcase⟩
  · rw [hround]
    refine preferred_lower (sub_nonneg.mp ?_) ?_
    · rw [hbelow]
      exact mul_nonneg (Nat.cast_nonneg _) hpart.le
    · rw [hbelow, habove, heven, mul_lt_mul_iff_left₀ hpart, mul_left_inj' hpart.ne']
      refine hcase.imp (fun hless => ?_) fun hhalf => ⟨?_, hhalf.2⟩
      · have : (2 * (a % b : ℕ) : ℚ) < b := by exact_mod_cast hless
        linarith
      · have : (2 * (a % b : ℕ) : ℚ) = b := by exact_mod_cast hhalf.1
        linarith
  · rw [hround, ← Nat.add_assoc]
    refine preferred_upper (sub_nonneg.mp ?_) ?_
    · rw [habove]
      exact mul_nonneg (sub_nonneg.mpr hrest) hpart.le
    · rw [hbelow, habove, mul_lt_mul_iff_left₀ hpart, mul_left_inj' hpart.ne']
      refine hcase.imp (fun hmore => ?_) fun hhalf => ⟨?_, by omega⟩
      · have : (b : ℚ) < (2 * (a % b : ℕ) : ℚ) := by exact_mod_cast hmore
        linarith
      · have : (2 * (a % b : ℕ) : ℚ) = b := by exact_mod_cast hhalf.1
        linarith

/-! ## The grid of a fraction -/

theorem scaled_pos {x y : Nat} (hy : 0 < y) (q : Int) : 0 < (scaled x y q).2 := by
  unfold scaled
  split
  · exact hy
  · exact Nat.mul_pos hy (Nat.pow_pos two_pos)

theorem scaled_ratio (x y : Nat) (q : Int) :
    ((scaled x y q).1 : ℚ) / (scaled x y q).2 = x / y * 2 ^ q := by
  unfold scaled
  split
  · rename_i hq
    obtain ⟨p, rfl⟩ := Int.eq_ofNat_of_zero_le hq
    rw [Int.toNat_natCast, zpow_natCast, Nat.pow_eq]
    push_cast
    ring
  · rename_i hq
    obtain ⟨p, rfl⟩ : ∃ p : ℕ, q = -p := ⟨(-q).toNat, by omega⟩
    rw [neg_neg, Int.toNat_natCast, zpow_neg, zpow_natCast, Nat.pow_eq]
    push_cast
    rw [div_mul_eq_div_div, div_eq_mul_inv (_ / _)]

theorem two_pow_log2_le {x : Nat} (h : x ≠ 0) : (2 : ℚ) ^ (x.log2 : ℤ) ≤ x := by
  rw [zpow_natCast]
  exact_mod_cast Nat.log2_self_le h

theorem lt_two_pow_log2 {x : Nat} : (x : ℚ) < 2 ^ (x.log2 + 1 : ℤ) := by
  have hlt : (x : ℚ) < (2 ^ (x.log2 + 1) : ℕ) := Nat.cast_lt.mpr Nat.lt_log2_self
  rw [Nat.cast_pow] at hlt
  exact_mod_cast hlt

/-- The leading bits of two numbers tell their quotient but for a factor of two. -/
theorem log2_ratio {x y : Nat} (hx : x ≠ 0) (hy : y ≠ 0) :
    (2 : ℚ) ^ ((x.log2 : ℤ) - y.log2 - 1) < x / y ∧ (x : ℚ) / y < 2 ^ ((x.log2 : ℤ) - y.log2 + 1) := by
  have hypos : (0 : ℚ) < y := Nat.cast_pos.mpr (Nat.pos_of_ne_zero hy)
  constructor
  · rw [lt_div_iff₀ hypos]
    calc (2 : ℚ) ^ ((x.log2 : ℤ) - y.log2 - 1) * y
        < 2 ^ ((x.log2 : ℤ) - y.log2 - 1) * 2 ^ (y.log2 + 1 : ℤ) := mul_lt_mul_of_pos_left lt_two_pow_log2 (zpow_pos two_pos _)
      _ = 2 ^ (x.log2 : ℤ) := by rw [← zpow_add₀ two_ne_zero]; congr 1; ring
      _ ≤ x := two_pow_log2_le hx
  · rw [div_lt_iff₀ hypos]
    calc (x : ℚ) < 2 ^ (x.log2 + 1 : ℤ) := lt_two_pow_log2
      _ = 2 ^ ((x.log2 : ℤ) - y.log2 + 1) * 2 ^ (y.log2 : ℤ) := by rw [← zpow_add₀ two_ne_zero]; congr 1; ring
      _ ≤ 2 ^ ((x.log2 : ℤ) - y.log2 + 1) * y := mul_le_mul_of_nonneg_left (two_pow_log2_le hy) (zpow_pos two_pos _).le

theorem div_lt_iff_ratio {a b n : Nat} (hb : 0 < b) : a / b < n ↔ (a : ℚ) / b < n := by
  rw [Nat.div_lt_iff_lt_mul hb, div_lt_iff₀ (Nat.cast_pos.mpr hb)]
  exact_mod_cast Iff.rfl

/-- An exponent guessed by the leading bits leaves 52 or 53 bits before the point. -/
theorem guess_spec {num den : Nat} (hnum : num ≠ 0) (hden : den ≠ 0) {guess : Int}
    (hguess : guess = (num.log2 : ℤ) - den.log2 - 52) :
    (2 : ℚ) ^ 51 < num / den * 2 ^ (-guess) ∧ (num : ℚ) / den * 2 ^ (-guess) < 2 ^ 53 := by
  obtain ⟨hlow, hhigh⟩ := log2_ratio hnum hden
  have hstep : (0 : ℚ) < 2 ^ (-guess) := zpow_pos two_pos _
  constructor
  · calc (2 : ℚ) ^ 51 = 2 ^ ((num.log2 : ℤ) - den.log2 - 1) * 2 ^ (-guess) := by
          rw [← zpow_add₀ two_ne_zero, ← zpow_natCast]; congr 1; omega
      _ < num / den * 2 ^ (-guess) := mul_lt_mul_of_pos_right hlow hstep
  · calc (num : ℚ) / den * 2 ^ (-guess) < 2 ^ ((num.log2 : ℤ) - den.log2 + 1) * 2 ^ (-guess) :=
          mul_lt_mul_of_pos_right hhigh hstep
      _ = 2 ^ 53 := by rw [← zpow_add₀ two_ne_zero, ← zpow_natCast]; congr 1; omega

/-- The exponent with which a fraction has 53 bits before the point. -/
def fullExponent (num den : Nat) : Int :=
  let guess : Int := (Nat.log2 num : Int) - Nat.log2 den - 52
  let (a, b) := scaled num den (-guess)
  if a / b < hiddenBit then guess - 1 else guess

theorem fullExponent_spec {num den : Nat} (hnum : num ≠ 0) (hden : den ≠ 0) :
    (2 : ℚ) ^ 52 ≤ num / den * 2 ^ (-fullExponent num den) ∧
      (num : ℚ) / den * 2 ^ (-fullExponent num den) < 2 ^ 53 := by
  unfold fullExponent
  dsimp only
  generalize hguess : (num.log2 : ℤ) - den.log2 - 52 = guess
  obtain ⟨hlow, hhigh⟩ := guess_spec hnum hden hguess.symm
  have hb := scaled_pos (x := num) (Nat.pos_of_ne_zero hden) (-guess)
  split
  · rename_i hsmall
    rw [div_lt_iff_ratio hb, scaled_ratio, hiddenBit_eq] at hsmall
    have htwice : (2 : ℚ) ^ (-(guess - 1)) = 2 ^ (-guess) * 2 := by
      rw [← zpow_add_one₀ two_ne_zero]
      congr 1
      ring
    rw [htwice, ← mul_assoc]
    constructor <;> linarith
  · rename_i hlarge
    rw [div_lt_iff_ratio hb, scaled_ratio, hiddenBit_eq] at hlarge
    exact ⟨le_of_not_gt hlarge, hhigh⟩

theorem nearestBits_eq (num den : Nat) : nearestBits num den =
    min ((max (fullExponent num den) (-1074) + 1074).toNat * hiddenBit +
      roundHalfEven (scaled num den (-max (fullExponent num den) (-1074))).1
        (scaled num den (-max (fullExponent num den) (-1074))).2) infinityBits := rfl

theorem closest_nearestBits {num den : Nat} (hnum : num ≠ 0) (hden : den ≠ 0) :
    Closest (num / den) (nearestBits num den) := by
  obtain ⟨hlow, hhigh⟩ := fullExponent_spec hnum hden
  rw [nearestBits_eq]
  generalize fullExponent num den = full at *
  obtain ⟨e, he⟩ : ∃ e : ℕ, max full (-1074) = e - 1074 := ⟨(max full (-1074) + 1074).toNat, by omega⟩
  have hexponent : ((e : ℤ) - 1074 + 1074).toNat = e := by omega
  have hb := scaled_pos (x := num) (Nat.pos_of_ne_zero hden) (-((e : ℤ) - 1074))
  have hratio := scaled_ratio num den (-((e : ℤ) - 1074))
  rw [he, hexponent]
  generalize scaled num den (-((e : ℤ) - 1074)) = ab at *
  have hfraction : (0 : ℚ) ≤ num / den := div_nonneg (Nat.cast_nonneg _) (Nat.cast_nonneg _)
  refine closest_min (preferred_roundHalfEven hb ?_ ?_ ?_)
  · rw [div_lt_iff_ratio hb, hratio, Nat.cast_mul, hiddenBit_eq]
    have hcoarser : (2 : ℚ) ^ (-((e : ℤ) - 1074)) ≤ 2 ^ (-full) := zpow_le_zpow_right₀ one_le_two (by omega)
    calc (num : ℚ) / den * 2 ^ (-((e : ℤ) - 1074))
        ≤ num / den * 2 ^ (-full) := mul_le_mul_of_nonneg_left hcoarser hfraction
      _ < 2 ^ 53 := hhigh
      _ = (2 : ℕ) * 2 ^ 52 := by norm_num
  · rcases Nat.eq_zero_or_pos e with hzero | hpos
    · exact .inl hzero
    · have hfull : full = e - 1074 := by omega
      rw [hfull, ← hratio, ← hiddenBit_eq] at hlow
      exact .inr (not_lt.mp fun hlt => hlow.not_gt ((div_lt_iff_ratio hb).mp hlt))
  · rw [hratio, mul_assoc, ← zpow_add₀ two_ne_zero, neg_add_cancel, zpow_zero, mul_one]

/-- The number that is computed is the nearest. -/
theorem nearest_nearest (negative : Bool) (num : Nat) {den : Nat} (hden : den ≠ 0) :
    Nearest negative (num / den) (nearest negative num den) := by
  refine nearest_iff.mpr ⟨if num = 0 then 0 else nearestBits num den, ?_, rfl⟩
  split
  · rename_i hzero
    subst hzero
    rw [Nat.cast_zero, zero_div]
    refine ⟨Nat.zero_le _, fun k _ hne => .inl (nearer_below magnitude_zero.ge (Nat.pos_of_ne_zero hne))⟩
  · rename_i hnum
    exact closest_nearestBits hnum hden

end LedgerWatch.Decimal
