/-
  LedgerWatch.Proofs.Decimal.Bits — numbers by their bits.

  Sign apart, the numbers other than NaN have the bits from 0 to those of infinity
  (`infinityBits`), and more bits make a larger number (`magnitude_strictMono`). Infinity
  stands for the power of two behind the largest number, so it fits in. A number is
  told by its sign and how far from zero it is (`parts_eq_some_iff`).

  The steps between numbers are equal as long as the exponent is the same, and there the
  magnitude is that of a grid (`magnitude_grid`). The last point of a grid is the first
  but one half of the next, so it may be taken from either.
-/

import LedgerWatch.Decimal.Binary64
import Mathlib

namespace LedgerWatch.Decimal

/-! ## Bits other than NaN's -/

section

open Float.Model
open Float.Model.UnpackedFloat (unpackExponent unpackMantissa isNaNBits)

variable (b : BitVec Format.binary64.numBits)

theorem toNat_unpackMantissa : (unpackMantissa b).toNat = b.toNat % 2 ^ 52 := by
  simp [unpackMantissa]

theorem toNat_unpackExponent : (unpackExponent b).toNat = b.toNat / 2 ^ 52 % 2 ^ 11 := by
  simp [unpackExponent, Nat.shiftRight_eq_div_pow]

variable {b}

theorem not_isNaNBits (h : b.toNat % 2 ^ 63 ≤ 2047 * 2 ^ 52) : ¬isNaNBits b = true := by
  simp only [isNaNBits, decide_eq_true_eq, not_and, not_not]
  intro hexponent
  have hall : (unpackExponent b).toNat = 2047 := congrArg BitVec.toNat hexponent
  rw [toNat_unpackExponent] at hall
  apply BitVec.eq_of_toNat_eq
  rw [toNat_unpackMantissa]
  show b.toNat % 2 ^ 52 = 0
  omega

theorem toBits_ofBits {bits : UInt64} (h : bits.toNat % 2 ^ 63 ≤ 2047 * 2 ^ 52) :
    (Float.ofBits bits).toBits = bits := by
  have hkept := UnpackedFloat.pack_unpack (show BitVec Format.binary64.numBits from bits.toBitVec)
  rw [if_neg (not_isNaNBits h)] at hkept
  exact congrArg UInt64.ofBitVec hkept

end

/-! ## Sign and magnitude -/

/-- The bits of infinity; those above are NaN's. -/
def infinityBits : Nat := 2047 * hiddenBit

/-- The number of some bits and a sign. -/
def ofParts (negative : Bool) (n : Nat) : Float :=
  Float.ofBits (UInt64.ofNat (if negative then signBit + n else n))

/-- How far from zero the number of some bits is. -/
def magnitude (n : Nat) : ℚ := (n - (n / hiddenBit - 1) * hiddenBit : ℕ) * 2 ^ ((n / hiddenBit - 1 : ℕ) - 1074 : ℤ)

/-- The sign of a number and how far from zero it is. Infinity stands for the power of two behind the largest number. -/
def Value.parts : Value → Option (Bool × ℚ)
  | .nan => none
  | .infinite negative => some (negative, 2 ^ 1024)
  | .finite negative m q => some (negative, m * 2 ^ q)

variable {negative : Bool} {n : Nat}

theorem toNat_toBits_ofParts (h : n ≤ infinityBits) :
    (ofParts negative n).toBits.toNat = if negative then signBit + n else n := by
  have hn : n < 2 ^ 63 := Nat.lt_of_le_of_lt h (by decide)
  have hbits : (UInt64.ofNat (if negative then signBit + n else n)).toNat = if negative then signBit + n else n := by
    refine UInt64.toNat_ofNat_of_lt' ?_
    show _ < 2 ^ 64
    cases negative <;> simp [signBit] <;> omega
  have hmod : (if negative then signBit + n else n) % 2 ^ 63 = n := by
    cases negative <;> simp [signBit] <;> omega
  rw [ofParts, toBits_ofBits (by rw [hbits, hmod]; exact h), hbits]

/-- On the grid of an exponent the magnitude grows evenly, up to and with the first point of the next. -/
theorem magnitude_grid {e m : Nat} (hm : m ≤ 2 * hiddenBit) (he : e = 0 ∨ hiddenBit ≤ m) :
    magnitude (e * hiddenBit + m) = m * 2 ^ ((e : ℤ) - 1074) := by
  have hpos : 0 < hiddenBit := by decide
  have hquot : (e * hiddenBit + m) / hiddenBit = e + m / hiddenBit := by
    rw [Nat.add_comm, Nat.add_mul_div_right _ _ hpos, Nat.add_comm]
  rcases Nat.lt_or_eq_of_le hm with hlt | rfl
  · have hexponent : (e * hiddenBit + m) / hiddenBit - 1 = e := by
      have hm1 : m / hiddenBit ≤ 1 := Nat.le_of_lt_succ ((Nat.div_lt_iff_lt_mul hpos).mpr hlt)
      rcases he with rfl | hge
      · omega
      · have := (Nat.le_div_iff_mul_le hpos).mpr ((Nat.one_mul _).le.trans hge)
        omega
    rw [magnitude, hexponent, Nat.add_sub_cancel_left]
  · have hexponent : (e * hiddenBit + 2 * hiddenBit) / hiddenBit - 1 = e + 1 := by
      rw [hquot, Nat.mul_div_cancel _ hpos]
      omega
    have hhalf : e * hiddenBit + 2 * hiddenBit - (e + 1) * hiddenBit = hiddenBit := by
      rw [Nat.add_mul]
      omega
    have hstep : ((e + 1 : ℕ) : ℤ) - 1074 = (e : ℤ) - 1074 + 1 := by push_cast; ring
    rw [magnitude, hexponent, hhalf, hstep, zpow_add_one₀ two_ne_zero]
    push_cast
    ring

/-- Every number is on the grid of its exponent. -/
theorem on_grid (n : Nat) : ∃ e m, n = e * hiddenBit + m ∧ m < 2 * hiddenBit ∧ (e = 0 ∨ hiddenBit ≤ m) := by
  refine ⟨n / hiddenBit - 1, n - (n / hiddenBit - 1) * hiddenBit, ?_⟩
  have hsplit : n / hiddenBit * hiddenBit + n % hiddenBit = n := Nat.div_add_mod' n hiddenBit
  have hmod : n % hiddenBit < hiddenBit := Nat.mod_lt _ (by decide)
  rw [Nat.sub_mul]
  rcases Nat.eq_zero_or_pos (n / hiddenBit) with hzero | hpos
  · rw [hzero] at hsplit ⊢
    omega
  · have hle : hiddenBit ≤ n / hiddenBit * hiddenBit := Nat.le_mul_of_pos_left _ hpos
    omega

theorem magnitude_strictMono : StrictMono magnitude := by
  refine strictMono_nat_of_lt_succ fun n => ?_
  obtain ⟨e, m, rfl, hm, he⟩ := on_grid n
  have hnext : e = 0 ∨ hiddenBit ≤ m + 1 := he.imp_right fun h => h.trans m.le_succ
  rw [Nat.add_assoc, magnitude_grid hm.le he, magnitude_grid hm hnext]
  have hstep : (0 : ℚ) < 2 ^ ((e : ℤ) - 1074) := zpow_pos two_pos _
  have hlt : (m : ℚ) < (m + 1 : ℕ) := Nat.cast_lt.mpr m.lt_succ_self
  exact mul_lt_mul_of_pos_right hlt hstep

theorem magnitude_zero : magnitude 0 = 0 := by simp [magnitude]

theorem hiddenBit_eq : (hiddenBit : ℚ) = 2 ^ 52 := by norm_num [hiddenBit]

theorem magnitude_infinityBits : magnitude infinityBits = 2 ^ 1024 := by
  have hgrid : infinityBits = 2046 * hiddenBit + hiddenBit := by decide
  have hexponent : ((2046 : ℕ) : ℤ) - 1074 = (972 : ℕ) := by decide
  rw [hgrid, magnitude_grid (by decide) (.inr le_rfl), hexponent, zpow_natCast, hiddenBit_eq, ← pow_add]

/-! ## Numbers by their parts -/

/-- A number is read off its bits, unless they are NaN's. -/
theorem parts_valueOf {x : Float} (hn : x.toBits.toNat % signBit = n) :
    (valueOf x).parts = if n ≤ infinityBits then some (decide (signBit ≤ x.toBits.toNat), magnitude n) else none := by
  have hexponent : x.toBits.toNat / hiddenBit % 2048 = n / hiddenBit := by
    simp only [hiddenBit, signBit] at hn ⊢
    omega
  have hfraction : x.toBits.toNat % hiddenBit = n % hiddenBit := by
    simp only [hiddenBit, signBit] at hn ⊢
    omega
  have hsplit : n / hiddenBit * hiddenBit + n % hiddenBit = n := Nat.div_add_mod' n hiddenBit
  have hmod : n % hiddenBit < hiddenBit := Nat.mod_lt _ (by decide)
  have hlt : n / hiddenBit < 2048 := hexponent ▸ Nat.mod_lt _ (by decide)
  simp only [valueOf, hexponent, hfraction]
  generalize decide (signBit ≤ x.toBits.toNat) = negative
  generalize n / hiddenBit = e at *
  generalize n % hiddenBit = f at *
  subst hsplit
  split
  · rename_i htop
    subst htop
    split
    · rename_i hzero
      subst hzero
      rw [if_pos (show 2047 * hiddenBit + 0 ≤ infinityBits from le_rfl)]
      exact congrArg (fun a => some (negative, a)) magnitude_infinityBits.symm
    · rename_i hother
      have hnan : ¬2047 * hiddenBit + f ≤ infinityBits := by
        show ¬2047 * hiddenBit + f ≤ 2047 * hiddenBit
        omega
      rw [if_neg hnan]
      rfl
  · rename_i hbelow
    have hnumber : e * hiddenBit + f ≤ infinityBits := by
      have hle : (e + 1) * hiddenBit ≤ infinityBits := Nat.mul_le_mul_right hiddenBit (by omega)
      rw [Nat.add_mul] at hle
      omega
    rw [if_pos hnumber]
    split
    · rename_i hzero
      subst hzero
      rw [magnitude_grid (by omega) (.inl rfl)]
      rfl
    · rename_i hpos
      obtain ⟨d, rfl⟩ := Nat.exists_eq_succ_of_ne_zero hpos
      have hgrid : (d + 1) * hiddenBit + f = d * hiddenBit + (hiddenBit + f) := by ring
      rw [Nat.succ_eq_add_one, hgrid, magnitude_grid (by omega) (.inr (by omega)), Value.parts]
      congr 4
      push_cast
      ring

theorem parts_ofParts (h : n ≤ infinityBits) : (valueOf (ofParts negative n)).parts = some (negative, magnitude n) := by
  have hn : n < signBit := Nat.lt_of_le_of_lt h (by decide)
  have hbits : (ofParts negative n).toBits.toNat = _ := toNat_toBits_ofParts h
  have hmod : (ofParts negative n).toBits.toNat % signBit = n := by
    rw [hbits]
    split
    · rw [Nat.add_mod_left, Nat.mod_eq_of_lt hn]
    · exact Nat.mod_eq_of_lt hn
  have hsign : decide (signBit ≤ (ofParts negative n).toBits.toNat) = negative := by
    rw [hbits]
    cases negative with
    | true => exact decide_eq_true (Nat.le_add_right _ _)
    | false => exact decide_eq_false hn.not_ge
  rw [parts_valueOf hmod, if_pos h, hsign]

/-- The numbers other than NaN by their signs and bits. -/
theorem parts_eq_some_iff {x : Float} {a : ℚ} :
    (valueOf x).parts = some (negative, a) ↔ ∃ n ≤ infinityBits, x = ofParts negative n ∧ magnitude n = a := by
  constructor
  · intro h
    rw [parts_valueOf rfl] at h
    split at h
    · rename_i hn
      obtain ⟨rfl, rfl⟩ := Prod.mk.inj (Option.some.inj h)
      refine ⟨_, hn, Float.toBits_inj.mp (UInt64.toNat_inj.mp ?_), rfl⟩
      rw [toNat_toBits_ofParts hn]
      have hlt := x.toBits.toNat_lt
      rcases Nat.lt_or_ge x.toBits.toNat signBit with hplus | hminus
      · rw [decide_eq_false hplus.not_ge, Nat.mod_eq_of_lt hplus]
        rfl
      · rw [decide_eq_true hminus, if_pos rfl]
        simp only [signBit] at *
        omega
    · cases h
  · rintro ⟨n, hn, rfl, rfl⟩
    exact parts_ofParts hn

end LedgerWatch.Decimal
