/-
  LedgerWatch.Proofs.Text.Written — numerals, read and written.

  A numeral is one or more digits, behind a plus or not, whatever zeros lead
  (`Denotes`). A number is written as the one of its numerals that has neither.

  - `readFrom_digits`: reading digits is evaluating them.
  - `readBelow_write`: a numeral reads back as its number, if the bound lets it.
  - `readBelow_eq_some_iff`: the numerals below a bound.
  - `write_of_denotes`: a number is written as any of its numerals, made normal.
-/

import LedgerWatch.Text.Numeral

namespace LedgerWatch.Text

namespace Numeral

theorem isDigit_of_mem_write {n : Nat} {c : Char} (h : c ∈ write n) : c.isDigit = true :=
  Nat.isDigit_of_mem_toDigits (by omega) (by omega) h

theorem write_ne_nil (n : Nat) : write n ≠ [] := Nat.toDigits_ne_nil

theorem readFrom_digits {cs : List Char} (h : ∀ c ∈ cs, c.isDigit = true) (acc : Nat) :
    readFrom acc cs = some (Nat.ofDigitChars 10 cs acc) := by
  induction cs generalizing acc with
  | nil => rfl
  | cons c cs ih =>
    have hc : digit? c = some (c.toNat - 48) := if_pos (h c List.mem_cons_self)
    rw [readFrom, hc, Option.bind_some, ih fun d hd => h d (List.mem_cons_of_mem c hd)]
    rfl

theorem readFrom_write (n : Nat) : readFrom 0 (write n) = some n := by
  rw [readFrom_digits fun c hc => isDigit_of_mem_write hc, write, Nat.ofDigitChars_toDigits (by omega) (by omega)]

theorem readDigits_write (n : Nat) : readDigits (write n) = some n := by
  obtain ⟨c, cs, hcs⟩ := List.exists_cons_of_ne_nil (write_ne_nil n)
  have hread := readFrom_write n
  rw [hcs] at hread ⊢
  exact hread

theorem read_write (n : Nat) : read (write n) = some n := by
  unfold read
  split
  · rename_i cs hcs
    -- a written numeral has no sign
    have hplus := isDigit_of_mem_write (hcs ▸ List.mem_cons_self : '+' ∈ write n)
    contradiction
  · exact readDigits_write n

theorem readBelow_write {bound n : Nat} (h : n < bound) : readBelow bound (write n) = some n := by
  rw [readBelow, read_write]
  exact Option.filter_some_pos (by simpa using h)

/-- No numeral but that of zero begins with a zero. -/
theorem head?_write {n : Nat} (h : 0 < n) : (write n).head? ≠ some '0' := by
  induction n using Nat.strongRecOn with
  | ind n ih =>
    rcases Nat.lt_or_ge n 10 with hlt | hge
    · rw [write, Nat.toDigits_of_lt_base hlt, List.head?_cons]
      intro hzero
      have hval := Nat.toNat_digitChar_of_lt_ten hlt
      rw [Option.some.inj hzero] at hval
      have : '0'.toNat = 48 := rfl
      omega
    · have hhead := ih (n / 10) (by omega) (by omega)
      obtain ⟨c, cs, hcs⟩ := List.exists_cons_of_ne_nil (write_ne_nil (n / 10))
      rw [hcs] at hhead
      rw [write, Nat.toDigits_of_base_le (by omega) hge, ← write, hcs]
      exact hhead

theorem write_zero : write 0 = ['0'] := rfl

/-- Digits are told from what comes behind them. -/
theorem takeWhile_isDigit {ds rest : List Char} (hds : ∀ c ∈ ds, c.isDigit = true)
    (hrest : ∀ c ∈ rest.head?, c.isDigit = false) :
    (ds ++ rest).takeWhile Char.isDigit = ds ∧ (ds ++ rest).dropWhile Char.isDigit = rest := by
  rw [List.takeWhile_append_of_pos hds, List.dropWhile_append_of_pos hds]
  cases rest with
  | nil => exact ⟨List.append_nil ds, rfl⟩
  | cons c rest =>
    have hc : c.isDigit = false := hrest c rfl
    simp [hc]

/-! ## What a numeral denotes -/

/-- One or more digits of the value `n`, behind a plus or not. -/
def Denotes (cs : List Char) (n : Nat) : Prop :=
  ∃ ds, (cs = ds ∨ cs = '+' :: ds) ∧ ds ≠ [] ∧ (∀ c ∈ ds, c.isDigit = true) ∧ Nat.ofDigitChars 10 ds 0 = n

theorem exists_digitChar {c : Char} (h : c.isDigit = true) : ∃ d < 10, c = d.digitChar := by
  obtain ⟨hlow, hhigh⟩ := Char.isDigit_iff_toNat.mp h
  have hlt : c.toNat - 48 < 10 := by
    have : '9'.toNat = 57 := rfl
    omega
  refine ⟨c.toNat - 48, hlt, Char.toNat_inj.mp ?_⟩
  have : '0'.toNat = 48 := rfl
  rw [Nat.toNat_digitChar_of_lt_ten hlt]
  omega

theorem isDigit_of_readFrom {acc n : Nat} {cs : List Char} (h : readFrom acc cs = some n) :
    ∀ c ∈ cs, c.isDigit = true := by
  induction cs generalizing acc with
  | nil => nofun
  | cons c cs ih =>
    obtain ⟨d, hd, hrest⟩ := Option.bind_eq_some_iff.mp h
    have hc : c.isDigit = true := by
      unfold digit? at hd
      split at hd
      · assumption
      · cases hd
    exact List.forall_mem_cons.mpr ⟨hc, ih hrest⟩

theorem readDigits_eq_some_iff {cs : List Char} {n : Nat} :
    readDigits cs = some n ↔ cs ≠ [] ∧ (∀ c ∈ cs, c.isDigit = true) ∧ Nat.ofDigitChars 10 cs 0 = n := by
  cases cs with
  | nil => simp [readDigits]
  | cons c cs =>
    constructor
    · intro h
      have hdigits := isDigit_of_readFrom h
      exact ⟨nofun, hdigits, Option.some.inj ((readFrom_digits hdigits 0).symm.trans h)⟩
    · rintro ⟨-, hdigits, hvalue⟩
      exact (readFrom_digits hdigits 0).trans (congrArg some hvalue)

/-- Digits have no sign in front of them. -/
theorem read_digits {cs : List Char} (hdigits : ∀ c ∈ cs, c.isDigit = true) : read cs = readDigits cs := by
  unfold read
  split
  · have hplus := hdigits '+' List.mem_cons_self
    contradiction
  · rfl

theorem read_eq_some_iff {cs : List Char} {n : Nat} : read cs = some n ↔ Denotes cs n := by
  constructor
  · intro h
    unfold read at h
    split at h
    · rename_i ds
      exact ⟨ds, .inr rfl, readDigits_eq_some_iff.mp h⟩
    · exact ⟨cs, .inl rfl, readDigits_eq_some_iff.mp h⟩
  · rintro ⟨ds, rfl | rfl, hds⟩
    · rw [read_digits hds.2.1]
      exact readDigits_eq_some_iff.mpr hds
    · exact readDigits_eq_some_iff.mpr hds

theorem readBelow_eq_some_iff {bound n : Nat} {cs : List Char} :
    readBelow bound cs = some n ↔ Denotes cs n ∧ n < bound := by
  rw [readBelow, Option.filter_eq_some_iff, read_eq_some_iff, decide_eq_true_eq]

theorem Denotes.no_point {cs : List Char} {n : Nat} (h : Denotes cs n) : '.' ∉ cs := by
  obtain ⟨ds, rfl | rfl, -, hdigits, -⟩ := h
  · intro hpoint
    have := hdigits '.' hpoint
    contradiction
  · intro hpoint
    rcases List.mem_cons.mp hpoint with hplus | hpoint
    · contradiction
    · have := hdigits '.' hpoint
      contradiction

/-! ## The numeral that is written -/

/-- Digits without the zeros that lead, unless there is nothing else. -/
def trimmed (ds : List Char) : List Char :=
  match ds.dropWhile (· = '0') with
  | [] => ['0']
  | d :: ds => d :: ds

/-- A numeral without its plus and its superfluous zeros. -/
def normal : List Char → List Char
  | '+' :: ds => trimmed ds
  | ds => trimmed ds

theorem write_digitChar {d : Nat} (h : d < 10) : write d = [d.digitChar] := Nat.toDigits_of_lt_base h

/-- Digits behind a number that is not zero are written as they are. -/
theorem write_append {acc : Nat} {ds : List Char} (hacc : 0 < acc) (hdigits : ∀ c ∈ ds, c.isDigit = true) :
    write (Nat.ofDigitChars 10 ds acc) = write acc ++ ds := by
  induction ds generalizing acc with
  | nil => rw [Nat.ofDigitChars_nil, List.append_nil]
  | cons c cs ih =>
    obtain ⟨hc, hcs⟩ := List.forall_mem_cons.mp hdigits
    obtain ⟨d, hd, rfl⟩ := exists_digitChar hc
    have hnext : write (10 * acc + d) = write acc ++ [d.digitChar] := by
      rw [← write_digitChar hd]
      exact (Nat.toDigits_append_toDigits (by omega) hacc hd).symm
    rw [Nat.ofDigitChars_cons_digitChar_of_lt_ten hd, ih (by omega) hcs, hnext, List.append_assoc,
      List.singleton_append]

theorem write_trimmed {ds : List Char} (hdigits : ∀ c ∈ ds, c.isDigit = true) :
    write (Nat.ofDigitChars 10 ds 0) = trimmed ds := by
  induction ds with
  | nil => rfl
  | cons c cs ih =>
    obtain ⟨hc, hcs⟩ := List.forall_mem_cons.mp hdigits
    obtain ⟨d, hd, rfl⟩ := exists_digitChar hc
    rw [Nat.ofDigitChars_cons_digitChar_of_lt_ten hd]
    rcases Nat.eq_zero_or_pos d with rfl | hpos
    · exact ih hcs
    · have hzero : ¬ d.digitChar = '0' := fun h => absurd (Nat.digitChar_eq_zero.mp h) (by omega)
      rw [Nat.mul_zero, Nat.zero_add, write_append hpos hcs, write_digitChar hd, trimmed,
        List.dropWhile_cons_of_neg (by simpa using hzero), List.singleton_append]

theorem normal_digits {ds : List Char} (hdigits : ∀ c ∈ ds, c.isDigit = true) : normal ds = trimmed ds := by
  unfold normal
  split
  · have hplus := hdigits '+' List.mem_cons_self
    contradiction
  · rfl

/-- Whichever numeral a number is given by, it is written as that one made normal. -/
theorem write_of_denotes {cs : List Char} {n : Nat} (h : Denotes cs n) : write n = normal cs := by
  obtain ⟨ds, rfl | rfl, -, hdigits, rfl⟩ := h
  · rw [normal_digits hdigits]
    exact write_trimmed hdigits
  · exact write_trimmed hdigits

end Numeral

end LedgerWatch.Text
