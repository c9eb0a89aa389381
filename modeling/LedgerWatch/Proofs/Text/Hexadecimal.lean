/-
  LedgerWatch.Proofs.Text.Hexadecimal — which texts are hexadecimal, and of which bytes.

  A text is read by its UTF-8 bytes, but only characters of one byte are digits, so what
  it says of its bytes it says of its characters: two digits, of either case, for each
  byte of the result (`Spells`). A text with an even number of bytes that are not all
  digits is refused for the first other one (`FirstOther`).

  - `decodeOctets_eq_ok_iff`, `decodeOctets_eq_error_iff`: what is read, and what is refused
    for which reason.
  - `encode_of_spells`: bytes are written as any of their texts, in lower case.
-/

import LedgerWatch.Text.Hex

namespace LedgerWatch.Text.Hex

/-! ## Digits -/

/-- The digits in the order of their values. -/
def digits : List Char := "0123456789abcdef".toList

/-- A digit of the value `v`, in either case. -/
def Digit (c : Char) (v : Nat) : Prop := digits[v]? = some c.toLower

def IsDigit (c : Char) : Prop := c.toLower ∈ digits

instance (c : Char) (v : Nat) : Decidable (Digit c v) := inferInstanceAs (Decidable (_ = _))

instance (c : Char) : Decidable (IsDigit c) := inferInstanceAs (Decidable (_ ∈ _))

theorem isDigit_iff {c : Char} : IsDigit c ↔ ∃ v, Digit c v := List.mem_iff_getElem?

theorem Digit.lt {c : Char} {v : Nat} (h : Digit c v) : v < 16 := (List.getElem?_eq_some_iff.mp h).1

theorem getElem?_digits : ∀ v < 16, digits[v]? = some (digit v) := by decide

theorem digit_digit : ∀ v < 16, Digit (digit v) v := by decide

theorem digit_of_digit {c : Char} {v : Nat} (h : Digit c v) : digit v = c.toLower :=
  Option.some.inj ((getElem?_digits v h.lt).symm.trans h)

theorem toNat_toLower (c : Char) :
    c.toLower.toNat = if 65 ≤ c.toNat ∧ c.toNat ≤ 90 then c.toNat + 32 else c.toNat := by
  unfold Char.toLower
  split
  · rename_i hupper
    have hle : 65 ≤ c.toNat ∧ c.toNat ≤ 90 := hupper
    rw [if_pos hle]
    have hval : c.val.toNat ≤ 90 := hle.2
    have hstep : ('a'.val - 'A'.val).toNat = 32 := rfl
    show (c.val + ('a'.val - 'A'.val)).toNat = c.val.toNat + 32
    rw [UInt32.toNat_add, hstep]
    omega
  · rename_i hupper
    exact (if_neg hupper).symm

theorem toNat_digit : ∀ v < 16, (digit v).toNat = if v < 10 then 48 + v else 87 + v := by decide

/-- The digits by their numbers: three ranges of characters. -/
theorem digit_iff {c : Char} {v : Nat} :
    Digit c v ↔ (48 ≤ c.toNat ∧ c.toNat ≤ 57 ∧ v = c.toNat - 48) ∨ (97 ≤ c.toNat ∧ c.toNat ≤ 102 ∧ v = c.toNat - 87) ∨
      (65 ≤ c.toNat ∧ c.toNat ≤ 70 ∧ v = c.toNat - 55) := by
  have hlower := toNat_toLower c
  constructor
  · intro h
    have hv := h.lt
    have hdigit := toNat_digit v hv
    rw [digit_of_digit h, hlower] at hdigit
    split at hdigit <;> split at hdigit <;> omega
  · intro h
    have hv : v < 16 := by omega
    have hdigit := toNat_digit v hv
    refine (getElem?_digits v hv).trans (congrArg some (Char.toNat_inj.mp ?_))
    rw [hdigit, hlower]
    split <;> split <;> omega

theorem isDigit_ascii {c : Char} (h : IsDigit c) : c.toNat < 128 := by
  obtain ⟨v, hv⟩ := isDigit_iff.mp h
  have hranges := digit_iff.mp hv
  omega

/-! ## Bytes of characters -/

/-- A byte as the character of that number. -/
def charOf (b : UInt8) : Char := Char.ofNat b.toNat

theorem toNat_charOf (b : UInt8) : (charOf b).toNat = b.toNat := by
  have hvalid : b.toNat.isValidChar := .inl (by have := b.toNat_lt; omega)
  rw [charOf, Char.ofNat, dif_pos hvalid]
  rfl

theorem value?_eq_some_iff {b : UInt8} {v : Nat} : value? b = some v ↔ Digit (charOf b) v := by
  rw [digit_iff, toNat_charOf]
  dsimp only [value?]
  split
  · rw [Option.some.injEq]; omega
  split
  · rw [Option.some.injEq]; omega
  split
  · rw [Option.some.injEq]; omega
  · exact ⟨nofun, fun h => by omega⟩

theorem value?_eq_none_iff {b : UInt8} : value? b = none ↔ ¬IsDigit (charOf b) := by
  rw [isDigit_iff, Option.eq_none_iff_forall_ne_some]
  simp only [ne_eq, value?_eq_some_iff, not_exists]

theorem utf8_ascii {c : Char} (h : c.toNat < 128) : ∃ b, String.utf8EncodeChar c = [b] ∧ charOf b = c := by
  refine ⟨UInt8.ofNat c.toNat, ?_, ?_⟩
  · exact if_pos (Nat.le_of_lt_succ h)
  · rw [charOf, UInt8.toNat_ofNat_of_lt' (by simp only [UInt8.size]; omega), Char.ofNat_toNat]

/-- The first byte of any other character is no digit. -/
theorem utf8_other {c : Char} (h : ¬c.toNat < 128) : ∃ b ∈ String.utf8EncodeChar c, ¬IsDigit (charOf b) := by
  have hhigh : ∀ b : UInt8, 128 ≤ b.toNat → ¬IsDigit (charOf b) := by
    intro b hb hdigit
    have hlt := isDigit_ascii hdigit
    rw [toNat_charOf] at hlt
    omega
  have hv : ¬c.val.toNat ≤ 127 := fun hle => h (Nat.lt_succ_of_le hle)
  unfold String.utf8EncodeChar
  dsimp only
  rw [if_neg hv]
  split
  · refine ⟨_, List.mem_cons_self, hhigh _ ?_⟩
    rw [UInt8.toNat_ofNat']
    omega
  split
  · refine ⟨_, List.mem_cons_self, hhigh _ ?_⟩
    rw [UInt8.toNat_ofNat']
    omega
  · refine ⟨_, List.mem_cons_self, hhigh _ ?_⟩
    rw [UInt8.toNat_ofNat']
    omega

theorem isDigit_of_bytes {cs : List Char} (h : ∀ b ∈ cs.flatMap String.utf8EncodeChar, IsDigit (charOf b)) :
    ∀ c ∈ cs, IsDigit c := by
  intro c hc
  by_cases hascii : c.toNat < 128
  · obtain ⟨b, hb, rfl⟩ := utf8_ascii hascii
    exact h b (List.mem_flatMap.mpr ⟨_, hc, by rw [hb]; exact List.mem_singleton_self b⟩)
  · obtain ⟨b, hb, hother⟩ := utf8_other hascii
    exact absurd (h b (List.mem_flatMap.mpr ⟨c, hc, hb⟩)) hother

theorem length_utf8 {cs : List Char} (h : ∀ c ∈ cs, IsDigit c) :
    (cs.flatMap String.utf8EncodeChar).length = cs.length := by
  induction cs with
  | nil => rfl
  | cons c cs ih =>
    obtain ⟨hc, hcs⟩ := List.forall_mem_cons.mp h
    obtain ⟨b, hb, -⟩ := utf8_ascii (isDigit_ascii hc)
    rw [List.flatMap_cons, hb, List.length_append, ih hcs, List.length_singleton, List.length_cons, Nat.add_comm]

/-! ## Bytes and their digits -/

/-- Two digits for each byte, that of the higher half first. -/
inductive Spells : List Char → Bytes → Prop where
  | nil : Spells [] []
  | cons {hi lo : Char} {h l : Nat} {b : UInt8} {cs : List Char} {bs : Bytes} :
      Digit hi h → Digit lo l → b.toNat = 16 * h + l → Spells cs bs → Spells (hi :: lo :: cs) (b :: bs)

theorem spells_encode (bs : Bytes) : Spells (encode bs) bs := by
  induction bs with
  | nil => exact .nil
  | cons b bs ih =>
    have hb := b.toNat_lt
    exact .cons (digit_digit _ (by omega)) (digit_digit _ (by omega)) (by omega) ih

theorem spells_of_digits {n : Nat} {cs : List Char} (hlength : cs.length = 2 * n) (h : ∀ c ∈ cs, IsDigit c) :
    ∃ bs, Spells cs bs := by
  induction n generalizing cs with
  | zero => exact ⟨[], List.length_eq_zero_iff.mp hlength ▸ .nil⟩
  | succ n ih =>
    obtain ⟨hi, lo, rest, rfl⟩ : ∃ hi lo rest, cs = hi :: lo :: rest := by
      match cs with
      | [] => cases hlength
      | [_] => rw [List.length_singleton] at hlength; omega
      | hi :: lo :: rest => exact ⟨hi, lo, rest, rfl⟩
    obtain ⟨hhi, hdigits⟩ := List.forall_mem_cons.mp h
    obtain ⟨hlo, hrest⟩ := List.forall_mem_cons.mp hdigits
    obtain ⟨v, hv⟩ := isDigit_iff.mp hhi
    obtain ⟨w, hw⟩ := isDigit_iff.mp hlo
    obtain ⟨bs, hbs⟩ := ih (by simp only [List.length_cons] at hlength; omega) hrest
    have hbyte : 16 * v + w < UInt8.size := by
      have := hv.lt; have := hw.lt
      simp only [UInt8.size]
      omega
    exact ⟨_, .cons hv hw (UInt8.toNat_ofNat_of_lt' hbyte) hbs⟩

section

variable {cs : List Char} {bs : Bytes}

theorem Spells.isDigit (h : Spells cs bs) : ∀ c ∈ cs, IsDigit c := by
  induction h with
  | nil => nofun
  | cons hhi hlo _ _ ih => exact List.forall_mem_cons.mpr ⟨isDigit_iff.mpr ⟨_, hhi⟩,
      List.forall_mem_cons.mpr ⟨isDigit_iff.mpr ⟨_, hlo⟩, ih⟩⟩

theorem Spells.length (h : Spells cs bs) : cs.length = 2 * bs.length := by
  induction h with
  | nil => rfl
  | cons _ _ _ _ ih => simp only [List.length_cons, ih]; omega

/-- Bytes are written as any of their texts, in lower case. -/
theorem encode_of_spells (h : Spells cs bs) : encode bs = cs.map Char.toLower := by
  induction h with
  | nil => rfl
  | @cons hi lo v w b cs bs hhi hlo hb _ ih =>
    have := hhi.lt; have := hlo.lt
    have hhigh : b.toNat / 16 = v := by omega
    have hlow : b.toNat % 16 = w := by omega
    show digit (b.toNat / 16) :: digit (b.toNat % 16) :: encode bs = _
    rw [hhigh, hlow, digit_of_digit hhi, digit_of_digit hlo, ih]
    rfl

/-- A text that spells bytes is read as them. -/
theorem pairs_of_spells (h : Spells cs bs) (i : Nat) : pairs i (cs.flatMap String.utf8EncodeChar) = .ok bs := by
  induction h generalizing i with
  | nil => rfl
  | @cons hi lo v w b cs bs hhi hlo hb hspells ih =>
    obtain ⟨hi', hhi', hchar⟩ := utf8_ascii (isDigit_ascii (isDigit_iff.mpr ⟨_, hhi⟩))
    obtain ⟨lo', hlo', hchar'⟩ := utf8_ascii (isDigit_ascii (isDigit_iff.mpr ⟨_, hlo⟩))
    have hv : value? hi' = some v := value?_eq_some_iff.mpr (hchar ▸ hhi)
    have hw : value? lo' = some w := value?_eq_some_iff.mpr (hchar' ▸ hlo)
    rw [List.flatMap_cons, List.flatMap_cons, hhi', hlo', List.singleton_append, List.singleton_append]
    simp only [pairs, hv, hw, ih, Except.map, ← hb, UInt8.ofNat_toNat]

end

/-! ## Refusals -/

/-- The first byte that is no digit is `b`, at the index `i`. -/
def FirstOther (bs : Bytes) (b : UInt8) (i : Nat) : Prop :=
  ∃ before after, bs = before ++ b :: after ∧ before.length = i ∧ (∀ d ∈ before, IsDigit (charOf d)) ∧
    ¬IsDigit (charOf b)

/-- Why a text is not that of `n` bytes. An odd number of its own bytes is told first, then the first of them that is
no digit, and only then that there are too few or too many. -/
inductive Refusal (n : Nat) (s : String) : Error → Prop where
  | oddLength : (Bytes.utf8 s).length % 2 = 1 → Refusal n s .oddLength
  | notADigit {b : UInt8} {i : Nat} : (Bytes.utf8 s).length % 2 = 0 → FirstOther (Bytes.utf8 s) b i →
      Refusal n s (.notADigit b i)
  | wrongLength : (Bytes.utf8 s).length % 2 = 0 → (∀ b ∈ Bytes.utf8 s, IsDigit (charOf b)) →
      (Bytes.utf8 s).length ≠ 2 * n → Refusal n s (.wrongLength n)

theorem digits_or_firstOther (bs : Bytes) : (∀ b ∈ bs, IsDigit (charOf b)) ∨ ∃ b i, FirstOther bs b i := by
  induction bs with
  | nil => exact .inl nofun
  | cons c cs ih =>
    by_cases hc : IsDigit (charOf c)
    · rcases ih with hall | ⟨b, i, before, after, rfl, rfl, hbefore, hb⟩
      · exact .inl (List.forall_mem_cons.mpr ⟨hc, hall⟩)
      · exact .inr ⟨b, _, c :: before, after, rfl, rfl, List.forall_mem_cons.mpr ⟨hc, hbefore⟩, hb⟩
    · exact .inr ⟨c, 0, [], cs, rfl, rfl, nofun, hc⟩

/-- Pairs are read up to the first byte that is no digit, and it is the one refused. -/
theorem pairs_of_firstOther {b : UInt8} {after : Bytes} (hb : ¬IsDigit (charOf b)) :
    ∀ (before : Bytes) (i : Nat), (∀ d ∈ before, IsDigit (charOf d)) → (before ++ b :: after).length % 2 = 0 →
      pairs i (before ++ b :: after) = .error (.notADigit b (i + before.length))
  | [], i, _, heven => by
    have hnone := value?_eq_none_iff.mpr hb
    cases after with
    | nil => cases heven
    | cons lo rest => simp only [List.nil_append, pairs, hnone, List.length_nil, Nat.add_zero]
  | [hi], i, hbefore, _ => by
    obtain ⟨v, hv⟩ := isDigit_iff.mp (hbefore hi (List.mem_singleton_self hi))
    have hsome := value?_eq_some_iff.mpr hv
    have hnone := value?_eq_none_iff.mpr hb
    simp only [List.singleton_append, pairs, hsome, hnone, List.length_singleton]
  | hi :: lo :: before, i, hbefore, heven => by
    obtain ⟨hhi, hrest⟩ := List.forall_mem_cons.mp hbefore
    obtain ⟨hlo, hrest⟩ := List.forall_mem_cons.mp hrest
    obtain ⟨v, hv⟩ := isDigit_iff.mp hhi
    obtain ⟨w, hw⟩ := isDigit_iff.mp hlo
    have hsome := value?_eq_some_iff.mpr hv
    have hsome' := value?_eq_some_iff.mpr hw
    have heven' : (before ++ b :: after).length % 2 = 0 := by
      simp only [List.cons_append, List.length_cons] at heven
      omega
    have hindex : i + (before.length + 1 + 1) = i + 2 + before.length := by omega
    simp only [List.cons_append, pairs, hsome, hsome', pairs_of_firstOther hb before (i + 2) hrest heven', Except.map,
      List.length_cons, hindex]

/-! ## Texts of `n` bytes -/

section

variable {n : Nat} {s : String}

theorem decodeOctets_of_spells {o : Octets n} (h : Spells s.toList o.toList) : decodeOctets n s = .ok o := by
  have heven : ¬(Bytes.utf8 s).length % 2 = 1 := by
    rw [Bytes.utf8, length_utf8 h.isDigit, h.length]
    omega
  have hpairs : pairs 0 (Bytes.utf8 s) = .ok o.toList := pairs_of_spells h 0
  simp only [decodeOctets, decode, if_neg heven, hpairs, Octets.ofList?_toList]

theorem decodeOctets_of_refusal {e : Error} (h : Refusal n s e) : decodeOctets n s = .error e := by
  cases h with
  | oddLength hodd => simp only [decodeOctets, decode, if_pos hodd]
  | @notADigit b i heven hfirst =>
    obtain ⟨before, after, hbytes, rfl, hbefore, hb⟩ := hfirst
    have hpairs : pairs 0 (before ++ b :: after) = _ := pairs_of_firstOther hb before 0 hbefore (hbytes ▸ heven)
    rw [← hbytes, Nat.zero_add] at hpairs
    simp only [decodeOctets, decode, heven, hpairs, if_false, Nat.zero_ne_one]
  | wrongLength heven hdigits hlength =>
    have hchars := isDigit_of_bytes hdigits
    have hsame : (Bytes.utf8 s).length = s.toList.length := length_utf8 hchars
    obtain ⟨bs, hbs⟩ := spells_of_digits (n := s.toList.length / 2) (by omega) hchars
    have hpairs : pairs 0 (Bytes.utf8 s) = .ok bs := pairs_of_spells hbs 0
    have hother : bs.length ≠ n := fun hn => hlength (hsame.trans (hn ▸ hbs.length))
    simp only [decodeOctets, decode, heven, hpairs, if_false, Nat.zero_ne_one, Octets.ofList?, dif_neg hother]

theorem spells_or_refusal (n : Nat) (s : String) :
    (∃ o : Octets n, Spells s.toList o.toList) ∨ ∃ e, Refusal n s e := by
  rcases Nat.mod_two_eq_zero_or_one (Bytes.utf8 s).length with heven | hodd
  · rcases digits_or_firstOther (Bytes.utf8 s) with hdigits | ⟨b, i, hfirst⟩
    · by_cases hlength : (Bytes.utf8 s).length = 2 * n
      · have hchars := isDigit_of_bytes hdigits
        rw [Bytes.utf8, length_utf8 hchars] at hlength
        obtain ⟨bs, hbs⟩ := spells_of_digits hlength hchars
        have hn : bs.length = n := by have := hbs.length; omega
        exact .inl ⟨⟨bs, hn⟩, hbs⟩
      · exact .inr ⟨_, .wrongLength heven hdigits hlength⟩
    · exact .inr ⟨_, .notADigit heven hfirst⟩
  · exact .inr ⟨_, .oddLength hodd⟩

theorem decodeOctets_eq_ok_iff {o : Octets n} : decodeOctets n s = .ok o ↔ Spells s.toList o.toList := by
  refine ⟨fun h => ?_, decodeOctets_of_spells⟩
  rcases spells_or_refusal n s with ⟨o', ho'⟩ | ⟨e, he⟩
  · rw [decodeOctets_of_spells ho'] at h
    exact Except.ok.inj h ▸ ho'
  · rw [decodeOctets_of_refusal he] at h
    cases h

theorem decodeOctets_eq_error_iff {e : Error} : decodeOctets n s = .error e ↔ Refusal n s e := by
  refine ⟨fun h => ?_, decodeOctets_of_refusal⟩
  rcases spells_or_refusal n s with ⟨o, ho⟩ | ⟨e', he'⟩
  · rw [decodeOctets_of_spells ho] at h
    cases h
  · rw [decodeOctets_of_refusal he'] at h
    exact Except.error.inj h ▸ he'

theorem decodeOctets_encode (o : Octets n) : decodeOctets n (String.ofList (encode o.toList)) = .ok o := by
  refine decodeOctets_of_spells ?_
  rw [String.toList_ofList]
  exact spells_encode o.toList

end

end LedgerWatch.Text.Hex
