/-
  LedgerWatch.Proofs.Bytes.Ordered — the order of texts and of their bytes.

  UTF-8 keeps the order of characters: the bytes of a lower one come first, whatever is
  behind them (`ascending_utf8EncodeChar`). An encoding that does so for single values
  does so for lists of them, so texts compare by their bytes as they do by their
  characters (`utf8_lt_iff`).
-/

import LedgerWatch.Proofs.Bytes.Delimited

namespace LedgerWatch.Bytes

/-- Of two values the bytes of the lower one come first, whatever is behind them. -/
def Ascending {α : Type} [LT α] (f : α → Bytes) : Prop :=
  ∀ ⦃x y : α⦄ ⦃r s : Bytes⦄, x < y → f x ++ r < f y ++ s

/-! ## Characters -/

/-- The first byte decides. -/
theorem lt_of_head {m n : Nat} (hn : n < 256) (h : m < n) (r s : Bytes) : UInt8.ofNat m :: r < UInt8.ofNat n :: s := by
  refine List.cons_lt_cons_iff.mpr (.inl ?_)
  rw [UInt8.lt_iff_toNat_lt, UInt8.toNat_ofNat', UInt8.toNat_ofNat']
  omega

theorem lt_of_tail {m n : Nat} {r s : Bytes} (hn : n < 256) (h : m ≤ n) (htail : m = n → r < s) :
    UInt8.ofNat m :: r < UInt8.ofNat n :: s := by
  rcases Nat.lt_or_eq_of_le h with hlt | rfl
  · exact lt_of_head hn hlt r s
  · exact List.cons_lt_cons_iff.mpr (.inr ⟨rfl, htail rfl⟩)

theorem ascending_utf8EncodeChar : Ascending String.utf8EncodeChar := by
  intro c d r s h
  have hcd : c.val.toNat < d.val.toNat := h
  have hd : d.val.toNat < 0x110000 := by
    rcases d.valid with hlow | ⟨-, hhigh⟩
    · exact Nat.lt_trans hlow (by decide)
    · exact hhigh
  unfold String.utf8EncodeChar
  dsimp only
  generalize c.val.toNat = m at hcd
  generalize d.val.toNat = n at hcd hd
  -- more bytes show in a higher first one, and as many are compared digit by digit
  by_cases hm1 : m ≤ 0x7f
  · rw [if_pos hm1]
    by_cases hn1 : n ≤ 0x7f
    · rw [if_pos hn1]
      exact lt_of_head (by omega) hcd _ _
    · rw [if_neg hn1]
      split
      · exact lt_of_head (by omega) (by omega) _ _
      · split <;> exact lt_of_head (by omega) (by omega) _ _
  rw [if_neg hm1, if_neg (by omega : ¬n ≤ 0x7f)]
  by_cases hm2 : m ≤ 0x7ff
  · rw [if_pos hm2]
    split
    · exact lt_of_tail (by omega) (by omega) fun _ => lt_of_head (by omega) (by omega) _ _
    · split <;> exact lt_of_head (by omega) (by omega) _ _
  rw [if_neg hm2, if_neg (by omega : ¬n ≤ 0x7ff)]
  by_cases hm3 : m ≤ 0xffff
  · rw [if_pos hm3]
    split
    · exact lt_of_tail (by omega) (by omega) fun _ => lt_of_tail (by omega) (by omega) fun _ =>
        lt_of_head (by omega) (by omega) _ _
    · exact lt_of_head (by omega) (by omega) _ _
  rw [if_neg hm3, if_neg (by omega : ¬n ≤ 0xffff)]
  exact lt_of_tail (by omega) (by omega) fun _ => lt_of_tail (by omega) (by omega) fun _ =>
    lt_of_tail (by omega) (by omega) fun _ => lt_of_head (by omega) (by omega) _ _

/-! ## Texts -/

theorem Ascending.flatMap_lt {α : Type} [LT α] {f : α → Bytes} (h : Ascending f) (hne : ∀ x, f x ≠ []) {xs ys : List α}
    (hlt : xs < ys) : xs.flatMap f < ys.flatMap f := by
  induction hlt with
  | @nil y ys =>
    obtain ⟨b, bs, hb⟩ := List.exists_cons_of_ne_nil (hne y)
    rw [List.flatMap_cons, hb]
    exact List.nil_lt_cons b _
  | rel hxy => exact h hxy
  | cons _ ih => exact List.append_left_lt ih

theorem utf8_lt_of_lt {s t : String} (h : s < t) : utf8 s < utf8 t := by
  refine ascending_utf8EncodeChar.flatMap_lt (fun c hnil => ?_) h
  have hsize := c.utf8Size_pos
  rw [← String.length_utf8EncodeChar, hnil] at hsize
  exact Nat.lt_irrefl 0 hsize

/-- Texts compare by their characters as they do by their bytes. -/
theorem utf8_lt_iff (s t : String) : utf8 s < utf8 t ↔ s < t := by
  refine ⟨fun h => Decidable.byContradiction fun hst => ?_, utf8_lt_of_lt⟩
  by_cases hts : t < s
  · exact List.lt_asymm h (utf8_lt_of_lt hts)
  · rw [String.le_antisymm hts hst] at h
    exact List.lt_irrefl _ h

end LedgerWatch.Bytes
