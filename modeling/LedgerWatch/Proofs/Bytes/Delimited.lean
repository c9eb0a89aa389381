/-
  LedgerWatch.Proofs.Bytes.Delimited — encodings that show where they end.

  An encoding is delimited if an encoded value can be told from what is behind it,
  whatever that is. Integers are, by their width, texts and lists, by the length in
  front. Where nothing follows, a list of delimited encodings needs no length at all
  (`Delimited.flatMap_inj`): each one says where the next begins.

  The ten bytes of an object id need no mark at all (`ObjectId.bytes_inj`).
-/

import LedgerWatch.Block

namespace LedgerWatch.Bytes

/-- Of an encoded value of `P` and the bytes behind it, both can be told. -/
def Delimited {α : Type} (P : α → Prop) (f : α → Bytes) : Prop :=
  ∀ ⦃x y : α⦄ ⦃r s : Bytes⦄, P x → P y → f x ++ r = f y ++ s → x = y ∧ r = s

variable {α β : Type} {P : α → Prop} {f : α → Bytes}

/-- For an encoding of all values of its type. -/
theorem Delimited.tell (h : Delimited (fun _ => True) f) {x y : α} {r s : Bytes} (heq : f x ++ r = f y ++ s) :
    x = y ∧ r = s :=
  h trivial trivial heq

theorem Delimited.of_injective {Q : β → Prop} {g : β → α} (h : Delimited P f) (hfits : ∀ x, Q x → P (g x))
    (hg : ∀ x y, g x = g y → x = y) : Delimited Q fun x => f (g x) := by
  intro x y r s hx hy heq
  obtain ⟨hxy, hrs⟩ := h (hfits x hx) (hfits y hy) heq
  exact ⟨hg x y hxy, hrs⟩

/-! ## Integers -/

theorem little_inj {width m n : Nat} (hm : m < Nat.pow 256 width) (hn : n < Nat.pow 256 width)
    (h : little width m = little width n) : m = n := by
  have hvalue := congrArg ofLittle h
  rwa [ofLittle_little, ofLittle_little, Nat.mod_eq_of_lt hm, Nat.mod_eq_of_lt hn] at hvalue

theorem big_inj {width m n : Nat} (hm : m < Nat.pow 256 width) (hn : n < Nat.pow 256 width)
    (h : big width m = big width n) : m = n :=
  little_inj hm hn (List.reverse_inj.mp h)

theorem delimited_little (width : Nat) : Delimited (· < Nat.pow 256 width) (little width) := by
  intro m n r s hm hn heq
  obtain ⟨hmn, hrs⟩ := List.append_inj heq (by rw [length_little, length_little])
  exact ⟨little_inj hm hn hmn, hrs⟩

theorem delimited_uint16 : Delimited (fun _ => True) fun n : UInt16 => little 2 n.toNat :=
  (delimited_little 2).of_injective (fun n _ => n.toNat_lt) fun _ _ => UInt16.toNat_inj.mp

theorem delimited_uint32 : Delimited (fun _ => True) fun n : UInt32 => little 4 n.toNat :=
  (delimited_little 4).of_injective (fun n _ => n.toNat_lt) fun _ _ => UInt32.toNat_inj.mp

theorem delimited_uint64 : Delimited (fun _ => True) fun n : UInt64 => little 8 n.toNat :=
  (delimited_little 8).of_injective (fun n _ => n.toNat_lt) fun _ _ => UInt64.toNat_inj.mp

theorem delimited_int64 : Delimited (fun _ => True) fun n : Int64 => little 8 n.toUInt64.toNat :=
  delimited_uint64.of_injective (fun _ _ => trivial) fun ⟨_⟩ ⟨_⟩ h => congrArg Int64.ofUInt64 h

theorem delimited_bool : Delimited (fun _ => True) ofBool := by
  intro a b r s _ _ heq
  obtain ⟨hhead, hrest⟩ := List.cons.inj heq
  cases a <;> cases b <;> simp_all

/-! ## Texts and lists -/

theorem utf8_inj {s t : String} (h : utf8 s = utf8 t) : s = t := by
  have hbytes : s.toList.utf8Encode = t.toList.utf8Encode := congrArg List.toByteArray h
  rw [String.utf8Encode_toList, String.utf8Encode_toList] at hbytes
  exact String.toByteArray_inj.mp hbytes

theorem length_utf8_le (s : String) : (utf8 s).length ≤ 4 * s.toList.length := by
  unfold utf8
  induction s.toList with
  | nil => exact Nat.le_refl 0
  | cons c cs ih =>
    have hc := c.utf8Size_le_four
    rw [List.flatMap_cons, List.length_append, String.length_utf8EncodeChar, List.length_cons]
    omega

/-- A length fits into its eight bytes. -/
def Short (n : Nat) : Prop := n < UInt64.size

instance (n : Nat) : Decidable (Short n) := inferInstanceAs (Decidable (_ < _))

theorem delimited_length : Delimited Short (little 8) := delimited_little 8

theorem delimited_text : Delimited (fun s => Short (utf8 s).length) ofText := by
  intro s t r q hs ht heq
  simp only [ofText, List.append_assoc] at heq
  obtain ⟨hlength, hrest⟩ := delimited_length hs ht heq
  obtain ⟨hutf8, hrq⟩ := List.append_inj hrest hlength
  exact ⟨utf8_inj hutf8, hrq⟩

theorem Delimited.of_length_eq (h : Delimited P f) {xs ys : List α} {r s : Bytes} (hx : ∀ x ∈ xs, P x)
    (hy : ∀ y ∈ ys, P y) (hlength : xs.length = ys.length) (heq : xs.flatMap f ++ r = ys.flatMap f ++ s) :
    xs = ys ∧ r = s := by
  induction xs generalizing ys with
  | nil =>
    obtain rfl := List.length_eq_zero_iff.mp hlength.symm
    exact ⟨rfl, heq⟩
  | cons x xs ih =>
    cases ys with
    | nil => contradiction
    | cons y ys =>
      rw [List.flatMap_cons, List.flatMap_cons, List.append_assoc, List.append_assoc] at heq
      obtain ⟨rfl, hrest⟩ := h (hx x List.mem_cons_self) (hy y List.mem_cons_self) heq
      obtain ⟨rfl, hrs⟩ := ih (fun x' hx' => hx x' (List.mem_cons_of_mem x hx'))
        (fun y' hy' => hy y' (List.mem_cons_of_mem x hy')) (Nat.succ.inj hlength) hrest
      exact ⟨rfl, hrs⟩

theorem Delimited.items (h : Delimited P f) :
    Delimited (fun xs => Short xs.length ∧ ∀ x ∈ xs, P x) (ofItems f) := by
  intro xs ys r s hx hy heq
  simp only [ofItems, List.append_assoc] at heq
  obtain ⟨hlength, hrest⟩ := delimited_length hx.1 hy.1 heq
  exact h.of_length_eq hx.2 hy.2 hlength hrest

/-- Encodings with nothing between them and nothing behind the last. -/
theorem Delimited.flatMap_inj (h : Delimited P f) (hne : ∀ x, f x ≠ []) {xs ys : List α} (hx : ∀ x ∈ xs, P x)
    (hy : ∀ y ∈ ys, P y) (heq : xs.flatMap f = ys.flatMap f) : xs = ys := by
  induction xs generalizing ys with
  | nil =>
    cases ys with
    | nil => rfl
    | cons y ys => exact absurd (List.append_eq_nil_iff.mp heq.symm).1 (hne y)
  | cons x xs ih =>
    cases ys with
    | nil => exact absurd (List.append_eq_nil_iff.mp heq).1 (hne x)
    | cons y ys =>
      rw [List.flatMap_cons, List.flatMap_cons] at heq
      obtain ⟨rfl, hrest⟩ := h (hx x List.mem_cons_self) (hy y List.mem_cons_self) heq
      rw [ih (fun x' hx' => hx x' (List.mem_cons_of_mem x hx')) (fun y' hy' => hy y' (List.mem_cons_of_mem x hy'))
        hrest]

end LedgerWatch.Bytes

namespace LedgerWatch

/-! ## Object ids -/

theorem ObjectId.length_bytes (id : ObjectId) : id.bytes.length = 10 := by
  simp [ObjectId.bytes]

theorem ObjectId.bytes_inj {a b : ObjectId} (h : a.bytes = b.bytes) : a = b := by
  obtain ⟨hspace, hrest⟩ := List.cons.inj h
  obtain ⟨htype, hbig⟩ := List.cons.inj hrest
  have hnumber := UInt64.toNat_inj.mp (Bytes.big_inj a.number.toNat_lt b.number.toNat_lt hbig)
  cases a; cases b
  simp_all

end LedgerWatch
