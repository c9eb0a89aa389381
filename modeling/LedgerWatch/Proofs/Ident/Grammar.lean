/-
  LedgerWatch.Proofs.Ident.Grammar — which texts are identifiers, and of what.

  The text of an object id is three numerals with a point between each two. A number has
  many numerals, so an id has many texts. The one it is written as is what becomes of any
  of them when each part loses its plus and its superfluous zeros (`normalText`). Ids of
  one kind have the texts of the object ids they stand for, and no others.

  - `parse_eq_ok_iff`, `parse_eq_error_iff`: the texts of object ids, and all others.
  - `id_texts_exact`: all of this for object ids, account ids and asset ids.
-/

import LedgerWatch.Proofs.Ident.Written

namespace LedgerWatch

open LedgerWatch.Text
open Text.Numeral (Denotes)

namespace ObjectId

/-! ## Three parts -/

theorem cut_some {cs a b : List Char} (h : cut cs = some (a, b)) : '.' ∉ a ∧ cs = a ++ '.' :: b := by
  induction cs generalizing a with
  | nil => cases h
  | cons c cs ih =>
    rw [cut] at h
    split at h
    · rename_i hc
      cases h
      exact ⟨List.not_mem_nil, congrArg (· :: b) hc⟩
    · rename_i hc
      obtain ⟨⟨a', b'⟩, hcut, heq⟩ := Option.map_eq_some_iff.mp h
      cases heq
      obtain ⟨hpoint, rfl⟩ := ih hcut
      refine ⟨?_, rfl⟩
      rw [List.mem_cons, not_or]
      exact ⟨fun hhead => hc hhead.symm, hpoint⟩

theorem intercalate_three (p q r : List Char) : ['.'].intercalate [p, q, r] = p ++ '.' :: (q ++ '.' :: r) := by
  simp [List.intercalate]

/-- A text of three numerals with a point between each two. -/
def Spells (s : String) (space type number : Nat) : Prop :=
  ∃ p q r, s.toList.splitOn '.' = [p, q, r] ∧ Denotes p space ∧ Denotes q type ∧ Denotes r number

/-- The text with each of its parts made normal. -/
def normalText (s : String) : String :=
  String.ofList (['.'].intercalate ((s.toList.splitOn '.').map Numeral.normal))

/-! ## Object ids -/

theorem ofChars?_eq_some_iff {cs : List Char} {id : ObjectId} :
    ofChars? cs = some id ↔ ∃ p q r, cs.splitOn '.' = [p, q, r] ∧
      Denotes p id.space.toNat ∧ Denotes q id.type.toNat ∧ Denotes r id.number.toNat := by
  constructor
  · intro h
    obtain ⟨⟨p, rest⟩, hcs, h⟩ := Option.bind_eq_some_iff.mp h
    obtain ⟨⟨q, r⟩, hrest, h⟩ := Option.bind_eq_some_iff.mp h
    obtain ⟨space, hspace, h⟩ := Option.bind_eq_some_iff.mp h
    obtain ⟨type, htype, h⟩ := Option.bind_eq_some_iff.mp h
    obtain ⟨number, hnumber, h⟩ := Option.bind_eq_some_iff.mp h
    cases h
    obtain ⟨hp, hspace⟩ := Numeral.readBelow_eq_some_iff.mp hspace
    obtain ⟨hq, htype⟩ := Numeral.readBelow_eq_some_iff.mp htype
    obtain ⟨hr, hnumber⟩ := Numeral.readBelow_eq_some_iff.mp hnumber
    obtain ⟨hpointless, rfl⟩ := cut_some hcs
    obtain ⟨hpointless', rfl⟩ := cut_some hrest
    refine ⟨p, q, r, ?_, ?_⟩
    · rw [List.splitOn_append_cons_self_of_not_mem hpointless,
        List.splitOn_append_cons_self_of_not_mem hpointless', List.splitOn_eq_singleton hr.no_point]
    · simp only [UInt8.toNat_ofNat_of_lt' hspace, UInt8.toNat_ofNat_of_lt' htype, UInt64.toNat_ofNat_of_lt' hnumber]
      exact ⟨hp, hq, hr⟩
  · rintro ⟨p, q, r, hparts, hp, hq, hr⟩
    have hcs : cs = p ++ '.' :: (q ++ '.' :: r) := by
      rw [← intercalate_three, ← hparts, List.intercalate_splitOn]
    have hspace := Numeral.readBelow_eq_some_iff.mpr ⟨hp, id.space.toNat_lt⟩
    have htype := Numeral.readBelow_eq_some_iff.mpr ⟨hq, id.type.toNat_lt⟩
    have hnumber := Numeral.readBelow_eq_some_iff.mpr ⟨hr, id.number.toNat_lt⟩
    simp only [ofChars?, hcs, cut_append hp.no_point, cut_append hq.no_point, UInt8.size, UInt64.size, hspace,
      htype, hnumber, Option.bind_eq_bind, Option.bind_some, Option.pure_def, UInt8.ofNat_toNat, UInt64.ofNat_toNat]

theorem parse_eq_ok_iff {s : String} {id : ObjectId} :
    parse s = .ok id ↔ Spells s id.space.toNat id.type.toNat id.number.toNat := by
  unfold Spells
  rw [← ofChars?_eq_some_iff, parse]
  cases ofChars? s.toList <;> simp

/-- What is no id is refused as it stands. -/
theorem parse_eq_error_iff {s : String} {e : IdError} :
    parse s = .error e ↔ e = .malformed s ∧ ∀ id, parse s ≠ .ok id := by
  unfold parse
  cases ofChars? s.toList <;> simp [eq_comm]

/-- Three numerals make an id if each is below the bound of its part. -/
theorem exists_parse_iff {s : String} :
    (∃ id, parse s = .ok id) ↔
      ∃ space < UInt8.size, ∃ type < UInt8.size, ∃ number < UInt64.size, Spells s space type number := by
  constructor
  · rintro ⟨id, hid⟩
    exact ⟨_, id.space.toNat_lt, _, id.type.toNat_lt, _, id.number.toNat_lt, parse_eq_ok_iff.mp hid⟩
  · rintro ⟨space, hspace, type, htype, number, hnumber, h⟩
    refine ⟨⟨UInt8.ofNat space, UInt8.ofNat type, UInt64.ofNat number⟩, parse_eq_ok_iff.mpr ?_⟩
    simp only [UInt8.toNat_ofNat_of_lt' hspace, UInt8.toNat_ofNat_of_lt' htype, UInt64.toNat_ofNat_of_lt' hnumber]
    exact h

/-- An id is written as any of its texts, made normal. -/
theorem text_of_parse {s : String} {id : ObjectId} (h : parse s = .ok id) : id.text = normalText s := by
  obtain ⟨p, q, r, hparts, hp, hq, hr⟩ := parse_eq_ok_iff.mp h
  rw [text, normalText, hparts, List.map_cons, List.map_cons, List.map_cons, List.map_nil, intercalate_three,
    ← Numeral.write_of_denotes hp, ← Numeral.write_of_denotes hq, ← Numeral.write_of_denotes hr, chars,
    List.append_assoc, List.cons_append]

theorem numberOf_eq_ok_iff {kind : Kind} {id : ObjectId} {n : UInt64} :
    id.numberOf kind = .ok n ↔ id = ⟨kind.space, kind.type, n⟩ := by
  obtain ⟨space, type, number⟩ := id
  simp only [numberOf, is, Bool.and_eq_true, decide_eq_true_eq, ObjectId.mk.injEq]
  split
  · rename_i h
    simp [h.1, h.2]
  · rename_i h
    simp only [reduceCtorEq, false_iff]
    exact fun hid => h ⟨hid.1, hid.2.1⟩

theorem numberOf_of_not {kind : Kind} {id : ObjectId} (h : (id.space, id.type) ≠ (kind.space, kind.type)) :
    id.numberOf kind = .error (.wrongKind id kind) := by
  refine if_neg fun his => h ?_
  simpa [is] using his

end ObjectId

open ObjectId (Spells normalText)

/-! ## Ids of one kind -/

/-- How ids of one kind are read: from the texts of the object ids with one space and type, and from no others. -/
structure ReadsKind {α : Type} (kind : Kind) (space type : UInt8) (name : String) (number : α → UInt64)
    (parse : String → Except IdError α) : Prop where
  accepts : ∀ s a, parse s = .ok a ↔ ObjectId.parse s = .ok ⟨space, type, number a⟩
  malformed : ∀ s, (∀ id, ObjectId.parse s ≠ .ok id) → parse s = .error (.malformed s)
  wrongKind : ∀ s id, ObjectId.parse s = .ok id → (id.space, id.type) ≠ (space, type) →
    parse s = .error (.wrongKind id kind) ∧
      (IdError.wrongKind id kind).message = "Object id " ++ normalText s ++ " is not a " ++ name

/-- Of the texts a value is read from it is written as the normal one. -/
structure WrittenNormal {α : Type} (text : α → String) (parse : String → Except IdError α) : Prop where
  reads : ∀ a, parse (text a) = .ok a
  injective : Function.Injective text
  normal : ∀ s a, parse s = .ok a → text a = normalText s ∧ parse (normalText s) = .ok a

section

variable {α : Type}

theorem readsKind {kind : Kind} {make : UInt64 → α} {number : α → UInt64} {parse : String → Except IdError α}
    (hmake : ∀ a, make (number a) = a) (hnumber : ∀ n, number (make n) = n)
    (hparse : ∀ s, parse s = (ObjectId.parse s).bind fun id => (id.numberOf kind).map make) :
    ReadsKind kind kind.space kind.type (kind.name ++ "Id") number parse := by
  refine ⟨fun s a => ?_, fun s hno => ?_, fun s id hid hother => ⟨?_, ?_⟩⟩
  · rw [hparse]
    cases ObjectId.parse s with
    | error e => exact ⟨nofun, nofun⟩
    | ok id =>
      rw [Except.ok.injEq, ← ObjectId.numberOf_eq_ok_iff]
      show (id.numberOf kind).map make = .ok a ↔ _
      cases id.numberOf kind with
      | error e => exact ⟨nofun, nofun⟩
      | ok n =>
        show Except.ok (make n) = .ok a ↔ _
        rw [Except.ok.injEq, Except.ok.injEq]
        exact ⟨fun h => h ▸ (hnumber n).symm, fun h => h ▸ hmake a⟩
  · have hmalformed := ObjectId.parse_eq_error_iff.mpr ⟨rfl, hno⟩
    rw [hparse, hmalformed]
    rfl
  · rw [hparse, hid]
    exact congrArg (Except.map make) (ObjectId.numberOf_of_not hother)
  · show "Object id " ++ id.text ++ " is not a " ++ kind.name ++ "Id" = _
    rw [ObjectId.text_of_parse hid, String.append_assoc]

theorem writtenNormal {text : α → String} {parse : String → Except IdError α} (hreads : ∀ a, parse (text a) = .ok a)
    (hnormal : ∀ s a, parse s = .ok a → text a = normalText s) : WrittenNormal text parse :=
  ⟨hreads, fun _ _ => inj_of_reads hreads, fun s a hs => ⟨hnormal s a hs, hnormal s a hs ▸ hreads a⟩⟩

end

theorem AccountId.readsKind : ReadsKind .account 1 2 "AccountId" AccountId.number AccountId.parse :=
  LedgerWatch.readsKind (fun _ => rfl) (fun _ => rfl) fun _ => rfl

theorem AssetId.readsKind : ReadsKind .asset 1 3 "AssetId" AssetId.number AssetId.parse :=
  LedgerWatch.readsKind (fun _ => rfl) (fun _ => rfl) fun _ => rfl

/-- The texts of ids are those of three numerals, each below the bound of its part, and of these an id is written as
the normal one. The texts of account and asset ids are those of the object ids with their space and type. -/
theorem id_texts_exact :
    (∀ s id, ObjectId.parse s = .ok id ↔ Spells s id.space.toNat id.type.toNat id.number.toNat) ∧
      (∀ s, (∃ id, ObjectId.parse s = .ok id) ↔
        ∃ space < UInt8.size, ∃ type < UInt8.size, ∃ number < UInt64.size, Spells s space type number) ∧
      (∀ s e, ObjectId.parse s = .error e ↔ e = .malformed s ∧ ∀ id, ObjectId.parse s ≠ .ok id) ∧
      ReadsKind .account 1 2 "AccountId" AccountId.number AccountId.parse ∧
      ReadsKind .asset 1 3 "AssetId" AssetId.number AssetId.parse ∧
      WrittenNormal ObjectId.text ObjectId.parse ∧ WrittenNormal AccountId.text AccountId.parse ∧
      WrittenNormal AssetId.text AssetId.parse := by
  have haccount : ∀ s a, AccountId.parse s = .ok a → AccountId.text a = normalText s := fun s a h =>
    ObjectId.text_of_parse ((AccountId.readsKind.accepts s a).mp h)
  have hasset : ∀ s a, AssetId.parse s = .ok a → AssetId.text a = normalText s := fun s a h =>
    ObjectId.text_of_parse ((AssetId.readsKind.accepts s a).mp h)
  refine ⟨fun s id => ObjectId.parse_eq_ok_iff, fun s => ObjectId.exists_parse_iff,
    fun s e => ObjectId.parse_eq_error_iff, AccountId.readsKind, AssetId.readsKind, ?_, ?_, ?_⟩
  · exact writtenNormal ObjectId.parse_text fun s id => ObjectId.text_of_parse
  · exact writtenNormal AccountId.parse_text haccount
  · exact writtenNormal AssetId.parse_text hasset

example : normalText "+1.02.0007" = "1.2.7" := by decide

end LedgerWatch
