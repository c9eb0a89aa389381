/-
  LedgerWatch.Proofs.Wire.Lawful — types whose values read back from their documents.

  The wire form of a type is lawful if every value is written as a plain document and
  read back from it, with the entries of its objects in any order and whichever way the
  document is held. Integers read back by their bounds and ids by their texts; a record
  does because each of its names finds the one entry written under it (`fields?_own`).
-/

import LedgerWatch.Wire
import LedgerWatch.Proofs.Ident.Written
import LedgerWatch.Proofs.Json.Plain

namespace LedgerWatch

open Json (Order Plain PlainEntries arranged)

theorem mapM_map {α β γ : Type} {f : β → Option γ} {g : α → β} {k : α → γ} {xs : List α}
    (h : ∀ x ∈ xs, f (g x) = some (k x)) : (xs.map g).mapM f = some (xs.map k) := by
  induction xs with
  | nil => rfl
  | cons x xs ih =>
    have hrest := ih fun y hy => h y (List.mem_cons_of_mem x hy)
    rw [List.map_cons, List.mapM_cons, h x List.mem_cons_self, hrest]
    rfl

theorem mapM_eq_none {α β : Type} {f : α → Option β} {x : α} {xs : List α} (hx : x ∈ xs) (h : f x = none) :
    xs.mapM f = none := by
  induction xs with
  | nil => contradiction
  | cons y ys ih =>
    rw [List.mapM_cons]
    rcases List.mem_cons.mp hx with rfl | hmem
    · rw [h]
      rfl
    · rw [ih hmem]
      cases f y <;> rfl

/-! ## Fields by name -/

namespace Json

theorem only?_of_mem {name : String} {j : Json} {es : List (String × Json)} (hn : (es.map (·.1)).Nodup)
    (h : (name, j) ∈ es) : only? name es = some j := by
  induction es with
  | nil => contradiction
  | cons e es ih =>
    rw [List.map_cons, List.nodup_cons] at hn
    obtain ⟨hfirst, hrest⟩ := hn
    rcases List.mem_cons.mp h with rfl | hmem
    · have hnone : es.filter (fun e => decide (e.1 = name)) = [] := by
        refine List.filter_eq_nil_iff.mpr fun e he hname => hfirst ?_
        exact List.mem_map.mpr ⟨e, he, of_decide_eq_true hname⟩
      rw [only?, List.filter_cons_of_pos (by simp), hnone]
    · have hne : e.1 ≠ name := fun hname => hfirst (List.mem_map.mpr ⟨_, hmem, hname.symm⟩)
      rw [only?, List.filter_cons_of_neg (by simpa using hne)]
      exact ih hrest hmem

theorem only?_of_not_mem {name : String} {es : List (String × Json)} (h : name ∉ es.map (·.1)) :
    only? name es = none := by
  have hnone : es.filter (fun e => decide (e.1 = name)) = [] :=
    List.filter_eq_nil_iff.mpr fun e he hname => h (List.mem_map.mpr ⟨e, he, of_decide_eq_true hname⟩)
  rw [only?, hnone]

variable {order : Order}

/-- An object of just the fields has them. -/
theorem fields?_own (h : order.Permutes) {es : List (String × Json)} (hn : (es.map (·.1)).Nodup) :
    fields? (es.map (·.1)) (arranged order (.obj es)) = some (es.map fun e => arranged order e.2) := by
  rw [fields?_arranged h]
  refine mapM_map fun e he => only?_of_mem ?_ (List.mem_map.mpr ⟨e, he, rfl⟩)
  rwa [List.map_map]

/-- An object without one of the fields is not read. -/
theorem fields?_without (h : order.Permutes) {names : List String} {name : String} {es : List (String × Json)}
    (hname : name ∈ names) (hmissing : name ∉ es.map (·.1)) : fields? names (arranged order (.obj es)) = none := by
  rw [fields?_arranged h]
  exact mapM_eq_none hname (only?_of_not_mem (by rwa [List.map_map]))

end Json

/-! ## Lawful forms -/

class LawfulWire (α : Type) [Wire α] : Prop where
  plain : ∀ x : α, (toJson x).Plain
  reads : ∀ {order : Order}, order.Permutes → ∀ (src : Source) (x : α),
    ofJson? src ((toJson x).arranged order) = some x

/-- A value reads back from the document it is written as. -/
theorem LawfulWire.reads_own {α : Type} [Wire α] [LawfulWire α] (src : Source) (x : α) :
    ofJson? src (toJson x) = some x := by
  have hread := LawfulWire.reads Json.permutes_id src x
  rwa [Json.arranged_same] at hread

instance : LawfulWire Bool := ⟨fun _ => trivial, fun _ _ _ => rfl⟩

instance : LawfulWire String := ⟨fun _ => trivial, fun _ _ _ => rfl⟩

theorem plain_nat {n : Nat} (h : n < UInt64.size) : Plain (.int n) := by
  simp only [UInt64.size] at h
  simp only [Plain, Json.minInt, Json.maxInt]
  omega

theorem reads_nat {α : Type} {bound n : Nat} {ofNat : Nat → α} {x : α} (h : n < bound) (hx : ofNat n = x) :
    (Json.nat? bound (.int n)).map ofNat = some x := by
  simp [Json.nat?, h, hx]

instance : LawfulWire UInt8 :=
  ⟨fun x => plain_nat (Nat.lt_trans x.toNat_lt (by decide)), fun _ _ x => reads_nat x.toNat_lt UInt8.ofNat_toNat⟩

instance : LawfulWire UInt16 :=
  ⟨fun x => plain_nat (Nat.lt_trans x.toNat_lt (by decide)), fun _ _ x => reads_nat x.toNat_lt UInt16.ofNat_toNat⟩

instance : LawfulWire UInt32 :=
  ⟨fun x => plain_nat (Nat.lt_trans x.toNat_lt (by decide)), fun _ _ x => reads_nat x.toNat_lt UInt32.ofNat_toNat⟩

instance : LawfulWire UInt64 :=
  ⟨fun x => plain_nat x.toNat_lt, fun _ _ x => reads_nat x.toNat_lt UInt64.ofNat_toNat⟩

instance : LawfulWire Int64 where
  plain x := by
    have hmin := x.le_toInt
    have hmax := x.toInt_lt
    show Json.minInt ≤ x.toInt ∧ x.toInt ≤ Json.maxInt
    simp only [Json.minInt, Json.maxInt]
    omega
  reads _ _ x := by
    have hmin := x.le_toInt
    have hmax := x.toInt_lt
    have hrange : Json.minInt ≤ x.toInt ∧ x.toInt < -Json.minInt := by
      simp only [Json.minInt]
      omega
    exact (if_pos hrange).trans (by rw [Int64.ofInt_toInt])

instance {α : Type} [Wire α] [LawfulWire α] : LawfulWire (List α) where
  plain xs := by
    refine Json.plainItems_iff.mpr fun j hj => ?_
    obtain ⟨x, _, rfl⟩ := List.mem_map.mp hj
    exact LawfulWire.plain x
  reads {order} h src xs := by
    show (arranged order (.arr (xs.map toJson))).arr?.bind (fun items => items.mapM (ofJson? src)) = some xs
    rw [Json.arranged_arr, List.map_map]
    exact (mapM_map fun x _ => LawfulWire.reads h src x).trans (by rw [List.map_id'])

/-- What has a text reads back if its text does. -/
theorem lawful_ofText {α ε : Type} {text : α → String} {parse : String → Except ε α}
    (h : ∀ x, parse (text x) = .ok x) : @LawfulWire α (.ofText text parse) :=
  @LawfulWire.mk α (.ofText text parse) (fun _ => trivial) fun _ _ x => by
    show (parse (text x)).toOption = some x
    rw [h]
    rfl

instance : LawfulWire ObjectId := lawful_ofText ObjectId.parse_text

instance : LawfulWire AccountId := lawful_ofText AccountId.parse_text

instance : LawfulWire AssetId := lawful_ofText AssetId.parse_text

instance : LawfulWire PublicKey := lawful_ofText PublicKey.parse_text

instance : LawfulWire Address := lawful_ofText Address.parse_text

instance : LawfulWire BlockId := lawful_ofText BlockId.parse_text

/-! ## Records -/

theorem keys_zip {names : List String} {fields : List Json} (hlen : names.length = fields.length) :
    (names.zip fields).map (·.1) = names := List.map_fst_zip (Nat.le_of_eq hlen)

/-- A record is plain if its names differ and its fields are plain. -/
theorem plain_record {es : List (String × Json)} (hn : (es.map (·.1)).Nodup) (h : ∀ e ∈ es, Plain e.2) :
    Plain (.obj es) :=
  Json.plainEntries_iff.mpr ⟨hn, h⟩

/-- A record reads back if its names differ and it is made of what its fields read back as. -/
theorem reads_record {α : Type} {order : Order} (h : order.Permutes) (fields : List Json) {names : List String}
    {make : List Json → Option α} {x : α} (hn : names.Nodup) (hlen : names.length = fields.length)
    (hmake : make (fields.map (arranged order)) = some x) :
    (Json.fields? names (arranged order (.obj (names.zip fields)))).bind make = some x := by
  have hkeys : ((names.zip fields).map (·.1)).Nodup := by rwa [keys_zip hlen]
  have hown := Json.fields?_own h hkeys
  have hvalues : (names.zip fields).map (fun e => arranged order e.2) = fields.map (arranged order) := by
    have := congrArg (List.map (arranged order)) (List.map_snd_zip (Nat.le_of_eq hlen.symm))
    rwa [List.map_map] at this
  rw [keys_zip hlen, hvalues] at hown
  rw [hown]
  exact hmake

instance : LawfulWire Amount where
  plain _ := plain_record (by simp) (by simp [LawfulWire.plain])
  reads h _ a := reads_record h [toJson a.amount, toJson a.asset] (by decide) rfl (by simp [LawfulWire.reads h])

instance : LawfulWire Price where
  plain _ := plain_record (by simp) (by simp [LawfulWire.plain])
  reads h _ p := reads_record h [toJson p.base, toJson p.quote] (by decide) rfl (by simp [LawfulWire.reads h])

instance : LawfulWire Market where
  plain _ := plain_record (by simp) (by simp [LawfulWire.plain])
  reads h _ m := reads_record h [toJson m.base, toJson m.quote] (by decide) rfl (by simp [LawfulWire.reads h])

end LedgerWatch
