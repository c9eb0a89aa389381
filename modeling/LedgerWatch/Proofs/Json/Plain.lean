/-
  LedgerWatch.Proofs.Json.Plain — the documents records are written as, and what a
  document keeps when its entries change places.

  A plain document has each key of an object once, integers of 64 bits and no other
  numbers, and nothing garbled. Its entries may stand in any order (`arranged`): a record
  looks its fields up by their names (`fields?_arranged`). A value holds a document in
  one such order, that of its keys (`asValue`).
-/

import LedgerWatch.Json

namespace LedgerWatch.Json

mutual

/-- Each key once, integers of 64 bits and no other numbers, nothing garbled. -/
def Plain : Json → Prop
  | .null | .bool _ | .str _ => True
  | .int n => minInt ≤ n ∧ n ≤ maxInt
  | .real _ | .garbled => False
  | .arr items => PlainItems items
  | .obj entries => PlainEntries entries

def PlainItems : List Json → Prop
  | [] => True
  | j :: js => Plain j ∧ PlainItems js

def PlainEntries : List (String × Json) → Prop
  | [] => True
  | (k, j) :: es => k ∉ es.map (·.1) ∧ Plain j ∧ PlainEntries es

end

theorem plainItems_iff {items : List Json} : PlainItems items ↔ ∀ j ∈ items, Plain j := by
  induction items with
  | nil => simp [PlainItems]
  | cons j js ih => simp [PlainItems, ih]

theorem plainEntries_iff {es : List (String × Json)} :
    PlainEntries es ↔ (es.map (·.1)).Nodup ∧ ∀ e ∈ es, Plain e.2 := by
  induction es with
  | nil => simp [PlainEntries]
  | cons e es ih =>
    obtain ⟨k, j⟩ := e
    simp only [PlainEntries, ih, List.map_cons, List.nodup_cons, List.mem_cons, forall_eq_or_imp]
    exact ⟨fun ⟨hk, hj, hes, hall⟩ => ⟨⟨hk, hes⟩, hj, hall⟩, fun ⟨⟨hk, hes⟩, hj, hall⟩ => ⟨hk, hj, hes, hall⟩⟩

/-! ## Entries in another order -/

/-- A way to put the entries of an object in order. -/
abbrev Order := List (String × Json) → List (String × Json)

/-- It only puts them in order. -/
def Order.Permutes (order : Order) : Prop := ∀ es, (order es).Perm es

mutual

/-- The document with the entries of each object in another order. -/
def arranged (order : Order) : Json → Json
  | .arr items => .arr (arrangedItems order items)
  | .obj entries => .obj (order (arrangedEntries order entries))
  | j => j

def arrangedItems (order : Order) : List Json → List Json
  | [] => []
  | j :: js => arranged order j :: arrangedItems order js

def arrangedEntries (order : Order) : List (String × Json) → List (String × Json)
  | [] => []
  | (k, j) :: es => (k, arranged order j) :: arrangedEntries order es

end

variable (order : Order)

@[simp] theorem arrangedItems_eq (items : List Json) : arrangedItems order items = items.map (arranged order) := by
  induction items with
  | nil => rfl
  | cons j js ih => rw [arrangedItems, ih, List.map_cons]

@[simp] theorem arrangedEntries_eq (es : List (String × Json)) :
    arrangedEntries order es = es.map fun e => (e.1, arranged order e.2) := by
  induction es with
  | nil => rfl
  | cons e es ih => rw [arrangedEntries, ih, List.map_cons]

theorem arranged_arr (items : List Json) : arranged order (.arr items) = .arr (items.map (arranged order)) := by
  rw [arranged, arrangedItems_eq]

theorem arranged_obj (es : List (String × Json)) :
    arranged order (.obj es) = .obj (order (es.map fun e => (e.1, arranged order e.2))) := by
  rw [arranged, arrangedEntries_eq]

variable {order}

theorem permutes_id : Order.Permutes id := fun es => List.Perm.refl es

theorem arranged_single (h : order.Permutes) (k : String) (j : Json) :
    arranged order (.obj [(k, j)]) = .obj [(k, arranged order j)] := by
  rw [arranged_obj]
  exact congrArg Json.obj (List.perm_singleton.mp (h _))

mutual

theorem arranged_same : ∀ j, arranged id j = j
  | .null | .bool _ | .str _ | .int _ | .real _ | .garbled => rfl
  | .arr items => by rw [arranged, arrangedItems_same items]
  | .obj entries => by rw [arranged, arrangedEntries_same entries]; rfl

theorem arrangedItems_same : ∀ items, arrangedItems id items = items
  | [] => rfl
  | j :: js => by rw [arrangedItems, arranged_same j, arrangedItems_same js]

theorem arrangedEntries_same : ∀ es, arrangedEntries id es = es
  | [] => rfl
  | (k, j) :: es => by rw [arrangedEntries, arranged_same j, arrangedEntries_same es]

end

mutual

theorem plain_arranged (h : order.Permutes) : ∀ j, Plain j → Plain (arranged order j)
  | .null, _ | .bool _, _ | .str _, _ => trivial
  | .int _, hj => hj
  | .arr items, hj => plainItems_arranged h items hj
  | .obj entries, hj => by
    have hes := plainEntries_iff.mp (plainEntries_arranged h entries hj)
    have hperm := h (arrangedEntries order entries)
    exact plainEntries_iff.mpr ⟨(hperm.map _).nodup_iff.mpr hes.1, fun e he => hes.2 e (hperm.mem_iff.mp he)⟩

theorem plainItems_arranged (h : order.Permutes) : ∀ items, PlainItems items → PlainItems (arrangedItems order items)
  | [], _ => trivial
  | j :: js, hj => ⟨plain_arranged h j hj.1, plainItems_arranged h js hj.2⟩

theorem plainEntries_arranged (h : order.Permutes) : ∀ es, PlainEntries es → PlainEntries (arrangedEntries order es)
  | [], _ => trivial
  | (k, j) :: es, hj => by
    refine ⟨?_, plain_arranged h j hj.2.1, plainEntries_arranged h es hj.2.2⟩
    have hkeys : (arrangedEntries order es).map (·.1) = es.map (·.1) := by
      rw [arrangedEntries_eq, List.map_map]
      rfl
    rw [hkeys]
    exact hj.1

end

/-! ## Fields by name -/

theorem only?_perm (name : String) {es fs : List (String × Json)} (h : es.Perm fs) : only? name es = only? name fs := by
  have hperm := h.filter fun e => decide (e.1 = name)
  unfold only?
  generalize es.filter (fun e => decide (e.1 = name)) = as at hperm ⊢
  generalize fs.filter (fun e => decide (e.1 = name)) = bs at hperm ⊢
  rcases as with _ | ⟨e, _ | ⟨e', es'⟩⟩
  · rw [hperm.nil_eq]
  · rw [List.singleton_perm.mp hperm]
  · -- two or more are none found, and a permutation has as many
    have hlen := hperm.length_eq
    rcases bs with _ | ⟨f, _ | ⟨f', fs'⟩⟩
    · simp at hlen
    · simp at hlen
    · rfl

theorem fields?_perm (names : List String) {es fs : List (String × Json)} (h : es.Perm fs) :
    fields? names (.obj es) = fields? names (.obj fs) := by
  simp only [fields?, only?_perm _ h]

/-- The fields of an object are found by their names wherever they stand. -/
theorem fields?_arranged (h : order.Permutes) (names : List String) (es : List (String × Json)) :
    fields? names (arranged order (.obj es)) = fields? names (.obj (es.map fun e => (e.1, arranged order e.2))) := by
  rw [arranged_obj]
  exact fields?_perm names (h _)

/-! ## As a value holds it -/

/-- The order of the keys. -/
def byKey : Order := fun es => es.mergeSort fun a b => decide (a.1 ≤ b.1)

theorem permutes_byKey : Order.Permutes byKey := fun es => List.mergeSort_perm es _

/-- The document as a value holds it: each key of an object once, the last of it, and the keys in their order. -/
def asValue (j : Json) : Json := arranged byKey (lastWins j)

mutual

theorem lastWins_plain : ∀ j, Plain j → lastWins j = j
  | .null, _ | .bool _, _ | .str _, _ | .int _, _ => rfl
  | .arr items, hj => by rw [lastWins, lastWinsItems_plain items hj]
  | .obj entries, hj => by rw [lastWins, lastWinsEntries_plain entries hj]

theorem lastWinsItems_plain : ∀ items, PlainItems items → lastWinsItems items = items
  | [], _ => rfl
  | j :: js, hj => by rw [lastWinsItems, lastWins_plain j hj.1, lastWinsItems_plain js hj.2]

theorem lastWinsEntries_plain : ∀ es, PlainEntries es → lastWinsEntries es = es
  | [], _ => rfl
  | (k, j) :: es, hj => by
    have honce : es.any (fun e => decide (e.1 = k)) = false := by
      rw [List.any_eq_false]
      intro e he hk
      exact hj.1 (List.mem_map.mpr ⟨e, he, of_decide_eq_true hk⟩)
    rw [lastWinsEntries, honce, lastWins_plain j hj.2.1, lastWinsEntries_plain es hj.2.2]
    rfl

end

theorem asValue_plain {j : Json} (h : Plain j) : asValue j = arranged byKey j := by
  rw [asValue, lastWins_plain j h]

/-! ## Taken in whole -/

mutual

theorem isClear_plain : ∀ j, Plain j → isClear j = true
  | .null, _ | .bool _, _ | .str _, _ | .int _, _ => rfl
  | .arr items, hj => isClearItems_plain items hj
  | .obj entries, hj => isClearEntries_plain entries hj

theorem isClearItems_plain : ∀ items, PlainItems items → isClearItems items = true
  | [], _ => rfl
  | j :: js, hj => by rw [isClearItems, isClear_plain j hj.1, isClearItems_plain js hj.2]; rfl

theorem isClearEntries_plain : ∀ es, PlainEntries es → isClearEntries es = true
  | [], _ => rfl
  | (_, j) :: es, hj => by rw [isClearEntries, isClear_plain j hj.2.1, isClearEntries_plain es hj.2.2]; rfl

end

theorem depthEntries_perm {es fs : List (String × Json)} (h : es.Perm fs) : depthEntries es = depthEntries fs := by
  induction h with
  | nil => rfl
  | cons e _ ih => rw [depthEntries, depthEntries, ih]
  | swap e f es => simp only [depthEntries]; omega
  | trans _ _ ih ih' => exact ih.trans ih'

mutual

theorem depth_arranged (h : order.Permutes) : ∀ j, depth (arranged order j) = depth j
  | .null | .bool _ | .str _ | .int _ | .real _ | .garbled => rfl
  | .arr items => by rw [arranged, depth, depth, depthItems_arranged h items]
  | .obj entries => by rw [arranged, depth, depth, depthEntries_perm (h _), depthEntries_arranged h entries]

theorem depthItems_arranged (h : order.Permutes) : ∀ items, depthItems (arrangedItems order items) = depthItems items
  | [] => rfl
  | j :: js => by rw [arrangedItems, depthItems, depthItems, depth_arranged h j, depthItems_arranged h js]

theorem depthEntries_arranged (h : order.Permutes) : ∀ es, depthEntries (arrangedEntries order es) = depthEntries es
  | [] => rfl
  | (_, j) :: es => by rw [arrangedEntries, depthEntries, depthEntries, depth_arranged h j, depthEntries_arranged h es]

end

/-- A plain document that is not nested too deeply can be taken in whole, in any order of its entries. -/
theorem isWhole_arranged (h : order.Permutes) {j : Json} (hj : Plain j) (hd : depth j ≤ 127) :
    isWhole (arranged order j) = true := by
  rw [isWhole, isClear_plain _ (plain_arranged h j hj), depth_arranged h, Bool.true_and]
  exact decide_eq_true hd

end LedgerWatch.Json
