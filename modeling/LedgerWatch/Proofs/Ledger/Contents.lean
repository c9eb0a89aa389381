/-
  LedgerWatch.Proofs.Ledger.Contents — what a ledger holds after any edits.

  An edit puts an object in, takes one out, or reports the operations of a block. What
  the last edit about an id left there is read off the edits alone (`lastLeft`).

  - `find?_after`: that is what the id looks up in a ledger that began empty, and it has
    this id (`id_of_lastLeft`).
  - `size_eq_ncard`: there are as many objects as ids that look one up.
  - `Listing`: what a list of objects has to be, whatever it is asked by: those of one
    sort that are wanted, each once, by increasing id. `listing_of_values`: so is every
    list that is picked from the objects held, as long as they are under their own ids.
  - `answers_after`: so every query answers from the map that the edits leave.

  An account is listed by its number alone. Accounts under ids of their own kind have
  increasing numbers; one that is under any other id stands where that id comes.
-/

import Mathlib.Data.List.Induction
import Mathlib.Data.Set.Card
import LedgerWatch.Ledger

namespace LedgerWatch

/-! ## The order of ids -/

/-- By space, then type, then number. -/
def ObjectId.Precedes (a b : ObjectId) : Prop :=
  a.space < b.space ∨ a.space = b.space ∧ (a.type < b.type ∨ a.type = b.type ∧ a.number < b.number)

theorem ObjectId.precedes_of_rank {a b : ObjectId} (h : rank a < rank b) : a.Precedes b := by
  have htype := a.type.toNat_lt; have htype' := b.type.toNat_lt
  have hnumber := a.number.toNat_lt; have hnumber' := b.number.toNat_lt
  simp only [rank, UInt8.size, UInt64.size] at h
  unfold Precedes
  simp only [UInt8.lt_iff_toNat_lt, UInt64.lt_iff_toNat_lt, ← UInt8.toNat_inj]
  omega

/-! ## Edits -/

inductive Ledger.Edit where
  | insert (record : Record)
  | erase (id : ObjectId)
  | apply (ops : List AppliedOperation)

namespace Ledger

/-- What an edit leaves under an id, if it is about that id. -/
def Edit.leaves? (id : ObjectId) : Edit → Option (Option Record)
  | .insert r => if r.id = id then some (some r) else none
  | .erase k => if k = id then some none else none
  | .apply _ => none

def Edit.applied? : Edit → Option (List AppliedOperation)
  | .apply ops => some ops
  | .insert _ | .erase _ => none

/-- What the last edit about an id left there. -/
def lastLeft (edits : List Edit) (id : ObjectId) : Option Record := (edits.reverse.findSome? (Edit.leaves? id)).getD none

/-- The operations reported last. -/
def lastApplied (edits : List Edit) : List AppliedOperation := (edits.reverse.findSome? Edit.applied?).getD []

def edit (l : Ledger) : Edit → Ledger
  | .insert r => l.insert r
  | .erase id => l.erase id
  | .apply ops => l.apply ops

def after (l : Ledger) (edits : List Edit) : Ledger := edits.foldl edit l

theorem after_snoc (l : Ledger) (edits : List Edit) (e : Edit) : l.after (edits ++ [e]) = (l.after edits).edit e :=
  List.foldl_append

theorem lastLeft_snoc (edits : List Edit) (e : Edit) (id : ObjectId) :
    lastLeft (edits ++ [e]) id = (e.leaves? id).getD (lastLeft edits id) := by
  unfold lastLeft
  rw [List.reverse_append, List.reverse_singleton, List.singleton_append, List.findSome?_cons]
  cases e.leaves? id <;> rfl

theorem lastApplied_snoc (edits : List Edit) (e : Edit) :
    lastApplied (edits ++ [e]) = e.applied?.getD (lastApplied edits) := by
  unfold lastApplied
  rw [List.reverse_append, List.reverse_singleton, List.singleton_append, List.findSome?_cons]
  cases e.applied? <;> rfl

/-- One id is put in, or taken out, under its own key. -/
theorem at_id (k id : ObjectId) (new old : Option Record) :
    (if rank k = rank id then new else old) = (if k = id then some new else none).getD old := by
  by_cases h : k = id
  · rw [if_pos h, if_pos (congrArg rank h)]
    rfl
  · rw [if_neg h, if_neg fun hrank => h (Ranked.rank_inj hrank)]
    rfl

theorem find?_edit (l : Ledger) (e : Edit) (id : ObjectId) :
    (l.edit e).find? id = (e.leaves? id).getD (l.find? id) := by
  cases e with
  | insert r =>
    unfold find? edit insert
    rw [SortedMap.get?_insert]
    exact at_id r.id id (some r) _
  | erase k =>
    unfold find? edit erase
    rw [SortedMap.get?_erase]
    exact at_id k id none _
  | apply ops => rfl

theorem applied_edit (l : Ledger) (e : Edit) : (l.edit e).applied = e.applied?.getD l.applied := by
  cases e <;> rfl

/-- An id looks up what the last edit about it left. -/
theorem find?_after (edits : List Edit) (id : ObjectId) : (empty.after edits).find? id = lastLeft edits id := by
  induction edits using List.reverseRecOn with
  | nil => rfl
  | append_singleton edits e ih => rw [after_snoc, find?_edit, lastLeft_snoc, ih]

theorem applied_after (edits : List Edit) : (empty.after edits).applied = lastApplied edits := by
  induction edits using List.reverseRecOn with
  | nil => rfl
  | append_singleton edits e ih => rw [after_snoc, applied_edit, lastApplied_snoc, ih]

theorem id_of_lastLeft {edits : List Edit} {id : ObjectId} {r : Record} (h : lastLeft edits id = some r) : r.id = id := by
  induction edits using List.reverseRecOn with
  | nil => contradiction
  | append_singleton edits e ih =>
    rw [lastLeft_snoc] at h
    cases e with
    | insert r' =>
      by_cases hid : r'.id = id
      · simp only [Edit.leaves?, if_pos hid, Option.getD_some, Option.some.injEq] at h
        rw [← h, hid]
      · simp only [Edit.leaves?, if_neg hid, Option.getD_none] at h
        exact ih h
    | erase k =>
      by_cases hid : k = id
      · simp only [Edit.leaves?, if_pos hid, Option.getD_some, reduceCtorEq] at h
      · simp only [Edit.leaves?, if_neg hid, Option.getD_none] at h
        exact ih h
    | apply ops => exact ih h

/-! ## Size -/

theorem size_eq_ncard (l : Ledger) : l.size = {id | (l.find? id).isSome}.ncard := by
  have hkeys : {id | (l.find? id).isSome} = ↑l.objects.keys.toFinset := by
    ext id
    rw [List.coe_toFinset]
    exact l.objects.contains_iff_mem_keys id
  rw [hkeys, Set.ncard_coe_finset, List.toFinset_card_of_nodup l.objects.nodup_keys]
  exact l.objects.size_eq_length_keys

/-! ## Listings -/

/-- Of the objects of one sort that are found under their ids those that are wanted, each once and by increasing id. -/
structure Listing {α : Type} (found : ObjectId → Option Record) (sort : α → Record) (wanted : α → Prop)
    (xs : List α) : Prop where
  exact : ∀ x, x ∈ xs ↔ found (sort x).id = some (sort x) ∧ wanted x
  increasing : xs.Pairwise fun x y => (sort x).id.Precedes (sort y).id

/-- Every object is under its own id. -/
def Keyed (l : Ledger) : Prop := ∀ id r, l.find? id = some r → r.id = id

theorem keyed_after (edits : List Edit) : Keyed (empty.after edits) := by
  intro id r h
  rw [find?_after] at h
  exact id_of_lastLeft h

theorem mem_values_iff {l : Ledger} (h : Keyed l) (r : Record) : r ∈ l.objects.values ↔ l.find? r.id = some r := by
  unfold SortedMap.values
  rw [List.mem_map]
  constructor
  · rintro ⟨⟨id, r'⟩, hmem, rfl⟩
    have hfind : l.find? id = some r' := l.objects.mem_entries_iff.mp hmem
    rw [h id r' hfind]
    exact hfind
  · intro hfind
    exact ⟨(r.id, r), l.objects.mem_entries_iff.mpr hfind, rfl⟩

theorem increasing_values {l : Ledger} (h : Keyed l) : l.objects.values.Pairwise fun r r' => r.id.Precedes r'.id := by
  refine List.pairwise_map.mpr (l.objects.sorted.imp_of_mem ?_)
  intro e e' hmem hmem' hbefore
  have hid : e.2.id = e.1 := h e.1 e.2 (l.objects.mem_entries_iff.mp hmem)
  have hid' : e'.2.id = e'.1 := h e'.1 e'.2 (l.objects.mem_entries_iff.mp hmem')
  rw [hid, hid']
  exact ObjectId.precedes_of_rank hbefore

/-- What is picked from the objects held by its sort and a wish is a listing. -/
theorem listing_of_values {α : Type} {l : Ledger} (h : Keyed l) {pick : Record → Option α} {sort : α → Record}
    (hpick : ∀ r x, pick r = some x ↔ r = sort x) (wanted : α → Prop) [DecidablePred wanted] :
    Listing l.find? sort wanted ((l.objects.values.filterMap pick).filter fun x => wanted x) := by
  constructor
  · intro x
    rw [List.mem_filter, List.mem_filterMap, decide_eq_true_iff]
    constructor
    · rintro ⟨⟨r, hmem, hr⟩, hwanted⟩
      rw [(hpick r x).mp hr] at hmem
      exact ⟨(mem_values_iff h _).mp hmem, hwanted⟩
    · rintro ⟨hfind, hwanted⟩
      exact ⟨⟨sort x, (mem_values_iff h _).mpr hfind, (hpick _ x).mpr rfl⟩, hwanted⟩
  · refine List.Pairwise.filter _ (List.pairwise_filterMap.mpr ((increasing_values h).imp ?_))
    intro r r' hprecedes x hx y hy
    rw [← (hpick r x).mp hx, ← (hpick r' y).mp hy]
    exact hprecedes

/-- Among accounts under ids of their kind the numbers are in the order of the ids. -/
theorem number_lt_of_precedes {a b : Account} (ha : a.id.is .account = true) (hb : b.id.is .account = true)
    (h : a.id.Precedes b.id) : a.accountId.number < b.accountId.number := by
  simp only [ObjectId.is, Bool.and_eq_true, decide_eq_true_eq] at ha hb
  unfold ObjectId.Precedes at h
  rw [ha.1, ha.2, hb.1, hb.2] at h
  rcases h with hspace | ⟨-, htype | ⟨-, hnumber⟩⟩
  · exact absurd hspace (UInt8.lt_irrefl _)
  · exact absurd htype (UInt8.lt_irrefl _)
  · exact hnumber

theorem increasing_accountIds {held : ObjectId → Option Record} {wanted : Account → Prop} {accounts : List Account}
    (h : Listing held .account wanted accounts) (hkind : ∀ a ∈ accounts, a.id.is .account = true) :
    (accounts.map Account.accountId).Pairwise fun i j => i.number < j.number := by
  refine List.pairwise_map.mpr (h.increasing.imp_of_mem ?_)
  intro a b ha hb hprecedes
  exact number_lt_of_precedes (hkind a ha) (hkind b hb) hprecedes

/-- Every query answers from one map of ids to objects. -/
structure Answers (l : Ledger) (held : ObjectId → Option Record) : Prop where
  find : ∀ id, l.find? id = held id
  own : ∀ id r, held id = some r → r.id = id
  size : l.size = {id | (held id).isSome}.ncard
  balancesOf : ∀ owner, Listing held .accountBalance (·.owner = owner) (l.balancesOf owner)
  limitOrdersOf : ∀ seller, Listing held .limitOrder (·.seller = seller) (l.limitOrdersOf seller)
  callOrdersOf : ∀ borrower, Listing held .callOrder (·.borrower = borrower) (l.callOrdersOf borrower)
  balancesAt : ∀ address, Listing held .addressBalance (·.owner = address) (l.balancesAt address)
  accountsWithKey : ∀ key, ∃ accounts,
    Listing held .account (fun a => key ∈ a.ownerKeys ∨ key ∈ a.activeKeys) accounts ∧
      l.accountsWithKey key = accounts.map Account.accountId ∧
      ((∀ a ∈ accounts, a.id.is .account = true) → (l.accountsWithKey key).Pairwise fun i j => i.number < j.number)

theorem accountsWithKey_listing {l : Ledger} (h : Keyed l) (key : PublicKey) :
    Listing l.find? .account (fun a => key ∈ a.ownerKeys ∨ key ∈ a.activeKeys)
      (l.accounts.filter (·.keys.contains key)) := by
  have hkeys : (fun a : Account => a.keys.contains key) = fun a => decide (key ∈ a.ownerKeys ∨ key ∈ a.activeKeys) := by
    funext a
    rw [Account.keys, List.contains_eq_mem]
    simp only [List.mem_append]
  rw [hkeys]
  refine listing_of_values h ?_ _
  intro r a
  cases r <;> simp [Record.account?]

theorem answers_of_keyed {l : Ledger} (h : Keyed l) : Answers l l.find? := by
  refine ⟨fun _ => rfl, h, l.size_eq_ncard, ?_, ?_, ?_, ?_, ?_⟩
  · intro owner
    refine listing_of_values h ?_ _
    intro r x
    cases r <;> simp [Record.accountBalance?]
  · intro seller
    refine listing_of_values h ?_ _
    intro r x
    cases r <;> simp [Record.limitOrder?]
  · intro borrower
    refine listing_of_values h ?_ _
    intro r x
    cases r <;> simp [Record.callOrder?]
  · intro address
    refine listing_of_values h ?_ _
    intro r x
    cases r <;> simp [Record.addressBalance?]
  · intro key
    have hlisting := accountsWithKey_listing h key
    exact ⟨_, hlisting, rfl, fun hkind => increasing_accountIds hlisting hkind⟩

/-- After any edits every query answers from what the last of them left under each id. -/
theorem answers_after (edits : List Edit) : Answers (empty.after edits) (lastLeft edits) := by
  have hfind : (empty.after edits).find? = lastLeft edits := funext (find?_after edits)
  rw [← hfind]
  exact answers_of_keyed (keyed_after edits)

end Ledger

end LedgerWatch
