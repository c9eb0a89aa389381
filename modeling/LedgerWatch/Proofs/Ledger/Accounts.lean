/-
  LedgerWatch.Proofs.Ledger.Accounts — accounts, asked for by id or by name.

  An id leads to an account if that is what is under it (`account?_eq_some_iff`), a name
  to the first account by id that bears it (`accountNamed?_eq_some_iff`). Of a listing the
  first object is the one that all others come after, and there is only one listing of the
  same objects (`Listing.head?_eq_some_iff`, `Listing.unique`).

  The accounts by name, from a name on, are some of those that have it or a later one
  (`of_mem_accountsFrom`).
-/

import LedgerWatch.Proofs.Ledger.Contents

namespace LedgerWatch

theorem ObjectId.Precedes.asymm {a b : ObjectId} (h : a.Precedes b) : ¬b.Precedes a := by
  unfold Precedes at h ⊢
  simp only [UInt8.lt_iff_toNat_lt, UInt64.lt_iff_toNat_lt, ← UInt8.toNat_inj] at h ⊢
  omega

theorem ObjectId.Precedes.irrefl (a : ObjectId) : ¬a.Precedes a := fun h => h.asymm h

theorem Record.account?_eq_some_iff (r : Record) (a : Account) : r.account? = some a ↔ r = .account a := by
  cases r <;> simp [account?]

namespace Ledger

/-! ## Listings -/

section

variable {α : Type} {found : ObjectId → Option Record} {sort : α → Record} {wanted : α → Prop} {xs ys : List α}

theorem Listing.nodup (h : Listing found sort wanted xs) : xs.Nodup := by
  refine h.increasing.imp ?_
  rintro x y hprecedes rfl
  exact ObjectId.Precedes.irrefl _ hprecedes

/-- There is one order to list the same objects in. -/
theorem Listing.unique (hx : Listing found sort wanted xs) (hy : Listing found sort wanted ys) : xs = ys := by
  have hsame : xs.Perm ys := by
    refine (List.perm_ext_iff_of_nodup hx.nodup hy.nodup).mpr ?_
    intro x
    rw [hx.exact, hy.exact]
  refine hsame.eq_of_pairwise ?_ hx.increasing hy.increasing
  intro x y _ _ hxy hyx
  exact absurd hyx hxy.asymm

/-- The first of a listing is what all others come after. -/
theorem Listing.head?_eq_some_iff (h : Listing found sort wanted xs) (x : α) :
    xs.head? = some x ↔ (found (sort x).id = some (sort x) ∧ wanted x) ∧
      ∀ y, found (sort y).id = some (sort y) → wanted y → y = x ∨ (sort x).id.Precedes (sort y).id := by
  rw [← h.exact]
  constructor
  · intro hhead
    obtain ⟨rest, rfl⟩ := List.head?_eq_some_iff.mp hhead
    refine ⟨List.mem_cons_self, ?_⟩
    intro y hfound hwanted
    rcases List.mem_cons.mp ((h.exact y).mpr ⟨hfound, hwanted⟩) with rfl | hy
    · exact .inl rfl
    · exact .inr ((List.pairwise_cons.mp h.increasing).1 y hy)
  · rintro ⟨hx, hfirst⟩
    obtain ⟨y, rest, rfl⟩ := List.exists_cons_of_ne_nil (List.ne_nil_of_mem hx)
    obtain ⟨hfound, hwanted⟩ := (h.exact y).mp List.mem_cons_self
    rcases List.mem_cons.mp hx with rfl | hrest
    · rfl
    · -- both before the other they are the same
      rcases hfirst y hfound hwanted with rfl | hbefore
      · rfl
      · exact absurd hbefore ((List.pairwise_cons.mp h.increasing).1 x hrest).asymm

end

/-! ## By id -/

theorem account?_eq_some_iff {l : Ledger} {id : AccountId} {a : Account} :
    l.account? id = some a ↔ l.find? id.objectId = some (.account a) := by
  unfold account?
  simp only [Option.bind_eq_some_iff, Record.account?_eq_some_iff, exists_eq_right]

/-! ## By name -/

/-- The account that bears a name, or of several the one whose id comes first. -/
structure FirstNamed (held : ObjectId → Option Record) (name : String) (a : Account) : Prop where
  present : held a.id = some (.account a)
  bears : a.name = name
  first : ∀ a', held a'.id = some (.account a') → a'.name = name → a' = a ∨ a.id.Precedes a'.id

theorem accounts_listing {l : Ledger} (h : Keyed l) (wanted : Account → Prop) [DecidablePred wanted] :
    Listing l.find? .account wanted (l.accounts.filter fun a => wanted a) :=
  listing_of_values h Record.account?_eq_some_iff wanted

theorem accountNamed?_eq_some_iff {l : Ledger} (h : Keyed l) {name : String} {a : Account} :
    l.accountNamed? name = some a ↔ FirstNamed l.find? name a := by
  have hlisting := accounts_listing h (·.name = name)
  unfold accountNamed?
  rw [← List.head?_filter, hlisting.head?_eq_some_iff]
  constructor
  · rintro ⟨⟨hpresent, hbears⟩, hfirst⟩
    exact ⟨hpresent, hbears, hfirst⟩
  · intro hnamed
    exact ⟨⟨hnamed.present, hnamed.bears⟩, hnamed.first⟩

/-- Accounts whose names are in order already are listed as they are. -/
theorem accountsFrom_of_sorted {l : Ledger} {lower : String} {xs : List Account}
    (h : l.accounts.filter (fun a => decide (lower ≤ a.name)) = xs)
    (hsorted : xs.Pairwise fun a b => decide (a.name ≤ b.name) = true) (limit : Nat) :
    l.accountsFrom lower limit = xs.take limit := by
  rw [accountsFrom, h, List.mergeSort_of_pairwise hsorted]

theorem of_mem_accountsFrom {l : Ledger} (h : Keyed l) {lower : String} {limit : Nat} {a : Account}
    (ha : a ∈ l.accountsFrom lower limit) : l.find? a.id = some (.account a) ∧ lower ≤ a.name := by
  have hsorted := List.mem_mergeSort.mp (List.mem_of_mem_take ha)
  exact ((accounts_listing h (lower ≤ ·.name)).exact a).mp hsorted

end Ledger

end LedgerWatch
