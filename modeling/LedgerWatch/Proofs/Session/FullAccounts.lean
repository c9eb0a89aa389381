/-
  LedgerWatch.Proofs.Session.FullAccounts — accounts with all that is theirs.

  A text that begins with a digit is read as an id, and any other is a name (`StandsFor`).
  A query for full accounts answers by the texts it was asked with: each text that stands
  for an account has this account, with all that belongs to it in the ledger (`Complete`),
  whatever the session that asks has subscribed to or follows (`fullAnswer`).

  - `mem_ofList_iff`: a value by name is the last one that was put under it.
  - `resolve?_eq_some_iff`: what a text resolves to is what it stands for.
-/

import LedgerWatch.Proofs.Ledger.Accounts
import LedgerWatch.Session.Requests

namespace LedgerWatch

/-! ## Values by name -/

namespace ByName

variable {α : Type}

def names (m : ByName α) : List String := m.map (·.1)

/-- The last of the values with a name. -/
def last? (xs : List (String × α)) (name : String) : Option α := (xs.reverse.find? (·.1 = name)).map (·.2)

theorem mem_names_put (m : ByName α) (name : String) (x : α) (n : String) :
    n ∈ (put name x m).names ↔ n = name ∨ n ∈ m.names := by
  induction m with
  | nil => simp [put, names]
  | cons e m ih =>
    obtain ⟨k, y⟩ := e
    unfold put
    by_cases hk : k = name
    · subst hk
      simp [names]
    · rw [if_neg hk]
      show n ∈ k :: names (put name x m) ↔ n = name ∨ n ∈ k :: names m
      rw [List.mem_cons, ih, List.mem_cons]
      tauto

theorem nodup_put {m : ByName α} (h : m.names.Nodup) (name : String) (x : α) : (put name x m).names.Nodup := by
  induction m with
  | nil => exact List.pairwise_singleton _ _
  | cons e m ih =>
    obtain ⟨k, y⟩ := e
    obtain ⟨hk, hrest⟩ := List.nodup_cons.mp h
    unfold put
    split
    · rename_i hname
      exact List.nodup_cons.mpr ⟨hname ▸ hk, hrest⟩
    · rename_i hname
      refine List.nodup_cons.mpr ⟨?_, ih hrest⟩
      show k ∉ names (put name x m)
      rw [mem_names_put, not_or]
      exact ⟨hname, hk⟩

theorem mem_put {m : ByName α} (h : m.names.Nodup) (name : String) (x : α) (n : String) (y : α) :
    (n, y) ∈ put name x m ↔ if n = name then y = x else (n, y) ∈ m := by
  induction m with
  | nil =>
    by_cases hn : n = name <;> simp [put, hn]
  | cons e m ih =>
    obtain ⟨k, z⟩ := e
    obtain ⟨hk, hrest⟩ := List.nodup_cons.mp h
    unfold put
    by_cases hname : k = name
    · rw [if_pos hname]
      by_cases hn : n = name
      · subst hn
        have hout : (n, y) ∉ m := fun hm => hk (hname ▸ List.mem_map.mpr ⟨(n, y), hm, rfl⟩)
        simp [hout]
      · have hnk : n ≠ k := fun hnk => hn (hnk.trans hname)
        simp [hn, hnk]
    · rw [if_neg hname, List.mem_cons, ih hrest]
      by_cases hn : n = name
      · have hnk : n ≠ k := fun hnk => hname (hnk.symm.trans hn)
        simp [hn, hn ▸ hnk]
      · simp [hn]

theorem ofList_snoc (xs : List (String × α)) (name : String) (x : α) :
    ofList (xs ++ [(name, x)]) = put name x (ofList xs) :=
  List.foldl_append

theorem nodup_ofList (xs : List (String × α)) : (ofList xs).names.Nodup := by
  induction xs using List.reverseRecOn with
  | nil => exact List.nodup_nil
  | append_singleton xs e ih => exact ofList_snoc xs e.1 e.2 ▸ nodup_put ih e.1 e.2

theorem mem_ofList_iff (xs : List (String × α)) (n : String) (y : α) : (n, y) ∈ ofList xs ↔ last? xs n = some y := by
  induction xs using List.reverseRecOn with
  | nil => simp [ofList, last?]
  | append_singleton xs e ih =>
    rw [ofList_snoc, mem_put (nodup_ofList xs), ih]
    unfold last?
    rw [List.reverse_append, List.reverse_singleton, List.singleton_append, List.find?_cons]
    by_cases hn : e.1 = n
    · simp [hn, eq_comm]
    · simp [hn, Ne.symm hn]

theorem mem_names_ofList (xs : List (String × α)) (n : String) : n ∈ (ofList xs).names ↔ n ∈ xs.map (·.1) := by
  induction xs using List.reverseRecOn with
  | nil => rfl
  | append_singleton xs e ih =>
    rw [ofList_snoc, mem_names_put, ih, List.map_append, List.mem_append, Or.comm]
    simp

theorem of_last? {xs : List (String × α)} {n : String} {y : α} (h : last? xs n = some y) : (n, y) ∈ xs := by
  obtain ⟨e, hfind, rfl⟩ := Option.map_eq_some_iff.mp h
  have hname : e.1 = n := by simpa using List.find?_some hfind
  rw [← hname]
  exact List.mem_reverse.mp (List.mem_of_find?_eq_some hfind)

/-- Where a name never has two values each is the last. -/
theorem mem_ofList_of_function {xs : List (String × α)} (h : ∀ n x y, (n, x) ∈ xs → (n, y) ∈ xs → x = y) (n : String)
    (y : α) : (n, y) ∈ ofList xs ↔ (n, y) ∈ xs := by
  rw [mem_ofList_iff]
  constructor
  · exact of_last?
  · intro hy
    obtain ⟨e, he⟩ : ∃ e, xs.reverse.find? (fun e => decide (e.1 = n)) = some e := by
      rw [← Option.isSome_iff_exists, List.find?_isSome]
      exact ⟨(n, y), List.mem_reverse.mpr hy, by simp⟩
    have hlast : last? xs n = some e.2 := by
      unfold last?
      rw [he]
      rfl
    rw [hlast, h n e.2 y (of_last? hlast) hy]

end ByName

/-! ## What a text stands for -/

/-- The text begins with one of the ten ASCII digits. -/
def BeginsWithDigit (s : String) : Prop := ∃ c, s.toList.head? = some c ∧ c.isDigit = true

/-- An id stands for the account under it, a name for the first account that bears it. -/
inductive StandsFor (held : ObjectId → Option Record) (key : String) (a : Account) : Prop where
  | asId {id : AccountId} : BeginsWithDigit key → AccountId.parse key = .ok id →
      held id.objectId = some (.account a) → StandsFor held key a
  | asName : ¬BeginsWithDigit key → Ledger.FirstNamed held key a → StandsFor held key a

theorem resolve?_eq_some_iff {l : Ledger} (h : l.Keyed) {key : String} {a : Account} :
    l.resolve? key = some a ↔ StandsFor l.find? key a := by
  have hdigit : (key.toList.head?.map Char.isDigit).getD false = true ↔ BeginsWithDigit key := by
    unfold BeginsWithDigit
    cases key.toList.head? <;> simp
  unfold Ledger.resolve?
  by_cases hd : BeginsWithDigit key
  · rw [if_pos (hdigit.mpr hd)]
    constructor
    · intro hresolve
      cases hparse : AccountId.parse key with
      | ok id =>
        rw [hparse] at hresolve
        exact .asId hd hparse (Ledger.account?_eq_some_iff.mp hresolve)
      | error e =>
        rw [hparse] at hresolve
        contradiction
    · intro hstands
      cases hstands with
      | asId _ hparse hheld =>
        rw [hparse]
        exact Ledger.account?_eq_some_iff.mpr hheld
      | asName hname _ => exact absurd hd hname
  · rw [if_neg (fun hd' => hd (hdigit.mp hd')), Ledger.accountNamed?_eq_some_iff h]
    constructor
    · exact .asName hd
    · intro hstands
      cases hstands with
      | asId hd' _ _ => exact absurd hd' hd
      | asName _ hnamed => exact hnamed

/-! ## Full accounts -/

/-- An account with exactly what is its own, by increasing ids. -/
structure Complete (held : ObjectId → Option Record) (a : Account) (f : FullAccount) : Prop where
  account : f.account = a
  balances : Ledger.Listing held .accountBalance (·.owner = a.accountId) f.balances
  limitOrders : Ledger.Listing held .limitOrder (·.seller = a.accountId) f.limitOrders
  callOrders : Ledger.Listing held .callOrder (·.borrower = a.accountId) f.callOrders

theorem complete_iff {l : Ledger} (h : l.Keyed) (a : Account) (f : FullAccount) :
    Complete l.find? a f ↔ f = l.fullAccount a := by
  have hanswers := Ledger.answers_of_keyed h
  constructor
  · rintro ⟨haccount, hbalances, hlimit, hcall⟩
    have hb : f.balances = l.balancesOf a.accountId := hbalances.unique (hanswers.balancesOf _)
    have hl : f.limitOrders = l.limitOrdersOf a.accountId := hlimit.unique (hanswers.limitOrdersOf _)
    have hc : f.callOrders = l.callOrdersOf a.accountId := hcall.unique (hanswers.callOrdersOf _)
    calc f = ⟨f.account, f.balances, f.limitOrders, f.callOrders⟩ := rfl
      _ = l.fullAccount a := by rw [haccount, hb, hl, hc]; rfl
  · rintro rfl
    exact ⟨rfl, hanswers.balancesOf _, hanswers.limitOrdersOf _, hanswers.callOrdersOf _⟩

/-- The answer to a query for full accounts, which is a matter of the ledger and the texts alone. -/
def Ledger.fullAccounts (l : Ledger) (keys : List String) : ByName FullAccount :=
  .ofList (keys.filterMap fun key => (l.resolve? key).map fun a => (key, l.fullAccount a))

theorem serve_getFullAccounts (l : Ledger) (s : Subscriptions) (keys : List String) (subscribe : Bool) :
    (s.serve l (.getFullAccounts keys subscribe)).1 = .fullAccounts (l.fullAccounts keys) := by
  unfold Subscriptions.serve Subscriptions.getFullAccounts Ledger.fullAccounts
  simp only [List.map_filterMap, Option.map_map]
  rfl

theorem mem_found {l : Ledger} {keys : List String} {key : String} {f : FullAccount} :
    (key, f) ∈ keys.filterMap (fun key => (l.resolve? key).map fun a => (key, l.fullAccount a)) ↔
      key ∈ keys ∧ ∃ a, l.resolve? key = some a ∧ f = l.fullAccount a := by
  rw [List.mem_filterMap]
  constructor
  · rintro ⟨key', hkey, hfound⟩
    obtain ⟨a, ha, hsame⟩ := Option.map_eq_some_iff.mp hfound
    cases hsame
    exact ⟨hkey, a, ha, rfl⟩
  · rintro ⟨hkey, a, ha, rfl⟩
    exact ⟨key, hkey, by rw [ha]; rfl⟩

theorem mem_fullAccounts {l : Ledger} {keys : List String} {key : String} {f : FullAccount} :
    (key, f) ∈ l.fullAccounts keys ↔ key ∈ keys ∧ ∃ a, l.resolve? key = some a ∧ f = l.fullAccount a := by
  unfold Ledger.fullAccounts
  rw [ByName.mem_ofList_of_function, mem_found]
  intro key f f' hf hf'
  obtain ⟨-, a, ha, rfl⟩ := mem_found.mp hf
  obtain ⟨-, a', ha', rfl⟩ := mem_found.mp hf'
  rw [ha] at ha'
  rw [Option.some.inj ha']

/-- Full accounts by the texts that were asked for: each one that stands for an account, once, with this account and
all that is its own, and no others. -/
structure FullAnswer (held : ObjectId → Option Record) (keys : List String) (found : ByName FullAccount) : Prop where
  once : found.names.Nodup
  answered : ∀ key, key ∈ found.names ↔ key ∈ keys ∧ ∃ a, StandsFor held key a
  exact : ∀ key f, (key, f) ∈ found ↔ key ∈ keys ∧ ∃ a, StandsFor held key a ∧ Complete held a f

theorem fullAnswer {l : Ledger} (h : l.Keyed) (keys : List String) : FullAnswer l.find? keys (l.fullAccounts keys) := by
  have hexact : ∀ key f, (key, f) ∈ l.fullAccounts keys ↔
      key ∈ keys ∧ ∃ a, StandsFor l.find? key a ∧ Complete l.find? a f := by
    intro key f
    rw [mem_fullAccounts]
    simp only [resolve?_eq_some_iff h, complete_iff h]
  refine ⟨ByName.nodup_ofList _, ?_, hexact⟩
  intro key
  unfold ByName.names
  rw [List.mem_map]
  constructor
  · rintro ⟨⟨key', f⟩, hmem, rfl⟩
    obtain ⟨hkey, a, hstands, -⟩ := (hexact key' f).mp hmem
    exact ⟨hkey, a, hstands⟩
  · rintro ⟨hkey, a, hstands⟩
    exact ⟨(key, l.fullAccount a), (hexact _ _).mpr ⟨hkey, a, hstands, (complete_iff h a _).mpr rfl⟩, rfl⟩

end LedgerWatch
