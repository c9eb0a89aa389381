/-
  LedgerWatch.Proofs.Ledger.Names — accounts listed by name, page by page.

  The accounts from a name on have one listing: by name, as the bytes of names compare,
  and by id among those of one name (`NameListing`, `allFrom_listing`). Every page is the
  beginning of it.

  A client that wants them all asks again and again from the last name it has seen, and
  drops what it has seen (`seenAfter`). With pages longer than any group of accounts of
  one name it gets on with every request (`nextPage_eq`), for of the next page it has seen
  a part of one group only. So it sees all of the listing, and nothing twice
  (`name_paging`).
-/

import LedgerWatch.Proofs.Bytes.Ordered
import LedgerWatch.Proofs.Ledger.Accounts

namespace LedgerWatch

open Bytes

/-- By name, in the order of its bytes, and by id among equals. -/
def Account.NamedBefore (a b : Account) : Prop := utf8 a.name < utf8 b.name ∨ a.name = b.name ∧ a.id.Precedes b.id

instance (a b : ObjectId) : Decidable (a.Precedes b) := inferInstanceAs (Decidable (_ ∨ _))

instance (a b : Account) : Decidable (a.NamedBefore b) := inferInstanceAs (Decidable (_ ∨ _))

theorem Account.NamedBefore.asymm {a b : Account} (h : a.NamedBefore b) : ¬b.NamedBefore a := by
  rintro (hba | ⟨hname, hba⟩)
  · rcases h with hab | ⟨hname, -⟩
    · exact List.lt_asymm hab hba
    · rw [hname] at hba
      exact List.lt_irrefl _ hba
  · rcases h with hab | ⟨-, hab⟩
    · rw [hname] at hab
      exact List.lt_irrefl _ hab
    · exact hab.asymm hba

theorem Account.NamedBefore.le {a b : Account} (h : a.NamedBefore b) : a.name ≤ b.name := by
  rcases h with hlt | ⟨hname, -⟩
  · exact String.lt_asymm ((utf8_lt_iff _ _).mp hlt)
  · exact hname ▸ String.le_refl _

/-- A stable sort leaves values that compare equal as they come. -/
theorem filter_mergeSort {α : Type} {le : α → α → Bool}
    (htrans : ∀ a b c, le a b = true → le b c = true → le a c = true) (htotal : ∀ a b, (le a b || le b a) = true)
    {p : α → Bool} (hp : ∀ a b, p a = true → p b = true → le a b = true) (xs : List α) :
    (xs.mergeSort le).filter p = xs.filter p := by
  have hequal : (xs.filter p).Pairwise fun a b => le a b = true := by
    refine List.pairwise_of_forall_mem_list ?_
    intro a ha b hb
    exact hp a b (List.mem_filter.mp ha).2 (List.mem_filter.mp hb).2
  have hsub : (xs.filter p).Sublist ((xs.mergeSort le).filter p) := by
    have hkept := (List.sublist_mergeSort htrans htotal hequal List.filter_sublist).filter p
    rwa [List.filter_filter, funext fun a => Bool.and_self (p a)] at hkept
  exact (hsub.eq_of_length ((List.mergeSort_perm xs le).filter p).length_eq.symm).symm

namespace Ledger

/-! ## The accounts by name -/

/-- The accounts that are there with a name not below `lower`, each once and by name. -/
structure NameListing (held : ObjectId → Option Record) (lower : String) (xs : List Account) : Prop where
  exact : ∀ a, a ∈ xs ↔ held a.id = some (.account a) ∧ ¬utf8 a.name < utf8 lower
  ordered : xs.Pairwise Account.NamedBefore

section

variable {held : ObjectId → Option Record} {lower : String} {xs ys : List Account}

theorem NameListing.nodup (h : NameListing held lower xs) : xs.Nodup := by
  refine h.ordered.imp ?_
  rintro a b hab rfl
  exact hab.asymm hab

theorem NameListing.unique (hx : NameListing held lower xs) (hy : NameListing held lower ys) : xs = ys := by
  have hsame : xs.Perm ys := by
    refine (List.perm_ext_iff_of_nodup hx.nodup hy.nodup).mpr ?_
    intro a
    rw [hx.exact, hy.exact]
  refine hsame.eq_of_pairwise ?_ hx.ordered hy.ordered
  intro a b _ _ hab hba
  exact absurd hba hab.asymm

/-- From a later name on there are the accounts of the listing that have it or a later one. -/
theorem NameListing.from_later (h : NameListing held lower xs) {name : String} (hname : lower ≤ name) :
    NameListing held name (xs.filter fun a => decide (name ≤ a.name)) := by
  refine ⟨fun a => ?_, h.ordered.filter _⟩
  rw [List.mem_filter, decide_eq_true_iff, h.exact, utf8_lt_iff, utf8_lt_iff]
  constructor
  · rintro ⟨⟨hheld, -⟩, hlater⟩
    exact ⟨hheld, hlater⟩
  · rintro ⟨hheld, hlater⟩
    exact ⟨⟨hheld, String.le_trans hname hlater⟩, hlater⟩

end

/-- All accounts by name, from a name on. -/
def allFrom (l : Ledger) (lower : String) : List Account :=
  (l.accounts.filter fun a => decide (lower ≤ a.name)).mergeSort fun a b => decide (a.name ≤ b.name)

theorem accountsFrom_eq_take (l : Ledger) (lower : String) (limit : Nat) :
    l.accountsFrom lower limit = (l.allFrom lower).take limit := rfl

theorem nameListing_of_perm {l : Ledger} (h : Keyed l) {lower : String} {xs : List Account}
    (hperm : xs.Perm (l.accounts.filter fun a => decide (lower ≤ a.name))) (hordered : xs.Pairwise Account.NamedBefore) :
    NameListing l.find? lower xs := by
  refine ⟨fun a => ?_, hordered⟩
  rw [hperm.mem_iff, (accounts_listing h (lower ≤ ·.name)).exact, utf8_lt_iff]
  exact Iff.rfl

theorem allFrom_listing {l : Ledger} (h : Keyed l) (lower : String) : NameListing l.find? lower (l.allFrom lower) := by
  have htrans (a b c : Account) (hab : decide (a.name ≤ b.name) = true) (hbc : decide (b.name ≤ c.name) = true) :
      decide (a.name ≤ c.name) = true :=
    decide_eq_true (String.le_trans (of_decide_eq_true hab) (of_decide_eq_true hbc))
  have htotal (a b : Account) : (decide (a.name ≤ b.name) || decide (b.name ≤ a.name)) = true := by
    rw [Bool.or_eq_true, decide_eq_true_iff, decide_eq_true_iff]
    exact String.le_total _ _
  refine nameListing_of_perm h (List.mergeSort_perm _ _) (List.pairwise_iff_forall_sublist.mpr ?_)
  intro a b hab
  have hle : a.name ≤ b.name :=
    of_decide_eq_true (List.pairwise_iff_forall_sublist.mp (List.pairwise_mergeSort htrans htotal _) hab)
  by_cases hname : b.name ≤ a.name
  · have hsame : a.name = b.name := String.le_antisymm hle hname
    -- accounts of one name stand in the order of the ledger
    have hgroup := hab.filter fun c => decide (c.name = a.name)
    rw [allFrom, filter_mergeSort htrans htotal (by simp +contextual), List.filter_cons_of_pos (by simp),
      List.filter_cons_of_pos (by simp [hsame]), List.filter_nil] at hgroup
    have hids := ((accounts_listing h (lower ≤ ·.name)).increasing.filter fun c => decide (c.name = a.name))
    exact .inr ⟨hsame, List.pairwise_iff_forall_sublist.mp hids hgroup⟩
  · exact .inl ((utf8_lt_iff _ _).mpr (String.not_le.mp hname))

/-! ## Page after page -/

/-- What one more request brings to a client: it asks from the last name it has seen on, and drops what it has seen. -/
def nextPage (l : Ledger) (lower : String) (limit : Nat) (seen : List Account) : List Account :=
  (l.accountsFrom ((seen.getLast?.map (·.name)).getD lower) limit).filter fun a => decide (a ∉ seen)

/-- What a client has seen after so many requests. -/
def seenAfter (l : Ledger) (lower : String) (limit : Nat) : Nat → List Account
  | 0 => []
  | n + 1 => l.seenAfter lower limit n ++ l.nextPage lower limit (l.seenAfter lower limit n)

/-- From the last name seen on there are the accounts of this name, which have been seen, and all that have not. -/
theorem allFrom_last {l : Ledger} (h : Keyed l) {lower : String} {before rest : List Account} {last : Account}
    (hall : NameListing l.find? lower (before ++ [last] ++ rest)) :
    l.allFrom last.name = (before ++ [last]).filter (fun a => decide (a.name = last.name)) ++ rest := by
  have hlast : last ∈ before ++ [last] := List.mem_concat_self
  obtain ⟨hseen, -, hapart⟩ := List.pairwise_append.mp hall.ordered
  have hlower : lower ≤ last.name := by
    have hbound := ((hall.exact last).mp (List.mem_append_left rest hlast)).2
    rwa [utf8_lt_iff] at hbound
  have hgroup : (before ++ [last]).filter (fun a => decide (last.name ≤ a.name)) =
      (before ++ [last]).filter fun a => decide (a.name = last.name) := by
    refine List.filter_congr ?_
    intro a ha
    rw [decide_eq_decide]
    refine ⟨fun hle => ?_, fun heq => heq ▸ String.le_refl _⟩
    rcases List.mem_append.mp ha with hbefore | hsingle
    · exact String.le_antisymm ((List.pairwise_append.mp hseen).2.2 a hbefore last List.mem_cons_self).le hle
    · rw [List.mem_singleton.mp hsingle]
  have hrest : rest.filter (fun a => decide (last.name ≤ a.name)) = rest := by
    refine List.filter_eq_self.mpr ?_
    intro a ha
    exact decide_eq_true (hapart last hlast a ha).le
  rw [(allFrom_listing h last.name).unique (hall.from_later hlower), List.filter_append, hgroup, hrest]

/-- What has been seen of the next page is too little to fill it, so the client gets on. -/
theorem nextPage_eq {l : Ledger} (h : Keyed l) {lower : String} {limit : Nat} {seen rest : List Account}
    (hall : NameListing l.find? lower (seen ++ rest))
    (hlimit : ∀ name, ((seen ++ rest).filter fun a => decide (a.name = name)).length < limit) :
    ∃ n, 0 < n ∧ l.nextPage lower limit seen = rest.take n := by
  have hnew (n : Nat) : (rest.take n).filter (fun a => decide (a ∉ seen)) = rest.take n := by
    refine List.filter_eq_self.mpr ?_
    intro a ha
    exact decide_eq_true fun hseen => List.disjoint_of_nodup_append hall.nodup hseen (List.mem_of_mem_take ha)
  rcases List.eq_nil_or_concat' seen with rfl | ⟨before, last, rfl⟩
  · have hfirst : l.allFrom lower = rest := (allFrom_listing h lower).unique hall
    refine ⟨limit, Nat.zero_lt_of_lt (hlimit lower), ?_⟩
    rw [← hnew limit, ← hfirst]
    rfl
  · let group := (before ++ [last]).filter fun a => decide (a.name = last.name)
    have hfew : group.length < limit := by
      have hcount := hlimit last.name
      rw [List.filter_append, List.length_append] at hcount
      exact Nat.lt_of_le_of_lt (Nat.le_add_right _ _) hcount
    have hold : group.filter (fun a => decide (a ∉ before ++ [last])) = [] := by
      refine List.filter_eq_nil_iff.mpr ?_
      intro a ha hnot
      exact of_decide_eq_true hnot (List.mem_filter.mp ha).1
    refine ⟨limit - group.length, Nat.sub_pos_of_lt hfew, ?_⟩
    rw [nextPage, List.getLast?_concat, accountsFrom_eq_take]
    show ((l.allFrom last.name).take limit).filter _ = _
    rw [allFrom_last h hall, List.take_append, List.take_of_length_le (Nat.le_of_lt hfew), List.filter_append, hold,
      hnew, List.nil_append]

/-- Each request brings the client further along the listing, until there is nothing left. -/
theorem seenAfter_prefix {l : Ledger} (h : Keyed l) {lower : String} {limit : Nat} {all : List Account}
    (hall : NameListing l.find? lower all)
    (hlimit : ∀ name, (all.filter fun a => decide (a.name = name)).length < limit) (n : Nat) :
    ∃ rest, l.seenAfter lower limit n ++ rest = all ∧ (rest = [] ∨ n ≤ (l.seenAfter lower limit n).length) := by
  induction n with
  | zero => exact ⟨all, rfl, .inr (Nat.zero_le _)⟩
  | succ n ih =>
    obtain ⟨rest, hsplit, hfar⟩ := ih
    rw [← hsplit] at hall hlimit
    obtain ⟨k, hk, hpage⟩ := nextPage_eq h hall hlimit
    refine ⟨rest.drop k, ?_, ?_⟩
    · rw [seenAfter, hpage, List.append_assoc, List.take_append_drop, hsplit]
    · rw [seenAfter, hpage, List.length_append, List.length_take]
      rcases hfar with rfl | hfar
      · exact .inl List.drop_nil
      · by_cases hleft : rest.length ≤ k
        · exact .inl (List.drop_eq_nil_of_le hleft)
        · exact .inr (by omega)

/-- A client that gets nothing new has seen all. -/
theorem seenAfter_of_nothing_new {l : Ledger} (h : Keyed l) {lower : String} {limit : Nat} {all : List Account}
    (hall : NameListing l.find? lower all)
    (hlimit : ∀ name, (all.filter fun a => decide (a.name = name)).length < limit) {n : Nat}
    (hnothing : l.nextPage lower limit (l.seenAfter lower limit n) = []) : l.seenAfter lower limit n = all := by
  obtain ⟨rest, rfl, -⟩ := seenAfter_prefix h hall hlimit n
  obtain ⟨k, hk, hpage⟩ := nextPage_eq h hall hlimit
  rw [hnothing] at hpage
  rcases List.take_eq_nil_iff.mp hpage.symm with hzero | hempty
  · exact absurd hzero (Nat.ne_of_gt hk)
  · rw [hempty, List.append_nil]

theorem NameListing.no_skip {held : ObjectId → Option Record} {lower : String} {all : List Account}
    (h : NameListing held lower all) {limit : Nat} {a b : Account} (ha : a ∈ all) (hb : b ∈ all.take limit)
    (hab : a.NamedBefore b) : a ∈ all.take limit := by
  have hsplit := h.ordered
  rw [← List.take_append_drop limit all] at hsplit ha
  rcases List.mem_append.mp ha with htaken | hleft
  · exact htaken
  · exact absurd hab ((List.pairwise_append.mp hsplit).2.2 b hb a hleft).asymm

/-- A page is the beginning of one listing by name: it is as long as it can be, a longer one goes on from it, and
nothing is left out before what is in it. A client that goes on from the last name it has seen, with pages longer than
any group of accounts of one name, sees the whole listing, each account once, and knows so as soon as it gets nothing
new. -/
theorem name_paging (edits : List Edit) (lower : String) :
    let l := empty.after edits
    ∃ all, NameListing l.find? lower all ∧ all.Nodup ∧
      (∀ limit, let page := l.accountsFrom lower limit
        page = all.take limit ∧ page.length = min limit all.length ∧ page.Nodup ∧
        (∀ larger, limit ≤ larger → page <+: l.accountsFrom lower larger) ∧
        ∀ a ∈ all, ∀ b ∈ page, a.NamedBefore b → a ∈ page) ∧
      ∀ limit, (∀ name, (all.filter fun a => decide (a.name = name)).length < limit) →
        (∀ n, l.seenAfter lower limit n <+: all) ∧
        (∀ n, l.nextPage lower limit (l.seenAfter lower limit n) = [] → l.seenAfter lower limit n = all) ∧
        ∀ n, all.length ≤ n → l.seenAfter lower limit n = all := by
  intro l
  have hkeyed : l.Keyed := keyed_after edits
  have hall := allFrom_listing hkeyed lower
  refine ⟨l.allFrom lower, hall, hall.nodup, ?_, ?_⟩
  · intro limit page
    refine ⟨rfl, List.length_take, hall.nodup.sublist (List.take_sublist _ _), ?_, ?_⟩
    · intro larger hlarger
      exact List.take_prefix_take_left hlarger
    · intro a ha b hb hab
      exact hall.no_skip ha hb hab
  · intro limit hlimit
    refine ⟨?_, fun n => seenAfter_of_nothing_new hkeyed hall hlimit, ?_⟩
    · intro n
      obtain ⟨rest, hsplit, -⟩ := seenAfter_prefix hkeyed hall hlimit n
      exact ⟨rest, hsplit⟩
    · intro n hn
      obtain ⟨rest, hsplit, hfar⟩ := seenAfter_prefix hkeyed hall hlimit n
      rcases hfar with rfl | hfar
      · rwa [List.append_nil] at hsplit
      · rw [← hsplit, List.length_append] at hn
        have hnone : rest = [] := List.eq_nil_of_length_eq_zero (by omega)
        rw [← hsplit, hnone, List.append_nil]

def holder (number : UInt64) (name : String) : Account := ⟨Kind.account.id number, name, ⟨0⟩, [], []⟩

/-- Two of one name, and one whose name begins with a letter after all of ASCII. -/
def fourHolders : List Edit :=
  [.insert (.account (holder 5 "bob")), .insert (.account (holder 8 "alice")), .insert (.account (holder 7 "émile")),
    .insert (.account (holder 6 "alice"))]

theorem name_paging_of_four :
    let l := empty.after fourHolders
    let all := [holder 6 "alice", holder 8 "alice", holder 5 "bob", holder 7 "émile"]
    (∀ name, (all.filter fun a => decide (a.name = name)).length < 3) ∧ l.accountsFrom "al" 3 = all.take 3 ∧
      l.seenAfter "al" 3 4 = all := by
  intro l all
  have hall : NameListing l.find? "al" all :=
    nameListing_of_perm (keyed_after fourHolders) (by decide +kernel) (by decide +kernel)
  obtain ⟨listed, hlisted, -, hpages, hclient⟩ := name_paging fourHolders "al"
  obtain rfl : listed = all := hlisted.unique hall
  have hgroups : ∀ name, (all.filter fun a => decide (a.name = name)).length < 3 := by
    intro name
    by_cases halice : "alice" = name
    · subst halice
      decide +kernel
    · have hothers : all.filter (fun a => decide (a.name = name)) =
          [holder 5 "bob", holder 7 "émile"].filter fun a => decide (a.name = name) := by
        simp [all, List.filter_cons, holder, halice]
      rw [hothers]
      exact Nat.lt_of_le_of_lt (List.length_filter_le _ _) (by decide)
  exact ⟨hgroups, (hpages 3).1, (hclient 3 hgroups).2.2 4 (Nat.le_refl 4)⟩

end Ledger

end LedgerWatch
