/-
  LedgerWatch.Proofs.Subscriptions.Markets — the market side of a session is a map over
  unordered pairs of distinct assets.

  An action settles a pair (`Action.settles?`) when it puts a callback there or takes
  what is there away: a subscription or its end on two different assets in either order,
  and the two actions that take everything back. `marketSince` reads off the history what
  the last of them left.

  - `Market.of_eq_iff`: two orders of the same assets make one market, and nothing else
    makes the same.
  - `marketCallback?_act`: an action does to a pair's callback what it settles, and
    otherwise leaves it.
  - `markets_refine`: so each market's callback is the one its history left.
-/

import LedgerWatch.Proofs.Subscriptions.Actions
import Mathlib.Data.Sym.Sym2

namespace LedgerWatch

/-! ## Markets of two assets -/

theorem Market.of_cases (a b : AssetId) :
    (a.number ≤ b.number ∧ Market.of a b = ⟨a, b⟩) ∨ (b.number < a.number ∧ Market.of a b = ⟨b, a⟩) := by
  unfold Market.of
  by_cases h : a.number ≤ b.number
  · exact .inl ⟨h, if_pos h⟩
  · exact .inr ⟨UInt64.not_le.mp h, if_neg h⟩

theorem Market.of_eq_iff {a b c d : AssetId} : Market.of a b = Market.of c d ↔ s(a, b) = s(c, d) := by
  rw [Sym2.eq_iff]
  constructor
  · intro h
    rcases of_cases a b with ⟨-, hab⟩ | ⟨-, hab⟩ <;> rcases of_cases c d with ⟨-, hcd⟩ | ⟨-, hcd⟩ <;>
      rw [hab, hcd, Market.mk.injEq] at h
    · exact .inl h
    · exact .inr h
    · exact .inr h.symm
    · exact .inl h.symm
  · rintro (⟨rfl, rfl⟩ | ⟨rfl, rfl⟩)
    · rfl
    · exact of_comm a b

theorem Market.isDegenerate_of (a b : AssetId) : (Market.of a b).isDegenerate = decide (a = b) := by
  rcases of_cases a b with ⟨-, h⟩ | ⟨-, h⟩ <;> simp [h, isDegenerate, eq_comm]

/-- Of two different assets the lower one comes first. -/
theorem Market.of_ordered {a b : AssetId} (h : a ≠ b) : (Market.of a b).base.number < (Market.of a b).quote.number := by
  rcases of_cases a b with ⟨hle, hof⟩ | ⟨hlt, hof⟩
  · rw [hof]
    refine UInt64.lt_of_le_of_ne hle fun hnum => h ?_
    cases a; cases b; cases hnum; rfl
  · rw [hof]
    exact hlt

theorem Market.between_same (a : AssetId) : Market.between a a = .error (.sameAssetMarket a) := by
  simp [between, isDegenerate_of]

theorem Market.between_of_ne {a b : AssetId} (h : a ≠ b) : Market.between a b = .ok (.of a b) := by
  simp [between, isDegenerate_of, h]

/-- By base, then quote. -/
def Market.Precedes (m m' : Market) : Prop :=
  m.base.number < m'.base.number ∨ m.base.number = m'.base.number ∧ m.quote.number < m'.quote.number

theorem Market.precedes_of_rank {m m' : Market} (h : rank m < rank m') : m.Precedes m' := by
  have hquote := m.quote.number.toNat_lt; have hquote' := m'.quote.number.toNat_lt
  simp only [rank, UInt64.size] at h
  unfold Precedes
  simp only [UInt64.lt_iff_toNat_lt, ← UInt64.toNat_inj]
  omega

theorem increasing_markets {α : Type} (m : SortedMap Market α) : m.keys.Pairwise Market.Precedes :=
  List.pairwise_map.mpr (m.sorted.imp Market.precedes_of_rank)

/-! ## The history of a pair -/

/-- What an action leaves for an unordered pair of assets, if it settles that pair. -/
def Action.settles? (pair : Sym2 AssetId) : Action → Option (Option Callback)
  | .subscribeMarket callback a b => if a ≠ b ∧ s(a, b) = pair then some (some callback) else none
  | .unsubscribeMarket a b => if a ≠ b ∧ s(a, b) = pair then some none else none
  | .cancel | .tearDown => some none
  | .install _ _ | .uninstall | .setPending _ | .setBlock _ | .arm _ | .follow _ => none

/-- Whether an action is about markets at all. -/
def Action.isOfMarkets : Action → Bool
  | .subscribeMarket .. | .unsubscribeMarket .. | .cancel | .tearDown => true
  | .install .. | .uninstall | .setPending _ | .setBlock _ | .arm _ | .follow _ => false

namespace Subscriptions

/-- What the last action that settled a pair left there. -/
def marketSince (pair : Sym2 AssetId) (acts : List Action) : Option Callback :=
  (acts.reverse.findSome? (Action.settles? pair)).getD none

theorem marketSince_snoc (pair : Sym2 AssetId) (acts : List Action) (e : Action) :
    marketSince pair (acts ++ [e]) = (e.settles? pair).getD (marketSince pair acts) := by
  unfold marketSince
  rw [List.reverse_append, List.reverse_singleton, List.singleton_append, List.findSome?_cons]
  cases e.settles? pair <;> rfl

/-! ## One action -/

theorem subscribeMarket_same (s : Subscriptions) (callback : Callback) (a : AssetId) :
    s.subscribeMarket callback a a = .error (.sameAssetMarket a) := by
  rw [subscribeMarket, Market.between_same]; rfl

theorem unsubscribeMarket_same (s : Subscriptions) (a : AssetId) :
    s.unsubscribeMarket a a = .error (.sameAssetMarket a) := by
  rw [unsubscribeMarket, Market.between_same]; rfl

theorem subscribeMarket_of_ne (s : Subscriptions) (callback : Callback) {a b : AssetId} (h : a ≠ b) :
    s.subscribeMarket callback a b = .ok (.of a b, { s with markets := s.markets.insert (.of a b) callback }) := by
  rw [subscribeMarket, Market.between_of_ne h]; rfl

theorem unsubscribeMarket_of_ne (s : Subscriptions) {a b : AssetId} (h : a ≠ b) :
    s.unsubscribeMarket a b =
      .ok ((s.marketCallback? (.of a b)).isSome, { s with markets := s.markets.erase (.of a b) }) := by
  rw [unsubscribeMarket, Market.between_of_ne h]; rfl

theorem act_subscribeMarket (s : Subscriptions) (callback : Callback) (a b : AssetId) :
    s.act (.subscribeMarket callback a b) =
      if a = b then s else { s with markets := s.markets.insert (.of a b) callback } := by
  by_cases h : a = b
  · subst h
    simp only [act, subscribeMarket_same, if_true]
  · simp only [act, subscribeMarket_of_ne s callback h, if_neg h]

theorem act_unsubscribeMarket (s : Subscriptions) (a b : AssetId) :
    s.act (.unsubscribeMarket a b) = if a = b then s else { s with markets := s.markets.erase (.of a b) } := by
  by_cases h : a = b
  · subst h
    simp only [act, unsubscribeMarket_same, if_true]
  · simp only [act, unsubscribeMarket_of_ne s h, if_neg h]

theorem markets_act_of_not {s : Subscriptions} {e : Action} (h : e.isOfMarkets = false) :
    (s.act e).markets = s.markets := by
  cases e with
  | install callback notifyAll =>
    simp only [act, install]
    cases notifyAll && !s.settings.subscribeToAll <;> rfl
  | uninstall | setPending callback | setBlock callback => rfl
  | arm item => simp only [act, arm_snd]
  | follow account => simp only [act, follow]; split; rfl; split <;> rfl
  | subscribeMarket | unsubscribeMarket | cancel | tearDown => cases h

theorem settles?_of_not {e : Action} (h : e.isOfMarkets = false) (pair : Sym2 AssetId) : e.settles? pair = none := by
  cases e with
  | subscribeMarket | unsubscribeMarket | cancel | tearDown => cases h
  | install | uninstall | setPending | setBlock | arm | follow => rfl

/-- What is done at one market is done for one pair. -/
theorem at_market {a b c d : AssetId} (h : c ≠ d) {new old : Option Callback} :
    (if rank (Market.of c d) = rank (Market.of a b) then new else old) =
      (if c ≠ d ∧ s(c, d) = s(a, b) then some new else none).getD old := by
  by_cases hpair : s(c, d) = s(a, b)
  · rw [if_pos (congrArg rank (Market.of_eq_iff.mpr hpair)), if_pos ⟨h, hpair⟩]
    rfl
  · rw [if_neg fun hrank => hpair (Market.of_eq_iff.mp (Ranked.rank_inj hrank)), if_neg fun hboth => hpair hboth.2]
    rfl

/-- An action does to the callback of a market what it settles for its pair. -/
theorem marketCallback?_act (s : Subscriptions) (e : Action) (a b : AssetId) :
    (s.act e).marketCallback? (.of a b) = (e.settles? s(a, b)).getD (s.marketCallback? (.of a b)) := by
  by_cases hm : e.isOfMarkets = false
  · rw [settles?_of_not hm, marketCallback?, markets_act_of_not hm]
    rfl
  cases e with
  | subscribeMarket callback c d =>
    rw [act_subscribeMarket]
    by_cases hcd : c = d
    · simp [hcd, Action.settles?]
    · rw [if_neg hcd, marketCallback?, SortedMap.get?_insert]
      exact at_market hcd
  | unsubscribeMarket c d =>
    rw [act_unsubscribeMarket]
    by_cases hcd : c = d
    · simp [hcd, Action.settles?]
    · rw [if_neg hcd, marketCallback?, SortedMap.get?_erase]
      exact at_market hcd
  | cancel | tearDown => rfl
  | install | uninstall | setPending | setBlock | arm | follow => exact absurd rfl hm

/-- Each key is the market of two different assets. -/
def Canonical (s : Subscriptions) : Prop := ∀ m ∈ s.markets.keys, ∃ a b, a ≠ b ∧ m = .of a b

section

variable {s : Subscriptions} {m : Market} {callback : Callback}

theorem Canonical.of_callback (h : Canonical s) (hm : s.marketCallback? m = some callback) :
    ∃ a b, a ≠ b ∧ m = .of a b := by
  refine h m ?_
  rw [← SortedMap.contains_iff_mem_keys, SortedMap.contains]
  exact Option.isSome_iff_exists.mpr ⟨callback, hm⟩

theorem Canonical.ordered (h : Canonical s) (hm : s.marketCallback? m = some callback) :
    m.base.number < m.quote.number := by
  obtain ⟨a, b, hab, rfl⟩ := h.of_callback hm
  exact Market.of_ordered hab

/-- Nobody asks for the market of an asset with itself. -/
theorem Canonical.no_callback_of_same (h : Canonical s) (a : AssetId) : s.marketCallback? (.of a a) = none := by
  cases hm : s.marketCallback? (.of a a) with
  | none => rfl
  | some callback =>
    obtain ⟨c, d, hcd, hof⟩ := h.of_callback hm
    rcases Sym2.eq_iff.mp (Market.of_eq_iff.mp hof) with ⟨rfl, rfl⟩ | ⟨rfl, rfl⟩ <;> contradiction

end

theorem canonical_act {s : Subscriptions} (h : Canonical s) (e : Action) : Canonical (s.act e) := by
  by_cases hm : e.isOfMarkets = false
  · rw [Canonical, markets_act_of_not hm]
    exact h
  intro m
  rw [← SortedMap.contains_iff_mem_keys]
  cases e with
  | subscribeMarket callback c d =>
    rw [act_subscribeMarket]
    by_cases hcd : c = d
    · rw [if_pos hcd, SortedMap.contains_iff_mem_keys]
      exact h m
    · rw [if_neg hcd, SortedMap.contains_insert, SortedMap.contains_iff_mem_keys]
      rintro (rfl | hin)
      · exact ⟨c, d, hcd, rfl⟩
      · exact h m hin
  | unsubscribeMarket c d =>
    rw [act_unsubscribeMarket]
    by_cases hcd : c = d
    · rw [if_pos hcd, SortedMap.contains_iff_mem_keys]
      exact h m
    · rw [if_neg hcd, SortedMap.contains_erase, SortedMap.contains_iff_mem_keys]
      exact fun hin => h m hin.2
  | cancel | tearDown => nofun
  | install | uninstall | setPending | setBlock | arm | follow => exact absurd rfl hm

/-! ## All actions -/

section

variable (settings : Settings)

theorem marketCallback?_after (acts : List Action) (a b : AssetId) :
    ((new settings).after acts).marketCallback? (.of a b) = marketSince s(a, b) acts := by
  induction acts using List.reverseRecOn with
  | nil => rfl
  | append_singleton acts e ih => rw [after_snoc, marketCallback?_act, marketSince_snoc, ih]

theorem canonical_after (acts : List Action) : Canonical ((new settings).after acts) := by
  induction acts using List.reverseRecOn with
  | nil => nofun
  | append_singleton acts e ih =>
    rw [after_snoc]
    exact canonical_act ih e

/-- Market subscriptions are a map over unordered pairs of distinct assets: for each pair it has what the last
action that settled the pair left. -/
theorem markets_refine (acts : List Action) :
    let s := (new settings).after acts
    (∀ a b, s.marketCallback? (.of a b) = marketSince s(a, b) acts) ∧
      (∀ m ∈ s.markets.keys, m.base.number < m.quote.number) ∧
      (∀ callback a,
        s.subscribeMarket callback a a = .error (.sameAssetMarket a) ∧ s.act (.subscribeMarket callback a a) = s ∧
        s.unsubscribeMarket a a = .error (.sameAssetMarket a) ∧ s.act (.unsubscribeMarket a a) = s) ∧
      (∀ callback a b, a ≠ b →
        s.subscribeMarket callback a b = .ok (.of a b, s.act (.subscribeMarket callback a b)) ∧
        s.unsubscribeMarket a b = .ok ((s.marketCallback? (.of a b)).isSome, s.act (.unsubscribeMarket a b))) ∧
      ∀ e : Action, e.isOfMarkets = false → (s.act e).markets = s.markets := by
  intro s
  refine ⟨marketCallback?_after settings acts, fun m hm => ?_, fun callback a => ?_, fun callback a b hab => ?_,
    fun e => markets_act_of_not⟩
  · obtain ⟨a, b, hab, rfl⟩ := canonical_after settings acts m hm
    exact Market.of_ordered hab
  · refine ⟨subscribeMarket_same s callback a, ?_, unsubscribeMarket_same s a, ?_⟩
    · rw [act_subscribeMarket, if_pos rfl]
    · rw [act_unsubscribeMarket, if_pos rfl]
  · rw [act_subscribeMarket, if_neg hab, act_unsubscribeMarket, if_neg hab]
    exact ⟨subscribeMarket_of_ne s callback hab, unsubscribeMarket_of_ne s hab⟩

end

/-- Two markets, one of them replaced in the other order and the other given up in the other order. -/
def someMarkets : List Action :=
  [.subscribeMarket ⟨"a", none⟩ ⟨5⟩ ⟨0⟩, .subscribeMarket ⟨"b", none⟩ ⟨1⟩ ⟨2⟩, .install none false,
    .subscribeMarket ⟨"c", none⟩ ⟨0⟩ ⟨5⟩, .unsubscribeMarket ⟨2⟩ ⟨1⟩, .subscribeMarket ⟨"d", none⟩ ⟨3⟩ ⟨3⟩]

theorem markets_refine_of_two :
    let s := (new .standard).after someMarkets
    s.marketCallback? (.of ⟨5⟩ ⟨0⟩) = some ⟨"c", none⟩ ∧ s.marketCallback? (.of ⟨1⟩ ⟨2⟩) = none ∧
      (⟨5⟩ : AssetId) ≠ ⟨0⟩ ∧
      s.unsubscribeMarket ⟨5⟩ ⟨0⟩ = .ok ((s.marketCallback? (.of ⟨5⟩ ⟨0⟩)).isSome, s.act (.unsubscribeMarket ⟨5⟩ ⟨0⟩)) ∧
      Action.uninstall.isOfMarkets = false ∧ (s.act .uninstall).markets = s.markets := by
  obtain ⟨hcallback, -, -, hdistinct, hother⟩ := markets_refine .standard someMarkets
  exact ⟨hcallback ⟨5⟩ ⟨0⟩, hcallback ⟨1⟩ ⟨2⟩, by decide, (hdistinct ⟨"e", none⟩ ⟨5⟩ ⟨0⟩ (by decide)).2, rfl,
    hother .uninstall rfl⟩

end Subscriptions

end LedgerWatch
