/-
  LedgerWatch.Proofs.Market.Ordered — which markets have their lower asset first.

  A market is made of two assets, taken from an order or a fill, or read from a document
  (`Market.Origin`). All of these but the last go through `Market.of`, so they give one
  value for two assets, in whichever order. Reading takes the two fields as they stand:
  from a document that names the higher asset first comes a second value of the same two
  assets, which is after the first one and under which no callback is ever kept.

  - `Json.fields?_two_iff`, `Market.ofJson?_eq_some_iff`: the documents a market is read from.
  - `Market.Origin.isBackwards_iff`: a market is out of order exactly when it was read from
    a document that names the higher asset first.
  - `Market.eq_or_swapped`: there are at most two markets of two assets.
  - `Market.ordered_unless_read_backwards`: so these documents are the only exception to
    markets of the same assets being the same.
-/

import LedgerWatch.MarketQueues
import LedgerWatch.Proofs.Subscriptions.Markets

namespace LedgerWatch

/-! ## Documents of two fields -/

namespace Json

/-- A document has two fields: under their names in an object that has each of them once, or as the
items of an array. -/
inductive HasTwo (name name' : String) : Json → Json → Json → Prop where
  | object {entries : List (String × Json)} {x y : Json} (h : entries.filter (·.1 = name) = [(name, x)])
      (h' : entries.filter (·.1 = name') = [(name', y)]) : HasTwo name name' (.obj entries) x y
  | array {x y : Json} : HasTwo name name' (.arr [x, y]) x y

variable {name name' : String} {j x : Json}

theorem only?_eq_some_iff {entries : List (String × Json)} :
    only? name entries = some x ↔ entries.filter (·.1 = name) = [(name, x)] := by
  unfold only?
  constructor
  · intro h
    split at h
    · next k j hfilter =>
      have hk : (k, j) ∈ entries.filter (·.1 = name) := hfilter ▸ List.mem_cons_self
      obtain rfl : k = name := of_decide_eq_true (List.mem_filter.mp hk).2
      rw [hfilter, Option.some.inj h]
    · cases h
  · intro h
    rw [h]

theorem fields?_two_iff {fields : List Json} :
    j.fields? [name, name'] = some fields ↔ ∃ x y, fields = [x, y] ∧ HasTwo name name' j x y := by
  constructor
  · intro h
    cases j with
    | obj entries =>
      simp only [fields?, List.mapM_cons, List.mapM_nil, Option.bind_eq_bind, Option.pure_def, Option.bind_some,
        Option.bind_eq_some_iff, Option.some.injEq] at h
      obtain ⟨x, hx, _, ⟨y, hy, rfl⟩, rfl⟩ := h
      exact ⟨x, y, rfl, .object (only?_eq_some_iff.mp hx) (only?_eq_some_iff.mp hy)⟩
    | arr items =>
      simp only [fields?, Option.ite_none_right_eq_some, Option.some.injEq] at h
      obtain ⟨hlength, rfl⟩ := h
      obtain ⟨x, y, rfl⟩ := List.length_eq_two.mp hlength
      exact ⟨x, y, rfl, .array⟩
    | null | bool | int | real | str | garbled => cases h
  · rintro ⟨x, y, rfl, ⟨hx, hy⟩ | -⟩
    · simp [fields?, only?_eq_some_iff.mpr hx, only?_eq_some_iff.mpr hy]
    · rfl

end Json

/-- What has a text is read from a string, and from nothing else. -/
theorem Wire.ofText_eq_some_iff {α ε : Type} {text : α → String} {parse : String → Except ε α} {src : Source}
    {j : Json} {a : α} : (Wire.ofText text parse).ofJson? src j = some a ↔ ∃ s, j = .str s ∧ parse s = .ok a := by
  have htext : ∀ s, (parse s).toOption = some a ↔ parse s = .ok a := by
    intro s
    cases parse s <;> simp [Except.toOption]
  constructor
  · intro h
    cases j with
    | str s => exact ⟨s, rfl, (htext s).mp h⟩
    | null | bool | int | real | arr | obj | garbled => cases h
  · rintro ⟨s, rfl, h⟩
    exact (htext s).mpr h

namespace Market

/-- A market is read from a document of two asset ids, and they are taken as they stand. -/
theorem ofJson?_eq_some_iff {src : Source} {j : Json} {m : Market} :
    (ofJson? src j : Option Market) = some m ↔
      ∃ s t, j.HasTwo "base" "quote" (.str s) (.str t) ∧ AssetId.parse s = .ok m.base ∧
        AssetId.parse t = .ok m.quote := by
  constructor
  · intro h
    obtain ⟨fields, hfields, h⟩ := Option.bind_eq_some_iff.mp h
    obtain ⟨x, y, rfl, hj⟩ := Json.fields?_two_iff.mp hfields
    obtain ⟨base, hbase, h⟩ := Option.bind_eq_some_iff.mp h
    obtain ⟨quote, hquote, h⟩ := Option.bind_eq_some_iff.mp h
    obtain rfl := Option.some.inj h
    obtain ⟨s, rfl, hs⟩ := Wire.ofText_eq_some_iff.mp hbase
    obtain ⟨t, rfl, ht⟩ := Wire.ofText_eq_some_iff.mp hquote
    exact ⟨s, t, hj, hs, ht⟩
  · rintro ⟨s, t, hj, hs, ht⟩
    have hbase : (ofJson? src (.str s) : Option AssetId) = some m.base := Wire.ofText_eq_some_iff.mpr ⟨s, rfl, hs⟩
    have hquote : (ofJson? src (.str t) : Option AssetId) = some m.quote := Wire.ofText_eq_some_iff.mpr ⟨t, rfl, ht⟩
    refine Option.bind_eq_some_iff.mpr ⟨_, Json.fields?_two_iff.mpr ⟨_, _, rfl, hj⟩, ?_⟩
    simp only [hbase, hquote, Option.bind_eq_bind, Option.bind_some, Option.pure_def]

/-! ## Two markets of the same assets -/

/-- The assets of a market, in no order. -/
def assets (m : Market) : Sym2 AssetId := s(m.base, m.quote)

variable {m m' : Market}

theorem of_le (a b : AssetId) : (Market.of a b).base.number ≤ (Market.of a b).quote.number := by
  rcases of_cases a b with ⟨hle, h⟩ | ⟨hlt, h⟩ <;> rw [h]
  · exact hle
  · exact UInt64.le_of_lt hlt

theorem of_base_quote (h : m.base.number ≤ m.quote.number) : Market.of m.base m.quote = m := if_pos h

theorem eq_or_swapped (h : m.assets = m'.assets) : m = m' ∨ m' = ⟨m.quote, m.base⟩ := by
  obtain ⟨a, b⟩ := m
  obtain ⟨c, d⟩ := m'
  rcases Sym2.eq_iff.mp h with ⟨rfl, rfl⟩ | ⟨rfl, rfl⟩
  · exact .inl rfl
  · exact .inr rfl

theorem rank_lt_of_precedes (h : m.Precedes m') : rank m < rank m' := by
  have hquote := m.quote.number.toNat_lt; have hquote' := m'.quote.number.toNat_lt
  simp only [Precedes, UInt64.lt_iff_toNat_lt, ← UInt64.toNat_inj] at h
  simp only [rank, UInt64.size]
  omega

/-- One of two markets of the same assets is in order and the other is not, or they are the same. -/
theorem eq_iff_of_assets (h : m.assets = m'.assets) :
    m = m' ↔ (m.quote.number < m.base.number ↔ m'.quote.number < m'.base.number) := by
  rcases eq_or_swapped h with rfl | rfl
  · exact iff_of_true rfl Iff.rfl
  · obtain ⟨⟨a⟩, ⟨b⟩⟩ := m
    simp only [Market.mk.injEq, AssetId.mk.injEq, UInt64.lt_iff_toNat_lt, ← UInt64.toNat_inj]
    omega

/-- The one in order is the first. -/
theorem rank_lt_of_assets (h : m.assets = m'.assets) (hm : ¬m.quote.number < m.base.number)
    (hm' : m'.quote.number < m'.base.number) : rank m < rank m' := by
  rcases eq_or_swapped h with rfl | rfl
  · exact absurd hm' hm
  · exact rank_lt_of_precedes (.inl hm')

/-! ## Where a market comes from -/

/-- The ways of getting a market. -/
inductive Origin where
  | of (a b : AssetId)
  | between (a b : AssetId)
  | order (r : Record)
  | fill (op : Operation)
  | document (src : Source) (j : Json)

namespace Origin

def market? : Origin → Option Market
  | .of a b => some (.of a b)
  | .between a b => (Market.between a b).toOption
  | .order r => r.market?
  | .fill op => op.fillMarket?
  | .document src j => ofJson? src j

/-- It is a document that names the higher asset first. -/
def IsBackwards : Origin → Prop
  | .document _ j =>
    ∃ s t a b, j.HasTwo "base" "quote" (.str s) (.str t) ∧ AssetId.parse s = .ok a ∧ AssetId.parse t = .ok b ∧
      b.number < a.number
  | .of .. | .between .. | .order _ | .fill _ => False

theorem document_isBackwards_iff {src : Source} {j : Json} (h : (ofJson? src j : Option Market) = some m) :
    (document src j).IsBackwards ↔ m.quote.number < m.base.number := by
  constructor
  · rintro ⟨s, t, a, b, hj, hs, ht, hlt⟩
    have h' : (ofJson? src j : Option Market) = some ⟨a, b⟩ := ofJson?_eq_some_iff.mpr ⟨s, t, hj, hs, ht⟩
    obtain rfl := Option.some.inj (h.symm.trans h')
    exact hlt
  · intro hlt
    obtain ⟨s, t, hj, hs, ht⟩ := ofJson?_eq_some_iff.mp h
    exact ⟨s, t, m.base, m.quote, hj, hs, ht, hlt⟩

/-- What is not read is made by `Market.of`. -/
theorem exists_of_market? {o : Origin} (h : o.market? = some m) :
    (∃ src j, o = document src j) ∨ ¬o.IsBackwards ∧ ∃ a b, m = Market.of a b := by
  cases o with
  | of a b => exact .inr ⟨id, a, b, (Option.some.inj h).symm⟩
  | between a b =>
    refine .inr ⟨id, a, b, ?_⟩
    by_cases hab : a = b
    · subst hab
      rw [market?, between_same] at h
      cases h
    · rw [market?, between_of_ne hab] at h
      exact (Option.some.inj h).symm
  | order r =>
    cases r with
    | limitOrder o => exact .inr ⟨id, _, _, (Option.some.inj h).symm⟩
    | callOrder o => exact .inr ⟨id, _, _, (Option.some.inj h).symm⟩
    | account | asset | accountBalance | addressBalance | operation | link => cases h
  | fill op =>
    cases op with
    | fillOrder => exact .inr ⟨id, _, _, (Option.some.inj h).symm⟩
    | transfer | limitOrderCreate | limitOrderCancel | callOrderUpdate => cases h
  | document src j => exact .inl ⟨src, j, rfl⟩

theorem isBackwards_iff {o : Origin} (h : o.market? = some m) : o.IsBackwards ↔ m.quote.number < m.base.number := by
  rcases exists_of_market? h with ⟨src, j, rfl⟩ | ⟨hnot, a, b, rfl⟩
  · exact document_isBackwards_iff h
  · exact iff_of_false hnot (UInt64.not_lt.mpr (of_le a b))

end Origin

/-! ## The callbacks kept for them -/

section

open Subscriptions (marketSince)

variable (settings : Settings) (acts : List Action)

theorem callback_of_in_order (h : m.base.number ≤ m.quote.number) :
    ((Subscriptions.new settings).after acts).marketCallback? m = marketSince m.assets acts := by
  have hof := Subscriptions.marketCallback?_after settings acts m.base m.quote
  rwa [of_base_quote h] at hof

theorem no_callback_of_backwards (h : m.quote.number < m.base.number) :
    ((Subscriptions.new settings).after acts).marketCallback? m = none := by
  cases hm : ((Subscriptions.new settings).after acts).marketCallback? m with
  | none => rfl
  | some callback => exact absurd ((Subscriptions.canonical_after settings acts).ordered hm) (UInt64.lt_asymm h)

/-- Every market is in order, but for those read from a document that names the higher asset first. Of the others
those of the same assets are the same, and their callback is the one that was left for the two assets; the backwards
one is another market, after theirs, and has no callback. -/
theorem ordered_unless_read_backwards {o : Origin} (h : o.market? = some m) :
    let s := (Subscriptions.new settings).after acts
    (m.base.number ≤ m.quote.number ↔ ¬o.IsBackwards) ∧
      (¬o.IsBackwards → s.marketCallback? m = marketSince m.assets acts) ∧
      (o.IsBackwards → s.marketCallback? m = none) ∧
      ∀ (o' : Origin) (m' : Market), o'.market? = some m' → m.assets = m'.assets →
        (m = m' ↔ (o.IsBackwards ↔ o'.IsBackwards)) ∧ (¬o.IsBackwards → o'.IsBackwards → rank m < rank m') := by
  intro s
  rw [Origin.isBackwards_iff h, UInt64.not_lt]
  refine ⟨Iff.rfl, callback_of_in_order settings acts, no_callback_of_backwards settings acts,
    fun o' m' h' hassets => ?_⟩
  rw [Origin.isBackwards_iff h', ← UInt64.not_lt]
  exact ⟨eq_iff_of_assets hassets, rank_lt_of_assets hassets⟩

end

/-- The same two assets from two callers and from a document. -/
theorem ordered_unless_read_backwards_of_five_and_zero :
    let s := (Subscriptions.new .standard).after Subscriptions.someMarkets
    let made := Origin.of ⟨5⟩ ⟨0⟩
    let read := Origin.document .value (.arr [.str "1.3.+5", .str "1.3.00"])
    made.market? = some ⟨⟨0⟩, ⟨5⟩⟩ ∧ read.market? = some ⟨⟨5⟩, ⟨0⟩⟩ ∧ ¬made.IsBackwards ∧ read.IsBackwards ∧
      s.marketCallback? ⟨⟨0⟩, ⟨5⟩⟩ = some ⟨"c", none⟩ ∧ s.marketCallback? ⟨⟨5⟩, ⟨0⟩⟩ = none ∧
      rank (⟨⟨0⟩, ⟨5⟩⟩ : Market) < rank (⟨⟨5⟩, ⟨0⟩⟩ : Market) := by
  intro s made read
  have hmade : made.market? = some ⟨⟨0⟩, ⟨5⟩⟩ := rfl
  have hread : read.market? = some ⟨⟨5⟩, ⟨0⟩⟩ := rfl
  have hback : read.IsBackwards := ⟨"1.3.+5", "1.3.00", ⟨5⟩, ⟨0⟩, .array, rfl, rfl, by decide⟩
  obtain ⟨horder, hfound, -, hsame⟩ := ordered_unless_read_backwards .standard Subscriptions.someMarkets hmade
  obtain ⟨-, -, hnone, -⟩ := ordered_unless_read_backwards .standard Subscriptions.someMarkets hread
  have hnot : ¬made.IsBackwards := horder.mp (by decide)
  exact ⟨hmade, hread, hnot, hback, hfound hnot, hnone hback, (hsame read _ hread Sym2.eq_swap).2 hnot hback⟩

/-- An object that names the higher asset first is read as a market out of order: not the market of its assets, and
without the callback that was left for them. -/
theorem out_of_order_when_read :
    ∃ m : Market,
      ofJson? .text (.obj [("base", .str "1.3.5"), ("quote", .str "1.3.0")]) = some m ∧
      ¬m.base.number ≤ m.quote.number ∧
      m.assets = (Market.of ⟨5⟩ ⟨0⟩).assets ∧ m ≠ .of ⟨5⟩ ⟨0⟩ ∧ rank m ≠ rank (Market.of ⟨5⟩ ⟨0⟩) ∧
      let s := (Subscriptions.new .standard).after [.subscribeMarket ⟨"a", none⟩ ⟨5⟩ ⟨0⟩]
      s.marketCallback? (.of ⟨5⟩ ⟨0⟩) = some ⟨"a", none⟩ ∧ s.marketCallback? m = none :=
  have hother : (⟨⟨5⟩, ⟨0⟩⟩ : Market) ≠ .of ⟨5⟩ ⟨0⟩ := by decide
  ⟨⟨⟨5⟩, ⟨0⟩⟩, rfl, by decide, Sym2.eq_swap, hother, fun h => hother (Ranked.rank_inj h),
    callback_of_in_order .standard _ (by decide), no_callback_of_backwards .standard _ (by decide)⟩

end Market

end LedgerWatch
