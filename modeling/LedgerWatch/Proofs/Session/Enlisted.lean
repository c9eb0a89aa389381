/-
  LedgerWatch.Proofs.Session.Enlisted — what a query leaves behind.

  A query arms items, one after the other, and a query for full accounts has accounts
  followed as well. A session with items armed and accounts followed, and with nothing
  else changed, is `enlisted`; every query leaves its session like this (`serve_query`),
  with the items it `arms` and the accounts it `enlists`.

  Which accounts are followed depends on the cap, and on who is followed already: of the
  accounts asked for that are new the first ones, each once, for which there is room
  (`newcomers`). An account asked for is armed as often as it is asked for, if it is one
  of these or was followed before (`foldl_track`).
-/

import LedgerWatch.Proofs.Session.Turns

namespace LedgerWatch

/-- A filter with items put into it one after the other. -/
def BloomFilter.insertAll (f : BloomFilter) (items : List Watchable) : BloomFilter :=
  items.foldl (fun f item => f.insert item.bytes) f

theorem BloomFilter.inserted_insertAll (f : BloomFilter) (items : List Watchable) :
    (f.insertAll items).inserted = f.inserted + items.length := by
  induction items generalizing f with
  | nil => rfl
  | cons item items ih =>
    show ((f.insert item.bytes).insertAll items).inserted = _
    rw [ih, List.length_cons, Nat.add_comm items.length 1, ← Nat.add_assoc]
    rfl

theorem BloomFilter.contains_insertAll {f : BloomFilter} {items : List Watchable} {item : Watchable}
    (h : item ∈ items ∨ f.contains item.bytes = true) : (f.insertAll items).contains item.bytes = true := by
  induction items generalizing f with
  | nil => exact h.resolve_left List.not_mem_nil
  | cons first items ih =>
    refine ih (f := f.insert first.bytes) ?_
    rcases h with h | h
    · rcases List.mem_cons.mp h with rfl | h
      · exact .inr (contains_insert_self _ _)
      · exact .inl h
    · exact .inr (contains_insert_of_contains h _)

namespace Subscriptions

/-- With items armed one after the other and accounts followed, and nothing else changed. -/
def enlisted (s : Subscriptions) (items : List Watchable) (accounts : List AccountId) : Subscriptions :=
  { s with
    update := s.update.map fun u => { u with filter := u.filter.insertAll items }
    followed := accounts.foldl (fun followed a => followed.insert a ()) s.followed }

@[simp] theorem enlisted_nothing (s : Subscriptions) : s.enlisted [] [] = s := by
  have hupdate : (s.update.map fun u => { u with filter := u.filter.insertAll [] }) = s.update := by
    cases s.update <;> rfl
  unfold enlisted
  rw [hupdate]
  rfl

@[simp] theorem enlisted_enlisted (s : Subscriptions) (items items' : List Watchable) (accounts accounts' : List AccountId) :
    (s.enlisted items accounts).enlisted items' accounts' = s.enlisted (items ++ items') (accounts ++ accounts') := by
  unfold enlisted
  simp only [Option.map_map, List.foldl_append]
  congr 2
  funext u
  simp only [Function.comp_apply, BloomFilter.insertAll, List.foldl_append]

theorem arm_eq_enlisted (s : Subscriptions) (item : Watchable) : (s.arm item).2 = s.enlisted [item] [] := by
  rw [arm_snd]
  rfl

theorem armAll_eq_enlisted (s : Subscriptions) (items : List Watchable) : s.armAll items = s.enlisted items [] := by
  induction items generalizing s with
  | nil => exact (enlisted_nothing s).symm
  | cons item items ih =>
    show (s.arm item).2.armAll items = _
    rw [ih, arm_eq_enlisted, enlisted_enlisted]
    rfl

/-! ## What it comes to -/

/-- How many items are armed: none without a callback. -/
def counted (s : Subscriptions) (items : List Watchable) : Nat := if s.isSubscribed then items.length else 0

theorem armed_enlisted (s : Subscriptions) (items : List Watchable) (accounts : List AccountId) :
    (s.enlisted items accounts).armed = s.armed + s.counted items := by
  unfold armed counted isSubscribed enlisted
  cases s.update with
  | none => rfl
  | some u => exact BloomFilter.inserted_insertAll u.filter items

@[simp] theorem isSubscribed_enlisted (s : Subscriptions) (items : List Watchable) (accounts : List AccountId) :
    (s.enlisted items accounts).isSubscribed = s.isSubscribed := by
  unfold isSubscribed enlisted
  cases s.update <;> rfl

theorem watches_enlisted {s : Subscriptions} (hs : s.isSubscribed = true) {items : List Watchable} {item : Watchable}
    (h : item ∈ items ∨ s.watches item = true) (accounts : List AccountId) :
    (s.enlisted items accounts).watches item = true := by
  obtain ⟨u, hu⟩ := Option.isSome_iff_exists.mp hs
  unfold watches at h ⊢
  unfold enlisted
  rw [hu] at h ⊢
  exact BloomFilter.contains_insertAll h

theorem contains_enlisted (s : Subscriptions) (items : List Watchable) (accounts : List AccountId) (a : AccountId) :
    (s.enlisted items accounts).followed.contains a = true ↔ s.followed.contains a = true ∨ a ∈ accounts := by
  show (accounts.foldl (fun followed a => followed.insert a ()) s.followed).contains a = true ↔ _
  generalize s.followed = followed
  induction accounts generalizing followed with
  | nil => simp
  | cons first accounts ih =>
    rw [List.foldl_cons, ih, SortedMap.contains_insert, List.mem_cons, eq_comm (a := first)]
    tauto

theorem size_enlisted {s : Subscriptions} {accounts : List AccountId} (hnew : ∀ a ∈ accounts, s.followed.contains a = false)
    (hdistinct : accounts.Nodup) (items : List Watchable) :
    (s.enlisted items accounts).followed.size = s.followed.size + accounts.length := by
  show (accounts.foldl (fun followed a => followed.insert a ()) s.followed).size = _
  generalize s.followed = followed at hnew ⊢
  induction accounts generalizing followed with
  | nil => rfl
  | cons a accounts ih =>
    obtain ⟨ha, hrest⟩ := List.nodup_cons.mp hdistinct
    have hnew' : ∀ c ∈ accounts, (followed.insert a ()).contains c = false := by
      intro c hc
      rw [Bool.eq_false_iff, ne_eq, SortedMap.contains_insert, not_or]
      refine ⟨fun hac => ha (hac ▸ hc), ?_⟩
      rw [hnew c (List.mem_cons_of_mem a hc)]
      exact Bool.false_ne_true
    rw [List.foldl_cons, ih hrest _ hnew', SortedMap.size_insert () (hnew a List.mem_cons_self), List.length_cons]
    omega

/-! ## Following within the cap -/

/-- Of the accounts asked for those that are new and there is room for: the first ones, each once. -/
def newcomers (s : Subscriptions) (asked : List AccountId) : List AccountId :=
  firstUpTo (s.settings.maxFollowed - s.followed.size) (asked.filter (!s.followed.contains ·))

/-- Whether an account is followed once these have been asked for. -/
def admits (s : Subscriptions) (asked : List AccountId) (a : AccountId) : Bool :=
  s.followed.contains a || decide (a ∈ s.newcomers asked)

theorem admits_iff (s : Subscriptions) (asked : List AccountId) (a : AccountId) (items : List Watchable) :
    s.admits asked a = true ↔ (s.enlisted items (s.newcomers asked)).followed.contains a = true := by
  rw [contains_enlisted, admits, Bool.or_eq_true, decide_eq_true_eq]

theorem mem_newcomers {s : Subscriptions} {asked : List AccountId} {a : AccountId} (h : a ∈ s.newcomers asked) :
    a ∈ asked ∧ s.followed.contains a = false := by
  have hasked := List.mem_filter.mp (List.mem_eraseDups.mp (List.mem_of_mem_take h))
  exact ⟨hasked.1, by simpa using hasked.2⟩

theorem nodup_eraseDups (accounts : List AccountId) : accounts.eraseDups.Nodup := by
  induction accounts using List.reverseRecOn with
  | nil => exact List.nodup_nil
  | append_singleton accounts a ih =>
    rw [eraseDups_snoc]
    split
    · exact ih
    · rename_i hnew
      refine List.nodup_append.mpr ⟨ih, List.pairwise_singleton _ _, ?_⟩
      rintro b hb c hc rfl
      rw [List.mem_singleton.mp hc] at hb
      exact hnew (List.mem_eraseDups.mp hb)

theorem nodup_newcomers (s : Subscriptions) (asked : List AccountId) : (s.newcomers asked).Nodup :=
  (List.take_sublist _ _).nodup (nodup_eraseDups _)

theorem length_newcomers_le (s : Subscriptions) (asked : List AccountId) :
    (s.newcomers asked).length ≤ s.settings.maxFollowed - s.followed.size :=
  List.length_take_le _ _

theorem newcomers_followed {s : Subscriptions} {a : AccountId} (h : s.followed.contains a = true) (asked : List AccountId) :
    s.newcomers (a :: asked) = s.newcomers asked := by
  unfold newcomers
  rw [List.filter_cons_of_neg (by simp [h])]

theorem newcomers_full {s : Subscriptions} (h : s.settings.maxFollowed ≤ s.followed.size) (asked : List AccountId) :
    s.newcomers asked = [] := by
  unfold newcomers firstUpTo
  rw [Nat.sub_eq_zero_of_le h, List.take_zero]

/-- A new account for which there is room comes first, and the others are new to a session that follows it. -/
theorem newcomers_new {s : Subscriptions} {a : AccountId} (hnew : s.followed.contains a = false)
    (hroom : s.followed.size < s.settings.maxFollowed) (asked : List AccountId) (items : List Watchable) :
    s.newcomers (a :: asked) = a :: (s.enlisted items [a]).newcomers asked := by
  have hothers : (asked.filter (!(s.followed.insert a ()).contains ·)) =
      (asked.filter (!s.followed.contains ·)).filter fun c => !(c == a) := by
    rw [List.filter_filter]
    refine List.filter_congr ?_
    intro c _
    rw [Bool.eq_iff_iff]
    simp only [Bool.not_eq_true', ← Bool.not_eq_true, SortedMap.contains_insert, not_or, Bool.and_eq_true, beq_iff_eq,
      eq_comm (a := a)]
  have hleft : s.settings.maxFollowed - s.followed.size = s.settings.maxFollowed - (s.followed.size + 1) + 1 := by omega
  show firstUpTo _ _ = a :: firstUpTo (s.settings.maxFollowed - (s.followed.insert a ()).size) _
  rw [firstUpTo, List.filter_cons_of_pos (by simp [hnew]), List.eraseDups_cons, hleft, List.take_succ_cons,
    SortedMap.size_insert () hnew]
  show _ = a :: firstUpTo _ (asked.filter (!(s.followed.insert a ()).contains ·))
  rw [hothers, firstUpTo]

theorem track_followed {s : Subscriptions} {a : AccountId} (h : s.followed.contains a = true) :
    s.track a = s.enlisted [.account a] [] := by
  rw [← arm_eq_enlisted]
  unfold track follow
  rw [if_pos h]

theorem track_full {s : Subscriptions} {a : AccountId} (hnew : s.followed.contains a = false)
    (hfull : s.settings.maxFollowed ≤ s.followed.size) : s.track a = s := by
  unfold track follow
  rw [if_neg (by simp [hnew]), if_pos hfull]

theorem track_new {s : Subscriptions} {a : AccountId} (hnew : s.followed.contains a = false)
    (hroom : s.followed.size < s.settings.maxFollowed) : s.track a = s.enlisted [.account a] [a] := by
  unfold track follow
  rw [if_neg (by simp [hnew]), if_neg (Nat.not_le.mpr hroom)]
  exact arm_eq_enlisted _ _

/-- Accounts asked for are followed as far as the cap allows, and armed as often as they are asked for if they are. -/
theorem foldl_track (s : Subscriptions) (asked : List AccountId) :
    asked.foldl track s = s.enlisted ((asked.filter (s.admits asked)).map .account) (s.newcomers asked) := by
  induction asked generalizing s with
  | nil =>
    have hnone : s.newcomers [] = [] := by simp [newcomers, firstUpTo]
    rw [hnone]
    exact (enlisted_nothing s).symm
  | cons a asked ih =>
    rw [List.foldl_cons]
    cases hnew : s.followed.contains a with
    | true =>
      have hadmits : s.admits (a :: asked) = (s.enlisted [.account a] []).admits asked := by
        funext c
        unfold admits
        rw [newcomers_followed hnew]
        rfl
      rw [track_followed hnew, ih, enlisted_enlisted, List.nil_append, newcomers_followed hnew, hadmits,
        List.filter_cons_of_pos (by rw [← hadmits, admits, hnew, Bool.true_or])]
      rfl
    | false =>
      by_cases hroom : s.followed.size < s.settings.maxFollowed
      · have hnewcomers := newcomers_new hnew hroom asked [.account a]
        have hadmits : s.admits (a :: asked) = (s.enlisted [.account a] [a]).admits asked := by
          funext c
          rw [Bool.eq_iff_iff]
          simp only [admits, hnewcomers, Bool.or_eq_true, decide_eq_true_eq, contains_enlisted, List.mem_cons,
            List.not_mem_nil, or_false, or_assoc]
        have ha : s.admits (a :: asked) a = true := by
          simp [admits, hnewcomers]
        rw [track_new hnew hroom, ih, enlisted_enlisted, List.filter_cons_of_pos ha, ← hadmits, hnewcomers]
        rfl
      · -- turned away, and there is no room for any other
        have hfull := Nat.not_lt.mp hroom
        have hadmits : s.admits (a :: asked) = s.admits asked := by
          funext c
          unfold admits
          rw [newcomers_full hfull, newcomers_full hfull]
        have ha : ¬s.admits (a :: asked) a = true := by
          simp [admits, hnew, newcomers_full hfull]
        rw [track_full hnew hfull, ih, List.filter_cons_of_neg ha, hadmits, newcomers_full hfull, newcomers_full hfull]

end Subscriptions

/-! ## What queries arm -/

theorem ObjectId.kind_unique {id : ObjectId} {k k' : Kind} (h : id.is k = true) (h' : id.is k' = true) : k = k' := by
  simp only [ObjectId.is, Bool.and_eq_true, decide_eq_true_eq] at h h'
  obtain ⟨hspace, htype⟩ := h
  rw [hspace, htype] at h'
  revert h'
  cases k <;> cases k' <;> decide

theorem ObjectId.kind?_eq_some_iff (id : ObjectId) (k : Kind) : id.kind? = some k ↔ id.is k = true := by
  unfold ObjectId.kind?
  constructor
  · exact List.find?_some
  · intro h
    have hall : k ∈ Kind.all := by cases k <;> decide
    obtain ⟨k', hk'⟩ := Option.isSome_iff_exists.mp (List.find?_isSome.mpr ⟨k, hall, h⟩)
    rw [hk', ObjectId.kind_unique h (List.find?_some hk')]

/-- The sort of the record an id has in the ledger. -/
def Ledger.sort? (l : Ledger) (id : ObjectId) : Option Kind := (l.find? id).map Record.sort

theorem Ledger.account?_isSome (l : Ledger) (id : AccountId) :
    (l.account? id).isSome = decide (l.sort? id.objectId = some .account) := by
  unfold account? sort?
  cases l.find? id.objectId with
  | none => rfl
  | some r => cases r <;> rfl

theorem Ledger.asset?_isSome (l : Ledger) (id : AssetId) :
    (l.asset? id).isSome = decide (l.sort? id.objectId = some .asset) := by
  unfold asset? sort?
  cases l.find? id.objectId with
  | none => rfl
  | some r => cases r <;> rfl

/-- The accounts an answer refers keys to, as often as it does. -/
def Reply.referenced : Reply → List AccountId
  | .references found => found.flatten
  | .done | .refused _ | .objects _ | .accounts _ | .fullAccounts _ | .names _ | .assets _ | .balances _ => []

namespace Request

/-- A query asks what there is; all other requests change what the session is to be told. -/
def isQuery : Request → Bool
  | .getObjects _ | .getAccounts _ | .getFullAccounts _ _ | .lookupAccounts _ _ | .getAssets _ | .getKeyReferences _
  | .getBalances _ => true
  | .subscribe _ _ | .unsubscribeAll | .subscribePending _ | .subscribeBlocks _ | .subscribeMarket _ _ _
  | .unsubscribeMarket _ _ => false

/-- The items a query arms, in this order. -/
def arms (l : Ledger) (s : Subscriptions) (reply : Reply) : Request → List Watchable
  | .getObjects ids => (ids.filter fun id => id.kind? ≠ some .operation ∧ id.kind? ≠ some .accountHistory).map .object
  | .getAccounts ids => (ids.filter fun id => l.sort? id.objectId = some .account).map .account
  | .getFullAccounts keys true => ((l.resolved keys).filter (s.admits (l.resolved keys))).map .account
  | .getFullAccounts _ false => []
  | .lookupAccounts lower limit =>
    match l.accountsFrom lower limit with
    | [only] => if limit ≤ Subscriptions.maxLookup then [.account only.accountId] else []
    | _ => []
  | .getAssets ids => (ids.filter fun id => l.sort? id.objectId = some .asset).map .asset
  | .getKeyReferences keys => (keys.flatMap fun k => [.key k, .address k.address]) ++ reply.referenced.map .account
  | .getBalances addresses => addresses.map .address
  | .subscribe _ _ | .unsubscribeAll | .subscribePending _ | .subscribeBlocks _ | .subscribeMarket _ _ _
  | .unsubscribeMarket _ _ => []

/-- The accounts that are followed from a request on and were not before. -/
def enlists (l : Ledger) (s : Subscriptions) : Request → List AccountId
  | .getFullAccounts keys true => s.newcomers (l.resolved keys)
  | _ => []

end Request

namespace Subscriptions

theorem not_isHistory (id : ObjectId) :
    (!isHistory id) = decide (id.kind? ≠ some .operation ∧ id.kind? ≠ some .accountHistory) := by
  rw [Bool.eq_iff_iff, decide_eq_true_eq, ne_eq, ne_eq, ObjectId.kind?_eq_some_iff, ObjectId.kind?_eq_some_iff]
  simp [isHistory]

/-- A query arms its items and has its accounts followed, and leaves all else as it was. -/
theorem serve_query (l : Ledger) (s : Subscriptions) {r : Request} (h : r.isQuery = true) :
    (s.serve l r).2 = s.enlisted (r.arms l s (s.serve l r).1) (r.enlists l s) := by
  cases r with
  | getObjects ids =>
    show s.armAll _ = _
    simp only [armAll_eq_enlisted, not_isHistory]
    rfl
  | getAccounts ids =>
    show s.armAll _ = _
    simp only [armAll_eq_enlisted, Ledger.account?_isSome]
    rfl
  | getAssets ids =>
    show s.armAll _ = _
    simp only [armAll_eq_enlisted, Ledger.asset?_isSome]
    rfl
  | getKeyReferences keys | getBalances addresses => exact armAll_eq_enlisted _ _
  | getFullAccounts keys subscribe =>
    cases subscribe with
    | false => exact (enlisted_nothing s).symm
    | true =>
      simp only [serve, getFullAccounts, if_true, resolved_eq]
      exact foldl_track s _
  | lookupAccounts lower limit =>
    simp only [serve, lookupAccounts, Request.arms, Request.enlists]
    by_cases hlimit : limit ≤ maxLookup
    · simp only [if_neg (Nat.not_lt.mpr hlimit), if_pos hlimit]
      cases l.accountsFrom lower limit with
      | nil => exact (enlisted_nothing s).symm
      | cons only others =>
        cases others with
        | nil => exact arm_eq_enlisted s _
        | cons => exact (enlisted_nothing s).symm
    · simp only [if_pos (Nat.not_le.mp hlimit), if_neg hlimit]
      have hnothing : (match l.accountsFrom lower limit with | [_] => ([] : List Watchable) | _ => []) = [] := by
        split <;> rfl
      rw [hnothing]
      exact (enlisted_nothing s).symm
  | subscribe | unsubscribeAll | subscribePending | subscribeBlocks | subscribeMarket | unsubscribeMarket => contradiction

end Subscriptions

end LedgerWatch
