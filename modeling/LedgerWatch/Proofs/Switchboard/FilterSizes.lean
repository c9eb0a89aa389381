/-
  LedgerWatch.Proofs.Switchboard.FilterSizes — no session has a filter beyond the cap.

  A filter is made when a subscription is installed and is as large from then on, so the
  cap of the settings holds for every filter of every session. It does not matter how the
  sums of its size came out: `actBy` is an action with any arithmetic in place of the
  actual one (`actBy_binary64`), and each action of a session's past may have one of its
  own.
-/

import LedgerWatch.Proofs.Bloom.Cap
import LedgerWatch.Proofs.Switchboard.Markets

namespace LedgerWatch

namespace Subscriptions

/-- An action, with any filter it installs made by `ar`. -/
def actBy (s : Subscriptions) (ar : Arithmetic) (a : Action) : Subscriptions :=
  match a.installs? s.settings with
  | some (callback, _) => { s.act a with update := callback.map fun c => ⟨c, ar.filter s.settings.filter⟩ }
  | none => s.act a

/-- Actions one after the other, each with its arithmetic. -/
def afterBy (s : Subscriptions) (steps : List (Arithmetic × Action)) : Subscriptions :=
  steps.foldl (fun s (ar, a) => s.actBy ar a) s

theorem actBy_binary64 (s : Subscriptions) (a : Action) : s.actBy .binary64 a = s.act a := by
  unfold actBy
  split
  · rename_i callback notifyAll h
    rw [Arithmetic.filter_binary64, ← (act_installs h).1]
  · rfl

theorem afterBy_binary64 (s : Subscriptions) (acts : List Action) : s.afterBy (acts.map (.binary64, ·)) = s.after acts := by
  simp only [afterBy, after, List.foldl_map, actBy_binary64]

@[simp] theorem settings_actBy (s : Subscriptions) (ar : Arithmetic) (a : Action) : (s.actBy ar a).settings = s.settings := by
  unfold actBy
  split
  · exact settings_act s a
  · exact settings_act s a

/-- The filter, if there is one, keeps to the cap of the settings. -/
def Capped (s : Subscriptions) : Prop :=
  ∀ u, s.update = some u → u.filter.KeepsTo (max s.settings.filter.maxBits 1)

theorem capped_act {s : Subscriptions} (h : s.Capped) {a : Action} (ha : a.installs? s.settings = none) :
    (s.act a).Capped := by
  intro u hu
  rw [settings_act]
  rw [(act_keeps ha).1] at hu
  cases harmed : a.armed? with
  | none =>
    rw [harmed] at hu
    exact h u hu
  | some item =>
    simp only [harmed, arm_snd] at hu
    obtain ⟨v, hv, rfl⟩ := Option.map_eq_some_iff.mp hu
    exact (h v hv).insert item.bytes

theorem capped_actBy {s : Subscriptions} (h : s.Capped) (ar : Arithmetic) (a : Action) : (s.actBy ar a).Capped := by
  intro u hu
  rw [settings_actBy]
  cases hi : a.installs? s.settings with
  | none =>
    have hact : s.actBy ar a = s.act a := by simp only [actBy, hi]
    rw [hact] at hu
    rw [← settings_act s a]
    exact capped_act h hi u hu
  | some i =>
    have hupdate : (s.actBy ar a).update = i.1.map fun c => ⟨c, ar.filter s.settings.filter⟩ := by simp only [actBy, hi]
    rw [hupdate] at hu
    obtain ⟨c, -, rfl⟩ := Option.map_eq_some_iff.mp hu
    exact BloomFilter.keepsTo_filter ar s.settings.filter

theorem capped_afterBy {s : Subscriptions} (h : s.Capped) (steps : List (Arithmetic × Action)) :
    (s.afterBy steps).Capped := by
  induction steps generalizing s with
  | nil => exact h
  | cons step steps ih => exact ih (capped_actBy h step.1 step.2)

theorem settings_afterBy (s : Subscriptions) (steps : List (Arithmetic × Action)) :
    (s.afterBy steps).settings = s.settings := by
  induction steps generalizing s with
  | nil => rfl
  | cons step steps ih => exact (ih (s.actBy step.1 step.2)).trans (settings_actBy s step.1 step.2)

end Subscriptions

theorem Settings.one_le_maxBits {settings : Settings} (h : settings.check = .ok ()) : 1 ≤ settings.filter.maxBits := by
  refine Nat.one_le_iff_ne_zero.mpr fun hzero => ?_
  have hfault : ∃ e, settings.filter.check = .error e := by
    simp only [FilterSettings.check, hzero, if_true]
    split
    · exact ⟨_, rfl⟩
    · split <;> exact ⟨_, rfl⟩
  obtain ⟨e, he⟩ := hfault
  rw [check, he] at h
  contradiction

namespace Switchboard

open Subscriptions

/-- Whatever the sums in binary64 come to, sizes keep to the cap: those computed, those of a filter, and, under settings
that were checked, those of every filter a session has had, however often it subscribed and whatever it armed. -/
theorem size_cap_holds :
    (∀ (ar : Arithmetic) (n : Nat) (rate : Float) (maxBits : Nat),
      let z := ar.capped n rate maxBits
      z.sizeBits ≤ max maxBits 1 ∧ 1 ≤ z.hashCount ∧ z.hashCount ≤ 32) ∧
    (∀ (ar : Arithmetic) (s : FilterSettings), (ar.filter s).KeepsTo (max s.maxBits 1)) ∧
    (Arithmetic.binary64.capped = Bloom.capped ∧ Arithmetic.binary64.filter = BloomFilter.ofSettings) ∧
    ∀ settings : Settings, settings.check = .ok () →
      (∀ (steps : List (Arithmetic × Action)) (u : UpdateSubscription),
        ((new settings).afterBy steps).update = some u → u.filter.KeepsTo settings.filter.maxBits) ∧
      ∀ (hasRuntime : Bool) (b : Switchboard) (es : List Event) (id : Nat) (s : Subscriptions),
        Switchboard.start settings hasRuntime = .ok b → (b.run es).2.sessions.get? id = some s →
          (∃ acts : List Action, s = (new settings).afterBy (acts.map (.binary64, ·))) ∧
            ∀ u, s.update = some u → u.filter.KeepsTo settings.filter.maxBits := by
  refine ⟨Arithmetic.capped_bounds, BloomFilter.keepsTo_filter,
    ⟨Arithmetic.capped_binary64, Arithmetic.filter_binary64⟩, fun settings hcheck => ?_⟩
  have hcapped : ∀ (steps : List (Arithmetic × Action)) (u : UpdateSubscription),
      ((new settings).afterBy steps).update = some u → u.filter.KeepsTo settings.filter.maxBits := by
    intro steps u hu
    have hnew : (new settings).Capped := nofun
    have hkeeps := capped_afterBy hnew steps u hu
    rw [settings_afterBy] at hkeeps
    rwa [← Nat.max_eq_left (Settings.one_le_maxBits hcheck)]
  refine ⟨hcapped, fun hasRuntime b es id s h hs => ?_⟩
  obtain ⟨acts, hacts⟩ := reached_run h es id s hs
  rw [settings_run h, ← afterBy_binary64] at hacts
  refine ⟨⟨acts, hacts⟩, fun u hu => ?_⟩
  rw [hacts] at hu
  exact hcapped _ u hu

/-- The first filter of a session is made as usual. When the next is made every cast saturates, so it is as large as the
cap lets it be and has as many hashes as there may be. -/
theorem size_cap_holds_of_saturated :
    let saturated : Arithmetic := { Arithmetic.binary64 with cast := fun _ => 0xffffffffffffffff }
    let steps := [(.binary64, .install (some ⟨"a", none⟩) false), (saturated, .install (some ⟨"b", none⟩) false),
      (saturated, .arm (.account ⟨5⟩))]
    Settings.standard.check = .ok () ∧ ∃ u, ((new .standard).afterBy steps).update = some u ∧
      u.filter.sizeBits = 131072 ∧ u.filter.hashCount = 32 ∧ u.filter.inserted = 1 ∧ u.filter.KeepsTo 131072 := by
  intro saturated steps
  have hcheck : Settings.standard.check = .ok () := rfl
  obtain ⟨-, -, -, hsessions⟩ := size_cap_holds
  exact ⟨hcheck, _, rfl, rfl, rfl, rfl, (hsessions .standard hcheck).1 steps _ rfl⟩

end Switchboard

end LedgerWatch
