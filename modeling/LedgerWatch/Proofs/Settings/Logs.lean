/-
  LedgerWatch.Proofs.Settings.Logs — the flags of the logs.

  A flag that says yes or no is taken at its word, in every environment. One that says
  neither should count as one that is not set (`FallsBack`). The flag for console output
  does. The one for JSON logs turns them off: outside containers they are off anyway, but
  in a container they would be on. So it falls back exactly outside containers
  (`flags_fall_back`), and `json_lost_in_container` is the shortest case where it does
  not.
-/

import LedgerWatch.Proofs.Settings.Words
import LedgerWatch.Telemetry

namespace LedgerWatch

namespace Environment

/-- The environment with one variable set to a value, or not set. -/
def set (env : Environment) (name : String) (value : Option String) : Environment :=
  fun other => if other = name then value else env other

@[simp] theorem set_self (env : Environment) (name : String) (value : Option String) :
    env.set name value name = value := if_pos rfl

@[simp] theorem set_other (env : Environment) {name other : String} (value : Option String) (h : other ≠ name) :
    env.set name value other = env other := if_neg h

/-- What a node in a container is known by. -/
def InContainer (env : Environment) : Prop :=
  (env "KUBERNETES_SERVICE_HOST").isSome = true ∨ (env "DOCKER_CONTAINER").isSome = true

end Environment

namespace LogSettings

variable {env : Environment} {raw : String} {b : Bool}

theorem flagOr_of_word (h : Says raw b) (fallback : Bool) : flagOr raw fallback = b := by
  rw [flagOr, flag?_eq_some_iff.mpr h, Option.getD_some]

theorem flagOr_of_neither (h : ∀ b, ¬Says raw b) (fallback : Bool) : flagOr raw fallback = fallback := by
  rw [flagOr, flag?_eq_none_iff.mpr h, Option.getD_none]

/-! ## One flag at a time -/

/-- The console flag has a say in nothing else, and falls back where it is not set. -/
theorem ofEnvironment_console (env : Environment) (value : Option String) :
    ofEnvironment (env.set "LN_CONSOLE_OUTPUT" value) =
      { ofEnvironment env with console := (value.map (flagOr · true)).getD true } := by
  simp [ofEnvironment, standard]

/-- So has the JSON flag, but it has two standard values, one of them for where it is not set. -/
theorem ofEnvironment_json (env : Environment) (value : Option String) :
    ofEnvironment (env.set "LN_JSON_LOGS" value) =
      { ofEnvironment env with
        json := (value.map (flagOr · false)).getD
          ((env "KUBERNETES_SERVICE_HOST").isSome || (env "DOCKER_CONTAINER").isSome) } := by
  simp [ofEnvironment, standard]

theorem json_unset (env : Environment) :
    (ofEnvironment (env.set "LN_JSON_LOGS" none)).json = true ↔ env.InContainer := by
  rw [ofEnvironment_json]
  exact Bool.or_eq_true_iff

/-! ## Falling back -/

/-- Whatever a variable is set to that says neither yes nor no, it is as if it were not set. -/
def FallsBack (env : Environment) (name : String) : Prop :=
  ∀ raw, (∀ b, ¬Says raw b) → ofEnvironment (env.set name (some raw)) = ofEnvironment (env.set name none)

theorem console_fallsBack (env : Environment) : FallsBack env "LN_CONSOLE_OUTPUT" := by
  intro raw hneither
  rw [ofEnvironment_console, ofEnvironment_console, Option.map_some, flagOr_of_neither hneither]
  rfl

/-- A JSON flag that says neither counts as a no. -/
theorem json_of_neither (env : Environment) (h : ∀ b, ¬Says raw b) :
    ofEnvironment (env.set "LN_JSON_LOGS" (some raw)) =
      { ofEnvironment (env.set "LN_JSON_LOGS" none) with json := false } := by
  rw [ofEnvironment_json, ofEnvironment_json, Option.map_some, flagOr_of_neither h]
  rfl

theorem neither_empty : ∀ b, ¬Says "" b := flag?_eq_none_iff.mp (by decide)

theorem json_fallsBack_iff (env : Environment) : FallsBack env "LN_JSON_LOGS" ↔ ¬env.InContainer := by
  rw [← json_unset]
  constructor
  · intro hback hjson
    have hsame := congrArg json (hback "" neither_empty)
    rw [json_of_neither env neither_empty, hjson] at hsame
    cases hsame
  · intro hjson raw hneither
    rw [json_of_neither env hneither, ← Bool.eq_false_iff.mpr hjson]

/-- Flags that say yes or no are taken at their word, those that say neither fall back, the one for JSON logs outside
containers only. Which texts say yes or no does not hang on how the case of letters beyond ASCII is lowered. -/
theorem flags_fall_back (env : Environment) :
    (∀ raw b, Says raw b →
      ofEnvironment (env.set "LN_CONSOLE_OUTPUT" (some raw)) = { ofEnvironment env with console := b } ∧
        ofEnvironment (env.set "LN_JSON_LOGS" (some raw)) = { ofEnvironment env with json := b }) ∧
      FallsBack env "LN_CONSOLE_OUTPUT" ∧
      (FallsBack env "LN_JSON_LOGS" ↔ ¬env.InContainer) ∧
      (∀ raw, (∀ b, ¬Says raw b) → ofEnvironment (env.set "LN_JSON_LOGS" (some raw)) =
        { ofEnvironment (env.set "LN_JSON_LOGS" none) with json := false }) ∧
      ∀ lower, LowersCase lower →
        ∀ raw b, Says raw b ↔ String.ofList (lower (Text.trim raw.toList)) ∈ flagWords b := by
  refine ⟨fun raw b hword => ⟨?_, ?_⟩, console_fallsBack env, json_fallsBack_iff env,
    fun _ hneither => json_of_neither env hneither, fun _ hlower => says_iff_lowered hlower⟩
  · rw [ofEnvironment_console, Option.map_some, flagOr_of_word hword]
    rfl
  · rw [ofEnvironment_json, Option.map_some, flagOr_of_word hword]
    rfl

/-- A node in a container, and nothing else set. -/
def inDocker : Environment := fun name => if name = "DOCKER_CONTAINER" then some "1" else none

theorem flags_fall_back_in_docker :
    Says " No\n" false ∧
      ofEnvironment (inDocker.set "LN_JSON_LOGS" (some " No\n")) = ⟨"ledger-notifier", "info", true, false⟩ ∧
      FallsBack inDocker "LN_CONSOLE_OUTPUT" ∧ ¬FallsBack inDocker "LN_JSON_LOGS" := by
  obtain ⟨hword, hconsole, hjson, -, hlower⟩ := flags_fall_back inDocker
  have hno : Says " No\n" false := (hlower _ lowersCase_map _ _).mpr (by decide)
  exact ⟨hno, (hword _ _ hno).2, hconsole, fun hback => hjson.mp hback (.inr rfl)⟩

theorem json_lost_in_container :
    (∀ b, ¬Says "maybe" b) ∧
      ofEnvironment (inDocker.set "LN_JSON_LOGS" (some "maybe")) = ⟨"ledger-notifier", "info", true, false⟩ ∧
      ofEnvironment (inDocker.set "LN_JSON_LOGS" none) = ⟨"ledger-notifier", "info", true, true⟩ :=
  ⟨flag?_eq_none_iff.mp (by decide), by decide, by decide⟩

end LogSettings

end LedgerWatch
