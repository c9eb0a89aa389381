/-
  LedgerWatch.Proofs.Settings.Variables — settings and the variables they come from.

  Six variables are read one after the other, and each leaves the standard value if it is
  not set (`Gives`). Either all of them give values, then those and nothing else are the
  settings (`Assembled`), or one is set to a text that is no value, and the first such one
  is told (`FirstFault`). One step of this is `readAs_bind`; six of them read all
  (`readAs_assemble`). The settings as a whole are checked only then, so a text that is no
  value is told before any setting that makes no sense (`settings_exact`).
-/

import LedgerWatch.Proofs.Decimal.Grammar
import LedgerWatch.Proofs.Settings.Words

namespace LedgerWatch

open LedgerWatch.Text

/-! ## Texts of values -/

/-- A text is a numeral of a number below `2 ^ 64`, blanks around it apart. -/
def IsCount (raw : String) (n : Nat) : Prop :=
  ∃ word, Trims raw.toList word ∧ Numeral.Denotes word n ∧ n < UInt64.size

/-- A text denotes a binary64 number, blanks around it apart. -/
def IsRate (raw : String) (x : Float) : Prop := ∃ word, Trims raw.toList word ∧ Decimal.Denotes word x

theorem exists_trims_iff {raw : String} {P : List Char → Prop} :
    (∃ word, Trims raw.toList word ∧ P word) ↔ P (trim raw.toList) := by
  simp only [← trim_eq_iff, exists_eq_left']

theorem count_eq_some_iff {raw : String} {n : Nat} :
    Numeral.readBelow UInt64.size (trim raw.toList) = some n ↔ IsCount raw n :=
  Numeral.readBelow_eq_some_iff.trans
    (exists_trims_iff (P := fun word => Numeral.Denotes word n ∧ n < UInt64.size)).symm

theorem rate_eq_some_iff {raw : String} {x : Float} : Decimal.read (trim raw.toList) = some x ↔ IsRate raw x :=
  Decimal.read_eq_some_iff.trans (exists_trims_iff (P := fun word => Decimal.Denotes word x)).symm

/-! ## Variables -/

/-- A variable, what is said of a text that is no value of it, and which texts are values. -/
structure Variable where
  name : String
  fault : String
  Readable : String → Prop

namespace Variable

/-- The error for a text that is no value. The text is quoted as it was set. -/
def refusal (v : Variable) (raw : String) : NotifyError :=
  .invalidConfig (v.name ++ ": " ++ v.fault ++ " " ++ Quoted.string raw)

def flag (name : String) : Variable := ⟨name, "expected a boolean, got", fun raw => ∃ b, Says raw b⟩

def count (name : String) : Variable := ⟨name, "cannot parse", fun raw => ∃ n, IsCount raw n⟩

def rate (name : String) : Variable := ⟨name, "cannot parse", fun raw => ∃ x, IsRate raw x⟩

@[simp] theorem name_flag (name : String) : (flag name).name = name := rfl
@[simp] theorem name_count (name : String) : (count name).name = name := rfl
@[simp] theorem name_rate (name : String) : (rate name).name = name := rfl

/-- The variables in the order they are read. -/
def all : List Variable :=
  [flag "LN_ENABLE_SUBSCRIBE_TO_ALL", count "LN_FILTER_EXPECTED_ITEMS", rate "LN_FILTER_FPR",
    count "LN_MAX_TRACKED_ACCOUNTS", count "LN_DELIVERY_WORKERS", count "LN_DELIVERY_QUEUE_CAPACITY"]

end Variable

namespace Environment

/-- A variable that is not set gives the standard value, one that is set a value its text is of. -/
def Gives {α : Type} (env : Environment) (name : String) (Denotes : String → α → Prop) (standard x : α) : Prop :=
  match env name with
  | none => x = standard
  | some raw => Denotes raw x

/-- A variable is not set, or to a text of a value. -/
def Reads (env : Environment) (v : Variable) : Prop := ∀ raw, env v.name = some raw → v.Readable raw

/-- The error for the first of some variables that is set to a text of no value. -/
inductive FirstFault (env : Environment) : List Variable → NotifyError → Prop where
  | here {v : Variable} {vs : List Variable} {raw : String} :
      env v.name = some raw → ¬v.Readable raw → FirstFault env (v :: vs) (v.refusal raw)
  | there {v : Variable} {vs : List Variable} {e : NotifyError} :
      env.Reads v → FirstFault env vs e → FirstFault env (v :: vs) e

/-- The values of all variables, and the standard value of what has none. -/
structure Assembled (env : Environment) (s : Settings) : Prop where
  subscribeToAll : env.Gives "LN_ENABLE_SUBSCRIBE_TO_ALL" Says Settings.standard.subscribeToAll s.subscribeToAll
  elements : env.Gives "LN_FILTER_EXPECTED_ITEMS" IsCount Settings.standard.filter.elements s.filter.elements
  rate : env.Gives "LN_FILTER_FPR" IsRate Settings.standard.filter.rate s.filter.rate
  maxBits : s.filter.maxBits = Settings.standard.filter.maxBits
  maxFollowed : env.Gives "LN_MAX_TRACKED_ACCOUNTS" IsCount Settings.standard.maxFollowed s.maxFollowed
  workers : env.Gives "LN_DELIVERY_WORKERS" IsCount Settings.standard.delivery.workers s.delivery.workers
  capacity : env.Gives "LN_DELIVERY_QUEUE_CAPACITY" IsCount Settings.standard.delivery.capacity s.delivery.capacity

theorem reads_or_firstFault (env : Environment) (vs : List Variable) :
    (∀ v ∈ vs, env.Reads v) ∨ ∃ e, env.FirstFault vs e := by
  induction vs with
  | nil => exact .inl nofun
  | cons v vs ih =>
    by_cases hv : env.Reads v
    · rcases ih with hvs | ⟨e, he⟩
      · exact .inl (List.forall_mem_cons.mpr ⟨hv, hvs⟩)
      · exact .inr ⟨e, .there hv he⟩
    · simp only [Reads, not_forall] at hv
      obtain ⟨raw, hset, hnot⟩ := hv
      exact .inr ⟨_, .here hset hnot⟩

/-! ## One variable -/

section

variable {α β : Type} {env : Environment} {name fault : String} {value? : String → Option α}
  {Denotes : String → α → Prop} {standard : α}

theorem read_eq_ok_iff (h : ∀ raw x, value? raw = some x ↔ Denotes raw x) {x : α} :
    env.read name value? fault standard = .ok x ↔ env.Gives name Denotes standard x := by
  cases henv : env name with
  | none => simp only [read, Gives, henv, Except.ok.injEq, eq_comm]
  | some raw =>
    simp only [read, Gives, henv, ← h]
    cases value? raw with
    | none => exact iff_of_false nofun nofun
    | some y => rw [Option.some.injEq, Except.ok.injEq]

theorem read_eq_error_iff (h : ∀ raw x, value? raw = some x ↔ Denotes raw x) {e : NotifyError} :
    env.read name value? fault standard = .error e ↔ ∃ raw, env name = some raw ∧ (¬∃ x, Denotes raw x) ∧
      .invalidConfig (name ++ ": " ++ fault ++ " " ++ Quoted.string raw) = e := by
  cases henv : env name with
  | none =>
    simp only [read, henv]
    exact iff_of_false nofun fun ⟨_, hset, _⟩ => nomatch hset
  | some raw =>
    simp only [read, henv, ← h, Option.some.injEq, exists_eq_left']
    cases value? raw with
    | none => simp only [reduceCtorEq, exists_false, not_false_eq_true, true_and, Except.error.injEq]
    | some y => simp only [reduceCtorEq, Option.some.injEq, exists_eq', not_true_eq_false, false_and]

/-- A variable gives a value unless its text is of none. -/
theorem gives_or_not (env : Environment) (name : String) (Denotes : String → α → Prop) (standard : α) :
    (∃ x, env.Gives name Denotes standard x) ↔ ∀ raw, env name = some raw → ∃ x, Denotes raw x := by
  cases henv : env name with
  | none => simp only [Gives, henv, exists_eq, reduceCtorEq, false_implies, implies_true]
  | some raw => simp only [Gives, henv, Option.some.injEq, forall_eq']

/-- A reading of variables ends with what they give, or with the first fault. -/
structure ReadAs (env : Environment) (vs : List Variable) (Given : β → Prop) (result : Except NotifyError β) : Prop where
  ok : ∀ s, result = .ok s ↔ Given s
  error : ∀ e, result = .error e ↔ env.FirstFault vs e

theorem readAs_pure (s : β) : ReadAs env [] (s = ·) (pure s) where
  ok _ := ⟨Except.ok.inj, congrArg Except.ok⟩
  error _ := iff_of_false nofun nofun

theorem ReadAs.congr {vs : List Variable} {Given Given' : β → Prop} {result : Except NotifyError β}
    (h : ReadAs env vs Given result) (hgiven : ∀ s, Given s ↔ Given' s) : ReadAs env vs Given' result where
  ok s := (h.ok s).trans (hgiven s)
  error := h.error

theorem readAs_bind (h : ∀ raw x, value? raw = some x ↔ Denotes raw x) {vs : List Variable} {Given : α → β → Prop}
    {rest : α → Except NotifyError β} (hrest : ∀ x, ReadAs env vs (Given x) (rest x)) :
    ReadAs env (⟨name, fault, fun raw => ∃ x, Denotes raw x⟩ :: vs)
      (fun s => ∃ x, env.Gives name Denotes standard x ∧ Given x s)
      (env.read name value? fault standard >>= rest) := by
  cases hread : env.read name value? fault standard with
  | ok x =>
    have hgives : ∀ y, env.read name value? fault standard = .ok y ↔ env.Gives name Denotes standard y :=
      fun y => read_eq_ok_iff h
    have hreads := (gives_or_not env name Denotes standard).mp ⟨x, (hgives x).mp hread⟩
    refine ⟨fun s => ((hrest x).ok s).trans ?_, fun e => ((hrest x).error e).trans ?_⟩
    · simp only [← hgives, hread, Except.ok.injEq, exists_eq_left']
    · refine ⟨.there hreads, fun hfault => ?_⟩
      cases hfault with
      | here hset hnot => exact absurd (hreads _ hset) hnot
      | there _ hrest => exact hrest
  | error e =>
    obtain ⟨raw, hset, hnot, rfl⟩ := (read_eq_error_iff h).mp hread
    refine ⟨fun s => iff_of_false nofun ?_, fun e => ⟨fun heq => ?_, fun hfault => ?_⟩⟩
    · rintro ⟨x, hx, -⟩
      exact hnot ((gives_or_not env name Denotes standard).mp ⟨x, hx⟩ raw hset)
    · cases heq
      exact .here hset hnot
    · cases hfault with
      | here hset' _ =>
        cases hset.symm.trans hset'
        rfl
      | there hreads _ => exact absurd (hreads raw hset) hnot

section

variable {vs : List Variable}

theorem readAs_flag {standard : Bool} {Given : Bool → β → Prop} {rest : Bool → Except NotifyError β}
    (hrest : ∀ b, ReadAs env vs (Given b) (rest b)) :
    ReadAs env (.flag name :: vs) (fun s => ∃ b, env.Gives name Says standard b ∧ Given b s)
      (env.flag name standard >>= rest) :=
  readAs_bind (fun _ _ => flag?_eq_some_iff) hrest

theorem readAs_count {standard : Nat} {Given : Nat → β → Prop} {rest : Nat → Except NotifyError β}
    (hrest : ∀ n, ReadAs env vs (Given n) (rest n)) :
    ReadAs env (.count name :: vs) (fun s => ∃ n, env.Gives name IsCount standard n ∧ Given n s)
      (env.count name standard >>= rest) :=
  readAs_bind (fun _ _ => count_eq_some_iff) hrest

theorem readAs_rate {standard : Float} {Given : Float → β → Prop} {rest : Float → Except NotifyError β}
    (hrest : ∀ x, ReadAs env vs (Given x) (rest x)) :
    ReadAs env (.rate name :: vs) (fun s => ∃ x, env.Gives name IsRate standard x ∧ Given x s)
      (env.rate name standard >>= rest) :=
  readAs_bind (fun _ _ => rate_eq_some_iff) hrest

end

end

/-! ## All variables -/

theorem readAs_assemble (env : Environment) : ReadAs env Variable.all env.Assembled env.assemble := by
  refine ReadAs.congr (readAs_flag fun subscribeToAll => readAs_count fun elements => readAs_rate fun rate =>
    readAs_count fun maxFollowed => readAs_count fun workers => readAs_count fun capacity => readAs_pure _) fun s => ?_
  constructor
  · rintro ⟨_, hsubscribe, _, helements, _, hrate, _, hfollowed, _, hworkers, _, hcapacity, rfl⟩
    exact ⟨hsubscribe, helements, hrate, rfl, hfollowed, hworkers, hcapacity⟩
  · rintro ⟨hsubscribe, helements, hrate, hbits, hfollowed, hworkers, hcapacity⟩
    refine ⟨_, hsubscribe, _, helements, _, hrate, _, hfollowed, _, hworkers, _, hcapacity, ?_⟩
    rw [← hbits]

/-- Settings are assembled only if all variables are readable. -/
theorem Assembled.reads {env : Environment} {s : Settings} (h : env.Assembled s) : ∀ v ∈ Variable.all, env.Reads v := by
  refine (reads_or_firstFault env Variable.all).resolve_right ?_
  rintro ⟨e, he⟩
  have hok := ((readAs_assemble env).ok s).mpr h
  rw [((readAs_assemble env).error e).mpr he] at hok
  cases hok

section

variable {env other : Environment}

theorem read_congr {α : Type} {name : String} (h : other name = env name) (value? : String → Option α) (fault : String)
    (standard : α) : other.read name value? fault standard = env.read name value? fault standard := by
  rw [read, h, ← read]

theorem assemble_congr (h : ∀ v ∈ Variable.all, other v.name = env v.name) : other.assemble = env.assemble := by
  simp only [Variable.all, List.forall_mem_cons, Variable.name_flag, Variable.name_count, Variable.name_rate] at h
  obtain ⟨hsubscribe, helements, hrate, hfollowed, hworkers, hcapacity, -⟩ := h
  simp only [assemble, flag, count, rate, read_congr hsubscribe, read_congr helements, read_congr hrate,
    read_congr hfollowed, read_congr hworkers, read_congr hcapacity]

end

end Environment

namespace Settings

variable {env : Environment}

theorem ofEnvironment_of_ok {s : Settings} (h : env.assemble = .ok s) :
    ofEnvironment env = s.check.map fun _ => s := by
  rw [ofEnvironment, h]
  show (s.check >>= fun _ => pure s) = _
  cases s.check <;> rfl

theorem ofEnvironment_of_error {e : NotifyError} (h : env.assemble = .error e) : ofEnvironment env = .error e := by
  rw [ofEnvironment, h]
  rfl

theorem ofEnvironment_eq_ok_iff {s : Settings} :
    ofEnvironment env = .ok s ↔ env.assemble = .ok s ∧ s.check = .ok () := by
  cases hassemble : env.assemble with
  | error e =>
    rw [ofEnvironment_of_error hassemble]
    exact iff_of_false nofun nofun
  | ok a =>
    rw [ofEnvironment_of_ok hassemble, Except.ok.injEq]
    constructor
    · intro h
      cases hcheck : a.check with
      | error e =>
        rw [hcheck] at h
        cases h
      | ok u =>
        rw [hcheck] at h
        cases h
        exact ⟨rfl, hcheck⟩
    · rintro ⟨rfl, hcheck⟩
      rw [hcheck]
      rfl

theorem ofEnvironment_eq_error_iff {e : NotifyError} : ofEnvironment env = .error e ↔
    env.assemble = .error e ∨ ∃ s, env.assemble = .ok s ∧ s.check = .error e := by
  cases hassemble : env.assemble with
  | error e' =>
    rw [ofEnvironment_of_error hassemble]
    exact ⟨.inl, fun h => h.elim id fun ⟨_, hok, _⟩ => nomatch hok⟩
  | ok a =>
    rw [ofEnvironment_of_ok hassemble]
    simp only [reduceCtorEq, false_or, Except.ok.injEq, exists_eq_left']
    cases a.check with
    | error e' => rw [Except.map, Except.error.injEq, Except.error.injEq]
    | ok u => exact iff_of_false nofun nofun

/-- Settings come out if all variables that are set are to values, and these make sense. Else the first of the
variables that is not set to a value is told, or, if there is none, what makes no sense. Other variables do not matter. -/
theorem settings_exact (env : Environment) :
    (∀ s, ofEnvironment env = .ok s ↔ env.Assembled s ∧ s.check = .ok ()) ∧
      (∀ e, ofEnvironment env = .error e ↔ env.FirstFault Variable.all e ∨
        (∀ v ∈ Variable.all, env.Reads v) ∧ ∃ s, env.Assembled s ∧ s.check = .error e) ∧
      ∀ other : Environment, (∀ v ∈ Variable.all, other v.name = env v.name) →
        ofEnvironment other = ofEnvironment env := by
  have hread := Environment.readAs_assemble env
  refine ⟨fun s => ?_, fun e => ?_, fun other hsame => ?_⟩
  · rw [ofEnvironment_eq_ok_iff, hread.ok]
  · rw [ofEnvironment_eq_error_iff, hread.error]
    simp only [hread.ok]
    refine or_congr_right ⟨?_, And.right⟩
    rintro ⟨s, hs, hcheck⟩
    exact ⟨hs.reads, s, hs, hcheck⟩
  · rw [ofEnvironment, Environment.assemble_congr hsame]
    rfl

/-- No workers make no sense, but a rate that is no number is told. -/
example :
    ofEnvironment (fun name =>
      if name = "LN_DELIVERY_WORKERS" then some "0" else if name = "LN_FILTER_FPR" then some "1%" else none) =
      .error (.invalidConfig ("LN_FILTER_FPR: cannot parse " ++ Quoted.string "1%")) := by
  rfl

end Settings

end LedgerWatch
