/-
  LedgerWatch.Proofs.Delivery.Sharding — sessions are dealt out to the workers in turn.

  Sessions are numbered 1, 2, 3, … as they open, and its number alone says who works for a
  session: the worker that is its remainder by the number of workers. There are as many
  workers as the settings say, at least one, for as long as there is a pool; so a session
  has one worker for good, and its batches are put into the queue of that worker, wait
  there and are taken out by it alone (`BoundTo`).

  Of the first N numbers every remainder by w has as many as any other, but for one
  (`count_remainder`):

      N / w   or   N / w rounded up

  - `numbers_run`: the numbers given out are consecutive. Below 2^64 a counter of 64 bits
    gives the same (`counter_eq`).
  - `sharded_run`: all of it, in every run of a pool that was started.
-/

import LedgerWatch.Proofs.Delivery.Admission
import Mathlib.Algebra.Order.Floor.Div
import Mathlib.Data.Int.CardIntervalMod
import Mathlib.Data.List.Defs

namespace LedgerWatch.Pool

/-! ## Numbers -/

def Event.opens : Event → Bool
  | .openSession => true
  | .close _ | .offer _ _ | .work _ _ | .drain _ | .shutdown | .abandon => false

/-- How many sessions are opened in a run. -/
def openings (es : List Event) : Nat := es.countP Event.opens

/-- The number an event gives out. -/
def number? (p : Pool) : Event → Option Nat
  | .openSession => some p.openSession.1
  | .close _ | .offer _ _ | .work _ _ | .drain _ | .shutdown | .abandon => none

/-- The numbers given out in a run, in opening order. -/
def given (p : Pool) : List Event → List Nat
  | [] => []
  | e :: es => (p.number? e).toList ++ (p.step e).2.given es

theorem openings_cons (e : Event) (es : List Event) : openings (e :: es) = openings [e] + openings es := by
  rw [openings, ← List.singleton_append, List.countP_append]
  rfl

theorem numbers_step (p : Pool) (e : Event) :
    (p.number? e).toList = List.range' (p.opened + 1) (openings [e]) ∧
      (p.step e).2.opened = p.opened + openings [e] := by
  cases e with
  | openSession => exact ⟨rfl, rfl⟩
  | close i | offer i b | work w outcome | drain t | shutdown | abandon => exact ⟨rfl, opened_step p nofun⟩

/-- Numbers go on from where they were. -/
theorem numbers_run (p : Pool) (es : List Event) :
    p.given es = List.range' (p.opened + 1) (openings es) ∧ (p.run es).2.opened = p.opened + openings es := by
  induction es generalizing p with
  | nil => exact ⟨rfl, rfl⟩
  | cons e es ih =>
    obtain ⟨hnumber, hstep⟩ := numbers_step p e
    obtain ⟨hgiven, hopened⟩ := ih (p.step e).2
    rw [hstep, Nat.add_right_comm] at hgiven
    rw [hstep, Nat.add_assoc, ← openings_cons] at hopened
    refine ⟨?_, hopened⟩
    rw [given, hnumber, hgiven, List.range'_append_1, ← openings_cons]

/-- A counter of 64 bits gives consecutive numbers until it runs out. -/
theorem counter_eq (c : UInt64) {n : Nat} (h : c.toNat + n ≤ UInt64.size) :
    (List.iterate (· + 1) c n).map UInt64.toNat = List.range' c.toNat n := by
  induction n generalizing c with
  | zero => rfl
  | succ n ih =>
    rw [List.iterate, List.map_cons, List.range'_succ]
    -- the counter may run out with the last number, when there is none left to give
    cases n with
    | zero => rfl
    | succ n =>
      have hlt : c.toNat + 1 < UInt64.size := by omega
      have hnext : (c + 1).toNat = c.toNat + 1 := (UInt64.toNat_add c 1).trans (Nat.mod_eq_of_lt hlt)
      rw [ih (c + 1) (by omega), hnext]

/-! ## Remainders -/

/-- Of the first `n` numbers, `n / w` leave the remainder `r`, or one more. -/
theorem count_remainder {w r : Nat} (hr : r < w) (n : Nat) :
    (List.range' 1 n).countP (fun i => i % w = r) = n / w + if (r + (w - 1)) % w < n % w then 1 else 0 := by
  have hw : 0 < w := by omega
  -- numbers start at 1, so the remainder of a number is that of its place and one more
  have hplace : ∀ k, (1 + k) % w = r ↔ k ≡ r + (w - 1) [MOD w] := by
    intro k
    have hfull : 1 + k + (w - 1) = k + w := by omega
    calc (1 + k) % w = r ↔ 1 + k ≡ r [MOD w] := by rw [Nat.ModEq, Nat.mod_eq_of_lt hr]
      _ ↔ 1 + k + (w - 1) ≡ r + (w - 1) [MOD w] := (Nat.ModEq.add_iff_right rfl).symm
      _ ↔ k ≡ r + (w - 1) [MOD w] := by rw [hfull, Nat.add_modulus_modEq_iff]
  calc (List.range' 1 n).countP (fun i => i % w = r)
      = n.count (· ≡ r + (w - 1) [MOD w]) := by
        rw [List.range'_eq_map_range, List.countP_map, Nat.count]
        refine List.countP_congr fun k _ => ?_
        simp [hplace]
    _ = n / w + if (r + (w - 1)) % w < n % w then 1 else 0 := Nat.count_modEq_card n hw (r + (w - 1))

theorem ceilDiv_of_remainder {n w : Nat} (hw : 0 < w) (h : 0 < n % w) : n ⌈/⌉ w = n / w + 1 := by
  have hn := Nat.div_add_mod n w
  have hlast := Nat.mod_lt n hw
  have hone : (n % w + w - 1) / w = 1 := Nat.div_eq_of_lt_le (by omega) (by omega)
  calc n ⌈/⌉ w = (w * (n / w) + (n % w + w - 1)) / w := by rw [Nat.ceilDiv_eq_add_pred_div]; congr 1; omega
    _ = n / w + (n % w + w - 1) / w := Nat.mul_add_div hw _ _
    _ = n / w + 1 := by rw [hone]

theorem count_even {w r : Nat} (hr : r < w) (n : Nat) :
    (List.range' 1 n).countP (fun i => i % w = r) = n / w ∨
      (List.range' 1 n).countP (fun i => i % w = r) = n ⌈/⌉ w := by
  rw [count_remainder hr]
  split
  · rename_i hmore
    exact .inr (ceilDiv_of_remainder (by omega) (by omega)).symm
  · exact .inl rfl

/-! ## One worker for each session -/

/-- Worker `w` is there, and it is the only one that has to do with session `i`: what is taken on for the session is
put into its queue, no other worker has a job of the session waiting, and none gets one in its turn. -/
structure BoundTo (p : Pool) (i w : Nat) : Prop where
  exists_queue : w < p.queues.length
  shard : p.shard i = w
  taken : ∀ b, (p.offer i b).1 = true → (p.offer i b).2.queueAt w = p.queueAt w ++ [⟨i, b⟩]
  untouched : ∀ b v, v ≠ w → (p.offer i b).2.queueAt v = p.queueAt v
  waits : ∀ v, v ≠ w → jobsOf i (p.queueAt v) = []
  turns : ∀ v outcome, v ≠ w → jobsOf i ((p.work v outcome).1.called ++ (p.work v outcome).1.skipped) = []

theorem offer_queueAt {p : Pool} (hm : 0 < p.workers) (i : Nat) (b : Batch) (v : Nat) :
    (p.offer i b).2.queueAt v =
      if (p.offer i b).1 = true ∧ v = p.shard i then p.queueAt v ++ [⟨i, b⟩] else p.queueAt v := by
  obtain ⟨q, hc, -, hq⟩ | ⟨q, hc, -, -, hq⟩ := offer_cases hm i b
  · rw [hc, queueAt, hq]
    simp [queueAt]
  · rw [hc]
    simp [hq]

theorem boundTo_shard {p : Pool} (hm : 0 < p.workers) (hp : Placed p) (i : Nat) : BoundTo p i (p.shard i) := by
  refine ⟨shard_lt hm i, rfl, ?_, ?_, ?_, ?_⟩
  · intro b htaken
    rw [offer_queueAt hm, if_pos ⟨htaken, rfl⟩]
  · intro b v hv
    rw [offer_queueAt hm, if_neg fun h => hv h.2]
  · intro v hv
    exact jobsOf_queueAt_ne hp hv
  · intro v outcome hv
    obtain hnothing | ⟨j, js, q, -, hhead, -, -, hturn⟩ := work_cases p v outcome
    · rw [hnothing]
      rfl
    · -- the job taken waited with this worker, so it is not the session's
      have hj : j.session ≠ i := by
        intro hji
        have hplaced := hp v j (by rw [hhead]; exact List.mem_cons_self)
        rw [hji] at hplaced
        exact hv hplaced.symm
      rw [hturn]
      split
      · exact jobsOf_single_ne hj
      · exact jobsOf_single_ne hj

/-! ## The sessions of a run -/

/-- How workers as many as the settings say share the sessions opened in a run from `p` on. -/
structure Sharded (s : DeliverySettings) (p : Pool) (es : List Event) : Prop where
  /-- Sessions have the numbers a counter of 64 bits gives them. -/
  counter : p.given es = (List.iterate (· + 1) (1 : UInt64) (openings es)).map UInt64.toNat
  /-- Their workers are the remainders of words as of numbers. -/
  words : ∀ i ∈ p.given es, ∀ w : UInt64, w.toNat = s.workers →
    (UInt64.ofNat i % w).toNat = (p.run es).2.shard i
  manned : 0 < s.workers
  /-- There are as many workers at every moment, -/
  workers : ∀ before, before <+: es → (p.run before).2.workers = s.workers
  /-- and at every moment a session has the same one. -/
  bound : ∀ before, before <+: es → ∀ i, BoundTo (p.run before).2 i (i % s.workers)
  together : ∀ i j, (p.run es).2.shard i = (p.run es).2.shard j ↔ i ≡ j [MOD s.workers]
  even : ∀ w < s.workers,
    let n := (p.given es).countP fun i => (p.run es).2.shard i = w
    n = openings es / s.workers ∨ n = openings es ⌈/⌉ s.workers

theorem start_unmanned {s : DeliverySettings} (h : s.workers = 0) (hasRuntime : Bool) :
    Pool.start s hasRuntime = .error (.invalidConfig "delivery workers cannot be 0") := by
  have hcheck : s.check = .error (.invalidConfig "delivery workers cannot be 0") := if_pos h
  rw [start, hcheck]
  rfl

theorem sharded_run {s : DeliverySettings} {hasRuntime : Bool} {p : Pool} (h : Pool.start s hasRuntime = .ok p)
    {es : List Event} (hes : openings es < UInt64.size) : Sharded s p es := by
  have hfits : ∀ before, Fits s (p.run before).2 := fits_run (fits_start h)
  have hshard : ∀ before i, (p.run before).2.shard i = i % s.workers := by
    intro before i
    rw [shard, (hfits before).workers]
  have hmanned : 0 < s.workers := by
    rw [← (fits_start h).workers]
    exact (fits_start h).manned
  have hgiven : p.given es = List.range' 1 (openings es) := by
    have hopened : p.opened = 0 := congrArg Pool.opened (start_ok h).2
    rw [(numbers_run p es).1, hopened]
  have hcounter : p.given es = (List.iterate (· + 1) (1 : UInt64) (openings es)).map UInt64.toNat := by
    have hone : (1 : UInt64).toNat = 1 := rfl
    rw [counter_eq 1 (by omega), hgiven, hone]
  refine ⟨hcounter, ?_, hmanned, fun before _ => (hfits before).workers, ?_, ?_, ?_⟩
  · intro i hi w hw
    rw [hcounter] at hi
    obtain ⟨word, -, rfl⟩ := List.mem_map.mp hi
    rw [UInt64.ofNat_toNat, UInt64.toNat_mod, hw, hshard]
  · intro before _ i
    have hbooks := books_run (books_start h) before
    rw [← hshard before i]
    exact boundTo_shard hbooks.manned hbooks.placed i
  · intro i j
    rw [hshard, hshard]
    rfl
  · intro w hw
    simp only [hshard, hgiven]
    exact count_even hw (openings es)

end LedgerWatch.Pool
