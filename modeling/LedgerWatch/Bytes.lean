/-
  LedgerWatch.Bytes — byte strings, fixed-width integers in them, and the UTF-8 bytes
  of a text.

  `little width n` and `big width n` are the last `width` base-256 digits of `n`, least
  and most significant first; `ofLittle` and `ofBig` read them back. `Octets n` is a
  byte string of exactly `n` bytes.
-/

namespace LedgerWatch

abbrev Bytes := List UInt8

namespace Bytes

/-- `n` in `width` bytes, least significant first. -/
def little : Nat → Nat → Bytes
  | 0, _ => []
  | width + 1, n => UInt8.ofNat n :: little width (n / 256)

/-- `n` in `width` bytes, most significant first. -/
def big (width n : Nat) : Bytes := (little width n).reverse

def ofLittle : Bytes → Nat
  | [] => 0
  | b :: bs => b.toNat + 256 * ofLittle bs

def ofBig (bs : Bytes) : Nat := ofLittle bs.reverse

/-- The UTF-8 bytes of a text. -/
def utf8 (s : String) : Bytes := s.toList.flatMap String.utf8EncodeChar

@[simp] theorem length_little (width n : Nat) : (little width n).length = width := by
  induction width generalizing n with
  | zero => rfl
  | succ w ih => simp [little, ih]

@[simp] theorem length_big (width n : Nat) : (big width n).length = width := by simp [big]

theorem ofLittle_little (width n : Nat) : ofLittle (little width n) = n % Nat.pow 256 width := by
  induction width generalizing n with
  | zero => simp [little, ofLittle, Nat.mod_one]
  | succ w ih =>
    have h : (UInt8.ofNat n).toNat = n % 256 := by simp
    have hp : Nat.pow 256 (w + 1) = 256 * Nat.pow 256 w := Nat.mul_comm _ _
    rw [little, ofLittle, ih, h, hp, Nat.mod_mul]

theorem ofBig_big (width n : Nat) : ofBig (big width n) = n % Nat.pow 256 width := by
  simp [ofBig, big, ofLittle_little]

theorem ofLittle_inj {a b : Bytes} (hl : a.length = b.length) (h : ofLittle a = ofLittle b) : a = b := by
  induction a generalizing b with
  | nil => cases b with
    | nil => rfl
    | cons y ys => simp at hl
  | cons x xs ih => cases b with
    | nil => simp at hl
    | cons y ys =>
      simp only [ofLittle] at h
      have := x.toNat_lt; have := y.toNat_lt
      rw [UInt8.toNat_inj.mp (by omega : x.toNat = y.toNat), ih (by simpa using hl) (by omega)]

end Bytes

/-- A byte string of exactly `n` bytes. -/
structure Octets (n : Nat) where
  toList : Bytes
  length_eq : toList.length = n
  deriving DecidableEq

namespace Octets

variable {n : Nat}

def ofList? (bs : Bytes) : Option (Octets n) := if h : bs.length = n then some ⟨bs, h⟩ else none

theorem ext {a b : Octets n} (h : a.toList = b.toList) : a = b := by
  cases a; cases b; cases h; rfl

@[simp] theorem ofList?_toList (a : Octets n) : ofList? a.toList = some a := by
  simp [ofList?, a.length_eq]

/-- The first `m` of at least `m` bytes. -/
def take (m : Nat) (a : Octets n) (h : m ≤ n) : Octets m :=
  ⟨a.toList.take m, by simp [a.length_eq, h]⟩

def replicate (n : Nat) (b : UInt8) : Octets n := ⟨List.replicate n b, by simp⟩

end Octets

end LedgerWatch
