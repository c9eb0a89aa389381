/-
  LedgerWatch.Bloom.Sizing — how large a Bloom filter should be.

  For `n` elements and a rate `r` of false positives the best array has
  `m = -n · ln r / (ln 2)²` bits and the best number of hashes is `k = m / n · ln 2`;
  the rate to expect then is `(1 - e ^ (-k · n / m)) ^ k`. All of it is computed in
  binary64 and cast to 64 bits, where a number too large becomes the largest and one
  that is negative or none becomes 0.
-/

namespace LedgerWatch.Bloom

structure Sizing where
  sizeBits : Nat
  hashCount : Nat
  /-- The rate of false positives with all elements in. -/
  rate : Float

def ln2 : Float := Float.ofBits 0x3fe62e42fefa39ef

def real (n : Nat) : Float := n.toUInt64.toFloat

/-- `x ^ n` by squaring, for an `n` below `2 ^ steps`. -/
def powNat : Nat → Float → Float → Nat → Float
  | 0, r, _, _ => r
  | steps + 1, r, x, n =>
    let r := if n % 2 = 1 then r * x else r
    if n / 2 = 0 then r else powNat steps r (x * x) (n / 2)

/-- A negative power is the reciprocal of the positive one. -/
def pow (x : Float) (e : Int) : Float :=
  let p := powNat 32 1 x e.natAbs
  if e < 0 then 1 / p else p

/-- The rate of false positives with `n` elements in `m` bits under `k` hashes. The power takes the
last 32 bits of `k`, as a signed number. -/
def falsePositiveRate (m n k : Nat) : Float :=
  if m = 0 then 1
  else pow (1 - (-(real k) * real n / real m).exp) k.toUInt64.toUInt32.toInt32.toInt

/-- The best number of hashes, 1 to 32. -/
def hashCount (m n : Nat) : Nat :=
  if n = 0 then 1 else max 1 (min 32 (real m / real n * ln2).round.toUInt64.toNat)

/-- The bits the formula asks for. -/
def bitsFor (n : Nat) (rate : Float) : Nat := (-(real n) * rate.log / (ln2 * ln2)).ceil.toUInt64.toNat

def sized (m n : Nat) : Sizing := ⟨m, hashCount m n, falsePositiveRate m n (hashCount m n)⟩

def optimal (n : Nat) (rate : Float) : Sizing := if n = 0 then ⟨1, 1, 1⟩ else sized (bitsFor n rate) n

/-- The optimum, in at most `maxBits` bits. A smaller array gets hashes of its own. -/
def capped (n : Nat) (rate : Float) (maxBits : Nat) : Sizing :=
  let s := optimal n rate
  if s.sizeBits ≤ maxBits then s else sized (max maxBits 1) n

end LedgerWatch.Bloom
