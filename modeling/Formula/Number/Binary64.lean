/-
# Formula.Number.Binary64 — doubles as ranked magnitudes

Without their signs the doubles stand in a row: zero, the subnormals, the
normals, infinity. The *rank* of a double is its place in that row, which is
its bit pattern without the sign bit. Every finite double is a whole number of
units of `2^-1074`, so questions about values become questions about naturals:

* `units` gives the number of units at a rank, `spacing` the step to the next;
* `rankBelow` is the greatest rank whose value is at most a number of units;
* `nearest` rounds a quotient to the closest rank, a tie to the even one;
* `nearestRoot` does the same for a root of any degree, by bisection on ranks.

All of it is exact arithmetic on `Nat`. Hardware doubles enter only through
their bits, in `rank`, `negative` and `ofRank`.
-/

namespace Formula.Number.Binary64

set_option autoImplicit false

/-! ## The row of magnitudes -/

/-- The first normal rank, which is also the number of ranks with one spacing. -/
def firstNormal : Nat := 0x10000000000000

/-- The units per one: a double is a whole number of `2^-1074`. -/
def unitsPerOne : Nat := 1 <<< 1074

/-- The rank of infinity; all smaller ranks are finite. -/
def infinity : Nat := 2047 * firstNormal

/-- How often the spacing has doubled up to a rank. -/
def doublings (rank : Nat) : Nat := rank / firstNormal - 1

/-- The value at a rank, in units. Subnormal ranks hold their own number of
units; from there on the spacing doubles with every `firstNormal` ranks. -/
def units (rank : Nat) : Nat :=
  if rank < firstNormal then rank
  else (firstNormal + rank % firstNormal) <<< doublings rank

/-- The step from a rank to the next, in units. -/
def spacing (rank : Nat) : Nat := 1 <<< doublings rank

/-- The greatest rank whose value is at most `n` units: keep the leading 53
bits of `n` and count how many are dropped. -/
def rankBelow (n : Nat) : Nat :=
  let dropped := n.log2 - 52
  dropped * firstNormal + n >>> dropped

/-! ## Rounding -/

/-- Choose between a rank and its successor, given how a value compares with
the midpoint between them. A tie goes to the even rank, and nothing lies
beyond infinity. -/
def settle (below : Nat) : Ordering → Nat
  | .lt => min below infinity
  | .eq => min (below + below % 2) infinity
  | .gt => min (below + 1) infinity

/-- The rank nearest to the quotient `num / den`. -/
def nearest (num den : Nat) : Nat :=
  let scaled := num * unitsPerOne
  let below := rankBelow (scaled / den)
  settle below (compare (2 * scaled) (den * (2 * units below + spacing below)))

/-- Decide the remaining low `bits` of the greatest rank, from `rank` on, whose
value raised to the `degree` is at most `power`. -/
def rootBelow (degree power : Nat) : (bits rank : Nat) → Nat
  | 0, rank => rank
  | bits + 1, rank =>
    let raised := rank + 1 <<< bits
    rootBelow degree power bits (if Nat.pow (units raised) degree ≤ power then raised else rank)

/-- The rank nearest to the root of a degree of `power`, a number of units
raised to that degree. -/
def nearestRoot (degree power : Nat) : Nat :=
  let below := rootBelow degree power 63 0
  let midpoint := 2 * units below + spacing below
  settle below (compare (Nat.pow 2 degree * power) (Nat.pow midpoint degree))

/-! ## Doubles -/

/-- The sign bit; all ranks lie below it. -/
def signBit : Nat := 0x8000000000000000

/-- The rank of a double's magnitude. -/
def rank (x : Float) : Nat := x.toBits.toNat % signBit

/-- Whether a double carries the minus sign, zeros and infinities included. -/
def negative (x : Float) : Bool := decide (signBit ≤ x.toBits.toNat)

/-- The double with a sign and the magnitude at a rank. -/
def ofRank (minus : Bool) (rank : Nat) : Float :=
  Float.ofBits (UInt64.ofNat (if minus then signBit + rank else rank))

/-! ## Ranks and their limits -/

theorem units_of_lt {rank : Nat} (h : rank < firstNormal) : units rank = rank := if_pos h

theorem settle_le_infinity (below : Nat) (side : Ordering) : settle below side ≤ infinity := by
  cases side <;> exact Nat.min_le_right _ _

theorem nearest_le_infinity (num den : Nat) : nearest num den ≤ infinity :=
  settle_le_infinity _ _

end Formula.Number.Binary64
