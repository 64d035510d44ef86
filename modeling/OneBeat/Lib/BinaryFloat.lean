import Mathlib.Algebra.Order.Floor.Ring
import Mathlib.Data.Rat.Floor
import Mathlib.Tactic.Linarith
import Mathlib.Tactic.Positivity

/-!
# Binary floating-point numbers over the rationals

A value of a binary floating-point type is a rational, an infinity or not a number
(`Double`).  The sign of a zero is not kept: the two zeros compare equal.

* `BinaryFormat.round` rounds a rational to the nearest value of a format, ties to even;
* `BinaryFormat.ofRat` is the correctly rounded conversion, which overflows to an infinity
  from `BinaryFormat.overflow` on;
* `Double.add`, `Double.sub`, `Double.mul`, `Double.div` are correctly rounded, `Double.toFloat`
  narrows to single precision, `Double.llround` and `Double.truncate` go back to the integers.
-/

namespace OneBeat

/-- Round to the nearest integer, ties to even. -/
def roundHalfEven (q : ℚ) : ℤ :=
  let f := ⌊q⌋
  if q - f < 1 / 2 then f
  else if 1 / 2 < q - f then f + 1
  else if f % 2 = 0 then f else f + 1

/-- Round to the nearest integer, ties away from zero. -/
def roundHalfAway (q : ℚ) : ℤ := if 0 ≤ q then ⌊q + 1 / 2⌋ else ⌈q - 1 / 2⌉

/-- A power of two with an integer exponent. -/
def twoPow (e : ℤ) : ℚ := if 0 ≤ e then ((2 ^ e.toNat : ℕ) : ℚ) else 1 / ((2 ^ (-e).toNat : ℕ) : ℚ)

/-- The exponent of the leading bit of a positive rational. -/
def leadingExponent (q : ℚ) : ℤ :=
  let e : ℤ := (q.num.natAbs.log2 : ℤ) - (q.den.log2 : ℤ)
  if q < twoPow e then e - 1 else e

/-- A binary interchange format: bits of precision, exponent of the last bit of a subnormal, and
the magnitude from which a conversion overflows. -/
structure BinaryFormat where
  /-- Significant bits. -/
  precision : ℕ
  /-- Exponent of the last bit of the smallest values. -/
  minExponent : ℤ
  /-- Magnitudes from here on round to an infinity. -/
  overflow : ℚ

namespace BinaryFormat

/-- IEEE 754 double precision. -/
def double : BinaryFormat := ⟨53, -1074, 2 ^ 1024 - 2 ^ 970⟩

/-- IEEE 754 single precision. -/
def single : BinaryFormat := ⟨24, -149, 2 ^ 128 - 2 ^ 103⟩

/-- The nearest value of the format, its exponent unbounded above. -/
def round (f : BinaryFormat) (q : ℚ) : ℚ :=
  if q = 0 then 0
  else
    let unit := twoPow (max (leadingExponent |q| - (f.precision - 1)) f.minExponent)
    roundHalfEven (q / unit) * unit

end BinaryFormat

/-- A double-precision value; a single-precision value is one of them. -/
inductive Double
  | finite (value : ℚ)
  | infinite (negative : Bool)
  | nan
  deriving DecidableEq

namespace BinaryFormat

/-- The correctly rounded conversion of a rational. -/
def ofRat (f : BinaryFormat) (q : ℚ) : Double :=
  if f.overflow ≤ |q| then .infinite (q < 0) else .finite (f.round q)

end BinaryFormat

namespace Double

instance : Inhabited Double := ⟨.finite 0⟩

instance : Zero Double := ⟨.finite 0⟩

instance : One Double := ⟨.finite 1⟩

/-- Neither an infinity nor a NaN. -/
def isFinite : Double → Bool
  | .finite _ => true
  | _ => false

/-- `a < b`; false as soon as one is a NaN. -/
def lt : Double → Double → Bool
  | .finite a, .finite b => a < b
  | .infinite true, .infinite b => !b
  | .infinite true, .finite _ => true
  | .finite _, .infinite false => true
  | _, _ => false

/-- `a == b`; false as soon as one is a NaN. -/
def beq : Double → Double → Bool
  | .nan, _ => false
  | a, b => a = b

/-- `a <= b`; false as soon as one is a NaN. -/
def le (a b : Double) : Bool := lt a b || beq a b

/-- `static_cast<float>`. -/
def toFloat : Double → Double
  | .finite q => BinaryFormat.single.ofRat q
  | d => d

/-- `static_cast<double>` of an integer. -/
def ofInt (n : ℤ) : Double := BinaryFormat.double.ofRat n

/-- `a * b`. -/
def mul : Double → Double → Double
  | .finite a, .finite b => BinaryFormat.double.ofRat (a * b)
  | .infinite s, .finite b => if b = 0 then .nan else .infinite (s ^^ (b < 0))
  | .finite a, .infinite s => if a = 0 then .nan else .infinite (s ^^ (a < 0))
  | .infinite s, .infinite t => .infinite (s ^^ t)
  | _, _ => .nan

/-- `a / b`; a zero divides like the positive zero. -/
def div : Double → Double → Double
  | .finite a, .finite b =>
    if b = 0 then if a = 0 then .nan else .infinite (a < 0)
    else BinaryFormat.double.ofRat (a / b)
  | .infinite s, .finite b => .infinite (s ^^ (b < 0))
  | .finite _, .infinite _ => .finite 0
  | _, _ => .nan

/-- `a + b`. -/
def add : Double → Double → Double
  | .finite a, .finite b => BinaryFormat.double.ofRat (a + b)
  | .infinite s, .infinite t => if s = t then .infinite s else .nan
  | .infinite s, .finite _ => .infinite s
  | .finite _, .infinite s => .infinite s
  | _, _ => .nan

/-- `-a`. -/
def neg : Double → Double
  | .finite a => .finite (-a)
  | .infinite s => .infinite !s
  | .nan => .nan

/-- `a - b`. -/
def sub (a b : Double) : Double := add a b.neg

/-- `std::llround`, which has no value on an infinity or a NaN. -/
def llround : Double → ℤ
  | .finite q => roundHalfAway q
  | _ => 0

/-- `static_cast` to an integer, which has no value on an infinity or a NaN. -/
def truncate : Double → ℤ
  | .finite q => if 0 ≤ q then ⌊q⌋ else ⌈q⌉
  | _ => 0

@[simp] theorem isFinite_finite (q : ℚ) : (finite q).isFinite = true := rfl

theorem isFinite_iff {d : Double} : d.isFinite = true ↔ ∃ q, d = finite q := by
  cases d <;> simp [isFinite]

end Double

namespace BinaryFormat

end BinaryFormat

/-- On non-negative numbers, rounding commutes with adding a whole number. -/
theorem roundHalfAway_add_one_le {a b : ℚ} (ha : 0 ≤ a) (h : a + 1 ≤ b) :
    roundHalfAway a + 1 ≤ roundHalfAway b := by
  have hb : 0 ≤ b := by linarith
  unfold roundHalfAway
  rw [if_pos ha, if_pos hb, ← Int.floor_add_one]
  exact Int.floor_mono (by linarith)

end OneBeat
