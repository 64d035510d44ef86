import OneBeat.Lib.BinaryFloat

/-!
# The arithmetic of the audio code

The audio code computes in `float` and `double`.  What it does with them is independent of how they
round: its functions take the two types as parameters, with the operations that the code uses.

`IeeeFloat` and `IeeeDouble` are the instances with the binary formats.
-/

namespace OneBeat

/-- A floating-point type: its operations, comparisons and literals. -/
class FloatOps (α : Type) extends Zero α, One α, Add α, Sub α, Mul α, Div α where
  lt : α → α → Bool
  le : α → α → Bool
  eq : α → α → Bool
  ofRat : ℚ → α

/-- The operations that only `double` has. -/
class DoubleOps (D : Type) extends FloatOps D where
  ofInt : ℤ → D
  /-- `static_cast<int64_t>`. -/
  truncate : D → ℤ
  pow : D → D → D
  cos : D → D

/-- `static_cast<float>`. -/
class Narrow (F D : Type) where
  narrow : D → F

/-- Values of `float`.  An operation is the one on doubles, narrowed: a double has more than twice
the bits, so rounding twice is rounding once. -/
structure IeeeFloat where
  value : Double
  deriving DecidableEq

/-- Values of `double`. -/
structure IeeeDouble where
  value : Double
  deriving DecidableEq

instance : FloatOps IeeeFloat where
  zero := ⟨0⟩
  one := ⟨1⟩
  add a b := ⟨(a.value.add b.value).toFloat⟩
  sub a b := ⟨(a.value.sub b.value).toFloat⟩
  mul a b := ⟨(a.value.mul b.value).toFloat⟩
  div a b := ⟨(a.value.div b.value).toFloat⟩
  lt a b := a.value.lt b.value
  le a b := a.value.le b.value
  eq a b := a.value.beq b.value
  ofRat q := ⟨BinaryFormat.single.ofRat q⟩

/-- `std::pow` at the exponent zero and `std::cos` at zero; elsewhere they are left open. -/
instance : DoubleOps IeeeDouble where
  zero := ⟨0⟩
  one := ⟨1⟩
  add a b := ⟨a.value.add b.value⟩
  sub a b := ⟨a.value.sub b.value⟩
  mul a b := ⟨a.value.mul b.value⟩
  div a b := ⟨a.value.div b.value⟩
  lt a b := a.value.lt b.value
  le a b := a.value.le b.value
  eq a b := a.value.beq b.value
  ofRat q := ⟨BinaryFormat.double.ofRat q⟩
  ofInt n := ⟨.ofInt n⟩
  truncate a := a.value.truncate
  pow _ exponent := ⟨if exponent.value = 0 then 1 else .nan⟩
  cos a := ⟨if a.value = 0 then 1 else .nan⟩

instance : Narrow IeeeFloat IeeeDouble where
  narrow a := ⟨a.value.toFloat⟩

export FloatOps (ofRat)
export DoubleOps (ofInt truncate)
export Narrow (narrow)

end OneBeat
