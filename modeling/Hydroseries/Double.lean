/-!
# Numbers of double precision

The numbers of a run, by their bits: a sign, eleven bits of exponent and fifty-two of fraction. Unlike
the floats of the machine they keep the sign of a value that is not a number, because the total order
of the bits puts such values at either end. The order, the tests and the changes of sign are defined
on the bits; arithmetic goes through the floats of the machine.
-/

namespace Hydroseries

structure Double where
  bits : UInt64

namespace Double

/-! ### Parts -/

def signBit : UInt64 := 0x8000000000000000

def infinityBits : UInt64 := 0x7FF0000000000000

/-- The bits apart from the sign; they are ordered as the magnitudes are. -/
def magnitude (x : Double) : UInt64 := x.bits &&& 0x7FFFFFFFFFFFFFFF

/-- True for values below zero, for the negative zero, and for what is not a number with that sign. -/
def isNegative (x : Double) : Bool := x.bits >>> 63 == 1

def exponentBits (x : Double) : Nat := ((x.bits >>> 52) &&& 0x7FF).toNat

def fractionBits (x : Double) : Nat := (x.bits &&& 0xFFFFFFFFFFFFF).toNat

/-- True for what is not a number. -/
def isNaN (x : Double) : Bool := infinityBits < x.magnitude

def isInf (x : Double) : Bool := x.magnitude == infinityBits

def isFinite (x : Double) : Bool := x.magnitude < infinityBits

/-! ### Values -/

/-- The result of an operation that is not defined. -/
def invalid : Double := ⟨0xFFF8000000000000⟩

/-- What is not a number where a text or a setting says so. -/
def nan : Double := ⟨0x7FF8000000000000⟩

def infinity : Double := ⟨infinityBits⟩

def toFloat (x : Double) : Float := Float.ofBits x.bits

/-- The bits of a float of the machine, which does not know signs of what is not a number. -/
def ofFloat (x : Float) : Double := if x.isNaN then invalid else ⟨x.toBits⟩

def ofNat (n : Nat) : Double := ofFloat (Float.ofNat n)

def ofInt (n : Int) : Double := ofFloat (Float.ofInt n)

/-- The nearest number to `digits * 10 ^ exp`, or to `digits / 10 ^ exp` where the exponent is
negative. -/
def ofScientific (digits : Nat) (negativeExponent : Bool) (exp : Nat) : Double :=
  ofFloat (Float.ofScientific digits negativeExponent exp)

instance : Inhabited Double := ⟨⟨0⟩⟩

instance numberLiteral (n : Nat) : OfNat Double n := ⟨ofNat n⟩

instance : OfScientific Double := ⟨ofScientific⟩

instance : Repr Double := ⟨fun x n => reprPrec x.toFloat n⟩

/-! ### Signs -/

def neg (x : Double) : Double := ⟨x.bits ^^^ signBit⟩

def abs (x : Double) : Double := ⟨x.magnitude⟩

instance : Neg Double := ⟨neg⟩

/-! ### Order -/

/-- The place of a number among all others; both zeros are at zero. -/
def rank (x : Double) : Int :=
  if x.isNegative then -(x.magnitude.toNat : Int) else x.magnitude.toNat

/-- The strict order of the numbers: both zeros are equal, and what is not a number has no place. -/
def less (x y : Double) : Bool :=
  !x.isNaN && !y.isNaN &&
    match x.isNegative, y.isNegative with
    | false, false => x.magnitude < y.magnitude
    | true, true => y.magnitude < x.magnitude
    | true, false => x.magnitude != 0 || y.magnitude != 0
    | false, true => false

/-- Equality of numbers: both zeros are equal, and what is not a number equals nothing. -/
def equal (x y : Double) : Bool :=
  !x.isNaN && !y.isNaN && x.magnitude == y.magnitude &&
    (x.isNegative == y.isNegative || x.magnitude == 0)

/-- The total order of the bits: `-0 < 0`, and what is not a number stands at the end that its sign
tells. -/
def totalLe (x y : Double) : Bool :=
  match x.isNegative, y.isNegative with
  | false, false => x.magnitude ≤ y.magnitude
  | true, true => y.magnitude ≤ x.magnitude
  | negative, _ => negative

instance : BEq Double := ⟨equal⟩

instance : LT Double := ⟨fun x y => less x y = true⟩

instance : LE Double := ⟨fun x y => (less x y || equal x y) = true⟩

instance : DecidableLT Double := fun x y => inferInstanceAs (Decidable (less x y = true))

instance : DecidableLE Double := fun x y => inferInstanceAs (Decidable ((less x y || equal x y) = true))

/-! ### Arithmetic

An operand that is not a number is the result, the left one if there are two; where no operand is at
fault but the operation is not defined, the result is `invalid`. -/

def lift (f : Float → Float) (x : Double) : Double :=
  let r := f x.toFloat
  if r.isNaN then (if x.isNaN then x else invalid) else ⟨r.toBits⟩

def lift₂ (f : Float → Float → Float) (x y : Double) : Double :=
  let r := f x.toFloat y.toFloat
  if r.isNaN then (if x.isNaN then x else if y.isNaN then y else invalid) else ⟨r.toBits⟩

instance : Add Double := ⟨lift₂ (· + ·)⟩

instance : Sub Double := ⟨lift₂ (· - ·)⟩

instance : Mul Double := ⟨lift₂ (· * ·)⟩

instance : Div Double := ⟨lift₂ (· / ·)⟩

/-- The largest whole number that is not above. -/
def floor : Double → Double := lift Float.floor

/-- The least whole number that is not below. -/
def ceil : Double → Double := lift Float.ceil

def sqrt : Double → Double := lift Float.sqrt

def exp : Double → Double := lift Float.exp

def log : Double → Double := lift Float.log

def log10 : Double → Double := lift Float.log10

def sin : Double → Double := lift Float.sin

def cos : Double → Double := lift Float.cos

def tan : Double → Double := lift Float.tan

def pow : Double → Double → Double := lift₂ Float.pow

/-! ### Laws -/

/-- Changing the sign twice changes nothing, also for what is not a number. -/
theorem neg_neg (x : Double) : -(-x) = x := by
  show (⟨x.bits ^^^ signBit ^^^ signBit⟩ : Double) = x
  rw [UInt64.xor_assoc, UInt64.xor_self, UInt64.xor_zero]

/-- Numbers are ordered by their ranks. -/
theorem less_iff (x y : Double) :
    x.less y = true ↔ x.isNaN = false ∧ y.isNaN = false ∧ x.rank < y.rank := by
  have hx : x.magnitude = 0 ↔ x.magnitude.toNat = 0 := UInt64.toNat_inj.symm
  have hy : y.magnitude = 0 ↔ y.magnitude.toNat = 0 := UInt64.toNat_inj.symm
  unfold less rank
  cases x.isNaN <;> cases y.isNaN <;> cases x.isNegative <;> cases y.isNegative <;>
    simp [UInt64.lt_iff_toNat_lt, hx, hy] <;> omega

/-- Numbers are equal when their ranks are. -/
theorem equal_iff (x y : Double) :
    x.equal y = true ↔ x.isNaN = false ∧ y.isNaN = false ∧ x.rank = y.rank := by
  have h : x.magnitude = y.magnitude ↔ x.magnitude.toNat = y.magnitude.toNat :=
    UInt64.toNat_inj.symm
  have hx : x.magnitude = 0 ↔ x.magnitude.toNat = 0 := UInt64.toNat_inj.symm
  unfold equal rank
  cases x.isNaN <;> cases y.isNaN <;> cases x.isNegative <;> cases y.isNegative <;>
    simp [h, hx] <;> omega

/-- Of two numbers one comes first. -/
theorem totalLe_total (x y : Double) : totalLe x y || totalLe y x := by
  unfold totalLe
  cases x.isNegative <;> cases y.isNegative <;> simp [UInt64.le_total]

/-- The total order is transitive. -/
theorem totalLe_trans {x y z : Double} (h : totalLe x y) (k : totalLe y z) : totalLe x z := by
  unfold totalLe at *
  cases hx : x.isNegative <;> cases hy : y.isNegative <;> cases hz : z.isNegative <;>
    simp_all <;> first | exact UInt64.le_trans h k | exact UInt64.le_trans k h

end Double

end Hydroseries
