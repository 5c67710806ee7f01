import SlithyTove.Framework.Loop
import SlithyTove.Framework.Radix

/-!
# `base_uint`: multi-precision unsigned integers on 32-bit limbs

The embedding of `arith_uint256.h` and the first half of `arith_uint256.cpp`: a `base_uint` is
`WIDTH` limbs of 32 bits, least significant first, and every operator is the limb loop the
source runs, with its 64-bit accumulators (`UInt64`) and its carries.  `WIDTH` stays a
parameter, as the template argument does; `ArithUint256` is the instance at eight limbs.

Nothing here mentions the integer a value denotes.  `Arith/BaseUintValue.lean` reads each loop
as the operation on integers modulo `2^(32·WIDTH)` that it is meant to compute.
-/

namespace SlithyTove

/-- `base_uint<BITS>` with `WIDTH = BITS / 32`: the limb array `pn`. -/
structure BaseUint (WIDTH : ℕ) where
  pn : Vector UInt32 WIDTH
  deriving DecidableEq, Repr

/-- `arith_uint256`. -/
abbrev ArithUint256 := BaseUint 8

namespace BaseUint

variable {WIDTH : ℕ}

/-! ## Construction -/

/-- The default constructor: every limb zero. -/
def zero : BaseUint WIDTH := ⟨Vector.replicate WIDTH 0⟩

/-- `base_uint(uint64_t b)`: the low word in limb 0, the high word in limb 1, zeros above. -/
def ofUInt64 (b : UInt64) : BaseUint WIDTH :=
  ⟨Vector.ofFn fun i =>
    if i.val = 0 then b.toUInt32 else if i.val = 1 then (b >>> 32).toUInt32 else 0⟩

/-! ## Addition, complement, negation -/

variable (a : BaseUint WIDTH)

/-- `operator~`. -/
def complement : BaseUint WIDTH := ⟨Vector.ofFn fun i => ~~~ a.pn[i]⟩

/-- The loop of prefix `operator++` from limb `i` on, for at most `fuel` limbs: increment, and go
up while the limb wrapped to zero. -/
def incrementFrom : (fuel : ℕ) → Vector UInt32 WIDTH → (i : ℕ) → Vector UInt32 WIDTH
  | 0, pn, _ => pn
  | fuel + 1, pn, i =>
    if h : i < WIDTH then
      let pn' := pn.set i (pn[i] + 1)
      if pn'[i] = 0 then incrementFrom fuel pn' (i + 1) else pn'
    else pn

/-- Prefix `operator++`. -/
def increment : BaseUint WIDTH := ⟨incrementFrom WIDTH a.pn 0⟩

/-- Unary `operator-`: complement, then increment. -/
def neg : BaseUint WIDTH := increment (complement a)

/-- One pass of the loop of `operator+=`. -/
def addStep (b : Vector UInt32 WIDTH) (i : ℕ) (hi : i < WIDTH)
    (s : Vector UInt32 WIDTH × UInt64) : Vector UInt32 WIDTH × UInt64 :=
  let n : UInt64 := s.2 + s.1[i].toUInt64 + b[i].toUInt64
  (s.1.set i (n &&& 0xffffffff).toUInt32, n >>> 32)

/-- `operator+=(const base_uint&)`. -/
def add (b : BaseUint WIDTH) : BaseUint WIDTH :=
  ⟨(Nat.fold WIDTH (addStep b.pn) (a.pn, 0)).1⟩

/-- `operator-=(const base_uint&)`: the source adds the negation. -/
def sub (b : BaseUint WIDTH) : BaseUint WIDTH := add a (neg b)

/-! ## Multiplication -/

/-- One pass of the loop of `operator*=(uint32_t)`. -/
def mul32Step (b32 : UInt32) (i : ℕ) (hi : i < WIDTH)
    (s : Vector UInt32 WIDTH × UInt64) : Vector UInt32 WIDTH × UInt64 :=
  let n : UInt64 := s.2 + b32.toUInt64 * s.1[i].toUInt64
  (s.1.set i (n &&& 0xffffffff).toUInt32, n >>> 32)

/-- `operator*=(uint32_t b32)`. -/
def mul32 (b32 : UInt32) : BaseUint WIDTH :=
  ⟨(Nat.fold WIDTH (mul32Step b32) (a.pn, 0)).1⟩

/-- One pass of the inner loop of `operator*=`: limb `i` of `b` times the outer limb `x`,
accumulated at limb `i + j`. -/
def mulStep (b : Vector UInt32 WIDTH) (x : UInt32) (j : ℕ) (i : ℕ) (hi : i < WIDTH - j)
    (s : Vector UInt32 WIDTH × UInt64) : Vector UInt32 WIDTH × UInt64 :=
  let n : UInt64 := s.2 + s.1[i + j].toUInt64 + x.toUInt64 * b[i].toUInt64
  (s.1.set (i + j) (n &&& 0xffffffff).toUInt32, n >>> 32)

/-- One row of `operator*=`: the inner loop `for (i = 0; i + j < WIDTH; i++)`. -/
def mulRow (b : Vector UInt32 WIDTH) (x : UInt32) (j : ℕ) (a : Vector UInt32 WIDTH) :
    Vector UInt32 WIDTH :=
  (Nat.fold (WIDTH - j) (mulStep b x j) (a, 0)).1

/-- `operator*=(const base_uint&)`: the rows are accumulated into a fresh zero value. -/
def mul (b : BaseUint WIDTH) : BaseUint WIDTH :=
  ⟨Nat.fold WIDTH (fun j hj acc => mulRow b.pn a.pn[j] j acc) (Vector.replicate WIDTH 0)⟩

/-! ## Shifts -/

/-- One pass of `operator<<=`, with `k` whole limbs and `s` remaining bits. -/
def shlStep (a : Vector UInt32 WIDTH) (k s i : ℕ) (hi : i < WIDTH) (pn : Vector UInt32 WIDTH) :
    Vector UInt32 WIDTH :=
  let pn := if h : i + k + 1 < WIDTH ∧ s ≠ 0 then
      pn.set (i + k + 1) (pn[i + k + 1] ||| (a[i] >>> (32 - s).toUInt32)) h.1
    else pn
  if h : i + k < WIDTH then
    pn.set (i + k) (pn[i + k] ||| (a[i] <<< s.toUInt32)) h
  else pn

/-- `operator<<=`. -/
def shl (shift : ℕ) : BaseUint WIDTH :=
  ⟨Nat.fold WIDTH (shlStep a.pn (shift / 32) (shift % 32)) (Vector.replicate WIDTH 0)⟩

/-- One pass of `operator>>=`.  The source's `i - k - 1 >= 0` is on `int`. -/
def shrStep (a : Vector UInt32 WIDTH) (k s i : ℕ) (hi : i < WIDTH) (pn : Vector UInt32 WIDTH) :
    Vector UInt32 WIDTH :=
  let pn := if k + 1 ≤ i ∧ s ≠ 0 then
      pn.set (i - k - 1) (pn[i - k - 1] ||| (a[i] <<< (32 - s).toUInt32))
    else pn
  if k ≤ i then
    pn.set (i - k) (pn[i - k] ||| (a[i] >>> s.toUInt32))
  else pn

/-- `operator>>=`. -/
def shr (shift : ℕ) : BaseUint WIDTH :=
  ⟨Nat.fold WIDTH (shrStep a.pn (shift / 32) (shift % 32)) (Vector.replicate WIDTH 0)⟩

/-! ## Comparison and bit length -/

/-- `CompareTo`, from the limb below `pos` down. -/
def compareFrom (a b : Vector UInt32 WIDTH) : (pos : ℕ) → pos ≤ WIDTH → Ordering
  | 0, _ => .eq
  | i + 1, h =>
    if a[i] < b[i] then .lt
    else if b[i] < a[i] then .gt
    else compareFrom a b i (by omega)

/-- `CompareTo`: `-1`, `0`, `1` are `.lt`, `.eq`, `.gt`. -/
def compareTo (b : BaseUint WIDTH) : Ordering := compareFrom a.pn b.pn WIDTH le_rfl

/-- The relational operators, all read off `CompareTo`. -/
def gt (a b : BaseUint WIDTH) : Bool := compareTo a b == .gt

/-- `operator<`. -/
def lt (a b : BaseUint WIDTH) : Bool := compareTo a b == .lt

/-- `operator>=`. -/
def ge (b : BaseUint WIDTH) : Bool := compareTo a b != .lt

/-- `EqualTo(uint64_t b)`: every limb from the third up is zero and the low two are the halves
of `b`. -/
def equalTo (b : UInt64) : Bool :=
  (List.range WIDTH).all fun i =>
    if i = 1 then a.pn[i]?.getD 0 == (b >>> 32).toUInt32
    else if i = 0 then a.pn[i]?.getD 0 == (b &&& 0xffffffff).toUInt32
    else a.pn[i]?.getD 0 == 0

/-- The inner loop of `bits`: the highest set bit of a nonzero limb, counted from one, looking
at bits `nbits` down to one and answering one if none is set. -/
def limbBits (x : UInt32) : ℕ → ℕ
  | 0 => 1
  | nbits + 1 => if x &&& (1 <<< (nbits + 1).toUInt32) ≠ 0 then nbits + 2 else limbBits x nbits

/-- The outer loop of `bits`, from the limb below `pos` down. -/
def bitsFrom (pn : Vector UInt32 WIDTH) : (pos : ℕ) → pos ≤ WIDTH → ℕ
  | 0, _ => 0
  | pos + 1, h =>
    if pn[pos] ≠ 0 then 32 * pos + limbBits pn[pos] 31 else bitsFrom pn pos (by omega)

/-- `bits()`: the position of the highest set bit plus one, or zero. -/
def bits : ℕ := bitsFrom a.pn WIDTH le_rfl

/-- `GetLow64()`. -/
def getLow64 : UInt64 :=
  (a.pn[0]?.getD 0).toUInt64 ||| ((a.pn[1]?.getD 0).toUInt64 <<< (32 : UInt64))

/-! ## Division -/

/-- The registers of the division loop: the running numerator, the shifted divisor and the
quotient under construction. -/
structure DivState (WIDTH : ℕ) where
  num : BaseUint WIDTH
  div : BaseUint WIDTH
  quotient : Vector UInt32 WIDTH

/-- `pn[i] |= x`. -/
def orLimb (pn : Vector UInt32 WIDTH) (i : ℕ) (x : UInt32) : Vector UInt32 WIDTH :=
  if h : i < WIDTH then pn.set i (pn[i] ||| x) else pn

/-- One pass of the loop of `operator/=`: subtract when the shifted divisor fits, set the
quotient bit, shift the divisor back. -/
def divStep (shift : ℕ) (s : DivState WIDTH) : DivState WIDTH :=
  let s := if ge s.num s.div then
      { s with
        num := sub s.num s.div
        quotient := orLimb s.quotient (shift / 32) (1 <<< (shift % 32).toUInt32) }
    else s
  { s with div := shr s.div 1 }

/-- The loop of `operator/=`, from `shift` down to zero, with the divisor aligned first. -/
def divLoop (b : BaseUint WIDTH) (shift : ℕ) : DivState WIDTH :=
  Nat.foldRev (shift + 1) (fun i _ s => divStep i s)
    { num := a, div := shl b shift, quotient := Vector.replicate WIDTH 0 }

/-- `operator/=`.  The `uint_error` of a zero divisor is the error result. -/
def div (b : BaseUint WIDTH) : Except String (BaseUint WIDTH) :=
  let num_bits := bits a
  let div_bits := bits b
  if div_bits = 0 then .error "Division by zero"
  else if num_bits < div_bits then .ok zero
  else .ok ⟨(divLoop a b (num_bits - div_bits)).quotient⟩

end BaseUint

end SlithyTove
