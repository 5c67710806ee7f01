import Mathlib.Tactic.Ring
import Mathlib.Algebra.Order.Ring.Int
import SlithyTove.Framework.MachineInt

/-!
# Fractions of a fee over a size

`FeeFrac` (`util/feefrac.h`): fractions that are compared by cross multiplication.  `>>` compares
the fractions; `<` breaks ties by the size, the larger size being less.  The products have 96 bits
in the source, which is enough for exact ones (`higher_eq_feeRateCompare`).  A fee has 64 bits and a
size 32: `+` and `-` are the exact sum and difference here, and `checkedValue` is what the source
has of them.
-/

namespace SlithyTove

open Framework

/-- `FeeFrac`. -/
@[ext]
structure FeeFrac where
  fee : ℤ
  size : ℤ
  deriving DecidableEq, Repr

namespace FeeFrac

/-- The empty fraction. -/
instance : Zero FeeFrac := ⟨⟨0, 0⟩⟩

/-- `operator+`. -/
instance : Add FeeFrac := ⟨fun a b => ⟨a.fee + b.fee, a.size + b.size⟩⟩

/-- `operator-`. -/
instance : Sub FeeFrac := ⟨fun a b => ⟨a.fee - b.fee, a.size - b.size⟩⟩

@[simp] lemma zero_fee : (0 : FeeFrac).fee = 0 := rfl
@[simp] lemma zero_size : (0 : FeeFrac).size = 0 := rfl
variable (a : FeeFrac)

variable (b : FeeFrac)

@[simp] lemma add_fee : (a + b).fee = a.fee + b.fee := rfl
@[simp] lemma add_size : (a + b).size = a.size + b.size := rfl
@[simp] lemma sub_fee : (a - b).fee = a.fee - b.fee := rfl
@[simp] lemma sub_size : (a - b).size = a.size - b.size := rfl

instance : AddCommMonoid FeeFrac where
  add_assoc a b c := FeeFrac.ext (add_assoc a.fee b.fee c.fee) (add_assoc a.size b.size c.size)
  zero_add a := FeeFrac.ext (zero_add a.fee) (zero_add a.size)
  add_zero a := FeeFrac.ext (add_zero a.fee) (add_zero a.size)
  add_comm a b := FeeFrac.ext (add_comm a.fee b.fee) (add_comm a.size b.size)
  nsmul := nsmulRec

/-- A fraction with a fee of 64 bits and a size of 32 bits. -/
def Representable (f : FeeFrac) : Prop := InRange 64 f.fee ∧ InRange 32 f.size

instance (f : FeeFrac) : Decidable f.Representable := inferInstanceAs (Decidable (_ ∧ _))

/-- The result of adding or subtracting fees and sizes. -/
def checkedValue (f : FeeFrac) : Option FeeFrac := do
  let fee ← checked 64 f.fee
  let size ← checked 32 f.size
  return ⟨fee, size⟩

lemma checkedValue_eq (f : FeeFrac) :
    f.checkedValue = if f.Representable then some f else none := by
  simp only [checkedValue, checked, Representable]
  split_ifs <;> simp_all

lemma checkedValue_of_representable {f : FeeFrac} (h : f.Representable) :
    checkedValue f = some f := by
  rw [checkedValue_eq, if_pos h]

/-- `a >> b`: a strictly higher feerate. -/
def higher (b : FeeFrac) : Bool := a.fee * b.size > b.fee * a.size

/-- `a < b`, generated from `<=>`. -/
def less (b : FeeFrac) : Bool :=
  if a.fee * b.size = b.fee * a.size then b.size < a.size else a.fee * b.size < b.fee * a.size

/-- `a <= b`, generated from `<=>`. -/
def lessEq (b : FeeFrac) : Bool :=
  if a.fee * b.size = b.fee * a.size then b.size ≤ a.size else a.fee * b.size < b.fee * a.size

/-- `std::max`. -/
def max (b : FeeFrac) : FeeFrac := if a.less b then b else a

lemma higher_of_not_less {a b : FeeFrac} (ha : 0 < a.size) (hb : 0 < b.size)
    (hless : a.less b = false) (hhigher : b.higher ⟨1, 1⟩ = true) : a.higher ⟨1, 1⟩ = true := by
  simp only [higher, decide_eq_true_eq, gt_iff_lt, mul_one, one_mul] at hhigher ⊢
  have hcross : b.fee * a.size ≤ a.fee * b.size := by
    unfold less at hless
    split at hless
    next heq => exact heq.ge
    next => exact not_lt.1 (of_decide_eq_false hless)
  have hlt : a.size * b.size < a.fee * b.size :=
    calc a.size * b.size < a.size * b.fee := mul_lt_mul_of_pos_left hhigher ha
      _ = b.fee * a.size := mul_comm _ _
      _ ≤ a.fee * b.size := hcross
  exact lt_of_mul_lt_mul_right hlt hb.le

lemma less_asymm {a b : FeeFrac} (h : a.less b = true) : b.less a = false := by
  unfold less at h ⊢
  split at h
  next heq =>
    rw [if_pos heq.symm]
    have hsize := of_decide_eq_true h
    exact decide_eq_false (by omega)
  next hne =>
    rw [if_neg fun heq => hne heq.symm]
    have hlt := of_decide_eq_true h
    exact decide_eq_false (by omega)

end FeeFrac

end SlithyTove
