import SlithyTove.Arith.BaseUint
import Mathlib.Data.Nat.Bitwise
import Mathlib.Tactic

/-!
# The integer a `base_uint` denotes

`BaseUint.toNat` is the base-`2³²` value of the limbs.  Every operator of `Arith/BaseUint.lean`
is shown to compute the operation it stands for on that value: sums, differences and products
modulo `2^(32·WIDTH)`, shifts, comparison, bit length, and the exact quotient.

Carry loops are handled by one statement shape, `radixValue` of the limbs written so far plus
the carry at its place; shifts and the quotient bits by `testBit_radixValue`, which turns a
statement about values into one about limbs.
-/

namespace SlithyTove

open Framework Function Nat

namespace BaseUint

variable {WIDTH : ℕ}

/-! ## Limbs and values -/

variable (pn : Vector UInt32 WIDTH)

/-- Limb `i` as a number; limbs past the width read as zero. -/
def limb (i : ℕ) : ℕ := (pn[i]?.getD 0).toNat

/-- The value of the first `n` limbs. -/
def limbValue (n : ℕ) : ℕ := radixValue (2 ^ 32) (limb pn) n

variable (a : BaseUint WIDTH)

/-- The integer a `base_uint` denotes. -/
def toNat : ℕ := limbValue a.pn WIDTH

variable {i : ℕ}

@[simp] lemma limb_eq_getElem (hi : i < WIDTH) : limb pn i = pn[i].toNat := by
  simp [limb, hi]

lemma limb_of_le (hi : WIDTH ≤ i) : limb pn i = 0 := by
  simp [limb, Vector.getElem?_eq_none hi]

lemma limb_lt (i : ℕ) : limb pn i < 2 ^ 32 :=
  UInt32.toNat_lt _

variable {k : ℕ}

lemma limb_set (hk : k < WIDTH) (x : UInt32) :
    limb (pn.set k x hk) = Function.update (limb pn) k x.toNat := by
  funext i
  by_cases hik : i = k
  · subst hik
    rw [update_self, limb_eq_getElem _ hk, Vector.getElem_set_self]
  · rw [update_of_ne hik, limb, limb, Vector.getElem?_set_ne hk (Ne.symm hik)]

lemma limb_replicate_zero (i : ℕ) : limb (Vector.replicate WIDTH (0 : UInt32)) i = 0 := by
  by_cases hi : i < WIDTH
  · rw [limb_eq_getElem _ hi]
    simp
  · exact limb_of_le _ (by omega)

variable {n : ℕ}

lemma two_pow_eq_mul {m : ℕ} (h : k = m + n) : (2 : ℕ) ^ k = 2 ^ m * 2 ^ n := by
  rw [h, pow_add]

lemma limbValue_lt (n : ℕ) : limbValue pn n < 2 ^ (32 * n) := by
  rw [pow_mul]
  exact radixValue_lt fun i _ => limb_lt pn i

lemma limbValue_succ (n : ℕ) :
    limbValue pn (n + 1) = limbValue pn n + limb pn n * 2 ^ (32 * n) := by
  rw [limbValue, radixValue_succ, ← pow_mul]
  rfl

lemma limbValue_set (hk : k < WIDTH) (hkn : k < n) (x : UInt32) :
    limbValue (pn.set k x hk) n + limb pn k * 2 ^ (32 * k) =
      limbValue pn n + x.toNat * 2 ^ (32 * k) := by
  rw [limbValue, limb_set, pow_mul]
  exact radixValue_update hkn _

lemma limbValue_set_of_le {pn : Vector UInt32 WIDTH} (hk : k < WIDTH) (hkn : n ≤ k)
    (x : UInt32) : limbValue (pn.set k x hk) n = limbValue pn n := by
  rw [limbValue, limb_set]
  exact radixValue_congr fun i hi => update_of_ne (by omega) _ _

@[simp] lemma limbValue_replicate_zero (n : ℕ) :
    limbValue (Vector.replicate WIDTH (0 : UInt32)) n = 0 :=
  radixValue_eq_zero fun i _ => limb_replicate_zero i

lemma toNat_lt : a.toNat < 2 ^ (32 * WIDTH) := limbValue_lt a.pn WIDTH

@[simp] lemma toNat_zero : (zero : BaseUint WIDTH).toNat = 0 := limbValue_replicate_zero _

lemma toNat_injective : Function.Injective (toNat : BaseUint WIDTH → ℕ) := by
  intro a b h
  have hlimb := digit_eq_of_radixValue_eq (fun i _ => limb_lt a.pn i) (fun i _ => limb_lt b.pn i) h
  obtain ⟨pa⟩ := a
  congr 1
  refine Vector.ext fun i hi => ?_
  have := hlimb i hi
  rw [limb_eq_getElem _ hi, limb_eq_getElem _ hi] at this
  exact UInt32.toNat_inj.1 this

lemma testBit_limbValue (j : ℕ) :
    (limbValue pn WIDTH).testBit j = (limb pn (j / 32)).testBit (j % 32) := by
  rw [limbValue, testBit_radixValue (by decide) (fun i _ => limb_lt pn i)]
  split
  · rfl
  · rw [limb_of_le pn (by omega)]
    simp

lemma toNat_shiftRight_32 (n : UInt64) : (n >>> 32).toNat = n.toNat / 2 ^ 32 := by
  rw [UInt64.toNat_shiftRight, show (32 : UInt64).toNat % 64 = 32 from rfl,
    shiftRight_eq_div_pow]

lemma toNat_ofUInt64 (hw : 2 ≤ WIDTH) (b : UInt64) :
    (ofUInt64 b : BaseUint WIDTH).toNat = b.toNat := by
  have hlimb : ∀ i, limb (ofUInt64 b : BaseUint WIDTH).pn i =
      if i = 0 then b.toNat % 2 ^ 32 else if i = 1 then b.toNat / 2 ^ 32 else 0 := by
    intro i
    by_cases hi : i < WIDTH
    · rw [limb_eq_getElem _ hi]
      have hb := b.toNat_lt
      simp only [ofUInt64, Vector.getElem_ofFn]
      split_ifs
      · simp
      · rw [UInt64.toNat_toUInt32, toNat_shiftRight_32]
        omega
      · rfl
    · rw [limb_of_le _ (by omega), if_neg (by omega), if_neg (by omega)]
  have hval : toNat (ofUInt64 b : BaseUint WIDTH) = limbValue (ofUInt64 b : BaseUint WIDTH).pn 2 :=
    radixValue_eq_of_le hw fun i h2 _ => by rw [hlimb, if_neg (by omega), if_neg (by omega)]
  rw [hval, limbValue_succ, limbValue_succ, hlimb, hlimb]
  simp only [limbValue]
  norm_num
  omega

/-! ## Addition, complement, negation -/

/-- One limb of an addition: the 64-bit accumulator does not wrap, and splits into the limb
written and the carry passed on. -/
lemma accumulate_split {n : UInt64} {v : ℕ} (hn : n.toNat = v) :
    ((n &&& 0xffffffff).toUInt32).toNat + (n >>> 32).toNat * 2 ^ 32 = v := by
  have hand : (n &&& 0xffffffff).toNat = n.toNat % 2 ^ 32 := by
    exact and_two_pow_sub_one_eq_mod n.toNat 32
  rw [UInt64.toNat_toUInt32, hand, toNat_shiftRight_32, hn]
  omega

/-- What the addition loop has done before limb `i`: the sum of the low `i` limbs, with the
carry at place `i`, and nothing above touched. -/
structure AddInv (a b : Vector UInt32 WIDTH) (i : ℕ) (s : Vector UInt32 WIDTH × UInt64) : Prop where
  low : limbValue s.1 i + s.2.toNat * 2 ^ (32 * i) = limbValue a i + limbValue b i
  high : ∀ m, i ≤ m → limb s.1 m = limb a m
  carry : s.2.toNat ≤ 1

variable {s : Vector UInt32 WIDTH × UInt64}

lemma addStep_inv (a b : Vector UInt32 WIDTH) (hi : i < WIDTH) (h : AddInv a b i s) :
    AddInv a b (i + 1) (addStep b i hi s) := by
  obtain ⟨low, high, carry⟩ := h
  have hai := high i le_rfl
  have hla := limb_lt s.1 i
  have hlb := limb_lt b i
  have hn : (s.2 + s.1[i].toUInt64 + b[i].toUInt64).toNat =
      s.2.toNat + limb s.1 i + limb b i := by
    rw [limb_eq_getElem _ hi, limb_eq_getElem _ hi] at *
    simp only [UInt64.toNat_add, UInt32.toNat_toUInt64]
    omega
  have hsplit := accumulate_split hn
  refine ⟨?_, ?_, ?_⟩
  · simp only [addStep]
    rw [limbValue_succ, limbValue_set_of_le hi le_rfl, limb_set, update_self,
      limbValue_succ, limbValue_succ, ← hai]
    rw [show 32 * (i + 1) = 32 + 32 * i by ring, pow_add]
    generalize 2 ^ (32 * i) = p at *
    linear_combination low + p * hsplit
  · intro m hm
    simp only [addStep]
    rw [limb_set, update_of_ne (by omega), high m (by omega)]
  · simp only [addStep]
    omega

variable (b : BaseUint WIDTH)

lemma toNat_add : (add a b).toNat = (a.toNat + b.toNat) % 2 ^ (32 * WIDTH) := by
  have h := fold_invariant (AddInv a.pn b.pn) WIDTH (addStep b.pn) (a.pn, 0)
    ⟨by simp [limbValue], fun m _ => rfl, by simp⟩
    (fun i hi t ht => addStep_inv a.pn b.pn hi ht)
  have hlow := h.low
  have hlt := (add a b).toNat_lt
  rw [show a.toNat + b.toNat = limbValue a.pn WIDTH + limbValue b.pn WIDTH from rfl, ← hlow,
    add_mul_mod_self_right]
  exact (mod_eq_of_lt hlt).symm

lemma limb_complement (hi : i < WIDTH) : limb (complement a).pn i = 2 ^ 32 - 1 - limb a.pn i := by
  rw [limb_eq_getElem _ hi, limb_eq_getElem _ hi]
  simp only [complement, Vector.getElem_ofFn, UInt32.toNat_not]
  rfl

lemma toNat_complement : (complement a).toNat = 2 ^ (32 * WIDTH) - 1 - a.toNat := by
  have key : ∀ n ≤ WIDTH, limbValue (complement a).pn n + limbValue a.pn n + 1 = 2 ^ (32 * n) := by
    intro n
    induction n with
    | zero => intro _; simp [limbValue]
    | succ n ih =>
      intro hn
      have hla := limb_lt a.pn n
      rw [limbValue_succ, limbValue_succ, limb_complement a (by omega),
        show 32 * (n + 1) = 32 + 32 * n by ring, pow_add]
      generalize 2 ^ (32 * n) = p at *
      have hlimb : (2 ^ 32 - 1 - limb a.pn n) * p + limb a.pn n * p + p = 2 ^ 32 * p := by
        rw [← add_mul, ← succ_mul]
        congr 1
        omega
      omega
  have := key WIDTH le_rfl
  rw [toNat, toNat]
  omega

lemma limbValue_incrementFrom (fuel : ℕ) (pn : Vector UInt32 WIDTH) (i : ℕ) (hi : i ≤ WIDTH)
    (hfuel : WIDTH ≤ i + fuel) :
    limbValue (incrementFrom fuel pn i) WIDTH % 2 ^ (32 * WIDTH) =
      (limbValue pn WIDTH + 2 ^ (32 * i)) % 2 ^ (32 * WIDTH) := by
  fun_induction incrementFrom fuel pn i with
  | case1 i pn =>
    rw [show i = WIDTH by omega, add_mod_right]
  | case2 fuel pn i h pn' hzero ih =>
    rw [ih (by omega) (by omega)]
    -- the limb wrapped: it held `2³² - 1`, so clearing it and carrying adds one place
    have hval : limbValue pn' WIDTH + _ = _ := limbValue_set pn h h (pn[i] + 1)
    have hz : (pn[i] + 1).toNat = 0 := by
      have hset : pn'[i] = pn[i] + 1 := Vector.getElem_set_self ..
      rw [← hset, hzero]
      rfl
    have hlimb : limb pn i = 2 ^ 32 - 1 := by
      have hlt := limb_lt pn i
      rw [limb_eq_getElem _ h] at hlt ⊢
      simp at hz
      omega
    rw [hz, hlimb] at hval
    have hcarry : limbValue pn' WIDTH + 2 ^ (32 * (i + 1)) = limbValue pn WIDTH + 2 ^ (32 * i) := by
      clear_value pn'
      rw [show 32 * (i + 1) = 32 + 32 * i by ring, pow_add]
      omega
    rw [hcarry]
  | case3 fuel pn i h pn' hzero =>
    have hval : limbValue pn' WIDTH + _ = _ := limbValue_set pn h h (pn[i] + 1)
    have hne : (pn[i] + 1).toNat = limb pn i + 1 := by
      have hset : pn'[i] = pn[i] + 1 := Vector.getElem_set_self ..
      rw [hset] at hzero
      have hz : (pn[i] + 1).toNat ≠ 0 := fun h0 => hzero (UInt32.toNat_inj.1 (by simpa using h0))
      have hlt := limb_lt pn i
      rw [limb_eq_getElem _ h] at hlt ⊢
      simp at hz ⊢
      omega
    rw [hne, add_mul, one_mul] at hval
    have hsum : limbValue pn' WIDTH = limbValue pn WIDTH + 2 ^ (32 * i) := by
      clear_value pn'
      omega
    rw [hsum]
  | case4 fuel pn i h =>
    rw [show i = WIDTH by omega, add_mod_right]

lemma toNat_increment : (increment a).toNat = (a.toNat + 1) % 2 ^ (32 * WIDTH) := by
  have h := limbValue_incrementFrom WIDTH a.pn 0 (zero_le _) (by omega)
  rwa [mod_eq_of_lt (limbValue_lt _ _), mul_zero, pow_zero] at h

lemma toNat_neg : (neg a).toNat = (2 ^ (32 * WIDTH) - a.toNat) % 2 ^ (32 * WIDTH) := by
  have hlt := a.toNat_lt
  rw [neg, toNat_increment, toNat_complement]
  congr 1
  omega

lemma toNat_neg_emod : ((neg a).toNat : ℤ) = -(a.toNat : ℤ) % 2 ^ (32 * WIDTH) := by
  rw [toNat_neg]
  push_cast [a.toNat_lt.le]
  rw [sub_eq_add_neg, Int.add_emod_left]

lemma toNat_sub_of_le {a b : BaseUint WIDTH} (h : b.toNat ≤ a.toNat) :
    (sub a b).toNat = a.toNat - b.toNat := by
  have hlt := a.toNat_lt
  rw [sub, toNat_add, toNat_neg, add_mod_mod,
    show a.toNat + (2 ^ (32 * WIDTH) - b.toNat) = a.toNat - b.toNat + 2 ^ (32 * WIDTH) by omega,
    add_mod_right, mod_eq_of_lt (by omega)]

/-! ## Multiplication -/

/-- What a row of the product has done before column `i`: limb `x` times the low `i` limbs of
`b`, `j` places up, added to what was there, with the carry still to be placed. -/
structure MulInv (acc b : Vector UInt32 WIDTH) (x : UInt32) (j i : ℕ)
    (s : Vector UInt32 WIDTH × UInt64) : Prop where
  value : limbValue s.1 WIDTH + s.2.toNat * 2 ^ (32 * (i + j)) =
    limbValue acc WIDTH + x.toNat * limbValue b i * 2 ^ (32 * j)
  carry : s.2.toNat < 2 ^ 32

lemma mulStep_inv (acc b : Vector UInt32 WIDTH) (x : UInt32) {j : ℕ} (hi : i < WIDTH - j)
    (h : MulInv acc b x j i s) :
    MulInv acc b x j (i + 1) (mulStep b x j i hi s) := by
  obtain ⟨value, carry⟩ := h
  have hij : i + j < WIDTH := by omega
  have hx : x.toNat < 2 ^ 32 := x.toNat_lt
  have hb := limb_lt b i
  have hs := limb_lt s.1 (i + j)
  -- `(2³²-1) + (2³²-1) + (2³²-1)² = 2⁶⁴ - 1`: the accumulator never wraps
  have hprod : x.toNat * limb b i ≤ (2 ^ 32 - 1) * (2 ^ 32 - 1) :=
    Nat.mul_le_mul (by omega) (by omega)
  have hn : (s.2 + s.1[i + j].toUInt64 + x.toUInt64 * b[i].toUInt64).toNat =
      s.2.toNat + limb s.1 (i + j) + x.toNat * limb b i := by
    rw [limb_eq_getElem _ hij, limb_eq_getElem _ (show i < WIDTH by omega)] at *
    simp only [UInt64.toNat_add, UInt64.toNat_mul, UInt32.toNat_toUInt64]
    omega
  have hsplit := accumulate_split hn
  constructor
  · have hset := limbValue_set s.1 hij hij
      ((s.2 + s.1[i + j].toUInt64 + x.toUInt64 * b[i].toUInt64) &&& 0xffffffff).toUInt32
    simp only [mulStep]
    rw [limbValue_succ b i]
    rw [show 32 * (i + 1 + j) = 32 + 32 * (i + j) by ring, pow_add 2 32]
    have hplace : (2 : ℕ) ^ (32 * (i + j)) = 2 ^ (32 * i) * 2 ^ (32 * j) :=
      two_pow_eq_mul (by omega)
    rw [hplace] at hset value ⊢
    generalize (2 : ℕ) ^ (32 * i) = p at *
    generalize (2 : ℕ) ^ (32 * j) = q at *
    linear_combination hset + value + p * q * hsplit
  · simp only [mulStep]
    omega

lemma limbValue_mulRow (acc b : Vector UInt32 WIDTH) (x : UInt32) {j : ℕ} (hj : j < WIDTH) :
    limbValue (mulRow b x j acc) WIDTH ≡
      limbValue acc WIDTH + x.toNat * 2 ^ (32 * j) * limbValue b WIDTH
        [MOD 2 ^ (32 * WIDTH)] := by
  have h := fold_invariant (MulInv acc b x j) (WIDTH - j) (mulStep b x j) (acc, 0)
    ⟨by simp [limbValue], by simp⟩ (fun i hi t ht => mulStep_inv acc b x hi ht)
  have hvalue := h.value
  rw [show WIDTH - j + j = WIDTH by omega] at hvalue
  have hsplit : limbValue b WIDTH = limbValue b (WIDTH - j) +
      2 ^ (32 * (WIDTH - j)) * radixValue (2 ^ 32) (fun i => limb b (WIDTH - j + i)) j := by
    have := radixValue_add (2 ^ 32) (limb b) (WIDTH - j) j
    rwa [show WIDTH - j + j = WIDTH by omega, ← pow_mul] at this
  have hplace : (2 : ℕ) ^ (32 * WIDTH) = 2 ^ (32 * j) * 2 ^ (32 * (WIDTH - j)) :=
    two_pow_eq_mul (by omega)
  -- the limbs of `b` past `WIDTH - j` land beyond the width
  calc limbValue (mulRow b x j acc) WIDTH
      ≡ limbValue acc WIDTH + x.toNat * limbValue b (WIDTH - j) * 2 ^ (32 * j)
        [MOD 2 ^ (32 * WIDTH)] := by
        rw [← hvalue]
        exact (add_mul_mod_self_right _ _ _).symm
    _ ≡ limbValue acc WIDTH + x.toNat * 2 ^ (32 * j) * limbValue b WIDTH
        [MOD 2 ^ (32 * WIDTH)] := by
        rw [hsplit, mul_add, ← add_assoc]
        refine (add_mul_mod_self_right _
          (x.toNat * radixValue (2 ^ 32) (fun i => limb b (WIDTH - j + i)) j) _).symm.trans ?_
        rw [hplace]
        ring_nf

lemma toNat_mul : (mul a b).toNat = a.toNat * b.toNat % 2 ^ (32 * WIDTH) := by
  have h := fold_invariant
    (fun j (acc : Vector UInt32 WIDTH) => limbValue acc WIDTH ≡ limbValue a.pn j * b.toNat
      [MOD 2 ^ (32 * WIDTH)]) WIDTH (fun j hj acc => mulRow b.pn a.pn[j] j acc)
    (Vector.replicate WIDTH 0) (by rw [limbValue_replicate_zero]; simp [limbValue, Nat.ModEq])
    (fun j hj acc hacc => by
      refine (limbValue_mulRow acc b.pn a.pn[j] hj).trans ?_
      rw [limbValue_succ, limb_eq_getElem _ hj, add_mul]
      exact hacc.add_right _)
  rw [← mod_eq_of_lt (mul a b).toNat_lt]
  exact h

/-- The loop of `operator*=(uint32_t)` before limb `i`. -/
structure Mul32Inv (a : Vector UInt32 WIDTH) (b32 : UInt32) (i : ℕ)
    (s : Vector UInt32 WIDTH × UInt64) : Prop where
  low : limbValue s.1 i + s.2.toNat * 2 ^ (32 * i) = limbValue a i * b32.toNat
  high : ∀ m, i ≤ m → limb s.1 m = limb a m
  carry : s.2.toNat < 2 ^ 32

lemma mul32Step_inv (a : Vector UInt32 WIDTH) (b32 : UInt32) (hi : i < WIDTH)
    (h : Mul32Inv a b32 i s) :
    Mul32Inv a b32 (i + 1) (mul32Step b32 i hi s) := by
  obtain ⟨low, high, carry⟩ := h
  have hai := high i le_rfl
  have hb : b32.toNat < 2 ^ 32 := b32.toNat_lt
  have hs := limb_lt s.1 i
  have hprod : b32.toNat * limb s.1 i ≤ (2 ^ 32 - 1) * (2 ^ 32 - 1) :=
    Nat.mul_le_mul (by omega) (by omega)
  have hn : (s.2 + b32.toUInt64 * s.1[i].toUInt64).toNat =
      s.2.toNat + b32.toNat * limb s.1 i := by
    rw [limb_eq_getElem _ hi] at *
    simp only [UInt64.toNat_add, UInt64.toNat_mul, UInt32.toNat_toUInt64]
    omega
  have hsplit := accumulate_split hn
  refine ⟨?_, ?_, ?_⟩
  · simp only [mul32Step]
    rw [limbValue_succ, limbValue_set_of_le hi le_rfl, limb_set, update_self,
      limbValue_succ, ← hai, show 32 * (i + 1) = 32 + 32 * i by ring, pow_add]
    generalize (2 : ℕ) ^ (32 * i) = p at *
    linear_combination low + p * hsplit
  · intro m hm
    simp only [mul32Step]
    rw [limb_set, update_of_ne (by omega), high m (by omega)]
  · simp only [mul32Step]
    omega

lemma toNat_mul32 (b32 : UInt32) :
    (mul32 a b32).toNat = a.toNat * b32.toNat % 2 ^ (32 * WIDTH) := by
  have h := fold_invariant (Mul32Inv a.pn b32) WIDTH (mul32Step b32) (a.pn, 0)
    ⟨by simp [limbValue], fun m _ => rfl, by simp⟩
    (fun i hi t ht => mul32Step_inv a.pn b32 hi ht)
  rw [show a.toNat * b32.toNat = limbValue a.pn WIDTH * b32.toNat from rfl, ← h.low,
    add_mul_mod_self_right]
  exact (mod_eq_of_lt (mul32 a b32).toNat_lt).symm

/-! ## Shifts -/

lemma limbValue_or {pn : Vector UInt32 WIDTH} (hk : k < WIDTH) (x : UInt32) :
    limbValue (pn.set k (pn[k] ||| x) hk) WIDTH =
      limbValue pn WIDTH ||| x.toNat * 2 ^ (32 * k) := by
  refine eq_of_testBit_eq fun j => ?_
  rw [testBit_or, testBit_limbValue, testBit_limbValue, limb_set, testBit_mul_two_pow]
  by_cases hjk : j / 32 = k
  · subst hjk
    rw [update_self, UInt32.toNat_or, testBit_or, limb_eq_getElem _ hk]
    have hle : 32 * (j / 32) ≤ j := mul_div_le j 32
    have hrem : j - 32 * (j / 32) = j % 32 := by omega
    simp [hle, hrem]
  · rw [update_of_ne hjk]
    have hzero : (decide (32 * k ≤ j) && x.toNat.testBit (j - 32 * k)) = false := by
      by_cases hle : 32 * k ≤ j
      · have hbig : 2 ^ 32 ≤ 2 ^ (j - 32 * k) := Nat.pow_le_pow_right (by decide) (by omega)
        rw [testBit_lt_two_pow (lt_of_lt_of_le x.toNat_lt hbig), Bool.and_false]
      · simp [hle]
    rw [hzero, Bool.or_false]

lemma shl_split (x : UInt32) {s : ℕ} (hs : s < 32) :
    x.toNat * 2 ^ s = (x >>> (32 - s).toUInt32).toNat * 2 ^ 32 * (if s = 0 then 0 else 1) +
      (x <<< s.toUInt32).toNat := by
  have hlow : (x <<< s.toUInt32).toNat = x.toNat * 2 ^ s % 2 ^ 32 := by
    rw [UInt32.toNat_shiftLeft, shiftLeft_eq]
    simp [mod_eq_of_lt hs]
  by_cases h0 : s = 0
  · subst h0
    simp
  · have hhigh : (x >>> (32 - s).toUInt32).toNat = x.toNat * 2 ^ s / 2 ^ 32 := by
      rw [UInt32.toNat_shiftRight, shiftRight_eq_div_pow]
      have hpow : (2 : ℕ) ^ 32 = 2 ^ (32 - s) * 2 ^ s := two_pow_eq_mul (by omega)
      simp only [UInt32.toNat_ofNat']
      rw [show (32 - s) % 2 ^ 32 % 32 = 32 - s by omega, hpow,
        Nat.mul_div_mul_right _ _ (Nat.two_pow_pos s)]
    rw [if_neg h0, mul_one, hlow, hhigh]
    omega

lemma or_eq_add_of_lt {x y : ℕ} (hx : x < 2 ^ k) : x ||| y * 2 ^ k = x + y * 2 ^ k := by
  rw [Nat.or_comm, Nat.mul_comm, ← Nat.two_pow_add_eq_or_of_lt hx, Nat.add_comm]

lemma mul_place_mod_of_le {W m : ℕ} (x : ℕ) (hm : W ≤ m) :
    x * 2 ^ (32 * m) % 2 ^ (32 * W) = 0 := by
  obtain ⟨d, rfl⟩ := Nat.exists_eq_add_of_le hm
  rw [mul_add, pow_add, mul_left_comm]
  exact mul_mod_right _ _

lemma mul_place_mod_of_lt {W m x : ℕ} (hx : x < 2 ^ 32) (hm : m < W) :
    x * 2 ^ (32 * m) % 2 ^ (32 * W) = x * 2 ^ (32 * m) := by
  refine mod_eq_of_lt ?_
  calc x * 2 ^ (32 * m) < 2 ^ 32 * 2 ^ (32 * m) :=
        Nat.mul_lt_mul_of_pos_right hx (Nat.two_pow_pos _)
    _ = 2 ^ (32 * (m + 1)) := (two_pow_eq_mul (by omega)).symm
    _ ≤ 2 ^ (32 * W) := Nat.pow_le_pow_right (by decide) (by omega)

lemma limbValue_shlStep (a pn : Vector UInt32 WIDTH) {s : ℕ} (hs : s < 32) (hi : i < WIDTH) :
    limbValue (shlStep a k s i hi pn) WIDTH =
      limbValue pn WIDTH ||| limb a i * 2 ^ s * 2 ^ (32 * (i + k)) % 2 ^ (32 * WIDTH) := by
  have hlow : (a[i] <<< s.toUInt32).toNat < 2 ^ 32 := UInt32.toNat_lt _
  have hsplit := shl_split a[i] hs
  have hplace : (2 : ℕ) ^ (32 * (i + k + 1)) = 2 ^ 32 * 2 ^ (32 * (i + k)) :=
    two_pow_eq_mul (by omega)
  have hparts : limb a i * 2 ^ s * 2 ^ (32 * (i + k)) =
      (a[i] <<< s.toUInt32).toNat * 2 ^ (32 * (i + k)) |||
        (if s = 0 then 0 else (a[i] >>> (32 - s).toUInt32).toNat) * 2 ^ (32 * (i + k + 1)) := by
    have hlt : (a[i] <<< s.toUInt32).toNat * 2 ^ (32 * (i + k)) < 2 ^ (32 * (i + k + 1)) := by
      rw [hplace]
      exact Nat.mul_lt_mul_of_pos_right hlow (Nat.two_pow_pos _)
    rw [or_eq_add_of_lt hlt, limb_eq_getElem _ hi, hsplit, hplace]
    split_ifs <;> ring
  rw [hparts, or_mod_two_pow]
  simp only [shlStep]
  by_cases h1 : i + k < WIDTH
  · rw [dif_pos h1, limbValue_or, mul_place_mod_of_lt hlow h1]
    by_cases h2 : i + k + 1 < WIDTH ∧ s ≠ 0
    · rw [dif_pos h2, limbValue_or, if_neg h2.2, mul_place_mod_of_lt (UInt32.toNat_lt _) h2.1,
        Nat.or_assoc]
      exact congrArg _ (Nat.or_comm _ _)
    · rw [dif_neg h2]
      have hzero : (if s = 0 then 0 else (a[i] >>> (32 - s).toUInt32).toNat) *
          2 ^ (32 * (i + k + 1)) % 2 ^ (32 * WIDTH) = 0 := by
        by_cases h0 : s = 0
        · simp [h0]
        · exact mul_place_mod_of_le _ (by by_contra hlt; exact h2 ⟨by omega, h0⟩)
      rw [hzero, or_zero]
  · rw [dif_neg h1, dif_neg (fun h => h1 (by omega)), mul_place_mod_of_le _ (by omega),
      mul_place_mod_of_le _ (by omega)]
    simp

lemma toNat_shl (shift : ℕ) : (shl a shift).toNat = a.toNat * 2 ^ shift % 2 ^ (32 * WIDTH) := by
  have hs : shift % 32 < 32 := mod_lt _ (by decide)
  have hshift : ∀ i, 2 ^ (shift % 32) * 2 ^ (32 * (i + shift / 32)) = 2 ^ (32 * i) * 2 ^ shift := by
    intro i
    rw [← pow_add]
    exact two_pow_eq_mul (by omega)
  refine fold_invariant (fun i (pn : Vector UInt32 WIDTH) =>
      limbValue pn WIDTH = limbValue a.pn i * 2 ^ shift % 2 ^ (32 * WIDTH)) WIDTH
    (shlStep a.pn (shift / 32) (shift % 32)) (Vector.replicate WIDTH 0)
    (by rw [limbValue_replicate_zero]; simp [limbValue]) (fun i hi pn hpn => ?_)
  rw [limbValue_shlStep a.pn pn hs hi, hpn, ← or_mod_two_pow, limbValue_succ, add_mul]
  congr 1
  have hlt : limbValue a.pn i * 2 ^ shift < 2 ^ (32 * i + shift) := by
    rw [pow_add]
    exact Nat.mul_lt_mul_of_pos_right (limbValue_lt _ _) (Nat.two_pow_pos _)
  have hplace := or_eq_add_of_lt (y := limb a.pn i) hlt
  rw [pow_add, ← hshift i] at hplace
  rw [mul_assoc, hplace, hshift i]
  ring

lemma shr_split (x : UInt32) {s : ℕ} (h0 : s ≠ 0) (hs : s < 32) :
    x.toNat * 2 ^ (32 - s) = (x <<< (32 - s).toUInt32).toNat +
      (x >>> s.toUInt32).toNat * 2 ^ 32 := by
  have h := shl_split x (s := 32 - s) (by omega)
  rw [if_neg (by omega), mul_one, show 32 - (32 - s) = s by omega] at h
  omega

lemma toNat_shiftRight_toUInt32 (x : UInt32) {s : ℕ} (hs : s < 32) :
    (x >>> s.toUInt32).toNat = x.toNat / 2 ^ s := by
  rw [UInt32.toNat_shiftRight, shiftRight_eq_div_pow]
  simp only [UInt32.toNat_ofNat']
  rw [show s % 2 ^ 32 % 32 = s by omega]

lemma limbValue_shrStep (a pn : Vector UInt32 WIDTH) {s : ℕ} (hs : s < 32) (hi : i < WIDTH)
    (hk : k ≤ i) :
    limbValue (shrStep a k s i hi pn) WIDTH =
      limbValue pn WIDTH ||| limb a i * 2 ^ (32 * i) / 2 ^ (32 * k + s) := by
  simp only [shrStep]
  rw [if_pos hk, limbValue_or, limb_eq_getElem _ hi]
  by_cases h1 : k + 1 ≤ i ∧ s ≠ 0
  · rw [if_pos h1, limbValue_or, Nat.or_assoc]
    refine congrArg _ ?_
    have hplace : (2 : ℕ) ^ (32 * (i - k)) = 2 ^ 32 * 2 ^ (32 * (i - k - 1)) :=
      two_pow_eq_mul (by omega)
    have hlt : (a[i] <<< (32 - s).toUInt32).toNat * 2 ^ (32 * (i - k - 1)) <
      2 ^ (32 * (i - k)) := by
      rw [hplace]
      exact Nat.mul_lt_mul_of_pos_right (UInt32.toNat_lt _) (Nat.two_pow_pos _)
    have hpow : (2 : ℕ) ^ (32 * i) = 2 ^ (32 - s) * 2 ^ (32 * (i - k - 1)) * 2 ^ (32 * k + s) := by
      rw [← pow_add]
      exact two_pow_eq_mul (by omega)
    have hlimb : a[i].toNat * 2 ^ (32 * i) =
        a[i].toNat * 2 ^ (32 - s) * 2 ^ (32 * (i - k - 1)) * 2 ^ (32 * k + s) := by
      rw [hpow]
      ring
    rw [or_eq_add_of_lt hlt, hplace, hlimb, Nat.mul_div_cancel _ (Nat.two_pow_pos _),
      shr_split a[i] h1.2 hs]
    ring
  · rw [if_neg h1, toNat_shiftRight_toUInt32 _ hs]
    refine congrArg _ ?_
    -- either the shift is by whole limbs, or this is the lowest surviving limb
    by_cases h0 : s = 0
    · subst h0
      have hpow : (2 : ℕ) ^ (32 * i) = 2 ^ (32 * (i - k)) * 2 ^ (32 * k) :=
        two_pow_eq_mul (by omega)
      rw [pow_zero, Nat.div_one, Nat.add_zero, hpow, ← Nat.mul_assoc,
        Nat.mul_div_cancel _ (Nat.two_pow_pos _)]
    · have hik : i = k := by by_contra hne; exact h1 ⟨by omega, h0⟩
      subst hik
      rw [Nat.sub_self, Nat.mul_zero, pow_zero, Nat.mul_one, pow_add, Nat.mul_comm (2 ^ (32 * i)),
        Nat.mul_div_mul_right _ _ (Nat.two_pow_pos _)]

lemma toNat_shr (shift : ℕ) : (shr a shift).toNat = a.toNat / 2 ^ shift := by
  have hs : shift % 32 < 32 := mod_lt _ (by decide)
  have hshift : 32 * (shift / 32) + shift % 32 = shift := div_add_mod shift 32
  refine fold_invariant (fun i (pn : Vector UInt32 WIDTH) =>
      limbValue pn WIDTH = limbValue a.pn i / 2 ^ shift) WIDTH
    (shrStep a.pn (shift / 32) (shift % 32)) (Vector.replicate WIDTH 0)
    (by rw [limbValue_replicate_zero]; simp [limbValue]) (fun i hi pn hpn => ?_)
  by_cases hk : shift / 32 ≤ i
  · rw [limbValue_shrStep a.pn pn hs hi hk, hpn, hshift, limbValue_succ]
    have hlow := limbValue_lt a.pn i
    by_cases hbig : shift ≤ 32 * i
    · have hpow : (2 : ℕ) ^ (32 * i) = 2 ^ (32 * i - shift) * 2 ^ shift :=
        two_pow_eq_mul (by omega)
      have hlt : limbValue a.pn i / 2 ^ shift < 2 ^ (32 * i - shift) := by
        rw [Nat.div_lt_iff_lt_mul (Nat.two_pow_pos _), ← hpow]
        exact hlow
      rw [hpow, ← Nat.mul_assoc, Nat.mul_div_cancel _ (Nat.two_pow_pos _),
        Nat.add_mul_div_right _ _ (Nat.two_pow_pos _), or_eq_add_of_lt hlt]
    · -- the lowest surviving limb: everything below it is shifted out
      have hpow : (2 : ℕ) ^ shift = 2 ^ (32 * i) * 2 ^ (shift - 32 * i) :=
        two_pow_eq_mul (by omega)
      rw [hpow, ← Nat.div_div_eq_div_mul, Nat.div_eq_of_lt hlow, Nat.zero_div, Nat.zero_or,
        ← Nat.div_div_eq_div_mul, ← Nat.div_div_eq_div_mul,
        Nat.mul_div_cancel _ (Nat.two_pow_pos _),
        Nat.add_mul_div_right _ _ (Nat.two_pow_pos _), Nat.div_eq_of_lt hlow, Nat.zero_add]
  · have hlt : ∀ n, n ≤ shift / 32 → limbValue a.pn n / 2 ^ shift = 0 := fun n hn =>
      div_eq_of_lt (lt_of_lt_of_le (limbValue_lt a.pn n)
        (Nat.pow_le_pow_right (by decide) (by omega)))
    simp only [shrStep]
    rw [if_neg hk, if_neg (fun h => hk (by omega)), hpn, hlt i (by omega), hlt (i + 1) (by omega)]

/-! ## Comparison and bit length -/

lemma compareFrom_spec (a b : Vector UInt32 WIDTH) : ∀ (pos : ℕ) (h : pos ≤ WIDTH),
    compareFrom a b pos h = compare (limbValue a pos) (limbValue b pos)
  | 0, _ => by simp [compareFrom, limbValue]
  | i + 1, h => by
    have hi : i < WIDTH := h
    have hdecide : ∀ {x y : Vector UInt32 WIDTH}, x[i] < y[i] →
        limbValue x (i + 1) < limbValue y (i + 1) := by
      intro x y hlt
      refine radixValue_lt_of_digit_lt (fun m _ => limb_lt x m) (lt_succ_self i) ?_
        (fun m h1 h2 => by omega)
      rw [limb_eq_getElem _ hi, limb_eq_getElem _ hi]
      exact UInt32.lt_iff_toNat_lt.1 hlt
    rw [compareFrom]
    split_ifs with h1 h2
    · exact (compare_lt_iff_lt.2 (hdecide h1)).symm
    · exact (compare_gt_iff_gt.2 (hdecide h2)).symm
    · have heq : limb a i = limb b i := by
        rw [UInt32.lt_iff_toNat_lt] at h1 h2
        rw [limb_eq_getElem _ hi, limb_eq_getElem _ hi]
        omega
      rw [compareFrom_spec a b i (by omega), limbValue_succ, limbValue_succ, heq]
      simp only [compare, compareOfLessAndEq, add_lt_add_iff_right, add_right_cancel_iff]

lemma compareTo_eq : compareTo a b = compare a.toNat b.toNat :=
  compareFrom_spec a.pn b.pn WIDTH le_rfl

@[simp] lemma gt_iff : gt a b = true ↔ b.toNat < a.toNat := by
  simp [gt, compareTo_eq, compare_gt_iff_gt]

@[simp] lemma lt_iff : lt a b = true ↔ a.toNat < b.toNat := by
  simp [lt, compareTo_eq, compare_lt_iff_lt]

@[simp] lemma ge_iff : ge a b = true ↔ b.toNat ≤ a.toNat := by
  simp [ge, compareTo_eq, compare_lt_iff_lt]

@[simp] lemma equalTo_zero_iff : equalTo a 0 = true ↔ a.toNat = 0 := by
  have hlimbs : equalTo a 0 = true ↔ ∀ i < WIDTH, limb a.pn i = 0 := by
    simp only [equalTo, List.all_eq_true, List.mem_range, limb]
    refine forall₂_congr fun i _ => ?_
    have hhigh : ((0 : UInt64) >>> 32).toUInt32 = 0 := rfl
    have hlow : ((0 : UInt64) &&& 0xffffffff).toUInt32 = 0 := rfl
    rw [hhigh, hlow, ite_self, ite_self, beq_iff_eq, ← UInt32.toNat_inj]
    rfl
  rw [hlimbs]
  constructor
  · exact radixValue_eq_zero
  · intro hzero i hi
    rw [show a = zero from toNat_injective (by rw [hzero, toNat_zero])]
    exact limb_replicate_zero i

lemma one_shl_toNat (hn : n < 32) : ((1 : UInt32) <<< n.toUInt32).toNat = 2 ^ n := by
  have hlt : (2 : ℕ) ^ n < 2 ^ 32 := Nat.pow_lt_pow_right (by decide) hn
  rw [UInt32.toNat_shiftLeft, shiftLeft_eq]
  simp only [UInt32.toNat_ofNat']
  rw [show n % 2 ^ 32 % 32 = n by omega, show (UInt32.toNat 1) = 1 from rfl, one_mul,
    mod_eq_of_lt hlt]

lemma and_one_shl_ne_zero_iff (x : UInt32) (hn : n < 32) :
    x &&& (1 <<< n.toUInt32) ≠ 0 ↔ x.toNat.testBit n = true := by
  rw [Ne, ← UInt32.toNat_inj, UInt32.toNat_and, one_shl_toNat hn, and_two_pow]
  cases x.toNat.testBit n <;> simp

/-- The inner loop of `bits` finds the bit length of a nonzero limb. -/
lemma limbBits_eq_size (x : UInt32) (hx : x ≠ 0) : ∀ n, n < 32 → x.toNat < 2 ^ (n + 1) →
    limbBits x n = Nat.size x.toNat
  | 0, _, hlt => by
    have hne : x.toNat ≠ 0 := fun h => hx (UInt32.toNat_inj.1 (by simpa using h))
    rw [limbBits, show x.toNat = 1 by omega]
    rfl
  | n + 1, hn, hlt => by
    rw [limbBits]
    by_cases hbit : x.toNat.testBit (n + 1) = true
    · rw [if_pos ((and_one_shl_ne_zero_iff x hn).2 hbit)]
      have hge : 2 ^ (n + 1) ≤ x.toNat := ge_two_pow_of_testBit hbit
      exact le_antisymm (lt_size.2 hge) (size_le.2 hlt)
    · rw [if_neg (fun h => hbit ((and_one_shl_ne_zero_iff x hn).1 h))]
      refine limbBits_eq_size x hx n (by omega) ?_
      by_contra hge
      refine hbit ?_
      rw [testBit_eq_decide_div_mod_eq]
      have hdiv : x.toNat / 2 ^ (n + 1) = 1 := by
        refine Nat.div_eq_of_lt_le (by omega) (by omega)
      rw [hdiv]
      rfl

lemma bitsFrom_eq_size (pn : Vector UInt32 WIDTH) : ∀ (pos : ℕ) (h : pos ≤ WIDTH),
    bitsFrom pn pos h = Nat.size (limbValue pn pos)
  | 0, _ => by simp [bitsFrom, limbValue]
  | pos + 1, h => by
    have hpos : pos < WIDTH := h
    have hlow := limbValue_lt pn pos
    rw [bitsFrom]
    by_cases hz : pn[pos] = 0
    · rw [if_neg (not_not.2 hz), bitsFrom_eq_size pn pos (by omega), limbValue_succ,
        limb_eq_getElem _ hpos, hz]
      simp
    · rw [if_pos hz, limbBits_eq_size _ hz 31 (by decide) (UInt32.toNat_lt _)]
      have hne : pn[pos].toNat ≠ 0 := fun h => hz (UInt32.toNat_inj.1 (by simpa using h))
      set x := pn[pos].toNat with hx
      have hsize : 0 < Nat.size x := size_pos.2 (by omega)
      have hxlow : 2 ^ (Nat.size x - 1) ≤ x := lt_size.1 (by omega)
      have hxhigh : x < 2 ^ Nat.size x := lt_size_self x
      rw [limbValue_succ, limb_eq_getElem _ hpos, ← hx]
      refine le_antisymm ?_ ?_
      · have : 32 * pos + (Nat.size x - 1) < Nat.size (limbValue pn pos + x * 2 ^ (32 * pos)) := by
          rw [lt_size, pow_add, mul_comm]
          exact le_trans (mul_le_mul_right _ hxlow) (le_add_left _ _)
        omega
      · rw [size_le, pow_add]
        have : (x + 1) * 2 ^ (32 * pos) ≤ 2 ^ Nat.size x * 2 ^ (32 * pos) :=
          mul_le_mul_right _ hxhigh
        rw [add_mul, one_mul] at this
        rw [mul_comm (2 ^ (32 * pos))]
        omega

lemma bits_eq_size : bits a = Nat.size a.toNat :=
  bitsFrom_eq_size a.pn WIDTH le_rfl

lemma toNat_getLow64 (hw : 2 ≤ WIDTH) (a : BaseUint WIDTH) :
    (getLow64 a).toNat = a.toNat % 2 ^ 64 := by
  have hlow : a.toNat % 2 ^ 64 = limb a.pn 0 + limb a.pn 1 * 2 ^ 32 := by
    obtain ⟨k, rfl⟩ := Nat.exists_eq_add_of_le hw
    have h0 := limb_lt a.pn 0
    have h1 := limb_lt a.pn 1
    rw [toNat, limbValue, radixValue_add, radixValue_succ, radixValue_succ, radixValue_zero,
      pow_zero, pow_one, show ((2 : ℕ) ^ 32) ^ 2 = 2 ^ 64 by rw [← pow_mul],
      add_mul_mod_self_left, mul_one, zero_add]
    exact mod_eq_of_lt (by omega)
  have hhigh : ((a.pn[1]?.getD 0).toUInt64 <<< (32 : UInt64)).toNat = limb a.pn 1 * 2 ^ 32 := by
    rw [UInt64.toNat_shiftLeft, shiftLeft_eq, show (32 : UInt64).toNat % 64 = 32 from rfl,
      UInt32.toNat_toUInt64]
    have h1 := limb_lt a.pn 1
    exact mod_eq_of_lt (by rw [limb] at h1; omega)
  rw [getLow64, UInt64.toNat_or, hhigh, UInt32.toNat_toUInt64, hlow]
  exact or_eq_add_of_lt (limb_lt a.pn 0)

/-! ## Division -/

lemma limbValue_setBit {t : ℕ} (ht : t / 32 < WIDTH) (hclear : 2 ^ (t + 1) ∣ limbValue pn WIDTH) :
    limbValue (orLimb pn (t / 32) (1 <<< (t % 32).toUInt32)) WIDTH =
      limbValue pn WIDTH + 2 ^ t := by
  have hr : t % 32 < 32 := mod_lt _ (by decide)
  obtain ⟨q, hq⟩ := hclear
  rw [orLimb, dif_pos ht, limbValue_or, one_shl_toNat hr, ← pow_add, mod_add_div, hq]
  exact (Nat.two_pow_add_eq_or_of_lt (Nat.pow_lt_pow_right (by decide) (Nat.lt_succ_self t)) q).symm

/-- The state of the division loop once bits `t` and above of the quotient are known. -/
structure DivInv (N D t : ℕ) (s : DivState WIDTH) : Prop where
  exact : D * limbValue s.quotient WIDTH + s.num.toNat = N
  small : s.num.toNat < D * 2 ^ t
  clear : 2 ^ t ∣ limbValue s.quotient WIDTH
  divisor : s.div.toNat = D * 2 ^ t / 2

lemma divStep_inv {N D t : ℕ} (ht : t / 32 < WIDTH) {s : DivState WIDTH}
    (h : DivInv N D (t + 1) s) : DivInv N D t (divStep t s) := by
  obtain ⟨hexact, hsmall, hclear, hdivisor⟩ := h
  have hpow : (2 : ℕ) ^ (t + 1) = 2 * 2 ^ t := by rw [pow_succ, mul_comm]
  have hdiv : s.div.toNat = D * 2 ^ t := by
    rw [hdivisor, hpow, Nat.mul_left_comm, Nat.mul_div_cancel_left _ (by decide)]
  have hclear' : 2 ^ t ∣ limbValue s.quotient WIDTH :=
    (pow_dvd_pow 2 (le_succ t)).trans hclear
  have hdouble : D * 2 ^ (t + 1) = D * 2 ^ t + D * 2 ^ t := by rw [hpow]; ring
  have hnext : (shr s.div 1).toNat = D * 2 ^ t / 2 := by rw [toNat_shr, hdiv, pow_one]
  simp only [divStep, ge_iff]
  split
  · next hge =>
    have hbit := limbValue_setBit s.quotient ht hclear
    refine ⟨?_, ?_, ?_, hnext⟩
    · rw [hbit, toNat_sub_of_le hge, mul_add]
      omega
    · rw [toNat_sub_of_le hge]
      omega
    · rw [hbit]
      exact Dvd.dvd.add hclear' dvd_rfl
  · have hlt : s.num.toNat < D * 2 ^ t := by omega
    exact ⟨hexact, hlt, hclear', hnext⟩

/-- The division loop, entered with divisor and numerator aligned, leaves the floor quotient. -/
lemma divLoop_quotient {shift : ℕ} (hwidth : shift < 32 * WIDTH)
    (hnowrap : b.toNat * 2 ^ shift < 2 ^ (32 * WIDTH))
    (hfits : a.toNat < b.toNat * 2 ^ (shift + 1)) :
    limbValue (divLoop a b shift).quotient WIDTH = a.toNat / b.toNat := by
  have hstart : DivInv a.toNat b.toNat (shift + 1)
      { num := a, div := shl b shift, quotient := Vector.replicate WIDTH 0 } := by
    refine ⟨by simp, hfits, by simp, ?_⟩
    rw [toNat_shl, mod_eq_of_lt hnowrap, pow_succ, ← mul_assoc,
      Nat.mul_div_cancel _ (by decide)]
  have hend : DivInv a.toNat b.toNat 0 (divLoop a b shift) :=
    foldRev_invariant (fun t (s : DivState WIDTH) => DivInv a.toNat b.toNat t s) (shift + 1)
      (fun i _ s => divStep i s) _ hstart (fun t ht s hs => divStep_inv (by omega) hs)
  have hexact := hend.exact
  have hsmall := hend.small
  rw [pow_zero, mul_one] at hsmall
  refine (Nat.div_eq_of_lt_le ?_ ?_).symm
  · rw [← hexact, Nat.mul_comm]
    exact le_add_right _ _
  · rw [add_mul, one_mul, mul_comm, ← hexact]
    exact Nat.add_lt_add_left hsmall _

/-- **`/=` is the exact floor quotient** for every nonzero divisor. -/
lemma div_spec (hb : b.toNat ≠ 0) : ∃ q, div a b = .ok q ∧ q.toNat = a.toNat / b.toNat := by
  have hsize : Nat.size b.toNat ≠ 0 := fun h => hb (size_eq_zero.1 h)
  have hblow : 2 ^ (Nat.size b.toNat - 1) ≤ b.toNat := lt_size.1 (by omega)
  have hbhigh : b.toNat < 2 ^ Nat.size b.toNat := lt_size_self _
  have hahigh : a.toNat < 2 ^ Nat.size a.toNat := lt_size_self _
  have hwidth : Nat.size a.toNat ≤ 32 * WIDTH := size_le.2 a.toNat_lt
  simp only [div, bits_eq_size]
  rw [if_neg hsize]
  by_cases hlt : Nat.size a.toNat < Nat.size b.toNat
  · refine ⟨zero, by rw [if_pos hlt], ?_⟩
    have hab : a.toNat < b.toNat :=
      calc a.toNat < 2 ^ Nat.size a.toNat := hahigh
        _ ≤ 2 ^ (Nat.size b.toNat - 1) := Nat.pow_le_pow_right (by decide) (by omega)
        _ ≤ b.toNat := hblow
    rw [toNat_zero, div_eq_of_lt hab]
  · refine ⟨_, by rw [if_neg hlt], ?_⟩
    generalize hshift : Nat.size a.toNat - Nat.size b.toNat = shift
    have hsum : Nat.size b.toNat + shift = Nat.size a.toNat := by omega
    refine divLoop_quotient a b (by omega) ?_ ?_
    · calc b.toNat * 2 ^ shift < 2 ^ Nat.size b.toNat * 2 ^ shift :=
            Nat.mul_lt_mul_of_pos_right hbhigh (Nat.two_pow_pos _)
        _ = 2 ^ Nat.size a.toNat := by rw [← pow_add, hsum]
        _ ≤ 2 ^ (32 * WIDTH) := Nat.pow_le_pow_right (by decide) hwidth
    · calc a.toNat < 2 ^ Nat.size a.toNat := hahigh
        _ = 2 ^ (Nat.size b.toNat - 1) * 2 ^ (shift + 1) := two_pow_eq_mul (by omega)
        _ ≤ b.toNat * 2 ^ (shift + 1) := mul_le_mul_right _ hblow

/-- **256-bit arithmetic**: the operators compute modulo `2²⁵⁶`, the comparison and the quotient
are exact, and `bits` is the number of bits up to the highest that is set. -/
theorem arithUint256_exact (a b : ArithUint256) (b32 : UInt32) (shift : ℕ) :
    (add a b).toNat = (a.toNat + b.toNat) % 2 ^ 256 ∧
      ((sub a b).toNat : ℤ) = ((a.toNat : ℤ) - b.toNat) % 2 ^ 256 ∧
      ((neg a).toNat : ℤ) = -(a.toNat : ℤ) % 2 ^ 256 ∧
      (increment a).toNat = (a.toNat + 1) % 2 ^ 256 ∧
      (mul32 a b32).toNat = a.toNat * b32.toNat % 2 ^ 256 ∧
      (mul a b).toNat = a.toNat * b.toNat % 2 ^ 256 ∧
      (shl a shift).toNat = a.toNat * 2 ^ shift % 2 ^ 256 ∧
      (shr a shift).toNat = a.toNat / 2 ^ shift ∧
      compareTo a b = compare a.toNat b.toNat ∧
      a.toNat < 2 ^ bits a ∧ (a.toNat ≠ 0 → 2 ^ (bits a - 1) ≤ a.toNat) ∧
      (a.toNat = 0 → bits a = 0) ∧
      (b.toNat ≠ 0 → ∃ q, div a b = .ok q ∧ q.toNat = a.toNat / b.toNat) := by
  rw [bits_eq_size]
  refine ⟨toNat_add a b, ?_, toNat_neg_emod a, toNat_increment a, toNat_mul32 a b32, toNat_mul a b,
    toNat_shl a shift, toNat_shr a shift, compareTo_eq a b, lt_size_self _, fun ha => ?_,
    size_eq_zero.2, div_spec a b⟩
  · rw [sub, toNat_add, Int.natCast_mod, cast_add, toNat_neg_emod, sub_eq_add_neg]
    exact Int.add_emod_emod ..
  · have hsize := size_eq_zero.not.2 ha
    exact lt_size.1 (by omega)

theorem arithUint256_exact_sevenByThree :
    ∃ q : ArithUint256, div (.ofUInt64 7) (.ofUInt64 3) = .ok q ∧ q.toNat = 2 := by
  have hseven : (ofUInt64 7 : ArithUint256).toNat = 7 := toNat_ofUInt64 (by decide) 7
  have hthree : (ofUInt64 3 : ArithUint256).toNat = 3 := toNat_ofUInt64 (by decide) 3
  obtain ⟨-, -, -, -, -, -, -, -, -, -, -, -, hdiv⟩ :=
    arithUint256_exact (.ofUInt64 7) (.ofUInt64 3) 0 0
  exact hdiv (by decide)

end BaseUint

end SlithyTove
