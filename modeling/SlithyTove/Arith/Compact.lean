import SlithyTove.Arith.BaseUintValue

/-!
# The compact encoding of targets

`arith_uint256::SetCompact` and `GetCompact`: a 32-bit floating-point format with a one-byte
exponent in base 256 and a 23-bit mantissa under a sign bit.  Encoding drops every byte below
the three most significant ones, so a decoded encoding is a rounding.

`compactRound` is that rounding over the integers: it clears the low `roundShift x` bytes of
`x`.  `setCompact_getCompact` shows that it is what `SetCompact ∘ GetCompact` computes,
`compactRound_mono` that it is monotone, and `compactRound_setCompact` that a value decoded
without overflow is already rounded.
-/

namespace SlithyTove

open BaseUint Nat

/-! ## The two functions -/

/-- What `SetCompact` writes: the value and the two flags. -/
structure CompactDecode where
  value : ArithUint256
  fNegative : Bool
  fOverflow : Bool
  deriving DecidableEq

/-- The mantissa `SetCompact` ends up with: shifted down when the exponent is small. -/
def compactWord (nCompact : UInt32) : UInt32 :=
  let nSize := (nCompact >>> 24).toNat
  let nWord := nCompact &&& 0x007fffff
  if nSize ≤ 3 then nWord >>> (8 * (3 - nSize)).toUInt32 else nWord

/-- `SetCompact`. -/
def setCompact (nCompact : UInt32) : CompactDecode :=
  let nSize := (nCompact >>> 24).toNat
  let nWord := compactWord nCompact
  { value :=
      if nSize ≤ 3 then ofUInt64 nWord.toUInt64
      else shl (ofUInt64 nWord.toUInt64) (8 * (nSize - 3))
    fNegative := nWord ≠ 0 ∧ nCompact &&& 0x00800000 ≠ 0
    fOverflow := nWord ≠ 0 ∧ (nSize > 34 ∨ (nWord > 0xff ∧ nSize > 33) ∨
      (nWord > 0xffff ∧ nSize > 32)) }

variable (a : ArithUint256)

/-- The mantissa of `GetCompact` before the sign bit is looked at. -/
def compactMantissa (nSize : ℕ) : UInt32 :=
  if nSize ≤ 3 then (getLow64 a <<< (8 * (3 - nSize)).toUInt64).toUInt32
  else (getLow64 (shr a (8 * (nSize - 3)))).toUInt32

/-- The end of `GetCompact`: exponent and sign join the mantissa.  The two assertions are the
error results. -/
def packCompact (nCompact : UInt32) (nSize : ℕ) (fNegative : Bool) : Except String UInt32 :=
  if nCompact &&& ~~~ 0x007fffff ≠ 0 then .error "(nCompact & ~0x007fffffU) == 0"
  else if ¬ nSize < 256 then .error "nSize < 256"
  else
    let nCompact := nCompact ||| (nSize.toUInt32 <<< 24)
    .ok (nCompact ||| (if fNegative ∧ nCompact &&& 0x007fffff ≠ 0 then 0x00800000 else 0))

/-- `GetCompact`. -/
def getCompact (fNegative : Bool) : Except String UInt32 :=
  let nSize := (bits a + 7) / 8
  let nCompact := compactMantissa a nSize
  -- The 0x00800000 bit denotes the sign: a mantissa that sets it gives up its lowest byte.
  if nCompact &&& 0x00800000 ≠ 0 then packCompact (nCompact >>> 8) (nSize + 1) fNegative
  else packCompact nCompact nSize fNegative

/-! ## The encoding over the integers -/

/-- The exponent `GetCompact` settles on: the byte length, one more when the top byte would
reach into the sign bit. -/
def compactExponent (x : ℕ) : ℕ := if x = 0 then 0 else Nat.size x / 8 + 1

/-- The mantissa that goes with an exponent. -/
def mantissaAt (x e : ℕ) : ℕ := x * 2 ^ (8 * (3 - e)) / 2 ^ (8 * (e - 3))

/-- The value of a mantissa and an exponent, before it is cut to 256 bits. -/
def compactValue (e w : ℕ) : ℕ := w * 2 ^ (8 * (e - 3)) / 2 ^ (8 * (3 - e))

/-- The number of low bytes the encoding of `x` drops. -/
def roundShift (x : ℕ) : ℕ := Nat.size x / 8 - 2

/-- `x` with its low `roundShift x` bytes cleared. -/
def compactRound (x : ℕ) : ℕ := x / 2 ^ (8 * roundShift x) * 2 ^ (8 * roundShift x)

variable (x : ℕ)

lemma compactRound_le : compactRound x ≤ x := div_mul_le_self _ _

lemma compactExponent_sub_three : compactExponent x - 3 = roundShift x := by
  rw [compactExponent, roundShift]
  split
  · next h => rw [h, size_zero]
  · omega

lemma compactValue_mantissaAt :
    compactValue (compactExponent x) (mantissaAt x (compactExponent x)) = compactRound x := by
  rw [compactValue, mantissaAt, compactRound, ← compactExponent_sub_three]
  rcases le_total (compactExponent x) 3 with h | h
  · simp [Nat.sub_eq_zero_of_le h]
  · simp [Nat.sub_eq_zero_of_le h]

lemma roundShift_mono {x y : ℕ} (h : x ≤ y) : roundShift x ≤ roundShift y := by
  have := size_le_size h
  rw [roundShift, roundShift]
  omega

lemma le_compactRound {m y : ℕ} (hdvd : 2 ^ (8 * roundShift y) ∣ m) (h : m ≤ y) :
    m ≤ compactRound y := by
  obtain ⟨c, rfl⟩ := hdvd
  rw [compactRound, mul_comm]
  refine mul_le_mul_right _ ?_
  rwa [Nat.le_div_iff_mul_le (Nat.two_pow_pos _), Nat.mul_comm]

/-- **Compact rounding is monotone.**  When the larger argument drops more bytes, the smaller
one lies below the power of two that starts the larger one's range. -/
lemma compactRound_mono {x y : ℕ} (h : x ≤ y) : compactRound x ≤ compactRound y := by
  rcases (roundShift_mono h).eq_or_lt with heq | hlt
  · rw [compactRound, compactRound, heq]
    exact Nat.mul_le_mul_right _ (Nat.div_le_div_right h)
  · have hshift : roundShift y = Nat.size y / 8 - 2 := rfl
    have hbytes : Nat.size x / 8 < Nat.size y / 8 := by
      rw [roundShift, roundShift] at hlt
      omega
    have hx : x < 2 ^ (8 * (Nat.size y / 8) - 1) := size_le.1 (by omega)
    have hy : 2 ^ (8 * (Nat.size y / 8) - 1) ≤ y := lt_size.1 (by omega)
    calc compactRound x ≤ x := compactRound_le x
      _ ≤ 2 ^ (8 * (Nat.size y / 8) - 1) := hx.le
      _ ≤ compactRound y := le_compactRound (pow_dvd_pow 2 (by omega)) hy

lemma compactRound_mul_pow {w : ℕ} (hw : w < 2 ^ 23) (k : ℕ) :
    compactRound (w * 2 ^ (8 * k)) = w * 2 ^ (8 * k) := by
  refine le_antisymm (compactRound_le _) (le_compactRound (Dvd.dvd.mul_left ?_ _) le_rfl)
  refine pow_dvd_pow 2 ?_
  have hsize : Nat.size (w * 2 ^ (8 * k)) ≤ 23 + 8 * k := by
    rw [size_le, pow_add]
    exact Nat.mul_lt_mul_of_pos_right hw (Nat.two_pow_pos _)
  rw [roundShift]
  omega

lemma size_compactRound : Nat.size (compactRound x) = Nat.size x := by
  refine le_antisymm (size_le_size (compactRound_le x)) ?_
  rcases Nat.eq_zero_or_pos x with rfl | hx
  · rw [size_zero]
    exact zero_le _
  · have hpos : 0 < Nat.size x := size_pos.2 hx
    have htop : 2 ^ (Nat.size x - 1) ≤ x := lt_size.1 (by omega)
    have hdvd : 2 ^ (8 * roundShift x) ∣ 2 ^ (Nat.size x - 1) := by
      refine pow_dvd_pow 2 ?_
      rw [roundShift]
      omega
    have hkept := lt_size.2 (le_compactRound hdvd htop)
    omega

lemma compactExponent_compactRound : compactExponent (compactRound x) = compactExponent x := by
  have hzero : compactRound x = 0 ↔ x = 0 := by
    rw [← size_eq_zero, size_compactRound, size_eq_zero]
  simp only [compactExponent, size_compactRound, hzero]

lemma mantissaAt_compactRound :
    mantissaAt (compactRound x) (compactExponent x) = mantissaAt x (compactExponent x) := by
  rw [mantissaAt, mantissaAt, compactRound, ← compactExponent_sub_three]
  rcases le_total (compactExponent x) 3 with h | h
  · simp [Nat.sub_eq_zero_of_le h]
  · simp [Nat.sub_eq_zero_of_le h]

lemma sub_compactRound_lt : x - compactRound x < 256 ^ (compactExponent x - 3) := by
  have hunit : (256 : ℕ) ^ (compactExponent x - 3) = 2 ^ (8 * roundShift x) := by
    rw [compactExponent_sub_three, pow_mul]
    rfl
  have hsplit := div_add_mod' x (2 ^ (8 * roundShift x))
  rw [hunit, compactRound]
  omega

/-! ## `SetCompact` -/

lemma toNat_compactSize (c : UInt32) : (c >>> 24).toNat = c.toNat / 2 ^ 24 := by
  rw [UInt32.toNat_shiftRight, show (24 : UInt32).toNat % 32 = 24 from rfl,
    shiftRight_eq_div_pow]

lemma toNat_and_mantissaMask (c : UInt32) : (c &&& 0x007fffff).toNat = c.toNat % 2 ^ 23 := by
  rw [UInt32.toNat_and, show (0x007fffff : UInt32).toNat = 2 ^ 23 - 1 from rfl,
    and_two_pow_sub_one_eq_mod]

/-- The value `SetCompact` writes, cut to 256 bits when the exponent is large. -/
lemma toNat_setCompact (c : UInt32) :
    (setCompact c).value.toNat =
      compactValue (c.toNat / 2 ^ 24) (c.toNat % 2 ^ 23) % 2 ^ (32 * 8) := by
  have hmask := toNat_and_mantissaMask c
  have hlt : c.toNat % 2 ^ 23 < 2 ^ 23 := mod_lt _ (by decide)
  simp only [setCompact, compactWord, compactValue, toNat_compactSize]
  by_cases hsize : c.toNat / 2 ^ 24 ≤ 3
  · rw [if_pos hsize, if_pos hsize, toNat_ofUInt64 (by decide), UInt32.toNat_toUInt64,
      toNat_shiftRight_toUInt32 _ (by omega), hmask, Nat.sub_eq_zero_of_le hsize, Nat.mul_zero,
      pow_zero, mul_one]
    have hsmall : (2 : ℕ) ^ 23 < 2 ^ (32 * 8) := by decide
    exact (mod_eq_of_lt (lt_of_le_of_lt (div_le_self _ _) (hlt.trans hsmall))).symm
  · rw [if_neg hsize, if_neg hsize, toNat_shl, toNat_ofUInt64 (by decide), UInt32.toNat_toUInt64,
      hmask, Nat.sub_eq_zero_of_le (by omega : 3 ≤ c.toNat / 2 ^ 24), Nat.mul_zero, pow_zero,
      Nat.div_one]

variable {c : UInt32}

/-- The overflow flag, for exponents past the point: the mantissa's bits leave the 256. -/
lemma fOverflow_eq_false_iff (hsize : 3 < c.toNat / 2 ^ 24) : (setCompact c).fOverflow = false ↔
      c.toNat % 2 ^ 23 = 0 ∨ (c.toNat / 2 ^ 24 ≤ 34 ∧
        (c.toNat % 2 ^ 23 ≤ 0xff ∨ c.toNat / 2 ^ 24 ≤ 33) ∧
        (c.toNat % 2 ^ 23 ≤ 0xffff ∨ c.toNat / 2 ^ 24 ≤ 32)) := by
  have hmask := toNat_and_mantissaMask c
  simp only [setCompact, compactWord, toNat_compactSize, if_neg (not_le.2 hsize), gt_iff_lt,
    UInt32.lt_iff_toNat_lt, hmask, decide_eq_false_iff_not, not_and_or, not_or, not_not, not_lt,
    ← UInt32.toNat_inj, UInt32.reduceToNat, ne_eq]

lemma fNegative_eq_false (h : c.toNat % 2 ^ 24 < 2 ^ 23) : (setCompact c).fNegative = false := by
  have hsign : ¬ c &&& 0x00800000 ≠ 0 := by
    rw [show c &&& 0x00800000 ≠ 0 ↔ c.toNat.testBit 23 = true from
      and_one_shl_ne_zero_iff c (n := 23) (by decide), testBit_eq_decide_div_mod_eq,
      decide_eq_true_iff]
    omega
  simp only [setCompact, hsign, and_false, decide_false]

lemma fOverflow_eq_false_of_le (hsize : c.toNat / 2 ^ 24 ≤ 32 ∨
    (c.toNat / 2 ^ 24 = 33 ∧ c.toNat % 2 ^ 23 ≤ 0xffff)) : (setCompact c).fOverflow = false := by
  by_cases hsmall : 3 < c.toNat / 2 ^ 24
  · rw [fOverflow_eq_false_iff hsmall]
    omega
  · simp only [setCompact, toNat_compactSize, decide_eq_false_iff_not, not_and_or, not_or]
    right
    omega

lemma compactValue_lt_of_not_overflow (h : (setCompact c).fOverflow = false) :
    compactValue (c.toNat / 2 ^ 24) (c.toNat % 2 ^ 23) < 2 ^ (32 * 8) := by
  have hlt : c.toNat % 2 ^ 23 < 2 ^ 23 := mod_lt _ (by decide)
  rw [compactValue]
  generalize hw : c.toNat % 2 ^ 23 = w at *
  rcases Nat.eq_zero_or_pos w with rfl | hpos
  · simp
  by_cases hsize : 3 < c.toNat / 2 ^ 24
  · rw [fOverflow_eq_false_iff hsize, hw] at h
    generalize c.toNat / 2 ^ 24 = e at *
    -- The mantissa's bit length and the exponent's shift together stay within 256.
    have hfit : ∃ k, w < 2 ^ k ∧ k + 8 * (e - 3) ≤ 32 * 8 := by
      by_cases h8 : w ≤ 0xff
      · exact ⟨8, by omega, by omega⟩
      · by_cases h16 : w ≤ 0xffff
        · exact ⟨16, by omega, by omega⟩
        · exact ⟨23, hlt, by omega⟩
    obtain ⟨k, hk, hsum⟩ := hfit
    rw [Nat.sub_eq_zero_of_le hsize.le, Nat.mul_zero, pow_zero, Nat.div_one]
    calc w * 2 ^ (8 * (e - 3)) < 2 ^ k * 2 ^ (8 * (e - 3)) :=
          Nat.mul_lt_mul_of_pos_right hk (Nat.two_pow_pos _)
      _ = 2 ^ (k + 8 * (e - 3)) := (pow_add _ _ _).symm
      _ ≤ 2 ^ (32 * 8) := Nat.pow_le_pow_right (by decide) hsum
  · rw [Nat.sub_eq_zero_of_le (Nat.le_of_not_lt hsize), Nat.mul_zero, pow_zero, Nat.mul_one]
    exact lt_of_le_of_lt (div_le_self _ _) (hlt.trans (by decide))

/-- The words `SetCompact` decodes without overflow lose nothing to re-encoding. -/
lemma compactRound_setCompact (h : (setCompact c).fOverflow = false) :
    compactRound (setCompact c).value.toNat = (setCompact c).value.toNat := by
  rw [toNat_setCompact, mod_eq_of_lt (compactValue_lt_of_not_overflow h), compactValue]
  have hlt : c.toNat % 2 ^ 23 < 2 ^ 23 := mod_lt _ (by decide)
  rcases le_total (c.toNat / 2 ^ 24) 3 with hsize | hsize
  · rw [Nat.sub_eq_zero_of_le hsize, Nat.mul_zero, pow_zero, Nat.mul_one]
    have hsmall := lt_of_le_of_lt
      (div_le_self (c.toNat % 2 ^ 23) (2 ^ (8 * (3 - c.toNat / 2 ^ 24)))) hlt
    simpa using compactRound_mul_pow hsmall 0
  · rw [Nat.sub_eq_zero_of_le hsize, Nat.mul_zero, pow_zero, Nat.div_one]
    exact compactRound_mul_pow hlt _

/-! ## `GetCompact` -/

lemma toNat_compactMantissa {e : ℕ} (he : a.toNat < 2 ^ (8 * e)) :
    (compactMantissa a e).toNat = mantissaAt a.toNat e ∧ mantissaAt a.toNat e < 2 ^ 24 := by
  have hsmall : mantissaAt a.toNat e < 2 ^ 24 := by
    rw [mantissaAt, Nat.div_lt_iff_lt_mul (Nat.two_pow_pos _), ← pow_add]
    calc a.toNat * 2 ^ (8 * (3 - e)) < 2 ^ (8 * e) * 2 ^ (8 * (3 - e)) :=
          Nat.mul_lt_mul_of_pos_right he (Nat.two_pow_pos _)
      _ = 2 ^ (24 + 8 * (e - 3)) := (two_pow_eq_mul (by omega)).symm
  refine ⟨?_, hsmall⟩
  rw [compactMantissa]
  by_cases h3 : e ≤ 3
  · have hform : mantissaAt a.toNat e = a.toNat * 2 ^ (8 * (3 - e)) := by
      rw [mantissaAt, Nat.sub_eq_zero_of_le h3, Nat.mul_zero, pow_zero, Nat.div_one]
    have hlow : a.toNat < 2 ^ 64 :=
      lt_of_lt_of_le he (Nat.pow_le_pow_right (by decide) (by omega))
    have hshift : (8 * (3 - e)).toUInt64.toNat % 64 = 8 * (3 - e) := by
      simp only [Nat.toUInt64, UInt64.toNat_ofNat']
      omega
    rw [if_pos h3, UInt64.toNat_toUInt32, UInt64.toNat_shiftLeft, hshift, shiftLeft_eq,
      toNat_getLow64 (by decide), mod_eq_of_lt hlow, ← hform]
    omega
  · have hform : mantissaAt a.toNat e = a.toNat / 2 ^ (8 * (e - 3)) := by
      rw [mantissaAt, Nat.sub_eq_zero_of_le (by omega : 3 ≤ e), Nat.mul_zero, pow_zero,
        mul_one]
    rw [if_neg h3, UInt64.toNat_toUInt32, toNat_getLow64 (by decide), toNat_shr, ← hform]
    omega

lemma signBit_mantissaAt {x e : ℕ} (he : 0 < e) (hlt : mantissaAt x e < 2 ^ 24) :
    (mantissaAt x e).testBit 23 = true ↔ 2 ^ (8 * e - 1) ≤ x := by
  have htop : (mantissaAt x e).testBit 23 = true ↔ 2 ^ 23 ≤ mantissaAt x e := by
    rw [testBit_eq_decide_div_mod_eq, decide_eq_true_iff]
    omega
  rw [htop, mantissaAt, Nat.le_div_iff_mul_le (Nat.two_pow_pos _), ← pow_add]
  have hpow : (2 : ℕ) ^ (23 + 8 * (e - 3)) = 2 ^ (8 * e - 1) * 2 ^ (8 * (3 - e)) :=
    two_pow_eq_mul (by omega)
  rw [hpow]
  exact Nat.mul_le_mul_right_iff (Nat.two_pow_pos _)

lemma mantissaAt_succ (x e : ℕ) : mantissaAt x e / 2 ^ 8 = mantissaAt x (e + 1) := by
  rw [mantissaAt, mantissaAt]
  rcases lt_or_ge e 3 with h | h
  · have hsub : 3 - e = (3 - (e + 1)) + 1 := by omega
    rw [hsub, Nat.sub_eq_zero_of_le h.le, Nat.sub_eq_zero_of_le (by omega : e + 1 ≤ 3),
      Nat.mul_zero, pow_zero, Nat.div_one, Nat.div_one, Nat.mul_add, Nat.mul_one, pow_add,
      ← Nat.mul_assoc, Nat.mul_div_cancel _ (by decide)]
  · rw [Nat.sub_eq_zero_of_le h, Nat.sub_eq_zero_of_le (by omega : 3 ≤ e + 1), Nat.mul_zero,
      pow_zero, Nat.mul_one, Nat.div_div_eq_div_mul, ← pow_add]
    congr 2
    omega

lemma packCompact_spec {m : UInt32} {e : ℕ} (hm : m.toNat < 2 ^ 23) (he : e < 256) :
    ∃ c, packCompact m e false = .ok c ∧ c.toNat = m.toNat + e * 2 ^ 24 := by
  have hclear : m &&& ~~~ 0x007fffff = 0 := by
    rw [← UInt32.toNat_inj, UInt32.toNat_and,
      show (~~~ 0x007fffff : UInt32).toNat = 511 * 2 ^ 23 from rfl]
    refine eq_of_testBit_eq fun i => ?_
    rw [testBit_and, testBit_mul_two_pow]
    rcases lt_or_ge i 23 with hi | hi
    · simp [not_le.2 hi]
    · rw [Nat.testBit_lt_two_pow (lt_of_lt_of_le hm (Nat.pow_le_pow_right (by decide) hi))]
      simp
  have hexp : (e.toUInt32 <<< 24).toNat = e * 2 ^ 24 := by
    rw [UInt32.toNat_shiftLeft, show (24 : UInt32).toNat % 32 = 24 from rfl, shiftLeft_eq]
    simp only [Nat.toUInt32, UInt32.toNat_ofNat']
    omega
  refine ⟨m ||| (e.toUInt32 <<< 24), ?_, ?_⟩
  · simp [packCompact, hclear, he]
  · rw [UInt32.toNat_or, hexp]
    exact or_eq_add_of_lt (hm.trans (by decide))

/-- **`GetCompact` never fails its assertions** and packs the mantissa at `compactExponent`. -/
lemma getCompact_spec :
    ∃ c, getCompact a false = .ok c ∧ mantissaAt a.toNat (compactExponent a.toNat) < 2 ^ 23 ∧
      c.toNat = mantissaAt a.toNat (compactExponent a.toNat) +
        compactExponent a.toNat * 2 ^ 24 := by
  have hbound : Nat.size a.toNat ≤ 32 * 8 := size_le.2 a.toNat_lt
  generalize hs : (Nat.size a.toNat + 7) / 8 = s
  obtain ⟨hmant, hlt⟩ := toNat_compactMantissa (e := s) a (size_le.1 (by omega))
  have hsign : compactMantissa a s &&& 0x00800000 ≠ 0 ↔ (mantissaAt a.toNat s).testBit 23 := by
    rw [← hmant]
    exact and_one_shl_ne_zero_iff _ (n := 23) (by decide)
  simp only [getCompact, bits_eq_size, hs]
  by_cases hbump : (mantissaAt a.toNat s).testBit 23 = true
  · -- The top bit of the top byte is set: the byte length is exact, and one byte is given up.
    have hs0 : 0 < s := by
      rcases Nat.eq_zero_or_pos s with h0 | h0
      · have hz : a.toNat = 0 := size_eq_zero.1 (by omega)
        rw [hz, mantissaAt, Nat.zero_mul, Nat.zero_div] at hbump
        simp at hbump
      · exact h0
    have htop := (signBit_mantissaAt hs0 hlt).1 hbump
    have hsize : Nat.size a.toNat = 8 * s := by
      have := lt_size.2 htop
      omega
    have hexp : compactExponent a.toNat = s + 1 := by
      rw [compactExponent, if_neg (by rintro h; rw [h, size_zero] at hsize; omega), hsize]
      omega
    have hshift : (compactMantissa a s >>> 8).toNat = mantissaAt a.toNat (s + 1) := by
      rw [UInt32.toNat_shiftRight, show (8 : UInt32).toNat % 32 = 8 from rfl,
        shiftRight_eq_div_pow, hmant, mantissaAt_succ]
    have hm : (compactMantissa a s >>> 8).toNat < 2 ^ 23 := by
      rw [hshift, ← mantissaAt_succ]
      omega
    obtain ⟨c, hc, hval⟩ := packCompact_spec hm (e := s + 1) (by omega)
    rw [if_pos (hsign.2 hbump), hexp]
    exact ⟨c, hc, by rwa [hshift] at hm, by rw [hval, hshift]⟩
  · have hexp : compactExponent a.toNat = s := by
      rw [compactExponent]
      split
      · next h => rw [← hs, h, size_zero]
      · next h =>
        have hs0 : 0 < s := by
          have := size_pos.2 (pos_of_ne_zero h)
          omega
        have hnot : ¬ 8 * s - 1 < Nat.size a.toNat := fun hlt' =>
          hbump ((signBit_mantissaAt hs0 hlt).2 (lt_size.1 hlt'))
        omega
    have hm : (compactMantissa a s).toNat < 2 ^ 23 := by
      rw [hmant]
      rw [testBit_eq_decide_div_mod_eq, decide_eq_true_iff] at hbump
      omega
    obtain ⟨c, hc, hval⟩ := packCompact_spec hm (e := s) (by omega)
    rw [if_neg (fun h => hbump (hsign.1 h)), hexp]
    exact ⟨c, hc, by rwa [hmant] at hm, by rw [hval, hmant]⟩

/-- **Decoding an encoding rounds.** -/
lemma setCompact_getCompact :
    ∃ c, getCompact a false = .ok c ∧ (setCompact c).value.toNat = compactRound a.toNat := by
  obtain ⟨c, hc, hm, hval⟩ := getCompact_spec a
  refine ⟨c, hc, ?_⟩
  have hexp : c.toNat / 2 ^ 24 = compactExponent a.toNat := by omega
  have hword : c.toNat % 2 ^ 23 = mantissaAt a.toNat (compactExponent a.toNat) := by omega
  rw [toNat_setCompact, hexp, hword, compactValue_mantissaAt]
  exact mod_eq_of_lt (lt_of_le_of_lt (compactRound_le _) a.toNat_lt)

/-! ## The round trip -/

variable {a : ArithUint256}

/-- **An encoding decodes without flags**, whatever the value. -/
lemma setCompact_getCompact_flags (h : getCompact a false = .ok c) :
    (setCompact c).fNegative = false ∧ (setCompact c).fOverflow = false := by
  obtain ⟨c', hc', hm, hval⟩ := getCompact_spec a
  obtain rfl : c = c' := Except.ok.inj (h.symm.trans hc')
  refine ⟨fNegative_eq_false (by omega), fOverflow_eq_false_of_le ?_⟩
  have hexp : c.toNat / 2 ^ 24 = compactExponent a.toNat := by omega
  have hword : c.toNat % 2 ^ 23 = mantissaAt a.toNat (compactExponent a.toNat) := by omega
  have hsize : Nat.size a.toNat ≤ 32 * 8 := size_le.2 a.toNat_lt
  rw [hexp, hword]
  by_cases hfull : Nat.size a.toNat = 32 * 8
  · -- A value with its top bit set spills into a 33rd byte, which leaves two for the mantissa.
    have h33 : compactExponent a.toNat = 33 := by
      rw [compactExponent, if_neg (by rintro h0; rw [h0, size_zero] at hfull; omega), hfull]
    have hlt : a.toNat / 2 ^ (8 * 30) < 2 ^ 16 := by
      rw [Nat.div_lt_iff_lt_mul (Nat.two_pow_pos _), ← pow_add]
      exact a.toNat_lt
    refine .inr ⟨h33, ?_⟩
    rw [h33, mantissaAt]
    omega
  · left
    rw [compactExponent]
    split <;> omega

lemma getCompact_setCompact_getCompact
    (h : getCompact a false = .ok c) : getCompact (setCompact c).value false = .ok c := by
  obtain ⟨c₁, hc₁, hround⟩ := setCompact_getCompact a
  obtain rfl : c = c₁ := Except.ok.inj (h.symm.trans hc₁)
  obtain ⟨c₂, hc₂, -, hval₂⟩ := getCompact_spec a
  obtain rfl : c = c₂ := Except.ok.inj (h.symm.trans hc₂)
  obtain ⟨c₃, hc₃, -, hval₃⟩ := getCompact_spec (setCompact c).value
  rw [hround, compactExponent_compactRound, mantissaAt_compactRound, ← hval₂,
    UInt32.toNat_inj] at hval₃
  rw [hc₃, hval₃]

/-- **The compact encoding is a rounding.**  Decoding the encoding of any value loses less than one
unit of the lowest byte that is kept, raises no flag and encodes to the same word again; the
rounding is monotone; and what comes from a word that decodes without flags is kept exactly. -/
theorem compact_rounds :
    (∀ x : ArithUint256, ∃ c, getCompact x false = .ok c ∧
      (setCompact c).value.toNat ≤ x.toNat ∧
      x.toNat - (setCompact c).value.toNat < 256 ^ ((c >>> 24).toNat - 3) ∧
      (setCompact c).fNegative = false ∧ (setCompact c).fOverflow = false ∧
      getCompact (setCompact c).value false = .ok c) ∧
    (∀ (x y : ArithUint256) (cx cy : UInt32), x.toNat ≤ y.toNat →
      getCompact x false = .ok cx → getCompact y false = .ok cy →
      (setCompact cx).value.toNat ≤ (setCompact cy).value.toNat) ∧
    ∀ c : UInt32, (setCompact c).fNegative = false → (setCompact c).fOverflow = false →
      (setCompact c).value.toNat ≠ 0 →
      ∃ c', getCompact (setCompact c).value false = .ok c' ∧
        (setCompact c').value = (setCompact c).value := by
  refine ⟨fun x => ?_, fun x y cx cy hle hx hy => ?_, fun c _ hoverflow _ => ?_⟩
  · obtain ⟨c, hc, hround⟩ := setCompact_getCompact x
    obtain ⟨hneg, hover⟩ := setCompact_getCompact_flags hc
    have hexp : (c >>> 24).toNat = compactExponent x.toNat := by
      obtain ⟨c', hc', hm, hval⟩ := getCompact_spec x
      obtain rfl : c = c' := Except.ok.inj (hc.symm.trans hc')
      rw [toNat_compactSize]
      omega
    refine ⟨c, hc, ?_, ?_, hneg, hover, getCompact_setCompact_getCompact hc⟩
    · rw [hround]
      exact compactRound_le _
    · rw [hround, hexp]
      exact sub_compactRound_lt _
  · obtain ⟨cx', hx', hroundx⟩ := setCompact_getCompact x
    obtain ⟨cy', hy', hroundy⟩ := setCompact_getCompact y
    obtain rfl : cx = cx' := Except.ok.inj (hx.symm.trans hx')
    obtain rfl : cy = cy' := Except.ok.inj (hy.symm.trans hy')
    rw [hroundx, hroundy]
    exact compactRound_mono hle
  · obtain ⟨c', hc', hround⟩ := setCompact_getCompact (setCompact c).value
    refine ⟨c', hc', toNat_injective ?_⟩
    rw [hround, compactRound_setCompact hoverflow]

/-- At a value with bytes to drop, two values in order, and a word with an unusual exponent. -/
theorem compact_rounds_fourBytes :
    (∃ c, getCompact (ofUInt64 0x12345678 : ArithUint256) false = .ok c ∧
      getCompact (setCompact c).value false = .ok c) ∧
    (setCompact 0x04123456).value.toNat ≤ (setCompact 0x05008000).value.toNat ∧
    ∃ c', getCompact (setCompact 0x05000012).value false = .ok c' ∧
      (setCompact c').value = (setCompact 0x05000012).value := by
  refine ⟨?_, ?_, ?_⟩
  · obtain ⟨c, hc, -, -, -, -, hagain⟩ := compact_rounds.1 (ofUInt64 0x12345678)
    exact ⟨c, hc, hagain⟩
  · refine compact_rounds.2.1 (ofUInt64 0x12345678) (ofUInt64 0x80000000) _ _ ?_
      (by decide +kernel) (by decide +kernel)
    rw [toNat_ofUInt64 (by decide), toNat_ofUInt64 (by decide)]
    decide
  · refine compact_rounds.2.2 0x05000012 (by decide) (by decide) ?_
    rw [toNat_setCompact]
    decide

end SlithyTove
