import SlithyTove.Mining.Assembler
import Mathlib.Data.Nat.Bitwise

/-!
# Pushing numbers and data onto a script

`CScript::operator<<` (`script/script.h`) for byte vectors and for `int64_t`.  A number is pushed as
an opcode if it is small, and otherwise as its shortest sign-and-magnitude bytes, least significant
first.  `scriptNumValue` reads such bytes back; since it undoes `CScriptNum::serialize`, different
numbers are pushed as different bytes.  The constructor of `CScriptNum` that takes bytes can insist
on the shortest form: then a number is read from no other bytes.
-/

namespace SlithyTove

open Nat List

/-! ## Bytes -/

/-- The number whose bytes these are, least significant first. -/
def bytesValue (bytes : List UInt8) : ℕ :=
  Nat.ofDigits 256 (bytes.map UInt8.toNat)

variable (bytes : List UInt8)

lemma bytesValue_concat (b : UInt8) :
    bytesValue (bytes ++ [b]) = bytesValue bytes + 256 ^ bytes.length * b.toNat := by
  simp [bytesValue, ofDigits_append]

lemma and_signBit_ne_zero_iff (b : UInt8) : b &&& 0x80 ≠ 0 ↔ 128 ≤ b.toNat := by
  have hand : (b &&& 0x80).toNat = b.toNat &&& 2 ^ 7 := UInt8.toNat_and ..
  have hlt := b.toNat_lt
  rw [and_two_pow] at hand
  constructor
  · intro hne
    by_contra hsmall
    rw [testBit_lt_two_pow (by omega : b.toNat < 2 ^ 7)] at hand
    exact hne (UInt8.toNat_inj.1 hand)
  · intro hlarge hzero
    have hbit : b.toNat.testBit 7 = true := by
      rw [testBit_eq_decide_div_mod_eq, decide_eq_true_eq]
      omega
    rw [hzero, hbit] at hand
    cases hand

lemma toNat_or_signBit {b : UInt8} (h : b.toNat < 128) : (b ||| 0x80).toNat = b.toNat + 128 := by
  have hor : (0x80 ||| b).toNat = 128 + b.toNat := by
    rw [UInt8.toNat_or]
    exact (two_pow_add_eq_or_of_lt (show b.toNat < 2 ^ 7 from h) 1).symm
  rw [UInt8.or_comm, hor, add_comm]

lemma bytesValue_lt : bytesValue bytes < 256 ^ bytes.length := by
  have hlt := ofDigits_lt_base_pow_length (b := 256) (l := bytes.map UInt8.toNat) (by decide)
    (by simpa using fun b _ => b.toNat_lt)
  rwa [length_map] at hlt

/-- The loop of `CScriptNum::serialize` writes the magnitude, with no zero at its end. -/
lemma scriptNumBytes_spec : ∀ {fuel n : ℕ}, n < 256 ^ fuel →
    bytesValue (scriptNumBytes fuel n) = n ∧ (scriptNumBytes fuel n).getLast? ≠ some 0
  | 0, n, h => by
    obtain rfl : n = 0 := by simpa using h
    exact ⟨rfl, nofun⟩
  | fuel + 1, n, h => by
    unfold scriptNumBytes
    split
    · next hzero => exact ⟨hzero.symm, nofun⟩
    · next hzero =>
      have hdiv : n / 256 < 256 ^ fuel := by
        rw [div_lt_iff_lt_mul (by decide), ← pow_succ]
        exact h
      have hbyte : ((n % 256).toUInt8).toNat = n % 256 :=
        UInt8.toNat_ofNat_of_lt (mod_lt _ (by decide))
      obtain ⟨hvalue, hlast⟩ := scriptNumBytes_spec hdiv
      constructor
      · unfold bytesValue at hvalue ⊢
        rw [map_cons, ofDigits_cons, hvalue, hbyte]
        omega
      · rw [List.getLast?_cons]
        cases hrest : (scriptNumBytes fuel (n / 256)).getLast? with
        | none =>
          rw [List.getLast?_eq_none_iff.1 hrest] at hvalue
          have hsmall : 0 = n / 256 := hvalue
          intro heq
          have hfirst : (n % 256).toUInt8 = 0 := Option.some.inj heq
          rw [hfirst] at hbyte
          have hlow : 0 = n % 256 := hbyte
          omega
        | some c => rwa [hrest] at hlast

lemma length_scriptNumBytes_le : ∀ (fuel n : ℕ), (scriptNumBytes fuel n).length ≤ fuel
  | 0, _ => le_rfl
  | fuel + 1, n => by
    unfold scriptNumBytes
    split
    · exact zero_le _
    · have := length_scriptNumBytes_le fuel (n / 256)
      rw [length_cons]
      omega

/-! ## Numbers -/

/-- The `absvalue` of `CScriptNum::serialize`, as an unsigned number. -/
def absvalue (value : ℤ) : BitVec 64 :=
  if value < 0 then ~~~(BitVec.ofInt 64 value) + 1 else BitVec.ofInt 64 value

lemma toNat_absvalue {value : ℤ} (h : value.natAbs < 2 ^ 64) :
    (absvalue value).toNat = value.natAbs := by
  unfold absvalue
  split
  · have hneg : ~~~(BitVec.ofInt 64 value) + 1 = BitVec.ofInt 64 (-value) :=
      (BitVec.neg_eq_not_add _).symm.trans BitVec.ofInt_neg.symm
    rw [hneg, BitVec.toNat_ofInt]
    omega
  · rw [BitVec.toNat_ofInt]
    omega

/-- `CScriptNum::serialize`. -/
def serializeScriptNum (value : ℤ) : List UInt8 :=
  if value = 0 then []
  else
    let result := scriptNumBytes 8 (absvalue value).toNat
    let back := result.getLast?.getD 0
    if back &&& 0x80 ≠ 0 then result ++ [if value < 0 then 0x80 else 0]
    else if value < 0 then result.dropLast ++ [back ||| 0x80]
    else result

/-- The number that bytes of a script stand for: the sign is the highest bit of the last byte. -/
def scriptNumValue (bytes : List UInt8) : ℤ :=
  let back := bytes.getLast?.getD 0
  let magnitude := bytesValue bytes.dropLast + 256 ^ (bytes.length - 1) * (back.toNat % 128)
  if 128 ≤ back.toNat then -magnitude else magnitude

lemma scriptNumValue_concat (back : UInt8) : scriptNumValue (bytes ++ [back]) =
      if 128 ≤ back.toNat then
        -((bytesValue bytes + 256 ^ bytes.length * (back.toNat % 128) : ℕ) : ℤ)
      else ((bytesValue bytes + 256 ^ bytes.length * (back.toNat % 128) : ℕ) : ℤ) := by
  simp [scriptNumValue]

/-- The test of the constructor of `CScriptNum` for the shortest form: the highest byte has more
than a sign bit, unless the byte before it needs all of its bits. -/
def isMinimal (vch : List UInt8) : Bool :=
  ¬ (vch.length > 0 ∧ vch.getLast?.getD 0 &&& 0x7f = 0 ∧
    (vch.length ≤ 1 ∨ vch.dropLast.getLast?.getD 0 &&& 0x80 = 0))

/-- The loop of `set_vch`, at the byte with index `i`. -/
def orBytes : (i : ℕ) → List UInt8 → BitVec 64 → BitVec 64
  | _, [], result => result
  | i, b :: vch, result => orBytes (i + 1) vch (result ||| BitVec.ofNat 64 b.toNat <<< (8 * i))

/-- `CScriptNum::set_vch`. -/
def setVch (vch : List UInt8) : BitVec 64 :=
  if vch = [] then 0
  else
    let result := orBytes 0 vch 0
    if vch.getLast?.getD 0 &&& 0x80 ≠ 0 then
      -(result &&& ~~~(0x80#64 <<< (8 * (vch.length - 1))))
    else result

/-- The constructor of `CScriptNum` from bytes. -/
def scriptNum (vch : List UInt8) (fRequireMinimal : Bool) (nMaxNumSize : ℕ := 4) :
    Except String ℤ :=
  if vch.length > nMaxNumSize then .error "script number overflow"
  else if fRequireMinimal ∧ ¬ isMinimal vch then .error "non-minimally encoded script number"
  else .ok (setVch vch).toInt

/-- The shifted bytes do not overlap. -/
lemma toNat_orBytes : ∀ {i : ℕ} {vch : List UInt8} {result : BitVec 64},
    result.toNat < 256 ^ i → i + vch.length ≤ 8 →
      (orBytes i vch result).toNat = result.toNat + 256 ^ i * bytesValue vch
  | i, [], result, _, _ => by simp [orBytes, bytesValue]
  | i, b :: vch, result, hlt, hlength => by
    rw [length_cons] at hlength
    have hpow : (256 : ℕ) ^ i = 2 ^ (8 * i) := by rw [Nat.pow_mul]
    have hbyte := b.toNat_lt
    have hle : (256 : ℕ) ^ (i + 1) ≤ 256 ^ 8 := Nat.pow_le_pow_right (by decide) (by omega)
    have hshift : (BitVec.ofNat 64 b.toNat <<< (8 * i)).toNat = 2 ^ (8 * i) * b.toNat := by
      have hfits : b.toNat * 2 ^ (8 * i) < 2 ^ 64 := by
        rw [← hpow]
        rw [pow_succ] at hle
        nlinarith
      rw [BitVec.toNat_shiftLeft, BitVec.toNat_ofNat,
        Nat.mod_eq_of_lt (by omega : b.toNat < 2 ^ 64),
        Nat.shiftLeft_eq, Nat.mod_eq_of_lt hfits, mul_comm]
    have hor : (result ||| BitVec.ofNat 64 b.toNat <<< (8 * i)).toNat =
        result.toNat + 256 ^ i * b.toNat := by
      rw [BitVec.toNat_or, hshift, hpow, Nat.or_comm, add_comm]
      exact (two_pow_add_eq_or_of_lt (hpow ▸ hlt) b.toNat).symm
    have hnext : result.toNat + 256 ^ i * b.toNat < 256 ^ (i + 1) := by
      rw [pow_succ]
      nlinarith
    rw [orBytes, toNat_orBytes (hor ▸ hnext) (by omega), hor, bytesValue, bytesValue, map_cons,
      ofDigits_cons, pow_succ]
    ring

/-- Clearing a bit above what the number has besides. -/
lemma and_not_eq {x low m : BitVec 64} {k : ℕ} (hm : m.toNat = 2 ^ k) (hlow : low.toNat < 2 ^ k)
    (h : x.toNat = m.toNat + low.toNat) : x &&& ~~~m = low := by
  have hor : x = m ||| low := by
    refine BitVec.eq_of_toNat_eq ?_
    rw [h, BitVec.toNat_or, hm]
    exact (congrArg (· + low.toNat) (mul_one (2 ^ k)).symm).trans
      ((two_pow_add_eq_or_of_lt hlow 1).trans (by rw [mul_one]))
  have hand : low &&& m = 0 := by
    refine BitVec.eq_of_toNat_eq ?_
    rw [BitVec.toNat_and, hm, and_two_pow, testBit_lt_two_pow hlow]
    exact zero_mul _
  calc x &&& ~~~m = low &&& ~~~m := by
        rw [hor, BitVec.and_comm, BitVec.and_or_distrib_left, BitVec.and_comm (~~~m) m,
          BitVec.and_not_self, BitVec.and_comm (~~~m) low]
        exact BitVec.zero_or
    _ = low &&& m ||| low &&& ~~~m := by
        rw [hand]
        exact BitVec.zero_or.symm
    _ = low := by rw [← BitVec.and_or_distrib_left, BitVec.or_not_self, BitVec.and_allOnes]

/-- **`set_vch` is the number the bytes stand for**, up to eight of them. -/
lemma toInt_setVch {vch : List UInt8} (h : vch.length ≤ 8) :
    (setVch vch).toInt = scriptNumValue vch := by
  rcases eq_nil_or_concat' vch with rfl | ⟨init, back, rfl⟩
  · rfl
  rw [length_append, length_singleton] at h
  have hback := back.toNat_lt
  have hlt := bytesValue_lt init
  have hle : (256 : ℕ) ^ init.length ≤ 256 ^ 7 := Nat.pow_le_pow_right (by decide) (by omega)
  have hpow : (2 : ℕ) ^ (8 * init.length) = 256 ^ init.length := pow_mul 2 8 _
  have hbytes : (orBytes 0 (init ++ [back]) 0).toNat =
      bytesValue init + 256 ^ init.length * back.toNat := by
    rw [toNat_orBytes (by decide) (by simpa using h), bytesValue_concat]
    simp
  have hmod : 256 ^ init.length * (back.toNat % 128) ≤ 256 ^ init.length * 127 :=
    mul_le_mul_left _ (by omega)
  rw [scriptNumValue_concat, setVch, if_neg (by simp), List.getLast?_concat, Option.getD_some,
    length_append, length_singleton, Nat.add_sub_cancel]
  simp only [and_signBit_ne_zero_iff]
  split
  · next hsign =>
    generalize hlow : BitVec.ofNat 64 (bytesValue init + 256 ^ init.length * (back.toNat % 128)) =
      low
    have hvalue : low.toNat = bytesValue init + 256 ^ init.length * (back.toNat % 128) := by
      rw [← hlow]
      exact Nat.mod_eq_of_lt (by omega)
    have hm : (0x80#64 <<< (8 * init.length)).toNat = 2 ^ (8 * init.length + 7) := by
      rw [BitVec.toNat_shiftLeft, Nat.shiftLeft_eq, pow_add, mul_comm (2 ^ _), hpow]
      exact Nat.mod_eq_of_lt (by change 128 * _ < _; omega)
    have hsplit : 256 ^ init.length * back.toNat =
        256 ^ init.length * 128 + 256 ^ init.length * (back.toNat % 128) := by
      rw [← mul_add, show 128 + back.toNat % 128 = back.toNat by omega]
    have hclear : orBytes 0 (init ++ [back]) 0 &&& ~~~(0x80#64 <<< (8 * init.length)) = low :=
      and_not_eq hm (by rw [hvalue, pow_add, hpow]; omega)
        (by rw [hbytes, hm, hvalue, pow_add, hpow]; omega)
    have hsmall : low ≠ BitVec.intMin 64 := by
      intro heq
      have hmin : low.toNat = 2 ^ 63 := by rw [heq]; rfl
      omega
    rw [hclear, BitVec.toInt_neg_of_ne_intMin hsmall,
      BitVec.toInt_eq_toNat_of_lt (by omega), hvalue]
  · next hsign =>
    rw [mod_eq_of_lt (by omega : back.toNat < 128)] at hmod ⊢
    rw [BitVec.toInt_eq_toNat_of_lt (by rw [hbytes]; omega), hbytes]

lemma scriptNum_minimal_eq_ok {vch : List UInt8} {size : ℕ} (hsize : size ≤ 8) {n : ℤ} :
    scriptNum vch true size = .ok n ↔
      vch.length ≤ size ∧ isMinimal vch = true ∧ scriptNumValue vch = n := by
  unfold scriptNum
  by_cases hlength : vch.length ≤ size
  · rw [toInt_setVch (hlength.trans hsize), if_neg (not_lt.2 hlength)]
    split_ifs <;> simp_all
  · rw [if_pos (not_le.1 hlength)]
    simp [hlength]

variable (init : List UInt8)

lemma isMinimal_concat (back : UInt8) : isMinimal (init ++ [back]) = true ↔
      (back.toNat % 128 = 0 → 128 ≤ (init.getLast?.getD 0).toNat) := by
  have hback : back &&& 0x7f = 0 ↔ back.toNat % 128 = 0 := by
    rw [← UInt8.toNat_inj, UInt8.toNat_and]
    exact (and_two_pow_sub_one_eq_mod back.toNat 7).congr_left
  rw [isMinimal, decide_eq_true_iff, List.getLast?_concat, Option.getD_some, dropLast_concat,
    hback, ← and_signBit_ne_zero_iff]
  cases init with
  | nil => simp
  | cons b init => simp

/-- **What is written is the shortest form, and it is read back.** -/
lemma serializeScriptNum_spec {value : ℤ} (h : value.natAbs < 2 ^ 64) :
    isMinimal (serializeScriptNum value) = true ∧
      scriptNumValue (serializeScriptNum value) = value := by
  unfold serializeScriptNum
  by_cases hzero : value = 0
  · rw [if_pos hzero, hzero]
    exact ⟨rfl, rfl⟩
  rw [if_neg hzero, toNat_absvalue h]
  obtain ⟨hvalue, hlast⟩ := scriptNumBytes_spec (show value.natAbs < 256 ^ 8 from h)
  -- The magnitude is positive, so there is a last byte.
  rcases eq_nil_or_concat' (scriptNumBytes 8 value.natAbs) with hbytes | ⟨init, back, hbytes⟩
  · rw [hbytes] at hvalue
    exact absurd (Int.natAbs_eq_zero.1 hvalue.symm) hzero
  rw [hbytes, bytesValue_concat] at hvalue
  have hne : back.toNat ≠ 0 := by
    rw [hbytes, List.getLast?_concat] at hlast
    exact fun heq => hlast (congrArg some (UInt8.toNat_inj.1 heq))
  simp only [hbytes, List.getLast?_concat, Option.getD_some, dropLast_concat]
  split
  · next hback =>
    rw [and_signBit_ne_zero_iff] at hback
    rw [isMinimal_concat, List.getLast?_concat, scriptNumValue_concat, bytesValue_concat, hvalue]
    refine ⟨fun _ => hback, ?_⟩
    by_cases hneg : value < 0
    · rw [if_pos hneg, if_pos (by decide)]
      change -((value.natAbs + _ * 0 : ℕ) : ℤ) = value
      omega
    · rw [if_neg hneg, if_neg (by decide)]
      change ((value.natAbs + _ * 0 : ℕ) : ℤ) = value
      omega
  · next hback =>
    rw [and_signBit_ne_zero_iff] at hback
    split
    · rw [isMinimal_concat, scriptNumValue_concat, toNat_or_signBit (by omega), if_pos (by omega),
        show (back.toNat + 128) % 128 = back.toNat by omega, hvalue]
      exact ⟨fun hsame => absurd hsame hne, by omega⟩
    · rw [isMinimal_concat, scriptNumValue_concat, if_neg (by omega), mod_eq_of_lt (by omega),
        hvalue]
      exact ⟨fun hsame => absurd hsame hne, by omega⟩

/-- **A number is read back from its bytes.** -/
lemma scriptNumValue_serialize {value : ℤ} (h : value.natAbs < 2 ^ 64) :
    scriptNumValue (serializeScriptNum value) = value :=
  (serializeScriptNum_spec h).2

lemma length_serializeScriptNum_le (value : ℤ) : (serializeScriptNum value).length ≤ 9 := by
  have hlength := length_scriptNumBytes_le 8 (absvalue value).toNat
  unfold serializeScriptNum
  split
  · exact zero_le _
  · dsimp only
    split_ifs <;> simp <;> omega

/-! ## The shortest form -/

lemma natAbs_scriptNumValue_concat (back : UInt8) : (scriptNumValue (init ++ [back])).natAbs =
      bytesValue init + 256 ^ init.length * (back.toNat % 128) := by
  rw [scriptNumValue_concat]
  split <;> simp only [Int.natAbs_neg, Int.natAbs_natCast]

lemma two_mul_natAbs_scriptNumValue_lt (vch : List UInt8) :
    2 * (scriptNumValue vch).natAbs < 256 ^ vch.length := by
  rcases eq_nil_or_concat' vch with rfl | ⟨init, back, rfl⟩
  · decide
  have hlt := bytesValue_lt init
  have hle : 256 ^ init.length * (back.toNat % 128) ≤ 256 ^ init.length * 127 :=
    mul_le_mul_left _ (by omega)
  rw [natAbs_scriptNumValue_concat, length_append, length_singleton, pow_succ]
  omega

lemma le_two_mul_natAbs_scriptNumValue {init : List UInt8} {back : UInt8}
    (h : isMinimal (init ++ [back]) = true) :
    256 ^ init.length ≤ 2 * (scriptNumValue (init ++ [back])).natAbs := by
  rw [natAbs_scriptNumValue_concat]
  by_cases hzero : back.toNat % 128 = 0
  · have hlast := (isMinimal_concat init back).1 h hzero
    rcases eq_nil_or_concat' init with rfl | ⟨init, c, rfl⟩
    · exact absurd hlast (by decide)
    · rw [List.getLast?_concat] at hlast
      have hhigh : 256 ^ init.length * 128 ≤ 256 ^ init.length * c.toNat :=
        mul_le_mul_left _ hlast
      rw [bytesValue_concat, length_append, length_singleton, pow_succ]
      omega
  · have hlow : 256 ^ init.length * 1 ≤ 256 ^ init.length * (back.toNat % 128) :=
      mul_le_mul_left _ (by omega)
    omega

section

variable {vch : List UInt8} (h : isMinimal vch = true)

include h

lemma length_le_iff_of_isMinimal (k : ℕ) :
    vch.length ≤ k ↔ 2 * (scriptNumValue vch).natAbs < 256 ^ k := by
  constructor
  · exact fun hk => (two_mul_natAbs_scriptNumValue_lt vch).trans_le
      (Nat.pow_le_pow_right (by decide) hk)
  · intro hk
    rcases eq_nil_or_concat' vch with rfl | ⟨init, back, rfl⟩
    · exact zero_le k
    · rw [length_append, length_singleton]
      exact (Nat.pow_lt_pow_iff_right (by decide)).1
        ((le_two_mul_natAbs_scriptNumValue h).trans_lt hk)

/-- The bytes of the shortest form are those of the magnitude and the sign: there is no negative
zero. -/
lemma bytesValue_of_isMinimal : bytesValue vch = (scriptNumValue vch).natAbs +
    if scriptNumValue vch < 0 then 256 ^ (vch.length - 1) * 128 else 0 := by
  rcases eq_nil_or_concat' vch with rfl | ⟨init, back, rfl⟩
  · rfl
  have hlow := le_two_mul_natAbs_scriptNumValue h
  have hpos : 0 < 256 ^ init.length := Nat.pow_pos (by decide)
  rw [natAbs_scriptNumValue_concat] at hlow ⊢
  rw [bytesValue_concat, length_append, length_singleton, Nat.add_sub_cancel,
    scriptNumValue_concat]
  by_cases hsign : 128 ≤ back.toNat
  · have hback : back.toNat = back.toNat % 128 + 128 := by
      have := back.toNat_lt
      omega
    rw [if_pos hsign, if_pos (by omega), add_assoc, ← mul_add, ← hback]
  · rw [if_neg hsign, if_neg (by omega), mod_eq_of_lt (by omega), add_zero]

lemma eq_of_scriptNumValue_eq {vch' : List UInt8} (h' : isMinimal vch' = true)
    (heq : scriptNumValue vch = scriptNumValue vch') : vch = vch' := by
  have hlength : vch.length = vch'.length := by
    refine le_antisymm ?_ ?_
    · rw [length_le_iff_of_isMinimal h, heq, ← length_le_iff_of_isMinimal h']
    · rw [length_le_iff_of_isMinimal h', ← heq, ← length_le_iff_of_isMinimal h]
  have hvalue : bytesValue vch = bytesValue vch' := by
    rw [bytesValue_of_isMinimal h, bytesValue_of_isMinimal h', heq, hlength]
  refine map_injective_iff.2 (fun _ _ => UInt8.toNat_inj.1) ?_
  exact ofDigits_inj_of_len_eq (b := 256) (by decide) (by simp [hlength])
    (by simpa using fun b _ => b.toNat_lt) (by simpa using fun b _ => b.toNat_lt) hvalue

end

/-- **Script numbers.**  Every `int64_t` but the least is written in at most eight bytes and read
back, and of all texts exactly those that are written are the shortest.  With four bytes exactly the
numbers below `2³¹` are read. -/
theorem scriptNum_bijection :
    (∀ n : ℤ, n.natAbs < 2 ^ 63 → scriptNum (serializeScriptNum n) true 8 = .ok n) ∧
      (∀ vch : List UInt8, vch.length ≤ 8 → ((∃ n, scriptNum vch true 8 = .ok n) ↔
        vch = serializeScriptNum (scriptNumValue vch))) ∧
      ∀ n : ℤ, (∃ vch, scriptNum vch true = .ok n) ↔ n.natAbs < 2 ^ 31 := by
  have hwrite : ∀ {n : ℤ} {size : ℕ}, 2 * n.natAbs < 256 ^ size → size ≤ 8 →
      scriptNum (serializeScriptNum n) true size = .ok n := by
    intro n size hn hsize
    have hpow : 256 ^ size ≤ 256 ^ 8 := Nat.pow_le_pow_right (by decide) hsize
    obtain ⟨hminimal, hvalue⟩ := serializeScriptNum_spec (show n.natAbs < 2 ^ 64 by omega)
    refine (scriptNum_minimal_eq_ok hsize).2 ⟨?_, hminimal, hvalue⟩
    rwa [length_le_iff_of_isMinimal hminimal, hvalue]
  refine ⟨fun n hn => hwrite (by omega) le_rfl, fun vch hlength => ?_,
    fun n => ⟨?_, fun hn => ⟨_, hwrite (by omega) (by decide)⟩⟩⟩
  · have hpow : 256 ^ vch.length ≤ 256 ^ 8 := Nat.pow_le_pow_right (by decide) hlength
    have hlt := two_mul_natAbs_scriptNumValue_lt vch
    obtain ⟨hminimal, hvalue⟩ :=
      serializeScriptNum_spec (show (scriptNumValue vch).natAbs < 2 ^ 64 by omega)
    constructor
    · rintro ⟨n, hread⟩
      exact eq_of_scriptNumValue_eq ((scriptNum_minimal_eq_ok le_rfl).1 hread).2.1
        hminimal hvalue.symm
    · exact fun heq => ⟨_, (scriptNum_minimal_eq_ok le_rfl).2 ⟨hlength, heq ▸ hminimal, rfl⟩⟩
  · rintro ⟨vch, hread⟩
    obtain ⟨hlength, hminimal, rfl⟩ := (scriptNum_minimal_eq_ok (by decide)).1 hread
    have := (length_le_iff_of_isMinimal hminimal 4).1 hlength
    omega

/-- The number that needs a byte for its sign. -/
theorem scriptNum_bijection_minus255 : scriptNum (serializeScriptNum (-255)) true 8 = .ok (-255) ∧
    serializeScriptNum (-255) = [0xff, 0x80] ∧ (-255 : ℤ).natAbs < 2 ^ 31 := by
  obtain ⟨hread, -, hfour⟩ := scriptNum_bijection
  exact ⟨hread (-255) (by decide), rfl, (hfour (-255)).1 ⟨[0xff, 0x80], rfl⟩⟩

/-! ## Pushes -/

/-- `AppendDataSize`. -/
def appendDataSize (size : ℕ) : List UInt8 :=
  if size < 0x4c then [size.toUInt8]
  else if size ≤ 0xff then [0x4c, size.toUInt8]
  else if size ≤ 0xffff then 0x4d :: [(size % 256).toUInt8, (size / 256).toUInt8]
  else 0x4e :: [(size % 256).toUInt8, (size / 256 % 256).toUInt8, (size / 65536 % 256).toUInt8,
    (size / 16777216 % 256).toUInt8]

/-- `operator<<` for a vector of bytes. -/
def pushData (bytes : List UInt8) : CScript := appendDataSize bytes.length ++ bytes

/-- `push_int64`. -/
def pushInt64 (n : ℤ) : CScript :=
  if n = -1 ∨ 1 ≤ n ∧ n ≤ 16 then [(n + 0x50).toNat.toUInt8]
  else if n = 0 then [0x00]
  else pushData (serializeScriptNum n)

lemma pushData_of_lt {bytes : List UInt8} (h : bytes.length < 0x4c) :
    pushData bytes = bytes.length.toUInt8 :: bytes := by
  rw [pushData, appendDataSize, if_pos h]
  rfl

lemma length_pushInt64_le (n : ℤ) : (pushInt64 n).length ≤ 10 := by
  have hlength := length_serializeScriptNum_le n
  unfold pushInt64
  split_ifs
  · exact le_add_left 1 9
  · exact le_add_left 1 9
  · rw [pushData_of_lt (by omega), length_cons]
    omega

/-- The number a pushed `int64_t` stands for. -/
def pushedValue : CScript → ℤ
  | [] => 0
  | opcode :: bytes =>
    if 0x4f ≤ opcode.toNat then opcode.toNat - 0x50 else scriptNumValue bytes

/-- **Different numbers are pushed as different bytes.** -/
lemma pushedValue_pushInt64 {n : ℤ} (h : n.natAbs < 2 ^ 64) : pushedValue (pushInt64 n) = n := by
  have hlength := length_serializeScriptNum_le n
  unfold pushInt64
  split_ifs with hsmall hzero
  · have hbyte : ((n + 0x50).toNat.toUInt8).toNat = (n + 0x50).toNat :=
      UInt8.toNat_ofNat_of_lt (by simp [UInt8.size]; omega)
    simp only [pushedValue, hbyte]
    rw [if_pos (by omega)]
    omega
  · rw [hzero]
    rfl
  · rw [pushData_of_lt (by omega)]
    have hbyte : ((serializeScriptNum n).length.toUInt8).toNat = (serializeScriptNum n).length :=
      UInt8.toNat_ofNat_of_lt (by simp [UInt8.size]; omega)
    simp only [pushedValue, hbyte]
    rw [if_neg (by omega), scriptNumValue_serialize h]

lemma pushInt64_injective {m n : ℤ} (hm : m.natAbs < 2 ^ 64) (hn : n.natAbs < 2 ^ 64)
    (h : pushInt64 m = pushInt64 n) : m = n := by
  rw [← pushedValue_pushInt64 hm, h, pushedValue_pushInt64 hn]

end SlithyTove
