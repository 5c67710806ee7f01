import SlithyTove.Framework.Codec

/-!
# Serialization

The number formats of `serialize.h`.  A compact size is one byte, or a marker and two, four or eight
bytes, and only the shortest form is accepted.  A `VARINT` is written in base 128 with the most
significant digit first; all digits but the last have their high bit set and stand for one more than
they show, so that every number has one form.

Reading fails where the data ends, as the streams do, or where a number is too large.
-/

namespace SlithyTove

open Framework

/-- A reader of a data stream; the exception is its text. -/
abbrev StreamReader := Reader String UInt8

/-- What a stream throws at its end. -/
def END_OF_DATA : String := "DataStream::read(): end of data"

/-- `ser_readdata8`, `ser_readdata16`, `ser_readdata32` and `ser_readdata64`. -/
def serReadData (bytes : ℕ) : StreamReader ℕ := readLE END_OF_DATA bytes

/-- `ser_writedata8`, `ser_writedata16`, `ser_writedata32` and `ser_writedata64`. -/
def serWriteData (bytes n : ℕ) : List UInt8 := leBytes bytes n

variable {n : ℕ}

lemma reads_serReadData {bytes : ℕ} (h : n < 256 ^ bytes) :
    Reads (serReadData bytes) (serWriteData bytes n) n :=
  reads_readLE _ h

/-! ## Compact sizes -/

/-- `MAX_SIZE`. -/
def MAX_SIZE : ℕ := 0x02000000

/-- `WriteCompactSize`. -/
def writeCompactSize (nSize : ℕ) : List UInt8 :=
  if nSize < 253 then serWriteData 1 nSize
  else if nSize ≤ 0xffff then serWriteData 1 253 ++ serWriteData 2 nSize
  else if nSize ≤ 0xffffffff then serWriteData 1 254 ++ serWriteData 4 nSize
  else serWriteData 1 255 ++ serWriteData 8 nSize

/-- A size after its marker, which must not have fitted the form before. -/
def readCanonical (bytes least : ℕ) : StreamReader ℕ := do
  let nSizeRet ← serReadData bytes
  if nSizeRet < least then throw "non-canonical ReadCompactSize()" else pure nSizeRet

/-- The size that a first byte begins. -/
def readSize (chSize : ℕ) : StreamReader ℕ :=
  if chSize < 253 then pure chSize
  else if chSize = 253 then readCanonical 2 253
  else if chSize = 254 then readCanonical 4 0x10000
  else readCanonical 8 0x100000000

/-- `ReadCompactSize` with its range check. -/
def readCompactSize : StreamReader ℕ := do
  let chSize ← serReadData 1
  let nSizeRet ← readSize chSize
  if nSizeRet > MAX_SIZE then throw "ReadCompactSize(): size too large" else pure nSizeRet

lemma reads_readCanonical {bytes least : ℕ} (h : n < 256 ^ bytes) (hleast : least ≤ n) :
    Reads (readCanonical bytes least) (serWriteData bytes n) n := by
  refine (reads_serReadData h).bind_nil ?_
  rw [if_neg (by omega)]
  exact reads_pure n

lemma reads_readCompactSize (h : n ≤ MAX_SIZE) : Reads readCompactSize (writeCompactSize n) n := by
  have hrange : n ≤ 0x02000000 := h
  have hcheck : Reads (if n > MAX_SIZE then throw "ReadCompactSize(): size too large"
      else pure n : StreamReader ℕ) [] n := by
    rw [if_neg (by omega)]
    exact reads_pure n
  rw [writeCompactSize]
  split
  · next hsmall =>
    refine (reads_serReadData (by omega)).bind_nil (Reads.bind_nil ?_ hcheck)
    rw [readSize, if_pos hsmall]
    exact reads_pure n
  · next hsmall =>
    rw [if_pos (show n ≤ 0xffffffff by omega)]
    split
    · refine (reads_serReadData (by omega)).bind (Reads.bind_nil ?_ hcheck)
      exact reads_readCanonical (by omega) (by omega)
    · refine (reads_serReadData (by omega)).bind (Reads.bind_nil ?_ hcheck)
      exact reads_readCanonical (by omega) (by omega)

/-! ## Vectors -/

/-- `VectorFormatter::Ser`. -/
def writeVector {α : Type} (write : α → List UInt8) (v : List α) : List UInt8 :=
  writeCompactSize v.length ++ v.flatMap write

/-- `VectorFormatter::Unser`. -/
def readVector {α : Type} (read : StreamReader α) : StreamReader (List α) := do
  let size ← readCompactSize
  readMany read size

lemma reads_readVector {α : Type} {write : α → List UInt8} {read : StreamReader α} {v : List α}
    (hsize : v.length ≤ MAX_SIZE) (h : ∀ a ∈ v, Reads read (write a) a) :
    Reads (readVector read) (writeVector write v) v :=
  (reads_readCompactSize hsize).bind (reads_readMany h)

/-- A vector of bytes is one span. -/
def writeBytes (bytes : List UInt8) : List UInt8 := writeCompactSize bytes.length ++ bytes

/-- `Unserialize` of a vector of bytes. -/
def readBytes : StreamReader (List UInt8) := do
  let size ← readCompactSize
  readSymbols END_OF_DATA size

lemma reads_readBytes {bytes : List UInt8} (hsize : bytes.length ≤ MAX_SIZE) :
    Reads readBytes (writeBytes bytes) bytes :=
  (reads_readCompactSize hsize).bind (reads_readSymbols _ bytes)

/-! ## Variable-length integers -/

/-- The loop of `WriteVarInt`: the digits of `n` before those already written. -/
def writeVarIntBefore (n : ℕ) (tmp : List UInt8) : List UInt8 :=
  let digit := (n % 0x80 + if tmp.isEmpty then 0 else 0x80).toUInt8
  if n ≤ 0x7f then digit :: tmp else writeVarIntBefore (n / 0x80 - 1) (digit :: tmp)
termination_by n

/-- `WriteVarInt`. -/
def writeVarInt (n : ℕ) : List UInt8 := writeVarIntBefore n []

/-- The loop of `ReadVarInt`, at a type whose largest value is `max`, with `n` read so far. -/
def readVarIntFrom (max : ℕ) : List UInt8 → ℕ → EStateM.Result String (List UInt8) ℕ
  | [], _ => .error END_OF_DATA []
  | chData :: rest, n =>
    if n > max / 0x80 then .error "ReadVarInt(): size too large" rest
    else
      let n := n * 0x80 + chData.toNat % 0x80
      if 0x80 ≤ chData.toNat then
        if n = max then .error "ReadVarInt(): size too large" rest
        else readVarIntFrom max rest (n + 1)
      else .ok n rest

/-- `ReadVarInt`. -/
def readVarInt (max : ℕ) : StreamReader ℕ := fun stream => readVarIntFrom max stream 0

lemma readVarIntFrom_digit {max : ℕ} (h : n ≤ max) (high : Bool) (rest : List UInt8) :
    readVarIntFrom max ((n % 0x80 + if high then 0x80 else 0).toUInt8 :: rest) (n / 0x80) =
      if high then
        if n = max then .error "ReadVarInt(): size too large" rest
        else readVarIntFrom max rest (n + 1)
      else .ok n rest := by
  have hbyte : (n % 0x80 + if high then 0x80 else 0).toUInt8.toNat =
      n % 0x80 + if high then 0x80 else 0 := by
    rw [UInt8.toNat_ofNat']
    split <;> omega
  have hn : n / 0x80 * 0x80 + (n % 0x80 + if high then 0x80 else 0) % 0x80 = n := by
    split <;> omega
  rw [readVarIntFrom, if_neg (by omega), hbyte, hn]
  cases high with
  | false => simp [show n % 128 < 128 by omega]
  | true => simp

lemma readVarIntFrom_writeVarIntBefore {max : ℕ} (h : n < max) {tmp : List UInt8}
    (htmp : tmp.isEmpty = false) (rest : List UInt8) :
    readVarIntFrom max (writeVarIntBefore n tmp ++ rest) 0 =
      readVarIntFrom max (tmp ++ rest) (n + 1) := by
  fun_induction writeVarIntBefore n tmp with
  | case1 n tmp digit hn =>
    have hstep := readVarIntFrom_digit h.le true (tmp ++ rest)
    rw [if_pos rfl, if_pos rfl, if_neg h.ne, Nat.div_eq_of_lt (by omega)] at hstep
    simpa [digit, htmp] using hstep
  | case2 n tmp digit hn ih =>
    have hstep := readVarIntFrom_digit h.le true (tmp ++ rest)
    rw [if_pos rfl, if_pos rfl, if_neg h.ne] at hstep
    rw [ih (by omega) rfl, Nat.sub_add_cancel (by omega)]
    simpa [digit, htmp] using hstep

/-- **What `WriteVarInt` writes, `ReadVarInt` reads.** -/
lemma reads_readVarInt {max : ℕ} (h : n ≤ max) : Reads (readVarInt max) (writeVarInt n) n := by
  intro rest
  have hstep := readVarIntFrom_digit h false rest
  rw [if_neg Bool.false_ne_true, if_neg Bool.false_ne_true] at hstep
  rw [readVarInt, writeVarInt, writeVarIntBefore]
  split
  · next hn => rwa [Nat.div_eq_of_lt (by omega)] at hstep
  · next hn =>
    rw [readVarIntFrom_writeVarIntBefore (by omega) rfl, Nat.sub_add_cancel (by omega)]
    exact hstep

lemma writeVarInt_of_lt (h : n < 0x80) : writeVarInt n = [n.toUInt8] := by
  rw [writeVarInt, writeVarIntBefore, if_pos (by omega), Nat.mod_eq_of_lt h]
  rfl

/-- What has been read up to `m` is what is written before every text that follows. -/
def WrittenBefore (m : ℕ) (read : List UInt8) : Prop :=
  m = 0 ∧ read = [] ∨
    0 < m ∧ ∀ tmp : List UInt8, tmp ≠ [] → writeVarIntBefore (m - 1) tmp = read ++ tmp

lemma WrittenBefore.digit {m : ℕ} {read : List UInt8} (h : WrittenBefore m read) (chData : UInt8)
    (tmp : List UInt8) (htmp : tmp = [] ↔ chData.toNat < 0x80) :
    writeVarIntBefore (m * 0x80 + chData.toNat % 0x80) tmp = read ++ chData :: tmp := by
  have hlt := chData.toNat_lt
  have hvalue : (m * 0x80 + chData.toNat % 0x80) % 0x80 +
      (if tmp.isEmpty then 0 else 0x80) = chData.toNat := by
    simp only [List.isEmpty_iff, htmp]
    split <;> omega
  rw [writeVarIntBefore, hvalue, Nat.toUInt8_eq, UInt8.ofNat_toNat]
  rcases h with ⟨rfl, rfl⟩ | ⟨hm, hread⟩
  · exact if_pos (by omega)
  · rw [if_neg (by omega), show (m * 0x80 + chData.toNat % 0x80) / 0x80 - 1 = m - 1 by omega]
    exact hread _ (List.cons_ne_nil _ _)

/-- **What `ReadVarInt` reads, `WriteVarInt` writes.**  No digit overflows, since the largest value
ends with seven ones. -/
lemma eq_writeVarInt_of_readVarIntFrom {max m : ℕ} (hmax : max % 0x80 = 0x7f)
    {stream read rest : List UInt8} (h : WrittenBefore m read)
    (hrun : readVarIntFrom max stream m = .ok n rest) :
    n ≤ max ∧ read ++ stream = writeVarInt n ++ rest := by
  induction stream generalizing m read with
  | nil => cases hrun
  | cons chData stream ih =>
    rw [readVarIntFrom] at hrun
    dsimp only at hrun
    split_ifs at hrun with hsmall hhigh hlast
    · have hbefore : WrittenBefore (m * 0x80 + chData.toNat % 0x80 + 1) (read ++ [chData]) := by
        refine .inr ⟨Nat.succ_pos _, fun tmp htmp => ?_⟩
        rw [Nat.add_sub_cancel, h.digit chData tmp (by simp [htmp, hhigh]), List.append_assoc]
        rfl
      have hread := ih hbefore hrun
      rwa [List.append_assoc] at hread
    · cases hrun
      refine ⟨by omega, ?_⟩
      rw [writeVarInt, h.digit chData [] (by simp; omega), List.append_assoc]
      rfl

/-- **Variable-length integers.**  A type of `w` value bits is any unsigned type, or a signed type
without its sign. -/
theorem varInt_bijection (w : ℕ) (hw : 7 ≤ w) :
    (∀ n < 2 ^ w, ∀ rest, readVarInt (2 ^ w - 1) (writeVarInt n ++ rest) = .ok n rest) ∧
      ∀ stream n rest, readVarInt (2 ^ w - 1) stream = .ok n rest →
        n < 2 ^ w ∧ stream = writeVarInt n ++ rest := by
  have hpos := Nat.two_pow_pos w
  refine ⟨fun n hn rest => reads_readVarInt (by omega) rest, fun stream n rest hrun => ?_⟩
  have hmax : (2 ^ w - 1) % 0x80 = 0x7f := by
    obtain ⟨j, rfl⟩ := Nat.exists_eq_add_of_le hw
    rw [pow_add] at hpos ⊢
    omega
  obtain ⟨hn, hstream⟩ := eq_writeVarInt_of_readVarIntFrom hmax (.inl ⟨rfl, rfl⟩) hrun
  exact ⟨by omega, hstream⟩

/-- The first number with two digits, in a byte. -/
theorem varInt_bijection_twoDigits :
    readVarInt (2 ^ 8 - 1) [0x80, 0x00, 0x05] = .ok 128 [0x05] ∧
      [0x80, 0x00, 0x05] = writeVarInt 128 ++ [0x05] := by
  have hread : readVarInt (2 ^ 8 - 1) [0x80, 0x00, 0x05] = .ok 128 [0x05] := rfl
  exact ⟨hread, ((varInt_bijection 8 (by decide)).2 _ _ _ hread).2⟩

end SlithyTove
