import SlithyTove.Coins.CoinsMap
import SlithyTove.Framework.MachineInt
import SlithyTove.Primitives.Serialize

/-!
# Compressed coins

How `compressor.cpp` packs outputs and how coins and undo records are stored.  An amount loses its
trailing zeros; a payment to a key hash, a script hash or a public key becomes one byte for its kind
and the hash or the x coordinate; other scripts follow their size, which starts at six so that it
cannot be taken for a kind.

An uncompressed public key is compressed only if it is fully valid, since only then does its x
coordinate and the parity of y determine it.  Both functions are those of the curve library.
-/

namespace SlithyTove

open Framework Nat Option

/-- The compressed form of a full public key: the parity of y and the coordinate x. -/
def compressedKey (pubkey : List UInt8) : List UInt8 :=
  (2 ||| (pubkey.getD 64 0 &&& 1)) :: (pubkey.drop 1).take 32

/-- Public keys of the curve library. -/
structure PubKeyCurve where
  /-- `CPubKey::IsFullyValid`. -/
  isFullyValid : List UInt8 → Bool
  /-- `CPubKey::Decompress`. -/
  decompress : List UInt8 → Option (List UInt8)
  decompress_compressedKey : ∀ pubkey, pubkey.length = 65 → pubkey.head? = some 4 →
    isFullyValid pubkey → decompress (compressedKey pubkey) = some pubkey

/-! ## Amounts -/

/-- The first loop of `CompressAmount`: at most `room` zeros are taken off. -/
def stripZeros : (room n : ℕ) → ℕ × ℕ
  | 0, n => (0, n)
  | room + 1, n =>
    if n % 10 = 0 then ((stripZeros room (n / 10)).1 + 1, (stripZeros room (n / 10)).2) else (0, n)

/-- `CompressAmount`. -/
def compressAmount (n : ℕ) : ℕ :=
  if n = 0 then 0
  else
    let (e, n) := stripZeros 9 n
    if e < 9 then (1 + (n / 10 * 9 + n % 10 - 1) * 10 + e) % 2 ^ 64
    else (1 + (n - 1) * 10 + 9) % 2 ^ 64

/-- `DecompressAmount`. -/
def decompressAmount (x : ℕ) : ℕ :=
  if x = 0 then 0
  else
    let e := (x - 1) % 10
    let x := (x - 1) / 10
    let n := if e < 9 then x / 9 * 10 + (x % 9 + 1) else x + 1
    (fun n => n * 10 % 2 ^ 64)^[e] n

lemma stripZeros_spec : ∀ (room : ℕ) {n : ℕ}, n ≠ 0 →
    (stripZeros room n).2 * 10 ^ (stripZeros room n).1 = n ∧ (stripZeros room n).1 ≤ room ∧
      ((stripZeros room n).1 < room → (stripZeros room n).2 % 10 ≠ 0)
  | 0, n, _ => ⟨by simp [stripZeros], le_rfl, fun h => absurd h (not_lt_zero _)⟩
  | room + 1, n, hn => by
    rw [stripZeros]
    split
    · next hzero =>
      obtain ⟨hvalue, hroom, hdigit⟩ := stripZeros_spec room (n := n / 10) (by omega)
      refine ⟨?_, by omega, fun h => hdigit (by omega)⟩
      rw [pow_succ, ← mul_assoc, hvalue]
      omega
    · next hdigit => exact ⟨by simp, zero_le _, fun _ => hdigit⟩

lemma iterate_times_ten : ∀ {e n : ℕ}, n * 10 ^ e < 2 ^ 64 →
    (fun n => n * 10 % 2 ^ 64)^[e] n = n * 10 ^ e
  | 0, n, _ => by simp
  | e + 1, n, h => by
    have hn : n * 10 ≤ n * 10 ^ (e + 1) :=
      mul_le_mul_left n (le_self_pow (succ_ne_zero e) 10)
    have hpow : n * 10 * 10 ^ e = n * 10 ^ (e + 1) := by ring
    rw [Function.iterate_succ_apply, mod_eq_of_lt (hn.trans_lt h),
      iterate_times_ten (hpow ▸ h), hpow]

lemma compressAmount_lt (n : ℕ) : compressAmount n < 2 ^ 64 := by
  rw [compressAmount]
  split
  · decide
  · dsimp only
    split <;> exact mod_lt _ (by decide)

/-- **Amounts come back**, where the products of `CompressAmount` do not overflow. -/
lemma decompressAmount_compressAmount {n : ℕ} (h : n < 2 ^ 60) :
    decompressAmount (compressAmount n) = n := by
  by_cases hn : n = 0
  · rw [hn]
    rfl
  obtain ⟨hvalue, hroom, hdigit⟩ := stripZeros_spec 9 hn
  rw [compressAmount, if_neg hn]
  generalize stripZeros 9 n = stripped at hvalue hroom hdigit ⊢
  obtain ⟨e, m⟩ := stripped
  dsimp only at hvalue hroom hdigit ⊢
  have hm : m ≤ n := by
    rw [← hvalue]
    exact Nat.le_mul_of_pos_right m (by positivity)
  have hpos : m ≠ 0 := fun hzero => hn (by rw [← hvalue, hzero, zero_mul])
  have htimes : (fun n => n * 10 % 2 ^ 64)^[e] m = n := by
    rw [iterate_times_ten (by omega), hvalue]
  rw [decompressAmount]
  split
  · next hsmall =>
    rw [mod_eq_of_lt (by omega), if_neg (by omega)]
    dsimp only
    rw [show (1 + (m / 10 * 9 + m % 10 - 1) * 10 + e - 1) % 10 = e by omega,
      show (1 + (m / 10 * 9 + m % 10 - 1) * 10 + e - 1) / 10 = m / 10 * 9 + m % 10 - 1 by omega,
      if_pos hsmall, show (m / 10 * 9 + m % 10 - 1) / 9 * 10 +
        ((m / 10 * 9 + m % 10 - 1) % 9 + 1) = m by omega, htimes]
  · next hsmall =>
    have he : e = 9 := by omega
    rw [mod_eq_of_lt (by omega), if_neg (by omega)]
    dsimp only
    rw [show (1 + (m - 1) * 10 + 9 - 1) % 10 = 9 by omega,
      show (1 + (m - 1) * 10 + 9 - 1) / 10 = m - 1 by omega, if_neg (by omega),
      Nat.sub_add_cancel (by omega), ← he, htimes]

/-! ## Scripts -/

/-- The opcode `OP_DUP`. -/
def OP_DUP : UInt8 := 0x76

/-- The opcode `OP_EQUAL`. -/
def OP_EQUAL : UInt8 := 0x87

/-- The opcode `OP_EQUALVERIFY`. -/
def OP_EQUALVERIFY : UInt8 := 0x88

/-- The opcode `OP_HASH160`. -/
def OP_HASH160 : UInt8 := 0xa9

/-- The opcode `OP_CHECKSIG`. -/
def OP_CHECKSIG : UInt8 := 0xac

/-- The `size` bytes of a script between a fixed beginning and a fixed end. -/
def payload (front : List UInt8) (size : ℕ) (back : List UInt8) (script : CScript) :
    Option (List UInt8) :=
  if script.length = front.length + size + back.length ∧ script.take front.length = front ∧
    script.drop (front.length + size) = back
  then some ((script.drop front.length).take size) else none

/-- `IsToKeyID`. -/
def isToKeyID : CScript → Option (List UInt8) :=
  payload [OP_DUP, OP_HASH160, 20] 20 [OP_EQUALVERIFY, OP_CHECKSIG]

/-- `IsToScriptID`. -/
def isToScriptID : CScript → Option (List UInt8) := payload [OP_HASH160, 20] 20 [OP_EQUAL]

section Curve

variable (curve : PubKeyCurve)

/-- `IsToPubKey`. -/
def isToPubKey (script : CScript) : Option (List UInt8) :=
  ((payload [33] 33 [OP_CHECKSIG] script).filter fun pubkey =>
    pubkey.head? = some 2 ∨ pubkey.head? = some 3) <|>
  ((payload [65] 65 [OP_CHECKSIG] script).filter fun pubkey =>
    pubkey.head? = some 4 ∧ curve.isFullyValid pubkey)

/-- What `CompressScript` makes of a public key. -/
def compressPubKey (pubkey : List UInt8) : Option (List UInt8) :=
  let x := (pubkey.drop 1).take 32
  if pubkey.getD 0 0 = 2 ∨ pubkey.getD 0 0 = 3 then some (pubkey.getD 0 0 :: x)
  else if pubkey.getD 0 0 = 4 then some ((4 ||| (pubkey.getD 64 0 &&& 1)) :: x)
  else none

/-- `CompressScript`. -/
def compressScript (script : CScript) : Option (List UInt8) :=
  (isToKeyID script).map (0 :: ·) <|> (isToScriptID script).map (1 :: ·) <|>
    (isToPubKey curve script).bind compressPubKey

/-- `GetSpecialScriptSize`. -/
def getSpecialScriptSize (nSize : ℕ) : ℕ :=
  if nSize = 0 ∨ nSize = 1 then 20
  else if nSize = 2 ∨ nSize = 3 ∨ nSize = 4 ∨ nSize = 5 then 32
  else 0

/-- `DecompressScript`; where it fails the script is left as it was. -/
def decompressScript (nSize : ℕ) (data : List UInt8) : Option CScript :=
  match nSize with
  | 0 => some ([OP_DUP, OP_HASH160, 20] ++ data ++ [OP_EQUALVERIFY, OP_CHECKSIG])
  | 1 => some ([OP_HASH160, 20] ++ data ++ [OP_EQUAL])
  | 2 | 3 => some ([33] ++ (nSize.toUInt8 :: data) ++ [OP_CHECKSIG])
  | 4 | 5 =>
    (curve.decompress ((nSize - 2).toUInt8 :: data)).map fun pubkey =>
      [65] ++ pubkey ++ [OP_CHECKSIG]
  | _ => none

/-- The kinds of scripts that have a form of their own. -/
def nSpecialScripts : ℕ := 6

/-- The largest `unsigned int`. -/
def UINT_MAX : ℕ := 2 ^ 32 - 1

/-- `ScriptCompression::Ser`. -/
def writeScript (script : CScript) : List UInt8 :=
  match compressScript curve script with
  | some compr => compr
  | none => writeVarInt ((script.length + nSpecialScripts) % 2 ^ 32) ++ script

/-- `s.ignore`. -/
def ignore (nSize : ℕ) : StreamReader Unit :=
  (fun _ => ()) <$> readSymbols "DataStream::ignore(): end of data" nSize

/-- `ScriptCompression::Unser` into an empty script. -/
def readScript : StreamReader CScript := do
  let nSize ← readVarInt UINT_MAX
  if nSize < nSpecialScripts then
    let vch ← readSymbols END_OF_DATA (getSpecialScriptSize nSize)
    pure ((decompressScript curve nSize vch).getD [])
  else if nSize - nSpecialScripts > MAX_SCRIPT_SIZE then
    -- An overly long script is replaced by a short invalid one.
    ignore (nSize - nSpecialScripts)
    pure [OP_RETURN]
  else readSymbols END_OF_DATA (nSize - nSpecialScripts)

variable {curve} {script : CScript}

lemma eq_of_payload {front back p : List UInt8} {size : ℕ}
    (h : payload front size back script = some p) :
    p.length = size ∧ script = front ++ p ++ back := by
  rw [payload, ite_none_right_eq_some] at h
  obtain ⟨⟨hlength, hfront, hback⟩, hp⟩ := h
  have hrest : script.drop front.length = p ++ back := by
    rw [← hback, ← Option.some.inj hp, ← List.drop_drop, List.take_append_drop]
  refine ⟨?_, ?_⟩
  · rw [← Option.some.inj hp, List.length_take, List.length_drop]
    omega
  · rw [List.append_assoc, ← hrest]
    exact (List.take_append_drop front.length script).symm.trans (congrArg (· ++ _) hfront)

/-- A compressed script: its kind, and data from which the script comes back. -/
def Decompresses (curve : PubKeyCurve) (compr : List UInt8) (script : CScript) : Prop :=
  ∃ kind data, compr = kind :: data ∧ kind.toNat < nSpecialScripts ∧
    data.length = getSpecialScriptSize kind.toNat ∧
    decompressScript curve kind.toNat data = some script

lemma parity_eq (b : UInt8) : b &&& 1 = 0 ∨ b &&& 1 = 1 := by
  have hmod : (b &&& 1).toNat = b.toNat % 2 := by
    rw [UInt8.toNat_and, UInt8.toNat_one, and_one_is_mod]
  obtain h | h := mod_two_eq_zero_or_one b.toNat
  · exact .inl (UInt8.toNat_inj.mp (hmod.trans h))
  · exact .inr (UInt8.toNat_inj.mp (hmod.trans h))

lemma decompresses_pubKey {pubkey compr : List UInt8}
    (h : isToPubKey curve script = some pubkey) (hc : compressPubKey pubkey = some compr) :
    Decompresses curve compr script := by
  rw [isToPubKey, orElse_eq_some] at h
  obtain h | ⟨-, h⟩ := h
  · obtain ⟨hpay, hhead⟩ := filter_eq_some_iff.mp h
    obtain ⟨hlength, rfl⟩ := eq_of_payload hpay
    match pubkey, hlength with
    | kind :: x, hlength =>
      have hx : x.length = 32 := Nat.succ.inj hlength
      have hkind : kind = 2 ∨ kind = 3 := by simpa using hhead
      have hcompr : compr = kind :: x := by
        simpa [compressPubKey, hkind, ← hx] using hc.symm
      obtain rfl | rfl := hkind
      · exact ⟨2, x, hcompr, by decide, hx, rfl⟩
      · exact ⟨3, x, hcompr, by decide, hx, rfl⟩
  · obtain ⟨hpay, hhead⟩ := filter_eq_some_iff.mp h
    obtain ⟨hlength, rfl⟩ := eq_of_payload hpay
    obtain ⟨hfour, hvalid⟩ : pubkey.head? = some 4 ∧ curve.isFullyValid pubkey := by
      simpa using hhead
    have hback := curve.decompress_compressedKey pubkey hlength hfour hvalid
    have hfirst : pubkey.getD 0 0 = 4 := by
      rw [List.getD_eq_getElem?_getD, ← List.head?_eq_getElem?, hfour]
      rfl
    have hcompr : compr = (4 ||| (pubkey.getD 64 0 &&& 1)) :: (pubkey.drop 1).take 32 := by
      rw [compressPubKey, hfirst] at hc
      exact (Option.some.inj hc).symm
    have hx : ((pubkey.drop 1).take 32).length = 32 := by
      rw [List.length_take, List.length_drop, hlength]
      rfl
    rw [compressedKey] at hback
    obtain hparity | hparity := parity_eq (pubkey.getD 64 0)
    · rw [hparity] at hback hcompr
      exact ⟨4, _, hcompr, by decide, hx, congrArg (Option.map _) hback⟩
    · rw [hparity] at hback hcompr
      exact ⟨5, _, hcompr, by decide, hx, congrArg (Option.map _) hback⟩

lemma decompresses_compressScript {compr : List UInt8}
    (h : compressScript curve script = some compr) : Decompresses curve compr script := by
  rw [compressScript, orElse_eq_some] at h
  obtain h | ⟨-, h⟩ := h
  · obtain ⟨keyID, hpay, rfl⟩ := map_eq_some_iff.mp h
    obtain ⟨hlength, rfl⟩ := eq_of_payload hpay
    exact ⟨0, keyID, rfl, by decide, hlength, rfl⟩
  rw [orElse_eq_some] at h
  obtain h | ⟨-, h⟩ := h
  · obtain ⟨scriptID, hpay, rfl⟩ := map_eq_some_iff.mp h
    obtain ⟨hlength, rfl⟩ := eq_of_payload hpay
    exact ⟨1, scriptID, rfl, by decide, hlength, rfl⟩
  · obtain ⟨pubkey, hkey, hc⟩ := bind_eq_some_iff.mp h
    exact decompresses_pubKey hkey hc

/-- **Scripts come back.** -/
lemma reads_readScript (h : script.length ≤ MAX_SCRIPT_SIZE) :
    Reads (readScript curve) (writeScript curve script) script := by
  have hmax : script.length ≤ 10000 := h
  rw [writeScript]
  split
  · next compr hcompr =>
    obtain ⟨kind, data, rfl, hkind, hlength, hback⟩ := decompresses_compressScript hcompr
    have hsmall : kind.toNat < 6 := hkind
    -- The kind is a number of one digit.
    have hsize : Reads (readVarInt UINT_MAX) [kind] kind.toNat := by
      have hread : Reads (readVarInt UINT_MAX) (writeVarInt kind.toNat) kind.toNat :=
        reads_readVarInt (by rw [UINT_MAX]; omega)
      rwa [writeVarInt_of_lt (by omega), toUInt8_eq, UInt8.ofNat_toNat] at hread
    refine hsize.bind ?_
    rw [if_pos hkind, ← hlength]
    refine (reads_readSymbols _ data).bind_nil ?_
    rw [hback]
    exact reads_pure _
  · have hsize : script.length + nSpecialScripts ≤ UINT_MAX := by
      rw [UINT_MAX, nSpecialScripts]
      omega
    rw [mod_eq_of_lt (show _ < 2 ^ 32 from lt_succ_of_le hsize)]
    refine (reads_readVarInt hsize).bind ?_
    rw [if_neg (by omega), Nat.add_sub_cancel, if_neg (by omega)]
    exact reads_readSymbols _ script

/-! ## Coins -/

variable (curve)

/-- `TxOutCompression`, written; the amount is converted to an unsigned number. -/
def writeTxOut (out : CTxOut) : List UInt8 :=
  writeVarInt (compressAmount (out.nValue % 2 ^ 64).toNat) ++ writeScript curve out.scriptPubKey

/-- `TxOutCompression`, read. -/
def readTxOut : StreamReader CTxOut := do
  let v ← readVarInt (2 ^ 64 - 1)
  let scriptPubKey ← readScript curve
  pure ⟨wrap 64 (decompressAmount v), scriptPubKey⟩

/-- The height and the coinbase flag in one number. -/
def Coin.code (coin : Coin) : ℕ := (coin.nHeight * 2 + coin.fCoinBase.toNat) % 2 ^ 32

/-- `Coin::Serialize`, which asserts that the coin is not spent. -/
def Coin.serialize (coin : Coin) : Option (List UInt8) :=
  if coin.isSpent then none else some (writeVarInt coin.code ++ writeTxOut curve coin.out)

/-- `Coin::Unserialize`. -/
def Coin.unserialize : StreamReader Coin := do
  let code ← readVarInt UINT_MAX
  let out ← readTxOut curve
  pure ⟨out, code / 2, code % 2 = 1⟩

/-- `TxInUndoFormatter::Ser`; the zero stands where older versions had the transaction's version. -/
def writeTxInUndo (txout : Coin) : List UInt8 :=
  writeVarInt txout.code ++ ((if txout.nHeight > 0 then [0] else []) ++ writeTxOut curve txout.out)

/-- The number older versions stored. -/
def readVersionDummy (nHeight : ℕ) : StreamReader ℕ :=
  if nHeight > 0 then readVarInt UINT_MAX else pure 0

/-- `TxInUndoFormatter::Unser`. -/
def readTxInUndo : StreamReader Coin := do
  let nCode ← readVarInt UINT_MAX
  let _ ← readVersionDummy (nCode / 2)
  let out ← readTxOut curve
  pure ⟨out, nCode / 2, nCode % 2 = 1⟩

variable {curve}

lemma reads_readTxOut {out : CTxOut} (hvalue : MoneyRange out.nValue)
    (hscript : out.scriptPubKey.length ≤ MAX_SCRIPT_SIZE) :
    Reads (readTxOut curve) (writeTxOut curve out) out := by
  obtain ⟨hnonneg, hmax⟩ := hvalue
  norm_num [MAX_MONEY, COIN] at hmax
  have hamount : ((out.nValue % 2 ^ 64).toNat : ℤ) = out.nValue := by omega
  refine (reads_readVarInt (le_sub_one_of_lt (compressAmount_lt _))).bind ?_
  refine (reads_readScript hscript).bind_nil ?_
  rw [decompressAmount_compressAmount (by omega), hamount,
    wrap_of_inRange_64 (inRange_64.mpr (by omega))]
  exact reads_pure _

lemma Coin.code_eq {coin : Coin} (h : coin.nHeight < 2 ^ 31) :
    coin.code ≤ UINT_MAX ∧ coin.code / 2 = coin.nHeight ∧
      decide (coin.code % 2 = 1) = coin.fCoinBase := by
  have hflag : coin.fCoinBase.toNat ≤ 1 := Bool.toNat_le _
  have hcode : coin.code = coin.nHeight * 2 + coin.fCoinBase.toNat :=
    mod_eq_of_lt (by omega)
  rw [hcode, UINT_MAX]
  refine ⟨by omega, by omega, ?_⟩
  rw [show (coin.nHeight * 2 + coin.fCoinBase.toNat) % 2 = coin.fCoinBase.toNat by omega]
  cases coin.fCoinBase <;> rfl

/-- **Stored coins and undo records come back.**  Whatever follows, reading what was written returns
the same coin and takes off exactly the bytes of its record. -/
theorem coin_records_read_back (curve : PubKeyCurve) (coin : Coin) (hunspent : coin.isSpent = false)
    (hheight : coin.nHeight < 2 ^ 31) (hvalue : MoneyRange coin.out.nValue)
    (hscript : coin.out.scriptPubKey.length ≤ MAX_SCRIPT_SIZE) :
    (∃ bytes, coin.serialize curve = some bytes ∧
      ∀ rest, Coin.unserialize curve (bytes ++ rest) = .ok coin rest) ∧
    ∀ rest, readTxInUndo curve (writeTxInUndo curve coin ++ rest) = .ok coin rest := by
  obtain ⟨hmax, hcode, hflag⟩ := Coin.code_eq hheight
  have hout : Reads (readTxOut curve) (writeTxOut curve coin.out) coin.out :=
    reads_readTxOut hvalue hscript
  have hcoin : Reads (pure ⟨coin.out, coin.code / 2, coin.code % 2 = 1⟩ : StreamReader Coin) []
      coin := by
    rw [hcode, hflag]
    exact reads_pure coin
  refine ⟨⟨_, if_neg (by rw [hunspent]; exact Bool.false_ne_true), ?_⟩, ?_⟩
  · exact (reads_readVarInt hmax).bind (hout.bind_nil hcoin)
  · have hdummy : Reads (readVersionDummy (coin.code / 2))
        (if coin.nHeight > 0 then [0] else []) 0 := by
      rw [hcode, readVersionDummy]
      split
      · have hzero : Reads (readVarInt UINT_MAX) (writeVarInt 0) 0 :=
          reads_readVarInt (zero_le _)
        rwa [writeVarInt_of_lt (by decide)] at hzero
      · exact reads_pure 0
    exact (reads_readVarInt hmax).bind (hdummy.bind (hout.bind_nil hcoin))

/-- The generator of secp256k1. -/
def generatorX : ℕ := 0x79be667ef9dcbbac55a06295ce870b07029bfcdb2dce28d959f2815b16f81798

def generatorY : ℕ := 0x483ada7726a3c4655da4fbfc0e1108a8fd17b448a68554199c47d08ffb10d4b8

example : generatorY ^ 2 % (2 ^ 256 - 2 ^ 32 - 977) =
    (generatorX ^ 3 + 7) % (2 ^ 256 - 2 ^ 32 - 977) := by decide

/-- Its uncompressed key. -/
def generatorKey : List UInt8 :=
  4 :: (List.range 64).map fun i => .ofNat ((generatorX <<< 256 + generatorY) >>> (8 * (63 - i)))

/-- A curve on which only this key is known, for a run. -/
def generatorCurve : PubKeyCurve where
  isFullyValid pubkey := pubkey = generatorKey
  decompress _ := some generatorKey
  decompress_compressedKey pubkey _ _ h := by rw [of_decide_eq_true h]

/-- A coinbase output to the uncompressed key. -/
def generatorCoin : Coin := ⟨⟨10 * COIN, [65] ++ generatorKey ++ [OP_CHECKSIG]⟩, 7, true⟩

theorem coin_records_read_back_pubKey :
    (∃ bytes, Coin.serialize generatorCurve generatorCoin = some bytes ∧
      ∀ rest, Coin.unserialize generatorCurve (bytes ++ rest) = .ok generatorCoin rest) ∧
    ∀ rest, readTxInUndo generatorCurve (writeTxInUndo generatorCurve generatorCoin ++ rest) =
      .ok generatorCoin rest :=
  coin_records_read_back generatorCurve _ (by decide) (by decide) (by decide) (by decide)

end Curve

end SlithyTove
