import SlithyTove.Arith.BaseUint

/-!
# Consensus parameters

`Consensus::Params`, restricted to the fields the modelled code reads.  The parameters are
data: nothing here fixes a network, and what a result needs of them is among its hypotheses.
-/

namespace SlithyTove

/-- `CScript`: the bytes of a script. -/
abbrev CScript := List UInt8

/-- `Consensus::Params`.  `powLimit` is kept in the form every reader converts it to. -/
structure Params where
  nSubsidyHalvingInterval : ℕ
  /-- The script every coinbase has to pay; an empty one switches the rule off. -/
  treasury_script_pub_key : CScript
  treasury_percent : ℤ := 10
  powLimit : ArithUint256
  fPowAllowMinDifficultyBlocks : Bool
  enforce_BIP94 : Bool
  fPowNoRetargeting : Bool
  nPowTargetSpacing : Int64
  nPowTargetTimespan : Int64

/-- The parameters of the main network (`CMainParams`). -/
def mainParams : Params where
  nSubsidyHalvingInterval := 1051200
  treasury_script_pub_key := [0x00, 0x14, 0x09, 0x32, 0xfb, 0xc8, 0xb9, 0x04, 0x21, 0x09, 0x06,
    0x4f, 0x3c, 0x94, 0x4d, 0x75, 0xb9, 0x05, 0x3c, 0xe4, 0x93, 0x9e]
  treasury_percent := 10
  powLimit := ⟨#v[0xffffffff, 0xffffffff, 0xffffffff, 0xffffffff, 0xffffffff, 0xffffffff,
    0xffffffff, 0x00003fff]⟩
  fPowAllowMinDifficultyBlocks := false
  enforce_BIP94 := false
  fPowNoRetargeting := false
  nPowTargetSpacing := 2 * 60
  nPowTargetTimespan := 60 * 60

/-- `a % b` on `int64_t`; the remainder by zero is an error. -/
def remInt64 (a : ℤ) (b : Int64) : Except String ℤ :=
  if b = 0 then .error "division by zero" else .ok (a.tmod b.toInt)

/-- `DifficultyAdjustmentInterval()`. -/
def Params.difficultyAdjustmentInterval (params : Params) : Except String Int64 :=
  if params.nPowTargetSpacing = 0 then .error "division by zero"
  else .ok (params.nPowTargetTimespan / params.nPowTargetSpacing)

end SlithyTove
