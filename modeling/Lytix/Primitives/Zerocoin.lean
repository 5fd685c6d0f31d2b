import Lytix.Primitives.Transaction

/-! Zerocoin denominations and the fields of a coin spend that the consensus code reads. -/
namespace Lytix

inductive CoinDenomination where
  | ZQ_ERROR
  | ZQ_ONE
  | ZQ_FIVE
  | ZQ_TEN
  | ZQ_FIFTY
  | ZQ_ONE_HUNDRED
  | ZQ_FIVE_HUNDRED
  | ZQ_ONE_THOUSAND
  | ZQ_FIVE_THOUSAND
deriving DecidableEq, Repr

namespace CoinDenomination

def toInt : CoinDenomination → Int
  | .ZQ_ERROR => 0
  | .ZQ_ONE => 1
  | .ZQ_FIVE => 5
  | .ZQ_TEN => 10
  | .ZQ_FIFTY => 50
  | .ZQ_ONE_HUNDRED => 100
  | .ZQ_FIVE_HUNDRED => 500
  | .ZQ_ONE_THOUSAND => 1000
  | .ZQ_FIVE_THOUSAND => 5000

def toAmount (denomination : CoinDenomination) : Int := denomination.toInt * COIN

/-- `IntToZerocoinDenomination`. -/
def ofInt (amount : Int) : CoinDenomination :=
  if amount = 1 then .ZQ_ONE
  else if amount = 5 then .ZQ_FIVE
  else if amount = 10 then .ZQ_TEN
  else if amount = 50 then .ZQ_FIFTY
  else if amount = 100 then .ZQ_ONE_HUNDRED
  else if amount = 500 then .ZQ_FIVE_HUNDRED
  else if amount = 1000 then .ZQ_ONE_THOUSAND
  else if amount = 5000 then .ZQ_FIVE_THOUSAND
  else .ZQ_ERROR

/-- `AmountToZerocoinDenomination`: the amount must be a whole number of coins. -/
def ofAmount (amount : Int) : CoinDenomination :=
  if amount - COIN * (amount.tdiv COIN) = 0 then ofInt (amount.tdiv COIN) else .ZQ_ERROR

end CoinDenomination

/-- Smallest denomination first. -/
def zerocoinDenomList : List CoinDenomination :=
  [.ZQ_ONE, .ZQ_FIVE, .ZQ_TEN, .ZQ_FIFTY, .ZQ_ONE_HUNDRED, .ZQ_FIVE_HUNDRED, .ZQ_ONE_THOUSAND,
    .ZQ_FIVE_THOUSAND]

inductive SpendType where
  | SPEND
  | STAKE
  | MN_COLLATERAL
  | SIGN_MESSAGE
deriving DecidableEq, Repr

structure CoinSpend where
  denomination : CoinDenomination
  coinSerialNumber : Int
  accChecksum : UInt32
  ptxHash : Uint256
  version : UInt8
  spendType : SpendType
deriving DecidableEq, Repr

/-- `CBigNum::getuint256`: the low 256 bits of the magnitude. -/
def getuint256 (bn : Int) : Uint256 := BitVec.ofNat 256 bn.natAbs

/-- The 32 bits of an accumulator checkpoint that belong to one denomination. -/
def parseChecksum (nChecksum : Uint256) (denomination : CoinDenomination) : UInt32 :=
  let pos := zerocoinDenomList.findIdx (· == denomination)
  if pos = zerocoinDenomList.length then 0
  else UInt32.ofNat (nChecksum >>> (32 * (zerocoinDenomList.length - 1 - pos))).toNat

theorem CoinDenomination.ofInt_toInt (denomination : CoinDenomination) :
    ofInt denomination.toInt = denomination := by
  cases denomination <;> decide

theorem CoinDenomination.ofAmount_toAmount (denomination : CoinDenomination) :
    ofAmount denomination.toAmount = denomination := by
  cases denomination <;> decide

end Lytix
