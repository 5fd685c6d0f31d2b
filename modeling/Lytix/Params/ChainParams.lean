import Lytix.Primitives.Transaction

/-! The four networks with the parameters the modelled checks read, and sporks. -/
namespace Lytix

/-- `CBaseChainParams::Network`. -/
inductive Network where
  | main
  | testnet
  | regtest
  | unittest
deriving DecidableEq, Repr

structure CChainParams where
  networkID : Network
  hashGenesisBlock : Uint256
  nLastPOWBlock : Int
  nMaturity : Int
  nMaxMoneyOut : Int
  nZerocoinStartHeight : Int
  nZerocoinStartTime : Int
  nBlockRecalculateAccumulators : Int
  nBlockLastGoodCheckpoint : Int
  nBlockZerocoinV2 : Int
  nMaxZerocoinSpendsPerTransaction : Nat
  nZerocoinHeaderVersion : Int
  nZerocoinRequiredStakeDepth : Int
deriving DecidableEq, Repr

/-- A value assigned to an `int`. -/
def toInt32 (n : Int) : Int := n.bmod (2 ^ 32)

theorem exists_toInt32_eq (n : Int) :
    ∃ wraps, toInt32 n = n - 2 ^ 32 * wraps ∧ -2 ^ 31 ≤ toInt32 n ∧ toInt32 n < 2 ^ 31 := by
  have hlower : -((2 ^ 32 : ℕ) / 2 : Int) ≤ toInt32 n := Int.le_bmod (by norm_num)
  have hupper : toInt32 n < (((2 ^ 32 : ℕ) : Int) + 1) / 2 := Int.bmod_lt (by norm_num)
  have hwraps : ((2 ^ 32 : ℕ) : Int) ∣ n - toInt32 n := Int.dvd_self_sub_bmod
  obtain ⟨wraps, hwraps⟩ := hwraps
  push_cast at hlower hupper hwraps
  exact ⟨wraps, by linarith, by linarith, by omega⟩

theorem toInt32_of_lt {n : Int} (hlower : -2 ^ 31 ≤ n) (hupper : n < 2 ^ 31) : toInt32 n = n := by
  rw [toInt32, Int.bmod_eq_of_le] <;> omega

def mainParams : CChainParams where
  networkID := .main
  hashGenesisBlock := 0x0000028b94db22c97211ba15866bc2c9bc0daa7e9ac410a6c9660d8be19915c7
  nLastPOWBlock := 100000
  nMaturity := 15
  nMaxMoneyOut := 100000000 * COIN
  nZerocoinStartHeight := 99999999
  -- the literal does not fit an int: the start time is negative on this network
  nZerocoinStartTime := toInt32 3999999990
  nBlockRecalculateAccumulators := 999999999
  nBlockLastGoodCheckpoint := 700000
  nBlockZerocoinV2 := 999999999
  nMaxZerocoinSpendsPerTransaction := 7
  nZerocoinHeaderVersion := 4
  nZerocoinRequiredStakeDepth := 50

def testNetParams : CChainParams :=
  { mainParams with
    networkID := .testnet
    hashGenesisBlock := 0x000007069b3a40677ea1f2359f9edd27f952a13549e78f29cc17a758c338a4a7
    nLastPOWBlock := 250
    nZerocoinStartHeight := 100000
    nZerocoinStartTime := 1630801782
    nBlockLastGoodCheckpoint := 999999999
    nBlockZerocoinV2 := 99999999 }

def regTestParams : CChainParams :=
  { testNetParams with
    networkID := .regtest
    hashGenesisBlock := 0x257231f8c651f8b8238253358ef7b7debbfeddf7583a578950a58cadb1bb272e }

def unitTestParams : CChainParams := { mainParams with networkID := .unittest }

/-- `Params()` once a network is selected. -/
def Params : Network → CChainParams
  | .main => mainParams
  | .testnet => testNetParams
  | .regtest => regTestParams
  | .unittest => unitTestParams

/-- The amount of blocks in a month (`GetBudgetPaymentCycleBlocks`). -/
def getBudgetPaymentCycleBlocks (network : Network) : Int :=
  if network = .main then 43200 else 144

inductive Spork where
  | SPORK_2_SWIFTTX
  | SPORK_3_SWIFTTX_BLOCK_FILTERING
  | SPORK_5_MAX_VALUE
  | SPORK_7_MASTERNODE_SCANNING
  | SPORK_8_MASTERNODE_PAYMENT_ENFORCEMENT
  | SPORK_9_MASTERNODE_BUDGET_ENFORCEMENT
  | SPORK_10_MASTERNODE_PAY_UPDATED_NODES
  | SPORK_13_ENABLE_SUPERBLOCKS
  | SPORK_14_NEW_PROTOCOL_ENFORCEMENT
  | SPORK_15_NEW_PROTOCOL_ENFORCEMENT_2
  | SPORK_16_ZEROCOIN_MAINTENANCE_MODE
  | SPORK_17_NEW_PROTOCOL_ENFORCEMENT_3
  | SPORK_18_MASTERNODE_REWARDS_CHANGE
  | SPORK_19_MAXNODE_ACTIVATION
  | SPORK_20_DEVFEE
deriving DecidableEq, Repr

def Spork.defaultValue : Spork → Int
  | .SPORK_2_SWIFTTX => 978307200
  | .SPORK_3_SWIFTTX_BLOCK_FILTERING => 1424217600
  | .SPORK_5_MAX_VALUE => 1000
  | .SPORK_7_MASTERNODE_SCANNING => 978307200
  | _ => 4070908800

/-- The active spork messages and the adjusted clock (`GetTime`). -/
structure Sporks where
  mapSporksActive : Spork → Option Int
  now : Int

def getSporkValue (sporks : Sporks) (nSporkID : Spork) : Int :=
  (sporks.mapSporksActive nSporkID).getD nSporkID.defaultValue

def isSporkActive (sporks : Sporks) (nSporkID : Spork) : Bool :=
  let r := getSporkValue sporks nSporkID
  if r = -1 then false else decide (r < sporks.now)

end Lytix
