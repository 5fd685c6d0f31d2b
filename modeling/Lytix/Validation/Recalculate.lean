import Lytix.Lib.CountEntries
import Lytix.Validation.ConnectBlock

/-! The one-time recalculation of the supplies from the blocks on disk (`RecalculateZPIVMinted`,
`RecalculateZPIVSpent`, `RecalculatePIVSupply`). `none` is a failed assertion, a pointer to no entry
or an exception. -/
namespace Lytix
open CountEntries

/-- `ReadBlockFromDisk` for an index entry, which compares the hash. -/
def Node.readBlock (node : Node) (pindex : Uint256) : Option CBlock :=
  (node.readBlockFromDisk pindex).filter fun block => block.hash == pindex

/-- The fields of an entry that are recalculated. -/
structure Supplies where
  nMoneySupply : Int
  mapZerocoinSupply : CoinDenomination → Int
  vMintDenominationsInBlock : List CoinDenomination

def CBlockIndex.supplies (pindex : CBlockIndex) : Supplies :=
  ⟨pindex.nMoneySupply, pindex.mapZerocoinSupply, pindex.vMintDenominationsInBlock⟩

def CBlockIndex.withSupplies (pindex : CBlockIndex) (supplies : Supplies) : CBlockIndex :=
  { pindex with
    nMoneySupply := supplies.nMoneySupply
    mapZerocoinSupply := supplies.mapZerocoinSupply
    vMintDenominationsInBlock := supplies.vMintDenominationsInBlock }

/-- The view in which one entry has other supplies. -/
def ChainView.setSupplies (view : ChainView) (pindex : Uint256) (supplies : Supplies) :
    ChainView where
  mapBlockIndex := view.mapBlockIndex
  index := Function.update view.index pindex ((view.index pindex).withSupplies supplies)
  chainActive := view.chainActive
  heights := by
    intro i hash h
    rw [← view.heights i hash h, Function.update_apply]
    split_ifs with hsame
    · rw [hsame]
      rfl
    · rfl
  linked := by
    have hpprev : (fun hash => (Function.update view.index pindex
        ((view.index pindex).withSupplies supplies) hash).pprev) = view.pprev := by
      funext hash
      rw [Function.update_apply]
      split_ifs with hsame
      · rw [hsame]
        rfl
      · rfl
    rw [hpprev]
    exact view.linked
  above := by
    have hentry : ∀ hash, (Function.update view.index pindex
          ((view.index pindex).withSupplies supplies) hash).pprev = (view.index hash).pprev ∧
        (Function.update view.index pindex
          ((view.index pindex).withSupplies supplies) hash).nHeight = (view.index hash).nHeight := by
      intro hash
      rw [Function.update_apply]
      split_ifs with hsame
      · rw [hsame]
        exact ⟨rfl, rfl⟩
      · exact ⟨rfl, rfl⟩
    intro hash p hknown hp
    rw [(hentry hash).1] at hp
    rw [(hentry hash).2, (hentry p).2]
    exact view.above hash p hknown hp

/-- The entries, and their records in the block tree on disk. -/
structure IndexStore where
  view : ChainView
  blockTree : Table Uint256 CBlockIndex

def IndexStore.setSupplies (store : IndexStore) (pindex : Uint256) (supplies : Supplies) :
    IndexStore :=
  { store with view := store.view.setSupplies pindex supplies }

/-- `WriteBlockIndex`. -/
def IndexStore.writeBlockIndex (store : IndexStore) (pindex : Uint256) : IndexStore :=
  { store with blockTree := store.blockTree.insert pindex (store.view.index pindex) }

/-- The active chain from a height on, where there is an entry at it. -/
def ChainView.chainFrom (view : ChainView) (nHeight : Int) : Option (List Uint256) :=
  if (view.chainAt nHeight).isSome then some (view.chainActive.drop nHeight.toNat) else none

section
variable (env : ConsensusEnv) (node : Node)

def recalculateMinted (store : IndexStore) (pindex : Uint256) : Option IndexStore := do
  let block ← node.readBlock pindex
  let supplies := (store.view.index pindex).supplies
  pure (store.setSupplies pindex
    { supplies with vMintDenominationsInBlock := blockToZerocoinMintList block })

def recalculateZPIVMinted (store : IndexStore) : Option IndexStore := do
  let chain ← store.view.chainFrom (Params node.network).nZerocoinStartHeight
  chain.foldlM (recalculateMinted node) store

/-- `at` throws where the map has no entry. -/
def removeFromSupply (supply : CoinDenomination → Int) (denom : CoinDenomination) :
    Option (CoinDenomination → Int) :=
  if denom = .ZQ_ERROR then none else some (Function.update supply denom (supply denom - 1))

/-- The mints of the entry on top of a supply. -/
def addMinted (vMintDenominationsInBlock : List CoinDenomination)
    (supply : CoinDenomination → Int) : CoinDenomination → Int :=
  zerocoinDenomList.foldl (fun supply denom =>
    Function.update supply denom (supply denom + vMintDenominationsInBlock.count denom)) supply

def recalculateSpent (store : IndexStore) (pindex : Uint256) : Option IndexStore := do
  let block ← node.readBlock pindex
  let listDenomsSpent := zerocoinSpendListFromBlock env block true
  let pprev ← store.view.pprev pindex
  let supplies := (store.view.index pindex).supplies
  let supply := addMinted supplies.vMintDenominationsInBlock
    (store.view.index pprev).mapZerocoinSupply
  let supply ← listDenomsSpent.foldlM removeFromSupply supply
  pure ((store.setSupplies pindex { supplies with mapZerocoinSupply := supply }).writeBlockIndex
    pindex)

def recalculateZPIVSpent (store : IndexStore) : Option IndexStore := do
  let chain ← store.view.chainFrom (Params node.network).nZerocoinStartHeight
  chain.foldlM (recalculateSpent env node) store

/-- What an input brings in: the number in `nSequence` for every script of a zerocoin spend. -/
def recalculatedInput (txin : CTxIn) : Option Int :=
  if txin.scriptSig.isZerocoinSpend then some (txin.nSequence * COIN)
  else do
    let (txPrev, _) ← node.getTransaction txin.prevout.hash
    let out ← txPrev.vout[txin.prevout.n]?
    pure out.nValue

def recalculatedValueIn (tx : CTransaction) : Option Int :=
  if tx.isCoinBase then some 0
  else tx.vin.foldlM (fun nValueIn txin => (recalculatedInput node txin).map (nValueIn + ·)) 0

/-- The outputs, without the first of a coinstake. -/
def recalculatedValueOut (tx : CTransaction) : Int :=
  ((if tx.isCoinStake then tx.vout.drop 1 else tx.vout).map CTxOut.nValue).sum

/-- The values in and out of a block. -/
def recalculatedValues (block : CBlock) : Option (Int × Int) :=
  block.vtx.foldlM (fun values tx => do
    let nValueIn ← recalculatedValueIn node tx
    pure (values.1 + nValueIn, values.2 + recalculatedValueOut tx)) (0, 0)

/-- One round, with the supply before it. The locked coins go at one height only, and the next
round does not see that. -/
def recalculateMoneySupply (nLocked : Int) (state : IndexStore × Int) (pindex : Uint256) :
    Option (IndexStore × Int) := do
  let block ← node.readBlock pindex
  let (nValueIn, nValueOut) ← recalculatedValues node block
  let nMoneySupply := state.2 + nValueOut - nValueIn
  let entry := state.1.view.index pindex
  let locked :=
    if (entry.nHeight : Int) = (Params node.network).nBlockRecalculateAccumulators then nLocked
    else 0
  pure ((state.1.setSupplies pindex
      { entry.supplies with nMoneySupply := nMoneySupply - locked }).writeBlockIndex pindex,
    nMoneySupply)

/-- The supply that the recalculation from the first zerocoin block starts with. -/
def ZEROCOIN_START_SUPPLY : Int := 5449796547496199

def recalculatePIVSupply (nLocked : Int) (nHeightStart : Int) (store : IndexStore) :
    Option (IndexStore × Bool) :=
  if store.view.height < nHeightStart then some (store, false)
  else do
    let chain ← store.view.chainFrom nHeightStart
    let first ← chain.head?
    let pprev ← store.view.pprev first
    let nSupplyPrev :=
      if nHeightStart = (Params node.network).nZerocoinStartHeight then ZEROCOIN_START_SUPPLY
      else (store.view.index pprev).nMoneySupply
    let (store, _) ← chain.foldlM (recalculateMoneySupply node nLocked) (store, nSupplyPrev)
    pure (store, true)

/-- What `ConnectBlock` does on the block after `Zerocoin_Block_RecalculateAccumulators`. -/
def recalculateOnce (nLocked : Int) (nHeight : Nat) (store : IndexStore) : Option IndexStore :=
  if (nHeight : Int) = (Params node.network).nBlockRecalculateAccumulators + 1 then do
    let store ← recalculateZPIVMinted node store
    let store ← recalculateZPIVSpent env node store
    let (store, _) ←
      recalculatePIVSupply node nLocked (Params node.network).nZerocoinStartHeight store
    pure store
  else some store

end
end Lytix
