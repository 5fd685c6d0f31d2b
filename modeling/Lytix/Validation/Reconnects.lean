import Lytix.Validation.Conservation
import Lytix.Validation.Recalculate

/-! The zerocoin supply of a block that is connected again after it was disconnected.
`DisconnectBlock` leaves the supply in the entry as it is. -/
namespace Lytix

open Checks

section
variable (env : ConsensusEnv) (node : ConsensusNode) (block : CBlock)

/-- `UpdateZPIVSupply`, over and over for one entry. -/
def updateZPIVSupplyAgain : ℕ → CBlockIndex → Validation CBlockIndex
  | 0, pindex => .ok pindex
  | n + 1, pindex => updateZPIVSupply env node block pindex >>= updateZPIVSupplyAgain n

/-- The denominations that `UpdateZPIVSupply` takes off the supply of an entry. -/
def spentAt (pindex : CBlockIndex) : List CoinDenomination :=
  zerocoinSpendListFromBlock env block
    (decide (node.params.nBlockRecalculateAccumulators ≤ pindex.nHeight))

/-- The supply starts from the predecessor's, whose header has a zerocoin version, or the block
spends of every denomination as much as it mints. -/
def SupplyRestarts (pindex : CBlockIndex) : Prop :=
  ∀ pprev, pindex.pprev.map node.view.index = some pprev → 3 < pprev.nVersion ∨
    ∀ denom, (blockToZerocoinMintList block).count denom = (spentAt env node block pindex).count denom

end

section
variable {env : ConsensusEnv} {node : ConsensusNode} {block : CBlock} {pindex connected : CBlockIndex}
  {supply supply' : CoinDenomination → Int}

theorem foldl_addToSupply (mints : List CoinDenomination) (supply : CoinDenomination → Int)
    (denom : CoinDenomination) :
    mints.foldl addToSupply supply denom = supply denom + mints.count denom := by
  induction mints generalizing supply with
  | nil => simp
  | cons first mints ih =>
    rw [List.foldl_cons, ih, addToSupply, Function.update_apply, List.count_cons]
    by_cases hfirst : denom = first
    · simp [hfirst]
      ring
    · simp [hfirst, Ne.symm hfirst]

theorem foldlM_takeFromSupply {spends : List CoinDenomination}
    (h : spends.foldlM takeFromSupply supply = .ok supply') (denom : CoinDenomination) :
    supply' denom = supply denom - spends.count denom := by
  induction spends generalizing supply with
  | nil =>
    rw [List.foldlM_nil, pure_eq_ok] at h
    rw [h]
    simp
  | cons first spends ih =>
    simp only [List.foldlM_cons, bind_eq_ok, takeFromSupply, stopIf_eq_ok, pure_eq_ok] at h
    obtain ⟨_, ⟨_, -, _, -, rfl⟩, hrest⟩ := h
    rw [ih hrest, Function.update_apply, List.count_cons]
    by_cases hfirst : denom = first
    · simp [hfirst]
      ring
    · simp [hfirst, Ne.symm hfirst]

/-- What a run of `UpdateZPIVSupply` leaves, if it has a predecessor. -/
theorem updateZPIVSupply_eq_ok {pprev : CBlockIndex}
    (hprev : pindex.pprev.map node.view.index = some pprev) :
    updateZPIVSupply env node block pindex = .ok connected ↔
      ∃ supply, (spentAt env node block pindex).foldlM takeFromSupply
          ((blockToZerocoinMintList block).foldl addToSupply
            (if 3 < pprev.nVersion then pprev.mapZerocoinSupply else pindex.mapZerocoinSupply)) =
          .ok supply ∧
        { pindex with
          mapZerocoinSupply := supply
          vMintDenominationsInBlock := blockToZerocoinMintList block } = connected := by
  unfold updateZPIVSupply
  rw [hprev]
  simp only [bind_eq_ok, pure_eq_ok]
  rfl

/-- Another run finds the supply that the first one left. -/
theorem updateZPIVSupply_connected (h : updateZPIVSupply env node block pindex = .ok connected)
    (hrestarts : SupplyRestarts env node block pindex) :
    updateZPIVSupply env node block connected = .ok connected := by
  cases hprev : pindex.pprev.map node.view.index with
  | none =>
    unfold updateZPIVSupply at h
    rw [hprev] at h
    obtain rfl := Except.ok.inj h
    unfold updateZPIVSupply
    simp only [hprev]
  | some pprev =>
    obtain ⟨supply, hrun, rfl⟩ := (updateZPIVSupply_eq_ok hprev).mp h
    have hkept : (if 3 < pprev.nVersion then pprev.mapZerocoinSupply else supply) =
        if 3 < pprev.nVersion then pprev.mapZerocoinSupply else pindex.mapZerocoinSupply := by
      split_ifs with hversion
      · rfl
      · funext denom
        have hbalanced := ((hrestarts pprev hprev).resolve_left hversion) denom
        rw [foldlM_takeFromSupply hrun denom, foldl_addToSupply, if_neg hversion, hbalanced]
        exact add_sub_cancel_right _ _
    have hagain : (spentAt env node block pindex).foldlM takeFromSupply
        ((blockToZerocoinMintList block).foldl addToSupply
          (if 3 < pprev.nVersion then pprev.mapZerocoinSupply else supply)) = .ok supply := by
      rw [hkept]
      exact hrun
    exact (@updateZPIVSupply_eq_ok env node block { pindex with
      mapZerocoinSupply := supply
      vMintDenominationsInBlock := blockToZerocoinMintList block } _ pprev hprev).mpr
        ⟨supply, hagain, rfl⟩

/-- A second run with the same result takes back what it adds. -/
theorem supplyRestarts_of_connected (h : updateZPIVSupply env node block pindex = .ok connected)
    (hagain : updateZPIVSupply env node block connected = .ok connected) :
    SupplyRestarts env node block pindex := by
  intro pprev hprev
  by_cases hversion : 3 < pprev.nVersion
  · exact Or.inl hversion
  · right
    obtain ⟨supply, -, rfl⟩ := (updateZPIVSupply_eq_ok hprev).mp h
    obtain ⟨supply', hrun, heq⟩ := (@updateZPIVSupply_eq_ok env node block { pindex with
      mapZerocoinSupply := supply
      vMintDenominationsInBlock := blockToZerocoinMintList block } _ pprev hprev).mp hagain
    have hsame : supply' = supply := congrArg CBlockIndex.mapZerocoinSupply heq
    intro denom
    have hcount := foldlM_takeFromSupply hrun denom
    rw [hsame, foldl_addToSupply, if_neg hversion] at hcount
    have hspent : spentAt env node block { pindex with
        mapZerocoinSupply := supply
        vMintDenominationsInBlock := blockToZerocoinMintList block } =
          spentAt env node block pindex := rfl
    rw [hspent] at hcount
    dsimp only at hcount
    omega

end

end Lytix
