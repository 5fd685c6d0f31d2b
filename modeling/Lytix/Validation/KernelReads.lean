import Lytix.Validation.ForkStake
import Lytix.Validation.VtxAccess

/-! What the kernel checks of a received block read by index or through a pointer: the outputs of
the transaction staked, and entries of the active chain. -/
namespace Lytix
open Checks Ancestry Accesses

/-! The checks as they read: each is the check of the same name, with its reads. -/
namespace Indexed

section
variable (view : ChainView)

/-- The loop of `GetChecksumHeight`, which ends at the null pointer. The chain bounds its rounds. -/
def checksumHeightLoop (nChecksum : UInt32) (denomination : CoinDenomination) :
    Nat → Option Uint256 → Access Reject Nat
  | _, none => pure 0
  | 0, some _ => .error none
  | rounds + 1, some pindex =>
    let entry := view.index pindex
    if parseChecksum entry.nAccumulatorCheckpoint denomination = nChecksum then pure entry.nHeight
    else if entry.nHeight % 10 = 0 then
      if view.height < entry.nHeight + 10 then pure 0
      else checksumHeightLoop nChecksum denomination rounds (view.chainAt (entry.nHeight + 10))
    else checksumHeightLoop nChecksum denomination rounds (view.next pindex)

def getChecksumHeight (network : Network) (nChecksum : UInt32) (denomination : CoinDenomination) :
    Access Reject Nat :=
  checksumHeightLoop view nChecksum denomination view.chainActive.length
    (view.chainAt (Params network).nZerocoinStartHeight)

/-- The loop of `GetKernelStakeModifier`. The chain bounds its rounds. -/
def kernelModifierLoop (nTimeStop : Int) :
    Nat → Uint256 → Option Uint256 → Int → Access Reject Uint256
  | 0, _, _, _ => .error none
  | rounds + 1, pindex, pointer, nStakeModifierTime =>
    if nStakeModifierTime < nTimeStop then
      match pointer with
      | none => .error (some ⟨0, "Null pindexNext"⟩)
      | some pindexNext =>
        let entry := view.index pindexNext
        kernelModifierLoop nTimeStop rounds pindexNext (view.chainAt (entry.nHeight + 1))
          (if entry.generatedStakeModifier then entry.getBlockTime else nStakeModifierTime)
    else pure pindex

def getKernelStakeModifier (hashBlockFrom : Uint256) : Access Reject UInt64 :=
  if !view.mapBlockIndex hashBlockFrom then
    .error (some ⟨0, "GetKernelStakeModifier() : block not indexed"⟩)
  else do
    let pindexFrom := view.index hashBlockFrom
    let pindex ← kernelModifierLoop view
      (pindexFrom.getBlockTime + getStakeModifierSelectionInterval) (view.chainActive.length + 1)
      hashBlockFrom (view.chainAt (pindexFrom.nHeight + 1)) pindexFrom.getBlockTime
    pure (view.index pindex).nStakeModifier

/-- The loop of `CZPivStake::GetModifier`, which follows its pointer. The chain bounds the rounds. -/
def accumulatorModifierLoop (nTimeBlockFrom : Int) : Nat → Option Uint256 → Access Reject UInt64
  | 0, _ => .error none
  | rounds + 1, pointer => do
    let pindex ← deref pointer
    let entry := view.index pindex
    if 60 * 60 < entry.getBlockTime - nTimeBlockFrom then
      pure (UInt64.ofNat entry.nAccumulatorCheckpoint.toNat)
    else if (entry.nHeight : Int) + 1 ≤ view.height then
      accumulatorModifierLoop nTimeBlockFrom rounds (view.next pindex)
    else .error (some ⟨0, "CheckProofOfStake failed to get modifier for stake input"⟩)

end

section
variable (env : KernelEnv) (node : Node)

def getChecksumHeightFromMint (denom : CoinDenomination) : Access Reject Nat := do
  let pindex ← deref
    (node.view.chainAt (node.view.height - (Params node.network).nZerocoinRequiredStakeDepth))
  getChecksumHeight node.view node.network
    (parseChecksum (node.view.index pindex).nAccumulatorCheckpoint denom) denom

/-- A null pointer is what is returned when there is no such block. -/
def getIndexFrom : CStakeInput → Access Reject (Option Uint256)
  | .piv txFrom _ =>
    match node.getTransaction txFrom.hash with
    | none => pure none
    | some (_, hashBlock) =>
      if node.view.mapBlockIndex hashBlock then
        if node.view.contains hashBlock then pure (some hashBlock) else pure none
      else pure none
  | .zpiv nChecksum fMint denom _ => do
    let nHeightChecksum ←
      if fMint then getChecksumHeightFromMint node denom
      else getChecksumHeight node.view node.network nChecksum denom
    if (nHeightChecksum : Int) < (Params node.network).nZerocoinStartHeight ∨
        node.view.height < nHeightChecksum then pure none
    else pure (node.view.chainAt nHeightChecksum)

def getModifier (stake : CStakeInput) : Access Reject UInt64 := do
  let pointer ← getIndexFrom node stake
  match stake with
  | .piv _ _ => do
    let pindexFrom ← orStop (some ⟨0, "failed to get index from"⟩) pointer
    onFailure ⟨0, "CheckStakeKernelHash(): failed to get kernel stake modifier"⟩
      (getKernelStakeModifier node.view pindexFrom)
  | .zpiv _ _ _ _ => do
    let pindex ← orStop (some ⟨0, "CheckProofOfStake failed to get modifier for stake input"⟩)
      pointer
    accumulatorModifierLoop node.view (node.view.index pindex).getBlockTime
      (node.view.chainActive.length + 1) (some pindex)

def getValue : CStakeInput → Access Reject Int
  | .piv txFrom nPosition => do
    let out ← readAt txFrom.vout nPosition
    pure out.nValue
  | .zpiv _ _ denom _ => pure denom.toAmount

/-- Construct the stakeinput object. -/
def kernelStakeInput (tx : CTransaction) (txin : CTxIn) : Access Reject CStakeInput := do
  let fSpend ← isZerocoinSpend tx
  if fSpend then do
    -- the parser throws
    let spend ← orStop (some ⟨0, "CoinSpend"⟩) (env.txInToZerocoinSpend txin)
    if spend.spendType ≠ .STAKE then
      .error (some ⟨0, "CheckProofOfStake: spend is using the wrong SpendType"⟩)
    else pure (.zpiv spend.accChecksum false spend.denomination
      (env.hash (leBytes 32 (getuint256 spend.coinSerialNumber).toNat)))
  else do
    let (txPrev, _) ← orStop (some ⟨0, "CheckProofOfStake() : INFO: read txPrev failed"⟩)
      (node.getTransaction txin.prevout.hash)
    let out ← readAt txPrev.vout txin.prevout.n
    if !env.verifyScript txin.scriptSig out.scriptPubKey tx then
      .error (some ⟨0, "CheckProofOfStake() : VerifySignature failed on coinstake"⟩)
    else pure (.piv txPrev txin.prevout.n)

def checkProofOfStake (block : CBlock) : Access Reject (Uint256 × CStakeInput) := do
  let tx ← readAt block.vtx 1
  let fCoinStake ← isCoinStake tx
  if !fCoinStake then .error (some ⟨0, "CheckProofOfStake() : called on non-coinstake"⟩)
  else do
    let txin ← readAt tx.vin 0
    let stakeInput ← kernelStakeInput env node tx txin
    let pointer ← getIndexFrom node stakeInput
    let pindex ← orStop (some ⟨0, "CheckProofOfStake: Failed to find the block index"⟩) pointer
    let blockprev ← orStop (some ⟨0, "CheckProofOfStake(): INFO: failed to find block"⟩)
      (node.readBlockFromDisk pindex)
    let nStakeModifier ← onFailure
      ⟨0, "CheckProofOfStake failed to get modifier for stake input"⟩ (getModifier node stakeInput)
    let nValueIn ← getValue stakeInput
    let (hit, hashProofOfStake) := checkStake env stakeInput.getUniqueness nValueIn nStakeModifier
      (setCompact block.nBits) blockprev.nTime block.nTime
    if hit then pure (hashProofOfStake, stakeInput)
    else .error (some ⟨0, "CheckProofOfStake() : INFO: check kernel failed on coinstake"⟩)

end

section
variable (env : ConsensusEnv) (node : AcceptNode) (block : CBlock)

def contextualCheckZerocoinStake (nHeight : Nat) (stake : CStakeInput) : Access Reject Unit := do
  checks (stopIf ((nHeight : Int) < node.params.nBlockZerocoinV2)
    ⟨0, "zLYTX stake block is less than allowed start height"⟩)
  match stake with
  | .piv _ _ => .error (some ⟨0, "dynamic_cast of stake ptr failed"⟩)
  | .zpiv nChecksum _ _ _ => do
    let pointer ← getIndexFrom node.toNode stake
    let pindexFrom ← orStop
      (some ⟨0, "failed to get index associated with zLYTX stake checksum"⟩) pointer
    checks (stopIf (node.view.height - (node.view.index pindexFrom).nHeight <
        node.params.nZerocoinRequiredStakeDepth)
      ⟨0, "zLYTX stake does not have required confirmation depth"⟩)
    let pindex200 ← deref
      (node.view.chainAt (nHeight - node.params.nZerocoinRequiredStakeDepth))
    let nValue ← getValue stake
    checks (stopIf (parseChecksum (node.view.index pindex200).nAccumulatorCheckpoint
        (CoinDenomination.ofAmount nValue) ≠ nChecksum)
      ⟨0, "accumulator checksum is different than the block 200 blocks previous"⟩)

/-- The proof-of-stake checks of `AcceptBlock`. Only the genesis block has no predecessor. -/
def acceptProofOfStake (pindexPrev : Option Uint256) : Access Reject Unit := do
  let (_, stake) ← onFailure ⟨100, "proof of stake check failed"⟩
    (checkProofOfStake env.toKernelEnv node.toNode block)
  if stake.isZPIV then do
    let prev ← deref pindexPrev
    onFailure ⟨100, "staked zLYTX fails context checks"⟩
      (contextualCheckZerocoinStake node (node.view.index prev).nHeight stake)
  else pure ()

end
end Indexed

/-! The loops over the chain follow no null pointer, and come to an end. -/

section
variable {view : ChainView}

theorem ChainView.chainAt_natCast (k : ℕ) : view.chainAt k = view.chainActive[k]? := by
  unfold ChainView.chainAt
  rw [if_neg (by omega), Int.toNat_natCast]

theorem ChainView.next_of_getElem? {k : ℕ} {pindex : Uint256}
    (h : view.chainActive[k]? = some pindex) : view.next pindex = view.chainActive[k + 1]? := by
  unfold ChainView.next
  rw [if_pos (ChainView.contains_of_getElem? h), view.heights k pindex h]

theorem Indexed.checksumHeightLoop_eq {nChecksum : UInt32} {denomination : CoinDenomination}
    {rounds rounds' k : ℕ} (hrounds : view.chainActive.length ≤ k + rounds)
    (hrounds' : view.chainActive.length ≤ k + rounds') :
    Indexed.checksumHeightLoop view nChecksum denomination rounds view.chainActive[k]? =
      .ok (view.checksumHeightLoop nChecksum denomination rounds' k) := by
  induction rounds generalizing k rounds' with
  | zero =>
    have hnone : view.chainActive[k]? = none := List.getElem?_eq_none (by omega)
    cases rounds' with
    | zero =>
      simp [hnone, Indexed.checksumHeightLoop, ChainView.checksumHeightLoop, pure, Except.pure]
    | succ rounds' =>
      simp [hnone, Indexed.checksumHeightLoop, ChainView.checksumHeightLoop, pure, Except.pure]
  | succ rounds ih =>
    cases hk : view.chainActive[k]? with
    | none =>
      cases rounds' with
      | zero => simp [Indexed.checksumHeightLoop, ChainView.checksumHeightLoop, pure, Except.pure]
      | succ rounds' =>
        simp [hk, Indexed.checksumHeightLoop, ChainView.checksumHeightLoop, pure, Except.pure]
    | some pindex =>
      have hlt := (List.getElem?_eq_some_iff.mp hk).1
      obtain ⟨rounds', rfl⟩ : ∃ r, rounds' = r + 1 := ⟨rounds' - 1, by omega⟩
      have hheight := view.heights k pindex hk
      unfold Indexed.checksumHeightLoop ChainView.checksumHeightLoop
      rw [hk]
      dsimp only
      rw [hheight, ChainView.next_of_getElem? hk]
      split_ifs
      · rfl
      · rfl
      · have htenth : view.chainAt ((k : Int) + 10) = view.chainActive[k + 10]? :=
          ChainView.chainAt_natCast (k + 10)
        rw [htenth]
        exact ih (by omega) (by omega)
      · exact ih (by omega) (by omega)

theorem Indexed.getChecksumHeight_eq {network : Network} {nChecksum : UInt32}
    {denomination : CoinDenomination} :
    Indexed.getChecksumHeight view network nChecksum denomination =
      .ok (view.getChecksumHeight network nChecksum denomination) := by
  have hstart : 0 ≤ (Params network).nZerocoinStartHeight := by cases network <;> decide
  unfold Indexed.getChecksumHeight ChainView.getChecksumHeight ChainView.chainAt
  rw [if_neg (by omega)]
  exact Indexed.checksumHeightLoop_eq (by omega) (by omega)

theorem Indexed.kernelModifierLoop_answers {nTimeStop nStakeModifierTime : Int} {rounds k : ℕ}
    {pindex : Uint256} (hrounds : view.chainActive.length < k + rounds)
    (hk : k ≤ view.chainActive.length) :
    Answers (Indexed.kernelModifierLoop view nTimeStop rounds pindex view.chainActive[k]?
        nStakeModifierTime)
      (view.kernelModifierLoop nTimeStop pindex nStakeModifierTime (view.chainActive.drop k)) := by
  induction rounds generalizing k pindex nStakeModifierTime with
  | zero => omega
  | succ rounds ih =>
    unfold Indexed.kernelModifierLoop
    cases hnext : view.chainActive[k]? with
    | none =>
      have hend : view.chainActive.drop k = [] := by
        rw [List.drop_eq_nil_iff]
        exact List.getElem?_eq_none_iff.mp hnext
      rw [hend]
      unfold ChainView.kernelModifierLoop
      dsimp only
      split_ifs
      · exact .fails
      · exact .ok
    | some pindexNext =>
      obtain ⟨hlt, hget⟩ := List.getElem?_eq_some_iff.mp hnext
      have hafter : view.chainAt (((view.index pindexNext).nHeight : Int) + 1) =
          view.chainActive[k + 1]? := by
        rw [view.heights k pindexNext hnext]
        exact ChainView.chainAt_natCast (k + 1)
      rw [List.drop_eq_getElem_cons hlt, hget]
      unfold ChainView.kernelModifierLoop
      dsimp only
      rw [hafter]
      split_ifs
      · exact ih (by omega) (by omega)
      · exact ih (by omega) (by omega)
      · exact .ok

theorem Indexed.getKernelStakeModifier_answers {hashBlockFrom : Uint256}
    (hon : view.contains hashBlockFrom = true) :
    Answers (Indexed.getKernelStakeModifier view hashBlockFrom)
      (view.getKernelStakeModifier hashBlockFrom) := by
  unfold Indexed.getKernelStakeModifier ChainView.getKernelStakeModifier
    ChainView.kernelModifierBlock
  split_ifs
  · exact .fails
  · have hlt := (List.getElem?_eq_some_iff.mp (ChainView.contains_iff.mp hon)).1
    have hnext : view.chainAt (((view.index hashBlockFrom).nHeight : Int) + 1) =
        view.chainActive[(view.index hashBlockFrom).nHeight + 1]? := ChainView.chainAt_natCast _
    dsimp only
    rw [hnext, Option.map_eq_bind]
    exact (Indexed.kernelModifierLoop_answers (by omega) (by omega)).bind fun pindex _ => .ok

theorem Indexed.accumulatorModifierLoop_answers {nTimeBlockFrom : Int} {rounds k : ℕ}
    (hrounds : view.chainActive.length < k + rounds) (hk : k < view.chainActive.length) :
    Answers (Indexed.accumulatorModifierLoop view nTimeBlockFrom rounds view.chainActive[k]?)
      (view.accumulatorModifierLoop nTimeBlockFrom (view.chainActive.drop k)) := by
  induction rounds generalizing k with
  | zero => omega
  | succ rounds ih =>
    have hget : view.chainActive[k]? = some view.chainActive[k] := List.getElem?_eq_getElem hk
    have hheight := view.heights k _ hget
    have hnext := ChainView.next_of_getElem? hget
    rw [List.drop_eq_getElem_cons hk, hget]
    generalize view.chainActive[k] = pindex at hheight hnext
    unfold Indexed.accumulatorModifierLoop ChainView.accumulatorModifierLoop
    show Answers (if _ then _ else _) _
    dsimp only
    rw [hheight, hnext]
    unfold ChainView.height
    split_ifs with htime hlast
    · exact .ok
    · exact ih (by omega) (by omega)
    · have hend : view.chainActive.drop (k + 1) = [] := List.drop_eq_nil_of_le (by omega)
      rw [hend]
      exact .fails

end

/-! The stake input of a received block. It names its checksum, so no height is subtracted to find
its index, and a plain input reads one output. -/

/-- The stake is not a mint that the wallet is about to stake. -/
def CStakeInput.received : CStakeInput → Bool
  | .piv _ _ => true
  | .zpiv _ fMint _ _ => !fMint

section
variable {env : KernelEnv} {node : Node} {stake : CStakeInput} {tx : CTransaction} {txin : CTxIn}

theorem contains_of_getIndexFrom {pindexFrom : Uint256}
    (h : stake.getIndexFrom node = some pindexFrom) : node.view.contains pindexFrom = true := by
  unfold CStakeInput.getIndexFrom at h
  cases stake with
  | piv txFrom nPosition =>
    dsimp only at h
    split at h
    · contradiction
    · rename_i found hashBlock hfound
      split_ifs at h with hon
      rw [Bool.and_eq_true] at hon
      rw [← Option.some.inj h]
      exact hon.2
  | zpiv nChecksum fMint denom hashSerial =>
    dsimp only at h
    split_ifs at h
    all_goals
      rw [ChainView.chainAt_natCast] at h
      exact ChainView.contains_of_getElem? h

theorem Indexed.getIndexFrom_eq (hreceived : stake.received = true) :
    Indexed.getIndexFrom node stake = .ok (stake.getIndexFrom node) := by
  unfold Indexed.getIndexFrom CStakeInput.getIndexFrom
  cases stake with
  | piv txFrom nPosition =>
    dsimp only
    cases node.getTransaction txFrom.hash with
    | none => rfl
    | some found =>
      cases hknown : node.view.mapBlockIndex found.2 with
      | false => simp [hknown, pure, Except.pure]
      | true =>
        cases hon : node.view.contains found.2 with
        | false => simp [hknown, hon, pure, Except.pure]
        | true => simp [hknown, hon, pure, Except.pure]
  | zpiv nChecksum fMint denom hashSerial =>
    have hfMint : fMint = false := by simpa [CStakeInput.received] using hreceived
    dsimp only
    rw [hfMint, if_neg Bool.false_ne_true, if_neg Bool.false_ne_true, Indexed.getChecksumHeight_eq]
    show (if _ then _ else _ : Access Reject (Option Uint256)) = _
    split_ifs
    · rfl
    · rfl

theorem Indexed.getModifier_answers (hreceived : stake.received = true) :
    Answers (Indexed.getModifier node stake) (stake.getModifier node) := by
  unfold Indexed.getModifier CStakeInput.getModifier
  rw [Indexed.getIndexFrom_eq hreceived]
  cases hfrom : stake.getIndexFrom node with
  | none =>
    cases stake with
    | piv txFrom nPosition => exact .fails
    | zpiv nChecksum fMint denom hashSerial => exact .fails
  | some pindexFrom =>
    have hon := contains_of_getIndexFrom hfrom
    cases stake with
    | piv txFrom nPosition => exact (Indexed.getKernelStakeModifier_answers hon).onFailure
    | zpiv nChecksum fMint denom hashSerial =>
      have hget := ChainView.contains_iff.mp hon
      have hlt := (List.getElem?_eq_some_iff.mp hget).1
      have hloop := @Indexed.accumulatorModifierLoop_answers node.view
        (node.view.index pindexFrom).getBlockTime (node.view.chainActive.length + 1)
        (node.view.index pindexFrom).nHeight (by omega) hlt
      rw [hget] at hloop
      exact hloop

/-- The output that the input of the coinstake names is in the transaction, once that is found. -/
def OutputInRange (node : Node) (txin : CTxIn) : Prop :=
  ∀ txPrev hashBlock, node.getTransaction txin.prevout.hash = some (txPrev, hashBlock) →
    txin.prevout.n < txPrev.vout.length

theorem Indexed.kernelStakeInput_answers
    (houtput : tx.isZerocoinSpend = false → OutputInRange node txin) :
    Answers (Indexed.kernelStakeInput env node tx txin)
      (Lytix.kernelStakeInput env node tx txin) := by
  unfold Indexed.kernelStakeInput Lytix.kernelStakeInput
  rw [Indexed.isZerocoinSpend_eq]
  cases hspend : tx.isZerocoinSpend with
  | true =>
    show Answers (orStop _ _ >>= _) _
    rw [if_pos rfl]
    cases env.txInToZerocoinSpend txin with
    | none => exact .fails
    | some spend =>
      show Answers (if _ then _ else _) _
      dsimp only
      split_ifs
      · exact .fails
      · exact .ok
  | false =>
    show Answers (orStop _ _ >>= _) _
    rw [if_neg Bool.false_ne_true]
    cases hfound : node.getTransaction txin.prevout.hash with
    | none => exact .fails
    | some found =>
      have hlt := houtput hspend found.1 found.2 hfound
      have hget := List.getElem?_eq_getElem hlt
      show Answers (readAt found.1.vout txin.prevout.n >>= _) _
      rw [readAt_of_getElem? hget]
      dsimp only
      rw [hget]
      show Answers (if _ then _ else _) _
      dsimp only
      split_ifs
      · exact .fails
      · exact .ok

theorem Indexed.kernelStakeInput_outside (hspend : tx.isZerocoinSpend = false)
    (houtput : ¬ OutputInRange node txin) :
    Indexed.kernelStakeInput env node tx txin = .error none := by
  simp only [OutputInRange, not_forall, not_lt] at houtput
  obtain ⟨txPrev, hashBlock, hfound, hbeyond⟩ := houtput
  have hread : (readAt txPrev.vout txin.prevout.n : Access Reject CTxOut) = .error none :=
    readAt_eq_outside.mpr hbeyond
  unfold Indexed.kernelStakeInput
  rw [Indexed.isZerocoinSpend_eq, hspend, hfound]
  show (readAt txPrev.vout txin.prevout.n >>= _ : Access Reject CStakeInput) = _
  rw [hread]
  rfl

/-- A stake of a block was received, and a plain one names an output. -/
theorem kernelStakeInput_spec (h : kernelStakeInput env node tx txin = some stake) :
    stake.received = true ∧
      ∀ txFrom nPosition, stake = .piv txFrom nPosition → nPosition < txFrom.vout.length := by
  unfold kernelStakeInput at h
  split_ifs at h
  · split at h
    · contradiction
    · split_ifs at h
      rw [← Option.some.inj h]
      exact ⟨rfl, fun txFrom nPosition heq => by contradiction⟩
  · split at h
    · contradiction
    · split at h
      · contradiction
      · rename_i out hout
        split_ifs at h
        obtain rfl := Option.some.inj h
        refine ⟨rfl, fun txFrom nPosition heq => ?_⟩
        obtain ⟨rfl, rfl⟩ := CStakeInput.piv.inj heq
        exact (List.getElem?_eq_some_iff.mp hout).1

theorem Indexed.getValue_eq
    (houtput : ∀ txFrom nPosition, stake = .piv txFrom nPosition →
      nPosition < txFrom.vout.length) : Indexed.getValue stake = .ok stake.getValue := by
  cases stake with
  | zpiv nChecksum fMint denom hashSerial => rfl
  | piv txFrom nPosition =>
    have hget := List.getElem?_eq_getElem (houtput txFrom nPosition rfl)
    unfold Indexed.getValue CStakeInput.getValue
    dsimp only
    rw [readAt_of_getElem? hget, hget]
    rfl

end

/-! `CheckProofOfStake` reads outside through its output only. -/

/-- The second transaction of the block and its kernel input. -/
structure KernelInput (block : CBlock) (tx : CTransaction) (txin : CTxIn) : Prop where
  coinStake : block.vtx[1]? = some tx
  stakes : tx.isCoinStake = true
  kernel : tx.vin[0]? = some txin

section
variable {env : KernelEnv} {node : Node} {block : CBlock} {tx : CTransaction} {txin : CTxIn}

theorem exists_kernelInput (hpos : block.isProofOfStake = true) :
    ∃ tx txin, KernelInput block tx txin := by
  unfold CBlock.isProofOfStake at hpos
  rcases hvtx : block.vtx with _ | ⟨coinBase, _ | ⟨tx, rest⟩⟩
  · simp [hvtx] at hpos
  · simp [hvtx] at hpos
  · simp only [hvtx] at hpos
    cases hvin : tx.vin with
    | nil => simp [CTransaction.isCoinStake, hvin] at hpos
    | cons txin vin => exact ⟨tx, txin, by simp [hvtx], hpos, by simp [hvin]⟩

/-- The proof of stake, stage by stage. -/
theorem KernelInput.checkProofOfStake_eq (hkernel : KernelInput block tx txin) :
    checkProofOfStake env node block =
      (kernelStakeInput env node tx txin).bind fun stakeInput =>
        (stakeInput.getIndexFrom node).bind fun pindex =>
          (node.readBlockFromDisk pindex).bind fun blockprev =>
            (stakeInput.getModifier node).bind fun nStakeModifier =>
              if (checkStake env stakeInput.getUniqueness stakeInput.getValue nStakeModifier
                  (setCompact block.nBits) blockprev.nTime block.nTime).1 then
                some ((checkStake env stakeInput.getUniqueness stakeInput.getValue nStakeModifier
                  (setCompact block.nBits) blockprev.nTime block.nTime).2, stakeInput)
              else none := by
  obtain ⟨hcoinStake, hstakes, htxin⟩ := hkernel
  rcases hvtx : block.vtx with _ | ⟨coinBase, _ | ⟨tx', rest⟩⟩
  · simp [hvtx] at hcoinStake
  · simp [hvtx] at hcoinStake
  · obtain rfl : tx' = tx := by simpa [hvtx] using hcoinStake
    rcases hvin : tx'.vin with _ | ⟨txin', vin⟩
    · simp [hvin] at htxin
    · obtain rfl : txin' = txin := by simpa [hvin] using htxin
      unfold checkProofOfStake
      rw [hvtx]
      dsimp only
      rw [hstakes, hvin, Bool.not_true, if_neg Bool.false_ne_true]
      dsimp only
      cases kernelStakeInput env node tx' txin' with
      | none => rfl
      | some stakeInput =>
        unfold CStakeInput.blockFrom
        cases hfrom : stakeInput.getIndexFrom node with
        | none => simp [hfrom]
        | some pindex =>
          cases hdisk : node.readBlockFromDisk pindex with
          | none => simp [hfrom, hdisk]
          | some blockprev =>
            cases hmodifier : stakeInput.getModifier node with
            | none => simp [hfrom, hdisk, hmodifier]
            | some nStakeModifier => simp [hfrom, hdisk, hmodifier]

theorem KernelInput.checkProofOfStake_answers (hkernel : KernelInput block tx txin)
    (houtput : tx.isZerocoinSpend = false → OutputInRange node txin) :
    Answers (Indexed.checkProofOfStake env node block) (checkProofOfStake env node block) := by
  rw [hkernel.checkProofOfStake_eq]
  unfold Indexed.checkProofOfStake
  rw [readAt_of_getElem? hkernel.coinStake]
  show Answers (Indexed.isCoinStake tx >>= _) _
  rw [Indexed.isCoinStake_eq, hkernel.stakes]
  show Answers (readAt tx.vin 0 >>= _) _
  rw [readAt_of_getElem? hkernel.kernel]
  refine (Indexed.kernelStakeInput_answers houtput).bind fun stakeInput hinput => ?_
  obtain ⟨hreceived, hrange⟩ := kernelStakeInput_spec hinput
  rw [Indexed.getIndexFrom_eq hreceived]
  refine Answers.orStop.bind fun pindex _ => ?_
  refine Answers.orStop.bind fun blockprev _ => ?_
  refine (Indexed.getModifier_answers hreceived).onFailure.bind fun nStakeModifier _ => ?_
  rw [Indexed.getValue_eq hrange]
  show Answers (if (checkStake env stakeInput.getUniqueness stakeInput.getValue nStakeModifier
    (setCompact block.nBits) blockprev.nTime block.nTime).1 then _ else _) _
  split_ifs
  · exact .ok
  · exact .fails

theorem KernelInput.checkProofOfStake_outside (hkernel : KernelInput block tx txin)
    (hspend : tx.isZerocoinSpend = false) (houtput : ¬ OutputInRange node txin) :
    Indexed.checkProofOfStake env node block = .error none := by
  unfold Indexed.checkProofOfStake
  rw [readAt_of_getElem? hkernel.coinStake]
  show (Indexed.isCoinStake tx >>= _ : Access Reject (Uint256 × CStakeInput)) = _
  rw [Indexed.isCoinStake_eq, hkernel.stakes]
  show (readAt tx.vin 0 >>= _ : Access Reject (Uint256 × CStakeInput)) = _
  rw [readAt_of_getElem? hkernel.kernel]
  show (Indexed.kernelStakeInput env node tx txin >>= _ :
    Access Reject (Uint256 × CStakeInput)) = _
  rw [Indexed.kernelStakeInput_outside hspend houtput]
  rfl

end

/-! The checkpoint of a zerocoin stake is looked up below the predecessor's height, on the active
chain. -/

def stakeOfSpend (env : KernelEnv) (spend : CoinSpend) : CStakeInput :=
  .zpiv spend.accChecksum false spend.denomination
    (env.hash (leBytes 32 (getuint256 spend.coinSerialNumber).toNat))

/-- The kernel of the block is a spend for staking, of a checkpoint on the active chain, and its hash
meets the target. -/
structure ZerocoinKernel (env : KernelEnv) (node : Node) (block : CBlock) (spend : CoinSpend)
    (pindexFrom : Uint256) : Prop where
  spends : ∃ tx txin, KernelInput block tx txin ∧ tx.isZerocoinSpend = true ∧
    env.txInToZerocoinSpend txin = some spend
  staked : spend.spendType = .STAKE
  checkpoint : (stakeOfSpend env spend).getIndexFrom node = some pindexFrom
  hit : ∃ blockprev nStakeModifier, node.readBlockFromDisk pindexFrom = some blockprev ∧
    (stakeOfSpend env spend).getModifier node = some nStakeModifier ∧
    (checkStake env (stakeOfSpend env spend).getUniqueness (stakeOfSpend env spend).getValue
      nStakeModifier (setCompact block.nBits) blockprev.nTime block.nTime).1 = true

/-- The output that a plain kernel names is in its transaction. A zerocoin kernel has a predecessor,
which is not higher above the active chain than the depth that stakes need. -/
structure KernelReadable (env : ConsensusEnv) (node : AcceptNode) (block : CBlock)
    (pindexPrev : Option Uint256) : Prop where
  output : ∀ tx txin, KernelInput block tx txin → tx.isZerocoinSpend = false →
    OutputInRange node.toNode txin
  position : ∀ spend pindexFrom,
    ZerocoinKernel env.toKernelEnv node.toNode block spend pindexFrom →
    ∃ prev, pindexPrev = some prev ∧
      (node.params.nBlockZerocoinV2 ≤ (node.view.index prev).nHeight →
        node.params.nZerocoinRequiredStakeDepth ≤
          node.view.height - (node.view.index pindexFrom).nHeight →
        (node.view.index prev).nHeight ≤
          node.view.height + node.params.nZerocoinRequiredStakeDepth)

/-- The output or the checkpoint that the stake is checked against. -/
def CStakeInput.ThereFor (node : AcceptNode) (pindexPrev : Option Uint256) : CStakeInput → Prop
  | .piv txFrom nPosition => nPosition < txFrom.vout.length
  | .zpiv _ _ _ _ => ∃ prev, pindexPrev = some prev ∧
      (node.view.chainAt ((node.view.index prev).nHeight -
        node.params.nZerocoinRequiredStakeDepth)).isSome

/-- All that the stake of the block refers to exists. -/
def StakeThere (env : ConsensusEnv) (node : AcceptNode) (block : CBlock)
    (pindexPrev : Option Uint256) : Prop :=
  ∃ tx txin stake, KernelInput block tx txin ∧
    kernelStakeInput env.toKernelEnv node.toNode tx txin = some stake ∧
    (stake.getIndexFrom node.toNode).isSome ∧ (stake.getModifier node.toNode).isSome ∧
    stake.ThereFor node pindexPrev

/-- The kernel checks of `AcceptBlock` read only what exists, and turn the block away when
something is missing. -/
def ReadsWhatIsThere (env : ConsensusEnv) (node : AcceptNode) (block : CBlock)
    (pindexPrev : Option Uint256) : Prop :=
  Within (Indexed.acceptProofOfStake env node block pindexPrev) ∧
    (¬ StakeThere env node block pindexPrev →
      ∃ e, Indexed.acceptProofOfStake env node block pindexPrev = .error (some e))

section
variable {env : KernelEnv} {node : Node} {block : CBlock} {tx : CTransaction} {txin : CTxIn}
  {stake : CStakeInput} {hashProofOfStake : Uint256}

theorem KernelInput.unique {tx' : CTransaction} {txin' : CTxIn} (h : KernelInput block tx txin)
    (h' : KernelInput block tx' txin') : tx' = tx ∧ txin' = txin := by
  have htx : tx' = tx := by simpa [h.coinStake] using h'.coinStake.symm
  have hkernel' := h'.kernel
  rw [htx, h.kernel] at hkernel'
  exact ⟨htx, (Option.some.inj hkernel').symm⟩

theorem KernelInput.checkProofOfStake_eq_some (hkernel : KernelInput block tx txin) :
    checkProofOfStake env node block = some (hashProofOfStake, stake) ↔
      kernelStakeInput env node tx txin = some stake ∧ ∃ pindexFrom blockprev nStakeModifier,
        stake.getIndexFrom node = some pindexFrom ∧
        node.readBlockFromDisk pindexFrom = some blockprev ∧
        stake.getModifier node = some nStakeModifier ∧
        checkStake env stake.getUniqueness stake.getValue nStakeModifier (setCompact block.nBits)
          blockprev.nTime block.nTime = (true, hashProofOfStake) := by
  rw [hkernel.checkProofOfStake_eq]
  simp only [Option.bind_eq_some_iff]
  constructor
  · rintro ⟨stake', hinput, pindexFrom, hfrom, blockprev, hdisk, nStakeModifier, hmodifier, hhit⟩
    split_ifs at hhit with htarget
    obtain ⟨rfl, rfl⟩ := Prod.mk.inj (Option.some.inj hhit)
    exact ⟨hinput, pindexFrom, blockprev, nStakeModifier, hfrom, hdisk, hmodifier,
      Prod.ext htarget rfl⟩
  · rintro ⟨hinput, pindexFrom, blockprev, nStakeModifier, hfrom, hdisk, hmodifier, hhit⟩
    refine ⟨stake, hinput, pindexFrom, hfrom, blockprev, hdisk, nStakeModifier, hmodifier, ?_⟩
    rw [hhit, if_pos rfl]

theorem kernelStakeInput_eq_zpiv (hzpiv : stake.isZPIV = true) :
    kernelStakeInput env node tx txin = some stake ↔
      tx.isZerocoinSpend = true ∧ ∃ spend, env.txInToZerocoinSpend txin = some spend ∧
        spend.spendType = .STAKE ∧ stakeOfSpend env spend = stake := by
  unfold kernelStakeInput
  cases tx.isZerocoinSpend with
  | true =>
    rw [if_pos rfl]
    cases env.txInToZerocoinSpend txin with
    | none => simp
    | some spend =>
      dsimp only
      split_ifs with htype
      · simp [htype]
      · rw [not_not] at htype
        simp [htype, stakeOfSpend]
  | false =>
    rw [if_neg Bool.false_ne_true]
    refine iff_of_false ?_ (by simp)
    intro h
    split at h
    · contradiction
    · split at h
      · contradiction
      · split_ifs at h
        rw [← Option.some.inj h] at hzpiv
        contradiction

/-- A zerocoin kernel is one that `CheckProofOfStake` passes. -/
theorem ZerocoinKernel.checkProofOfStake_eq {spend : CoinSpend} {pindexFrom : Uint256}
    (h : ZerocoinKernel env node block spend pindexFrom) :
    ∃ hashProofOfStake, checkProofOfStake env node block =
      some (hashProofOfStake, stakeOfSpend env spend) := by
  obtain ⟨tx, txin, hkernel, hspend, hparse⟩ := h.spends
  obtain ⟨blockprev, nStakeModifier, hdisk, hmodifier, hhit⟩ := h.hit
  refine ⟨_, hkernel.checkProofOfStake_eq_some.mpr ⟨?_, pindexFrom, blockprev, nStakeModifier,
    h.checkpoint, hdisk, hmodifier, Prod.ext hhit rfl⟩⟩
  rw [kernelStakeInput_eq_zpiv rfl]
  exact ⟨hspend, spend, hparse, h.staked, rfl⟩

theorem exists_zerocoinKernel (hkernel : KernelInput block tx txin) (hzpiv : stake.isZPIV = true)
    (hproof : checkProofOfStake env node block = some (hashProofOfStake, stake)) :
    ∃ spend pindexFrom, stakeOfSpend env spend = stake ∧
      ZerocoinKernel env node block spend pindexFrom := by
  obtain ⟨hinput, pindexFrom, blockprev, nStakeModifier, hfrom, hdisk, hmodifier, hhit⟩ :=
    hkernel.checkProofOfStake_eq_some.mp hproof
  obtain ⟨hspend, spend, hparse, htype, rfl⟩ := (kernelStakeInput_eq_zpiv hzpiv).mp hinput
  exact ⟨spend, pindexFrom, rfl, ⟨tx, txin, hkernel, hspend, hparse⟩, htype, hfrom,
    blockprev, nStakeModifier, hdisk, hmodifier, by rw [hhit]⟩

end

section
variable {env : ConsensusEnv} {node : AcceptNode} {block : CBlock} {spend : CoinSpend}
  {pindexFrom : Uint256} {nHeight : ℕ}

theorem ChainView.chainAt_eq_none {view : ChainView} {n : Int} (hn : 0 ≤ n) :
    view.chainAt n = none ↔ view.height < n := by
  unfold ChainView.chainAt ChainView.height
  rw [if_neg (by omega), List.getElem?_eq_none_iff]
  omega

/-- The pointer to the checkpoint is null when the predecessor is too high above the chain. -/
theorem Indexed.contextualCheckZerocoinStake_eq_outside
    (hfrom : (stakeOfSpend env.toKernelEnv spend).getIndexFrom node.toNode = some pindexFrom) :
    Indexed.contextualCheckZerocoinStake node nHeight (stakeOfSpend env.toKernelEnv spend) =
        .error none ↔
      node.params.nBlockZerocoinV2 ≤ nHeight ∧
        node.params.nZerocoinRequiredStakeDepth ≤
          node.view.height - (node.view.index pindexFrom).nHeight ∧
        node.view.height + node.params.nZerocoinRequiredStakeDepth < nHeight := by
  have hdepth : node.params.nZerocoinRequiredStakeDepth ≤ node.params.nBlockZerocoinV2 := by
    unfold ConsensusNode.params
    cases node.network <;> decide
  have hindex : Indexed.getIndexFrom node.toNode (stakeOfSpend env.toKernelEnv spend) =
      .ok (some pindexFrom) := by rw [Indexed.getIndexFrom_eq rfl, hfrom]
  unfold stakeOfSpend at hindex ⊢
  have hvalue : ∀ nChecksum denom hashSerial,
      Indexed.getValue (.zpiv nChecksum false denom hashSerial) = .ok denom.toAmount :=
    fun _ _ _ => rfl
  unfold Indexed.contextualCheckZerocoinStake
  dsimp only
  rw [hindex]
  simp only [bind_eq_error, checks_ne_outside, checks_eq_ok, stopIf_eq_ok, false_or, hvalue,
    orStop_ne_outside, orStop_eq_ok, deref_eq_outside, reduceCtorEq, Except.ok.injEq,
    Option.some.injEq, exists_eq_left', and_false, exists_false, or_false, not_lt]
  constructor
  · rintro ⟨-, hstart, -, hdeep, hnone⟩
    rw [ChainView.chainAt_eq_none (by omega)] at hnone
    exact ⟨hstart, hdeep, by omega⟩
  · rintro ⟨hstart, hdeep, habove⟩
    refine ⟨(), hstart, (), hdeep, ?_⟩
    rw [ChainView.chainAt_eq_none (by omega)]
    omega

/-- A stake that passes has its checkpoint. -/
theorem Indexed.contextualCheckZerocoinStake_ok {stake : CStakeInput}
    (h : Indexed.contextualCheckZerocoinStake node nHeight stake = .ok ()) :
    (node.view.chainAt (nHeight - node.params.nZerocoinRequiredStakeDepth)).isSome := by
  unfold Indexed.contextualCheckZerocoinStake at h
  obtain ⟨-, -, h⟩ := bind_eq_ok.mp h
  cases stake with
  | piv txFrom nPosition => contradiction
  | zpiv nChecksum fMint denom hashSerial =>
    simp only [bind_eq_ok, deref_eq_ok] at h
    obtain ⟨-, -, -, -, -, -, pindex200, hat, -⟩ := h
    rw [hat]
    rfl

/-! So two reads can go outside. -/

section
variable {tx : CTransaction} {txin : CTxIn} {pindexPrev : Option Uint256}

theorem acceptProofOfStake_of_proof {stake : CStakeInput} {hashProofOfStake : Uint256}
    (hproof : Indexed.checkProofOfStake env.toKernelEnv node.toNode block =
      .ok (hashProofOfStake, stake)) :
    Indexed.acceptProofOfStake env node block pindexPrev =
      if stake.isZPIV then do
        let prev ← deref pindexPrev
        onFailure ⟨100, "staked zLYTX fails context checks"⟩
          (Indexed.contextualCheckZerocoinStake node (node.view.index prev).nHeight stake)
      else pure () := by
  unfold Indexed.acceptProofOfStake
  rw [hproof]
  rfl

theorem acceptProofOfStake_of_no_proof {e : Reject}
    (hproof : Indexed.checkProofOfStake env.toKernelEnv node.toNode block = .error (some e)) :
    Indexed.acceptProofOfStake env node block pindexPrev =
      .error (some ⟨100, "proof of stake check failed"⟩) := by
  unfold Indexed.acceptProofOfStake
  rw [hproof]
  rfl

theorem acceptProofOfStake_eq_outside (hkernel : KernelInput block tx txin) :
    Indexed.acceptProofOfStake env node block pindexPrev = .error none ↔
      ¬ KernelReadable env node block pindexPrev := by
  by_cases houtput : tx.isZerocoinSpend = false → OutputInRange node.toNode txin
  · have hanswers := @KernelInput.checkProofOfStake_answers env.toKernelEnv node.toNode block tx txin
      hkernel houtput
    have houtput' : ∀ tx' txin', KernelInput block tx' txin' → tx'.isZerocoinSpend = false →
        OutputInRange node.toNode txin' := by
      intro tx' txin' hkernel'
      obtain ⟨rfl, rfl⟩ := hkernel.unique hkernel'
      exact houtput
    cases hproof : checkProofOfStake env.toKernelEnv node.toNode block with
    | none =>
      rw [hproof] at hanswers
      obtain ⟨e, hfails⟩ := hanswers.eq_error
      rw [acceptProofOfStake_of_no_proof hfails]
      refine iff_of_false (by simp) (not_not.mpr ⟨houtput', fun spend pindexFrom hzerocoin => ?_⟩)
      obtain ⟨hashProofOfStake, hproof'⟩ := hzerocoin.checkProofOfStake_eq
      rw [hproof] at hproof'
      contradiction
    | some proof =>
      obtain ⟨hashProofOfStake, stake⟩ := proof
      rw [acceptProofOfStake_of_proof (hanswers.eq_ok.mpr hproof)]
      have hsame : ∀ spend pindexFrom,
          ZerocoinKernel env.toKernelEnv node.toNode block spend pindexFrom →
          stakeOfSpend env.toKernelEnv spend = stake := by
        intro spend pindexFrom hzerocoin
        obtain ⟨hashProofOfStake', hproof'⟩ := hzerocoin.checkProofOfStake_eq
        rw [hproof] at hproof'
        exact (Prod.mk.inj (Option.some.inj hproof')).2.symm
      cases hzpiv : stake.isZPIV with
      | false =>
        refine iff_of_false (by simp [pure, Except.pure])
          (not_not.mpr ⟨houtput', fun spend pindexFrom hzerocoin => ?_⟩)
        rw [← hsame spend pindexFrom hzerocoin] at hzpiv
        contradiction
      | true =>
        obtain ⟨spend, pindexFrom, rfl, hzerocoin⟩ := exists_zerocoinKernel hkernel hzpiv hproof
        rw [if_pos rfl]
        cases pindexPrev with
        | none =>
          refine iff_of_true rfl fun hreadable => ?_
          obtain ⟨prev, hprev, -⟩ := hreadable.position spend pindexFrom hzerocoin
          contradiction
        | some prev =>
          show onFailure _ _ = _ ↔ _
          rw [onFailure_eq_outside,
            Indexed.contextualCheckZerocoinStake_eq_outside hzerocoin.checkpoint]
          constructor
          · rintro ⟨hstart, hdeep, habove⟩ hreadable
            obtain ⟨prev', hprev, hbelow⟩ := hreadable.position spend pindexFrom hzerocoin
            rw [← Option.some.inj hprev] at hbelow
            exact absurd (hbelow hstart hdeep) (by omega)
          · intro hnot
            by_contra hin
            refine hnot ⟨houtput', fun spend' pindexFrom' hzerocoin' => ⟨prev, rfl, ?_⟩⟩
            have hcheckpoint := hzerocoin'.checkpoint
            rw [hsame spend' pindexFrom' hzerocoin', hzerocoin.checkpoint] at hcheckpoint
            rw [← Option.some.inj hcheckpoint]
            intro hstart hdeep
            by_contra habove
            exact hin ⟨hstart, hdeep, by omega⟩
  · have hspend : tx.isZerocoinSpend = false := by
      by_contra hspend
      exact houtput fun hplain => absurd hplain hspend
    have hbeyond : ¬ OutputInRange node.toNode txin := fun hin => houtput fun _ => hin
    have houtside : Indexed.acceptProofOfStake env node block pindexPrev = .error none := by
      unfold Indexed.acceptProofOfStake
      rw [hkernel.checkProofOfStake_outside hspend hbeyond]
      rfl
    rw [houtside]
    exact iff_of_true rfl fun hreadable => hbeyond (hreadable.output tx txin hkernel hspend)

/-- What is accepted was there. -/
theorem stakeThere_of_accept (hkernel : KernelInput block tx txin)
    (hreadable : KernelReadable env node block pindexPrev)
    (haccept : Indexed.acceptProofOfStake env node block pindexPrev = .ok ()) :
    StakeThere env node block pindexPrev := by
  have hanswers := @KernelInput.checkProofOfStake_answers env.toKernelEnv node.toNode block tx txin
    hkernel (hreadable.output tx txin hkernel)
  cases hproof : checkProofOfStake env.toKernelEnv node.toNode block with
  | none =>
    rw [hproof] at hanswers
    obtain ⟨e, hfails⟩ := hanswers.eq_error
    rw [acceptProofOfStake_of_no_proof hfails] at haccept
    contradiction
  | some proof =>
    obtain ⟨hashProofOfStake, stake⟩ := proof
    obtain ⟨hinput, pindexFrom, -, nStakeModifier, hfrom, -, hmodifier, -⟩ :=
      hkernel.checkProofOfStake_eq_some.mp hproof
    refine ⟨tx, txin, stake, hkernel, hinput, by simp [hfrom], by simp [hmodifier], ?_⟩
    rw [acceptProofOfStake_of_proof (hanswers.eq_ok.mpr hproof)] at haccept
    cases stake with
    | piv txFrom nPosition => exact (kernelStakeInput_spec hinput).2 txFrom nPosition rfl
    | zpiv nChecksum fMint denom hashSerial =>
      rw [CStakeInput.isZPIV, if_pos rfl, bind_eq_ok] at haccept
      obtain ⟨prev, hprev, hcontext⟩ := haccept
      rw [deref_eq_ok] at hprev
      rw [onFailure_eq_ok] at hcontext
      exact ⟨prev, hprev, Indexed.contextualCheckZerocoinStake_ok hcontext⟩

/-- The kernel checks of a received block read only what exists, and turn the block away when
something is missing, exactly when its output is in range and its branch is not too high above the
active chain. -/
theorem readsWhatIsThere_iff (hpos : block.isProofOfStake = true) :
    ReadsWhatIsThere env node block pindexPrev ↔ KernelReadable env node block pindexPrev := by
  obtain ⟨tx, txin, hkernel⟩ := exists_kernelInput hpos
  unfold ReadsWhatIsThere
  rw [within_iff, ne_eq, acceptProofOfStake_eq_outside hkernel, not_not]
  refine ⟨fun h => h.1, fun hreadable => ⟨hreadable, fun hmissing => ?_⟩⟩
  have hinside : Indexed.acceptProofOfStake env node block pindexPrev ≠ .error none := by
    rw [ne_eq, acceptProofOfStake_eq_outside hkernel, not_not]
    exact hreadable
  rcases hresult : Indexed.acceptProofOfStake env node block pindexPrev with (_ | e) | _
  · exact absurd hresult hinside
  · exact ⟨e, rfl⟩
  · exact absurd (stakeThere_of_accept hkernel hreadable hresult) hmissing

end
end

theorem readsWhatIsThere_beside :
    ReadsWhatIsThere besideEnv besideNode besideBlock (some besideBlock.hashPrevBlock) ↔
      KernelReadable besideEnv besideNode besideBlock (some besideBlock.hashPrevBlock) :=
  readsWhatIsThere_iff (by decide)

/-- A block whose kernel is the third of two outputs. -/
def thirdOutputBlock : CBlock :=
  { besideBlock with vtx := [deepCoinBase, { besideStake with vin := [⟨⟨20, 2⟩, [], 0⟩] }] }

/-- The block gets to the kernel checks, and they read outside. -/
theorem not_readsWhatIsThere_thirdOutput :
    thirdOutputBlock.isProofOfStake = true ∧
      checkBlock besideEnv besideNode.toConsensusNode thirdOutputBlock true true = .ok () ∧
      thirdOutputBlock.hash ≠ besideNode.params.hashGenesisBlock ∧
      besideNode.view.mapBlockIndex thirdOutputBlock.hashPrevBlock = true ∧
      (besideNode.view.index thirdOutputBlock.hashPrevBlock).nStatus.failed = false ∧
      besideNode.checkWork thirdOutputBlock thirdOutputBlock.hashPrevBlock = true ∧
      ¬ ReadsWhatIsThere besideEnv besideNode thirdOutputBlock
        (some thirdOutputBlock.hashPrevBlock) := by
  refine ⟨by decide, checkBlock_besideOutput 2, besideBlock_not_genesis, by decide, by decide, rfl,
    ?_⟩
  have hkernel : KernelInput thirdOutputBlock { besideStake with vin := [⟨⟨20, 2⟩, [], 0⟩] }
      ⟨⟨20, 2⟩, [], 0⟩ := ⟨rfl, by decide, rfl⟩
  have hfound : besideNode.toNode.getTransaction 20 = some (twoOutputs, 2) := by decide
  rintro ⟨hwithin, -⟩
  rw [within_iff, ne_eq, acceptProofOfStake_eq_outside hkernel, not_not] at hwithin
  have hlt := hwithin.output _ _ hkernel (by decide) twoOutputs 2 hfound
  exact absurd hlt (by decide)

end Lytix
