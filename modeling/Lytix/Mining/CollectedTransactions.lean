import Lytix.Coins.SpentOnce
import Lytix.Mining.CreateNewBlock

/-! What one round of the loop does, and what holds after every round. A transaction is placed
when it passes its own tests and none of its serials was recorded before. -/
namespace Lytix

open CountEntries Dependencies Heaps

section
variable {env : ConsensusEnv} {vtx : List CTransaction} {tx : CTransaction}

theorem zerocoinSerials_snoc : zerocoinSerials env (vtx ++ [tx]) =
    zerocoinSerials env vtx ++ if tx.isZerocoinSpend then serialsOf env tx.vin else [] := by
  simp [zerocoinSerials]

theorem coinsAfter_snoc {nHeight : Int} {coins view view' : CoinsMap} {txundo : CTxUndo}
    (h : coinsAfter nHeight coins vtx = some view)
    (hupdate : updateCoins nHeight view tx = some (txundo, view')) :
    coinsAfter nHeight coins (vtx ++ [tx]) = some view' := by
  unfold coinsAfter at h ⊢
  rw [List.foldlM_append, h]
  simp [hupdate]

end

variable {δ : Type} [LinearOrder δ]

/-- The signature operations of transactions that are connected one after the other. -/
def sigOpsFrom (env : MinerEnv δ) (nHeight : Int) (coins : CoinsMap) : List CTransaction → Nat
  | [] => 0
  | tx :: vtx => txSigOps env coins tx +
    match updateCoins nHeight coins tx with
    | none => 0
    | some (_, coins) => sigOpsFrom env nHeight coins vtx

section
variable [Zero δ] [Add δ] (env : MinerEnv δ) (node : MinerNode δ) (nHeight : Int)
  (st : CollectState δ) (e : TxPriority δ)

/-- The tests that are made for the transaction itself. Its serials are compared with those of the
transactions in the block, and with each other. -/
structure PassesTests : Prop where
  limits : failsLimits env node st e = false
  inputs : st.view.haveInputs e.tx = true
  serials : ∃ vTxSerials,
    doubleSpends env node (zerocoinSerials env.toConsensusEnv st.vtx) [] e.tx =
      some (false, vTxSerials)
  sigOps : st.nBlockSigOps + txSigOps env st.view e.tx < MAX_BLOCK_SIGOPS_CURRENT
  valid : (checkMandatory env node nHeight st.view e.tx).isOk = true

instance : Decidable (PassesTests env node nHeight st e) :=
  decidable_of_iff (failsLimits env node st e = false ∧ st.view.haveInputs e.tx = true ∧
      ((doubleSpends env node (zerocoinSerials env.toConsensusEnv st.vtx) [] e.tx).any
        fun found => !found.1) = true ∧
      st.nBlockSigOps + txSigOps env st.view e.tx < MAX_BLOCK_SIGOPS_CURRENT ∧
      (checkMandatory env node nHeight st.view e.tx).isOk = true) <| by
    constructor
    · rintro ⟨limits, inputs, serials, sigOps, valid⟩
      refine ⟨limits, inputs, ?_, sigOps, valid⟩
      obtain ⟨⟨_, own⟩, hfound, hnone⟩ := Option.any_eq_true _ _ |>.mp serials
      rw [Bool.not_eq_true'] at hnone
      dsimp only at hnone
      exact ⟨own, hnone ▸ hfound⟩
    · rintro ⟨limits, inputs, ⟨own, hfound⟩, sigOps, valid⟩
      exact ⟨limits, inputs, by rw [hfound]; rfl, sigOps, valid⟩

/-- A serial of the transaction was recorded before, in the block or not. -/
def MeetsRecorded (env : ConsensusEnv) (st : CollectState δ) (e : TxPriority δ) : Prop :=
  e.tx.isZerocoinSpend = true ∧ ∃ serial ∈ serialsOf env e.tx.vin, serial ∈ st.vTxSerials

/-- The serials in the block are recorded. -/
structure Recorded (env : ConsensusEnv) (st : CollectState δ) : Prop where
  block : zerocoinSerials env st.vtx ⊆ st.vTxSerials
  vBlockSerials : st.vBlockSerials ⊆ st.vTxSerials

end

section
variable {env : MinerEnv δ} {vBlockSerials vTxSerials vTxSerials' : List Int} {vin : List CTxIn}

theorem sigOpsFrom_snoc {nHeight : Int} {coins view : CoinsMap} {vtx : List CTransaction}
    {tx : CTransaction} (h : coinsAfter nHeight coins vtx = some view) :
    sigOpsFrom env nHeight coins (vtx ++ [tx]) =
      sigOpsFrom env nHeight coins vtx + txSigOps env view tx := by
  induction vtx generalizing coins with
  | nil =>
    obtain rfl := Option.some.inj h
    rw [List.nil_append, sigOpsFrom, sigOpsFrom]
    cases updateCoins nHeight coins tx <;> simp [sigOpsFrom]
  | cons first vtx ih =>
    obtain ⟨txundo, mid, hupdate, hrest⟩ := coinsAfter_cons h
    rw [List.cons_append, sigOpsFrom, sigOpsFrom, hupdate]
    dsimp only
    rw [ih hrest, add_assoc]

/-- All zerocoin spends among the inputs can be read and have valid serials. -/
def SerialsValid (env : MinerEnv δ) (vin : List CTxIn) : Prop :=
  ∀ txIn ∈ vin, txIn.scriptSig.isZerocoinSpend = true →
    ∃ spend, env.txInToZerocoinSpend txIn = some spend ∧ env.hasValidSerial spend = true

theorem serialsOf_cons_of_spend {txIn : CTxIn} {spend : CoinSpend}
    (hspend : txIn.scriptSig.isZerocoinSpend = true)
    (hread : env.txInToZerocoinSpend txIn = some spend) :
    serialsOf env.toConsensusEnv (txIn :: vin) =
      spend.coinSerialNumber :: serialsOf env.toConsensusEnv vin := by
  simp [serialsOf, hspend, hread]

theorem serialsOf_cons_of_plain {txIn : CTxIn} (hplain : txIn.scriptSig.isZerocoinSpend = false) :
    serialsOf env.toConsensusEnv (txIn :: vin) = serialsOf env.toConsensusEnv vin := by
  simp [serialsOf, hplain]

/-- No double spend is found when all serials are valid, different and not recorded. -/
theorem scanSerials_eq_false : scanSerials env vBlockSerials vTxSerials vin =
      some (false, vTxSerials') ↔
    SerialsValid env vin ∧ (serialsOf env.toConsensusEnv vin).Nodup ∧
      (∀ serial ∈ serialsOf env.toConsensusEnv vin,
        serial ∉ vBlockSerials ∧ serial ∉ vTxSerials) ∧
      vTxSerials' = vTxSerials ++ serialsOf env.toConsensusEnv vin := by
  induction vin generalizing vTxSerials with
  | nil =>
    simp only [scanSerials, SerialsValid, serialsOf, List.filter_nil, List.filterMap_nil,
      List.nodup_nil, List.append_nil, Option.some.injEq, Prod.mk.injEq, true_and,
      List.not_mem_nil, false_imp_iff, implies_true]
    exact eq_comm
  | cons txIn vin ih =>
    rw [scanSerials]
    cases hspend : txIn.scriptSig.isZerocoinSpend with
    | false =>
      rw [if_neg (by simp), ih, serialsOf_cons_of_plain hspend]
      simp [SerialsValid, hspend]
    | true =>
      rw [if_pos rfl]
      cases hread : env.txInToZerocoinSpend txIn with
      | none =>
        rw [Option.bind_none]
        constructor
        · intro h
          contradiction
        · rintro ⟨hvalid, -⟩
          obtain ⟨spend, hspend', -⟩ := hvalid txIn List.mem_cons_self hspend
          rw [hread] at hspend'
          contradiction
      | some spend =>
        rw [Option.bind_some, serialsOf_cons_of_spend hspend hread, List.nodup_cons]
        by_cases hbad : (!env.hasValidSerial spend ||
            decide (spend.coinSerialNumber ∈ vBlockSerials) ||
            decide (spend.coinSerialNumber ∈ vTxSerials)) = true
        · rw [if_pos hbad]
          constructor
          · intro h
            simp at h
          · rintro ⟨hvalid, -, hfresh, -⟩
            obtain ⟨spend', hread', hgood⟩ := hvalid txIn List.mem_cons_self hspend
            obtain rfl := Option.some.inj (hread.symm.trans hread')
            obtain ⟨hblock, htx⟩ := hfresh _ List.mem_cons_self
            simp [hgood, hblock, htx] at hbad
        · rw [if_neg hbad, ih]
          simp only [Bool.not_eq_true, Bool.or_eq_false_iff, Bool.not_eq_false',
            decide_eq_false_iff_not] at hbad
          obtain ⟨⟨hgood, hblock⟩, htx⟩ := hbad
          have hvalid : SerialsValid env (txIn :: vin) ↔ SerialsValid env vin := by
            simp [SerialsValid, hspend, hread, hgood]
          rw [hvalid]
          simp only [List.mem_append, List.mem_singleton, not_or, List.forall_mem_cons,
            List.append_assoc, List.singleton_append]
          constructor
          · rintro ⟨hvalid, hnodup, hfresh, rfl⟩
            refine ⟨hvalid, ⟨fun hmem => (hfresh _ hmem).2.2 rfl, hnodup⟩,
              ⟨⟨hblock, htx⟩, fun serial hmem => ?_⟩, rfl⟩
            obtain ⟨hserial, hserial', -⟩ := hfresh serial hmem
            exact ⟨hserial, hserial'⟩
          · rintro ⟨hvalid, ⟨hnew, hnodup⟩, ⟨-, hfresh⟩, rfl⟩
            refine ⟨hvalid, hnodup, fun serial hmem => ?_, rfl⟩
            obtain ⟨hserial, hserial'⟩ := hfresh serial hmem
            exact ⟨hserial, hserial', fun heq => hnew (heq ▸ hmem)⟩

/-- What is recorded stays recorded. -/
theorem subset_of_scanSerials {fDoubleSerial : Bool}
    (h : scanSerials env vBlockSerials vTxSerials vin = some (fDoubleSerial, vTxSerials')) :
    vTxSerials ⊆ vTxSerials' := by
  induction vin generalizing vTxSerials with
  | nil =>
    obtain ⟨-, rfl⟩ := Prod.mk.inj (Option.some.inj h)
    exact List.Subset.refl vTxSerials
  | cons txIn vin ih =>
    rw [scanSerials] at h
    split_ifs at h
    · obtain ⟨spend, -, hrest⟩ := Option.bind_eq_some_iff.mp h
      split_ifs at hrest
      · obtain ⟨-, rfl⟩ := Prod.mk.inj (Option.some.inj hrest)
        exact List.Subset.refl vTxSerials
      · exact List.Subset.trans (List.subset_append_left _ _) (ih hrest)
    · exact ih h

end

section
variable [Zero δ] [Add δ] {env : MinerEnv δ} {node : MinerNode δ} {nHeight : Int}
  {mapDependers : Uint256 → List Uint256} {st st' : CollectState δ} {e : TxPriority δ}
  {vTxSerials : List Int} {fDoubleSerial : Bool}

omit [Zero δ] [Add δ] in
/-- The double spend check passes exactly for a transaction whose own serials pass, and none of
whose serials was recorded before. -/
theorem doubleSpends_eq_false (recorded : Recorded env.toConsensusEnv st) :
    doubleSpends env node st.vBlockSerials st.vTxSerials e.tx = some (false, vTxSerials) ↔
    (∃ own, doubleSpends env node (zerocoinSerials env.toConsensusEnv st.vtx) [] e.tx =
      some (false, own)) ∧ ¬MeetsRecorded env.toConsensusEnv st e ∧
      vTxSerials = st.vTxSerials ++
        if e.tx.isZerocoinSpend then serialsOf env.toConsensusEnv e.tx.vin else [] := by
  unfold doubleSpends MeetsRecorded
  cases hspend : e.tx.isZerocoinSpend with
  | false => simp [eq_comm]
  | true =>
    simp only [if_true]
    by_cases hchain : (node.transactionHeight e.tx.hash).isSome = true
    · simp [hchain]
    · rw [if_neg hchain, if_neg hchain]
      simp only [scanSerials_eq_false]
      constructor
      · rintro ⟨hvalid, hnodup, hfresh, rfl⟩
        refine ⟨⟨_, hvalid, hnodup, ?_, rfl⟩, ?_, rfl⟩
        · intro serial hmem
          exact ⟨fun hin => (hfresh serial hmem).2 (recorded.block hin), by simp⟩
        · rintro ⟨-, serial, hmem, hin⟩
          exact (hfresh serial hmem).2 hin
      · rintro ⟨⟨own, hvalid, hnodup, -, -⟩, hnot, rfl⟩
        refine ⟨hvalid, hnodup, ?_, rfl⟩
        intro serial hmem
        have hfresh : serial ∉ st.vTxSerials := fun hin => hnot ⟨trivial, serial, hmem, hin⟩
        exact ⟨fun hin => hfresh (recorded.vBlockSerials hin), hfresh⟩

omit [Zero δ] [Add δ] in
theorem subset_of_doubleSpends {vBlockSerials vTxSerials' : List Int}
    (h : doubleSpends env node vBlockSerials vTxSerials e.tx = some (fDoubleSerial, vTxSerials')) :
    vTxSerials ⊆ vTxSerials' := by
  unfold doubleSpends at h
  split_ifs at h
  · obtain ⟨-, rfl⟩ := Prod.mk.inj (Option.some.inj h)
    exact List.Subset.refl vTxSerials
  · exact subset_of_scanSerials h
  · obtain ⟨-, rfl⟩ := Prod.mk.inj (Option.some.inj h)
    exact List.Subset.refl vTxSerials

/-- A round that adds nothing may change the order of the queue, and record serials. -/
structure Skips (st st' : CollectState δ) : Prop where
  vOrphan : st'.vOrphan = st.vOrphan
  view : st'.view = st.view
  nBlockSize : st'.nBlockSize = st.nBlockSize
  nBlockSigOps : st'.nBlockSigOps = st.nBlockSigOps
  nFees : st'.nFees = st.nFees
  vBlockSerials : st'.vBlockSerials = st.vBlockSerials
  vtx : st'.vtx = st.vtx
  vTxFees : st'.vTxFees = st.vTxFees
  vTxSigOps : st'.vTxSigOps = st.vTxSigOps
  perm : st'.vecPriority.Perm st.vecPriority
  isHeap : IsHeap (TxPriorityCompare st.fSortedByFee) st.vecPriority →
    IsHeap (TxPriorityCompare st'.fSortedByFee) st'.vecPriority
  serials : st.vTxSerials ⊆ st'.vTxSerials

omit [Zero δ] [Add δ] in
theorem Skips.refl (st : CollectState δ) : Skips st st :=
  ⟨rfl, rfl, rfl, rfl, rfl, rfl, rfl, rfl, rfl, List.Perm.refl _, id, List.Subset.refl _⟩

omit [Zero δ] [Add δ] in
theorem Skips.record (h : Skips st st') (hserials : st'.vTxSerials ⊆ vTxSerials) :
    Skips st { st' with vTxSerials := vTxSerials } :=
  { h with serials := List.Subset.trans h.serials hserials }

omit [Zero δ] [Add δ] in
/-- The comparison may change in the middle of the loop: the queue is a heap under the new one. -/
theorem sortByFee_spec : Skips st (sortByFee env node st e) ∧
    (sortByFee env node st e).vTxSerials = st.vTxSerials := by
  unfold sortByFee
  split_ifs
  · have hmake : IsHeap (TxPriorityCompare true) ((env.heap true).make st.vecPriority) :=
      (env.heap true).make_isHeap _
    exact ⟨{ Skips.refl st with perm := (env.heap true).make_perm _, isHeap := fun _ => hmake },
      rfl⟩
  · exact ⟨Skips.refl st, rfl⟩

/-- A transaction is placed exactly when it passes its own tests and meets no serial that was
recorded before. -/
theorem collectTx_spec (recorded : Recorded env.toConsensusEnv st)
    (h : collectTx env node nHeight mapDependers st e = some st') :
    (¬(PassesTests env node nHeight st e ∧ ¬MeetsRecorded env.toConsensusEnv st e) ∧
      Skips st st') ∨
    (PassesTests env node nHeight st e ∧ ¬MeetsRecorded env.toConsensusEnv st e ∧
      ∃ st₁ nTxFees txundo view, Skips st st₁ ∧
        st₁.vTxSerials = st.vTxSerials ++
          (if e.tx.isZerocoinSpend then serialsOf env.toConsensusEnv e.tx.vin else []) ∧
        updateCoins nHeight st.view e.tx = some (txundo, view) ∧
        addTx env mapDependers st₁ e.tx nTxFees view = some st') := by
  unfold collectTx at h
  by_cases hlimits : failsLimits env node st e = true
  · rw [if_pos hlimits] at h
    obtain rfl := Option.some.inj h
    refine Or.inl ⟨?_, Skips.refl st⟩
    rintro ⟨passes, -⟩
    exact Bool.false_ne_true (passes.limits.symm.trans hlimits)
  · rw [if_neg hlimits] at h
    rw [Bool.not_eq_true] at hlimits
    dsimp only at h
    obtain ⟨hskip, hserials⟩ := @sortByFee_spec _ _ env node st e
    generalize sortByFee env node st e = st₀ at h hskip hserials
    have hview := hskip.view
    by_cases hinputs : st₀.view.haveInputs e.tx = false
    · rw [if_pos hinputs] at h
      obtain rfl := Option.some.inj h
      refine Or.inl ⟨?_, hskip⟩
      rintro ⟨passes, -⟩
      rw [hview] at hinputs
      exact Bool.false_ne_true (hinputs.symm.trans passes.inputs)
    · rw [if_neg hinputs, Option.bind_eq_bind, Option.bind_eq_some_iff] at h
      obtain ⟨⟨fDoubleSerial, vTxSerials⟩, hdouble, h⟩ := h
      rw [hskip.vBlockSerials, hserials] at hdouble
      have hkept : st₀.vTxSerials ⊆ vTxSerials := hserials ▸ subset_of_doubleSpends hdouble
      cases fDoubleSerial with
      | true =>
        obtain rfl := Option.some.inj h
        refine Or.inl ⟨?_, hskip.record hkept⟩
        rintro ⟨passes, hmeets⟩
        have hpasses := (doubleSpends_eq_false recorded).mpr ⟨passes.serials, hmeets, rfl⟩
        rw [hdouble] at hpasses
        simp at hpasses
      | false =>
        obtain ⟨hown, hmeets, rfl⟩ := (doubleSpends_eq_false recorded).mp hdouble
        rw [if_neg Bool.false_ne_true, Option.bind_eq_bind, Option.bind_eq_some_iff] at h
        obtain ⟨nValueOut, -, h⟩ := h
        have hrecord := hskip.record hkept
        dsimp only at h
        by_cases hsigops : MAX_BLOCK_SIGOPS_CURRENT ≤
            st₀.nBlockSigOps + txSigOps env st₀.view e.tx
        · rw [if_pos hsigops] at h
          obtain rfl := Option.some.inj h
          refine Or.inl ⟨?_, hrecord⟩
          rintro ⟨passes, -⟩
          rw [hskip.nBlockSigOps, hview] at hsigops
          exact absurd passes.sigOps (not_lt.mpr hsigops)
        · rw [if_neg hsigops] at h
          by_cases hvalid : (checkMandatory env node nHeight st₀.view e.tx).isOk = false
          · rw [if_pos hvalid] at h
            obtain rfl := Option.some.inj h
            refine Or.inl ⟨?_, hrecord⟩
            rintro ⟨passes, -⟩
            rw [hview] at hvalid
            exact Bool.false_ne_true (hvalid.symm.trans passes.valid)
          · rw [if_neg hvalid, Option.bind_eq_bind, Option.bind_eq_some_iff] at h
            obtain ⟨⟨txundo, view⟩, hupdate, hadd⟩ := h
            rw [hview] at hinputs hsigops hvalid hupdate
            rw [hskip.nBlockSigOps] at hsigops
            refine Or.inr ⟨?_, hmeets, _, _, txundo, view, hrecord, rfl, hupdate, hadd⟩
            exact ⟨hlimits, by simpa using hinputs, hown, not_le.mp hsigops, by simpa using hvalid⟩

/-- What holds before and after every round; `seen` are the transactions taken off the queue so
far, in their order. -/
structure Collecting (env : MinerEnv δ) (node : MinerNode δ) (nHeight : Int)
    (mapDependers : Uint256 → List Uint256) (items : List (TxPriority δ)) (seen : List Uint256)
    (st : CollectState δ) : Prop where
  pending : Pending (fun e : TxPriority δ => e.tx.hash) (fun e => node.poolParents e.tx)
    mapDependers items seen (st.vtx.map CTransaction.hash) st.vecPriority st.vOrphan
  isHeap : IsHeap (TxPriorityCompare st.fSortedByFee) st.vecPriority
  ordered : Ordered CTransaction.hash node.poolParents st.vtx
  members : ∀ tx ∈ st.vtx, ∃ e ∈ items, e.tx = tx
  seen_mem : seen ⊆ items.map fun e => e.tx.hash
  placed_seen : st.vtx.map CTransaction.hash ⊆ seen
  distinct : (st.vtx.map CTransaction.hash).Nodup
  view : coinsAfter nHeight node.coins st.vtx = some st.view
  size : st.nBlockSize = 1000 + (st.vtx.map env.txSize).sum
  fits : st.vtx = [] ∨ st.nBlockSize < node.nBlockMaxSize
  sigOps : st.nBlockSigOps = 100 + sigOpsFrom env nHeight node.coins st.vtx
  few : st.nBlockSigOps < MAX_BLOCK_SIGOPS_CURRENT
  recorded : Recorded env.toConsensusEnv st

variable {items : List (TxPriority δ)} {seen : List Uint256} {st₁ st₂ : CollectState δ}

omit [Zero δ] [Add δ] in
theorem takeTop_eq_some (h : takeTop env st = some (e, st₁)) : ∃ rest,
    (env.heap st.fSortedByFee).takeFirst st.vecPriority = some (e, rest) ∧
      st₁ = { st with vecPriority := rest } := by
  obtain ⟨⟨e', rest⟩, htake, heq⟩ := Option.map_eq_some_iff.mp h
  obtain ⟨rfl, rfl⟩ := Prod.mk.inj heq
  exact ⟨rest, htake, rfl⟩

omit [Zero δ] [Add δ] in
theorem Collecting.skips (h : Collecting env node nHeight mapDependers items seen st)
    (hskip : Skips st st') : Collecting env node nHeight mapDependers items seen st' where
  pending := by
    rw [hskip.vtx, hskip.vOrphan]
    exact h.pending.perm hskip.perm
  isHeap := hskip.isHeap h.isHeap
  ordered := hskip.vtx ▸ h.ordered
  members := hskip.vtx ▸ h.members
  seen_mem := h.seen_mem
  placed_seen := hskip.vtx ▸ h.placed_seen
  distinct := hskip.vtx ▸ h.distinct
  view := by rw [hskip.vtx, hskip.view, h.view]
  size := by rw [hskip.nBlockSize, hskip.vtx, h.size]
  fits := by
    rw [hskip.nBlockSize, hskip.vtx]
    exact h.fits
  sigOps := by rw [hskip.nBlockSigOps, hskip.vtx, h.sigOps]
  few := hskip.nBlockSigOps ▸ h.few
  recorded := by
    constructor
    case block =>
      rw [hskip.vtx]
      exact List.Subset.trans h.recorded.block hskip.serials
    case vBlockSerials =>
      rw [hskip.vBlockSerials]
      exact List.Subset.trans h.recorded.vBlockSerials hskip.serials

omit [Zero δ] [Add δ] in
/-- What is taken off the queue is seen. -/
theorem Collecting.take (h : Collecting env node nHeight mapDependers items seen st)
    (htop : takeTop env st = some (e, st₁)) :
    Collecting env node nHeight mapDependers items (seen ++ [e.tx.hash]) st₁ := by
  obtain ⟨rest, htake, rfl⟩ := takeTop_eq_some htop
  obtain ⟨hperm, hheap⟩ := HeapFunctions.takeFirst_spec h.isHeap htake
  have hmem : e ∈ items := h.pending.ready_mem e (hperm.mem_iff.mpr List.mem_cons_self)
  have hrecorded : Recorded env.toConsensusEnv { st with vecPriority := rest } :=
    ⟨h.recorded.block, h.recorded.vBlockSerials⟩
  refine { h with
    pending := h.pending.skip hperm
    isHeap := hheap
    recorded := hrecorded
    seen_mem := ?_
    placed_seen := ?_ }
  · intro k hk
    rcases List.mem_append.mp hk with hold | hnew
    · exact h.seen_mem hold
    · rw [List.mem_singleton.mp hnew]
      exact List.mem_map_of_mem hmem
  · exact List.Subset.trans h.placed_seen (List.subset_append_left _ _)

theorem Collecting.place (h : Collecting env node nHeight mapDependers items seen st)
    (htop : takeTop env st = some (e, st₁)) (hskip : Skips st₁ st₂)
    (passes : PassesTests env node nHeight st₁ e)
    (hserials : st₂.vTxSerials = st₁.vTxSerials ++
      if e.tx.isZerocoinSpend then serialsOf env.toConsensusEnv e.tx.vin else [])
    {nTxFees : Int} {txundo : CTxUndo} {view : CoinsMap}
    (hupdate : updateCoins nHeight st₁.view e.tx = some (txundo, view))
    (hadd : addTx env mapDependers st₂ e.tx nTxFees view = some st') :
    Collecting env node nHeight mapDependers items (seen ++ [e.tx.hash]) st' ∧
      st'.vtx = st.vtx ++ [e.tx] := by
  have htaken := (h.take htop).skips hskip
  obtain ⟨rest, htake, rfl⟩ := takeTop_eq_some htop
  obtain ⟨hperm, -⟩ := HeapFunctions.takeFirst_spec h.isHeap htake
  have hmem : e ∈ items := h.pending.ready_mem e (hperm.mem_iff.mpr List.mem_cons_self)
  have hparents := h.pending.ready_placed e (hperm.mem_iff.mpr List.mem_cons_self)
  unfold addTx at hadd
  rw [Option.bind_eq_bind, Option.bind_eq_some_iff] at hadd
  obtain ⟨⟨vOrphan, freed⟩, hrelease, hadd⟩ := hadd
  obtain rfl := Option.some.inj hadd
  rw [hskip.vOrphan] at hrelease
  obtain ⟨hpush, hheap⟩ := @HeapFunctions.pushAll_spec _ _ _ (env.heap st₂.fSortedByFee)
    htaken.isHeap freed
  have hvtx : st₂.vtx = st.vtx := hskip.vtx
  have hview : coinsAfter nHeight node.coins st.vtx = some st₂.view := hvtx ▸ htaken.view
  refine ⟨?_, by rw [hvtx]⟩
  constructor
  case pending =>
    have hplace := h.pending.place (hperm.trans (hskip.perm.symm.cons e)) hrelease
    rw [hvtx, List.map_append]
    exact hplace.perm hpush
  case isHeap => exact hheap
  case ordered =>
    rw [hvtx]
    exact h.ordered.snoc hparents
  case members =>
    intro tx htx
    rcases List.mem_append.mp htx with hold | hnew
    · exact htaken.members tx hold
    · exact ⟨e, hmem, (List.mem_singleton.mp hnew).symm⟩
  case seen_mem => exact htaken.seen_mem
  case placed_seen =>
    rw [hvtx, List.map_append]
    exact List.append_subset.mpr ⟨List.Subset.trans h.placed_seen (List.subset_append_left _ _),
      List.subset_append_right _ _⟩
  case distinct =>
    rw [hvtx, List.map_append, List.map_singleton, List.nodup_append]
    refine ⟨h.distinct, List.nodup_singleton _, ?_⟩
    intro k hk k' hk' heq
    rw [List.mem_singleton.mp hk'] at heq
    exact (h.pending.key_notMem hperm).1 (heq ▸ h.placed_seen hk)
  case view =>
    rw [hvtx]
    exact coinsAfter_snoc h.view hupdate
  case size =>
    dsimp only
    rw [htaken.size, List.map_append, List.sum_append, add_assoc]
    simp
  case fits =>
    have hlimits := passes.limits
    simp only [failsLimits, Bool.or_eq_false_iff, decide_eq_false_iff_not, not_le] at hlimits
    right
    dsimp only
    rw [hskip.nBlockSize]
    exact hlimits.1.1
  case sigOps =>
    dsimp only
    rw [hvtx, sigOpsFrom_snoc hview, htaken.sigOps, hvtx, add_assoc]
  case few =>
    dsimp only
    rw [hskip.nBlockSigOps, hskip.view]
    exact passes.sigOps
  case recorded =>
    constructor
    case block =>
      dsimp only
      rw [zerocoinSerials_snoc, hserials, hvtx]
      exact List.append_subset.mpr ⟨List.Subset.trans h.recorded.block
        (List.subset_append_left _ _), List.subset_append_right _ _⟩
    case vBlockSerials =>
      exact List.append_subset.mpr ⟨htaken.recorded.vBlockSerials, List.Subset.refl _⟩

/-- One round: the transaction is placed after the others, or skipped. -/
theorem Collecting.step (h : Collecting env node nHeight mapDependers items seen st)
    (htop : takeTop env st = some (e, st₁))
    (hstep : collectTx env node nHeight mapDependers st₁ e = some st₂) :
    Collecting env node nHeight mapDependers items (seen ++ [e.tx.hash]) st₂ ∧
      (PassesTests env node nHeight st₁ e ∧ ¬MeetsRecorded env.toConsensusEnv st₁ e ∧
          st₂.vtx = st.vtx ++ [e.tx] ∨
        ¬(PassesTests env node nHeight st₁ e ∧ ¬MeetsRecorded env.toConsensusEnv st₁ e) ∧
          st₂.vtx = st.vtx) := by
  have htaken := h.take htop
  have hvtx : st₁.vtx = st.vtx := by
    obtain ⟨rest, -, rfl⟩ := takeTop_eq_some htop
    rfl
  rcases collectTx_spec htaken.recorded hstep with ⟨hnot, hskip⟩ |
    ⟨passes, hmeets, st₃, nTxFees, txundo, view, hskip, hserials, hupdate, hadd⟩
  · exact ⟨htaken.skips hskip, Or.inr ⟨hnot, hskip.vtx.trans hvtx⟩⟩
  · obtain ⟨hplaced, happend⟩ := h.place htop hskip passes hserials hupdate hadd
    exact ⟨hplaced, Or.inl ⟨passes, hmeets, happend⟩⟩

end
end Lytix
