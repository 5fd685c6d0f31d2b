import Lytix.Validation.Conservation
import Lytix.Validation.ScriptReads

/-! Which transactions are read within their scripts: those whose first script is not empty where it
is looked at, and whose spends and mints reach the offset of the parser wherever they are parsed. -/
namespace Lytix
open Checks Accesses

/-! What scripts keep the reads within bounds. -/

/-- The outputs are worth what they may be worth. -/
structure CTransaction.PaysWithin (tx : CTransaction) (vout : List CTxOut) : Prop where
  filled : ∀ txout ∈ vout, txout.isEmpty = true → tx.isCoinStake = true
  nonneg : ∀ txout ∈ vout, 0 ≤ txout.nValue
  total : (vout.map CTxOut.nValue).sum ≤ mainParams.nMaxMoneyOut

/-- No input refers again to what a plain input before it refers to. -/
def CTransaction.PlainOnce (tx : CTransaction) : Prop :=
  tx.vin.Pairwise fun txin other =>
    txin.scriptSig.isZerocoinSpend = false → other.prevout ≠ txin.prevout

/-- The spends of a transaction are parsed up to the one that comes after the inputs `before`. -/
structure CTransaction.ParsesSpend (tx : CTransaction) (before : List CTxIn) : Prop where
  spends : tx.isZerocoinSpend = true
  vout : tx.vout ≠ []
  pays : tx.PaysWithin tx.vout
  inputs : tx.PlainOnce
  scripts : ((before.filter fun txin => txin.scriptSig.isZerocoinSpend).map CTxIn.scriptSig).Nodup

/-- The mints of a transaction are parsed up to `txout`, which comes after the outputs `before`. -/
structure CTransaction.ParsesMint (tx : CTransaction) (before : List CTxOut) (txout : CTxOut) :
    Prop where
  vin : tx.vin ≠ []
  pays : tx.PaysWithin (before ++ [txout])
  denominated : ∀ out ∈ before, out.isZerocoinMint = true →
    CoinDenomination.ofAmount out.nValue ≠ .ZQ_ERROR

/-- The scripts that are parsed reach the offset from which they are parsed. -/
structure CTransaction.WellScripted (txSize : CTransaction → ℕ) (tx : CTransaction) : Prop where
  starts : ¬ tx.StartsEmpty
  spends : txSize tx ≤ MAX_ZEROCOIN_TX_SIZE → ∀ before txin after,
    tx.vin = before ++ txin :: after → txin.scriptSig.isZerocoinSpend = true →
      tx.ParsesSpend before → BIGNUM_SIZE ≤ txin.scriptSig.length
  mints : txSize tx ≤ MAX_ZEROCOIN_TX_SIZE → ∀ before txout after,
    tx.vout = before ++ txout :: after → txout.isZerocoinMint = true →
      tx.ParsesMint before txout → SCRIPT_OFFSET ≤ txout.scriptPubKey.length

section
variable {env : ConsensusEnv} {node : ConsensusNode} {block : CBlock} {tx : CTransaction}

theorem not_isCoinBase_of_mem_mints {txout : CTxOut} (hmem : txout ∈ tx.vout)
    (hmint : txout.isZerocoinMint = true) : tx.isCoinBase = false := by
  have hany : tx.isZerocoinMint = true := List.any_eq_true.mpr ⟨txout, hmem, hmint⟩
  refine not_isCoinBase_of_containsZerocoins ?_
  rw [CTransaction.containsZerocoins, hany, Bool.or_true]

theorem nMaxMoneyOut_eq : node.params.nMaxMoneyOut = mainParams.nMaxMoneyOut := by
  unfold ConsensusNode.params
  cases node.network <;> rfl


theorem Scripted.within_isZerocoinSpend (h : ¬ tx.StartsEmpty) :
    Within (Scripted.isZerocoinSpend tx) := by
  rw [Scripted.isZerocoinSpend_eq h]
  exact OnlyFails.ok

theorem Scripted.within_containsZerocoins (h : ¬ tx.StartsEmpty) :
    Within (Scripted.containsZerocoins tx) := by
  rw [Scripted.containsZerocoins_eq h]
  exact OnlyFails.ok

theorem Scripted.within_isCoinBase (h : ¬ tx.StartsEmpty) : Within (Scripted.isCoinBase tx) := by
  rw [Scripted.isCoinBase_eq h]
  exact OnlyFails.ok

end

/-! What a loop over the outputs or the inputs knows of those before. -/

section
variable {env : ConsensusEnv} {node : ConsensusNode} {tx : CTransaction} {fActive : Bool}
  {txout : CTxOut} {txin : CTxIn} {tally tally' : OutputTally} {vout : List CTxOut}

theorem Scripted.txOutToPublicCoin_eq_ok {coin : PublicCoin}
    (h : Scripted.txOutToPublicCoin env txout = .ok coin) :
    SCRIPT_OFFSET ≤ txout.scriptPubKey.length ∧
      CoinDenomination.ofAmount txout.nValue ≠ .ZQ_ERROR := by
  simp only [Scripted.txOutToPublicCoin, bind_eq_ok, checks_eq_ok] at h
  obtain ⟨_, hread, hcoin⟩ := h
  constructor
  · by_contra hshort
    rw [readFrom, if_neg hshort] at hread
    contradiction
  · intro herror
    simp [Lytix.txOutToPublicCoin, herror] at hcoin

theorem Scripted.txInToZerocoinSpend_eq_ok {spend : CoinSpend}
    (h : Scripted.txInToZerocoinSpend env txin = .ok spend) :
    BIGNUM_SIZE ≤ txin.scriptSig.length ∧ env.txInToZerocoinSpend txin = some spend := by
  simp only [Scripted.txInToZerocoinSpend, bind_eq_ok, checks_eq_ok, parseSpend,
    orStop_eq_ok] at h
  obtain ⟨_, hread, hspend⟩ := h
  refine ⟨?_, hspend⟩
  by_contra hshort
  rw [readFrom, if_neg hshort] at hread
  contradiction

theorem Scripted.within_txOutToPublicCoin (h : SCRIPT_OFFSET ≤ txout.scriptPubKey.length) :
    Within (Scripted.txOutToPublicCoin env txout) :=
  .bind (within_readFrom h) fun _ => within_checks

theorem Scripted.within_txInToZerocoinSpend (h : BIGNUM_SIZE ≤ txin.scriptSig.length) :
    Within (Scripted.txInToZerocoinSpend env txin) :=
  .bind (within_readFrom h) fun _ => within_checks

theorem Scripted.checkOutput_eq_ok (hstart : ¬ tx.StartsEmpty)
    (h : Scripted.checkOutput env node tx fActive tally txout = .ok tally') :
    ((txout.isEmpty = true → tx.isCoinBase = true ∨ tx.isCoinStake = true) ∧ 0 ≤ txout.nValue) ∧
      (tally'.nValueOut = tally.nValueOut + txout.nValue ∧
        tally'.nValueOut ≤ mainParams.nMaxMoneyOut) ∧
      (fActive = true → txout.isZerocoinMint = true →
        SCRIPT_OFFSET ≤ txout.scriptPubKey.length ∧
          CoinDenomination.ofAmount txout.nValue ≠ .ZQ_ERROR) := by
  unfold Scripted.checkOutput at h
  rw [Scripted.isCoinBase_eq hstart] at h
  simp only [bind_eq_ok, checks_eq_ok, stopIf_eq_ok, pure_eq_ok, checkWhen_eq_ok, Except.ok.injEq,
    nMaxMoneyOut_eq, MoneyRange] at h
  obtain ⟨_, hfilled, _, hnonneg, _, -, _, hrange, _, hmint, rfl⟩ := h
  refine ⟨⟨fun hempty => ?_, by omega⟩, ⟨rfl, ?_⟩, fun hactive hcoin => ?_⟩
  · obtain ⟨_, rfl, hkind⟩ := hfilled hempty
    simpa [or_iff_not_imp_left] using hkind
  · dsimp only
    omega
  · have hminted := hmint ⟨hactive, hcoin⟩
    simp only [Scripted.checkZerocoinMint, bind_eq_ok] at hminted
    obtain ⟨coin, hparse, -⟩ := hminted
    exact Scripted.txOutToPublicCoin_eq_ok hparse

/-- The value of the outputs, which is checked after each of them. -/
theorem Scripted.foldlM_checkOutput (hstart : ¬ tx.StartsEmpty)
    (h : vout.foldlM (Scripted.checkOutput env node tx fActive) tally = .ok tally')
    (hmax : tally.nValueOut ≤ mainParams.nMaxMoneyOut) :
    tally'.nValueOut = tally.nValueOut + (vout.map CTxOut.nValue).sum ∧
      tally'.nValueOut ≤ mainParams.nMaxMoneyOut := by
  induction vout generalizing tally with
  | nil =>
    rw [List.foldlM_nil, pure_eq_ok] at h
    subst h
    exact ⟨by simp, hmax⟩
  | cons txout vout ih =>
    rw [List.foldlM_cons, bind_eq_ok] at h
    obtain ⟨mid, hstep, hrest⟩ := h
    obtain ⟨-, ⟨hvalue, hmid⟩, -⟩ := Scripted.checkOutput_eq_ok hstart hstep
    obtain ⟨hsum, hend⟩ := ih hrest hmid
    refine ⟨?_, hend⟩
    rw [hsum, hvalue, List.map_cons, List.sum_cons]
    omega

theorem Scripted.paysWithin_of_ok (hstart : ¬ tx.StartsEmpty) (hcoin : tx.isCoinBase = false)
    (h : vout.foldlM (Scripted.checkOutput env node tx fActive) {} = .ok tally) :
    tx.PaysWithin vout := by
  have hround := fun txout (hmem : txout ∈ vout) => foldlM_mem h hmem
  obtain ⟨hsum, hmax⟩ := Scripted.foldlM_checkOutput hstart h (by decide)
  constructor
  case filled =>
    intro txout hmem hempty
    obtain ⟨s, s', hstep⟩ := hround txout hmem
    have hkind := (Scripted.checkOutput_eq_ok hstart hstep).1.1 hempty
    simpa [hcoin] using hkind
  case nonneg =>
    intro txout hmem
    obtain ⟨s, s', hstep⟩ := hround txout hmem
    exact (Scripted.checkOutput_eq_ok hstart hstep).1.2
  case total =>
    have hzero : ({} : OutputTally).nValueOut = 0 := rfl
    omega

/-- The spends that a loop has parsed have different scripts, since it takes no serial twice. -/
theorem scripts_nodup {σ : Type} {serials : σ → List Int} {parse : Script → Option CoinSpend}
    {step : σ → CTxIn → Access Reject σ} {vin : List CTxIn} {s s' : σ}
    (hskip : ∀ s txin s', step s txin = .ok s' → txin.scriptSig.isZerocoinSpend = false →
      serials s' = serials s)
    (hspend : ∀ s txin s', step s txin = .ok s' → txin.scriptSig.isZerocoinSpend = true →
      ∃ spend, parse txin.scriptSig = some spend ∧ spend.coinSerialNumber ∉ serials s ∧
        serials s' = spend.coinSerialNumber :: serials s)
    (h : vin.foldlM step s = .ok s') :
    ((vin.filter fun txin => txin.scriptSig.isZerocoinSpend).map CTxIn.scriptSig).Nodup ∧
      ∀ txin ∈ vin, txin.scriptSig.isZerocoinSpend = true → ∀ spend,
        parse txin.scriptSig = some spend → spend.coinSerialNumber ∉ serials s := by
  induction vin generalizing s with
  | nil => simp
  | cons txin vin ih =>
    rw [List.foldlM_cons, bind_eq_ok] at h
    obtain ⟨mid, hstep, hrest⟩ := h
    obtain ⟨hnodup, hfresh⟩ := ih hrest
    cases hkind : txin.scriptSig.isZerocoinSpend with
    | false =>
      have hsame := hskip s txin mid hstep hkind
      rw [hsame] at hfresh
      refine ⟨by rw [List.filter_cons_of_neg (by simp [hkind])]; exact hnodup, ?_⟩
      intro other hmem hother
      rcases List.mem_cons.mp hmem with rfl | hmem
      · simp [hkind] at hother
      · exact hfresh other hmem hother
    | true =>
      obtain ⟨spend, hparse, hnew, hserials⟩ := hspend s txin mid hstep hkind
      rw [hserials] at hfresh
      refine ⟨?_, ?_⟩
      · rw [List.filter_cons_of_pos (by simp [hkind]), List.map_cons, List.nodup_cons]
        refine ⟨fun hmem => ?_, hnodup⟩
        obtain ⟨other, hother, hscript⟩ := List.mem_map.mp hmem
        obtain ⟨hin, hotherkind⟩ := List.mem_filter.mp hother
        have habsent := hfresh other hin hotherkind spend (by rw [hscript, hparse])
        exact habsent List.mem_cons_self
      · intro other hmem hother other' hparsed
        rcases List.mem_cons.mp hmem with rfl | hmem
        · have hsame : other' = spend := Option.some.inj (hparsed.symm.trans hparse)
          rw [hsame]
          exact hnew
        · exact fun hin => hfresh other hmem hother other' hparsed (List.mem_cons_of_mem _ hin)

end

/-! `CheckTransaction` reads within the scripts of a transaction that is well scripted. -/

/-- A spend is parsed from its script alone. -/
def ConsensusEnv.ParsesScript (env : ConsensusEnv) : Prop :=
  ∃ parse : Script → Option CoinSpend, ∀ txin, env.txInToZerocoinSpend txin = parse txin.scriptSig

section
variable {env : ConsensusEnv} {node : ConsensusNode} {tx : CTransaction} {fActive : Bool}

theorem Scripted.within_checkOutput {before after : List CTxOut} {txout : CTxOut}
    {tally : OutputTally} (hw : tx.WellScripted env.txSize)
    (hsize : env.txSize tx ≤ MAX_ZEROCOIN_TX_SIZE) (hvin : tx.vin ≠ [])
    (hvout : tx.vout = before ++ txout :: after)
    (hrun : before.foldlM (Scripted.checkOutput env node tx fActive) {} = .ok tally) :
    Within (Scripted.checkOutput env node tx fActive tally txout) := by
  unfold Scripted.checkOutput
  refine OnlyFails.bind (OnlyFails.checkWhen ?_) fun _ => ?_
  · exact (Scripted.within_isCoinBase hw.starts).bind fun _ => within_checks
  refine OnlyFails.bind_of_ok within_checks fun _ hnonneg => within_checks.bind fun _ =>
    OnlyFails.bind_of_ok within_checks fun _ hrange => ?_
  simp only [checks_eq_ok, stopIf_eq_ok, not_not, MoneyRange, nMaxMoneyOut_eq] at hnonneg hrange
  refine OnlyFails.bind ?_ fun _ => OnlyFails.pure
  refine Meets.ite (fun hmint => ?_) fun _ => OnlyFails.ok
  have hmem : txout ∈ tx.vout := by
    rw [hvout]
    exact List.mem_append_right before List.mem_cons_self
  have hcoin := not_isCoinBase_of_mem_mints hmem hmint.2
  have hbefore := Scripted.paysWithin_of_ok hw.starts hcoin hrun
  obtain ⟨hsum, -⟩ := Scripted.foldlM_checkOutput hw.starts hrun (by decide)
  have hzero : ({} : OutputTally).nValueOut = 0 := rfl
  have hlong : SCRIPT_OFFSET ≤ txout.scriptPubKey.length := by
    refine hw.mints hsize before txout after hvout hmint.2 ⟨hvin, ⟨?_, ?_, ?_⟩, ?_⟩
    · intro out hout hempty
      rcases List.mem_append.mp hout with hout | hout
      · exact hbefore.filled out hout hempty
      · obtain rfl := List.mem_singleton.mp hout
        have hscript : out.scriptPubKey = [] := by simp_all [CTxOut.isEmpty]
        have hnone : out.isZerocoinMint = false := by
          rw [CTxOut.isZerocoinMint, hscript]
          rfl
        simp [hnone] at hmint
    · intro out hout
      rcases List.mem_append.mp hout with hout | hout
      · exact hbefore.nonneg out hout
      · obtain rfl := List.mem_singleton.mp hout
        omega
    · rw [List.map_append, List.sum_append, List.map_singleton, List.sum_singleton]
      omega
    · intro out hout hother
      obtain ⟨s, s', hstep⟩ := foldlM_mem hrun hout
      exact ((Scripted.checkOutput_eq_ok hw.starts hstep).2.2 hmint.1 hother).2
  exact (Scripted.within_txOutToPublicCoin hlong).bind fun _ => within_checks

theorem Scripted.checkSpendInput_eq_ok {fVerifySignature : Bool} {hashTxOut : Uint256}
    {tally tally' : SpendTally} {txin : CTxIn}
    (hspend : txin.scriptSig.isZerocoinSpend = true)
    (h : Scripted.checkSpendInput env node fVerifySignature hashTxOut tally txin = .ok tally') :
    BIGNUM_SIZE ≤ txin.scriptSig.length ∧
      ∃ spend, env.txInToZerocoinSpend txin = some spend ∧
        spend.coinSerialNumber ∉ tally.serials ∧
        tally'.serials = spend.coinSerialNumber :: tally.serials := by
  unfold Scripted.checkSpendInput at h
  rw [if_neg (by simp [hspend])] at h
  simp only [bind_eq_ok, checks_eq_ok] at h
  obtain ⟨spend, hparse, h⟩ := h
  obtain ⟨hlong, hspent⟩ := Scripted.txInToZerocoinSpend_eq_ok hparse
  refine ⟨hlong, spend, hspent, ?_⟩
  unfold Lytix.checkSpendInput at h
  rw [if_neg (by simp [hspend])] at h
  simp only [parseSpend, hspent, bind_eq_ok, orStop_eq_ok, stopIf_eq_ok, pure_eq_ok,
    Option.some.injEq, exists_eq_left'] at h
  obtain ⟨_, -, _, -, _, -, _, -, _, hfresh, rfl⟩ := h
  exact ⟨hfresh, rfl⟩

theorem Scripted.checkSpendInput_of_plain {fVerifySignature : Bool} {hashTxOut : Uint256}
    {tally : SpendTally} {txin : CTxIn} (hplain : txin.scriptSig.isZerocoinSpend = false) :
    Scripted.checkSpendInput env node fVerifySignature hashTxOut tally txin = .ok tally := by
  unfold Scripted.checkSpendInput
  rw [if_pos hplain]
  rfl

/-- The inputs before a spend that the loop has come to. -/
theorem Scripted.spendScripts_nodup {fVerifySignature : Bool} {hashTxOut : Uint256}
    {before : List CTxIn} {tally : SpendTally} (hparse : env.ParsesScript)
    (h : before.foldlM (Scripted.checkSpendInput env node fVerifySignature hashTxOut) {} =
      .ok tally) :
    ((before.filter fun txin => txin.scriptSig.isZerocoinSpend).map CTxIn.scriptSig).Nodup := by
  obtain ⟨parse, hparse⟩ := hparse
  refine (@scripts_nodup SpendTally SpendTally.serials parse _ _ _ _ ?_ ?_ h).1
  · intro s txin s' hstep hplain
    rw [Scripted.checkSpendInput_of_plain hplain] at hstep
    rw [Except.ok.inj hstep]
  · intro s txin s' hstep hspend
    obtain ⟨-, spend, hspent, hrest⟩ := Scripted.checkSpendInput_eq_ok hspend hstep
    exact ⟨spend, by rw [← hparse, hspent], hrest⟩

theorem Scripted.within_checkZerocoinSpend {fVerifySignature : Bool} (hparse : env.ParsesScript)
    (hlong : ∀ before txin after, tx.vin = before ++ txin :: after →
      txin.scriptSig.isZerocoinSpend = true →
      ((before.filter fun txin => txin.scriptSig.isZerocoinSpend).map CTxIn.scriptSig).Nodup →
      BIGNUM_SIZE ≤ txin.scriptSig.length) :
    Within (Scripted.checkZerocoinSpend env node tx fVerifySignature) := by
  unfold Scripted.checkZerocoinSpend
  refine within_checks.bind fun _ => OnlyFails.bind ?_ fun tally =>
    within_checks.bind fun _ => within_checks
  refine OnlyFails.foldlM_before fun before txin after tally hvin hrun => ?_
  unfold Scripted.checkSpendInput
  refine Meets.ite (fun _ => OnlyFails.pure) fun hspend => ?_
  rw [Bool.not_eq_false] at hspend
  have hnodup := Scripted.spendScripts_nodup hparse hrun
  exact (Scripted.within_txInToZerocoinSpend (hlong before txin after hvin hspend hnodup)).bind
    fun _ => within_checks

/-- Without plain inputs no plain input is spent twice. -/
theorem plainOnce_of_spends (h : ∀ txin ∈ tx.vin, txin.scriptSig.isZerocoinSpend = true) :
    tx.PlainOnce := by
  refine List.pairwise_of_forall_mem_list fun txin hmem other _ hplain => ?_
  rw [h txin hmem] at hplain
  contradiction

theorem Scripted.within_checkInputKind (hstart : ¬ tx.StartsEmpty) :
    Within (Scripted.checkInputKind node tx fActive) := by
  unfold Scripted.checkInputKind
  refine (Scripted.within_isCoinBase hstart).bind fun _ => OnlyFails.bind ?_ fun _ => within_checks
  exact OnlyFails.ite OnlyFails.pure (Scripted.within_isZerocoinSpend hstart)

theorem Scripted.within_checkTransaction (hparse : env.ParsesScript)
    (hw : tx.WellScripted env.txSize) :
    Within (Scripted.checkTransaction env node tx fActive) := by
  unfold Scripted.checkTransaction
  refine OnlyFails.bind_of_ok within_checks fun _ hvin =>
    OnlyFails.bind_of_ok within_checks fun _ hvout =>
    OnlyFails.bind_of_ok within_checks fun _ hsize => ?_
  simp only [checks_eq_ok, stopIf_eq_ok, not_lt] at hvin hvout hsize
  refine OnlyFails.bind_of_ok ?_ fun tally htally => ?_
  · exact OnlyFails.foldlM_before fun before txout after tally hsplit hrun =>
      Scripted.within_checkOutput hw hsize hvin hsplit hrun
  refine OnlyFails.bind (OnlyFails.checkWhen ?_) fun _ => within_checks.bind fun _ =>
    Scripted.within_checkInputKind hw.starts
  unfold Scripted.checkActiveSpend
  rw [Scripted.isZerocoinSpend_eq hw.starts]
  refine within_checks.bind fun _ => Meets.ite (fun hspends => ?_) fun _ => OnlyFails.ok
  refine OnlyFails.bind_of_ok within_checks fun _ hall => ?_
  simp only [checks_eq_ok, stopIf_eq_ok, not_exists, not_and, Bool.not_eq_false] at hall
  refine Scripted.within_checkZerocoinSpend hparse fun before txin after hsplit hspend hnodup => ?_
  have hcoin : tx.isCoinBase = false := by
    refine not_isCoinBase_of_containsZerocoins ?_
    rw [CTransaction.containsZerocoins, hspends, Bool.true_or]
  exact hw.spends hsize before txin after hsplit hspend
    ⟨hspends, hvout, Scripted.paysWithin_of_ok hw.starts hcoin htally,
      plainOnce_of_spends hall, hnodup⟩

end

/-! What is known of a transaction once it has passed. -/

/-- What the checks leave to those that come after them. -/
structure CTransaction.Parsed (txSize : CTransaction → ℕ) (tx : CTransaction) : Prop where
  vin : tx.vin ≠ []
  size : txSize tx ≤ MAX_ZEROCOIN_TX_SIZE
  pays : tx.isCoinBase = false → tx.PaysWithin tx.vout
  spends : tx.isZerocoinSpend = true → ∀ txin ∈ tx.vin, txin.scriptSig.isZerocoinSpend = true →
    BIGNUM_SIZE ≤ txin.scriptSig.length

section
variable {env : ConsensusEnv} {node : ConsensusNode} {block : CBlock} {tx : CTransaction}
  {fActive : Bool}

theorem checkDuplicateInputs_eq_ok {vInOutPoints : List COutPoint} {vin : List CTxIn} :
    checkDuplicateInputs vInOutPoints vin = .ok () ↔
      (vin.Pairwise fun txin other =>
        txin.scriptSig.isZerocoinSpend = false → other.prevout ≠ txin.prevout) ∧
      ∀ txin ∈ vin, txin.prevout ∉ vInOutPoints := by
  induction vin generalizing vInOutPoints with
  | nil => simp [checkDuplicateInputs]
  | cons txin vin ih =>
    simp only [checkDuplicateInputs, bind_eq_ok, stopIf_eq_ok, ih, List.pairwise_cons,
      List.forall_mem_cons]
    cases hkind : txin.scriptSig.isZerocoinSpend with
    | true =>
      simp only [if_true, reduceCtorEq, false_implies, implies_true, true_and]
      constructor
      · rintro ⟨_, hnew, hrest, hfresh⟩
        exact ⟨hrest, hnew, hfresh⟩
      · rintro ⟨hrest, hnew, hfresh⟩
        exact ⟨(), hnew, hrest, hfresh⟩
    | false =>
      simp only [Bool.false_eq_true, if_false, List.mem_cons, not_or, forall_true_left]
      constructor
      · rintro ⟨_, hnew, hrest, hfresh⟩
        exact ⟨⟨fun other hmem => (hfresh other hmem).1, hrest⟩, hnew,
          fun other hmem => (hfresh other hmem).2⟩
      · rintro ⟨⟨hother, hrest⟩, hnew, hfresh⟩
        exact ⟨(), hnew, hrest, fun other hmem => ⟨hother other hmem, hfresh other hmem⟩⟩

/-- What passing `CheckTransaction` says of the transaction, apart from its spends. -/
theorem Scripted.checkTransaction_eq_ok (hstart : ¬ tx.StartsEmpty)
    (h : Scripted.checkTransaction env node tx fActive = .ok ()) :
    (tx.vin ≠ [] ∧ tx.vout ≠ [] ∧ env.txSize tx ≤ MAX_ZEROCOIN_TX_SIZE) ∧
      (tx.isCoinBase = false → tx.PaysWithin tx.vout) ∧
      tx.PlainOnce ∧
      (fActive = true → tx.isZerocoinSpend = true → ∀ txin ∈ tx.vin,
        txin.scriptSig.isZerocoinSpend = true → BIGNUM_SIZE ≤ txin.scriptSig.length) ∧
      (fActive = true → ∀ txout ∈ tx.vout, txout.isZerocoinMint = true →
        SCRIPT_OFFSET ≤ txout.scriptPubKey.length) := by
  simp only [Scripted.checkTransaction, bind_eq_ok, checks_eq_ok, stopIf_eq_ok, checkWhen_eq_ok,
    not_lt] at h
  obtain ⟨_, hvin, _, hvout, _, hsize, tally, hloop, _, hactive, _, hdup, -⟩ := h
  refine ⟨⟨hvin, hvout, hsize⟩, fun hcoin => Scripted.paysWithin_of_ok hstart hcoin hloop,
    (checkDuplicateInputs_eq_ok.mp hdup).1, fun hon hspends txin hmem hspend => ?_,
    fun hon txout hmem hmint => ?_⟩
  · have hchecked := hactive hon
    simp only [Scripted.checkActiveSpend, Scripted.isZerocoinSpend_eq hstart, bind_eq_ok,
      checks_eq_ok, checkWhen_eq_ok, Except.ok.injEq, exists_eq_left'] at hchecked
    obtain ⟨_, -, hchecked⟩ := hchecked
    obtain ⟨_, -, hchecked⟩ := hchecked hspends
    simp only [Scripted.checkZerocoinSpend, bind_eq_ok] at hchecked
    obtain ⟨_, -, _, hrun, -⟩ := hchecked
    obtain ⟨s, s', hstep⟩ := foldlM_mem hrun hmem
    exact (Scripted.checkSpendInput_eq_ok hspend hstep).1
  · obtain ⟨s, s', hstep⟩ := foldlM_mem hloop hmem
    exact ((Scripted.checkOutput_eq_ok hstart hstep).2.2 hon hmint).1

theorem Scripted.checkSerial_eq_ok {reason : String} {serials serials' : List Int} {txin : CTxIn}
    (hspend : txin.scriptSig.isZerocoinSpend = true)
    (h : Scripted.checkSerial env reason serials txin = .ok serials') :
    BIGNUM_SIZE ≤ txin.scriptSig.length ∧
      ∃ spend, env.txInToZerocoinSpend txin = some spend ∧
        spend.coinSerialNumber ∉ serials ∧ serials' = spend.coinSerialNumber :: serials := by
  unfold Scripted.checkSerial at h
  rw [if_neg (by simp [hspend])] at h
  simp only [bind_eq_ok, checks_eq_ok] at h
  obtain ⟨spend, hparse, h⟩ := h
  obtain ⟨hlong, hspent⟩ := Scripted.txInToZerocoinSpend_eq_ok hparse
  refine ⟨hlong, spend, hspent, ?_⟩
  unfold Lytix.checkSerial at h
  rw [if_neg (by simp [hspend])] at h
  simp only [parseSpend, hspent, bind_eq_ok, orStop_eq_ok, stopIf_eq_ok, pure_eq_ok,
    Option.some.injEq, exists_eq_left'] at h
  obtain ⟨_, hfresh, rfl⟩ := h
  exact ⟨hfresh, rfl⟩

theorem Scripted.checkSerial_of_plain {reason : String} {serials : List Int} {txin : CTxIn}
    (hplain : txin.scriptSig.isZerocoinSpend = false) :
    Scripted.checkSerial env reason serials txin = .ok serials := by
  unfold Scripted.checkSerial
  rw [if_pos hplain]
  rfl

theorem Scripted.serialScripts_nodup {reason : String} {before : List CTxIn}
    {serials serials' : List Int} (hparse : env.ParsesScript)
    (h : before.foldlM (Scripted.checkSerial env reason) serials = .ok serials') :
    ((before.filter fun txin => txin.scriptSig.isZerocoinSpend).map CTxIn.scriptSig).Nodup := by
  obtain ⟨parse, hparse⟩ := hparse
  refine (@scripts_nodup (List Int) id parse _ _ _ _ ?_ ?_ h).1
  · intro s txin s' hstep hplain
    rw [Scripted.checkSerial_of_plain hplain] at hstep
    rw [Except.ok.inj hstep]
  · intro s txin s' hstep hspend
    obtain ⟨-, spend, hspent, hrest⟩ := Scripted.checkSerial_eq_ok hspend hstep
    exact ⟨spend, by rw [← hparse, hspent], hrest⟩

theorem Scripted.within_checkBlockTransaction {serials : List Int} (hparse : env.ParsesScript)
    (hw : tx.WellScripted env.txSize) :
    Within (Scripted.checkBlockTransaction env node block serials tx) := by
  unfold Scripted.checkBlockTransaction
  refine OnlyFails.bind_of_ok (Scripted.within_checkTransaction hparse hw) fun _ hpassed => ?_
  obtain ⟨⟨-, hvout, hsize⟩, hpays, hplain, -, -⟩ :=
    Scripted.checkTransaction_eq_ok hw.starts hpassed
  rw [Scripted.isZerocoinSpend_eq hw.starts]
  refine Meets.ite (fun hspends => ?_) fun _ => OnlyFails.pure
  refine OnlyFails.foldlM_before fun before txin after serials' hvin hrun => ?_
  unfold Scripted.checkSerial
  refine Meets.ite (fun _ => OnlyFails.pure) fun hspend => ?_
  rw [Bool.not_eq_false] at hspend
  have hcoin : tx.isCoinBase = false := by
    refine not_isCoinBase_of_containsZerocoins ?_
    rw [CTransaction.containsZerocoins, hspends, Bool.true_or]
  have hlong := hw.spends hsize before txin after hvin hspend
    ⟨hspends, hvout, hpays hcoin, hplain, Scripted.serialScripts_nodup hparse hrun⟩
  exact (Scripted.within_txInToZerocoinSpend hlong).bind fun _ => within_checks

theorem Scripted.parsed_of_checkBlockTransaction {serials serials' : List Int}
    (hstart : ¬ tx.StartsEmpty)
    (h : Scripted.checkBlockTransaction env node block serials tx = .ok serials') :
    tx.Parsed env.txSize := by
  simp only [Scripted.checkBlockTransaction, bind_eq_ok, Scripted.isZerocoinSpend_eq hstart,
    Except.ok.injEq, exists_eq_left'] at h
  obtain ⟨_, hpassed, hscan⟩ := h
  obtain ⟨⟨hvin, -, hsize⟩, hpays, -⟩ := Scripted.checkTransaction_eq_ok hstart hpassed
  refine ⟨hvin, hsize, hpays, fun hspends txin hmem hspend => ?_⟩
  rw [if_pos hspends] at hscan
  obtain ⟨s, s', hstep⟩ := foldlM_mem hscan hmem
  exact (Scripted.checkSerial_eq_ok hspend hstep).1

end

/-! So do the others, one transaction after the other. -/

section
variable {env : ConsensusEnv} {node : ConsensusNode} {block : CBlock} {tx : CTransaction}

theorem Scripted.within_checkCoinTransactions (hstart : ∀ tx ∈ block.vtx, ¬ tx.StartsEmpty) :
    Within (Scripted.checkCoinTransactions block) := by
  unfold Scripted.checkCoinTransactions
  cases hvtx : block.vtx with
  | nil => exact OnlyFails.error (by simp)
  | cons coinBase rest =>
    rw [hvtx] at hstart
    refine (Scripted.within_isCoinBase (hstart coinBase List.mem_cons_self)).bind fun _ =>
      within_checks.bind fun _ => OnlyFails.bind ?_ fun _ => within_checks
    refine OnlyFails.forM_mem fun tx hmem => ?_
    exact (Scripted.within_isCoinBase (hstart tx (List.mem_cons_of_mem coinBase hmem))).bind
      fun _ => within_checks

theorem Scripted.within_isPayeeValid {env : PayeeEnv} {budget : CBudgetManager}
    {nBlockHeight : Int} (hstart : ¬ tx.StartsEmpty) :
    Within (Scripted.isPayeeValid env budget tx nBlockHeight) := by
  have hpayments : Within (Scripted.isMasternodePayeeValid env tx nBlockHeight) :=
    OnlyFails.bind (OnlyFails.ite (Scripted.within_isZerocoinSpend hstart) OnlyFails.pure)
      fun _ => OnlyFails.pure
  unfold Scripted.isPayeeValid
  refine OnlyFails.ite OnlyFails.pure (OnlyFails.ite ?_ hpayments)
  exact OnlyFails.ite OnlyFails.pure (OnlyFails.ite OnlyFails.pure hpayments)

theorem payingTransaction_mem {env : PayeeEnv} {nBlockHeight : Int}
    (h : payingTransaction env block nBlockHeight = some tx) : tx ∈ block.vtx := by
  unfold payingTransaction at h
  split_ifs at h
  · exact List.mem_of_getElem? h
  · exact List.mem_of_getElem? h

theorem Scripted.within_checkPayee (hstart : ∀ tx ∈ block.vtx, ¬ tx.StartsEmpty) :
    Within (Scripted.checkPayee node block) := by
  unfold Scripted.checkPayee
  cases node.view.tip with
  | none => exact OnlyFails.pure
  | some tip =>
    refine OnlyFails.ite (OnlyFails.bind ?_ fun _ => within_checks) OnlyFails.pure
    refine OnlyFails.ite OnlyFails.pure (OnlyFails.bind_of_ok within_checks fun txNew hpays => ?_)
    rw [checks_eq_ok, orStop_eq_ok] at hpays
    exact Scripted.within_isPayeeValid (hstart txNew (payingTransaction_mem hpays))

theorem Scripted.within_checkBlock {fCheckPOW fCheckMerkleRoot : Bool}
    (hparse : env.ParsesScript) (hw : ∀ tx ∈ block.vtx, tx.WellScripted env.txSize) :
    Within (Scripted.checkBlock env node block fCheckPOW fCheckMerkleRoot) := by
  have hstart := fun tx hmem => (hw tx hmem).starts
  unfold Scripted.checkBlock
  refine OnlyFails.ite OnlyFails.pure ?_
  refine within_checks.bind fun _ => within_checks.bind fun _ => within_checks.bind fun _ =>
    within_checks.bind fun _ => (Scripted.within_checkCoinTransactions hstart).bind fun _ =>
    within_checks.bind fun _ => (Scripted.within_checkPayee hstart).bind fun _ =>
    OnlyFails.bind ?_ fun _ => within_checks
  exact OnlyFails.foldlM_mem fun serials tx hmem =>
    Scripted.within_checkBlockTransaction hparse (hw tx hmem)

theorem Scripted.parsed_of_checkBlock {fCheckPOW fCheckMerkleRoot : Bool}
    (hgenesis : block.hash ≠ node.params.hashGenesisBlock)
    (hstart : ∀ tx ∈ block.vtx, ¬ tx.StartsEmpty)
    (h : Scripted.checkBlock env node block fCheckPOW fCheckMerkleRoot = .ok ()) :
    ∀ tx ∈ block.vtx, tx.Parsed env.txSize := by
  unfold Scripted.checkBlock at h
  rw [if_neg hgenesis] at h
  simp only [bind_eq_ok] at h
  obtain ⟨_, -, _, -, _, -, _, -, _, -, _, -, _, -, serials, hloop, -⟩ := h
  intro tx hmem
  obtain ⟨s, s', hstep⟩ := foldlM_mem hloop hmem
  exact Scripted.parsed_of_checkBlockTransaction (hstart tx hmem) hstep

/-- `ProcessNewBlock` looks at the transactions of a rejected block too. -/
theorem Scripted.within_processNewBlock {rest : Bool → Validation Unit}
    (hparse : env.ParsesScript) (hw : ∀ tx ∈ block.vtx, tx.WellScripted env.txSize) :
    Within (Scripted.processNewBlock env node block rest) := by
  have hcheck := @Scripted.within_checkBlock env node block true true hparse hw
  unfold Scripted.processNewBlock
  refine OnlyFails.bind ?_ fun checked => OnlyFails.bind ?_ fun _ => within_checks
  · cases hblock : Scripted.checkBlock env node block true true with
    | ok _ => exact OnlyFails.pure
    | error e =>
      cases e with
      | none => exact absurd hblock (within_iff.mp hcheck)
      | some reject => exact OnlyFails.pure
  · exact OnlyFails.forM_mem fun tx hmem =>
      (Scripted.within_containsZerocoins (hw tx hmem).starts).bind fun _ => OnlyFails.pure

/-! `ConnectBlock`, after `CheckBlock`. -/

theorem CTransaction.PaysWithin.of_append {before after : List CTxOut}
    (h : tx.PaysWithin (before ++ after)) : tx.PaysWithin before := by
  constructor
  case filled => exact fun txout hmem => h.filled txout (List.mem_append_left after hmem)
  case nonneg => exact fun txout hmem => h.nonneg txout (List.mem_append_left after hmem)
  case total =>
    have htotal := h.total
    have hafter : 0 ≤ (after.map CTxOut.nValue).sum := by
      refine List.sum_nonneg fun value hvalue => ?_
      obtain ⟨txout, hmem, rfl⟩ := List.mem_map.mp hvalue
      exact h.nonneg txout (List.mem_append_right before hmem)
    rw [List.map_append, List.sum_append] at htotal
    omega

theorem Scripted.within_connectMints {nHeight : Int} {st : ConnectState}
    (hw : tx.WellScripted env.txSize) (hparsed : tx.Parsed env.txSize) :
    Within (tx.vout.foldlM (Scripted.connectMintOutput env node tx nHeight) st) := by
  refine OnlyFails.foldlM_before fun before txout after st' hvout hrun => ?_
  unfold Scripted.connectMintOutput
  refine Meets.ite (fun _ => OnlyFails.pure) fun hmint => ?_
  rw [Bool.not_eq_false] at hmint
  have hmem : txout ∈ tx.vout := by
    rw [hvout]
    exact List.mem_append_right before List.mem_cons_self
  have hpays := hparsed.pays (not_isCoinBase_of_mem_mints hmem hmint)
  have hsplit : tx.vout = (before ++ [txout]) ++ after := by rw [hvout, List.append_assoc]; rfl
  rw [hsplit] at hpays
  have hlong := hw.mints hparsed.size before txout after hvout hmint
    ⟨hparsed.vin, hpays.of_append, fun out hout hother => ?_⟩
  · exact (Scripted.within_txOutToPublicCoin hlong).bind fun _ => within_checks
  · obtain ⟨s, s', hstep⟩ := foldlM_mem hrun hout
    unfold Scripted.connectMintOutput at hstep
    rw [if_neg (by simp [hother]), bind_eq_ok] at hstep
    obtain ⟨coin, hcoin, -⟩ := hstep
    exact (Scripted.txOutToPublicCoin_eq_ok hcoin).2

theorem Scripted.within_connectTx {nHeight : Int} {fScriptChecks : Bool} {st : ConnectState}
    (hw : tx.WellScripted env.txSize) (hparsed : tx.Parsed env.txSize) :
    Within (Scripted.connectTx env node block nHeight fScriptChecks st tx) := by
  unfold Scripted.connectTx
  refine OnlyFails.bind ?_ fun _ => within_checks
  unfold Scripted.connectTxChecks
  rw [Scripted.isZerocoinSpend_eq hw.starts, Scripted.isCoinBase_eq hw.starts]
  refine within_checks.bind fun _ => OnlyFails.bind ?_ fun _ => within_checks.bind fun _ => ?_
  · exact OnlyFails.ite (Scripted.within_containsZerocoins hw.starts) OnlyFails.pure
  refine Meets.ite (fun hspends => ?_) fun _ => OnlyFails.ite OnlyFails.pure ?_
  · refine within_checks.bind fun _ => OnlyFails.bind ?_ fun st' =>
      Scripted.within_connectMints hw hparsed
    refine OnlyFails.foldlM_mem fun st' txin hmem => ?_
    unfold Scripted.connectSpendInput
    refine Meets.ite (fun _ => OnlyFails.pure) fun hspend => ?_
    rw [Bool.not_eq_false] at hspend
    have hlong := hparsed.spends hspends txin hmem hspend
    exact (Scripted.within_txInToZerocoinSpend hlong).bind fun _ => within_checks
  · exact within_checks.bind fun _ => (Scripted.within_connectMints hw hparsed).bind fun _ =>
      within_checks

/-- A block that is connected was checked, now or before. -/
theorem Scripted.within_connectBlock {coins : CoinsMap} {hashBestBlock : Uint256}
    {pindex : CBlockIndex} {fJustCheck fAlreadyChecked : Bool}
    (hgenesis : block.hash ≠ node.params.hashGenesisBlock) (hparse : env.ParsesScript)
    (hchecked : fAlreadyChecked = true → ∃ node' : ConsensusNode, node'.network = node.network ∧
      Scripted.checkBlock env node' block true true = .ok ())
    (hw : ∀ tx ∈ block.vtx, tx.WellScripted env.txSize) :
    Within (Scripted.connectBlock env node block coins hashBestBlock pindex fJustCheck
      fAlreadyChecked) := by
  have hstart := fun tx hmem => (hw tx hmem).starts
  unfold Scripted.connectBlock
  refine OnlyFails.bind_of_ok (OnlyFails.checkWhen (Scripted.within_checkBlock hparse hw))
    fun _ hcheck => within_checks.bind fun _ => OnlyFails.bind ?_ fun _ => within_checks
  have hparsed : ∀ tx ∈ block.vtx, tx.Parsed env.txSize := by
    cases fAlreadyChecked with
    | false =>
      rw [checkWhen_eq_ok] at hcheck
      exact Scripted.parsed_of_checkBlock hgenesis hstart
        (hcheck ⟨fun h => hgenesis h.1, rfl⟩)
    | true =>
      obtain ⟨node', hnetwork, hpassed⟩ := hchecked rfl
      refine Scripted.parsed_of_checkBlock ?_ hstart hpassed
      rw [ConsensusNode.params, hnetwork]
      exact hgenesis
  exact OnlyFails.foldlM_mem fun st tx hmem =>
    Scripted.within_connectTx (hw tx hmem) (hparsed tx hmem)

/-! `AcceptToMemoryPool`, after `CheckTransaction`. -/

theorem Scripted.within_acceptToMemoryPool {pool : Scripted.PoolEnv} (hparse : env.ParsesScript)
    (hw : tx.WellScripted env.txSize) :
    Within (Scripted.acceptToMemoryPool env node pool tx) := by
  unfold Scripted.acceptToMemoryPool
  refine OnlyFails.bind ?_ fun _ => within_checks.bind fun _ =>
    OnlyFails.bind_of_ok (Scripted.within_checkTransaction hparse hw) fun _ hpassed => ?_
  · exact OnlyFails.ite (Scripted.within_containsZerocoins hw.starts) OnlyFails.pure
  obtain ⟨-, -, -, hspends, hmints⟩ := Scripted.checkTransaction_eq_ok hw.starts hpassed
  rw [Scripted.isZerocoinSpend_eq hw.starts]
  refine (Scripted.within_isCoinBase hw.starts).bind fun _ => within_checks.bind fun _ =>
    within_checks.bind fun _ => OnlyFails.bind ?_ fun _ => within_checks.bind fun _ =>
    within_checks.bind fun _ => OnlyFails.bind_of_ok OnlyFails.ok fun fSpend hfSpend =>
    OnlyFails.bind ?_ fun _ => within_checks
  · refine OnlyFails.checkWhen (within_checks.bind fun _ => ?_)
    exact (Scripted.within_containsZerocoins hw.starts).bind fun _ => within_checks
  · obtain rfl := Except.ok.inj hfSpend
    unfold Scripted.acceptInputs
    refine Meets.ite (fun hkind => within_checks.bind fun _ => ?_) fun _ =>
      within_checks.bind fun _ => within_checks.bind fun _ => within_checks.bind fun _ =>
      OnlyFails.bind ?_ fun _ => within_checks
    · refine OnlyFails.forM_mem fun txin hmem => ?_
      unfold Scripted.acceptSpendInput
      refine Meets.ite (fun _ => OnlyFails.pure) fun hspend => ?_
      rw [Bool.not_eq_false] at hspend
      have hlong := hspends rfl hkind txin hmem hspend
      exact (Scripted.within_txInToZerocoinSpend hlong).bind fun _ => within_checks
    · refine OnlyFails.forM_mem fun txout hmem => ?_
      unfold Scripted.acceptMintOutput
      refine Meets.ite (fun _ => OnlyFails.pure) fun hmint => ?_
      rw [Bool.not_eq_false] at hmint
      have hlong := hmints rfl txout hmem hmint
      exact (Scripted.within_txOutToPublicCoin hlong).bind fun _ => within_checks

end

/-! A script that is too short is read outside where nothing before it stops the checks. -/

/-- What makes a parser and its checks let everything through that the scripts leave open. -/
structure ConsensusEnv.Lenient (env : ConsensusEnv) (scripts : List Script) : Prop where
  coins : ∀ coin, env.pubCoinValidate coin = true
  spends : ∀ txin, ∃ spend, env.txInToZerocoinSpend txin = some spend ∧
    spend.coinSerialNumber = (scripts.idxOf txin.scriptSig : ℕ)

section
variable {env : ConsensusEnv} {node : ConsensusNode} {tx : CTransaction} {scripts : List Script}
  {fActive : Bool}

/-- Outputs that pay within the bounds pass up to the look at a mint. -/
theorem Scripted.checkOutput_of_pays {tally : OutputTally} {txout : CTxOut}
    (hstart : ¬ tx.StartsEmpty) (hfilled : txout.isEmpty = true → tx.isCoinStake = true)
    (hnonneg : 0 ≤ txout.nValue) (htally : 0 ≤ tally.nValueOut)
    (hmax : tally.nValueOut + txout.nValue ≤ mainParams.nMaxMoneyOut) :
    Scripted.checkOutput env node tx fActive tally txout =
      checkWhen (fActive = true ∧ txout.isZerocoinMint = true)
          (Scripted.checkZerocoinMint env txout) >>= fun _ =>
        pure ⟨tally.nValueOut + txout.nValue, tally.nZCSpendCount +
          (if fActive && txout.scriptPubKey.isZerocoinSpend then 1 else 0)⟩ := by
  have hkind : (checkWhen (txout.isEmpty = true) (do
      let fCoinBase ← Scripted.isCoinBase tx
      checks (stopIf (fCoinBase = false ∧ tx.isCoinStake = false)
        ⟨100, "CheckTransaction(): txout empty for user transaction"⟩)) : Access Reject Unit) =
      .ok () := by
    rw [checkWhen_eq_ok, Scripted.isCoinBase_eq hstart]
    intro hempty
    show checks (stopIf _ _) = .ok ()
    rw [checks_eq_ok, stopIf_eq_ok]
    simp [hfilled hempty]
  have hvalue : ¬ node.params.nMaxMoneyOut < txout.nValue := by
    rw [nMaxMoneyOut_eq]
    omega
  have hrange : MoneyRange node.params (tally.nValueOut + txout.nValue) := by
    rw [MoneyRange, nMaxMoneyOut_eq]
    omega
  unfold Scripted.checkOutput
  rw [hkind, checks_stopIf_of_not (not_lt.mpr hnonneg), checks_stopIf_of_not hvalue,
    checks_stopIf_of_not (not_not.mpr hrange)]
  rfl

theorem Scripted.checkZerocoinMint_outside {txout : CTxOut}
    (h : txout.scriptPubKey.length < SCRIPT_OFFSET) :
    Scripted.checkZerocoinMint env txout = .error none := by
  unfold Scripted.checkZerocoinMint Scripted.txOutToPublicCoin
  rw [readFrom_eq_outside.mpr h]
  rfl

theorem Scripted.checkZerocoinMint_ok (hlenient : env.Lenient scripts) {txout : CTxOut}
    (hlong : SCRIPT_OFFSET ≤ txout.scriptPubKey.length)
    (hdenom : CoinDenomination.ofAmount txout.nValue ≠ .ZQ_ERROR) :
    Scripted.checkZerocoinMint env txout = .ok () := by
  unfold Scripted.checkZerocoinMint Scripted.txOutToPublicCoin Lytix.txOutToPublicCoin readFrom
  rw [if_pos hlong, if_neg hdenom]
  show checks (stopIf _ _) = .ok ()
  rw [checks_eq_ok, stopIf_eq_ok, hlenient.coins]
  simp

/-- The loop over the outputs comes to a mint that is too short, or to one before it. -/
theorem Scripted.foldlM_checkOutput_outside (hlenient : env.Lenient scripts)
    (hstart : ¬ tx.StartsEmpty) {before after : List CTxOut} {txout : CTxOut} {tally : OutputTally}
    (hmint : txout.isZerocoinMint = true) (hshort : txout.scriptPubKey.length < SCRIPT_OFFSET)
    (hdenom : ∀ out ∈ before, out.isZerocoinMint = true →
      CoinDenomination.ofAmount out.nValue ≠ .ZQ_ERROR)
    (hfilled : ∀ out ∈ before ++ [txout], out.isEmpty = true → tx.isCoinStake = true)
    (hnonneg : ∀ out ∈ before ++ [txout], 0 ≤ out.nValue) (htally : 0 ≤ tally.nValueOut)
    (hmax : tally.nValueOut + ((before ++ [txout]).map CTxOut.nValue).sum ≤
      mainParams.nMaxMoneyOut) :
    (before ++ txout :: after).foldlM (Scripted.checkOutput env node tx true) tally =
      .error none := by
  induction before generalizing tally with
  | nil =>
    rw [List.nil_append, List.map_singleton, List.sum_singleton] at hmax
    have hfirst := hfilled txout (List.mem_singleton_self txout)
    have hvalue := hnonneg txout (List.mem_singleton_self txout)
    rw [List.nil_append, List.foldlM_cons,
      Scripted.checkOutput_of_pays hstart hfirst hvalue htally hmax, checkWhen,
      if_pos ⟨rfl, hmint⟩, Scripted.checkZerocoinMint_outside hshort]
    rfl
  | cons out before ih =>
    rw [List.cons_append] at hfilled hnonneg
    rw [List.cons_append, List.map_cons, List.sum_cons] at hmax
    obtain ⟨hout, hfilled⟩ := List.forall_mem_cons.mp hfilled
    obtain ⟨hvalue, hnonneg⟩ := List.forall_mem_cons.mp hnonneg
    obtain ⟨hcoin, hdenom⟩ := List.forall_mem_cons.mp hdenom
    have hrest : 0 ≤ ((before ++ [txout]).map CTxOut.nValue).sum := by
      refine List.sum_nonneg fun value hmem => ?_
      obtain ⟨paid, hpaid, rfl⟩ := List.mem_map.mp hmem
      exact hnonneg paid hpaid
    have hstep := @Scripted.checkOutput_of_pays env node tx true tally out hstart hout hvalue htally
      (by omega)
    have hnext := fun nZCSpendCount => @ih ⟨tally.nValueOut + out.nValue, nZCSpendCount⟩ hdenom
      hfilled hnonneg (by dsimp only; omega) (by dsimp only; omega)
    rw [List.cons_append, List.foldlM_cons, hstep]
    by_cases hother : out.isZerocoinMint = true
    · rw [checkWhen, if_pos ⟨rfl, hother⟩]
      by_cases hlong : SCRIPT_OFFSET ≤ out.scriptPubKey.length
      · rw [Scripted.checkZerocoinMint_ok hlenient hlong (hcoin hother)]
        exact hnext _
      · rw [Scripted.checkZerocoinMint_outside (by omega)]
        rfl
    · rw [checkWhen, if_neg fun h => hother h.2]
      exact hnext _

/-- Before zerocoin is active no mint is looked at. -/
theorem Scripted.foldlM_checkOutput_ok (hstart : ¬ tx.StartsEmpty) {vout : List CTxOut}
    {tally : OutputTally} (hfilled : ∀ out ∈ vout, out.isEmpty = true → tx.isCoinStake = true)
    (hnonneg : ∀ out ∈ vout, 0 ≤ out.nValue) (htally : 0 ≤ tally.nValueOut)
    (hmax : tally.nValueOut + (vout.map CTxOut.nValue).sum ≤ mainParams.nMaxMoneyOut) :
    ∃ tally', vout.foldlM (Scripted.checkOutput env node tx false) tally = .ok tally' := by
  induction vout generalizing tally with
  | nil => exact ⟨tally, rfl⟩
  | cons out vout ih =>
    rw [List.map_cons, List.sum_cons] at hmax
    obtain ⟨hout, hfilled⟩ := List.forall_mem_cons.mp hfilled
    obtain ⟨hvalue, hnonneg⟩ := List.forall_mem_cons.mp hnonneg
    have hrest : 0 ≤ (vout.map CTxOut.nValue).sum := by
      refine List.sum_nonneg fun value hmem => ?_
      obtain ⟨paid, hpaid, rfl⟩ := List.mem_map.mp hmem
      exact hnonneg paid hpaid
    rw [List.foldlM_cons, Scripted.checkOutput_of_pays hstart hout hvalue htally (by omega),
      checkWhen, if_neg (by simp)]
    exact ih hfilled hnonneg (by dsimp only; omega) (by dsimp only; omega)

/-- A spend passes `CheckTransaction` before zerocoin is active. -/
theorem Scripted.checkTransaction_ok (hstart : ¬ tx.StartsEmpty)
    (hsize : env.txSize tx ≤ MAX_ZEROCOIN_TX_SIZE) (hspends : tx.isZerocoinSpend = true)
    (hvout : tx.vout ≠ []) (hpays : tx.PaysWithin tx.vout) (hinputs : tx.PlainOnce) :
    Scripted.checkTransaction env node tx false = .ok () := by
  have hcoin : tx.isCoinBase = false := by
    refine not_isCoinBase_of_containsZerocoins ?_
    rw [CTransaction.containsZerocoins, hspends, Bool.true_or]
  have hvin : tx.vin ≠ [] := by
    intro hnil
    simp [CTransaction.isZerocoinSpend, hnil] at hspends
  have htotal := hpays.total
  obtain ⟨tally, hloop⟩ := @Scripted.foldlM_checkOutput_ok env node tx hstart tx.vout {}
    hpays.filled hpays.nonneg le_rfl (by dsimp only; omega)
  have hdup := checkDuplicateInputs_eq_ok.mpr ⟨hinputs, fun _ _ => List.not_mem_nil⟩
  have hkind : Lytix.checkInputKind node tx false = .ok () := by
    unfold Lytix.checkInputKind
    rw [if_neg (by simp [hcoin]), if_neg (by simp), stopIf_eq_ok]
    simp
  simp only [Scripted.checkTransaction, bind_eq_ok, checks_eq_ok, stopIf_eq_ok, checkWhen_eq_ok,
    not_lt, Scripted.checkInputKind, Scripted.isCoinBase_eq hstart, hcoin]
  exact ⟨(), hvin, (), hvout, (), hsize, tally, hloop, (), by simp, (), hdup, false, rfl, false,
    rfl, hkind⟩

/-- The search for serials comes to a spend that is too short, or to one before it. -/
theorem Scripted.foldlM_checkSerial_outside (hlenient : env.Lenient scripts) {reason : String}
    {before after : List CTxIn} {txin : CTxIn} {serials : List Int}
    (hspend : txin.scriptSig.isZerocoinSpend = true)
    (hshort : txin.scriptSig.length < BIGNUM_SIZE)
    (hmem : ∀ other ∈ before, other.scriptSig ∈ scripts)
    (hfresh : ∀ other ∈ before, other.scriptSig.isZerocoinSpend = true →
      (scripts.idxOf other.scriptSig : ℤ) ∉ serials)
    (hnodup : ((before.filter fun txin => txin.scriptSig.isZerocoinSpend).map
      CTxIn.scriptSig).Nodup) :
    (before ++ txin :: after).foldlM (Scripted.checkSerial env reason) serials = .error none := by
  have houtside : ∀ {txin : CTxIn} {serials : List Int}, txin.scriptSig.isZerocoinSpend = true →
      txin.scriptSig.length < BIGNUM_SIZE →
      Scripted.checkSerial env reason serials txin = .error none := by
    intro txin serials hspend hshort
    unfold Scripted.checkSerial Scripted.txInToZerocoinSpend
    rw [if_neg (by simp [hspend]), readFrom_eq_outside.mpr hshort]
    rfl
  induction before generalizing serials with
  | nil =>
    rw [List.nil_append, List.foldlM_cons, houtside hspend hshort]
    rfl
  | cons first before ih =>
    obtain ⟨hfirst, hmem⟩ := List.forall_mem_cons.mp hmem
    obtain ⟨hnew, hfresh⟩ := List.forall_mem_cons.mp hfresh
    rw [List.cons_append, List.foldlM_cons]
    by_cases hkind : first.scriptSig.isZerocoinSpend = true
    · rw [List.filter_cons_of_pos (by simp [hkind]), List.map_cons, List.nodup_cons] at hnodup
      by_cases hlong : BIGNUM_SIZE ≤ first.scriptSig.length
      · obtain ⟨spend, hparse, hserial⟩ := hlenient.spends first
        have hunused := hnew hkind
        rw [← hserial] at hunused
        have hstep : Scripted.checkSerial env reason serials first =
            .ok (spend.coinSerialNumber :: serials) := by
          have hchecked : Lytix.checkSerial env reason serials first =
              .ok (spend.coinSerialNumber :: serials) := by
            unfold Lytix.checkSerial
            rw [if_neg (by simp [hkind])]
            simp only [parseSpend, hparse, bind_eq_ok, orStop_eq_ok, stopIf_eq_ok, pure_eq_ok]
            exact ⟨spend, rfl, (), hunused, rfl⟩
          unfold Scripted.checkSerial Scripted.txInToZerocoinSpend
          rw [if_neg (by simp [hkind]), readFrom, if_pos hlong, hchecked, parseSpend, hparse]
          rfl
        rw [hstep]
        refine ih hmem (fun other hother hotherkind => ?_) hnodup.2
        rw [List.mem_cons, not_or, hserial]
        refine ⟨fun hsame => ?_, hfresh other hother hotherkind⟩
        have hscript := (List.idxOf_inj (hmem other hother)).mp (Int.ofNat.inj hsame)
        refine hnodup.1 (List.mem_map.mpr ⟨other, ?_, hscript⟩)
        exact List.mem_filter.mpr ⟨hother, hotherkind⟩
      · rw [houtside hkind (by omega)]
        rfl
    · rw [List.filter_cons_of_neg (by simp [hkind])] at hnodup
      rw [Bool.not_eq_true] at hkind
      rw [Scripted.checkSerial_of_plain hkind]
      exact ih hmem hfresh hnodup

end

/-- Every way in which transactions of `txs` come to be read stays within their scripts. Blocks are
made of such transactions; the genesis block is known, and no other has its hash. -/
structure ReadWithin (txSize : CTransaction → ℕ) (txs : Set CTransaction) : Prop where
  checkTransaction : ∀ env node, ∀ tx ∈ txs, ∀ fZerocoinActive, env.txSize = txSize →
    env.ParsesScript → Within (Scripted.checkTransaction env node tx fZerocoinActive)
  acceptToMemoryPool : ∀ env node pool, ∀ tx ∈ txs, env.txSize = txSize → env.ParsesScript →
    Within (Scripted.acceptToMemoryPool env node pool tx)
  checkBlockTransaction : ∀ env node block vBlockSerials, ∀ tx ∈ txs, env.txSize = txSize →
    env.ParsesScript → Within (Scripted.checkBlockTransaction env node block vBlockSerials tx)
  checkBlock : ∀ env node block fCheckPOW fCheckMerkleRoot, (∀ tx ∈ block.vtx, tx ∈ txs) →
    env.txSize = txSize → env.ParsesScript →
    Within (Scripted.checkBlock env node block fCheckPOW fCheckMerkleRoot)
  processNewBlock : ∀ env node block rest, (∀ tx ∈ block.vtx, tx ∈ txs) → env.txSize = txSize →
    env.ParsesScript → Within (Scripted.processNewBlock env node block rest)
  /-- A block that was checked already was checked by this code. -/
  connectBlock : ∀ env node block coins hashBestBlock pindex fJustCheck fAlreadyChecked,
    (∀ tx ∈ block.vtx, tx ∈ txs) → env.txSize = txSize → env.ParsesScript →
    block.hash ≠ node.params.hashGenesisBlock →
    (fAlreadyChecked = true → ∃ node' : ConsensusNode, node'.network = node.network ∧
      Scripted.checkBlock env node' block true true = .ok ()) →
    Within (Scripted.connectBlock env node block coins hashBestBlock pindex fJustCheck
      fAlreadyChecked)

section
variable {txSize : CTransaction → ℕ} {txs : Set CTransaction} {tx : CTransaction}

theorem readWithin_of_wellScripted (h : ∀ tx ∈ txs, tx.WellScripted txSize) :
    ReadWithin txSize txs := by
  constructor
  case checkTransaction =>
    rintro env node tx hmem fZerocoinActive rfl hparse
    exact Scripted.within_checkTransaction hparse (h tx hmem)
  case acceptToMemoryPool =>
    rintro env node pool tx hmem rfl hparse
    exact Scripted.within_acceptToMemoryPool hparse (h tx hmem)
  case checkBlockTransaction =>
    rintro env node block serials tx hmem rfl hparse
    exact Scripted.within_checkBlockTransaction hparse (h tx hmem)
  case checkBlock =>
    rintro env node block fCheckPOW fCheckMerkleRoot hmem rfl hparse
    exact Scripted.within_checkBlock hparse fun tx htx => h tx (hmem tx htx)
  case processNewBlock =>
    rintro env node block rest hmem rfl hparse
    exact Scripted.within_processNewBlock hparse fun tx htx => h tx (hmem tx htx)
  case connectBlock =>
    rintro env node block coins hashBestBlock pindex fJustCheck fAlreadyChecked hmem rfl hparse
      hgenesis hchecked
    exact Scripted.within_connectBlock hgenesis hparse hchecked fun tx htx => h tx (hmem tx htx)

/-- The environment in which every spend parses to a coin of its own. -/
def lenientEnv (txSize : CTransaction → ℕ) (scripts : List Script) : ConsensusEnv :=
  { launchEnv with
    txSize := txSize
    txInToZerocoinSpend := fun txin =>
      some ⟨.ZQ_ONE, (scripts.idxOf txin.scriptSig : ℕ), 0, 0, 1, .SPEND⟩ }

theorem lenientEnv_lenient (scripts : List Script) : (lenientEnv txSize scripts).Lenient scripts :=
  ⟨fun _ => rfl, fun _ => ⟨_, rfl, rfl⟩⟩

theorem lenientEnv_parsesScript (scripts : List Script) :
    (lenientEnv txSize scripts).ParsesScript :=
  ⟨fun script => some ⟨.ZQ_ONE, (scripts.idxOf script : ℕ), 0, 0, 1, .SPEND⟩, fun _ => rfl⟩

/-- A block is asked for its zerocoins whether or not it passed. -/
theorem Scripted.processNewBlock_outside {env : ConsensusEnv} {node : ConsensusNode}
    {block : CBlock} {rest : Bool → Validation Unit} (hvtx : block.vtx = [tx])
    (h : tx.StartsEmpty) : Scripted.processNewBlock env node block rest = .error none := by
  have hcount : (block.vtx.forM fun tx => do
      let _fZerocoins ← Scripted.containsZerocoins tx
      pure ()) = (.error none : Access Reject Unit) := by
    rw [hvtx, List.forM_eq_forM, List.forM_cons, Scripted.containsZerocoins,
      Scripted.isZerocoinSpend_outside.mpr h]
    rfl
  unfold Scripted.processNewBlock
  rw [hcount]
  cases Scripted.checkBlock env node block true true with
  | ok _ => rfl
  | error e => cases e <;> rfl

theorem wellScripted_of_readWithin (h : ReadWithin txSize txs) (hmem : tx ∈ txs) :
    tx.WellScripted txSize := by
  have hstart : ¬ tx.StartsEmpty := by
    intro hempty
    have hwithin := h.processNewBlock (lenientEnv txSize []) (launchNode {} rfl rfl)
      (launchBlock [tx]) (fun _ => .ok ()) (by simpa [launchBlock] using hmem) rfl
      (lenientEnv_parsesScript [])
    exact within_iff.mp hwithin (Scripted.processNewBlock_outside rfl hempty)
  constructor
  case starts => exact hstart
  case spends =>
    intro hsize before txin after hvin hspend hparsed
    by_contra hshort
    let scripts := tx.vin.map CTxIn.scriptSig
    have hwithin := h.checkBlockTransaction (lenientEnv txSize scripts) (launchNode {} rfl rfl)
      (launchBlock [tx]) [] tx hmem rfl (lenientEnv_parsesScript scripts)
    have hpassed : Scripted.checkTransaction (lenientEnv txSize scripts) (launchNode {} rfl rfl) tx
        false = .ok () :=
      Scripted.checkTransaction_ok hstart hsize hparsed.spends hparsed.vout hparsed.pays
        hparsed.inputs
    have hscan := @Scripted.foldlM_checkSerial_outside _ scripts (@lenientEnv_lenient txSize scripts)
      "Double spending of zLYTX serial in block" before after txin [] hspend (by omega)
      (fun other hother => List.mem_map.mpr
        ⟨other, by rw [hvin]; exact List.mem_append_left _ hother, rfl⟩)
      (fun _ _ _ => List.not_mem_nil) hparsed.scripts
    refine within_iff.mp hwithin ?_
    have hinactive : zerocoinActive (launchNode {} rfl rfl) (launchBlock [tx]) = false := rfl
    unfold Scripted.checkBlockTransaction
    rw [hinactive, hpassed, Scripted.isZerocoinSpend_eq hstart, hparsed.spends, hvin]
    exact hscan
  case mints =>
    intro hsize before txout after hvout hmint hparsed
    by_contra hshort
    have hwithin := h.checkTransaction (lenientEnv txSize []) (launchNode {} rfl rfl) tx hmem true
      rfl (lenientEnv_parsesScript [])
    have htotal := hparsed.pays.total
    have hloop := @Scripted.foldlM_checkOutput_outside _ (launchNode {} rfl rfl) tx []
      (@lenientEnv_lenient txSize []) hstart before after txout {} hmint (by omega) hparsed.denominated
      hparsed.pays.filled hparsed.pays.nonneg le_rfl (by dsimp only; omega)
    refine within_iff.mp hwithin ?_
    unfold Scripted.checkTransaction
    rw [checks_stopIf_of_not hparsed.vin, checks_stopIf_of_not (show tx.vout ≠ [] by simp [hvout]),
      checks_stopIf_of_not (show ¬ MAX_ZEROCOIN_TX_SIZE < (lenientEnv txSize []).txSize tx from
        not_lt.mpr hsize), hvout, hloop]
    rfl

end

/-! One transaction for each of the three reads. -/

/-- Its only input refers to no transaction and has no script. -/
def emptyScriptTx : CTransaction := ⟨40, 1, [⟨⟨0, 0⟩, [], 0⟩], [⟨0, [2], -10⟩], 0⟩

/-- A spend of three bytes. -/
def shortSpendTx : CTransaction :=
  ⟨41, 1, [⟨⟨0, 0⟩, [OP_ZEROCOINSPEND, 1, 1], 1⟩], [⟨0, [3], -10⟩], 0⟩

/-- A mint of one byte. -/
def shortMintTx : CTransaction :=
  ⟨42, 1, [⟨⟨30, 0⟩, [], 0⟩], [⟨COIN, [OP_ZEROCOINMINT], -10⟩], 0⟩

end Lytix
