import Lytix.Kernel.StakeAgreement
import Lytix.Wallet.CreateCoinStake

/-! The reward that a coinstake creates. The credit of a candidate whose outputs could not be made
stays in the sum, the transaction of one whose input could not be made loses its empty first
output, and a zPIV stake mints three coins whatever the reward. -/
namespace Lytix

/-- The input that stakes a candidate. -/
def CStakeInput.SpentBy (txin : CTxIn) : CStakeInput → Prop
  | .piv txFrom nPosition => txin.prevout = ⟨txFrom.hash, nPosition⟩
  | .zpiv _ _ _ _ => txin.prevout = COutPoint.null ∧ txin.scriptSig.isZerocoinSpend = true

/-- The transaction is a coinstake of the candidate alone, and what its outputs hold beyond the
candidate's value is the reward. -/
structure CreatesReward (nReward : Int) (stakeInput : CStakeInput) (tx : CTransaction) : Prop where
  coinStake : tx.isCoinStake = true
  spends : ∃ txin, tx.vin = [txin] ∧ stakeInput.SpentBy txin
  created : (tx.vout.map CTxOut.nValue).sum - stakeInput.getValue = nReward

section
variable (node : StakeNode) (wallet : StakeWallet) (nBits : UInt32)

/-- The candidate hits the target, in a time that is allowed. -/
def hitsTarget (round : StakeAnswers × CStakeInput) : Bool :=
  (findKernel node nBits round.1.nAdjustedTime round.2).isSome

/-- The wallet makes outputs for the candidate. -/
def makesOutputs (round : StakeAnswers × CStakeInput) : Bool :=
  (createTxOuts wallet round.1 round.2 0).isSome

/-- The wallet makes an input for the candidate, in a transaction with its outputs. -/
def makesInput (base : CMutableTransaction) (round : StakeAnswers × CStakeInput) : Bool :=
  ((createTxOuts wallet round.1 round.2 0).bind fun outs =>
    (fillMaxBlockPayee node.network node.sporks node.tables node.view.height true
      (coinStakeMarker :: outs)).bind fun vout =>
        createTxIn node round.1 round.2
          (node.getHash { base with vin := [], vout := vout })).isSome

/-- What `FillMaxBlockPayee` pays over the tip. -/
def nodePayments : Int :=
  let nHeight := node.view.height
  if (node.tables.maxnodePayee (nHeight + 1)).isSome ∧
      (node.tables.masternodePayee (nHeight + 1)).isSome then
    let blockValue := getBlockValue node.network nHeight
    getMasternodePayment node.network node.sporks nHeight blockValue +
      getMaxnodePayment node.network node.sporks nHeight blockValue +
      getDevFeePayment node.sporks nHeight blockValue
  else 0

/-- When the search creates the reward. Of the candidates that hit the target, take the first one
whose outputs are made. If it is a plain one, none hit before it; if it is a zPIV one, its input is
made, and its three mints and the payees get just the reward. -/
def CreatesExactly (base : CMutableTransaction) (rounds : List (StakeAnswers × CStakeInput)) :
    Prop :=
  match rounds.find? fun round => hitsTarget node nBits round && makesOutputs wallet round with
  | none => False
  | some round =>
    if round.2.isZPIV then
      makesInput node wallet base round = true ∧ 3 * COIN + nodePayments node = stakeReward node
    else (rounds.find? (hitsTarget node nBits)).all (makesOutputs wallet) = true

end

/-- What the selection promises of a candidate. -/
def CStakeInput.Selected : CStakeInput → Prop
  | .piv txFrom nPosition => 0 < (CStakeInput.piv txFrom nPosition).getValue ∧ nPosition < 2 ^ 31
  | .zpiv _ _ _ _ => True

section selection
variable {node : StakeNode} {wallet : StakeWallet}

theorem selected_selectPivStakes {nTargetAmount nAmountSelected : Int} {coins : List COutput}
    {stakeInput : CStakeInput}
    (h : stakeInput ∈ selectPivStakes node nTargetAmount nAmountSelected coins) :
    stakeInput.Selected := by
  induction coins generalizing nAmountSelected with
  | nil => simp [selectPivStakes] at h
  | cons out rest ih =>
    rw [selectPivStakes] at h
    split_ifs at h
    · exact ih h
    · rcases List.mem_cons.mp h with rfl | hrest
      · have hvalue : (CStakeInput.piv out.tx out.i).getValue = out.txout.nValue := by
          simp [CStakeInput.getValue, out.found]
        exact ⟨hvalue ▸ out.positive, out.isInt⟩
      · exact ih hrest

theorem selected_selectStakeCoins {nTargetAmount : Int} {stakeInput : CStakeInput}
    (h : stakeInput ∈ selectStakeCoins node wallet nTargetAmount) : stakeInput.Selected := by
  rw [selectStakeCoins, List.mem_append] at h
  rcases h with hpiv | hzpiv
  · split_ifs at hpiv
    · exact selected_selectPivStakes hpiv
    · simp at hpiv
  · split_ifs at hzpiv
    · simp only [selectZPivStakes, List.mem_map] at hzpiv
      obtain ⟨info, -, rfl⟩ := hzpiv
      trivial
    · simp at hzpiv

theorem selected_stakeRounds {nReserveBalance : Int} {round : StakeAnswers × CStakeInput}
    (h : round ∈ stakeRounds node wallet nReserveBalance) : round.2.Selected := by
  simp only [stakeRounds, List.mem_map] at h
  obtain ⟨⟨stakeInput, i⟩, hmem, rfl⟩ := h
  have hinput := List.mem_of_getElem? (List.mk_mem_zipIdx_iff_getElem?.mp hmem)
  exact selected_selectStakeCoins hinput

theorem getValue_nonneg {stakeInput : CStakeInput} (h : stakeInput.Selected) :
    0 ≤ stakeInput.getValue := by
  cases stakeInput with
  | piv txFrom nPosition => exact h.1.le
  | zpiv nChecksum fMint denom hashSerial =>
    have hdenom : 0 ≤ denom.toAmount := by
      cases denom <;> decide
    exact hdenom

end selection

/-! The outputs of a candidate. -/

section outputs
variable {wallet : StakeWallet} {answers : StakeAnswers} {stakeInput : CStakeInput}
  {vout outs filled : List CTxOut}

theorem head?_ne_of_solver {scriptPubKey : Script} {vSolutions : List (List UInt8)}
    (h : solver scriptPubKey = some (.TX_PUBKEY, vSolutions)) : scriptPubKey ≠ [] := by
  rintro rfl
  have hempty : solver [] = none := by decide
  rw [hempty] at h
  contradiction

/-- The script a stake is paid to holds something, and is not a mint's. -/
theorem stakeScript_spec {scriptPubKeyKernel scriptPubKey : Script}
    (h : stakeScript answers scriptPubKeyKernel = some scriptPubKey) :
    scriptPubKey ≠ [] ∧ scriptPubKey.isZerocoinMint = false := by
  unfold stakeScript at h
  split at h
  · rename_i vSolutions hsolver
    have hsame : scriptPubKeyKernel = scriptPubKey := Option.some.inj h
    rw [← hsame]
    exact ⟨head?_ne_of_solver hsolver,
      isZerocoinMint_of_solver hsolver (by decide) (by decide)⟩
  · rw [Option.map_eq_some_iff] at h
    obtain ⟨vchPubKey, -, rfl⟩ := h
    exact ⟨by simp, head?_push_ne_mint vchPubKey [OP_CHECKSIG]⟩
  · contradiction

theorem createMints_spec {i : ℕ} {denominations : List CoinDenomination}
    (h : createMints answers i denominations = some outs) :
    outs.map CTxOut.nValue = denominations.map CoinDenomination.toAmount ∧
      ∀ out ∈ outs, out.isZerocoinMint = true ∧ out.isEmpty = false := by
  induction denominations generalizing i outs with
  | nil =>
    have hnil : [] = outs := Option.some.inj h
    simp [← hnil]
  | cons denomination rest ih =>
    rw [createMints] at h
    split at h
    · contradiction
    · rename_i out hout
      rw [Option.map_eq_some_iff] at h
      obtain ⟨later, hlater, rfl⟩ := h
      obtain ⟨hvalues, hmints⟩ := ih hlater
      simp only [createZPIVOutPut, Option.map_eq_some_iff] at hout
      obtain ⟨pubCoin, -, rfl⟩ := hout
      constructor
      · simp [hvalues]
      · intro out hmem
        rcases List.mem_cons.mp hmem with rfl | hmem
        · exact ⟨rfl, by simp [CTxOut.isEmpty]⟩
        · exact hmints out hmem

/-- A plain candidate gives one output without a value or two equal ones. -/
theorem createTxOuts_piv {txFrom : CTransaction} {nPosition : ℕ} {nTotal : Int}
    (h : createTxOuts wallet answers (.piv txFrom nPosition) nTotal = some outs) :
    ∃ out : CTxOut, out.isEmpty = false ∧ out.isZerocoinMint = false ∧
      (outs = [out] ∨ outs = [out, out]) := by
  simp only [createTxOuts, Option.bind_eq_some_iff, Option.map_eq_some_iff] at h
  obtain ⟨txout, -, scriptPubKey, hscript, rfl⟩ := h
  obtain ⟨hfull, hplain⟩ := stakeScript_spec hscript
  refine ⟨⟨0, scriptPubKey, -10⟩, ?_, hplain, ?_⟩
  · simp [CTxOut.isEmpty, hfull]
  · split_ifs
    · exact Or.inr rfl
    · exact Or.inl rfl

/-- A zPIV candidate gives its own denomination and three ones. -/
theorem createTxOuts_zpiv {nChecksum : UInt32} {fMint : Bool} {denom : CoinDenomination}
    {hashSerial : Uint256} {nTotal : Int}
    (h : createTxOuts wallet answers (.zpiv nChecksum fMint denom hashSerial) nTotal = some outs) :
    (outs.map CTxOut.nValue).sum = denom.toAmount + 3 * COIN ∧ 2 ≤ outs.length ∧
      ∀ out ∈ outs, out.isZerocoinMint = true ∧ out.isEmpty = false := by
  simp only [createTxOuts, CStakeInput.getValue, CoinDenomination.ofAmount_toAmount] at h
  obtain ⟨hvalues, hmints⟩ := createMints_spec h
  have hlength := congrArg List.length hvalues
  simp only [List.length_map, List.length_cons, List.length_nil] at hlength
  refine ⟨?_, by omega, hmints⟩
  rw [hvalues]
  simp only [List.map_cons, List.map_nil, List.sum_cons, List.sum_nil]
  have hone : CoinDenomination.ZQ_ONE.toAmount = COIN := by decide
  rw [hone]
  ring

/-- Whether the outputs can be made does not depend on the amount. -/
theorem createTxOuts_isSome (nTotal : Int) :
    (createTxOuts wallet answers stakeInput nTotal).isSome =
      (createTxOuts wallet answers stakeInput 0).isSome := by
  cases stakeInput with
  | piv txFrom nPosition =>
    simp only [createTxOuts, Option.isSome_bind, Option.isSome_map]
  | zpiv nChecksum fMint denom hashSerial => rfl

theorem sum_modify_nValue (amount : Int) {i : ℕ} (hi : i < vout.length) :
    ((vout.modify i fun out => { out with nValue := out.nValue - amount }).map CTxOut.nValue).sum =
      (vout.map CTxOut.nValue).sum - amount := by
  induction vout generalizing i with
  | nil => simp at hi
  | cons out rest ih =>
    cases i with
    | zero =>
      simp only [List.modify_zero_cons, List.map_cons, List.sum_cons]
      ring
    | succ i =>
      have hrest := ih (Nat.lt_of_succ_lt_succ hi)
      simp only [List.modify_succ_cons, List.map_cons, List.sum_cons, hrest]
      ring

variable {node : StakeNode}

/-- The payees are added to the value of the outputs, unless the stake pays for them; the first
output stays. -/
theorem fillMaxBlockPayee_spec {first second : CTxOut} {rest : List CTxOut}
    (h : fillMaxBlockPayee node.network node.sporks node.tables node.view.height true
      (first :: second :: rest) = some filled) :
    (∃ others, filled = first :: others ∧ others ≠ []) ∧
      (filled.map CTxOut.nValue).sum = ((first :: second :: rest).map CTxOut.nValue).sum +
        if second.isZerocoinMint then nodePayments node else 0 := by
  unfold fillMaxBlockPayee at h
  unfold nodePayments
  split at h
  · rename_i payee payee2 hmax hmaster
    simp only [hmax, hmaster, Option.isSome_some, and_self, if_true]
    simp only [if_true, List.length_cons, takeFromStake] at h
    by_cases hmint : second.isZerocoinMint = true
    · rw [if_pos (by simp [hmint])] at h
      rw [← Option.some.inj h, if_pos hmint]
      constructor
      · exact ⟨_, rfl, by simp⟩
      · simp only [List.cons_append, List.map_cons, List.map_append, List.map_nil, List.sum_cons,
          List.sum_append, List.sum_nil, payTo]
        ring
    · rw [if_neg (by simp [hmint])] at h
      rw [← Option.some.inj h, if_neg hmint]
      constructor
      · rw [List.cons_append, List.modify_succ_cons]
        exact ⟨_, rfl, List.ne_nil_of_length_pos (by simp)⟩
      · rw [sum_modify_nValue _ (by simp)]
        simp only [List.cons_append, List.map_cons, List.map_append, List.map_nil, List.sum_cons,
          List.sum_append, List.sum_nil, payTo]
        ring
  · rename_i hnone
    have hpays : ¬((node.tables.maxnodePayee (node.view.height + 1)).isSome = true ∧
        (node.tables.masternodePayee (node.view.height + 1)).isSome = true) := by
      rintro ⟨hmax, hmaster⟩
      obtain ⟨payee, hpayee⟩ := Option.isSome_iff_exists.mp hmax
      obtain ⟨payee2, hpayee2⟩ := Option.isSome_iff_exists.mp hmaster
      exact hnone payee payee2 hpayee hpayee2
    rw [← Option.some.inj h, if_neg hpays]
    constructor
    · exact ⟨second :: rest, rfl, by simp⟩
    · simp

end outputs

/-! One candidate, from the marker alone and from a transaction that was cleared. -/

section round
variable {node : StakeNode} {wallet : StakeWallet} {answers : StakeAnswers}
  {stakeInput : CStakeInput} {nTxNewTime : UInt32} {nCredit : Int}
  {txNew base : CMutableTransaction} {outs amounts filled : List CTxOut} {txin : CTxIn}

/-- With its outputs made, a candidate ends the search, clears the transaction or completes it. -/
theorem finishStake_cases :
    finishStake node answers stakeInput nTxNewTime nCredit txNew outs = .stop ∨
    ∃ amounts filled, fillOutputs stakeInput nCredit (txNew.vout ++ outs) = some amounts ∧
      fillMaxBlockPayee node.network node.sporks node.tables node.view.height true amounts =
        some filled ∧
      (createTxIn node answers stakeInput (node.getHash { txNew with vout := filled }) = none ∧
          finishStake node answers stakeInput nTxNewTime nCredit txNew outs =
            .next 0 { txNew with vin := [], vout := [] } ∨
        ∃ txin,
          createTxIn node answers stakeInput (node.getHash { txNew with vout := filled }) =
            some txin ∧
          finishStake node answers stakeInput nTxNewTime nCredit txNew outs ∈
            [.stop, .kernel { txNew with vin := txNew.vin ++ [txin], vout := filled }
              nTxNewTime]) := by
  unfold finishStake
  cases hamounts : fillOutputs stakeInput nCredit (txNew.vout ++ outs) with
  | none => exact Or.inl rfl
  | some amounts =>
    dsimp only
    by_cases hsize : DEFAULT_BLOCK_MAX_SIZE / 5 ≤ node.getSerializeSize { txNew with vout := amounts }
    · exact Or.inl (if_pos hsize)
    · rw [if_neg hsize]
      cases hfilled : fillMaxBlockPayee node.network node.sporks node.tables node.view.height true
          amounts with
      | none => exact Or.inl rfl
      | some filled =>
        refine Or.inr ⟨amounts, filled, rfl, hfilled, ?_⟩
        dsimp only
        cases htxin : createTxIn node answers stakeInput
            (node.getHash { txNew with vout := filled }) with
        | none => exact Or.inl ⟨rfl, rfl⟩
        | some txin =>
          refine Or.inr ⟨txin, rfl, ?_⟩
          dsimp only
          split_ifs <;> simp

theorem createTxIn_spentBy {hashTxOut : Uint256}
    (h : createTxIn node answers stakeInput hashTxOut = some txin) : stakeInput.SpentBy txin := by
  cases stakeInput with
  | piv txFrom nPosition =>
    have hsame : CTxIn.ofOutPoint ⟨txFrom.hash, nPosition⟩ = txin := Option.some.inj h
    rw [← hsame]
    rfl
  | zpiv nChecksum fMint denom hashSerial =>
    simp only [createTxIn] at h
    split_ifs at h
    split at h
    · contradiction
    · split_ifs at h
      rw [Option.map_eq_some_iff] at h
      obtain ⟨data, -, rfl⟩ := h
      exact ⟨rfl, rfl⟩

/-- A coinstake of one selected candidate is decided by its first output. -/
theorem isCoinStake_iff {tx : CTransaction} {first : CTxOut} {others : List CTxOut}
    (hvin : tx.vin = [txin]) (hspent : stakeInput.SpentBy txin) (hselected : stakeInput.Selected)
    (hvout : tx.vout = first :: others) (hothers : others ≠ []) :
    tx.isCoinStake = true ↔ first.isEmpty = true := by
  have hinput : (txin.prevout.isNull && !txin.scriptSig.isZerocoinSpend) = false := by
    cases stakeInput with
    | piv txFrom nPosition =>
      have hposition : nPosition ≠ COutPoint.nullIndex := by
        have hint := hselected.2
        unfold COutPoint.nullIndex
        omega
      have hprevout : txin.prevout = ⟨txFrom.hash, nPosition⟩ := hspent
      simp [hprevout, COutPoint.isNull, hposition]
    | zpiv nChecksum fMint denom hashSerial => simp [hspent.2]
  have hlength : 1 ≤ others.length := List.length_pos_iff.mpr hothers
  unfold CTransaction.isCoinStake
  rw [hvin]
  simp [hinput, hlength, hvout]

/-- The amounts of a plain candidate after the marker are its credit. -/
theorem fillOutputs_piv {txFrom : CTransaction} {nPosition : ℕ} {nTotal : Int}
    (houts : createTxOuts wallet answers (.piv txFrom nPosition) nTotal = some outs)
    (h : fillOutputs (.piv txFrom nPosition) nCredit (coinStakeMarker :: outs) = some amounts) :
    ∃ second rest, amounts = coinStakeMarker :: second :: rest ∧ second.isZerocoinMint = false ∧
      (amounts.map CTxOut.nValue).sum = nCredit := by
  obtain ⟨out, -, hplain, rfl | rfl⟩ := createTxOuts_piv houts
  · have hamounts : [coinStakeMarker, { out with nValue := nCredit }] = amounts :=
      Option.some.inj h
    refine ⟨{ out with nValue := nCredit }, [], hamounts.symm, hplain, ?_⟩
    simp [← hamounts, coinStakeMarker]
  · have hamounts : [coinStakeMarker,
        { out with nValue := (nCredit.tdiv 2).tdiv CENT * CENT },
        { out with nValue := nCredit - (nCredit.tdiv 2).tdiv CENT * CENT }] = amounts :=
      Option.some.inj h
    refine ⟨_, _, hamounts.symm, hplain, ?_⟩
    simp [← hamounts, coinStakeMarker]

/-- Without the marker the first output of any candidate holds something. -/
theorem fillOutputs_cleared {nTotal : Int}
    (houts : createTxOuts wallet answers stakeInput nTotal = some outs)
    (h : fillOutputs stakeInput nCredit outs = some amounts) :
    ∃ first second rest, amounts = first :: second :: rest ∧ first.isEmpty = false := by
  cases stakeInput with
  | piv txFrom nPosition =>
    obtain ⟨out, hfull, -, rfl | rfl⟩ := createTxOuts_piv houts
    · have hnone : setAmounts nCredit [out] = some amounts := h
      contradiction
    · have hamounts : [out, { out with nValue := nCredit }] = amounts := Option.some.inj h
      exact ⟨_, _, _, hamounts.symm, hfull⟩
  | zpiv nChecksum fMint denom hashSerial =>
    obtain ⟨-, hlength, hmints⟩ := createTxOuts_zpiv houts
    have hamounts : outs = amounts := Option.some.inj h
    rw [← hamounts]
    match outs, hlength with
    | first :: second :: rest, _ => exact ⟨first, second, rest, rfl, (hmints first (by simp)).2⟩

/-- What comes of a candidate, by how far it gets. -/
theorem tryStake_cases {nBits : UInt32} {round : StakeAnswers × CStakeInput} :
    tryStake node wallet nBits round.1 round.2 nCredit txNew = .stop ∨
    (hitsTarget node nBits round = false ∧
      tryStake node wallet nBits round.1 round.2 nCredit txNew = .next nCredit txNew) ∨
    (hitsTarget node nBits round = true ∧ makesOutputs wallet round = false ∧
      tryStake node wallet nBits round.1 round.2 nCredit txNew =
        .next (nCredit + round.2.getValue + stakeReward node) txNew) ∨
    (hitsTarget node nBits round = true ∧ makesOutputs wallet round = true ∧
      ∃ outs nTxNewTime,
        createTxOuts wallet round.1 round.2 (nCredit + round.2.getValue + stakeReward node) =
          some outs ∧
        tryStake node wallet nBits round.1 round.2 nCredit txNew =
          finishStake node round.1 round.2 nTxNewTime
            (nCredit + round.2.getValue + stakeReward node) txNew outs) := by
  unfold tryStake hitsTarget makesOutputs
  by_cases hstop : round.1.interrupted = true
  · exact Or.inl (if_pos hstop)
  · rw [if_neg hstop]
    right
    cases hkernel : findKernel node nBits round.1.nAdjustedTime round.2 with
    | none => exact Or.inl ⟨rfl, rfl⟩
    | some nTxNewTime =>
      right
      rw [← createTxOuts_isSome (nCredit + round.2.getValue + stakeReward node)]
      dsimp only
      cases houts : createTxOuts wallet round.1 round.2
          (nCredit + round.2.getValue + stakeReward node) with
      | none => exact Or.inl ⟨rfl, rfl, rfl⟩
      | some outs => exact Or.inr ⟨rfl, rfl, outs, nTxNewTime, rfl, rfl⟩

end round

/-! The search. -/

section search
variable {node : StakeNode} {wallet : StakeWallet} {nBits : UInt32} {nCredit : Int}
  {base : CMutableTransaction} {round : StakeAnswers × CStakeInput}
  {rounds : List (StakeAnswers × CStakeInput)} {found : CoinStakeKernel}

/-- A kernel that was found stakes a selected candidate, and has the first output given. -/
structure Found (found : CoinStakeKernel) (first : CTxOut) : Prop where
  selected : found.stakeInput.Selected
  spends : ∃ txin, found.txNew.vin = [txin] ∧ found.stakeInput.SpentBy txin
  outputs : ∃ others, found.txNew.vout = first :: others ∧ others ≠ []

/-- After a transaction was cleared the search goes on without the marker. -/
theorem stakeCandidates_cleared (hselected : ∀ round ∈ rounds, round.2.Selected)
    (h : stakeCandidates node wallet nBits rounds nCredit { base with vin := [], vout := [] } =
      some found) : ∃ first, Found found first ∧ first.isEmpty = false := by
  induction rounds generalizing nCredit with
  | nil => contradiction
  | cons round rest ih =>
    have hrest : ∀ round ∈ rest, round.2.Selected := fun round hround =>
      hselected round (List.mem_cons_of_mem _ hround)
    rw [stakeCandidates] at h
    rcases @tryStake_cases node wallet nCredit { base with vin := [], vout := [] } nBits round with
      hstop | ⟨-, hnext⟩ | ⟨-, -, hnext⟩ | ⟨-, -, outs, nTxNewTime, houts, hfinish⟩
    · rw [hstop] at h
      contradiction
    · rw [hnext] at h
      exact ih hrest h
    · rw [hnext] at h
      exact ih hrest h
    · rw [hfinish] at h
      rcases @finishStake_cases node round.1 round.2 nTxNewTime
          (nCredit + round.2.getValue + stakeReward node) { base with vin := [], vout := [] } outs
        with hstop | ⟨amounts, filled, hamounts, hfilled, ⟨-, hclear⟩ | ⟨txin, htxin, hkernel⟩⟩
      · rw [hstop] at h
        contradiction
      · rw [hclear] at h
        exact ih hrest h
      · rcases List.mem_pair.mp hkernel with hstop | hkernel
        · rw [hstop] at h
          contradiction
        · rw [hkernel] at h
          have hfound := Option.some.inj h
          obtain ⟨first, second, others, rfl, hfull⟩ := fillOutputs_cleared houts hamounts
          obtain ⟨houtputs, -⟩ := fillMaxBlockPayee_spec hfilled
          refine ⟨first, ?_, hfull⟩
          rw [← hfound]
          exact ⟨hselected round List.mem_cons_self, ⟨txin, rfl, createTxIn_spentBy htxin⟩,
            houtputs⟩

/-- From the marker alone, a plain candidate gets its credit. -/
theorem finishStake_piv {answers : StakeAnswers} {txFrom : CTransaction} {nPosition : ℕ}
    {nTxNewTime : UInt32} {outs : List CTxOut}
    (houts : createTxOuts wallet answers (.piv txFrom nPosition) nCredit = some outs) :
    finishStake node answers (.piv txFrom nPosition) nTxNewTime nCredit
        { base with vin := [], vout := [coinStakeMarker] } outs = .stop ∨
      ∃ others, others ≠ [] ∧ ((coinStakeMarker :: others).map CTxOut.nValue).sum = nCredit ∧
        finishStake node answers (.piv txFrom nPosition) nTxNewTime nCredit
            { base with vin := [], vout := [coinStakeMarker] } outs =
          .kernel { base with
            vin := [CTxIn.ofOutPoint ⟨txFrom.hash, nPosition⟩]
            vout := coinStakeMarker :: others } nTxNewTime := by
  rcases @finishStake_cases node answers (.piv txFrom nPosition) nTxNewTime nCredit
      { base with vin := [], vout := [coinStakeMarker] } outs
    with hstop | ⟨amounts, filled, hamounts, hfilled, ⟨hnone, -⟩ | ⟨txin, htxin, hkernel⟩⟩
  · exact Or.inl hstop
  · contradiction
  · rcases List.mem_pair.mp hkernel with hstop | hkernel
    · exact Or.inl hstop
    · obtain ⟨second, rest, rfl, hplain, hsum⟩ := fillOutputs_piv houts hamounts
      obtain ⟨⟨others, hothers, hne⟩, htotal⟩ := fillMaxBlockPayee_spec hfilled
      have hinput : CTxIn.ofOutPoint ⟨txFrom.hash, nPosition⟩ = txin := Option.some.inj htxin
      refine Or.inr ⟨others, hne, ?_, ?_⟩
      · rw [← hothers, htotal, hsum, hplain]
        simp
      · rw [hkernel, hothers, hinput]
        rfl

/-- From the marker alone, a zPIV candidate gets its mints and pays the nodes on top, unless its
input is not made. -/
theorem finishStake_zpiv {nTxNewTime : UInt32} {outs : List CTxOut}
    (hzpiv : round.2.isZPIV = true)
    (houts : createTxOuts wallet round.1 round.2 nCredit = some outs) :
    finishStake node round.1 round.2 nTxNewTime nCredit
        { base with vin := [], vout := [coinStakeMarker] } outs = .stop ∨
      (makesInput node wallet base round = false ∧
        finishStake node round.1 round.2 nTxNewTime nCredit
          { base with vin := [], vout := [coinStakeMarker] } outs =
            .next 0 { base with vin := [], vout := [] }) ∨
      ∃ txin others, makesInput node wallet base round = true ∧ round.2.SpentBy txin ∧
        others ≠ [] ∧ ((coinStakeMarker :: others).map CTxOut.nValue).sum =
          round.2.getValue + 3 * COIN + nodePayments node ∧
        finishStake node round.1 round.2 nTxNewTime nCredit
            { base with vin := [], vout := [coinStakeMarker] } outs =
          .kernel { base with vin := [txin], vout := coinStakeMarker :: others } nTxNewTime := by
  obtain ⟨answers, stakeInput⟩ := round
  cases stakeInput with
  | piv txFrom nPosition => contradiction
  | zpiv nChecksum fMint denom hashSerial =>
    obtain ⟨hsum, hlength, hmints⟩ := createTxOuts_zpiv houts
    have houts₀ : createTxOuts wallet answers (.zpiv nChecksum fMint denom hashSerial) 0 =
      some outs := houts
    rcases @finishStake_cases node answers (.zpiv nChecksum fMint denom hashSerial) nTxNewTime
        nCredit { base with vin := [], vout := [coinStakeMarker] } outs
      with hstop | ⟨amounts, filled, hamounts, hfilled, hinput⟩
    · exact Or.inl hstop
    · have hsame : coinStakeMarker :: outs = amounts := Option.some.inj hamounts
      rw [← hsame] at hfilled
      rcases hinput with ⟨hnone, hclear⟩ | ⟨txin, htxin, hkernel⟩
      · refine Or.inr (Or.inl ⟨?_, hclear⟩)
        simp only [makesInput, houts₀, hfilled, Option.bind_some]
        rw [hnone]
        rfl
      · rcases List.mem_pair.mp hkernel with hstop | hkernel
        · exact Or.inl hstop
        · refine Or.inr (Or.inr ?_)
          match outs, hlength with
          | second :: rest, _ =>
            obtain ⟨⟨others, hothers, hne⟩, htotal⟩ := fillMaxBlockPayee_spec hfilled
            refine ⟨txin, others, ?_, createTxIn_spentBy htxin, hne, ?_, ?_⟩
            · simp only [makesInput, houts₀, hfilled, Option.bind_some]
              rw [htxin]
              rfl
            · rw [← hothers, htotal, if_pos (hmints second (by simp)).1, List.map_cons,
                List.sum_cons, hsum]
              simp [coinStakeMarker, CStakeInput.getValue]
            · rw [hkernel, hothers]
              rfl

/-! What one more candidate means for the condition. -/

theorem createsExactly_cons_miss (hmiss : hitsTarget node nBits round = false) :
    CreatesExactly node wallet nBits base (round :: rounds) ↔
      CreatesExactly node wallet nBits base rounds := by
  unfold CreatesExactly
  simp [hmiss]

/-- A candidate whose outputs could not be made spoils every plain one after it. -/
theorem createsExactly_cons_unmade (hhit : hitsTarget node nBits round = true)
    (hunmade : makesOutputs wallet round = false) :
    CreatesExactly node wallet nBits base (round :: rounds) ↔
      CreatesExactly node wallet nBits base rounds ∧
        ∀ made ∈ rounds.find? fun round => hitsTarget node nBits round && makesOutputs wallet round,
          made.2.isZPIV = true := by
  unfold CreatesExactly
  simp only [hhit, hunmade, List.find?_cons_of_neg, List.find?_cons_of_pos, Bool.and_false,
    Bool.false_eq_true, not_false_eq_true, Option.all_some]
  split
  · simp
  · rename_i made hmade
    by_cases hzpiv : made.2.isZPIV = true
    · simp [hzpiv, hmade]
    · simp [hzpiv, hmade]

theorem createsExactly_cons_made (hhit : hitsTarget node nBits round = true)
    (hmade : makesOutputs wallet round = true) :
    CreatesExactly node wallet nBits base (round :: rounds) ↔
      (round.2.isZPIV = true → makesInput node wallet base round = true ∧
        3 * COIN + nodePayments node = stakeReward node) := by
  unfold CreatesExactly
  simp only [hhit, hmade, List.find?_cons_of_pos, Bool.and_self, Option.all_some]
  split_ifs with hzpiv
  · simp [hzpiv]
  · simp [hzpiv]

/-- The search from the marker, with a credit that failed candidates left. -/
theorem stakeCandidates_marker (hcredit : 0 ≤ nCredit)
    (hselected : ∀ round ∈ rounds, round.2.Selected)
    (h : stakeCandidates node wallet nBits rounds nCredit
      { base with vin := [], vout := [coinStakeMarker] } = some found) :
    ∃ first, Found found first ∧
      ((first.isEmpty = true ∧
          (found.txNew.vout.map CTxOut.nValue).sum - found.stakeInput.getValue =
            stakeReward node) ↔
        CreatesExactly node wallet nBits base rounds ∧
          (nCredit = 0 ∨
            ∀ made ∈ rounds.find? fun round =>
              hitsTarget node nBits round && makesOutputs wallet round,
              made.2.isZPIV = true)) := by
  induction rounds generalizing nCredit with
  | nil => contradiction
  | cons round rest ih =>
    have hround := hselected round List.mem_cons_self
    have hrest : ∀ round ∈ rest, round.2.Selected := fun round hround =>
      hselected round (List.mem_cons_of_mem _ hround)
    rw [stakeCandidates] at h
    rcases @tryStake_cases node wallet nCredit
        { base with vin := [], vout := [coinStakeMarker] } nBits round with
      hstop | ⟨hmiss, hnext⟩ | ⟨hhit, hunmade, hnext⟩ |
        ⟨hhit, hmade, outs, nTxNewTime, houts, hfinish⟩
    · rw [hstop] at h
      contradiction
    · rw [hnext] at h
      obtain ⟨first, hfound, hiff⟩ := ih hcredit hrest h
      refine ⟨first, hfound, ?_⟩
      rw [hiff, createsExactly_cons_miss hmiss, List.find?_cons_of_neg (by simp [hmiss])]
    · rw [hnext] at h
      have hvalue := getValue_nonneg hround
      have hreward : 0 < stakeReward node := getBlockValue_pos _ _
      obtain ⟨first, hfound, hiff⟩ := ih (by omega) hrest h
      refine ⟨first, hfound, ?_⟩
      have hleft : nCredit + round.2.getValue + stakeReward node ≠ 0 := by omega
      rw [hiff, createsExactly_cons_unmade hhit hunmade,
        List.find?_cons_of_neg (by simp [hunmade])]
      simp only [hleft, false_or]
      exact ⟨fun ⟨hexact, hall⟩ => ⟨⟨hexact, hall⟩, Or.inr hall⟩, fun ⟨hboth, _⟩ => hboth⟩
    · rw [hfinish] at h
      rw [createsExactly_cons_made hhit hmade, List.find?_cons_of_pos (by simp [hhit, hmade])]
      by_cases hzpiv : round.2.isZPIV = true
      · rcases @finishStake_zpiv node wallet _ base round nTxNewTime outs hzpiv houts with
          hstop | ⟨hnoInput, hclear⟩ | ⟨txin, others, hinput, hspent, hne, hsum, hkernel⟩
        · rw [hstop] at h
          contradiction
        · rw [hclear] at h
          obtain ⟨first, hfound, hfull⟩ := stakeCandidates_cleared hrest h
          refine ⟨first, hfound, ?_⟩
          simp [hfull, hnoInput, hzpiv]
        · rw [hkernel] at h
          have hfound := Option.some.inj h
          refine ⟨coinStakeMarker, ?_, ?_⟩
          · rw [← hfound]
            exact ⟨hround, ⟨txin, rfl, hspent⟩, ⟨others, rfl, hne⟩⟩
          · have hcreated : round.2.getValue + 3 * COIN + nodePayments node - round.2.getValue =
                3 * COIN + nodePayments node := by ring
            rw [← hfound]
            simp only [hsum, hcreated, hzpiv, hinput, Option.mem_def, Option.some.injEq,
              forall_eq', or_true, and_true, true_and, forall_true_left]
            exact ⟨fun ⟨_, heq⟩ => heq, fun heq => ⟨rfl, heq⟩⟩
      · obtain ⟨answers, stakeInput⟩ := round
        cases stakeInput with
        | zpiv nChecksum fMint denom hashSerial => exact absurd rfl hzpiv
        | piv txFrom nPosition =>
          rcases @finishStake_piv node wallet _ base answers txFrom nPosition nTxNewTime outs houts
            with hstop | ⟨others, hne, hsum, hkernel⟩
          · rw [hstop] at h
            contradiction
          · rw [hkernel] at h
            have hfound := Option.some.inj h
            refine ⟨coinStakeMarker, ?_, ?_⟩
            · rw [← hfound]
              exact ⟨hround, ⟨_, rfl, rfl⟩, ⟨others, rfl, hne⟩⟩
            · rw [← hfound]
              rw [hsum]
              dsimp only
              constructor
              · rintro ⟨-, heq⟩
                exact ⟨fun hz => absurd hz hzpiv, Or.inl (by omega)⟩
              · rintro ⟨-, hzero | hall⟩
                · exact ⟨rfl, by omega⟩
                · exact absurd (hall _ rfl) hzpiv

/-- Signing keeps the outputs and what the input spends. -/
theorem signCoinStake_keeps {txNew signed : CMutableTransaction} {txin : CTxIn}
    {stakeInput : CStakeInput} (hvin : txNew.vin = [txin]) (hspent : stakeInput.SpentBy txin)
    (h : signCoinStake node wallet txNew = some signed) :
    signed.vout = txNew.vout ∧ ∃ txin, signed.vin = [txin] ∧ stakeInput.SpentBy txin := by
  unfold signCoinStake at h
  split_ifs at h with hspend
  · rw [← Option.some.inj h]
    exact ⟨rfl, txin, hvin, hspent⟩
  · simp only [hvin, List.length_singleton, List.range_one, List.foldlM_cons, List.foldlM_nil,
      signInput, Option.bind_eq_bind, Option.bind_eq_some_iff, Option.map_eq_some_iff,
      Option.pure_def, Option.some.injEq] at h
    obtain ⟨_, ⟨scriptSig, -, rfl⟩, rfl⟩ := h
    refine ⟨rfl, { txin with scriptSig := scriptSig }, ?_, ?_⟩
    · rfl
    · cases stakeInput with
      | piv txFrom nPosition => exact hspent
      | zpiv nChecksum fMint denom hashSerial =>
        rw [hvin] at hspend
        exact absurd hspent.2 (by simpa using hspend)

/-- A coinstake that the search returns creates the reward just when `CreatesExactly` holds of
the candidates it tried. -/
theorem createCoinStake_createsReward_iff {txNew : CMutableTransaction} {nReserveBalance : Int}
    (hreserve : wallet.nReserveBalance = some nReserveBalance)
    (h : createCoinStake node wallet nBits txNew = some found) :
    CreatesReward (stakeReward node) found.stakeInput
        (found.txNew.toTransaction (node.getHash found.txNew)) ↔
      CreatesExactly node wallet nBits txNew (stakeRounds node wallet nReserveBalance) := by
  unfold createCoinStake at h
  rw [hreserve] at h
  dsimp only at h
  split_ifs at h
  rw [Option.bind_eq_some_iff] at h
  obtain ⟨kernel, hkernel, hsign⟩ := h
  rw [Option.map_eq_some_iff] at hsign
  obtain ⟨signed, hsigned, rfl⟩ := hsign
  obtain ⟨first, hfound, hiff⟩ := stakeCandidates_marker (le_refl 0)
    (fun round hround => selected_stakeRounds hround) hkernel
  obtain ⟨txin, hvin, hspent⟩ := hfound.spends
  obtain ⟨others, hvout, hothers⟩ := hfound.outputs
  obtain ⟨hkeeps, txinSigned, hvinSigned, hspentSigned⟩ :=
    signCoinStake_keeps hvin hspent hsigned
  have hcoinStake := @isCoinStake_iff kernel.stakeInput txinSigned
    (signed.toTransaction (node.getHash signed)) first others hvinSigned hspentSigned
    hfound.selected (hkeeps.trans hvout) hothers
  simp only [true_or, and_true] at hiff
  rw [← hiff, ← hcoinStake, ← hkeeps]
  constructor
  · rintro ⟨hstake, -, hcreated⟩
    exact ⟨hstake, hcreated⟩
  · rintro ⟨hstake, hcreated⟩
    exact ⟨hstake, ⟨txinSigned, hvinSigned, hspentSigned⟩, hcreated⟩

end search

/-! A wallet with two coins of block 2: one pays to a script of the wallet, which hits the target
but makes no outputs, and one pays to a key of it. -/
namespace CoinStakeTrace

def scriptCoin : CTransaction :=
  ⟨20, 1, [], [⟨500, [OP_HASH160, 20] ++ List.replicate 20 1 ++ [OP_EQUAL], -10⟩], 0⟩

def keyCoin : CTransaction :=
  ⟨21, 1, [], [⟨700, [OP_DUP, OP_HASH160] ++ Script.push (List.replicate 20 2) ++
    [OP_EQUALVERIFY, OP_CHECKSIG], -10⟩], 0⟩

def coinOf (tx : CTransaction) (txout : CTxOut) (found : tx.vout[0]? = some txout)
    (positive : 0 < txout.nValue) : COutput :=
  ⟨tx, 0, 20, 1000, none, txout, found, positive, by decide⟩

def scriptOutput : COutput := coinOf scriptCoin _ rfl (by decide)

def keyOutput : COutput := coinOf keyCoin _ rfl (by decide)

/-- Every kernel hash is zero, so that every coin hits. -/
def node : StakeNode where
  toNode := { sampleNode sampleView with
    mempool_hash := mempool_hash_none
    txIndex := fun hash => [scriptCoin, keyCoin].findSome? fun tx =>
      if tx.hash = hash then some (2, tx) else none }
  kernel := { sampleEnv with hash := fun _ => 0 }
  sporks := ⟨fun _ => none, 4000⟩
  tables :=
    ⟨⟨fun _ => none, keyed_none⟩, ⟨fun _ => none, keyed_none⟩, none, none, []⟩
  extractVersionFromSerial := fun _ => 2
  getHash := fun _ => 30
  getSerializeSize := fun _ => 200

def wallet (coins : List COutput) : StakeWallet where
  nBalance := 1200
  nReserveBalance := some 0
  fStake := true
  fZStake := true
  nStakeSplitThreshold := 2000
  availableCoins := coins
  listMints := []
  answers := fun _ =>
    ⟨false, 4000, fun _ => some (List.replicate 33 3), fun _ _ => none, fun _ => none,
      fun _ _ => none, fun _ _ => false⟩
  signSignature := fun _ _ => some [1]
  updateMint := fun _ _ => false

/-- The coinstake of the second coin with a credit. -/
def stakeOf (nCredit : Int) : CoinStakeKernel where
  stakeInput := .piv keyCoin 0
  txNew :=
    ⟨1, [⟨⟨21, 0⟩, [1], 0xffffffff⟩],
      [⟨0, [], -10⟩, ⟨nCredit, Script.push (List.replicate 33 3) ++ [OP_CHECKSIG], -10⟩], 0⟩
  nTxNewTime := 4030

theorem createCoinStake_key :
    createCoinStake node (wallet [keyOutput]) 0x03000008 {} =
      some (stakeOf (700 + stakeReward node)) := by
  decide

theorem createCoinStake_both :
    createCoinStake node (wallet [scriptOutput, keyOutput]) 0x03000008 {} =
      some (stakeOf (500 + stakeReward node + 700 + stakeReward node)) := by
  decide

theorem createCoinStake_createsReward_iff_key :
    CreatesReward (stakeReward node) (.piv keyCoin 0)
        ((stakeOf (700 + stakeReward node)).txNew.toTransaction 30) ↔
      CreatesExactly node (wallet [keyOutput]) 0x03000008 {}
        (stakeRounds node (wallet [keyOutput]) 0) :=
  createCoinStake_createsReward_iff rfl createCoinStake_key

/-- With both coins, the value of the first one and a second reward are created too. -/
theorem not_createCoinStake_createsReward :
    ¬∀ (node : StakeNode) (wallet : StakeWallet) (nBits : UInt32) (txNew : CMutableTransaction)
      (found : CoinStakeKernel), createCoinStake node wallet nBits txNew = some found →
        CreatesReward (stakeReward node) found.stakeInput
          (found.txNew.toTransaction (node.getHash found.txNew)) := by
  intro h
  have hcreated := (h node (wallet [scriptOutput, keyOutput]) 0x03000008 {} _
    createCoinStake_both).created
  revert hcreated
  decide

end CoinStakeTrace
end Lytix
