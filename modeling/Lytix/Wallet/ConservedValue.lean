import Lytix.Wallet.CreateTransaction

/-! What `CreateTransaction` takes in and pays out. Values are summed over the outputs whose script
satisfies a condition, which gives the total and what each recipient gets at once. -/
namespace Lytix.Spending
open CoinSelection hiding COutput

section worth
variable {p : Script → Bool} {vout : List CTxOut} {n : Nat} {amount : Int}

def worth (p : Script → Bool) (vout : List CTxOut) : Int :=
  ((vout.filter fun txout => p txout.scriptPubKey).map CTxOut.nValue).sum

def requested (p : Script → Bool) (vecSend : List (Script × Int)) : Int :=
  ((vecSend.filter fun s => p s.1).map Prod.snd).sum

@[simp] theorem worth_nil : worth p [] = 0 := rfl

theorem worth_cons (txout : CTxOut) :
    worth p (txout :: vout) =
      (if p txout.scriptPubKey then txout.nValue else 0) + worth p vout := by
  unfold worth
  by_cases h : p txout.scriptPubKey = true <;> simp [h]

theorem worth_append (vout vout' : List CTxOut) :
    worth p (vout ++ vout') = worth p vout + worth p vout' := by
  unfold worth
  simp

theorem worth_perm {vout' : List CTxOut} (h : vout.Perm vout') : worth p vout = worth p vout' :=
  ((h.filter _).map _).sum_eq

theorem worth_all : worth (fun _ => true) vout = (vout.map CTxOut.nValue).sum := by
  unfold worth
  simp

theorem requested_cons (s : Script × Int) (vecSend : List (Script × Int)) :
    requested p (s :: vecSend) = (if p s.1 then s.2 else 0) + requested p vecSend := by
  unfold requested
  by_cases h : p s.1 = true <;> simp [h]

/-- The last part brings the sum to the amount. -/
theorem splitAmount_succ : splitAmount (n + 1) amount =
    List.replicate n (amount.tdiv (n + 1 : Nat)) ++
      [amount.tdiv (n + 1 : Nat) + amount.tmod (n + 1 : Nat)] := by
  unfold splitAmount
  rw [List.range_succ, List.map_append, List.map_singleton, if_pos rfl]
  congr 1
  rw [List.eq_replicate_iff]
  refine ⟨by simp, ?_⟩
  intro part hpart
  obtain ⟨i, hi, rfl⟩ := List.mem_map.mp hpart
  rw [List.mem_range] at hi
  exact if_neg (by omega)

theorem sum_splitAmount (h : 1 ≤ n) : (splitAmount n amount).sum = amount := by
  obtain ⟨n, rfl⟩ := Nat.exists_eq_add_of_le' h
  have hdiv := Int.mul_tdiv_add_tmod amount (n + 1 : Nat)
  rw [splitAmount_succ, List.sum_append, List.sum_replicate, List.sum_singleton]
  rw [nsmul_eq_mul]
  push_cast at hdiv ⊢
  linarith

theorem splitAmount_nonneg (h : 0 ≤ amount) {part : Int} (hpart : part ∈ splitAmount n amount) :
    0 ≤ part := by
  have hdiv : 0 ≤ amount.tdiv n := Int.tdiv_nonneg h (Int.natCast_nonneg n)
  have hmod : 0 ≤ amount.tmod n := Int.tmod_nonneg _ h
  unfold splitAmount at hpart
  obtain ⟨i, -, rfl⟩ := List.mem_map.mp hpart
  split_ifs
  · omega
  · exact hdiv

theorem exists_splitAmount_neg (hn : 1 ≤ n) (h : amount < 0) :
    ∃ part ∈ splitAmount n amount, part < 0 := by
  by_contra hall
  push Not at hall
  have hsum := @sum_splitAmount n amount hn
  have hnonneg := List.sum_nonneg hall
  omega

theorem worth_splitAmount {script : Script} (parts : List Int) :
    worth p (parts.map fun amount => ⟨amount, script, -10⟩) =
      if p script then parts.sum else 0 := by
  induction parts with
  | nil => simp
  | cons part parts ih =>
    rw [List.map_cons, worth_cons, ih]
    by_cases h : p script = true <;> simp [h]

theorem worth_splitOutputs {vecSend : List (Script × Int)} (h : 1 ≤ n) :
    worth p (splitOutputs n vecSend) = requested p vecSend := by
  unfold splitOutputs
  induction vecSend with
  | nil => rfl
  | cons s vecSend ih =>
    rw [List.flatMap_cons, worth_append, worth_splitAmount, sum_splitAmount h, ih, requested_cons]

theorem worth_map_send {vecSend : List (Script × Int)} :
    worth p (vecSend.map fun s => ⟨s.2, s.1, -10⟩) = requested p vecSend := by
  induction vecSend with
  | nil => rfl
  | cons s vecSend ih => rw [List.map_cons, worth_cons, ih, requested_cons]

/-- The partial sums are not negative either. -/
theorem sumAmounts_eq {vecSend : List (Script × Int)} {nStart nValue : Int}
    (h : sumAmounts vecSend nStart = some nValue) :
    nValue = nStart + requested (fun _ => true) vecSend ∧ 0 ≤ nValue := by
  induction vecSend generalizing nStart with
  | nil =>
    unfold sumAmounts at h
    split_ifs at h with hneg
    have hsame : nStart = nValue := Option.some.inj h
    subst hsame
    exact ⟨(add_zero _).symm, not_lt.mp hneg⟩
  | cons s vecSend ih =>
    unfold sumAmounts at h
    split_ifs at h
    obtain ⟨hsum, hnonneg⟩ := ih h
    refine ⟨?_, hnonneg⟩
    rw [requested_cons, hsum]
    simp [add_assoc]

end worth

section change
variable {wallet : SpendWallet} {request : SendRequest} {round : Nat} {nChange : Int}
  {scriptChange : Script} {vout vout' : List CTxOut} {paid : Paid}

theorem worth_combineChange {p : Script → Bool}
    (h : combineChange scriptChange nChange vout = some vout') :
    worth p vout' = worth p vout + if p scriptChange then nChange else 0 := by
  induction vout generalizing vout' with
  | nil => contradiction
  | cons txout vout ih =>
    unfold combineChange at h
    split_ifs at h with hsame
    · cases h
      rw [worth_cons, worth_cons, hsame]
      split_ifs
      · ring
      · ring
    · obtain ⟨rest, hrest, rfl⟩ := Option.map_eq_some_iff.mp h
      rw [worth_cons, worth_cons, ih hrest]
      ring

theorem combineChange_nonneg (hchange : 0 ≤ nChange)
    (h : combineChange scriptChange nChange vout = some vout')
    (hnonneg : ∀ txout ∈ vout, 0 ≤ txout.nValue) : ∀ txout ∈ vout', 0 ≤ txout.nValue := by
  induction vout generalizing vout' with
  | nil => contradiction
  | cons txout vout ih =>
    rw [List.forall_mem_cons] at hnonneg
    unfold combineChange at h
    split_ifs at h with hsame
    · cases h
      rw [List.forall_mem_cons]
      exact ⟨add_nonneg hnonneg.1 hchange, hnonneg.2⟩
    · obtain ⟨rest, hrest, rfl⟩ := Option.map_eq_some_iff.mp h
      rw [List.forall_mem_cons]
      exact ⟨hnonneg.1, ih hrest hnonneg.2⟩

/-- The scripts, and with them the sizes, stay. -/
theorem map_scriptPubKey_combineChange
    (h : combineChange scriptChange nChange vout = some vout') :
    vout'.map CTxOut.scriptPubKey = vout.map CTxOut.scriptPubKey := by
  induction vout generalizing vout' with
  | nil => contradiction
  | cons txout vout ih =>
    unfold combineChange at h
    split_ifs at h with hsame
    · cases h
      rfl
    · obtain ⟨rest, hrest, rfl⟩ := Option.map_eq_some_iff.mp h
      rw [List.map_cons, List.map_cons, ih hrest]

/-- The change went to one script or to the fee. -/
structure Changes (nChange : Int) (paid paid' : Paid) : Prop where
  sums (p : Script → Bool) : worth p paid'.vout = worth p paid.vout +
    if paid'.scriptChange.any p then nChange else 0
  fee : paid'.nFeeRet = paid.nFeeRet + if paid'.scriptChange.isSome then 0 else nChange
  nonneg : (∀ txout ∈ paid.vout, 0 ≤ txout.nValue) → ∀ txout ∈ paid'.vout, 0 ≤ txout.nValue
  scripts : (paid.vout.map CTxOut.scriptPubKey).Subperm (paid'.vout.map CTxOut.scriptPubKey)

theorem changes_insertChange (hnone : paid.scriptChange = none) (hchange : 0 ≤ nChange) :
    Changes nChange paid (insertChange wallet round scriptChange nChange paid) := by
  unfold insertChange
  dsimp only
  split_ifs with hdust
  · refine ⟨?_, ?_, id, List.Subperm.refl _⟩
    · intro p
      simp [hnone]
    · simp [hnone]
  · have hperm : (paid.vout.insertIdx (wallet.getRandInt round % (paid.vout.length + 1))
        ⟨nChange, scriptChange, -10⟩).Perm (⟨nChange, scriptChange, -10⟩ :: paid.vout) := by
      apply List.perm_insertIdx
      exact Nat.lt_succ_iff.mp (Nat.mod_lt _ (Nat.succ_pos paid.vout.length))
    refine ⟨?_, ?_, ?_, ?_⟩
    · intro p
      rw [worth_perm hperm, worth_cons, add_comm]
      rfl
    · simp
    · intro hnonneg txout hmem
      rcases List.mem_cons.mp (hperm.mem_iff.mp hmem) with rfl | hmem
      · exact hchange
      · exact hnonneg txout hmem
    · have hscripts := (hperm.map CTxOut.scriptPubKey).symm.subperm
      exact (List.sublist_cons_self _ _).subperm.trans hscripts

theorem changes_addChange (hnone : paid.scriptChange = none) (hchange : 0 ≤ nChange) :
    Changes nChange paid (addChange wallet request round nChange paid) := by
  unfold addChange
  split_ifs with hdenominated hpositive
  · refine ⟨?_, ?_, id, List.Subperm.refl _⟩
    · intro p
      simp [hnone]
    · simp [hnone]
  · cases request.coinControl.bind CCoinControl.destChange with
    | none => exact changes_insertChange hnone hchange
    | some scriptChange =>
      dsimp only
      cases hcombine : combineChange scriptChange nChange paid.vout with
      | none => exact changes_insertChange hnone hchange
      | some vout =>
        refine ⟨?_, ?_, combineChange_nonneg hchange hcombine, ?_⟩
        · intro p
          rw [worth_combineChange hcombine]
          rfl
        · simp
        · rw [map_scriptPubKey_combineChange hcombine]
  · have hzero : nChange = 0 := by omega
    refine ⟨?_, ?_, id, List.Subperm.refl _⟩
    · intro p
      simp [hzero]
    · simp [hzero]

/-- The change is in the outputs or in the fee. -/
theorem Changes.balanced {paid' : Paid} (h : Changes nChange paid paid') :
    (paid'.vout.map CTxOut.nValue).sum + paid'.nFeeRet =
      (paid.vout.map CTxOut.nValue).sum + paid.nFeeRet + nChange := by
  have hworth := h.sums fun _ => true
  rw [worth_all, worth_all] at hworth
  rw [hworth, h.fee]
  cases paid'.scriptChange with
  | none =>
    simp only [Option.any_none, Option.isSome_none, if_false, Bool.false_eq_true]
    ring
  | some scriptChange =>
    simp only [Option.any_some, Option.isSome_some, if_true]
    ring

/-- A script gets more only by the change. -/
theorem Changes.recipients {paid' : Paid} (h : Changes nChange paid paid') (hchange : 0 ≤ nChange)
    (script : Script) :
    worth (· == script) paid.vout ≤ worth (· == script) paid'.vout ∧
      (paid'.scriptChange ≠ some script →
        worth (· == script) paid'.vout = worth (· == script) paid.vout) := by
  have hworth := h.sums (· == script)
  rw [hworth]
  cases paid'.scriptChange with
  | none => simp
  | some scriptChange =>
    by_cases hsame : scriptChange = script
    · subst hsame
      simpa using hchange
    · simp [hsame]

end change

section coins
variable {wallet : SpendWallet} {request : SendRequest} {round : Nat} {nTargetValue : Int}
  {outs : List CoinSelection.COutput}

/-- The selected coins are distinct, and their values are added up. -/
def Summed (selected : CoinsRet) : Prop :=
  selected.setCoinsRet.Nodup ∧
    selected.nValueRet = (selected.setCoinsRet.map WalletCoin.nValue).sum

theorem summed_insertCoins (hdistinct : (outs.map CoinSelection.COutput.coin).Nodup) :
    Summed (insertCoins (outs.map CoinSelection.COutput.valued)) := by
  have hcoins : (outs.map CoinSelection.COutput.valued).map Prod.snd =
      outs.map CoinSelection.COutput.coin := by
    rw [List.map_map]
    rfl
  rw [insertCoins_of_nodup (by rwa [hcoins]), hcoins]
  constructor
  · exact List.nodup_reverse.mpr hdistinct
  · rw [List.map_reverse, List.sum_reverse, List.map_map, List.map_map]
    rfl

theorem takeDenominated_sublist {nValueRet : Int} :
    (takeDenominated wallet nTargetValue outs nValueRet).Sublist outs := by
  induction outs generalizing nValueRet with
  | nil => exact List.Sublist.refl []
  | cons out outs ih =>
    rw [takeDenominated]
    split_ifs
    · exact ih.cons_cons out
    · exact ih.cons out
    · exact ih.cons out

/-- Each coin has one denomination. -/
theorem nodup_byDenomination (hdistinct : (outs.map CoinSelection.COutput.coin).Nodup) :
    ((byDenomination wallet outs).map CoinSelection.COutput.coin).Nodup := by
  unfold byDenomination
  rw [List.map_flatMap, List.nodup_flatMap]
  constructor
  · intro v _
    have hsub : (outs.filter fun out => out.coin.nValue == v).Sublist outs := List.filter_sublist
    exact hdistinct.sublist (hsub.map _)
  · refine wallet.denominations_nodup.imp ?_
    intro v v' hne coin hcoin hcoin'
    obtain ⟨out, hout, rfl⟩ := List.mem_map.mp hcoin
    obtain ⟨out', hout', hsame⟩ := List.mem_map.mp hcoin'
    have hv := eq_of_beq (List.mem_filter.mp hout).2
    have hv' := eq_of_beq (List.mem_filter.mp hout').2
    rw [hsame] at hv'
    exact hne (hv.symm.trans hv')

theorem selectCoins_summed (hret : (selectCoins wallet request round nTargetValue).ret = true) :
    Summed (selectCoins wallet request round nTargetValue) ∧
      nTargetValue ≤ (selectCoins wallet request round nTargetValue).nValueRet := by
  have hdistinct := wallet.availableCoins_distinct request.coinControl request.coin_type
    request.useIX
  have hminConf : ∀ {nConfMine nConfTheirs : Int} (chance : CoinChance wallet.toCoinWallet),
      let selected := selectCoinsMinConf nTargetValue nConfMine nConfTheirs chance
        (wallet.availableCoins request.coinControl request.coin_type request.useIX)
      selected.ret = true → Summed selected ∧ nTargetValue ≤ selected.nValueRet := by
    intro nConfMine nConfTheirs chance selected hret
    have hfound := (selectCoinsMinConf_selects chance hdistinct nTargetValue nConfMine
      nConfTheirs).found hret
    exact ⟨⟨hfound.nodup, hfound.value⟩, hfound.enough⟩
  revert hret
  unfold selectCoins
  dsimp only
  split_ifs with hselected hdenominated hfirst hsecond hzero
  · intro hret
    refine ⟨summed_insertCoins ?_, of_decide_eq_true hret⟩
    exact hdistinct.sublist (List.filter_sublist.map _)
  · intro hret
    refine ⟨summed_insertCoins ?_, of_decide_eq_true hret⟩
    exact (nodup_byDenomination hdistinct).sublist (takeDenominated_sublist.map _)
  · exact hminConf _
  · exact hminConf _
  · exact hminConf _
  · intro hret
    contradiction

theorem signInputs_prevout {setCoins coins : List WalletCoin} {vout : List CTxOut} {nIn : Nat}
    {vin : List CTxIn} (h : signInputs wallet setCoins vout coins nIn = some vin) :
    vin.map CTxIn.prevout = coins.map outPoint := by
  induction coins generalizing nIn vin with
  | nil =>
    cases h
    rfl
  | cons coin coins ih =>
    unfold signInputs at h
    split at h
    · rename_i scriptSig rest hsign hrest
      cases h
      rw [List.map_cons, List.map_cons, ih hrest]
    · contradiction

end coins

/-- The inputs are distinct coins, no output is negative, the inputs are worth the outputs and the
fee, and each recipient gets what is asked for, or more if the change goes there too. -/
structure Conserves (request : SendRequest) (created : Created) : Prop where
  spends : created.setCoins.Nodup ∧ created.vin.map CTxIn.prevout = created.setCoins.map outPoint
  nonneg : ∀ txout ∈ created.vout, 0 ≤ txout.nValue
  balanced : (created.setCoins.map WalletCoin.nValue).sum =
    (created.vout.map CTxOut.nValue).sum + created.nFeeRet
  paid : ∀ script ∈ request.vecSend.map Prod.fst,
    requested (· == script) request.vecSend ≤ worth (· == script) created.vout ∧
      (created.scriptChange ≠ some script →
        worth (· == script) created.vout = requested (· == script) request.vecSend)

/-- The number of parts of each payment. -/
def SendRequest.nSplitBlock (request : SendRequest) : Nat :=
  match request.coinControl with
  | some coinControl => coinControl.nSplitBlock.toNat
  | none => 1

/-- Under coin control without a split each output is checked for dust. -/
def SendRequest.checksEach (request : SendRequest) : Bool :=
  request.coinControl.any fun coinControl => !coinControl.fSplitBlock

section run
variable {wallet : SpendWallet} {request : SendRequest} {round fuel : Nat}
  {nValue nFeeRet nFeeNeeded : Int} {vout : List CTxOut} {created : Created}

theorem payeeOutputs_eq {minRelayTxFee : Nat} :
    payeeOutputs minRelayTxFee request =
      if request.checksEach then
        if (request.vecSend.map fun s => (⟨s.2, s.1, -10⟩ : CTxOut)).any (isDust minRelayTxFee) then
          .error "Transaction amount too small"
        else .ok (request.vecSend.map fun s => ⟨s.2, s.1, -10⟩)
      else .ok (splitOutputs request.nSplitBlock request.vecSend) := by
  unfold payeeOutputs SendRequest.checksEach SendRequest.nSplitBlock
  cases request.coinControl with
  | none => rfl
  | some coinControl => cases hsplit : coinControl.fSplitBlock <;> simp [hsplit]

theorem worth_payeeOutputs {minRelayTxFee : Nat} (hsplit : 1 ≤ request.nSplitBlock)
    (h : payeeOutputs minRelayTxFee request = .ok vout) (p : Script → Bool) :
    worth p vout = requested p request.vecSend := by
  rw [payeeOutputs_eq] at h
  split_ifs at h
  · cases h
    exact worth_map_send
  · cases h
    exact worth_splitOutputs hsplit

theorem payeeOutputs_nonneg {minRelayTxFee : Nat}
    (h : payeeOutputs minRelayTxFee request = .ok vout) (hnonneg : ∀ s ∈ request.vecSend, 0 ≤ s.2) :
    ∀ txout ∈ vout, 0 ≤ txout.nValue := by
  rw [payeeOutputs_eq] at h
  split_ifs at h
  · cases h
    intro txout hmem
    obtain ⟨s, hs, rfl⟩ := List.mem_map.mp hmem
    exact hnonneg s hs
  · cases h
    intro txout hmem
    obtain ⟨s, hs, hsplit⟩ := List.mem_flatMap.mp hmem
    obtain ⟨part, hpart, rfl⟩ := List.mem_map.mp hsplit
    exact splitAmount_nonneg (hnonneg s hs) hpart

/-- How a round can end. -/
theorem createRound_cases {ended : Round}
    (h : createRound wallet request round nValue nFeeRet vout = .ok ended) :
    let selected := selectCoins wallet request round (nValue + nFeeRet)
    let paid := addChange wallet request round (selected.nValueRet - nValue - nFeeRet)
      { vout := vout
        nFeeRet := nFeeRet }
    selected.ret = true ∧ ∃ vin,
      signInputs wallet selected.setCoinsRet paid.vout selected.setCoinsRet 0 = some vin ∧
      txSize vin paid.vout < MAX_STANDARD_TX_SIZE ∧
      (ended = .done { paid with
          setCoins := selected.setCoinsRet
          vin := vin } ∨
        ended = .again (max request.feePay (getMinimumFee wallet (txSize vin paid.vout)))) := by
  unfold createRound at h
  dsimp only at h ⊢
  split_ifs at h with hret
  rw [Bool.not_eq_false] at hret
  refine ⟨hret, ?_⟩
  split at h
  · contradiction
  · rename_i vin hsign
    refine ⟨vin, hsign, ?_⟩
    split_ifs at h with hlarge hfree hpolicy hdone
    · exact ⟨not_le.mp hlarge, Or.inl (Except.ok.inj h).symm⟩
    · exact ⟨not_le.mp hlarge, Or.inl (Except.ok.inj h).symm⟩
    · exact ⟨not_le.mp hlarge, Or.inr (Except.ok.inj h).symm⟩

/-- A transaction comes from the last round, whose fee is not less than the first one's. -/
theorem exists_round_of_createLoop
    (h : createLoop wallet request nValue fuel round nFeeRet = some (.ok created))
    (hfee : max request.feePay 0 ≤ nFeeRet) :
    ∃ round nFeeRet vout, max request.feePay 0 ≤ nFeeRet ∧
      payeeOutputs wallet.minRelayTxFee request = .ok vout ∧
      createRound wallet request round nValue nFeeRet vout = .ok (.done created) := by
  induction fuel generalizing round nFeeRet with
  | zero => contradiction
  | succ fuel ih =>
    unfold createLoop at h
    cases hvout : payeeOutputs wallet.minRelayTxFee request with
    | error strFailReason => simp [hvout] at h
    | ok vout =>
      cases hround : createRound wallet request round nValue nFeeRet vout with
      | error strFailReason => simp [hvout, hround] at h
      | ok ended =>
        simp only [hvout, hround] at h
        cases ended with
        | done created' =>
          have hsame : created' = created := by simpa using h
          subst hsame
          exact ⟨round, nFeeRet, vout, hfee, rfl, hround⟩
        | again nFeeNeeded =>
          have hagain := (createRound_cases hround).2
          obtain ⟨vin, -, -, hends⟩ := hagain
          rcases hends with hdone | hnext
          · contradiction
          · have hneeded : nFeeNeeded = _ := Round.again.inj hnext
            have hmore : max request.feePay 0 ≤ nFeeNeeded := by
              rw [hneeded]
              exact max_le_max (le_refl _) (Int.natCast_nonneg _)
            obtain ⟨last, nFeeLast, voutLast, hlast, hpayees, hdone⟩ := ih h hmore
            exact ⟨last, nFeeLast, voutLast, hlast, hvout.symm.trans hpayees, hdone⟩

/-- One finished round keeps the value, if no payment is negative. -/
theorem conserves_of_done {minRelayTxFee : Nat} (hsplit : 1 ≤ request.nSplitBlock)
    (hnonneg : ∀ s ∈ request.vecSend, 0 ≤ s.2)
    (hvalue : nValue = requested (fun _ => true) request.vecSend)
    (hvout : payeeOutputs minRelayTxFee request = .ok vout)
    (h : createRound wallet request round nValue nFeeRet vout = .ok (.done created)) :
    Conserves request created := by
  obtain ⟨hret, vin, hsign, -, hends⟩ := createRound_cases h
  obtain ⟨⟨hnodup, hsum⟩, henough⟩ := selectCoins_summed hret
  have hchange : 0 ≤ (selectCoins wallet request round (nValue + nFeeRet)).nValueRet - nValue -
      nFeeRet := by omega
  have hpaid := @changes_addChange wallet request round _
    { vout := vout
      nFeeRet := nFeeRet } rfl hchange
  rcases hends with hdone | hagain
  · have hcreated := Round.done.inj hdone
    subst hcreated
    have hworth := worth_payeeOutputs hsplit hvout
    have hbalanced := hpaid.balanced
    have htotal := hworth fun _ => true
    rw [worth_all, ← hvalue] at htotal
    refine ⟨⟨hnodup, signInputs_prevout hsign⟩, hpaid.nonneg (payeeOutputs_nonneg hvout hnonneg),
      ?_, ?_⟩
    · dsimp only at hbalanced ⊢
      rw [htotal] at hbalanced
      rw [hbalanced, ← hsum]
      ring
    · intro script _
      have hto := hpaid.recipients hchange script
      rwa [hworth] at hto
  · contradiction

/-- A transaction that is created comes from a finished round for the sum of the amounts. -/
theorem exists_round_of_createTransaction
    (h : createTransaction wallet request fuel = some (.ok created)) :
    ∃ nValue round nFeeRet vout, request.vecSend ≠ [] ∧
      sumAmounts request.vecSend 0 = some nValue ∧ max request.feePay 0 ≤ nFeeRet ∧
      payeeOutputs wallet.minRelayTxFee request = .ok vout ∧
      createRound wallet request round nValue nFeeRet vout = .ok (.done created) := by
  unfold createTransaction at h
  by_cases hempty : request.vecSend.isEmpty = true
  · simp [hempty] at h
  · rw [if_neg hempty] at h
    cases hsum : sumAmounts request.vecSend 0 with
    | none => simp [hsum] at h
    | some nValue =>
      simp only [hsum] at h
      have hfee : max request.feePay 0 ≤ (if 0 < request.feePay then request.feePay else 0) := by
        split_ifs <;> omega
      obtain ⟨round, nFeeRet, vout, hround⟩ := exists_round_of_createLoop h hfee
      refine ⟨nValue, round, nFeeRet, vout, ?_, rfl, hround⟩
      intro hnil
      simp [hnil] at hempty

theorem conserves_of_nonneg (hsplit : 1 ≤ request.nSplitBlock)
    (hnonneg : ∀ s ∈ request.vecSend, 0 ≤ s.2)
    (h : createTransaction wallet request fuel = some (.ok created)) :
    Conserves request created := by
  obtain ⟨nValue, round, nFeeRet, vout, -, hsum, -, hvout, hround⟩ :=
    exists_round_of_createTransaction h
  have hvalue := (sumAmounts_eq hsum).1
  rw [zero_add] at hvalue
  exact conserves_of_done hsplit hnonneg hvalue hvout hround

/-- Each output is checked, and a negative one is dust. -/
theorem nonneg_of_checksEach {minRelayTxFee : Nat} (hchecks : request.checksEach = true)
    (h : payeeOutputs minRelayTxFee request = .ok vout) : ∀ s ∈ request.vecSend, 0 ≤ s.2 := by
  rw [payeeOutputs_eq, if_pos hchecks] at h
  split_ifs at h with hdust
  intro s hs
  by_contra hneg
  apply hdust
  rw [List.any_eq_true]
  refine ⟨⟨s.2, s.1, -10⟩, List.mem_map.mpr ⟨s, hs, rfl⟩, ?_⟩
  unfold isDust
  rw [decide_eq_true_eq]
  dsimp only
  omega

end run

/-! How large a transaction is at least. -/

theorem getSizeOfCompactSize_mono {m n : Nat} (h : m ≤ n) :
    getSizeOfCompactSize m ≤ getSizeOfCompactSize n := by
  unfold getSizeOfCompactSize
  split_ifs <;> omega

theorem txSize_mono {vin vin' : List CTxIn} {vout vout' : List CTxOut}
    (hlength : vin.length ≤ vin'.length)
    (hvin : (vin.map txInSize).sum ≤ (vin'.map txInSize).sum)
    (hvout : (vout.map CTxOut.scriptPubKey).Subperm (vout'.map CTxOut.scriptPubKey)) :
    txSize vin vout ≤ txSize vin' vout' := by
  have hsizes : ∀ vout : List CTxOut, vout.map txOutSize =
      (vout.map CTxOut.scriptPubKey).map fun script => 8 + scriptSize script := by
    intro vout
    rw [List.map_map]
    rfl
  have hcount : vout.length ≤ vout'.length := by simpa using hvout.length_le
  have hsum : (vout.map txOutSize).sum ≤ (vout'.map txOutSize).sum := by
    rw [hsizes, hsizes]
    obtain ⟨scripts, hperm, hsub⟩ := hvout
    rw [← (hperm.map _).sum_eq]
    exact (hsub.map _).sum_le_sum fun _ _ => Nat.zero_le _
  have hinCount := getSizeOfCompactSize_mono hlength
  have houtCount := getSizeOfCompactSize_mono hcount
  unfold txSize
  omega

/-- One input without a signature. -/
def bareInput : CTxIn := ⟨⟨1, 0⟩, [], 0xffffffff⟩

/-- What is to be paid before a fee is asked for. -/
def SendRequest.firstTotal (request : SendRequest) : Int :=
  (sumAmounts request.vecSend 0).getD 0 + max request.feePay 0

/-- The size of the split outputs with an input, unless nothing is to be paid. -/
def SendRequest.leastSize (request : SendRequest) : Nat :=
  txSize (if 0 < request.firstTotal then [bareInput] else [])
    (splitOutputs request.nSplitBlock request.vecSend)

/-- No amount is negative, or the request is refused: it is empty, a partial sum is negative, each
output is checked for dust, or the outputs alone are too large. -/
def SendRequest.Harmless (request : SendRequest) : Prop :=
  (∀ s ∈ request.vecSend, 0 ≤ s.2) ∨ request.vecSend = [] ∨
    sumAmounts request.vecSend 0 = none ∨ request.checksEach = true ∨
    MAX_STANDARD_TX_SIZE ≤ request.leastSize

section refused
variable {wallet : SpendWallet} {request : SendRequest} {round fuel : Nat}
  {nValue nFeeRet : Int} {vout : List CTxOut} {created : Created}

theorem length_le_sum_txInSize (vin : List CTxIn) :
    41 * vin.length ≤ (vin.map txInSize).sum := by
  induction vin with
  | nil => simp
  | cons txin vin ih =>
    have hone : 41 ≤ txInSize txin := by
      unfold txInSize scriptSize getSizeOfCompactSize
      split_ifs <;> omega
    rw [List.map_cons, List.sum_cons, List.length_cons]
    omega

theorem leastSize_lt (hchecks : request.checksEach = false)
    (hsum : sumAmounts request.vecSend 0 = some nValue) (hfee : max request.feePay 0 ≤ nFeeRet)
    (hvout : payeeOutputs wallet.minRelayTxFee request = .ok vout)
    (h : createRound wallet request round nValue nFeeRet vout = .ok (.done created)) :
    request.leastSize < MAX_STANDARD_TX_SIZE := by
  obtain ⟨hret, vin, hsign, hsize, -⟩ := createRound_cases h
  obtain ⟨⟨-, hvalue⟩, henough⟩ := selectCoins_summed hret
  have hchange : 0 ≤ (selectCoins wallet request round (nValue + nFeeRet)).nValueRet - nValue -
      nFeeRet := by omega
  have hpaid := @changes_addChange wallet request round _
    { vout := vout
      nFeeRet := nFeeRet } rfl hchange
  have hpayees : vout = splitOutputs request.nSplitBlock request.vecSend := by
    rw [payeeOutputs_eq, hchecks] at hvout
    exact (Except.ok.inj hvout).symm
  have hlength : vin.length =
      (selectCoins wallet request round (nValue + nFeeRet)).setCoinsRet.length := by
    have hprevout := congrArg List.length (signInputs_prevout hsign)
    simpa using hprevout
  have hinputs : (if 0 < request.firstTotal then [bareInput] else []).length ≤ vin.length := by
    split_ifs with hpositive
    · have htotal : 0 < nValue + max request.feePay 0 := by
        unfold SendRequest.firstTotal at hpositive
        rw [hsum] at hpositive
        exact hpositive
      rw [hlength, List.length_singleton, Nat.one_le_iff_ne_zero]
      intro hnone
      rw [List.length_eq_zero_iff.mp hnone, List.map_nil, List.sum_nil] at hvalue
      omega
    · exact Nat.zero_le _
  have hleast : ((if 0 < request.firstTotal then [bareInput] else []).map txInSize).sum ≤
      (vin.map txInSize).sum := by
    have hbare : ((if 0 < request.firstTotal then [bareInput] else []).map txInSize).sum =
        41 * (if 0 < request.firstTotal then [bareInput] else []).length := by
      split_ifs <;> rfl
    have hmore := length_le_sum_txInSize vin
    omega
  unfold SendRequest.leastSize
  rw [← hpayees]
  exact (txSize_mono hinputs hleast hpaid.scripts).trans_lt hsize

end refused

/-! A wallet that has just what is asked for. -/

/-- One coin of the value, if it is positive. -/
def exactCoins (nTotal : Int) : List CoinSelection.COutput :=
  if 0 < nTotal then [soleOutput 1 nTotal] else []

/-- No fees, and signatures that take no room. -/
def exactWallet (nTotal : Int) : SpendWallet where
  obfuScationDenominations := [nTotal]
  isFromMe _ := false
  bSpendZeroConfChange := false
  denominations_nodup := List.nodup_singleton nTotal
  availableCoins _ _ _ := exactCoins nTotal
  availableCoins_distinct _ _ _ := by
    unfold exactCoins
    split_ifs
    · exact List.nodup_singleton _
    · exact List.nodup_nil
  chance _ _ := steadyChance _ fun _ _ _ => false
  belowRoundedUp _ _ := true
  getInputObfuscationRounds _ := 0
  nZeromintPercentage := 0
  getReservedKey _ := []
  getRandInt _ := 0
  signSignature _ _ _ := some []
  payTxFee := 0
  fPayAtLeastCustomFee := false
  estimateFee := 0
  minTxFee := 0
  minRelayTxFee := 0
  maxTxFee := 0
  fSendFreeTransactions := false
  enoughPriority _ _ := false

section exact
variable {request : SendRequest} {nTotal nValue nFeeRet : Int} {vout : List CTxOut}

theorem insertCoins_exact (hnonneg : 0 ≤ nTotal) :
    insertCoins ((exactCoins nTotal).map CoinSelection.COutput.valued) =
      ⟨true, (exactCoins nTotal).map CoinSelection.COutput.coin, nTotal⟩ := by
  rcases hnonneg.lt_or_eq with hpositive | hzero
  · have hcoins : exactCoins nTotal = [soleOutput 1 nTotal] := if_pos hpositive
    rw [hcoins, insertCoins_of_nodup (by simp)]
    simp [CoinSelection.COutput.valued]
  · subst hzero
    rfl

theorem scanCoins_exact {tryDenom : Nat} {scan : CoinScan} (hpositive : 0 < nTotal) :
    scanCoins (exactWallet nTotal).toCoinWallet nTotal 1 6 tryDenom (exactCoins nTotal) scan =
      if tryDenom = 0 then .inr scan else .inl (soleOutput 1 nTotal).valued := by
  have hcoins : exactCoins nTotal = [soleOutput 1 nTotal] := if_pos hpositive
  have heligible : (exactWallet nTotal).toCoinWallet.eligible 1 6 (soleOutput 1 nTotal) = true :=
    rfl
  have hdenominated : (exactWallet nTotal).toCoinWallet.isDenominatedAmount nTotal = true := by
    simp [CoinWallet.isDenominatedAmount, exactWallet]
  have hcounts : (exactWallet nTotal).toCoinWallet.counts 1 6 tryDenom (soleOutput 1 nTotal) =
      !decide (tryDenom = 0) := by
    unfold CoinWallet.counts
    rw [nValue_soleOutput, heligible, hdenominated]
    simp
  rw [hcoins, scanCoins_cons, hcounts, nValue_soleOutput, if_pos rfl]
  by_cases hdenom : tryDenom = 0
  · simp [hdenom, scanCoins]
  · simp [hdenom]

theorem selectCoinsMinConf_exact (hnonneg : 0 ≤ nTotal) :
    selectCoinsMinConf nTotal 1 6 ((exactWallet nTotal).chance 0 0) (exactCoins nTotal) =
      insertCoins ((exactCoins nTotal).map CoinSelection.COutput.valued) := by
  rcases hnonneg.lt_or_eq with hpositive | hzero
  · have hcoins : exactCoins nTotal = [soleOutput 1 nTotal] := if_pos hpositive
    have hsorted : ((exactWallet nTotal).chance 0 0).sortDenoms
        (((exactWallet nTotal).chance 0 0).randomShuffle (exactCoins nTotal)) =
          exactCoins nTotal := by
      rw [hcoins]
      rfl
    unfold selectCoinsMinConf
    dsimp only
    rw [hsorted, selectPasses, scanCoins_exact hpositive, if_pos rfl]
    dsimp only
    rw [if_neg hpositive.ne, if_pos hpositive, if_pos rfl, selectPasses, scanCoins_exact hpositive,
      if_neg (by decide), hcoins]
    rfl
  · subst hzero
    rfl

/-- Every way of selecting takes the coin. -/
theorem selectCoins_exact (hnonneg : 0 ≤ nTotal) :
    selectCoins (exactWallet nTotal) request 0 nTotal =
      ⟨true, (exactCoins nTotal).map CoinSelection.COutput.coin, nTotal⟩ := by
  have havailable : (exactWallet nTotal).availableCoins request.coinControl request.coin_type
      request.useIX = exactCoins nTotal := rfl
  have hanonymized : ∀ out, anonymized (exactWallet nTotal) out = true := by
    intro out
    rfl
  have hkept : ((exactCoins nTotal).filter fun out => out.fSpendable &&
      (decide (request.coin_type ≠ .ONLY_DENOMINATED) || anonymized (exactWallet nTotal) out)) =
        exactCoins nTotal := by
    rw [List.filter_eq_self]
    intro out hout
    unfold exactCoins at hout
    split_ifs at hout
    · rw [List.mem_singleton.mp hout, hanonymized, Bool.or_true]
      rfl
    · contradiction
  have htaken : takeDenominated (exactWallet nTotal) nTotal
      (byDenomination (exactWallet nTotal) (exactCoins nTotal)) 0 = exactCoins nTotal := by
    have hordered : byDenomination (exactWallet nTotal) (exactCoins nTotal) = exactCoins nTotal := by
      unfold byDenomination exactCoins
      split_ifs
      · change [nTotal].flatMap _ = _
        simp
      · rfl
    rw [hordered]
    unfold exactCoins
    split_ifs
    · have hbelow : (exactWallet nTotal).belowRoundedUp (0 + (soleOutput 1 nTotal).coin.nValue)
          nTotal = true := rfl
      rw [takeDenominated, if_pos hbelow, if_pos (hanonymized _)]
      rfl
    · rfl
  unfold selectCoins
  dsimp only
  rw [havailable, hkept, htaken, selectCoinsMinConf_exact hnonneg, insertCoins_exact hnonneg]
  by_cases hselected : request.coinControl.any CCoinControl.hasSelected = true
  · simp [hselected]
  · rw [if_neg hselected]
    by_cases hdenominated : request.coin_type = .ONLY_DENOMINATED
    · simp [hdenominated]
    · rw [if_neg hdenominated]
      rfl

theorem addChange_zero {wallet : SpendWallet} {round : Nat} {paid : Paid} :
    addChange wallet request round 0 paid = paid := by
  unfold addChange
  split_ifs with hdenominated hpositive
  · simp
  · omega
  · rfl

/-- The request is met at once, with no change. -/
theorem createRound_exact (hnonneg : 0 ≤ nValue + nFeeRet) (hfee : max request.feePay 0 ≤ nFeeRet)
    (hsize : txSize (if 0 < nValue + nFeeRet then [bareInput] else []) vout <
      MAX_STANDARD_TX_SIZE) :
    ∃ created : Created, created.vout = vout ∧
      createRound (exactWallet (nValue + nFeeRet)) request 0 nValue nFeeRet vout =
        .ok (.done created) := by
  have hchange : nValue + nFeeRet - nValue - nFeeRet = 0 := by ring
  have hsign : signInputs (exactWallet (nValue + nFeeRet))
      ((exactCoins (nValue + nFeeRet)).map CoinSelection.COutput.coin) vout
      ((exactCoins (nValue + nFeeRet)).map CoinSelection.COutput.coin) 0 =
        some (if 0 < nValue + nFeeRet then [bareInput] else []) := by
    unfold exactCoins
    split_ifs <;> rfl
  have hminimum : ∀ nBytes, getMinimumFee (exactWallet (nValue + nFeeRet)) nBytes = 0 := by
    intro nBytes
    exact Nat.min_zero _
  have hrelay : ∀ nBytes, getFee (exactWallet (nValue + nFeeRet)).minRelayTxFee nBytes = 0 := by
    intro nBytes
    simp [getFee, exactWallet]
  unfold createRound
  dsimp only
  rw [selectCoins_exact hnonneg, if_neg (by simp), hchange, addChange_zero, hsign]
  dsimp only
  rw [if_neg (by omega), if_neg (fun h => absurd h.1 (by simp [exactWallet])), hminimum, hrelay,
    if_neg, if_pos]
  · exact ⟨_, rfl, rfl⟩
  · exact hfee
  · simp

/-- A request that is not refused and asks for a negative payment is met with a negative output. -/
theorem exists_not_conserves (hsplit : 1 ≤ request.nSplitBlock) (h : ¬ request.Harmless) :
    ∃ wallet fuel created, createTransaction wallet request fuel = some (.ok created) ∧
      ¬ Conserves request created := by
  unfold SendRequest.Harmless at h
  push Not at h
  obtain ⟨⟨s, hs, hneg⟩, hnonempty, hsum, hchecks, hsize⟩ := h
  rw [← Bool.eq_false_iff] at hchecks
  obtain ⟨nValue, hsum⟩ := Option.ne_none_iff_exists'.mp hsum
  have hvalue := (sumAmounts_eq hsum).2
  have htotal : request.firstTotal = nValue + max request.feePay 0 := by
    unfold SendRequest.firstTotal
    rw [hsum]
    rfl
  have hfirst : (if 0 < request.feePay then request.feePay else 0) = max request.feePay 0 := by
    split_ifs <;> omega
  have hvout : ∀ minRelayTxFee, payeeOutputs minRelayTxFee request =
      .ok (splitOutputs request.nSplitBlock request.vecSend) := by
    intro minRelayTxFee
    rw [payeeOutputs_eq, hchecks]
    rfl
  unfold SendRequest.leastSize at hsize
  rw [htotal] at hsize
  obtain ⟨created, hcreated, hround⟩ := @createRound_exact request nValue (max request.feePay 0)
    (splitOutputs request.nSplitBlock request.vecSend) (by omega) (le_refl _) (by omega)
  refine ⟨exactWallet (nValue + max request.feePay 0), 1, created, ?_, ?_⟩
  · unfold createTransaction createLoop
    simp [hnonempty, hsum, hvout, hfirst, hround]
  · intro hconserves
    obtain ⟨part, hpart, hless⟩ := exists_splitAmount_neg hsplit hneg
    have hmem : (⟨part, s.1, -10⟩ : CTxOut) ∈ created.vout := by
      rw [hcreated]
      exact List.mem_flatMap.mpr ⟨s, hs, List.mem_map.mpr ⟨part, hpart, rfl⟩⟩
    have hnonneg := hconserves.nonneg _ hmem
    exact absurd hless (not_lt.mpr hnonneg)

end exact

def sampleSpendWallet : SpendWallet := { exactWallet 0 with
  availableCoins := fun _ _ _ => [soleOutput 1 2000000000]
  availableCoins_distinct := fun _ _ _ => List.nodup_singleton _
  getReservedKey := fun _ => [3]
  signSignature := fun _ _ _ => some [48, 69, 2]
  minTxFee := 10000
  minRelayTxFee := 10000
  maxTxFee := 100000000 }

def sendTo (vecSend : List (Script × Int)) : SendRequest := ⟨vecSend, none, .ALL_COINS, false, 0⟩

/-- The first round has no fee yet, and the second one enough. -/
def sampleCreated (toFirst toSecond change : Int) : Created where
  vout := [⟨change, [3], -10⟩, ⟨toFirst, [1], -10⟩, ⟨toSecond, [2], -10⟩]
  nFeeRet := 840
  scriptChange := some [3]
  setCoins := [(soleOutput 1 2000000000).coin]
  vin := [⟨⟨1, 0⟩, [48, 69, 2], 0xffffffff⟩]

end Lytix.Spending
