import Lytix.Zerocoin.RecordMirror

/-! The public coins minted from `Zerocoin_Block_V2_Start` on, which `ConnectBlock` looks for in the
zerocoin database, and never in the block itself. -/
namespace Lytix
open Checks CountEntries RecordTables Runs

section
variable (env : ConsensusEnv) (getHash : Int → Uint256) (network : Network)

def mintValues (block : CBlock) : List Int := (blockMints env block).map Prod.fst

/-- The first height at which mints are looked for. -/
def v2Height : ℕ := (Params network).nBlockZerocoinV2.toNat

/-- The values of the mints of the blocks from that height on. -/
def mintedSinceV2 (chain : List CBlock) : List Int :=
  (chain.drop (v2Height network)).flatMap (mintValues env)

/-- The records of the mints of the blocks from that height on. -/
def mintGroups (chain : List CBlock) : List (List (Int × Uint256)) :=
  (chain.drop (v2Height network)).map (blockMints env)

/-- A `ConnectTip` from that height on finds the mints that are recorded, and its block mints no
coin twice; `VerifyDB` puts back what it erases. -/
def RecordEvent.KeepsDistinct (s : RecordState) : RecordEvent → Prop
  | .connectTip node block _ _ _ _ =>
    v2Height network ≤ s.chainActive.length →
      FindsRecords (node.withRecords getHash network s.zerocoinDB)
          (mintGroups env network s.chainActive).flatten ∧
        (mintValues env block).Nodup
  | .disconnectTip => True
  | .verify run => run.KeepsRecords env s.chainActive

structure RecordState.Distinct (s : RecordState) : Prop where
  holds : HoldsGroups getHash (mintGroups env network s.chainActive) s.zerocoinDB.mints
  apart : Apart getHash (mintGroups env network s.chainActive)
  own : ∀ block ∈ s.chainActive.drop (v2Height network), (mintValues env block).Nodup
  decodes : ∀ block ∈ s.chainActive, ∀ tx ∈ block.vtx, Decodes env tx

end

section
variable {env : ConsensusEnv} {getHash : Int → Uint256} {network : Network} {chain : List CBlock}
  {block : CBlock} {db db' : CZerocoinDB} {s s' : RecordState}

theorem mintGroups_of_below (h : chain.length ≤ v2Height network) :
    mintGroups env network chain = [] := by
  rw [mintGroups, List.drop_of_length_le h, List.map_nil]

theorem mintGroups_concat (h : v2Height network ≤ chain.length) :
    mintGroups env network (chain ++ [block]) =
      mintGroups env network chain ++ [blockMints env block] := by
  rw [mintGroups, List.drop_append_of_le_length h, List.map_append]
  rfl

theorem holdsGroups_nil {table : Table Uint256 Uint256} :
    HoldsGroups getHash ([] : List (List (Int × Uint256))) table :=
  fun _ hg => absurd hg List.not_mem_nil

theorem holdsGroups_connect
    (h : HoldsGroups getHash (mintGroups env network chain) db.mints)
    (hfresh : v2Height network ≤ chain.length →
      Fresh getHash (mintGroups env network chain) (blockMints env block)) :
    HoldsGroups getHash (mintGroups env network (chain ++ [block]))
      (writeAll db.mints (keyed getHash (blockMints env block))) := by
  by_cases hheight : v2Height network ≤ chain.length
  · rw [mintGroups_concat hheight]
    exact h.write (hfresh hheight)
  · have hshort : (chain ++ [block]).length ≤ v2Height network := by
      rw [List.length_append, List.length_singleton]
      omega
    rw [mintGroups_of_below hshort]
    exact holdsGroups_nil

theorem holdsGroups_disconnect
    (h : HoldsGroups getHash (mintGroups env network (chain ++ [block])) db.mints)
    (hapart : Apart getHash (mintGroups env network (chain ++ [block])))
    (herases : Erases getHash (blockMints env block) db.mints db'.mints) :
    HoldsGroups getHash (mintGroups env network chain) db'.mints := by
  by_cases hheight : v2Height network ≤ chain.length
  · rw [mintGroups_concat hheight] at h hapart
    exact h.erase (apart_concat.mp hapart).2 herases
  · rw [mintGroups_of_below (Nat.le_of_not_le hheight)]
    exact holdsGroups_nil

theorem apart_mintGroups_take (h : Apart getHash (mintGroups env network chain)) (k : ℕ) :
    Apart getHash (mintGroups env network (chain.take k)) := by
  unfold mintGroups at h ⊢
  rw [List.drop_take]
  have hsub := (List.take_sublist (k - v2Height network) (chain.drop (v2Height network))).map
    (blockMints env)
  exact h.sublist hsub

/-- The mints of the chain below each height move along with the blocks. -/
theorem tracks_mintGroups (h : Apart getHash (mintGroups env network chain)) :
    TracksRecords env getHash chain fun k db =>
      HoldsGroups getHash (mintGroups env network (chain.take k)) db.mints where
  down := by
    intro k block db db' hblock herases hholds
    have hapart := apart_mintGroups_take h (k + 1)
    rw [take_succ_eq hblock] at hholds hapart
    exact holdsGroups_disconnect hholds hapart herases.mints
  up := by
    intro k block db hblock hholds
    have hapart := apart_mintGroups_take h (k + 1)
    rw [take_succ_eq hblock] at hapart ⊢
    refine holdsGroups_connect hholds fun hheight => ?_
    rw [mintGroups_concat hheight] at hapart
    exact (apart_concat.mp hapart).2
  same := fun k db db' herases hholds => hholds.congr fun key => herases.mints.kept key (by simp)

theorem RecordState.Distinct.connect {node : ConsensusNode} {coins : CoinsMap}
    {hashBestBlock : Uint256} {pindex : CBlockIndex} {fAlreadyChecked : Bool}
    {outcome : ConnectOutcome} (hnetwork : network ≠ .testnet) (h : s.Distinct env getHash network)
    (hevent : v2Height network ≤ s.chainActive.length →
      FindsRecords (node.withRecords getHash network s.zerocoinDB)
          (mintGroups env network s.chainActive).flatten ∧
        (mintValues env block).Nodup)
    (hconnect : connectBlock env (node.withRecords getHash network s.zerocoinDB) block coins
      hashBestBlock { pindex with nHeight := s.chainActive.length } false fAlreadyChecked =
        .ok outcome) :
    RecordState.Distinct env getHash network
      ⟨s.chainActive ++ [block], s.zerocoinDB.record getHash outcome⟩ := by
  have hfresh : v2Height network ≤ s.chainActive.length →
      Fresh getHash (mintGroups env network s.chainActive) (blockMints env block) := by
    intro hheight
    have hnew := notRecorded_of_connectBlock hconnect
    refine fresh_of_notFound h.holds (hevent hheight).1 (hnew.mints ?_ hnetwork)
    exact Int.toNat_le.mp hheight
  constructor
  case holds =>
    obtain ⟨-, hwritten⟩ := @record_of_connectBlock env getHash _ s.zerocoinDB _ _ _ _ _ _ _
      hconnect
    rw [hwritten]
    exact holdsGroups_connect h.holds hfresh
  case apart =>
    by_cases hheight : v2Height network ≤ s.chainActive.length
    · rw [mintGroups_concat hheight]
      exact apart_concat.mpr ⟨h.apart, hfresh hheight⟩
    · rw [mintGroups_of_below (by rw [List.length_append, List.length_singleton]; omega)]
      exact List.Pairwise.nil
  case own =>
    intro block' hmem
    by_cases hheight : v2Height network ≤ s.chainActive.length
    · rw [List.drop_append_of_le_length hheight] at hmem
      rcases List.mem_append.mp hmem with hold | hlast
      · exact h.own block' hold
      · obtain rfl := List.mem_singleton.mp hlast
        exact (hevent hheight).2
    · rw [List.drop_of_length_le (by rw [List.length_append, List.length_singleton]; omega)] at hmem
      exact absurd hmem List.not_mem_nil
  case decodes => exact decodes_concat h.decodes hconnect

theorem RecordState.Distinct.step {event : RecordEvent} (hnetwork : network ≠ .testnet)
    (h : s.Distinct env getHash network) (hevent : event.KeepsDistinct env getHash network s)
    (hstep : recordStep env getHash network s event = some s') :
    s'.Distinct env getHash network := by
  cases event with
  | connectTip node block coins hashBestBlock pindex fAlreadyChecked =>
    simp only [recordStep, Option.map_eq_some_iff, toOption_eq_some] at hstep
    obtain ⟨outcome, hconnect, rfl⟩ := hstep
    exact h.connect hnetwork hevent hconnect
  | disconnectTip =>
    obtain ⟨block, db, hchain, hdisconnect, rfl⟩ := recordStep_disconnectTip hstep
    obtain ⟨hholds, hapart, hown, hdecodes⟩ := h
    have hbelow := apart_mintGroups_take hapart (s.chainActive.length - 1)
    rw [← List.dropLast_eq_take] at hbelow
    rw [hchain] at hholds hapart
    refine ⟨holdsGroups_disconnect hholds hapart (disconnectRecords_spec hdisconnect).mints,
      hbelow, fun block' hmem => hown block' ?_, fun block' hmem => hdecodes block' ?_⟩
    · dsimp only at hmem
      rw [List.dropLast_eq_take, List.drop_take] at hmem
      exact List.mem_of_mem_take hmem
    · exact List.mem_of_mem_dropLast hmem
  | verify run =>
    obtain rfl := Option.some.inj hstep
    obtain ⟨hholds, hapart, hown, hdecodes⟩ := h
    refine ⟨?_, hapart, hown, hdecodes⟩
    have hfull : HoldsGroups getHash
        (mintGroups env network (s.chainActive.take s.chainActive.length)) s.zerocoinDB.mints := by
      rwa [List.take_length]
    have hkept := verifyDB_keeps (tracks_mintGroups hapart) hdecodes hevent hfull
    rwa [List.take_length] at hkept

theorem RecordState.distinct_start : RecordState.start.Distinct env getHash network := by
  have hnone : mintGroups env network [] = [] := mintGroups_of_below (Nat.zero_le _)
  constructor
  case holds => exact hnone ▸ holdsGroups_nil
  case apart => exact hnone ▸ List.Pairwise.nil
  case own => simp [RecordState.start]
  case decodes => simp [RecordState.start]

theorem RecordState.Distinct.nodup (h : s.Distinct env getHash network) :
    (mintedSinceV2 env network s.chainActive).Nodup := by
  rw [mintedSinceV2, List.nodup_flatMap]
  refine ⟨h.own, ?_⟩
  have hapart := h.apart
  unfold mintGroups Apart at hapart
  rw [List.pairwise_map] at hapart
  refine hapart.imp fun hkeys => ?_
  intro n hn hn'
  obtain ⟨r, hr, rfl⟩ := List.mem_map.mp hn
  obtain ⟨r', hr', hsame⟩ := List.mem_map.mp hn'
  exact hkeys r hr r' hr' (congrArg getHash hsame.symm)

/-- No coin is minted twice in a run whose blocks mint none twice. -/
theorem nodup_mintedSinceV2_of_run {events : List RecordEvent} (hnetwork : network ≠ .testnet)
    (along : AttemptAlong (recordStep env getHash network)
      (fun s e => RecordEvent.KeepsDistinct env getHash network s e) RecordState.start events)
    (run : attempt (recordStep env getHash network) RecordState.start events = some s) :
    (mintedSinceV2 env network s.chainActive).Nodup := by
  have hend := along.invariant run RecordState.distinct_start
    fun s e s' hs he hstep => RecordState.Distinct.step hnetwork hs he hstep
  exact hend.nodup

end

/-! A regression test chain up to `Zerocoin_Block_V2_Start`, first of proof of work and then of
proof of stake. Its next block mints one coin twice. -/

def emptyCoinBase : CTransaction := ⟨20, 1, [⟨COutPoint.null, [1], 0⟩], [⟨0, [], -10⟩], 0⟩

def coinStake : CTransaction :=
  ⟨23, 1, [⟨⟨30, 0⟩, [], 0⟩], [⟨0, [], -10⟩, ⟨COIN, [4], -10⟩], 0⟩

def stakedBlock (vtx : List CTransaction) : CBlock :=
  launchBlock (emptyCoinBase :: coinStake :: vtx)

def oneMint : CTransaction := ⟨24, 1, [⟨⟨31, 0⟩, [], 0⟩], [⟨COIN, [OP_ZEROCOINMINT], -10⟩], 0⟩

def twoMints : CTransaction :=
  ⟨24, 1, [⟨⟨31, 0⟩, [], 0⟩],
    [⟨COIN, [OP_ZEROCOINMINT], -10⟩, ⟨COIN, [OP_ZEROCOINMINT], -10⟩], 0⟩

def stakeCoins : CoinsMap := launchCoins.set 31 ⟨false, false, [⟨2 * COIN, [4], -10⟩], 0, 1⟩

/-- `ConnectTip` of a block that its predecessor 1 comes before. -/
def connectNext (block : CBlock) : RecordEvent :=
  .connectTip (launchNode {} empty_pprev empty_nHeight) block stakeCoins 1 launchIndex false

def regtestNode : ConsensusNode :=
  (launchNode {} empty_pprev empty_nHeight).withRecords plainHash .regtest ⟨∅, ∅⟩

/-- The first block, `works` more of proof of work, `stakes` of proof of stake, and `block`. -/
def regtestRun (works stakes : ℕ) (block : CBlock) : List RecordEvent :=
  connectFirst :: (List.replicate works (connectNext firstBlock) ++
    (List.replicate stakes (connectNext (stakedBlock [])) ++ [connectNext block]))

def workChain (works : ℕ) : List CBlock := firstBlock :: List.replicate works firstBlock

def stakeChain (works stakes : ℕ) : List CBlock :=
  workChain works ++ List.replicate stakes (stakedBlock [])

/-- A block connects when every part of `ConnectBlock` passes. -/
theorem connectBlock_of_parts {env : ConsensusEnv} {node : ConsensusNode} {block : CBlock}
    {coins : CoinsMap} {hashBestBlock : Uint256} {pindex supplied : CBlockIndex} {st : ConnectState}
    {fJustCheck fAlreadyChecked : Bool}
    (hheader : connectBlockHeader env node block coins hashBestBlock pindex fJustCheck
      fAlreadyChecked = .ok ())
    (hloop : block.vtx.foldlM (connectTx env node block pindex.nHeight
      (decide (node.totalBlocksEstimate ≤ pindex.nHeight))) { coins := coins } = .ok st)
    (hsupply : updateZPIVSupply env node block pindex = .ok supplied)
    (hvalue : checkBlockValue node block (trackMoneySupply node supplied st) st.nFees = .ok ())
    (hcheckpoint : node.validateAccumulatorCheckpoint block = true) :
    ∃ outcome, connectBlock env node block coins hashBestBlock pindex fJustCheck fAlreadyChecked =
      .ok outcome ∧ outcome.vSpends = st.vSpends ∧ outcome.vMints = st.vMints := by
  simp [connectBlock, hheader, hloop, hsupply, hvalue, hcheckpoint, stopIf, bind, Except.bind]

theorem recordStep_connectNext {chain : List CBlock} {block : CBlock} {outcome : ConnectOutcome}
    (h : connectBlock launchEnv regtestNode block stakeCoins 1
      { launchIndex with nHeight := chain.length } false false = .ok outcome) :
    recordStep launchEnv plainHash .regtest ⟨chain, ⟨∅, ∅⟩⟩ (connectNext block) =
      some ⟨chain ++ [block], (CZerocoinDB.mk ∅ ∅).record plainHash outcome⟩ := by
  have hstep : recordStep launchEnv plainHash .regtest ⟨chain, ⟨∅, ∅⟩⟩ (connectNext block) =
      (connectBlock launchEnv regtestNode block stakeCoins 1
        { launchIndex with nHeight := chain.length } false false).toOption.map fun outcome =>
          ⟨chain ++ [block], (CZerocoinDB.mk ∅ ∅).record plainHash outcome⟩ := rfl
  rw [hstep, h]
  rfl

theorem record_of_none {outcome : ConnectOutcome} (hspends : outcome.vSpends = [])
    (hmints : outcome.vMints = []) : (CZerocoinDB.mk ∅ ∅).record plainHash outcome = ⟨∅, ∅⟩ := by
  rw [CZerocoinDB.record, hspends, hmints]
  rfl

/-- A block without mints and spends connects in its own phase of the chain. -/
theorem recordStep_connectNext_of_loop {chain : List CBlock} {block : CBlock}
    (hcheck : checkBlock launchEnv regtestNode block true true = .ok ())
    (hphase : block.isProofOfStake = true ↔ 250 < chain.length)
    (hunspent : ¬ ∃ tx ∈ block.vtx, stakeCoins.haveCoins tx.hash = true)
    (hloop : ∀ fScriptChecks, ∃ st, block.vtx.foldlM
      (connectTx launchEnv regtestNode block chain.length fScriptChecks) { coins := stakeCoins } =
        .ok st ∧ st.vSpends = [] ∧ st.vMints = [] ∧ st.nFees = 0)
    (hsupply : ∃ supplied, updateZPIVSupply launchEnv regtestNode block
      { launchIndex with nHeight := chain.length } = .ok supplied ∧ ∀ st,
        st.nFees = 0 → checkBlockValue regtestNode block (trackMoneySupply regtestNode supplied st)
          st.nFees = .ok ()) :
    recordStep launchEnv plainHash .regtest ⟨chain, ⟨∅, ∅⟩⟩ (connectNext block) =
      some ⟨chain ++ [block], ⟨∅, ∅⟩⟩ := by
  have hheader : connectBlockHeader launchEnv regtestNode block stakeCoins 1
      { launchIndex with nHeight := chain.length } false false = .ok () := by
    have hparams : regtestNode.params.nLastPOWBlock = 250 := rfl
    simp only [connectBlockHeader, bind_eq_ok, checkWhen_eq_ok, stopIf_eq_ok, hparams]
    refine ⟨(), fun _ => hcheck, (), fun hne => hne rfl, (), fun hearly => ?_, (),
      fun hended => ?_, hunspent⟩
    · have hlate := hphase.mp hearly.2
      omega
    · have hlate : 250 < chain.length := by omega
      rw [CBlock.isProofOfWork, hphase.mpr hlate] at hended
      exact absurd hended.2 (by decide)
  obtain ⟨st, hst, hspends, hmints, hfees⟩ :=
    hloop (decide (regtestNode.totalBlocksEstimate ≤ chain.length))
  obtain ⟨supplied, hsupplied, hvalue⟩ := hsupply
  obtain ⟨outcome, houtcome, hs, hm⟩ :=
    connectBlock_of_parts hheader hst hsupplied (hvalue st hfees) rfl
  rw [recordStep_connectNext houtcome, record_of_none (hs.trans hspends) (hm.trans hmints)]

theorem recordStep_connectNext_firstBlock {chain : List CBlock} (h : chain.length ≤ 250) :
    recordStep launchEnv plainHash .regtest ⟨chain, ⟨∅, ∅⟩⟩ (connectNext firstBlock) =
      some ⟨chain ++ [firstBlock], ⟨∅, ∅⟩⟩ := by
  have hwork : firstBlock.isProofOfStake = false := rfl
  refine recordStep_connectNext_of_loop rfl (by simp [hwork, h]) (by decide)
    (fun _ => ⟨_, rfl, rfl, rfl, rfl⟩) ⟨_, rfl, fun st hfees => ?_⟩
  rw [hfees]
  exact checkWhen_eq_ok.mpr fun _ => rfl

theorem recordStep_connectNext_stakedBlock {chain : List CBlock} (h : 250 < chain.length) :
    recordStep launchEnv plainHash .regtest ⟨chain, ⟨∅, ∅⟩⟩ (connectNext (stakedBlock [])) =
      some ⟨chain ++ [stakedBlock []], ⟨∅, ∅⟩⟩ := by
  have hstake : (stakedBlock []).isProofOfStake = true := rfl
  refine recordStep_connectNext_of_loop rfl (by simp [hstake, h]) (by decide)
    (fun fScriptChecks => ?_) ⟨_, rfl, fun st hfees => ?_⟩
  · cases fScriptChecks with
    | false => exact ⟨_, rfl, rfl, rfl, rfl⟩
    | true => exact ⟨_, rfl, rfl, rfl, rfl⟩
  · rw [hfees]
    exact checkWhen_eq_ok.mpr fun _ => rfl

theorem recordStep_regtest_first :
    recordStep launchEnv plainHash .regtest .start connectFirst = some ⟨workChain 0, ⟨∅, ∅⟩⟩ := rfl

theorem recordStep_works {works i : ℕ} (h : works = 250) (hi : i < works) :
    recordStep launchEnv plainHash .regtest ⟨workChain i, ⟨∅, ∅⟩⟩ (connectNext firstBlock) =
      some ⟨workChain (i + 1), ⟨∅, ∅⟩⟩ := by
  have hheight : (workChain i).length ≤ 250 := by
    rw [workChain, List.length_cons, List.length_replicate]
    omega
  rw [recordStep_connectNext_firstBlock hheight, workChain, workChain, List.cons_append,
    ← List.replicate_succ']

theorem recordStep_stakes {works : ℕ} (h : works = 250) (i : ℕ) :
    recordStep launchEnv plainHash .regtest ⟨stakeChain works i, ⟨∅, ∅⟩⟩
        (connectNext (stakedBlock [])) = some ⟨stakeChain works (i + 1), ⟨∅, ∅⟩⟩ := by
  have hheight : 250 < (stakeChain works i).length := by
    rw [stakeChain, workChain, List.length_append, List.length_cons, List.length_replicate]
    omega
  rw [recordStep_connectNext_stakedBlock hheight, stakeChain, stakeChain, List.append_assoc,
    ← List.replicate_succ']

theorem attempt_works {works : ℕ} (h : works = 250) :
    attempt (recordStep launchEnv plainHash .regtest) ⟨workChain 0, ⟨∅, ∅⟩⟩
      (List.replicate works (connectNext firstBlock)) = some ⟨stakeChain works 0, ⟨∅, ∅⟩⟩ := by
  have hjoin : stakeChain works 0 = workChain works := by
    rw [stakeChain, List.replicate_zero, List.append_nil]
  rw [hjoin]
  exact @attempt_replicate _ _ _ _ _ (fun i => RecordState.mk (workChain i) ⟨∅, ∅⟩)
    fun i hi => recordStep_works h hi

theorem attempt_stakes {works stakes : ℕ} (h : works = 250) :
    attempt (recordStep launchEnv plainHash .regtest) ⟨stakeChain works 0, ⟨∅, ∅⟩⟩
      (List.replicate stakes (connectNext (stakedBlock []))) =
        some ⟨stakeChain works stakes, ⟨∅, ∅⟩⟩ :=
  @attempt_replicate _ _ _ _ _ (fun i => RecordState.mk (stakeChain works i) ⟨∅, ∅⟩)
    fun i _ => recordStep_stakes h i

/-- The run comes to the last block with no records. -/
theorem attempt_regtestRun {works stakes : ℕ} {block : CBlock} {s : RecordState} (h : works = 250)
    (hlast : recordStep launchEnv plainHash .regtest ⟨stakeChain works stakes, ⟨∅, ∅⟩⟩
      (connectNext block) = some s) :
    attempt (recordStep launchEnv plainHash .regtest) .start (regtestRun works stakes block) =
      some s := by
  refine attempt_cons_eq_some.mpr ⟨_, recordStep_regtest_first, ?_⟩
  rw [attempt_append, attempt_works h, Option.bind_some, attempt_append, attempt_stakes h,
    Option.bind_some]
  exact attempt_cons_eq_some.mpr ⟨s, hlast, rfl⟩

theorem v2Height_regtest : v2Height .regtest = 99999999 := rfl

theorem length_stakeChain (works stakes : ℕ) :
    (stakeChain works stakes).length = works + 1 + stakes := by
  rw [stakeChain, workChain, List.length_append, List.length_cons, List.length_replicate,
    List.length_replicate]

/-- Below `Zerocoin_Block_V2_Start` nothing is asked of a block. -/
theorem keepsDistinct_below {chain : List CBlock} {db : CZerocoinDB} {block : CBlock}
    (h : chain.length < 99999999) :
    (connectNext block).KeepsDistinct launchEnv plainHash .regtest ⟨chain, db⟩ := by
  intro hheight
  rw [v2Height_regtest] at hheight
  exact absurd h (Nat.not_lt.mpr hheight)

/-- A last block that mints no coin twice. -/
theorem attemptAlong_regtestRun {works stakes : ℕ} {block : CBlock} (h : works = 250)
    (hstakes : works + 1 + stakes = 99999999) (hblock : (mintValues launchEnv block).Nodup) :
    AttemptAlong (recordStep launchEnv plainHash .regtest)
      (fun s e => RecordEvent.KeepsDistinct launchEnv plainHash .regtest s e) .start
      (regtestRun works stakes block) := by
  have hworks : AttemptAlong (recordStep launchEnv plainHash .regtest)
      (fun s e => RecordEvent.KeepsDistinct launchEnv plainHash .regtest s e) ⟨workChain 0, ⟨∅, ∅⟩⟩
      (List.replicate works (connectNext firstBlock)) := by
    refine @attemptAlong_replicate _ _ _ _ _ _ (fun i => RecordState.mk (workChain i) ⟨∅, ∅⟩)
      (fun i hi => recordStep_works h hi) fun i hi => keepsDistinct_below ?_
    rw [workChain, List.length_cons, List.length_replicate]
    omega
  have hstaked : AttemptAlong (recordStep launchEnv plainHash .regtest)
      (fun s e => RecordEvent.KeepsDistinct launchEnv plainHash .regtest s e)
      ⟨stakeChain works 0, ⟨∅, ∅⟩⟩ (List.replicate stakes (connectNext (stakedBlock []))) := by
    refine @attemptAlong_replicate _ _ _ _ _ _
      (fun i => RecordState.mk (stakeChain works i) ⟨∅, ∅⟩)
      (fun i _ => recordStep_stakes h i) fun i hi => keepsDistinct_below ?_
    rw [length_stakeChain]
    omega
  have hlast : RecordEvent.KeepsDistinct launchEnv plainHash .regtest
      ⟨stakeChain works stakes, ⟨∅, ∅⟩⟩ (connectNext block) := by
    refine fun _ => ⟨fun r hr => absurd hr ?_, hblock⟩
    rw [mintGroups_of_below (by rw [length_stakeChain, hstakes, v2Height_regtest])]
    exact List.not_mem_nil
  refine ⟨fun hheight => absurd hheight (by rw [v2Height_regtest]; simp [RecordState.start]), ?_⟩
  intro s' hs'
  obtain rfl : RecordState.mk (workChain 0) ⟨∅, ∅⟩ = s' :=
    Option.some.inj (recordStep_regtest_first.symm.trans hs')
  exact hworks.append (attempt_works h) (hstaked.append (attempt_stakes h)
    ⟨hlast, fun _ _ => trivial⟩)

theorem mintedSinceV2_regtest {works stakes : ℕ} {block : CBlock}
    (hstakes : works + 1 + stakes = 99999999) :
    mintedSinceV2 launchEnv .regtest (stakeChain works stakes ++ [block]) =
      mintValues launchEnv block := by
  have hlength : v2Height .regtest = (stakeChain works stakes).length := by
    rw [length_stakeChain, hstakes, v2Height_regtest]
  rw [mintedSinceV2, hlength, List.drop_left]
  simp

theorem exists_attempt_regtestRun {works stakes : ℕ} {block : CBlock} (h : works = 250)
    (hstakes : works + 1 + stakes = 99999999)
    (hconnect : ∃ outcome, connectBlock launchEnv regtestNode block stakeCoins 1
      { launchIndex with nHeight := 99999999 } false false = .ok outcome) :
    ∃ s, attempt (recordStep launchEnv plainHash .regtest) .start (regtestRun works stakes block) =
      some s ∧ s.chainActive = stakeChain works stakes ++ [block] := by
  obtain ⟨outcome, houtcome⟩ := hconnect
  rw [← hstakes, ← length_stakeChain] at houtcome
  exact ⟨_, attempt_regtestRun h (recordStep_connectNext houtcome), rfl⟩

theorem nodup_mintedSinceV2_oneMint :
    ∃ s, attempt (recordStep launchEnv plainHash .regtest) .start
        (regtestRun 250 99999748 (stakedBlock [oneMint])) = some s ∧
      (mintedSinceV2 launchEnv .regtest s.chainActive).Nodup := by
  obtain ⟨s, hrun, -⟩ := @exists_attempt_regtestRun 250 99999748 (stakedBlock [oneMint]) rfl rfl
    ⟨_, rfl⟩
  exact ⟨s, hrun, nodup_mintedSinceV2_of_run (by decide)
    (attemptAlong_regtestRun rfl rfl (by decide)) hrun⟩

/-- A block above `Zerocoin_Block_V2_Start` with two mints of one coin is connected. -/
theorem not_nodup_mintedSinceV2_twoMints :
    ∃ s, attempt (recordStep launchEnv plainHash .regtest) .start
        (regtestRun 250 99999748 (stakedBlock [twoMints])) = some s ∧
      ¬ (mintedSinceV2 launchEnv .regtest s.chainActive).Nodup := by
  obtain ⟨s, hrun, hchain⟩ := @exists_attempt_regtestRun 250 99999748 (stakedBlock [twoMints]) rfl
    rfl ⟨_, rfl⟩
  refine ⟨s, hrun, ?_⟩
  rw [hchain, mintedSinceV2_regtest rfl]
  decide

end Lytix
