import Lytix.Zerocoin.RecordsKept
import Lytix.Zerocoin.Reindex

/-! The runs of `ConnectTip`, `DisconnectTip` and `VerifyDB` along which the zerocoin database
mirrors the active chain. -/
namespace Lytix
open Checks CountEntries RecordTables Runs

/-- The database holds the records of these blocks and no other, under each key one of its own
block. -/
structure HoldsRecords (env : ConsensusEnv) (getHash : Int → Uint256) (chain : List CBlock)
    (db : CZerocoinDB) : Prop where
  spends : HoldsGroups getHash (chain.map (blockSpends env)) db.spends
  onlySpends : HoldsOnly getHash (chain.map (blockSpends env)) db.spends
  mints : HoldsGroups getHash (chain.map (blockMints env)) db.mints
  onlyMints : HoldsOnly getHash (chain.map (blockMints env)) db.mints

/-- No two blocks have records under one key. -/
structure RecordsApart (env : ConsensusEnv) (getHash : Int → Uint256) (chain : List CBlock) :
    Prop where
  spends : Apart getHash (chain.map (blockSpends env))
  mints : Apart getHash (chain.map (blockMints env))

structure RecordState.Mirrored (env : ConsensusEnv) (getHash : Int → Uint256) (s : RecordState) :
    Prop where
  holds : HoldsRecords env getHash s.chainActive s.zerocoinDB
  apart : RecordsApart env getHash s.chainActive
  decodes : ∀ block ∈ s.chainActive, ∀ tx ∈ block.vtx, Decodes env tx

section
variable (env : ConsensusEnv) (getHash : Int → Uint256) (network : Network)

/-- The node finds in the active chain every transaction that the records name. -/
def FindsRecords (node : ConsensusNode) (records : List (Int × Uint256)) : Prop :=
  ∀ r ∈ records, (node.transactionHeight r.2).isSome = true

/-- `ConnectTip` finds what is recorded, and brings no coin of the chain where nothing looks for
it; `VerifyDB` puts back what it erases. -/
def RecordEvent.KeepsMirror (s : RecordState) : RecordEvent → Prop
  | .connectTip node block _ _ _ _ =>
    FindsRecords (node.withRecords getHash network s.zerocoinDB)
        (chainSpends env s.chainActive ++ chainMints env s.chainActive) ∧
      ((s.chainActive.length : Int) < (Params network).nBlockZerocoinV2 ∨ network = .testnet →
        Fresh getHash (s.chainActive.map (blockMints env)) (blockMints env block))
  | .disconnectTip => True
  | .verify run => run.KeepsRecords env s.chainActive

end

section
variable {env : ConsensusEnv} {getHash : Int → Uint256} {network : Network} {chain : List CBlock}
  {block : CBlock} {db db' : CZerocoinDB} {s s' : RecordState}

theorem recordsApart_concat : RecordsApart env getHash (chain ++ [block]) ↔
    RecordsApart env getHash chain ∧
      Fresh getHash (chain.map (blockSpends env)) (blockSpends env block) ∧
      Fresh getHash (chain.map (blockMints env)) (blockMints env block) := by
  have hconcat : ∀ records : CBlock → List (Int × Uint256),
      Apart getHash ((chain ++ [block]).map records) ↔
        Apart getHash (chain.map records) ∧ Fresh getHash (chain.map records) (records block) := by
    intro records
    rw [List.map_append]
    exact apart_concat
  have hspends := hconcat (blockSpends env)
  have hmints := hconcat (blockMints env)
  constructor
  · intro h
    obtain ⟨hspends, hfresh⟩ := hspends.mp h.spends
    obtain ⟨hmints, hfresh'⟩ := hmints.mp h.mints
    exact ⟨⟨hspends, hmints⟩, hfresh, hfresh'⟩
  · intro h
    exact ⟨hspends.mpr ⟨h.1.spends, h.2.1⟩, hmints.mpr ⟨h.1.mints, h.2.2⟩⟩

theorem RecordsApart.take (h : RecordsApart env getHash chain) (k : ℕ) :
    RecordsApart env getHash (chain.take k) := by
  constructor
  · have hsub := (List.take_sublist k chain).map (blockSpends env)
    exact h.spends.sublist hsub
  · have hsub := (List.take_sublist k chain).map (blockMints env)
    exact h.mints.sublist hsub

theorem HoldsRecords.connect (h : HoldsRecords env getHash chain db)
    (hspends : Fresh getHash (chain.map (blockSpends env)) (blockSpends env block))
    (hmints : Fresh getHash (chain.map (blockMints env)) (blockMints env block)) :
    HoldsRecords env getHash (chain ++ [block])
      ⟨writeAll db.spends (keyed getHash (blockSpends env block)),
        writeAll db.mints (keyed getHash (blockMints env block))⟩ := by
  constructor <;> rw [List.map_append]
  case spends => exact h.spends.write hspends
  case onlySpends => exact h.onlySpends.write
  case mints => exact h.mints.write hmints
  case onlyMints => exact h.onlyMints.write

theorem HoldsRecords.disconnect (h : HoldsRecords env getHash (chain ++ [block]) db)
    (hapart : RecordsApart env getHash (chain ++ [block]))
    (herases : ErasesRecords getHash (blockSpends env block) (blockMints env block) db db') :
    HoldsRecords env getHash chain db' := by
  obtain ⟨-, hspends, hmints⟩ := recordsApart_concat.mp hapart
  obtain ⟨h₁, h₂, h₃, h₄⟩ := h
  rw [List.map_append] at h₁ h₂ h₃ h₄
  exact ⟨h₁.erase hspends herases.spends, h₂.erase herases.spends, h₃.erase hmints herases.mints,
    h₄.erase herases.mints⟩

theorem HoldsRecords.congr (h : HoldsRecords env getHash chain db)
    (herases : ErasesRecords getHash [] [] db db') : HoldsRecords env getHash chain db' := by
  have hspends : ∀ k, db'.spends.lookup k = db.spends.lookup k :=
    fun k => herases.spends.kept k (by simp)
  have hmints : ∀ k, db'.mints.lookup k = db.mints.lookup k :=
    fun k => herases.mints.kept k (by simp)
  exact ⟨h.spends.congr hspends, h.onlySpends.congr hspends, h.mints.congr hmints,
    h.onlyMints.congr hmints⟩

theorem HoldsRecords.mirrorsChain (h : HoldsRecords env getHash chain db) :
    db.MirrorsChain env getHash chain := by
  have hspends := mirrors_of_holds h.spends h.onlySpends
  have hmints := mirrors_of_holds h.mints h.onlyMints
  rw [← List.flatMap_def] at hspends hmints
  exact ⟨hspends, hmints⟩

theorem take_succ_eq {k : ℕ} (h : chain[k]? = some block) :
    chain.take (k + 1) = chain.take k ++ [block] := by
  rw [List.take_add_one, h]
  rfl

/-- The records of the chain below each height move along with the blocks. -/
theorem RecordsApart.tracks (h : RecordsApart env getHash chain) :
    TracksRecords env getHash chain fun k db => HoldsRecords env getHash (chain.take k) db where
  down := by
    intro k block db db' hblock herases hholds
    have hapart := h.take (k + 1)
    rw [take_succ_eq hblock] at hholds hapart
    exact hholds.disconnect hapart herases
  up := by
    intro k block db hblock hholds
    have hapart := h.take (k + 1)
    rw [take_succ_eq hblock] at hapart ⊢
    obtain ⟨-, hspends, hmints⟩ := recordsApart_concat.mp hapart
    exact hholds.connect hspends hmints
  same := fun k db db' herases hholds => hholds.congr herases

/-- A serial that is not found has no record in the chain, when those records are found. -/
theorem fresh_of_notFound {groups : List (List (Int × Uint256))} {group : List (Int × Uint256)}
    {table : Table Uint256 Uint256} {node : ConsensusNode}
    (hholds : HoldsGroups getHash groups table) (hfinds : FindsRecords node groups.flatten)
    (hgroup : ∀ r ∈ group, (table.lookup (getHash r.1)).bind node.transactionHeight = none) :
    Fresh getHash groups group := by
  intro g hg r hr r' hr' hsame
  obtain ⟨r'', hr'', -, hlookup⟩ := hholds g hg r hr
  have hfound := hfinds r'' (List.mem_flatten.mpr ⟨g, hg, hr''⟩)
  have hnone := hgroup r' hr'
  rw [← hsame, hlookup, Option.bind_some] at hnone
  rw [hnone] at hfound
  contradiction

theorem RecordState.Mirrored.connect {node : ConsensusNode} {coins : CoinsMap}
    {hashBestBlock : Uint256} {pindex : CBlockIndex} {fAlreadyChecked : Bool}
    {outcome : ConnectOutcome} (h : s.Mirrored env getHash)
    (hfinds : FindsRecords (node.withRecords getHash network s.zerocoinDB)
      (chainSpends env s.chainActive ++ chainMints env s.chainActive))
    (hunchecked : (s.chainActive.length : Int) < (Params network).nBlockZerocoinV2 ∨
      network = .testnet → Fresh getHash (s.chainActive.map (blockMints env)) (blockMints env block))
    (hconnect : connectBlock env (node.withRecords getHash network s.zerocoinDB) block coins
      hashBestBlock { pindex with nHeight := s.chainActive.length } false fAlreadyChecked =
        .ok outcome) :
    RecordState.Mirrored env getHash
      ⟨s.chainActive ++ [block], s.zerocoinDB.record getHash outcome⟩ := by
  have hnew := notRecorded_of_connectBlock hconnect
  have hspends : Fresh getHash (s.chainActive.map (blockSpends env)) (blockSpends env block) := by
    refine fresh_of_notFound h.holds.spends (fun r hr => hfinds r ?_) hnew.spends
    rw [← List.flatMap_def] at hr
    exact List.mem_append_left _ hr
  have hmints : Fresh getHash (s.chainActive.map (blockMints env)) (blockMints env block) := by
    by_cases hcase : (s.chainActive.length : Int) < (Params network).nBlockZerocoinV2 ∨
        network = .testnet
    · exact hunchecked hcase
    · rw [not_or, not_lt] at hcase
      refine fresh_of_notFound h.holds.mints (fun r hr => hfinds r ?_)
        (hnew.mints hcase.1 hcase.2)
      rw [← List.flatMap_def] at hr
      exact List.mem_append_right _ hr
  constructor
  case holds =>
    have hwritten := h.holds.connect hspends hmints
    obtain ⟨hdbSpends, hdbMints⟩ := @record_of_connectBlock env getHash _ s.zerocoinDB _ _ _ _ _ _ _
      hconnect
    rw [← hdbSpends, ← hdbMints] at hwritten
    exact hwritten
  case apart => exact recordsApart_concat.mpr ⟨h.apart, hspends, hmints⟩
  case decodes => exact decodes_concat h.decodes hconnect

/-- `DisconnectTip` takes the last block. -/
theorem recordStep_disconnectTip (h : recordStep env getHash network s .disconnectTip = some s') :
    ∃ block db, s.chainActive = s.chainActive.dropLast ++ [block] ∧
      disconnectRecords env getHash block s.zerocoinDB = .ok db ∧
        ⟨s.chainActive.dropLast, db⟩ = s' := by
  dsimp only [recordStep] at h
  split at h
  case h_1 => contradiction
  case h_2 block hlast =>
    simp only [Option.map_eq_some_iff, toOption_eq_some] at h
    obtain ⟨db, hdisconnect, hsame⟩ := h
    exact ⟨block, db, (List.dropLast_append_getLast? block hlast).symm, hdisconnect, hsame⟩

theorem RecordState.Mirrored.step {event : RecordEvent} (h : s.Mirrored env getHash)
    (hevent : event.KeepsMirror env getHash network s)
    (hstep : recordStep env getHash network s event = some s') : s'.Mirrored env getHash := by
  cases event with
  | connectTip node block coins hashBestBlock pindex fAlreadyChecked =>
    obtain ⟨hfinds, hunchecked⟩ := hevent
    simp only [recordStep, Option.map_eq_some_iff, toOption_eq_some] at hstep
    obtain ⟨outcome, hconnect, rfl⟩ := hstep
    exact h.connect hfinds hunchecked hconnect
  | disconnectTip =>
    obtain ⟨block, db, hchain, hdisconnect, rfl⟩ := recordStep_disconnectTip hstep
    obtain ⟨hholds, hapart, hdecodes⟩ := h
    rw [hchain] at hholds hapart
    have hbelow := (recordsApart_concat.mp hapart).1
    refine ⟨hholds.disconnect hapart (disconnectRecords_spec hdisconnect), hbelow, ?_⟩
    exact fun block' hmem => hdecodes block' (List.mem_of_mem_dropLast hmem)
  | verify run =>
    obtain rfl := Option.some.inj hstep
    obtain ⟨hholds, hapart, hdecodes⟩ := h
    refine ⟨?_, hapart, hdecodes⟩
    have hfull : HoldsRecords env getHash (s.chainActive.take s.chainActive.length) s.zerocoinDB := by
      rwa [List.take_length]
    have hkept := verifyDB_keeps hapart.tracks hdecodes hevent hfull
    rwa [List.take_length] at hkept

theorem RecordState.mirrored_start : RecordState.start.Mirrored env getHash := by
  refine ⟨⟨?_, ?_, ?_, ?_⟩, ⟨List.Pairwise.nil, List.Pairwise.nil⟩, ?_⟩
  · exact fun g hg => absurd hg List.not_mem_nil
  · exact fun k v hlookup => absurd hlookup (by simp [RecordState.start])
  · exact fun g hg => absurd hg List.not_mem_nil
  · exact fun k v hlookup => absurd hlookup (by simp [RecordState.start])
  · exact fun block hmem => absurd hmem List.not_mem_nil

/-- The database mirrors the chain in every state of a run that keeps it. -/
theorem mirrorsChain_of_run {events : List RecordEvent}
    (along : AttemptAlong (recordStep env getHash network)
      (fun s e => RecordEvent.KeepsMirror env getHash network s e) RecordState.start events)
    (run : attempt (recordStep env getHash network) RecordState.start events = some s) :
    s.zerocoinDB.MirrorsChain env getHash s.chainActive := by
  have hend := along.invariant run RecordState.mirrored_start
    fun s e s' hs he hstep => RecordState.Mirrored.step hs he hstep
  exact hend.holds.mirrorsChain

end

/-! A test network chain whose second block spends serial 7, verified at the default level. -/

def firstBlock : CBlock := launchBlock [launchCoinBase 0]

def connectFirst : RecordEvent :=
  .connectTip (launchNode {} empty_pprev empty_nHeight) firstBlock .empty 0 {} false

def connectSpend : RecordEvent :=
  .connectTip (launchNode {} empty_pprev empty_nHeight) (spendBlock (1000 * COIN)) launchCoins 1 launchIndex false

/-- A `VerifyDB` of the whole chain that meets with no obstacle. -/
def plainVerify (nCheckLevel : Int) : VerifyRun where
  nCheckLevel := nCheckLevel
  nCheckDepth := 0
  readBlock := fun _ => true
  checkBlock := fun _ => true
  readUndo := fun _ => true
  cacheFits := fun _ => true
  disconnect := fun _ => .done true
  shutdownRequested := fun _ => false
  readAgain := fun _ => true
  connect := fun _ => true

/-- The chain, and its records. -/
def spendChain : List CBlock := [firstBlock, spendBlock (1000 * COIN)]

def spendRecords : CZerocoinDB := ⟨AList.insert 7 22 ∅, AList.insert 11 21 ∅⟩

theorem recordStep_connectFirst : recordStep launchEnv plainHash .testnet .start connectFirst =
    some ⟨[firstBlock], ⟨∅, ∅⟩⟩ := rfl

theorem recordStep_connectSpend :
    recordStep launchEnv plainHash .testnet ⟨[firstBlock], ⟨∅, ∅⟩⟩ connectSpend =
      some ⟨spendChain, spendRecords⟩ := rfl

theorem attempt_plainVerify (nCheckLevel : Int) :
    attempt (recordStep launchEnv plainHash .testnet) .start
        [connectFirst, connectSpend, .verify (plainVerify nCheckLevel)] =
      some ⟨spendChain,
        verifyDB launchEnv plainHash spendChain (plainVerify nCheckLevel) spendRecords⟩ :=
  attempt_cons_eq_some.mpr ⟨_, recordStep_connectFirst,
    attempt_cons_eq_some.mpr ⟨_, recordStep_connectSpend, rfl⟩⟩

theorem reconnects_plainVerify (chain : List CBlock) : (plainVerify 4).Reconnects chain := by
  refine ⟨by decide, ?_, ?_, ?_, ?_, ?_, ?_, ?_⟩ <;> exact fun _ _ => rfl

/-- At level four the spend is recorded again. -/
theorem mirrorsChain_plainVerify_four :
    (verifyDB launchEnv plainHash spendChain (plainVerify 4) spendRecords).MirrorsChain launchEnv
      plainHash spendChain := by
  have along : AttemptAlong (recordStep launchEnv plainHash .testnet)
      (fun s e => RecordEvent.KeepsMirror launchEnv plainHash .testnet s e) .start
      [connectFirst, connectSpend, .verify (plainVerify 4)] := by
    refine ⟨⟨?_, ?_⟩, fun s' hs' => ?_⟩
    · exact fun r hr => absurd hr List.not_mem_nil
    · exact fun _ g hg => absurd hg List.not_mem_nil
    · rw [recordStep_connectFirst, Option.mem_some] at hs'
      subst hs'
      refine ⟨⟨?_, ?_⟩, fun s' hs' => ⟨Or.inr (reconnects_plainVerify _), fun _ _ => trivial⟩⟩
      · exact fun r hr => absurd hr List.not_mem_nil
      · intro _ g hg r hr
        obtain rfl := List.mem_singleton.mp hg
        exact absurd hr List.not_mem_nil
  exact mirrorsChain_of_run along (attempt_plainVerify 4)

/-- At level three the record of the spend is gone, and the chain still has the spend. -/
theorem not_mirrorsChain_plainVerify_three :
    ∃ s, attempt (recordStep launchEnv plainHash .testnet) .start
        [connectFirst, connectSpend, .verify (plainVerify 3)] = some s ∧
      ¬ s.zerocoinDB.MirrorsChain launchEnv plainHash s.chainActive := by
  refine ⟨_, attempt_plainVerify 3, fun hmirrors => ?_⟩
  have hrecord : ((7 : Int), (22 : Uint256)) ∈ chainSpends launchEnv spendChain := by decide
  have hfound := hmirrors.spends.complete _ hrecord
  have hgone : (verifyDB launchEnv plainHash spendChain (plainVerify 3)
      spendRecords).spends.lookup (plainHash 7) = none := rfl
  rw [hgone] at hfound
  contradiction

end Lytix
