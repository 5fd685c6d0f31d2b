import Lytix.Kernel.StakeInput
import Lytix.Lib.BitTables
import Lytix.Lib.Runs
import Lytix.Script.Interpreter

/-! The bloom filter of a peer: loaded with any bytes, added to and updated with the outputs that
it matches. Two flags stand for a filter that is full and one that is empty. -/
namespace Lytix

open BitTables Runs

def ROTL32 (x r : UInt32) : UInt32 := x <<< r ||| x >>> (32 - r)

def murmurBlock (k1 : UInt32) : UInt32 := ROTL32 (k1 * 0xcc9e2d51) 15 * 0x1b873593

/-- The body of `MurmurHash3`: what is left behind the blocks is the tail. -/
def murmurBody (h1 : UInt32) : List UInt8 → UInt32 × List UInt8
  | b₀ :: b₁ :: b₂ :: b₃ :: rest =>
    let k1 := b₀.toUInt32 ||| b₁.toUInt32 <<< 8 ||| b₂.toUInt32 <<< 16 ||| b₃.toUInt32 <<< 24
    murmurBody (ROTL32 (h1 ^^^ murmurBlock k1) 13 * 5 + 0xe6546b64) rest
  | tail => (h1, tail)

def murmurTail (h1 : UInt32) (tail : List UInt8) : UInt32 :=
  if tail = [] then h1
  else h1 ^^^ murmurBlock ((tail.getD 2 0).toUInt32 <<< 16 ^^^ (tail.getD 1 0).toUInt32 <<< 8 ^^^
    (tail.getD 0 0).toUInt32)

def MurmurHash3 (nHashSeed : UInt32) (vDataToHash : List UInt8) : UInt32 :=
  let body := murmurBody nHashSeed vDataToHash
  let h1 := murmurTail body.1 body.2 ^^^ UInt32.ofNat vDataToHash.length
  let h1 := (h1 ^^^ h1 >>> 16) * 0x85ebca6b
  let h1 := (h1 ^^^ h1 >>> 13) * 0xc2b2ae35
  h1 ^^^ h1 >>> 16

example : MurmurHash3 0 [0x00, 0x11, 0x22, 0x33, 0x44, 0x55] = 0xfc2e4a15 := by decide

def MAX_BLOOM_FILTER_SIZE : ℕ := 36000
def MAX_HASH_FUNCS : UInt32 := 50

def BLOOM_UPDATE_ALL : UInt8 := 1
def BLOOM_UPDATE_P2PUBKEY_ONLY : UInt8 := 2
def BLOOM_UPDATE_MASK : UInt8 := 3

/-- `CBloomFilter`, with what its default constructor sets. -/
structure CBloomFilter where
  vData : List UInt8 := []
  isFull : Bool := true
  isEmpty : Bool := false
  nHashFuncs : UInt32 := 0
  nTweak : UInt32 := 0
  nFlags : UInt8 := 0
deriving DecidableEq

/-- A hash or an outpoint as it is serialized. -/
def hashKey (hash : Uint256) : List UInt8 := leBytes 32 hash.toNat

def COutPoint.key (outpoint : COutPoint) : List UInt8 :=
  leBytes 32 outpoint.hash.toNat ++ leBytes 4 outpoint.n

/-- The data that `GetOp` gives, up to the end of the script or to what it cannot read. -/
def scriptData (script : Script) : List (List UInt8) :=
  (instrs script).filterMap fun
    | .op _ data _ => some data
    | .bad => none

namespace CBloomFilter

/-- There is no result where the size of the data is 0, by which it divides. -/
def hash (filter : CBloomFilter) (nHashNum : ℕ) (vDataToHash : List UInt8) : Option ℕ :=
  if filter.vData.length * 8 = 0 then none
  else some ((MurmurHash3 (UInt32.ofNat nHashNum * 0xFBA4C795 + filter.nTweak) vDataToHash).toNat %
    (filter.vData.length * 8))

/-- `1 << (7 & nIndex)`, in a byte. -/
def bitMask (nIndex : ℕ) : UInt8 := UInt8.ofNat (1 <<< (7 &&& nIndex))

/-- Sets bit `nIndex` of `vData`. There is no result where that is outside. -/
def insertHash (vKey : List UInt8) (filter : CBloomFilter) (i : ℕ) : Option CBloomFilter := do
  let nIndex ← filter.hash i vKey
  let byte ← filter.vData[nIndex >>> 3]?
  some { filter with vData := filter.vData.set (nIndex >>> 3) (byte ||| bitMask nIndex) }

def insert (filter : CBloomFilter) (vKey : List UInt8) : Option CBloomFilter :=
  if filter.isFull then some filter
  else do
    let filter ← (List.range filter.nHashFuncs.toNat).foldlM (insertHash vKey) filter
    some { filter with isEmpty := false }

def containsLoop (filter : CBloomFilter) (vKey : List UInt8) : List ℕ → Option Bool
  | [] => some true
  | i :: rest => do
    let nIndex ← filter.hash i vKey
    -- Checks bit nIndex of vData
    let byte ← filter.vData[nIndex >>> 3]?
    if byte &&& bitMask nIndex = 0 then some false else containsLoop filter vKey rest

def contains (filter : CBloomFilter) (vKey : List UInt8) : Option Bool :=
  if filter.isFull then some true
  else if filter.isEmpty then some false
  else filter.containsLoop vKey (List.range filter.nHashFuncs.toNat)

/-- The filter contains some of the data of a script. -/
def containsAny (filter : CBloomFilter) : List (List UInt8) → Option Bool
  | [] => some false
  | data :: rest =>
    if data = [] then containsAny filter rest
    else do
      let found ← filter.contains data
      if found then some true else containsAny filter rest

/-- An output that matches is added under this condition. -/
def updates (filter : CBloomFilter) (txout : CTxOut) : Bool :=
  let nFlags := filter.nFlags &&& BLOOM_UPDATE_MASK
  nFlags == BLOOM_UPDATE_ALL || nFlags == BLOOM_UPDATE_P2PUBKEY_ONLY &&
    match solver txout.scriptPubKey with
    | none => false
    | some (type, _) => type == .TX_PUBKEY || type == .TX_MULTISIG

/-- Output `i`: whether it matches, and the filter behind it. -/
def visitOutput (hash : Uint256) (filter : CBloomFilter) (i : ℕ) (txout : CTxOut) :
    Option (Bool × CBloomFilter) := do
  let matched ← filter.containsAny (scriptData txout.scriptPubKey)
  if matched && filter.updates txout then
    (filter.insert (COutPoint.key ⟨hash, i⟩)).map fun filter => (matched, filter)
  else some (matched, filter)

/-- The loop over the outputs, from output `i` on: whether one matches, and the filter. -/
def scanOutputs (hash : Uint256) (filter : CBloomFilter) (i : ℕ) :
    List CTxOut → Option (Bool × CBloomFilter)
  | [] => some (false, filter)
  | txout :: rest => do
    let (matched, filter) ← filter.visitOutput hash i txout
    let (fFound, filter) ← scanOutputs hash filter (i + 1) rest
    some (matched || fFound, filter)

/-- The loop over the inputs. -/
def scanInputs (filter : CBloomFilter) : List CTxIn → Option Bool
  | [] => some false
  | txin :: rest => do
    let spends ← filter.contains txin.prevout.key
    let signs ← if spends then some true else filter.containsAny (scriptData txin.scriptSig)
    if signs then some true else scanInputs filter rest

/-- `IsRelevantAndUpdate`. -/
def isRelevantAndUpdate (filter : CBloomFilter) (tx : CTransaction) :
    Option (Bool × CBloomFilter) :=
  if filter.isFull then some (true, filter)
  else if filter.isEmpty then some (false, filter)
  else do
    let found ← filter.contains (hashKey tx.hash)
    let (matched, filter) ← filter.scanOutputs tx.hash 0 tx.vout
    if found || matched then some (true, filter)
    else (filter.scanInputs tx.vin).map fun relevant => (relevant, filter)

def updateEmptyFull (filter : CBloomFilter) : CBloomFilter :=
  { filter with
    isFull := filter.vData.all (· == 0xff)
    isEmpty := filter.vData.all (· == 0) }

def isWithinSizeConstraints (filter : CBloomFilter) : Bool :=
  decide (filter.vData.length ≤ MAX_BLOOM_FILTER_SIZE ∧ filter.nHashFuncs ≤ MAX_HASH_FUNCS)

/-- What happens to the filter of a peer: three messages, and a transaction that is relayed or
stands in a block that is sent. -/
inductive Event where
  | filterload (vData : List UInt8) (nHashFuncs nTweak : UInt32) (nFlags : UInt8)
  | filteradd (vData : List UInt8)
  | filterclear
  | transaction (tx : CTransaction)

/-- Data that is too large is refused, and the filter stays. -/
def step (pfilter : CBloomFilter) : Event → Option CBloomFilter
  | .filterload vData nHashFuncs nTweak nFlags =>
    let filter : CBloomFilter := { vData, nHashFuncs, nTweak, nFlags }
    if filter.isWithinSizeConstraints then some filter.updateEmptyFull else some pfilter
  | .filteradd vData =>
    if MAX_SCRIPT_ELEMENT_SIZE < vData.length then some pfilter else pfilter.insert vData
  | .filterclear => some {}
  | .transaction tx => (pfilter.isRelevantAndUpdate tx).map Prod.snd

/-- A filter without data is full: no index is ever computed for it. -/
def Consistent (filter : CBloomFilter) : Prop := filter.vData = [] → filter.isFull = true

/-- The index of a key for one hash function. -/
def index (filter : CBloomFilter) (vKey : List UInt8) (i : ℕ) : ℕ :=
  (MurmurHash3 (UInt32.ofNat i * 0xFBA4C795 + filter.nTweak) vKey).toNat % (filter.vData.length * 8)

def positions (filter : CBloomFilter) (vKey : List UInt8) : List ℕ :=
  (List.range filter.nHashFuncs.toNat).map (filter.index vKey)

/-- The filter has a key: it is full, or it is not empty and has all bits of the key. -/
def Has (filter : CBloomFilter) (vKey : List UInt8) : Prop :=
  filter.isFull = true ∨
    filter.isEmpty = false ∧ ∀ i ∈ filter.positions vKey, bit filter.vData i = true

/-- What may happen to a filter until another one is loaded or it is cleared. -/
structure Grows (filter filter' : CBloomFilter) : Prop where
  length : filter'.vData.length = filter.vData.length
  isFull : filter'.isFull = filter.isFull
  nHashFuncs : filter'.nHashFuncs = filter.nHashFuncs
  nTweak : filter'.nTweak = filter.nTweak
  nFlags : filter'.nFlags = filter.nFlags
  isEmpty : filter.isEmpty = false → filter'.isEmpty = false
  bits : ∀ i, bit filter.vData i = true → bit filter'.vData i = true

variable {filter filter' filter'' : CBloomFilter} {vKey key : List UInt8}

theorem Grows.refl (filter : CBloomFilter) : Grows filter filter :=
  ⟨rfl, rfl, rfl, rfl, rfl, id, fun _ => id⟩

theorem Grows.trans (h : Grows filter filter') (h' : Grows filter' filter'') :
    Grows filter filter'' where
  length := h'.length.trans h.length
  isFull := h'.isFull.trans h.isFull
  nHashFuncs := h'.nHashFuncs.trans h.nHashFuncs
  nTweak := h'.nTweak.trans h.nTweak
  nFlags := h'.nFlags.trans h.nFlags
  isEmpty := h'.isEmpty ∘ h.isEmpty
  bits i := h'.bits i ∘ h.bits i

theorem index_congr (hlength : filter'.vData.length = filter.vData.length)
    (htweak : filter'.nTweak = filter.nTweak) : filter'.index vKey = filter.index vKey := by
  unfold index
  rw [hlength, htweak]

theorem Grows.positions (h : Grows filter filter') (vKey : List UInt8) :
    filter'.positions vKey = filter.positions vKey := by
  unfold CBloomFilter.positions
  rw [h.nHashFuncs, index_congr h.length h.nTweak]

theorem Grows.consistent (h : Grows filter filter') (hfilter : filter.Consistent) :
    filter'.Consistent := by
  intro hnil
  have hempty : filter.vData = [] := by
    rw [← List.length_eq_zero_iff, ← h.length, hnil]
    rfl
  rw [h.isFull, hfilter hempty]

/-- A filter that grows keeps what it has. -/
theorem Grows.has (h : Grows filter filter') (hkey : filter.Has vKey) : filter'.Has vKey := by
  rcases hkey with hfull | ⟨hsome, hbits⟩
  · exact Or.inl (h.isFull.trans hfull)
  · refine Or.inr ⟨h.isEmpty hsome, ?_⟩
    rw [h.positions]
    exact fun i hi => h.bits i (hbits i hi)

theorem Grows.updates (h : Grows filter filter') (txout : CTxOut) :
    filter'.updates txout = filter.updates txout := by
  unfold CBloomFilter.updates
  rw [h.nFlags]

section accesses

theorem bitMask_eq (nIndex : ℕ) : bitMask nIndex = UInt8.ofNat (2 ^ (nIndex % 8)) := by
  have hlow : 7 &&& nIndex = nIndex % 8 := by
    rw [Nat.and_comm]
    exact Nat.and_two_pow_sub_one_eq_mod nIndex 3
  unfold bitMask
  rw [hlow, Nat.one_shiftLeft]

theorem length_pos (h : filter.vData ≠ []) : 0 < filter.vData.length := List.length_pos_iff.mpr h

theorem index_lt (h : filter.vData ≠ []) (vKey : List UInt8) (i : ℕ) :
    filter.index vKey i < 8 * filter.vData.length := by
  have hpos := length_pos h
  have hlt := Nat.mod_lt (MurmurHash3 (UInt32.ofNat i * 0xFBA4C795 + filter.nTweak) vKey).toNat
    (by omega : filter.vData.length * 8 > 0)
  unfold index
  omega

theorem hash_eq (h : filter.vData ≠ []) (vKey : List UInt8) (i : ℕ) :
    filter.hash i vKey = some (filter.index vKey i) := by
  have hpos := length_pos h
  unfold hash index
  rw [if_neg (by omega)]

/-- The byte of an index is there. -/
theorem getElem?_index (h : filter.vData ≠ []) (vKey : List UInt8) (i : ℕ) :
    filter.vData[filter.index vKey i >>> 3]? =
      some (filter.vData.getD (filter.index vKey i / 8) 0) := by
  have hlt := index_lt h vKey i
  have hbyte : filter.index vKey i / 8 < filter.vData.length := by omega
  rw [Nat.shiftRight_eq_div_pow]
  simp [hbyte]

theorem insertHash_eq (h : filter.vData ≠ []) (vKey : List UInt8) (i : ℕ) :
    insertHash vKey filter i =
      some { filter with vData := setBit filter.vData (filter.index vKey i) } := by
  unfold insertHash setBit
  rw [hash_eq h, Option.bind_eq_bind, Option.bind_some, getElem?_index h, Option.bind_eq_bind,
    Option.bind_some, bitMask_eq, Nat.shiftRight_eq_div_pow]

/-- Every hash function sets its bit. -/
theorem foldlM_insertHash (h : filter.vData ≠ []) (vKey : List UInt8) (l : List ℕ) :
    l.foldlM (insertHash vKey) filter =
      some { filter with vData := (l.map (filter.index vKey)).foldl setBit filter.vData } := by
  induction l generalizing filter with
  | nil => rfl
  | cons i l ih =>
    have hnext : setBit filter.vData (filter.index vKey i) ≠ [] := by
      rw [← List.length_pos_iff, length_setBit]
      exact length_pos h
    have hindex := @index_congr filter
      { filter with vData := setBit filter.vData (filter.index vKey i) } vKey length_setBit rfl
    rw [List.foldlM_cons, insertHash_eq h, Option.bind_eq_bind, Option.bind_some, ih hnext, hindex]
    rfl

theorem containsLoop_eq (h : filter.vData ≠ []) (vKey : List UInt8) (l : List ℕ) :
    filter.containsLoop vKey l =
      some (l.all fun i => bit filter.vData (filter.index vKey i)) := by
  induction l with
  | nil => rfl
  | cons i l ih =>
    have htest := and_eq_zero_iff (filter.vData.getD (filter.index vKey i / 8) 0)
      (Nat.mod_lt (filter.index vKey i) (by omega : 8 > 0))
    rw [containsLoop, hash_eq h, Option.bind_eq_bind, Option.bind_some, getElem?_index h,
      Option.bind_eq_bind, Option.bind_some, bitMask_eq, ih, List.all_cons]
    cases hbit : bit filter.vData (filter.index vKey i) with
    | false => rw [if_pos (htest.mpr hbit), Bool.false_and]
    | true =>
      have hset : (filter.vData.getD (filter.index vKey i / 8) 0).toNat.testBit
          (filter.index vKey i % 8) = true := hbit
      rw [if_neg (by rw [htest, hset]; simp), Bool.true_and]

/-- What `contains` returns, for any key. -/
theorem contains_spec (h : filter.Consistent) (vKey : List UInt8) :
    ∃ found, filter.contains vKey = some found ∧ (found = true ↔ filter.Has vKey) := by
  unfold contains Has
  by_cases hfull : filter.isFull = true
  · exact ⟨true, by rw [if_pos hfull], by simp [hfull]⟩
  · have hne : filter.vData ≠ [] := fun hnil => hfull (h hnil)
    rw [if_neg hfull, containsLoop_eq hne]
    cases hempty : filter.isEmpty with
    | true => exact ⟨false, rfl, by simp [hfull]⟩
    | false => exact ⟨_, rfl, by simp [hfull, positions]⟩

/-- What is inserted is there, and nothing gets lost. -/
theorem insert_spec (h : filter.Consistent) (vKey : List UInt8) :
    ∃ filter', filter.insert vKey = some filter' ∧ Grows filter filter' ∧ filter'.Has vKey := by
  unfold insert
  by_cases hfull : filter.isFull = true
  · exact ⟨filter, by rw [if_pos hfull], Grows.refl filter, Or.inl hfull⟩
  · have hne : filter.vData ≠ [] := fun hnil => hfull (h hnil)
    have hlt : ∀ i ∈ filter.positions vKey, i < 8 * filter.vData.length := by
      intro i hi
      obtain ⟨k, _, rfl⟩ := List.mem_map.mp hi
      exact index_lt hne vKey k
    rw [if_neg hfull, foldlM_insertHash hne]
    have hgrows : Grows filter { filter with
        vData := (filter.positions vKey).foldl setBit filter.vData, isEmpty := false } := by
      refine ⟨length_foldl_setBit, rfl, rfl, rfl, rfl, fun _ => rfl, fun i hi => ?_⟩
      rw [bit_foldl_setBit hlt, hi, Bool.or_true]
    refine ⟨_, rfl, hgrows, Or.inr ⟨rfl, ?_⟩⟩
    intro i hi
    have hmem : i ∈ filter.positions vKey := hgrows.positions vKey ▸ hi
    change bit ((filter.positions vKey).foldl setBit filter.vData) i = true
    rw [bit_foldl_setBit hlt, decide_eq_true hmem, Bool.true_or]

end accesses

section transactions
variable {hash : Uint256} {outs : List CTxOut} {fFound : Bool} {i : ℕ} {tx : CTransaction}
  {txout : CTxOut}

theorem containsAny_spec (h : filter.Consistent) (l : List (List UInt8)) :
    ∃ found, filter.containsAny l = some found := by
  induction l with
  | nil => exact ⟨false, rfl⟩
  | cons data l ih =>
    obtain ⟨found, hfound, _⟩ := contains_spec h data
    rw [containsAny, hfound, Option.bind_eq_bind, Option.bind_some]
    split_ifs
    · exact ih
    · exact ⟨true, rfl⟩
    · exact ih

/-- An output is visited: the filter only grows, and has the outpoint when it is to be added. -/
theorem visitOutput_spec (h : filter.Consistent) (hash : Uint256) (i : ℕ) (txout : CTxOut) :
    ∃ matched filter', filter.visitOutput hash i txout = some (matched, filter') ∧
      filter.containsAny (scriptData txout.scriptPubKey) = some matched ∧ Grows filter filter' ∧
      (matched = true → filter.updates txout = true → filter'.Has (COutPoint.key ⟨hash, i⟩)) := by
  obtain ⟨matched, hmatched⟩ := containsAny_spec h (scriptData txout.scriptPubKey)
  obtain ⟨filter', hinsert, hgrows, hhas⟩ := insert_spec h (COutPoint.key ⟨hash, i⟩)
  unfold visitOutput
  rw [hmatched, Option.bind_eq_bind, Option.bind_some, hinsert]
  split_ifs with hupdate
  · exact ⟨matched, filter', rfl, rfl, hgrows, fun _ _ => hhas⟩
  · refine ⟨matched, filter, rfl, rfl, Grows.refl filter, fun hyes hupdates => ?_⟩
    exact absurd (by simp [hyes, hupdates]) hupdate

theorem scanOutputs_cons {matched : Bool}
    (h : filter.visitOutput hash i txout = some (matched, filter')) :
    filter.scanOutputs hash i (txout :: outs) =
      (filter'.scanOutputs hash (i + 1) outs).map fun result =>
        (matched || result.1, result.2) := by
  rw [scanOutputs, h, Option.bind_eq_bind, Option.bind_some, Option.map_eq_bind]
  rfl

/-- The loop over the outputs ends, and the filter only grows. -/
theorem scanOutputs_spec (h : filter.Consistent) (hash : Uint256) (i : ℕ) (outs : List CTxOut) :
    ∃ fFound filter', filter.scanOutputs hash i outs = some (fFound, filter') ∧
      Grows filter filter' := by
  induction outs generalizing filter i with
  | nil => exact ⟨false, filter, rfl, Grows.refl filter⟩
  | cons txout outs ih =>
    obtain ⟨matched, filter', hvisit, _, hgrows, _⟩ := visitOutput_spec h hash i txout
    obtain ⟨fFound, filter'', hrest, hafter⟩ := ih (hgrows.consistent h) (i + 1)
    refine ⟨matched || fFound, filter'', ?_, hgrows.trans hafter⟩
    rw [scanOutputs_cons hvisit, hrest]
    rfl

/-- Outputs that are added are there when the loop has ended. -/
theorem scanOutputs_has (h : filter.Consistent) {k : ℕ} (hout : outs[k]? = some txout)
    {before : Bool} {filter₁ filter' : CBloomFilter}
    (hbefore : filter.scanOutputs hash i (outs.take k) = some (before, filter₁))
    (hmatched : filter₁.containsAny (scriptData txout.scriptPubKey) = some true)
    (hupdates : filter.updates txout = true)
    (hscan : filter.scanOutputs hash i outs = some (fFound, filter')) :
    fFound = true ∧ filter'.Has (COutPoint.key ⟨hash, i + k⟩) := by
  induction k generalizing filter i outs before fFound with
  | zero =>
    obtain ⟨rest, rfl⟩ := List.head?_eq_some_iff.mp (List.head?_eq_getElem?.trans hout)
    obtain ⟨_, rfl⟩ := Prod.mk.inj (Option.some.inj hbefore)
    obtain ⟨matched, filter₂, hvisit, hsame, hgrows, hhas⟩ := visitOutput_spec h hash i txout
    obtain ⟨later, last, hrest, hafter⟩ := scanOutputs_spec (hgrows.consistent h) hash (i + 1) rest
    rw [scanOutputs_cons hvisit, hrest] at hscan
    obtain ⟨rfl, rfl⟩ := Prod.mk.inj (Option.some.inj hscan)
    obtain rfl : matched = true := Option.some.inj (hsame.symm.trans hmatched)
    exact ⟨rfl, hafter.has (hhas rfl hupdates)⟩
  | succ k ih =>
    cases outs with
    | nil => contradiction
    | cons first rest =>
      obtain ⟨matched, filter₂, hvisit, _, hgrows, _⟩ := visitOutput_spec h hash i first
      rw [List.take_succ_cons, scanOutputs_cons hvisit, Option.map_eq_some_iff] at hbefore
      rw [scanOutputs_cons hvisit, Option.map_eq_some_iff] at hscan
      obtain ⟨⟨earlier, filter₃⟩, hfirst, hpair⟩ := hbefore
      obtain ⟨_, rfl⟩ := Prod.mk.inj hpair
      obtain ⟨⟨later, last⟩, hrest, hpair'⟩ := hscan
      obtain ⟨rfl, rfl⟩ := Prod.mk.inj hpair'
      rw [← hgrows.updates txout] at hupdates
      obtain ⟨rfl, hhas⟩ := ih (hgrows.consistent h) hout hfirst hupdates hrest
      have hcount : i + (k + 1) = i + 1 + k := by omega
      rw [hcount]
      exact ⟨Bool.or_true _, hhas⟩

/-- An output matches: when the loop comes to it, the filter contains some data of its script. -/
def Matches (filter : CBloomFilter) (tx : CTransaction) (i : ℕ) (txout : CTxOut) : Prop :=
  tx.vout[i]? = some txout ∧ ∃ before filter',
    filter.scanOutputs tx.hash 0 (tx.vout.take i) = some (before, filter') ∧
      filter'.containsAny (scriptData txout.scriptPubKey) = some true

theorem scanInputs_spec (h : filter.Consistent) (l : List CTxIn) :
    ∃ found, filter.scanInputs l = some found ∧
      ((∃ txin ∈ l, filter.Has txin.prevout.key) → found = true) := by
  induction l with
  | nil => exact ⟨false, rfl, by simp⟩
  | cons txin l ih =>
    obtain ⟨spends, hspends, hhas⟩ := contains_spec h txin.prevout.key
    obtain ⟨signs, hsigns⟩ := containsAny_spec h (scriptData txin.scriptSig)
    obtain ⟨rest, hrest, hlater⟩ := ih
    rw [scanInputs, hspends, Option.bind_eq_bind, Option.bind_some, hsigns, hrest]
    cases spends with
    | true => exact ⟨true, rfl, fun _ => rfl⟩
    | false =>
      cases signs with
      | true => exact ⟨true, rfl, fun _ => rfl⟩
      | false =>
        refine ⟨rest, rfl, ?_⟩
        rintro ⟨other, hmem, hkey⟩
        rcases List.mem_cons.mp hmem with rfl | htail
        · exact absurd (hhas.mpr hkey) (by simp)
        · exact hlater ⟨other, htail, hkey⟩

/-- `IsRelevantAndUpdate` returns for any transaction; the filter only grows, and one that has an
outpoint finds the transactions that spend it. -/
theorem isRelevantAndUpdate_spec (h : filter.Consistent) (tx : CTransaction) :
    ∃ found filter', filter.isRelevantAndUpdate tx = some (found, filter') ∧
      Grows filter filter' ∧
      ((∃ txin ∈ tx.vin, filter.Has txin.prevout.key) → found = true) := by
  unfold isRelevantAndUpdate
  by_cases hfull : filter.isFull = true
  · exact ⟨true, filter, by rw [if_pos hfull], Grows.refl filter, fun _ => rfl⟩
  · rw [if_neg hfull]
    by_cases hempty : filter.isEmpty = true
    · refine ⟨false, filter, by rw [if_pos hempty], Grows.refl filter, ?_⟩
      rintro ⟨txin, _, hfullkey | hkey⟩
      · exact absurd hfullkey hfull
      · rw [hkey.1] at hempty
        contradiction
    · obtain ⟨first, hfirst, _⟩ := contains_spec h (hashKey tx.hash)
      obtain ⟨matched, filter', hscan, hgrows⟩ := scanOutputs_spec h tx.hash 0 tx.vout
      obtain ⟨relevant, hinputs, hspends⟩ := scanInputs_spec (hgrows.consistent h) tx.vin
      rw [if_neg hempty, hfirst, Option.bind_eq_bind, Option.bind_some, hscan,
        Option.bind_eq_bind, Option.bind_some]
      dsimp only
      rw [hinputs]
      split_ifs
      · exact ⟨true, filter', rfl, hgrows, fun _ => rfl⟩
      · refine ⟨relevant, filter', rfl, hgrows, ?_⟩
        rintro ⟨txin, hmem, hkey⟩
        exact hspends ⟨txin, hmem, hgrows.has hkey⟩

/-- A filter that is empty and not full matches nothing. -/
theorem not_matches_of_isEmpty (hfull : filter.isFull = false) (hempty : filter.isEmpty = true) :
    ¬ filter.Matches tx i txout := by
  have hnone (l : List (List UInt8)) : filter.containsAny l = some false := by
    induction l with
    | nil => rfl
    | cons data l ih => simp [containsAny, contains, hfull, hempty, ih]
  have hscan (k : ℕ) (outs : List CTxOut) :
      filter.scanOutputs tx.hash k outs = some (false, filter) := by
    induction outs generalizing k with
    | nil => rfl
    | cons first outs ih =>
      have hvisit : filter.visitOutput tx.hash k first = some (false, filter) := by
        simp [visitOutput, hnone]
      rw [scanOutputs_cons hvisit, ih (k + 1)]
      rfl
  rintro ⟨_, before, filter', hbefore, hmatched⟩
  rw [hscan] at hbefore
  obtain ⟨_, rfl⟩ := Prod.mk.inj (Option.some.inj hbefore)
  rw [hnone] at hmatched
  contradiction

/-- An output that matches and is to be added makes the transaction relevant, and the filter then
has its outpoint. -/
theorem isRelevantAndUpdate_matches (h : filter.Consistent) {found : Bool}
    (hmatches : filter.Matches tx i txout) (hupdates : filter.updates txout = true)
    (hrelevant : filter.isRelevantAndUpdate tx = some (found, filter')) :
    found = true ∧ filter'.Has (COutPoint.key ⟨tx.hash, i⟩) := by
  unfold isRelevantAndUpdate at hrelevant
  by_cases hfull : filter.isFull = true
  · rw [if_pos hfull] at hrelevant
    obtain ⟨rfl, rfl⟩ := Prod.mk.inj (Option.some.inj hrelevant)
    exact ⟨rfl, Or.inl hfull⟩
  · rw [if_neg hfull] at hrelevant
    by_cases hempty : filter.isEmpty = true
    · exact absurd hmatches (not_matches_of_isEmpty (by simpa using hfull) hempty)
    · obtain ⟨first, hfirst, _⟩ := contains_spec h (hashKey tx.hash)
      obtain ⟨matched, filter₂, hscan, _⟩ := scanOutputs_spec h tx.hash 0 tx.vout
      obtain ⟨hout, before, filter₁, hbefore, hmatched⟩ := hmatches
      obtain ⟨rfl, hhas⟩ := scanOutputs_has h hout hbefore hmatched hupdates hscan
      rw [if_neg hempty, hfirst, Option.bind_eq_bind, Option.bind_some, hscan,
        Option.bind_eq_bind, Option.bind_some] at hrelevant
      simp only [Bool.or_true, if_true, Option.some.injEq, Prod.mk.injEq] at hrelevant
      obtain ⟨rfl, rfl⟩ := hrelevant
      rw [Nat.zero_add] at hhas
      exact ⟨rfl, hhas⟩

end transactions

section runs
variable {e : Event} {events : List Event}

/-- The peer replaces its filter by another one. -/
def Event.Loads : Event → Prop
  | .filterload .. => True
  | _ => False

theorem consistent_updateEmptyFull (filter : CBloomFilter) :
    filter.updateEmptyFull.Consistent := by
  intro hnil
  have hdata : filter.vData = [] := hnil
  simp [updateEmptyFull, hdata]

theorem consistent_default : Consistent {} := fun _ => rfl

/-- No step fails, and without a load nothing gets lost. -/
theorem step_spec (h : filter.Consistent) (e : Event) : ∃ filter', filter.step e = some filter' ∧
    filter'.Consistent ∧ (¬ e.Loads → ∀ key, filter.Has key → filter'.Has key) := by
  cases e with
  | filterload vData nHashFuncs nTweak nFlags =>
    unfold step
    dsimp only
    split_ifs
    · exact ⟨_, rfl, consistent_updateEmptyFull _, fun hno => absurd trivial hno⟩
    · exact ⟨filter, rfl, h, fun _ _ => id⟩
  | filteradd vData =>
    unfold step
    dsimp only
    split_ifs
    · exact ⟨filter, rfl, h, fun _ _ => id⟩
    · obtain ⟨filter', hinsert, hgrows, _⟩ := insert_spec h vData
      exact ⟨filter', hinsert, hgrows.consistent h, fun _ _ => hgrows.has⟩
  | filterclear => exact ⟨{}, rfl, consistent_default, fun _ _ _ => Or.inl rfl⟩
  | transaction tx =>
    obtain ⟨found, filter', hrelevant, hgrows, _⟩ := isRelevantAndUpdate_spec h tx
    refine ⟨filter', ?_, hgrows.consistent h, fun _ _ => hgrows.has⟩
    change (filter.isRelevantAndUpdate tx).map Prod.snd = _
    rw [hrelevant]
    rfl

/-- What a filter has it keeps along every run without a load. -/
theorem attempt_keeps (h : filter.Consistent) (hkey : filter.Has key)
    (hevents : ∀ e ∈ events, ¬ e.Loads) (hrun : attempt step filter events = some filter') :
    filter'.Consistent ∧ filter'.Has key := by
  induction events generalizing filter with
  | nil =>
    obtain rfl := Option.some.inj hrun
    exact ⟨h, hkey⟩
  | cons e events ih =>
    obtain ⟨next, hnext, hconsistent, hkeeps⟩ := step_spec h e
    obtain ⟨next', hnext', hrest⟩ := attempt_cons_eq_some.mp hrun
    obtain rfl : next = next' := Option.some.inj (hnext.symm.trans hnext')
    exact ih hconsistent (hkeeps (hevents e List.mem_cons_self) key hkey)
      (fun e he => hevents e (List.mem_cons_of_mem _ he)) hrest

/-- What is claimed of a filter: no operation on it fails, and nothing that it was given is missed
until another filter is loaded. -/
structure Sound (filter : CBloomFilter) : Prop where
  contains : ∀ key, ∃ found, filter.contains key = some found
  insert : ∀ key, ∃ filter', filter.insert key = some filter'
  relevant : ∀ tx, ∃ result, filter.isRelevantAndUpdate tx = some result
  inserted : ∀ key filter' later filter'', filter.insert key = some filter' →
    (∀ e ∈ later, ¬ Event.Loads e) → attempt step filter' later = some filter'' →
    filter''.contains key = some true
  spent : ∀ tx i txout found filter' later filter'' spender, filter.Matches tx i txout →
    filter.updates txout = true → filter.isRelevantAndUpdate tx = some (found, filter') →
    (∀ e ∈ later, ¬ Event.Loads e) → attempt step filter' later = some filter'' →
    (∃ txin ∈ spender.vin, txin.prevout = ⟨tx.hash, i⟩) →
    ∃ last, filter''.isRelevantAndUpdate spender = some (true, last)

theorem sound_of_consistent (h : filter.Consistent) : filter.Sound where
  contains key := by
    obtain ⟨found, hfound, _⟩ := contains_spec h key
    exact ⟨found, hfound⟩
  insert key := by
    obtain ⟨filter', hinsert, _⟩ := insert_spec h key
    exact ⟨filter', hinsert⟩
  relevant tx := by
    obtain ⟨found, filter', hrelevant, _⟩ := isRelevantAndUpdate_spec h tx
    exact ⟨(found, filter'), hrelevant⟩
  inserted := by
    intro key filter' later filter'' hinsert hlater hrun
    obtain ⟨next, hnext, hgrows, hhas⟩ := insert_spec h key
    obtain rfl : next = filter' := Option.some.inj (hnext.symm.trans hinsert)
    obtain ⟨hconsistent, hkey⟩ := attempt_keeps (hgrows.consistent h) hhas hlater hrun
    obtain ⟨found, hfound, hiff⟩ := contains_spec hconsistent key
    rw [hfound, hiff.mpr hkey]
  spent := by
    intro tx i txout found filter' later filter'' spender hmatches hupdates hrelevant hlater hrun
      ⟨txin, hmem, hprevout⟩
    obtain ⟨_, hhas⟩ := isRelevantAndUpdate_matches h hmatches hupdates hrelevant
    obtain ⟨_, next, hnext, hgrows, _⟩ := isRelevantAndUpdate_spec h tx
    obtain ⟨_, rfl⟩ := Prod.mk.inj (Option.some.inj (hnext.symm.trans hrelevant))
    obtain ⟨hconsistent, hkey⟩ := attempt_keeps (hgrows.consistent h) hhas hlater hrun
    obtain ⟨relevant, last, hspender, _, hspends⟩ := isRelevantAndUpdate_spec hconsistent spender
    have hyes := hspends ⟨txin, hmem, by rwa [hprevout]⟩
    exact ⟨last, by rw [hspender, hyes]⟩

/-- Whatever a peer sends, its filter is sound. -/
theorem peer_filter_sound (events : List Event) :
    ∃ filter, attempt step {} events = some filter ∧ filter.Sound := by
  obtain ⟨filter, hrun, hconsistent⟩ := exists_attempt consistent_default
    (fun filter e h => by
      obtain ⟨filter', hstep, hnext, _⟩ := step_spec h e
      exact ⟨filter', hstep, hnext⟩) events
  exact ⟨filter, hrun, sound_of_consistent hconsistent⟩

set_option maxRecDepth 4000 in
/-- Under `BLOOM_UPDATE_P2PUBKEY_ONLY` an output that matches is not added when it does not pay to
a public key, and what spends it is missed. -/
theorem not_every_spender_relevant :
    ¬ ∀ events filter tx i txout found filter' (spender : CTransaction),
      attempt step {} events = some filter →
      (filter.nFlags &&& BLOOM_UPDATE_MASK = BLOOM_UPDATE_ALL ∨
        filter.nFlags &&& BLOOM_UPDATE_MASK = BLOOM_UPDATE_P2PUBKEY_ONLY) →
      filter.Matches tx i txout → filter.isRelevantAndUpdate tx = some (found, filter') →
      (∃ txin ∈ spender.vin, txin.prevout = ⟨tx.hash, i⟩) →
      ∃ last, filter'.isRelevantAndUpdate spender = some (true, last) := by
  intro hall
  let filter : CBloomFilter := ⟨[4, 0], false, false, 1, 0, 2⟩
  let txout : CTxOut := ⟨1, [1, 7], -10⟩
  let tx : CTransaction := ⟨0, 1, [], [txout], 0⟩
  let spender : CTransaction := ⟨1, 1, [⟨⟨0, 0⟩, [], 0⟩], [], 0⟩
  have hload : attempt step {} [.filterload [4, 0] 1 0 2] = some filter := by decide
  have hflag : filter.nFlags &&& BLOOM_UPDATE_MASK = BLOOM_UPDATE_P2PUBKEY_ONLY := by decide
  have hcontains : filter.containsAny (scriptData txout.scriptPubKey) = some true := by decide
  have hmatches : filter.Matches tx 0 txout := ⟨rfl, false, filter, rfl, hcontains⟩
  have hrelevant : filter.isRelevantAndUpdate tx = some (true, filter) := by decide
  have hspends : ∃ txin ∈ spender.vin, txin.prevout = ⟨tx.hash, 0⟩ :=
    ⟨_, List.mem_cons_self, rfl⟩
  have hmissed : filter.isRelevantAndUpdate spender = some (false, filter) := by decide
  obtain ⟨last, hfound⟩ := hall _ filter tx 0 txout true filter spender hload (Or.inr hflag)
    hmatches hrelevant hspends
  have hsame := hmissed.symm.trans hfound
  simp at hsame

end runs

end CBloomFilter

end Lytix
