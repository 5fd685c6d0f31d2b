import Lytix.Coins.Compressor
import Lytix.Coins.RestoreInput
import Lytix.Params.ChainParams

/-! The unspent outputs of one transaction on disk. A code word holds two flags, whether the
first two outputs are unspent, and how many bytes of the mask for the other outputs are not
zero. -/
namespace Lytix

open Readers

/-- The bound that `ReadCompactSize` puts on the length of a vector and of a script. -/
def MAX_SIZE : ℕ := 0x02000000

/-- `WriteVarInt` of an `int`. The loop ends at once on a negative one. -/
def writeVarInt (n : Int) : List UInt8 :=
  if n ≤ 127 then [UInt8.ofNat (n % 128).toNat] else VarInts.write n.toNat

def getSizeOfVarInt (n : Int) : ℕ := if n ≤ 127 then 1 else VarInts.size n.toNat

def readVarInt : Reader UInt8 Int := do
  let n ← VarInts.read 32
  pure ((n : Int).bmod (2 ^ 32))

/-- A byte of the mask, for eight outputs. -/
def byteOf (f : ℕ → Bool) : UInt8 :=
  (List.range 8).foldl (fun chAvail i =>
    if f i then chAvail ||| (1 <<< UInt8.ofNat i) else chAvail) 0

def bitsOf (chAvail : UInt8) : List Bool :=
  (List.range 8).map fun p => chAvail &&& (1 <<< UInt8.ofNat p) != 0

/-- The spentness bitmask: bytes are read until as many as the code word says are not zero. -/
def readMask (nMaskCode : ℕ) : Reader UInt8 (List Bool)
  | [] => if nMaskCode = 0 then some ([], []) else none
  | chAvail :: rest =>
    if nMaskCode = 0 then some ([], chAvail :: rest)
    else
      match readMask (if chAvail ≠ 0 then nMaskCode - 1 else nMaskCode) rest with
      | none => none
      | some (vAvail, rest) => some (bitsOf chAvail ++ vAvail, rest)

/-- The outputs that are available; the others stay null. -/
def readTxOuts (keys : PubKeys) : List Bool → Reader UInt8 (List CTxOut)
  | [] => pure []
  | false :: vAvail => do
    let vout ← readTxOuts keys vAvail
    pure (CTxOut.null :: vout)
  | true :: vAvail => do
    let txout ← CTxOutCompressor.unserialize keys
    let vout ← readTxOuts keys vAvail
    pure (txout :: vout)

namespace CCoins

variable (keys : PubKeys) (c : CCoins)

def unspentAt (i : ℕ) : Bool := (c.vout[i]?).any fun txout => !txout.isNull

/-- Byte `b` of the mask is not zero. -/
def usedByte (b : ℕ) : Bool := (List.range 8).any fun i => c.unspentAt (2 + b * 8 + i)

/-- The number of bytes of the mask, and of those that are not zero. -/
def calcMaskSize : ℕ × ℕ :=
  (List.range ((c.vout.length - 2 + 7) / 8)).foldl (fun (nLastUsedByte, nNonzeroBytes) b =>
    if c.usedByte b then (b + 1, nNonzeroBytes + 1) else (nLastUsedByte, nNonzeroBytes)) (0, 0)

def fFirst : Bool := c.unspentAt 0
def fSecond : Bool := c.unspentAt 1

/-- What the higher bits of the code word encode. -/
def maskCode : ℕ := c.calcMaskSize.2 - if c.fFirst || c.fSecond then 0 else 1

def codeFlags : ℕ :=
  (if c.fCoinBase then 1 else 0) + (if c.fCoinStake then 2 else 0) +
    (if c.fFirst then 4 else 0) + if c.fSecond then 8 else 0

/-- The assertion before a code word is made. -/
def canSerialize : Bool := c.fFirst || c.fSecond || c.calcMaskSize.2 != 0

/-- The size, from a code word of its own. -/
def getSerializeSize : Option ℕ :=
  if c.canSerialize then
    some (getSizeOfVarInt c.nVersion + VarInts.size ((8 * c.maskCode + c.codeFlags) % 2 ^ 32) +
      c.calcMaskSize.1 + ((c.vout.filter fun txout => !txout.isNull).map
        (CTxOutCompressor.getSerializeSize keys)).sum + getSizeOfVarInt c.nHeight)
  else none

def chAvail (b : ℕ) : UInt8 := byteOf fun i => c.unspentAt (2 + b * 8 + i)

def maskBytes : List UInt8 := (List.range c.calcMaskSize.1).map c.chAvail

def nCode : ℕ := (16 * c.maskCode + c.codeFlags) % 2 ^ 32

def serialize : Option (List UInt8) :=
  if c.canSerialize then
    some (writeVarInt c.nVersion ++ (VarInts.write c.nCode ++ (c.maskBytes ++
      ((c.vout.filter fun txout => !txout.isNull).flatMap (CTxOutCompressor.serialize keys) ++
        writeVarInt c.nHeight))))
  else none

def unserialize : Reader UInt8 CCoins := do
  let nVersion ← readVarInt
  let nCode ← VarInts.read 32
  let vAvail ← readMask (nCode / 16 + if nCode.testBit 2 || nCode.testBit 3 then 0 else 1)
  let vout ← readTxOuts keys (nCode.testBit 2 :: nCode.testBit 3 :: vAvail)
  let nHeight ← readVarInt
  pure (cleanup ⟨nCode.testBit 0, nCode.testBit 1, vout, nHeight, nVersion⟩)

/-- What was read back is the same, takes exactly what was written, and its size was known. -/
def RoundTrips : Prop := ∃ written, c.serialize keys = some written ∧
  Reads (unserialize keys) written c ∧ c.getSerializeSize keys = some written.length

/-- What is on disk: it has unspent outputs, spent outputs are null, and outputs and heights are
those of accepted transactions. The money range is the same on all networks. -/
structure Storable : Prop where
  live : c.isPruned = false
  cleaned : c.Cleaned
  nulls : c.NullsCanonical
  length : c.vout.length ≤ MAX_SIZE
  money : ∀ txout ∈ c.vout, txout.isNull = false →
    0 ≤ txout.nValue ∧ txout.nValue ≤ mainParams.nMaxMoneyOut
  scripts : ∀ txout ∈ c.vout, txout.scriptPubKey.length ≤ MAX_SIZE
  rounds : ∀ txout ∈ c.vout, txout.nRounds = -10
  height : 0 ≤ c.nHeight ∧ c.nHeight < 2 ^ 31
  version : -2 ^ 31 ≤ c.nVersion ∧ c.nVersion < 2 ^ 31

end CCoins

theorem bits_byte (b₀ b₁ b₂ b₃ b₄ b₅ b₆ b₇ : Bool) :
    bitsOf (byteOf fun i => [b₀, b₁, b₂, b₃, b₄, b₅, b₆, b₇].getD i false) =
      [b₀, b₁, b₂, b₃, b₄, b₅, b₆, b₇] ∧
    (byteOf (fun i => [b₀, b₁, b₂, b₃, b₄, b₅, b₆, b₇].getD i false) = 0 ↔
      [b₀, b₁, b₂, b₃, b₄, b₅, b₆, b₇].any id = false) := by
  revert b₀ b₁ b₂ b₃ b₄ b₅ b₆ b₇
  decide +kernel

theorem byteOf_congr {f g : ℕ → Bool} (h : ∀ i < 8, f i = g i) : byteOf f = byteOf g := by
  unfold byteOf
  apply List.foldl_ext
  intro chAvail i hi
  rw [h i (List.mem_range.mp hi)]

/-- A function on eight positions as the list of its values. -/
theorem byteOf_eq (f : ℕ → Bool) : byteOf f =
    byteOf fun i => [f 0, f 1, f 2, f 3, f 4, f 5, f 6, f 7].getD i false := by
  apply byteOf_congr
  intro i hi
  interval_cases i <;> rfl

theorem bitsOf_byteOf (f : ℕ → Bool) : bitsOf (byteOf f) = (List.range 8).map f := by
  rw [byteOf_eq, (bits_byte _ _ _ _ _ _ _ _).1]
  rfl

theorem byteOf_ne_zero_iff (f : ℕ → Bool) : byteOf f ≠ 0 ↔ (List.range 8).any f = true := by
  have hany : (List.range 8).any f = [f 0, f 1, f 2, f 3, f 4, f 5, f 6, f 7].any id := rfl
  rw [byteOf_eq, ne_eq, (bits_byte _ _ _ _ _ _ _ _).2, hany, Bool.not_eq_false]

/-- A mask whose last byte is not zero is read back from the number of such bytes. -/
theorem reads_readMask {bytes : List UInt8} (hlast : ∀ last, bytes.getLast? = some last → last ≠ 0) :
    Reads (readMask (bytes.countP (· ≠ 0))) bytes (bytes.flatMap bitsOf) := by
  induction bytes with
  | nil =>
    intro rest
    cases rest <;> rfl
  | cons chAvail bytes ih =>
    have hcount : (chAvail :: bytes).countP (· ≠ 0) ≠ 0 := by
      obtain ⟨last, hget⟩ := Option.isSome_iff_exists.mp
        (List.getLast?_isSome.mpr (List.cons_ne_nil chAvail bytes))
      have hpos : 0 < (chAvail :: bytes).countP (· ≠ 0) := List.countP_pos_iff.mpr
        ⟨last, List.mem_of_getLast? hget, decide_eq_true (hlast last hget)⟩
      omega
    have htail : ∀ last, bytes.getLast? = some last → last ≠ 0 := by
      intro last hget
      apply hlast
      rw [List.getLast?_cons, hget]
      rfl
    have hcode : (if chAvail ≠ 0 then (chAvail :: bytes).countP (· ≠ 0) - 1
        else (chAvail :: bytes).countP (· ≠ 0)) = bytes.countP (· ≠ 0) := by
      rw [List.countP_cons]
      by_cases hzero : chAvail = 0
      · simp [hzero]
      · simp [hzero]
    intro rest
    have hrest := ih htail rest
    change readMask _ (chAvail :: (bytes ++ rest)) = _
    rw [readMask, if_neg hcount, hcode]
    have hrun : readMask (bytes.countP (· ≠ 0)) (bytes ++ rest) =
        some (bytes.flatMap bitsOf, rest) := hrest
    rw [hrun]
    rfl

/-- Outputs are read back one after the other, and null ones are left out. -/
theorem reads_readTxOuts {keys : PubKeys} {vout : List CTxOut}
    (hnull : ∀ txout ∈ vout, txout.isNull = true → txout = CTxOut.null)
    (hread : ∀ txout ∈ vout, txout.isNull = false →
      Reads (CTxOutCompressor.unserialize keys) (CTxOutCompressor.serialize keys txout) txout) :
    Reads (readTxOuts keys (vout.map fun txout => !txout.isNull))
      ((vout.filter fun txout => !txout.isNull).flatMap (CTxOutCompressor.serialize keys))
      vout := by
  induction vout with
  | nil => exact Reads.pure []
  | cons txout vout ih =>
    have hrest := ih (fun o ho => hnull o (List.mem_cons_of_mem _ ho))
      fun o ho => hread o (List.mem_cons_of_mem _ ho)
    rw [List.map_cons]
    cases hspent : txout.isNull with
    | true =>
      rw [List.filter_cons_of_neg (by simp [hspent]), hnull txout List.mem_cons_self hspent]
      exact hrest.bind_nil (Reads.pure _)
    | false =>
      rw [List.filter_cons_of_pos (by simp [hspent]), List.flatMap_cons]
      apply (hread txout List.mem_cons_self hspent).bind
      exact hrest.bind_nil (Reads.pure _)

/-- The mask ends with its last byte that is not zero. -/
theorem maskLoop_spec (used : ℕ → Bool) (n : ℕ) :
    let mask := (List.range n).foldl (fun (nLastUsedByte, nNonzeroBytes) b =>
      if used b then (b + 1, nNonzeroBytes + 1) else (nLastUsedByte, nNonzeroBytes)) (0, 0)
    mask.1 ≤ n ∧ (∀ b, mask.1 ≤ b → b < n → used b = false) ∧
      (mask.1 = 0 ∨ used (mask.1 - 1) = true) ∧ mask.2 = (List.range mask.1).countP used := by
  induction n with
  | zero =>
    refine ⟨Nat.le_refl _, ?_, Or.inl rfl, rfl⟩
    intro b _ hb
    exact absurd hb (Nat.not_lt_zero b)
  | succ n ih =>
    rw [List.range_succ, List.foldl_append]
    generalize (List.range n).foldl (fun (nLastUsedByte, nNonzeroBytes) b =>
      if used b then (b + 1, nNonzeroBytes + 1) else (nLastUsedByte, nNonzeroBytes)) (0, 0) = mask
      at ih
    obtain ⟨hle, hunused, hlast, hcount⟩ := ih
    dsimp only [List.foldl_cons, List.foldl_nil]
    by_cases hused : used n = true
    · rw [if_pos hused]
      dsimp only
      refine ⟨Nat.le_refl _, ?_, ?_, ?_⟩
      · intro b hb hlt
        omega
      · right
        exact hused
      · obtain ⟨k, hk⟩ := Nat.exists_eq_add_of_le hle
        have hzero : ((List.range k).map (mask.1 + ·)).countP used = 0 := by
          apply List.countP_eq_zero.mpr
          intro b hb
          obtain ⟨j, hj, rfl⟩ := List.mem_map.mp hb
          have hjk := List.mem_range.mp hj
          rw [hunused _ (by omega) (by omega)]
          exact Bool.false_ne_true
        have hsplit : (List.range n).countP used = (List.range mask.1).countP used := by
          rw [hk, List.range_add, List.countP_append, hzero, Nat.add_zero]
        rw [List.range_succ, List.countP_append, hsplit, ← hcount, List.countP_singleton,
          if_pos hused]
    · rw [if_neg hused]
      dsimp only
      refine ⟨by omega, ?_, hlast, hcount⟩
      intro b hb hlt
      by_cases hbn : b = n
      · rw [hbn]
        exact Bool.eq_false_iff.mpr hused
      · exact hunused b hb (by omega)

theorem rdropWhile_append_of_all {α : Type*} {p : α → Bool} (l : List α) {m : List α}
    (h : ∀ x ∈ m, p x = true) : (l ++ m).rdropWhile p = l.rdropWhile p := by
  unfold List.rdropWhile
  rw [List.reverse_append, List.dropWhile_append_of_pos]
  intro x hx
  exact h x (List.mem_reverse.mp hx)

namespace CCoins

variable {keys : PubKeys} {c : CCoins}

/-- The first outputs, where null ones stand for those past the end. -/
def padded (c : CCoins) (n : ℕ) : List CTxOut :=
  (List.range n).map fun i => (c.vout[i]?).getD CTxOut.null

theorem padded_length : c.padded c.vout.length = c.vout := by
  apply List.ext_getElem?
  intro i
  unfold padded
  rw [List.getElem?_map]
  by_cases hi : i < c.vout.length
  · rw [List.getElem?_range hi, Option.map_some, List.getElem?_eq_getElem hi, Option.getD_some]
  · rw [List.getElem?_eq_none (by rw [List.length_range]; omega), Option.map_none,
      List.getElem?_eq_none (by omega)]

theorem unspentAt_eq (c : CCoins) (i : ℕ) :
    c.unspentAt i = !((c.vout[i]?).getD CTxOut.null).isNull := by
  unfold unspentAt
  cases c.vout[i]? with
  | none => rfl
  | some txout => rfl

/-- More outputs add null ones only, past the last one that is unspent. -/
theorem padded_add {n : ℕ} (h : ∀ i, n ≤ i → c.unspentAt i = false) (k : ℕ) :
    ∃ nulls, (∀ txout ∈ nulls, txout.isNull = true) ∧ c.padded (n + k) = c.padded n ++ nulls := by
  refine ⟨((List.range k).map (n + ·)).map fun i => (c.vout[i]?).getD CTxOut.null, ?_, ?_⟩
  · intro txout htxout
    obtain ⟨i, hi, rfl⟩ := List.mem_map.mp htxout
    obtain ⟨j, -, rfl⟩ := List.mem_map.mp hi
    have hspent := h (n + j) (by omega)
    rw [unspentAt_eq, Bool.not_eq_false'] at hspent
    exact hspent
  · unfold padded
    rw [List.range_add, List.map_append]

theorem filter_append_nulls (l : List CTxOut) {nulls : List CTxOut}
    (h : ∀ txout ∈ nulls, txout.isNull = true) :
    (l ++ nulls).filter (fun txout => !txout.isNull) = l.filter fun txout => !txout.isNull := by
  have hnone : nulls.filter (fun txout => !txout.isNull) = [] := by
    apply List.filter_eq_nil_iff.mpr
    intro txout htxout
    rw [h txout htxout]
    exact Bool.false_ne_true
  rw [List.filter_append, hnone, List.append_nil]

theorem unspentAt_of_length_le {i : ℕ} (hi : c.vout.length ≤ i) : c.unspentAt i = false := by
  unfold unspentAt
  rw [List.getElem?_eq_none hi, Option.any_none]

/-- The outputs that are read back have the unspent outputs, in order. -/
theorem filter_padded {n : ℕ} (h : ∀ i, n ≤ i → c.unspentAt i = false) :
    (c.padded n).filter (fun txout => !txout.isNull) =
      c.vout.filter fun txout => !txout.isNull := by
  obtain ⟨nulls, hnulls, hsplit⟩ := padded_add h c.vout.length
  obtain ⟨nulls', hnulls', hsplit'⟩ := padded_add (fun i => unspentAt_of_length_le) n
  rw [Nat.add_comm, hsplit', padded_length] at hsplit
  rw [← filter_append_nulls _ hnulls, ← hsplit, filter_append_nulls _ hnulls']

theorem rdropWhile_padded {n : ℕ} (h : ∀ i, n ≤ i → c.unspentAt i = false) :
    (c.padded n).rdropWhile CTxOut.isNull = c.vout.rdropWhile CTxOut.isNull := by
  obtain ⟨nulls, hnulls, hsplit⟩ := padded_add h c.vout.length
  obtain ⟨nulls', hnulls', hsplit'⟩ := padded_add (fun i => unspentAt_of_length_le) n
  rw [Nat.add_comm, hsplit', padded_length] at hsplit
  rw [← rdropWhile_append_of_all _ hnulls, ← hsplit, rdropWhile_append_of_all _ hnulls']

theorem usedByte_iff {b : ℕ} :
    c.usedByte b = true ↔ ∃ i < 8, c.unspentAt (2 + b * 8 + i) = true := by
  unfold usedByte
  rw [List.any_eq_true]
  constructor
  · rintro ⟨i, hi, hunspent⟩
    exact ⟨i, List.mem_range.mp hi, hunspent⟩
  · rintro ⟨i, hi, hunspent⟩
    exact ⟨i, List.mem_range.mpr hi, hunspent⟩

/-- The mask covers all unspent outputs from the third one on. -/
theorem unspentAt_of_mask_le {i : ℕ} (hi : 2 + 8 * c.calcMaskSize.1 ≤ i) :
    c.unspentAt i = false := by
  obtain ⟨-, hunused, -, -⟩ := maskLoop_spec c.usedByte ((c.vout.length - 2 + 7) / 8)
  by_cases hlength : c.vout.length ≤ i
  · exact unspentAt_of_length_le hlength
  · have hbyte : c.usedByte ((i - 2) / 8) = false := by
      apply hunused
      · unfold calcMaskSize at hi
        omega
      · omega
    have hposition : 2 + (i - 2) / 8 * 8 + (i - 2) % 8 = i := by omega
    cases hunspent : c.unspentAt i with
    | false => rfl
    | true =>
      rw [← hposition] at hunspent
      rw [usedByte_iff.mpr ⟨(i - 2) % 8, by omega, hunspent⟩] at hbyte
      contradiction

theorem countP_maskBytes : c.maskBytes.countP (· ≠ 0) = c.calcMaskSize.2 := by
  obtain ⟨-, -, -, hcount⟩ := maskLoop_spec c.usedByte ((c.vout.length - 2 + 7) / 8)
  have hused : ((fun chAvail : UInt8 => decide (chAvail ≠ 0)) ∘ c.chAvail) = c.usedByte := by
    funext b
    have hiff : c.chAvail b ≠ 0 ↔ c.usedByte b = true := byteOf_ne_zero_iff _
    dsimp only [Function.comp_apply]
    rw [Bool.eq_iff_iff, decide_eq_true_eq, hiff]
  unfold maskBytes
  rw [List.countP_map, hused]
  exact hcount.symm

theorem maskBytes_last (last : UInt8) (h : c.maskBytes.getLast? = some last) : last ≠ 0 := by
  obtain ⟨-, -, hused, -⟩ := maskLoop_spec c.usedByte ((c.vout.length - 2 + 7) / 8)
  rcases hused with hzero | hused
  · have hempty : c.calcMaskSize.1 = 0 := hzero
    unfold maskBytes at h
    rw [hempty] at h
    contradiction
  · have hne : c.chAvail (c.calcMaskSize.1 - 1) ≠ 0 := (byteOf_ne_zero_iff _).mpr hused
    unfold maskBytes at h
    rw [List.getLast?_map, List.getLast?_range] at h
    split_ifs at h with hzero
    · contradiction
    · rw [← Option.some.inj h]
      exact hne

theorem map_padded (n : ℕ) :
    ((c.padded n).map fun txout => !txout.isNull) = (List.range n).map c.unspentAt := by
  unfold padded
  rw [List.map_map]
  apply List.map_congr_left
  intro i _
  exact (unspentAt_eq c i).symm

/-- The bits of the mask are those of the outputs it covers. -/
theorem bits_maskBytes : c.fFirst :: c.fSecond :: c.maskBytes.flatMap bitsOf =
    (c.padded (2 + 8 * c.calcMaskSize.1)).map fun txout => !txout.isNull := by
  have hbits (m : ℕ) : ((List.range m).map c.chAvail).flatMap bitsOf =
      (List.range (8 * m)).map fun j => c.unspentAt (2 + j) := by
    induction m with
    | zero => rfl
    | succ m ih =>
      rw [List.range_succ, List.map_append, List.flatMap_append, ih, Nat.mul_succ, List.range_add,
        List.map_append, List.map_singleton, List.flatMap_singleton]
      congr 1
      unfold chAvail
      rw [bitsOf_byteOf, List.map_map]
      apply List.map_congr_left
      intro i _
      dsimp only [Function.comp_apply]
      congr 1
      omega
  rw [map_padded, List.range_add, List.map_append, List.map_map]
  unfold maskBytes
  rw [hbits]
  rfl

/-- Eight outputs to a byte. -/
theorem calcMaskSize_le : c.calcMaskSize.2 ≤ c.calcMaskSize.1 ∧
    c.calcMaskSize.1 ≤ (c.vout.length - 2 + 7) / 8 := by
  obtain ⟨hle, -, -, hcount⟩ := maskLoop_spec c.usedByte ((c.vout.length - 2 + 7) / 8)
  constructor
  · have hlength := @List.countP_le_length _ c.usedByte (List.range c.calcMaskSize.1)
    rw [List.length_range] at hlength
    exact hcount.trans_le hlength
  · exact hle

theorem canSerialize_of_live (h : c.isPruned = false) : c.canSerialize = true := by
  obtain ⟨txout, hmem, hspent⟩ := List.all_eq_false.mp h
  obtain ⟨i, hget⟩ := List.mem_iff_getElem?.mp hmem
  have hunspent : c.unspentAt i = true := by
    unfold unspentAt
    rw [hget, Option.any_some]
    simpa using hspent
  unfold canSerialize
  rw [Bool.or_eq_true, Bool.or_eq_true]
  by_cases hfirst : i = 0
  · rw [hfirst] at hunspent
    exact Or.inl (Or.inl hunspent)
  by_cases hsecond : i = 1
  · rw [hsecond] at hunspent
    exact Or.inl (Or.inr hunspent)
  right
  rw [bne_iff_ne]
  intro hzero
  have hbyte : c.usedByte ((i - 2) / 8) = true := by
    apply usedByte_iff.mpr
    have hposition : 2 + (i - 2) / 8 * 8 + (i - 2) % 8 = i := by omega
    refine ⟨(i - 2) % 8, by omega, ?_⟩
    rw [hposition]
    exact hunspent
  obtain ⟨-, hunused, -, hcount⟩ := maskLoop_spec c.usedByte ((c.vout.length - 2 + 7) / 8)
  have hlength := (List.getElem?_eq_some_iff.mp hget).1
  by_cases hcovered : (i - 2) / 8 < c.calcMaskSize.1
  · have hnone : (List.range c.calcMaskSize.1).countP c.usedByte = 0 := hcount.symm.trans hzero
    exact List.countP_eq_zero.mp hnone _ (List.mem_range.mpr hcovered) hbyte
  · have hoff : c.usedByte ((i - 2) / 8) = false := hunused _ (by
      unfold calcMaskSize at hcovered
      omega) (by omega)
    rw [hoff] at hbyte
    contradiction

theorem codeFlags_lt : c.codeFlags < 16 := by
  unfold codeFlags
  split_ifs <;> omega

theorem testBit_code (n : ℕ) (b₀ b₁ b₂ b₃ : Bool) :
    let code := 16 * n + ((if b₀ then 1 else 0) + (if b₁ then 2 else 0) +
      (if b₂ then 4 else 0) + if b₃ then 8 else 0)
    code.testBit 0 = b₀ ∧ code.testBit 1 = b₁ ∧ code.testBit 2 = b₂ ∧ code.testBit 3 = b₃ := by
  simp only [Nat.testBit_eq_decide_div_mod_eq]
  cases b₀ <;> cases b₁ <;> cases b₂ <;> cases b₃ <;>
    simp only [Bool.false_eq_true, if_true, if_false, decide_eq_false_iff_not,
      decide_eq_true_eq] <;> omega

theorem nCode_eq (hlength : c.vout.length ≤ MAX_SIZE) :
    c.nCode = 16 * c.maskCode + c.codeFlags := by
  have hmax : MAX_SIZE = 2 ^ 25 := rfl
  have hmask := @calcMaskSize_le c
  have hflags := @codeFlags_lt c
  unfold nCode
  apply Nat.mod_eq_of_lt
  unfold maskCode
  omega

/-- The count of the mask comes back from the code word. -/
theorem maskCode_add (h : c.canSerialize = true) :
    c.maskCode + (if c.fFirst || c.fSecond then 0 else 1) = c.calcMaskSize.2 := by
  unfold maskCode
  by_cases hfront : (c.fFirst || c.fSecond) = true
  · rw [if_pos hfront]
    omega
  · rw [if_neg hfront]
    unfold canSerialize at h
    rw [Bool.not_eq_true] at hfront
    rw [hfront, Bool.false_or, bne_iff_ne] at h
    omega

/-- What is read back of an `int`: the last seven bits of a negative one. -/
def readBack (n : Int) : Int := if n < 0 then n % 128 else n

theorem reads_readVarInt {n : Int} (hn : n < 2 ^ 31) :
    Reads readVarInt (writeVarInt n) (readBack n) := by
  have hread (k : ℕ) (hk : (k : Int) = readBack n) (hlt : k < 2 ^ 31) :
      Reads readVarInt (VarInts.write k) (readBack n) := by
    apply (VarInts.reads_write (by omega : k < 2 ^ 32)).bind_nil
    have hvalue : (k : Int).bmod (2 ^ 32) = readBack n := by
      rw [Int.bmod_eq_of_le (by omega) (by omega), hk]
    rw [hvalue]
    exact Reads.pure _
  unfold writeVarInt
  by_cases hsmall : n ≤ 127
  · have hvalue : ((n % 128).toNat : Int) = readBack n := by
      unfold readBack
      split_ifs <;> omega
    rw [if_pos hsmall, ← VarInts.write_of_le (by omega)]
    exact hread _ hvalue (by omega)
  · have hvalue : (n.toNat : Int) = readBack n := by
      unfold readBack
      rw [if_neg (by omega)]
      omega
    rw [if_neg hsmall]
    exact hread _ hvalue (by omega)

theorem length_writeVarInt (n : Int) : (writeVarInt n).length = getSizeOfVarInt n := by
  unfold writeVarInt getSizeOfVarInt
  split_ifs
  · rfl
  · exact VarInts.length_write _

theorem Storable.reads_txout (lawful : keys.Lawful) (storable : c.Storable) {txout : CTxOut}
    (hmem : txout ∈ c.vout) (hunspent : txout.isNull = false) :
    Reads (CTxOutCompressor.unserialize keys) (CTxOutCompressor.serialize keys txout) txout := by
  obtain ⟨hvalue, hmoney⟩ := storable.money txout hmem hunspent
  have hmax : mainParams.nMaxMoneyOut = 10 ^ 16 := rfl
  have hscript := storable.scripts txout hmem
  have hsize : MAX_SIZE + CScriptCompressor.nSpecialScripts < 2 ^ 32 := by decide
  exact CTxOutCompressor.reads_serialize lawful hvalue (by omega) (storable.rounds txout hmem)
    (by omega)

theorem mem_padded {n : ℕ} {txout : CTxOut} (h : txout ∈ c.padded n) :
    txout ∈ c.vout ∨ txout = CTxOut.null := by
  obtain ⟨i, -, rfl⟩ := List.mem_map.mp h
  cases hget : c.vout[i]? with
  | none => exact Or.inr rfl
  | some txout => exact Or.inl (List.mem_of_getElem? hget)

/-- Everything is read back but a negative version. -/
theorem Storable.reads_serialize (lawful : keys.Lawful) (storable : c.Storable)
    {written : List UInt8} (h : c.serialize keys = some written) :
    Reads (unserialize keys) written { c with nVersion := readBack c.nVersion } := by
  have hcan := canSerialize_of_live storable.live
  unfold serialize at h
  rw [if_pos hcan] at h
  rw [← Option.some.inj h]
  have hcode := nCode_eq storable.length
  have hflags := @codeFlags_lt c
  obtain ⟨hbase, hstake, hfirst, hsecond⟩ :=
    testBit_code c.maskCode c.fCoinBase c.fCoinStake c.fFirst c.fSecond
  have hbits : c.nCode = 16 * c.maskCode + ((if c.fCoinBase then 1 else 0) +
      (if c.fCoinStake then 2 else 0) + (if c.fFirst then 4 else 0) +
      if c.fSecond then 8 else 0) := hcode
  rw [← hbits] at hbase hstake hfirst hsecond
  have hcount : c.nCode / 16 +
      (if c.nCode.testBit 2 || c.nCode.testBit 3 then 0 else 1) =
        c.maskBytes.countP (· ≠ 0) := by
    rw [hfirst, hsecond, countP_maskBytes, ← maskCode_add hcan]
    congr 1
    omega
  apply (reads_readVarInt storable.version.2).bind
  have hreadCode : Reads (VarInts.read 32) (VarInts.write c.nCode) c.nCode :=
    VarInts.reads_write (Nat.mod_lt _ (by decide))
  apply hreadCode.bind
  rw [hcount]
  apply (reads_readMask maskBytes_last).bind
  rw [hfirst, hsecond, bits_maskBytes, ← filter_padded fun i hi => unspentAt_of_mask_le hi]
  have hnull : ∀ txout ∈ c.padded (2 + 8 * c.calcMaskSize.1), txout.isNull = true →
      txout = CTxOut.null := by
    intro txout hmem hspent
    rcases mem_padded hmem with hmem | heq
    · exact storable.nulls txout hmem hspent
    · exact heq
  have hread : ∀ txout ∈ c.padded (2 + 8 * c.calcMaskSize.1), txout.isNull = false →
      Reads (CTxOutCompressor.unserialize keys) (CTxOutCompressor.serialize keys txout)
        txout := by
    intro txout hmem hunspent
    rcases mem_padded hmem with hmem | heq
    · exact storable.reads_txout lawful hmem hunspent
    · rw [heq, CTxOut.isNull_null] at hunspent
      contradiction
  apply (reads_readTxOuts hnull hread).bind
  apply (reads_readVarInt storable.height.2).bind_nil
  have hheight : readBack c.nHeight = c.nHeight := if_neg (by have := storable.height.1; omega)
  have hvout : (c.padded (2 + 8 * c.calcMaskSize.1)).rdropWhile CTxOut.isNull = c.vout :=
    (rdropWhile_padded fun i hi => unspentAt_of_mask_le hi).trans storable.cleaned.vout_eq
  have hresult : cleanup ⟨c.nCode.testBit 0, c.nCode.testBit 1,
      c.padded (2 + 8 * c.calcMaskSize.1), readBack c.nHeight, readBack c.nVersion⟩ =
      { c with nVersion := readBack c.nVersion } := by
    unfold cleanup
    dsimp only
    rw [hvout, hbase, hstake, hheight]
  rw [hresult]
  exact Reads.pure _

/-- The two code words have sizes that differ when one of them only is over a bound. -/
def SizesAgree (maskCode : ℕ) (fSecond : Bool) : Prop :=
  (maskCode ≤ 7 ∨ 15 < maskCode ∨ maskCode = 15 ∧ fSecond = true) ∧
  (maskCode ≤ 1031 ∨ 2063 < maskCode ∨ maskCode = 2063 ∧ fSecond = true) ∧
  (maskCode ≤ 132103 ∨ 264207 < maskCode ∨ maskCode = 264207 ∧ fSecond = true)

instance (maskCode : ℕ) (fSecond : Bool) : Decidable (SizesAgree maskCode fSecond) :=
  inferInstanceAs (Decidable (_ ∧ _ ∧ _))

theorem size_code_iff (hlength : c.vout.length ≤ MAX_SIZE) :
    VarInts.size ((8 * c.maskCode + c.codeFlags) % 2 ^ 32) = VarInts.size c.nCode ↔
      SizesAgree c.maskCode c.fSecond := by
  have hmax : MAX_SIZE = 2 ^ 25 := rfl
  have hmask := @calcMaskSize_le c
  have hflags := @codeFlags_lt c
  have hsmall : c.maskCode < 2 ^ 23 := by
    unfold maskCode
    omega
  have hsecond : c.fSecond = true ↔ 8 ≤ c.codeFlags := by
    unfold codeFlags
    cases c.fCoinBase <;> cases c.fCoinStake <;> cases c.fFirst <;> cases c.fSecond <;> simp
  rw [nCode_eq hlength, Nat.mod_eq_of_lt (by omega), VarInts.size_eq (by omega),
    VarInts.size_eq (by omega)]
  unfold SizesAgree
  rw [hsecond]
  generalize c.maskCode = n at *
  generalize c.codeFlags = f at *
  -- neither code word takes a fifth byte
  have hfifth : ¬ 270549119 < 8 * n + f := by omega
  have hfifth' : ¬ 270549119 < 16 * n + f := by omega
  rw [if_neg hfifth, if_neg hfifth']
  clear hmask
  split_ifs <;> omega

theorem sum_sizes (vout : List CTxOut) :
    (vout.map (CTxOutCompressor.getSerializeSize keys)).sum =
      (vout.flatMap (CTxOutCompressor.serialize keys)).length := by
  induction vout with
  | nil => rfl
  | cons txout vout ih =>
    rw [List.map_cons, List.sum_cons, List.flatMap_cons, List.length_append, ih,
      CTxOutCompressor.length_serialize]

/-- The size that is computed is the length of what is written if the sizes of the two code
words are the same. -/
theorem Storable.getSerializeSize_iff (storable : c.Storable) {written : List UInt8}
    (h : c.serialize keys = some written) :
    c.getSerializeSize keys = some written.length ↔ SizesAgree c.maskCode c.fSecond := by
  have hcan := canSerialize_of_live storable.live
  unfold serialize at h
  rw [if_pos hcan] at h
  unfold getSerializeSize
  rw [if_pos hcan, ← Option.some.inj h, Option.some.injEq, ← size_code_iff storable.length,
    sum_sizes]
  simp only [List.length_append, VarInts.length_write, length_writeVarInt]
  have hmask : c.maskBytes.length = c.calcMaskSize.1 := by
    unfold maskBytes
    rw [List.length_map, List.length_range]
  rw [hmask]
  omega

end CCoins

open CCoins in
/-- An entry round-trips exactly if its version is not negative and the size is computed from a
code word that is as long as the one that is written. -/
theorem diskFormat_roundTrips_iff (keys : PubKeys) (lawful : keys.Lawful) (c : CCoins)
    (storable : c.Storable) :
    c.RoundTrips keys ↔ 0 ≤ c.nVersion ∧ SizesAgree c.maskCode c.fSecond := by
  have hwritten : ∃ written, c.serialize keys = some written := by
    unfold CCoins.serialize
    rw [if_pos (canSerialize_of_live storable.live)]
    exact ⟨_, rfl⟩
  constructor
  · rintro ⟨written, hserialize, hreads, hsize⟩
    have hsame := hreads.unique (storable.reads_serialize lawful hserialize)
    have hversion : c.nVersion = CCoins.readBack c.nVersion := congrArg CCoins.nVersion hsame
    constructor
    · unfold CCoins.readBack at hversion
      split_ifs at hversion with hnegative
      · omega
      · omega
    · exact (storable.getSerializeSize_iff hserialize).mp hsize
  · rintro ⟨hversion, hagree⟩
    obtain ⟨written, hserialize⟩ := hwritten
    refine ⟨written, hserialize, ?_, (storable.getSerializeSize_iff hserialize).mpr hagree⟩
    have hreads := storable.reads_serialize lawful hserialize
    have hsame : CCoins.readBack c.nVersion = c.nVersion := if_neg (by omega)
    rw [hsame] at hreads
    exact hreads

namespace CoinsOnDisk

/-- No key is compressed here. -/
def keys : PubKeys := ⟨fun _ => false, fun _ => none⟩

theorem lawful : keys.Lawful := by
  intro pubkey _ _ hvalid
  contradiction

def coin : CTxOut := ⟨60000000000, List.replicate 25 0x51, -10⟩

/-- Only the second output is unspent. -/
def second : CCoins := ⟨false, true, [CTxOut.null, coin], 203998, 1⟩

/-- The first output is unspent, and one output in each of eight groups. -/
def sparse : CCoins where
  fCoinBase := false
  fCoinStake := false
  vout := (List.range 59).map fun i => if i = 0 ∨ i % 8 = 2 then coin else CTxOut.null
  nHeight := 100
  nVersion := 1

theorem storable_second : second.Storable where
  live := by decide
  cleaned := by decide
  nulls := by
    unfold CCoins.NullsCanonical
    decide
  length := by decide
  money := by decide
  scripts := by decide
  rounds := by decide
  height := by decide
  version := by decide

theorem storable_sparse : sparse.Storable where
  live := by decide
  cleaned := by decide
  nulls := by
    unfold CCoins.NullsCanonical
    decide
  length := by decide
  money := by decide
  scripts := by decide
  rounds := by decide
  height := by decide
  version := by decide

theorem diskFormat_roundTrips_second : second.RoundTrips keys :=
  (diskFormat_roundTrips_iff keys lawful second storable_second).mpr ⟨by decide, by decide⟩

theorem not_diskFormat_roundTrips : ¬ ∀ (keys : PubKeys) (c : CCoins), keys.Lawful →
    c.Storable → 0 ≤ c.nVersion → c.RoundTrips keys := by
  intro h
  obtain ⟨written, hserialize, -, hsize⟩ := h keys sparse lawful storable_sparse (by decide)
  have hagree := (storable_sparse.getSerializeSize_iff hserialize).mp hsize
  revert hagree
  decide

end CoinsOnDisk

end Lytix
