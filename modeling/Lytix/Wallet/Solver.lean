import Lytix.Primitives.Transaction

/-! Reading a script operation by operation, and the types of standard output scripts. -/
namespace Lytix

def OP_0 : UInt8 := 0x00
def OP_1 : UInt8 := 0x51
def OP_16 : UInt8 := 0x60
def OP_CHECKMULTISIG : UInt8 := 0xae

/-! The opcodes that stand for an operand in a template. -/

def OP_SMALLINTEGER : UInt8 := 0xfa
def OP_PUBKEYS : UInt8 := 0xfb
def OP_PUBKEYHASH : UInt8 := 0xfd
def OP_PUBKEY : UInt8 := 0xfe

/-- An opcode with its operand. -/
abbrev ScriptOp := UInt8 × List UInt8

namespace Script

/-- An operand of `nSize` bytes, and what is left of the script. -/
def takeOperand (opcode : UInt8) (nSize : Nat) (pc : Script) : Option (ScriptOp × Script) :=
  if pc.length < nSize then none else some ((opcode, pc.take nSize), pc.drop nSize)

/-- `GetOp` with the operand; `none` where it returns false. -/
def takeOp : Script → Option (ScriptOp × Script)
  | [] => none
  | opcode :: pc =>
    if opcode < OP_PUSHDATA1 then takeOperand opcode opcode.toNat pc
    else if opcode = OP_PUSHDATA1 then
      match pc with
      | n :: pc => takeOperand opcode n.toNat pc
      | [] => none
    else if opcode = OP_PUSHDATA2 then
      match pc with
      | n₀ :: n₁ :: pc => takeOperand opcode (n₀.toNat + 2 ^ 8 * n₁.toNat) pc
      | _ => none
    else if opcode = OP_PUSHDATA4 then
      match pc with
      | n₀ :: n₁ :: n₂ :: n₃ :: pc =>
        takeOperand opcode
          (n₀.toNat + 2 ^ 8 * n₁.toNat + 2 ^ 16 * n₂.toNat + 2 ^ 24 * n₃.toNat) pc
      | _ => none
    else some ((opcode, []), pc)

/-- The operations of a script, `none` where one of them is cut off. An operation takes a byte at
least, so the length of the script bounds the rounds. -/
def opsLoop : Nat → Script → Option (List ScriptOp)
  | _, [] => some []
  | 0, _ :: _ => none
  | rounds + 1, pc =>
    match pc.takeOp with
    | none => none
    | some (op, pc) => (opsLoop rounds pc).map (op :: ·)

def ops (script : Script) : Option (List ScriptOp) := opsLoop script.length script

def isPushOnly (script : Script) : Bool :=
  script.ops.any fun ops => ops.all fun op => decide (op.1 ≤ OP_16)

def isPayToScriptHash (script : Script) : Bool :=
  script.length == 23 && script[0]? == some OP_HASH160 && script[1]? == some 0x14 &&
    script[22]? == some OP_EQUAL

/-- `operator<<` of bytes: the length in front of them. -/
def push (bytes : List UInt8) : Script :=
  let nSize := bytes.length
  (if nSize < OP_PUSHDATA1.toNat then [UInt8.ofNat nSize]
    else if nSize ≤ 0xff then [OP_PUSHDATA1, UInt8.ofNat nSize]
    else if nSize ≤ 0xffff then [OP_PUSHDATA2, UInt8.ofNat nSize, UInt8.ofNat (nSize / 2 ^ 8)]
    else [OP_PUSHDATA4, UInt8.ofNat nSize, UInt8.ofNat (nSize / 2 ^ 8),
      UInt8.ofNat (nSize / 2 ^ 16), UInt8.ofNat (nSize / 2 ^ 24)]) ++ bytes

end Script

inductive txnouttype where
  | TX_NONSTANDARD | TX_PUBKEY | TX_PUBKEYHASH | TX_SCRIPTHASH | TX_MULTISIG | TX_NULL_DATA
  | TX_ZEROCOINMINT
deriving DecidableEq, Repr

def decodeOP_N (opcode : UInt8) : UInt8 := if opcode = OP_0 then 0 else opcode - (OP_1 - 1)

def isPubKeySize (vch : List UInt8) : Bool := decide (33 ≤ vch.length ∧ vch.length ≤ 65)

/-- What an operation adds to the solutions under an opcode of a template. -/
def matchOp (opcode2 : UInt8) (op : ScriptOp) : Option (List (List UInt8)) :=
  if opcode2 = OP_PUBKEY then if isPubKeySize op.2 then some [op.2] else none
  else if opcode2 = OP_PUBKEYHASH then if op.2.length = 20 then some [op.2] else none
  else if opcode2 = OP_SMALLINTEGER then
    if op.1 = OP_0 ∨ OP_1 ≤ op.1 ∧ op.1 ≤ OP_16 then some [[decodeOP_N op.1]] else none
  else if op = (opcode2, []) then some []
  else none

/-- The comparison of a script with a template. `OP_PUBKEYS` takes all public keys that come, and
what follows them is compared with the next opcode. -/
def matchTemplate : List UInt8 → List ScriptOp → Option (List (List UInt8))
  | [], [] => some []
  | [], _ :: _ => none
  | _ :: _, [] => none
  | opcode2 :: template, op :: ops =>
    if opcode2 = OP_PUBKEYS then
      let keys := (op :: ops).takeWhile fun op => isPubKeySize op.2
      (matchTemplate template ((op :: ops).drop keys.length)).map (keys.map Prod.snd ++ ·)
    else
      (matchOp opcode2 op).bind fun solutions =>
        (matchTemplate template ops).map (solutions ++ ·)

/-- `mTemplates`, in the order of the map. -/
def mTemplates : List (txnouttype × List UInt8) :=
  [(.TX_PUBKEY, [OP_PUBKEY, OP_CHECKSIG]),
    (.TX_PUBKEYHASH, [OP_DUP, OP_HASH160, OP_PUBKEYHASH, OP_EQUALVERIFY, OP_CHECKSIG]),
    (.TX_MULTISIG, [OP_SMALLINTEGER, OP_PUBKEYS, OP_SMALLINTEGER, OP_CHECKMULTISIG])]

/-- The additional checks for `TX_MULTISIG`. -/
def multisigSolved (solutions : List (List UInt8)) : Bool :=
  let m := ((solutions.head?.bind List.head?).getD 0).toNat
  let n := ((solutions.getLast?.bind List.head?).getD 0).toNat
  decide (1 ≤ m ∧ 1 ≤ n ∧ m ≤ n ∧ solutions.length - 2 = n)

/-- The first template that matches decides. -/
def scanTemplates (ops : List ScriptOp) :
    List (txnouttype × List UInt8) → Option (txnouttype × List (List UInt8))
  | [] => none
  | (whichType, template) :: rest =>
    match matchTemplate template ops with
    | none => scanTemplates ops rest
    | some solutions =>
      if whichType = .TX_MULTISIG ∧ multisigSolved solutions = false then none
      else some (whichType, solutions)

/-- The type of a standard output script, with the public keys or hashes in it. -/
def solver (scriptPubKey : Script) : Option (txnouttype × List (List UInt8)) :=
  if scriptPubKey.isPayToScriptHash then
    some (.TX_SCRIPTHASH, [(scriptPubKey.drop 2).take 20])
  else if scriptPubKey.isZerocoinMint then
    if 150 < scriptPubKey.length then none
    else some (.TX_ZEROCOINMINT, [scriptPubKey.drop 2])
  else if scriptPubKey.head? = some OP_RETURN ∧ Script.isPushOnly (scriptPubKey.drop 1) then
    some (.TX_NULL_DATA, [])
  else scriptPubKey.ops.bind fun ops => scanTemplates ops mTemplates

theorem head?_push_ne_mint (bytes : List UInt8) (rest : Script) :
    Script.isZerocoinMint (Script.push bytes ++ rest) = false := by
  unfold Script.isZerocoinMint Script.push
  dsimp only
  split_ifs with hsmall
  · have hbyte : UInt8.ofNat bytes.length ≠ OP_ZEROCOINMINT := by
      intro heq
      have hval := congrArg UInt8.toNat heq
      rw [UInt8.toNat_ofNat', Nat.mod_eq_of_lt (hsmall.trans (by decide))] at hval
      rw [hval] at hsmall
      exact absurd hsmall (by decide)
    simpa using hbyte
  · rfl
  · rfl
  · rfl

/-- A type other than that of a mint is no mint's. -/
theorem isZerocoinMint_of_solver {scriptPubKey : Script} {whichType : txnouttype}
    {vSolutions : List (List UInt8)} (h : solver scriptPubKey = some (whichType, vSolutions))
    (hhash : whichType ≠ .TX_SCRIPTHASH) (hmint : whichType ≠ .TX_ZEROCOINMINT) :
    scriptPubKey.isZerocoinMint = false := by
  unfold solver at h
  by_cases hp2sh : scriptPubKey.isPayToScriptHash = true
  · rw [if_pos hp2sh] at h
    exact absurd (congrArg Prod.fst (Option.some.inj h)).symm hhash
  · rw [if_neg hp2sh] at h
    by_contra hzero
    rw [Bool.not_eq_false] at hzero
    rw [if_pos hzero] at h
    split_ifs at h
    exact hmint (congrArg Prod.fst (Option.some.inj h)).symm

/-- A script that pays to a key hash has that type, with the hash as its solution. -/
example : solver ([OP_DUP, OP_HASH160] ++ Script.push (List.replicate 20 7) ++
    [OP_EQUALVERIFY, OP_CHECKSIG]) = some (.TX_PUBKEYHASH, [List.replicate 20 7]) := by
  decide

end Lytix
