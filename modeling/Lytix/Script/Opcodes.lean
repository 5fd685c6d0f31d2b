import Lytix.Lib.CheckedStacks
import Lytix.Lib.Checks
import Lytix.Lib.LittleEndian
import Lytix.Wallet.Solver

/-! The operations of a script, one by one, and what they do to the stack. The top of a stack
stands first. -/
namespace Lytix

open Checks CheckedStacks

abbrev valtype := List UInt8

def MAX_SCRIPT_ELEMENT_SIZE : Nat := 520

/-! The opcodes that the interpreter names outside of its switch. -/

def OP_1NEGATE : UInt8 := 0x4f
def OP_IF : UInt8 := 0x63
def OP_ENDIF : UInt8 := 0x68
def OP_CHECKSIGVERIFY : UInt8 := 0xad
def OP_CHECKMULTISIGVERIFY : UInt8 := 0xaf

/-- The opcodes of the switch, those that push a number apart. -/
inductive opcodetype where
  | OP_NOP | OP_NOP1 | OP_NOP2 | OP_NOP3 | OP_NOP4 | OP_NOP5 | OP_NOP6 | OP_NOP7 | OP_NOP8
  | OP_NOP9 | OP_NOP10
  | OP_IF | OP_NOTIF | OP_ELSE | OP_ENDIF | OP_VERIFY | OP_RETURN
  | OP_TOALTSTACK | OP_FROMALTSTACK
  | OP_2DROP | OP_2DUP | OP_3DUP | OP_2OVER | OP_2ROT | OP_2SWAP | OP_IFDUP | OP_DEPTH | OP_DROP
  | OP_DUP | OP_NIP | OP_OVER | OP_PICK | OP_ROLL | OP_ROT | OP_SWAP | OP_TUCK | OP_SIZE
  | OP_EQUAL | OP_EQUALVERIFY
  | OP_1ADD | OP_1SUB | OP_NEGATE | OP_ABS | OP_NOT | OP_0NOTEQUAL
  | OP_ADD | OP_SUB | OP_BOOLAND | OP_BOOLOR | OP_NUMEQUAL | OP_NUMEQUALVERIFY | OP_NUMNOTEQUAL
  | OP_LESSTHAN | OP_GREATERTHAN | OP_LESSTHANOREQUAL | OP_GREATERTHANOREQUAL | OP_MIN | OP_MAX
  | OP_WITHIN
  | OP_RIPEMD160 | OP_SHA1 | OP_SHA256 | OP_HASH160 | OP_HASH256
  | OP_CODESEPARATOR
  | OP_CHECKSIG | OP_CHECKSIGVERIFY | OP_CHECKMULTISIG | OP_CHECKMULTISIGVERIFY
  | default
deriving DecidableEq, Repr

def opcodetype.ofByte (opcode : UInt8) : opcodetype :=
  match opcode.toNat with
  | 0x61 => .OP_NOP
  | 0x63 => .OP_IF
  | 0x64 => .OP_NOTIF
  | 0x67 => .OP_ELSE
  | 0x68 => .OP_ENDIF
  | 0x69 => .OP_VERIFY
  | 0x6a => .OP_RETURN
  | 0x6b => .OP_TOALTSTACK
  | 0x6c => .OP_FROMALTSTACK
  | 0x6d => .OP_2DROP
  | 0x6e => .OP_2DUP
  | 0x6f => .OP_3DUP
  | 0x70 => .OP_2OVER
  | 0x71 => .OP_2ROT
  | 0x72 => .OP_2SWAP
  | 0x73 => .OP_IFDUP
  | 0x74 => .OP_DEPTH
  | 0x75 => .OP_DROP
  | 0x76 => .OP_DUP
  | 0x77 => .OP_NIP
  | 0x78 => .OP_OVER
  | 0x79 => .OP_PICK
  | 0x7a => .OP_ROLL
  | 0x7b => .OP_ROT
  | 0x7c => .OP_SWAP
  | 0x7d => .OP_TUCK
  | 0x82 => .OP_SIZE
  | 0x87 => .OP_EQUAL
  | 0x88 => .OP_EQUALVERIFY
  | 0x8b => .OP_1ADD
  | 0x8c => .OP_1SUB
  | 0x8f => .OP_NEGATE
  | 0x90 => .OP_ABS
  | 0x91 => .OP_NOT
  | 0x92 => .OP_0NOTEQUAL
  | 0x93 => .OP_ADD
  | 0x94 => .OP_SUB
  | 0x9a => .OP_BOOLAND
  | 0x9b => .OP_BOOLOR
  | 0x9c => .OP_NUMEQUAL
  | 0x9d => .OP_NUMEQUALVERIFY
  | 0x9e => .OP_NUMNOTEQUAL
  | 0x9f => .OP_LESSTHAN
  | 0xa0 => .OP_GREATERTHAN
  | 0xa1 => .OP_LESSTHANOREQUAL
  | 0xa2 => .OP_GREATERTHANOREQUAL
  | 0xa3 => .OP_MIN
  | 0xa4 => .OP_MAX
  | 0xa5 => .OP_WITHIN
  | 0xa6 => .OP_RIPEMD160
  | 0xa7 => .OP_SHA1
  | 0xa8 => .OP_SHA256
  | 0xa9 => .OP_HASH160
  | 0xaa => .OP_HASH256
  | 0xab => .OP_CODESEPARATOR
  | 0xac => .OP_CHECKSIG
  | 0xad => .OP_CHECKSIGVERIFY
  | 0xae => .OP_CHECKMULTISIG
  | 0xaf => .OP_CHECKMULTISIGVERIFY
  | 0xb0 => .OP_NOP1
  | 0xb1 => .OP_NOP2
  | 0xb2 => .OP_NOP3
  | 0xb3 => .OP_NOP4
  | 0xb4 => .OP_NOP5
  | 0xb5 => .OP_NOP6
  | 0xb6 => .OP_NOP7
  | 0xb7 => .OP_NOP8
  | 0xb8 => .OP_NOP9
  | 0xb9 => .OP_NOP10
  | _ => .default

/-- `OP_CAT` to `OP_RIGHT`, `OP_INVERT` to `OP_XOR`, `OP_2MUL`, `OP_2DIV` and `OP_MUL` to
`OP_RSHIFT`. -/
def isDisabled (opcode : UInt8) : Bool :=
  opcode ∈ [0x7e, 0x7f, 0x80, 0x81, 0x83, 0x84, 0x85, 0x86, 0x8d, 0x8e, 0x95, 0x96, 0x97, 0x98,
    0x99]

inductive ScriptError where
  | UNKNOWN_ERROR | EVAL_FALSE | OP_RETURN
  | SCRIPT_SIZE | PUSH_SIZE | OP_COUNT | STACK_SIZE | SIG_COUNT | PUBKEY_COUNT
  | VERIFY | EQUALVERIFY | CHECKMULTISIGVERIFY | CHECKSIGVERIFY | NUMEQUALVERIFY
  | BAD_OPCODE | DISABLED_OPCODE | INVALID_STACK_OPERATION | INVALID_ALTSTACK_OPERATION
  | UNBALANCED_CONDITIONAL
  | SIG_HASHTYPE | SIG_DER | MINIMALDATA | SIG_PUSHONLY | SIG_HIGH_S | SIG_NULLDUMMY | PUBKEYTYPE
  | DISCOURAGE_UPGRADABLE_NOPS
deriving DecidableEq, Repr

/-- What ends an evaluation early. -/
inductive Fault where
  | set_error (serror : ScriptError)
  | scriptnum_error
  /-- An access beyond the end of a stack, which the catch-all handler would hide. -/
  | out_of_range
  /-- A failed assertion, which ends the program. -/
  | assertion
deriving DecidableEq, Repr

/-- What the caller is told; no error code is set where the program ends. -/
def Fault.serror : Fault → Option ScriptError
  | .set_error serror => some serror
  | .scriptnum_error => some .UNKNOWN_ERROR
  | .out_of_range => some .UNKNOWN_ERROR
  | .assertion => none

def castToBool : valtype → Bool
  | [] => false
  | b :: vch => if b ≠ 0 then !(vch.isEmpty && b == 0x80) else castToBool vch

/-! Numbers on the stack. -/
namespace CScriptNum

/-- Not the shortest encoding: the byte of the sign holds no more than the sign, and the byte below
would have room for it. -/
def isPadded (vch : valtype) : Bool :=
  match vch.reverse with
  | [] => false
  | [back] => back &&& 0x7f == 0
  | back :: below :: _ => back &&& 0x7f == 0 && below &&& 0x80 == 0

def set_vch (vch : valtype) : Int :=
  match vch.getLast? with
  | none => 0
  | some back =>
    let result : Int := LittleEndian.value vch
    if back &&& 0x80 ≠ 0 then -(result - 0x80 * 256 ^ (vch.length - 1)) else result

def ofBytes (vch : valtype) (fRequireMinimal : Bool) : Except Fault Int := do
  stopIf (4 < vch.length) .scriptnum_error
  stopIf (fRequireMinimal && isPadded vch) .scriptnum_error
  return set_vch vch

def getint (value : Int) : Int := max (-2 ^ 31) (min (2 ^ 31 - 1) value)

/-- The bytes of the magnitude, with the sign in the highest bit. -/
def serialize (value : Int) : valtype :=
  let result := (Nat.digits 256 (value.natAbs % 2 ^ 64)).map UInt8.ofNat
  match result.getLast? with
  | none => []
  | some back =>
    if back &&& 0x80 ≠ 0 then result ++ [if value < 0 then 0x80 else 0]
    else if value < 0 then result.dropLast ++ [back ||| 0x80]
    else result

end CScriptNum

def vchFalse : valtype := []
def vchTrue : valtype := [1]

def vchOfBool (fValue : Bool) : valtype := if fValue then vchTrue else vchFalse

/-- The digests that a script can take of a stack element. -/
structure ScriptHashes where
  ripemd160 : valtype → Vector UInt8 20
  sha1 : valtype → Vector UInt8 20
  sha256 : valtype → Vector UInt8 32
  hash160 : valtype → Vector UInt8 20
  hash256 : valtype → Vector UInt8 32

abbrev Stack := List valtype

abbrev stacktop (stack : Stack) (i : Nat) : Except Fault valtype := top .out_of_range stack i
abbrev popstack (stack : Stack) : Except Fault Stack := pop .out_of_range stack

/-- The operation needs this many elements. -/
def need (n : Nat) (stack : Stack) : Except Fault Unit :=
  stopIf (stack.length < n) (.set_error .INVALID_STACK_OPERATION)

/-! The operations that only move elements. -/

def op2DROP (stack : Stack) : Except Fault Stack := do
  need 2 stack
  let stack ← popstack stack
  popstack stack

def op2DUP (stack : Stack) : Except Fault Stack := do
  need 2 stack
  let vch1 ← stacktop stack 2
  let vch2 ← stacktop stack 1
  return vch2 :: vch1 :: stack

def op3DUP (stack : Stack) : Except Fault Stack := do
  need 3 stack
  let vch1 ← stacktop stack 3
  let vch2 ← stacktop stack 2
  let vch3 ← stacktop stack 1
  return vch3 :: vch2 :: vch1 :: stack

def op2OVER (stack : Stack) : Except Fault Stack := do
  need 4 stack
  let vch1 ← stacktop stack 4
  let vch2 ← stacktop stack 3
  return vch2 :: vch1 :: stack

def op2ROT (stack : Stack) : Except Fault Stack := do
  need 6 stack
  let vch1 ← stacktop stack 6
  let vch2 ← stacktop stack 5
  let stack ← erase .out_of_range stack 6 4
  return vch2 :: vch1 :: stack

def op2SWAP (stack : Stack) : Except Fault Stack := do
  need 4 stack
  let stack ← swap .out_of_range stack 4 2
  swap .out_of_range stack 3 1

def opIFDUP (stack : Stack) : Except Fault Stack := do
  need 1 stack
  let vch ← stacktop stack 1
  return if castToBool vch then vch :: stack else stack

def opDEPTH (stack : Stack) : Except Fault Stack :=
  return CScriptNum.serialize stack.length :: stack

def opDROP (stack : Stack) : Except Fault Stack := do
  need 1 stack
  popstack stack

def opDUP (stack : Stack) : Except Fault Stack := do
  need 1 stack
  let vch ← stacktop stack 1
  return vch :: stack

def opNIP (stack : Stack) : Except Fault Stack := do
  need 2 stack
  erase .out_of_range stack 2 1

def opOVER (stack : Stack) : Except Fault Stack := do
  need 2 stack
  let vch ← stacktop stack 2
  return vch :: stack

/-- `OP_PICK`, and `OP_ROLL` where `fRoll` holds. -/
def opPICK (fRoll fRequireMinimal : Bool) (stack : Stack) : Except Fault Stack := do
  need 2 stack
  let vchN ← stacktop stack 1
  let bn ← CScriptNum.ofBytes vchN fRequireMinimal
  let n := CScriptNum.getint bn
  let stack ← popstack stack
  stopIf (n < 0 ∨ (stack.length : Int) ≤ n) (.set_error .INVALID_STACK_OPERATION)
  let vch ← stacktop stack (n.toNat + 1)
  let stack ← if fRoll then erase .out_of_range stack (n.toNat + 1) n.toNat else pure stack
  return vch :: stack

def opROT (stack : Stack) : Except Fault Stack := do
  need 3 stack
  let stack ← swap .out_of_range stack 3 2
  swap .out_of_range stack 2 1

def opSWAP (stack : Stack) : Except Fault Stack := do
  need 2 stack
  swap .out_of_range stack 2 1

def opTUCK (stack : Stack) : Except Fault Stack := do
  need 2 stack
  let vch ← stacktop stack 1
  insert .out_of_range stack 2 vch

/-! The operations that compute. -/

def opSIZE (stack : Stack) : Except Fault Stack := do
  need 1 stack
  let vch ← stacktop stack 1
  return CScriptNum.serialize vch.length :: stack

/-- The verifying form of an operation: its result is taken away if it is true. -/
def verifyTop (fVerify : Bool) (serror : ScriptError) (fValue : Bool) (stack : Stack) :
    Except Fault Stack :=
  if fVerify then if fValue then popstack stack else .error (.set_error serror)
  else return stack

def opVERIFY (stack : Stack) : Except Fault Stack := do
  need 1 stack
  let vch ← stacktop stack 1
  if castToBool vch then popstack stack else .error (.set_error .VERIFY)

def opEQUAL (fVerify : Bool) (stack : Stack) : Except Fault Stack := do
  need 2 stack
  let vch1 ← stacktop stack 2
  let vch2 ← stacktop stack 1
  let fEqual := vch1 == vch2
  let stack ← popstack stack
  let stack ← popstack stack
  verifyTop fVerify .EQUALVERIFY fEqual (vchOfBool fEqual :: stack)

/-- The inner switch of the operations on one number. -/
def numeric1 (opcode : opcodetype) (bn : Int) : Except Fault Int :=
  match opcode with
  | .OP_1ADD => .ok (bn + 1)
  | .OP_1SUB => .ok (bn - 1)
  | .OP_NEGATE => .ok (-bn)
  | .OP_ABS => .ok (if bn < 0 then -bn else bn)
  | .OP_NOT => .ok (if bn = 0 then 1 else 0)
  | .OP_0NOTEQUAL => .ok (if bn ≠ 0 then 1 else 0)
  | _ => .error .assertion

def opNumeric1 (opcode : opcodetype) (fRequireMinimal : Bool) (stack : Stack) :
    Except Fault Stack := do
  need 1 stack
  let vch ← stacktop stack 1
  let bn ← CScriptNum.ofBytes vch fRequireMinimal
  let bn ← numeric1 opcode bn
  let stack ← popstack stack
  return CScriptNum.serialize bn :: stack

/-- The inner switch of the operations on two numbers. -/
def numeric2 (opcode : opcodetype) (bn1 bn2 : Int) : Except Fault Int :=
  let ofBool := fun b : Bool => if b then 1 else 0
  match opcode with
  | .OP_ADD => .ok (bn1 + bn2)
  | .OP_SUB => .ok (bn1 - bn2)
  | .OP_BOOLAND => .ok (ofBool (bn1 ≠ 0 ∧ bn2 ≠ 0))
  | .OP_BOOLOR => .ok (ofBool (bn1 ≠ 0 ∨ bn2 ≠ 0))
  | .OP_NUMEQUAL => .ok (ofBool (bn1 = bn2))
  | .OP_NUMEQUALVERIFY => .ok (ofBool (bn1 = bn2))
  | .OP_NUMNOTEQUAL => .ok (ofBool (bn1 ≠ bn2))
  | .OP_LESSTHAN => .ok (ofBool (bn1 < bn2))
  | .OP_GREATERTHAN => .ok (ofBool (bn2 < bn1))
  | .OP_LESSTHANOREQUAL => .ok (ofBool (bn1 ≤ bn2))
  | .OP_GREATERTHANOREQUAL => .ok (ofBool (bn2 ≤ bn1))
  | .OP_MIN => .ok (if bn1 < bn2 then bn1 else bn2)
  | .OP_MAX => .ok (if bn2 < bn1 then bn1 else bn2)
  | _ => .error .assertion

def opNumeric2 (opcode : opcodetype) (fRequireMinimal : Bool) (stack : Stack) :
    Except Fault Stack := do
  need 2 stack
  let vch1 ← stacktop stack 2
  let bn1 ← CScriptNum.ofBytes vch1 fRequireMinimal
  let vch2 ← stacktop stack 1
  let bn2 ← CScriptNum.ofBytes vch2 fRequireMinimal
  let bn ← numeric2 opcode bn1 bn2
  let stack ← popstack stack
  let stack ← popstack stack
  let stack := CScriptNum.serialize bn :: stack
  if opcode = .OP_NUMEQUALVERIFY then
    let vch ← stacktop stack 1
    verifyTop true .NUMEQUALVERIFY (castToBool vch) stack
  else return stack

def opWITHIN (fRequireMinimal : Bool) (stack : Stack) : Except Fault Stack := do
  need 3 stack
  let vch1 ← stacktop stack 3
  let bn1 ← CScriptNum.ofBytes vch1 fRequireMinimal
  let vch2 ← stacktop stack 2
  let bn2 ← CScriptNum.ofBytes vch2 fRequireMinimal
  let vch3 ← stacktop stack 1
  let bn3 ← CScriptNum.ofBytes vch3 fRequireMinimal
  let fValue := decide (bn2 ≤ bn1 ∧ bn1 < bn3)
  let stack ← popstack stack
  let stack ← popstack stack
  let stack ← popstack stack
  return vchOfBool fValue :: stack

/-- The operations that replace an element by its digest. -/
def opHash (digest : valtype → valtype) (stack : Stack) : Except Fault Stack := do
  need 1 stack
  let vch ← stacktop stack 1
  let stack ← popstack stack
  return digest vch :: stack

end Lytix
