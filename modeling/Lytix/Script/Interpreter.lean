import Lytix.Script.Opcodes

/-! The evaluation of scripts, with the calls of the signature checker that it makes. -/
namespace Lytix

open Checks CheckedStacks

/-! The verification flags. -/

def SCRIPT_VERIFY_P2SH : UInt32 := 0x01
def SCRIPT_VERIFY_STRICTENC : UInt32 := 0x02
def SCRIPT_VERIFY_DERSIG : UInt32 := 0x04
def SCRIPT_VERIFY_LOW_S : UInt32 := 0x08
def SCRIPT_VERIFY_NULLDUMMY : UInt32 := 0x10
def SCRIPT_VERIFY_SIGPUSHONLY : UInt32 := 0x20
def SCRIPT_VERIFY_MINIMALDATA : UInt32 := 0x40
def SCRIPT_VERIFY_DISCOURAGE_UPGRADABLE_NOPS : UInt32 := 0x80

/-- Some flag of the mask is set. -/
def hasFlag (flags mask : UInt32) : Bool := flags &&& mask != 0

/-- One call of the signature checker. -/
structure SigCall where
  vchSig : valtype
  vchPubKey : valtype
  scriptCode : Script

/-- What a script is evaluated with. The checker may answer by all calls made so far, the last one
first. -/
structure ScriptEnv where
  hashes : ScriptHashes
  checkSignatureElement : List UInt8 → Bool
  checkSig : List SigCall → Bool

/-- The checker when it has been called before. -/
def ScriptEnv.after (env : ScriptEnv) (calls : List SigCall) : ScriptEnv :=
  { env with checkSig := fun later => env.checkSig (later ++ calls) }

/-! The encodings of signatures and public keys. -/

def byteAt (vch : valtype) (i : Nat) : UInt8 := vch[i]?.getD 0

def isCompressedOrUncompressedPubKey (vchPubKey : valtype) : Bool :=
  if vchPubKey.length < 33 then false
  else if byteAt vchPubKey 0 = 0x04 then vchPubKey.length == 65
  else if byteAt vchPubKey 0 = 0x02 ∨ byteAt vchPubKey 0 = 0x03 then vchPubKey.length == 33
  else false

/-- `0x30 [total-length] 0x02 [R-length] [R] 0x02 [S-length] [S] [sighash]`. -/
def isValidSignatureEncoding (sig : valtype) : Bool :=
  let lenR := (byteAt sig 3).toNat
  let lenS := (byteAt sig (5 + lenR)).toNat
  if sig.length < 9 then false
  else if 73 < sig.length then false
  else if byteAt sig 0 ≠ 0x30 then false
  else if (byteAt sig 1).toNat ≠ sig.length - 3 then false
  else if sig.length ≤ 5 + lenR then false
  else if lenR + lenS + 7 ≠ sig.length then false
  else if byteAt sig 2 ≠ 0x02 then false
  else if lenR = 0 then false
  else if byteAt sig 4 &&& 0x80 ≠ 0 then false
  else if 1 < lenR ∧ byteAt sig 4 = 0 ∧ byteAt sig 5 &&& 0x80 = 0 then false
  else if byteAt sig (lenR + 4) ≠ 0x02 then false
  else if lenS = 0 then false
  else if byteAt sig (lenR + 6) &&& 0x80 ≠ 0 then false
  else if 1 < lenS ∧ byteAt sig (lenR + 6) = 0 ∧ byteAt sig (lenR + 7) &&& 0x80 = 0 then false
  else true

def isDefinedHashtypeSignature (vchSig : valtype) : Bool :=
  match vchSig.getLast? with
  | none => false
  | some back =>
    let nHashType := back &&& ~~~0x80
    decide (1 ≤ nHashType ∧ nHashType ≤ 3)

section
variable (env : ScriptEnv) (flags : UInt32)

def isLowDERSignature (vchSig : valtype) : Except Fault Unit := do
  stopIf (isValidSignatureEncoding vchSig = false) (.set_error .SIG_DER)
  let nLenR := (byteAt vchSig 3).toNat
  let nLenS := (byteAt vchSig (5 + nLenR)).toNat
  let S := (vchSig.drop (6 + nLenR)).take nLenS
  stopIf (env.checkSignatureElement S = false) (.set_error .SIG_HIGH_S)

def checkSignatureEncoding (vchSig : valtype) : Except Fault Unit :=
  if vchSig = [] then .ok ()
  else do
    stopIf (hasFlag flags (SCRIPT_VERIFY_DERSIG ||| SCRIPT_VERIFY_LOW_S ||| SCRIPT_VERIFY_STRICTENC)
      ∧ isValidSignatureEncoding vchSig = false) (.set_error .SIG_DER)
    checkWhen (hasFlag flags SCRIPT_VERIFY_LOW_S) (isLowDERSignature env vchSig)
    stopIf (hasFlag flags SCRIPT_VERIFY_STRICTENC ∧ isDefinedHashtypeSignature vchSig = false)
      (.set_error .SIG_HASHTYPE)

def checkPubKeyEncoding (vchPubKey : valtype) : Except Fault Unit :=
  stopIf (hasFlag flags SCRIPT_VERIFY_STRICTENC ∧ isCompressedOrUncompressedPubKey vchPubKey = false)
    (.set_error .PUBKEYTYPE)

end

def checkMinimalPush (data : valtype) (opcode : UInt8) : Bool :=
  match data with
  | [] => opcode == OP_0
  | [b] =>
    if 1 ≤ b ∧ b ≤ 16 then opcode == OP_1 + (b - 1)
    else if b = 0x81 then opcode == OP_1NEGATE
    else opcode == 1
  | _ =>
    if data.length ≤ 75 then opcode.toNat == data.length
    else if data.length ≤ 255 then opcode == OP_PUSHDATA1
    else if data.length ≤ 65535 then opcode == OP_PUSHDATA2
    else true

/-- `FindAndDelete` of a script that is not empty, from an operation on. Each round takes a byte
at least. -/
def findAndDeleteLoop (b : Script) : Nat → Script → Script
  | 0, pc => pc
  | rounds + 1, pc =>
    if b.isPrefixOf pc then findAndDeleteLoop b rounds (pc.drop b.length)
    else
      match pc.takeOp with
      | none => pc
      | some (_, rest) =>
        pc.take (pc.length - rest.length) ++ findAndDeleteLoop b rounds rest

def findAndDelete (script b : Script) : Script :=
  if b = [] then script else findAndDeleteLoop b script.length script

/-- An operation of a script, with the operand and the script behind it, or bytes that `GetOp`
cannot read. -/
inductive Instr where
  | op (opcode : UInt8) (vchPushValue : valtype) (pc : Script)
  | bad

def instrsLoop : Nat → Script → List Instr
  | _, [] => []
  | 0, _ :: _ => [.bad]
  | rounds + 1, pc =>
    match pc.takeOp with
    | none => [.bad]
    | some ((opcode, vchPushValue), pc) => .op opcode vchPushValue pc :: instrsLoop rounds pc

/-- What `GetOp` reads, in turn, until the end of the script or bytes that it cannot read. -/
def instrs (script : Script) : List Instr := instrsLoop script.length script

/-- The state between two operations. The last element of each vector stands first. -/
structure Machine where
  stack : Stack
  altstack : Stack
  vfExec : List Bool
  nOpCount : Nat
  codehash : Script
  calls : List SigCall

/-- An evaluation that has ended early, after these calls. -/
structure Stopped where
  fault : Fault
  calls : List SigCall

namespace Machine

def start (stack : Stack) (script : Script) : Machine := ⟨stack, [], [], 0, script, []⟩

def fExec (s : Machine) : Bool := s.vfExec.all id

/-- A computation that makes no calls. -/
def quietly {α : Type} (s : Machine) : Except Fault α → Except Stopped α
  | .ok a => .ok a
  | .error fault => .error ⟨fault, s.calls⟩

def stop {α : Type} (s : Machine) (serror : ScriptError) : Except Stopped α :=
  .error ⟨.set_error serror, s.calls⟩

/-- An operation that changes the stack alone. -/
def onStack (s : Machine) (op : Stack → Except Fault Stack) : Except Stopped Machine := do
  let stack ← s.quietly (op s.stack)
  return { s with stack }

/-- `OP_IF`, and `OP_NOTIF` where `fNot` holds. -/
def opIF (fNot : Bool) (s : Machine) : Except Stopped Machine :=
  if s.fExec then do
    let stack ← s.quietly do
      stopIf (s.stack.length < 1) (.set_error .UNBALANCED_CONDITIONAL)
      let vch ← stacktop s.stack 1
      let stack ← popstack s.stack
      return (vch, stack)
    return { s with stack := stack.2, vfExec := (castToBool stack.1 ^^ fNot) :: s.vfExec }
  else return { s with vfExec := false :: s.vfExec }

def opELSE (s : Machine) : Except Stopped Machine :=
  match s.vfExec with
  | [] => s.stop .UNBALANCED_CONDITIONAL
  | back :: vfExec => .ok { s with vfExec := (!back) :: vfExec }

def opENDIF (s : Machine) : Except Stopped Machine :=
  match s.vfExec with
  | [] => s.stop .UNBALANCED_CONDITIONAL
  | _ :: vfExec => .ok { s with vfExec }

def opTOALTSTACK (s : Machine) : Except Stopped Machine := do
  let (vch, stack) ← s.quietly do
    need 1 s.stack
    let vch ← stacktop s.stack 1
    let stack ← popstack s.stack
    return (vch, stack)
  return { s with stack, altstack := vch :: s.altstack }

def opFROMALTSTACK (s : Machine) : Except Stopped Machine := do
  let (vch, altstack) ← s.quietly do
    stopIf (s.altstack.length < 1) (.set_error .INVALID_ALTSTACK_OPERATION)
    let vch ← stacktop s.altstack 1
    let altstack ← popstack s.altstack
    return (vch, altstack)
  return { s with stack := vch :: s.stack, altstack }

end Machine

section
variable (env : ScriptEnv) (flags : UInt32)

/-- The checks of the encodings, and then the call of the checker. -/
def checkSig (calls : List SigCall) (call : SigCall) : Except Stopped (Bool × List SigCall) :=
  match (do checkSignatureEncoding env flags call.vchSig
            checkPubKeyEncoding flags call.vchPubKey) with
  | .error fault => .error ⟨fault, calls⟩
  | .ok () => .ok (env.checkSig (call :: calls), call :: calls)

/-- `OP_CHECKSIG`, and `OP_CHECKSIGVERIFY` where `fVerify` holds. -/
def opCHECKSIG (fVerify : Bool) (s : Machine) : Except Stopped Machine := do
  let (vchSig, vchPubKey) ← s.quietly do
    need 2 s.stack
    let vchSig ← stacktop s.stack 2
    let vchPubKey ← stacktop s.stack 1
    return (vchSig, vchPubKey)
  let scriptCode := findAndDelete s.codehash (Script.push vchSig)
  let (fSuccess, calls) ← checkSig env flags s.calls ⟨vchSig, vchPubKey, scriptCode⟩
  let s := { s with calls }
  s.onStack fun stack => do
    let stack ← popstack stack
    let stack ← popstack stack
    verifyTop fVerify .CHECKSIGVERIFY fSuccess (vchOfBool fSuccess :: stack)

/-- The operands of `OP_CHECKMULTISIG`. -/
structure MultisigArgs where
  nKeysCount : Nat
  nSigsCount : Nat
  nOpCount : Nat

/-- `isig`, `ikey` and `i` follow from the counts. -/
def multisigArgs (fRequireMinimal : Bool) (nOpCount : Nat) (stack : Stack) :
    Except Fault MultisigArgs := do
  need 1 stack
  let vch ← stacktop stack 1
  let bn ← CScriptNum.ofBytes vch fRequireMinimal
  let nKeysCount := CScriptNum.getint bn
  stopIf (nKeysCount < 0 ∨ 20 < nKeysCount) (.set_error .PUBKEY_COUNT)
  let nKeysCount := nKeysCount.toNat
  let nOpCount := nOpCount + nKeysCount
  stopIf (201 < nOpCount) (.set_error .OP_COUNT)
  need (2 + nKeysCount) stack
  let vch ← stacktop stack (2 + nKeysCount)
  let bn ← CScriptNum.ofBytes vch fRequireMinimal
  let nSigsCount := CScriptNum.getint bn
  stopIf (nSigsCount < 0 ∨ (nKeysCount : Int) < nSigsCount) (.set_error .SIG_COUNT)
  let nSigsCount := nSigsCount.toNat
  need (3 + nKeysCount + nSigsCount) stack
  return ⟨nKeysCount, nSigsCount, nOpCount⟩

/-- The signatures are dropped from the script that is signed. -/
def dropSignatures (stack : Stack) (isig : Nat) : Nat → Script → Except Fault Script
  | 0, scriptCode => .ok scriptCode
  | nSigsCount + 1, scriptCode => do
    let scriptCode ← dropSignatures stack isig nSigsCount scriptCode
    let vchSig ← stacktop stack (isig + nSigsCount)
    return findAndDelete scriptCode (Script.push vchSig)

/-- One round of the loop of `OP_CHECKMULTISIG`. -/
def checkSigAt (stack : Stack) (scriptCode : Script) (isig ikey : Nat) (calls : List SigCall) :
    Except Stopped (Bool × List SigCall) :=
  match (do let vchSig ← stacktop stack isig
            let vchPubKey ← stacktop stack ikey
            return (vchSig, vchPubKey)) with
  | .error fault => .error ⟨fault, calls⟩
  | .ok (vchSig, vchPubKey) => checkSig env flags calls ⟨vchSig, vchPubKey, scriptCode⟩

/-- The loop of `OP_CHECKMULTISIG`, which takes a key in each round, and a signature where the
check succeeds. It ends when more signatures than keys are left. -/
def checkMultisigLoop (stack : Stack) (scriptCode : Script) :
    Nat → Nat → Nat → Nat → List SigCall → Except Stopped (Bool × List SigCall)
  | _, 0, _, _, calls => .ok (true, calls)
  | 0, _ + 1, isig, ikey, calls => do
    let (_, calls) ← checkSigAt env flags stack scriptCode isig ikey calls
    return (false, calls)
  | nKeysCount + 1, nSigsCount + 1, isig, ikey, calls => do
    let (fOk, calls) ← checkSigAt env flags stack scriptCode isig ikey calls
    let nSigsCount := if fOk then nSigsCount else nSigsCount + 1
    let isig := if fOk then isig + 1 else isig
    if nKeysCount < nSigsCount then return (false, calls)
    else checkMultisigLoop stack scriptCode nKeysCount nSigsCount isig (ikey + 1) calls

/-- `OP_CHECKMULTISIG`, and `OP_CHECKMULTISIGVERIFY` where `fVerify` holds. -/
def opCHECKMULTISIG (fVerify : Bool) (s : Machine) : Except Stopped Machine := do
  let args ← s.quietly
    (multisigArgs (hasFlag flags SCRIPT_VERIFY_MINIMALDATA) s.nOpCount s.stack)
  let isig := 3 + args.nKeysCount
  let scriptCode ← s.quietly (dropSignatures s.stack isig args.nSigsCount s.codehash)
  let (fSuccess, calls) ← checkMultisigLoop env flags s.stack scriptCode args.nKeysCount
    args.nSigsCount isig 2 s.calls
  let s := { s with nOpCount := args.nOpCount, calls }
  s.onStack fun stack => do
    let stack ← popN .out_of_range (2 + args.nKeysCount + args.nSigsCount) stack
    need 1 stack
    let dummy ← stacktop stack 1
    stopIf (hasFlag flags SCRIPT_VERIFY_NULLDUMMY ∧ dummy.length ≠ 0) (.set_error .SIG_NULLDUMMY)
    let stack ← popstack stack
    verifyTop fVerify .CHECKMULTISIGVERIFY fSuccess (vchOfBool fSuccess :: stack)

/-- The switch over the opcodes. -/
def execute (opcode : UInt8) (pc : Script) (s : Machine) : Except Stopped Machine :=
  let fRequireMinimal := hasFlag flags SCRIPT_VERIFY_MINIMALDATA
  if opcode = OP_1NEGATE ∨ OP_1 ≤ opcode ∧ opcode ≤ OP_16 then
    .ok { s with stack := CScriptNum.serialize ((opcode.toNat : Int) - 0x50) :: s.stack }
  else
    match opcodetype.ofByte opcode with
    | .OP_NOP => .ok s
    | .OP_NOP1 | .OP_NOP2 | .OP_NOP3 | .OP_NOP4 | .OP_NOP5 | .OP_NOP6 | .OP_NOP7 | .OP_NOP8
    | .OP_NOP9 | .OP_NOP10 =>
      if hasFlag flags SCRIPT_VERIFY_DISCOURAGE_UPGRADABLE_NOPS then
        s.stop .DISCOURAGE_UPGRADABLE_NOPS
      else .ok s
    | .OP_IF => s.opIF false
    | .OP_NOTIF => s.opIF true
    | .OP_ELSE => s.opELSE
    | .OP_ENDIF => s.opENDIF
    | .OP_VERIFY => s.onStack opVERIFY
    | .OP_RETURN => s.stop .OP_RETURN
    | .OP_TOALTSTACK => s.opTOALTSTACK
    | .OP_FROMALTSTACK => s.opFROMALTSTACK
    | .OP_2DROP => s.onStack op2DROP
    | .OP_2DUP => s.onStack op2DUP
    | .OP_3DUP => s.onStack op3DUP
    | .OP_2OVER => s.onStack op2OVER
    | .OP_2ROT => s.onStack op2ROT
    | .OP_2SWAP => s.onStack op2SWAP
    | .OP_IFDUP => s.onStack opIFDUP
    | .OP_DEPTH => s.onStack opDEPTH
    | .OP_DROP => s.onStack opDROP
    | .OP_DUP => s.onStack opDUP
    | .OP_NIP => s.onStack opNIP
    | .OP_OVER => s.onStack opOVER
    | .OP_PICK => s.onStack (opPICK false fRequireMinimal)
    | .OP_ROLL => s.onStack (opPICK true fRequireMinimal)
    | .OP_ROT => s.onStack opROT
    | .OP_SWAP => s.onStack opSWAP
    | .OP_TUCK => s.onStack opTUCK
    | .OP_SIZE => s.onStack opSIZE
    | .OP_EQUAL => s.onStack (opEQUAL false)
    | .OP_EQUALVERIFY => s.onStack (opEQUAL true)
    | .OP_1ADD => s.onStack (opNumeric1 .OP_1ADD fRequireMinimal)
    | .OP_1SUB => s.onStack (opNumeric1 .OP_1SUB fRequireMinimal)
    | .OP_NEGATE => s.onStack (opNumeric1 .OP_NEGATE fRequireMinimal)
    | .OP_ABS => s.onStack (opNumeric1 .OP_ABS fRequireMinimal)
    | .OP_NOT => s.onStack (opNumeric1 .OP_NOT fRequireMinimal)
    | .OP_0NOTEQUAL => s.onStack (opNumeric1 .OP_0NOTEQUAL fRequireMinimal)
    | .OP_ADD => s.onStack (opNumeric2 .OP_ADD fRequireMinimal)
    | .OP_SUB => s.onStack (opNumeric2 .OP_SUB fRequireMinimal)
    | .OP_BOOLAND => s.onStack (opNumeric2 .OP_BOOLAND fRequireMinimal)
    | .OP_BOOLOR => s.onStack (opNumeric2 .OP_BOOLOR fRequireMinimal)
    | .OP_NUMEQUAL => s.onStack (opNumeric2 .OP_NUMEQUAL fRequireMinimal)
    | .OP_NUMEQUALVERIFY => s.onStack (opNumeric2 .OP_NUMEQUALVERIFY fRequireMinimal)
    | .OP_NUMNOTEQUAL => s.onStack (opNumeric2 .OP_NUMNOTEQUAL fRequireMinimal)
    | .OP_LESSTHAN => s.onStack (opNumeric2 .OP_LESSTHAN fRequireMinimal)
    | .OP_GREATERTHAN => s.onStack (opNumeric2 .OP_GREATERTHAN fRequireMinimal)
    | .OP_LESSTHANOREQUAL => s.onStack (opNumeric2 .OP_LESSTHANOREQUAL fRequireMinimal)
    | .OP_GREATERTHANOREQUAL => s.onStack (opNumeric2 .OP_GREATERTHANOREQUAL fRequireMinimal)
    | .OP_MIN => s.onStack (opNumeric2 .OP_MIN fRequireMinimal)
    | .OP_MAX => s.onStack (opNumeric2 .OP_MAX fRequireMinimal)
    | .OP_WITHIN => s.onStack (opWITHIN fRequireMinimal)
    | .OP_RIPEMD160 => s.onStack (opHash fun vch => (env.hashes.ripemd160 vch).toList)
    | .OP_SHA1 => s.onStack (opHash fun vch => (env.hashes.sha1 vch).toList)
    | .OP_SHA256 => s.onStack (opHash fun vch => (env.hashes.sha256 vch).toList)
    | .OP_HASH160 => s.onStack (opHash fun vch => (env.hashes.hash160 vch).toList)
    | .OP_HASH256 => s.onStack (opHash fun vch => (env.hashes.hash256 vch).toList)
    | .OP_CODESEPARATOR => .ok { s with codehash := pc }
    | .OP_CHECKSIG => opCHECKSIG env flags false s
    | .OP_CHECKSIGVERIFY => opCHECKSIG env flags true s
    | .OP_CHECKMULTISIG => opCHECKMULTISIG env flags false s
    | .OP_CHECKMULTISIGVERIFY => opCHECKMULTISIG env flags true s
    | .default => s.stop .BAD_OPCODE

/-- What an operation does where it is executed, and where a conditional skips it. -/
def perform (opcode : UInt8) (vchPushValue : valtype) (pc : Script) (s : Machine) :
    Except Stopped Machine :=
  if s.fExec ∧ opcode ≤ OP_PUSHDATA4 then
    if hasFlag flags SCRIPT_VERIFY_MINIMALDATA ∧ checkMinimalPush vchPushValue opcode = false then
      s.stop .MINIMALDATA
    else .ok { s with stack := vchPushValue :: s.stack }
  else if s.fExec ∨ OP_IF ≤ opcode ∧ opcode ≤ OP_ENDIF then execute env flags opcode pc s
  else .ok s

/-- One round of the loop of `EvalScript`. -/
def evalStep (s : Machine) : Instr → Except Stopped Machine
  | .bad => s.stop .BAD_OPCODE
  | .op opcode vchPushValue pc =>
    if MAX_SCRIPT_ELEMENT_SIZE < vchPushValue.length then s.stop .PUSH_SIZE
    else
      let s := if OP_16 < opcode then { s with nOpCount := s.nOpCount + 1 } else s
      if OP_16 < opcode ∧ 201 < s.nOpCount then s.stop .OP_COUNT
      else if isDisabled opcode then s.stop .DISABLED_OPCODE
      else do
        let s ← perform env flags opcode vchPushValue pc s
        if 1000 < s.stack.length + s.altstack.length then s.stop .STACK_SIZE else return s

/-- Returns false where it stops, with the error code of the fault. -/
def evalScript (stack : Stack) (script : Script) : Except Stopped Machine :=
  if 10000 < script.length then .error ⟨.set_error .SCRIPT_SIZE, []⟩
  else do
    let s ← (instrs script).foldlM (evalStep env flags) (Machine.start stack script)
    if s.vfExec ≠ [] then s.stop .UNBALANCED_CONDITIONAL else return s

end

/-- The calls that an evaluation made. -/
def evalCalls : Except Stopped Machine → List SigCall
  | .ok s => s.calls
  | .error stopped => stopped.calls

/-- The result of `VerifyScript`, and the calls that each evaluation made, in turn. -/
structure Verification where
  result : Except Fault Unit
  calls : List (List SigCall)

section
variable (env : ScriptEnv) (flags : UInt32)

/-- An evaluation has to leave a true value on the stack. -/
def checkResult (s : Machine) : Except Fault Unit :=
  match s.stack with
  | [] => .error (.set_error .EVAL_FALSE)
  | back :: _ => if castToBool back then .ok () else .error (.set_error .EVAL_FALSE)

/-- The evaluation of the script that the last element of a stack holds. -/
def verifyRedeem (stackCopy : Stack) : Verification :=
  match stackCopy with
  | [] => ⟨.error .assertion, []⟩
  | pubKeySerialized :: stackCopy =>
    match evalScript env flags stackCopy pubKeySerialized with
    | .error stopped => ⟨.error stopped.fault, [stopped.calls]⟩
    | .ok s => ⟨checkResult s, [s.calls]⟩

def verifyScript (scriptSig scriptPubKey : Script) : Verification :=
  if hasFlag flags SCRIPT_VERIFY_SIGPUSHONLY ∧ scriptSig.isPushOnly = false then
    ⟨.error (.set_error .SIG_PUSHONLY), []⟩
  else
    match evalScript env flags [] scriptSig with
    | .error stopped => ⟨.error stopped.fault, [stopped.calls]⟩
    | .ok s₁ =>
      let stackCopy := s₁.stack
      match evalScript (env.after s₁.calls) flags s₁.stack scriptPubKey with
      | .error stopped => ⟨.error stopped.fault, [s₁.calls, stopped.calls]⟩
      | .ok s₂ =>
        match checkResult s₂ with
        | .error fault => ⟨.error fault, [s₁.calls, s₂.calls]⟩
        | .ok () =>
          if hasFlag flags SCRIPT_VERIFY_P2SH ∧ scriptPubKey.isPayToScriptHash then
            if scriptSig.isPushOnly = false then
              ⟨.error (.set_error .SIG_PUSHONLY), [s₁.calls, s₂.calls]⟩
            else
              let redeem := verifyRedeem (env.after (s₂.calls ++ s₁.calls)) flags stackCopy
              ⟨redeem.result, s₁.calls :: s₂.calls :: redeem.calls⟩
          else ⟨.ok (), [s₁.calls, s₂.calls]⟩

end

/-! The counts of signature operations that are read off a script. -/

def sigOpsLoop (fAccurate : Bool) : UInt8 → List Instr → Nat
  | _, [] => 0
  | _, .bad :: _ => 0
  | lastOpcode, .op opcode _ _ :: rest =>
    (if opcode = OP_CHECKSIG ∨ opcode = OP_CHECKSIGVERIFY then 1
      else if opcode = OP_CHECKMULTISIG ∨ opcode = OP_CHECKMULTISIGVERIFY then
        if fAccurate ∧ OP_1 ≤ lastOpcode ∧ lastOpcode ≤ OP_16 then (decodeOP_N lastOpcode).toNat
        else 20
      else 0) + sigOpsLoop fAccurate opcode rest

/-- `GetSigOpCount(bool)`; the last opcode is `OP_INVALIDOPCODE` at first. -/
def Script.getSigOpCount (script : Script) (fAccurate : Bool) : Nat :=
  sigOpsLoop fAccurate 0xff (instrs script)

/-- The last operand of a script that only pushes. -/
def lastPush : valtype → List Instr → Option valtype
  | data, [] => some data
  | _, .bad :: _ => none
  | _, .op opcode vchPushValue _ :: rest =>
    if OP_16 < opcode then none else lastPush vchPushValue rest

/-- `GetSigOpCount(const CScript&)`. -/
def Script.getSigOpCountP2SH (scriptPubKey scriptSig : Script) : Nat :=
  if scriptPubKey.isPayToScriptHash = false then scriptPubKey.getSigOpCount true
  else
    match lastPush [] (instrs scriptSig) with
    | none => 0
    | some data => Script.getSigOpCount data true

end Lytix
