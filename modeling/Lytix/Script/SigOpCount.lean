import Lytix.Script.Interpreter

/-! The count of signature operations that is read off a script bounds the calls of the signature
checker in every evaluation. The key count of a multisignature is taken from the stack, but where
the opcode before it pushes a small number, this number is on the stack. -/
namespace Lytix

open Checks CheckedStacks

/-- The keys that are counted for a multisignature behind another opcode. -/
def keysBehind (lastOpcode : UInt8) : Nat :=
  if OP_1 ≤ lastOpcode ∧ lastOpcode ≤ OP_16 then (decodeOP_N lastOpcode).toNat else 20

/-- The signature operations that are counted for an opcode behind another one. -/
def sigOpCost (lastOpcode opcode : UInt8) : Nat :=
  if opcode = OP_CHECKSIG ∨ opcode = OP_CHECKSIGVERIFY then 1
  else if opcode = OP_CHECKMULTISIG ∨ opcode = OP_CHECKMULTISIGVERIFY then keysBehind lastOpcode
  else 0

/-- However the computation ends, it has made at most this many calls. -/
def CallsAtMost (n : ℕ) : Except Stopped Machine → Prop :=
  Meets (fun stopped => stopped.calls.length ≤ n) fun s => s.calls.length ≤ n

/-- A small number that the opcode before pushes stands on the stack, unless it was skipped. -/
def Machine.Pushed (lastOpcode : UInt8) (s : Machine) : Prop :=
  OP_1 ≤ lastOpcode → lastOpcode ≤ OP_16 → s.fExec = true →
    s.stack.head? = some [decodeOP_N lastOpcode]

/-- What holds of all bytes holds of every opcode. -/
theorem forall_byte {p : UInt8 → Prop} (h : ∀ i : Fin 256, p ⟨⟨i⟩⟩) (opcode : UInt8) : p opcode :=
  h opcode.toFin

set_option maxRecDepth 4000 in
theorem serialize_opcode : ∀ opcode : UInt8, OP_1 ≤ opcode → opcode ≤ OP_16 →
    CScriptNum.serialize ((opcode.toNat : Int) - 0x50) = [decodeOP_N opcode] :=
  forall_byte (by decide)

set_option maxRecDepth 4000 in
theorem getint_decodeOP_N : ∀ opcode : UInt8, OP_1 ≤ opcode → opcode ≤ OP_16 →
    CScriptNum.getint (CScriptNum.set_vch [decodeOP_N opcode]) = (decodeOP_N opcode).toNat :=
  forall_byte (by decide)

set_option maxRecDepth 4000 in
theorem ofByte_checksig : ∀ opcode : UInt8, opcodetype.ofByte opcode = .OP_CHECKSIG ∨
    opcodetype.ofByte opcode = .OP_CHECKSIGVERIFY →
      opcode = OP_CHECKSIG ∨ opcode = OP_CHECKSIGVERIFY :=
  forall_byte (by decide)

set_option maxRecDepth 4000 in
theorem ofByte_checkmultisig : ∀ opcode : UInt8, opcodetype.ofByte opcode = .OP_CHECKMULTISIG ∨
    opcodetype.ofByte opcode = .OP_CHECKMULTISIGVERIFY →
      (opcode = OP_CHECKMULTISIG ∨ opcode = OP_CHECKMULTISIGVERIFY) ∧
        ¬ (opcode = OP_CHECKSIG ∨ opcode = OP_CHECKSIGVERIFY) :=
  forall_byte (by decide)

section
variable {s : Machine} {env : ScriptEnv} {flags : UInt32} {calls : List SigCall} {n : ℕ}

theorem CallsAtMost.same (h : s.calls.length ≤ n) : CallsAtMost n (.ok s) := h

theorem CallsAtMost.stop (h : s.calls.length ≤ n) (serror : ScriptError) :
    CallsAtMost n (s.stop serror) := h

theorem CallsAtMost.quietly {α : Type} {r : Except Fault α} {k : α → Except Stopped Machine}
    (h : s.calls.length ≤ n) (hk : ∀ a, r = .ok a → CallsAtMost n (k a)) :
    CallsAtMost n (s.quietly r >>= k) := by
  cases r with
  | ok a => exact hk a rfl
  | error fault => exact h

theorem CallsAtMost.onStack (h : s.calls.length ≤ n) (op : Stack → Except Fault Stack) :
    CallsAtMost n (s.onStack op) :=
  CallsAtMost.quietly h fun _ _ => CallsAtMost.same h

theorem CallsAtMost.ite {c : Prop} [Decidable c] {r r' : Except Stopped Machine}
    (hr : CallsAtMost n r) (hr' : CallsAtMost n r') : CallsAtMost n (if c then r else r') :=
  Meets.ite (fun _ => hr) fun _ => hr'

theorem calls_checkSig (h : calls.length ≤ n) (call : SigCall) :
    Meets (fun stopped => stopped.calls.length ≤ n) (fun r => r.2.length = calls.length + 1)
      (checkSig env flags calls call) := by
  unfold checkSig
  split
  · exact h
  · exact Meets.ok rfl

theorem calls_opCHECKSIG {fVerify : Bool} (h : s.calls.length + 1 ≤ n) :
    CallsAtMost n (opCHECKSIG env flags fVerify s) := by
  have hle : s.calls.length ≤ n := by omega
  refine CallsAtMost.quietly hle ?_
  rintro ⟨vchSig, vchPubKey⟩ _
  refine (calls_checkSig hle _).bind ?_
  rintro ⟨fSuccess, calls⟩ hcalls
  have hafter : calls.length ≤ n := hcalls.trans_le h
  exact CallsAtMost.onStack hafter _

theorem calls_checkSigAt {stack : Stack} {scriptCode : Script} {isig ikey : ℕ}
    (h : calls.length ≤ n) :
    Meets (fun stopped => stopped.calls.length ≤ n) (fun r => r.2.length = calls.length + 1)
      (checkSigAt env flags stack scriptCode isig ikey calls) := by
  unfold checkSigAt
  split
  · exact h
  · exact calls_checkSig h _

/-- Each round takes one key, and there are no more signatures than keys. -/
theorem calls_checkMultisigLoop {stack : Stack} {scriptCode : Script}
    {nKeysCount nSigsCount isig ikey : ℕ} (hsigs : nSigsCount ≤ nKeysCount)
    (h : calls.length + nKeysCount ≤ n) :
    Meets (fun stopped => stopped.calls.length ≤ n) (fun r => r.2.length ≤ n)
      (checkMultisigLoop env flags stack scriptCode nKeysCount nSigsCount isig ikey calls) := by
  have hle : calls.length ≤ n := by omega
  induction nKeysCount generalizing nSigsCount isig ikey calls with
  | zero =>
    have hzero : nSigsCount = 0 := by omega
    subst hzero
    exact Meets.ok hle
  | succ nKeysCount ih =>
    cases nSigsCount with
    | zero => exact Meets.ok hle
    | succ nSigsCount =>
      refine (calls_checkSigAt hle).bind ?_
      rintro ⟨fOk, calls'⟩ hcalls
      dsimp only at hcalls ⊢
      refine Meets.ite (fun _ => ?_) fun hmore => ?_
      · exact Meets.ok (show calls'.length ≤ n by omega)
      · exact ih (not_lt.mp hmore) (by omega) (by omega)

/-- The counts of a multisignature: there are at most 20 keys, and the top of the stack says how
many. -/
theorem multisigArgs_eq_ok {fRequireMinimal : Bool} {nOpCount : ℕ} {stack : Stack}
    {args : MultisigArgs} (h : multisigArgs fRequireMinimal nOpCount stack = .ok args) :
    args.nSigsCount ≤ args.nKeysCount ∧ args.nKeysCount ≤ 20 ∧
      ∃ vch rest, stack = vch :: rest ∧
        args.nKeysCount = (CScriptNum.getint (CScriptNum.set_vch vch)).toNat := by
  simp only [multisigArgs, bind_eq_ok, need, stopIf_eq_ok, CScriptNum.ofBytes, pure_eq_ok,
    not_or, not_lt] at h
  obtain ⟨_, hlength, vch, htop, bn, ⟨_, _, _, _, hbn⟩, _, hkeys, _, _, _, _, _, _, bn', _, _,
    hsigs, _, _, rfl⟩ := h
  subst hbn
  cases stack with
  | nil => contradiction
  | cons back rest =>
    have hback : back = vch := by
      have hsome : stacktop (back :: rest) 1 = .ok back := rfl
      rw [hsome] at htop
      exact Except.ok.inj htop
    subst hback
    dsimp only at hsigs ⊢
    exact ⟨by omega, by omega, back, rest, rfl, rfl⟩

theorem nKeysCount_le {lastOpcode : UInt8} {fRequireMinimal : Bool} {args : MultisigArgs}
    (hpushed : s.Pushed lastOpcode) (hexec : s.fExec = true)
    (hargs : multisigArgs fRequireMinimal s.nOpCount s.stack = .ok args) :
    args.nKeysCount ≤ keysBehind lastOpcode := by
  obtain ⟨_, hkeys, vch, rest, hstack, hcount⟩ := multisigArgs_eq_ok hargs
  unfold keysBehind
  split_ifs with hlast
  · have hhead := hpushed hlast.1 hlast.2 hexec
    rw [hstack, List.head?_cons, Option.some.injEq] at hhead
    rw [hcount, hhead, getint_decodeOP_N lastOpcode hlast.1 hlast.2, Int.toNat_natCast]
  · exact hkeys

theorem calls_opCHECKMULTISIG {fVerify : Bool} {lastOpcode : UInt8} (hpushed : s.Pushed lastOpcode)
    (hexec : s.fExec = true) (h : s.calls.length + keysBehind lastOpcode ≤ n) :
    CallsAtMost n (opCHECKMULTISIG env flags fVerify s) := by
  have hle : s.calls.length ≤ n := by omega
  refine CallsAtMost.quietly hle fun args hargs => CallsAtMost.quietly hle fun scriptCode _ => ?_
  have hkeys := nKeysCount_le hpushed hexec hargs
  have hsigs := (multisigArgs_eq_ok hargs).1
  refine (calls_checkMultisigLoop hsigs (by omega)).bind ?_
  rintro ⟨fSuccess, calls⟩ hcalls
  exact CallsAtMost.onStack hcalls _

theorem calls_opIF {fNot : Bool} (h : s.calls.length ≤ n) : CallsAtMost n (s.opIF fNot) := by
  unfold Machine.opIF
  split_ifs
  · exact CallsAtMost.quietly h fun _ _ => CallsAtMost.same h
  · exact CallsAtMost.same h

theorem calls_opELSE (h : s.calls.length ≤ n) : CallsAtMost n s.opELSE := by
  unfold Machine.opELSE
  split
  · exact CallsAtMost.stop h _
  · exact CallsAtMost.same h

theorem calls_opENDIF (h : s.calls.length ≤ n) : CallsAtMost n s.opENDIF := by
  unfold Machine.opENDIF
  split
  · exact CallsAtMost.stop h _
  · exact CallsAtMost.same h

theorem calls_opTOALTSTACK (h : s.calls.length ≤ n) : CallsAtMost n s.opTOALTSTACK :=
  CallsAtMost.quietly h fun _ _ => CallsAtMost.same h

theorem calls_opFROMALTSTACK (h : s.calls.length ≤ n) : CallsAtMost n s.opFROMALTSTACK :=
  CallsAtMost.quietly h fun _ _ => CallsAtMost.same h

/-- An operation makes no more calls than are counted for it. -/
theorem calls_execute {lastOpcode opcode : UInt8} {pc : Script} (hpushed : s.Pushed lastOpcode)
    (hexec : s.fExec = true ∨ opcode ≤ OP_ENDIF)
    (h : s.calls.length + sigOpCost lastOpcode opcode ≤ n) :
    CallsAtMost n (execute env flags opcode pc s) := by
  have hle : s.calls.length ≤ n := by omega
  refine CallsAtMost.ite (CallsAtMost.same hle) ?_
  cases hop : opcodetype.ofByte opcode
  case OP_NOP => exact CallsAtMost.same hle
  case OP_NOP1 | OP_NOP2 | OP_NOP3 | OP_NOP4 | OP_NOP5 | OP_NOP6 | OP_NOP7 | OP_NOP8 | OP_NOP9
      | OP_NOP10 =>
    exact CallsAtMost.ite (CallsAtMost.stop hle _) (CallsAtMost.same hle)
  case OP_IF | OP_NOTIF => exact calls_opIF hle
  case OP_ELSE => exact calls_opELSE hle
  case OP_ENDIF => exact calls_opENDIF hle
  case OP_RETURN | default => exact CallsAtMost.stop hle _
  case OP_TOALTSTACK => exact calls_opTOALTSTACK hle
  case OP_FROMALTSTACK => exact calls_opFROMALTSTACK hle
  case OP_CODESEPARATOR => exact CallsAtMost.same hle
  case OP_CHECKSIG | OP_CHECKSIGVERIFY =>
    have hopcode : opcode = OP_CHECKSIG ∨ opcode = OP_CHECKSIGVERIFY :=
      ofByte_checksig opcode (by simp [hop])
    rw [sigOpCost, if_pos hopcode] at h
    exact calls_opCHECKSIG h
  case OP_CHECKMULTISIG | OP_CHECKMULTISIGVERIFY =>
    obtain ⟨hopcode, hnot⟩ := ofByte_checkmultisig opcode (by simp [hop])
    have hrunning : s.fExec = true := by
      refine hexec.resolve_right ?_
      rcases hopcode with rfl | rfl <;> decide
    rw [sigOpCost, if_neg hnot, if_pos hopcode] at h
    exact calls_opCHECKMULTISIG hpushed hrunning h
  all_goals exact CallsAtMost.onStack hle _

theorem calls_perform {lastOpcode opcode : UInt8} {vchPushValue : valtype} {pc : Script}
    (hpushed : s.Pushed lastOpcode) (h : s.calls.length + sigOpCost lastOpcode opcode ≤ n) :
    CallsAtMost n (perform env flags opcode vchPushValue pc s) := by
  have hle : s.calls.length ≤ n := by omega
  unfold perform
  split
  · exact CallsAtMost.ite (CallsAtMost.stop hle _) (CallsAtMost.same hle)
  split
  case isTrue hrun => exact calls_execute hpushed (hrun.imp_right And.right) h
  case isFalse => exact CallsAtMost.same hle

theorem calls_evalStep {lastOpcode opcode : UInt8} {vchPushValue : valtype} {pc : Script}
    (hpushed : s.Pushed lastOpcode) (h : s.calls.length + sigOpCost lastOpcode opcode ≤ n) :
    CallsAtMost n (evalStep env flags s (.op opcode vchPushValue pc)) := by
  have hle : s.calls.length ≤ n := by omega
  refine CallsAtMost.ite (CallsAtMost.stop hle _) ?_
  -- Counting the operation leaves the stack and the calls as they are.
  have hcounted : Machine.Pushed lastOpcode
      (if OP_16 < opcode then { s with nOpCount := s.nOpCount + 1 } else s) := by
    split_ifs <;> exact hpushed
  have hcalls : (if OP_16 < opcode then { s with nOpCount := s.nOpCount + 1 } else s).calls =
      s.calls := by
    split_ifs <;> rfl
  rw [← hcalls] at h hle
  refine CallsAtMost.ite (CallsAtMost.stop hle _) (CallsAtMost.ite (CallsAtMost.stop hle _) ?_)
  refine (calls_perform hcounted h).bind fun s' hs' => ?_
  exact CallsAtMost.ite (CallsAtMost.stop hs' _) (CallsAtMost.same hs')

set_option maxRecDepth 4000 in
theorem smallNumber_range : ∀ opcode : UInt8, OP_1 ≤ opcode → opcode ≤ OP_16 →
    ¬ opcode ≤ OP_PUSHDATA4 ∧ ¬ OP_IF ≤ opcode :=
  forall_byte (by decide)

theorem perform_smallNumber {opcode : UInt8} {vchPushValue : valtype} {pc : Script}
    (hfirst : OP_1 ≤ opcode) (hlast : opcode ≤ OP_16) :
    perform env flags opcode vchPushValue pc s =
      if s.fExec then .ok { s with stack := [decodeOP_N opcode] :: s.stack } else .ok s := by
  obtain ⟨hpush, hbranch⟩ := smallNumber_range opcode hfirst hlast
  cases hexec : s.fExec with
  | false => simp [perform, hexec, hbranch]
  | true => simp [perform, hexec, hpush, execute, hfirst, hlast, serialize_opcode]

theorem pushed_perform {opcode : UInt8} {vchPushValue : valtype} {pc : Script} :
    Meets (fun _ => True) (Machine.Pushed opcode) (perform env flags opcode vchPushValue pc s) := by
  cases hperform : perform env flags opcode vchPushValue pc s with
  | error stopped => trivial
  | ok s' =>
    intro hfirst hlast hexec
    rw [perform_smallNumber hfirst hlast] at hperform
    split at hperform
    case isTrue =>
      have hstack := Except.ok.inj hperform
      subst hstack
      exact List.head?_cons
    case isFalse hskip =>
      have hsame := Except.ok.inj hperform
      subst hsame
      contradiction

/-- Behind a small number, the number stands on the stack. -/
theorem pushed_evalStep {opcode : UInt8} {vchPushValue : valtype} {pc : Script} :
    Meets (fun _ => True) (Machine.Pushed opcode)
      (evalStep env flags s (.op opcode vchPushValue pc)) := by
  refine Meets.ite (fun _ => trivial) fun _ => Meets.ite (fun _ => trivial) fun _ => ?_
  refine Meets.ite (fun _ => trivial) fun _ => pushed_perform.bind fun s' hs' => ?_
  exact Meets.ite (fun _ => trivial) fun _ => hs'

/-- A run makes no more calls than are counted for its operations. -/
theorem calls_evalSteps {lastOpcode : UInt8} {ops : List Instr} (hpushed : s.Pushed lastOpcode)
    (h : s.calls.length + sigOpsLoop true lastOpcode ops ≤ n) :
    CallsAtMost n (ops.foldlM (evalStep env flags) s) := by
  induction ops generalizing s lastOpcode with
  | nil => exact CallsAtMost.same (by omega)
  | cons instr ops ih =>
    have hle : s.calls.length ≤ n := by omega
    rw [List.foldlM_cons]
    cases instr with
    | bad => exact CallsAtMost.stop hle _
    | op opcode vchPushValue pc =>
      have hcost : sigOpsLoop true lastOpcode (.op opcode vchPushValue pc :: ops) =
          sigOpCost lastOpcode opcode + sigOpsLoop true opcode ops := by
        simp [sigOpsLoop, sigOpCost, keysBehind]
      rw [hcost] at h
      have hstep : CallsAtMost (s.calls.length + sigOpCost lastOpcode opcode)
          (evalStep env flags s (.op opcode vchPushValue pc)) := calls_evalStep hpushed (le_refl _)
      cases heval : evalStep env flags s (.op opcode vchPushValue pc) with
      | error stopped =>
        rw [heval] at hstep
        have hstopped : stopped.calls.length ≤ s.calls.length + sigOpCost lastOpcode opcode := hstep
        exact Meets.error (show stopped.calls.length ≤ n by omega)
      | ok s' =>
        rw [heval] at hstep
        have hcalls : s'.calls.length ≤ s.calls.length + sigOpCost lastOpcode opcode := hstep
        have hpushed' := @pushed_evalStep s env flags opcode vchPushValue pc
        rw [heval] at hpushed'
        exact ih hpushed' (by omega)

theorem pushed_start (stack : Stack) (script : Script) :
    (Machine.start stack script).Pushed 0xff :=
  fun _ hlast => absurd hlast (by decide)

theorem calls_evalScript (env : ScriptEnv) (flags : UInt32) (stack : Stack) (script : Script) :
    CallsAtMost (script.getSigOpCount true) (evalScript env flags stack script) := by
  refine CallsAtMost.ite (Nat.zero_le _) ?_
  have hrun : CallsAtMost (script.getSigOpCount true)
      ((instrs script).foldlM (evalStep env flags) (Machine.start stack script)) := by
    refine calls_evalSteps (pushed_start stack script) ?_
    exact (Nat.zero_add _).le
  exact hrun.bind fun s hs => CallsAtMost.ite (CallsAtMost.stop hs _) (CallsAtMost.same hs)

end

theorem length_evalCalls_le (env : ScriptEnv) (flags : UInt32) (stack : Stack) (script : Script) :
    (evalCalls (evalScript env flags stack script)).length ≤ script.getSigOpCount true := by
  have hcalls := calls_evalScript env flags stack script
  cases heval : evalScript env flags stack script with
  | ok s =>
    rw [heval] at hcalls
    exact hcalls
  | error stopped =>
    rw [heval] at hcalls
    exact hcalls

/-! The script of a pay-to-script-hash output is the last operand that a script which only pushes
leaves behind. -/

/-- The operation pushes its operand, or a number and has no operand. -/
def Instr.Pushes : Instr → Prop
  | .op opcode vchPushValue _ => opcode ≤ OP_16 ∧ (OP_PUSHDATA4 < opcode → vchPushValue = [])
  | .bad => False

theorem takeOperand_fst {opcode opcode' : UInt8} {nSize : ℕ} {pc rest : Script} {vch : valtype}
    (h : Script.takeOperand opcode nSize pc = some ((opcode', vch), rest)) : opcode' = opcode := by
  unfold Script.takeOperand at h
  split at h
  · contradiction
  · simp only [Option.some.injEq, Prod.mk.injEq] at h
    exact h.1.1.symm

set_option maxRecDepth 4000 in
theorem short_push : ∀ opcode : UInt8, opcode < OP_PUSHDATA1 → ¬ OP_PUSHDATA4 < opcode :=
  forall_byte (by decide)

theorem takeOp_operand {pc rest : Script} {opcode : UInt8} {vch : valtype}
    (h : pc.takeOp = some ((opcode, vch), rest)) (hop : OP_PUSHDATA4 < opcode) : vch = [] := by
  have hnot : ∀ {first nSize pc'}, ¬ OP_PUSHDATA4 < first →
      Script.takeOperand first nSize pc' ≠ some ((opcode, vch), rest) := by
    intro first nSize pc' hfirst htake
    rw [takeOperand_fst htake] at hop
    exact hfirst hop
  unfold Script.takeOp at h
  split at h
  case h_1 => contradiction
  case h_2 first pc =>
    split at h
    case isTrue hlt => exact absurd h (hnot (short_push first hlt))
    split at h
    case isTrue hfirst =>
      split at h
      · exact absurd h (hnot (by rw [hfirst]; decide))
      · contradiction
    split at h
    case isTrue hfirst =>
      split at h
      · exact absurd h (hnot (by rw [hfirst]; decide))
      · contradiction
    split at h
    case isTrue hfirst =>
      split at h
      · exact absurd h (hnot (by rw [hfirst]; decide))
      · contradiction
    case isFalse =>
      simp only [Option.some.injEq, Prod.mk.injEq] at h
      exact h.1.2.symm

theorem pushes_instrsLoop {rounds : ℕ} {pc : Script} {ops : List ScriptOp}
    (hops : Script.opsLoop rounds pc = some ops) (hall : ∀ op ∈ ops, op.1 ≤ OP_16) :
    ∀ instr ∈ instrsLoop rounds pc, instr.Pushes := by
  induction rounds generalizing pc ops with
  | zero =>
    cases pc with
    | nil => nofun
    | cons b pc => contradiction
  | succ rounds ih =>
    cases pc with
    | nil => nofun
    | cons b pc =>
      unfold instrsLoop
      unfold Script.opsLoop at hops
      cases htake : Script.takeOp (b :: pc) with
      | none =>
        rw [htake] at hops
        contradiction
      | some taken =>
        obtain ⟨⟨opcode, vch⟩, rest⟩ := taken
        rw [htake] at hops
        obtain ⟨ops', hrest, rfl⟩ := Option.map_eq_some_iff.mp hops
        rw [List.forall_mem_cons] at hall ⊢
        exact ⟨⟨hall.1, takeOp_operand htake⟩, ih hrest hall.2⟩

theorem pushes_instrs {script : Script} (h : script.isPushOnly = true) :
    ∀ instr ∈ instrs script, instr.Pushes := by
  unfold Script.isPushOnly at h
  cases hops : script.ops with
  | none =>
    rw [hops] at h
    contradiction
  | some ops =>
    rw [hops, Option.any_some, List.all_eq_true] at h
    exact pushes_instrsLoop hops fun op hop => of_decide_eq_true (h op hop)

set_option maxRecDepth 4000 in
/-- The numbers that an opcode pushes contain no signature operations, as scripts. -/
theorem getSigOpCount_number : ∀ opcode : UInt8, ¬ opcode ≤ OP_PUSHDATA4 → opcode ≤ OP_16 →
    if opcode = OP_1NEGATE ∨ OP_1 ≤ opcode ∧ opcode ≤ OP_16 then
      Script.getSigOpCount (CScriptNum.serialize ((opcode.toNat : Int) - 0x50)) true = 0
    else opcodetype.ofByte opcode = .default :=
  forall_byte (by decide)

/-- All is executed, and the top of the stack counts no more than the last operand. -/
structure Machine.TopCounted (data : valtype) (s : Machine) : Prop where
  vfExec : s.vfExec = []
  top : ∀ vch ∈ s.stack.head?,
    Script.getSigOpCount vch true ≤ Script.getSigOpCount data true

section
variable {s s' : Machine} {env : ScriptEnv} {flags : UInt32} {data vchPushValue : valtype}
  {opcode : UInt8} {pc : Script}

theorem topCounted_perform (hexec : s.vfExec = [])
    (hpushes : (Instr.op opcode vchPushValue pc).Pushes) :
    Meets (fun _ => True) (Machine.TopCounted vchPushValue)
      (perform env flags opcode vchPushValue pc s) := by
  have hrunning : s.fExec = true := by simp [Machine.fExec, hexec]
  unfold perform
  by_cases hpush : opcode ≤ OP_PUSHDATA4
  · rw [if_pos ⟨hrunning, hpush⟩]
    refine Meets.ite (fun _ => trivial) fun _ => Meets.ok ⟨hexec, ?_⟩
    simp
  · rw [if_neg fun h => hpush h.2, if_pos (Or.inl hrunning)]
    have hnumber := getSigOpCount_number opcode hpush hpushes.1
    unfold execute
    split at hnumber
    case isTrue hnum =>
      rw [if_pos hnum]
      refine Meets.ok ⟨hexec, ?_⟩
      simp [hnumber]
    case isFalse hnum =>
      rw [if_neg hnum, hnumber]
      trivial

theorem topCounted_evalStep (hexec : s.vfExec = [])
    (hpushes : (Instr.op opcode vchPushValue pc).Pushes) :
    Meets (fun _ => True) (Machine.TopCounted vchPushValue)
      (evalStep env flags s (.op opcode vchPushValue pc)) := by
  have hcounted : (if OP_16 < opcode then { s with nOpCount := s.nOpCount + 1 } else s).vfExec =
      [] := by
    split_ifs <;> exact hexec
  refine Meets.ite (fun _ => trivial) fun _ => Meets.ite (fun _ => trivial) fun _ => ?_
  refine Meets.ite (fun _ => trivial) fun _ => ?_
  refine (topCounted_perform hcounted hpushes).bind fun s' hs' => ?_
  exact Meets.ite (fun _ => trivial) fun _ => hs'

theorem topCounted_evalSteps {ops : List Instr} (hops : ∀ instr ∈ ops, instr.Pushes)
    (hs : s.TopCounted data) (hrun : ops.foldlM (evalStep env flags) s = .ok s') :
    ∃ data', lastPush data ops = some data' ∧ s'.TopCounted data' := by
  induction ops generalizing s data with
  | nil =>
    rw [List.foldlM_nil, pure_eq_ok] at hrun
    exact ⟨data, rfl, hrun ▸ hs⟩
  | cons instr ops ih =>
    rw [List.forall_mem_cons] at hops
    rw [List.foldlM_cons, bind_eq_ok] at hrun
    obtain ⟨s₁, hstep, hrest⟩ := hrun
    cases instr with
    | bad => exact hops.1.elim
    | op opcode vchPushValue pc =>
      have hs₁ := @topCounted_evalStep s env flags vchPushValue opcode pc hs.vfExec hops.1
      rw [hstep] at hs₁
      have hnot : ¬ OP_16 < opcode := UInt8.not_lt.mpr hops.1.1
      rw [lastPush, if_neg hnot]
      exact ih hops.2 hs₁ hrest

/-- The script that is run in a third evaluation counts no more than what is read off the script of
the input. -/
theorem length_redeemCalls_le {scriptSig scriptPubKey : Script} {calls : List SigCall}
    (hp2sh : scriptPubKey.isPayToScriptHash = true) (honly : scriptSig.isPushOnly = true)
    (heval : evalScript env flags [] scriptSig = .ok s) {env' : ScriptEnv}
    (hcalls : calls ∈ (verifyRedeem env' flags s.stack).calls) :
    calls.length ≤ scriptPubKey.getSigOpCountP2SH scriptSig := by
  have hrun : (instrs scriptSig).foldlM (evalStep env flags) (Machine.start [] scriptSig) =
      .ok s := by
    unfold evalScript at heval
    split at heval
    · contradiction
    obtain ⟨s', hrun, hclosed⟩ := bind_eq_ok.mp heval
    split at hclosed
    · contradiction
    · exact pure_eq_ok.mp hclosed ▸ hrun
  have hstart : (Machine.start [] scriptSig).TopCounted [] := ⟨rfl, nofun⟩
  obtain ⟨data, hlast, htop⟩ := topCounted_evalSteps (pushes_instrs honly) hstart hrun
  unfold Script.getSigOpCountP2SH
  rw [if_neg (by simp [hp2sh]), hlast]
  unfold verifyRedeem at hcalls
  cases hstack : s.stack with
  | nil =>
    rw [hstack] at hcalls
    contradiction
  | cons pubKeySerialized stackCopy =>
    rw [hstack] at hcalls
    have hredeem := length_evalCalls_le env' flags stackCopy pubKeySerialized
    have hcount := htop.top pubKeySerialized (by simp [hstack])
    refine le_trans (le_trans (le_of_eq ?_) hredeem) hcount
    dsimp only at hcalls
    split at hcalls
    case h_1 stopped hstopped =>
      rw [List.mem_singleton] at hcalls
      rw [hstopped, hcalls, evalCalls]
    case h_2 s' hok =>
      rw [List.mem_singleton] at hcalls
      rw [hok, hcalls, evalCalls]

/-- A third evaluation is that of the script which a pay-to-script-hash output stands for. -/
theorem verifyScript_third {scriptSig scriptPubKey : Script} {calls : List SigCall}
    (h : (verifyScript env flags scriptSig scriptPubKey).calls[2]? = some calls) :
    scriptSig.isPushOnly = true ∧ ∃ s env', evalScript env flags [] scriptSig = .ok s ∧
      calls ∈ (verifyRedeem env' flags s.stack).calls := by
  unfold verifyScript at h
  split at h
  case isTrue => contradiction
  split at h
  case h_1 => contradiction
  case h_2 s₁ hfirst =>
    dsimp only at h
    split at h
    case h_1 => contradiction
    case h_2 s₂ hsecond =>
      split at h
      case h_1 => contradiction
      case h_2 =>
        split at h
        case isFalse => contradiction
        split at h
        case isTrue => contradiction
        case isFalse honly =>
          have hthird : (verifyRedeem (env.after (s₂.calls ++ s₁.calls)) flags s₁.stack).calls[0]? =
              some calls := h
          exact ⟨by simpa using honly, s₁, _, hfirst, List.mem_of_getElem? hthird⟩

end

/-- The signature checker is called no more often than is counted for the script that is evaluated,
and for the script behind a pay-to-script-hash output no more often than is counted for the output
and the input. -/
theorem evalScript_calls_le (env : ScriptEnv) (flags : UInt32) (stack : Stack) (script : Script) :
    (evalCalls (evalScript env flags stack script)).length ≤ script.getSigOpCount true ∧
    ∀ scriptSig scriptPubKey : Script, scriptPubKey.isPayToScriptHash = true →
      ∀ calls, (verifyScript env flags scriptSig scriptPubKey).calls[2]? = some calls →
        calls.length ≤ scriptPubKey.getSigOpCountP2SH scriptSig := by
  refine ⟨length_evalCalls_le env flags stack script, ?_⟩
  intro scriptSig scriptPubKey hp2sh calls hthird
  obtain ⟨honly, s, env', heval, hcalls⟩ := verifyScript_third hthird
  exact length_redeemCalls_le hp2sh honly heval hcalls

/-- The checker that accepts all, where all digests are the same. -/
def allSignatures : ScriptEnv where
  hashes := ⟨fun _ => .replicate 20 0, fun _ => .replicate 20 0, fun _ => .replicate 32 0,
    fun _ => .replicate 20 0, fun _ => .replicate 32 0⟩
  checkSignatureElement := fun _ => true
  checkSig := fun _ => true

/-- Two of three keys sign; the first signature belongs to the first key. -/
def twoOfThree : Script := [OP_1 + 1, 1, 7, 1, 8, 1, 9, OP_1 + 2, OP_CHECKMULTISIG]

def payToTwoOfThree : Script := [OP_HASH160, 0x14] ++ List.replicate 20 0 ++ [OP_EQUAL]

def redeemTwoOfThree : Script := [OP_0, 1, 5, 1, 6] ++ Script.push twoOfThree

theorem evalScript_calls_le_twoOfThree :
    (verifyScript allSignatures SCRIPT_VERIFY_P2SH redeemTwoOfThree payToTwoOfThree).calls[2]?.map
        List.length = some 2 ∧
      2 ≤ payToTwoOfThree.getSigOpCountP2SH redeemTwoOfThree := by
  have hthird : (verifyScript allSignatures SCRIPT_VERIFY_P2SH redeemTwoOfThree
      payToTwoOfThree).calls[2]?.map List.length = some 2 := by decide
  obtain ⟨calls, hcalls, hlength⟩ := Option.map_eq_some_iff.mp hthird
  have hle := (evalScript_calls_le allSignatures SCRIPT_VERIFY_P2SH [] []).2 redeemTwoOfThree
    payToTwoOfThree (by decide) calls hcalls
  exact ⟨hthird, hlength ▸ hle⟩

end Lytix
