import Lytix.Script.Interpreter

/-! The evaluation of a script stays within its stacks and its limits. -/
namespace Lytix

open Checks CheckedStacks

/-- The fault comes from a check of the interpreter, not from an access beyond the end of a stack
or from an assertion. -/
def Fault.Harmless (fault : Fault) : Prop := fault ≠ .out_of_range ∧ fault ≠ .assertion

def SmallElements (stack : Stack) : Prop := ∀ vch ∈ stack, vch.length ≤ MAX_SCRIPT_ELEMENT_SIZE

/-- The operation does not leave the stack, and makes no large elements. -/
def KeepsStack (op : Stack → Except Fault Stack) : Prop :=
  ∀ stack, SmallElements stack → Meets Fault.Harmless SmallElements (op stack)

theorem Fault.harmless_set_error (serror : ScriptError) : (Fault.set_error serror).Harmless :=
  ⟨nofun, nofun⟩

theorem Fault.harmless_scriptnum_error : Fault.scriptnum_error.Harmless := ⟨nofun, nofun⟩

section
variable {stack stack' : Stack} {vch : valtype}

theorem SmallElements.cons (hvch : vch.length ≤ MAX_SCRIPT_ELEMENT_SIZE)
    (small : SmallElements stack) : SmallElements (vch :: stack) := by
  intro v hv
  rcases List.mem_cons.mp hv with rfl | hv
  · exact hvch
  · exact small v hv

theorem SmallElements.subset (small : SmallElements stack) (hsub : stack' ⊆ stack) :
    SmallElements stack' :=
  fun v hv => small v (hsub hv)

theorem SmallElements.dup (small : SmallElements stack) (hvch : vch ∈ stack) :
    SmallElements (vch :: stack) :=
  small.cons (small vch hvch)

theorem length_serialize (value : Int) :
    (CScriptNum.serialize value).length ≤ MAX_SCRIPT_ELEMENT_SIZE := by
  have hdigits : (Nat.digits 256 (value.natAbs % 2 ^ 64)).length ≤ 8 := by
    rw [Nat.digits_length_le_iff (by decide)]
    exact Nat.mod_lt _ (by decide)
  unfold CScriptNum.serialize MAX_SCRIPT_ELEMENT_SIZE
  dsimp only
  split
  · simp
  · split
    · simp only [List.length_append, List.length_map, List.length_singleton]
      omega
    · split
      · simp only [List.length_append, List.length_dropLast, List.length_map,
          List.length_singleton]
        omega
      · rw [List.length_map]
        omega

theorem length_vchOfBool (fValue : Bool) :
    (vchOfBool fValue).length ≤ MAX_SCRIPT_ELEMENT_SIZE := by
  cases fValue <;> decide

theorem meets_stopIf {β : Type} {c : Prop} [Decidable c] {fault : Fault} {post : β → Prop}
    {k : Unit → Except Fault β} (hfault : fault.Harmless)
    (hk : ¬ c → Meets Fault.Harmless post (k ())) :
    Meets Fault.Harmless post (stopIf c fault >>= k) := by
  refine Meets.bind (m := fun _ => ¬ c) ?_ fun _ h => hk h
  unfold stopIf
  by_cases h : c
  · rw [if_pos h]
    exact hfault
  · rw [if_neg h]
    exact h

/-- Where there are enough elements, the operation goes on. -/
theorem meets_need {β : Type} {n : ℕ} {post : β → Prop} {k : Unit → Except Fault β}
    (hk : n ≤ stack.length → Meets Fault.Harmless post (k ())) :
    Meets Fault.Harmless post (need n stack >>= k) :=
  meets_stopIf (Fault.harmless_set_error _) fun h => hk (not_lt.mp h)

theorem meets_stacktop {β : Type} {i : ℕ} {post : β → Prop} {k : valtype → Except Fault β}
    (hpos : 0 < i) (hle : i ≤ stack.length)
    (hk : ∀ vch ∈ stack, Meets Fault.Harmless post (k vch)) :
    Meets Fault.Harmless post (stacktop stack i >>= k) :=
  (meets_top hpos hle).bind hk

theorem meets_popstack {β : Type} {post : β → Prop} {k : Stack → Except Fault β}
    (small : SmallElements stack) (hpos : 0 < stack.length)
    (hk : ∀ stack', SmallElements stack' → stack'.length + 1 = stack.length →
      Meets Fault.Harmless post (k stack')) :
    Meets Fault.Harmless post (popstack stack >>= k) :=
  (meets_pop hpos).bind fun stack' h => hk stack' (small.subset h.1) h.2

theorem meets_popstack_last (small : SmallElements stack) (hpos : 0 < stack.length) :
    Meets Fault.Harmless SmallElements (popstack stack) :=
  (meets_pop hpos).mono fun _ h => small.subset h.1

/-- A number is read without harm. -/
theorem meets_ofBytes {β : Type} {fRequireMinimal : Bool} {post : β → Prop}
    {k : Int → Except Fault β} (hk : ∀ bn, Meets Fault.Harmless post (k bn)) :
    Meets Fault.Harmless post (CScriptNum.ofBytes vch fRequireMinimal >>= k) := by
  refine Meets.bind (m := fun _ => True) ?_ fun bn _ => hk bn
  refine meets_stopIf Fault.harmless_scriptnum_error fun _ => ?_
  exact meets_stopIf Fault.harmless_scriptnum_error fun _ => Meets.ok trivial

end

theorem keeps_op2DROP : KeepsStack op2DROP := by
  intro stack small
  refine meets_need fun hn => meets_popstack small (by omega) fun stack' small' hlength => ?_
  exact meets_popstack_last small' (by omega)

theorem keeps_op2DUP : KeepsStack op2DUP := by
  intro stack small
  refine meets_need fun hn => ?_
  refine meets_stacktop (by omega) hn fun vch1 h1 => ?_
  refine meets_stacktop (by omega) (by omega) fun vch2 h2 => ?_
  exact Meets.ok ((small.dup h1).cons (small vch2 h2))

theorem keeps_op3DUP : KeepsStack op3DUP := by
  intro stack small
  refine meets_need fun hn => ?_
  refine meets_stacktop (by omega) hn fun vch1 h1 => ?_
  refine meets_stacktop (by omega) (by omega) fun vch2 h2 => ?_
  refine meets_stacktop (by omega) (by omega) fun vch3 h3 => ?_
  exact Meets.ok (((small.dup h1).cons (small vch2 h2)).cons (small vch3 h3))

theorem keeps_op2OVER : KeepsStack op2OVER := by
  intro stack small
  refine meets_need fun hn => ?_
  refine meets_stacktop (by omega) hn fun vch1 h1 => ?_
  refine meets_stacktop (by omega) (by omega) fun vch2 h2 => ?_
  exact Meets.ok ((small.dup h1).cons (small vch2 h2))

theorem keeps_op2ROT : KeepsStack op2ROT := by
  intro stack small
  refine meets_need fun hn => ?_
  refine meets_stacktop (by omega) hn fun vch1 h1 => ?_
  refine meets_stacktop (by omega) (by omega) fun vch2 h2 => ?_
  refine (meets_erase hn (by omega)).bind fun stack' h => ?_
  exact Meets.ok (((small.subset h.1).cons (small vch1 h1)).cons (small vch2 h2))

theorem keeps_op2SWAP : KeepsStack op2SWAP := by
  intro stack small
  refine meets_need fun hn => ?_
  refine (meets_swap (by omega) hn (by omega) (by omega)).bind fun stack' h => ?_
  refine (meets_swap (by omega) (by omega) (by omega) (by omega)).mono fun stack'' h' => ?_
  exact (small.subset h.1).subset h'.1

theorem keeps_opIFDUP : KeepsStack opIFDUP := by
  intro stack small
  refine meets_need fun hn => ?_
  refine meets_stacktop (by omega) hn fun vch h => ?_
  refine Meets.ok ?_
  split_ifs
  · exact small.dup h
  · exact small

theorem keeps_opDEPTH : KeepsStack opDEPTH :=
  fun _ small => Meets.ok (small.cons (length_serialize _))

theorem keeps_opDROP : KeepsStack opDROP := by
  intro stack small
  exact meets_need fun hn => meets_popstack_last small hn

theorem keeps_opDUP : KeepsStack opDUP := by
  intro stack small
  refine meets_need fun hn => ?_
  exact meets_stacktop (by omega) hn fun vch h => Meets.ok (small.dup h)

theorem keeps_opNIP : KeepsStack opNIP := by
  intro stack small
  refine meets_need fun hn => ?_
  exact (meets_erase hn (by omega)).mono fun stack' h => small.subset h.1

theorem keeps_opOVER : KeepsStack opOVER := by
  intro stack small
  refine meets_need fun hn => ?_
  exact meets_stacktop (by omega) hn fun vch h => Meets.ok (small.dup h)

/-- The index has been compared with the size of the stack below it. -/
theorem keeps_opPICK (fRoll fRequireMinimal : Bool) : KeepsStack (opPICK fRoll fRequireMinimal) := by
  intro stack small
  refine meets_need fun hn => ?_
  refine meets_stacktop (by omega) (by omega) fun vchN _ => meets_ofBytes fun bn => ?_
  refine meets_popstack small (by omega) fun stack' small' hlength => ?_
  refine meets_stopIf (Fault.harmless_set_error _) fun hrange => ?_
  rw [not_or, not_lt, not_le] at hrange
  refine meets_stacktop (by omega) (by omega) fun vch hvch => ?_
  cases fRoll with
  | false => exact Meets.ok (small'.dup hvch)
  | true =>
    refine (meets_erase (by omega) (by omega)).bind fun stack'' h => ?_
    exact Meets.ok ((small'.subset h.1).cons (small' vch hvch))

theorem keeps_opROT : KeepsStack opROT := by
  intro stack small
  refine meets_need fun hn => ?_
  refine (meets_swap (by omega) hn (by omega) (by omega)).bind fun stack' h => ?_
  refine (meets_swap (by omega) (by omega) (by omega) (by omega)).mono fun stack'' h' => ?_
  exact (small.subset h.1).subset h'.1

theorem keeps_opSWAP : KeepsStack opSWAP := by
  intro stack small
  refine meets_need fun hn => ?_
  exact (meets_swap (by omega) hn (by omega) (by omega)).mono fun stack' h => small.subset h.1

theorem keeps_opTUCK : KeepsStack opTUCK := by
  intro stack small
  refine meets_need fun hn => ?_
  refine meets_stacktop (by omega) (by omega) fun vch h => ?_
  exact (meets_insert hn).mono fun stack' hsub => (small.dup h).subset hsub

theorem keeps_opSIZE : KeepsStack opSIZE := by
  intro stack small
  refine meets_need fun hn => ?_
  exact meets_stacktop (by omega) hn fun vch _ => Meets.ok (small.cons (length_serialize _))

theorem keeps_verifyTop {fVerify fValue : Bool} {serror : ScriptError} {stack : Stack}
    (small : SmallElements stack) (hpos : 0 < stack.length) :
    Meets Fault.Harmless SmallElements (verifyTop fVerify serror fValue stack) := by
  unfold verifyTop
  split_ifs
  · exact meets_popstack_last small hpos
  · exact Fault.harmless_set_error _
  · exact Meets.ok small

theorem keeps_opVERIFY : KeepsStack opVERIFY := by
  intro stack small
  refine meets_need fun hn => ?_
  refine meets_stacktop (by omega) hn fun vch _ => ?_
  split_ifs
  · exact meets_popstack_last small hn
  · exact Fault.harmless_set_error _

theorem keeps_opEQUAL (fVerify : Bool) : KeepsStack (opEQUAL fVerify) := by
  intro stack small
  refine meets_need fun hn => ?_
  refine meets_stacktop (by omega) hn fun vch1 _ => ?_
  refine meets_stacktop (by omega) (by omega) fun vch2 _ => ?_
  refine meets_popstack small (by omega) fun stack' small' hlength => ?_
  refine meets_popstack small' (by omega) fun stack'' small'' _ => ?_
  exact keeps_verifyTop (small''.cons (length_vchOfBool _)) (Nat.succ_pos _)

/-- The outer switch comes to the inner one only with its opcodes. -/
theorem keeps_opNumeric1 {opcode : opcodetype} (fRequireMinimal : Bool)
    (hinner : ∀ bn, ∃ bn', numeric1 opcode bn = .ok bn') :
    KeepsStack (opNumeric1 opcode fRequireMinimal) := by
  intro stack small
  refine meets_need fun hn => ?_
  refine meets_stacktop (by omega) hn fun vch _ => meets_ofBytes fun bn => ?_
  obtain ⟨bn', hbn⟩ := hinner bn
  rw [hbn]
  refine meets_popstack small (by omega) fun stack' small' _ => ?_
  exact Meets.ok (small'.cons (length_serialize _))

theorem keeps_opNumeric2 {opcode : opcodetype} (fRequireMinimal : Bool)
    (hinner : ∀ bn1 bn2, ∃ bn, numeric2 opcode bn1 bn2 = .ok bn) :
    KeepsStack (opNumeric2 opcode fRequireMinimal) := by
  intro stack small
  refine meets_need fun hn => ?_
  refine meets_stacktop (by omega) hn fun vch1 _ => meets_ofBytes fun bn1 => ?_
  refine meets_stacktop (by omega) (by omega) fun vch2 _ => meets_ofBytes fun bn2 => ?_
  obtain ⟨bn, hbn⟩ := hinner bn1 bn2
  rw [hbn]
  refine meets_popstack small (by omega) fun stack' small' hlength => ?_
  refine meets_popstack small' (by omega) fun stack'' small'' _ => ?_
  have hsmall := small''.cons (length_serialize bn)
  split_ifs
  · refine meets_stacktop Nat.one_pos (Nat.succ_pos _) fun vch _ => ?_
    exact keeps_verifyTop hsmall (Nat.succ_pos _)
  · exact Meets.ok hsmall

theorem keeps_opWITHIN (fRequireMinimal : Bool) : KeepsStack (opWITHIN fRequireMinimal) := by
  intro stack small
  refine meets_need fun hn => ?_
  refine meets_stacktop (by omega) hn fun vch1 _ => meets_ofBytes fun bn1 => ?_
  refine meets_stacktop (by omega) (by omega) fun vch2 _ => meets_ofBytes fun bn2 => ?_
  refine meets_stacktop (by omega) (by omega) fun vch3 _ => meets_ofBytes fun bn3 => ?_
  refine meets_popstack small (by omega) fun stack₁ small₁ h₁ => ?_
  refine meets_popstack small₁ (by omega) fun stack₂ small₂ h₂ => ?_
  refine meets_popstack small₂ (by omega) fun stack₃ small₃ h₃ => ?_
  exact Meets.ok (small₃.cons (length_vchOfBool _))

theorem keeps_opHash {digest : valtype → valtype}
    (hdigest : ∀ vch, (digest vch).length ≤ MAX_SCRIPT_ELEMENT_SIZE) :
    KeepsStack (opHash digest) := by
  intro stack small
  refine meets_need fun hn => ?_
  refine meets_stacktop (by omega) hn fun vch _ => ?_
  refine meets_popstack small hn fun stack' small' _ => ?_
  exact Meets.ok (small'.cons (hdigest vch))

def Stopped.Harmless (stopped : Stopped) : Prop := stopped.fault.Harmless

/-- The limits that hold while an operation is executed. -/
structure Machine.Small (s : Machine) : Prop where
  stack : SmallElements s.stack
  altstack : SmallElements s.altstack
  nOpCount : s.nOpCount ≤ 201

/-- The limits that hold between two operations. -/
structure Machine.Bounded (s : Machine) : Prop extends s.Small where
  size : s.stack.length + s.altstack.length ≤ 1000

section
variable {s : Machine} {env : ScriptEnv} {flags : UInt32} {calls : List SigCall}

theorem meets_quietly {α : Type} {p : α → Prop} {r : Except Fault α}
    (hr : Meets Fault.Harmless p r) : Meets Stopped.Harmless p (s.quietly r) := by
  cases r with
  | ok a => exact hr
  | error fault => exact hr

theorem meets_stop {α : Type} {post : α → Prop} (serror : ScriptError) :
    Meets Stopped.Harmless post (s.stop serror) :=
  Fault.harmless_set_error serror

theorem Machine.Small.onStack {op : Stack → Except Fault Stack} (small : s.Small)
    (hop : Meets Fault.Harmless SmallElements (op s.stack)) :
    Meets Stopped.Harmless Machine.Small (s.onStack op) :=
  (meets_quietly hop).bind fun _ hstack =>
    Meets.ok ⟨hstack, small.altstack, small.nOpCount⟩

theorem Machine.Small.opIF {fNot : Bool} (small : s.Small) :
    Meets Stopped.Harmless Machine.Small (s.opIF fNot) := by
  unfold Machine.opIF
  split_ifs
  · refine (meets_quietly (p := fun top => SmallElements top.2) ?_).bind fun top htop => ?_
    · refine meets_stopIf (Fault.harmless_set_error _) fun hn => ?_
      refine meets_stacktop Nat.one_pos (by omega) fun vch _ => ?_
      exact meets_popstack small.stack (by omega) fun stack' small' _ => Meets.ok small'
    · exact Meets.ok ⟨htop, small.altstack, small.nOpCount⟩
  · exact Meets.ok ⟨small.stack, small.altstack, small.nOpCount⟩

theorem Machine.Small.opELSE (small : s.Small) :
    Meets Stopped.Harmless Machine.Small s.opELSE := by
  unfold Machine.opELSE
  split
  · exact meets_stop _
  · exact Meets.ok ⟨small.stack, small.altstack, small.nOpCount⟩

theorem Machine.Small.opENDIF (small : s.Small) :
    Meets Stopped.Harmless Machine.Small s.opENDIF := by
  unfold Machine.opENDIF
  split
  · exact meets_stop _
  · exact Meets.ok ⟨small.stack, small.altstack, small.nOpCount⟩

theorem Machine.Small.opTOALTSTACK (small : s.Small) :
    Meets Stopped.Harmless Machine.Small s.opTOALTSTACK := by
  refine (meets_quietly (p := fun top => top.1 ∈ s.stack ∧ SmallElements top.2) ?_).bind ?_
  · refine meets_need fun hn => ?_
    refine meets_stacktop Nat.one_pos hn fun vch hvch => ?_
    exact meets_popstack small.stack hn fun stack' small' _ => Meets.ok ⟨hvch, small'⟩
  · rintro ⟨vch, stack⟩ ⟨hvch, hstack⟩
    exact Meets.ok ⟨hstack, small.altstack.cons (small.stack vch hvch), small.nOpCount⟩

theorem Machine.Small.opFROMALTSTACK (small : s.Small) :
    Meets Stopped.Harmless Machine.Small s.opFROMALTSTACK := by
  refine (meets_quietly (p := fun top => top.1 ∈ s.altstack ∧ SmallElements top.2) ?_).bind ?_
  · refine meets_stopIf (Fault.harmless_set_error _) fun hn => ?_
    refine meets_stacktop Nat.one_pos (by omega) fun vch hvch => ?_
    exact meets_popstack small.altstack (by omega) fun stack' small' _ => Meets.ok ⟨hvch, small'⟩
  · rintro ⟨vch, altstack⟩ ⟨hvch, haltstack⟩
    exact Meets.ok ⟨small.stack.cons (small.altstack vch hvch), haltstack, small.nOpCount⟩

theorem harmless_checkSignatureEncoding (vchSig : valtype) :
    Meets Fault.Harmless (fun _ => True) (checkSignatureEncoding env flags vchSig) := by
  unfold checkSignatureEncoding
  refine Meets.ite (fun _ => Meets.ok trivial) fun _ => ?_
  refine meets_stopIf (Fault.harmless_set_error _) fun _ => ?_
  refine Meets.bind (m := fun _ => True) ?_ fun _ _ => ?_
  · refine Meets.ite (fun _ => ?_) fun _ => Meets.ok trivial
    refine meets_stopIf (Fault.harmless_set_error _) fun _ => ?_
    exact Meets.ite (fun _ => Fault.harmless_set_error _) fun _ => Meets.ok trivial
  · exact Meets.ite (fun _ => Fault.harmless_set_error _) fun _ => Meets.ok trivial

theorem harmless_checkSig (call : SigCall) :
    Meets Stopped.Harmless (fun _ => True) (checkSig env flags calls call) := by
  have hencoding : Meets Fault.Harmless (fun _ => True)
      (do checkSignatureEncoding env flags call.vchSig
          checkPubKeyEncoding flags call.vchPubKey) :=
    (harmless_checkSignatureEncoding call.vchSig).bind fun _ _ =>
      Meets.ite (fun _ => Fault.harmless_set_error _) fun _ => Meets.ok trivial
  unfold checkSig
  split
  case h_1 heq =>
    rw [heq] at hencoding
    exact hencoding
  case h_2 => exact Meets.ok trivial

theorem Machine.Small.opCHECKSIG {fVerify : Bool} (small : s.Small) :
    Meets Stopped.Harmless Machine.Small (opCHECKSIG env flags fVerify s) := by
  refine (meets_quietly (p := fun _ => 2 ≤ s.stack.length) ?_).bind ?_
  · refine meets_need fun hn => ?_
    refine meets_stacktop (by omega) hn fun vchSig _ => ?_
    exact meets_stacktop (by omega) (by omega) fun vchPubKey _ => Meets.ok hn
  · rintro ⟨vchSig, vchPubKey⟩ hn
    refine (harmless_checkSig _).bind ?_
    rintro ⟨fSuccess, calls⟩ _
    have small' : Machine.Small { s with calls } := ⟨small.stack, small.altstack, small.nOpCount⟩
    refine small'.onStack ?_
    dsimp only
    refine meets_popstack small.stack (by omega) fun stack₁ small₁ h₁ => ?_
    refine meets_popstack small₁ (by omega) fun stack₂ small₂ h₂ => ?_
    exact keeps_verifyTop (small₂.cons (length_vchOfBool _)) (Nat.succ_pos _)

/-- The operands are within the stack, and the keys are counted as operations. -/
theorem meets_multisigArgs {fRequireMinimal : Bool} {nOpCount : ℕ} {stack : Stack} :
    Meets Fault.Harmless (fun args => args.nSigsCount ≤ args.nKeysCount ∧
      3 + args.nKeysCount + args.nSigsCount ≤ stack.length ∧ args.nOpCount ≤ 201)
      (multisigArgs fRequireMinimal nOpCount stack) := by
  refine meets_need fun hn => ?_
  refine meets_stacktop Nat.one_pos hn fun vch _ => meets_ofBytes fun bn => ?_
  refine meets_stopIf (Fault.harmless_set_error _) fun hkeys => ?_
  refine meets_stopIf (Fault.harmless_set_error _) fun hops => meets_need fun hn' => ?_
  refine meets_stacktop (by omega) hn' fun vch' _ => meets_ofBytes fun bn' => ?_
  refine meets_stopIf (Fault.harmless_set_error _) fun hsigs => meets_need fun hn'' => ?_
  refine Meets.ok ⟨?_, hn'', not_lt.mp hops⟩
  dsimp only
  omega

theorem harmless_dropSignatures {stack : Stack} {isig nSigsCount : ℕ} {scriptCode : Script}
    (hpos : 0 < isig) (hle : isig + nSigsCount ≤ stack.length + 1) :
    Meets Fault.Harmless (fun _ => True) (dropSignatures stack isig nSigsCount scriptCode) := by
  induction nSigsCount with
  | zero => exact Meets.ok trivial
  | succ n ih =>
    refine (ih (by omega)).bind fun scriptCode' _ => ?_
    exact meets_stacktop (by omega) (by omega) fun vchSig _ => Meets.ok trivial

theorem harmless_checkSigAt {stack : Stack} {scriptCode : Script} {isig ikey : ℕ}
    (hsig : 0 < isig ∧ isig ≤ stack.length) (hkey : 0 < ikey ∧ ikey ≤ stack.length) :
    Meets Stopped.Harmless (fun _ => True)
      (checkSigAt env flags stack scriptCode isig ikey calls) := by
  have hread : Meets Fault.Harmless (fun _ => True)
      (do let vchSig ← stacktop stack isig
          let vchPubKey ← stacktop stack ikey
          return (vchSig, vchPubKey)) :=
    meets_stacktop hsig.1 hsig.2 fun _ _ =>
      meets_stacktop hkey.1 hkey.2 fun _ _ => Meets.ok trivial
  unfold checkSigAt
  split
  case h_1 heq =>
    rw [heq] at hread
    exact hread
  case h_2 => exact harmless_checkSig _

/-- The positions move within the operands as long as there are no more signatures than keys. -/
theorem harmless_checkMultisigLoop {stack : Stack} {scriptCode : Script}
    {nKeysCount nSigsCount isig ikey : ℕ} (hsigs : nSigsCount ≤ nKeysCount)
    (hsig : 0 < isig ∧ isig + nSigsCount ≤ stack.length + 1)
    (hkey : 0 < ikey ∧ ikey + nKeysCount ≤ stack.length + 1) :
    Meets Stopped.Harmless (fun _ => True)
      (checkMultisigLoop env flags stack scriptCode nKeysCount nSigsCount isig ikey calls) := by
  induction nKeysCount generalizing nSigsCount isig ikey calls with
  | zero =>
    have hzero : nSigsCount = 0 := by omega
    subst hzero
    exact Meets.ok trivial
  | succ nKeysCount ih =>
    cases nSigsCount with
    | zero => exact Meets.ok trivial
    | succ nSigsCount =>
      refine (harmless_checkSigAt (by omega) (by omega)).bind ?_
      rintro ⟨fOk, calls⟩ _
      refine Meets.ite (fun _ => Meets.ok trivial) fun hleft => ?_
      cases fOk with
      | false =>
        rw [if_neg Bool.false_ne_true] at hleft
        exact ih (by simpa using hleft) (by simpa using hsig) (by omega)
      | true =>
        exact ih (by omega) (by simp only [if_true]; omega) (by omega)

theorem Machine.Small.opCHECKMULTISIG {fVerify : Bool} (small : s.Small) :
    Meets Stopped.Harmless Machine.Small (opCHECKMULTISIG env flags fVerify s) := by
  refine (meets_quietly meets_multisigArgs).bind ?_
  rintro args ⟨hsigs, hlength, hops⟩
  refine (meets_quietly (harmless_dropSignatures (by omega) (by omega))).bind ?_
  intro scriptCode _
  refine (harmless_checkMultisigLoop hsigs (by omega) (by omega)).bind ?_
  rintro ⟨fSuccess, calls⟩ _
  have small' : Machine.Small { s with nOpCount := args.nOpCount, calls } :=
    ⟨small.stack, small.altstack, hops⟩
  refine small'.onStack ?_
  refine (meets_popN (by dsimp only; omega)).bind fun stack₁ h₁ => ?_
  have small₁ := small.stack.subset h₁.1
  refine meets_need fun hn => ?_
  refine meets_stacktop Nat.one_pos hn fun dummy _ => ?_
  refine meets_stopIf (Fault.harmless_set_error _) fun _ => ?_
  refine meets_popstack small₁ hn fun stack₂ small₂ _ => ?_
  exact keeps_verifyTop (small₂.cons (length_vchOfBool _)) (Nat.succ_pos _)

theorem Machine.Small.execute {opcode : UInt8} {pc : Script} (small : s.Small) :
    Meets Stopped.Harmless Machine.Small (execute env flags opcode pc s) := by
  have hdigest {n : ℕ} (hn : n ≤ 32) (digest : valtype → Vector UInt8 n) :
      KeepsStack (opHash fun vch => (digest vch).toList) := by
    refine keeps_opHash fun vch => ?_
    rw [Vector.length_toList]
    exact le_trans hn (by decide)
  unfold Lytix.execute
  refine Meets.ite (fun _ => ?_) fun _ => ?_
  · exact Meets.ok ⟨small.stack.cons (length_serialize _), small.altstack, small.nOpCount⟩
  cases opcodetype.ofByte opcode
  case OP_NOP => exact Meets.ok small
  case OP_NOP1 | OP_NOP2 | OP_NOP3 | OP_NOP4 | OP_NOP5 | OP_NOP6 | OP_NOP7 | OP_NOP8 | OP_NOP9
      | OP_NOP10 =>
    exact Meets.ite (fun _ => meets_stop _) fun _ => Meets.ok small
  case OP_IF | OP_NOTIF => exact small.opIF
  case OP_ELSE => exact small.opELSE
  case OP_ENDIF => exact small.opENDIF
  case OP_VERIFY => exact small.onStack (keeps_opVERIFY _ small.stack)
  case OP_RETURN => exact meets_stop _
  case OP_TOALTSTACK => exact small.opTOALTSTACK
  case OP_FROMALTSTACK => exact small.opFROMALTSTACK
  case OP_2DROP => exact small.onStack (keeps_op2DROP _ small.stack)
  case OP_2DUP => exact small.onStack (keeps_op2DUP _ small.stack)
  case OP_3DUP => exact small.onStack (keeps_op3DUP _ small.stack)
  case OP_2OVER => exact small.onStack (keeps_op2OVER _ small.stack)
  case OP_2ROT => exact small.onStack (keeps_op2ROT _ small.stack)
  case OP_2SWAP => exact small.onStack (keeps_op2SWAP _ small.stack)
  case OP_IFDUP => exact small.onStack (keeps_opIFDUP _ small.stack)
  case OP_DEPTH => exact small.onStack (keeps_opDEPTH _ small.stack)
  case OP_DROP => exact small.onStack (keeps_opDROP _ small.stack)
  case OP_DUP => exact small.onStack (keeps_opDUP _ small.stack)
  case OP_NIP => exact small.onStack (keeps_opNIP _ small.stack)
  case OP_OVER => exact small.onStack (keeps_opOVER _ small.stack)
  case OP_PICK | OP_ROLL => exact small.onStack (keeps_opPICK _ _ _ small.stack)
  case OP_ROT => exact small.onStack (keeps_opROT _ small.stack)
  case OP_SWAP => exact small.onStack (keeps_opSWAP _ small.stack)
  case OP_TUCK => exact small.onStack (keeps_opTUCK _ small.stack)
  case OP_SIZE => exact small.onStack (keeps_opSIZE _ small.stack)
  case OP_EQUAL | OP_EQUALVERIFY => exact small.onStack (keeps_opEQUAL _ _ small.stack)
  case OP_1ADD | OP_1SUB | OP_NEGATE | OP_ABS | OP_NOT | OP_0NOTEQUAL =>
    exact small.onStack (keeps_opNumeric1 _ (fun bn => ⟨_, rfl⟩) _ small.stack)
  case OP_ADD | OP_SUB | OP_BOOLAND | OP_BOOLOR | OP_NUMEQUAL | OP_NUMEQUALVERIFY | OP_NUMNOTEQUAL
      | OP_LESSTHAN | OP_GREATERTHAN | OP_LESSTHANOREQUAL | OP_GREATERTHANOREQUAL | OP_MIN
      | OP_MAX =>
    exact small.onStack (keeps_opNumeric2 _ (fun bn1 bn2 => ⟨_, rfl⟩) _ small.stack)
  case OP_WITHIN => exact small.onStack (keeps_opWITHIN _ _ small.stack)
  case OP_RIPEMD160 | OP_SHA1 | OP_SHA256 | OP_HASH160 | OP_HASH256 =>
    exact small.onStack (hdigest (by decide) _ _ small.stack)
  case OP_CODESEPARATOR => exact Meets.ok ⟨small.stack, small.altstack, small.nOpCount⟩
  case OP_CHECKSIG | OP_CHECKSIGVERIFY => exact small.opCHECKSIG
  case OP_CHECKMULTISIG | OP_CHECKMULTISIGVERIFY => exact small.opCHECKMULTISIG
  case default => exact meets_stop _

theorem Machine.Small.perform {opcode : UInt8} {vchPushValue : valtype} {pc : Script}
    (small : s.Small) (hpush : vchPushValue.length ≤ MAX_SCRIPT_ELEMENT_SIZE) :
    Meets Stopped.Harmless Machine.Small (perform env flags opcode vchPushValue pc s) := by
  refine Meets.ite (fun _ => ?_) fun _ => Meets.ite (fun _ => small.execute) fun _ => Meets.ok small
  refine Meets.ite (fun _ => meets_stop _) fun _ => ?_
  exact Meets.ok ⟨small.stack.cons hpush, small.altstack, small.nOpCount⟩

/-- One operation keeps the limits or stops without harm. -/
theorem Machine.Bounded.evalStep {instr : Instr} (bounded : s.Bounded) :
    Meets Stopped.Harmless Machine.Bounded (evalStep env flags s instr) := by
  cases instr with
  | bad => exact meets_stop _
  | op opcode vchPushValue pc =>
    refine Meets.ite (fun _ => meets_stop _) fun hpush => ?_
    refine Meets.ite (fun _ => meets_stop _) fun hcount => ?_
    refine Meets.ite (fun _ => meets_stop _) fun _ => ?_
    have small : Machine.Small
        (if OP_16 < opcode then { s with nOpCount := s.nOpCount + 1 } else s) := by
      by_cases hcounted : OP_16 < opcode
      · rw [if_pos hcounted] at hcount ⊢
        exact ⟨bounded.stack, bounded.altstack, not_lt.mp fun h => hcount ⟨hcounted, h⟩⟩
      · rw [if_neg hcounted]
        exact bounded.toSmall
    refine (small.perform (not_lt.mp hpush)).bind fun s' small' => ?_
    refine Meets.ite (fun _ => meets_stop _) fun hsize => ?_
    exact Meets.ok ⟨small', not_lt.mp hsize⟩

theorem Machine.Bounded.start {stack : Stack} (script : Script) (hsize : stack.length ≤ 1000)
    (small : SmallElements stack) : (Machine.start stack script).Bounded where
  stack := small
  altstack := nofun
  nOpCount := Nat.zero_le _
  size := hsize

theorem meets_evalSteps {ops : List Instr} (bounded : s.Bounded) :
    Meets Stopped.Harmless Machine.Bounded (ops.foldlM (evalStep env flags) s) :=
  Meets.foldlM bounded fun _ _ bounded => bounded.evalStep

/-- An evaluation ends without harm, and where it succeeds all conditionals are closed. -/
theorem meets_evalScript {stack : Stack} {script : Script} (hsize : stack.length ≤ 1000)
    (small : SmallElements stack) :
    Meets Stopped.Harmless (fun s => s.Bounded ∧ s.vfExec = [])
      (evalScript env flags stack script) := by
  refine Meets.ite (fun _ => Fault.harmless_set_error _) fun _ => ?_
  refine (meets_evalSteps (Machine.Bounded.start script hsize small)).bind fun s bounded => ?_
  exact Meets.ite (fun _ => meets_stop _) fun hclosed => Meets.ok ⟨bounded, not_not.mp hclosed⟩

theorem instrs_hash160 (rest : Script) :
    instrs (OP_HASH160 :: rest) = .op OP_HASH160 [] rest :: instrsLoop rest.length rest := rfl

theorem evalStep_hash160 (script rest : Script) :
    evalStep env flags (Machine.start [] script) (.op OP_HASH160 [] rest) =
      .error ⟨.set_error .INVALID_STACK_OPERATION, []⟩ := rfl

/-- The script of a pay-to-script-hash output fails on an empty stack. -/
theorem evalScript_payToScriptHash {scriptPubKey : Script}
    (hp2sh : scriptPubKey.isPayToScriptHash = true) :
    ∃ stopped, evalScript env flags [] scriptPubKey = .error stopped := by
  unfold evalScript
  by_cases hlength : 10000 < scriptPubKey.length
  · rw [if_pos hlength]
    exact ⟨_, rfl⟩
  · rw [if_neg hlength]
    cases scriptPubKey with
    | nil => contradiction
    | cons opcode rest =>
      have hopcode : opcode = OP_HASH160 := by
        simp only [Script.isPayToScriptHash, Bool.and_eq_true] at hp2sh
        simpa using hp2sh.1.1.2
      rw [hopcode, instrs_hash160, List.foldlM_cons, evalStep_hash160]
      exact ⟨_, rfl⟩

theorem harmless_checkResult : Meets Fault.Harmless (fun _ => True) (checkResult s) := by
  unfold checkResult
  split
  · exact Fault.harmless_set_error _
  · exact Meets.ite (fun _ => Meets.ok trivial) fun _ => Fault.harmless_set_error _

theorem Machine.Bounded.length_stack_le (bounded : s.Bounded) : s.stack.length ≤ 1000 :=
  le_trans (Nat.le_add_right _ _) bounded.size

/-- The saved stack holds a script, because an evaluation of the output's script has used it. -/
theorem harmless_verifyRedeem {vch : valtype} {stackCopy : Stack}
    (hsize : (vch :: stackCopy).length ≤ 1000) (small : SmallElements (vch :: stackCopy)) :
    Meets Fault.Harmless (fun _ => True) (verifyRedeem env flags (vch :: stackCopy)).result := by
  have heval : Meets Stopped.Harmless (fun s => s.Bounded ∧ s.vfExec = [])
      (evalScript env flags stackCopy vch) :=
    meets_evalScript (le_trans (Nat.le_succ _) hsize)
      (small.subset (List.subset_cons_self vch stackCopy))
  unfold verifyRedeem
  dsimp only
  split
  case h_1 stopped heq =>
    rw [heq] at heval
    exact heval
  case h_2 s heq => exact harmless_checkResult

/-- A verification that fails does so without harm. -/
theorem harmless_verifyScript (scriptSig scriptPubKey : Script) :
    Meets Fault.Harmless (fun _ => True) (verifyScript env flags scriptSig scriptPubKey).result := by
  unfold verifyScript
  split
  · exact Fault.harmless_set_error _
  have hfirst : Meets Stopped.Harmless (fun s => s.Bounded ∧ s.vfExec = [])
      (evalScript env flags [] scriptSig) := meets_evalScript (Nat.zero_le _) nofun
  split
  case h_1 stopped heq =>
    rw [heq] at hfirst
    exact hfirst
  case h_2 s₁ heq =>
    rw [heq] at hfirst
    obtain ⟨bounded₁, _⟩ := hfirst
    have hsecond : Meets Stopped.Harmless (fun s => s.Bounded ∧ s.vfExec = [])
        (evalScript (env.after s₁.calls) flags s₁.stack scriptPubKey) :=
      meets_evalScript bounded₁.length_stack_le bounded₁.stack
    dsimp only
    split
    case h_1 stopped heq₂ =>
      rw [heq₂] at hsecond
      exact hsecond
    case h_2 s₂ heq₂ =>
      have hresult : Meets Fault.Harmless (fun _ => True) (checkResult s₂) := harmless_checkResult
      split
      case h_1 fault heq₃ =>
        rw [heq₃] at hresult
        exact hresult
      case h_2 =>
        split
        case isFalse => exact Meets.ok trivial
        case isTrue hp2sh =>
          split
          · exact Fault.harmless_set_error _
          cases hstack : s₁.stack with
          | nil =>
            rw [hstack] at heq₂
            obtain ⟨stopped, herror⟩ :=
              @evalScript_payToScriptHash (env.after s₁.calls) flags scriptPubKey hp2sh.2
            rw [heq₂] at herror
            contradiction
          | cons vch stackCopy =>
            have hsize := bounded₁.length_stack_le
            have small := bounded₁.stack
            rw [hstack] at hsize small
            exact harmless_verifyRedeem hsize small

end

/-- What is promised of an evaluation, whatever its script is. -/
structure SafeEvaluation (env : ScriptEnv) (flags : UInt32) (script : Script) (stack : Stack) :
    Prop where
  /-- After each operation the limits hold. -/
  bounded : ∀ n s, ((instrs script).take n).foldlM (evalStep env flags)
    (Machine.start stack script) = .ok s → s.Bounded
  /-- Where it stops, it has neither left a stack nor met an invalid opcode in an inner switch. -/
  harmless : ∀ stopped, evalScript env flags stack script = .error stopped →
    stopped.fault.Harmless
  /-- Where it succeeds, all conditionals are closed. -/
  closed : ∀ s, evalScript env flags stack script = .ok s → s.Bounded ∧ s.vfExec = []

/-- The checker that accepts nothing, where no digest is taken. -/
def noSignatures : ScriptEnv where
  hashes := ⟨fun _ => .replicate 20 0, fun _ => .replicate 20 0, fun _ => .replicate 32 0,
    fun _ => .replicate 20 0, fun _ => .replicate 32 0⟩
  checkSignatureElement := fun _ => false
  checkSig := fun _ => false

example : (evalScript noSignatures 0 [[2]] [0x51, 0x7c]).toOption.map Machine.stack =
    some [[2], [1]] := by
  decide

end Lytix
