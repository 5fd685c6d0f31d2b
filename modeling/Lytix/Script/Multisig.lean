import Lytix.Lib.OrderedMatching
import Lytix.Script.Interpreter

/-! `OP_CHECKMULTISIG` matches the signatures with the keys in their order. -/
namespace Lytix

open Checks CheckedStacks OrderedMatching

/-- A checker that answers by the call alone, as `CheckSig` does. -/
def ScriptEnv.withChecker (env : ScriptEnv) (verifies : SigCall → Bool) : ScriptEnv :=
  { env with checkSig := fun calls => calls.head?.any verifies }

/-- The element is read as this number. -/
def ReadsAs (flags : UInt32) (vch : valtype) (n : ℕ) : Prop :=
  ∃ bn, CScriptNum.ofBytes vch (hasFlag flags SCRIPT_VERIFY_MINIMALDATA) = .ok bn ∧
    CScriptNum.getint bn = n

/-- The other operands of `OP_CHECKMULTISIG` for these signatures and keys. -/
structure MultisigOperands (flags : UInt32) (sigs keys : List valtype) where
  num_of_pubkeys : valtype
  num_of_signatures : valtype
  /-- The extra element that a bug takes off the stack. -/
  dummy : valtype
  pubkeys : ReadsAs flags num_of_pubkeys keys.length
  signatures : ReadsAs flags num_of_signatures sigs.length
  nullDummy : hasFlag flags SCRIPT_VERIFY_NULLDUMMY = true → dummy = []
  few : keys.length ≤ 20
  fewer : sigs.length ≤ keys.length

/-- The stack with the operands on it. Signatures and keys are in the order in which they were
pushed, and the last element of the stack stands first. -/
def MultisigOperands.stack {flags : UInt32} {sigs keys : List valtype}
    (operands : MultisigOperands flags sigs keys) (rest : Stack) : Stack :=
  operands.num_of_pubkeys :: (keys.reverse ++ operands.num_of_signatures ::
    (sigs.reverse ++ operands.dummy :: rest))

/-- The script that is signed, without the signatures. -/
def signedScript (codehash : Script) (sigs : List valtype) : Script :=
  sigs.foldr (fun vchSig scriptCode => findAndDelete scriptCode (Script.push vchSig)) codehash

/-- A segment of the stack, from this distance on. -/
def Holds (stack : Stack) (i : ℕ) (l : List valtype) : Prop :=
  ∀ j x, l[j]? = some x → stacktop stack (i + j) = .ok x

section
variable {env : ScriptEnv} {verifies : SigCall → Bool} {flags : UInt32} {stack rest : Stack}
  {sigs keys l : List valtype} {x : valtype} {scriptCode : Script} {calls : List SigCall} {i : ℕ}

theorem Holds.head (h : Holds stack i (x :: l)) : stacktop stack i = .ok x := h 0 x rfl

theorem Holds.tail (h : Holds stack i (x :: l)) : Holds stack (i + 1) l := by
  intro j y hy
  rw [Nat.add_assoc, Nat.add_comm 1 j]
  exact h (j + 1) y hy

theorem holds_append (before after : Stack) :
    Holds (before ++ (l ++ after)) (before.length + 1) l := by
  intro j y hy
  have hlt := (List.getElem?_eq_some_iff.mp hy).1
  have hindex : before.length + 1 + j = before.length + j + 1 := by omega
  rw [hindex, stacktop, top, List.getElem?_append_right (by omega), Nat.add_sub_cancel_left,
    List.getElem?_append_left hlt, hy]

theorem popN_append {out : Fault} (before after : Stack) :
    popN out before.length (before ++ after) = .ok after := by
  induction before with
  | nil => rfl
  | cons v before ih => exact ih

/-- The signatures are deleted one after another, from the top. -/
theorem dropSignatures_eq (h : Holds stack i l) :
    dropSignatures stack i l.length scriptCode =
      .ok (l.foldl (fun script vchSig => findAndDelete script (Script.push vchSig)) scriptCode) := by
  induction l using List.reverseRecOn with
  | nil => rfl
  | append_singleton l x ih =>
    have hinit : Holds stack i l := by
      intro j y hy
      apply h j y
      rw [List.getElem?_append_left (List.getElem?_eq_some_iff.mp hy).1, hy]
    have hlast : stacktop stack (i + l.length) = .ok x := h l.length x (by simp)
    rw [List.length_append, List.length_singleton, dropSignatures, ih hinit, List.foldl_append]
    simp [hlast, bind, Except.bind, pure, Except.pure]

theorem checkSigAt_eq {isig ikey : ℕ} {vchSig vchPubKey : valtype}
    (hsig : stacktop stack isig = .ok vchSig) (hkey : stacktop stack ikey = .ok vchPubKey)
    (hsigEncoding : checkSignatureEncoding env flags vchSig = .ok ())
    (hkeyEncoding : checkPubKeyEncoding flags vchPubKey = .ok ()) :
    checkSigAt (env.withChecker verifies) flags stack scriptCode isig ikey calls =
      .ok (verifies ⟨vchSig, vchPubKey, scriptCode⟩, ⟨vchSig, vchPubKey, scriptCode⟩ :: calls) := by
  have hencoding : checkSignatureEncoding (env.withChecker verifies) flags vchSig = .ok () :=
    hsigEncoding
  unfold checkSigAt checkSig
  simp [hsig, hkey, hencoding, hkeyEncoding, bind, Except.bind, pure, Except.pure]
  rfl

/-- The loop is the greedy scan, from the top of the stack. -/
theorem checkMultisigLoop_eq {isig ikey : ℕ} (hsigs : Holds stack isig sigs)
    (hkeys : Holds stack ikey keys) (hfewer : sigs.length ≤ keys.length)
    (hsigEncoding : ∀ sig ∈ sigs, checkSignatureEncoding env flags sig = .ok ())
    (hkeyEncoding : ∀ key ∈ keys, checkPubKeyEncoding flags key = .ok ()) :
    ∃ calls', checkMultisigLoop (env.withChecker verifies) flags stack scriptCode keys.length
        sigs.length isig ikey calls =
      .ok (greedy (fun sig key => verifies ⟨sig, key, scriptCode⟩) sigs keys, calls') := by
  induction keys generalizing sigs isig ikey calls with
  | nil =>
    have hnone : sigs = [] := List.eq_nil_of_length_eq_zero (Nat.le_zero.mp hfewer)
    rw [hnone]
    exact ⟨calls, rfl⟩
  | cons key keys ih =>
    cases sigs with
    | nil => exact ⟨calls, rfl⟩
    | cons sig sigs =>
      have hround := @checkSigAt_eq env verifies flags stack scriptCode calls isig ikey sig key
        hsigs.head hkeys.head (hsigEncoding sig List.mem_cons_self)
        (hkeyEncoding key List.mem_cons_self)
      have hkeys' : ∀ k ∈ keys, checkPubKeyEncoding flags k = .ok () :=
        fun k hk => hkeyEncoding k (List.mem_cons_of_mem key hk)
      rw [List.length_cons, List.length_cons, checkMultisigLoop, hround, greedy]
      cases hfits : verifies ⟨sig, key, scriptCode⟩ with
      | true =>
        by_cases hfew : keys.length < sigs.length
        · exact absurd (Nat.succ_le_succ_iff.mp hfewer) (not_le.mpr hfew)
        · obtain ⟨calls', hloop⟩ := @ih sigs (⟨sig, key, scriptCode⟩ :: calls) (isig + 1) (ikey + 1)
            hsigs.tail hkeys.tail (not_lt.mp hfew)
            (fun s hs => hsigEncoding s (List.mem_cons_of_mem sig hs)) hkeys'
          refine ⟨calls', ?_⟩
          simp only [bind, Except.bind, if_true, if_neg hfew]
          exact hloop
      | false =>
        by_cases hfew : keys.length < sigs.length + 1
        · refine ⟨⟨sig, key, scriptCode⟩ :: calls, ?_⟩
          simp [bind, Except.bind, hfew, pure, Except.pure]
        · obtain ⟨calls', hloop⟩ := @ih (sig :: sigs) (⟨sig, key, scriptCode⟩ :: calls) isig
            (ikey + 1) hsigs hkeys.tail (not_lt.mp hfew) hsigEncoding hkeys'
          refine ⟨calls', ?_⟩
          simp only [bind, Except.bind, Bool.false_eq_true, if_false, if_neg hfew, List.length_cons]
          exact hloop

theorem multisigArgs_eq {nOpCount : ℕ} (operands : MultisigOperands flags sigs keys)
    (hops : nOpCount + keys.length ≤ 201) :
    multisigArgs (hasFlag flags SCRIPT_VERIFY_MINIMALDATA) nOpCount (operands.stack rest) =
      .ok ⟨keys.length, sigs.length, nOpCount + keys.length⟩ := by
  obtain ⟨bnKeys, hbnKeys, hkeys⟩ := operands.pubkeys
  obtain ⟨bnSigs, hbnSigs, hsigs⟩ := operands.signatures
  have hfew := operands.few
  have hfewer := operands.fewer
  have htop : stacktop (operands.stack rest) 1 = .ok operands.num_of_pubkeys := rfl
  have hbelow : stacktop (operands.stack rest) (2 + keys.length) =
      .ok operands.num_of_signatures := by
    have hsegment := @holds_append [operands.num_of_signatures]
      (operands.num_of_pubkeys :: keys.reverse) (sigs.reverse ++ operands.dummy :: rest)
    rw [List.length_cons, List.length_reverse] at hsegment
    have hindex : 2 + keys.length = keys.length + 1 + 1 := by omega
    rw [hindex]
    exact hsegment.head
  have hlength : (operands.stack rest).length = 3 + keys.length + sigs.length + rest.length := by
    unfold MultisigOperands.stack
    simp only [List.length_cons, List.length_append, List.length_reverse]
    omega
  unfold multisigArgs need
  rw [hlength]
  have hone : ¬ 3 + keys.length + sigs.length + rest.length < 1 := by omega
  have hcount : ¬ ((keys.length : Int) < 0 ∨ 20 < (keys.length : Int)) := by omega
  have hops' : ¬ 201 < nOpCount + keys.length := by omega
  have hroom : ¬ 3 + keys.length + sigs.length + rest.length < 2 + keys.length := by omega
  have hcount' : ¬ ((sigs.length : Int) < 0 ∨ (keys.length : Int) < sigs.length) := by omega
  have hroom' : ¬ 3 + keys.length + sigs.length + rest.length < 3 + keys.length + sigs.length := by
    omega
  simp only [htop, hbnKeys, hkeys, Int.toNat_natCast, hbelow, hbnSigs, hsigs, stopIf, if_neg hone,
    if_neg hcount, if_neg hops', if_neg hroom, if_neg hcount', if_neg hroom', bind, Except.bind,
    pure, Except.pure]

/-- The operands are popped, with the extra element. -/
theorem cleanUp_eq (operands : MultisigOperands flags sigs keys) (fSuccess : Bool) :
    (do let stack ← popN Fault.out_of_range (2 + keys.length + sigs.length) (operands.stack rest)
        need 1 stack
        let dummy ← stacktop stack 1
        stopIf (hasFlag flags SCRIPT_VERIFY_NULLDUMMY ∧ dummy.length ≠ 0)
          (Fault.set_error .SIG_NULLDUMMY)
        let stack ← popstack stack
        verifyTop false .CHECKMULTISIGVERIFY fSuccess (vchOfBool fSuccess :: stack)) =
      .ok (vchOfBool fSuccess :: rest) := by
  have hpopped : popN Fault.out_of_range (2 + keys.length + sigs.length) (operands.stack rest) =
      .ok (operands.dummy :: rest) := by
    have hpop := @popN_append Fault.out_of_range (operands.num_of_pubkeys ::
      (keys.reverse ++ operands.num_of_signatures :: sigs.reverse)) (operands.dummy :: rest)
    have hindex : (operands.num_of_pubkeys ::
        (keys.reverse ++ operands.num_of_signatures :: sigs.reverse)).length =
          2 + keys.length + sigs.length := by
      simp
      omega
    rw [hindex] at hpop
    unfold MultisigOperands.stack
    simpa using hpop
  have hdummy : ¬ (hasFlag flags SCRIPT_VERIFY_NULLDUMMY = true ∧ operands.dummy.length ≠ 0) := by
    rintro ⟨hflag, hlength⟩
    exact hlength (by rw [operands.nullDummy hflag, List.length_nil])
  have htop : stacktop (operands.dummy :: rest) 1 = .ok operands.dummy := rfl
  have hone : ¬ (operands.dummy :: rest).length < 1 := by simp
  have hpop : popstack (operands.dummy :: rest) = .ok rest := rfl
  simp only [hpopped, need, stopIf, htop, if_neg hone, if_neg hdummy, hpop, bind, Except.bind]
  rfl

/-- `OP_CHECKMULTISIG` takes its operands off the stack and pushes whether the scan succeeds. -/
theorem opCHECKMULTISIG_eq {s : Machine} (operands : MultisigOperands flags sigs keys)
    (hstack : s.stack = operands.stack rest) (hops : s.nOpCount + keys.length ≤ 201)
    (hsigEncoding : ∀ sig ∈ sigs, checkSignatureEncoding env flags sig = .ok ())
    (hkeyEncoding : ∀ key ∈ keys, checkPubKeyEncoding flags key = .ok ()) :
    ∃ s', opCHECKMULTISIG (env.withChecker verifies) flags false s = .ok s' ∧
      s'.stack = vchOfBool (greedy
        (fun sig key => verifies ⟨sig, key, signedScript s.codehash sigs⟩)
        sigs.reverse keys.reverse) :: rest := by
  have hkeys : Holds s.stack 2 keys.reverse := by
    rw [hstack]
    exact @holds_append keys.reverse [operands.num_of_pubkeys] _
  have hsigs : Holds s.stack (3 + keys.length) sigs.reverse := by
    have hsegment := @holds_append sigs.reverse
      (operands.num_of_pubkeys :: (keys.reverse ++ [operands.num_of_signatures]))
      (operands.dummy :: rest)
    have hindex : (operands.num_of_pubkeys ::
        (keys.reverse ++ [operands.num_of_signatures])).length + 1 = 3 + keys.length := by
      simp
      omega
    rw [hindex] at hsegment
    rw [hstack]
    unfold MultisigOperands.stack
    simpa using hsegment
  have hargs := @multisigArgs_eq flags rest sigs keys s.nOpCount operands hops
  have hdropped := @dropSignatures_eq s.stack sigs.reverse s.codehash _ hsigs
  rw [List.length_reverse, List.foldl_reverse] at hdropped
  obtain ⟨calls', hloop⟩ := @checkMultisigLoop_eq env verifies flags s.stack sigs.reverse
    keys.reverse (signedScript s.codehash sigs) s.calls (3 + keys.length) 2 hsigs hkeys
    (by simpa using operands.fewer) (fun sig h => hsigEncoding sig (List.mem_reverse.mp h))
    (fun key h => hkeyEncoding key (List.mem_reverse.mp h))
  rw [List.length_reverse, List.length_reverse] at hloop
  rw [← hstack] at hargs
  have hclean := @cleanUp_eq flags rest sigs keys operands (greedy
    (fun sig key => verifies ⟨sig, key, signedScript s.codehash sigs⟩) sigs.reverse keys.reverse)
  rw [← hstack] at hclean
  generalize greedy (fun sig key => verifies ⟨sig, key, signedScript s.codehash sigs⟩)
    sigs.reverse keys.reverse = fSuccess at hloop hclean
  have hdropped' : dropSignatures s.stack (3 + keys.length) sigs.length s.codehash =
      .ok (signedScript s.codehash sigs) := hdropped
  refine ⟨{ s with
    nOpCount := s.nOpCount + keys.length
    calls := calls'
    stack := vchOfBool fSuccess :: rest }, ?_, rfl⟩
  unfold opCHECKMULTISIG
  simp only [hargs, hdropped', Machine.quietly, bind, Except.bind, hloop, Machine.onStack] at hclean ⊢
  rw [hclean]
  rfl

theorem execute_checkmultisig {s : Machine} {pc : Script} :
    execute env flags OP_CHECKMULTISIG pc s = opCHECKMULTISIG env flags false s := rfl

/-- `OP_CHECKMULTISIG` pushes true if and only if the signatures can be assigned to keys in strictly
increasing order so that each of them verifies. -/
theorem checkMultisig_iff (env : ScriptEnv) (verifies : SigCall → Bool) (flags : UInt32) (pc : Script)
    (s : Machine) (sigs keys : List valtype) (operands : MultisigOperands flags sigs keys)
    (rest : Stack) (hstack : s.stack = operands.stack rest) (hops : s.nOpCount + keys.length ≤ 201)
    (hsigEncoding : ∀ sig ∈ sigs, checkSignatureEncoding env flags sig = .ok ())
    (hkeyEncoding : ∀ key ∈ keys, checkPubKeyEncoding flags key = .ok ()) :
    ∃ s' fSuccess, execute (env.withChecker verifies) flags OP_CHECKMULTISIG pc s = .ok s' ∧
      s'.stack = vchOfBool fSuccess :: rest ∧
      (fSuccess = true ↔ ∃ f : Fin sigs.length ↪o Fin keys.length, ∀ i,
        verifies ⟨sigs.get i, keys.get (f i), signedScript s.codehash sigs⟩ = true) := by
  obtain ⟨s', hresult, hpushed⟩ := @opCHECKMULTISIG_eq env verifies flags rest sigs keys s operands
    hstack hops hsigEncoding hkeyEncoding
  refine ⟨s', _, ?_, hpushed, ?_⟩
  · rw [execute_checkmultisig]
    exact hresult
  · rw [greedy_iff, sublistForall₂_reverse, sublistForall₂_iff_exists_orderEmbedding]

end

/-- One signature for two keys. -/
def oneOfTwo : MultisigOperands SCRIPT_VERIFY_NULLDUMMY [[1]] [[7], [8]] where
  num_of_pubkeys := [2]
  num_of_signatures := [1]
  dummy := []
  pubkeys := ⟨2, rfl, rfl⟩
  signatures := ⟨1, rfl, rfl⟩
  nullDummy := fun _ => rfl
  few := by decide
  fewer := by decide

/-- All digests are the same, and no signature is taken. -/
def plainScripts : ScriptEnv where
  hashes := ⟨fun _ => .replicate 20 0, fun _ => .replicate 20 0, fun _ => .replicate 32 0,
    fun _ => .replicate 20 0, fun _ => .replicate 32 0⟩
  checkSignatureElement := fun _ => false
  checkSig := fun _ => false

theorem checkMultisig_oneOfTwo : ∃ s' fSuccess,
    execute (plainScripts.withChecker fun call => call.vchPubKey == [8]) SCRIPT_VERIFY_NULLDUMMY
      OP_CHECKMULTISIG [] (Machine.start [[2], [8], [7], [1], [1], []] []) = .ok s' ∧
    s'.stack = [vchOfBool fSuccess] ∧
    (fSuccess = true ↔ ∃ f : Fin 1 ↪o Fin 2, ∀ i, [[(7 : UInt8)], [8]].get (f i) == [8]) :=
  checkMultisig_iff plainScripts _ _ _ _ _ _ oneOfTwo [] rfl (by decide) (by decide) (by decide)

end Lytix
