import Lytix.Lib.BoundedLoops
import Lytix.Script.ScriptNum

/-! Scripts that are built with `operator<<` and read with `GetOp`, access by access. -/
namespace Lytix

open BoundedLoops

namespace Script

def OP_INVALIDOPCODE : UInt8 := 0xff

/-- `end() - pc`. -/
def left (script : Script) (pc : ℕ) : Int := script.length - pc

/-- The bytes from `pc` to `pc + n`. -/
def copy (script : Script) (pc n : ℕ) : Except Fault (List UInt8) :=
  if pc + n ≤ script.length then .ok ((script.drop pc).take n) else .error .out_of_range

/-- What a call of `GetOp` leaves in its arguments and returns. -/
structure Got where
  fRet : Bool
  pc : ℕ
  opcodeRet : UInt8
  vchRet : List UInt8
deriving DecidableEq

/-- `return false`. -/
def Got.failed (pc : ℕ) : Got := ⟨false, pc, OP_INVALIDOPCODE, []⟩

/-- The bytes of `nSize`, and the position behind them; no size where they are cut off. -/
def readSize (script : Script) (nBytes pc : ℕ) : Except Fault (Option ℕ × ℕ) :=
  if script.left pc < nBytes then .ok (none, pc)
  else do
    let bytes ← script.copy pc nBytes
    return (some (LittleEndian.value bytes), pc + nBytes)

/-- The size of the immediate operand. -/
def operandSize (script : Script) (opcode : UInt8) (pc : ℕ) : Except Fault (Option ℕ × ℕ) :=
  if opcode < OP_PUSHDATA1 then .ok (some opcode.toNat, pc)
  else if opcode = OP_PUSHDATA1 then script.readSize 1 pc
  else if opcode = OP_PUSHDATA2 then script.readSize 2 pc
  else if opcode = OP_PUSHDATA4 then script.readSize 4 pc
  else .ok (some 0, pc)

/-- The immediate operand. What is left is compared as an `unsigned int`. -/
def getOperand (script : Script) (opcode : UInt8) (size : Option ℕ × ℕ) : Except Fault Got :=
  match size with
  | (none, pc) => .ok (.failed pc)
  | (some nSize, pc) =>
    if script.left pc < 0 ∨ (script.left pc).toNat % 2 ^ 32 < nSize then .ok (.failed pc)
    else do
      let vchRet ← script.copy pc nSize
      return ⟨true, pc + nSize, opcode, vchRet⟩

/-- `GetOp2`. -/
def getOp2 (script : Script) (pc : ℕ) : Except Fault Got :=
  if script.length ≤ pc then .ok (.failed pc)
  else if script.left pc < 1 then .ok (.failed pc)
  else
    match script[pc]? with
    | none => .error .out_of_range
    | some opcode =>
      if opcode ≤ OP_PUSHDATA4 then do
        let size ← script.operandSize opcode (pc + 1)
        script.getOperand opcode size
      else .ok ⟨true, pc + 1, opcode, []⟩

/-- `while (GetOp(pc, opcode, vch))`, with the operations that were read and where it ends. -/
def iterate (script : Script) : ℕ → ℕ → Option (Except Fault (List ScriptOp × ℕ))
  | 0, _ => none
  | fuel + 1, pc =>
    match script.getOp2 pc with
    | .error fault => some (.error fault)
    | .ok got =>
      if got.fRet then
        (iterate script fuel got.pc).map fun result => do
          let (ops, pc) ← result
          return ((got.opcodeRet, got.vchRet) :: ops, pc)
      else some (.ok ([], got.pc))

/-- What `operator<<` takes. -/
inductive Item where
  | op (opcode : Int)
  | int64 (n : Int64)
  | bytes (b : List UInt8)

/-- `push_int64`. -/
def push_int64 (script : Script) (n : Int64) : Script :=
  if n = -1 ∨ 1 ≤ n ∧ n ≤ 16 then script ++ [(n + (Int64.ofNat OP_1.toNat - 1)).toUInt64.toUInt8]
  else if n = 0 then script ++ [OP_0]
  else script ++ push (CScriptNum.serializeInt64 n)

/-- `operator<<`. -/
def append (script : Script) : Item → Except String Script
  | .op opcode =>
    if opcode < 0 ∨ 0xff < opcode then .error "CScript::operator<<() : invalid opcode"
    else .ok (script ++ [UInt8.ofNat opcode.toNat])
  | .int64 n => .ok (script.push_int64 n)
  | .bytes b => .ok (script ++ push b)

/-- A script that starts empty. -/
def build (items : List Item) : Except String Script := items.foldlM append []

variable {script pre tail : Script} {pc nBytes : ℕ}

/-- A result whose position is in the script, not before `pc`. -/
def Within (script : Script) (pc : ℕ) (got : Got) : Prop := pc ≤ got.pc ∧ got.pc ≤ script.length

theorem copy_of_left {n : ℕ} (h : (n : Int) ≤ script.left pc) :
    script.copy pc n = .ok ((script.drop pc).take n) := by
  unfold left at h
  unfold copy
  rw [if_pos (by omega)]

theorem readSize_within (hpc : pc ≤ script.length) :
    ∃ size, script.readSize nBytes pc = .ok size ∧ pc ≤ size.2 ∧ size.2 ≤ script.length := by
  unfold readSize
  split_ifs with hcut
  · exact ⟨_, rfl, le_rfl, hpc⟩
  · rw [copy_of_left (not_lt.mp hcut)]
    unfold left at hcut
    exact ⟨_, rfl, Nat.le_add_right _ _, by omega⟩

theorem operandSize_within (opcode : UInt8) (hpc : pc ≤ script.length) :
    ∃ size, script.operandSize opcode pc = .ok size ∧ pc ≤ size.2 ∧ size.2 ≤ script.length := by
  unfold operandSize
  split_ifs
  · exact ⟨_, rfl, le_rfl, hpc⟩
  · exact readSize_within hpc
  · exact readSize_within hpc
  · exact readSize_within hpc
  · exact ⟨_, rfl, le_rfl, hpc⟩

theorem getOperand_within (opcode : UInt8) (nSize : Option ℕ) (hpc : pc ≤ script.length) :
    ∃ got, script.getOperand opcode (nSize, pc) = .ok got ∧ Within script pc got := by
  unfold getOperand
  cases nSize with
  | none => exact ⟨_, rfl, le_rfl, hpc⟩
  | some nSize =>
    simp only
    split_ifs with hcut
    · exact ⟨_, rfl, le_rfl, hpc⟩
    · -- the size fits what is left of it in 32 bits, so it fits what is left
      have hfits : (nSize : Int) ≤ script.left pc := by omega
      rw [copy_of_left hfits]
      unfold left at hfits
      exact ⟨_, rfl, Nat.le_add_right _ _, by simp only; omega⟩

/-- No access of `GetOp` is past the end, and it moves on where it returns true. -/
theorem getOp2_within (hpc : pc ≤ script.length) :
    ∃ got, script.getOp2 pc = .ok got ∧ Within script pc got ∧ (got.fRet = true → pc < got.pc) := by
  unfold getOp2
  split_ifs with hend hcut
  · exact ⟨_, rfl, ⟨le_rfl, hpc⟩, by simp [Got.failed]⟩
  · exact ⟨_, rfl, ⟨le_rfl, hpc⟩, by simp [Got.failed]⟩
  · have hlt : pc < script.length := not_le.mp hend
    rw [List.getElem?_eq_getElem hlt]
    simp only
    split_ifs with himmediate
    · obtain ⟨⟨nSize, pc'⟩, hsize, hafter, hwithin⟩ := operandSize_within script[pc] hlt
      obtain ⟨got, hgot, hmoved, hinside⟩ := getOperand_within script[pc] nSize hwithin
      rw [hsize]
      exact ⟨got, hgot, ⟨by omega, hinside⟩, fun _ => by omega⟩
    · exact ⟨_, rfl, ⟨Nat.le_succ pc, hlt⟩, fun _ => Nat.lt_succ_self pc⟩

theorem iterate_of_false {got : Got} (hgot : script.getOp2 pc = .ok got)
    (hret : got.fRet = false) :
    Returns (fun fuel => script.iterate fuel pc) (.ok ([], got.pc)) := by
  refine ⟨1, ?_⟩
  intro fuel hfuel
  obtain ⟨rest, rfl⟩ := Nat.exists_eq_add_of_le' hfuel
  simp [iterate, hgot, hret]

theorem iterate_of_true {got : Got} {ops : List ScriptOp} {last : ℕ}
    (hgot : script.getOp2 pc = .ok got) (hret : got.fRet = true)
    (hnext : Returns (fun fuel => script.iterate fuel got.pc) (.ok (ops, last))) :
    Returns (fun fuel => script.iterate fuel pc)
      (.ok ((got.opcodeRet, got.vchRet) :: ops, last)) := by
  obtain ⟨enough, hreturns⟩ := hnext
  refine ⟨enough + 1, ?_⟩
  intro fuel hfuel
  obtain ⟨rest, rfl⟩ := Nat.exists_eq_add_of_le' ((Nat.le_add_left 1 enough).trans hfuel)
  have hrest := hreturns rest (Nat.le_of_succ_le_succ hfuel)
  simp only [iterate, hgot, hret, if_true, hrest]
  rfl

theorem iterate_returns (hpc : pc ≤ script.length) :
    ∃ ops last, last ≤ script.length ∧
      Returns (fun fuel => script.iterate fuel pc) (.ok (ops, last)) := by
  induction hleft : script.length - pc using Nat.strong_induction_on generalizing pc with
  | _ n ih =>
    obtain ⟨got, hgot, ⟨_, hinside⟩, hmoves⟩ := getOp2_within hpc
    cases hret : got.fRet with
    | false => exact ⟨[], got.pc, hinside, iterate_of_false hgot hret⟩
    | true =>
      have hmoved := hmoves hret
      obtain ⟨ops, last, hlast, hreturns⟩ := ih _ (by omega) hinside rfl
      exact ⟨_, last, hlast, iterate_of_true hgot hret hreturns⟩

/-! What is written. -/

/-- The operations that a script is built of. -/
inductive Element where
  | op (opcode : UInt8)
  | push (b : List UInt8)

def Element.code : Element → Script
  | .op opcode => [opcode]
  | .push b => Script.push b

/-- The opcode in front of an operand of `n` bytes. -/
def pushOpcode (n : ℕ) : UInt8 :=
  if n < OP_PUSHDATA1.toNat then UInt8.ofNat n
  else if n ≤ 0xff then OP_PUSHDATA1
  else if n ≤ 0xffff then OP_PUSHDATA2
  else OP_PUSHDATA4

/-- The bytes of the size behind the opcode. -/
def sizeBytes (n : ℕ) : ℕ :=
  if n < OP_PUSHDATA1.toNat then 0 else if n ≤ 0xff then 1 else if n ≤ 0xffff then 2 else 4

def Element.data : Element → List UInt8
  | .op _ => []
  | .push b => b

/-- The opcode and the data that are read back. -/
def Element.got : Element → ScriptOp
  | .op opcode => (opcode, [])
  | .push b => (pushOpcode b.length, b)

def code (elements : List Element) : Script := elements.flatMap Element.code

def Item.element : Item → Element
  | .op opcode => .op (UInt8.ofNat opcode.toNat)
  | .int64 n =>
    if n = -1 ∨ 1 ≤ n ∧ n ≤ 16 then .op (n + (Int64.ofNat OP_1.toNat - 1)).toUInt64.toUInt8
    else if n = 0 then .push []
    else .push (CScriptNum.serializeInt64 n)
  | .bytes b => .push b

/-- A non-push opcode, an integer other than the minimum, or bytes whose length has 32 bits. -/
def Item.Valid : Item → Prop
  | .op opcode => (OP_PUSHDATA4.toNat : Int) < opcode ∧ opcode ≤ 0xff
  | .int64 n => n ≠ Int64.minValue
  | .bytes b => b.length < 2 ^ 32

/-- An element that is read back wherever it stands in a short script. -/
def Element.Valid : Element → Prop
  | .op opcode => OP_PUSHDATA4 < opcode
  | .push b => b.length < 2 ^ 32

theorem append_eq {item : Item} (h : item.Valid) :
    append script item = .ok (script ++ item.element.code) := by
  cases item with
  | op opcode =>
    have hdata : (0 : Int) ≤ OP_PUSHDATA4.toNat := Int.natCast_nonneg _
    obtain ⟨hlow, hhigh⟩ := h
    simp only [append, Item.element, Element.code]
    rw [if_neg (by omega)]
  | int64 n =>
    simp only [append, push_int64, Item.element]
    split_ifs <;> rfl
  | bytes b => rfl

theorem build_eq {items : List Item} (h : ∀ item ∈ items, item.Valid) :
    build items = .ok (code (items.map Item.element)) := by
  have hfrom (script : Script) : items.foldlM append script =
      .ok (script ++ code (items.map Item.element)) := by
    induction items generalizing script with
    | nil => simp [code, pure, Except.pure]
    | cons item items ih =>
      have hrest := ih (fun item hitem => h item (List.mem_cons_of_mem _ hitem))
        (script ++ item.element.code)
      rw [List.foldlM_cons, append_eq (h item List.mem_cons_self)]
      simpa [code, bind, Except.bind] using hrest
  exact hfrom []

/-- The small integers have opcodes of their own. -/
theorem small_int_opcode {n : Int64} (h : n = -1 ∨ 1 ≤ n ∧ n ≤ 16) :
    OP_PUSHDATA4 < (n + (Int64.ofNat OP_1.toNat - 1)).toUInt64.toUInt8 := by
  rcases h with rfl | ⟨hlow, hhigh⟩
  · decide
  · have hone : (1 : Int64).toInt = 1 := by decide
    have hsixteen : (16 : Int64).toInt = 16 := by decide
    rw [Int64.le_iff_toInt_le, hone] at hlow
    rw [Int64.le_iff_toInt_le, hsixteen] at hhigh
    have hn : Int64.ofInt n.toInt = n := Int64.ofInt_toInt n
    generalize n.toInt = k at hlow hhigh hn
    subst hn
    interval_cases k <;> decide

theorem element_valid {item : Item} (h : item.Valid) : item.element.Valid := by
  cases item with
  | op opcode =>
    obtain ⟨hlow, hhigh⟩ := h
    have hdata : OP_PUSHDATA4.toNat = 0x4e := by decide
    rw [hdata] at hlow
    have hbyte : (UInt8.ofNat opcode.toNat).toNat = opcode.toNat := by
      rw [UInt8.toNat_ofNat']
      omega
    simp only [Item.element, Element.Valid]
    rw [UInt8.lt_iff_toNat_lt, hbyte, hdata]
    omega
  | int64 n =>
    simp only [Item.element]
    split_ifs with hsmall hzero
    · exact small_int_opcode hsmall
    · exact Nat.two_pow_pos 32
    · have hlength := CScriptNum.length_serializeInt64 h
      simp only [Element.Valid]
      omega
  | bytes b => exact h

theorem push_eq (b : List UInt8) : push b =
    pushOpcode b.length :: (LittleEndian.bytes (sizeBytes b.length) b.length ++ b) := by
  unfold push pushOpcode sizeBytes
  by_cases hdirect : b.length < OP_PUSHDATA1.toNat
  · simp only [if_pos hdirect]
    rfl
  · by_cases hone : b.length ≤ 0xff
    · simp only [if_neg hdirect, if_pos hone]
      simp [LittleEndian.bytes]
    · by_cases htwo : b.length ≤ 0xffff
      · simp only [if_neg hdirect, if_neg hone, if_pos htwo]
        simp [LittleEndian.bytes, List.range_succ]
      · simp only [if_neg hdirect, if_neg hone, if_neg htwo]
        simp [LittleEndian.bytes, List.range_succ]

theorem length_push (b : List UInt8) :
    (push b).length = b.length + sizeBytes b.length + 1 := by
  rw [push_eq, List.length_cons, List.length_append, LittleEndian.length_bytes, add_comm b.length]

/-! What is read back. -/

theorem left_append : (pre ++ tail).left pre.length = tail.length := by
  unfold left
  rw [List.length_append]
  omega

theorem copy_append (middle : List UInt8) :
    (pre ++ (middle ++ tail)).copy pre.length middle.length = .ok middle := by
  rw [copy_of_left (by rw [left_append, List.length_append]; omega)]
  simp

/-- The bytes of a size that they have room for. -/
theorem readSize_append {n : ℕ} (hn : n < 256 ^ nBytes) :
    (pre ++ (LittleEndian.bytes nBytes n ++ tail)).readSize nBytes pre.length =
      .ok (some n, pre.length + nBytes) := by
  have hcopy := @copy_append pre tail (LittleEndian.bytes nBytes n)
  rw [LittleEndian.length_bytes] at hcopy
  unfold readSize
  rw [left_append, List.length_append, LittleEndian.length_bytes, if_neg (by omega), hcopy]
  simp [bind, Except.bind, pure, Except.pure, LittleEndian.value_bytes, Nat.mod_eq_of_lt hn]

theorem operandSize_push {n : ℕ} (hn : n < 2 ^ 32) :
    (pre ++ (LittleEndian.bytes (sizeBytes n) n ++ tail)).operandSize (pushOpcode n) pre.length =
      .ok (some n, pre.length + sizeBytes n) := by
  have hdata : OP_PUSHDATA1.toNat = 0x4c := by decide
  unfold operandSize pushOpcode sizeBytes
  by_cases hdirect : n < OP_PUSHDATA1.toNat
  · have hbyte : (UInt8.ofNat n).toNat = n := by
      rw [UInt8.toNat_ofNat']
      omega
    have hopcode : UInt8.ofNat n < OP_PUSHDATA1 := by rwa [UInt8.lt_iff_toNat_lt, hbyte]
    simp only [if_pos hdirect, if_pos hopcode, hbyte, Nat.add_zero]
  · by_cases hone : n ≤ 0xff
    · simp only [if_neg hdirect, if_pos hone]
      rw [if_neg (by decide), if_pos trivial]
      exact readSize_append (by omega)
    · by_cases htwo : n ≤ 0xffff
      · simp only [if_neg hdirect, if_neg hone, if_pos htwo]
        rw [if_neg (by decide), if_neg (by decide), if_pos trivial]
        exact readSize_append (by omega)
      · simp only [if_neg hdirect, if_neg hone, if_neg htwo]
        rw [if_neg (by decide), if_neg (by decide), if_neg (by decide), if_pos trivial]
        exact readSize_append (by omega)

theorem pushOpcode_le {n : ℕ} : pushOpcode n ≤ OP_PUSHDATA4 := by
  have hdata : OP_PUSHDATA1.toNat = 0x4c := by decide
  have hlast : OP_PUSHDATA4.toNat = 0x4e := by decide
  unfold pushOpcode
  split_ifs with hdirect
  · rw [UInt8.le_iff_toNat_le, UInt8.toNat_ofNat', hlast]
    omega
  · decide
  · decide
  · decide

set_option maxRecDepth 4000 in
theorem immediate_opcode : ∀ opcode : UInt8,
    opcode = OP_PUSHDATA1 ∨ opcode = OP_PUSHDATA2 ∨ opcode = OP_PUSHDATA4 →
      opcode ≤ OP_PUSHDATA4 :=
  forall_byte (by decide)

set_option maxRecDepth 4000 in
theorem plain_opcode : ∀ opcode : UInt8, ¬ opcode < OP_PUSHDATA1 → opcode ≠ OP_PUSHDATA1 →
    opcode ≠ OP_PUSHDATA2 → opcode ≠ OP_PUSHDATA4 → ¬ opcode ≤ OP_PUSHDATA4 :=
  forall_byte (by decide)

/-- `GetOp` at an opcode that has bytes behind it. -/
theorem getOp2_append (opcode : UInt8) :
    (pre ++ opcode :: tail).getOp2 pre.length =
      if opcode ≤ OP_PUSHDATA4 then
        ((pre ++ opcode :: tail).operandSize opcode (pre.length + 1)).bind
          ((pre ++ opcode :: tail).getOperand opcode)
      else .ok ⟨true, pre.length + 1, opcode, []⟩ := by
  have hbyte : (pre ++ opcode :: tail)[pre.length]? = some opcode := by simp
  have hleft := @left_append pre (opcode :: tail)
  rw [List.length_cons] at hleft
  unfold getOp2
  rw [hleft, hbyte, if_neg (by simp), if_neg (by omega)]
  rfl

theorem getOperand_append (opcode : UInt8) (b : List UInt8) :
    (pre ++ (b ++ tail)).getOperand opcode (some b.length, pre.length) =
      .ok (if (b.length + tail.length) % 2 ^ 32 < b.length then .failed pre.length
        else ⟨true, pre.length + b.length, opcode, b⟩) := by
  have hleft := @left_append pre (b ++ tail)
  rw [List.length_append] at hleft
  unfold getOperand
  simp only [hleft, Int.toNat_natCast, copy_append]
  split_ifs with hcut hfits hfits
  · rfl
  · omega
  · omega
  · rfl

theorem getOp2_push {b : List UInt8} (hb : b.length < 2 ^ 32) :
    (pre ++ (push b ++ tail)).getOp2 pre.length =
      .ok (if (b.length + tail.length) % 2 ^ 32 < b.length then
          .failed (pre.length + 1 + sizeBytes b.length)
        else ⟨true, (pre ++ push b).length, pushOpcode b.length, b⟩) := by
  let opcode := pushOpcode b.length
  let size := LittleEndian.bytes (sizeBytes b.length) b.length
  have hwhole : pre ++ (push b ++ tail) = pre ++ opcode :: (size ++ (b ++ tail)) := by
    simp [push_eq, opcode, size]
  have hafterOpcode : pre ++ opcode :: (size ++ (b ++ tail)) =
      (pre ++ [opcode]) ++ (size ++ (b ++ tail)) := by simp
  have hafterSize : pre ++ opcode :: (size ++ (b ++ tail)) =
      (pre ++ opcode :: size) ++ (b ++ tail) := by simp
  have hoperandSize := @operandSize_push (pre ++ [opcode]) (b ++ tail) b.length hb
  have hoperand := @getOperand_append (pre ++ opcode :: size) tail opcode b
  have hlength : (pre ++ opcode :: size).length = pre.length + 1 + sizeBytes b.length := by
    rw [List.length_append, List.length_cons, LittleEndian.length_bytes]
    omega
  have hend : (pre ++ push b).length = pre.length + 1 + sizeBytes b.length + b.length := by
    rw [List.length_append, length_push]
    omega
  rw [← hafterOpcode, List.length_append, List.length_singleton] at hoperandSize
  rw [← hafterSize, hlength] at hoperand
  rw [hwhole, getOp2_append, if_pos pushOpcode_le, hoperandSize, hend]
  exact hoperand

/-- What `takeOp` gives is what `GetOp` reads. -/
def Agrees (script : Script) (taken : Option (ScriptOp × Script)) (got : Except Fault Got) : Prop :=
  match taken with
  | none => ∃ pc, got = .ok (.failed pc)
  | some (op, rest) => got = .ok ⟨true, script.length - rest.length, op.1, op.2⟩

theorem agrees_getOperand {size : List UInt8} (opcode : UInt8) (nSize : ℕ)
    (hshort : (pre ++ (size ++ tail)).length < 2 ^ 32) :
    Agrees (pre ++ (size ++ tail)) (takeOperand opcode nSize tail)
      ((pre ++ (size ++ tail)).getOperand opcode (some nSize, pre.length + size.length)) := by
  have hwhole : pre ++ (size ++ tail) = (pre ++ size) ++ (tail.take nSize ++ tail.drop nSize) := by
    simp
  unfold takeOperand
  split_ifs with hcut
  · have hleft := @left_append (pre ++ size) tail
    rw [List.append_assoc, List.length_append] at hleft
    refine ⟨pre.length + size.length, ?_⟩
    unfold getOperand
    simp only [hleft, Int.toNat_natCast]
    rw [if_pos (Or.inr (lt_of_le_of_lt (Nat.mod_le _ _) hcut))]
  · have hn : (tail.take nSize).length = nSize := by
      rw [List.length_take]
      omega
    have hall : (tail.take nSize).length + (tail.drop nSize).length = tail.length := by
      rw [← List.length_append, List.take_append_drop]
    have hread := @getOperand_append (pre ++ size) (tail.drop nSize) opcode (tail.take nSize)
    have htail : tail.length < 2 ^ 32 := by
      simp only [List.length_append] at hshort
      omega
    rw [← hwhole, hall, Nat.mod_eq_of_lt htail, if_neg (by omega), hn, List.length_append] at hread
    unfold Agrees
    simp only [List.length_append] at hall ⊢
    rw [hread]
    congr 2
    omega

/-- The size is read from as many bytes as it needs, or cut off. -/
theorem agrees_readSize (opcode : UInt8) (nBytes : ℕ) (hshort : (pre ++ tail).length < 2 ^ 32) :
    Agrees (pre ++ tail)
      (if tail.length < nBytes then none
        else takeOperand opcode (LittleEndian.value (tail.take nBytes)) (tail.drop nBytes))
      (((pre ++ tail).readSize nBytes pre.length).bind ((pre ++ tail).getOperand opcode)) := by
  unfold readSize
  rw [left_append]
  split_ifs with hcut hfits hfits
  · exact ⟨pre.length, rfl⟩
  · omega
  · omega
  · have hsplit : tail = tail.take nBytes ++ tail.drop nBytes := (List.take_append_drop _ _).symm
    have hlength : (tail.take nBytes).length = nBytes := by
      rw [List.length_take]
      omega
    have hcopy : (pre ++ tail).copy pre.length nBytes = .ok (tail.take nBytes) := by
      have hmiddle := @copy_append pre (tail.drop nBytes) (tail.take nBytes)
      rwa [← hsplit, hlength] at hmiddle
    have hoperand := @agrees_getOperand pre (tail.drop nBytes) (tail.take nBytes) opcode
      (LittleEndian.value (tail.take nBytes)) (by rwa [← hsplit])
    rw [← hsplit, hlength] at hoperand
    rw [hcopy]
    exact hoperand

theorem takeOp_cons (opcode : UInt8) (tail : Script) : takeOp (opcode :: tail) =
    if opcode < OP_PUSHDATA1 then takeOperand opcode opcode.toNat tail
    else if opcode = OP_PUSHDATA1 then
      if tail.length < 1 then none
      else takeOperand opcode (LittleEndian.value (tail.take 1)) (tail.drop 1)
    else if opcode = OP_PUSHDATA2 then
      if tail.length < 2 then none
      else takeOperand opcode (LittleEndian.value (tail.take 2)) (tail.drop 2)
    else if opcode = OP_PUSHDATA4 then
      if tail.length < 4 then none
      else takeOperand opcode (LittleEndian.value (tail.take 4)) (tail.drop 4)
    else some ((opcode, []), tail) := by
  rw [takeOp.eq_def]
  dsimp only
  split_ifs with hdirect hone hnone htwo hnone hfour hnone
  · rfl
  · rcases tail with _ | ⟨n₀, tail⟩
    · rfl
    · simp at hnone
  · rcases tail with _ | ⟨n₀, tail⟩
    · simp at hnone
    · simp [LittleEndian.value_cons, LittleEndian.value_nil]
  · rcases tail with _ | ⟨n₀, _ | ⟨n₁, tail⟩⟩
    · rfl
    · rfl
    · simp at hnone
  · rcases tail with _ | ⟨n₀, _ | ⟨n₁, tail⟩⟩
    · simp at hnone
    · simp at hnone
    · simp [LittleEndian.value_cons, LittleEndian.value_nil]
  · rcases tail with _ | ⟨n₀, _ | ⟨n₁, _ | ⟨n₂, _ | ⟨n₃, tail⟩⟩⟩⟩
    · rfl
    · rfl
    · rfl
    · rfl
    · simp only [List.length_cons] at hnone
      omega
  · rcases tail with _ | ⟨n₀, _ | ⟨n₁, _ | ⟨n₂, _ | ⟨n₃, tail⟩⟩⟩⟩
    · simp at hnone
    · simp at hnone
    · simp at hnone
    · simp at hnone
    · have hvalue : LittleEndian.value [n₀, n₁, n₂, n₃] =
          n₀.toNat + 2 ^ 8 * n₁.toNat + 2 ^ 16 * n₂.toNat + 2 ^ 24 * n₃.toNat := by
        simp only [LittleEndian.value_cons, LittleEndian.value_nil]
        ring
      simp [hvalue]
  · rfl

/-- `GetOp` of a script of less than `2 ^ 32` bytes is the reader of the solver and the
interpreter. -/
theorem getOp2_agrees (hshort : (pre ++ tail).length < 2 ^ 32) :
    Agrees (pre ++ tail) tail.takeOp ((pre ++ tail).getOp2 pre.length) := by
  cases tail with
  | nil => exact ⟨pre.length, by simp [getOp2]⟩
  | cons opcode tail =>
    have hwhole : pre ++ opcode :: tail = (pre ++ [opcode]) ++ tail := by simp
    have hpc : pre.length + 1 = (pre ++ [opcode]).length := by simp
    rw [getOp2_append, takeOp_cons, hpc]
    rw [hwhole] at hshort ⊢
    generalize pre ++ [opcode] = pre at hshort ⊢
    unfold operandSize
    by_cases hdirect : opcode < OP_PUSHDATA1
    · have himmediate : opcode ≤ OP_PUSHDATA4 :=
        UInt8.le_trans (UInt8.le_of_lt hdirect) (by decide)
      rw [if_pos himmediate, if_pos hdirect, if_pos hdirect]
      exact @agrees_getOperand pre tail [] opcode opcode.toNat hshort
    · rw [if_neg hdirect, if_neg hdirect]
      by_cases hone : opcode = OP_PUSHDATA1
      · rw [if_pos hone, if_pos hone, if_pos (immediate_opcode opcode (by simp [hone]))]
        exact agrees_readSize opcode 1 hshort
      · rw [if_neg hone, if_neg hone]
        by_cases htwo : opcode = OP_PUSHDATA2
        · rw [if_pos htwo, if_pos htwo, if_pos (immediate_opcode opcode (by simp [htwo]))]
          exact agrees_readSize opcode 2 hshort
        · rw [if_neg htwo, if_neg htwo]
          by_cases hfour : opcode = OP_PUSHDATA4
          · rw [if_pos hfour, if_pos hfour, if_pos (immediate_opcode opcode (by simp [hfour]))]
            exact agrees_readSize opcode 4 hshort
          · have hplain : ¬ opcode ≤ OP_PUSHDATA4 :=
              plain_opcode opcode hdirect hone htwo hfour
            rw [if_neg hfour, if_neg hplain]
            unfold Agrees
            simp

/-- An element in front of `tail` is read back where the test in 32 bits lets it. -/
theorem getOp2_element {element : Element} (h : element.Valid)
    (hfits : element.data.length ≤ (element.data.length + tail.length) % 2 ^ 32) :
    (pre ++ (element.code ++ tail)).getOp2 pre.length =
      .ok ⟨true, (pre ++ element.code).length, element.got.1, element.got.2⟩ := by
  cases element with
  | op opcode =>
    have hpush : ¬ opcode ≤ OP_PUSHDATA4 := UInt8.not_le.mpr h
    have hone := @getOp2_append pre tail opcode
    rw [if_neg hpush] at hone
    simpa [Element.code, Element.got] using hone
  | push b =>
    have hroom : b.length ≤ (b.length + tail.length) % 2 ^ 32 := hfits
    have hread := @getOp2_push pre tail b h
    rw [if_neg (not_lt.mpr hroom)] at hread
    exact hread

/-- No opcode is cut off, so what is not read back is a push. -/
theorem getOp2_cut {element : Element} (h : element.Valid)
    (hcut : ¬ element.data.length ≤ (element.data.length + tail.length) % 2 ^ 32) :
    ∃ pc, (pre ++ (element.code ++ tail)).getOp2 pre.length = .ok (.failed pc) := by
  cases element with
  | op opcode => exact absurd (Nat.zero_le _) hcut
  | push b =>
    have hless : ¬ b.length ≤ (b.length + tail.length) % 2 ^ 32 := hcut
    have hread := @getOp2_push pre tail b h
    rw [if_pos (not_le.mp hless)] at hread
    exact ⟨_, hread⟩

/-- What is left from each operand on, in 32 bits, is no less than the operand. -/
def Fits : List Element → Prop
  | [] => True
  | element :: rest =>
    element.data.length ≤ (element.data.length + (code rest).length) % 2 ^ 32 ∧ Fits rest

theorem code_cons (element : Element) (rest : List Element) :
    code (element :: rest) = element.code ++ code rest := List.flatMap_cons

theorem iterate_of_fits {elements : List Element} (hvalid : ∀ e ∈ elements, e.Valid)
    (hfits : Fits elements) :
    Returns (fun fuel => (pre ++ code elements).iterate fuel pre.length)
      (.ok (elements.map Element.got, (pre ++ code elements).length)) := by
  induction elements generalizing pre with
  | nil =>
    have hend : (pre ++ code []).getOp2 pre.length = .ok (.failed pre.length) := by
      simp [code, getOp2]
    have hlength : (pre ++ code []).length = pre.length := by simp [code]
    rw [hlength]
    exact iterate_of_false hend rfl
  | cons element rest ih =>
    obtain ⟨hfirst, hrest⟩ := hfits
    have hgot := @getOp2_element pre (code rest) element (hvalid element List.mem_cons_self) hfirst
    have hlater := @ih (pre ++ element.code)
      (fun e he => hvalid e (List.mem_cons_of_mem _ he)) hrest
    rw [List.append_assoc, ← code_cons] at hlater
    rw [← code_cons] at hgot
    exact iterate_of_true hgot rfl hlater

theorem iterate_of_not_fits {elements : List Element} (hvalid : ∀ e ∈ elements, e.Valid)
    (hfits : ¬ Fits elements) :
    ∃ ops last, Returns (fun fuel => (pre ++ code elements).iterate fuel pre.length)
      (.ok (ops, last)) ∧ ops.length < elements.length := by
  induction elements generalizing pre with
  | nil => exact absurd trivial hfits
  | cons element rest ih =>
    have helement := hvalid element List.mem_cons_self
    by_cases hfirst :
        element.data.length ≤ (element.data.length + (code rest).length) % 2 ^ 32
    · have hgot := @getOp2_element pre (code rest) element helement hfirst
      obtain ⟨ops, last, hlater, hless⟩ := @ih (pre ++ element.code)
        (fun e he => hvalid e (List.mem_cons_of_mem _ he)) fun hrest => hfits ⟨hfirst, hrest⟩
      rw [List.append_assoc, ← code_cons] at hlater
      rw [← code_cons] at hgot
      exact ⟨_, last, iterate_of_true hgot rfl hlater, Nat.succ_lt_succ hless⟩
    · obtain ⟨pc, hgot⟩ := @getOp2_cut pre (code rest) element helement hfirst
      rw [← code_cons] at hgot
      exact ⟨[], pc, iterate_of_false hgot rfl, Nat.succ_pos _⟩

/-- Iterating `GetOp` gives back what was appended, and then the end. -/
def ReadsBack (items : List Item) : Prop :=
  ∃ script, build items = .ok script ∧
    Returns (fun fuel => script.iterate fuel 0)
      (.ok (items.map fun item => item.element.got, script.length))

theorem readsBack_iff {items : List Item} (h : ∀ item ∈ items, item.Valid) :
    ReadsBack items ↔ Fits (items.map Item.element) := by
  have hvalid : ∀ e ∈ items.map Item.element, e.Valid := by
    intro e he
    obtain ⟨item, hitem, rfl⟩ := List.mem_map.mp he
    exact element_valid (h item hitem)
  constructor
  · rintro ⟨script, hbuild, hreturns⟩
    rw [build_eq h] at hbuild
    cases hbuild
    by_contra hfits
    obtain ⟨ops, last, hless, hshort⟩ := @iterate_of_not_fits [] _ hvalid hfits
    have hsame := hreturns.unique hless
    rw [Except.ok.injEq, Prod.mk.injEq] at hsame
    rw [← hsame.1, List.length_map, List.length_map] at hshort
    exact lt_irrefl _ hshort
  · intro hfits
    have hread := @iterate_of_fits [] _ hvalid hfits
    rw [List.map_map] at hread
    exact ⟨_, build_eq h, hread⟩

/-- A script of less than `2 ^ 32` bytes has no element that is cut off. -/
theorem fits_of_length {elements : List Element} (h : (code elements).length < 2 ^ 32) :
    Fits elements := by
  induction elements with
  | nil => trivial
  | cons element rest ih =>
    have hdata : element.data.length ≤ element.code.length := by
      cases element with
      | op opcode => exact Nat.zero_le _
      | push b =>
        rw [Element.data, Element.code, length_push]
        omega
    rw [code_cons, List.length_append] at h
    refine ⟨?_, ih (by omega)⟩
    rw [Nat.mod_eq_of_lt (by omega)]
    exact Nat.le_add_right _ _

theorem getOp_inverse_iff {items : List Item} (h : ∀ item ∈ items, item.Valid) :
    (ReadsBack items ↔ Fits (items.map Item.element)) ∧
      ∀ script : Script, ∃ ops last, last ≤ script.length ∧
        Returns (fun fuel => script.iterate fuel 0) (.ok (ops, last)) :=
  ⟨readsBack_iff h, fun script => iterate_returns (Nat.zero_le script.length)⟩

/-- A script of an opcode, an integer and a byte string. -/
theorem getOp_inverse_iff_short :
    (ReadsBack [.op 0x76, .int64 (-5), .bytes [1, 2, 3]] ↔
      Fits ([.op 0x76, .int64 (-5), .bytes [1, 2, 3]].map Item.element)) ∧
      ∀ script : Script, ∃ ops last, last ≤ script.length ∧
        Returns (fun fuel => script.iterate fuel 0) (.ok (ops, last)) := by
  apply getOp_inverse_iff
  intro item hitem
  simp only [List.mem_cons, List.not_mem_nil, or_false] at hitem
  rcases hitem with rfl | rfl | rfl
  · exact ⟨by decide, by decide⟩
  · simp only [Item.Valid]
    decide
  · simp [Item.Valid]

/-- A hundred bytes and a byte string that brings what is left to fifty-five bytes, modulo
`2 ^ 32`. -/
theorem not_readsBack : ¬ ∀ items : List Item, (∀ item ∈ items, item.Valid) → ReadsBack items := by
  intro h
  obtain ⟨n, hn⟩ : ∃ n, n + 50 = 2 ^ 32 := ⟨2 ^ 32 - 50, by norm_num⟩
  have hvalid : ∀ item ∈ [Item.bytes (List.replicate 100 0), Item.bytes (List.replicate n 0)],
      item.Valid := by
    intro item hitem
    simp only [List.mem_cons, List.not_mem_nil, or_false] at hitem
    rcases hitem with rfl | rfl
    · simp only [Item.Valid, List.length_replicate]
      omega
    · simp only [Item.Valid, List.length_replicate]
      omega
  obtain ⟨hfirst, _⟩ := (readsBack_iff hvalid).mp (h _ hvalid)
  have hsize : sizeBytes n = 4 := by
    have hdata : OP_PUSHDATA1.toNat = 0x4c := by decide
    unfold sizeBytes
    rw [if_neg (by omega), if_neg (by omega), if_neg (by omega)]
  have hlength : (code [Element.push (List.replicate n 0)]).length = n + 5 := by
    rw [code_cons, List.length_append, Element.code, length_push, List.length_replicate, hsize]
    simp [code]
  simp only [Item.element, Element.data, List.length_replicate] at hfirst
  have hrest : code (List.map Item.element [Item.bytes (List.replicate n 0)]) =
    code [Element.push (List.replicate n 0)] := rfl
  rw [hrest, hlength] at hfirst
  omega

end Script

end Lytix
