import Lytix.Lib.BlockChaining
import Lytix.Lib.Buffers
import Mathlib.Data.UInt

/-! The hashers of `crypto`: they collect what is written to them into blocks, and transform their
state with each block. `none` is a `memcpy` beyond the end of the buffer. -/
namespace Lytix
open BlockChaining Buffers

structure Hasher (σ : Type) where
  s : σ
  buf : List UInt8
  bytes : UInt64

namespace Hasher
variable {σ : Type} (blockSize : Nat) (transform : σ → List UInt8 → σ)

/-- Before anything is written, whatever the buffer holds. -/
def start (s : σ) (buf : List UInt8) : Hasher σ := ⟨s, buf, 0⟩

/-- Fill the buffer, and process it: what is then left of the data, and how full the buffer is. -/
def fill (h : Hasher σ) (data : List UInt8) : Option (Hasher σ × List UInt8 × Nat) :=
  let bufsize := h.bytes.toNat % blockSize
  if bufsize ≠ 0 ∧ blockSize ≤ bufsize + data.length then do
    let buf ← copyAt h.buf bufsize (data.take (blockSize - bufsize))
    pure (⟨transform h.s buf, buf, h.bytes + UInt64.ofNat (blockSize - bufsize)⟩,
      data.drop (blockSize - bufsize), 0)
  else pure (h, data, bufsize)

/-- Process full chunks directly from the source. -/
def processChunks (h : Hasher σ) (data : List UInt8) : Hasher σ × List UInt8 :=
  if 0 < blockSize ∧ blockSize ≤ data.length then
    processChunks
      { h with
        s := transform h.s (data.take blockSize)
        bytes := h.bytes + UInt64.ofNat blockSize }
      (data.drop blockSize)
  else (h, data)
termination_by data.length
decreasing_by
  rw [List.length_drop]
  omega

/-- Fill the buffer with what remains. -/
def keep (h : Hasher σ) (data : List UInt8) (bufsize : Nat) : Option (Hasher σ) :=
  if data = [] then some h
  else do
    let buf ← copyAt h.buf bufsize data
    pure { h with
      buf := buf
      bytes := h.bytes + UInt64.ofNat data.length }

def write (h : Hasher σ) (data : List UInt8) : Option (Hasher σ) := do
  let filled ← h.fill blockSize transform data
  let processed := filled.1.processChunks blockSize transform filled.2.1
  processed.1.keep processed.2 filled.2.2

/-- `pad`. -/
def pad : List UInt8 := 0x80 :: List.replicate (blockSize - 1) 0

/-- `Finalize`, where the size takes its own bytes and `padTo` is up to where the padding goes: the
hash, and the hasher after it. -/
def finalize (padTo : Nat) (sizedesc : UInt64 → List UInt8) (output : σ → List UInt8)
    (h : Hasher σ) : Option (List UInt8 × Hasher σ) := do
  let padded ← h.write blockSize transform
    ((pad blockSize).take (1 + (padTo - h.bytes.toNat % blockSize) % blockSize))
  let sized ← padded.write blockSize transform (sizedesc (h.bytes <<< 3))
  pure (output sized.s, sized)

/-- The hasher has taken in this message: its whole blocks, and a rest in its buffer. -/
structure Absorbed (init : σ) (msg : List UInt8) (h : Hasher σ) : Prop where
  bytes : h.bytes = UInt64.ofNat msg.length
  length_buf : h.buf.length = blockSize
  split : ∃ whole tail, msg = whole ++ tail ∧ blockSize ∣ whole.length ∧ tail.length < blockSize ∧
    h.s = absorb transform blockSize init whole ∧ h.buf.take tail.length = tail

section
variable {blockSize} {transform} {hasher : Hasher σ} {init : σ} {msg : List UInt8}

theorem absorbed_start (hpos : 0 < blockSize) {buf : List UInt8}
    (hbuf : buf.length = blockSize) : Absorbed blockSize transform init [] (start init buf) where
  bytes := rfl
  length_buf := hbuf
  split := ⟨[], [], rfl, by simp, hpos, (absorb_of_lt (by simpa using hpos)).symm, rfl⟩

/-- How full the buffer is, also where the count of bytes has wrapped around. -/
theorem Absorbed.bytes_mod (h : Absorbed blockSize transform init msg hasher)
    (hrange : blockSize ∣ 2 ^ 64) : hasher.bytes.toNat % blockSize = msg.length % blockSize := by
  have hcount : hasher.bytes.toNat = msg.length % 2 ^ 64 := by
    rw [h.bytes]
    exact UInt64.toNat_ofNat'
  rw [hcount, Nat.mod_mod_of_dvd _ hrange]

theorem mod_of_split {whole tail : List UInt8} (hmsg : msg = whole ++ tail)
    (hwhole : blockSize ∣ whole.length) (htail : tail.length < blockSize) :
    msg.length % blockSize = tail.length := by
  rw [hmsg, List.length_append, Nat.add_mod, Nat.mod_eq_zero_of_dvd hwhole, Nat.zero_add,
    Nat.mod_mod, Nat.mod_eq_of_lt htail]

/-- A message of whole blocks has left nothing in the buffer. -/
theorem Absorbed.s_eq (h : Absorbed blockSize transform init msg hasher)
    (hdvd : blockSize ∣ msg.length) : hasher.s = absorb transform blockSize init msg := by
  obtain ⟨whole, tail, hmsg, hwhole, htail, hs, -⟩ := h.split
  have hempty : tail = [] := by
    have hmod := mod_of_split hmsg hwhole htail
    rw [Nat.mod_eq_zero_of_dvd hdvd] at hmod
    exact List.length_eq_zero_iff.mp hmod.symm
  rw [hs, hmsg, hempty, List.append_nil]

theorem absorbed_of_dvd (hpos : 0 < blockSize) (hbytes : hasher.bytes = UInt64.ofNat msg.length)
    (hbuf : hasher.buf.length = blockSize) (hdvd : blockSize ∣ msg.length)
    (hs : hasher.s = absorb transform blockSize init msg) :
    Absorbed blockSize transform init msg hasher :=
  ⟨hbytes, hbuf, msg, [], (List.append_nil msg).symm, hdvd, hpos, hs, rfl⟩

theorem bytes_add (hbytes : hasher.bytes = UInt64.ofNat msg.length) (data : List UInt8) :
    hasher.bytes + UInt64.ofNat data.length = UInt64.ofNat (msg ++ data).length := by
  rw [hbytes, List.length_append, UInt64.ofNat_add]

theorem Absorbed.fill (h : Absorbed blockSize transform init msg hasher)
    (hrange : blockSize ∣ 2 ^ 64) (data : List UInt8) :
    ∃ filled taken rest bufsize, hasher.fill blockSize transform data =
        some (filled, rest, bufsize) ∧ data = taken ++ rest ∧
      Absorbed blockSize transform init (msg ++ taken) filled ∧
      bufsize = (msg ++ taken).length % blockSize ∧
      (bufsize = 0 ∨ bufsize + rest.length < blockSize) := by
  have hmod := h.bytes_mod hrange
  obtain ⟨whole, tail, hmsg, hwhole, htail, hs, hbuf⟩ := h.split
  have hpos : 0 < blockSize := Nat.pos_of_dvd_of_pos hrange (by positivity)
  have htailmod := mod_of_split hmsg hwhole htail
  unfold Hasher.fill
  simp only [hmod, htailmod]
  by_cases hfull : tail.length ≠ 0 ∧ blockSize ≤ tail.length + data.length
  · rw [if_pos hfull]
    have htaken : (data.take (blockSize - tail.length)).length = blockSize - tail.length := by
      rw [List.length_take]
      omega
    have hroom : tail.length + (data.take (blockSize - tail.length)).length ≤
        hasher.buf.length := by
      rw [htaken, h.length_buf]
      omega
    obtain ⟨buf, hcopy, hlength, htake⟩ := copyAt_of_le hroom
    have hlast : tail.length + (blockSize - tail.length) = blockSize := by omega
    have hsize : buf.length = blockSize := hlength.trans h.length_buf
    have hblock : buf = tail ++ data.take (blockSize - tail.length) := by
      rw [htaken, hlast, hbuf, List.take_of_length_le (by omega)] at htake
      exact htake
    have hcount : (msg ++ data.take (blockSize - tail.length)).length = whole.length + blockSize := by
      rw [hmsg, List.length_append, List.length_append, htaken]
      omega
    have hdvd : blockSize ∣ (msg ++ data.take (blockSize - tail.length)).length := by
      rw [hcount]
      exact hwhole.add (dvd_refl blockSize)
    rw [hcopy]
    refine ⟨_, data.take (blockSize - tail.length), data.drop (blockSize - tail.length), 0, rfl,
      (List.take_append_drop _ data).symm, ?_, (Nat.mod_eq_zero_of_dvd hdvd).symm, Or.inl rfl⟩
    apply absorbed_of_dvd hpos
    · rw [← bytes_add h.bytes, htaken]
    · exact hsize
    · exact hdvd
    · rw [hmsg, List.append_assoc, ← hblock, absorb_concat hpos hwhole hsize, ← hs]
  · rw [if_neg hfull]
    refine ⟨hasher, [], data, tail.length, rfl, rfl, ?_, ?_, by omega⟩
    · rw [List.append_nil]
      exact h
    · rw [List.append_nil, htailmod]

theorem Absorbed.processChunks (h : Absorbed blockSize transform init msg hasher)
    (hpos : 0 < blockSize) {data : List UInt8}
    (hmay : blockSize ∣ msg.length ∨ data.length < blockSize) :
    ∃ processed taken rest, hasher.processChunks blockSize transform data = (processed, rest) ∧
      data = taken ++ rest ∧ Absorbed blockSize transform init (msg ++ taken) processed ∧
      blockSize ∣ taken.length ∧ rest.length < blockSize := by
  induction hlength : data.length using Nat.strong_induction_on generalizing hasher msg data with
  | _ n ih =>
    subst hlength
    rw [Hasher.processChunks]
    by_cases hblock : blockSize ≤ data.length
    · rw [if_pos ⟨hpos, hblock⟩]
      have hdvd : blockSize ∣ msg.length := hmay.resolve_right (by omega)
      have htaken : (data.take blockSize).length = blockSize := by
        rw [List.length_take]
        omega
      have hcount : blockSize ∣ (msg ++ data.take blockSize).length := by
        rw [List.length_append, htaken]
        exact hdvd.add (dvd_refl blockSize)
      have hnext : Absorbed blockSize transform init (msg ++ data.take blockSize)
          { hasher with
            s := transform hasher.s (data.take blockSize)
            bytes := hasher.bytes + UInt64.ofNat blockSize } := by
        apply absorbed_of_dvd hpos
        · rw [← bytes_add h.bytes, htaken]
        · exact h.length_buf
        · exact hcount
        · rw [absorb_concat hpos hdvd htaken, ← h.s_eq hdvd]
      have hshorter : (data.drop blockSize).length < data.length := by
        rw [List.length_drop]
        omega
      obtain ⟨processed, taken, rest, hloop, hsplit, habsorbed, hwhole, hrest⟩ :=
        ih _ hshorter hnext (Or.inl hcount) rfl
      refine ⟨processed, data.take blockSize ++ taken, rest, hloop, ?_, ?_, ?_, hrest⟩
      · rw [List.append_assoc, ← hsplit, List.take_append_drop]
      · rw [← List.append_assoc]
        exact habsorbed
      · rw [List.length_append, htaken]
        exact (dvd_refl blockSize).add hwhole
    · rw [if_neg (by omega)]
      refine ⟨hasher, [], data, rfl, rfl, ?_, by simp, by omega⟩
      rw [List.append_nil]
      exact h

theorem Absorbed.keep (h : Absorbed blockSize transform init msg hasher) {data : List UInt8}
    (hroom : msg.length % blockSize + data.length < blockSize) :
    ∃ kept, hasher.keep data (msg.length % blockSize) = some kept ∧
      Absorbed blockSize transform init (msg ++ data) kept := by
  unfold Hasher.keep
  by_cases hempty : data = []
  · rw [if_pos hempty, hempty, List.append_nil]
    exact ⟨hasher, rfl, h⟩
  · obtain ⟨whole, tail, hmsg, hwhole, htail, hs, hbuf⟩ := h.split
    have hmod := mod_of_split hmsg hwhole htail
    rw [hmod] at hroom ⊢
    have hle : tail.length + data.length ≤ hasher.buf.length := by
      rw [h.length_buf]
      omega
    obtain ⟨buf, hcopy, hlength, htake⟩ := copyAt_of_le hle
    rw [if_neg hempty, hcopy]
    refine ⟨_, rfl, bytes_add h.bytes data, hlength.trans h.length_buf, whole, tail ++ data, ?_,
      hwhole, ?_, hs, ?_⟩
    · rw [hmsg, List.append_assoc]
    · rw [List.length_append]
      exact hroom
    · rw [List.length_append, htake, hbuf]

/-- However the data comes in, no copy leaves the buffer, and the hasher has taken it in. -/
theorem Absorbed.write (h : Absorbed blockSize transform init msg hasher)
    (hrange : blockSize ∣ 2 ^ 64) (data : List UInt8) :
    ∃ written, hasher.write blockSize transform data = some written ∧
      Absorbed blockSize transform init (msg ++ data) written := by
  have hpos : 0 < blockSize := Nat.pos_of_dvd_of_pos hrange (by positivity)
  obtain ⟨filled, taken, rest, bufsize, hfill, hdata, hfilled, hbufsize, hmay⟩ :=
    h.fill hrange data
  have hblocks : blockSize ∣ (msg ++ taken).length ∨ rest.length < blockSize := by
    rcases hmay with hzero | hroom
    · exact Or.inl (Nat.dvd_of_mod_eq_zero (hbufsize.symm.trans hzero))
    · exact Or.inr (by omega)
  obtain ⟨processed, whole, last, hloop, hrest, hprocessed, hwhole, hlast⟩ :=
    hfilled.processChunks hpos hblocks
  have hsame : (msg ++ taken ++ whole).length % blockSize = bufsize := by
    rw [List.length_append, Nat.add_mod, Nat.mod_eq_zero_of_dvd hwhole, Nat.add_zero, Nat.mod_mod,
      hbufsize]
  have hroom : (msg ++ taken ++ whole).length % blockSize + last.length < blockSize := by
    have hlength := congrArg List.length hrest
    rw [List.length_append] at hlength
    omega
  obtain ⟨kept, hkeep, hkept⟩ := hprocessed.keep hroom
  rw [hsame] at hkeep
  refine ⟨kept, ?_, ?_⟩
  · unfold Hasher.write
    rw [hfill]
    simp only [Option.bind_eq_bind, Option.bind_some, hloop]
    exact hkeep
  · have hall : msg ++ data = msg ++ taken ++ whole ++ last := by
      rw [hdata, hrest]
      simp only [List.append_assoc]
    rw [hall]
    exact hkept

theorem Absorbed.writes (h : Absorbed blockSize transform init msg hasher)
    (hrange : blockSize ∣ 2 ^ 64) (chunks : List (List UInt8)) :
    ∃ written, chunks.foldlM (Hasher.write blockSize transform) hasher = some written ∧
      Absorbed blockSize transform init (msg ++ chunks.flatten) written := by
  induction chunks generalizing hasher msg with
  | nil => exact ⟨hasher, rfl, by simpa using h⟩
  | cons chunk chunks ih =>
    obtain ⟨next, hwrite, hnext⟩ := h.write hrange chunk
    obtain ⟨last, hrest, hlast⟩ := ih hnext
    refine ⟨last, ?_, ?_⟩
    · rw [List.foldlM_cons, hwrite]
      exact hrest
    · rw [List.flatten_cons, ← List.append_assoc]
      exact hlast

theorem Absorbed.bytes_shiftLeft (h : Absorbed blockSize transform init msg hasher) :
    hasher.bytes <<< 3 = UInt64.ofNat (8 * msg.length) := by
  rw [h.bytes]
  apply UInt64.toNat_inj.mp
  rw [UInt64.toNat_shiftLeft, UInt64.toNat_ofNat', UInt64.toNat_ofNat', Nat.shiftLeft_eq]
  have hthree : (3 : UInt64).toNat % 64 = 3 := rfl
  rw [hthree]
  omega

/-- What is written after the message: a one bit, zeros, and the size in bits. -/
theorem Absorbed.finalize (h : Absorbed blockSize transform init msg hasher)
    (hrange : blockSize ∣ 2 ^ 64) {padTo zeros : ℕ} {sizedesc : UInt64 → List UInt8}
    {output : σ → List UInt8} (hzeros : zeros = (padTo - msg.length % blockSize) % blockSize)
    (hdvd : blockSize ∣ msg.length + 1 + zeros + (sizedesc (hasher.bytes <<< 3)).length) :
    ∃ last, hasher.finalize blockSize transform padTo sizedesc output =
      some (output (absorb transform blockSize init
        (msg ++ 0x80 :: List.replicate zeros 0 ++ sizedesc (UInt64.ofNat (8 * msg.length)))), last) ∧
      last.buf.length = blockSize := by
  have hpos : 0 < blockSize := Nat.pos_of_dvd_of_pos hrange (by positivity)
  have hless : zeros < blockSize := hzeros ▸ Nat.mod_lt _ hpos
  have hpad : (pad blockSize).take (1 + (padTo - hasher.bytes.toNat % blockSize) % blockSize) =
      (0x80 : UInt8) :: List.replicate zeros 0 := by
    rw [h.bytes_mod hrange, ← hzeros, Nat.add_comm, pad, List.take_succ_cons, List.take_replicate,
      min_eq_left (by omega)]
  have hsize := h.bytes_shiftLeft
  obtain ⟨padded, hfirst, hpadded⟩ := h.write hrange ((0x80 : UInt8) :: List.replicate zeros 0)
  obtain ⟨sized, hsecond, hsized⟩ := hpadded.write hrange (sizedesc (hasher.bytes <<< 3))
  have hwhole : blockSize ∣ (msg ++ (0x80 : UInt8) :: List.replicate zeros 0 ++
      sizedesc (hasher.bytes <<< 3)).length := by
    simpa [Nat.add_assoc, Nat.add_comm, Nat.add_left_comm] using hdvd
  refine ⟨sized, ?_, hsized.length_buf⟩
  unfold Hasher.finalize
  rw [hpad, hfirst]
  simp only [Option.bind_eq_bind, Option.bind_some, hsecond]
  rw [hsized.s_eq hwhole, hsize]
  rfl

end
end Hasher
end Lytix
