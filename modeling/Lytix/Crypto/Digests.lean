import Lytix.Crypto.Sha2

/-! What the hashers of `crypto` and `hash.h` compute, however their data comes in: the hash
functions of the standards, the double hash, and the keyed hashes. -/
namespace Lytix
open BlockChaining SecureHashes

/-- A hasher as `CHMAC_SHA256` and `CHMAC_SHA512` use it: what it starts with, `Write` and
`Finalize`. -/
structure HashClass (σ : Type) where
  new : List UInt8 → Hasher σ
  write : Hasher σ → List UInt8 → Option (Hasher σ)
  finalize : Hasher σ → Option (List UInt8 × Hasher σ)

def hashClass256 : HashClass (Vector (BitVec 32) 8) := ⟨CSHA256.new, CSHA256.write, CSHA256.finalize⟩

def hashClass512 : HashClass (Vector (BitVec 64) 8) := ⟨CSHA512.new, CSHA512.write, CSHA512.finalize⟩

namespace HashClass
variable {σ : Type} (H : HashClass σ)

/-- All the data, then `Finalize`. -/
def hashOf (buf : List UInt8) (chunks : List (List UInt8)) : Option (List UInt8 × Hasher σ) := do
  let written ← chunks.foldlM H.write (H.new buf)
  H.finalize written

end HashClass

/-- `CHash256::Finalize`. -/
def CHash256.finalize (sha : Hasher (Vector (BitVec 32) 8)) : Option (List UInt8) := do
  let first ← CSHA256.finalize sha
  let written ← CSHA256.write (CSHA256.reset first.2) first.1
  let second ← CSHA256.finalize written
  pure second.1

/-- `CHMAC_SHA256` and `CHMAC_SHA512`: two hashers. -/
structure CHMAC (σ : Type) where
  outer : Hasher σ
  inner : Hasher σ

namespace CHMAC
variable {σ : Type} (H : HashClass σ)

/-- `rkey` of the constructor: a longer key is hashed first. -/
def rkey (blockSize outputSize : Nat) (buf key : List UInt8) : Option (List UInt8) :=
  if key.length ≤ blockSize then pure (key ++ List.replicate (blockSize - key.length) 0)
  else do
    let written ← H.write (H.new buf) key
    let hash ← H.finalize written
    pure (hash.1 ++ List.replicate (blockSize - outputSize) 0)

/-- The constructor, with the buffers of its hashers. -/
def new (blockSize outputSize : Nat) (bufs : List UInt8 × List UInt8 × List UInt8)
    (key : List UInt8) : Option (CHMAC σ) := do
  let rkey ← rkey H blockSize outputSize bufs.1 key
  let rkeyOuter := rkey.map fun byte => byte ^^^ 0x5c
  let outer ← H.write (H.new bufs.2.1) rkeyOuter
  let rkeyInner := rkeyOuter.map fun byte => byte ^^^ (0x5c ^^^ 0x36)
  let inner ← H.write (H.new bufs.2.2) rkeyInner
  pure ⟨outer, inner⟩

def write (hmac : CHMAC σ) (data : List UInt8) : Option (CHMAC σ) :=
  (H.write hmac.inner data).map fun inner => { hmac with inner := inner }

def finalize (hmac : CHMAC σ) : Option (List UInt8) := do
  let temp ← H.finalize hmac.inner
  let written ← H.write hmac.outer temp.1
  let hash ← H.finalize written
  pure hash.1

end CHMAC

/-- The key of a keyed hash, filled up to a block. -/
def hmacKey (hash : List UInt8 → List UInt8) (blockSize : Nat) (key : List UInt8) : List UInt8 :=
  let short := if key.length ≤ blockSize then key else hash key
  short ++ List.replicate (blockSize - short.length) 0

/-- The keyed hash of its standard. -/
def hmac (hash : List UInt8 → List UInt8) (blockSize : Nat) (key text : List UInt8) : List UInt8 :=
  let padded := hmacKey hash blockSize key
  hash (padded.map (· ^^^ 0x5c) ++ hash (padded.map (· ^^^ 0x36) ++ text))

/-- The hasher computes this function of all that is written to it, whatever its buffer holds. -/
structure HashClass.Computes {σ : Type} (H : HashClass σ) (hash : List UInt8 → List UInt8)
    (blockSize : ℕ) : Prop where
  hashOf : ∀ buf chunks, buf.length = blockSize → chunks.flatten.length < 2 ^ 61 →
    ∃ last, H.hashOf buf chunks = some (hash chunks.flatten, last) ∧ last.buf.length = blockSize

section
variable {σ : Type} {H : HashClass σ} {hash : List UInt8 → List UInt8} {blockSize : ℕ}

theorem bigEndian_eight {x : ℕ} (hx : x < 2 ^ 64) :
    bigEndian 16 x = List.replicate 8 0 ++ bigEndian 8 x := by
  have hbytes : ∀ i, LittleEndian.bytes (i + 1) x =
      LittleEndian.bytes i x ++ [UInt8.ofNat (x / 256 ^ i)] := by
    intro i
    unfold LittleEndian.bytes
    rw [List.range_succ, List.map_append, List.map_singleton]
  have hhigh : ∀ i, LittleEndian.bytes (8 + i) x =
      LittleEndian.bytes 8 x ++ List.replicate i 0 := by
    intro i
    induction i with
    | zero => simp
    | succ i ih =>
      have hzero : x / 256 ^ (8 + i) = 0 := by
        apply Nat.div_eq_of_lt
        have hpow : 256 ^ 8 ≤ 256 ^ (8 + i) := Nat.pow_le_pow_right (by omega) (by omega)
        omega
      rw [← Nat.add_assoc, hbytes, ih, hzero, List.replicate_succ', List.append_assoc]
      rfl
  unfold bigEndian
  rw [hhigh 8, List.reverse_append, List.reverse_replicate]

theorem zeros_of_minimal {sizeBytes length k : ℕ}
    (hk : (length + 1 + k) % blockSize = blockSize - sizeBytes)
    (hmin : ∀ j < k, (length + 1 + j) % blockSize ≠ blockSize - sizeBytes) :
    zeros blockSize sizeBytes length = k := by
  have hmem : k ∈ {k | (length + 1 + k) % blockSize = blockSize - sizeBytes} := hk
  apply le_antisymm (Nat.sInf_le hmem)
  apply le_csInf ⟨k, hmem⟩
  intro j hj
  by_contra hlt
  exact hmin j (by omega) hj

theorem zeros_64 (length : ℕ) : zeros 64 8 length = (119 - length % 64) % 64 :=
  zeros_of_minimal (by omega) (by omega)

theorem zeros_128 (length : ℕ) : zeros 128 16 length = (239 - length % 128) % 128 :=
  zeros_of_minimal (by omega) (by omega)

/-- Where the padding fits the sizes, the hasher of the file computes the hash of the standard. -/
theorem computes_digest {w sizeBytes padTo : ℕ} {words : Sha2.Words w} {functions : Functions w}
    {sizedesc : UInt64 → List UInt8} (h : Sha2.Implements words functions)
    (hblock : 16 * (w / 8) = blockSize) (hbytes : 2 * (w / 8) = sizeBytes)
    (hrange : blockSize ∣ 2 ^ 64)
    (hzeros : ∀ length, zeros blockSize sizeBytes length =
      (padTo - length % blockSize) % blockSize)
    (hdvd : ∀ length, blockSize ∣ length + 1 + zeros blockSize sizeBytes length + sizeBytes)
    (hsize : ∀ size < 2 ^ 64, sizedesc (UInt64.ofNat size) = bigEndian sizeBytes size) :
    HashClass.Computes ⟨Hasher.start words.initial, Hasher.write blockSize (Sha2.Transform words),
        Hasher.finalize blockSize (Sha2.Transform words) padTo sizedesc Sha2.output⟩
      (digest functions) blockSize where
  hashOf := by
    intro buf chunks hbuf hless
    subst hblock hbytes
    have hpos : 0 < 16 * (w / 8) := Nat.pos_of_dvd_of_pos hrange (by positivity)
    have hstart : Hasher.Absorbed _ (Sha2.Transform words) words.initial []
        (Hasher.start words.initial buf) := Hasher.absorbed_start hpos hbuf
    obtain ⟨written, hwrites, hwritten⟩ := hstart.writes hrange chunks
    rw [List.nil_append] at hwritten
    have hbits := hsize (8 * chunks.flatten.length) (by omega)
    have hlength : (sizedesc (written.bytes <<< 3)).length = 2 * (w / 8) := by
      rw [hwritten.bytes_shiftLeft, hbits]
      simp [bigEndian]
    have hwhole : 16 * (w / 8) ∣ chunks.flatten.length + 1 +
        zeros (16 * (w / 8)) (2 * (w / 8)) chunks.flatten.length +
        (sizedesc (written.bytes <<< 3)).length := by
      rw [hlength]
      exact hdvd _
    obtain ⟨last, hfinalize, hlast⟩ :=
      @Hasher.Absorbed.finalize _ _ _ _ _ _ hwritten hrange padTo _ _ Sha2.output (hzeros _) hwhole
    refine ⟨last, ?_, hlast⟩
    unfold HashClass.hashOf
    rw [hwrites]
    simp only [Option.bind_eq_bind, Option.bind_some]
    rw [hfinalize, hbits, Sha2.transform_eq h, h.initial]
    rfl

theorem toNat_ofNat_size {size : ℕ} (hsize : size < 2 ^ 64) : (UInt64.ofNat size).toNat = size := by
  rw [UInt64.toNat_ofNat', Nat.mod_eq_of_lt hsize]

theorem computes256 : HashClass.Computes hashClass256 sha256 64 := by
  have hdvd : ∀ length, 64 ∣ length + 1 + zeros 64 8 length + 8 := by
    intro length
    rw [zeros_64]
    omega
  have hsize : ∀ size < 2 ^ 64, writeBE 8 (UInt64.ofNat size).toNat = bigEndian 8 size := by
    intro size hsize
    rw [toNat_ofNat_size hsize]
    rfl
  exact @computes_digest 64 32 8 119 Sha2.words256 functions256 (fun size => writeBE 8 size.toNat)
    Sha2.implements256 rfl rfl (by decide) zeros_64 hdvd hsize

theorem computes512 : HashClass.Computes hashClass512 sha512 128 := by
  have hdvd : ∀ length, 128 ∣ length + 1 + zeros 128 16 length + 16 := by
    intro length
    rw [zeros_128]
    omega
  have hsize : ∀ size < 2 ^ 64,
      List.replicate 8 0 ++ writeBE 8 (UInt64.ofNat size).toNat = bigEndian 16 size := by
    intro size hsize
    rw [toNat_ofNat_size hsize, bigEndian_eight hsize]
    rfl
  exact @computes_digest 128 64 16 239 Sha2.words512 functions512
    (fun size => List.replicate 8 0 ++ writeBE 8 size.toNat) Sha2.implements512 rfl rfl (by decide)
    zeros_128 hdvd hsize

theorem HashClass.Computes.write_finalize (h : H.Computes hash blockSize) {buf : List UInt8}
    {chunks : List (List UInt8)} (hbuf : buf.length = blockSize)
    (hlength : chunks.flatten.length < 2 ^ 61) :
    ∃ written last, chunks.foldlM H.write (H.new buf) = some written ∧
      H.finalize written = some (hash chunks.flatten, last) ∧ last.buf.length = blockSize := by
  obtain ⟨last, hhash, hlast⟩ := h.hashOf buf chunks hbuf hlength
  obtain ⟨written, hwrites, hfinalize⟩ := Option.bind_eq_some_iff.mp hhash
  exact ⟨written, last, hwrites, hfinalize, hlast⟩

/-- What is written first may be written on its own. -/
theorem HashClass.Computes.write_cons (h : H.Computes hash blockSize) {buf first : List UInt8}
    {chunks : List (List UInt8)} (hbuf : buf.length = blockSize)
    (hlength : (first ++ chunks.flatten).length < 2 ^ 61) :
    ∃ started written last, H.write (H.new buf) first = some started ∧
      chunks.foldlM H.write started = some written ∧
      H.finalize written = some (hash (first ++ chunks.flatten), last) ∧
      last.buf.length = blockSize := by
  rw [← List.flatten_cons] at hlength ⊢
  obtain ⟨written, last, hwrites, hfinalize, hlast⟩ := h.write_finalize hbuf hlength
  rw [List.foldlM_cons] at hwrites
  obtain ⟨started, hstart, hrest⟩ := Option.bind_eq_some_iff.mp hwrites
  exact ⟨started, written, last, hstart, hrest, hfinalize, hlast⟩

theorem HashClass.Computes.write_one (h : H.Computes hash blockSize) {buf data : List UInt8}
    (hbuf : buf.length = blockSize) (hlength : data.length < 2 ^ 61) :
    ∃ written last, H.write (H.new buf) data = some written ∧
      H.finalize written = some (hash data, last) ∧ last.buf.length = blockSize := by
  have hdata : data ++ ([] : List (List UInt8)).flatten = data := List.append_nil data
  have hlength' : (data ++ ([] : List (List UInt8)).flatten).length < 2 ^ 61 := by
    rw [hdata]
    exact hlength
  obtain ⟨started, written, last, hstart, hnone, hfinalize, hlast⟩ := h.write_cons hbuf hlength'
  rw [hdata] at hfinalize
  obtain rfl := Option.some.inj hnone
  exact ⟨started, last, hstart, hfinalize, hlast⟩

/-- However a message is cut into pieces, `CSHA256` gives its SHA-256. -/
theorem csha256_eq_sha256 (buf : List UInt8) (chunks : List (List UInt8)) (hbuf : buf.length = 64)
    (hlength : chunks.flatten.length < 2 ^ 61) :
    ((chunks.foldlM CSHA256.write (CSHA256.new buf)).bind CSHA256.finalize).map Prod.fst =
      some (sha256 chunks.flatten) := by
  obtain ⟨written, last, hwrites, hfinalize, -⟩ := computes256.write_finalize hbuf hlength
  have hboth : (chunks.foldlM CSHA256.write (CSHA256.new buf)).bind CSHA256.finalize =
      some (sha256 chunks.flatten, last) := Option.bind_eq_some_iff.mpr ⟨written, hwrites, hfinalize⟩
  rw [hboth, Option.map_some]

theorem csha256_eq_sha256_abc :
    ((([[0x61], [0x62, 0x63]] : List (List UInt8)).foldlM CSHA256.write
      (CSHA256.new (List.replicate 64 0))).bind CSHA256.finalize).map Prod.fst =
      some (sha256 ([[0x61], [0x62, 0x63]] : List (List UInt8)).flatten) :=
  csha256_eq_sha256 _ _ List.length_replicate (by decide)

theorem csha512_eq_sha512 (buf : List UInt8) (chunks : List (List UInt8)) (hbuf : buf.length = 128)
    (hlength : chunks.flatten.length < 2 ^ 61) :
    ((chunks.foldlM CSHA512.write (CSHA512.new buf)).bind CSHA512.finalize).map Prod.fst =
      some (sha512 chunks.flatten) := by
  obtain ⟨written, last, hwrites, hfinalize, -⟩ := computes512.write_finalize hbuf hlength
  have hboth : (chunks.foldlM CSHA512.write (CSHA512.new buf)).bind CSHA512.finalize =
      some (sha512 chunks.flatten, last) := Option.bind_eq_some_iff.mpr ⟨written, hwrites, hfinalize⟩
  rw [hboth, Option.map_some]

theorem csha512_eq_sha512_abc :
    ((([[0x61], [0x62, 0x63]] : List (List UInt8)).foldlM CSHA512.write
      (CSHA512.new (List.replicate 128 0))).bind CSHA512.finalize).map Prod.fst =
      some (sha512 ([[0x61], [0x62, 0x63]] : List (List UInt8)).flatten) :=
  csha512_eq_sha512 _ _ List.length_replicate (by decide)

theorem length_digest {w : ℕ} (functions : Functions w) (msg : List UInt8) :
    (digest functions msg).length = 8 * (w / 8) := by
  unfold digest bigEndian
  simp only [List.length_flatMap, List.length_reverse, LittleEndian.length_bytes, List.map_const',
    List.sum_replicate, Vector.length_toList, smul_eq_mul]

/-- `CHash256` hashes the hash, in the buffer that the first hash has left. -/
theorem chash256_eq (buf : List UInt8) (chunks : List (List UInt8)) (hbuf : buf.length = 64)
    (hlength : chunks.flatten.length < 2 ^ 61) :
    (chunks.foldlM CSHA256.write (CSHA256.new buf)).bind CHash256.finalize =
      some (sha256 (sha256 chunks.flatten)) := by
  obtain ⟨written, last, hwrites, hfinalize, hlast⟩ := computes256.write_finalize hbuf hlength
  have hsize : (sha256 chunks.flatten).length = 32 := length_digest functions256 _
  have hshort : (sha256 chunks.flatten).length < 2 ^ 61 := by omega
  obtain ⟨again, last', hwrite, hagain, -⟩ := computes256.write_one hlast hshort
  have hfirst : CSHA256.finalize written = some (sha256 chunks.flatten, last) := hfinalize
  have hsecond : CSHA256.write (CSHA256.new last.buf) (sha256 chunks.flatten) = some again := hwrite
  have hthird : CSHA256.finalize again = some (sha256 (sha256 chunks.flatten), last') := hagain
  have hall : chunks.foldlM CSHA256.write (CSHA256.new buf) = some written := hwrites
  rw [hall, Option.bind_some]
  unfold CHash256.finalize CSHA256.reset
  simp only [hfirst, hsecond, hthird, Option.bind_eq_bind, Option.bind_some, Option.pure_def]

theorem chash256_eq_abc :
    (([[0x61], [0x62, 0x63]] : List (List UInt8)).foldlM CSHA256.write
      (CSHA256.new (List.replicate 64 0))).bind CHash256.finalize =
      some (sha256 (sha256 ([[0x61], [0x62, 0x63]] : List (List UInt8)).flatten)) :=
  chash256_eq _ _ List.length_replicate (by decide)

theorem xor_pads (byte : UInt8) : byte ^^^ 0x5c ^^^ (0x5c ^^^ 0x36) = byte ^^^ 0x36 := by
  rw [UInt8.xor_assoc, ← UInt8.xor_assoc 0x5c]
  simp

theorem chmac_writes {hmac : CHMAC σ} {inner : Hasher σ} {chunks : List (List UInt8)}
    (h : chunks.foldlM H.write hmac.inner = some inner) :
    chunks.foldlM (CHMAC.write H) hmac = some { hmac with inner := inner } := by
  induction chunks generalizing hmac with
  | nil =>
    obtain rfl := Option.some.inj h
    rfl
  | cons chunk chunks ih =>
    rw [List.foldlM_cons] at h
    obtain ⟨next, hwrite, hrest⟩ := Option.bind_eq_some_iff.mp h
    have hnext : CHMAC.write H hmac chunk = some { hmac with inner := next } := by
      unfold CHMAC.write
      rw [hwrite, Option.map_some]
    rw [List.foldlM_cons, hnext]
    exact ih hrest

theorem HashClass.Computes.rkey_eq (h : H.Computes hash blockSize) {outputSize : ℕ}
    (hsize : ∀ msg, (hash msg).length = outputSize) {buf key : List UInt8}
    (hbuf : buf.length = blockSize) (hkey : key.length < 2 ^ 61) :
    CHMAC.rkey H blockSize outputSize buf key = some (hmacKey hash blockSize key) := by
  unfold CHMAC.rkey hmacKey
  split_ifs with hshort
  · rfl
  · obtain ⟨written, last, hwrite, hfinalize, -⟩ := h.write_one hbuf hkey
    simp only [hwrite, hfinalize, hsize, Option.bind_eq_bind, Option.bind_some, Option.pure_def]

theorem length_hmacKey {outputSize : ℕ} (hsize : ∀ msg, (hash msg).length = outputSize)
    (hle : outputSize ≤ blockSize) (key : List UInt8) :
    (hmacKey hash blockSize key).length = blockSize := by
  unfold hmacKey
  split_ifs with hshort
  · rw [List.length_append, List.length_replicate]
    omega
  · rw [List.length_append, List.length_replicate, hsize]
    omega

/-- Whatever hash function a hasher computes, the keyed hasher over it computes its HMAC. -/
theorem hmac_of_computes (h : H.Computes hash blockSize) {outputSize : ℕ}
    (hsize : ∀ msg, (hash msg).length = outputSize) (hle : outputSize ≤ blockSize)
    (hblock : blockSize < 2 ^ 60) {buf₁ buf₂ buf₃ : List UInt8} (hbuf₁ : buf₁.length = blockSize)
    (hbuf₂ : buf₂.length = blockSize) (hbuf₃ : buf₃.length = blockSize) {key : List UInt8}
    (hkey : key.length < 2 ^ 61) {chunks : List (List UInt8)}
    (hlength : chunks.flatten.length < 2 ^ 60) :
    ((CHMAC.new H blockSize outputSize (buf₁, buf₂, buf₃) key).bind fun hmac =>
      (chunks.foldlM (CHMAC.write H) hmac).bind (CHMAC.finalize H)) =
      some (hmac hash blockSize key chunks.flatten) := by
  have hrkey := h.rkey_eq hsize hbuf₁ hkey
  have hrlength := length_hmacKey hsize hle key
  unfold hmac
  generalize hmacKey hash blockSize key = padded at hrkey hrlength ⊢
  have hpad : (padded.map fun byte => byte ^^^ 0x5c).map (fun byte => byte ^^^ (0x5c ^^^ 0x36)) =
      padded.map fun byte => byte ^^^ 0x36 := by
    rw [List.map_map]
    exact List.map_congr_left fun byte _ => xor_pads byte
  have hshort : (padded.map (· ^^^ 0x36) ++ chunks.flatten).length < 2 ^ 61 := by
    rw [List.length_append, List.length_map, hrlength]
    omega
  obtain ⟨inner, written, _, hinner, hwrites, hfinalize, -⟩ := h.write_cons hbuf₃ hshort
  generalize htemp : hash (padded.map (· ^^^ 0x36) ++ chunks.flatten) = temp at hfinalize ⊢
  have houtput : temp.length = outputSize := htemp ▸ hsize _
  have hlast : (padded.map (· ^^^ 0x5c) ++ [temp].flatten).length < 2 ^ 61 := by
    rw [List.length_append, List.length_map, hrlength, List.flatten_singleton, houtput]
    omega
  obtain ⟨outer, sealed, last, houter, hseal, hhash, -⟩ := h.write_cons hbuf₂ hlast
  rw [List.flatten_singleton] at hhash
  rw [List.foldlM_cons] at hseal
  obtain ⟨sealed', hwrite, hdone⟩ := Option.bind_eq_some_iff.mp hseal
  obtain rfl := Option.some.inj hdone
  have hnew : CHMAC.new H blockSize outputSize (buf₁, buf₂, buf₃) key = some ⟨outer, inner⟩ := by
    unfold CHMAC.new
    simp only [hrkey, Option.bind_eq_bind, Option.bind_some, houter, hpad, hinner, Option.pure_def]
  have hwritten : chunks.foldlM (CHMAC.write H) ⟨outer, inner⟩ = some ⟨outer, written⟩ :=
    chmac_writes hwrites
  rw [hnew, Option.bind_some, hwritten, Option.bind_some]
  unfold CHMAC.finalize
  simp only [hfinalize, hwrite, hhash, Option.bind_eq_bind, Option.bind_some, Option.pure_def]
  rw [htemp]

end

theorem chmac_sha512_eq (buf₁ buf₂ buf₃ key : List UInt8) (chunks : List (List UInt8))
    (hbufs : buf₁.length = 128 ∧ buf₂.length = 128 ∧ buf₃.length = 128)
    (hkey : key.length < 2 ^ 61) (hlength : chunks.flatten.length < 2 ^ 60) :
    ((CHMAC.new hashClass512 128 64 (buf₁, buf₂, buf₃) key).bind fun hmac =>
      (chunks.foldlM (CHMAC.write hashClass512) hmac).bind (CHMAC.finalize hashClass512)) =
      some (hmac sha512 128 key chunks.flatten) :=
  hmac_of_computes computes512 (length_digest functions512) (by decide) (by decide) hbufs.1
    hbufs.2.1 hbufs.2.2 hkey hlength

theorem chmac_sha512_eq_abc :
    ((CHMAC.new hashClass512 128 64
        (List.replicate 128 0, List.replicate 128 0, List.replicate 128 0) [0x6b]).bind fun hmac =>
      (([[0x61], [0x62, 0x63]] : List (List UInt8)).foldlM (CHMAC.write hashClass512) hmac).bind
        (CHMAC.finalize hashClass512)) =
      some (hmac sha512 128 [0x6b] ([[0x61], [0x62, 0x63]] : List (List UInt8)).flatten) :=
  chmac_sha512_eq _ _ _ _ _
    ⟨List.length_replicate, List.length_replicate, List.length_replicate⟩ (by decide) (by decide)

end Lytix
