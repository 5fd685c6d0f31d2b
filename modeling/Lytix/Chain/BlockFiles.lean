import Lytix.Lib.BoundedLoops
import Lytix.Lib.FreeSpace

/-! `FindBlockPos`, which gives out the space of the block files. A new block goes behind all that a
file holds, and a block that is on disk already moves the end of what its file holds. -/
namespace Lytix
open BoundedLoops FreeSpace

def MAX_BLOCKFILE_SIZE : UInt32 := 0x8000000

theorem toNat_MAX_BLOCKFILE_SIZE : MAX_BLOCKFILE_SIZE.toNat = 134217728 := by decide

def BLOCKFILE_CHUNK_SIZE : UInt32 := 0x1000000

structure CDiskBlockPos where
  nFile : ℕ
  nPos : UInt32
deriving DecidableEq, Repr

structure CBlockFileInfo where
  nBlocks : UInt32 := 0
  nSize : UInt32 := 0
  nUndoSize : UInt32 := 0
  nHeightFirst : UInt32 := 0
  nHeightLast : UInt32 := 0
  nTimeFirst : UInt64 := 0
  nTimeLast : UInt64 := 0
deriving DecidableEq, Repr

/-- It does not update `nSize`. -/
def CBlockFileInfo.addBlock (info : CBlockFileInfo) (nHeightIn : UInt32) (nTimeIn : UInt64) :
    CBlockFileInfo :=
  { info with
    nHeightFirst :=
      if info.nBlocks = 0 ∨ info.nHeightFirst > nHeightIn then nHeightIn else info.nHeightFirst
    nTimeFirst := if info.nBlocks = 0 ∨ info.nTimeFirst > nTimeIn then nTimeIn else info.nTimeFirst
    nBlocks := info.nBlocks + 1
    nHeightLast := if nHeightIn > info.nHeightLast then nHeightIn else info.nHeightLast
    nTimeLast := if nTimeIn > info.nTimeLast then nTimeIn else info.nTimeLast }

structure BlockFiles where
  vinfoBlockFile : List CBlockFileInfo := []
  nLastBlockFile : ℕ := 0
  setDirtyFileInfo : Finset ℕ := ∅

/-- The arguments of a call, and what `CheckDiskSpace` says of the bytes that are wanted. -/
structure FindBlockPosCall where
  pos : CDiskBlockPos
  nAddSize : UInt32
  nHeight : UInt32
  nTime : UInt64
  fKnown : Bool
  checkDiskSpace : UInt32 → Bool

/-- What a call leaves: the error of the state if it returns false, the position and the files. -/
structure FoundBlockPos where
  error : Option String
  pos : CDiskBlockPos
  files : BlockFiles

/-- The table, made longer where it has no entry for the file. -/
def resizeTo (vinfoBlockFile : List CBlockFileInfo) (nFile : ℕ) : List CBlockFileInfo :=
  if vinfoBlockFile.length ≤ nFile then
    vinfoBlockFile ++ List.replicate (nFile + 1 - vinfoBlockFile.length) ({} : CBlockFileInfo)
  else vinfoBlockFile

/-- The entry of a file. A file that the table does not reach is empty. -/
def infoAt (vinfoBlockFile : List CBlockFileInfo) (nFile : ℕ) : CBlockFileInfo :=
  vinfoBlockFile.getD nFile {}

def isFull (nAddSize : UInt32) (s : ℕ × List CBlockFileInfo) : Bool :=
  MAX_BLOCKFILE_SIZE ≤ (infoAt s.2 s.1).nSize + nAddSize

def nextFile (s : ℕ × List CBlockFileInfo) : ℕ × List CBlockFileInfo :=
  (s.1 + 1, resizeTo s.2 (s.1 + 1))

namespace BlockFiles

/-- `FindBlockPos` from where it knows the file. -/
def addTo (files : BlockFiles) (call : FindBlockPosCall) (s : ℕ × List CBlockFileInfo) :
    FoundBlockPos :=
  let nFile := s.1
  let vinfoBlockFile := s.2
  let pos := if call.fKnown then call.pos else ⟨nFile, (infoAt vinfoBlockFile nFile).nSize⟩
  let info := (infoAt vinfoBlockFile nFile).addBlock call.nHeight call.nTime
  let nSize :=
    if call.fKnown then
      -- `std::max` of the end of the block and the size.
      if pos.nPos + call.nAddSize < info.nSize then info.nSize else pos.nPos + call.nAddSize
    else info.nSize + call.nAddSize
  let files := { files with
    vinfoBlockFile := vinfoBlockFile.set nFile { info with nSize := nSize }
    nLastBlockFile := nFile }
  let nOldChunks := (pos.nPos + BLOCKFILE_CHUNK_SIZE - 1) / BLOCKFILE_CHUNK_SIZE
  let nNewChunks := (nSize + BLOCKFILE_CHUNK_SIZE - 1) / BLOCKFILE_CHUNK_SIZE
  if !call.fKnown && nNewChunks > nOldChunks &&
      !call.checkDiskSpace (nNewChunks * BLOCKFILE_CHUNK_SIZE - pos.nPos) then
    ⟨some "out of disk space", pos, files⟩
  else
    ⟨none, pos, { files with setDirtyFileInfo := insert nFile files.setDirtyFileInfo }⟩

/-- `FindBlockPos`, with a bound on the files that the search looks at. -/
def findBlockPos (fuel : ℕ) (files : BlockFiles) (call : FindBlockPosCall) : Option FoundBlockPos :=
  if call.fKnown then
    some (files.addTo call (call.pos.nFile, resizeTo files.vinfoBlockFile call.pos.nFile))
  else do
    let s ← repeatWhile nextFile (isFull call.nAddSize) fuel
      (files.nLastBlockFile, resizeTo files.vinfoBlockFile files.nLastBlockFile)
    some (files.addTo call s)

def nSize (files : BlockFiles) (nFile : ℕ) : UInt32 := (infoAt files.vinfoBlockFile nFile).nSize

end BlockFiles

/-- The bytes of a block of this size, each with its file. -/
def CDiskBlockPos.bytes (pos : CDiskBlockPos) (nSize : UInt32) : Set (ℕ × ℕ) :=
  {byte | byte.1 = pos.nFile ∧ pos.nPos.toNat ≤ byte.2 ∧ byte.2 < pos.nPos.toNat + nSize.toNat}

namespace BlockFiles

/-- The bytes that lie behind what their files hold, and before the end of a file. -/
def free (files : BlockFiles) : Set (ℕ × ℕ) :=
  {byte | (files.nSize byte.1).toNat ≤ byte.2 ∧ byte.2 < MAX_BLOCKFILE_SIZE.toNat}

/-- Calls one after another, each of which meets a condition, and the bytes that they have given. -/
inductive Run (meets : BlockFiles → List (Set (ℕ × ℕ)) → FindBlockPosCall → Prop)
    (start : BlockFiles) : List (Set (ℕ × ℕ)) → BlockFiles → Prop
  | start : Run meets start [] start
  | call {earlier : List (Set (ℕ × ℕ))} {files : BlockFiles} {found : FoundBlockPos}
      (run : Run meets start earlier files) (call : FindBlockPosCall)
      (hmeets : meets files earlier call)
      (hreturns : Returns (fun fuel => files.findBlockPos fuel call) found) :
      Run meets start (earlier ++ [found.pos.bytes call.nAddSize]) found.files

/-- The bytes of a block that is on disk already are apart from all that were given. -/
def KnownApart (_ : BlockFiles) (earlier : List (Set (ℕ × ℕ))) (call : FindBlockPosCall) : Prop :=
  call.fKnown = true → ∀ bytes ∈ earlier, Disjoint (call.pos.bytes call.nAddSize) bytes

/-- No sum that the call takes goes beyond 32 bits where it matters: a block that is on disk ends
before 2^32 or lies behind the end of a file, and before a file whose sum is too large the search
comes to one with room. -/
def SumsFit (files : BlockFiles) (call : FindBlockPosCall) : Prop :=
  if call.fKnown then
    call.pos.nPos.toNat + call.nAddSize.toNat < 2 ^ 32 ∨
      MAX_BLOCKFILE_SIZE.toNat ≤ call.pos.nPos.toNat
  else
    ∀ nFile, files.nLastBlockFile ≤ nFile →
      2 ^ 32 ≤ (files.nSize nFile).toNat + call.nAddSize.toNat →
      ∃ nRoom, files.nLastBlockFile ≤ nRoom ∧ nRoom < nFile ∧
        (files.nSize nRoom).toNat + call.nAddSize.toNat < MAX_BLOCKFILE_SIZE.toNat

/-- The call returns, and what it gives is apart from all that was given and ends before the end of
a file. -/
def GivesUnused (files : BlockFiles) (earlier : List (Set (ℕ × ℕ))) (call : FindBlockPosCall) :
    Prop :=
  Total (fun fuel => files.findBlockPos fuel call) fun found =>
    (∀ bytes ∈ earlier, Disjoint (found.pos.bytes call.nAddSize) bytes) ∧
      found.pos.nPos.toNat + call.nAddSize.toNat < MAX_BLOCKFILE_SIZE.toNat

end BlockFiles

section
variable {vinfoBlockFile : List CBlockFileInfo} {nFile nFile' : ℕ} {info : CBlockFileInfo}

theorem lt_length_resizeTo : nFile < (resizeTo vinfoBlockFile nFile).length := by
  unfold resizeTo
  split
  · rw [List.length_append, List.length_replicate]
    omega
  · omega

@[simp] theorem infoAt_resizeTo :
    infoAt (resizeTo vinfoBlockFile nFile) nFile' = infoAt vinfoBlockFile nFile' := by
  unfold resizeTo infoAt
  split
  · simp only [List.getD_eq_getElem?_getD, List.getElem?_append, List.getElem?_replicate]
    split_ifs with hin hnew
    · rfl
    · have hout := List.getElem?_eq_none (not_lt.mp hin)
      simp [hout]
    · have hout := List.getElem?_eq_none (not_lt.mp hin)
      simp [hout]
  · rfl

theorem infoAt_set (hin : nFile < vinfoBlockFile.length) :
    infoAt (vinfoBlockFile.set nFile info) nFile' =
      if nFile = nFile' then info else infoAt vinfoBlockFile nFile' := by
  unfold infoAt
  rw [List.getD_eq_getElem?_getD, List.getElem?_set]
  split_ifs with hsame
  · rfl
  · rw [List.getD_eq_getElem?_getD]

end

namespace BlockFiles
variable {files : BlockFiles} {call : FindBlockPosCall} {found : FoundBlockPos} {fuel : ℕ}

/-- Where the search for a file is: every file that it has left is full. -/
structure Searching (files : BlockFiles) (nAddSize : UInt32) (s : ℕ × List CBlockFileInfo) :
    Prop where
  within : s.1 < s.2.length
  entries : ∀ nFile, infoAt s.2 nFile = infoAt files.vinfoBlockFile nFile
  onward : files.nLastBlockFile ≤ s.1
  full : ∀ nFile, files.nLastBlockFile ≤ nFile → nFile < s.1 →
    MAX_BLOCKFILE_SIZE ≤ files.nSize nFile + nAddSize

theorem searching_start (nAddSize : UInt32) : files.Searching nAddSize
    (files.nLastBlockFile, resizeTo files.vinfoBlockFile files.nLastBlockFile) := by
  constructor
  · exact lt_length_resizeTo
  · simp
  · exact le_rfl
  · intro nFile hfrom hbefore
    omega

theorem Searching.next {nAddSize : UInt32} {s : ℕ × List CBlockFileInfo}
    (searching : files.Searching nAddSize s) (hfull : isFull nAddSize s = true) :
    files.Searching nAddSize (nextFile s) := by
  constructor
  · exact lt_length_resizeTo
  · intro nFile
    simp [nextFile, searching.entries]
  · exact le_trans searching.onward (Nat.le_succ s.1)
  · intro nFile hfrom hbefore
    rcases Nat.lt_succ_iff_lt_or_eq.mp hbefore with hearlier | rfl
    · exact searching.full nFile hfrom hearlier
    · simpa [isFull, searching.entries, nSize] using hfull

/-- A call that returns for a block that is on disk already. -/
structure KnownFound (files : BlockFiles) (call : FindBlockPosCall) (found : FoundBlockPos) :
    Prop where
  pos : found.pos = call.pos
  nSize : ∀ nFile, found.files.nSize nFile =
    if call.pos.nFile = nFile then
      if call.pos.nPos + call.nAddSize < files.nSize nFile then files.nSize nFile
      else call.pos.nPos + call.nAddSize
    else files.nSize nFile

/-- A call that returns for a new block. -/
structure NewFound (files : BlockFiles) (call : FindBlockPosCall) (found : FoundBlockPos) :
    Prop where
  onward : files.nLastBlockFile ≤ found.pos.nFile
  full : ∀ nFile, files.nLastBlockFile ≤ nFile → nFile < found.pos.nFile →
    MAX_BLOCKFILE_SIZE ≤ files.nSize nFile + call.nAddSize
  room : files.nSize found.pos.nFile + call.nAddSize < MAX_BLOCKFILE_SIZE
  nPos : found.pos.nPos = files.nSize found.pos.nFile
  nSize : ∀ nFile, found.files.nSize nFile =
    if found.pos.nFile = nFile then files.nSize nFile + call.nAddSize else files.nSize nFile

theorem pos_addTo (s : ℕ × List CBlockFileInfo) : (files.addTo call s).pos =
    if call.fKnown then call.pos else ⟨s.1, (infoAt s.2 s.1).nSize⟩ := by
  simp only [addTo, apply_ite FoundBlockPos.pos, ite_self]

theorem nSize_addTo {s : ℕ × List CBlockFileInfo} (hwithin : s.1 < s.2.length) (nFile : ℕ) :
    (files.addTo call s).files.nSize nFile =
      if s.1 = nFile then
        if call.fKnown then
          if call.pos.nPos + call.nAddSize < (infoAt s.2 nFile).nSize then (infoAt s.2 nFile).nSize
          else call.pos.nPos + call.nAddSize
        else (infoAt s.2 nFile).nSize + call.nAddSize
      else (infoAt s.2 nFile).nSize := by
  have htable : (files.addTo call s).files.nSize nFile = (infoAt (s.2.set s.1
      { (infoAt s.2 s.1).addBlock call.nHeight call.nTime with
        nSize := if call.fKnown then
          if call.pos.nPos + call.nAddSize < (infoAt s.2 s.1).nSize then (infoAt s.2 s.1).nSize
          else call.pos.nPos + call.nAddSize
        else (infoAt s.2 s.1).nSize + call.nAddSize }) nFile).nSize := by
    simp only [addTo, BlockFiles.nSize, apply_ite FoundBlockPos.files,
      apply_ite BlockFiles.vinfoBlockFile, ite_self]
    cases call.fKnown <;> rfl
  rw [htable, infoAt_set hwithin]
  by_cases hsame : s.1 = nFile
  · subst hsame
    simp only [if_true]
  · simp only [if_neg hsame]

theorem knownFound (h : files.findBlockPos fuel call = some found) (hknown : call.fKnown = true) :
    files.KnownFound call found := by
  rw [findBlockPos, if_pos hknown, Option.some.injEq] at h
  subst h
  constructor
  · rw [pos_addTo, if_pos hknown]
  · intro nFile
    rw [nSize_addTo lt_length_resizeTo, infoAt_resizeTo, if_pos hknown]
    rfl

theorem Searching.newFound {s : ℕ × List CBlockFileInfo}
    (searching : files.Searching call.nAddSize s) (hroom : isFull call.nAddSize s = false)
    (hnew : call.fKnown = false) : files.NewFound call (files.addTo call s) := by
  have hsizes (nFile : ℕ) : (infoAt s.2 nFile).nSize = files.nSize nFile :=
    congrArg CBlockFileInfo.nSize (searching.entries nFile)
  have hpos : (files.addTo call s).pos = ⟨s.1, files.nSize s.1⟩ := by
    simp [pos_addTo, hnew, hsizes]
  constructor
  · rw [hpos]
    exact searching.onward
  · rw [hpos]
    exact searching.full
  · rw [hpos, ← hsizes]
    simpa [isFull] using hroom
  · rw [hpos]
  · intro nFile
    simp [nSize_addTo searching.within, hpos, hnew, hsizes]

theorem newFound (h : files.findBlockPos fuel call = some found) (hnew : call.fKnown = false) :
    files.NewFound call found := by
  rw [findBlockPos, hnew, if_neg (by simp)] at h
  obtain ⟨s, hsearch, hfound⟩ := Option.bind_eq_some_iff.mp h
  obtain ⟨searching, hroom⟩ := repeatWhile_invariant hsearch (searching_start call.nAddSize)
    fun s searching hfull => searching.next hfull
  rw [← Option.some.inj hfound]
  exact searching.newFound hroom hnew

/-- A sum that fits is the one that the machine takes, and one that does not is smaller than each of
its terms. -/
theorem toNat_sum (nSize nAddSize : UInt32) :
    nSize.toNat + nAddSize.toNat < 2 ^ 32 ∧
        (nSize + nAddSize).toNat = nSize.toNat + nAddSize.toNat ∨
      2 ^ 32 ≤ nSize.toNat + nAddSize.toNat ∧ (nSize + nAddSize).toNat < nSize.toNat ∧
        (nSize + nAddSize).toNat < nAddSize.toNat := by
  have hsum : (nSize + nAddSize).toNat = (nSize.toNat + nAddSize.toNat) % 2 ^ 32 :=
    UInt32.toNat_add nSize nAddSize
  have hsize := nSize.toNat_lt
  have hadd := nAddSize.toNat_lt
  omega

theorem NewFound.ends (hfound : files.NewFound call found) (hnew : call.fKnown = false)
    (hfits : files.SumsFit call) :
    (files.nSize found.pos.nFile + call.nAddSize).toNat =
      (files.nSize found.pos.nFile).toNat + call.nAddSize.toNat := by
  rw [SumsFit, hnew, if_neg (by simp)] at hfits
  rcases toNat_sum (files.nSize found.pos.nFile) call.nAddSize with ⟨-, heq⟩ | ⟨hwraps, -⟩
  · exact heq
  · -- the search has left no file that has room
    obtain ⟨nRoom, hfrom, hbefore, hroom⟩ := hfits found.pos.nFile hfound.onward hwraps
    have hfull := UInt32.le_iff_toNat_le.mp (hfound.full nRoom hfrom hbefore)
    have hmax := toNat_MAX_BLOCKFILE_SIZE
    rcases toNat_sum (files.nSize nRoom) call.nAddSize with ⟨-, heq⟩ | ⟨hwraps', -⟩ <;> omega

theorem NewFound.bytes_le (hfound : files.NewFound call found) (hnew : call.fKnown = false)
    (hfits : files.SumsFit call) : found.pos.bytes call.nAddSize ≤ files.free := by
  rintro ⟨nFile, n⟩ ⟨hfile, hstart, hend⟩
  have hsum := hfound.ends hnew hfits
  have hroom := UInt32.lt_iff_toNat_lt.mp hfound.room
  rw [hfound.nPos] at hstart hend
  obtain rfl : nFile = found.pos.nFile := hfile
  exact ⟨hstart, by omega⟩

theorem NewFound.marks (hfound : files.NewFound call found) (hnew : call.fKnown = false)
    (hfits : files.SumsFit call) :
    Marks files.free (found.pos.bytes call.nAddSize) found.files.free := by
  have hsum := hfound.ends hnew hfits
  constructor
  · rintro ⟨nFile, n⟩ ⟨hstart, hend⟩
    refine ⟨?_, hend⟩
    simp only [hfound.nSize] at hstart
    split_ifs at hstart with hsame
    · subst hsame
      show (files.nSize found.pos.nFile).toNat ≤ n
      omega
    · exact hstart
  · rw [Set.disjoint_left]
    rintro ⟨nFile, n⟩ ⟨hfile, -, hlast⟩ ⟨hstart, -⟩
    obtain rfl : nFile = found.pos.nFile := hfile
    simp only [hfound.nSize, if_true, hfound.nPos] at hstart hlast
    omega

theorem KnownFound.marks (hfound : files.KnownFound call found) (hknown : call.fKnown = true)
    (hfits : files.SumsFit call) :
    Marks files.free (found.pos.bytes call.nAddSize) found.files.free := by
  rw [SumsFit, if_pos hknown] at hfits
  constructor
  · rintro ⟨nFile, n⟩ ⟨hstart, hend⟩
    refine ⟨?_, hend⟩
    simp only [hfound.nSize] at hstart
    show (files.nSize nFile).toNat ≤ n
    split_ifs at hstart with hsame hsmaller
    · exact hstart
    · have hlarger := UInt32.le_iff_toNat_le.mp (UInt32.not_lt.mp hsmaller)
      omega
    · exact hstart
  · rw [Set.disjoint_left]
    rintro ⟨nFile, n⟩ ⟨hfile, hfirst, hlast⟩ ⟨hstart, hend⟩
    rw [hfound.pos] at hfile hfirst hlast
    obtain rfl : nFile = call.pos.nFile := hfile
    simp only [hfound.nSize, if_true] at hstart hfirst hlast hend
    rcases hfits with hsum | hbehind
    · have hexact : (call.pos.nPos + call.nAddSize).toNat =
          call.pos.nPos.toNat + call.nAddSize.toNat := by
        rw [UInt32.toNat_add]
        exact Nat.mod_eq_of_lt hsum
      split_ifs at hstart with hsmaller
      · have hlarger := UInt32.lt_iff_toNat_lt.mp hsmaller
        omega
      · omega
    · omega

theorem marks (h : files.findBlockPos fuel call = some found) (hfits : files.SumsFit call) :
    Marks files.free (found.pos.bytes call.nAddSize) found.files.free := by
  cases hkind : call.fKnown with
  | true => exact (knownFound h hkind).marks hkind hfits
  | false => exact (newFound h hkind).marks hkind hfits

/-- No byte that a run has given is free at its end. -/
theorem Run.unused {start : BlockFiles} {earlier : List (Set (ℕ × ℕ))}
    (run : Run (fun files _ call => files.SumsFit call) start earlier files) :
    Unused earlier files.free := by
  induction run with
  | start => exact unused_nil
  | call run call hfits hreturns ih =>
    obtain ⟨enough, hreturns⟩ := hreturns
    exact ih.mark (marks (hreturns enough le_rfl) hfits)

/-- Behind the end of the table every file has room. -/
theorem findBlockPos_returns (hnew : call.fKnown = false)
    (hsmall : call.nAddSize < MAX_BLOCKFILE_SIZE) :
    Total (fun fuel => files.findBlockPos fuel call) fun found => files.NewFound call found := by
  have hsearch : Total (fun fuel => repeatWhile nextFile (isFull call.nAddSize) fuel
      (files.nLastBlockFile, resizeTo files.vinfoBlockFile files.nLastBlockFile))
      (fun s => files.Searching call.nAddSize s ∧ isFull call.nAddSize s = false) := by
    refine Total.repeatWhile (fun s => files.vinfoBlockFile.length - s.1)
      (searching_start call.nAddSize) ?_
    intro s searching hfull
    refine ⟨searching.next hfull, ?_⟩
    have hwithin : s.1 < files.vinfoBlockFile.length := by
      by_contra hbehind
      have hempty : infoAt files.vinfoBlockFile s.1 = {} := by
        rw [infoAt, List.getD_eq_getElem?_getD, List.getElem?_eq_none (not_lt.mp hbehind)]
        rfl
      simp [isFull, searching.entries, hempty] at hfull
      exact absurd hsmall (UInt32.not_lt.mpr hfull)
    show files.vinfoBlockFile.length - (s.1 + 1) < files.vinfoBlockFile.length - s.1
    omega
  have hcall : (fun fuel => files.findBlockPos fuel call) = fun fuel =>
      repeatWhile nextFile (isFull call.nAddSize) fuel (files.nLastBlockFile,
        resizeTo files.vinfoBlockFile files.nLastBlockFile) >>= fun s =>
          some (files.addTo call s) := by
    funext fuel
    rw [findBlockPos, hnew, if_neg (by simp)]
  rw [hcall]
  exact hsearch.bind fun s hs => Total.pure (hs.1.newFound hs.2 hnew)

/-- What a new block gets ends before the end of a file exactly if the sums fit. -/
theorem ends_iff_sumsFit (hnew : call.fKnown = false)
    (hsmall : call.nAddSize < MAX_BLOCKFILE_SIZE) :
    Total (fun fuel => files.findBlockPos fuel call) (fun found =>
      found.pos.nPos.toNat + call.nAddSize.toNat < MAX_BLOCKFILE_SIZE.toNat) ↔
      files.SumsFit call := by
  constructor
  · intro hends
    obtain ⟨found, -, hfound, hend⟩ := (findBlockPos_returns hnew hsmall).and hends
    rw [hfound.nPos] at hend
    rw [SumsFit, hnew, if_neg (by simp)]
    intro nFile hfrom hwraps
    refine ⟨found.pos.nFile, hfound.onward, ?_, hend⟩
    have hmax := toNat_MAX_BLOCKFILE_SIZE
    have hsize := UInt32.lt_iff_toNat_lt.mp hsmall
    rcases Nat.lt_trichotomy found.pos.nFile nFile with hbefore | rfl | hafter
    · exact hbefore
    · omega
    · -- the search does not leave a file whose sum is too large
      have hfull := UInt32.le_iff_toNat_le.mp (hfound.full nFile hfrom hafter)
      rcases toNat_sum (files.nSize nFile) call.nAddSize with ⟨hfit, -⟩ | ⟨-, -, hless⟩ <;> omega
  · intro hfits
    refine (findBlockPos_returns hnew hsmall).mono fun found hfound => ?_
    have hsum := hfound.ends hnew hfits
    have hroom := UInt32.lt_iff_toNat_lt.mp hfound.room
    rw [hfound.nPos]
    omega

/-- Where the sums of all calls fit, each new block gets bytes that no call has given before. -/
theorem Run.givesUnused {start : BlockFiles} {earlier : List (Set (ℕ × ℕ))}
    (run : Run (fun files _ call => files.SumsFit call) start earlier files)
    (hnew : call.fKnown = false) (hsmall : call.nAddSize < MAX_BLOCKFILE_SIZE)
    (hfits : files.SumsFit call) : files.GivesUnused earlier call := by
  refine ((findBlockPos_returns hnew hsmall).and ((ends_iff_sumsFit hnew hsmall).mpr hfits)).mono ?_
  rintro found ⟨hfound, hends⟩
  exact ⟨run.unused.apart (hfound.bytes_le hnew hfits), hends⟩

/-- The call for a new block. -/
def newBlock (nAddSize : UInt32) : FindBlockPosCall :=
  ⟨⟨0, 0⟩, nAddSize, 1, 1515524400, false, fun _ => true⟩

/-- The call for a block that is read from the first file. -/
def knownBlock (nPos nAddSize : UInt32) : FindBlockPosCall :=
  ⟨⟨0, nPos⟩, nAddSize, 1, 1515524400, true, fun _ => true⟩

/-- The first file, after so many of these calls. -/
def firstFile (nBlocks nSize : UInt32) : BlockFiles where
  vinfoBlockFile := [⟨nBlocks, nSize, 0, 1, 1, 1515524400, 1515524400⟩]
  setDirtyFileInfo := {0}

theorem Run.givesUnused_reindexed :
    (firstFile 1 301).GivesUnused [(⟨0, 8⟩ : CDiskBlockPos).bytes 293] (newBlock 400) := by
  have hread : Returns (fun fuel => findBlockPos fuel {} (knownBlock 8 293))
      ⟨none, ⟨0, 8⟩, firstFile 1 301⟩ := ⟨0, fun _ _ => rfl⟩
  have hfits : ({} : BlockFiles).SumsFit (knownBlock 8 293) := Or.inl (by decide)
  refine Run.givesUnused (Run.start.call (knownBlock 8 293) hfits hread) rfl (by decide) ?_
  intro nFile hfrom hwraps
  cases nFile with
  | zero => exact absurd hwraps (by decide)
  | succ nFile =>
    have hempty : (firstFile 1 301).nSize (nFile + 1) = 0 := rfl
    rw [hempty] at hwraps
    exact absurd hwraps (by decide)

/-- A block that lies at the end of a file of 4 GiB takes the size of the file to where the sum with
the next block is small again, and the block after that gets the bytes of the first. -/
theorem Run.not_givesUnused : ¬ ∀ (start files : BlockFiles) (earlier : List (Set (ℕ × ℕ)))
    (call : FindBlockPosCall), Run KnownApart start earlier files → call.fKnown = false →
      call.nAddSize < MAX_BLOCKFILE_SIZE → files.GivesUnused earlier call := by
  intro h
  have hfirst : Returns (fun fuel => findBlockPos fuel {} (newBlock 100))
      ⟨none, ⟨0, 0⟩, firstFile 1 100⟩ := by
    refine ⟨1, fun fuel hfuel => ?_⟩
    obtain ⟨fuel, rfl⟩ := Nat.exists_eq_add_of_le' hfuel
    rfl
  have hread : Returns (fun fuel => (firstFile 1 100).findBlockPos fuel (knownBlock 4294967280 8))
      ⟨none, ⟨0, 4294967280⟩, firstFile 2 4294967288⟩ := ⟨0, fun _ _ => rfl⟩
  have hwraps : Returns (fun fuel => (firstFile 2 4294967288).findBlockPos fuel (newBlock 100))
      ⟨none, ⟨0, 4294967288⟩, firstFile 3 92⟩ := by
    refine ⟨1, fun fuel hfuel => ?_⟩
    obtain ⟨fuel, rfl⟩ := Nat.exists_eq_add_of_le' hfuel
    rfl
  have hagain : Returns (fun fuel => (firstFile 3 92).findBlockPos fuel (newBlock 50))
      ⟨none, ⟨0, 92⟩, firstFile 4 142⟩ := by
    refine ⟨1, fun fuel hfuel => ?_⟩
    obtain ⟨fuel, rfl⟩ := Nat.exists_eq_add_of_le' hfuel
    rfl
  have hnew (nAddSize : UInt32) (files : BlockFiles) (earlier : List (Set (ℕ × ℕ))) :
      KnownApart files earlier (newBlock nAddSize) := by simp [KnownApart, newBlock]
  have hknown : KnownApart (firstFile 1 100) [(⟨0, 0⟩ : CDiskBlockPos).bytes 100]
      (knownBlock 4294967280 8) := by
    intro _ bytes hbytes
    rw [List.mem_singleton.mp hbytes, Set.disjoint_left]
    rintro ⟨nFile, n⟩ ⟨-, hstart, -⟩ ⟨-, -, hend⟩
    have hfrom : 4294967280 ≤ n := hstart
    have hto : n < 100 := by simpa using hend
    omega
  have run := ((Run.start.call _ (hnew 100 _ _) hfirst).call _ hknown hread).call _
    (hnew 100 _ _) hwraps
  have hgives := h _ _ _ (newBlock 50) run rfl (by decide)
  obtain ⟨found, -, ⟨hapart, -⟩, rfl⟩ := hgives.and ⟨_, hagain, rfl⟩
  have hoverlap := hapart ((⟨0, 0⟩ : CDiskBlockPos).bytes 100) (by simp [newBlock])
  exact Set.disjoint_left.mp hoverlap (show (0, 92) ∈ _ from ⟨rfl, by decide, by decide⟩)
    ⟨rfl, by decide, by decide⟩

end BlockFiles
end Lytix
