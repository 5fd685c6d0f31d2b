import Lytix.Net.NetMessage

/-! What a node has received of the messages that another node sends, whatever pieces their bytes
come in, and that it processes them one by one as they were pushed. -/
namespace Lytix
open Buffers

/-- A command and its payload. -/
abbrev NetMessage := List UInt8 × List UInt8

/-- A message that the other node takes. -/
structure NetMessage.Sendable (m : NetMessage) : Prop where
  command : m.1.length ≤ COMMAND_SIZE
  printable : ∀ c ∈ m.1, 0x20 ≤ c ∧ c ≤ 0x7E
  payload : m.2.length ≤ MAX_PROTOCOL_MESSAGE_LENGTH

section
variable (hash : List UInt8 → List UInt8) (start : List UInt8)

def NetMessage.header (m : NetMessage) : CMessageHeader :=
  { CMessageHeader.new start m.1 m.2.length with
    nChecksum := LittleEndian.value ((hash m.2).take 4) }

def NetMessage.encode (m : NetMessage) : List UInt8 := (m.header hash start).bytes ++ m.2

end

section
variable {hash : List UInt8 → List UInt8} {start : List UInt8} {m : NetMessage}

theorem length_bytes_header (hstart : start.length = 4) :
    (m.header hash start).bytes.length = HEADER_SIZE := by
  simp [NetMessage.header, CMessageHeader.bytes, CMessageHeader.new, hstart, length_resize,
    COMMAND_SIZE, HEADER_SIZE]

theorem length_encode (hstart : start.length = 4) :
    (m.encode hash start).length = HEADER_SIZE + m.2.length := by
  unfold NetMessage.encode
  rw [List.length_append, length_bytes_header hstart]

theorem encode_ne_nil (hstart : start.length = 4) : m.encode hash start ≠ [] := by
  apply List.ne_nil_of_length_pos
  rw [length_encode hstart]
  exact Nat.add_pos_left (by decide) m.2.length

/-- The header is read back. -/
theorem ofBytes_bytes (hstart : start.length = 4) (hm : m.Sendable) :
    CMessageHeader.ofBytes (m.header hash start).bytes = m.header hash start := by
  have hsize : m.2.length < 256 ^ 4 := lt_of_le_of_lt hm.payload (by decide)
  have hsum : LittleEndian.value ((hash m.2).take 4) < 256 ^ 4 := by
    have hlt := LittleEndian.value_lt ((hash m.2).take 4)
    have hle : ((hash m.2).take 4).length ≤ 4 := List.length_take_le _ _
    exact hlt.trans_le (Nat.pow_le_pow_right (by omega) hle)
  have hcommand : (resize m.1 COMMAND_SIZE (0 : UInt8)).length = COMMAND_SIZE := length_resize
  unfold CMessageHeader.ofBytes CMessageHeader.bytes NetMessage.header CMessageHeader.new
  simp only [MESSAGE_START_SIZE, MESSAGE_SIZE_OFFSET, CHECKSUM_OFFSET, List.append_assoc]
  generalize resize m.1 COMMAND_SIZE (0 : UInt8) = command at hcommand
  have hsplit₁ : ∀ rest : List UInt8, (start ++ rest).drop 4 = rest := fun rest =>
    List.drop_left' hstart
  have htwelve : command.length = 12 := hcommand
  have hsplit₂ : ∀ rest : List UInt8, (start ++ (command ++ rest)).drop 16 = rest := by
    intro rest
    rw [← List.append_assoc]
    apply List.drop_left'
    rw [List.length_append]
    omega
  have hsplit₃ : ∀ size rest : List UInt8, size.length = 4 →
      (start ++ (command ++ (size ++ rest))).drop 20 = rest := by
    intro size rest hlength
    rw [← List.append_assoc, ← List.append_assoc]
    apply List.drop_left'
    simp only [List.length_append]
    omega
  rw [hsplit₁, hsplit₂, hsplit₃ _ _ (LittleEndian.length_bytes 4 _), List.take_left' hstart,
    List.take_left' hcommand, List.take_left' (LittleEndian.length_bytes 4 _),
    List.take_of_length_le (LittleEndian.length_bytes 4 _).le, LittleEndian.value_bytes,
    LittleEndian.value_bytes, Nat.mod_eq_of_lt hsize, Nat.mod_eq_of_lt hsum]

theorem resize_command (hm : m.Sendable) :
    resize m.1 COMMAND_SIZE 0 = m.1 ++ List.replicate (COMMAND_SIZE - m.1.length) 0 := by
  unfold resize
  rw [List.take_of_length_le hm.command]

theorem getCommand_header (hm : m.Sendable) : (m.header hash start).getCommand = m.1 := by
  unfold CMessageHeader.getCommand NetMessage.header CMessageHeader.new
  rw [resize_command hm]
  have hnonzero : ∀ c ∈ m.1, decide (c ≠ 0) = true := by
    intro c hc
    have hlow := (hm.printable c hc).1
    simp only [decide_eq_true_eq]
    rintro rfl
    contradiction
  rw [List.takeWhile_append_of_pos hnonzero]
  cases COMMAND_SIZE - m.1.length <;> simp [List.replicate_succ]

theorem validCommand_append {command : List UInt8} {zeros : ℕ}
    (h : ∀ c ∈ command, 0x20 ≤ c ∧ c ≤ 0x7E) :
    CMessageHeader.validCommand (command ++ List.replicate zeros 0) = true := by
  induction command with
  | nil =>
    cases zeros with
    | zero => rfl
    | succ zeros => simp [List.replicate_succ, CMessageHeader.validCommand]
  | cons c command ih =>
    obtain ⟨hlow, hhigh⟩ := h c List.mem_cons_self
    have hne : c ≠ 0 := by
      rintro rfl
      contradiction
    have hrange : ¬(c < 0x20 ∨ 0x7E < c) := by
      rw [not_or]
      exact ⟨UInt8.not_lt.mpr hlow, UInt8.not_lt.mpr hhigh⟩
    rw [List.cons_append, CMessageHeader.validCommand, if_neg hne, if_neg hrange]
    exact ih fun c' hc' => h c' (List.mem_cons_of_mem c hc')

theorem isValid_header (hm : m.Sendable) : (m.header hash start).isValid start = true := by
  have hcommand : CMessageHeader.validCommand (m.header hash start).pchCommand = true := by
    unfold NetMessage.header CMessageHeader.new
    rw [resize_command hm]
    exact validCommand_append hm.printable
  have hsize : (m.header hash start).nMessageSize ≤ MAX_SIZE :=
    le_trans hm.payload (by decide)
  unfold CMessageHeader.isValid
  rw [hcommand, decide_eq_true hsize, Bool.and_true, Bool.and_true]
  exact decide_eq_true rfl

/-- What a message holds of the bytes that have come in for it. -/
structure Holding (msg : CNetMessage) (bytes : List UInt8) : Prop where
  length_hdrbuf : msg.hdrbuf.length = HEADER_SIZE
  hdrPos : msg.nHdrPos = min HEADER_SIZE bytes.length
  hdrbuf : msg.hdrbuf.take msg.nHdrPos = bytes.take HEADER_SIZE
  inData : msg.inData = decide (HEADER_SIZE ≤ bytes.length)
  hdr : HEADER_SIZE ≤ bytes.length → msg.hdr = CMessageHeader.ofBytes (bytes.take HEADER_SIZE)
  dataPos : msg.nDataPos = bytes.length - HEADER_SIZE
  room : msg.nDataPos ≤ msg.vRecv.length
  vRecv : msg.vRecv.take msg.nDataPos = bytes.drop HEADER_SIZE
  early : bytes.length < HEADER_SIZE → msg.vRecv = []
  size : HEADER_SIZE ≤ bytes.length → msg.vRecv.length ≤ msg.hdr.nMessageSize

theorem holding_new : Holding (CNetMessage.new start) [] where
  length_hdrbuf := List.length_replicate
  hdrPos := rfl
  hdrbuf := rfl
  inData := rfl
  hdr := fun h => absurd h (by decide)
  dataPos := rfl
  room := le_rfl
  vRecv := rfl
  early := fun _ => rfl
  size := fun h => absurd h (by decide)

variable {msg : CNetMessage} {part rest pch : List UInt8}

theorem take_header (hstart : start.length = 4) (hpart : part <+: m.encode hash start)
    (hlength : HEADER_SIZE ≤ part.length) :
    part.take HEADER_SIZE = (m.header hash start).bytes := by
  obtain ⟨tail, htail⟩ := hpart
  have hfirst := congrArg (List.take HEADER_SIZE) htail
  rw [List.take_append_of_le_length hlength] at hfirst
  rw [hfirst]
  exact List.take_left' (length_bytes_header hstart)

theorem Holding.hdr_eq (h : Holding msg part) (hstart : start.length = 4) (hm : m.Sendable)
    (hpart : part <+: m.encode hash start) (hlength : HEADER_SIZE ≤ part.length) :
    msg.hdr = m.header hash start := by
  rw [h.hdr hlength, take_header hstart hpart hlength, ofBytes_bytes hstart hm]

theorem Holding.complete_iff (h : Holding msg part) (hstart : start.length = 4) (hm : m.Sendable)
    (hpart : part <+: m.encode hash start) :
    msg.complete = true ↔ part = m.encode hash start := by
  unfold CNetMessage.complete
  rw [Bool.and_eq_true, decide_eq_true_eq, h.inData, decide_eq_true_eq, h.dataPos]
  have hwhole : (m.encode hash start).length = HEADER_SIZE + m.2.length := length_encode hstart
  constructor
  · rintro ⟨hlength, hsize⟩
    rw [h.hdr_eq hstart hm hpart hlength] at hsize
    have hpayload : m.2.length = part.length - HEADER_SIZE := hsize
    exact hpart.eq_of_length (by omega)
  · intro heq
    have hlength : HEADER_SIZE ≤ part.length := by
      rw [heq, hwhole]
      omega
    refine ⟨hlength, ?_⟩
    rw [h.hdr_eq hstart hm hpart hlength, heq, hwhole, Nat.add_sub_cancel_left]
    rfl

/-- The header takes what it lacks. -/
theorem Holding.readHeader {k : ℕ} (h : Holding msg part) (hshort : part.length < HEADER_SIZE)
    (hk : k = min (HEADER_SIZE - part.length) pch.length)
    (hsize : HEADER_SIZE ≤ (part ++ pch.take k).length →
      (CMessageHeader.ofBytes ((part ++ pch.take k).take HEADER_SIZE)).nMessageSize ≤ MAX_SIZE) :
    ∃ msg', msg.readHeader pch = some (msg', (k : ℤ)) ∧ Holding msg' (part ++ pch.take k) := by
  have hpos : msg.nHdrPos = part.length := by
    rw [h.hdrPos]
    omega
  have htaken : (pch.take k).length = k := by
    rw [List.length_take]
    omega
  have hlength : (part ++ pch.take k).length = part.length + k := by
    rw [List.length_append, htaken]
  have hfits : part.length + (pch.take k).length ≤ msg.hdrbuf.length := by
    rw [htaken, h.length_hdrbuf]
    omega
  obtain ⟨hdrbuf, hcopy, hlength', htake⟩ := copyAt_of_le hfits
  have hold : msg.hdrbuf.take part.length = part := by
    have hbuf := h.hdrbuf
    rw [hpos, List.take_of_length_le hshort.le] at hbuf
    exact hbuf
  rw [htaken, hold] at htake
  rw [h.length_hdrbuf] at hlength'
  have hvRecv : msg.vRecv = [] := h.early hshort
  have hdataPos : msg.nDataPos = 0 := by
    rw [h.dataPos]
    omega
  unfold CNetMessage.readHeader
  rw [hpos, ← hk]
  dsimp only
  rw [hcopy]
  by_cases hmore : part.length + k < HEADER_SIZE
  · refine ⟨_, if_pos hmore, ?_⟩
    have hlt : (part ++ pch.take k).length < HEADER_SIZE := by omega
    exact
      { length_hdrbuf := hlength'
        hdrPos := by
          show part.length + k = _
          omega
        hdrbuf := by
          show hdrbuf.take (part.length + k) = _
          rw [htake, List.take_of_length_le hlt.le]
        inData := by
          show msg.inData = _
          rw [h.inData, decide_eq_false (by omega), decide_eq_false (by omega)]
        hdr := fun hle => absurd hle (by omega)
        dataPos := by
          show msg.nDataPos = _
          omega
        room := h.room
        vRecv := by
          show msg.vRecv.take msg.nDataPos = _
          rw [hvRecv, List.take_nil, List.drop_eq_nil_of_le hlt.le]
        early := fun _ => hvRecv
        size := fun hle => absurd hle (by omega) }
  · have hwhole : part.length + k = HEADER_SIZE := by omega
    have hle : HEADER_SIZE ≤ (part ++ pch.take k).length := by omega
    have hbuf : hdrbuf = (part ++ pch.take k).take HEADER_SIZE := by
      rw [hwhole, List.take_of_length_le hlength'.le] at htake
      have hend : (part ++ pch.take k).length ≤ HEADER_SIZE := by omega
      rw [htake, List.take_of_length_le hend]
    have hbounded : ¬MAX_SIZE < (CMessageHeader.ofBytes hdrbuf).nMessageSize := by
      rw [hbuf]
      exact not_lt.mpr (hsize hle)
    refine ⟨_, (if_neg hmore).trans (if_neg hbounded), ?_⟩
    exact
      { length_hdrbuf := hlength'
        hdrPos := by
          show part.length + k = _
          omega
        hdrbuf := by
          show hdrbuf.take (part.length + k) = _
          rw [hwhole, hbuf, List.take_take, min_self]
        inData := (decide_eq_true hle).symm
        hdr := fun _ => congrArg CMessageHeader.ofBytes hbuf
        dataPos := by
          show msg.nDataPos = _
          omega
        room := h.room
        vRecv := by
          show msg.vRecv.take msg.nDataPos = _
          rw [hvRecv, List.take_nil, List.drop_eq_nil_of_le (by omega)]
        early := fun _ => hvRecv
        size := fun _ => by
          show msg.vRecv.length ≤ _
          rw [hvRecv]
          exact Nat.zero_le _ }

/-- The data takes what it lacks. -/
theorem Holding.readData {k : ℕ} (h : Holding msg part) (hlong : HEADER_SIZE ≤ part.length)
    (hk : k = min (msg.hdr.nMessageSize - msg.nDataPos) pch.length) :
    ∃ msg', msg.readData pch = some (msg', (k : ℤ)) ∧ Holding msg' (part ++ pch.take k) := by
  have htaken : (pch.take k).length = k := by
    rw [List.length_take]
    omega
  have hlength : (part ++ pch.take k).length = part.length + k := by
    rw [List.length_append, htaken]
  have hdataPos : msg.nDataPos = part.length - HEADER_SIZE := h.dataPos
  have hroom : msg.nDataPos ≤ msg.vRecv.length := h.room
  have hsize : msg.vRecv.length ≤ msg.hdr.nMessageSize := h.size hlong
  obtain ⟨grown, hgrown, hfits, hbounded, hkept⟩ : ∃ grown : List UInt8,
      (if msg.vRecv.length < msg.nDataPos + k then
        resize msg.vRecv (min msg.hdr.nMessageSize (msg.nDataPos + k + 256 * 1024)) 0
      else msg.vRecv) = grown ∧ msg.nDataPos + k ≤ grown.length ∧
      grown.length ≤ msg.hdr.nMessageSize ∧
      grown.take msg.nDataPos = msg.vRecv.take msg.nDataPos := by
    by_cases hgrow : msg.vRecv.length < msg.nDataPos + k
    · refine ⟨_, if_pos hgrow, ?_, ?_, ?_⟩
      · rw [length_resize]
        omega
      · rw [length_resize]
        exact min_le_left _ _
      · exact take_resize hroom (by omega)
    · exact ⟨_, if_neg hgrow, by omega, hsize, rfl⟩
  have hcopies : msg.nDataPos + (pch.take k).length ≤ grown.length := by omega
  obtain ⟨vRecv, hcopy, hlength', htake⟩ := copyAt_of_le hcopies
  rw [htaken, hkept, h.vRecv] at htake
  have hdrop : (part ++ pch.take k).drop HEADER_SIZE = part.drop HEADER_SIZE ++ pch.take k :=
    List.drop_append_of_le_length hlong
  have hsame : (part ++ pch.take k).take HEADER_SIZE = part.take HEADER_SIZE :=
    List.take_append_of_le_length hlong
  unfold CNetMessage.readData
  rw [← hk]
  dsimp only
  rw [hgrown, hcopy]
  refine ⟨_, rfl, ?_⟩
  exact
    { length_hdrbuf := h.length_hdrbuf
      hdrPos := by
        show msg.nHdrPos = _
        rw [h.hdrPos]
        omega
      hdrbuf := by
        show msg.hdrbuf.take msg.nHdrPos = _
        rw [hsame, h.hdrbuf]
      inData := by
        show msg.inData = _
        rw [h.inData, decide_eq_true hlong, decide_eq_true (by omega)]
      hdr := fun _ => by
        show msg.hdr = _
        rw [hsame, h.hdr hlong]
      dataPos := by
        show msg.nDataPos + k = _
        omega
      room := by
        show msg.nDataPos + k ≤ vRecv.length
        omega
      vRecv := by
        show vRecv.take (msg.nDataPos + k) = _
        rw [htake, hdrop]
      early := fun hlt => absurd hlt (by omega)
      size := fun _ => by
        show vRecv.length ≤ msg.hdr.nMessageSize
        omega }

/-- A message takes what it lacks of the bytes that come in, and nothing of the next message. -/
theorem Holding.read {tail : List UInt8} (h : Holding msg part) (hstart : start.length = 4)
    (hm : m.Sendable) (hpart : part <+: m.encode hash start) (hne : part ≠ m.encode hash start)
    (hbytes : part ++ (pch ++ rest) = m.encode hash start ++ tail) (hpch : pch ≠ []) :
    ∃ msg', ∃ k : ℕ, msg.read pch = some (msg', (k : ℤ)) ∧ 0 < k ∧ k ≤ pch.length ∧
      Holding msg' (part ++ pch.take k) ∧ part ++ pch.take k <+: m.encode hash start := by
  have hwhole : (m.encode hash start).length = HEADER_SIZE + m.2.length := length_encode hstart
  have hlt : part.length < (m.encode hash start).length := by
    apply lt_of_le_of_ne hpart.length_le
    intro heq
    exact hne (hpart.eq_of_length heq)
  have hpos : 0 < pch.length := List.length_pos_iff.mpr hpch
  have hwithin : ∀ k ≤ pch.length, part.length + k ≤ (m.encode hash start).length →
      part ++ pch.take k <+: m.encode hash start := by
    intro k hk hle
    have hleft : part ++ pch.take k <+: part ++ (pch ++ rest) := by
      rw [List.prefix_append_right_inj]
      exact (List.take_prefix k pch).trans (List.prefix_append pch rest)
    have hright : m.encode hash start <+: part ++ (pch ++ rest) := ⟨tail, hbytes.symm⟩
    apply List.prefix_of_prefix_length_le hleft hright
    rw [List.length_append, List.length_take]
    omega
  unfold CNetMessage.read
  by_cases hshort : part.length < HEADER_SIZE
  · have hin : msg.inData = false := by
      rw [h.inData, decide_eq_false (by omega)]
    obtain ⟨k, hk⟩ : ∃ k, k = min (HEADER_SIZE - part.length) pch.length := ⟨_, rfl⟩
    have hstill := hwithin k (by omega) (by omega)
    have hsize : HEADER_SIZE ≤ (part ++ pch.take k).length →
        (CMessageHeader.ofBytes ((part ++ pch.take k).take HEADER_SIZE)).nMessageSize ≤
          MAX_SIZE := by
      intro hle
      rw [take_header hstart hstill hle, ofBytes_bytes hstart hm]
      exact le_trans hm.payload (by decide)
    obtain ⟨msg', hread, hholding⟩ := h.readHeader hshort hk hsize
    rw [hin]
    exact ⟨msg', k, hread, by omega, by omega, hholding, hstill⟩
  · have hlong : HEADER_SIZE ≤ part.length := not_lt.mp hshort
    have hin : msg.inData = true := by
      rw [h.inData, decide_eq_true hlong]
    have hsize : msg.hdr.nMessageSize = m.2.length := by
      rw [h.hdr_eq hstart hm hpart hlong]
      rfl
    have hdataPos := h.dataPos
    obtain ⟨k, hk⟩ : ∃ k, k = min (msg.hdr.nMessageSize - msg.nDataPos) pch.length := ⟨_, rfl⟩
    obtain ⟨msg', hread, hholding⟩ := h.readData hlong hk
    rw [hin]
    exact ⟨msg', k, hread, by omega, by omega, hholding, hwithin k (by omega) (by omega)⟩

/-- A whole message is there as it was pushed. -/
theorem Holding.vRecv_eq (h : Holding msg (m.encode hash start)) (hstart : start.length = 4)
    (hm : m.Sendable) : msg.vRecv = m.2 := by
  have hwhole : (m.encode hash start).length = HEADER_SIZE + m.2.length := length_encode hstart
  have hlong : HEADER_SIZE ≤ (m.encode hash start).length := by omega
  have hsize := h.size hlong
  rw [h.hdr_eq hstart hm List.prefix_rfl hlong] at hsize
  have hdataPos := h.dataPos
  have hall : msg.vRecv.length ≤ msg.nDataPos := by
    have hpayload : msg.vRecv.length ≤ m.2.length := hsize
    omega
  have htake := h.vRecv
  rw [List.take_of_length_le hall] at htake
  rw [htake]
  unfold NetMessage.encode
  exact List.drop_left' (length_bytes_header hstart)

end

/-- What a queue holds of messages that have come in whole. -/
def WholeMessages (hash : List UInt8 → List UInt8) (start : List UInt8) (queue : RecvQueue)
    (done : List NetMessage) : Prop :=
  List.Forall₂ (fun msg m => Holding msg (m.encode hash start)) queue done

/-- What the receiver has, where `waiting` are the messages that it has to process and `rest` are
the bytes that it has yet to receive. -/
inductive Receives (hash : List UInt8 → List UInt8) (start : List UInt8) :
    RecvQueue → List NetMessage → List UInt8 → Prop
  | between {queue done} (later : List NetMessage) (h : WholeMessages hash start queue done) :
    Receives hash start queue (done ++ later) (later.flatMap (·.encode hash start))
  | within {front done part rest} (msg : CNetMessage) (m : NetMessage) (later : List NetMessage)
    (h : WholeMessages hash start front done) (hmsg : Holding msg part)
    (hpart : part <+: m.encode hash start) (hne : part ≠ m.encode hash start)
    (hbytes : part ++ rest = (m :: later).flatMap (·.encode hash start)) :
    Receives hash start (front ++ [msg]) (done ++ m :: later) rest

section
variable {hash : List UInt8 → List UInt8} {start rest : List UInt8} {queue : RecvQueue}
  {waiting : List NetMessage}

theorem receives_nil : Receives hash start [] [] [] := .between [] List.Forall₂.nil

/-- One more message is pushed. -/
theorem Receives.push (h : Receives hash start queue waiting rest) (m : NetMessage) :
    Receives hash start queue (waiting ++ [m]) (rest ++ m.encode hash start) := by
  cases h with
  | between later h =>
    have hnext := Receives.between (later ++ [m]) h
    rw [List.flatMap_append, List.flatMap_singleton, ← List.append_assoc] at hnext
    exact hnext
  | @within front done part _ msg first later h hmsg hpart hne hbytes =>
    have hall : part ++ (rest ++ m.encode hash start) =
        (first :: (later ++ [m])).flatMap (·.encode hash start) := by
      rw [← List.append_assoc, hbytes, ← List.cons_append, List.flatMap_append,
        List.flatMap_singleton]
    have hmore := Receives.within msg first (later ++ [m]) h hmsg hpart hne hall
    rw [← List.cons_append, ← List.append_assoc] at hmore
    exact hmore

theorem WholeMessages.complete (h : WholeMessages hash start queue waiting)
    (hstart : start.length = 4) (hm : ∀ m ∈ waiting, m.Sendable) :
    ∀ msg ∈ queue, msg.complete = true := by
  induction h with
  | nil => simp
  | cons hfirst _ ih =>
    intro msg hmsg
    cases hmsg with
    | head =>
      have hsendable := hm _ List.mem_cons_self
      exact (hfirst.complete_iff hstart hsendable List.prefix_rfl).mpr rfl
    | tail _ hmem => exact ih (fun m' hm' => hm m' (List.mem_cons_of_mem _ hm')) msg hmem

theorem flatMap_encode_eq_nil (hstart : start.length = 4) :
    waiting.flatMap (·.encode hash start) = [] → waiting = [] := by
  intro hnil
  cases waiting with
  | nil => rfl
  | cons m later =>
    rw [List.flatMap_cons] at hnil
    exact absurd (List.append_eq_nil_iff.mp hnil).1 (encode_ne_nil hstart)

variable {pch : List UInt8}

/-- The message that takes the next bytes. -/
theorem Receives.exists_current (h : Receives hash start queue waiting (pch ++ rest))
    (hpch : pch ≠ []) (hstart : start.length = 4) (hm : ∀ m ∈ waiting, m.Sendable) :
    ∃ front msg done m later part, waiting = done ++ m :: later ∧
      queue.current start = (front, msg) ∧ WholeMessages hash start front done ∧ Holding msg part ∧
      part <+: m.encode hash start ∧ part ≠ m.encode hash start ∧
      part ++ (pch ++ rest) = (m :: later).flatMap (·.encode hash start) := by
  unfold RecvQueue.current
  generalize hbytes : pch ++ rest = bytes at h
  cases h with
  | @between _ done later hwhole =>
    cases later with
    | nil => exact absurd (List.append_eq_nil_iff.mp hbytes).1 hpch
    | cons m later =>
      have hne : [] ≠ m.encode hash start := (encode_ne_nil hstart).symm
      refine ⟨queue, CNetMessage.new start, done, m, later, [], rfl, ?_, hwhole, holding_new,
        List.nil_prefix, hne, rfl⟩
      cases hlast : queue.getLast? with
      | none => rw [List.getLast?_eq_none_iff.mp hlast]
      | some msg =>
        have hdone : ∀ m ∈ done, m.Sendable := fun m' hm' => hm m' (List.mem_append_left _ hm')
        have hcomplete := hwhole.complete hstart hdone msg (List.mem_of_getLast? hlast)
        exact if_pos hcomplete
  | @within front done part _ msg m later hwhole hmsg hpart hne hall =>
    have hsendable : m.Sendable := hm m (by simp)
    have hopen : ¬msg.complete = true := by
      rw [hmsg.complete_iff hstart hsendable hpart]
      exact hne
    refine ⟨front, msg, done, m, later, part, rfl, ?_, hwhole, hmsg, hpart, hne, hall⟩
    rw [List.getLast?_concat, List.dropLast_concat]
    exact if_neg hopen

theorem Receives.receiveLoop {rounds : ℕ} (h : Receives hash start queue waiting (pch ++ rest))
    (hstart : start.length = 4) (hm : ∀ m ∈ waiting, m.Sendable) (hrounds : pch.length ≤ rounds) :
    ∃ queue', RecvQueue.receiveLoop start rounds queue pch = some (queue', true) ∧
      Receives hash start queue' waiting rest := by
  induction rounds generalizing queue pch with
  | zero =>
    obtain rfl : pch = [] := List.eq_nil_of_length_eq_zero (by omega)
    exact ⟨queue, rfl, h⟩
  | succ rounds ih =>
    cases hbytes : pch with
    | nil =>
      rw [hbytes] at h
      exact ⟨queue, rfl, h⟩
    | cons b tail =>
      have hpch : pch ≠ [] := by simp [hbytes]
      obtain ⟨front, msg, done, m, later, part, rfl, hcurrent, hwhole, hmsg, hpart, hne, hall⟩ :=
        h.exists_current hpch hstart hm
      have hsendable : m.Sendable := hm m (by simp)
      obtain ⟨msg', k, hread, hpos, hle, hmsg', hpart'⟩ :=
        hmsg.read hstart hsendable hpart hne hall hpch
      have hrest : part ++ pch.take k ++ (pch.drop k ++ rest) =
          (m :: later).flatMap (·.encode hash start) := by
        rw [List.append_assoc, ← List.append_assoc (pch.take k), List.take_append_drop]
        exact hall
      have hnext : Receives hash start (front ++ [msg']) (done ++ m :: later)
          (pch.drop k ++ rest) := by
        by_cases heq : part ++ pch.take k = m.encode hash start
        · have hdone : WholeMessages hash start (front ++ [msg']) (done ++ [m]) := by
            refine List.rel_append hwhole (List.Forall₂.cons ?_ List.Forall₂.nil)
            rw [← heq]
            exact hmsg'
          rw [heq, List.flatMap_cons, List.append_cancel_left_eq] at hrest
          rw [hrest, List.append_cons done]
          exact Receives.between later hdone
        · exact Receives.within msg' m later hwhole hmsg' hpart' heq hrest
      have hsmall : ¬(msg'.inData = true ∧
          MAX_PROTOCOL_MESSAGE_LENGTH < msg'.hdr.nMessageSize) := by
        rintro ⟨hin, hlarge⟩
        rw [hmsg'.inData, decide_eq_true_eq] at hin
        rw [hmsg'.hdr_eq hstart hsendable hpart' hin] at hlarge
        exact absurd hsendable.payload (not_le.mpr hlarge)
      have hfewer : (pch.drop k).length ≤ rounds := by
        rw [List.length_drop]
        omega
      obtain ⟨queue', hloop, hreceives⟩ := ih hnext hfewer
      refine ⟨queue', ?_, hreceives⟩
      rw [hbytes] at hread
      unfold RecvQueue.receiveLoop
      rw [hcurrent]
      have hhandled : ¬(k : ℤ) < 0 := by omega
      dsimp only
      rw [hread, Option.bind_eq_bind, Option.bind_some]
      dsimp only
      rw [if_neg hhandled, if_neg hsmall, Int.toNat_natCast, ← hbytes]
      exact hloop

theorem processLoop_whole {msg : CNetMessage} {m : NetMessage}
    (h : Holding msg (m.encode hash start)) (hstart : start.length = 4) (hm : m.Sendable) :
    RecvQueue.processLoop hash start (msg :: queue) = (queue, true, some m) := by
  have hcomplete : msg.complete = true := (h.complete_iff hstart hm List.prefix_rfl).mpr rfl
  have hlong : HEADER_SIZE ≤ (m.encode hash start).length := by
    rw [length_encode hstart]
    omega
  have hhdr : msg.hdr = m.header hash start := h.hdr_eq hstart hm List.prefix_rfl hlong
  have hvRecv : msg.vRecv = m.2 := h.vRecv_eq hstart hm
  have hpayload : m.2.take (m.header hash start).nMessageSize = m.2 := List.take_length
  unfold RecvQueue.processLoop
  rw [hcomplete, hhdr, isValid_header hm, hvRecv, hpayload, getCommand_header hm]
  simp [NetMessage.header, CMessageHeader.new]

/-- The receiver processes nothing, or the message whose turn it is. -/
theorem Receives.processLoop (h : Receives hash start queue waiting rest)
    (hstart : start.length = 4) (hm : ∀ m ∈ waiting, m.Sendable) :
    RecvQueue.processLoop hash start queue = (queue, true, none) ∨
      ∃ m waiting' queue', waiting = m :: waiting' ∧
        RecvQueue.processLoop hash start queue = (queue', true, some m) ∧
        Receives hash start queue' waiting' rest := by
  cases h with
  | between later hwhole =>
    cases hwhole with
    | nil => exact Or.inl rfl
    | @cons msg m queue' done hfirst hlast =>
      have hprocess : RecvQueue.processLoop hash start (msg :: queue') = (queue', true, some m) :=
        processLoop_whole hfirst hstart (hm m (by simp))
      exact Or.inr ⟨m, done ++ later, queue', rfl, hprocess, .between later hlast⟩
  | @within front done part _ msg last later hwhole hmsg hpart hne hbytes =>
    cases hwhole with
    | nil =>
      have hopen : msg.complete = false := by
        rw [← Bool.not_eq_true, hmsg.complete_iff hstart (hm last (by simp)) hpart]
        exact hne
      refine Or.inl ?_
      rw [List.nil_append]
      unfold RecvQueue.processLoop
      rw [hopen]
      rfl
    | @cons first m front done hfirst hlast =>
      have hprocess : RecvQueue.processLoop hash start (first :: (front ++ [msg])) =
          (front ++ [msg], true, some m) := processLoop_whole hfirst hstart (hm m (by simp))
      exact Or.inr ⟨m, done ++ last :: later, front ++ [msg], rfl, hprocess,
        .within msg last later hlast hmsg hpart hne hbytes⟩


/-- When nothing is on its way any more, everything has come in whole. -/
theorem Receives.whole (h : Receives hash start queue waiting []) (hstart : start.length = 4) :
    WholeMessages hash start queue waiting := by
  generalize hrest : ([] : List UInt8) = rest at h
  cases h with
  | between later hwhole =>
    rw [flatMap_encode_eq_nil hstart hrest.symm, List.append_nil]
    exact hwhole
  | within msg m later hwhole hmsg hpart hne hbytes =>
    exfalso
    rw [← hrest, List.append_nil, List.flatMap_cons] at hbytes
    have hlength := congrArg List.length hbytes
    rw [List.length_append] at hlength
    exact hne (hpart.eq_of_length (le_antisymm hpart.length_le (by omega)))

theorem WholeMessages.messages (h : WholeMessages hash start queue waiting)
    (hstart : start.length = 4) (hm : ∀ m ∈ waiting, m.Sendable) :
    queue.map (fun msg => (msg.hdr.getCommand, msg.vRecv)) = waiting := by
  induction h with
  | nil => rfl
  | @cons msg m queue waiting hfirst hlater ih =>
    have hsendable : m.Sendable := hm m List.mem_cons_self
    have hlong : HEADER_SIZE ≤ (m.encode hash start).length := by
      rw [length_encode hstart]
      omega
    have hhdr : msg.hdr = m.header hash start :=
      hfirst.hdr_eq hstart hsendable List.prefix_rfl hlong
    rw [List.map_cons, ih fun m' hm' => hm m' (List.mem_cons_of_mem m hm'), hhdr,
      getCommand_header hsendable, hfirst.vRecv_eq hstart hsendable]

end
end Lytix
