import Lytix.Lib.Runs
import Lytix.Net.ReceiveMessages

/-! Whatever pieces the bytes travel in, and in whatever order both nodes do their parts, each
message that is pushed is processed once, in its turn and as it was pushed. -/
namespace Lytix
open Buffers

/-- The bytes of the queued messages that are not sent. -/
structure Unsent (msgs : List (List UInt8)) (nSendOffset nSendSize : ℕ) (bytes : List UInt8) :
    Prop where
  bytes_eq : bytes = msgs.flatten.drop nSendOffset
  size : nSendSize = msgs.flatten.length
  offset : ∀ data ∈ msgs.head?, nSendOffset < data.length
  empty : msgs = [] → nSendOffset = 0
  nonempty : ∀ data ∈ msgs, data ≠ []

def SendQueue.Unsent (queue : SendQueue) (bytes : List UInt8) : Prop :=
  Lytix.Unsent queue.vSendMsg queue.nSendOffset queue.nSendSize bytes

section
variable {queue : SendQueue} {unsent wire data : List UInt8} {taken : List ℕ}
  {msgs : List (List UInt8)} {offset size : ℕ}

theorem unsent_nil : Unsent [] 0 0 [] where
  bytes_eq := rfl
  size := rfl
  offset := by simp
  empty := fun _ => rfl
  nonempty := by simp

theorem Unsent.cons (h : Unsent (data :: msgs) offset size unsent) :
    offset < data.length ∧ unsent = data.drop offset ++ msgs.flatten := by
  have hoffset : offset < data.length := h.offset data rfl
  refine ⟨hoffset, ?_⟩
  rw [h.bytes_eq, List.flatten_cons]
  exact List.drop_append_of_le_length hoffset.le

/-- The first message is sent whole. -/
theorem Unsent.tail (h : Unsent (data :: msgs) offset size unsent) :
    Unsent msgs 0 (size - data.length) msgs.flatten where
  bytes_eq := rfl
  size := by
    rw [h.size, List.flatten_cons, List.length_append, Nat.add_sub_cancel_left]
  offset := by
    intro next hnext
    have hne := h.nonempty next (List.mem_cons_of_mem _ (List.mem_of_mem_head? hnext))
    exact List.length_pos_iff.mpr hne
  empty := fun _ => rfl
  nonempty := fun next hnext => h.nonempty next (List.mem_cons_of_mem _ hnext)

/-- Some bytes of the first message are sent. -/
theorem Unsent.part {nBytes : ℕ} (h : Unsent (data :: msgs) offset size unsent)
    (hlt : offset + nBytes < data.length) :
    Unsent (data :: msgs) (offset + nBytes) size
      (data.drop (offset + nBytes) ++ msgs.flatten) where
  bytes_eq := by
    rw [List.flatten_cons, List.drop_append_of_le_length hlt.le]
  size := h.size
  offset := by
    intro next hnext
    obtain rfl : data = next := Option.some.inj hnext
    exact hlt
  empty := fun hnil => absurd hnil (List.cons_ne_nil _ _)
  nonempty := h.nonempty

/-- What is pushed comes behind the rest. -/
theorem Unsent.push (h : Unsent msgs offset size unsent) (hne : data ≠ []) :
    Unsent (msgs ++ [data]) offset (size + data.length) (unsent ++ data) where
  bytes_eq := by
    have hwithin : offset ≤ msgs.flatten.length := by
      cases msgs with
      | nil =>
        rw [h.empty rfl]
        exact Nat.zero_le _
      | cons first msgs =>
        have hoffset := h.cons.1
        rw [List.flatten_cons, List.length_append]
        omega
    rw [List.flatten_concat, List.drop_append_of_le_length hwithin, h.bytes_eq]
  size := by
    rw [List.flatten_concat, List.length_append, h.size]
  offset := by
    intro first hfirst
    cases msgs with
    | nil =>
      obtain rfl : data = first := Option.some.inj hfirst
      rw [h.empty rfl]
      exact List.length_pos_iff.mpr hne
    | cons next msgs => exact h.offset first hfirst
  empty := fun hnil => absurd hnil (by simp)
  nonempty := by
    intro next hnext
    rcases List.mem_append.mp hnext with hold | hnew
    · exact h.nonempty next hold
    · rw [List.mem_singleton.mp hnew]
      exact hne

theorem Unsent.of_nil (h : Unsent [] offset size unsent) : offset = 0 ∧ size = 0 ∧ unsent = [] := by
  refine ⟨h.empty rfl, h.size, ?_⟩
  rw [h.bytes_eq]
  exact List.drop_nil

/-- What goes over the socket is what comes next. -/
theorem Unsent.sendLoop (h : Unsent msgs queue.nSendOffset queue.nSendSize unsent) :
    ∃ queue' sent unsent', SendQueue.sendLoop taken queue msgs wire = some (queue', wire ++ sent) ∧
      unsent = sent ++ unsent' ∧ queue'.Unsent unsent' := by
  induction msgs generalizing taken queue unsent wire with
  | nil =>
    obtain ⟨hoffset, hsize, hunsent⟩ := h.of_nil
    refine ⟨⟨[], 0, 0⟩, [], [], ?_, hunsent, unsent_nil⟩
    rw [List.append_nil]
    exact if_pos ⟨hoffset, hsize⟩
  | cons data msgs ih =>
    obtain ⟨hoffset, hunsent⟩ := h.cons
    obtain ⟨nBytes, hBytes⟩ : ∃ nBytes, nBytes =
      min (taken.headD 0) (data.length - queue.nSendOffset) := ⟨_, rfl⟩
    unfold SendQueue.sendLoop
    rw [if_neg (not_le.mpr hoffset), ← hBytes]
    dsimp only
    by_cases hzero : nBytes = 0
    · rw [if_pos hzero]
      exact ⟨{ queue with vSendMsg := data :: msgs }, [], unsent, by rw [List.append_nil], rfl, h⟩
    rw [if_neg hzero]
    by_cases hfull : queue.nSendOffset + nBytes = data.length
    · have hall : (data.drop queue.nSendOffset).take nBytes = data.drop queue.nSendOffset := by
        apply List.take_of_length_le
        rw [List.length_drop]
        omega
      obtain ⟨next, hnext⟩ : ∃ next : SendQueue, next =
        { queue with
          nSendOffset := 0
          nSendSize := queue.nSendSize - data.length } := ⟨_, rfl⟩
      have hlater : Unsent msgs next.nSendOffset next.nSendSize msgs.flatten := by
        rw [hnext]
        exact h.tail
      rw [if_pos hfull, hall, ← hnext]
      obtain ⟨queue', sent, unsent', hloop, hrest, hsends⟩ :=
        @ih next _ (wire ++ data.drop queue.nSendOffset) taken.tail hlater
      refine ⟨queue', data.drop queue.nSendOffset ++ sent, unsent', ?_, ?_, hsends⟩
      · rw [← List.append_assoc]
        exact hloop
      · rw [hunsent, hrest, List.append_assoc]
    · have hpart : queue.nSendOffset + nBytes < data.length := by omega
      rw [if_neg hfull]
      refine ⟨_, (data.drop queue.nSendOffset).take nBytes,
        data.drop (queue.nSendOffset + nBytes) ++ msgs.flatten, rfl, ?_, h.part hpart⟩
      rw [hunsent, ← List.append_assoc, ← List.drop_drop, List.take_append_drop]

/-- A socket that takes all that it is given is given everything. -/
theorem Unsent.sendLoop_all (h : Unsent msgs queue.nSendOffset queue.nSendSize unsent) :
    SendQueue.sendLoop (msgs.map List.length) queue msgs wire =
      some (⟨[], 0, 0⟩, wire ++ unsent) := by
  induction msgs generalizing queue unsent wire with
  | nil =>
    obtain ⟨hoffset, hsize, hunsent⟩ := h.of_nil
    rw [hunsent, List.append_nil]
    exact if_pos ⟨hoffset, hsize⟩
  | cons data msgs ih =>
    obtain ⟨hoffset, hunsent⟩ := h.cons
    have hBytes : min (((data :: msgs).map List.length).headD 0)
        (data.length - queue.nSendOffset) = data.length - queue.nSendOffset := by
      rw [List.map_cons, List.headD_cons]
      omega
    have hsome : ¬data.length - queue.nSendOffset = 0 := by omega
    have hfull : queue.nSendOffset + (data.length - queue.nSendOffset) = data.length := by omega
    have hall : (data.drop queue.nSendOffset).take (data.length - queue.nSendOffset) =
        data.drop queue.nSendOffset := List.take_of_length_le List.length_drop.le
    unfold SendQueue.sendLoop
    rw [if_neg (not_le.mpr hoffset), hBytes]
    dsimp only
    rw [if_neg hsome, if_pos hfull, hall, List.map_cons, List.tail_cons, hunsent,
      ← List.append_assoc]
    exact @ih ⟨queue.vSendMsg, 0, queue.nSendSize - data.length⟩ _ _ h.tail

variable {hash : List UInt8 → List UInt8} {start : List UInt8}

/-- The bytes that are queued are those of the message. -/
theorem pushMessage_eq (hstart : start.length = 4) (m : NetMessage) :
    SendQueue.pushMessage hash start m.1 m.2 taken queue =
      (if queue.vSendMsg = [] then
        SendQueue.socketSendData taken
          { queue with
            vSendMsg := queue.vSendMsg ++ [m.encode hash start]
            nSendSize := queue.nSendSize + (m.encode hash start).length }
      else
        pure ({ queue with
          vSendMsg := queue.vSendMsg ++ [m.encode hash start]
          nSendSize := queue.nSendSize + (m.encode hash start).length }, [])) := by
  have hcommand : (resize m.1 COMMAND_SIZE (0 : UInt8)).length = COMMAND_SIZE := length_resize
  have hlow : (start ++ resize m.1 COMMAND_SIZE 0).length = MESSAGE_SIZE_OFFSET := by
    rw [List.length_append, hstart, hcommand]
    rfl
  have hnumber : ∀ x, (LittleEndian.bytes 4 x).length = 4 := LittleEndian.length_bytes 4
  have hnew : (CMessageHeader.new start m.1 0).bytes ++ m.2 =
      start ++ resize m.1 COMMAND_SIZE 0 ++ LittleEndian.bytes 4 0 ++
        (LittleEndian.bytes 4 0 ++ m.2) := by
    unfold CMessageHeader.bytes CMessageHeader.new
    rw [List.append_assoc _ (LittleEndian.bytes 4 0) m.2]
  have hbytes : (CMessageHeader.new start m.1 0).bytes.length = HEADER_SIZE := by
    unfold CMessageHeader.bytes CMessageHeader.new
    simp only [List.length_append, hnumber, hstart, hcommand]
    rfl
  have hsize : ((CMessageHeader.new start m.1 0).bytes ++ m.2).length - HEADER_SIZE =
      m.2.length := by
    rw [List.length_append, hbytes, Nat.add_sub_cancel_left]
  have hsized : copyAt ((CMessageHeader.new start m.1 0).bytes ++ m.2) MESSAGE_SIZE_OFFSET
      (LittleEndian.bytes 4 m.2.length) =
        some (start ++ resize m.1 COMMAND_SIZE 0 ++ LittleEndian.bytes 4 m.2.length ++
          (LittleEndian.bytes 4 0 ++ m.2)) := by
    rw [hnew]
    exact copyAt_append hlow (by rw [hnumber, hnumber])
  have hmiddle : (start ++ resize m.1 COMMAND_SIZE 0 ++
      LittleEndian.bytes 4 m.2.length).length = CHECKSUM_OFFSET := by
    rw [List.length_append, hlow, hnumber]
    rfl
  have hpayload : (start ++ resize m.1 COMMAND_SIZE 0 ++ LittleEndian.bytes 4 m.2.length ++
      (LittleEndian.bytes 4 0 ++ m.2)).drop HEADER_SIZE = m.2 := by
    rw [← List.append_assoc]
    apply List.drop_left'
    rw [List.length_append, hmiddle, hnumber]
    rfl
  have hsummed : copyAt (start ++ resize m.1 COMMAND_SIZE 0 ++
      LittleEndian.bytes 4 m.2.length ++ (LittleEndian.bytes 4 0 ++ m.2)) CHECKSUM_OFFSET
        (LittleEndian.bytes 4 (LittleEndian.value ((hash m.2).take 4))) =
          some (m.encode hash start) := by
    rw [← List.append_assoc]
    exact copyAt_append hmiddle (by rw [hnumber, hnumber])
  unfold SendQueue.pushMessage
  dsimp only
  rw [hsize, hsized, Option.bind_eq_bind, Option.bind_some, hpayload, hsummed]
  rfl

theorem SendQueue.Unsent.pushMessage (h : queue.Unsent unsent) (hstart : start.length = 4)
    (m : NetMessage) :
    ∃ queue' sent unsent', queue.pushMessage hash start m.1 m.2 taken = some (queue', sent) ∧
      unsent ++ m.encode hash start = sent ++ unsent' ∧ queue'.Unsent unsent' := by
  obtain ⟨pushed, hpushed⟩ : ∃ pushed : SendQueue, pushed =
    { queue with
      vSendMsg := queue.vSendMsg ++ [m.encode hash start]
      nSendSize := queue.nSendSize + (m.encode hash start).length } := ⟨_, rfl⟩
  have hunsent : pushed.Unsent (unsent ++ m.encode hash start) := by
    rw [hpushed]
    exact h.push (encode_ne_nil hstart)
  rw [pushMessage_eq hstart, ← hpushed]
  by_cases hempty : queue.vSendMsg = []
  · rw [if_pos hempty]
    exact Lytix.Unsent.sendLoop hunsent
  · rw [if_neg hempty]
    exact ⟨pushed, [], _, rfl, rfl, hunsent⟩


end

def LinkEvent.pushed : LinkEvent → Option NetMessage
  | .push pszCommand payload _ => some (pszCommand, payload)
  | _ => none

def LinkEvent.Valid (event : LinkEvent) : Prop := ∀ m ∈ event.pushed, m.Sendable

/-- The messages that are pushed. -/
def pushes (events : List LinkEvent) : List NetMessage := events.filterMap LinkEvent.pushed

/-- What is pushed has been processed or is on its way. -/
structure Link.Orderly (hash : List UInt8 → List UInt8) (start : List UInt8) (link : Link)
    (processed waiting : List NetMessage) : Prop where
  processed_eq : link.processed = processed
  sendable : ∀ m ∈ waiting, m.Sendable
  bytes : ∃ unsent, link.send.Unsent unsent ∧
    Receives hash start link.vRecvMsg waiting (link.wire ++ unsent)
  fDisconnect : link.fDisconnect = false

section
variable {hash : List UInt8 → List UInt8} {start : List UInt8} {link : Link}
  {processed waiting : List NetMessage}

theorem orderly_new : Link.Orderly hash start Link.new [] [] where
  processed_eq := rfl
  sendable := by simp
  bytes := ⟨[], unsent_nil, receives_nil⟩
  fDisconnect := rfl

theorem Link.Orderly.push (h : link.Orderly hash start processed waiting)
    (hstart : start.length = 4) {m : NetMessage} (hm : m.Sendable) (taken : List ℕ) :
    ∃ link', link.step hash start (.push m.1 m.2 taken) = some link' ∧
      link'.Orderly hash start processed (waiting ++ [m]) := by
  obtain ⟨unsent, hunsent, hreceives⟩ := h.bytes
  obtain ⟨queue', sent, unsent', hpush, hbytes, hunsent'⟩ :=
    @SendQueue.Unsent.pushMessage _ _ taken hash start hunsent hstart m
  have hmore : Receives hash start link.vRecvMsg (waiting ++ [m])
      (link.wire ++ sent ++ unsent') := by
    rw [List.append_assoc, ← hbytes, ← List.append_assoc]
    exact hreceives.push m
  refine ⟨{ link with
    send := queue'
    wire := link.wire ++ sent }, ?_, ?_⟩
  · unfold Link.step
    dsimp only
    rw [hpush, Option.map_some]
  · exact
      { processed_eq := h.processed_eq
        sendable := by
          intro m' hm'
          rcases List.mem_append.mp hm' with hold | hnew
          · exact h.sendable m' hold
          · rw [List.mem_singleton.mp hnew]
            exact hm
        bytes := ⟨unsent', hunsent', hmore⟩
        fDisconnect := h.fDisconnect }

theorem Link.Orderly.send (h : link.Orderly hash start processed waiting) (taken : List ℕ) :
    ∃ link', link.step hash start (.send taken) = some link' ∧
      link'.Orderly hash start processed waiting := by
  obtain ⟨unsent, hunsent, hreceives⟩ := h.bytes
  obtain ⟨queue', sent, unsent', hsend, hbytes, hunsent'⟩ :=
    @Unsent.sendLoop _ _ [] taken _ hunsent
  rw [hbytes, ← List.append_assoc] at hreceives
  refine ⟨{ link with
    send := queue'
    wire := link.wire ++ sent }, ?_, ?_⟩
  · unfold Link.step SendQueue.socketSendData
    dsimp only
    rw [hsend, Option.map_some, List.nil_append]
  · exact
      { processed_eq := h.processed_eq
        sendable := h.sendable
        bytes := ⟨unsent', hunsent', hreceives⟩
        fDisconnect := h.fDisconnect }

theorem Link.Orderly.receive (h : link.Orderly hash start processed waiting)
    (hstart : start.length = 4) (nBytes : ℕ) :
    ∃ link', link.step hash start (.receive nBytes) = some link' ∧
      link'.send = link.send ∧ link'.wire = link.wire.drop nBytes ∧
      link'.Orderly hash start processed waiting := by
  obtain ⟨unsent, hunsent, hreceives⟩ := h.bytes
  have hsplit : link.wire.take nBytes ++ (link.wire.drop nBytes ++ unsent) =
      link.wire ++ unsent := by
    rw [← List.append_assoc, List.take_append_drop]
  rw [← hsplit] at hreceives
  obtain ⟨queue', hloop, hreceives'⟩ := hreceives.receiveLoop hstart h.sendable le_rfl
  refine ⟨{ link with
    wire := link.wire.drop nBytes
    vRecvMsg := queue'
    fDisconnect := false }, ?_, rfl, rfl, ?_⟩
  · unfold Link.step RecvQueue.receiveMsgBytes
    dsimp only
    rw [h.fDisconnect, hloop]
    rfl
  · exact
      { processed_eq := h.processed_eq
        sendable := h.sendable
        bytes := ⟨unsent, hunsent, hreceives'⟩
        fDisconnect := rfl }

theorem Link.Orderly.process (h : link.Orderly hash start processed waiting)
    (hstart : start.length = 4) (busy : Bool) :
    ∃ link' processed' waiting', link.step hash start (.process busy) = some link' ∧
      processed' ++ waiting' = processed ++ waiting ∧
      link'.Orderly hash start processed' waiting' := by
  obtain ⟨unsent, hunsent, hreceives⟩ := h.bytes
  unfold Link.step
  dsimp only
  rw [h.fDisconnect]
  cases busy with
  | true => exact ⟨link, processed, waiting, rfl, rfl, h⟩
  | false =>
    rcases hreceives.processLoop hstart h.sendable with
      hnone | ⟨m, waiting', queue', rfl, hsome, hreceives'⟩
    · rw [hnone]
      refine ⟨_, processed, waiting, rfl, rfl, ?_⟩
      exact
        { processed_eq := by
            show link.processed ++ [] = processed
            rw [List.append_nil, h.processed_eq]
          sendable := h.sendable
          bytes := ⟨unsent, hunsent, hreceives⟩
          fDisconnect := rfl }
    · rw [hsome]
      refine ⟨_, processed ++ [m], waiting', rfl, (List.append_cons ..).symm, ?_⟩
      exact
        { processed_eq := by
            show link.processed ++ [m] = processed ++ [m]
            rw [h.processed_eq]
          sendable := fun m' hm' => h.sendable m' (List.mem_cons_of_mem m hm')
          bytes := ⟨unsent, hunsent, hreceives'⟩
          fDisconnect := rfl }

theorem Link.Orderly.step (h : link.Orderly hash start processed waiting)
    (hstart : start.length = 4) {event : LinkEvent} (hvalid : event.Valid) :
    ∃ link' processed' waiting', link.step hash start event = some link' ∧
      processed' ++ waiting' = processed ++ waiting ++ event.pushed.toList ∧
      link'.Orderly hash start processed' waiting' := by
  cases event with
  | push pszCommand payload taken =>
    obtain ⟨link', hstep, horderly⟩ := h.push hstart (hvalid (pszCommand, payload) rfl) taken
    exact ⟨link', processed, _, hstep, (List.append_assoc ..).symm, horderly⟩
  | send taken =>
    obtain ⟨link', hstep, horderly⟩ := h.send taken
    exact ⟨link', processed, waiting, hstep, (List.append_nil _).symm, horderly⟩
  | receive nBytes =>
    obtain ⟨link', hstep, -, -, horderly⟩ := h.receive hstart nBytes
    exact ⟨link', processed, waiting, hstep, (List.append_nil _).symm, horderly⟩
  | process busy =>
    obtain ⟨link', processed', waiting', hstep, hsame, horderly⟩ := h.process hstart busy
    exact ⟨link', processed', waiting', hstep, hsame.trans (List.append_nil _).symm, horderly⟩

theorem Link.Orderly.run {events : List LinkEvent} (h : link.Orderly hash start processed waiting)
    (hstart : start.length = 4) (hvalid : ∀ event ∈ events, event.Valid) :
    ∃ link' processed' waiting', Runs.attempt (Link.step hash start) link events = some link' ∧
      processed' ++ waiting' = processed ++ waiting ++ pushes events ∧
      link'.Orderly hash start processed' waiting' := by
  induction events generalizing link processed waiting with
  | nil => exact ⟨link, processed, waiting, rfl, (List.append_nil _).symm, h⟩
  | cons event events ih =>
    obtain ⟨mid, processed₁, waiting₁, hstep, hsame₁, hmid⟩ :=
      h.step hstart (hvalid event List.mem_cons_self)
    obtain ⟨link', processed₂, waiting₂, hrun, hsame₂, hlast⟩ :=
      ih hmid fun e he => hvalid e (List.mem_cons_of_mem event he)
    refine ⟨link', processed₂, waiting₂, ?_, ?_, hlast⟩
    · rw [Runs.attempt_cons_eq_some]
      exact ⟨mid, hstep, hrun⟩
    · rw [hsame₂, hsame₁, List.append_assoc]
      unfold pushes
      cases hpushed : event.pushed with
      | none => rw [List.filterMap_cons_none hpushed, Option.toList_none, List.nil_append]
      | some m => rw [List.filterMap_cons_some hpushed, Option.toList_some, List.singleton_append]


/-- Messages that have all come in are processed one after the other. -/
theorem attempt_process {queue : RecvQueue} (h : WholeMessages hash start queue waiting)
    (hstart : start.length = 4) (hm : ∀ m ∈ waiting, m.Sendable) (hqueue : link.vRecvMsg = queue)
    (hconnected : link.fDisconnect = false) :
    Runs.attempt (Link.step hash start) link
        (List.replicate waiting.length (.process false)) =
      some { link with
        vRecvMsg := []
        processed := link.processed ++ waiting } := by
  induction h generalizing link with
  | nil =>
    cases link
    rw [List.append_nil, ← hqueue]
    rfl
  | @cons msg m queue waiting hfirst hlater ih =>
    have hprocess : RecvQueue.processLoop hash start (msg :: queue) = (queue, true, some m) :=
      processLoop_whole hfirst hstart (hm m List.mem_cons_self)
    have hstep : link.step hash start (.process false) =
        some { link with
          vRecvMsg := queue
          processed := link.processed ++ [m]
          fDisconnect := false } := by
      unfold Link.step
      dsimp only
      rw [hconnected, hqueue, hprocess]
      rfl
    rw [List.length_cons, List.replicate_succ, Runs.attempt, hstep, Option.bind_some,
      ih (fun m' hm' => hm m' (List.mem_cons_of_mem m hm')) rfl rfl, hconnected, List.append_assoc,
      List.singleton_append]

end

variable (hash : List UInt8 → List UInt8) {start : List UInt8}

/-- Nothing fails and nobody is dropped; what is processed are the first messages that were pushed,
in their order, and where nothing is on its way the others wait to be processed. -/
theorem processed_of_run (hstart : start.length = 4) (events : List LinkEvent)
    (hvalid : ∀ event ∈ events, event.Valid) :
    ∃ link, Runs.attempt (Link.step hash start) Link.new events = some link ∧
      link.fDisconnect = false ∧ link.processed <+: pushes events ∧
      (link.send.vSendMsg = [] → link.wire = [] →
        pushes events = link.processed ++
          link.vRecvMsg.map fun msg => (msg.hdr.getCommand, msg.vRecv)) := by
  have hnew : Link.new.Orderly hash start [] [] := orderly_new
  obtain ⟨link, processed, waiting, hrun, hsame, horderly⟩ := hnew.run hstart hvalid
  refine ⟨link, hrun, horderly.fDisconnect, ?_, ?_⟩
  · rw [horderly.processed_eq]
    exact ⟨waiting, hsame⟩
  · intro hsent hwire
    obtain ⟨unsent, hunsent, hreceives⟩ := horderly.bytes
    have hnothing : unsent = [] := by
      rw [hunsent.bytes_eq, hsent]
      exact List.drop_nil
    rw [hwire, hnothing] at hreceives
    rw [(hreceives.whole hstart).messages hstart horderly.sendable, horderly.processed_eq]
    exact hsame.symm

/-- A `verack` of the main network, without a payload, that goes over the socket in two pieces. -/
def verackEvents : List LinkEvent :=
  [.push [0x76, 0x65, 0x72, 0x61, 0x63, 0x6b] [] [10], .receive 10, .send [24], .process false]

/-- The checksum of nothing. -/
def verackHash : List UInt8 → List UInt8 := fun _ => [0x5d, 0xf6, 0xe0, 0xe2]

theorem verackEvents_valid : ∀ event ∈ verackEvents, event.Valid := by
  intro event hevent m hm
  unfold verackEvents at hevent
  simp only [List.mem_cons, List.not_mem_nil, or_false] at hevent
  rcases hevent with rfl | rfl | rfl | rfl
  · obtain rfl := Option.some.inj hm
    have hall : ([0x76, 0x65, 0x72, 0x61, 0x63, 0x6b] : List UInt8).all
        (fun c => decide (0x20 ≤ c ∧ c ≤ 0x7E)) = true := rfl
    exact ⟨by decide, fun c hc => of_decide_eq_true (List.all_eq_true.mp hall c hc), by decide⟩
  all_goals contradiction

theorem processed_of_run_verack :
    ∃ link, Runs.attempt (Link.step verackHash [0x5f, 0x2a, 0xc3, 0xb4]) Link.new verackEvents =
      some link ∧
      link.fDisconnect = false ∧ link.processed <+: pushes verackEvents ∧
      (link.send.vSendMsg = [] → link.wire = [] →
        pushes verackEvents = link.processed ++
          link.vRecvMsg.map fun msg => (msg.hdr.getCommand, msg.vRecv)) :=
  processed_of_run verackHash rfl verackEvents verackEvents_valid

/-- Whatever has happened, the nodes can still do their parts until everything is processed. -/
theorem exists_processed_all (hstart : start.length = 4) (events : List LinkEvent)
    (hvalid : ∀ event ∈ events, event.Valid) :
    ∃ more : List LinkEvent, pushes more = [] ∧
      ∃ link, Runs.attempt (Link.step hash start) Link.new (events ++ more) = some link ∧
        link.processed = pushes events ∧ link.send.vSendMsg = [] ∧ link.wire = [] ∧
        link.vRecvMsg = [] := by
  have hnew : Link.new.Orderly hash start [] [] := orderly_new
  obtain ⟨link, processed, waiting, hrun, hsame, horderly⟩ := hnew.run hstart hvalid
  obtain ⟨unsent, hunsent, -⟩ := horderly.bytes
  obtain ⟨sent, hsend, hsent⟩ : ∃ sent, link.step hash start
      (.send (link.send.vSendMsg.map List.length)) = some sent ∧ sent.send = ⟨[], 0, 0⟩ := by
    refine ⟨{ link with
      send := ⟨[], 0, 0⟩
      wire := link.wire ++ unsent }, ?_, rfl⟩
    have hloop : SendQueue.sendLoop (link.send.vSendMsg.map List.length) link.send
        link.send.vSendMsg [] = some (⟨[], 0, 0⟩, [] ++ unsent) := Unsent.sendLoop_all hunsent
    unfold Link.step SendQueue.socketSendData
    dsimp only
    rw [hloop]
    rfl
  obtain ⟨sent', hsend', hsentOrderly⟩ := horderly.send (link.send.vSendMsg.map List.length)
  obtain rfl : sent = sent' := Option.some.inj (hsend.symm.trans hsend')
  obtain ⟨received, hreceive, hkept, hwire, hreceived⟩ :=
    hsentOrderly.receive hstart sent.wire.length
  rw [List.drop_length] at hwire
  obtain ⟨unsent', hunsent', hreceives⟩ := hreceived.bytes
  have hnothing : unsent' = [] := by
    rw [hunsent'.bytes_eq, hkept, hsent]
    rfl
  rw [hwire, hnothing] at hreceives
  have hwhole := hreceives.whole hstart
  have hprocess := attempt_process hwhole hstart hreceived.sendable rfl hreceived.fDisconnect
  refine ⟨.send (link.send.vSendMsg.map List.length) :: .receive sent.wire.length ::
    List.replicate waiting.length (.process false), ?_,
    { received with
      vRecvMsg := []
      processed := received.processed ++ waiting }, ?_, ?_, ?_, hwire, rfl⟩
  · have hprocesses : ∀ n, pushes (List.replicate n (.process false)) = [] := by
      intro n
      unfold pushes
      rw [List.filterMap_replicate_of_none rfl]
    exact hprocesses waiting.length
  · rw [Runs.attempt_append, hrun, Option.bind_some, Runs.attempt, hsend, Option.bind_some,
      Runs.attempt, hreceive, Option.bind_some, hprocess]
  · show received.processed ++ waiting = pushes events
    rw [hreceived.processed_eq]
    exact hsame
  · show received.send.vSendMsg = []
    rw [hkept, hsent]

theorem exists_processed_all_verack :
    ∃ more : List LinkEvent, pushes more = [] ∧
      ∃ link, Runs.attempt (Link.step verackHash [0x5f, 0x2a, 0xc3, 0xb4]) Link.new
          (verackEvents ++ more) = some link ∧
        link.processed = pushes verackEvents ∧ link.send.vSendMsg = [] ∧ link.wire = [] ∧
        link.vRecvMsg = [] :=
  exists_processed_all verackHash rfl verackEvents verackEvents_valid

end Lytix
