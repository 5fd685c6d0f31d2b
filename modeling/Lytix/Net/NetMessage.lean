import Lytix.Coins.DiskFormat
import Lytix.Lib.Buffers
import Lytix.Lib.LittleEndian

/-! Messages between two nodes: how one node puts them into its send queue, how the bytes go over
the socket in pieces of any size, and how the other node puts them together again. `none` is an
assertion that fails, or a copy beyond the end of a buffer. -/
namespace Lytix
open Buffers

def MESSAGE_START_SIZE : Nat := 4
def COMMAND_SIZE : Nat := 12
def MESSAGE_SIZE_OFFSET : Nat := 16
def CHECKSUM_OFFSET : Nat := 20
def HEADER_SIZE : Nat := 24
def MAX_PROTOCOL_MESSAGE_LENGTH : Nat := 2 * 1024 * 1024

structure CMessageHeader where
  pchMessageStart : List UInt8
  pchCommand : List UInt8
  nMessageSize : Nat
  nChecksum : Nat

namespace CMessageHeader

/-- `CMessageHeader(pszCommand, nMessageSizeIn)`. -/
def new (start pszCommand : List UInt8) (nMessageSizeIn : Nat) : CMessageHeader where
  pchMessageStart := start
  pchCommand := resize pszCommand COMMAND_SIZE 0
  nMessageSize := nMessageSizeIn
  nChecksum := 0

def bytes (hdr : CMessageHeader) : List UInt8 :=
  hdr.pchMessageStart ++ hdr.pchCommand ++ LittleEndian.bytes 4 hdr.nMessageSize ++
    LittleEndian.bytes 4 hdr.nChecksum

/-- `hdrbuf >> hdr`. -/
def ofBytes (hdrbuf : List UInt8) : CMessageHeader where
  pchMessageStart := hdrbuf.take MESSAGE_START_SIZE
  pchCommand := (hdrbuf.drop MESSAGE_START_SIZE).take COMMAND_SIZE
  nMessageSize := LittleEndian.value ((hdrbuf.drop MESSAGE_SIZE_OFFSET).take 4)
  nChecksum := LittleEndian.value ((hdrbuf.drop CHECKSUM_OFFSET).take 4)

def getCommand (hdr : CMessageHeader) : List UInt8 := hdr.pchCommand.takeWhile (· ≠ 0)

/-- The loop over the command: printable characters, and nothing after the first zero. -/
def validCommand : List UInt8 → Bool
  | [] => true
  | c :: rest =>
    if c = 0 then rest.all (· = 0)
    else if c < 0x20 ∨ 0x7E < c then false
    else validCommand rest

def isValid (start : List UInt8) (hdr : CMessageHeader) : Bool :=
  decide (hdr.pchMessageStart = start) && validCommand hdr.pchCommand &&
    decide (hdr.nMessageSize ≤ MAX_SIZE)

end CMessageHeader

/-- A message that is being received. -/
structure CNetMessage where
  inData : Bool
  hdrbuf : List UInt8
  hdr : CMessageHeader
  nHdrPos : Nat
  vRecv : List UInt8
  nDataPos : Nat

namespace CNetMessage

def new (start : List UInt8) : CNetMessage where
  inData := false
  hdrbuf := List.replicate HEADER_SIZE 0
  hdr := CMessageHeader.new start [] (2 ^ 32 - 1)
  nHdrPos := 0
  vRecv := []
  nDataPos := 0

variable (msg : CNetMessage) (pch : List UInt8)

def complete : Bool := msg.inData && decide (msg.hdr.nMessageSize = msg.nDataPos)

/-- The message, and how many bytes were handled; -1 where the peer has to be dropped. -/
def readHeader : Option (CNetMessage × Int) := do
  let nCopy := min (HEADER_SIZE - msg.nHdrPos) pch.length
  let hdrbuf ← copyAt msg.hdrbuf msg.nHdrPos (pch.take nCopy)
  let nHdrPos := msg.nHdrPos + nCopy
  if nHdrPos < HEADER_SIZE then
    pure ({ msg with
      hdrbuf := hdrbuf
      nHdrPos := nHdrPos }, nCopy)
  else
    let hdr := CMessageHeader.ofBytes hdrbuf
    let read :=
      { msg with
        hdrbuf := hdrbuf
        nHdrPos := nHdrPos
        hdr := hdr }
    -- reject messages larger than MAX_SIZE
    if MAX_SIZE < hdr.nMessageSize then pure (read, -1)
    else pure ({ read with inData := true }, nCopy)

def readData : Option (CNetMessage × Int) := do
  let nCopy := min (msg.hdr.nMessageSize - msg.nDataPos) pch.length
  let grown :=
    -- allocate ahead, but never more than the total message size
    if msg.vRecv.length < msg.nDataPos + nCopy then
      resize msg.vRecv (min msg.hdr.nMessageSize (msg.nDataPos + nCopy + 256 * 1024)) 0
    else msg.vRecv
  let vRecv ← copyAt grown msg.nDataPos (pch.take nCopy)
  pure ({ msg with
    vRecv := vRecv
    nDataPos := msg.nDataPos + nCopy }, nCopy)

def read : Option (CNetMessage × Int) := if msg.inData then msg.readData pch else msg.readHeader pch

end CNetMessage

/-- What a node receives. -/
abbrev RecvQueue := List CNetMessage

namespace RecvQueue

/-- The current incomplete message, or a new one, and the messages before it. -/
def current (start : List UInt8) (vRecvMsg : RecvQueue) : RecvQueue × CNetMessage :=
  match vRecvMsg.getLast? with
  | none => ([], CNetMessage.new start)
  | some msg => if msg.complete then (vRecvMsg, CNetMessage.new start) else (vRecvMsg.dropLast, msg)

/-- The loop of `ReceiveMsgBytes`, each round of which handles at least one byte; `none` also where
it would need more rounds than bytes. -/
def receiveLoop (start : List UInt8) : Nat → RecvQueue → List UInt8 → Option (RecvQueue × Bool)
  | _, vRecvMsg, [] => some (vRecvMsg, true)
  | 0, _, _ :: _ => none
  | rounds + 1, vRecvMsg, b :: rest => do
    let pch := b :: rest
    let cur := current start vRecvMsg
    let handled ← cur.2.read pch
    let received := cur.1 ++ [handled.1]
    if handled.2 < 0 then pure (received, false)
    else if handled.1.inData ∧ MAX_PROTOCOL_MESSAGE_LENGTH < handled.1.hdr.nMessageSize then
      -- oversized message, disconnecting
      pure (received, false)
    else receiveLoop start rounds received (pch.drop handled.2.toNat)

def receiveMsgBytes (start : List UInt8) (vRecvMsg : RecvQueue) (pch : List UInt8) :
    Option (RecvQueue × Bool) :=
  receiveLoop start pch.length vRecvMsg pch

/-- The loop of `ProcessMessages`: what is left of the queue, the result, and the message that is
processed. -/
def processLoop (hash : List UInt8 → List UInt8) (start : List UInt8) :
    RecvQueue → RecvQueue × Bool × Option (List UInt8 × List UInt8)
  | [] => ([], true, none)
  | msg :: rest =>
    if !msg.complete then (msg :: rest, true, none)
    else if msg.hdr.pchMessageStart ≠ start then (rest, false, none)
    else if !msg.hdr.isValid start then processLoop hash start rest
    else if LittleEndian.value ((hash (msg.vRecv.take msg.hdr.nMessageSize)).take 4) ≠
        msg.hdr.nChecksum then processLoop hash start rest
    else (rest, true, some (msg.hdr.getCommand, msg.vRecv))

end RecvQueue

/-- What a node sends. -/
structure SendQueue where
  vSendMsg : List (List UInt8)
  nSendOffset : Nat
  nSendSize : Nat

namespace SendQueue

/-- The loop of `SocketSendData`, where the socket takes so many bytes in each call: what is left,
and the bytes that are on their way. -/
def sendLoop : List Nat → SendQueue → List (List UInt8) → List UInt8 →
    Option (SendQueue × List UInt8)
  | _, queue, [], wire =>
    if queue.nSendOffset = 0 ∧ queue.nSendSize = 0 then some (⟨[], 0, 0⟩, wire) else none
  | taken, queue, data :: rest, wire =>
    if data.length ≤ queue.nSendOffset then none
    else
      let nBytes := min (taken.headD 0) (data.length - queue.nSendOffset)
      let sent := wire ++ (data.drop queue.nSendOffset).take nBytes
      -- couldn't send anything at all
      if nBytes = 0 then some ({ queue with vSendMsg := data :: rest }, wire)
      else if queue.nSendOffset + nBytes = data.length then
        sendLoop taken.tail
          { queue with
            nSendOffset := 0
            nSendSize := queue.nSendSize - data.length }
          rest sent
      -- could not send full message
      else
        some ({ queue with
          vSendMsg := data :: rest
          nSendOffset := queue.nSendOffset + nBytes }, sent)

def socketSendData (taken : List Nat) (queue : SendQueue) : Option (SendQueue × List UInt8) :=
  sendLoop taken queue queue.vSendMsg []

/-- `BeginMessage`, what is pushed, and `EndMessage`, with an optimistic write. -/
def pushMessage (hash : List UInt8 → List UInt8) (start pszCommand payload : List UInt8)
    (taken : List Nat) (queue : SendQueue) : Option (SendQueue × List UInt8) := do
  let ssSend := (CMessageHeader.new start pszCommand 0).bytes ++ payload
  let nSize := ssSend.length - HEADER_SIZE
  let sized ← copyAt ssSend MESSAGE_SIZE_OFFSET (LittleEndian.bytes 4 nSize)
  let nChecksum := LittleEndian.value ((hash (sized.drop HEADER_SIZE)).take 4)
  let summed ← copyAt sized CHECKSUM_OFFSET (LittleEndian.bytes 4 nChecksum)
  let pushed :=
    { queue with
      vSendMsg := queue.vSendMsg ++ [summed]
      nSendSize := queue.nSendSize + summed.length }
  if queue.vSendMsg = [] then pushed.socketSendData taken else pure (pushed, [])

end SendQueue

/-- One direction of a connection: what the sender queues, the bytes on their way, and what the
receiver has. -/
structure Link where
  send : SendQueue
  wire : List UInt8
  vRecvMsg : RecvQueue
  fDisconnect : Bool
  processed : List (List UInt8 × List UInt8)

inductive LinkEvent where
  | push (pszCommand payload : List UInt8) (taken : List Nat)
  | send (taken : List Nat)
  /-- The receiver's socket gives up to so many bytes. -/
  | receive (nBytes : Nat)
  /-- The receiver may be too busy to answer. -/
  | process (busy : Bool)

namespace Link

def new : Link := ⟨⟨[], 0, 0⟩, [], [], false, []⟩

variable (hash : List UInt8 → List UInt8) (start : List UInt8)

def step (link : Link) : LinkEvent → Option Link
  | .push pszCommand payload taken =>
    (link.send.pushMessage hash start pszCommand payload taken).map fun sent =>
      { link with
        send := sent.1
        wire := link.wire ++ sent.2 }
  | .send taken =>
    (link.send.socketSendData taken).map fun sent =>
      { link with
        send := sent.1
        wire := link.wire ++ sent.2 }
  | .receive nBytes =>
    if link.fDisconnect then some link
    else
      (link.vRecvMsg.receiveMsgBytes start (link.wire.take nBytes)).map fun received =>
        { link with
          wire := link.wire.drop nBytes
          -- closing the socket wipes the receive buffer
          vRecvMsg := if received.2 then received.1 else []
          fDisconnect := !received.2 }
  | .process busy =>
    if link.fDisconnect ∨ busy then some link
    else
      let looped := link.vRecvMsg.processLoop hash start
      some { link with
        vRecvMsg := if looped.2.1 then looped.1 else []
        fDisconnect := !looped.2.1
        processed := link.processed ++ looped.2.2.toList }

end Link
end Lytix
