import Cpp2tnt.IprotoWriter
import Cpp2tnt.OwnedBuffer

/-!
The state of a `connection` and the answers its environment gives: results of
the socket calls, what the callbacks do, the clock. The last fields of the state
are history that no branch reads: what the socket has taken and given, and what
was reported to the caller. Times are unbounded integers; the counters of
seconds do not wrap.
-/

namespace Cpp2tnt
open Imperative MessagePack

def ascii (text : String) : Bytes := text.toList.map fun char => UInt8.ofNat char.toNat

inductive State where
  | disconnected | addressResolving | connecting | featuresRequest | authentication | connected
  deriving DecidableEq

/-- `socket_state`. -/
inductive WatchMode where
  | none | read | write | readWrite
  deriving DecidableEq

def WatchMode.value : WatchMode → Nat
  | .none => 0
  | .read => 1
  | .write => 2
  | .readWrite => 3

/-- `tnt::error`. -/
inductive ErrorCode where
  | invalidParameter | badCallSequence | getaddrInProgress | system | getaddr | timeout | auth
  | closedByPeer | unexpectedData | external | uncorkedDataJam | features
  deriving DecidableEq

structure CsParts where
  unixSocketPath : Bytes
  user : Bytes
  password : Bytes
  host : Bytes
  port : Bytes

/-- Who wrote a byte of the output: the caller directly, or a request with its
number among all requests and its SYNC. ID and AUTH are requests of the
connection itself. -/
inductive Origin where
  | caller
  | request (serial : Nat) (sync : UInt64)
  | handshake (serial : Nat) (sync : UInt64)
  deriving DecidableEq, Inhabited

structure OutByte where
  byte : UInt8
  origin : Origin
  deriving DecidableEq, Inhabited

/-- Bytes written over `old` ones keep the origin of their place. -/
def paint (origin : Origin) : List OutByte → Bytes → List OutByte
  | _, [] => []
  | [], byte :: bytes => ⟨byte, origin⟩ :: paint origin [] bytes
  | known :: old, byte :: bytes => ⟨byte, known.origin⟩ :: paint origin old bytes

def writeInto (origin : Origin) (encode : Write Unit) (buffer : OwnedBuffer OutByte) :
    Outcome Exn (OwnedBuffer OutByte) Unit :=
  let plain : OwnedBuffer UInt8 :=
    ⟨buffer.content.map OutByte.byte, buffer.spare.map OutByte.byte⟩
  let painted (writer : MpWriter) : OwnedBuffer OutByte :=
    ⟨paint origin buffer.content writer.buf.content, paint origin [] writer.buf.spare⟩
  match encode (MpWriter.ofBuffer plain.toWtf) with
  | .returned _ writer => .returned () (painted writer)
  | .thrown error writer => .thrown error (painted writer)
  | .undefined => .undefined

/-- `_send_buffer` with `_next_to_send`. Whatever replaces the buffer sets the
pointer to its start, so `end >= _next_to_send` holds by construction. -/
structure SendBuffer where
  buffer : OwnedBuffer OutByte
  nextToSend : Nat
  within : nextToSend ≤ buffer.size

namespace SendBuffer

def ofBuffer (buffer : OwnedBuffer OutByte) : SendBuffer := ⟨buffer, 0, Nat.zero_le _⟩

def unsent (send : SendBuffer) : List OutByte := send.buffer.content.drop send.nextToSend

/-- `_next_to_send += r`; `send()` never takes more than it was offered. -/
def advance (count : Nat) (send : SendBuffer) : SendBuffer :=
  ⟨send.buffer, min (send.nextToSend + count) send.buffer.size, Nat.min_le_right _ _⟩

@[simp] theorem of_buffer_unsent (buffer : OwnedBuffer OutByte) :
    (ofBuffer buffer).unsent = buffer.content := rfl

@[simp] theorem advance_buffer (count : Nat) (send : SendBuffer) :
    (send.advance count).buffer = send.buffer := rfl

@[simp] theorem advance_unsent (count : Nat) (send : SendBuffer) :
    (send.advance count).unsent = send.unsent.drop count := by
  simp only [unsent, advance, List.drop_drop]
  by_cases inside : send.nextToSend + count ≤ send.buffer.size
  · rw [Nat.min_eq_left inside]
  · have past : send.buffer.size ≤ send.nextToSend + count := Nat.le_of_not_le inside
    rw [Nat.min_eq_right past, List.drop_eq_nil_of_le past]
    exact List.drop_eq_nil_of_le (Nat.le_refl _)

end SendBuffer

/-- What the caller sees, in order. An empty message stands for the text of
`errno`; `processed` is a call of `input_processed`. -/
inductive Note where
  | error (message : Bytes) (code : ErrorCode) (dbError : Nat)
  | opened
  | closed
  | idle
  | response (batch : Bytes)
  | processed
  deriving DecidableEq

/-- The course of one socket session, up to its opening. -/
inductive Milestone where
  | greeting (text : Bytes)
  | response (during : State) (code : Nat)
  | authRequest
  | opened
  deriving DecidableEq

/-- Which callbacks are set. -/
structure Callbacks where
  response : Bool
  opened : Bool
  closed : Bool
  idle : Bool

structure Conn where
  socket : Bool
  currentCs : Bytes
  greeting : Bytes
  csParts : CsParts
  autoreconnectTicksCounter : Int
  autoreconnectTimeout : Int
  idleTicksCounter : Int
  idleTimeout : Int
  inputBuffer : OwnedBuffer UInt8
  receiveBuffer : OwnedBuffer UInt8
  callerIdle : Bool
  lastReceivedHeadOffset : Nat
  detectedResponseSize : Nat
  outputBuffer : OwnedBuffer OutByte
  sendBuffer : SendBuffer
  requestId : UInt64
  uncorkedSize : Nat
  requiredProto : ProtoId
  serverProto : ProtoId
  lastWriteTime : Int
  prevWatchMode : WatchMode
  state : State
  resolverJoinable : Bool
  callbacks : Callbacks
  /-- Accepted by the current or the last socket. -/
  accepted : List OutByte
  /-- Received from it. -/
  received : Bytes
  session : List Milestone
  notes : List Note
  requestsIssued : Nat
  resolversStarted : Nat

def generalTimeout : Int := 10
def greetingSize : Nat := 128

/-- `proto_id{}`. -/
def ProtoId.empty : ProtoId := { version := 0, auth := [], features := 0 }

/-- `connection(connection_string)` with the default members. -/
def Conn.initial (cs : Bytes) (callbacks : Callbacks) : Conn where
  socket := false
  currentCs := cs
  greeting := []
  csParts := ⟨[], [], [], [], []⟩
  autoreconnectTicksCounter := -1
  autoreconnectTimeout := generalTimeout
  idleTicksCounter := -1
  idleTimeout := -1
  inputBuffer := .ofSize (2 ^ 20)
  receiveBuffer := .ofSize (2 ^ 20)
  callerIdle := true
  lastReceivedHeadOffset := 0
  detectedResponseSize := 0
  outputBuffer := .ofSize (2 ^ 20)
  sendBuffer := .ofBuffer (.ofSize (2 ^ 20))
  requestId := 0
  uncorkedSize := 0
  requiredProto := { version := 0, auth := ascii "chap-sha1", features := 1 <<< 2 }
  serverProto := .empty
  lastWriteTime := 0
  prevWatchMode := .none
  state := .disconnected
  resolverJoinable := false
  callbacks := callbacks
  accepted := []
  received := []
  session := []
  notes := []
  requestsIssued := 0
  resolversStarted := 0

/-- A connection right after a handshake that left nothing behind. -/
def Conn.opened : Conn :=
  { Conn.initial [] ⟨true, true, true, true⟩ with
    socket := true
    prevWatchMode := .read
    state := .connected }

inductive SendResult where
  /-- One byte and `more` others, or all that was offered if that is less. -/
  | accepted (more : Nat)
  | eagain
  | eintr
  | error
  deriving DecidableEq

inductive RecvResult where
  /-- The bytes that fit are taken; no bytes are the end of the stream. -/
  | bytes (chunk : Bytes)
  | eagain
  | eintr
  | error
  deriving DecidableEq

inductive Attempt where
  | noSocket | established | inProgress | refused
  deriving DecidableEq

/-- What a call of the response callback does before it ends. -/
structure ResponseAnswer where
  processed : Bool
  throws : Option String

/-- A list that has run out answers `EAGAIN`, a refused attempt, or a callback
that just returns. -/
structure Answers where
  sends : List SendResult := []
  recvs : List RecvResult := []
  attempts : List Attempt := []
  responses : List ResponseAnswer := []
  openedThrows : Option String := none
  closedThrows : Option String := none
  soError : Bool := false
  now : Int := 0

end Cpp2tnt
