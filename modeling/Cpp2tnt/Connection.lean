import Cpp2tnt.ConnectionState

/-!
`connection`. Every public call and every event is a function of the state and
of the answers its environment gives while it runs. A result `none` is undefined
behaviour of the source, or an exception that leaves an event handler. Callbacks
do not call back, except `input_processed` from the response callback. The
resolver thread is seen through its one notification, which may be handled at
any time while the thread is joinable.
-/

namespace Cpp2tnt
open Imperative MessagePack

namespace Conn

def note (item : Note) (conn : Conn) : Conn := { conn with notes := conn.notes ++ [item] }

def handleError (message : Bytes) (code : ErrorCode) (dbError : Nat) (conn : Conn) : Conn :=
  conn.note (.error message code dbError)

def watchSocket (mode : WatchMode) (conn : Conn) : Conn := { conn with prevWatchMode := mode }

def reconnectSoon (conn : Conn) : Conn := { conn with autoreconnectTicksCounter := 0 }

def called (item : Note) (throws : Option String) (conn : Conn) : Conn :=
  match throws with
  | none => conn.note item
  | some what => (conn.note item).handleError (ascii what) .external 0

/-- What `close()` resets whether there is a socket or not. -/
def reset (autoreconnectDelay : Int) (conn : Conn) : Conn :=
  { conn with
    greeting := []
    serverProto := .empty
    state := .disconnected
    requestId := 0
    idleTicksCounter := 0
    autoreconnectTicksCounter := if autoreconnectDelay > 0 then 0 else -1
    autoreconnectTimeout :=
      if autoreconnectDelay > 0 then autoreconnectDelay else conn.autoreconnectTimeout }

def dropSocket (conn : Conn) : Conn :=
  { conn.watchSocket .none with
    socket := false
    outputBuffer := conn.outputBuffer.clear
    sendBuffer := .ofBuffer conn.sendBuffer.buffer.clear
    uncorkedSize := 0
    detectedResponseSize := 0
    receiveBuffer := conn.receiveBuffer.resize conn.lastReceivedHeadOffset }

def close (answers : Answers) (callDisconnectHandler : Bool) (autoreconnectDelay : Int)
    (conn : Conn) : Conn :=
  let closed := conn.reset autoreconnectDelay
  if !conn.socket then closed
  else if conn.state ≠ .connecting ∧ conn.callbacks.closed ∧ callDisconnectHandler then
    closed.dropSocket.called .closed answers.closedThrows
  else closed.dropSocket

/-- A failed call: the error, `close()`, and a reconnect soon. -/
def fail (answers : Answers) (message : Bytes) (code : ErrorCode) (callDisconnectHandler : Bool)
    (conn : Conn) : Conn :=
  ((conn.handleError message code 0).close answers callDisconnectHandler 0).reconnectSoon

/-- The middle of the send loop: the output buffer becomes the send buffer, and
what follows the flush mark is copied back. -/
def swapCorked (conn : Conn) : Option Conn :=
  let send := conn.outputBuffer
  let output := conn.sendBuffer.buffer.clear
  if conn.uncorkedSize < send.size then
    let tail := send.content.drop conn.uncorkedSize
    -- `memcpy` comes before `resize`: it writes into the storage that is there
    if tail.length ≤ output.capacity then
      some { conn with
        outputBuffer := (output.overwrite tail).resize tail.length
        sendBuffer := .ofBuffer (send.resize conn.uncorkedSize)
        uncorkedSize := 0 }
    else none
  else some { conn with outputBuffer := output, sendBuffer := .ofBuffer send, uncorkedSize := 0 }

def sent (now : Int) (count : Nat) (conn : Conn) : Conn :=
  { conn with
    lastWriteTime := now
    accepted := conn.accepted ++ conn.sendBuffer.unsent.take count
    sendBuffer := conn.sendBuffer.advance count }

/-- The loop of `write()` with `bytes_to_send` as its second argument. After the
swap it is the flush mark; the send buffer must hold that much. -/
def sendLoop (answers : Answers) : List SendResult → Nat → Conn → Option Conn
  | _, 0, conn => some (conn.watchSocket .read)
  | [], _ + 1, conn => some (conn.watchSocket .readWrite)
  | .eagain :: _, _ + 1, conn => some (conn.watchSocket .readWrite)
  | .eintr :: results, left + 1, conn => sendLoop answers results (left + 1) conn
  | .error :: _, _ + 1, conn => some (conn.fail answers [] .system true)
  | .accepted more :: results, left + 1, conn =>
      let count := min (more + 1) (left + 1)
      let after := conn.sent answers.now count
      if left + 1 - count = 0 ∧ after.uncorkedSize ≠ 0 then
        if after.uncorkedSize ≤ after.outputBuffer.size then
          match after.swapCorked with
          | some swapped => sendLoop answers results after.uncorkedSize swapped
          | none => none
        else none
      else sendLoop answers results (left + 1 - count) after

def jamReport (title : String) (conn : Conn) : Bytes :=
  ascii (title ++ "\ncurrent socket watch mode: " ++ Nat.repr conn.prevWatchMode.value ++
    "\nbytes_to_send: " ++ Nat.repr conn.sendBuffer.unsent.length ++
    "\nuncorked_size: " ++ Nat.repr conn.uncorkedSize)

/-- `write()` before its loop. -/
def startWrite (conn : Conn) : Conn :=
  let started := { conn with idleTicksCounter := 0 }
  if conn.sendBuffer.unsent = [] ∧ conn.uncorkedSize ≠ 0 then
    started.handleError (conn.jamReport "~~~~~ wtf inside write() ?! ~~~~~") .system 0
  else started

/-- Calls on a closed socket fail with `EBADF`. -/
def write (answers : Answers) (conn : Conn) : Option Conn :=
  if conn.state = .connecting then
    if !conn.socket || answers.soError then some (conn.fail answers [] .system false)
    else some (conn.watchSocket .read)
  else
    sendLoop answers (if conn.socket then answers.sends else [.error])
      conn.sendBuffer.unsent.length conn.startWrite

def flush (answers : Answers) (conn : Conn) : Option (Bool × Conn) :=
  if conn.outputBuffer.size = 0 then some (true, conn)
  else if conn.sendBuffer.unsent = [] then
    let swapped := { conn with
      sendBuffer := .ofBuffer conn.outputBuffer
      outputBuffer := conn.sendBuffer.buffer.clear
      uncorkedSize := 0 }
    (swapped.write answers).map fun after => (true, after)
  else some (false, { conn with uncorkedSize := conn.outputBuffer.size })

def clearReceiveBuffer (conn : Conn) : Conn :=
  { conn with
    receiveBuffer := conn.receiveBuffer.clear
    lastReceivedHeadOffset := 0
    detectedResponseSize := 0 }

def handOver (conn : Conn) : Conn :=
  let orphaned := conn.receiveBuffer.content.drop conn.lastReceivedHeadOffset
  let input := conn.receiveBuffer
  let receive := conn.inputBuffer.clear
  if orphaned.length ≠ 0 then
    { conn with
      receiveBuffer := (receive.resize orphaned.length).overwrite orphaned
      inputBuffer := input.resize (input.size - orphaned.length)
      lastReceivedHeadOffset := 0 }
  else { conn with receiveBuffer := receive, inputBuffer := input, lastReceivedHeadOffset := 0 }

/-- `input_processed` up to its call of `pass_response_to_caller`. -/
def releaseInput (conn : Conn) : Conn := { conn with callerIdle := true }.note .processed

def passResponseToCaller : List ResponseAnswer → Conn → Conn
  | answers, conn =>
      if conn.lastReceivedHeadOffset = 0 then conn
      else
        let passed := conn.handOver
        if !passed.callbacks.response then
          { passed with inputBuffer := passed.inputBuffer.clear }
        else
          let busy := { passed with callerIdle := false }.note (.response passed.inputBuffer.content)
          match answers with
          | [] => busy
          | answer :: rest =>
              let after := if answer.processed then passResponseToCaller rest busy.releaseInput
                else busy
              match answer.throws with
              | none => after
              | some what =>
                  passResponseToCaller rest (after.handleError (ascii what) .system 0).releaseInput

def inputProcessed (answers : Answers) (conn : Conn) : Conn :=
  conn.releaseInput.passResponseToCaller answers.responses

section Framing
variable (mp : Msgpuck)

/-- The size of the response at the head, from its first item. The decoder is
given the storage, as it may look past the bytes received. -/
def headerSize (conn : Conn) : Option Nat :=
  let head := conn.receiveBuffer.storage.drop conn.lastReceivedHeadOffset
  match head with
  | byte :: _ => if mp.mpTypeof byte = .uint then some (((mp.mpDecodeUint head).1 + 5) % 2 ^ 64)
      else none
  | [] => none

def detectSize (conn : Conn) : Conn :=
  let orphaned := conn.receiveBuffer.size - conn.lastReceivedHeadOffset
  if conn.detectedResponseSize = 0 ∧ 5 ≤ orphaned then
    match conn.headerSize mp with
    | some size => { conn with detectedResponseSize := size }
    | none =>
        let reported := conn.handleError (ascii "incorrect iproto message") .unexpectedData 0
        { reported with
          receiveBuffer := conn.receiveBuffer.resize conn.lastReceivedHeadOffset }
  else conn

theorem detectSize_known (conn : Conn) (known : (conn.detectSize mp).detectedResponseSize ≠ 0) :
    (conn.detectSize mp).receiveBuffer = conn.receiveBuffer ∧
      (conn.detectSize mp).lastReceivedHeadOffset = conn.lastReceivedHeadOffset := by
  unfold detectSize at known ⊢
  by_cases searched : conn.detectedResponseSize = 0 ∧
      5 ≤ conn.receiveBuffer.size - conn.lastReceivedHeadOffset
  · simp only [if_pos searched] at known ⊢
    cases header : conn.headerSize mp with
    | some size => simp
    | none =>
        simp only [header] at known
        exact absurd searched.1 known
  · simp [if_neg searched]

/-- The loop that finds the verges of the responses. -/
def detectResponses (conn : Conn) : Conn :=
  let orphaned := conn.receiveBuffer.size - conn.lastReceivedHeadOffset
  let found := conn.detectSize mp
  if _whole : found.detectedResponseSize ≠ 0 ∧ found.detectedResponseSize ≤ orphaned then
    detectResponses { found with
      lastReceivedHeadOffset := found.lastReceivedHeadOffset + found.detectedResponseSize
      detectedResponseSize := 0 }
  else found
termination_by conn.receiveBuffer.size - conn.lastReceivedHeadOffset
decreasing_by
  obtain ⟨buffer, head⟩ := detectSize_known mp conn _whole.1
  rw [buffer, head]
  have positive : (conn.detectSize mp).detectedResponseSize ≠ 0 := _whole.1
  have within : (conn.detectSize mp).detectedResponseSize ≤
    conn.receiveBuffer.size - conn.lastReceivedHeadOffset := _whole.2
  omega

end Framing

end Conn

section Handshake
variable (mp : Msgpuck) (mem : Bytes)

/-- `while (ff.has_next())` over the features of the server. Every round moves
the cursor, so the number of bytes bounds the rounds. -/
def readFeatures : Nat → BitVec 32 → Read (BitVec 32)
  | 0, _ => Cxx.undefined
  | fuel + 1, features => do
      if !(← hasNext false) then return features
      let fnum ← readIntegral mp mem .uint8
      readFeatures fuel
        (if fnum.1 < 32 then features ||| (1#32 <<< fnum.1.toNat) else features)

/-- `while (body.has_next())` over the answer to the ID request. -/
def readProto : Nat → ProtoId → Read ProtoId
  | 0, _ => Cxx.undefined
  | fuel + 1, proto => do
      if !(← hasNext false) then return proto
      let key ← readIntegral mp mem .uint32
      if key.1 = Field.version.key then
        let version ← readIntegral mp mem .uint64
        readProto fuel { proto with version := UInt64.ofNat version.1.toNat }
      else if key.1 = Field.authType.key then
        let auth ← readString mp mem proto.auth
        readProto fuel { proto with auth := auth }
      else if key.1 = Field.features.key then
        let array ← readArray mp mem
        let found ← Cxx.onObject (readFeatures mp mem (mem.length + 1) proto.features) array
        readProto fuel { proto with features := found.1 }
      else
        skip mp mem
        readProto fuel proto

/-- `response.read<mp_map_reader>()[key] >> value`. -/
def readEntry {α : Type} (key : Nat) (read : Read α) : Read α := do
  let map ← readMap mp mem
  let value ← mapAt mp mem map (equalsInt mp mem key)
  let found ← Cxx.onObject read value
  return found.1

def protoError24 : Nat := 0x31

def unknownRequestType : Nat := 0x30

/-- What a response of the handshake says: go on, with what is known about the
server, or an error. -/
inductive Reply where
  | accepted (code : Nat) (server : ProtoId)
  | refused (message : Bytes) (code : Nat)

def readResponse (during : State) (server : ProtoId) : Read Reply := do
  let code ← readEntry mp mem Field.code.key (readIntegral mp mem .uint32)
  if code.1 = 0 then
    if during = .featuresRequest then
      let body ← readMap mp mem
      let proto ← Cxx.onObject (readProto mp mem (mem.length + 1) server) body
      return .accepted 0 proto.1
    else return .accepted 0 server
  else
    let masked := code.1.toNat &&& 0x7fff
    if during = .featuresRequest ∧ masked = unknownRequestType then
      return .accepted masked server
    else
      let message ← readEntry mp mem protoError24 (toString mp mem 0)
      return .refused message masked

def readReply (during : State) (server : ProtoId) : Read Reply := do
  let response ← iprotoMessage mp mem
  let reply ← Cxx.onObject (readResponse mp mem during server) response
  return reply.1

end Handshake

namespace Conn

section Handshake
variable (mp : Msgpuck) (crypto : Crypto)

def abandon (answers : Answers) (conn : Conn) : Conn :=
  (conn.clearReceiveBuffer.close answers false 0).reconnectSoon

def abandonThrown (answers : Answers) (error : Exn) (conn : Conn) : Conn :=
  (conn.handleError (ascii error.what)
    (if error.type = .mpReaderError then .unexpectedData else .system) 0).abandon answers

/-- A request of the connection itself; the output buffer is passed over. The
pointer to the unsent bytes is set before the request is written: a buffer that
was reallocated meanwhile leaves it dangling. -/
def sendRequest (encode : UInt64 → Write Unit) (conn : Conn) : Outcome Exn Conn Unit :=
  let cleared := conn.sendBuffer.buffer.clear
  let issued := { conn with
    requestId := conn.requestId + 1
    requestsIssued := conn.requestsIssued + 1 }
  match writeInto (.handshake conn.requestsIssued conn.requestId) (encode conn.requestId) cleared with
  | .returned _ buffer =>
      if buffer.capacity = cleared.capacity then
        .returned () { issued with sendBuffer := .ofBuffer buffer }
      else .undefined
  | .thrown error buffer => .thrown error { issued with sendBuffer := .ofBuffer buffer }
  | .undefined => .undefined

def guest : Bytes := ascii "guest"

def setConnected (answers : Answers) (conn : Conn) : Conn :=
  let opened := { conn.clearReceiveBuffer with
    state := .connected
    autoreconnectTicksCounter := -1
    session := conn.session ++ [Milestone.opened] }
  if opened.callbacks.opened then opened.called .opened answers.openedThrows else opened

/-- `send_auth_request`, and `set_connected` when there is nobody to
authenticate. -/
def authenticate (answers : Answers) (conn : Conn) : Option Conn :=
  if conn.csParts.user = [] ∨ conn.csParts.user = guest then some (conn.setConnected answers)
  else
    let started := { conn.clearReceiveBuffer with state := .authentication }
    let request := IprotoWriter.encodeAuthRequest mp crypto conn.greeting conn.csParts.user
      conn.csParts.password conn.serverProto.auth
    match started.sendRequest request with
    | .returned _ queued =>
        { queued with session := queued.session ++ [Milestone.authRequest] }.write answers
    | .thrown error failed => some (failed.abandonThrown answers error)
    | .undefined => none

def handshake (answers : Answers) (conn : Conn) : Option Conn :=
  let reply := readReply mp conn.receiveBuffer.storage conn.state conn.serverProto
    (MpReader.plain 0 conn.receiveBuffer.size)
  match reply with
  | .undefined => none
  | .thrown error _ => some (conn.abandonThrown answers error)
  | .returned (.refused message code) _ =>
      let error := if conn.state = .featuresRequest then .features else .auth
      some ((conn.handleError message error code).abandon answers)
  | .returned (.accepted code server) _ =>
      let answered := { conn with
        serverProto := server
        session := conn.session ++ [Milestone.response conn.state code] }
      if conn.state = .featuresRequest then answered.authenticate mp crypto answers
      else some (answered.setConnected answers)

def processReceiveBuffer (answers : Answers) (conn : Conn) : Option Conn :=
  let found := conn.detectResponses mp
  if found.lastReceivedHeadOffset = 0 then some found
  else if found.state = .featuresRequest ∨ found.state = .authentication then
    found.handshake mp crypto answers
  else if found.callerIdle then some (found.passResponseToCaller answers.responses)
  else some found

end Handshake

def makeRoom (conn : Conn) : Conn :=
  if conn.receiveBuffer.available < 1024 then
    { conn with receiveBuffer := conn.receiveBuffer.reserve (conn.receiveBuffer.capacity * 3 / 2) }
  else conn

/-- The loop of `read()`; the flag tells whether it ended without a close. -/
def recvLoop (answers : Answers) : List RecvResult → Conn → Bool × Conn
  | [], conn => (true, conn.makeRoom)
  | .eagain :: _, conn => (true, conn.makeRoom)
  | .eintr :: results, conn => recvLoop answers results conn.makeRoom
  | .error :: _, conn => (false, conn.makeRoom.fail answers [] .system true)
  | .bytes chunk :: results, conn =>
      let ready := conn.makeRoom
      let taken := chunk.take ready.receiveBuffer.available
      if taken = [] then
        (false, ready.fail answers (ascii "connection closed by peer") .closedByPeer true)
      else
        recvLoop answers results { ready with
          receiveBuffer := ready.receiveBuffer.push taken
          received := ready.received ++ taken }

/-- All that `read()` receives before it looks at it. -/
def receive (answers : Answers) (conn : Conn) : Bool × Conn :=
  recvLoop answers answers.recvs { conn with idleTicksCounter := 0 }

section Steps
variable (mp : Msgpuck) (crypto : Crypto) (parseCs : Bytes → CsParts)

def takeGreeting (answers : Answers) (conn : Conn) : Option Conn :=
  let greeted := { conn.clearReceiveBuffer with
    greeting := conn.receiveBuffer.content
    state := .featuresRequest
    session := conn.session ++ [Milestone.greeting conn.receiveBuffer.content] }
  match greeted.sendRequest (IprotoWriter.encodeIdRequest mp conn.requiredProto) with
  | .returned _ queued => queued.write answers
  | _ => none

def read (answers : Answers) (conn : Conn) : Option Conn :=
  let received := conn.receive answers
  let after := received.2
  if !conn.socket then some conn
  else if !received.1 then some after
  else if after.state = .connecting then
    if after.receiveBuffer.size < greetingSize then some after
    else after.takeGreeting mp answers
  else after.processReceiveBuffer mp crypto answers

def startSession (mode : WatchMode) (conn : Conn) : Conn :=
  { conn.watchSocket mode with socket := true, accepted := [], received := [], session := [] }

/-- One `connect()`. A failed one leaves the counter to the caller. -/
def connectTo (answers : Answers) (attempt : Attempt) (conn : Conn) : Conn :=
  let trying := { conn with state := .connecting }
  match attempt with
  | .established => trying.startSession .read
  | .inProgress => (trying.startSession .write).reconnectSoon
  | _ => ((trying.handleError [] .system 0).close answers false 0)

def connectLoop (answers : Answers) : List Attempt → Conn → Conn
  | [], conn => { conn with state := .disconnected }.reconnectSoon
  | .noSocket :: rest, conn => connectLoop answers rest (conn.handleError [] .system 0)
  | .refused :: _, conn =>
      { conn.connectTo answers .refused with state := .disconnected }.reconnectSoon
  | attempt :: _, conn => conn.connectTo answers attempt

def addressResolved (answers : Answers) (conn : Conn) : Conn :=
  if conn.state ≠ .addressResolving then conn else conn.connectLoop answers answers.attempts

/-- `open(delay)`. -/
def openConnection (answers : Answers) (delay : Int) (conn : Conn) : Option Conn :=
  if conn.state = .connected then some conn
  else if conn.state ≠ .disconnected then
    some (conn.handleError (ascii "unable to connect, connection is busy") .badCallSequence 0)
  else if delay > 0 then
    some { conn with autoreconnectTicksCounter := 0, autoreconnectTimeout := delay }
  else if conn.resolverJoinable then
    some (conn.handleError (ascii "address resolver is still in progress") .getaddrInProgress 0)
  else
    let parsed := { conn with
      autoreconnectTimeout := generalTimeout
      autoreconnectTicksCounter := -1
      csParts := parseCs conn.currentCs }
    if parsed.csParts.host ≠ [] then
      some { parsed with
        state := .addressResolving
        resolverJoinable := true
        resolversStarted := parsed.resolversStarted + 1 }
    else if parsed.csParts.unixSocketPath ≠ [] then
      match answers.attempts.headD .refused with
      | .noSocket => some (parsed.handleError [] .system 0)
      | attempt =>
          -- the path is copied into `sun_path` without a check of its length
          if parsed.csParts.unixSocketPath.length ≤ 108 then
            let tried := parsed.connectTo answers attempt
            some (if attempt = .refused then tried.reconnectSoon else tried)
          else none
    else some (parsed.handleError (ascii "incorrect connection string") .invalidParameter 0)

def idleTick (conn : Conn) : Conn :=
  let ticked := { conn with idleTicksCounter := conn.idleTicksCounter + 1 }
  if ticked.idleTicksCounter ≥ ticked.idleTimeout ∧ ticked.callbacks.idle then
    { ticked.note .idle with idleTicksCounter := 0 }
  else ticked

def openedTick (answers : Answers) (conn : Conn) : Option Conn :=
  if conn.state ≠ .connected then some conn
  else if conn.uncorkedSize ≠ 0 ∧ answers.now - conn.lastWriteTime > 10 then
    let reported := conn.handleError (conn.jamReport "~~~~~ uncorked data is stuck! ~~~~~")
      .uncorkedDataJam 0
    (reported.flush answers).map fun flushed => flushed.2.idleTick
  else some conn.idleTick

def tick1sec (answers : Answers) (conn : Conn) : Option Conn :=
  if conn.autoreconnectTicksCounter ≥ 0 then
    let ticked := { conn with autoreconnectTicksCounter := conn.autoreconnectTicksCounter + 1 }
    if ticked.autoreconnectTicksCounter ≥ ticked.autoreconnectTimeout then
      if ticked.state = .disconnected then ticked.openConnection parseCs answers 0
      else some (((ticked.close answers true 0).handleError (ascii "timeout expired")
        .timeout 0).reconnectSoon)
    else ticked.openedTick answers
  else conn.openedTick answers

end Steps

/-- Bytes written to `output_buffer()`; the caller takes care of free space. -/
def append (bytes : Bytes) (conn : Conn) : Option Conn :=
  if bytes.length ≤ conn.outputBuffer.available then
    some { conn with outputBuffer := conn.outputBuffer.push (bytes.map fun byte => ⟨byte, .caller⟩) }
  else none

/-- A request written to `output_buffer()`. What the writer throws goes to the
caller; the buffer keeps what was written before. -/
def request (encode : UInt64 → Write Unit) (conn : Conn) : Option Conn :=
  let issued := { conn with
    requestId := conn.requestId + 1
    requestsIssued := conn.requestsIssued + 1 }
  match writeInto (.request conn.requestsIssued conn.requestId) (encode conn.requestId)
      conn.outputBuffer with
  | .returned _ buffer | .thrown _ buffer => some { issued with outputBuffer := buffer }
  | .undefined => none

end Conn

inductive Event where
  | openConnection (delay : Int)
  | close (callDisconnectHandler : Bool) (autoreconnectDelay : Int)
  | setConnectionString (cs : Bytes)
  | setRequiredProto (proto : ProtoId)
  | setCallbacks (callbacks : Callbacks) (idleTimeout : Int)
  | append (bytes : Bytes)
  | reserve (size : Nat)
  | request (encode : UInt64 → Write Unit)
  | flush
  | inputProcessed
  | tick1sec
  | read
  | write
  | resolved
  | resolveFailed (message : Bytes)

/-- One public call or event. A notification is handled only while there is one;
it joins the resolver first. -/
def step (mp : Msgpuck) (crypto : Crypto) (parseCs : Bytes → CsParts) :
    Event × Answers → Conn → Option Conn
  | (.openConnection delay, answers), conn => conn.openConnection parseCs answers delay
  | (.close handler delay, answers), conn => some (conn.close answers handler delay)
  | (.setConnectionString cs, _), conn =>
      some (if conn.state = .disconnected then { conn with currentCs := cs } else conn)
  | (.setRequiredProto proto, _), conn => some { conn with requiredProto := proto }
  | (.setCallbacks callbacks timeout, _), conn =>
      some { conn with callbacks := callbacks, idleTimeout := timeout }
  | (.append bytes, _), conn => conn.append bytes
  | (.reserve size, _), conn => some { conn with outputBuffer := conn.outputBuffer.reserve size }
  | (.request encode, _), conn => conn.request encode
  | (.flush, answers), conn => (conn.flush answers).map Prod.snd
  | (.inputProcessed, answers), conn => some (conn.inputProcessed answers)
  | (.tick1sec, answers), conn => conn.tick1sec parseCs answers
  | (.read, answers), conn => conn.read mp crypto answers
  | (.write, answers), conn => conn.write answers
  | (.resolved, answers), conn =>
      if conn.resolverJoinable then
        some ({ conn with resolverJoinable := false }.addressResolved answers)
      else none
  | (.resolveFailed message, _), conn =>
      if conn.resolverJoinable then
        some (({ conn with resolverJoinable := false, state := .disconnected }.handleError message
          .getaddr 0).reconnectSoon)
      else none

end Cpp2tnt
