import Cpp2tnt.ConnectionEvents
import Cpp2tnt.InputDelivery
import Cpp2tnt.RequestFraming

/-!
How a session gets under way. The requests of the connection itself fit their
buffer, a socket that takes them leaves nothing to send, and a response with
nothing but a code in its header is understood.
-/

namespace Cpp2tnt
open Imperative MessagePack MpWriter

/-- A header with the code `number`, followed by no body. -/
def bareHeader (number : Nat) : Bytes := 0x81 :: 0x00 :: encodeUint number

section Replies
variable {mp : Msgpuck} {mem rest : Bytes}

theorem equals_code (implements : Implements mp) (reader : MpReader)
    (ends : reader.endPos.isSome) (stands : Stands mem reader [0x00] rest) :
    equalsInt mp mem Field.code.key reader = .returned true reader := by
  have zero : HeadEncodes (.uint 0) [0x00] := fix_uint_head 0 (by decide)
  have type := implements.typeof _ _ _ zero
  have decoded := implements.decodeUint 0 [0x00] rest zero
  have more : hasNext false reader = .returned true reader :=
    has_next_returned stands (by decide) (.inl ends)
  refine (looks_at_item more (stands.deref reader) _).trans ?_
  rw [type, stands.bytes_at, decoded]
  rfl

theorem code_entry (implements : Implements mp) {item : Value} {text : Bytes}
    (encodes : Encodes item text) (pos : Nat) (found : mem.drop pos = 0x81 :: 0x00 :: text ++ rest) :
    ∃ map reached, readMap mp mem (MpReader.plain pos (pos + (2 + text.length))) =
        .returned map reached ∧
      mapAt mp mem map (equalsInt mp mem Field.code.key) reached =
        .returned (MpReader.plain (pos + 2) (pos + 2 + text.length)) reached := by
  have zero : HeadEncodes (.uint 0) [0x00] := fix_uint_head 0 (by decide)
  have keyItem : Encodes (.int 0) [0x00] := encodes_plain zero rfl
  have one : HeadEncodes (.map 1) [0x81] := fix_map_head 1 (by decide)
  have length : ([0x81] ++ ([0x00] ++ text)).length = 2 + text.length := by
    simp only [List.length_append, List.length_singleton]
    omega
  let reader := MpReader.plain pos (pos + (2 + text.length))
  have stands : Stands mem reader ([0x81] ++ ([0x00] ++ text)) rest :=
    stands_between found (Nat.le_of_eq (congrArg (pos + ·) length))
  obtain ⟨_, current, _, mapped⟩ := read_map_returned implements one rfl
    (encodes_all_cons keyItem (encodes_all_singleton encodes)) stands
  cases current
  rw [length] at mapped
  have afterHead : mem.drop (pos + 1) = [0x00] ++ (text ++ rest) := by
    rw [← List.drop_drop, found]
    rfl
  have inside : pos + 1 + 1 + text.length ≤ pos + (2 + text.length) := by omega
  have keyStands : Stands mem
      ⟨.plain, some (pos + 1), some (pos + (2 + text.length)), some (pos + 1), 0⟩
      [0x00] (text ++ rest) := by
    apply stands_plain rfl rfl afterHead
    rintro _ ⟨⟩
    exact Nat.le_trans (Nat.le_add_right _ _) inside
  exact ⟨_, _, mapped, map_at_first implements rfl rfl rfl afterHead inside keyItem encodes
    (equals_code implements _ rfl keyStands)⟩

theorem code_read (implements : Implements mp) (number : Nat) (small : number < 2 ^ 32) (pos : Nat)
    (found : mem.drop pos = bareHeader number ++ rest) :
    ∃ code reached, readEntry mp mem Field.code.key (readIntegral mp mem .uint32)
        (MpReader.plain pos (pos + (bareHeader number).length)) = .returned code reached ∧
      code.1 = number := by
  have coded : HeadEncodes (.uint number) (encodeUint number) := encode_uint_head number (by omega)
  have codeItem : Encodes (.int number) (encodeUint number) := encodes_plain coded rfl
  have length : (bareHeader number).length = 2 + (encodeUint number).length := by
    simp only [bareHeader, List.length_cons]
    omega
  have natural : intHead (number : Int) = .uint number := rfl
  have afterKey : mem.drop (pos + 2) = encodeUint number ++ rest := by
    rw [← List.drop_drop, found]
    rfl
  have valueAlone : Stands mem (MpReader.plain (pos + 2)
      (pos + 2 + (encodeUint number).length)) (encodeUint number) rest :=
    stands_between afterKey (Nat.le_refl _)
  let code : IntType.uint32.Val := ⟨number, by
    simp only [IntType.min, IntType.max, IntType.signed, IntType.bits, Bool.false_eq_true, if_false]
    omega⟩
  have read := read_integral_returned implements .uint32 code (natural ▸ coded) valueAlone
  obtain ⟨map, reached, opened, entry⟩ := code_entry implements codeItem pos found
  refine ⟨code, reached, ?_, rfl⟩
  rw [readEntry, length, Cxx.bind_returned opened, Cxx.bind_returned entry,
    Cxx.bind_returned (Cxx.onObject_returned read _)]
  rfl

/-- A bare code is what the handshake goes on with when there is nothing else to
say: success at the end of an authentication, or a server that knows no IDs. -/
theorem bare_reply (implements : Implements mp) (during : State) (server : ProtoId) (number : Nat)
    (small : number < 2 ^ 32) (found : mem = frame (bareHeader number) ++ rest)
    (goes : during = .authentication ∧ number = 0 ∨
      during = .featuresRequest ∧ number &&& 0x7fff = unknownRequestType) :
    ∃ reached, readReply mp mem during server
        (MpReader.plain 0 (frame (bareHeader number)).length) =
      .returned (.accepted (number &&& 0x7fff) server) reached := by
  have length : (bareHeader number).length < 2 ^ 32 := by
    simp only [bareHeader, List.length_cons, encodeUint]
    split_ifs <;> simp
  obtain ⟨moved, message⟩ : ∃ moved, iprotoMessage mp mem
      (MpReader.plain 0 (frame (bareHeader number)).length) =
        .returned (MpReader.plain 5 (5 + (bareHeader number).length)) moved :=
    ⟨_, message_returned implements (bareHeader number) rest 0 _ _ rfl rfl found (by omega) length⟩
  have body : mem.drop 5 = bareHeader number ++ rest := by
    rw [found, frame]
    rfl
  obtain ⟨code, reached, read, same⟩ := code_read implements number small 5 body
  have text : code.1.toNat = number := by rw [same, Int.toNat_natCast]
  have response : ∃ reached, readResponse mp mem during server
      (MpReader.plain 5 (5 + (bareHeader number).length)) =
      .returned (.accepted (number &&& 0x7fff) server) reached := by
    refine ⟨reached, ?_⟩
    rw [readResponse, Cxx.bind_returned read]
    rcases goes with ⟨rfl, rfl⟩ | ⟨rfl, unknown⟩
    · have success : code.1 = 0 := same
      rw [if_pos success]
      rfl
    · have failed : code.1 ≠ 0 := by
        rw [same]
        rintro zero
        rw [Int.natCast_eq_zero.mp zero] at unknown
        exact absurd unknown (by decide)
      rw [if_neg failed, text]
      simp only [unknown]
      rfl
  obtain ⟨object, answered⟩ := response
  refine ⟨moved, ?_⟩
  rw [readReply, Cxx.bind_returned message]
  exact Cxx.bind_returned (Cxx.onObject_returned answered _) _

end Replies

namespace Conn

theorem paint_length (origin : Origin) (old : List OutByte) (bytes : Bytes) :
    (paint origin old bytes).length = bytes.length := by
  induction bytes generalizing old with
  | nil => cases old <;> rfl
  | cons byte bytes ih =>
      cases old with
      | nil => exact congrArg Nat.succ (ih [])
      | cons known old => exact congrArg Nat.succ (ih old)

theorem paint_append (origin : Origin) (old : List OutByte) (bytes : Bytes) :
    paint origin old (old.map OutByte.byte ++ bytes) =
      old ++ bytes.map fun byte => ⟨byte, origin⟩ := by
  induction old with
  | nil => exact paint_nothing origin bytes
  | cons known old ih => exact congrArg (List.cons known) ih

theorem message_painted {mp : Msgpuck} (implements : Implements mp) (origin : Origin)
    (encode : Write Unit) (payload : Bytes) (buffer : OwnedBuffer OutByte)
    (emitted : encode = emitMessage mp payload) (short : (frame payload).length < 2 ^ 32)
    (room : (frame payload).length + 1024 ≤ buffer.available) :
    ∃ painted, writeInto origin encode buffer = .returned () painted ∧
      painted.content = buffer.content ++ (frame payload).map (fun byte => ⟨byte, origin⟩) ∧
      painted.capacity = buffer.capacity := by
  let plain : OwnedBuffer UInt8 :=
    ⟨buffer.content.map OutByte.byte, buffer.spare.map OutByte.byte⟩
  have spare : plain.spare.length = buffer.available := List.length_map _
  have total : plain.toWtf.available = buffer.available := spare
  have same : reserved plain.toWtf = plain.toWtf := by
    rw [reserved, total, if_neg]
    omega
  have roomy : Cpp2tnt.Roomy plain.toWtf ((frame payload).length + 0) :=
    ⟨by omega, .inl plain.to_wtf_owned⟩
  have ran := message_emitted implements payload short (settles_nothing plain.toWtf) roomy
  rw [same] at ran
  let painted : OwnedBuffer OutByte :=
    ⟨paint origin buffer.content (plain.content ++ frame payload),
      paint origin [] (plain.spare.drop (frame payload).length)⟩
  have written : writeInto origin encode buffer = .returned () painted := by
    unfold writeInto
    simp only
    rw [emitted, ran]
    rfl
  refine ⟨painted, written, paint_append origin buffer.content (frame payload), ?_⟩
  have content : plain.content.length = buffer.content.length := List.length_map _
  simp only [OwnedBuffer.capacity, OwnedBuffer.available, painted, paint_length,
    List.length_append, List.length_drop, spare, content] at room ⊢
  omega

theorem message_sent {mp : Msgpuck} (implements : Implements mp) (encode : UInt64 → Write Unit)
    (payload : Bytes) (conn : Conn) (emitted : encode conn.requestId = emitMessage mp payload)
    (short : (frame payload).length < 2 ^ 32)
    (room : (frame payload).length + 1024 ≤ conn.sendBuffer.buffer.capacity) :
    ∃ send, conn.sendRequest encode = .returned () { conn with
        requestId := conn.requestId + 1
        requestsIssued := conn.requestsIssued + 1
        sendBuffer := send } ∧
      send.unsent = (frame payload).map (fun byte =>
        ⟨byte, .handshake conn.requestsIssued conn.requestId⟩) ∧
      send.buffer.capacity = conn.sendBuffer.buffer.capacity := by
  let cleared := conn.sendBuffer.buffer.clear
  have free : cleared.available = conn.sendBuffer.buffer.capacity := by
    rw [OwnedBuffer.empty_available _ (OwnedBuffer.clear_content _), OwnedBuffer.clear_capacity]
  obtain ⟨painted, written, content, capacity⟩ := message_painted implements
    (.handshake conn.requestsIssued conn.requestId) (encode conn.requestId) payload cleared emitted
    short (by rw [free]; exact room)
  refine ⟨.ofBuffer painted, ?_, content,
    capacity.trans (OwnedBuffer.clear_capacity conn.sendBuffer.buffer)⟩
  unfold sendRequest
  simp only
  rw [written]
  exact if_pos capacity

theorem id_request_sent {mp : Msgpuck} (implements : Implements mp) (crypto : Crypto) (conn : Conn)
    (auth : conn.requiredProto.auth.length < 2 ^ 32)
    (short : (frame (Request.payload mp crypto conn.requestId (.id conn.requiredProto))).length <
      2 ^ 32)
    (room : (frame (Request.payload mp crypto conn.requestId (.id conn.requiredProto))).length +
      1024 ≤ conn.sendBuffer.buffer.capacity) :
    ∃ send, conn.sendRequest (IprotoWriter.encodeIdRequest mp conn.requiredProto) =
        .returned () { conn with
          requestId := conn.requestId + 1
          requestsIssued := conn.requestsIssued + 1
          sendBuffer := send } ∧
      send.unsent = (frame (Request.payload mp crypto conn.requestId
        (.id conn.requiredProto))).map (fun byte =>
          ⟨byte, .handshake conn.requestsIssued conn.requestId⟩) ∧
      send.buffer.capacity = conn.sendBuffer.buffer.capacity :=
  message_sent implements _ _ conn (id_emitted implements crypto conn.requiredProto _ auth) short
    room

theorem auth_request_sent {mp : Msgpuck} (implements : Implements mp) (crypto : Crypto)
    (greeting user password authProto : Bytes) (conn : Conn) (name : user.length < 2 ^ 32)
    (auth : authProto.length < 2 ^ 32)
    (short : (frame (Request.payload mp crypto conn.requestId
      (.auth greeting user password authProto))).length < 2 ^ 32)
    (room : (frame (Request.payload mp crypto conn.requestId
      (.auth greeting user password authProto))).length + 1024 ≤
        conn.sendBuffer.buffer.capacity) :
    ∃ send, conn.sendRequest (IprotoWriter.encodeAuthRequest mp crypto greeting user password
        authProto) = .returned () { conn with
          requestId := conn.requestId + 1
          requestsIssued := conn.requestsIssued + 1
          sendBuffer := send } ∧
      send.unsent = (frame (Request.payload mp crypto conn.requestId
        (.auth greeting user password authProto))).map (fun byte =>
          ⟨byte, .handshake conn.requestsIssued conn.requestId⟩) ∧
      send.buffer.capacity = conn.sendBuffer.buffer.capacity :=
  message_sent implements _ _ conn
    (auth_emitted implements crypto greeting user password authProto _ name auth) short room

def delivered (now : Int) (conn : Conn) : Conn :=
  ({ conn with idleTicksCounter := 0 }.sent now conn.sendBuffer.unsent.length).watchSocket .read

theorem delivered_unsent (now : Int) (conn : Conn) : (conn.delivered now).sendBuffer.unsent = [] := by
  change (conn.sendBuffer.advance conn.sendBuffer.unsent.length).unsent = []
  rw [SendBuffer.advance_unsent, List.drop_length]

theorem frame_queued {queue : SendBuffer} {body : Bytes} {origin : UInt8 → OutByte}
    (unsent : queue.unsent = (frame body).map origin) (short : (frame body).length ≤ 1024) :
    queue.unsent ≠ [] ∧ queue.unsent.length ≤ 1023 + 1 := by
  constructor
  · rw [unsent, Ne, List.map_eq_nil_iff]
    exact List.cons_ne_nil _ _
  · rw [unsent, List.length_map]
    exact short

theorem write_drains (answers : Answers) (more : Nat) (rest : List SendResult) (conn : Conn)
    (state : conn.state ≠ .connecting) (socket : conn.socket = true)
    (answered : answers.sends = .accepted more :: rest) (unmarked : conn.uncorkedSize = 0)
    (some : conn.sendBuffer.unsent ≠ []) (enough : conn.sendBuffer.unsent.length ≤ more + 1) :
    conn.write answers = .some (conn.delivered answers.now) := by
  obtain ⟨left, length⟩ := Nat.exists_eq_succ_of_ne_zero
    (fun empty => some (List.eq_nil_of_length_eq_zero empty))
  have started : conn.startWrite = { conn with idleTicksCounter := 0 } :=
    if_neg fun stuck => stuck.2 unmarked
  have count : min (more + 1) (left + 1) = left + 1 := Nat.min_eq_right (length.symm.trans_le enough)
  rw [write, if_neg state, if_pos socket, answered, delivered, length, started, sendLoop]
  simp only [count, Nat.sub_self]
  rw [if_neg fun swaps => swaps.2 unmarked]
  cases rest <;> rfl

theorem chunk_received (answers : Answers) (chunk : Bytes) (conn : Conn)
    (answered : answers.recvs = [.bytes chunk]) (some : chunk ≠ [])
    (room : 1024 ≤ conn.receiveBuffer.available)
    (fits : chunk.length ≤ conn.receiveBuffer.available) :
    ∃ buffer, buffer.content = conn.receiveBuffer.content ++ chunk ∧
      conn.receiveBuffer.capacity ≤ buffer.capacity ∧
      conn.receive answers = (true, conn.arrived buffer chunk) := by
  obtain ⟨buffer, content, grown, ended⟩ := conn.receive_shape answers
  have arrives := chunk_arrives answers chunk conn answered some room fits
  have wide : 2 ≤ conn.receiveBuffer.capacity :=
    Nat.le_trans (by decide) (Nat.le_trans room (Nat.le_add_left _ _))
  have ongoing : Ongoing answers.recvs := by
    rw [answered]
    refine ⟨by simp, ?_⟩
    intro last
    exact some (RecvResult.bytes.inj (List.mem_singleton.mp last)).symm
  have going : (conn.receive answers).1 = true :=
    recv_loop_ongoing answers answers.recvs _ wide ongoing
  rw [arrives] at content ended
  refine ⟨buffer, content, grown, ?_⟩
  rcases ended with ⟨_, shape⟩ | ⟨met, _⟩
  · exact Prod.ext going shape
  · rw [meetsEnd, going] at met
    cases met

theorem take_greeting_queued {mp : Msgpuck} {answers : Answers} {conn queued : Conn}
    (sent : ({ conn.clearReceiveBuffer with
        greeting := conn.receiveBuffer.content
        state := .featuresRequest
        session := conn.session ++ [.greeting conn.receiveBuffer.content] } : Conn).sendRequest
      (IprotoWriter.encodeIdRequest mp conn.requiredProto) = .returned () queued) :
    conn.takeGreeting mp answers = queued.write answers := by
  simp only [takeGreeting, sent]

theorem greeting_read (mp : Msgpuck) (crypto : Crypto) (answers : Answers) (chunk : Bytes)
    (conn queued : Conn) (buffer : OwnedBuffer UInt8) (socket : conn.socket = true)
    (state : conn.state = .connecting) (long : greetingSize ≤ buffer.size)
    (received : conn.receive answers = (true, conn.arrived buffer chunk))
    (sent : ({ (conn.arrived buffer chunk).clearReceiveBuffer with
        greeting := buffer.content
        state := .featuresRequest
        session := conn.session ++ [.greeting buffer.content] } : Conn).sendRequest
      (IprotoWriter.encodeIdRequest mp conn.requiredProto) = .returned () queued) :
    conn.read mp crypto answers = queued.write answers := by
  have still : (conn.arrived buffer chunk).state = .connecting := state
  have enough : ¬ (conn.arrived buffer chunk).receiveBuffer.size < greetingSize :=
    Nat.not_lt.mpr long
  have queues : (conn.arrived buffer chunk).takeGreeting mp answers = queued.write answers :=
    take_greeting_queued sent
  rw [read, received]
  simp only [socket, if_pos still, if_neg enough, queues]
  rfl

theorem frame_detected {mp : Msgpuck} (implements : Implements mp) (body : Bytes)
    (sized : Sized body) (conn : Conn) (buffer : OwnedBuffer UInt8)
    (unknown : conn.detectedResponseSize = 0) (first : conn.lastReceivedHeadOffset = 0)
    (content : buffer.content = frame body) :
    ∃ whole notes, (conn.arrived buffer (frame body)).detectResponses mp =
        { conn.arrived buffer (frame body) with
          receiveBuffer := whole
          lastReceivedHeadOffset := (frame body).length
          detectedResponseSize := 0
          notes := notes } ∧
      whole.content = frame body ∧ buffer.capacity ≤ whole.capacity ∧
      phases notes = phases conn.notes := by
  have text : (conn.arrived buffer (frame body)).receiveBuffer.content =
      [] ++ (frames [body] ++ []) := by
    rw [List.nil_append, List.append_nil, frames_cons, frames_nil, List.append_nil]
    exact content
  obtain ⟨whole, extra, found, kept, room, _⟩ := detect_framed implements [body]
    (by simpa using sized) [] [] 0 (.unfinished (.short [] (by decide)))
    (conn.arrived buffer (frame body)) [] text first (.inl unknown)
  have size : ([] ++ frames [body]).length = (frame body).length := by simp
  rw [size] at found
  have calm : phases (conn.notes ++ extra) = phases conn.notes := by
    obtain ⟨_, _, _, _, _, _, shape, phase, _⟩ :=
      detect_input mp (conn.arrived buffer (frame body))
    have noted := congrArg Conn.notes (found.symm.trans shape)
    exact (congrArg phases noted).trans phase
  exact ⟨whole, conn.notes ++ extra, found, by simpa using kept, room, calm⟩

theorem reply_read {mp : Msgpuck} (implements : Implements mp) (crypto : Crypto)
    (answers : Answers) (body : Bytes) (sized : Sized body) (conn : Conn)
    (buffer : OwnedBuffer UInt8) (socket : conn.socket = true)
    (login : conn.state = .featuresRequest ∨ conn.state = .authentication)
    (unknown : conn.detectedResponseSize = 0) (first : conn.lastReceivedHeadOffset = 0)
    (content : buffer.content = frame body)
    (received : conn.receive answers = (true, conn.arrived buffer (frame body))) :
    ∃ whole notes, conn.read mp crypto answers = ({ conn.arrived buffer (frame body) with
        receiveBuffer := whole
        lastReceivedHeadOffset := (frame body).length
        detectedResponseSize := 0
        notes := notes } : Conn).handshake mp crypto answers ∧
      whole.content = frame body ∧ buffer.capacity ≤ whole.capacity ∧
      phases notes = phases conn.notes := by
  obtain ⟨whole, notes, found, text, room, calm⟩ :=
    frame_detected implements body sized conn buffer unknown first content
  refine ⟨whole, notes, ?_, text, room, calm⟩
  have waiting : ¬ conn.state = .connecting := by
    rcases login with state | state <;> rw [state] <;> exact State.noConfusion
  have some : ¬ (frame body).length = 0 := by simp
  rw [read, received]
  simp only [socket, Bool.not_true, Bool.false_eq_true, if_false]
  have state : ¬ (conn.arrived buffer (frame body)).state = .connecting := waiting
  rw [if_neg state, processReceiveBuffer, found]
  simp only [if_neg some]
  exact if_pos login

theorem handshake_accepted (mp : Msgpuck) (crypto : Crypto) (answers : Answers) (found : Conn)
    (code : Nat) (server : ProtoId) (reached : MpReader)
    (reply : readReply mp found.receiveBuffer.storage found.state found.serverProto
      (MpReader.plain 0 found.receiveBuffer.size) = .returned (.accepted code server) reached) :
    found.handshake mp crypto answers =
      (let answered := { found with
        serverProto := server
        session := found.session ++ [Milestone.response found.state code] }
      if found.state = .featuresRequest then answered.authenticate mp crypto answers
      else some (answered.setConnected answers)) := by
  rw [handshake, reply]

theorem authenticate_challenges (mp : Msgpuck) (crypto : Crypto) (answers : Answers)
    (conn queued : Conn) (named : ¬ conn.Anonymous)
    (sent : { conn.clearReceiveBuffer with state := State.authentication }.sendRequest
      (IprotoWriter.encodeAuthRequest mp crypto conn.greeting conn.csParts.user
        conn.csParts.password conn.serverProto.auth) = .returned () queued) :
    conn.authenticate mp crypto answers =
      { queued with session := queued.session ++ [Milestone.authRequest] }.write answers := by
  have known : ¬ (conn.csParts.user = [] ∨ conn.csParts.user = guest) := named
  rw [authenticate, if_neg known]
  simp only
  rw [sent]

/-- A session with nothing buffered in either direction. -/
structure Underway (state : State) (conn : Conn) : Prop where
  socket : conn.socket = true
  state : conn.state = state
  content : conn.receiveBuffer.content = []
  head : conn.lastReceivedHeadOffset = 0
  detected : conn.detectedResponseSize = 0
  corked : conn.uncorkedSize = 0
  receiveRoom : 2048 ≤ conn.receiveBuffer.capacity
  sendRoom : 2048 ≤ conn.sendBuffer.buffer.capacity

theorem Underway.received {state : State} {conn : Conn} (underway : Underway state conn)
    (answers : Answers) (chunk : Bytes) (answered : answers.recvs = [.bytes chunk])
    (some : chunk ≠ []) (fits : chunk.length ≤ 2048) :
    ∃ buffer, buffer.content = chunk ∧ conn.receiveBuffer.capacity ≤ buffer.capacity ∧
      conn.receive answers = (true, conn.arrived buffer chunk) := by
  have free := OwnedBuffer.empty_available conn.receiveBuffer underway.content
  have room := underway.receiveRoom
  obtain ⟨buffer, content, grown, received⟩ := chunk_received answers chunk conn answered some
    (by omega) (by omega)
  rw [underway.content, List.nil_append] at content
  exact ⟨buffer, content, grown, received⟩

theorem greeting_taken {mp : Msgpuck} (implements : Implements mp) (crypto : Crypto)
    (chunk : Bytes) (conn : Conn) (socket : conn.socket = true) (state : conn.state = .connecting)
    (corked : conn.uncorkedSize = 0) (send : 2048 ≤ conn.sendBuffer.buffer.capacity)
    (some : chunk ≠ []) (room : 1024 ≤ conn.receiveBuffer.available)
    (fits : chunk.length ≤ conn.receiveBuffer.available)
    (long : greetingSize ≤ conn.receiveBuffer.size + chunk.length)
    (auth : conn.requiredProto.auth.length < 2 ^ 32)
    (short : (frame (Request.payload mp crypto conn.requestId (.id conn.requiredProto))).length ≤
      1024) :
    ∃ buffer queue, buffer.content = conn.receiveBuffer.content ++ chunk ∧
      conn.receiveBuffer.capacity ≤ buffer.capacity ∧ queue.unsent ≠ [] ∧
      queue.buffer.capacity = conn.sendBuffer.buffer.capacity ∧ conn.read mp crypto
        { recvs := [.bytes chunk], sends := [.accepted 1023] } =
          .some (((conn.arrived buffer chunk).greeted queue).delivered 0) := by
  obtain ⟨buffer, content, grown, received⟩ := chunk_received
    { recvs := [.bytes chunk], sends := [.accepted 1023] } chunk conn rfl some room fits
  let greeted : Conn := { (conn.arrived buffer chunk).clearReceiveBuffer with
    greeting := buffer.content
    state := .featuresRequest
    session := conn.session ++ [.greeting buffer.content] }
  obtain ⟨queue, sent, unsent, kept⟩ := id_request_sent implements crypto greeted auth
    (Nat.lt_of_le_of_lt short (by decide)) (Nat.le_trans (Nat.add_le_add_right short 1024) send)
  obtain ⟨full, asked⟩ := frame_queued unsent short
  have enough : greetingSize ≤ buffer.size := by
    rw [OwnedBuffer.size, content, List.length_append]
    exact long
  have read := greeting_read mp crypto _ chunk conn _ buffer socket state enough received sent
  have wrote := write_drains { recvs := [.bytes chunk], sends := [.accepted 1023] } 1023 []
    ((conn.arrived buffer chunk).greeted queue) State.noConfusion socket rfl corked full asked
  exact ⟨buffer, queue, content, grown, full, kept, read.trans wrote⟩

theorem greeting_answered {mp : Msgpuck} (implements : Implements mp) (crypto : Crypto)
    (greeting : Bytes) (conn : Conn) (underway : Underway .connecting conn)
    (long : greetingSize ≤ greeting.length) (fits : greeting.length ≤ 2048)
    (auth : conn.requiredProto.auth.length < 2 ^ 32)
    (short : (frame (Request.payload mp crypto conn.requestId (.id conn.requiredProto))).length ≤
      1024) :
    ∃ buffer queue, buffer.content = greeting ∧ queue.unsent ≠ [] ∧ conn.read mp crypto
        { recvs := [.bytes greeting], sends := [.accepted 1023] } =
          some (((conn.arrived buffer greeting).greeted queue).delivered 0) ∧
      Underway .featuresRequest (((conn.arrived buffer greeting).greeted queue).delivered 0) := by
  have some : greeting ≠ [] := by
    rintro rfl
    exact absurd long (by decide)
  have free := OwnedBuffer.empty_available conn.receiveBuffer underway.content
  have wide := underway.receiveRoom
  obtain ⟨buffer, queue, content, grown, full, room, read⟩ := greeting_taken implements crypto
    greeting conn underway.socket underway.state underway.corked underway.sendRoom some (by omega)
    (by omega) (Nat.le_add_left_of_le long) auth short
  rw [underway.content, List.nil_append] at content
  refine ⟨buffer, queue, content, full, read, ?_⟩
  refine ⟨underway.socket, rfl, rfl, rfl, rfl, underway.corked, ?_, ?_⟩
  · change 2048 ≤ buffer.clear.capacity
    rw [OwnedBuffer.clear_capacity]
    exact Nat.le_trans wide grown
  · change 2048 ≤ queue.buffer.capacity
    rw [room]
    exact underway.sendRoom

theorem bare_header_sized (number : Nat) : Sized (bareHeader number) ∧
    (frame (bareHeader number)).length ≤ 2048 := by
  have short : (encodeUint number).length ≤ 9 := by
    simp only [encodeUint]
    split_ifs <;> simp
  simp only [Sized, frame_length, bareHeader, List.length_cons]
  omega

theorem reply_handshakes {mp : Msgpuck} (implements : Implements mp) (crypto : Crypto)
    (answers : Answers) (number : Nat) (small : number < 2 ^ 32) (state : State) (conn : Conn)
    (underway : Underway state conn)
    (answered : answers.recvs = [.bytes (frame (bareHeader number))])
    (goes : state = .authentication ∧ number = 0 ∨
      state = .featuresRequest ∧ number &&& 0x7fff = unknownRequestType) :
    ∃ whole notes, conn.receiveBuffer.capacity ≤ whole.capacity ∧
      phases notes = phases conn.notes ∧ conn.read mp crypto answers =
        (let found := { conn.arrived whole (frame (bareHeader number)) with
          lastReceivedHeadOffset := (frame (bareHeader number)).length
          detectedResponseSize := 0
          session := conn.session ++ [Milestone.response state (number &&& 0x7fff)]
          notes := notes }
        if state = .featuresRequest then found.authenticate mp crypto answers
        else some (found.setConnected answers)) := by
  obtain ⟨sized, fits⟩ := bare_header_sized number
  obtain ⟨buffer, content, grown, received⟩ := underway.received answers _ answered
    (List.cons_ne_nil _ _) fits
  have login : conn.state = .featuresRequest ∨ conn.state = .authentication := by
    rw [underway.state]
    rcases goes with ⟨authentication, _⟩ | ⟨features, _⟩
    · exact .inr authentication
    · exact .inl features
  obtain ⟨whole, notes, read, text, room, calm⟩ := reply_read implements crypto answers _ sized conn
    buffer underway.socket login underway.detected underway.head content received
  refine ⟨whole, notes, Nat.le_trans grown room, calm, read.trans ?_⟩
  have stored : whole.storage = frame (bareHeader number) ++ whole.spare := by
    rw [OwnedBuffer.storage, text]
  have size : whole.size = (frame (bareHeader number)).length := congrArg List.length text
  obtain ⟨reached, reply⟩ := bare_reply implements state conn.serverProto number small stored goes
  rw [← size, ← underway.state] at reply
  have accepted := handshake_accepted mp crypto answers { conn.arrived buffer (frame (bareHeader
    number)) with
      receiveBuffer := whole
      lastReceivedHeadOffset := (frame (bareHeader number)).length
      detectedResponseSize := 0
      notes := notes } _ _ reached reply
  rw [accepted, ← underway.state]
  rfl

theorem reply_opens {mp : Msgpuck} (implements : Implements mp) (crypto : Crypto)
    (answers : Answers) (number : Nat) (small : number < 2 ^ 32) (state : State) (conn : Conn)
    (underway : Underway state conn)
    (answered : answers.recvs = [.bytes (frame (bareHeader number))])
    (goes : state = .authentication ∧ number = 0 ∨
      state = .featuresRequest ∧ conn.Anonymous ∧ number &&& 0x7fff = unknownRequestType) :
    ∃ whole after, conn.read mp crypto answers = some after ∧ Underway .connected after ∧
      phases after.notes = phases conn.notes ++ (if conn.callbacks.opened then [.opened] else []) ∧
      after = { (conn.arrived whole (frame (bareHeader number))).clearReceiveBuffer with
        state := .connected
        autoreconnectTicksCounter := -1
        session := conn.session ++ [.response state (number &&& 0x7fff)] ++ [.opened]
        notes := after.notes } := by
  have goesOn : state = .authentication ∧ number = 0 ∨
      state = .featuresRequest ∧ number &&& 0x7fff = unknownRequestType := by
    rcases goes with success | ⟨features, _, unknown⟩
    · exact .inl success
    · exact .inr ⟨features, unknown⟩
  obtain ⟨whole, notes, room, calm, read⟩ := reply_handshakes implements crypto answers number
    small state conn underway answered goesOn
  let found := { conn.arrived whole (frame (bareHeader number)) with
    lastReceivedHeadOffset := (frame (bareHeader number)).length
    detectedResponseSize := 0
    session := conn.session ++ [Milestone.response state (number &&& 0x7fff)]
    notes := notes }
  obtain ⟨said, shape, phase⟩ := set_connected_shape answers found
  have opened : conn.read mp crypto answers = some (found.setConnected answers) := by
    rw [read]
    rcases goes with ⟨rfl, _⟩ | ⟨rfl, anonymous, _⟩
    · rfl
    · exact if_pos anonymous
  rw [shape] at opened
  refine ⟨whole, _, opened, ?_, phase.trans (congrArg (· ++ _) calm), rfl⟩
  refine ⟨underway.socket, rfl, rfl, rfl, rfl, underway.corked, ?_, underway.sendRoom⟩
  change 2048 ≤ whole.clear.capacity
  rw [OwnedBuffer.clear_capacity]
  exact Nat.le_trans underway.receiveRoom room

theorem end_read (mp : Msgpuck) (crypto : Crypto) (conn : Conn) (socket : conn.socket = true) :
    ∃ buffer, conn.read mp crypto { recvs := [.bytes []] } =
      some ((conn.arrived buffer []).fail { recvs := [.bytes []] }
        (ascii "connection closed by peer") .closedByPeer true) := by
  obtain ⟨buffer, shape, _⟩ := make_room_shape { conn with idleTicksCounter := 0 }
  refine ⟨buffer, ?_⟩
  have arrived : ({ conn with idleTicksCounter := 0 } : Conn).makeRoom = conn.arrived buffer [] := by
    simp only [shape, Conn.arrived, taken, List.append_nil]
  have loop : conn.receive { recvs := [.bytes []] } = (false, (conn.arrived buffer []).fail
      { recvs := [.bytes []] } (ascii "connection closed by peer") .closedByPeer true) := by
    rw [receive, recvLoop, arrived]
    exact if_pos List.take_nil
  rw [read, loop, socket]
  rfl

/-- A connection string that names a unix socket. -/
def unixPath : Bytes → CsParts := fun _ => ⟨ascii "/tnt", [], [], [], []⟩

theorem unix_opens (crypto : Crypto) (attempt : Attempt) (real : attempt ≠ .noSocket) (conn : Conn)
    (state : conn.state = .disconnected) (joined : conn.resolverJoinable = false) :
    let tried := (conn.prepared unixPath).connectTo { attempts := [attempt] } attempt
    step reference crypto unixPath (.openConnection 0, { attempts := [attempt] }) conn =
      some (if attempt = .refused then tried.reconnectSoon else tried) := by
  have free : ¬ conn.resolverJoinable = true := by
    rw [joined]
    exact Bool.false_ne_true
  have unopened : ¬ conn.state = .connected := by
    rw [state]
    exact State.noConfusion
  rw [step, openConnection, if_neg unopened, if_neg (not_not.mpr state), if_neg (by decide),
    if_neg free]
  cases attempt with
  | noSocket => exact absurd rfl real
  | established | inProgress | refused => rfl

def acceptAll : Callbacks := ⟨true, true, true, true⟩

def atSocket (parseCs : Bytes → CsParts) : Conn :=
  ((Conn.initial [] acceptAll).prepared parseCs).trying.startSession .read

theorem at_socket_underway (parseCs : Bytes → CsParts) : Underway .connecting (atSocket parseCs) :=
  ⟨rfl, rfl, rfl, rfl, rfl, rfl, OwnedBuffer.of_size_roomy (by decide),
    OwnedBuffer.of_size_roomy (by decide)⟩

def blankGreeting : Bytes := List.replicate 128 0x20

theorem blank_greeting_length : blankGreeting.length = 128 := List.length_replicate

def greetingArrives : Event × Answers :=
  (.read, { recvs := [.bytes blankGreeting], sends := [.accepted 1023] })

def unknownArrives : Event × Answers := (.read, { recvs := [.bytes (frame (bareHeader 0x8030))] })

theorem at_socket_greeted (parseCs : Bytes → CsParts) :
    ∃ buffer queue, buffer.content = blankGreeting ∧ queue.unsent ≠ [] ∧
      step reference sampleCrypto parseCs greetingArrives (atSocket parseCs) =
        some ((((atSocket parseCs).arrived buffer blankGreeting).greeted queue).delivered 0) ∧
      Underway .featuresRequest
        ((((atSocket parseCs).arrived buffer blankGreeting).greeted queue).delivered 0) := by
  have auth : (Conn.initial [] acceptAll).requiredProto.auth.length < 2 ^ 32 := by decide
  have short : (frame (Request.payload reference sampleCrypto 0
      (.id (Conn.initial [] acceptAll).requiredProto))).length ≤ 1024 := by decide +kernel
  exact greeting_answered reference_implements sampleCrypto blankGreeting (atSocket parseCs)
    (at_socket_underway parseCs) blank_greeting_length.ge
    (blank_greeting_length.trans_le (by decide)) auth short

end Conn

end Cpp2tnt
