import Cpp2tnt.OpenSession
import Cpp2tnt.SessionStart
import Cpp2tnt.Negotiation

/-!
The stages of a login with a server that answers. The server says its greeting
and one response for each request it has received as a whole. `Waits` says what a
connection knows in each stage, however the bytes are cut; a message that is
complete takes it to the next stage, the last one opens the connection.
-/

namespace Cpp2tnt
open Imperative MessagePack Transition

section Sizes
variable {mp : Msgpuck} {crypto : Crypto}

theorem encode_uint_length (number : Nat) : (encodeUint number).length ≤ 9 := by
  unfold encodeUint
  split_ifs <;> simp

theorem encode_map_length (count : Nat) : (encodeMapHead count).length ≤ 5 := by
  unfold encodeMapHead
  split_ifs <;> simp

theorem encode_array_length (count : Nat) : (encodeArrayHead count).length ≤ 5 := by
  unfold encodeArrayHead
  split_ifs <;> simp

theorem str_text_bounded (text : Bytes) : (strText text).length ≤ text.length + 5 := by
  have head : (encodeStrHead text.length).length ≤ 5 := by
    unfold encodeStrHead
    split_ifs <;> simp
  rw [strText, List.length_append]
  omega

theorem entries_text_length (entries : List Entry) : (entriesText entries).length ≤
    5 + 9 * entries.length + (entries.map fun entry => entry.text.length).sum := by
  have head := encode_map_length entries.length
  have pairs : (entries.map fun entry => encodeUint entry.field.key ++ entry.text).flatten.length ≤
      9 * entries.length + (entries.map fun entry => entry.text.length).sum := by
    clear head
    induction entries with
    | nil => exact Nat.le_refl 0
    | cons entry entries ih =>
        have key := encode_uint_length entry.field.key
        simp only [List.map_cons, List.flatten_cons, List.length_append, List.length_cons,
          List.sum_cons]
        omega
  rw [entriesText, List.length_append]
  omega

theorem header_length (type : RequestType) (sync : UInt64) :
    (entriesText (headerEntries type sync)).length ≤ 41 := by
  have text := entries_text_length (headerEntries type sync)
  have code := encode_uint_length type.code
  have number := encode_uint_length sync.toNat
  simp only [headerEntries, List.length_cons, List.length_nil, List.map_cons, List.map_nil,
    List.sum_cons, List.sum_nil] at text ⊢
  omega

theorem features_length (proto : ProtoId) :
    (proto.listFeatures.map encodeUint).flatten.length ≤ 288 := by
  have each : (proto.listFeatures.map encodeUint).flatten.length ≤ 9 * proto.listFeatures.length := by
    generalize proto.listFeatures = numbers
    induction numbers with
    | nil => exact Nat.le_refl 0
    | cons number numbers ih =>
        have one := encode_uint_length number
        simp only [List.map_cons, List.flatten_cons, List.length_append, List.length_cons]
        omega
  have count : proto.listFeatures.length ≤ 32 :=
    (List.length_filter_le _ _).trans List.length_range.le
  omega

theorem id_frame_length (proto : ProtoId) (sync : UInt64) :
    (frame (Request.payload mp crypto sync (.id proto))).length ≤ proto.auth.length + 512 := by
  have header := header_length (Request.id proto).type sync
  have body := entries_text_length (idEntries proto)
  have version := encode_uint_length proto.version.toNat
  have features := features_length proto
  have array := encode_array_length proto.listFeatures.length
  have auth := str_text_bounded proto.auth
  have text : (entriesText (idEntries proto)).length ≤ proto.auth.length + 400 := by
    apply body.trans
    unfold idEntries
    split_ifs <;>
      simp only [List.length_append, List.length_cons, List.length_nil, List.map_append,
        List.map_cons, List.map_nil, List.sum_append, List.sum_cons, List.sum_nil] <;>
      omega
  rw [frame_length, Request.payload, List.length_append, Request.entries]
  omega

theorem auth_frame_length (greeting user password authProto : Bytes) (sync : UInt64) :
    (frame (Request.payload mp crypto sync (.auth greeting user password authProto))).length ≤
      user.length + authProto.length + 512 := by
  have header := header_length (Request.auth greeting user password authProto).type sync
  have body := entries_text_length (authEntries crypto greeting user password authProto)
  have name := str_text_bounded user
  have proto := str_text_bounded authProto
  have array := encode_array_length 2
  have scramble (salt : Bytes) :
      (strText (scramblePrepare crypto salt password)).length ≤ scrambleSize + 5 := by
    have text := str_text_bounded (scramblePrepare crypto salt password)
    rwa [scramblePrepare, List.length_map, List.length_range] at text
  have small := scramble (crypto.base64Decode
    (((greeting.drop versionSize).take (scrambleSize + saltSize)).take saltSize) 64)
  have text : (entriesText (authEntries crypto greeting user password authProto)).length ≤
      user.length + authProto.length + 64 := by
    apply body.trans
    simp only [authEntries, List.length_append, List.length_cons, List.length_nil, List.map_cons,
      List.map_nil, List.sum_cons, List.sum_nil, scrambleSize] at small ⊢
    omega
  rw [frame_length, Request.payload, List.length_append, Request.entries]
  omega

end Sizes

namespace Conn

def Pushes (before after : Conn) : Prop :=
  ∃ time accepted send mode idle, after = { before with
    lastWriteTime := time
    accepted := accepted
    sendBuffer := send
    prevWatchMode := mode
    idleTicksCounter := idle } ∧ send.buffer = before.sendBuffer.buffer ∧
    accepted ++ send.unsent = before.queue

theorem watch_pushes (mode : WatchMode) (conn : Conn) : Pushes conn (conn.watchSocket mode) :=
  ⟨_, _, _, _, _, rfl, rfl, rfl⟩

theorem sent_pushes (now : Int) (count : Nat) (conn : Conn) : Pushes conn (conn.sent now count) := by
  refine ⟨_, _, _, _, _, rfl, rfl, ?_⟩
  rw [SendBuffer.advance_unsent, List.append_assoc, List.take_append_drop]
  rfl

theorem Pushes.trans {first second third : Conn} (left : Pushes first second)
    (right : Pushes second third) : Pushes first third := by
  obtain ⟨_, _, _, _, _, rfl, kept, same⟩ := left
  obtain ⟨_, _, _, _, _, rfl, still, whole⟩ := right
  exact ⟨_, _, _, _, _, rfl, still.trans kept, whole.trans same⟩

theorem send_loop_pushes (answers : Answers) (results : List SendResult) (left : Nat) (conn : Conn)
    (fine : .error ∉ results) (corked : conn.uncorkedSize = 0) :
    ∃ after, sendLoop answers results left conn = some after ∧ Pushes conn after := by
  induction results generalizing left conn with
  | nil =>
      cases left with
      | zero => exact ⟨_, rfl, watch_pushes .read conn⟩
      | succ left => exact ⟨_, rfl, watch_pushes .readWrite conn⟩
  | cons result results ih =>
      obtain ⟨calm, others⟩ := List.ne_and_not_mem_of_not_mem_cons fine
      cases left with
      | zero => exact ⟨_, by cases result <;> rfl, watch_pushes .read conn⟩
      | succ left =>
          cases result with
          | eagain => exact ⟨_, rfl, watch_pushes .readWrite conn⟩
          | error => exact absurd rfl calm
          | eintr => exact ih (left + 1) conn others corked
          | accepted more =>
              let count := min (more + 1) (left + 1)
              have unmarked : (conn.sent answers.now count).uncorkedSize = 0 := corked
              obtain ⟨after, ran, pushes⟩ := ih (left + 1 - count) _ others unmarked
              refine ⟨after, ?_, (sent_pushes answers.now count conn).trans pushes⟩
              rw [sendLoop, if_neg fun swaps => swaps.2 unmarked]
              exact ran

theorem write_pushes (answers : Answers) (conn : Conn) (socket : conn.socket = true)
    (fine : .error ∉ answers.sends) (sound : conn.state = .connecting → answers.soError = false)
    (corked : conn.uncorkedSize = 0) :
    ∃ after, conn.write answers = some after ∧ Pushes conn after := by
  unfold write
  by_cases state : conn.state = .connecting
  · rw [if_pos state, socket, sound state]
    exact ⟨_, rfl, watch_pushes .read conn⟩
  · have started : conn.startWrite = { conn with idleTicksCounter := 0 } :=
      if_neg fun stuck => stuck.2 corked
    rw [if_neg state, if_pos socket, started]
    obtain ⟨after, ran, pushes⟩ := send_loop_pushes answers answers.sends
      conn.sendBuffer.unsent.length { conn with idleTicksCounter := 0 } fine corked
    have still : Pushes conn { conn with idleTicksCounter := 0 } := ⟨_, _, _, _, _, rfl, rfl, rfl⟩
    exact ⟨after, ran, still.trans pushes⟩

end Conn

/-- What a server says to a login. -/
structure Script where
  greeting : Bytes
  identity : Response
  verdict : Response
  /-- What its identity tells about it. -/
  server : ProtoId

inductive Stage where
  | greeting | identity | verdict
  deriving DecidableEq

namespace Stage

/-- The state of a connection that waits for this message. -/
def state : Stage → State
  | greeting => .connecting
  | identity => .featuresRequest
  | verdict => .authentication

def asked : Stage → Nat
  | greeting => 0
  | identity => 1
  | verdict => 2

end Stage

namespace Script

def responses (script : Script) : List Bytes := [script.identity.bytes, script.verdict.bytes]

/-- The greeting and so many responses. -/
def said (script : Script) (count : Nat) : Bytes :=
  script.greeting ++ frames (script.responses.take count)

/-- Every response follows its request: no byte of it is said before the request has been received
as a whole. -/
def Speaks (script : Script) (received said : Bytes) : Prop :=
  ∃ requests rest, (∀ body ∈ requests, Sized body) ∧ received = frames requests ++ rest ∧
    said <+: script.said requests.length

def heard (script : Script) : Stage → Bytes
  | .greeting => []
  | .identity => script.greeting
  | .verdict => script.greeting ++ frame script.identity.bytes

def awaited (script : Script) : Stage → Bytes
  | .greeting => script.greeting
  | .identity => frame script.identity.bytes
  | .verdict => frame script.verdict.bytes

theorem heard_awaited (script : Script) (stage : Stage) :
    script.heard stage ++ script.awaited stage = script.said stage.asked := by
  cases stage <;> simp [heard, awaited, said, responses, Stage.asked]

theorem said_prefix (script : Script) {less more : Nat} (ordered : less ≤ more) :
    script.said less <+: script.said more := by
  have front : script.responses.take less <+: script.responses.take more :=
    List.take_prefix_take_left ordered
  obtain ⟨rest, same⟩ := front
  rw [said, said, ← same, frames_append, ← List.append_assoc]
  exact List.prefix_append _ _

theorem said_before (script : Script) {stage : Stage} {count : Nat} (fewer : count < stage.asked) :
    script.said count <+: script.heard stage := by
  cases stage with
  | greeting => exact absurd fewer (Nat.not_lt_zero count)
  | identity =>
      obtain rfl : count = 0 := Nat.lt_one_iff.mp fewer
      simp [said, heard]
  | verdict =>
      have last := script.said_prefix (Nat.le_of_lt_succ fewer)
      simpa [said, heard, responses] using last

/-- A script that fits a connection: a greeting of the right length, responses the handshake
understands, names that leave room for the requests in the send buffer. -/
structure Suits (mp : Msgpuck) (script : Script) (start : Conn) : Prop where
  greeting : script.greeting.length = greetingSize
  identity : script.identity.Formed ∧ Sized script.identity.bytes
  identifies : ∃ code, script.identity.Means mp .featuresRequest start.serverProto
    (.accepted code script.server)
  verdict : script.verdict.Formed ∧ Sized script.verdict.bytes
  accepts : script.verdict.HasCode 0
  required : start.requiredProto.auth.length + 1536 ≤ start.sendBuffer.buffer.capacity
  named : start.csParts.user.length + script.server.auth.length + 1536 ≤
    start.sendBuffer.buffer.capacity
  short : start.requiredProto.auth.length < 2 ^ 31 ∧
    start.csParts.user.length + script.server.auth.length < 2 ^ 31

end Script

namespace Conn
variable {mp : Msgpuck} {crypto : Crypto} {script : Script} {start conn : Conn} {stage : Stage}

def lastStage (conn : Conn) : Stage := if conn.Anonymous then .identity else .verdict

def SameParts (start conn : Conn) : Prop :=
  conn.csParts = start.csParts ∧ conn.requiredProto = start.requiredProto ∧
    conn.callbacks = start.callbacks ∧ conn.inputBuffer = start.inputBuffer ∧
    conn.callerIdle = start.callerIdle

/-- The part of a message that has arrived stands in the receive buffer. -/
structure Waits (script : Script) (start : Conn) (stage : Stage) (conn : Conn) : Prop where
  socket : conn.socket = true
  state : conn.state = stage.state
  heard : conn.received = script.heard stage ++ conn.receiveBuffer.content
  missing : ∃ rest, rest ≠ [] ∧ conn.receiveBuffer.content ++ rest = script.awaited stage
  head : conn.lastReceivedHeadOffset = 0
  knows : conn.Knows conn.receiveBuffer.content
  corked : conn.uncorkedSize = 0
  silent : stage = .greeting → conn.accepted = []
  asked : stage ≠ .greeting → ∃ requests : List Bytes, requests.length = stage.asked ∧
    (∀ body ∈ requests, Sized body) ∧ conn.queue.map OutByte.byte = frames requests
  receiveRoom : 2 ≤ conn.receiveBuffer.capacity
  sendRoom : start.sendBuffer.buffer.capacity ≤ conn.sendBuffer.buffer.capacity
  same : SameParts start conn
  calm : phases conn.notes = phases start.notes
  hushed : Hushed start conn
  greeted : stage ≠ .greeting → conn.greeting = script.greeting
  server : conn.serverProto = if stage = .verdict then script.server else start.serverProto
  named : stage = .verdict → start.lastStage = .verdict

theorem Waits.requested (waits : Waits script start stage conn) :
    ∃ requests rest, requests.length = stage.asked ∧ (∀ body ∈ requests, Sized body) ∧
      conn.accepted.map OutByte.byte ++ rest = frames requests ∧
      (stage ≠ .greeting → rest = conn.sendBuffer.unsent.map OutByte.byte) := by
  by_cases first : stage = .greeting
  · refine ⟨[], [], by rw [first]; rfl, fun _ member => absurd member List.not_mem_nil, ?_,
      fun later => absurd first later⟩
    rw [waits.silent first]
    rfl
  · obtain ⟨requests, count, sized, same⟩ := waits.asked first
    rw [queue, List.map_append] at same
    exact ⟨requests, _, count, sized, same, fun _ => rfl⟩

/-- What comes in is a part of the awaited message; all of it comes only when the requests have
been taken. -/
theorem Waits.arrives (waits : Waits script start stage conn) {bytes : Bytes}
    (speaks : script.Speaks (conn.accepted.map OutByte.byte) (conn.received ++ bytes)) :
    conn.receiveBuffer.content ++ bytes <+: script.awaited stage ∧
      (conn.receiveBuffer.content ++ bytes = script.awaited stage → stage ≠ .greeting →
        conn.sendBuffer.unsent = []) := by
  obtain ⟨requests, rest, count, sized, made, unsent⟩ := waits.requested
  obtain ⟨answered, behind, formed, taken, said⟩ := speaks
  rw [taken, List.append_assoc] at made
  obtain ⟨later, shape, left⟩ := frames_split answered requests _ formed sized made
  have bounded : answered.length + later.length = stage.asked := by
    rw [← count, shape, List.length_append]
  rw [waits.heard, List.append_assoc] at said
  have whole := said.trans (script.said_prefix (Nat.le_of_add_right_le bounded.le))
  rw [← script.heard_awaited, List.prefix_append_right_inj] at whole
  refine ⟨whole, ?_⟩
  intro complete login
  have all : later = [] := by
    by_contra some
    have positive := List.length_pos_iff.mpr some
    have fewer : answered.length < stage.asked := by omega
    have before := said.trans (script.said_before fewer)
    rw [complete] at before
    have length := before.length_le
    obtain ⟨missing, more, together⟩ := waits.missing
    have awaited := congrArg List.length together
    have lacking := List.length_pos_iff.mpr more
    simp only [List.length_append] at length awaited
    omega
  rw [all, frames_nil] at left
  have none := (List.append_eq_nil_iff.mp left).2
  rw [unsent login] at none
  exact List.map_eq_nil_iff.mp none

theorem Waits.receives (waits : Waits script start stage conn) (answers : Answers)
    (ongoing : Ongoing answers.recvs) :
    ∃ buffer, buffer.content = conn.receiveBuffer.content ++ conn.arriving answers ∧
      conn.receiveBuffer.capacity ≤ buffer.capacity ∧
      conn.receive answers = (true, conn.arrived buffer (conn.arriving answers)) := by
  obtain ⟨buffer, content, grown, ended⟩ := conn.receive_shape answers
  have going := ongoing_meets_none answers conn waits.receiveRoom ongoing
  refine ⟨buffer, content, grown, ?_⟩
  rcases ended with ⟨met, shape⟩ | ⟨met, _⟩
  · have pauses : (conn.receive answers).1 = true := by simpa [meetsEnd] using met
    exact Prod.ext pauses shape
  · rw [going] at met
    cases met

theorem Knows.append {bytes : Bytes} (knows : conn.Knows bytes) (more : Bytes) :
    conn.Knows (bytes ++ more) := by
  rcases knows with unknown | ⟨length, headed, known⟩
  · exact .inl unknown
  · exact .inr ⟨length, headed.append more, known⟩

theorem partly_unfinished {body bytes rest : Bytes} (sized : Sized body) (more : rest ≠ [])
    (same : bytes ++ rest = frame body) : ∃ size, Unfinished bytes size := by
  have one : ∀ other ∈ [body], Sized other := by
    intro other member
    rw [List.mem_singleton.mp member]
    exact sized
  obtain ⟨fresh, behind, tail, size, shape, split, unfinished, _⟩ := prefix_splits [body] one bytes
    ⟨rest, by rw [same, frames_cons, frames_nil, List.append_nil]⟩
  cases fresh with
  | nil => exact ⟨size, split ▸ unfinished⟩
  | cons first fresh =>
      obtain ⟨rfl, _⟩ := List.cons.inj shape
      have whole := congrArg List.length same
      have positive := List.length_pos_iff.mpr more
      rw [split, frames_cons] at whole
      simp only [List.length_append] at whole
      omega

theorem Script.awaited_frame (suits : script.Suits mp start) (login : stage ≠ .greeting) :
    ∃ body, Sized body ∧ script.awaited stage = frame body := by
  cases stage with
  | greeting => exact absurd rfl login
  | identity => exact ⟨_, suits.identity.2, rfl⟩
  | verdict => exact ⟨_, suits.verdict.2, rfl⟩

theorem Stage.login_state {stage : Stage} (login : stage ≠ .greeting) :
    stage.state = .featuresRequest ∨ stage.state = .authentication := by
  cases stage with
  | greeting => exact absurd rfl login
  | identity => exact .inl rfl
  | verdict => exact .inr rfl

theorem Waits.partly (implements : Implements mp) (suits : script.Suits mp start)
    (waits : Waits script start stage conn) (answers : Answers) {bytes : Bytes}
    {buffer : OwnedBuffer UInt8}
    (content : buffer.content = conn.receiveBuffer.content ++ bytes)
    (grown : conn.receiveBuffer.capacity ≤ buffer.capacity)
    (received : conn.receive answers = (true, conn.arrived buffer bytes))
    (missing : ∃ rest, rest ≠ [] ∧ buffer.content ++ rest = script.awaited stage) :
    ∃ after, conn.read mp crypto answers = some after ∧ after.received = conn.received ++ bytes ∧
      after.outputBuffer = conn.outputBuffer ∧ Waits script start stage after := by
  have heard : (conn.arrived buffer bytes).received = script.heard stage ++ buffer.content := by
    change conn.received ++ bytes = _
    rw [waits.heard, content, List.append_assoc]
  have knows : conn.Knows buffer.content := content ▸ waits.knows.append bytes
  have room := Nat.le_trans waits.receiveRoom grown
  obtain ⟨rest, more, same⟩ := missing
  rw [read, received]
  simp only [waits.socket, Bool.not_true, Bool.false_eq_true, if_false]
  -- a greeting is counted, a response is looked for by its header
  by_cases first : stage = .greeting
  · have state : (conn.arrived buffer bytes).state = .connecting := by
      rw [← show stage.state = .connecting by rw [first]; rfl, ← waits.state]
      rfl
    have short : (conn.arrived buffer bytes).receiveBuffer.size < greetingSize := by
      have length := congrArg List.length same
      have positive := List.length_pos_iff.mpr more
      rw [first, List.length_append] at length
      rw [← suits.greeting]
      change buffer.content.length < _
      change _ = script.greeting.length at length
      omega
    rw [if_pos state, if_pos short]
    exact ⟨_, rfl, rfl, rfl, waits.socket, waits.state, heard, ⟨rest, more, same⟩, waits.head, knows,
      waits.corked, waits.silent, waits.asked, room, waits.sendRoom, waits.same, waits.calm,
      waits.hushed, waits.greeted, waits.server, waits.named⟩
  · obtain ⟨body, sized, awaited⟩ := Script.awaited_frame suits first
    obtain ⟨size, unfinished⟩ := partly_unfinished sized more (same.trans awaited)
    have login : conn.state = .featuresRequest ∨ conn.state = .authentication := by
      rw [waits.state]
      exact Stage.login_state first
    have connecting : ¬ (conn.arrived buffer bytes).state = .connecting := by
      change ¬ conn.state = .connecting
      rcases login with state | state <;> rw [state] <;> exact State.noConfusion
    obtain ⟨whole, extra, found, kept, wide, quiet⟩ := detect_framed implements []
      (fun _ member => absurd member List.not_mem_nil) buffer.content buffer.content size
      (.unfinished unfinished) (conn.arrived buffer bytes) [] rfl waits.head knows
    have calm : phases (conn.notes ++ extra) = phases conn.notes := by
      obtain ⟨_, _, _, _, _, _, shape, phase, _⟩ := detect_input mp (conn.arrived buffer bytes)
      exact (congrArg phases (congrArg Conn.notes (found.symm.trans shape))).trans phase
    rw [if_neg connecting, processReceiveBuffer, found]
    refine ⟨_, rfl, rfl, rfl, waits.socket, waits.state, ?_, ⟨rest, more, ?_⟩, rfl, ?_,
      waits.corked, waits.silent, waits.asked, Nat.le_trans room wide, waits.sendRoom, waits.same,
      calm.trans waits.calm, waits.hushed.trans ⟨extra, rfl, quiet⟩, waits.greeted, waits.server,
      waits.named⟩
    · exact heard.trans (congrArg _ kept.symm)
    · exact (congrArg (· ++ rest) kept).trans same
    · change Knows whole.content _
      rw [kept]
      exact unfinished.size_known

theorem Waits.completes (implements : Implements mp) (crypto : Crypto)
    (waits : Waits script start stage conn) (login : stage ≠ .greeting) (answers : Answers)
    {bytes body : Bytes} (sized : Sized body) {buffer : OwnedBuffer UInt8}
    (content : buffer.content = conn.receiveBuffer.content ++ bytes)
    (received : conn.receive answers = (true, conn.arrived buffer bytes))
    (complete : buffer.content = frame body) :
    ∃ whole notes, conn.read mp crypto answers = ({ conn.arrived buffer bytes with
        receiveBuffer := whole
        lastReceivedHeadOffset := (frame body).length
        detectedResponseSize := 0
        notes := notes } : Conn).handshake mp crypto answers ∧
      whole.content = frame body ∧ buffer.capacity ≤ whole.capacity ∧
      phases notes = phases conn.notes ∧
      ∃ extra, notes = conn.notes ++ extra ∧ ∀ item ∈ extra, item.isQuiet := by
  have during : conn.state = .featuresRequest ∨ conn.state = .authentication := by
    rw [waits.state]
    exact Stage.login_state login
  have connecting : ¬ (conn.arrived buffer bytes).state = .connecting := by
    change ¬ conn.state = .connecting
    rcases during with state | state <;> rw [state] <;> exact State.noConfusion
  have one : ∀ other ∈ [body], Sized other := by
    intro other member
    rw [List.mem_singleton.mp member]
    exact sized
  have text : (conn.arrived buffer bytes).receiveBuffer.content = [] ++ (frames [body] ++ []) := by
    simp only [frames_cons, frames_nil, List.nil_append, List.append_nil]
    exact complete
  have knows : (conn.arrived buffer bytes).Knows (frames [body] ++ []) := by
    have found := waits.knows.append bytes
    rw [← content, complete] at found
    rw [frames_cons, frames_nil, List.append_nil, List.append_nil]
    exact found
  -- the buffer is one frame, so the verge is found behind it and no size is left over
  obtain ⟨whole, extra, found, kept, wide, quiet⟩ := detect_framed implements [body] one [] [] 0
    (.unfinished (.short [] (by decide))) (conn.arrived buffer bytes) [] text waits.head knows
  have size : ([] ++ frames [body]).length = (frame body).length := by simp
  rw [size] at found
  have calm : phases (conn.notes ++ extra) = phases conn.notes := by
    obtain ⟨_, _, _, _, _, _, shape, phase, _⟩ := detect_input mp (conn.arrived buffer bytes)
    exact (congrArg phases (congrArg Conn.notes (found.symm.trans shape))).trans phase
  have some : ¬ (frame body).length = 0 := by simp
  refine ⟨whole, conn.notes ++ extra, ?_, by simpa using kept, wide, calm, extra, rfl, quiet⟩
  rw [read, received]
  simp only [waits.socket, Bool.not_true, Bool.false_eq_true, if_false]
  rw [if_neg connecting, processReceiveBuffer, found]
  simp only [if_neg some]
  exact if_pos during

theorem payload_sized (sync : UInt64) (request : Request)
    (short : (frame (request.payload mp crypto sync)).length < 2 ^ 32) :
    Sized (request.payload mp crypto sync) := by
  rw [frame_length] at short
  refine ⟨?_, Nat.lt_of_le_of_lt (Nat.le_add_right _ _) short⟩
  rw [Request.payload, List.length_append]
  have head : 0 < (entriesText (headerEntries request.type sync)).length := by
    rw [entriesText, List.length_append]
    exact Nat.add_pos_left Nat.zero_lt_one _
  omega

theorem Waits.greets (implements : Implements mp) (crypto : Crypto) (suits : script.Suits mp start)
    (waits : Waits script start .greeting conn) (answers : Answers)
    (fine : .error ∉ answers.sends) {bytes : Bytes} {buffer : OwnedBuffer UInt8}
    (content : buffer.content = conn.receiveBuffer.content ++ bytes)
    (grown : conn.receiveBuffer.capacity ≤ buffer.capacity)
    (received : conn.receive answers = (true, conn.arrived buffer bytes))
    (complete : buffer.content = script.greeting) :
    ∃ after, conn.read mp crypto answers = some after ∧ after.received = conn.received ++ bytes ∧
      after.outputBuffer = conn.outputBuffer ∧ Waits script start .identity after := by
  obtain ⟨parts, proto, callbacks⟩ := waits.same
  have size := @id_frame_length mp crypto conn.requiredProto conn.requestId
  have room := waits.sendRoom
  have required := suits.required
  have short := suits.short.1
  rw [← proto] at required short
  have bounded : (frame (Request.payload mp crypto conn.requestId (.id conn.requiredProto))).length <
      2 ^ 32 := by omega
  have fits : (frame (Request.payload mp crypto conn.requestId (.id conn.requiredProto))).length +
      1024 ≤ conn.sendBuffer.buffer.capacity := by omega
  -- the whole greeting is there: the ID request is put into the empty send buffer
  obtain ⟨send, sent, unsent, kept⟩ := id_request_sent implements crypto
    { (conn.arrived buffer bytes).clearReceiveBuffer with
      greeting := buffer.content
      state := .featuresRequest
      session := conn.session ++ [.greeting buffer.content] }
    (show conn.requiredProto.auth.length < 2 ^ 32 by omega) bounded
    fits
  have enough : greetingSize ≤ buffer.size := by
    rw [OwnedBuffer.size, complete, suits.greeting]
  have queues := greeting_read mp crypto answers bytes conn _ buffer waits.socket waits.state enough
    received sent
  obtain ⟨after, wrote, _, _, last, _, _, rfl, same, queued⟩ := write_pushes answers
    ((conn.arrived buffer bytes).greeted send) waits.socket fine State.noConfusion waits.corked
  refine ⟨_, queues.trans wrote, rfl, rfl, ?_⟩
  have silent : conn.accepted = [] := waits.silent rfl
  constructor
  · exact waits.socket
  · rfl
  -- the greeting has been heard, and nothing of the identity
  · change conn.received ++ bytes = script.greeting ++ []
    rw [waits.heard, List.append_assoc, ← content, complete]
    exact (List.append_nil _).symm
  · exact ⟨frame script.identity.bytes, by simp [frame], rfl⟩
  · rfl
  · exact .inl rfl
  · exact waits.corked
  · exact fun first => absurd first (by decide)
  · intro _
    refine ⟨[Request.payload mp crypto conn.requestId (.id conn.requiredProto)], rfl, ?_, ?_⟩
    · intro body member
      rw [List.mem_singleton.mp member]
      exact payload_sized _ _ bounded
    · rw [queue, queued, frames_cons, frames_nil, List.append_nil]
      change (conn.accepted ++ send.unsent).map OutByte.byte = _
      rw [silent, unsent, List.nil_append, List.map_map]
      exact List.map_id _
  · change 2 ≤ buffer.clear.capacity
    rw [OwnedBuffer.clear_capacity]
    exact Nat.le_trans waits.receiveRoom grown
  · change _ ≤ last.buffer.capacity
    rw [same]
    exact room.trans kept.ge
  · exact ⟨parts, proto, callbacks⟩
  · exact waits.calm
  · exact waits.hushed
  · exact fun _ => complete
  · exact waits.server
  · exact fun last => absurd last (by decide)

/-- What the end of a login leaves. -/
structure Opened (script : Script) (start conn : Conn) : Prop where
  socket : conn.socket = true
  state : conn.state = .connected
  heard : conn.received = script.said start.lastStage.asked
  asked : ∃ requests : List Bytes, requests.length = start.lastStage.asked ∧
    (∀ body ∈ requests, Sized body) ∧ conn.queue.map OutByte.byte = frames requests
  drained : conn.sendBuffer.unsent = []
  corked : conn.uncorkedSize = 0
  ticks : conn.autoreconnectTicksCounter < 0
  content : conn.receiveBuffer.content = []
  head : conn.lastReceivedHeadOffset = 0
  detected : conn.detectedResponseSize = 0
  receiveRoom : 2 ≤ conn.receiveBuffer.capacity
  same : SameParts start conn
  calls : phases conn.notes = phases start.notes ++ if start.callbacks.opened then [.opened] else []
  hushed : Hushed start conn
  greeted : conn.greeting = script.greeting
  server : conn.serverProto = script.server

theorem set_connected_hushed (answers : Answers) (conn : Conn) :
    Hushed conn (conn.setConnected answers) := by
  by_cases callback : conn.callbacks.opened = true
  · obtain ⟨extra, shape, quiet, _⟩ := called_shape .opened answers.openedThrows
      { conn.clearReceiveBuffer with
        state := .connected
        autoreconnectTicksCounter := -1
        session := conn.session ++ [.opened] } rfl
    have opened : conn.setConnected answers = _ := (if_pos callback).trans shape
    exact ⟨extra, congrArg Conn.notes opened, quiet⟩
  · have unheard : conn.setConnected answers = _ := if_neg callback
    refine .same ?_
    rw [unheard]
    rfl

theorem set_connected_output (answers : Answers) (conn : Conn) :
    (conn.setConnected answers).outputBuffer = conn.outputBuffer := by
  obtain ⟨notes, shape, _⟩ := set_connected_shape answers conn
  rw [shape]
  rfl

theorem Waits.opens (waits : Waits script start stage conn) (login : stage ≠ .greeting)
    (last : start.lastStage = stage) (answers : Answers) {found : Conn}
    (socket : found.socket = true) (heard : found.received = script.said stage.asked)
    (taken : found.accepted = conn.accepted) (send : found.sendBuffer = conn.sendBuffer)
    (drained : conn.sendBuffer.unsent = []) (corked : found.uncorkedSize = 0)
    (room : 2 ≤ found.receiveBuffer.capacity) (same : SameParts start found)
    (calm : phases found.notes = phases conn.notes) (hushed : Hushed start found)
    (greeting : found.greeting = conn.greeting) (server : found.serverProto = script.server) :
    Opened script start (found.setConnected answers) := by
  have later := hushed.trans (set_connected_hushed answers found)
  obtain ⟨notes, shape, phase⟩ := set_connected_shape answers found
  rw [shape] at later ⊢
  constructor
  · exact socket
  · rfl
  · rw [last]
    exact heard
  · rw [last]
    obtain ⟨requests, count, sized, same⟩ := waits.asked login
    refine ⟨requests, count, sized, Eq.trans ?_ same⟩
    change (found.accepted ++ found.sendBuffer.unsent).map OutByte.byte = _
    rw [taken, send]
    rfl
  · exact (congrArg SendBuffer.unsent send).trans drained
  · exact corked
  · exact Int.negSucc_lt_zero 0
  · rfl
  · rfl
  · rfl
  · change 2 ≤ found.receiveBuffer.clear.capacity
    rw [OwnedBuffer.clear_capacity]
    exact room
  · exact same
  · rw [← same.2.2.1, ← waits.calm, ← calm]
    exact phase
  · exact later
  · exact greeting.trans (waits.greeted login)
  · exact server

theorem Waits.told (waits : Waits script start stage conn) {bytes : Bytes}
    (complete : conn.receiveBuffer.content ++ bytes = script.awaited stage) :
    conn.received ++ bytes = script.said stage.asked := by
  rw [waits.heard, List.append_assoc, complete, script.heard_awaited]

theorem frame_understood (implements : Implements mp) (prints : ReadsItems mp) {response : Response}
    (formed : response.Formed) (sized : Sized response.bytes) {during : State} {server : ProtoId}
    {reply : Reply} (means : response.Means mp during server reply) {whole : OwnedBuffer UInt8}
    (content : whole.content = frame response.bytes) :
    ∃ reached, readReply mp whole.storage during server (MpReader.plain 0 whole.size) =
      .returned reply reached := by
  have stored : whole.storage = frame response.bytes ++ whole.spare := by
    rw [OwnedBuffer.storage, content]
  have size : (frame response.bytes).length ≤ whole.size := by rw [OwnedBuffer.size, content]
  exact reply_returned implements prints formed sized means stored ((Nat.zero_add _).trans_le size)

theorem Waits.verdict_opens (implements : Implements mp) (prints : ReadsItems mp) (crypto : Crypto)
    (suits : script.Suits mp start) (waits : Waits script start .verdict conn) (answers : Answers)
    (drained : conn.sendBuffer.unsent = []) {bytes : Bytes} {buffer : OwnedBuffer UInt8}
    (content : buffer.content = conn.receiveBuffer.content ++ bytes)
    (grown : conn.receiveBuffer.capacity ≤ buffer.capacity)
    (received : conn.receive answers = (true, conn.arrived buffer bytes))
    (complete : buffer.content = frame script.verdict.bytes) :
    ∃ after, conn.read mp crypto answers = some after ∧ after.outputBuffer = conn.outputBuffer ∧
      Opened script start after := by
  obtain ⟨formed, sized⟩ := suits.verdict
  obtain ⟨whole, notes, ran, kept, wide, calm, hushed⟩ := waits.completes implements crypto
    (by decide) answers sized content received complete
  have room : 2 ≤ whole.capacity := Nat.le_trans waits.receiveRoom (Nat.le_trans grown wide)
  have means : script.verdict.Means mp conn.state conn.serverProto (.accepted 0 conn.serverProto) :=
    .authenticated suits.accepts (by rw [waits.state]; decide)
  obtain ⟨reached, reply⟩ := frame_understood implements prints formed sized means kept
  have accepted := handshake_accepted mp crypto answers { conn.arrived buffer bytes with
    receiveBuffer := whole
    lastReceivedHeadOffset := (frame script.verdict.bytes).length
    detectedResponseSize := 0
    notes := notes } _ _ reached reply
  have other : ¬ conn.state = .featuresRequest := by
    rw [waits.state]
    exact State.noConfusion
  refine ⟨_, ran.trans (accepted.trans (if_neg other)), set_connected_output answers _, ?_⟩
  exact waits.opens (by decide) (waits.named rfl) answers waits.socket
    (waits.told (content.symm.trans complete)) rfl rfl drained waits.corked room waits.same calm
    (waits.hushed.trans hushed) rfl waits.server

theorem Waits.challenges (implements : Implements mp) (crypto : Crypto)
    (suits : script.Suits mp start) (waits : Waits script start .identity conn) (answers : Answers)
    (fine : .error ∉ answers.sends) (named : ¬ start.Anonymous) (drained : conn.sendBuffer.unsent = [])
    {found : Conn} (socket : found.socket = true) (corked : found.uncorkedSize = 0)
    (heard : found.received = script.heard .verdict) (taken : found.accepted = conn.accepted)
    (send : found.sendBuffer = conn.sendBuffer) (room : 2 ≤ found.receiveBuffer.capacity)
    (same : SameParts start found) (calm : phases found.notes = phases start.notes)
    (hushed : Hushed start found) (greeting : found.greeting = script.greeting)
    (server : found.serverProto = script.server) :
    ∃ after, found.authenticate mp crypto answers = some after ∧
      after.received = found.received ∧ after.outputBuffer = found.outputBuffer ∧
      Waits script start .verdict after := by
  obtain ⟨parts, proto, callbacks⟩ := same
  have size := @auth_frame_length mp crypto found.greeting found.csParts.user
    found.csParts.password found.serverProto.auth found.requestId
  have wide := waits.sendRoom
  have names := suits.named
  have short := suits.short.2
  rw [← parts, ← server] at names short
  rw [← send] at wide
  have bounded : (frame (Request.payload mp crypto found.requestId (.auth found.greeting
      found.csParts.user found.csParts.password found.serverProto.auth))).length < 2 ^ 32 := by omega
  have fits : (frame (Request.payload mp crypto found.requestId (.auth found.greeting
      found.csParts.user found.csParts.password found.serverProto.auth))).length + 1024 ≤
      found.sendBuffer.buffer.capacity := by omega
  have someone : ¬ found.Anonymous := by
    rw [Anonymous, parts]
    exact named
  -- the send buffer has been drained: the request is all there is in it
  obtain ⟨queue, sent, unsent, kept⟩ := auth_request_sent implements crypto found.greeting
    found.csParts.user found.csParts.password found.serverProto.auth
    { found.clearReceiveBuffer with state := .authentication } (by omega) (by omega) bounded fits
  have asks := authenticate_challenges mp crypto answers found _ someone sent
  obtain ⟨after, wrote, _, _, last, _, _, rfl, buffer, queued⟩ := write_pushes answers
    { found.clearReceiveBuffer with
      state := .authentication
      requestId := found.requestId + 1
      requestsIssued := found.requestsIssued + 1
      sendBuffer := queue
      session := found.session ++ [Milestone.authRequest] } socket fine State.noConfusion corked
  refine ⟨_, asks.trans wrote, rfl, rfl, ?_⟩
  constructor
  · exact socket
  · rfl
  -- nothing of the verdict has arrived
  · exact heard.trans (List.append_nil _).symm
  · exact ⟨frame script.verdict.bytes, by simp [frame], rfl⟩
  · rfl
  · exact .inl rfl
  · exact corked
  · exact fun first => absurd first (by decide)
  · intro _
    -- one request more has been made, and the queue is its frame or what is left of it
    obtain ⟨requests, count, sized, before⟩ := waits.asked (by decide)
    refine ⟨requests ++ [Request.payload mp crypto found.requestId (.auth found.greeting
      found.csParts.user found.csParts.password found.serverProto.auth)], ?_, ?_, ?_⟩
    · rw [List.length_append, count]
      rfl
    · intro body member
      rcases List.mem_append.mp member with old | new
      · exact sized body old
      · rw [List.mem_singleton.mp new]
        exact payload_sized _ _ bounded
    · rw [Conn.queue, drained, List.append_nil] at before
      rw [Conn.queue, queued, frames_append, ← before, frames_cons, frames_nil, List.append_nil]
      change (found.accepted ++ queue.unsent).map OutByte.byte = _
      rw [taken, unsent, List.map_append, List.map_map]
      exact congrArg _ (List.map_id _)
  · change 2 ≤ found.receiveBuffer.clear.capacity
    rw [OwnedBuffer.clear_capacity]
    exact room
  · change _ ≤ last.buffer.capacity
    rw [buffer]
    exact wide.trans kept.ge
  · exact ⟨parts, proto, callbacks⟩
  · exact calm
  · exact hushed
  · exact fun _ => greeting
  · exact server
  · exact fun _ => if_neg named

theorem Waits.identifies (implements : Implements mp) (prints : ReadsItems mp) (crypto : Crypto)
    (suits : script.Suits mp start) (waits : Waits script start .identity conn) (answers : Answers)
    (fine : .error ∉ answers.sends) (drained : conn.sendBuffer.unsent = []) {bytes : Bytes}
    {buffer : OwnedBuffer UInt8} (content : buffer.content = conn.receiveBuffer.content ++ bytes)
    (grown : conn.receiveBuffer.capacity ≤ buffer.capacity)
    (received : conn.receive answers = (true, conn.arrived buffer bytes))
    (complete : buffer.content = frame script.identity.bytes) :
    ∃ after, conn.read mp crypto answers = some after ∧ after.outputBuffer = conn.outputBuffer ∧
      (after.received = conn.received ++ bytes ∧ Waits script start .verdict after ∨
        Opened script start after) := by
  obtain ⟨formed, sized⟩ := suits.identity
  obtain ⟨code, means⟩ := suits.identifies
  obtain ⟨whole, notes, ran, kept, wide, calm, hushed⟩ := waits.completes implements crypto
    (by decide) answers sized content received complete
  have room : 2 ≤ whole.capacity := Nat.le_trans waits.receiveRoom (Nat.le_trans grown wide)
  have quiet : Hushed start { conn with notes := notes } := waits.hushed.trans hushed
  have server : conn.serverProto = start.serverProto := waits.server
  obtain ⟨reached, reply⟩ := frame_understood implements prints formed sized means kept
  have during : conn.state = .featuresRequest := waits.state
  rw [← server, ← during] at reply
  let found : Conn := { conn.arrived buffer bytes with
    receiveBuffer := whole
    lastReceivedHeadOffset := (frame script.identity.bytes).length
    detectedResponseSize := 0
    notes := notes }
  let answered : Conn := { found with
    serverProto := script.server
    session := found.session ++ [Milestone.response found.state code] }
  have accepted : conn.read mp crypto answers = answered.authenticate mp crypto answers :=
    ran.trans ((handshake_accepted mp crypto answers found _ _ reached reply).trans (if_pos during))
  have told := waits.told (content.symm.trans complete)
  -- without a name the identity is the last response there is
  by_cases anonymous : start.Anonymous
  · have guest : answered.csParts.user = [] ∨ answered.csParts.user = guest := by
      change conn.csParts.user = [] ∨ conn.csParts.user = _
      rw [waits.same.1]
      exact anonymous
    refine ⟨_, accepted.trans (if_pos guest), set_connected_output answers _, .inr ?_⟩
    exact waits.opens (by decide) (if_pos anonymous) answers waits.socket told rfl rfl drained
      waits.corked room waits.same calm quiet rfl rfl
  · have heard : conn.received ++ bytes = script.heard .verdict := by
      rw [told, Script.said, Script.heard, Script.responses, Stage.asked]
      simp
    obtain ⟨after, asked, kept, output, reaches⟩ := @challenges mp script start conn implements crypto suits waits
      answers fine anonymous drained answered waits.socket waits.corked heard rfl rfl room waits.same
      (calm.trans waits.calm) quiet (waits.greeted (by decide)) rfl
    exact ⟨after, accepted.trans asked, output, .inl ⟨kept, reaches⟩⟩

end Conn

end Cpp2tnt
