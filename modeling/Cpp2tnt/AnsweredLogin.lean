import Cpp2tnt.LoginStages

/-!
A login with a server that answers. Its bytes come in any pieces, the socket takes
the requests in any pieces, the caller may queue requests meanwhile. Every read
takes the login further, the last byte of the last response opens the connection,
and from every state before that there is a run that does.
-/

namespace Cpp2tnt
open Imperative MessagePack Transition

namespace Conn
variable {mp : Msgpuck} {crypto : Crypto} {script : Script} {start conn : Conn} {stage : Stage}

theorem Waits.reads (implements : Implements mp) (prints : ReadsItems mp) (crypto : Crypto)
    (suits : script.Suits mp start) (waits : Waits script start stage conn) (answers : Answers)
    (ongoing : Ongoing answers.recvs) (fine : .error ∉ answers.sends)
    (speaks : script.Speaks (conn.accepted.map OutByte.byte)
      (conn.received ++ conn.arriving answers)) :
    ∃ after, conn.read mp crypto answers = some after ∧ after.outputBuffer = conn.outputBuffer ∧
      (after.received = conn.received ++ conn.arriving answers ∧
          (∃ stage, Waits script start stage after) ∨ Opened script start after) := by
  obtain ⟨buffer, content, grown, received⟩ := waits.receives answers ongoing
  obtain ⟨⟨rest, same⟩, drained⟩ := waits.arrives speaks
  rw [← content] at same drained
  by_cases more : rest = []
  · rw [more, List.append_nil] at same
    cases stage with
    | greeting =>
        obtain ⟨after, ran, kept, output, reaches⟩ := waits.greets implements crypto suits answers
          fine content grown received same
        exact ⟨after, ran, output, .inl ⟨kept, _, reaches⟩⟩
    | identity =>
        obtain ⟨after, ran, output, reaches⟩ := waits.identifies implements prints crypto suits answers fine
          (drained same (by decide)) content grown received same
        exact ⟨after, ran, output, reaches.imp_left fun later => ⟨later.1, _, later.2⟩⟩
    | verdict =>
        obtain ⟨after, ran, output, opened⟩ := waits.verdict_opens implements prints crypto suits answers
          (drained same (by decide)) content grown received same
        exact ⟨after, ran, output, .inr opened⟩
  · obtain ⟨after, ran, told, output, kept⟩ := @partly mp crypto script start conn stage implements suits waits
      answers _ _ content grown received ⟨rest, more, same⟩
    exact ⟨after, ran, output, .inl ⟨told, stage, kept⟩⟩

def Beside (before after : Conn) : Prop :=
  ∃ output id issued ticks idle time mode accepted send notes, after = { before with
    outputBuffer := output
    requestId := id
    requestsIssued := issued
    autoreconnectTicksCounter := ticks
    idleTicksCounter := idle
    lastWriteTime := time
    prevWatchMode := mode
    accepted := accepted
    sendBuffer := send
    notes := notes } ∧ send.buffer = before.sendBuffer.buffer ∧
    accepted ++ send.unsent = before.queue ∧
    (before.state = .connecting → accepted = before.accepted) ∧
    phases notes = phases before.notes ∧ Hushed before after

theorem Waits.beside {after : Conn} (waits : Waits script start stage conn)
    (beside : Beside conn after) : Waits script start stage after := by
  obtain ⟨_, _, _, _, _, _, _, _, _, _, rfl, buffer, queue, taken, phase, hushed⟩ := beside
  constructor
  · exact waits.socket
  · exact waits.state
  · exact waits.heard
  · exact waits.missing
  · exact waits.head
  · exact waits.knows
  · exact waits.corked
  · rintro rfl
    exact (taken waits.state).trans (waits.silent rfl)
  · intro login
    obtain ⟨requests, count, sized, same⟩ := waits.asked login
    exact ⟨requests, count, sized, (congrArg _ queue).trans same⟩
  · exact waits.receiveRoom
  · exact waits.sendRoom.trans (congrArg OwnedBuffer.capacity buffer).ge
  · exact waits.same
  · exact phase.trans waits.calm
  · exact waits.hushed.trans hushed
  · exact waits.greeted
  · exact waits.server
  · exact waits.named

theorem write_beside (answers : Answers) (socket : conn.socket = true)
    (fine : .error ∉ answers.sends) (sound : answers.soError = false)
    (corked : conn.uncorkedSize = 0) :
    ∃ after, conn.write answers = some after ∧ Beside conn after := by
  by_cases connecting : conn.state = .connecting
  · refine ⟨conn.watchSocket .read, ?_, ?_⟩
    · rw [write, if_pos connecting, socket, sound]
      rfl
    · exact ⟨_, _, _, _, _, _, _, _, _, _, rfl, rfl, rfl, fun _ => rfl, rfl, .same rfl⟩
  · obtain ⟨after, wrote, _, _, _, _, _, rfl, buffer, queue⟩ := write_pushes answers conn socket fine
      (fun _ => sound) corked
    exact ⟨_, wrote, _, _, _, _, _, _, _, _, _, _, rfl, buffer, queue,
      fun state => absurd state connecting, rfl, .same rfl⟩

def queues : Event → Bool
  | .append _ | .reserve _ | .request _ | .openConnection _ | .setConnectionString _ => true
  | _ => false

/-- Up to the opening the peer answers, no call of the socket fails, the timer does not expire, and
the caller only queues requests. -/
def Undisturbed (script : Script) (conn : Conn) (event : Event × Answers) : Prop :=
  conn.state ≠ .connected ∧ match event with
  | (.read, answers) => Ongoing answers.recvs ∧ .error ∉ answers.sends ∧
      script.Speaks (conn.accepted.map OutByte.byte) (conn.received ++ conn.arriving answers)
  | (.write, answers) => .error ∉ answers.sends ∧ answers.soError = false
  | (.tick1sec, _) => conn.autoreconnectTicksCounter < 0 ∨
      conn.autoreconnectTicksCounter + 1 < conn.autoreconnectTimeout
  | (call, _) => queues call = true

theorem tick_beside (parseCs : Bytes → CsParts) (answers : Answers) {after : Conn}
    (unopened : conn.state ≠ .connected)
    (early : conn.autoreconnectTicksCounter < 0 ∨
      conn.autoreconnectTicksCounter + 1 < conn.autoreconnectTimeout)
    (done : conn.tick1sec parseCs answers = some after) : Beside conn after := by
  unfold tick1sec at done
  by_cases armed : conn.autoreconnectTicksCounter ≥ 0
  · have still : ¬ conn.autoreconnectTicksCounter + 1 ≥ conn.autoreconnectTimeout := by omega
    simp only [if_pos armed, if_neg still, openedTick, if_pos unopened] at done
    cases done
    exact ⟨_, _, _, _, _, _, _, _, _, _, rfl, rfl, rfl, fun _ => rfl, rfl, .same rfl⟩
  · simp only [if_neg armed, openedTick, if_pos unopened] at done
    cases done
    exact ⟨_, _, _, _, _, _, _, _, _, _, rfl, rfl, rfl, fun _ => rfl, rfl, .same rfl⟩

theorem caller_beside (parseCs : Bytes → CsParts) {event : Event} {answers : Answers} {after : Conn}
    (waits : Waits script start stage conn)
    (caller : queues event = true)
    (done : step mp crypto parseCs (event, answers) conn = some after) : Beside conn after := by
  have busy : conn.state ≠ .connected ∧ conn.state ≠ .disconnected := by
    rw [waits.state]
    cases stage <;> decide
  cases event with
  | append bytes =>
      simp only [step, append] at done
      split at done
      · cases done
        exact ⟨_, _, _, _, _, _, _, _, _, _, rfl, rfl, rfl, fun _ => rfl, rfl, .same rfl⟩
      · cases done
  | reserve size =>
      cases done
      exact ⟨_, _, _, _, _, _, _, _, _, _, rfl, rfl, rfl, fun _ => rfl, rfl, .same rfl⟩
  | request encode =>
      simp only [step, request] at done
      split at done
      · cases done
        exact ⟨_, _, _, _, _, _, _, _, _, _, rfl, rfl, rfl, fun _ => rfl, rfl, .same rfl⟩
      · cases done
        exact ⟨_, _, _, _, _, _, _, _, _, _, rfl, rfl, rfl, fun _ => rfl, rfl, .same rfl⟩
      · cases done
  | openConnection delay =>
      simp only [step, openConnection, if_neg busy.1, if_pos busy.2] at done
      cases done
      exact ⟨_, _, _, _, _, _, _, _, _, _, rfl, rfl, rfl, fun _ => rfl, conn.phases_note _ rfl,
        error_hushed _ _ _ _⟩
  | setConnectionString cs =>
      simp only [step, if_neg busy.2] at done
      cases done
      exact ⟨_, _, _, _, _, _, _, _, _, _, rfl, rfl, rfl, fun _ => rfl, rfl, .same rfl⟩
  | close | setRequiredProto | setCallbacks | flush | inputProcessed | tick1sec | read | write
  | resolved | resolveFailed => cases caller

def LogsIn (script : Script) (start conn : Conn) : Prop :=
  (∃ stage, Waits script start stage conn) ∨ Opened script start conn

theorem step_logs_in (implements : Implements mp) (prints : ReadsItems mp) (crypto : Crypto)
    (parseCs : Bytes → CsParts) (suits : script.Suits mp start) (before : Conn)
    (event : Event × Answers) (after : Conn) (login : LogsIn script start before)
    (calm : Undisturbed script before event)
    (done : step mp crypto parseCs event before = some after) : LogsIn script start after := by
  obtain ⟨unopened, admitted⟩ := calm
  obtain ⟨stage, waits⟩ := login.resolve_right fun opened => unopened opened.state
  obtain ⟨call, answers⟩ := event
  cases call with
  | read =>
      obtain ⟨ongoing, fine, speaks⟩ := admitted
      obtain ⟨reached, ran, _, reaches⟩ := waits.reads implements prints crypto suits answers ongoing
        fine speaks
      obtain rfl : reached = after := Option.some.inj (ran.symm.trans done)
      exact reaches.imp_left And.right
  | write =>
      obtain ⟨reached, wrote, beside⟩ := write_beside answers waits.socket admitted.1 admitted.2
        waits.corked
      obtain rfl : reached = after := Option.some.inj (wrote.symm.trans done)
      exact .inl ⟨stage, waits.beside beside⟩
  | tick1sec =>
      exact .inl ⟨stage, waits.beside (tick_beside parseCs answers unopened admitted done)⟩
  | append | reserve | request | openConnection | setConnectionString =>
      exact .inl ⟨stage, waits.beside (caller_beside parseCs waits rfl done)⟩
  | close | setRequiredProto | setCallbacks | flush | inputProcessed | resolved | resolveFailed =>
      cases admitted

/-- A socket session that has just begun. -/
structure Begun (conn : Conn) : Prop where
  socket : conn.socket = true
  state : conn.state = .connecting
  received : conn.received = []
  accepted : conn.accepted = []
  content : conn.receiveBuffer.content = []
  head : conn.lastReceivedHeadOffset = 0
  detected : conn.detectedResponseSize = 0
  corked : conn.uncorkedSize = 0
  room : 2 ≤ conn.receiveBuffer.capacity

theorem Begun.waits (begun : start.Begun) (suits : script.Suits mp start) :
    Waits script start .greeting start := by
  constructor
  · exact begun.socket
  · exact begun.state
  · rw [begun.received, begun.content]
    rfl
  · refine ⟨script.greeting, ?_, by rw [begun.content]; rfl⟩
    rw [← List.length_pos_iff, suits.greeting]
    decide
  · exact begun.head
  · exact .inl begun.detected
  · exact begun.corked
  · exact fun _ => begun.accepted
  · exact fun later => absurd rfl later
  · exact begun.room
  · exact Nat.le_refl _
  · exact ⟨rfl, rfl, rfl, rfl, rfl⟩
  · rfl
  · exact .same rfl
  · exact fun later => absurd rfl later
  · rfl
  · exact fun last => absurd last (by decide)

theorem Waits.less (waits : Waits script start stage conn) :
    conn.received <+: script.said start.lastStage.asked ∧
      conn.received.length < (script.said start.lastStage.asked).length := by
  have ordered : stage.asked ≤ start.lastStage.asked := by
    by_cases last : stage = .verdict
    · rw [waits.named last, last]
    · have few : stage.asked ≤ 1 := by
        cases stage with
        | greeting | identity => decide
        | verdict => exact absurd rfl last
      apply few.trans
      unfold lastStage
      split <;> decide
  obtain ⟨rest, more, same⟩ := waits.missing
  have whole : conn.received ++ rest = script.said stage.asked := waits.told same
  have front := script.said_prefix ordered
  rw [← whole] at front
  have positive := List.length_pos_iff.mpr more
  have length := front.length_le
  rw [List.length_append] at length
  exact ⟨(List.prefix_append _ _).trans front, by omega⟩

theorem byte_arrives (byte : UInt8) (conn : Conn) (room : 2 ≤ conn.receiveBuffer.capacity) :
    conn.arriving { recvs := [.bytes [byte]] } = [byte] := by
  obtain ⟨buffer, shape, _, _, free⟩ := make_room_shape { conn with idleTicksCounter := 0 }
  have taken : [byte].take buffer.available = [byte] := List.take_of_length_le (free room)
  obtain ⟨last, again, _⟩ := make_room_shape { conn with
    idleTicksCounter := 0
    receiveBuffer := buffer.push [byte]
    received := conn.received ++ [byte] }
  simp only [arriving, receive, recvLoop, shape, taken, if_neg (List.cons_ne_nil byte []), again]
  exact List.drop_left

theorem Waits.drains (crypto : Crypto) (parseCs : Bytes → CsParts)
    (waits : Waits script start stage conn) :
    ∃ events after, Run (step mp crypto parseCs) (Undisturbed script) conn events after ∧
      Waits script start stage after ∧ after.received = conn.received ∧
      after.outputBuffer = conn.outputBuffer ∧ (stage ≠ .greeting → after.sendBuffer.unsent = []) := by
  by_cases done : stage = .greeting ∨ conn.sendBuffer.unsent = []
  · exact ⟨[], conn, .nil, waits, rfl, rfl, fun later => done.resolve_left later⟩
  obtain ⟨login, queued⟩ := not_or.mp done
  have busy : conn.state ≠ .connecting ∧ conn.state ≠ .connected := by
    rw [waits.state]
    rcases Stage.login_state login with state | state <;> rw [state] <;> decide
  let answers : Answers := { sends := [.accepted conn.sendBuffer.unsent.length] }
  have fine : SendResult.error ∉ answers.sends := by
    intro member
    cases List.mem_singleton.mp member
  have wrote := write_drains answers _ [] conn busy.1 waits.socket rfl waits.corked queued
    (Nat.le_succ _)
  obtain ⟨after, ran, beside⟩ := write_beside answers waits.socket fine rfl waits.corked
  obtain rfl : conn.delivered answers.now = after := Option.some.inj (wrote.symm.trans ran)
  exact ⟨[(.write, answers)], _, .cons ⟨busy.2, fine, rfl⟩ wrote .nil, waits.beside beside, rfl,
    rfl, fun _ => conn.delivered_unsent _⟩

section Liveness
variable (implements : Implements mp) (prints : ReadsItems mp) (crypto : Crypto)
variable (parseCs : Bytes → CsParts) (suits : script.Suits mp start)
include implements prints suits

theorem Waits.advances (waits : Waits script start stage conn)
    (drained : stage ≠ .greeting → conn.sendBuffer.unsent = []) :
    ∃ event after, Undisturbed script conn event ∧
      step mp crypto parseCs event conn = some after ∧ after.outputBuffer = conn.outputBuffer ∧
      ((∃ byte stage, after.received = conn.received ++ [byte] ∧ Waits script start stage after) ∨
        Opened script start after) := by
  obtain ⟨rest, more, same⟩ := waits.missing
  obtain ⟨byte, rest, rfl⟩ := List.exists_cons_of_ne_nil more
  let answers : Answers := { recvs := [.bytes [byte]] }
  have arrives : conn.arriving answers = [byte] := byte_arrives byte conn waits.receiveRoom
  have speaks : script.Speaks (conn.accepted.map OutByte.byte)
      (conn.received ++ conn.arriving answers) := by
    obtain ⟨requests, behind, count, sized, made, unsent⟩ := waits.requested
    refine ⟨requests, [], sized, ?_, ?_⟩
    · by_cases first : stage = .greeting
      · have none : requests = [] := by
          rw [first] at count
          exact List.eq_nil_of_length_eq_zero count
        rw [waits.silent first, none]
        rfl
      · rw [unsent first, drained first] at made
        rw [List.append_nil, ← made]
        exact (List.append_nil _).symm
    · rw [count, arrives, waits.heard, List.append_assoc, ← script.heard_awaited, ← same]
      exact (List.prefix_append_right_inj _).mpr ⟨rest, by simp⟩
  have ongoing : Ongoing answers.recvs := ⟨by simp [answers], by simp [answers]⟩
  have unopened : conn.state ≠ .connected := by
    rw [waits.state]
    cases stage <;> decide
  obtain ⟨after, ran, output, reaches⟩ := waits.reads implements prints crypto suits answers
    ongoing List.not_mem_nil speaks
  refine ⟨(.read, answers), after, ⟨unopened, ongoing, List.not_mem_nil, speaks⟩, ran, output, ?_⟩
  rcases reaches with ⟨told, later, waits⟩ | opened
  · exact .inl ⟨byte, later, told.trans (congrArg _ arrives), waits⟩
  · exact .inr opened

theorem Waits.finishes (waits : Waits script start stage conn) :
    ∃ events after, Run (step mp crypto parseCs) (Undisturbed script) conn events after ∧
      after.outputBuffer = conn.outputBuffer ∧ Opened script start after := by
  obtain ⟨left, bounded⟩ : ∃ left,
      (script.said start.lastStage.asked).length ≤ conn.received.length + left :=
    ⟨_, Nat.le_add_left _ _⟩
  induction left generalizing conn stage with
  | zero => exact absurd waits.less.2 (Nat.not_lt.mpr bounded)
  | succ left ih =>
      obtain ⟨first, ready, drains, still, same, queued, drained⟩ :=
        @drains mp script start conn stage crypto parseCs waits
      obtain ⟨event, after, admitted, done, output, reaches⟩ :=
        still.advances implements prints crypto parseCs suits drained
      have begins := drains.snoc admitted done
      rcases reaches with ⟨byte, later, more, waits⟩ | opened
      · have fewer : (script.said start.lastStage.asked).length ≤ after.received.length + left := by
          rw [more, same, List.length_append, List.length_singleton]
          omega
        obtain ⟨rest, last, run, kept, opened⟩ := ih waits fewer
        exact ⟨_, last, begins.trans run, kept.trans (output.trans queued), opened⟩
      · exact ⟨_, after, begins, output.trans queued, opened⟩

end Liveness

def namedPath : Bytes → CsParts := fun _ => ⟨ascii "/tnt", ascii "user", ascii "secret", [], []⟩

def bareResponse : Response := ⟨[0x81], [⟨.int 0, [0x00], [0x00]⟩], []⟩

def sampleScript : Script :=
  ⟨List.replicate greetingSize 0x20, shuffledResponse, bareResponse, ⟨3, [], 0⟩⟩

def namedStart : Conn :=
  ((Conn.initial [] ⟨true, true, true, true⟩).prepared namedPath).trying.startSession .read

theorem bare_response_formed : bareResponse.Formed where
  headed := fix_map_head 1 (by decide)
  pairs := by
    have zero : Encodes (.int 0) [0x00] := encodes_plain (fix_uint_head 0 (by decide)) rfl
    intro pair member
    rw [List.mem_singleton.mp member]
    exact ⟨zero, .int 0, zero⟩

theorem sample_script_suits : sampleScript.Suits reference namedStart := by
  have room : namedStart.sendBuffer.buffer.capacity = 2 ^ 20 := OwnedBuffer.of_size_capacity (2 ^ 20)
  constructor
  · exact List.length_replicate
  · exact ⟨shuffled_response_formed, by decide⟩
  · exact ⟨0, shuffled_response_means reference⟩
  · exact ⟨bare_response_formed, by decide⟩
  · refine ⟨by decide, [0x00], ⟨[], ⟨.int 0, [0x00], [0x00]⟩, [], rfl, ?_, rfl, rfl⟩,
      fix_uint_head 0 (by decide)⟩
    exact fun _ member => absurd member List.not_mem_nil
  · rw [room]
    decide
  · rw [room]
    decide
  · decide

theorem named_start_begun : namedStart.Begun :=
  ⟨rfl, rfl, rfl, rfl, rfl, rfl, rfl, rfl, OwnedBuffer.of_size_roomy (by decide)⟩

end Conn

end Cpp2tnt
