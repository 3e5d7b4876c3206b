import Cpp2tnt.OpenSession

/-!
The end of the stream. `read()` drains the socket before it looks for responses;
when it meets the end, `close()` cuts the receive buffer behind the last response
found so far, and what has just arrived goes with it.
-/

namespace Cpp2tnt
open Imperative MessagePack Transition

namespace Conn

/-- Closed, with the whole responses of `buffer` left. -/
structure CutBehind (before : Conn) (buffer : OwnedBuffer UInt8) (after : Conn) : Prop where
  receive : after.receiveBuffer = buffer.resize before.lastReceivedHeadOffset
  detected : after.detectedResponseSize = 0
  socket : after.socket = false
  input : after.inputBuffer = before.inputBuffer
  caller : after.callerIdle = before.callerIdle
  head : after.lastReceivedHeadOffset = before.lastReceivedHeadOffset
  callback : before.callbacks.response = true → after.callbacks.response = true
  hushed : Hushed before after

theorem cut_content (buffer : OwnedBuffer UInt8) (whole tail : Bytes)
    (content : buffer.content = whole ++ tail) : (buffer.resize whole.length).content = whole := by
  have within : whole.length ≤ buffer.size := by
    rw [OwnedBuffer.size, content, List.length_append]
    exact Nat.le_add_right _ _
  rw [OwnedBuffer.resize_content _ _ within, content, List.take_left]

theorem read_closed (mp : Msgpuck) (crypto : Crypto) (answers : Answers) (conn : Conn)
    (closed : conn.socket = false) : conn.read mp crypto answers = some conn := by
  simp [read, closed]

theorem end_stops (mp : Msgpuck) (crypto : Crypto) (answers : Answers) (conn : Conn)
    (socket : conn.socket = true) (ended : conn.meetsEnd answers = true) :
    conn.read mp crypto answers = some (conn.receive answers).2 := by
  have stopped : (conn.receive answers).1 = false := by simpa [meetsEnd] using ended
  rw [read]
  simp only [socket, stopped, Bool.not_true, Bool.not_false, Bool.false_eq_true, if_false, if_true]

theorem end_cuts (mp : Msgpuck) (crypto : Crypto) (answers : Answers) (conn after : Conn)
    (socket : conn.socket = true) (ended : conn.meetsEnd answers = true)
    (done : conn.read mp crypto answers = some after) :
    ∃ buffer, buffer.content = conn.receiveBuffer.content ++ conn.arriving answers ∧
      conn.receiveBuffer.capacity ≤ buffer.capacity ∧ conn.CutBehind buffer after ∧
      after.received = conn.received ++ conn.arriving answers := by
  obtain ⟨buffer, content, room, shape⟩ := conn.receive_shape answers
  rcases shape with ⟨paused, _⟩ | ⟨_, message, code, failed⟩
  · rw [ended] at paused
    cases paused
  · let arrived := conn.arrived buffer (conn.arriving answers)
    obtain ⟨extra, closes, quiet, _⟩ := fail_shape answers message code true arrived
    have reached : after = { (arrived.closed 0).reconnectSoon with notes := conn.notes ++ extra } := by
      rw [← Option.some.inj ((end_stops mp crypto answers conn socket ended).symm.trans done), failed]
      exact closes
    have aside := closed_aside 0 0 (conn.notes ++ extra) arrived
    have fields := arrived.closed_input 0
    have cut : arrived.closed 0 = (arrived.reset 0).dropSocket := if_pos socket
    subst reached
    refine ⟨buffer, content, room, ⟨?_, ?_, fields.1, aside.input, aside.caller, aside.head,
      aside.callback, extra, rfl, quiet⟩, aside.received⟩
    · change (arrived.closed 0).receiveBuffer = _
      rw [cut]
      rfl
    · change (arrived.closed 0).detectedResponseSize = 0
      rw [cut]
      rfl

section Kept
variable {before after : Conn} {done pending : List Bytes} {orphaned : Bytes}

theorem cut_inflow (inflow : Inflow done pending orphaned before) (buffer : OwnedBuffer UInt8)
    (tail : Bytes) (content : buffer.content = frames pending ++ tail) (room : 2 ≤ buffer.capacity)
    (cut : before.CutBehind buffer after) : Inflow done pending [] after := by
  obtain ⟨extra, notes, quiet⟩ := cut.hushed
  have same := quiet_same before.notes extra quiet
  rw [← notes] at same
  constructor
  · rw [cut.receive, inflow.head, cut_content buffer _ tail content, List.append_nil]
  · rw [cut.head]
    exact inflow.head
  · exact inflow.sized
  · rw [cut.detected]
    exact .short [] (by decide)
  · rw [same.batches]
    exact inflow.delivered
  · rw [same.awaiting, cut.caller, cut.input]
    exact inflow.awaits
  · exact same.alternate inflow.alternate
  · exact cut.callback inflow.callback
  · rw [cut.receive, OwnedBuffer.resize_capacity]
    exact Nat.le_trans room (Nat.le_max_left _ _)
  · rw [cut.input]
    exact inflow.inputRoom

theorem Aside.cutBehind (aside : Aside before after) (hushed : Hushed before after)
    (receive : after.receiveBuffer = before.receiveBuffer.resize before.lastReceivedHeadOffset)
    (detected : after.detectedResponseSize = 0) (socket : after.socket = false) :
    before.CutBehind before.receiveBuffer after :=
  ⟨receive, detected, socket, aside.input, aside.caller, aside.head, aside.callback, hushed⟩

theorem aside_inflow (inflow : Inflow done pending orphaned before) (aside : Aside before after)
    (hushed : Hushed before after) :
    ∃ kept, Inflow done pending kept after ∧
      (after.socket = before.socket ∧ kept = orphaned ∨ after.socket = false) := by
  cases aside.kept with
  | cut receive detected socket =>
      refine ⟨[], ?_, .inr socket⟩
      exact cut_inflow inflow before.receiveBuffer orphaned inflow.content inflow.receiveRoom
        (aside.cutBehind hushed receive detected socket)
  | same receive detected socket =>
      obtain ⟨extra, notes, quiet⟩ := hushed
      have same := quiet_same before.notes extra quiet
      rw [← notes] at same
      refine ⟨orphaned, ?_, .inl ⟨socket, rfl⟩⟩
      constructor
      · rw [receive]
        exact inflow.content
      · rw [aside.head]
        exact inflow.head
      · exact inflow.sized
      · rw [detected]
        exact inflow.unfinished
      · rw [same.batches]
        exact inflow.delivered
      · rw [same.awaiting, aside.caller, aside.input]
        exact inflow.awaits
      · exact same.alternate inflow.alternate
      · exact aside.callback inflow.callback
      · rw [receive]
        exact inflow.receiveRoom
      · rw [aside.input]
        exact inflow.inputRoom

end Kept

theorem end_inflow (mp : Msgpuck) (crypto : Crypto) (answers : Answers) (conn after : Conn)
    (done pending : List Bytes) (orphaned : Bytes) (inflow : Inflow done pending orphaned conn)
    (socket : conn.socket = true) (ended : conn.meetsEnd answers = true)
    (ran : conn.read mp crypto answers = some after) :
    Inflow done pending [] after ∧ after.socket = false ∧
      after.callerIdle = conn.callerIdle ∧
      after.received = conn.received ++ conn.arriving answers := by
  obtain ⟨buffer, content, room, cut, received⟩ := end_cuts mp crypto answers conn after socket ended
    ran
  rw [inflow.content, List.append_assoc] at content
  exact ⟨cut_inflow inflow buffer _ content (Nat.le_trans inflow.receiveRoom room) cut, cut.socket,
    cut.caller, received⟩

/-- The connection is not opened again, and a read that meets the end completes
no response. -/
def EndsUnfinished (parseCs : Bytes → CsParts) (conn : Conn) (event : Event × Answers) : Prop :=
  conn.UntilReopened parseCs event ∧
    (event.1 = .read → conn.socket = true → conn.meetsEnd event.2 = true →
      ∃ size, Unfinished (conn.orphaned ++ conn.arriving event.2) size)

/-- What the session has received, whole and not, against the bodies sent. -/
structure Accounted (bodies done pending rest : List Bytes) (tail : Bytes) (conn : Conn) :
    Prop where
  inflow : ∃ orphaned, Inflow done pending orphaned conn ∧ (conn.socket = true → orphaned = tail)
  bodies : bodies = done ++ pending ++ rest
  received : conn.received = frames (done ++ pending) ++ tail
  unfinished : ∃ size, Unfinished tail size
  idle : conn.callerIdle = true → pending = []

section Runs
variable {mp : Msgpuck} (crypto : Crypto) (parseCs : Bytes → CsParts)
  {bodies done pending rest : List Bytes} {tail : Bytes} {before after : Conn}

theorem aside_accounted (accounted : Accounted bodies done pending rest tail before)
    (aside : Aside before after) (hushed : Hushed before after) :
    Accounted bodies done pending rest tail after := by
  obtain ⟨orphaned, inflow, same⟩ := accounted.inflow
  obtain ⟨kept, left, course⟩ := aside_inflow inflow aside hushed
  refine ⟨⟨kept, left, ?_⟩, accounted.bodies, ?_, accounted.unfinished, ?_⟩
  · intro socket
    rcases course with ⟨still, rfl⟩ | closed
    · exact same (still.symm.trans socket)
    · rw [closed] at socket
      cases socket
  · rw [aside.received]
    exact accounted.received
  · rw [aside.caller]
    exact accounted.idle

theorem processed_accounted (answers : Answers)
    (accounted : Accounted bodies done pending rest tail before) :
    Accounted bodies (done ++ pending) [] rest tail (before.inputProcessed answers) := by
  obtain ⟨orphaned, inflow, same⟩ := accounted.inflow
  obtain ⟨passed, session⟩ := input_processed_inflow answers done pending orphaned before inflow
  refine ⟨⟨orphaned, passed, ?_⟩, ?_, ?_, accounted.unfinished, fun _ => rfl⟩
  · rw [session.socket]
    exact same
  · rw [List.append_nil]
    exact accounted.bodies
  · rw [session.received, List.append_nil]
    exact accounted.received

theorem ongoing_accounted (implements : Implements mp) (sized : ∀ body ∈ bodies, Sized body)
    (answers : Answers) (accounted : Accounted bodies done pending rest tail before)
    (takes : before.TakesResponses) (socket : before.socket = true)
    (ongoing : before.meetsEnd answers = false)
    (ran : before.read mp crypto answers = some after) (stream : after.received <+: frames bodies) :
    ∃ done' pending' rest' tail', Accounted bodies done' pending' rest' tail' after := by
  obtain ⟨orphaned, inflow, same⟩ := accounted.inflow
  obtain rfl := same socket
  have streaming : Streaming bodies before done pending rest orphaned :=
    ⟨inflow, accounted.bodies, accounted.received, socket, takes, accounted.idle⟩
  obtain ⟨done', pending', rest', tail', later⟩ := read_streaming crypto implements answers bodies
    sized before after done pending rest orphaned streaming ongoing ran stream
  exact ⟨done', pending', rest', tail', ⟨tail', later.inflow, fun _ => rfl⟩, later.bodies,
    later.received, ⟨_, later.inflow.unfinished⟩, later.idle⟩

theorem end_accounted (answers : Answers)
    (accounted : Accounted bodies done pending rest tail before) (socket : before.socket = true)
    (ended : before.meetsEnd answers = true)
    (unfinished : ∃ size, Unfinished (before.orphaned ++ before.arriving answers) size)
    (ran : before.read mp crypto answers = some after) :
    Accounted bodies done pending rest (tail ++ before.arriving answers) after := by
  obtain ⟨orphaned, inflow, same⟩ := accounted.inflow
  obtain rfl := same socket
  have left : before.orphaned = orphaned := by
    rw [Conn.orphaned, inflow.content, inflow.head, List.drop_left]
  rw [left] at unfinished
  obtain ⟨cut, closed, caller, received⟩ := end_inflow mp crypto answers before after done
    pending orphaned inflow socket ended ran
  refine ⟨⟨[], cut, ?_⟩, accounted.bodies, ?_, unfinished, ?_⟩
  · rw [closed]
    intro impossible
    cases impossible
  · rw [received, accounted.received, List.append_assoc]
  · rw [caller]
    exact accounted.idle

theorem Listening.takes {start : Conn} (listening : start.Listening) : start.TakesResponses :=
  .inl listening.state

theorem run_accounted (implements : Implements mp) (sized : ∀ body ∈ bodies, Sized body)
    (start conn : Conn) (events : List (Event × Answers)) (listening : start.Listening)
    (run : Run (step mp crypto parseCs) (EndsUnfinished parseCs) start events conn)
    (stream : conn.received <+: frames bodies) :
    ∃ done pending rest tail, Accounted bodies done pending rest tail conn := by
  -- on the run; what was received so far is a prefix of the stream, too
  induction run with
  | nil =>
      refine ⟨[], [], bodies, [], ⟨[], listening_inflow start listening, fun _ => rfl⟩, rfl, ?_,
        ⟨0, .short [] (by decide)⟩, fun _ => rfl⟩
      rw [listening.received]
      rfl
  | @snoc _ before after event run admitted ran ih =>
      have takes : before.TakesResponses :=
        run_takes listening.takes (run.weaken fun _ _ => And.left)
      obtain ⟨call, answers⟩ := event
      rcases call.input_cases with rfl | rfl | other
      · obtain ⟨done, pending, rest, tail, accounted⟩ :=
          ih ((read_reads mp crypto answers before after ran).received.trans stream)
        cases socket : before.socket with
        | true =>
            cases ended : before.meetsEnd answers with
            | false =>
                exact ongoing_accounted crypto implements sized answers accounted takes socket
                  ended ran stream
            | true =>
                exact ⟨_, _, _, _, end_accounted crypto answers accounted socket ended
                  (admitted.2 rfl socket ended) ran⟩
        | false =>
            cases ran.symm.trans (read_closed mp crypto answers before socket)
            exact ⟨_, _, _, _, accounted⟩
      · cases ran
        have same : (before.inputProcessed answers).received = before.received := by
          obtain ⟨_, _, _, _, _, _, shape, _⟩ := input_processed_input answers before
          rw [shape]
        rw [same] at stream
        obtain ⟨done, pending, rest, tail, accounted⟩ := ih stream
        exact ⟨_, _, _, _, processed_accounted answers accounted⟩
      · obtain ⟨aside, hushed⟩ := session_step mp crypto parseCs _ before after takes admitted.1
          other ran
        rw [aside.received] at stream
        obtain ⟨done, pending, rest, tail, accounted⟩ := ih stream
        exact ⟨_, _, _, _, aside_accounted accounted aside hushed⟩

/-- Each response that was whole before the end is passed once: in a batch
already, or by the next `input_processed()`. -/
theorem whole_responses_kept (implements : Implements mp) (sized : ∀ body ∈ bodies, Sized body)
    (start conn : Conn) (events : List (Event × Answers)) (listening : start.Listening)
    (run : Run (step mp crypto parseCs) (EndsUnfinished parseCs) start events conn)
    (stream : conn.received <+: frames bodies) :
    ∃ (groups : List (List Bytes)) (pending rest : List Bytes) (tail : Bytes) (size : Nat),
      bodies = groups.flatten ++ pending ++ rest ∧
      conn.received = frames (groups.flatten ++ pending) ++ tail ∧ Unfinished tail size ∧
      batches conn.notes = groups.map frames ∧ (conn.callerIdle = true → pending = []) ∧
      ∀ answers, ∃ later : List (List Bytes),
        batches (conn.inputProcessed answers).notes = later.map frames ∧
        later.flatten = groups.flatten ++ pending := by
  obtain ⟨done, pending, rest, tail, accounted⟩ := run_accounted crypto parseCs implements sized
    start conn events listening run stream
  obtain ⟨orphaned, inflow, _⟩ := accounted.inflow
  obtain ⟨size, unfinished⟩ := accounted.unfinished
  obtain ⟨groups, sent, rfl, _⟩ := inflow.delivered
  refine ⟨groups, pending, rest, tail, size, accounted.bodies, accounted.received, unfinished, sent,
    accounted.idle, ?_⟩
  intro answers
  obtain ⟨later, given, flat, _⟩ :=
    (input_processed_inflow answers groups.flatten pending orphaned conn inflow).1.delivered
  exact ⟨later, given, flat⟩

end Runs

theorem end_arrives (answers : Answers) (conn : Conn) (answered : answers.recvs = [.bytes []]) :
    conn.meetsEnd answers = true ∧ conn.arriving answers = [] := by
  obtain ⟨buffer, shape, _⟩ := make_room_shape { conn with idleTicksCounter := 0 }
  have loop : conn.receive answers =
      (false, ({ conn with idleTicksCounter := 0 }.makeRoom).fail answers
        (ascii "connection closed by peer") .closedByPeer true) := by
    rw [receive, answered, recvLoop]
    exact if_pos List.take_nil
  refine ⟨by rw [meetsEnd, loop]; rfl, ?_⟩
  rw [arriving, loop, fail_received, shape]
  exact List.drop_length

theorem chunk_ends (answers : Answers) (chunk : Bytes) (conn : Conn)
    (answered : answers.recvs = [.bytes chunk, .bytes []]) (some : chunk ≠ [])
    (room : 1024 ≤ conn.receiveBuffer.available)
    (fits : chunk.length ≤ conn.receiveBuffer.available) :
    conn.meetsEnd answers = true ∧ conn.arriving answers = chunk := by
  obtain ⟨buffer, shape, _⟩ := make_room_shape { conn with
    idleTicksCounter := 0
    receiveBuffer := conn.receiveBuffer.push chunk
    received := conn.received ++ chunk }
  have loop : conn.receive answers = (false, ({ conn with
      idleTicksCounter := 0
      receiveBuffer := conn.receiveBuffer.push chunk
      received := conn.received ++ chunk }.makeRoom).fail answers
        (ascii "connection closed by peer") .closedByPeer true) := by
    rw [chunk_pushed answers chunk _ conn answered some room fits, recvLoop]
    exact if_pos List.take_nil
  refine ⟨by rw [meetsEnd, loop]; rfl, ?_⟩
  rw [arriving, loop, fail_received, shape]
  exact List.drop_left

theorem closed_tick (parseCs : Bytes → CsParts) (answers : Answers) (conn : Conn)
    (state : conn.state = .disconnected) (armed : 0 ≤ conn.autoreconnectTicksCounter)
    (early : conn.autoreconnectTicksCounter + 1 < conn.autoreconnectTimeout) :
    conn.tick1sec parseCs answers = some { conn with
      autoreconnectTicksCounter := conn.autoreconnectTicksCounter + 1 } := by
  have closed : conn.state ≠ .connected := by
    rw [state]
    decide
  rw [tick1sec, if_pos armed]
  simp only [not_le.mpr early, if_false, openedTick, if_pos closed]

theorem failed_waits {handler : Bool} {before after : Conn} (failed : FailedBy handler before after) :
    after.state = .disconnected ∧ after.autoreconnectTicksCounter = 0 ∧
      after.autoreconnectTimeout = before.autoreconnectTimeout := by
  obtain ⟨extra, rfl, _⟩ := failed
  refine ⟨before.closed_state 0, rfl, ?_⟩
  change (before.closed 0).autoreconnectTimeout = _
  unfold closed
  split <;> rfl

theorem read_timed (mp : Msgpuck) (crypto : Crypto) (answers : Answers) (before after : Conn)
    (state : before.state = .connected) (socket : before.socket = true)
    (done : before.read mp crypto answers = some after) :
    after.autoreconnectTimeout = before.autoreconnectTimeout ∧
      (after.socket = false →
        after.state = .disconnected ∧ after.autoreconnectTicksCounter = 0) := by
  have other : ∀ {during : State}, during ≠ .connected → before.state ≠ during := by
    rintro during some rfl
    exact some state
  cases read_reads mp crypto answers before after done with
  | nothing closed => exact absurd (socket.symm.trans closed) Bool.noConfusion
  | ended _ _ failed =>
      obtain ⟨closed, ticks, timeout⟩ := failed_waits failed
      exact ⟨timeout, fun _ => ⟨closed, ticks⟩⟩
  | waits _ during | greets _ during => exact absurd during (other (by decide))
  | handshakes _ during =>
      rcases during with during | during <;> exact absurd during (other (by decide))
  | holds _ _ input =>
      obtain ⟨_, _, _, _, _, _, rfl, _⟩ := input
      exact ⟨rfl, fun closed => absurd (socket.symm.trans closed) Bool.noConfusion⟩

/-- Two responses in two reads, the end in a third, and a tick before the caller
is done with the first batch. -/
theorem whole_responses_kept_ended : ∃ conn : Conn,
    conn.socket = false ∧ conn.autoreconnectTicksCounter = 1 ∧
    ∃ (groups : List (List Bytes)) (pending rest : List Bytes) (tail : Bytes) (size : Nat),
      [[0x80], [0x81, 0, 1]] = groups.flatten ++ pending ++ rest ∧
      conn.received = frames (groups.flatten ++ pending) ++ tail ∧ Unfinished tail size ∧
      batches conn.notes = groups.map frames ∧ (conn.callerIdle = true → pending = []) ∧
      ∀ answers, ∃ later : List (List Bytes),
        batches (conn.inputProcessed answers).notes = later.map frames ∧
        later.flatten = groups.flatten ++ pending := by
  let crypto : Crypto := ⟨id, fun _ _ => []⟩
  let parseCs : Bytes → CsParts := fun _ => ⟨[], [], [], [], []⟩
  let first : Answers := { recvs := [.bytes (frames [[0x80]])] }
  let second : Answers := { recvs := [.bytes (frames [[0x81, 0, 1]])] }
  let last : Answers := { recvs := [.bytes []] }
  have sized : ∀ body ∈ [[0x80], [0x81, 0, 1]], Sized body := by decide
  -- the first response goes to the caller at once
  obtain ⟨arrives, going⟩ : opened.arriving first = frames [[0x80]] ∧
      opened.meetsEnd first = false := opened_takes (frames [[0x80]]) (by decide) (by decide)
  have split : [] ++ opened.arriving first = frames [[0x80]] ++ [] := by
    rw [List.nil_append, arrives, List.append_nil]
  obtain ⟨busy, done, pending, began, given, flat, _, state, socket, received⟩ :=
    read_inflow reference_implements crypto first [] [] [] opened
      (listening_inflow opened opened_listening) opened_listening.takes opened_listening.socket going
      [[0x80]] (by decide) [] [] 0 (.unfinished (.short [] (by decide))) split
  have wide := read_wide reference crypto first opened busy opened_listening.takes
    opened_listening.socket opened_listening.callback going opened_wide began
  have connected := state.trans opened_listening.state
  have began_timed := read_timed reference crypto first opened busy opened_listening.state
    opened_listening.socket began
  -- the second one waits for it
  have short : busy.receiveBuffer.content.length ≤ 1024 := by
    have less : (frames pending ++ []).length ≤ (frames ([] ++ [] ++ [[0x80]])).length := by
      rw [← flat, frames_append, List.append_nil, List.length_append]
      exact Nat.le_add_left _ _
    rw [given.content]
    exact Nat.le_trans less (by decide)
  obtain ⟨comes, goes⟩ : busy.arriving second = frames [[0x81, 0, 1]] ∧
      busy.meetsEnd second = false :=
    chunk_taken (frames [[0x81, 0, 1]]) busy (by decide) (by decide) wide short
  have joined : [] ++ busy.arriving second = frames [[0x81, 0, 1]] ++ [] := by
    rw [List.nil_append, comes, List.append_nil]
  obtain ⟨middle, done', pending', went, inflow, _, _, still, open', heard⟩ :=
    read_inflow reference_implements crypto second done pending [] busy given (.inl connected) socket goes
      [[0x81, 0, 1]] (by decide) [] [] 0 (.unfinished (.short [] (by decide))) joined
  have went_timed := read_timed reference crypto second busy middle connected socket went
  -- the stream ends, and a second passes
  obtain ⟨ended, nothing⟩ := end_arrives last middle rfl
  have stops := end_stops reference crypto last middle open' ended
  obtain ⟨_, closed, _, same⟩ := end_inflow reference crypto last middle _ done' pending' []
    inflow open' ended stops
  obtain ⟨timeout, waits⟩ := read_timed reference crypto last middle _ (still.trans connected) open' stops
  obtain ⟨idle, armed⟩ := waits closed
  have early : (middle.receive last).2.autoreconnectTicksCounter + 1 <
      (middle.receive last).2.autoreconnectTimeout := by
    rw [armed, timeout, went_timed.1, began_timed.1]
    decide
  have ticks := closed_tick parseCs {} _ idle (Int.le_of_eq armed.symm) early
  have left : middle.orphaned = [] := by
    rw [Conn.orphaned, inflow.content, inflow.head, List.drop_left]
  have unfinished : opened.EndsUnfinished parseCs (.read, first) :=
    ⟨trivial, fun _ _ met => absurd (going.symm.trans met) Bool.false_ne_true⟩
  have goes_on : busy.EndsUnfinished parseCs (.read, second) :=
    ⟨trivial, fun _ _ met => absurd (goes.symm.trans met) Bool.false_ne_true⟩
  have between : middle.EndsUnfinished parseCs (.read, last) := by
    refine ⟨trivial, ?_⟩
    intro _ _ _
    rw [left, nothing]
    exact ⟨0, .short [] (by decide)⟩
  let Ran (events : List (Event × Answers)) (conn : Conn) : Prop :=
    Run (step reference crypto parseCs) (EndsUnfinished parseCs) opened events conn
  have front : Ran [(.read, first)] busy := .snoc .nil unfinished began
  have more : Ran [(.read, first), (.read, second)] middle := .snoc front goes_on went
  have stopped : Ran [(.read, first), (.read, second), (.read, last)] (middle.receive last).2 :=
    .snoc more between stops
  have waiting : (middle.receive last).2.EndsUnfinished parseCs (.tick1sec, {}) :=
    ⟨.inr (.inl early), Event.noConfusion⟩
  have run : Ran [(.read, first), (.read, second), (.read, last), (.tick1sec, {})] _ :=
    .snoc stopped waiting ticks
  refine ⟨{ (middle.receive last).2 with
    autoreconnectTicksCounter := (middle.receive last).2.autoreconnectTicksCounter + 1 }, closed,
    ?_, ?_⟩
  · change (middle.receive last).2.autoreconnectTicksCounter + 1 = 1
    rw [armed]
    rfl
  apply whole_responses_kept _ _ reference_implements sized opened _ _ opened_listening run
  change (middle.receive last).2.received <+: _
  rw [same, nothing, heard, comes, received, arrives, List.append_nil]
  decide

theorem Inflow.no_batches {pending : List Bytes} {orphaned : Bytes} {conn : Conn}
    (inflow : Inflow [] pending orphaned conn) : batches conn.notes = [] := by
  obtain ⟨groups, sent, flat, some⟩ := inflow.delivered
  cases groups with
  | nil => exact sent
  | cons group groups =>
      rw [List.flatten_cons] at flat
      exact absurd (List.append_eq_nil_iff.mp flat).1 (some group List.mem_cons_self)

/-- A whole response with the end in the same read: the caller never gets it. -/
theorem last_response_lost : ∃ conn : Conn,
    Run (step reference ⟨id, fun _ _ => []⟩ fun _ => ⟨[], [], [], [], []⟩)
      (UntilReopened fun _ => ⟨[], [], [], [], []⟩) opened
      [(.read, { recvs := [.bytes (frames [[0x80]]), .bytes []] })] conn ∧
    conn.received = frames [[0x80]] ∧ batches conn.notes = [] ∧
    ∀ answers, batches (conn.inputProcessed answers).notes = [] := by
  let answers : Answers := { recvs := [.bytes (frames [[0x80]]), .bytes []] }
  obtain ⟨ended, arrives⟩ : opened.meetsEnd answers = true ∧
      opened.arriving answers = frames [[0x80]] := by
    apply chunk_ends answers (frames [[0x80]]) opened rfl (by decide)
    · rw [opened_available]
      decide
    · rw [opened_available]
      exact Nat.le_trans (show (frames [[0x80]]).length ≤ 6 by decide) (by decide)
  have stops := end_stops reference ⟨id, fun _ _ => []⟩ answers opened
    opened_listening.socket ended
  obtain ⟨inflow, _, _, received⟩ := end_inflow reference ⟨id, fun _ _ => []⟩ answers opened _
    [] [] [] (listening_inflow opened opened_listening) opened_listening.socket ended stops
  rw [arrives, opened_listening.received, List.nil_append] at received
  refine ⟨_, .snoc .nil trivial stops, received, inflow.no_batches, ?_⟩
  intro later
  exact (input_processed_inflow later [] [] [] _ inflow).1.no_batches

end Conn

end Cpp2tnt
