import Cpp2tnt.OutputProgress
import Cpp2tnt.StreamEnd
import Cpp2tnt.ReceiveRoom
import Cpp2tnt.HandshakeOutput
import Cpp2tnt.AnsweredLogin

/-!
Requests and responses over an opened connection. The peer answers whole requests,
each once and in an order of its own; the requests leave and the responses come in
any pieces, in any interleaving with the calls of the caller. `Exchanged` says how
far both streams have got: the bodies that were given or wait for the caller answer
requests that the socket has taken.
-/

namespace Cpp2tnt
open Imperative MessagePack Transition

namespace Conn
variable {start conn before after : Conn}

/-- What has been made for the socket and was not taken at the start. -/
def made (start conn : Conn) : Bytes := (conn.stream.map OutByte.byte).drop start.accepted.length

def departed (start conn : Conn) : Bytes :=
  (conn.accepted.map OutByte.byte).drop start.accepted.length

/-- What has been received, with these bytes more. -/
def answered (start conn : Conn) (more : Bytes) : Bytes :=
  (conn.received ++ more).drop start.received.length

/-- An opened connection with its output in order. -/
structure Live (conn : Conn) : Prop where
  socket : conn.socket = true
  state : conn.state = .connected
  within : conn.Within
  marked : conn.Marked

/-- Nothing is taken back. -/
structure Extends (before after : Conn) : Prop where
  stream : before.stream.map OutByte.byte <+: after.stream.map OutByte.byte
  accepted : before.accepted <+: after.accepted

theorem Extends.refl (conn : Conn) : Extends conn conn :=
  ⟨List.prefix_refl _, List.prefix_refl _⟩

theorem Extends.trans {first second third : Conn} (left : Extends first second)
    (right : Extends second third) : Extends first third :=
  ⟨left.stream.trans right.stream, left.accepted.trans right.accepted⟩

theorem Live.flow (live : Live conn) :
    Flow ⟨conn.stream.map OutByte.byte, conn.flushed.map OutByte.byte⟩ conn :=
  ⟨live.socket, live.state, rfl, rfl, live.within, live.marked⟩

theorem Flow.live {tally : Tally} (flow : Flow tally conn) : Live conn :=
  ⟨flow.socket, flow.state, flow.within, flow.marked⟩

theorem Flow.extends {tally : Tally} (flow : Flow tally after)
    (grows : before.stream.map OutByte.byte <+: tally.appended)
    (accepts : before.accepted <+: after.accepted) : Live after ∧ Extends before after :=
  ⟨flow.live, flow.appended ▸ grows, accepts⟩

theorem fail_accepted (answers : Answers) (message : Bytes) (code : ErrorCode) (handler : Bool)
    (conn : Conn) : (conn.fail answers message code handler).accepted = conn.accepted := by
  obtain ⟨extra, shape, _⟩ := fail_shape answers message code handler conn
  rw [shape]
  unfold closed
  split <;> rfl

theorem swap_accepted (swapped : Conn) (done : conn.swapCorked = some swapped) :
    swapped.accepted = conn.accepted := by
  unfold swapCorked at done
  simp only at done
  split at done
  · split at done
    · cases done
      rfl
    · cases done
  · cases done
    rfl

theorem write_accepts (answers : Answers) (done : before.write answers = some after) :
    before.accepted <+: after.accepted := by
  unfold write at done
  split at done
  · split at done
    · cases done
      rw [fail_accepted]
    · cases done
      exact List.prefix_refl _
  · have started : before.startWrite.accepted = before.accepted := by
      unfold startWrite
      simp only
      split <;> rfl
    rw [← started]
    apply send_loop_kept answers _ _ _ _ _ _ (List.prefix_refl _) done
    · exact fun _ _ kept => kept
    · intro next kept
      rw [fail_accepted]
      exact kept
    · exact fun next count kept => kept.trans (List.prefix_append _ _)
    · intro next swapped kept swap
      rw [swap_accepted swapped swap]
      exact kept

theorem flush_accepts (answers : Answers) {result : Bool × Conn}
    (done : before.flush answers = some result) : before.accepted <+: result.2.accepted := by
  unfold flush at done
  split at done
  · cases done
    exact List.prefix_refl _
  split at done
  · simp only [Option.map_eq_some_iff] at done
    obtain ⟨reached, ran, rfl⟩ := done
    have accepts := write_accepts answers ran
    exact accepts
  · cases done
    exact List.prefix_refl _

/-- The peer answers whole requests, each once and in an order of its own. -/
def Replies (reply : Bytes → Bytes) (requests responses : Bytes) : Prop :=
  ∃ bodies rest order, (∀ body ∈ bodies, Sized body) ∧ requests = frames bodies ++ rest ∧
    List.Subperm order bodies ∧ responses <+: frames (order.map reply)

/-- The caller adds to the output, flushes it and takes batches; the socket takes what it likes and
neither side ends the session. -/
def Exchanges (reply : Bytes → Bytes) (start conn : Conn) : Event × Answers → Prop
  | (.append bytes, _) => bytes.length ≤ conn.outputBuffer.available
  | (.request encode, answers) => conn.AppendsOnly (.request encode, answers)
  | (.flush, answers) | (.tick1sec, answers) => SendResult.error ∉ answers.sends
  | (.write, answers) => SendResult.error ∉ answers.sends ∧ conn.TailFits (.write, answers)
  | (.read, answers) => Ongoing answers.recvs ∧
      Replies reply (start.departed conn) (start.answered conn (conn.arriving answers))
  | (.setCallbacks callbacks _, _) => callbacks.response = true
  | (.close _ _, _) | (.resolved, _) | (.resolveFailed _, _) => False
  | _ => True

theorem grown_extends {output : OwnedBuffer OutByte} {id : UInt64} {issued : Nat}
    (live : Live before) (grows : before.outputBuffer.content <+: output.content) :
    Live { before with outputBuffer := output, requestId := id, requestsIssued := issued } ∧
      Extends before
        { before with outputBuffer := output, requestId := id, requestsIssued := issued } := by
  refine ⟨⟨live.socket, live.state, Nat.le_trans live.within grows.length_le, live.marked⟩, ?_,
    List.prefix_refl _⟩
  exact ((List.prefix_append_right_inj _).mpr grows).map OutByte.byte

theorem tick_extends (answers : Answers) (live : Live before)
    (nonfatal : SendResult.error ∉ answers.sends) (done : before.openedTick answers = some after) :
    Live after ∧ Extends before after := by
  have idles : ∀ {middle : Conn}, Live middle → Live middle.idleTick ∧ Extends middle middle.idleTick := by
    intro middle still
    obtain ⟨_, _, _, _, shape, _⟩ := middle.idle_tick_quiet
    rw [shape]
    exact ⟨⟨still.socket, still.state, still.within, still.marked⟩, List.prefix_refl _,
      List.prefix_refl _⟩
  unfold openedTick at done
  rw [if_neg (not_not.mpr live.state)] at done
  split at done
  · simp only [Option.map_eq_some_iff] at done
    obtain ⟨flushed, ran, rfl⟩ := done
    let reported := before.handleError (before.jamReport "~~~~~ uncorked data is stuck! ~~~~~")
      .uncorkedDataJam 0
    have noted : Live reported := ⟨live.socket, live.state, live.within, live.marked⟩
    obtain ⟨reached, flushes, kept⟩ := flush_flow answers _ reported noted.flow nonfatal
    obtain rfl : reached = flushed := Option.some.inj (flushes.symm.trans ran)
    have accepts := flush_accepts answers ran
    have same : before.stream.map OutByte.byte <+: reported.stream.map OutByte.byte :=
      List.prefix_refl _
    obtain ⟨still, grows⟩ := kept.extends same accepts
    obtain ⟨idle, later⟩ := idles still
    exact ⟨idle, grows.trans later⟩
  · cases done
    exact idles live

theorem outside_extends (mp : Msgpuck) (crypto : Crypto) (parseCs : Bytes → CsParts)
    (reply : Bytes → Bytes) (event : Event × Answers) (live : Live before)
    (ticks : before.autoreconnectTicksCounter < 0)
    (admitted : Exchanges reply start before event) (other : event.1.meetsInput = false)
    (done : step mp crypto parseCs event before = some after) :
    Live after ∧ Extends before after := by
  obtain ⟨call, answers⟩ := event
  -- appends, flushes and writes go through the flow of the output; the others leave it
  cases call with
  | append bytes =>
      obtain ⟨reached, ran, kept⟩ := append_flow bytes _ before live.flow admitted
      obtain rfl : reached = after := Option.some.inj (ran.symm.trans done)
      have shape : before.append bytes = some { before with
        outputBuffer := before.outputBuffer.push (bytes.map fun byte => ⟨byte, .caller⟩) } :=
        if_pos admitted
      have accepted : before.accepted <+: reached.accepted := by
        rw [← Option.some.inj (shape.symm.trans ran)]
      exact kept.extends (List.prefix_append _ _) accepted
  | flush =>
      obtain ⟨reached, ran, kept⟩ := flush_flow answers _ before live.flow admitted
      have steps : some reached.2 = some after := by
        rw [← done]
        simp only [step, ran, Option.map_some]
      obtain rfl : reached.2 = after := Option.some.inj steps
      exact kept.extends (List.prefix_refl _) (flush_accepts answers ran)
  | write =>
      obtain ⟨reached, ran, kept⟩ := write_flow answers _ before live.flow admitted.1 admitted.2
      obtain rfl : reached = after := Option.some.inj (ran.symm.trans done)
      exact kept.extends (List.prefix_refl _) (write_accepts answers ran)
  | request encode =>
      have grows : before.outputBuffer.content <+: after.outputBuffer.content := admitted after done
      simp only [step, request] at done
      split at done
      · cases done
        exact grown_extends live grows
      · cases done
        exact grown_extends live grows
      · cases done
  | reserve size =>
      cases done
      exact grown_extends live (List.prefix_refl _)
  | tick1sec =>
      have still : ¬ before.autoreconnectTicksCounter ≥ 0 := not_le.mpr ticks
      simp only [step, tick1sec, if_neg still] at done
      exact tick_extends answers live admitted done
  | openConnection delay =>
      simp only [step, openConnection, if_pos live.state] at done
      cases done
      exact ⟨live, .refl before⟩
  | setConnectionString cs =>
      have opened : before.state ≠ .disconnected := by
        rw [live.state]
        exact State.noConfusion
      simp only [step, if_neg opened] at done
      cases done
      exact ⟨live, .refl before⟩
  | setRequiredProto | setCallbacks =>
      cases done
      exact ⟨⟨live.socket, live.state, live.within, live.marked⟩, List.prefix_refl _,
        List.prefix_refl _⟩
  | inputProcessed | read => cases other
  | close | resolved | resolveFailed => exact admitted.elim

/-- Nothing of the output has moved. -/
structure Parked (before after : Conn) : Prop where
  stream : after.stream = before.stream
  accepted : after.accepted = before.accepted

theorem Parked.grows (parked : Parked before after) : Extends before after :=
  ⟨parked.stream ▸ List.prefix_refl _, parked.accepted ▸ List.prefix_refl _⟩

theorem Parked.trans {first second third : Conn} (left : Parked first second)
    (right : Parked second third) : Parked first third :=
  ⟨right.stream.trans left.stream, right.accepted.trans left.accepted⟩

theorem input_parked (live : Live before) (input : InputOnly before after) :
    Live after ∧ Parked before after := by
  obtain ⟨_, _, _, _, _, _, rfl, _⟩ := input
  exact ⟨⟨live.socket, live.state, live.within, live.marked⟩, rfl, rfl⟩

theorem read_parked (mp : Msgpuck) (crypto : Crypto) (answers : Answers) (live : Live before)
    (room : before.Roomy) (ongoing : Ongoing answers.recvs)
    (done : before.read mp crypto answers = some after) : Live after ∧ Parked before after := by
  have other : ∀ {state : State}, state ≠ .connected → before.state ≠ state := by
    rintro state some rfl
    exact some live.state
  cases read_reads mp crypto answers before after done with
  | nothing closed => exact absurd (live.socket.symm.trans closed) Bool.noConfusion
  | ended _ met _ => exact absurd ongoing (met room)
  | waits _ state => exact absurd state (other State.noConfusion)
  | greets _ state => exact absurd state (other State.noConfusion)
  | @holds buffer bytes _ _ _ input =>
      have arrived : Live (before.arrived buffer bytes) :=
        ⟨live.socket, live.state, live.within, live.marked⟩
      obtain ⟨still, parked⟩ := input_parked arrived input
      exact ⟨still, parked.stream, parked.accepted⟩
  | handshakes _ state =>
      rcases state with state | state <;> exact absurd state (other State.noConfusion)

theorem FailedBy.ends {handler : Bool} (failed : FailedBy handler before after) :
    after.state ≠ .connected := by
  obtain ⟨extra, rfl, _⟩ := failed
  exact fun opened => absurd ((before.closed_state 0).symm.trans opened) (by decide)

theorem Writes.untimed {answers : Answers} (writes : Writes answers before after)
    (ticks : before.autoreconnectTicksCounter < 0) (opened : after.state = .connected) :
    after.autoreconnectTicksCounter < 0 := by
  cases writes with
  | established => exact ticks
  | refused _ _ failed => exact absurd opened failed.ends
  | sends _ moved _ ended =>
      cases ended with
      | drained | paused =>
          obtain ⟨_, _, _, _, _, _, _, rfl, _⟩ := moved.output
          exact ticks
      | failed _ _ failed => exact absurd opened failed.ends

theorem Flushes.untimed {answers : Answers} (flushes : Flushes answers before after)
    (ticks : before.autoreconnectTicksCounter < 0) (opened : after.state = .connected) :
    after.autoreconnectTicksCounter < 0 := by
  cases flushes with
  | nothing | marks => exact ticks
  | writes _ _ writes => exact writes.untimed ticks opened

theorem Quiet.untimed (quiet : Quiet before after) (ticks : before.autoreconnectTicksCounter < 0) :
    after.autoreconnectTicksCounter < 0 := by
  obtain ⟨_, _, _, _, rfl, _⟩ := quiet
  exact ticks

theorem InputOnly.untimed (input : InputOnly before after)
    (ticks : before.autoreconnectTicksCounter < 0) : after.autoreconnectTicksCounter < 0 := by
  obtain ⟨_, _, _, _, _, _, rfl, _⟩ := input
  exact ticks

theorem Ticks.untimed {parseCs : Bytes → CsParts} {answers : Answers}
    (turns : Ticks parseCs answers before after)
    (ticks : before.autoreconnectTicksCounter < 0) (opened : after.state = .connected) :
    after.autoreconnectTicksCounter < 0 := by
  have still : ∀ {count : Int}, before.Counted count → count < 0 := by
    rintro count (⟨_, rfl⟩ | ⟨armed, _⟩)
    · exact ticks
    · exact absurd ticks (not_lt.mpr armed)
  cases turns with
  | reopens armed | expires armed => exact absurd ticks (not_lt.mpr armed)
  | counts counted quiet => exact quiet.untimed (still counted)
  | flushes counted _ _ reported flushes quiet =>
      obtain ⟨_, _, _, _, rfl, _⟩ := quiet
      exact flushes.untimed (reported.untimed (still counted)) opened

/-- The counter of an open session stays off as long as the session is open. -/
theorem Turns.untimed {parseCs : Bytes → CsParts} {event : Event × Answers}
    (turns : Turns parseCs event before after) (state : before.state = .connected)
    (ticks : before.autoreconnectTicksCounter < 0) (opened : after.state = .connected) :
    after.autoreconnectTicksCounter < 0 := by
  have other : ∀ {during : State}, during ≠ .connected → before.state ≠ during := by
    rintro during some rfl
    exact some state
  cases turns with
  | opens opens =>
      cases opens with
      | rejected quiet => exact quiet.untimed ticks
      | delayed closed | prepares closed | resolves closed | tries closed =>
          exact absurd closed (other (by decide))
  | closes => exact absurd ((before.closed_state _).symm.trans opened) (by decide)
  | rests quiet => exact quiet.untimed ticks
  | flushes flushes => exact flushes.untimed ticks opened
  | processes => exact (input_processed_input _ before).untimed ticks
  | ticks turns => exact turns.untimed ticks opened
  | reads reads =>
      cases reads with
      | nothing => exact ticks
      | ended _ _ failed => exact absurd opened failed.ends
      | waits _ during | greets _ during => exact absurd during (other (by decide))
      | holds _ _ input => exact input.untimed ticks
      | handshakes _ during =>
          rcases during with during | during <;> exact absurd during (other (by decide))
  | writes writes => exact writes.untimed ticks opened
  | resolves _ resolving => exact absurd resolving (other (by decide))
  | lapses => cases opened
  | listens | appends | reserves | requests | ignores => exact ticks

/-- What every step of an exchange keeps. -/
structure Going (conn : Conn) : Prop where
  live : Live conn
  ticks : conn.autoreconnectTicksCounter < 0
  room : conn.Roomy

theorem Going.takes (going : Going conn) : conn.TakesResponses := .inl going.live.state

theorem Going.admits (going : Going conn) (parseCs : Bytes → CsParts) {reply : Bytes → Bytes}
    (event : Event × Answers) (admitted : Exchanges reply start conn event) :
    conn.UntilReopened parseCs event := by
  have still : ∀ answers, ¬ conn.Reopens parseCs answers := fun _ reopens =>
    absurd (going.live.state.symm.trans reopens.1) State.noConfusion
  obtain ⟨call, answers⟩ := event
  cases call with
  | openConnection => exact .inr (still answers)
  | tick1sec => exact .inl going.ticks
  | setCallbacks => exact admitted
  | resolved | resolveFailed => exact admitted.elim
  | close | setConnectionString | setRequiredProto | append | reserve | request | flush
  | inputProcessed | read | write => exact trivial

theorem step_going (mp : Msgpuck) (crypto : Crypto) (parseCs : Bytes → CsParts)
    (reply : Bytes → Bytes) (event : Event × Answers) (going : Going before)
    (admitted : Exchanges reply start before event)
    (done : step mp crypto parseCs event before = some after) :
    Going after ∧ Extends before after := by
  have turns := step_turns mp crypto parseCs event before after done
  have goes : ∀ live : Live after, Going after := fun live =>
    ⟨live, turns.untimed going.live.state going.ticks live.state, turns.roomy going.room⟩
  by_cases other : event.1.meetsInput = false
  · obtain ⟨live, grows⟩ := outside_extends mp crypto parseCs reply event going.live going.ticks
      admitted other done
    exact ⟨goes live, grows⟩
  · obtain ⟨call, answers⟩ := event
    cases call with
    | read =>
        obtain ⟨live, parked⟩ := read_parked mp crypto answers going.live going.room admitted.1 done
        exact ⟨goes live, parked.grows⟩
    | inputProcessed =>
        cases done
        obtain ⟨live, parked⟩ := input_parked going.live (input_processed_input answers before)
        exact ⟨goes live, parked.grows⟩
    | openConnection | close | setConnectionString | setRequiredProto | setCallbacks | append
    | reserve | request | flush | tick1sec | write | resolved | resolveFailed =>
        exact absurd rfl other

/-- The bodies given, the bodies that wait and the rest are what the peer has said to the requests
that have left. -/
structure Exchanged (reply : Bytes → Bytes) (start conn : Conn) (done pending : List Bytes)
    (orphaned : Bytes) : Prop where
  inflow : Inflow done pending orphaned conn
  idle : conn.callerIdle = true → pending = []
  heard : conn.received = start.received ++ (frames (done ++ pending) ++ orphaned)
  replies : Replies reply (start.departed conn) (frames (done ++ pending) ++ orphaned)

section Steps
variable {reply : Bytes → Bytes} {requests done pending : List Bytes} {orphaned : Bytes}

theorem Extends.made (grows : Extends before after) : start.made before <+: start.made after :=
  grows.stream.drop _

theorem Extends.departed (grows : Extends before after) :
    start.departed before <+: start.departed after :=
  (grows.accepted.map OutByte.byte).drop _

theorem departed_made : start.departed conn <+: start.made conn := by
  apply List.IsPrefix.drop
  rw [stream, List.append_assoc]
  exact (List.prefix_append _ _).map OutByte.byte

theorem Replies.mono {less more responses : Bytes} (replies : Replies reply less responses)
    (grows : less <+: more) : Replies reply more responses := by
  obtain ⟨bodies, rest, order, formed, rfl, once, said⟩ := replies
  obtain ⟨behind, rfl⟩ := grows
  exact ⟨bodies, rest ++ behind, order, formed, List.append_assoc _ _ _, once, said⟩

theorem departed_first {bodies : List Bytes} {rest : Bytes}
    (left : start.departed conn = frames bodies ++ rest) (formed : ∀ body ∈ bodies, Sized body)
    (sized : ∀ body ∈ requests, Sized body) (calls : start.made conn <+: frames requests) :
    bodies <+: requests := by
  obtain ⟨behind, whole⟩ := departed_made.trans calls
  rw [left, List.append_assoc] at whole
  obtain ⟨later, shape, _⟩ := frames_split bodies requests _ formed sized whole
  exact ⟨later, shape.symm⟩

theorem Replies.first {responses : Bytes} (replies : Replies reply (start.departed conn) responses)
    (sized : ∀ body ∈ requests, Sized body) (replied : ∀ body ∈ requests, Sized (reply body))
    (calls : start.made conn <+: frames requests) :
    ∃ bodies order, bodies <+: requests ∧ frames bodies <+: start.departed conn ∧
      List.Subperm order bodies ∧ (∀ body ∈ order.map reply, Sized body) ∧
      responses <+: frames (order.map reply) := by
  obtain ⟨bodies, rest, order, formed, left, once, said⟩ := replies
  have front := departed_first left formed sized calls
  refine ⟨bodies, order, front, left ▸ List.prefix_append _ _, once, ?_, said⟩
  intro body member
  obtain ⟨request, kept, rfl⟩ := List.mem_map.mp member
  exact replied request (front.subset (once.subset kept))

theorem Exchanged.ordered (exchanged : Exchanged reply start conn done pending orphaned)
    (sized : ∀ body ∈ requests, Sized body) (replied : ∀ body ∈ requests, Sized (reply body))
    (calls : start.made conn <+: frames requests) :
    ∃ asked answered, asked <+: requests ∧ frames asked <+: start.departed conn ∧
      List.Subperm answered asked ∧ answered.map reply = done ++ pending := by
  obtain ⟨asked, order, front, left, once, sizes, unsaid, said⟩ :=
    exchanged.replies.first sized replied calls
  rw [List.append_assoc] at said
  obtain ⟨next, split, _⟩ := frames_split (done ++ pending) (order.map reply) _
    exchanged.inflow.sized sizes said
  refine ⟨asked, order.take (done ++ pending).length, front, left,
    (List.take_sublist _ _).subperm.trans once, ?_⟩
  rw [List.map_take, split, List.take_left]

theorem Inflow.given (inflow : Inflow done pending orphaned conn) :
    (batches conn.notes).flatten = frames done := by
  obtain ⟨groups, sent, flat, _⟩ := inflow.delivered
  rw [sent, ← flat, frames_flatten]

theorem outside_exchanged (mp : Msgpuck) (crypto : Crypto) (parseCs : Bytes → CsParts)
    (event : Event × Answers) (going : Going before) (later : Going after)
    (grows : Extends before after)
    (exchanged : Exchanged reply start before done pending orphaned)
    (admitted : Exchanges reply start before event) (other : event.1.meetsInput = false)
    (ran : step mp crypto parseCs event before = some after) :
    Exchanged reply start after done pending orphaned := by
  obtain ⟨aside, hushed⟩ := session_step mp crypto parseCs event before after going.takes
    (going.admits parseCs event admitted) other ran
  obtain ⟨kept, inflow, course⟩ := aside_inflow exchanged.inflow aside hushed
  obtain ⟨_, rfl⟩ := course.resolve_right fun closed =>
    absurd (later.live.socket.symm.trans closed) Bool.noConfusion
  refine ⟨inflow, ?_, ?_, exchanged.replies.mono grows.departed⟩
  · rw [aside.caller]
    exact exchanged.idle
  · rw [aside.received]
    exact exchanged.heard

theorem processed_exchanged (answers : Answers) (grows : Extends before (before.inputProcessed answers))
    (exchanged : Exchanged reply start before done pending orphaned) :
    Exchanged reply start (before.inputProcessed answers) (done ++ pending) [] orphaned := by
  obtain ⟨inflow, same⟩ := input_processed_inflow answers done pending orphaned before
    exchanged.inflow
  refine ⟨inflow, fun _ => rfl, ?_, ?_⟩
  · rw [same.received, List.append_nil]
    exact exchanged.heard
  · rw [List.append_nil]
    exact exchanged.replies.mono grows.departed

section Runs
variable {mp : Msgpuck} (implements : Implements mp) (crypto : Crypto) (parseCs : Bytes → CsParts)
variable (sized : ∀ body ∈ requests, Sized body) (replied : ∀ body ∈ requests, Sized (reply body))
include implements sized replied

theorem read_exchanged (answers : Answers) (going : Going before)
    (exchanged : Exchanged reply start before done pending orphaned)
    (ongoing : Ongoing answers.recvs)
    (replies : Replies reply (start.departed before)
      (start.answered before (before.arriving answers)))
    (calls : start.made before <+: frames requests) :
    ∃ after done pending orphaned, before.read mp crypto answers = some after ∧
      after.received = before.received ++ before.arriving answers ∧
      Exchanged reply start after done pending orphaned := by
  obtain ⟨inflow, idle, heard, _⟩ := exchanged
  have more := ongoing_meets_none answers before inflow.receiveRoom ongoing
  rw [answered, heard, List.append_assoc, List.drop_left, List.append_assoc] at replies
  obtain ⟨_, order, _, _, _, sizes, unsaid, said⟩ := replies.first sized replied calls
  -- the given bodies, the waiting ones, and some that are new
  rw [List.append_assoc] at said
  obtain ⟨next, split, left⟩ := frames_split (done ++ pending) (order.map reply) _
    inflow.sized sizes said
  obtain ⟨fresh, behind, tail, size, parts, found, unfinished, -⟩ := prefix_splits next
    (fun body member => sizes body (split ▸ List.mem_append_right _ member))
    (orphaned ++ before.arriving answers) ⟨unsaid, left⟩
  have fits : ∀ body ∈ fresh, Sized body := by
    intro body member
    apply sizes body
    rw [split, parts]
    exact List.mem_append_right _ (List.mem_append_left _ member)
  obtain ⟨after, done', pending', read, given, both, calm, -, -, received⟩ :=
    read_inflow implements crypto answers done pending orphaned before inflow going.takes
      going.live.socket more fresh fits tail tail size (.unfinished unfinished) found
  have same : frames (done' ++ pending') ++ tail =
      frames (done ++ pending) ++ (orphaned ++ before.arriving answers) := by
    rw [both, frames_append (done ++ pending), List.append_assoc, found]
  have parked := (read_parked mp crypto answers going.live ⟨inflow.receiveRoom, inflow.inputRoom⟩
    ongoing read).2
  refine ⟨after, done', pending', tail, read, received, given, calm, ?_, ?_⟩
  · rw [received, heard, same]
    simp only [List.append_assoc]
  · rw [same]
    exact replies.mono parked.grows.departed

theorem step_exchanged (event : Event × Answers) (going : Going before)
    (exchanged : Exchanged reply start before done pending orphaned)
    (admitted : Exchanges reply start before event)
    (ran : step mp crypto parseCs event before = some after)
    (calls : start.made before <+: frames requests) :
    ∃ done pending orphaned, Exchanged reply start after done pending orphaned := by
  obtain ⟨later, grows⟩ := step_going mp crypto parseCs reply event going admitted ran
  by_cases other : event.1.meetsInput = false
  · exact ⟨_, _, _, outside_exchanged mp crypto parseCs event going later grows exchanged admitted
      other ran⟩
  · obtain ⟨call, answers⟩ := event
    cases call with
    | read =>
        obtain ⟨reached, _, _, _, read, _, answered⟩ := read_exchanged implements crypto sized replied
          answers going exchanged admitted.1 admitted.2 calls
        obtain rfl : reached = after := Option.some.inj (read.symm.trans ran)
        exact ⟨_, _, _, answered⟩
    | inputProcessed =>
        cases ran
        exact ⟨_, _, _, processed_exchanged answers grows exchanged⟩
    | openConnection | close | setConnectionString | setRequiredProto | setCallbacks | append
    | reserve | request | flush | tick1sec | write | resolved | resolveFailed =>
        exact absurd rfl other

/-- An opened connection that has not yet heard a response. -/
structure Settled (conn : Conn) : Prop where
  going : Going conn
  inflow : Inflow [] [] [] conn

omit implements sized replied in
theorem Settled.exchanged (settled : start.Settled) : Exchanged reply start start [] [] [] where
  inflow := settled.inflow
  idle := fun _ => rfl
  heard := (List.append_nil _).symm
  replies := ⟨[], _, [], fun _ member => absurd member List.not_mem_nil, rfl, List.nil_subperm,
    List.prefix_refl _⟩

theorem run_exchanged (settled : start.Settled) (events : List (Event × Answers))
    (run : Run (step mp crypto parseCs) (Exchanges reply start) start events conn) :
    Going conn ∧ Extends start conn ∧ (start.made conn <+: frames requests →
      ∃ done pending orphaned, Exchanged reply start conn done pending orphaned) := by
  induction run with
  | nil => exact ⟨settled.going, .refl start, fun _ => ⟨[], [], [], settled.exchanged⟩⟩
  | @snoc _ before after event run admitted ran ih =>
      obtain ⟨going, front, exchanges⟩ := ih
      obtain ⟨later, grows⟩ := step_going mp crypto parseCs reply event going admitted ran
      refine ⟨later, front.trans grows, fun calls => ?_⟩
      have known := grows.made.trans calls
      obtain ⟨done, pending, orphaned, exchanged⟩ := exchanges known
      exact step_exchanged implements crypto parseCs sized replied event going exchanged admitted ran
        known

theorem bytes_come (said : Bytes) (going : Going before)
    (exchanged : Exchanged reply start before done pending orphaned)
    (calls : start.made before <+: frames requests)
    (replies : Replies reply (start.departed before) (start.answered before said)) :
    ∃ events after done pending orphaned,
      Run (step mp crypto parseCs) (Exchanges reply start) before events after ∧ Going after ∧
      Parked before after ∧ after.received = before.received ++ said ∧
      Exchanged reply start after done pending orphaned := by
  induction said generalizing before done pending orphaned with
  | nil => exact ⟨[], before, _, _, _, .nil, going, ⟨rfl, rfl⟩, (List.append_nil _).symm, exchanged⟩
  | cons byte said ih =>
      let answers : Answers := { recvs := [.bytes [byte]] }
      have ongoing : Ongoing answers.recvs := ⟨by simp [answers], by simp [answers]⟩
      have arrives : before.arriving answers = [byte] :=
        byte_arrives byte before exchanged.inflow.receiveRoom
      have part : Replies reply (start.departed before)
          (start.answered before (before.arriving answers)) := by
        obtain ⟨bodies, rest, order, formed, taken, once, front⟩ := replies
        refine ⟨bodies, rest, order, formed, taken, once, List.IsPrefix.trans ?_ front⟩
        rw [arrives]
        apply List.IsPrefix.drop
        exact ⟨said, by simp⟩
      obtain ⟨middle, done, pending, orphaned, read, received, next⟩ := read_exchanged implements
        crypto sized replied answers going exchanged ongoing part calls
      have parked := (read_parked mp crypto answers going.live going.room ongoing read).2
      have admitted : Exchanges reply start before (.read, answers) := ⟨ongoing, part⟩
      obtain ⟨still, _⟩ := step_going mp crypto parseCs reply (.read, answers) going admitted read
      rw [arrives] at received
      have known : start.made middle <+: frames requests := by
        rw [made, parked.stream]
        exact calls
      have left : Replies reply (start.departed middle) (start.answered middle said) := by
        rw [departed, parked.accepted, answered, received, List.append_assoc]
        exact replies
      obtain ⟨events, after, done, pending, orphaned, run, later, rests, heard, answered⟩ :=
        ih still next known left
      refine ⟨_ :: events, after, done, pending, orphaned, .cons admitted read run, later,
        parked.trans rests, ?_, answered⟩
      rw [heard, received, List.append_assoc]
      rfl

theorem Exchanged.catches_up (going : Going before)
    (exchanged : Exchanged reply start before done pending orphaned)
    (calls : start.made before <+: frames requests) (bodies : List Bytes) (rest : Bytes)
    (formed : ∀ body ∈ bodies, Sized body) (left : start.departed before = frames bodies ++ rest) :
    ∃ later after asked order, Run (step mp crypto parseCs) (Exchanges reply start) before later after ∧
      Parked before after ∧ bodies <+: asked ∧ asked <+: requests ∧ List.Perm order asked ∧
      (batches after.notes).flatten = frames (order.map reply) := by
  obtain ⟨known, behind, begun, sound, taken, once, unsaid, said⟩ := exchanged.replies
  have first := departed_first left formed sized calls
  have second := departed_first taken sound sized calls
  -- all requests known to have left, and all responses the peer has begun with
  obtain ⟨asked, more, front, covers, goes, formed, left⟩ : ∃ asked more, bodies <+: asked ∧
      known <+: asked ∧ asked <+: requests ∧ (∀ body ∈ asked, Sized body) ∧
      start.departed before = frames asked ++ more := by
    rcases List.prefix_or_prefix_of_prefix first second with less | more
    · exact ⟨known, behind, less, List.prefix_refl _, second, sound, taken⟩
    · exact ⟨bodies, rest, List.prefix_refl _, more, first, formed, left⟩
  have within : List.Subperm begun asked := once.trans covers.sublist.subperm
  have whole : List.Perm (begun ++ asked.diff begun) asked :=
    List.subperm_append_diff_self_of_count_le fun body _ => within.count_le body
  have answers : start.answered before (unsaid ++ frames ((asked.diff begun).map reply)) =
      frames ((begun ++ asked.diff begun).map reply) := by
    rw [answered, exchanged.heard, List.append_assoc, List.drop_left, ← List.append_assoc, said,
      List.map_append, frames_append]
  obtain ⟨events, after, done', pending', tail, run, later, parked, received, next⟩ := bytes_come
    implements crypto parseCs sized replied _ going exchanged calls
    ⟨asked, more, _, formed, left, whole.subperm, ⟨[], by rw [answers, List.append_nil]⟩⟩
  have heard : frames (done' ++ pending') ++ tail =
      frames ((begun ++ asked.diff begun).map reply) := by
    rw [← answers, answered, ← received, next.heard, List.drop_left]
  have owes : ∀ body ∈ (begun ++ asked.diff begun).map reply, Sized body := by
    intro body member
    obtain ⟨request, kept, rfl⟩ := List.mem_map.mp member
    exact replied request (goes.subset (whole.subset kept))
  have all := frames_covered _ (done' ++ pending') tail next.inflow.unfinished owes next.inflow.sized
    (heard ▸ List.prefix_refl _)
  obtain ⟨more, shape, _⟩ := frames_split (done' ++ pending') _ tail next.inflow.sized owes heard
  have same : done' ++ pending' = (begun ++ asked.diff begun).map reply :=
    List.IsPrefix.eq_of_length_le ⟨more, shape.symm⟩ all.length_le
  obtain ⟨_, rests⟩ := input_parked later.live (input_processed_input {} after)
  have given := (processed_exchanged {} rests.grows next).inflow.given
  have admitted : Exchanges reply start after (.inputProcessed, {}) := trivial
  exact ⟨_, _, asked, _, run.snoc admitted rfl, parked.trans rests, front, goes, whole,
    given.trans (congrArg frames same)⟩

end Runs

end Steps

/-- A caller who has been given nothing. -/
structure Fresh (conn : Conn) : Prop where
  idle : conn.callerIdle = true
  calm : ∀ item ∈ conn.notes, item.isQuiet
  callback : conn.callbacks.response = true
  inputRoom : 2 ≤ conn.inputBuffer.capacity

theorem Opened.settled {script : Script} (opened : Opened script start conn) (fresh : start.Fresh) :
    conn.Settled := by
  obtain ⟨_, _, callbacks, input, caller⟩ := opened.same
  obtain ⟨extra, notes, quiet⟩ := opened.hushed
  have inputRoom : 2 ≤ conn.inputBuffer.capacity := input ▸ fresh.inputRoom
  have same : SameBatches [] conn.notes := by
    rw [notes]
    apply quiet_same []
    intro item member
    exact (List.mem_append.mp member).elim (fresh.calm item) (quiet item)
  constructor
  · refine ⟨⟨opened.socket, opened.state, ?_, ?_⟩, opened.ticks,
      opened.receiveRoom, inputRoom⟩
    · rw [Within, opened.corked]
      exact Nat.zero_le _
    · exact fun marked => absurd opened.corked marked
  · constructor
    · exact opened.content
    · exact opened.head
    · exact fun _ member => absurd member List.not_mem_nil
    · rw [opened.detected]
      exact .short [] (by decide)
    · exact ⟨[], same.batches, rfl, fun _ member => absurd member List.not_mem_nil⟩
    · rw [same.awaiting, caller, fresh.idle]
      rfl
    · apply same.alternate
      intro front batch back split
      simp at split
    · rw [callbacks]
      exact fresh.callback
    · exact opened.receiveRoom
    · exact inputRoom

def pingRequest : Bytes := [0x82, 0x00, 0x40, 0x01, 0x00]

def pingResponse (_ : Bytes) : Bytes := [0x82, 0x00, 0x00, 0x01, 0x00, 0x80]

theorem named_start_fresh : namedStart.Fresh :=
  ⟨rfl, fun _ member => absurd member List.not_mem_nil, rfl, OwnedBuffer.of_size_roomy (by decide)⟩

theorem append_flushed (bytes : Bytes) (live : Live conn) (drained : conn.sendBuffer.unsent = [])
    (empty : conn.outputBuffer.content = []) (more : bytes ≠ [])
    (room : bytes.length ≤ conn.outputBuffer.available) :
    ∃ events after, Run (step reference sampleCrypto namedPath) (Exchanges pingResponse start) conn
        events after ∧
      after.accepted.map OutByte.byte = conn.accepted.map OutByte.byte ++ bytes ∧
      after.stream = after.accepted := by
  let appended := { conn with
    outputBuffer := conn.outputBuffer.push (bytes.map fun byte => ⟨byte, .caller⟩) }
  let answers : Answers := { sends := [.accepted bytes.length] }
  have content : appended.outputBuffer.content = bytes.map fun byte => ⟨byte, .caller⟩ := by
    rw [OwnedBuffer.push_content, empty, List.nil_append]
  have ready : conn.state ≠ .connecting := by
    rw [live.state]
    exact State.noConfusion
  have flushed : appended.flush answers = some (true, appended.launched.delivered 0) := by
    apply flush_drains answers bytes.length [] appended ready live.socket rfl drained
    · rw [content]
      exact fun none => more (List.map_eq_nil_iff.mp none)
    · rw [OwnedBuffer.size, content, List.length_map]
      exact Nat.le_succ _
  have fine : Exchanges pingResponse start appended (.flush, answers) := by
    intro member
    cases List.mem_singleton.mp member
  refine ⟨[(.append bytes, {}), (.flush, answers)], _, .cons room (if_pos room)
    (.cons fine (congrArg (Option.map Prod.snd) flushed) .nil), ?_, ?_⟩
  · change (_ ++ appended.outputBuffer.content.take appended.outputBuffer.content.length).map _ = _
    rw [List.take_length, content, List.map_append, List.map_map]
    exact congrArg _ (List.map_id _)
  · have rests := appended.launched.delivered_unsent 0
    rw [stream, rests, List.append_nil]
    exact List.append_nil _

theorem ping_sent : ∃ first second opened conn,
    Run (step reference sampleCrypto namedPath) (Undisturbed sampleScript) namedStart first opened ∧
    opened.state = .connected ∧
    Run (step reference sampleCrypto namedPath) (Exchanges pingResponse opened) opened second conn ∧
    opened.made conn = frame pingRequest ∧ opened.departed conn = frame pingRequest := by
  have waits := named_start_begun.waits sample_script_suits
  obtain ⟨first, opened, login, output, ends⟩ := waits.finishes reference_implements
    reference_reads_items sampleCrypto namedPath sample_script_suits
  have room : (frame pingRequest).length ≤ opened.outputBuffer.available := by
    rw [output]
    have available : namedStart.outputBuffer.available = 2 ^ 20 := OwnedBuffer.of_size_available _
    rw [available]
    decide
  obtain ⟨second, conn, run, accepted, stream⟩ := @append_flushed opened opened (frame pingRequest)
    (ends.settled named_start_fresh).going.live ends.drained (congrArg OwnedBuffer.content output)
    (by decide) room
  have left : opened.departed conn = frame pingRequest := by
    have length : opened.accepted.length = (opened.accepted.map OutByte.byte).length :=
      (List.length_map _).symm
    rw [departed, accepted, length, List.drop_left]
  refine ⟨first, second, opened, conn, login, ends.state, run, ?_, left⟩
  rw [made, stream]
  exact left

section Answers
variable {mp : Msgpuck} {script : Script} {opened : Conn} {reply : Bytes → Bytes}
variable (implements : Implements mp) (prints : ReadsItems mp) (crypto : Crypto)
variable (parseCs : Bytes → CsParts)
include implements prints

theorem login_exchanges (suits : script.Suits mp start) (begun : start.Begun) (fresh : start.Fresh)
    {first second : List (Event × Answers)}
    (login : Run (step mp crypto parseCs) (Undisturbed script) start first opened)
    (ready : opened.state = .connected)
    (run : Run (step mp crypto parseCs) (Exchanges reply opened) opened second conn)
    {requests : List Bytes} (sized : ∀ body ∈ requests, Sized body)
    (replied : ∀ body ∈ requests, Sized (reply body)) :
    Opened script start opened ∧ Going conn ∧ Extends opened conn ∧
      (opened.made conn <+: frames requests →
        ∃ done pending orphaned, Exchanged reply opened conn done pending orphaned) := by
  have reached : LogsIn script start opened := login.invariant (.inl ⟨_, begun.waits suits⟩)
    (step_logs_in implements prints crypto parseCs suits)
  have ends : Opened script start opened := by
    apply reached.resolve_left
    rintro ⟨stage, waits⟩
    have state := waits.state.symm.trans ready
    cases stage <;> cases state
  exact ⟨ends, run_exchanged implements crypto parseCs sized replied (ends.settled fresh) second run⟩

omit implements prints in
theorem ping_heard : ∃ first second opened conn,
    Run (step reference sampleCrypto namedPath) (Undisturbed sampleScript) namedStart first opened ∧
    opened.state = .connected ∧
    Run (step reference sampleCrypto namedPath) (Exchanges pingResponse opened) opened second conn ∧
    opened.made conn = frame pingRequest ∧ opened.departed conn = frame pingRequest ∧
    (batches conn.notes).flatten = frame (pingResponse pingRequest) := by
  obtain ⟨first, second, opened, conn, login, ready, run, made, left⟩ := ping_sent
  have one : frames [pingRequest] = frame pingRequest := List.append_nil _
  have sized : ∀ body ∈ [pingRequest], Sized body := by decide
  have replied : ∀ body ∈ [pingRequest], Sized (pingResponse body) := by decide
  have calls : opened.made conn <+: frames [pingRequest] := made.trans one.symm ▸ List.prefix_refl _
  obtain ⟨_, going, _, exchanges⟩ := login_exchanges reference_implements reference_reads_items
    sampleCrypto namedPath sample_script_suits named_start_begun named_start_fresh login ready run
    sized replied
  obtain ⟨_, _, _, exchanged⟩ := exchanges calls
  obtain ⟨later, after, asked, order, comes, parked, front, goes, all, given⟩ :=
    exchanged.catches_up reference_implements sampleCrypto namedPath sized replied going calls
      [pingRequest] [] sized (by rw [left, one, List.append_nil])
  obtain rfl : asked = [pingRequest] := (front.eq_of_length_le goes.length_le).symm
  rw [List.perm_singleton.mp all] at given
  refine ⟨first, second ++ later, opened, after, login, ready, run.trans comes, ?_, ?_,
    given.trans (List.append_nil _)⟩
  · rw [Conn.made, parked.stream]
    exact made
  · rw [departed, parked.accepted]
    exact left

/-- However the bytes of both directions are cut, whatever order the peer answers in, and whenever the
caller takes what there is: the first requests the peer sees are those of the login, then come those
of the caller in their order; what the caller is given is responses to distinct requests among
them, all of which have left, in the order the peer has chosen. An idle caller has been given all
that are whole. -/
theorem requests_answered (suits : script.Suits mp start) (begun : start.Begun) (fresh : start.Fresh)
    (first second : List (Event × Answers))
    (login : Run (step mp crypto parseCs) (Undisturbed script) start first opened)
    (ready : opened.state = .connected)
    (run : Run (step mp crypto parseCs) (Exchanges reply opened) opened second conn)
    (requests : List Bytes) (sized : ∀ body ∈ requests, Sized body)
    (replied : ∀ body ∈ requests, Sized (reply body))
    (calls : opened.made conn <+: frames requests) :
    ∃ logins asked answered given orphaned, logins.length = start.lastStage.asked ∧
      conn.accepted.map OutByte.byte = frames logins ++ opened.departed conn ∧
      opened.departed conn <+: opened.made conn ∧
      asked <+: requests ∧ frames asked <+: opened.departed conn ∧ List.Subperm answered asked ∧
      conn.received = script.said start.lastStage.asked ++ frames (answered.map reply) ++ orphaned ∧
      (∀ body rest, Sized body → orphaned ≠ frame body ++ rest) ∧ given <+: answered ∧
      (batches conn.notes).flatten = frames (given.map reply) ∧
      Alternate conn.notes ∧ (conn.callerIdle = true → given = answered) := by
  obtain ⟨ends, _, grows, exchanges⟩ := login_exchanges implements prints crypto parseCs suits begun
    fresh login ready run sized replied
  obtain ⟨done, pending, orphaned, exchanged⟩ := exchanges calls
  obtain ⟨asked, answered, front, left, once, answers⟩ := exchanged.ordered sized replied calls
  obtain ⟨logins, count, _, taken⟩ := ends.asked
  refine ⟨logins, asked, answered, answered.take done.length, orphaned, count, ?_, departed_made,
    front, left, once, ?_, exchanged.inflow.unfinished.no_frame, List.take_prefix _ _, ?_,
    exchanged.inflow.alternate, ?_⟩
  · rw [queue, ends.drained, List.append_nil] at taken
    obtain ⟨more, whole⟩ := grows.accepted
    have length : opened.accepted.length = (opened.accepted.map OutByte.byte).length :=
      (List.length_map _).symm
    rw [departed, ← whole, List.map_append, length, List.drop_left, taken]
  · rw [exchanged.heard, ends.heard, answers, List.append_assoc]
  · rw [exchanged.inflow.given, List.map_take, answers, List.take_left]
  · intro idle
    have length := congrArg List.length answers
    rw [exchanged.idle idle, List.append_nil, List.length_map] at length
    exact List.take_of_length_le length.le

omit implements prints in
/-- The ping is answered, behind the two requests of the login. -/
theorem ping_answered : ∃ (conn : Conn) (logins : List Bytes), logins.length = 2 ∧
    conn.accepted.map OutByte.byte = frames logins ++ frame pingRequest ∧
    (batches conn.notes).flatten = frame (pingResponse pingRequest) := by
  obtain ⟨first, second, opened, conn, login, ready, run, made, left, given⟩ := ping_heard
  have one : frames [pingRequest] = frame pingRequest := List.append_nil _
  obtain ⟨logins, _, _, _, _, count, accepted, _⟩ := requests_answered reference_implements
    reference_reads_items sampleCrypto namedPath sample_script_suits named_start_begun
    named_start_fresh first second login ready run [pingRequest] (by decide) (by decide)
    (made.trans one.symm ▸ List.prefix_refl _)
  refine ⟨conn, logins, count, ?_, given⟩
  rw [accepted]
  exact congrArg _ left

/-- The responses to all requests that have left can come, and the caller can be given them. -/
theorem responses_come (suits : script.Suits mp start) (begun : start.Begun) (fresh : start.Fresh)
    (first second : List (Event × Answers))
    (login : Run (step mp crypto parseCs) (Undisturbed script) start first opened)
    (ready : opened.state = .connected)
    (run : Run (step mp crypto parseCs) (Exchanges reply opened) opened second conn)
    (requests : List Bytes) (sized : ∀ body ∈ requests, Sized body)
    (replied : ∀ body ∈ requests, Sized (reply body))
    (calls : opened.made conn <+: frames requests) (bodies : List Bytes) (rest : Bytes)
    (formed : ∀ body ∈ bodies, Sized body) (left : opened.departed conn = frames bodies ++ rest) :
    ∃ later after asked order, Run (step mp crypto parseCs) (Exchanges reply opened) conn later after ∧
      opened.made after = opened.made conn ∧ bodies <+: asked ∧ asked <+: requests ∧
      List.Perm order asked ∧ (batches after.notes).flatten = frames (order.map reply) := by
  obtain ⟨ends, going, grows, exchanges⟩ := login_exchanges implements prints crypto parseCs suits
    begun fresh login ready run sized replied
  obtain ⟨done, pending, orphaned, exchanged⟩ := exchanges calls
  obtain ⟨later, after, asked, order, comes, parked, front, goes, all, given⟩ :=
    exchanged.catches_up implements crypto parseCs sized replied going calls bodies rest formed left
  refine ⟨later, after, asked, order, comes, ?_, front, goes, all, given⟩
  rw [made, parked.stream]
  rfl

omit implements prints in
theorem ping_response_comes : ∃ conn : Conn,
    (batches conn.notes).flatten = frame (pingResponse pingRequest) := by
  obtain ⟨first, second, opened, conn, login, ready, run, made, left⟩ := ping_sent
  have one : frames [pingRequest] = frame pingRequest := List.append_nil _
  have sized : ∀ body ∈ [pingRequest], Sized body := by decide
  have calls : opened.made conn <+: frames [pingRequest] := made.trans one.symm ▸ List.prefix_refl _
  obtain ⟨_, after, asked, order, _, _, front, goes, all, given⟩ := responses_come
    reference_implements reference_reads_items sampleCrypto namedPath sample_script_suits
    named_start_begun named_start_fresh first second login ready run [pingRequest] sized (by decide)
    calls [pingRequest] [] sized (by rw [left, one, List.append_nil])
  obtain rfl : asked = [pingRequest] := (front.eq_of_length_le goes.length_le).symm
  rw [List.perm_singleton.mp all] at given
  exact ⟨after, given.trans (List.append_nil _)⟩

end Answers

end Conn

end Cpp2tnt
