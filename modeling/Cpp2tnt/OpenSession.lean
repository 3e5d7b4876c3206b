import Cpp2tnt.InputDelivery

/-!
An open session up to its end and on to the next one, with everything else that
may happen meanwhile: requests, flushes, writes, ticks, calls of the caller and
attempts to connect that fail. None of it touches the input but by closing the
socket, and then the whole responses stay.
-/

namespace Cpp2tnt
open Imperative MessagePack Transition

def Event.meetsInput : Event → Bool
  | .read | .inputProcessed => true
  | _ => false

theorem Event.input_cases (call : Event) :
    call = .read ∨ call = .inputProcessed ∨ call.meetsInput = false := by
  cases call <;> simp [meetsInput]

namespace Conn

def Hushed (before after : Conn) : Prop :=
  ∃ extra, after.notes = before.notes ++ extra ∧ ∀ item ∈ extra, item.isQuiet

theorem Hushed.same {before after : Conn} (same : after.notes = before.notes) :
    Hushed before after := ⟨[], by rw [same, List.append_nil], by simp⟩

theorem Hushed.trans {first second third : Conn} (left : Hushed first second)
    (right : Hushed second third) : Hushed first third := by
  obtain ⟨extra, notes, quiet⟩ := left
  obtain ⟨more, later, calm⟩ := right
  refine ⟨extra ++ more, by rw [later, notes, List.append_assoc], ?_⟩
  intro item member
  rcases List.mem_append.mp member with old | new
  · exact quiet item old
  · exact calm item new

theorem error_hushed (message : Bytes) (code : ErrorCode) (dbError : Nat) (conn : Conn) :
    Hushed conn (conn.handleError message code dbError) :=
  ⟨[.error message code dbError], rfl, by simp [Note.isQuiet]⟩

theorem fail_hushed (answers : Answers) (message : Bytes) (code : ErrorCode) (handler : Bool)
    (conn : Conn) : Hushed conn (conn.fail answers message code handler) := by
  obtain ⟨extra, shape, quiet, _⟩ := fail_shape answers message code handler conn
  exact ⟨extra, by rw [shape], quiet⟩

theorem swap_notes (conn swapped : Conn) (done : conn.swapCorked = some swapped) :
    swapped.notes = conn.notes := by
  unfold swapCorked at done
  simp only at done
  split at done
  · split at done
    · cases done
      rfl
    · cases done
  · cases done
    rfl

theorem send_loop_hushed (answers : Answers) (results : List SendResult) (left : Nat)
    (conn after : Conn) (done : sendLoop answers results left conn = some after) :
    Hushed conn after := by
  apply send_loop_kept answers _ _ _ _ results left (.same rfl) done
  · intro next mode hushed
    exact hushed.trans (.same rfl)
  · intro next hushed
    exact hushed.trans (fail_hushed answers [] .system true next)
  · intro next count hushed
    exact hushed.trans (.same rfl)
  · intro next swapped hushed swap
    exact hushed.trans (.same (swap_notes next swapped swap))

theorem write_hushed (answers : Answers) (conn after : Conn)
    (done : conn.write answers = some after) : Hushed conn after := by
  unfold write at done
  split at done
  · split at done
    · cases done
      exact fail_hushed answers [] .system false conn
    · cases done
      exact .same rfl
  · have started : Hushed conn conn.startWrite := by
      unfold startWrite
      simp only
      split
      · exact error_hushed _ .system 0 _
      · exact .same rfl
    exact started.trans (send_loop_hushed answers _ _ _ after done)

theorem flush_hushed (answers : Answers) (conn : Conn) (after : Bool × Conn)
    (done : conn.flush answers = some after) : Hushed conn after.2 := by
  unfold flush at done
  split at done
  · cases done
    exact .same rfl
  split at done
  · simp only [Option.map_eq_some_iff] at done
    obtain ⟨reached, ran, rfl⟩ := done
    have wrote := write_hushed answers _ reached ran
    exact wrote
  · cases done
    exact .same rfl

theorem idle_tick_hushed (conn : Conn) : Hushed conn conn.idleTick := by
  unfold idleTick
  simp only
  split
  · exact ⟨[.idle], rfl, by simp [Note.isQuiet]⟩
  · exact .same rfl

/-- The input is the same, or cut behind the whole responses by a close. -/
inductive InputKept (before after : Conn) : Prop where
  | same : after.receiveBuffer = before.receiveBuffer →
      after.detectedResponseSize = before.detectedResponseSize →
      after.socket = before.socket → InputKept before after
  | cut : after.receiveBuffer = before.receiveBuffer.resize before.lastReceivedHeadOffset →
      after.detectedResponseSize = 0 → after.socket = false → InputKept before after

/-- What an event that does not read leaves of the input. -/
structure Aside (before after : Conn) : Prop where
  takes : after.TakesResponses
  kept : InputKept before after
  input : after.inputBuffer = before.inputBuffer
  caller : after.callerIdle = before.callerIdle
  head : after.lastReceivedHeadOffset = before.lastReceivedHeadOffset
  received : after.received = before.received
  callback : before.callbacks.response = true → after.callbacks.response = true

section Events
variable {before after : Conn}

theorem quiet_aside (quiet : Quiet before after) (takes : before.TakesResponses) :
    Aside before after := by
  obtain ⟨_, _, _, _, rfl, _⟩ := quiet
  exact ⟨takes, .same rfl rfl rfl, rfl, rfl, rfl, rfl, id⟩

theorem Aside.behind {middle : Conn} (aside : Aside middle after)
    (output : OutputOnly before middle) : Aside before after := by
  obtain ⟨_, _, _, _, _, _, _, rfl, _⟩ := output
  refine ⟨aside.takes, ?_, aside.input, aside.caller, aside.head, aside.received,
    aside.callback⟩
  cases aside.kept with
  | same receive detected socket => exact .same receive detected socket
  | cut receive detected socket => exact .cut receive detected socket

theorem Aside.quietly {middle : Conn} (aside : Aside before middle) (quiet : Quiet middle after) :
    Aside before after := by
  obtain ⟨_, _, _, _, rfl, _⟩ := quiet
  refine ⟨aside.takes, ?_, aside.input, aside.caller, aside.head, aside.received,
    aside.callback⟩
  cases aside.kept with
  | same receive detected socket => exact .same receive detected socket
  | cut receive detected socket => exact .cut receive detected socket

theorem closed_input (delay : Int) (conn : Conn) :
    (conn.closed delay).socket = false ∧ (conn.closed delay).inputBuffer = conn.inputBuffer ∧
      (conn.closed delay).callerIdle = conn.callerIdle ∧
      (conn.closed delay).lastReceivedHeadOffset = conn.lastReceivedHeadOffset ∧
      (conn.closed delay).received = conn.received ∧
      (conn.closed delay).callbacks = conn.callbacks := by
  unfold closed
  split
  · exact ⟨rfl, rfl, rfl, rfl, rfl, rfl⟩
  · rename_i closed
    exact ⟨eq_false_of_ne_true closed, rfl, rfl, rfl, rfl, rfl⟩

theorem closed_aside (delay ticks : Int) (notes : List Note) (conn : Conn) :
    Aside conn { conn.closed delay with autoreconnectTicksCounter := ticks, notes := notes } := by
  obtain ⟨socket, input, caller, head, received, callbacks⟩ := conn.closed_input delay
  refine ⟨.inr (.inl (conn.closed_state delay)), ?_, input, caller, head, received, ?_⟩
  · unfold closed at socket ⊢
    split at socket
    · rename_i opened
      simp only [if_pos opened]
      exact .cut rfl rfl rfl
    · rename_i closed
      simp only [if_neg closed]
      exact .same rfl rfl rfl
  · intro set
    exact (congrArg Callbacks.response callbacks).trans set

theorem failed_aside {handler : Bool} (failed : FailedBy handler before after) :
    Aside before after := by
  obtain ⟨extra, rfl, _⟩ := failed
  exact closed_aside 0 0 (before.notes ++ extra) before

theorem writes_aside {answers : Answers} (writes : Writes answers before after)
    (takes : before.TakesResponses) : Aside before after := by
  cases writes with
  | established state => exact absurd state takes.unconnecting
  | refused state => exact absurd state takes.unconnecting
  | sends _ moved _ ended =>
      cases ended with
      | drained | paused =>
          obtain ⟨_, _, _, _, _, _, _, rfl, _⟩ := moved.output
          exact ⟨takes, .same rfl rfl rfl, rfl, rfl, rfl, rfl, id⟩
      | failed _ _ failed => exact (failed_aside failed).behind moved.output

theorem flushes_aside {answers : Answers} (flushes : Flushes answers before after)
    (takes : before.TakesResponses) : Aside before after := by
  cases flushes with
  | nothing => exact quiet_aside (.refl before) takes
  | marks => exact ⟨takes, .same rfl rfl rfl, rfl, rfl, rfl, rfl, id⟩
  | writes _ _ writes =>
      exact (writes_aside writes takes).behind ⟨_, _, _, _, _, _, _, rfl, rfl⟩

theorem opened_tick_aside (answers : Answers) (takes : before.TakesResponses)
    (done : before.openedTick answers = some after) : Aside before after ∧ Hushed before after := by
  unfold openedTick at done
  split at done
  · cases done
    exact ⟨quiet_aside (.refl before) takes, .same rfl⟩
  split at done
  · simp only [Option.map_eq_some_iff] at done
    obtain ⟨flushed, ran, rfl⟩ := done
    have jam := before.error_quiet (before.jamReport "~~~~~ uncorked data is stuck! ~~~~~")
      .uncorkedDataJam 0
    have aside := flushes_aside (flush_flushes answers _ flushed ran) takes
    have reported : Aside before flushed.2 :=
      aside.behind ⟨_, _, _, _, _, _, _, rfl, before.phases_note _ rfl⟩
    refine ⟨reported.quietly flushed.2.idle_tick_quiet, ?_⟩
    exact ((error_hushed _ _ 0 before).trans (flush_hushed answers _ flushed ran)).trans
      flushed.2.idle_tick_hushed
  · cases done
    exact ⟨quiet_aside before.idle_tick_quiet takes, before.idle_tick_hushed⟩

end Events

end Conn

/-- `connect()` succeeded or goes on. -/
def Attempt.starts : Attempt → Bool
  | .established | .inProgress => true
  | .noSocket | .refused => false

namespace Conn

/-- `open()` would start a session at once, over a unix socket. -/
def Reopens (parseCs : Bytes → CsParts) (answers : Answers) (conn : Conn) : Prop :=
  conn.state = .disconnected ∧ conn.resolverJoinable = false ∧
    (parseCs conn.currentCs).host = [] ∧ (parseCs conn.currentCs).unixSocketPath ≠ [] ∧
    (answers.attempts.headD .refused).starts = true

/-- Events up to the one that starts another session; a resolver may run before it.
The caller keeps its response callback. -/
def UntilReopened (parseCs : Bytes → CsParts) (conn : Conn) : Event × Answers → Prop
  | (.openConnection delay, answers) => 0 < delay ∨ ¬ conn.Reopens parseCs answers
  | (.tick1sec, answers) =>
      conn.autoreconnectTicksCounter < 0 ∨
        conn.autoreconnectTicksCounter + 1 < conn.autoreconnectTimeout ∨
        ¬ conn.Reopens parseCs answers
  | (.setCallbacks callbacks _, _) => callbacks.response = true
  | (.resolved, answers) => conn.state = .addressResolving →
      (answers.attempts.find? (· ≠ .noSocket)).any Attempt.starts = false
  | _ => True

section Attempts
variable {before after : Conn}

theorem Aside.timed {timeout ticks : Int} {parts : CsParts} {state : State} {joined : Bool}
    (aside : Aside { before with
      autoreconnectTimeout := timeout
      autoreconnectTicksCounter := ticks
      csParts := parts
      state := state
      resolverJoinable := joined } after) : Aside before after := by
  refine ⟨aside.takes, ?_, aside.input, aside.caller, aside.head, aside.received,
    aside.callback⟩
  cases aside.kept with
  | same receive detected socket => exact .same receive detected socket
  | cut receive detected socket => exact .cut receive detected socket

theorem error_aside (message : Bytes) (code : ErrorCode) (takes : before.TakesResponses) :
    Aside before (before.handleError message code 0) ∧
      Hushed before (before.handleError message code 0) :=
  ⟨quiet_aside (before.error_quiet message code 0) takes, error_hushed message code 0 before⟩

theorem refused_aside (answers : Answers) (conn : Conn) :
    Aside conn (conn.connectTo answers .refused).reconnectSoon ∧
      Hushed conn (conn.connectTo answers .refused).reconnectSoon := by
  have tried : Aside conn.trying _ := failed_aside (refused_failed answers conn)
  exact ⟨tried.timed, fail_hushed answers [] .system false conn.trying⟩

theorem open_aside (parseCs : Bytes → CsParts) (answers : Answers) (delay : Int)
    (takes : before.TakesResponses) (unopened : 0 < delay ∨ ¬ before.Reopens parseCs answers)
    (done : before.openConnection parseCs answers delay = some after) :
    Aside before after ∧ Hushed before after := by
  unfold openConnection at done
  by_cases opened : before.state = .connected
  · rw [if_pos opened] at done
    cases done
    exact ⟨quiet_aside (.refl before) takes, .same rfl⟩
  rw [if_neg opened] at done
  by_cases resolving : before.state ≠ .disconnected
  · rw [if_pos resolving] at done
    cases done
    exact error_aside _ _ takes
  rw [if_neg resolving] at done
  have closed : before.state = .disconnected := not_not.mp resolving
  by_cases later : delay > 0
  · rw [if_pos later] at done
    cases done
    exact ⟨⟨takes, .same rfl rfl rfl, rfl, rfl, rfl, rfl, id⟩, .same rfl⟩
  rw [if_neg later] at done
  by_cases busy : before.resolverJoinable = true
  · rw [if_pos busy] at done
    cases done
    exact error_aside _ _ takes
  rw [if_neg busy] at done
  have idle : ¬ before.Reopens parseCs answers := unopened.resolve_left later
  have prepares : (before.prepared parseCs).TakesResponses := takes
  simp only at done
  by_cases host : (parseCs before.currentCs).host ≠ []
  · rw [if_pos host] at done
    cases done
    exact ⟨⟨.inr (.inr rfl), .same rfl rfl rfl, rfl, rfl, rfl, rfl, id⟩, .same rfl⟩
  rw [if_neg host] at done
  -- a unix socket is the one attempt that may start a session at once
  by_cases path : (parseCs before.currentCs).unixSocketPath ≠ []
  · rw [if_pos path] at done
    have failed : (answers.attempts.headD .refused).starts ≠ true := fun made =>
      idle ⟨closed, eq_false_of_ne_true busy, not_not.mp host, path, made⟩
    cases attempt : answers.attempts.headD .refused with
    | established | inProgress =>
        rw [attempt] at failed
        exact absurd rfl failed
    | noSocket =>
        rw [attempt] at done
        cases done
        have reported := @error_aside (before.prepared parseCs) [] .system prepares
        exact ⟨reported.1.timed, reported.2⟩
    | refused =>
        rw [attempt] at done
        simp only [if_true] at done
        split at done
        · cases done
          have refused := refused_aside answers (before.prepared parseCs)
          exact ⟨refused.1.timed, refused.2⟩
        · cases done
  · rw [if_neg path] at done
    cases done
    have reported := @error_aside (before.prepared parseCs)
      (ascii "incorrect connection string") .invalidParameter prepares
    exact ⟨reported.1.timed, reported.2⟩

theorem expired_aside (answers : Answers) (conn : Conn) :
    Aside conn (((conn.close answers true 0).handleError (ascii "timeout expired")
        .timeout 0).reconnectSoon) ∧
      Hushed conn (((conn.close answers true 0).handleError (ascii "timeout expired")
        .timeout 0).reconnectSoon) := by
  obtain ⟨extra, shape, quiet, _⟩ := close_shape answers true 0 conn
  have closed : Hushed conn (conn.close answers true 0) := ⟨extra, by rw [shape], quiet⟩
  refine ⟨?_, closed.trans (error_hushed _ _ 0 _)⟩
  rw [shape]
  exact closed_aside 0 0 _ conn

theorem tick_aside (parseCs : Bytes → CsParts) (answers : Answers) (takes : before.TakesResponses)
    (unopened : before.UntilReopened parseCs (.tick1sec, answers))
    (done : before.tick1sec parseCs answers = some after) :
    Aside before after ∧ Hushed before after := by
  unfold tick1sec at done
  by_cases armed : before.autoreconnectTicksCounter ≥ 0
  · have ticked : { before with
        autoreconnectTicksCounter := before.autoreconnectTicksCounter + 1 }.TakesResponses := takes
    rw [if_pos armed] at done
    simp only at done
    split at done
    · rename_i expired
      split at done
      · have idle : 0 < (0 : Int) ∨ ¬ before.Reopens parseCs answers :=
          .inr ((unopened.resolve_left (not_lt.mpr armed)).resolve_left (not_lt.mpr expired))
        obtain ⟨aside, hushed⟩ := open_aside parseCs answers 0 ticked idle done
        exact ⟨aside.timed, hushed⟩
      · cases done
        obtain ⟨aside, hushed⟩ := expired_aside answers { before with
          autoreconnectTicksCounter := before.autoreconnectTicksCounter + 1 }
        exact ⟨aside.timed, hushed⟩
    · obtain ⟨aside, hushed⟩ := opened_tick_aside answers ticked done
      exact ⟨aside.timed, hushed⟩
  · rw [if_neg armed] at done
    exact opened_tick_aside answers takes done

theorem connect_loop_aside (answers : Answers) (attempts : List Attempt) (conn : Conn)
    (failed : (attempts.find? (· ≠ .noSocket)).any Attempt.starts = false) :
    Aside conn (conn.connectLoop answers attempts) ∧
      Hushed conn (conn.connectLoop answers attempts) := by
  induction attempts generalizing conn with
  | nil => exact ⟨⟨.inr (.inl rfl), .same rfl rfl rfl, rfl, rfl, rfl, rfl, id⟩, .same rfl⟩
  | cons attempt attempts ih =>
      cases attempt with
      | noSocket =>
          rw [connectLoop]
          obtain ⟨aside, hushed⟩ := ih (conn.handleError [] .system 0) failed
          exact ⟨aside.behind ⟨_, _, _, _, _, _, _, rfl, conn.phases_note _ rfl⟩,
            (error_hushed _ _ 0 conn).trans hushed⟩
      | established | inProgress => cases failed
      | refused =>
          rw [connect_loop_refused]
          exact refused_aside answers conn

theorem resolved_aside (answers : Answers) (takes : before.TakesResponses)
    (unopened : before.UntilReopened parseCs (.resolved, answers)) :
    Aside before ({ before with resolverJoinable := false }.addressResolved answers) ∧
      Hushed before ({ before with resolverJoinable := false }.addressResolved answers) := by
  unfold addressResolved
  split
  · -- an address that was asked for before the session is not used
    exact ⟨⟨takes, .same rfl rfl rfl, rfl, rfl, rfl, rfl, id⟩, .same rfl⟩
  · rename_i resolving
    obtain ⟨aside, hushed⟩ := connect_loop_aside answers answers.attempts
      { before with resolverJoinable := false } (unopened (not_not.mp resolving))
    exact ⟨aside.timed, hushed⟩

end Attempts

theorem session_step (mp : Msgpuck) (crypto : Crypto) (parseCs : Bytes → CsParts)
    (event : Event × Answers) (before after : Conn) (takes : before.TakesResponses)
    (admitted : before.UntilReopened parseCs event) (other : event.1.meetsInput = false)
    (done : step mp crypto parseCs event before = some after) :
    Aside before after ∧ Hushed before after := by
  have rests : Aside before before ∧ Hushed before before :=
    ⟨quiet_aside (.refl before) takes, .same rfl⟩
  obtain ⟨call, answers⟩ := event
  cases call with
  | openConnection delay =>
      exact open_aside parseCs answers delay takes admitted done
  | close handler delay =>
      cases done
      obtain ⟨extra, shape, quiet, _⟩ := close_shape answers handler delay before
      rw [shape]
      exact ⟨closed_aside delay _ (before.notes ++ extra) before, extra, rfl, quiet⟩
  | setConnectionString cs =>
      cases done
      split
      · exact ⟨quiet_aside ⟨_, _, _, _, rfl, rfl⟩ takes, .same rfl⟩
      · exact rests
  | setRequiredProto proto =>
      cases done
      exact ⟨quiet_aside ⟨_, _, _, _, rfl, rfl⟩ takes, .same rfl⟩
  | setCallbacks callbacks timeout =>
      cases done
      exact ⟨⟨takes, .same rfl rfl rfl, rfl, rfl, rfl, rfl, fun _ => admitted⟩, .same rfl⟩
  | append bytes =>
      simp only [step, append] at done
      split at done
      · cases done
        exact ⟨⟨takes, .same rfl rfl rfl, rfl, rfl, rfl, rfl, id⟩, .same rfl⟩
      · cases done
  | reserve size =>
      cases done
      exact ⟨⟨takes, .same rfl rfl rfl, rfl, rfl, rfl, rfl, id⟩, .same rfl⟩
  | request encode =>
      simp only [step, request] at done
      split at done
      · cases done
        exact ⟨⟨takes, .same rfl rfl rfl, rfl, rfl, rfl, rfl, id⟩, .same rfl⟩
      · cases done
        exact ⟨⟨takes, .same rfl rfl rfl, rfl, rfl, rfl, rfl, id⟩, .same rfl⟩
      · cases done
  | flush =>
      simp only [step, Option.map_eq_some_iff] at done
      obtain ⟨flushed, ran, rfl⟩ := done
      exact ⟨flushes_aside (flush_flushes answers before flushed ran) takes,
        flush_hushed answers before flushed ran⟩
  | tick1sec => exact tick_aside parseCs answers takes admitted done
  | write =>
      exact ⟨writes_aside (write_writes answers before after done) takes,
        write_hushed answers before after done⟩
  | inputProcessed | read => cases other
  | resolved =>
      simp only [step] at done
      split at done
      · cases done
        exact resolved_aside answers takes admitted
      · cases done
  | resolveFailed message =>
      simp only [step] at done
      split at done
      · cases done
        exact ⟨⟨.inr (.inl rfl), .same rfl rfl rfl, rfl, rfl, rfl, rfl, id⟩,
          [.error message .getaddr 0], rfl, by simp [Note.isQuiet]⟩
      · cases done

theorem input_takes {before after : Conn} (input : InputOnly before after)
    (takes : before.TakesResponses) : after.TakesResponses := by
  obtain ⟨_, _, _, _, _, _, rfl, _⟩ := input
  exact takes

theorem reads_takes {answers : Answers} {before after : Conn}
    (reads : Reads answers before after) (takes : before.TakesResponses) :
    after.TakesResponses := by
  cases reads with
  | nothing => exact takes
  | ended _ _ failed => exact (failed_aside failed).takes
  | waits _ state | greets _ state => exact absurd state takes.unconnecting
  | holds _ _ input => exact input_takes input takes
  | handshakes _ state => exact absurd state takes.no_login

theorem step_takes (mp : Msgpuck) (crypto : Crypto) (parseCs : Bytes → CsParts)
    (before : Conn) (event : Event × Answers) (after : Conn) (takes : before.TakesResponses)
    (admitted : before.UntilReopened parseCs event)
    (done : step mp crypto parseCs event before = some after) : after.TakesResponses := by
  obtain ⟨call, answers⟩ := event
  rcases call.input_cases with rfl | rfl | other
  · exact reads_takes (read_reads mp crypto answers before after done) takes
  · cases done
    exact input_takes (input_processed_input answers before) takes
  · exact (session_step mp crypto parseCs _ before after takes admitted other done).1.takes

theorem run_takes {mp : Msgpuck} {crypto : Crypto} {parseCs : Bytes → CsParts}
    {start conn : Conn} {events : List (Event × Answers)} (takes : start.TakesResponses)
    (run : Run (step mp crypto parseCs) (UntilReopened parseCs) start events conn) :
    conn.TakesResponses :=
  run.invariant takes (step_takes mp crypto parseCs)

end Conn

end Cpp2tnt
