import Cpp2tnt.ConnectionEvents
import Cpp2tnt.HandshakeTimeout
import Cpp2tnt.SessionStart

/-!
The course of a session as its caller sees it. The closed callback is kept back
by an argument of some calls of `close()` and by one earlier state; `Course`
says when that is enough.
-/

namespace Cpp2tnt
open Imperative MessagePack Transition

def State.isLogin : State → Bool
  | .featuresRequest | .authentication => true
  | _ => false

def ClosedAfterOpened (notes : List Note) : Prop :=
  ∀ front back, phases notes = front ++ .closed :: back → ∃ earlier, front = earlier ++ [.opened]

theorem ClosedAfterOpened.append {before after : List Note} {item : Note}
    (alternates : ClosedAfterOpened before) (phase : phases after = phases before ++ [item])
    (opened : item = .closed → ∃ earlier, phases before = earlier ++ [.opened]) :
    ClosedAfterOpened after := by
  intro front back shape
  rw [phase] at shape
  rcases List.eq_nil_or_concat back with rfl | ⟨rest, last, rfl⟩
  · obtain ⟨same, last⟩ := List.append_inj' shape rfl
    rw [← same]
    exact opened (List.cons.inj last).1
  · rw [List.concat_eq_append, ← List.cons_append, ← List.append_assoc] at shape
    exact alternates front rest (List.append_inj_left' shape rfl)

namespace Conn

structure Course (conn : Conn) : Prop where
  roomy : conn.Roomy
  alternates : ClosedAfterOpened conn.notes
  opened : conn.state = .connected → ∃ earlier, phases conn.notes = earlier ++ [.opened]

def Reportable (conn : Conn) : Prop :=
  conn.callbacks.closed = true ∧ conn.state.isLogin = true

/-- Nothing but the server's answer ends a login, and nothing ends it silently:
there is somebody to report its success to. -/
def EndsQuietly (conn : Conn) : Event × Answers → Prop
  | (.close handler _, _) => conn.Reportable → handler = false
  | (.flush, answers) | (.write, answers) => conn.Reportable → SendResult.error ∉ answers.sends
  | (.tick1sec, _) => conn.Reportable → conn.autoreconnectTicksCounter < 0 ∨
      conn.autoreconnectTicksCounter + 1 < conn.autoreconnectTimeout
  | (.read, answers) =>
      (conn.Reportable → Ongoing answers.recvs) ∧
      (conn.callbacks.closed = true → conn.state.isHandshake = true →
        SendResult.error ∉ answers.sends) ∧
      (conn.state.isLogin = true → conn.callbacks.opened = true)
  | _ => True

theorem reports_handler {handler : Bool} {conn : Conn} (reported : conn.reports handler = true) :
    handler = true := by
  rw [reports, Bool.and_eq_true] at reported
  exact reported.2

theorem reports_reportable {handler : Bool} {conn : Conn} (reported : conn.reports handler = true)
    (linked : conn.socket = conn.state.hasSocket) (unopened : conn.state ≠ .connected) :
    conn.Reportable := by
  simp only [reports, Bool.and_eq_true, decide_eq_true_eq] at reported
  obtain ⟨⟨⟨socket, connecting⟩, callback⟩, _⟩ := reported
  refine ⟨callback, ?_⟩
  rw [linked] at socket
  cases state : conn.state with
  | connecting => exact absurd state connecting
  | connected => exact absurd state unopened
  | featuresRequest | authentication => rfl
  | disconnected | addressResolving =>
      rw [state] at socket
      cases socket

section Outcomes
variable {before after : Conn}

theorem Course.same (course : Course before) (state : after.state = before.state)
    (phase : phases after.notes = phases before.notes)
    (receive : before.receiveBuffer.capacity ≤ after.receiveBuffer.capacity)
    (input : before.inputBuffer.capacity ≤ after.inputBuffer.capacity) : Course after where
  roomy := ⟨Nat.le_trans course.roomy.receive receive, Nat.le_trans course.roomy.input input⟩
  alternates := by
    rw [ClosedAfterOpened, phase]
    exact course.alternates
  opened := by
    rw [state, phase]
    exact course.opened

theorem Course.unopened (course : Course before) (state : after.state ≠ .connected)
    (phase : phases after.notes = phases before.notes) (roomy : after.Roomy) : Course after where
  roomy := roomy
  alternates := by
    rw [ClosedAfterOpened, phase]
    exact course.alternates
  opened := fun connected => absurd connected state

theorem closed_course (delay : Int) (handler : Bool) (extra : List Note) (roomy : before.Roomy)
    (alternates : ClosedAfterOpened before.notes)
    (phase : phases extra = if before.reports handler then [.closed] else [])
    (opened : before.reports handler = true → ∃ earlier, phases before.notes = earlier ++ [.opened]) :
    Course { before.closed delay with notes := before.notes ++ extra } := by
  have kept : (before.closed delay).Roomy := by
    unfold Conn.closed
    split
    · refine ⟨?_, roomy.input⟩
      apply Nat.le_trans roomy.receive
      change _ ≤ (before.receiveBuffer.resize before.lastReceivedHeadOffset).capacity
      rw [OwnedBuffer.resize_capacity]
      exact Nat.le_max_left _ _
    · exact ⟨roomy.receive, roomy.input⟩
  have ended : (before.closed delay).state ≠ .connected := by
    rw [closed_state]
    exact State.noConfusion
  refine ⟨⟨kept.1, kept.2⟩, ?_, fun connected => absurd connected ended⟩
  cases reported : before.reports handler with
  | true =>
      rw [reported, if_pos rfl] at phase
      have called : phases (before.notes ++ extra) = phases before.notes ++ [.closed] := by
        rw [phases_append, phase]
      exact alternates.append called fun _ => opened reported
  | false =>
      rw [reported, if_neg Bool.false_ne_true] at phase
      rw [ClosedAfterOpened, phases_append, phase, List.append_nil]
      exact alternates

theorem failed_course {handler : Bool} (failed : FailedBy handler before after)
    (roomy : before.Roomy) (alternates : ClosedAfterOpened before.notes)
    (opened : before.reports handler = true → ∃ earlier, phases before.notes = earlier ++ [.opened]) :
    Course after := by
  obtain ⟨extra, rfl, phase⟩ := failed
  have closed := closed_course 0 handler extra roomy alternates phase opened
  exact ⟨⟨closed.roomy.1, closed.roomy.2⟩, closed.alternates, closed.opened⟩

theorem suppressed_course (failed : FailedBy false before after) (roomy : before.Roomy)
    (alternates : ClosedAfterOpened before.notes) : Course after :=
  failed_course failed roomy alternates fun reported =>
    absurd (reports_handler reported) Bool.false_ne_true

theorem quiet_course (quiet : Quiet before after) (course : Course before) : Course after := by
  obtain ⟨_, _, _, _, rfl, phase⟩ := quiet
  exact course.same rfl phase (Nat.le_refl _) (Nat.le_refl _)

theorem input_course (input : InputOnly before after) (course : Course before) : Course after := by
  obtain ⟨_, _, _, _, _, _, rfl, phase, roomy⟩ := input
  have room := roomy course.roomy
  refine ⟨room, ?_, ?_⟩
  · rw [ClosedAfterOpened, phase]
    exact course.alternates
  · rw [phase]
    exact course.opened

theorem output_course (output : OutputOnly before after) (course : Course before) :
    Course after := by
  obtain ⟨_, _, _, _, _, _, _, rfl, phase⟩ := output
  exact course.same rfl phase (Nat.le_refl _) (Nat.le_refl _)

theorem writes_course {answers : Answers} (writes : Writes answers before after)
    (course : Course before) (linked : before.socket = before.state.hasSocket)
    (quietly : before.Reportable → SendResult.error ∉ answers.sends) : Course after := by
  cases writes with
  | established => exact course.same rfl rfl (Nat.le_refl _) (Nat.le_refl _)
  | refused _ _ failed => exact suppressed_course failed course.roomy course.alternates
  | sends _ moved _ ended =>
      have sent := output_course moved.output course
      obtain ⟨_, _, _, _, _, _, _, rfl, _⟩ := moved.output
      cases ended with
      | drained | paused => exact sent.same rfl rfl (Nat.le_refl _) (Nat.le_refl _)
      | failed cause _ failed =>
          apply failed_course failed sent.roomy sent.alternates
          intro reported
          apply sent.opened
          by_contra unopened
          have login : before.Reportable := reports_reportable reported linked unopened
          rcases cause with ⟨closed, _⟩ | ⟨_, error⟩
          · simp [reports, closed] at reported
          · exact quietly login error

theorem flushes_course {answers : Answers} (flushes : Flushes answers before after)
    (course : Course before) (linked : before.socket = before.state.hasSocket)
    (quietly : before.Reportable → SendResult.error ∉ answers.sends) : Course after := by
  cases flushes with
  | nothing => exact course
  | marks => exact course.same rfl rfl (Nat.le_refl _) (Nat.le_refl _)
  | writes _ _ wrote =>
      have launched : Course before.launched :=
        course.same rfl rfl (Nat.le_refl _) (Nat.le_refl _)
      exact writes_course wrote launched linked quietly

theorem tries_course {attempts : List Attempt} (tries : Tries attempts before after)
    (course : Course before) : Course after := by
  have trying : ∀ {middle}, Quiet before middle → Course middle.trying := by
    intro middle quiet
    have kept := quiet_course quiet course
    exact kept.unopened State.noConfusion rfl ⟨kept.roomy.1, kept.roomy.2⟩
  cases tries with
  | established _ quiet | inProgress quiet =>
      have kept := trying quiet
      exact kept.unopened State.noConfusion rfl ⟨kept.roomy.1, kept.roomy.2⟩
  | refused quiet failed =>
      exact suppressed_course failed (trying quiet).roomy (trying quiet).alternates
  | exhausted quiet =>
      have kept := quiet_course quiet course
      exact kept.unopened State.noConfusion rfl ⟨kept.roomy.1, kept.roomy.2⟩

theorem opens_course {parseCs : Bytes → CsParts} {answers : Answers} {delay : Int}
    (opens : Opens parseCs answers delay before after) (course : Course before) :
    Course after := by
  have prepared : Course (before.prepared parseCs) :=
    course.same rfl rfl (Nat.le_refl _) (Nat.le_refl _)
  cases opens with
  | rejected quiet => exact quiet_course quiet course
  | delayed => exact course.same rfl rfl (Nat.le_refl _) (Nat.le_refl _)
  | prepares _ _ quiet => exact quiet_course quiet prepared
  | resolves =>
      exact course.unopened State.noConfusion rfl ⟨course.roomy.1, course.roomy.2⟩
  | tries _ _ tried => exact tries_course tried prepared

theorem ticks_course {parseCs : Bytes → CsParts} {answers : Answers}
    (ticks : Ticks parseCs answers before after) (course : Course before)
    (linked : before.socket = before.state.hasSocket)
    (quietly : before.EndsQuietly (.tick1sec, answers)) : Course after := by
  have counted : ∀ count, Course { before with autoreconnectTicksCounter := count } :=
    fun _ => course.same rfl rfl (Nat.le_refl _) (Nat.le_refl _)
  cases ticks with
  | reopens _ _ opens => exact opens_course opens (counted _)
  | expires armed expired _ failed =>
      apply failed_course failed course.roomy course.alternates
      intro reported
      apply course.opened
      by_contra unopened
      rcases quietly (reports_reportable reported linked unopened) with idle | early
      · exact absurd armed (not_le.mpr idle)
      · exact absurd expired (not_le.mpr early)
  | counts _ quiet => exact quiet_course quiet (counted _)
  | flushes _ state _ reported flushed idle =>
      apply quiet_course idle
      have noted := quiet_course reported (counted _)
      obtain ⟨_, _, _, _, rfl, _⟩ := reported
      apply flushes_course flushed noted linked
      rintro ⟨_, login⟩
      change before.state.isLogin = true at login
      rw [state] at login
      cases login

theorem handshakes_course {answers : Answers} (handshakes : Handshakes answers before after)
    (course : Course before) (linked : before.socket = before.state.hasSocket)
    (unsent : before.Reportable → SendResult.error ∉ answers.sends)
    (callback : before.callbacks.opened = true) : Course after := by
  have cleared : (before.receiveBuffer.clear).capacity = before.receiveBuffer.capacity :=
    OwnedBuffer.clear_capacity _
  have roomy : before.clearReceiveBuffer.Roomy := ⟨cleared ▸ course.roomy.1, course.roomy.2⟩
  cases handshakes with
  | abandons lapsed failed =>
      obtain ⟨_, _, _, _, _, _, notes, rfl, phase, _⟩ := lapsed
      apply suppressed_course failed ⟨roomy.1, roomy.2⟩
      rw [ClosedAfterOpened, phase]
      exact course.alternates
  | @authenticates proto code send _ state _ _ _ wrote =>
      have asked : Course (before.challenged proto code send) :=
        course.unopened State.noConfusion rfl ⟨roomy.1, roomy.2⟩
      apply writes_course wrote asked
      · change before.socket = true
        rw [linked, state]
        rfl
      · rintro ⟨closed, _⟩
        apply unsent ⟨closed, _⟩
        rw [state]
        rfl
  | opens _ phase =>
      rw [callback, if_pos rfl] at phase
      refine ⟨⟨roomy.1, roomy.2⟩, ?_, fun _ => ⟨_, phase⟩⟩
      exact course.alternates.append phase Note.noConfusion

theorem reads_course {answers : Answers} (reads : Reads answers before after)
    (course : Course before) (linked : before.socket = before.state.hasSocket)
    (quietly : before.EndsQuietly (.read, answers)) : Course after := by
  obtain ⟨ongoing, unsent, callback⟩ := quietly
  have arrived : ∀ {buffer bytes}, before.Receives buffer bytes →
      Course (before.arrived buffer bytes) := fun receives =>
    course.same rfl rfl receives.room (Nat.le_refl _)
  cases reads with
  | nothing => exact course
  | ended receives met failed =>
      have received := arrived receives
      apply failed_course failed received.roomy received.alternates
      intro reported
      apply received.opened
      by_contra unopened
      exact met course.roomy (ongoing (reports_reportable reported linked unopened))
  | waits receives => exact arrived receives
  | @greets buffer bytes send _ receives state _ _ wrote =>
      have greeted : Course ((before.arrived buffer bytes).greeted send) := by
        have received := arrived receives
        refine received.unopened State.noConfusion rfl ⟨?_, received.roomy.input⟩
        change 2 ≤ buffer.clear.capacity
        rw [OwnedBuffer.clear_capacity]
        exact received.roomy.receive
      apply writes_course wrote greeted
      · exact receives.socket
      · rintro ⟨closed, _⟩
        apply unsent closed
        rw [state]
        rfl
  | holds receives _ input => exact input_course input (arrived receives)
  | handshakes receives during input _ shaken =>
      have found := input_course input (arrived receives)
      obtain ⟨_, _, _, _, _, _, rfl, _⟩ := input
      have login : before.state.isLogin = true ∧ before.state.isHandshake = true := by
        rcases during with state | state <;> rw [state] <;> exact ⟨rfl, rfl⟩
      apply handshakes_course shaken found linked
      · exact fun reportable => unsent reportable.1 login.2
      · exact callback login.1

end Outcomes

section Runs
variable (mp : Msgpuck) (crypto : Crypto) (parseCs : Bytes → CsParts)

theorem turns_course {event : Event × Answers} {before after : Conn}
    (turns : Turns parseCs event before after) (course : Course before)
    (linked : before.socket = before.state.hasSocket) (quietly : before.EndsQuietly event) :
    Course after := by
  cases turns with
  | opens opens => exact opens_course opens course
  | closes phase =>
      apply closed_course _ _ _ course.roomy course.alternates phase
      intro reported
      apply course.opened
      by_contra unopened
      have kept := quietly (reports_reportable reported linked unopened)
      exact absurd (kept.symm.trans (reports_handler reported)) Bool.false_ne_true
  | rests quiet => exact quiet_course quiet course
  | listens | appends | reserves | requests =>
      exact course.same rfl rfl (Nat.le_refl _) (Nat.le_refl _)
  | flushes flushed => exact flushes_course flushed course linked quietly
  | processes => exact input_course (input_processed_input _ before) course
  | ticks ticked => exact ticks_course ticked course linked quietly
  | reads read => exact reads_course read course linked quietly
  | writes wrote => exact writes_course wrote course linked quietly
  | resolves _ _ tried =>
      exact tries_course tried (course.same rfl rfl (Nat.le_refl _) (Nat.le_refl _))
  | ignores => exact course.same rfl rfl (Nat.le_refl _) (Nat.le_refl _)
  | lapses _ phase =>
      exact course.unopened State.noConfusion phase ⟨course.roomy.1, course.roomy.2⟩

theorem initial_course (cs : Bytes) (callbacks : Callbacks) :
    Course (Conn.initial cs callbacks) where
  roomy := ⟨OwnedBuffer.of_size_roomy (by decide), OwnedBuffer.of_size_roomy (by decide)⟩
  alternates := by
    intro front back shape
    have none : [] = front ++ Note.closed :: back := shape
    exact absurd none.symm (List.append_ne_nil_of_right_ne_nil _ (List.cons_ne_nil _ _))
  opened := State.noConfusion

/-- The closed callback is called only when the last call before it was one of
the opened callback, in every run without a reported end during a login. -/
theorem closed_after_opened (cs : Bytes) (callbacks : Callbacks) (conn : Conn)
    (events : List (Event × Answers))
    (run : Run (step mp crypto parseCs) (fun conn event =>
      conn.Polled event ∧ conn.EndsQuietly event) (Conn.initial cs callbacks) events conn) :
    ∀ front back, phases conn.notes = front ++ .closed :: back →
      ∃ earlier, front = earlier ++ [.opened] := by
  have held : Linked conn ∧ Course conn := by
    apply linked_invariant mp crypto parseCs run
    · exact fun _ _ admitted => admitted.1
    · exact initial_course cs callbacks
    · intro before event after linked course admitted done
      exact turns_course parseCs (step_turns mp crypto parseCs event before after done) course
        linked.socket admitted.2
  exact held.2.alternates

end Runs

def streamEnds : Event × Answers := (.read, { recvs := [.bytes []] })

theorem stream_end_closes (conn : Conn) (socket : conn.socket = true)
    (session : conn.state ≠ .connecting) (callback : conn.callbacks.closed = true) :
    ∃ after, step reference sampleCrypto unixPath streamEnds conn = some after ∧
      phases after.notes = phases conn.notes ++ [.closed] := by
  obtain ⟨buffer, read⟩ := end_read reference sampleCrypto conn socket
  obtain ⟨extra, shape, _, phase⟩ := fail_shape { recvs := [.bytes []] }
    (ascii "connection closed by peer") .closedByPeer true (conn.arrived buffer [])
  have reported : (conn.arrived buffer []).reports true = true := by
    simp [reports, Conn.arrived, taken, socket, session, callback]
  refine ⟨_, read, ?_⟩
  rw [shape]
  change phases (conn.notes ++ extra) = _
  rw [phases_append, phase, if_pos reported]

/-- Opened, then closed by the peer. -/
theorem closed_after_opened_login : ∃ conn : Conn, phases conn.notes = [.opened, .closed] ∧
    ∀ front back, phases conn.notes = front ++ .closed :: back →
      ∃ earlier, front = earlier ++ [.opened] := by
  obtain ⟨buffer, queue, _, _, greeted, underway⟩ := at_socket_greeted unixPath
  obtain ⟨whole, established, opened, session, phase, shape⟩ := reply_opens reference_implements
    sampleCrypto { recvs := [.bytes (frame (bareHeader 0x8030))] } 0x8030 (by decide)
    .featuresRequest _ underway rfl (.inr ⟨rfl, .inl rfl, by decide⟩)
  obtain ⟨after, ended, closed⟩ := stream_end_closes established session.socket
    (session.state ▸ State.noConfusion) (shape ▸ rfl)
  have both : phases after.notes = [.opened, .closed] := by
    rw [closed, phase]
    rfl
  have unlogged : ∀ {state : State}, state.isLogin = false → ¬ state.isLogin = true := by
    intro state outside inside
    exact absurd (outside.symm.trans inside) Bool.false_ne_true
  refine ⟨after, both, ?_⟩
  apply closed_after_opened reference sampleCrypto unixPath [] acceptAll after
    [(.openConnection 0, { attempts := [.established] }), greetingArrives, unknownArrives,
      streamEnds]
  refine .cons ⟨trivial, trivial⟩ unix_established (.cons ⟨trivial, ?_⟩ greeted
    (.cons ⟨trivial, ?_⟩ opened (.cons ⟨trivial, ?_⟩ ended .nil)))
  · exact ⟨fun login => absurd login.2 (unlogged rfl), fun _ _ => by decide,
      fun login => absurd login (unlogged rfl)⟩
  · exact ⟨fun _ => by decide, fun _ _ => by decide, fun _ => rfl⟩
  · have outside : ¬ established.state.isLogin = true := unlogged (session.state ▸ rfl)
    exact ⟨fun login => absurd login.2 outside, fun _ _ => by decide,
      fun login => absurd login outside⟩

/-- The stream ends while the ID request is answered: closed without opened. -/
theorem closed_unopened : ∃ conn : Conn, Run (step reference sampleCrypto unixPath) Polled
    (Conn.initial [] acceptAll)
    [(.openConnection 0, { attempts := [.established] }), greetingArrives, streamEnds] conn ∧
    ¬ ∀ front back, phases conn.notes = front ++ .closed :: back →
      ∃ earlier, front = earlier ++ [.opened] := by
  obtain ⟨buffer, queue, _, _, greeted, underway⟩ := at_socket_greeted unixPath
  obtain ⟨after, ended, closed⟩ := stream_end_closes _ underway.socket
    (underway.state ▸ State.noConfusion) rfl
  refine ⟨after, .cons trivial unix_established (.cons trivial greeted (.cons trivial ended .nil)), ?_⟩
  intro alternates
  obtain ⟨earlier, shape⟩ := alternates [] [] closed
  exact absurd shape.symm (List.append_ne_nil_of_right_ne_nil _ (List.cons_ne_nil _ _))

end Conn

end Cpp2tnt
