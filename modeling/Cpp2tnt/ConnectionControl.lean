import Cpp2tnt.OutputProgress

/-!
State, socket, watch mode, resolver and reconnect counter. They are written in
about ten places; `Linked` says how they hang together after every event. A
poller delivers write events only while they are asked for.
-/

namespace Cpp2tnt
open Imperative MessagePack Transition

def State.hasSocket : State → Bool
  | .disconnected | .addressResolving => false
  | _ => true

def WatchMode.hasWrite : WatchMode → Bool
  | .write | .readWrite => true
  | _ => false

namespace Conn

structure Linked (conn : Conn) : Prop where
  socket : conn.socket = conn.state.hasSocket
  watched : conn.prevWatchMode = .none ↔ conn.socket = false
  resolving : conn.state = .addressResolving → conn.resolverJoinable = true
  joined : conn.resolverJoinable = true → conn.socket = false
  settled : conn.state = .connected → conn.autoreconnectTicksCounter = -1

/-- Write events come only while they are asked for. -/
def Polled (conn : Conn) : Event × Answers → Prop
  | (.write, _) => conn.prevWatchMode.hasWrite = true
  | _ => True

theorem Linked.writable {conn : Conn} (linked : Linked conn)
    (polled : conn.prevWatchMode.hasWrite = true) : conn.socket = true := by
  cases opened : conn.socket with
  | true => rfl
  | false =>
      rw [linked.watched.mpr opened] at polled
      cases polled

/-- The control fields hang together, and no resolver has been started. -/
structure Links (before after : Conn) : Prop where
  linked : Linked after
  started : after.resolversStarted = before.resolversStarted

theorem Links.trans {first second third : Conn} (left : Links first second)
    (right : Links second third) : Links first third :=
  ⟨right.linked, right.started.trans left.started⟩

section Outcomes
variable {before after : Conn}

theorem Linked.refl (linked : Linked before) : Links before before := ⟨linked, rfl⟩

theorem Linked.same (linked : Linked before) (socket : after.socket = before.socket)
    (state : after.state = before.state) (watch : after.prevWatchMode = before.prevWatchMode)
    (resolver : after.resolverJoinable = before.resolverJoinable)
    (ticks : before.state = .connected → after.autoreconnectTicksCounter = -1)
    (started : after.resolversStarted = before.resolversStarted) : Links before after := by
  refine ⟨⟨?_, ?_, ?_, ?_, ?_⟩, started⟩
  · rw [socket, state]
    exact linked.socket
  · rw [watch, socket]
    exact linked.watched
  · rw [state, resolver]
    exact linked.resolving
  · rw [resolver, socket]
    exact linked.joined
  · rw [state]
    exact ticks

theorem quiet_links (quiet : Quiet before after) (linked : Linked before) :
    Links before after := by
  obtain ⟨_, _, _, _, rfl, _⟩ := quiet
  exact linked.same rfl rfl rfl rfl linked.settled rfl

theorem input_links (input : InputOnly before after) (linked : Linked before) :
    Links before after := by
  obtain ⟨_, _, _, _, _, _, rfl, _⟩ := input
  exact linked.same rfl rfl rfl rfl linked.settled rfl

theorem output_links (output : OutputOnly before after) (linked : Linked before) :
    Links before after := by
  obtain ⟨_, _, _, _, _, _, _, rfl, _⟩ := output
  exact linked.same rfl rfl rfl rfl linked.settled rfl

theorem closed_links (delay : Int) (watched : before.prevWatchMode = .none ↔ before.socket = false) :
    Links before (before.closed delay) := by
  unfold closed
  split
  · exact ⟨⟨rfl, ⟨fun _ => rfl, fun _ => rfl⟩, State.noConfusion, fun _ => rfl, State.noConfusion⟩,
      rfl⟩
  · rename_i none
    have gone : before.socket = false := eq_false_of_ne_true none
    exact ⟨⟨gone, watched, State.noConfusion, fun _ => gone, State.noConfusion⟩, rfl⟩

theorem failed_links {handler : Bool} (failed : FailedBy handler before after)
    (watched : before.prevWatchMode = .none ↔ before.socket = false) : Links before after := by
  obtain ⟨extra, rfl, _⟩ := failed
  have closed := closed_links 0 watched
  apply closed.trans
  refine closed.linked.same rfl rfl rfl rfl ?_ rfl
  intro connected
  exact absurd ((closed_state 0 before).symm.trans connected) State.noConfusion

theorem watch_links (mode : WatchMode) (linked : Linked before) (socket : before.socket = true)
    (some : mode ≠ .none) : Links before (before.watchSocket mode) := by
  refine ⟨⟨linked.socket, ?_, linked.resolving, linked.joined, linked.settled⟩, rfl⟩
  constructor
  · exact fun none => absurd none some
  · exact fun closed => absurd (socket.symm.trans closed) Bool.noConfusion

theorem writes_links {answers : Answers} (writes : Writes answers before after)
    (linked : Linked before) (offers : before.socket = true ∨ before.sendBuffer.unsent ≠ []) :
    Links before after := by
  cases writes with
  | established _ socket => exact watch_links .read linked socket WatchMode.noConfusion
  | refused _ _ failed => exact failed_links failed linked.watched
  | @sends middle _ _ moved _ ended =>
      have sent := output_links moved.output linked
      have same : middle.socket = before.socket := by
        obtain ⟨_, _, _, _, _, _, _, rfl, _⟩ := moved.output
        rfl
      apply sent.trans
      cases ended with
      | drained _ ready =>
          have socket : before.socket = true := by
            rcases ready with socket | empty
            · exact socket
            · exact offers.resolve_right fun some => some empty
          exact watch_links .read sent.linked (same.trans socket) WatchMode.noConfusion
      | paused socket =>
          exact watch_links .readWrite sent.linked (same.trans socket) WatchMode.noConfusion
      | failed _ _ failed => exact failed_links failed sent.linked.watched

theorem flushes_links {answers : Answers} (flushes : Flushes answers before after)
    (linked : Linked before) : Links before after := by
  cases flushes with
  | nothing => exact linked.refl
  | marks => exact linked.same rfl rfl rfl rfl linked.settled rfl
  | writes some _ wrote =>
      have launched : Links before before.launched := linked.same rfl rfl rfl rfl linked.settled rfl
      exact launched.trans (writes_links wrote launched.linked (.inr some))

theorem tries_links {attempts : List Attempt} (tries : Tries attempts before after)
    (socket : before.socket = false) (watched : before.prevWatchMode = .none)
    (free : before.resolverJoinable = false) : Links before after := by
  have none : ∀ other : Bool, before.resolverJoinable = true → other = false := by
    intro _ joinable
    exact absurd (free.symm.trans joinable) Bool.noConfusion
  cases tries with
  | established _ quiet =>
      obtain ⟨_, _, _, _, rfl, _⟩ := quiet
      exact ⟨⟨rfl, ⟨WatchMode.noConfusion, Bool.noConfusion⟩, State.noConfusion, none _,
        State.noConfusion⟩, rfl⟩
  | inProgress quiet =>
      obtain ⟨_, _, _, _, rfl, _⟩ := quiet
      exact ⟨⟨rfl, ⟨WatchMode.noConfusion, Bool.noConfusion⟩, State.noConfusion, none _,
        State.noConfusion⟩, rfl⟩
  | refused quiet failed =>
      obtain ⟨_, _, _, _, rfl, _⟩ := quiet
      have ended := failed_links failed ⟨fun _ => socket, fun _ => watched⟩
      exact ⟨ended.linked, ended.started⟩
  | exhausted quiet =>
      obtain ⟨_, _, _, _, rfl, _⟩ := quiet
      exact ⟨⟨socket, ⟨fun _ => socket, fun _ => watched⟩, State.noConfusion, fun _ => socket,
        State.noConfusion⟩, rfl⟩

/-- Only `open()` starts a resolver, and only when there is none. -/
theorem opens_links {parseCs : Bytes → CsParts} {answers : Answers} {delay : Int}
    (opens : Opens parseCs answers delay before after) (linked : Linked before) :
    Linked after ∧ (before.resolverJoinable = true →
      after.resolversStarted = before.resolversStarted) := by
  have idle : before.state = .disconnected → before.socket = false := by
    intro state
    rw [linked.socket, state]
    rfl
  have prepared : before.state = .disconnected → Linked (before.prepared parseCs) := by
    intro state
    have ready : Links before (before.prepared parseCs) := by
      refine linked.same rfl rfl rfl rfl ?_ rfl
      intro connected
      exact absurd (state.symm.trans connected) State.noConfusion
    exact ready.linked
  cases opens with
  | rejected quiet =>
      have kept := quiet_links quiet linked
      exact ⟨kept.linked, fun _ => kept.started⟩
  | delayed state =>
      refine ⟨⟨linked.socket, linked.watched, linked.resolving, linked.joined, ?_⟩, fun _ => rfl⟩
      intro connected
      exact absurd (state.symm.trans connected) State.noConfusion
  | prepares state _ quiet =>
      have kept := quiet_links quiet (prepared state)
      exact ⟨kept.linked, fun _ => kept.started⟩
  | resolves state free =>
      refine ⟨⟨idle state, linked.watched, fun _ => rfl, fun _ => idle state, State.noConfusion⟩, ?_⟩
      intro joinable
      exact absurd (free.symm.trans joinable) Bool.noConfusion
  | tries state free tried =>
      have kept := tries_links tried (idle state) (linked.watched.mpr (idle state)) free
      exact ⟨kept.linked, fun _ => kept.started⟩

theorem ticks_links {parseCs : Bytes → CsParts} {answers : Answers}
    (ticks : Ticks parseCs answers before after) (linked : Linked before) :
    Linked after ∧ (before.resolverJoinable = true →
      after.resolversStarted = before.resolversStarted) := by
  have counted : ∀ count, before.Counted count →
      Links before { before with autoreconnectTicksCounter := count } := by
    intro count counted
    refine linked.same rfl rfl rfl rfl ?_ rfl
    intro connected
    rcases counted with ⟨_, same⟩ | ⟨armed, _⟩
    · exact same.trans (linked.settled connected)
    · rw [linked.settled connected] at armed
      exact absurd armed (by decide)
  cases ticks with
  | reopens armed state opens =>
      have waiting : Linked { before with
          autoreconnectTicksCounter := before.autoreconnectTicksCounter + 1 } := by
        refine ⟨linked.socket, linked.watched, linked.resolving, linked.joined, ?_⟩
        intro connected
        exact absurd (state.symm.trans connected) State.noConfusion
      have reopened := opens_links opens waiting
      exact reopened
  | expires _ _ _ failed =>
      have ended := failed_links failed linked.watched
      exact ⟨ended.linked, fun _ => ended.started⟩
  | counts count quiet =>
      have kept := (counted _ count).trans (quiet_links quiet (counted _ count).linked)
      exact ⟨kept.linked, fun _ => kept.started⟩
  | flushes count _ _ reported flushed idle =>
      have started := (counted _ count).trans (quiet_links reported (counted _ count).linked)
      have sent := started.trans (flushes_links flushed started.linked)
      have kept := sent.trans (quiet_links idle sent.linked)
      exact ⟨kept.linked, fun _ => kept.started⟩

theorem Linked.moves (linked : Linked before) (open_socket : before.socket = true)
    (socket : after.socket = before.socket) (state : after.state.hasSocket = true)
    (watch : after.prevWatchMode = before.prevWatchMode)
    (resolver : after.resolverJoinable = before.resolverJoinable)
    (ticks : after.state = .connected → after.autoreconnectTicksCounter = -1)
    (started : after.resolversStarted = before.resolversStarted) : Links before after := by
  refine ⟨⟨?_, ?_, ?_, ?_, ticks⟩, started⟩
  · rw [socket, open_socket, state]
  · rw [watch, socket]
    exact linked.watched
  · intro resolving
    rw [resolving] at state
    exact absurd state Bool.false_ne_true
  · rw [resolver, socket]
    exact linked.joined

theorem handshakes_links {answers : Answers} (handshakes : Handshakes answers before after)
    (socket : before.socket = true) (linked : Linked before) : Links before after := by
  cases handshakes with
  | abandons lapsed failed =>
      obtain ⟨_, _, _, _, _, _, _, rfl, _⟩ := lapsed
      have ended := failed_links failed linked.watched
      exact ⟨ended.linked, ended.started⟩
  | @authenticates proto code send _ _ _ _ _ wrote =>
      have asked : Links before (before.challenged proto code send) :=
        linked.moves socket rfl rfl rfl rfl State.noConfusion rfl
      exact asked.trans (writes_links wrote asked.linked (.inl socket))
  | opens => exact linked.moves socket rfl rfl rfl rfl (fun _ => rfl) rfl

theorem reads_links {answers : Answers} (reads : Reads answers before after)
    (linked : Linked before) : Links before after := by
  have arrived : ∀ buffer bytes, Links before (before.arrived buffer bytes) :=
    fun _ _ => linked.same rfl rfl rfl rfl linked.settled rfl
  cases reads with
  | nothing => exact linked.refl
  | ended _ _ failed => exact (arrived _ _).trans (failed_links failed linked.watched)
  | waits => exact arrived _ _
  | @greets buffer bytes send _ receives _ _ _ wrote =>
      have asked : Links before ((before.arrived buffer bytes).greeted send) :=
        linked.moves receives.socket rfl rfl rfl rfl State.noConfusion rfl
      exact asked.trans (writes_links wrote asked.linked (.inl receives.socket))
  | @holds buffer bytes _ _ _ input =>
      exact (arrived buffer bytes).trans (input_links input (arrived buffer bytes).linked)
  | @handshakes buffer bytes _ _ receives _ input _ shaken =>
      have found := (arrived buffer bytes).trans (input_links input (arrived buffer bytes).linked)
      apply found.trans
      obtain ⟨_, _, _, _, _, _, rfl, _⟩ := input
      exact handshakes_links shaken receives.socket found.linked

end Outcomes

section Runs
variable (mp : Msgpuck) (crypto : Crypto) (parseCs : Bytes → CsParts)

theorem step_links (event : Event × Answers) (before after : Conn) (linked : Linked before)
    (polled : before.Polled event) (done : step mp crypto parseCs event before = some after) :
    Linked after ∧ (before.resolverJoinable = true →
      after.resolversStarted = before.resolversStarted) := by
  have kept : Links before after → Linked after ∧ (before.resolverJoinable = true →
      after.resolversStarted = before.resolversStarted) := fun links =>
    ⟨links.linked, fun _ => links.started⟩
  cases step_turns mp crypto parseCs event before after done with
  | opens opened => exact opens_links opened linked
  | @closes _ _ delay =>
      have closed := closed_links delay linked.watched
      exact kept (closed.trans
        (closed.linked.same rfl rfl rfl rfl closed.linked.settled rfl))
  | rests quiet => exact kept (quiet_links quiet linked)
  | listens | appends | reserves | requests =>
      exact kept (linked.same rfl rfl rfl rfl linked.settled rfl)
  | flushes flushed => exact kept (flushes_links flushed linked)
  | @processes answers => exact kept (input_links (input_processed_input answers before) linked)
  | ticks ticked => exact ticks_links ticked linked
  | reads received => exact kept (reads_links received linked)
  | writes wrote => exact kept (writes_links wrote linked (.inl (linked.writable polled)))
  | resolves joinable _ tried =>
      have closed := linked.joined joinable
      have kept_links := tries_links tried closed (linked.watched.mpr closed) rfl
      exact kept ⟨kept_links.linked, kept_links.started⟩
  | ignores joinable state =>
      have closed := linked.joined joinable
      refine kept ⟨⟨linked.socket, linked.watched, ?_, fun _ => closed, linked.settled⟩, rfl⟩
      exact fun resolving => absurd resolving state
  | lapses joinable =>
      have closed := linked.joined joinable
      exact kept ⟨⟨closed, linked.watched, State.noConfusion, fun _ => closed,
        State.noConfusion⟩, rfl⟩

theorem initial_linked (cs : Bytes) (callbacks : Callbacks) :
    Linked (Conn.initial cs callbacks) where
  socket := rfl
  watched := ⟨fun _ => rfl, fun _ => rfl⟩
  resolving := State.noConfusion
  joined := fun _ => rfl
  settled := State.noConfusion

theorem linked_invariant {allowed : Conn → Event × Answers → Prop} {invariant : Conn → Prop}
    {cs : Bytes} {callbacks : Callbacks} {conn : Conn} {events : List (Event × Answers)}
    (run : Run (step mp crypto parseCs) allowed (Conn.initial cs callbacks) events conn)
    (polled : ∀ before event, allowed before event → before.Polled event)
    (initial : invariant (Conn.initial cs callbacks))
    (kept : ∀ before event after, Linked before → invariant before → allowed before event →
      step mp crypto parseCs event before = some after → invariant after) :
    Linked conn ∧ invariant conn := by
  apply run.invariant ⟨initial_linked cs callbacks, initial⟩
  rintro before event after ⟨linked, held⟩ admitted done
  constructor
  · exact (step_links mp crypto parseCs event before after linked (polled _ _ admitted) done).1
  · exact kept before event after linked held admitted done

/-- The contract of the callers: the poller calls for writing when asked, the
owner only appends to the output buffer. -/
def Driven (conn : Conn) (event : Event × Answers) : Prop :=
  conn.AppendsOnly event ∧ conn.Polled event

theorem run_linked (cs : Bytes) (callbacks : Callbacks) (conn : Conn)
    (events : List (Event × Answers))
    (run : Run (step mp crypto parseCs) Driven (Conn.initial cs callbacks) events conn) :
    Linked conn ∧ Progress conn := by
  apply linked_invariant mp crypto parseCs run
  · exact fun _ _ driven => driven.2
  · exact initial_progress cs callbacks
  · intro before event after _ progress driven done
    exact step_progress mp crypto parseCs event before after progress driven.1 done

theorem tick_stays (answers : Answers) (before after : Conn) (linked : Linked before)
    (progress : Progress before) (state : before.state = .connected)
    (done : before.tick1sec parseCs answers = some after) :
    after.state = .connected ∧ after.socket = before.socket := by
  have ticks := linked.settled state
  cases tick_ticks parseCs answers before after done with
  | reopens armed =>
      rw [ticks] at armed
      exact absurd armed (by decide)
  | expires armed =>
      rw [ticks] at armed
      exact absurd armed (by decide)
  | counts _ quiet =>
      obtain ⟨_, _, _, _, rfl, _⟩ := quiet
      exact ⟨state, rfl⟩
  | flushes _ _ corked reported flushed idle =>
      obtain ⟨_, _, _, _, rfl, _⟩ := reported
      obtain ⟨_, _, _, _, rfl, _⟩ := idle
      cases flushed with
      | nothing => exact ⟨state, rfl⟩
      | marks => exact ⟨state, rfl⟩
      | writes _ drained => exact absurd drained (progress.marked corked)

/-- In every reachable state the socket is open exactly in the states of an
attempt or a session, a watch mode is requested exactly then, address resolving
has its resolver and no second one is started beside it, and an established
connection has no timeout. -/
theorem connection_linked (cs : Bytes) (callbacks : Callbacks) (conn : Conn)
    (events : List (Event × Answers))
    (run : Run (step mp crypto parseCs) Driven (Conn.initial cs callbacks) events conn) :
    (conn.socket = true ↔ conn.state ∈
      [State.connecting, .featuresRequest, .authentication, .connected]) ∧
    (conn.prevWatchMode = .none ↔ conn.socket = false) ∧
    (conn.state = .addressResolving → conn.resolverJoinable = true) ∧
    (∀ event after, conn.Driven event → step mp crypto parseCs event conn = some after →
      conn.resolverJoinable = true → after.resolversStarted = conn.resolversStarted) ∧
    (conn.state = .connected → conn.autoreconnectTicksCounter = -1) ∧
    (∀ answers after, conn.state = .connected →
      step mp crypto parseCs (.tick1sec, answers) conn = some after →
      after.state = .connected ∧ after.socket = true) := by
  obtain ⟨linked, progress⟩ := run_linked mp crypto parseCs cs callbacks conn events run
  have socket : conn.socket = true ↔ conn.state ∈
      [State.connecting, .featuresRequest, .authentication, .connected] := by
    rw [linked.socket]
    cases conn.state <;> decide
  refine ⟨socket, linked.watched, linked.resolving, ?_, linked.settled, ?_⟩
  · intro event after driven done joinable
    exact (step_links mp crypto parseCs event conn after linked driven.2 done).2 joinable
  · intro answers after connected done
    obtain ⟨state, same⟩ := tick_stays parseCs answers conn after linked progress connected done
    refine ⟨state, same.trans ?_⟩
    rw [linked.socket, connected]
    rfl

end Runs

def hostName : Bytes → CsParts := fun _ => ⟨[], [], [], ascii "tnt", []⟩

theorem unix_established : step reference ⟨id, fun _ _ => []⟩ unixPath
    (.openConnection 0, { attempts := [.established] }) (Conn.initial [] acceptAll) =
      some (((Conn.initial [] acceptAll).prepared unixPath).trying.startSession .read) := rfl

theorem connection_linked_connecting : ∃ conn : Conn, conn.state = .connecting ∧
    (conn.socket = true ↔ conn.state ∈
      [State.connecting, .featuresRequest, .authentication, .connected]) ∧
    (conn.prevWatchMode = .none ↔ conn.socket = false) := by
  have run : Run (step reference ⟨id, fun _ _ => []⟩ unixPath) Driven (Conn.initial [] acceptAll)
      [(.openConnection 0, { attempts := [.established] })] _ :=
    .snoc .nil ⟨trivial, trivial⟩ unix_established
  obtain ⟨socket, watched, _⟩ := connection_linked _ _ _ _ _ _ _ run
  exact ⟨_, rfl, socket, watched⟩

/-- What may happen when the caller leaves a closed connection alone. -/
def LeftAlone (conn : Conn) : Event × Answers → Prop
  | (.openConnection _, _) | (.close _ _, _) | (.flush, _) => False
  | event => conn.Polled event

/-- The notification of a resolver, if there is one, is that of a success. -/
def NoLateFailure : Event × Answers → Prop
  | (.resolveFailed _, _) => False
  | _ => True

/-- Closed, and not to be opened again by a timer. -/
structure Cancelled (conn : Conn) : Prop where
  linked : Linked conn
  state : conn.state = .disconnected
  ticks : conn.autoreconnectTicksCounter = -1

section Cancelling
variable (mp : Msgpuck) (crypto : Crypto) (parseCs : Bytes → CsParts)

theorem close_cancelled (answers : Answers) (handler : Bool) (delay : Int) (conn : Conn)
    (linked : Linked conn) (none : delay ≤ 0) : Cancelled (conn.close answers handler delay) := by
  obtain ⟨extra, shape, _⟩ := close_shape answers handler delay conn
  have idle : ¬ delay > 0 := not_lt.mpr none
  have closed := (closed_links delay linked.watched).linked
  have noted : Links (conn.closed delay) { conn.closed delay with notes := conn.notes ++ extra } :=
    closed.same rfl rfl rfl rfl closed.settled rfl
  rw [shape]
  refine ⟨noted.linked, conn.closed_state delay, ?_⟩
  simp only [Conn.closed]
  split
  · exact if_neg idle
  · exact if_neg idle

theorem LeftAlone.polled {conn : Conn} {event : Event × Answers} (alone : conn.LeftAlone event) :
    conn.Polled event := by
  obtain ⟨call, answers⟩ := event
  cases call with
  | openConnection | close | flush => exact alone.elim
  | setConnectionString | setRequiredProto | setCallbacks | append | reserve | request
  | inputProcessed | tick1sec | read | write | resolved | resolveFailed => exact alone

theorem ticks_unarmed {answers : Answers} {before after : Conn}
    (ticks : Ticks parseCs answers before after) (state : before.state = .disconnected)
    (unarmed : before.autoreconnectTicksCounter = -1) :
    after.state = .disconnected ∧ after.autoreconnectTicksCounter = -1 := by
  have idle : ¬ 0 ≤ before.autoreconnectTicksCounter := by
    rw [unarmed]
    decide
  cases ticks with
  | reopens armed | expires armed => exact absurd armed idle
  | counts counted quiet =>
      obtain ⟨_, _, _, _, rfl, _⟩ := quiet
      refine ⟨state, ?_⟩
      rcases counted with ⟨_, same⟩ | ⟨armed, _⟩
      · exact same.trans unarmed
      · exact absurd armed idle
  | flushes _ connected => exact absurd (state.symm.trans connected) State.noConfusion

theorem step_cancelled (event : Event × Answers) (before after : Conn)
    (cancelled : Cancelled before) (alone : before.LeftAlone event)
    (success : NoLateFailure event)
    (done : step mp crypto parseCs event before = some after) : Cancelled after := by
  have closed : before.socket = false := by
    rw [cancelled.linked.socket, cancelled.state]
    rfl
  have linked : Linked after :=
    (step_links mp crypto parseCs event before after cancelled.linked alone.polled done).1
  suffices still : after.state = .disconnected ∧ after.autoreconnectTicksCounter = -1 from
    ⟨linked, still.1, still.2⟩
  cases step_turns mp crypto parseCs event before after done with
  | opens | closes | flushes => exact alone.elim
  | lapses => exact success.elim
  | rests quiet =>
      obtain ⟨_, _, _, _, rfl, _⟩ := quiet
      exact ⟨cancelled.state, cancelled.ticks⟩
  | listens | appends | reserves | requests | ignores => exact ⟨cancelled.state, cancelled.ticks⟩
  | @processes answers =>
      obtain ⟨_, _, _, _, _, _, shape, _⟩ := input_processed_input answers before
      rw [shape]
      exact ⟨cancelled.state, cancelled.ticks⟩
  | ticks ticked => exact ticks_unarmed parseCs ticked cancelled.state cancelled.ticks
  | reads received =>
      have gone : ∀ {buffer bytes}, ¬ before.Receives buffer bytes := fun receives =>
        absurd (closed.symm.trans receives.socket) Bool.noConfusion
      cases received with
      | nothing => exact ⟨cancelled.state, cancelled.ticks⟩
      | ended receives | waits receives | greets receives | holds receives
      | handshakes receives => exact absurd receives gone
  | writes => exact absurd (closed.symm.trans (cancelled.linked.writable alone)) Bool.noConfusion
  | resolves _ resolving => exact absurd (cancelled.state.symm.trans resolving) State.noConfusion

/-- From any reachable state: after a `close()` without a delay the connection
stays closed and its timer unarmed, as long as no failure of the resolver is
handled afterwards. -/
theorem close_cancels (cs : Bytes) (callbacks : Callbacks) (reached conn : Conn)
    (events later : List (Event × Answers)) (answers : Answers) (handler : Bool) (delay : Int)
    (none : delay ≤ 0)
    (run : Run (step mp crypto parseCs) Driven (Conn.initial cs callbacks) events reached)
    (rest : Run (step mp crypto parseCs) (fun conn event =>
      conn.LeftAlone event ∧ NoLateFailure event) (reached.close answers handler delay) later conn) :
    conn.state = .disconnected ∧ conn.autoreconnectTicksCounter = -1 := by
  have linked := (run_linked mp crypto parseCs cs callbacks reached events run).1
  have cancelled : Cancelled conn := by
    apply rest.invariant (close_cancelled answers handler delay reached linked none)
    intro before event after held admitted done
    exact step_cancelled mp crypto parseCs event before after held admitted.1 admitted.2 done
  exact ⟨cancelled.state, cancelled.ticks⟩

end Cancelling

def resolvingHost : Conn :=
  { (Conn.initial [] acceptAll).prepared hostName with
    state := .addressResolving
    resolverJoinable := true
    resolversStarted := 1 }

theorem host_resolving : Run (step reference ⟨id, fun _ _ => []⟩ hostName) Driven
    (Conn.initial [] acceptAll) [(.openConnection 0, {})] resolvingHost :=
  .snoc .nil ⟨trivial, trivial⟩ rfl

theorem close_cancels_resolving : ∃ conn : Conn, conn.resolversStarted = 1 ∧
    conn.resolverJoinable = false ∧
    conn.state = .disconnected ∧ conn.autoreconnectTicksCounter = -1 := by
  have rest : Run (step reference ⟨id, fun _ _ => []⟩ hostName) (fun conn event =>
      conn.LeftAlone event ∧ NoLateFailure event) (resolvingHost.close {} true 0)
      [(.resolved, { attempts := [.established] })]
      { resolvingHost.close {} true 0 with resolverJoinable := false } :=
    .snoc .nil ⟨trivial, trivial⟩ rfl
  obtain ⟨state, ticks⟩ := close_cancels _ _ _ _ _ _ _ _ _ _ _ _ (Int.le_refl 0) host_resolving
    rest
  exact ⟨_, rfl, rfl, state, ticks⟩

/-- The resolver fails after the close: the timer is armed again. -/
theorem late_failure_rearms : ∃ reached conn : Conn,
    Run (step reference ⟨id, fun _ _ => []⟩ hostName) Driven (Conn.initial [] acceptAll)
      [(.openConnection 0, {})] reached ∧
    Run (step reference ⟨id, fun _ _ => []⟩ hostName) LeftAlone (reached.close {} true 0)
      [(.resolveFailed [], {})] conn ∧
    ¬ (conn.state = .disconnected ∧ conn.autoreconnectTicksCounter = -1) := by
  refine ⟨resolvingHost, _, host_resolving, .snoc .nil trivial rfl, ?_⟩
  rintro ⟨_, ticks⟩
  exact absurd ticks (by decide)

end Conn

end Cpp2tnt
