import Cpp2tnt.OutputStream
import Cpp2tnt.SessionStart

/-!
Output never gets stuck. `Progress` says that a flush mark lies in the output
buffer and has unsent bytes before it, and that a session with unsent bytes asks
to be called for writing. It holds after every event, whatever the caller, the
server and the socket do, as long as the caller does not cut the output buffer.
-/

namespace Cpp2tnt
open Imperative MessagePack Transition

/-- The states of a session whose requests are sent. -/
def State.isSession : State → Bool
  | .featuresRequest | .authentication | .connected => true
  | _ => false

namespace Conn

structure Progress (conn : Conn) : Prop where
  within : conn.Within
  marked : conn.Marked
  watched : conn.socket = true → conn.state.isSession = true → conn.sendBuffer.unsent ≠ [] →
    conn.prevWatchMode = .readWrite

/-- The caller only appends to the output buffer. -/
def AppendsOnly (conn : Conn) : Event × Answers → Prop
  | (.request encode, _) => ∀ after, conn.request encode = some after →
      conn.outputBuffer.content <+: after.outputBuffer.content
  | _ => True

section Outcomes
variable {before after : Conn}

theorem quiet_progress (quiet : Quiet before after) (progress : Progress before) :
    Progress after := by
  obtain ⟨_, _, _, _, rfl, _⟩ := quiet
  exact ⟨progress.within, progress.marked, progress.watched⟩

theorem input_progress (input : InputOnly before after) (progress : Progress before) :
    Progress after := by
  obtain ⟨_, _, _, _, _, _, rfl, _⟩ := input
  exact ⟨progress.within, progress.marked, progress.watched⟩

theorem closed_progress (delay : Int) (kept : before.socket = false → before.Within ∧ before.Marked) :
    Progress (before.closed delay) := by
  unfold closed
  split
  · exact ⟨Nat.zero_le _, fun corked => absurd rfl corked, fun socket => absurd socket Bool.false_ne_true⟩
  · rename_i none
    obtain ⟨within, marked⟩ := kept (eq_false_of_ne_true none)
    exact ⟨within, marked, fun _ session => absurd session Bool.false_ne_true⟩

theorem failed_progress {handler : Bool} (failed : FailedBy handler before after)
    (kept : before.socket = false → before.Within ∧ before.Marked) : Progress after := by
  obtain ⟨extra, rfl, _⟩ := failed
  have closed := closed_progress 0 kept
  exact ⟨closed.within, closed.marked, closed.watched⟩

theorem writes_progress {answers : Answers} (writes : Writes answers before after)
    (within : before.Within) (marked : before.Marked) : Progress after := by
  cases writes with
  | established state =>
      refine ⟨within, marked, ?_⟩
      intro _ session
      change before.state.isSession = true at session
      rw [state] at session
      cases session
  | refused _ _ failed => exact failed_progress failed fun _ => ⟨within, marked⟩
  | sends _ moved kept ended =>
      have inside := moved.within within
      cases ended with
      | drained empty => exact ⟨inside, kept marked, fun _ _ some => absurd empty some⟩
      | paused => exact ⟨inside, kept marked, fun _ _ _ => rfl⟩
      | failed _ _ failed => exact failed_progress failed fun _ => ⟨inside, kept marked⟩

theorem flushes_progress {answers : Answers} (flushes : Flushes answers before after)
    (progress : Progress before) : Progress after := by
  cases flushes with
  | nothing => exact progress
  | marks _ some => exact ⟨Nat.le_refl _, fun _ => some, progress.watched⟩
  | writes _ _ wrote =>
      exact writes_progress wrote (Nat.zero_le _) fun corked => absurd rfl corked

theorem tries_progress {attempts : List Attempt} (tries : Tries attempts before after)
    (progress : Progress before) : Progress after := by
  have idle : ∀ {state : State}, state.isSession = false → ¬ state.isSession = true := by
    intro state none session
    exact absurd (none.symm.trans session) Bool.false_ne_true
  cases tries with
  | established _ quiet =>
      have kept := quiet_progress quiet progress
      exact ⟨kept.within, kept.marked, fun _ session => absurd session (idle rfl)⟩
  | inProgress quiet =>
      have kept := quiet_progress quiet progress
      exact ⟨kept.within, kept.marked, fun _ session => absurd session (idle rfl)⟩
  | refused quiet failed =>
      have kept := quiet_progress quiet progress
      exact failed_progress failed fun _ => ⟨kept.within, kept.marked⟩
  | exhausted quiet =>
      have kept := quiet_progress quiet progress
      exact ⟨kept.within, kept.marked, fun _ session => absurd session (idle rfl)⟩

theorem opens_progress {parseCs : Bytes → CsParts} {answers : Answers} {delay : Int}
    (opens : Opens parseCs answers delay before after) (progress : Progress before) :
    Progress after := by
  have prepared : Progress (before.prepared parseCs) :=
    ⟨progress.within, progress.marked, progress.watched⟩
  cases opens with
  | rejected quiet => exact quiet_progress quiet progress
  | delayed => exact ⟨progress.within, progress.marked, progress.watched⟩
  | prepares _ _ quiet => exact quiet_progress quiet prepared
  | resolves =>
      exact ⟨progress.within, progress.marked, fun _ session => absurd session Bool.false_ne_true⟩
  | tries _ _ tried => exact tries_progress tried prepared

theorem ticks_progress {parseCs : Bytes → CsParts} {answers : Answers}
    (ticks : Ticks parseCs answers before after) (progress : Progress before) :
    Progress after := by
  have counted : ∀ count, Progress { before with autoreconnectTicksCounter := count } :=
    fun _ => ⟨progress.within, progress.marked, progress.watched⟩
  cases ticks with
  | reopens _ _ opens => exact opens_progress opens (counted _)
  | expires _ _ _ failed => exact failed_progress failed fun _ => ⟨progress.within, progress.marked⟩
  | counts _ quiet => exact quiet_progress quiet (counted _)
  | flushes _ _ _ reported flushed idle =>
      exact quiet_progress idle (flushes_progress flushed (quiet_progress reported (counted _)))

theorem asks_marked {conn : Conn} {send : SendBuffer} (asks : conn.Asks send)
    (queued : before.sendBuffer = send) : before.Marked := by
  intro _
  rw [queued]
  exact asks.some

theorem handshakes_progress {answers : Answers} (handshakes : Handshakes answers before after)
    (state : before.state = .featuresRequest ∨ before.state = .authentication)
    (socket : before.socket = true) (progress : Progress before) : Progress after := by
  cases handshakes with
  | abandons lapsed failed =>
      obtain ⟨_, _, _, _, _, _, _, rfl, _⟩ := lapsed
      apply failed_progress failed
      intro closed
      exact absurd (socket.symm.trans closed) Bool.noConfusion
  | authenticates _ _ _ asks wrote => exact writes_progress wrote progress.within (asks_marked asks rfl)
  | opens =>
      refine ⟨progress.within, progress.marked, ?_⟩
      intro socket _
      apply progress.watched socket
      rcases state with features | authentication
      · rw [features]
        rfl
      · rw [authentication]
        rfl

theorem reads_progress {answers : Answers} (reads : Reads answers before after)
    (progress : Progress before) : Progress after := by
  have arrived : ∀ buffer bytes, Progress (before.arrived buffer bytes) :=
    fun _ _ => ⟨progress.within, progress.marked, progress.watched⟩
  cases reads with
  | nothing => exact progress
  | ended _ _ failed => exact failed_progress failed fun _ => ⟨progress.within, progress.marked⟩
  | waits => exact arrived _ _
  | greets _ _ _ asks wrote => exact writes_progress wrote progress.within (asks_marked asks rfl)
  | holds _ _ input => exact input_progress input (arrived _ _)
  | handshakes receives during input _ shaken =>
      have found := input_progress input (arrived _ _)
      obtain ⟨_, _, _, _, _, _, rfl, _⟩ := input
      exact handshakes_progress shaken during receives.socket found

end Outcomes

section Runs
variable (mp : Msgpuck) (crypto : Crypto) (parseCs : Bytes → CsParts)

theorem grown_progress (output : OwnedBuffer OutByte) (id : UInt64) (issued : Nat) (conn : Conn)
    (progress : Progress conn) (grows : conn.outputBuffer.content <+: output.content) :
    Progress { conn with outputBuffer := output, requestId := id, requestsIssued := issued } :=
  ⟨Nat.le_trans progress.within grows.length_le, progress.marked, progress.watched⟩

theorem step_progress (event : Event × Answers) (before after : Conn) (progress : Progress before)
    (appends : before.AppendsOnly event)
    (done : step mp crypto parseCs event before = some after) : Progress after := by
  cases step_turns mp crypto parseCs event before after done with
  | opens opened => exact opens_progress opened progress
  | @closes _ _ delay =>
      have closed := closed_progress delay fun _ => ⟨progress.within, progress.marked⟩
      exact ⟨closed.within, closed.marked, closed.watched⟩
  | rests quiet => exact quiet_progress quiet progress
  | listens => exact ⟨progress.within, progress.marked, progress.watched⟩
  | appends =>
      exact grown_progress _ before.requestId before.requestsIssued before progress
        (List.prefix_append _ _)
  | reserves =>
      exact grown_progress _ before.requestId before.requestsIssued before progress
        (List.prefix_refl _)
  | requests ran => exact grown_progress _ _ _ before progress (appends _ ran)
  | flushes flushed => exact flushes_progress flushed progress
  | @processes answers => exact input_progress (input_processed_input answers before) progress
  | ticks ticked => exact ticks_progress ticked progress
  | reads received => exact reads_progress received progress
  | writes wrote => exact writes_progress wrote progress.within progress.marked
  | resolves _ _ tried =>
      have joined : Progress { before with resolverJoinable := false } :=
        ⟨progress.within, progress.marked, progress.watched⟩
      exact tries_progress tried joined
  | ignores => exact ⟨progress.within, progress.marked, progress.watched⟩
  | lapses =>
      exact ⟨progress.within, progress.marked, fun _ session => absurd session Bool.false_ne_true⟩

theorem initial_progress (cs : Bytes) (callbacks : Callbacks) :
    Progress (Conn.initial cs callbacks) where
  within := Nat.le_refl _
  marked := fun corked => absurd rfl corked
  watched := fun socket => absurd socket Bool.false_ne_true

/-- After every run a flush mark lies in the output buffer and has unsent bytes
before it, a session with unsent bytes asks for writing, and `write()` has
nothing to report. -/
theorem output_progresses (cs : Bytes) (callbacks : Callbacks) (conn : Conn)
    (events : List (Event × Answers))
    (run : Run (step mp crypto parseCs) AppendsOnly (Conn.initial cs callbacks) events conn) :
    conn.uncorkedSize ≤ conn.outputBuffer.size ∧
    (0 < conn.uncorkedSize → conn.sendBuffer.unsent ≠ []) ∧
    (conn.socket = true → conn.state.isSession = true → conn.sendBuffer.unsent ≠ [] →
      conn.prevWatchMode = .readWrite) ∧
    conn.startWrite = { conn with idleTicksCounter := 0 } := by
  have progress : Progress conn := run.invariant (initial_progress cs callbacks)
    fun before event after held appends done =>
      step_progress mp crypto parseCs event before after held appends done
  refine ⟨progress.within, fun corked => progress.marked (Nat.ne_of_gt corked), progress.watched, ?_⟩
  exact if_neg fun stuck => progress.marked stuck.2 stuck.1

end Runs

/-- A session of the unix socket that sends nothing yet: one byte waits in the send buffer, one
is marked. -/
theorem output_progresses_marked :
    ∃ conn : Conn, conn.socket = true ∧ conn.state = .connected ∧ conn.uncorkedSize = 1 ∧
      conn.uncorkedSize ≤ conn.outputBuffer.size ∧ conn.sendBuffer.unsent ≠ [] ∧
      conn.prevWatchMode = .readWrite ∧ conn.startWrite = { conn with idleTicksCounter := 0 } := by
  obtain ⟨buffer, queue, _, _, greeted, underway⟩ := at_socket_greeted unixPath
  obtain ⟨whole, established, opened, session, _, shape⟩ := reply_opens reference_implements
    sampleCrypto { recvs := [.bytes (frame (bareHeader 0x8030))] } 0x8030 (by decide)
    .featuresRequest _ underway rfl (.inr ⟨rfl, .inl rfl, by decide⟩)
  have output : established.outputBuffer = OwnedBuffer.ofSize (2 ^ 20) := by
    rw [shape]
    rfl
  have sent : established.sendBuffer.unsent = [] := by
    rw [shape]
    exact delivered_unsent 0 _
  obtain ⟨conn, run, socket, state, corked, waiting, _⟩ := marked_run reference sampleCrypto unixPath
    established session.socket session.state sent (by rw [output]; rfl)
    (by rw [output, OwnedBuffer.of_size_capacity]; decide) (session.sendRoom.trans' (by decide))
  have login : Run (step reference sampleCrypto unixPath) AppendsOnly (Conn.initial [] acceptAll)
      [(.openConnection 0, { attempts := [.established] }), greetingArrives, unknownArrives]
      established :=
    .cons trivial (show _ = some (atSocket unixPath) from rfl)
      (.cons trivial greeted (.cons trivial opened .nil))
  have unsent : conn.sendBuffer.unsent ≠ [] := List.ne_nil_of_length_pos (waiting ▸ Nat.one_pos)
  have admits : ∀ (before : Conn) (event : Event × Answers),
      before.WritesOutput event ∧ before.TailFits event → before.AppendsOnly event := by
    rintro before ⟨call, answers⟩ ⟨writes, _⟩
    cases call with
    | request => exact writes.elim
    | _ => exact trivial
  obtain ⟨within, _, watched, silent⟩ := output_progresses _ _ _ _ _ _ _
    (login.trans (run.weaken admits))
  exact ⟨conn, socket, state, corked, within, unsent,
    watched socket (state ▸ rfl) unsent, silent⟩

end Conn

end Cpp2tnt
