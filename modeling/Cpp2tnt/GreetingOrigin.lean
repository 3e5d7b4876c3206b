import Cpp2tnt.Authentication

/-!
Where a greeting comes from. The receive buffer collects the greeting behind
whole responses that an earlier session has left for a busy caller; `Sourced`
says what else can be in it. The greeting is that of the current server as long
as it is not taken together with such a rest.
-/

namespace Cpp2tnt
open Imperative MessagePack Transition

def State.isGreeted : State → Bool
  | .featuresRequest | .authentication | .connected => true
  | _ => false

def Begins (text received : Bytes) : Prop :=
  greetingSize ≤ received.length ∧ text.take greetingSize = received.take greetingSize

theorem Begins.grown {text received later : Bytes} (begins : Begins text received)
    (grown : received <+: later) : Begins text later := by
  obtain ⟨rest, rfl⟩ := grown
  obtain ⟨long, same⟩ := begins
  refine ⟨?_, ?_⟩
  · rw [List.length_append]
    exact Nat.le_add_right_of_le long
  · rw [same, List.take_append_of_le_length long]

namespace Conn

structure Sourced (conn : Conn) : Prop where
  within : conn.HeadWithin
  offline : conn.socket = false → conn.orphaned = []
  arriving : conn.state = .connecting → conn.orphaned = conn.received
  greeting : ∀ text, .greeting text ∈ conn.session → Begins text conn.received
  kept : conn.state.isGreeted = true → .greeting conn.greeting ∈ conn.session

/-- The `read()` that takes a greeting finds no whole response before it. -/
def GreetsAlone (conn : Conn) : Event × Answers → Prop
  | (.read, answers) => conn.state = .connecting →
      greetingSize ≤ conn.receiveBuffer.size + (conn.arriving answers).length →
      conn.lastReceivedHeadOffset = 0
  | _ => True

section Outcomes
variable {before after : Conn}

theorem Sourced.same (sourced : Sourced before) (receive : after.receiveBuffer = before.receiveBuffer)
    (head : after.lastReceivedHeadOffset = before.lastReceivedHeadOffset)
    (socket : after.socket = before.socket) (state : after.state = before.state)
    (received : after.received = before.received) (session : after.session = before.session)
    (greeting : after.greeting = before.greeting) : Sourced after where
  within := by
    rw [HeadWithin, receive, head]
    exact sourced.within
  offline := by
    rw [socket, orphaned, receive, head]
    exact sourced.offline
  arriving := by
    rw [state, received, orphaned, receive, head]
    exact sourced.arriving
  greeting := by
    rw [session, received]
    exact sourced.greeting
  kept := by
    rw [state, session, greeting]
    exact sourced.kept

theorem sourced_offline (state : after.state = .disconnected ∨ after.state = .addressResolving)
    (within : after.HeadWithin) (offline : after.orphaned = [])
    (greeting : ∀ text, .greeting text ∈ after.session → Begins text after.received) :
    Sourced after := by
  refine ⟨within, fun _ => offline, ?_, greeting, ?_⟩
  · intro connecting
    rcases state with closed | resolving
    · exact absurd (closed.symm.trans connecting) State.noConfusion
    · exact absurd (resolving.symm.trans connecting) State.noConfusion
  · intro greeted
    rcases state with closed | resolving
    · rw [closed] at greeted
      exact absurd greeted Bool.false_ne_true
    · rw [resolving] at greeted
      exact absurd greeted Bool.false_ne_true

/-- `close()` cuts the receive buffer off behind the whole responses. -/
theorem closed_sourced (delay : Int) (extra : List Note) (within : before.HeadWithin)
    (offline : before.socket = false → before.orphaned = [])
    (greeting : ∀ text, .greeting text ∈ before.session → Begins text before.received) :
    Sourced { before.closed delay with notes := before.notes ++ extra } := by
  have cut : (before.closed delay).HeadWithin ∧ (before.closed delay).orphaned = [] ∧
      (before.closed delay).session = before.session ∧
      (before.closed delay).received = before.received := by
    unfold Conn.closed
    split
    · have front := OwnedBuffer.resize_content before.lastReceivedHeadOffset before.receiveBuffer
        within
      have size : (before.receiveBuffer.content.take before.lastReceivedHeadOffset).length =
          before.lastReceivedHeadOffset := List.length_take_of_le within
      refine ⟨?_, ?_, rfl, rfl⟩
      · change _ ≤ (before.receiveBuffer.resize before.lastReceivedHeadOffset).size
        rw [OwnedBuffer.size, front, size]
        exact Nat.le_refl _
      · change (before.receiveBuffer.resize before.lastReceivedHeadOffset).content.drop _ = []
        rw [front]
        exact List.drop_eq_nil_of_le size.le
    · rename_i none
      exact ⟨within, offline (eq_false_of_ne_true none), rfl, rfl⟩
  refine sourced_offline (.inl ?_) cut.1 cut.2.1 ?_
  · exact closed_state delay before
  · change ∀ text, .greeting text ∈ (before.closed delay).session →
      Begins text (before.closed delay).received
    rw [cut.2.2.1, cut.2.2.2]
    exact greeting

theorem failed_sourced {handler : Bool} (failed : FailedBy handler before after)
    (within : before.HeadWithin) (offline : before.socket = false → before.orphaned = [])
    (greeting : ∀ text, .greeting text ∈ before.session → Begins text before.received) :
    Sourced after := by
  obtain ⟨extra, rfl, _⟩ := failed
  exact (closed_sourced 0 extra within offline greeting).same rfl rfl rfl rfl rfl rfl rfl

theorem Sourced.failed {handler : Bool} (sourced : Sourced before)
    (failed : FailedBy handler before after) : Sourced after :=
  failed_sourced failed sourced.within sourced.offline sourced.greeting

theorem quiet_sourced (quiet : Quiet before after) (sourced : Sourced before) : Sourced after := by
  obtain ⟨_, _, _, _, rfl, _⟩ := quiet
  exact sourced.same rfl rfl rfl rfl rfl rfl rfl

theorem output_sourced (output : OutputOnly before after) (sourced : Sourced before) :
    Sourced after := by
  obtain ⟨_, _, _, _, _, _, _, rfl, _⟩ := output
  exact sourced.same rfl rfl rfl rfl rfl rfl rfl

theorem input_sourced (input : InputOnly before after) (sourced : Sourced before)
    (within : after.HeadWithin) (socket : before.socket = true)
    (established : before.state ≠ .connecting) : Sourced after := by
  obtain ⟨_, _, _, _, _, _, rfl, _⟩ := input
  refine ⟨within, ?_, ?_, sourced.greeting, sourced.kept⟩
  · exact fun closed => absurd (socket.symm.trans closed) Bool.noConfusion
  · exact fun connecting => absurd connecting established

theorem processed_sourced (answers : Answers) (sourced : Sourced before) :
    Sourced (before.inputProcessed answers) := by
  have input := input_processed_input answers before
  have same : (before.inputProcessed answers).orphaned = before.orphaned :=
    pass_orphaned answers.responses before.releaseInput
  have within : (before.inputProcessed answers).HeadWithin :=
    pass_head answers.responses before.releaseInput sourced.within
  obtain ⟨_, _, _, _, _, _, shape, _⟩ := input
  refine ⟨within, ?_, ?_, ?_, ?_⟩
  · rw [same, shape]
    exact sourced.offline
  · rw [same, shape]
    exact sourced.arriving
  · rw [shape]
    exact sourced.greeting
  · rw [shape]
    exact sourced.kept

theorem writes_sourced {answers : Answers} (writes : Writes answers before after)
    (sourced : Sourced before) : Sourced after := by
  cases writes with
  | established => exact sourced.same rfl rfl rfl rfl rfl rfl rfl
  | refused _ _ failed => exact sourced.failed failed
  | sends _ moved _ ended =>
      have sent := output_sourced moved.output sourced
      cases ended with
      | drained | paused => exact sent.same rfl rfl rfl rfl rfl rfl rfl
      | failed _ _ failed => exact sent.failed failed

theorem flushes_sourced {answers : Answers} (flushes : Flushes answers before after)
    (sourced : Sourced before) : Sourced after := by
  cases flushes with
  | nothing => exact sourced
  | marks => exact sourced.same rfl rfl rfl rfl rfl rfl rfl
  | writes _ _ wrote =>
      have launched : Sourced before.launched := sourced.same rfl rfl rfl rfl rfl rfl rfl
      exact writes_sourced wrote launched

theorem tries_sourced {attempts : List Attempt} (tries : Tries attempts before after)
    (sourced : Sourced before) (closed : before.socket = false) : Sourced after := by
  have starts : ∀ {middle after : Conn}, Quiet before middle →
      after.receiveBuffer = middle.receiveBuffer →
      after.lastReceivedHeadOffset = middle.lastReceivedHeadOffset → after.socket = true →
      after.state = .connecting → after.received = [] → after.session = [] → Sourced after := by
    intro middle after quiet receive head socket state received session
    have middle := quiet_sourced quiet sourced
    obtain ⟨_, _, _, _, rfl, _⟩ := quiet
    refine ⟨?_, ?_, ?_, ?_, ?_⟩
    · rw [HeadWithin, receive, head]
      exact middle.within
    · exact fun other => absurd (socket.symm.trans other) Bool.noConfusion
    · intro _
      rw [received, orphaned, receive, head]
      exact middle.offline closed
    · rw [session]
      exact fun _ member => absurd member List.not_mem_nil
    · intro greeted
      rw [state] at greeted
      exact absurd greeted Bool.false_ne_true
  cases tries with
  | established _ quiet | inProgress quiet => exact starts quiet rfl rfl rfl rfl rfl rfl
  | refused quiet failed =>
      have kept := quiet_sourced quiet sourced
      exact failed_sourced failed kept.within kept.offline kept.greeting
  | exhausted quiet =>
      have kept := quiet_sourced quiet sourced
      obtain ⟨_, _, _, _, rfl, _⟩ := quiet
      exact sourced_offline (.inl rfl) kept.within (kept.offline closed) kept.greeting

theorem opens_sourced {parseCs : Bytes → CsParts} {answers : Answers} {delay : Int}
    (opens : Opens parseCs answers delay before after) (sourced : Sourced before)
    (linked : before.socket = before.state.hasSocket) : Sourced after := by
  have prepared : Sourced (before.prepared parseCs) := sourced.same rfl rfl rfl rfl rfl rfl rfl
  have closed : before.state = .disconnected → before.socket = false := by
    intro state
    rw [linked, state]
    rfl
  cases opens with
  | rejected quiet => exact quiet_sourced quiet sourced
  | delayed => exact sourced.same rfl rfl rfl rfl rfl rfl rfl
  | prepares _ _ quiet => exact quiet_sourced quiet prepared
  | resolves state =>
      exact sourced_offline (.inr rfl) sourced.within (sourced.offline (closed state))
        sourced.greeting
  | tries state _ tried => exact tries_sourced tried prepared (closed state)

theorem ticks_sourced {parseCs : Bytes → CsParts} {answers : Answers}
    (ticks : Ticks parseCs answers before after) (sourced : Sourced before)
    (linked : before.socket = before.state.hasSocket) : Sourced after := by
  have counted : ∀ count, Sourced { before with autoreconnectTicksCounter := count } :=
    fun _ => sourced.same rfl rfl rfl rfl rfl rfl rfl
  cases ticks with
  | reopens _ _ opens => exact opens_sourced opens (counted _) linked
  | expires _ _ _ failed => exact sourced.failed failed
  | counts _ quiet => exact quiet_sourced quiet (counted _)
  | flushes _ _ _ reported flushed idle =>
      exact quiet_sourced idle (flushes_sourced flushed (quiet_sourced reported (counted _)))

theorem answered_sourced (sourced : Sourced before)
    (head : after.lastReceivedHeadOffset = 0) (socket : after.socket = true)
    (established : after.state ≠ .connecting) (received : after.received = before.received)
    (greeted : before.state.isGreeted = true) (greeting : after.greeting = before.greeting)
    (session : ∃ items, after.session = before.session ++ items ∧
      ∀ text, Milestone.greeting text ∉ items) : Sourced after := by
  obtain ⟨items, session, none⟩ := session
  refine ⟨?_, ?_, ?_, ?_, ?_⟩
  · rw [HeadWithin, head]
    exact Nat.zero_le _
  · exact fun closed => absurd (socket.symm.trans closed) Bool.noConfusion
  · exact fun connecting => absurd connecting established
  · intro text member
    rw [session] at member
    rw [received]
    rcases List.mem_append.mp member with old | new
    · exact sourced.greeting text old
    · exact absurd new (none text)
  · intro _
    rw [session, greeting]
    exact List.mem_append_left _ (sourced.kept greeted)

theorem handshakes_sourced {answers : Answers} (handshakes : Handshakes answers before after)
    (sourced : Sourced before) (socket : before.socket = true)
    (greeted : before.state.isGreeted = true) : Sourced after := by
  cases handshakes with
  | abandons lapsed failed =>
      obtain ⟨_, _, _, _, _, _, _, rfl, _, _, greetings⟩ := lapsed
      apply failed_sourced failed
      · exact Nat.zero_le _
      · exact fun closed => absurd (socket.symm.trans closed) Bool.noConfusion
      · exact fun text member => sourced.greeting text (greetings text member)
  | @authenticates proto code send _ _ _ _ _ wrote =>
      have asked : Sourced (before.challenged proto code send) := by
        refine answered_sourced sourced rfl socket State.noConfusion rfl greeted rfl
          ⟨[.response before.state code, .authRequest], ?_, by simp⟩
        exact List.append_assoc _ _ _
      exact writes_sourced wrote asked
  | @opens _ code _ =>
      refine answered_sourced sourced rfl socket State.noConfusion rfl greeted rfl
        ⟨[.response before.state code, .opened], ?_, by simp⟩
      exact List.append_assoc _ _ _

theorem arrived_within {buffer : OwnedBuffer UInt8} {bytes : Bytes}
    (receives : before.Receives buffer bytes) (within : before.HeadWithin) :
    (before.arrived buffer bytes).HeadWithin ∧
      (before.arrived buffer bytes).orphaned = before.orphaned ++ bytes := by
  constructor
  · change before.lastReceivedHeadOffset ≤ buffer.content.length
    rw [receives.content, List.length_append]
    exact Nat.le_add_right_of_le within
  · change buffer.content.drop before.lastReceivedHeadOffset = _
    rw [receives.content]
    exact List.drop_append_of_le_length within

theorem arrived_sourced {buffer : OwnedBuffer UInt8} {bytes : Bytes}
    (receives : before.Receives buffer bytes) (sourced : Sourced before) :
    Sourced (before.arrived buffer bytes) := by
  obtain ⟨within, orphaned⟩ := arrived_within receives sourced.within
  refine ⟨within, ?_, ?_, ?_, sourced.kept⟩
  · intro closed
    exact absurd (receives.socket.symm.trans closed) Bool.noConfusion
  · intro connecting
    rw [orphaned, sourced.arriving connecting]
    rfl
  · exact fun text member => (sourced.greeting text member).grown (List.prefix_append _ _)

theorem greeted_sourced {buffer : OwnedBuffer UInt8} {bytes : Bytes} {send : SendBuffer}
    (receives : before.Receives buffer bytes) (sourced : Sourced before)
    (state : before.state = .connecting) (long : greetingSize ≤ buffer.size)
    (alone : before.lastReceivedHeadOffset = 0) :
    Sourced ((before.arrived buffer bytes).greeted send) := by
  have arrived := arrived_sourced receives sourced
  -- with no whole response before it, the rest of the buffer is all of it
  have whole : buffer.content = before.received ++ bytes := by
    have same := arrived.arriving state
    change buffer.content.drop before.lastReceivedHeadOffset = before.received ++ bytes at same
    rwa [alone, List.drop_zero] at same
  refine ⟨Nat.zero_le _, ?_, State.noConfusion, ?_, ?_⟩
  · intro closed
    exact absurd (receives.socket.symm.trans closed) Bool.noConfusion
  · intro text member
    rcases List.mem_append.mp member with old | new
    · exact arrived.greeting text old
    · cases List.mem_singleton.mp new
      change Begins buffer.content (before.received ++ bytes)
      rw [← whole]
      exact ⟨long, rfl⟩
  · exact fun _ => List.mem_append_right _ List.mem_cons_self

theorem reads_sourced {answers : Answers} (reads : Reads answers before after)
    (sourced : Sourced before) (alone : before.GreetsAlone (.read, answers)) : Sourced after := by
  cases reads with
  | nothing => exact sourced
  | ended receives _ failed => exact (arrived_sourced receives sourced).failed failed
  | waits receives => exact arrived_sourced receives sourced
  | greets receives state long _ wrote arrives =>
      apply writes_sourced wrote (greeted_sourced receives sourced state long _)
      apply alone state
      rw [OwnedBuffer.size, receives.content, List.length_append, arrives] at long
      exact long
  | holds receives established input within =>
      have arrived := arrived_sourced receives sourced
      exact input_sourced input arrived (within arrived.within) receives.socket established
  | handshakes receives during input within shaken =>
      have arrived := arrived_sourced receives sourced
      have established : before.state ≠ .connecting ∧ before.state.isGreeted = true := by
        rcases during with state | state <;> rw [state] <;> exact ⟨State.noConfusion, rfl⟩
      have found := input_sourced input arrived (within arrived.within) receives.socket
        established.1
      obtain ⟨_, _, _, _, _, _, rfl, _⟩ := input
      exact handshakes_sourced shaken found receives.socket established.2

theorem turns_sourced {parseCs : Bytes → CsParts} {event : Event × Answers}
    (turns : Turns parseCs event before after) (sourced : Sourced before) (linked : Linked before)
    (alone : before.GreetsAlone event) : Sourced after := by
  cases turns with
  | opens opens => exact opens_sourced opens sourced linked.socket
  | closes => exact closed_sourced _ _ sourced.within sourced.offline sourced.greeting
  | rests quiet => exact quiet_sourced quiet sourced
  | listens | appends | reserves | requests | ignores =>
      exact sourced.same rfl rfl rfl rfl rfl rfl rfl
  | flushes flushed => exact flushes_sourced flushed sourced
  | processes => exact processed_sourced _ sourced
  | ticks ticked => exact ticks_sourced ticked sourced linked.socket
  | reads read => exact reads_sourced read sourced alone
  | writes wrote => exact writes_sourced wrote sourced
  | resolves joinable _ tried =>
      have joined : Sourced { before with resolverJoinable := false } :=
        sourced.same rfl rfl rfl rfl rfl rfl rfl
      exact tries_sourced tried joined (linked.joined joinable)
  | lapses joinable =>
      have none := sourced.offline (linked.joined joinable)
      exact sourced_offline (.inl rfl) sourced.within none sourced.greeting

end Outcomes

section Runs
variable (mp : Msgpuck) (crypto : Crypto) (parseCs : Bytes → CsParts)

theorem initial_sourced (cs : Bytes) (callbacks : Callbacks) :
    Sourced (Conn.initial cs callbacks) where
  within := Nat.zero_le _
  offline := fun _ => rfl
  arriving := State.noConfusion
  greeting := fun _ member => absurd member List.not_mem_nil
  kept := fun greeted => absurd greeted Bool.false_ne_true

/-- In every run in which no greeting is taken together with whole responses of
an earlier session: the greeting of a session, also of one that has ended, begins
with the first bytes that its socket has given. -/
theorem greeting_of_session (cs : Bytes) (callbacks : Callbacks) (conn : Conn)
    (events : List (Event × Answers))
    (run : Run (step mp crypto parseCs) (fun conn event =>
      conn.Polled event ∧ conn.GreetsAlone event) (Conn.initial cs callbacks) events conn) :
    (conn.state = .featuresRequest ∨ conn.state = .authentication ∨ conn.state = .connected →
      greetingSize ≤ conn.received.length ∧
      conn.greeting.take greetingSize = conn.received.take greetingSize) ∧
    ∀ text, .greeting text ∈ conn.session →
      greetingSize ≤ conn.received.length ∧
      text.take greetingSize = conn.received.take greetingSize := by
  have held : Linked conn ∧ Sourced conn := by
    apply linked_invariant mp crypto parseCs run
    · exact fun _ _ admitted => admitted.1
    · exact initial_sourced cs callbacks
    · intro before event after linked sourced admitted done
      exact turns_sourced (step_turns mp crypto parseCs event before after done) sourced linked
        admitted.2
  refine ⟨?_, held.2.greeting⟩
  intro greeted
  apply held.2.greeting _ (held.2.kept _)
  rcases greeted with state | state | state <;> rw [state] <;> rfl

end Runs

theorem unix_reopens (conn : Conn) (state : conn.state = .disconnected)
    (joined : conn.resolverJoinable = false) :
    step reference sampleCrypto unixPath (.openConnection 0, { attempts := [.established] }) conn =
      some ((conn.prepared unixPath).trying.startSession .read) :=
  unix_opens sampleCrypto .established Attempt.noConfusion conn state joined

/-- The next session of a connection whose whole responses are `kept`: they stand in front of
its greeting. -/
theorem greeted_again (conn : Conn) (socket : conn.socket = true)
    (joined : conn.resolverJoinable = false)
    (proto : conn.requiredProto = (Conn.initial [] acceptAll).requiredProto)
    (kept : Bytes) (front : conn.receiveBuffer.content = kept)
    (head : conn.lastReceivedHeadOffset = kept.length) (short : kept.length ≤ 512)
    (room : 2048 ≤ conn.receiveBuffer.capacity) (send : 2048 ≤ conn.sendBuffer.buffer.capacity)
    (greeting : Bytes) (length : greeting.length = 128) :
    ∃ closed last, conn.close {} false 0 = closed ∧ closed.lastReceivedHeadOffset = kept.length ∧
      step reference sampleCrypto unixPath (.openConnection 0, { attempts := [.established] })
        closed = some ((closed.prepared unixPath).trying.startSession .read) ∧
      step reference sampleCrypto unixPath
        (.read, { recvs := [.bytes greeting], sends := [.accepted 1023] })
        ((closed.prepared unixPath).trying.startSession .read) = some last ∧
      last.state = .featuresRequest ∧ last.greeting = kept ++ greeting ∧ last.received = greeting := by
  obtain ⟨extra, closed, _⟩ := close_shape {} false 0 conn
  rw [Conn.closed, if_pos socket] at closed
  let left : Conn := { (conn.reset 0).dropSocket with notes := conn.notes ++ extra }
  -- `close` resizes the buffer to the head offset, which keeps the waiting responses
  let again := (left.prepared unixPath).trying.startSession .read
  have within : kept.length ≤ conn.receiveBuffer.size := by
    rw [OwnedBuffer.size, front]
  have stale : again.receiveBuffer.content = kept := by
    change (conn.receiveBuffer.resize conn.lastReceivedHeadOffset).content = _
    rw [head, OwnedBuffer.resize_content _ _ within, front, List.take_length]
  have space : 2048 ≤ again.receiveBuffer.capacity := by
    change 2048 ≤ (conn.receiveBuffer.resize conn.lastReceivedHeadOffset).capacity
    rw [OwnedBuffer.resize_capacity]
    exact Nat.le_trans room (Nat.le_max_left _ _)
  have free : 1536 ≤ again.receiveBuffer.available := by
    simp only [OwnedBuffer.capacity, stale] at space
    change 2048 ≤ kept.length + again.receiveBuffer.available at space
    omega
  have known : again.requiredProto = (Conn.initial [] acceptAll).requiredProto := proto
  have auth : again.requiredProto.auth.length < 2 ^ 32 := by
    rw [known]
    decide
  have request : (frame (Request.payload reference sampleCrypto again.requestId
      (.id again.requiredProto))).length ≤ 1024 := by
    rw [known]
    change (frame (Request.payload reference sampleCrypto 0 _)).length ≤ 1024
    decide +kernel
  have sendRoom : 2048 ≤ again.sendBuffer.buffer.capacity := by
    change 2048 ≤ conn.sendBuffer.buffer.clear.capacity
    rw [OwnedBuffer.clear_capacity]
    exact send
  have some : greeting ≠ [] := by
    rintro rfl
    cases length
  obtain ⟨buffer, asked, text, _, _, _, taken⟩ := greeting_taken reference_implements sampleCrypto
    greeting again rfl rfl rfl sendRoom some (by omega) (by omega)
    (by rw [length]; exact Nat.le_add_left _ _) auth request
  rw [stale] at text
  exact ⟨left, _, closed, head, unix_reopens left rfl joined, taken, rfl, text, rfl⟩

def laterGreeting : Bytes := List.replicate 128 0x2a

/-- A login, a disconnect, and the greeting of the next session. -/
theorem greeting_of_session_second : ∃ conn : Conn, conn.state = .featuresRequest ∧
    conn.greeting = laterGreeting ∧ greetingSize ≤ conn.received.length ∧
    conn.greeting.take greetingSize = conn.received.take greetingSize := by
  obtain ⟨_, queue, _, _, greeted, underway⟩ := at_socket_greeted unixPath
  obtain ⟨whole, established, opened, session, phase, shape⟩ := reply_opens reference_implements
    sampleCrypto { recvs := [.bytes (frame (bareHeader 0x8030))] } 0x8030 (by decide)
    .featuresRequest _ underway rfl (.inr ⟨rfl, .inl rfl, by decide⟩)
  obtain ⟨closed, last, left, behind, reopened, taken, state, text, _⟩ := greeted_again established
    session.socket (shape ▸ rfl) (shape ▸ rfl) [] session.content session.head (Nat.zero_le _)
    session.receiveRoom session.sendRoom laterGreeting List.length_replicate
  refine ⟨last, state, text, (greeting_of_session reference sampleCrypto unixPath [] acceptAll last
    [(.openConnection 0, { attempts := [.established] }), greetingArrives, unknownArrives,
      (.close false 0, {}), (.openConnection 0, { attempts := [.established] }),
      (.read, { recvs := [.bytes laterGreeting], sends := [.accepted 1023] })] ?_).1 (.inl state)⟩
  refine .cons ⟨trivial, trivial⟩ unix_established (.cons ⟨trivial, fun _ _ => rfl⟩ greeted
    (.cons ⟨trivial, ?_⟩ opened (.cons ⟨trivial, trivial⟩ (congrArg some left)
    (.cons ⟨trivial, trivial⟩ reopened (.cons ⟨trivial, fun _ _ => behind⟩ taken .nil)))))
  intro connecting
  cases underway.state.symm.trans connecting

/-- These bytes have arrived, and turned out to be whole responses. -/
def found (buffer whole : OwnedBuffer UInt8) (bytes : Bytes) (notes : List Note)
    (conn : Conn) : Conn :=
  { conn.arrived buffer bytes with
    receiveBuffer := whole
    lastReceivedHeadOffset := bytes.length
    detectedResponseSize := 0
    notes := notes }

theorem frame_read {mp : Msgpuck} (implements : Implements mp) (crypto : Crypto) (body : Bytes)
    (sized : Sized body) (fits : (frame body).length ≤ 2048) (conn : Conn)
    (underway : Underway .connected conn) :
    ∃ buffer whole notes, whole.content = frame body ∧
      conn.receiveBuffer.capacity ≤ whole.capacity ∧
      conn.read mp crypto { recvs := [.bytes (frame body)] } = some (if conn.callerIdle then
        (conn.found buffer whole (frame body) notes).passResponseToCaller []
        else conn.found buffer whole (frame body) notes) := by
  obtain ⟨buffer, content, grown, received⟩ := underway.received
    { recvs := [.bytes (frame body)] } (frame body) rfl (List.cons_ne_nil _ _) fits
  obtain ⟨whole, notes, found, text, room, _⟩ := frame_detected implements body sized conn buffer
    underway.detected underway.head content
  refine ⟨buffer, whole, notes, text, Nat.le_trans grown room, ?_⟩
  have connected : (conn.arrived buffer (frame body)).state = .connected := underway.state
  have established : ¬ (conn.arrived buffer (frame body)).state = .connecting := by
    rw [connected]
    exact State.noConfusion
  rw [read, received]
  simp only [underway.socket, Bool.not_true, Bool.false_eq_true, if_false, if_neg established]
  rw [process_responses mp crypto _ _ (.inl connected), found]
  rfl

theorem pass_busy (conn : Conn) (some : conn.lastReceivedHeadOffset ≠ 0)
    (callback : conn.callbacks.response = true) :
    passResponseToCaller [] conn = { conn.handOver with
      callerIdle := false
      notes := conn.notes ++ [.response conn.handOver.inputBuffer.content] } := by
  obtain ⟨_, _, shape, _⟩ := conn.hand_over_swaps
  have called : conn.handOver.callbacks.response = true := by
    rw [shape]
    exact callback
  have noted : conn.handOver.notes = conn.notes := by rw [shape]
  rw [passResponseToCaller, if_neg some]
  simp only [called, Bool.not_true, Bool.false_eq_true, if_false, note, noted]

def frameArrives : Event × Answers := (.read, { recvs := [.bytes (frame [0x80])] })

theorem second_frame_waits (conn : Conn) (underway : Underway .connected conn)
    (idle : conn.callerIdle = true) (callback : conn.callbacks.response = true)
    (inputRoom : 2048 ≤ conn.inputBuffer.capacity) :
    ∃ first second, step reference sampleCrypto unixPath frameArrives conn = some first ∧
      step reference sampleCrypto unixPath frameArrives first = some second ∧
      second.receiveBuffer.content = frame [0x80] ∧ second.lastReceivedHeadOffset = 6 ∧
      2048 ≤ second.receiveBuffer.capacity ∧ second.socket = true ∧
      second.resolverJoinable = conn.resolverJoinable ∧ second.requiredProto = conn.requiredProto ∧
      second.sendBuffer = conn.sendBuffer := by
  have sized : Sized [0x80] := by decide
  have short : (frame [0x80]).length ≤ 2048 := by decide
  obtain ⟨buffer, whole, notes, text, room, read⟩ := frame_read reference_implements sampleCrypto
    [0x80] sized short conn underway
  rw [if_pos idle] at read
  let found := conn.found buffer whole (frame [0x80]) notes
  have passed := pass_busy found (Nat.succ_ne_zero _) callback
  obtain ⟨receive, input, swapped, _, large⟩ := found.hand_over_swaps
  have empty : found.handOver.receiveBuffer.content = [] :=
    (hand_over_contents found (frame [0x80]) [] (text.trans (List.append_nil _).symm) rfl).2
  rw [swapped] at passed empty
  have waiting : Underway .connected { found.handOver with
      callerIdle := false
      notes := found.notes ++ [.response found.handOver.inputBuffer.content] } := by
    rw [swapped]
    exact ⟨underway.socket, underway.state, empty, rfl, rfl, underway.corked,
      Nat.le_trans inputRoom large, underway.sendRoom⟩
  rw [swapped] at waiting
  obtain ⟨_, last, _, kept, grown, again⟩ := frame_read reference_implements sampleCrypto
    [0x80] sized short _ waiting
  exact ⟨_, _, read.trans (congrArg some passed), again, kept, rfl,
    Nat.le_trans waiting.receiveRoom grown, underway.socket, rfl, rfl, rfl⟩

/-- The frame that waits for the caller is still there when the next session
gets its greeting. -/
theorem stale_greeting : ∃ conn : Conn, Run (step reference sampleCrypto unixPath) Polled
    (Conn.initial [] acceptAll)
    [(.openConnection 0, { attempts := [.established] }), greetingArrives, unknownArrives,
      frameArrives, frameArrives, (.close false 0, {}),
      (.openConnection 0, { attempts := [.established] }), greetingArrives] conn ∧
    conn.state = .featuresRequest ∧
    conn.greeting.take greetingSize ≠ conn.received.take greetingSize := by
  obtain ⟨_, queue, _, _, greeted, underway⟩ := at_socket_greeted unixPath
  obtain ⟨whole, established, opened, session, phase, shape⟩ := reply_opens reference_implements
    sampleCrypto { recvs := [.bytes (frame (bareHeader 0x8030))] } 0x8030 (by decide)
    .featuresRequest _ underway rfl (.inr ⟨rfl, .inl rfl, by decide⟩)
  have inputRoom : 2048 ≤ established.inputBuffer.capacity := by
    have room : (atSocket unixPath).inputBuffer.capacity = 2 ^ 20 :=
      OwnedBuffer.of_size_capacity (2 ^ 20)
    rw [shape]
    exact Nat.le_trans (by decide) room.ge
  obtain ⟨first, second, passed, waits, content, head, room, socket, joined, proto, send⟩ :=
    second_frame_waits established session (shape ▸ rfl) (shape ▸ rfl) inputRoom
  obtain ⟨closed, last, left, _, reopened, taken, state, text, given⟩ := greeted_again second socket
    (joined.trans (shape ▸ rfl)) (proto.trans (shape ▸ rfl)) (frame [0x80]) content head (by decide)
    room (send ▸ session.sendRoom) blankGreeting blank_greeting_length
  refine ⟨last, .cons trivial unix_established (.cons trivial greeted (.cons trivial opened
    (.cons trivial passed (.cons trivial waits (.cons trivial (congrArg some left)
    (.cons trivial reopened (.cons trivial taken .nil))))))), state, ?_⟩
  rw [text, given]
  intro same
  exact absurd (congrArg List.head? same) (by decide)

end Conn

end Cpp2tnt
