import Cpp2tnt.Authentication

/-!
What goes out before a connection is opened. The handshake puts its requests
into the send buffer directly; `flush()` uses the same buffer in every state.
`Isolated` says that only the requests of the connection itself have been sent,
as long as nothing is flushed that a handshake could send.
-/

namespace Cpp2tnt
open Imperative MessagePack Transition

/-- A byte of an ID or AUTH request of the connection itself. -/
def OutByte.IsOwn (byte : OutByte) : Prop := ∃ serial sync, byte.origin = .handshake serial sync

namespace Conn

structure Isolated (conn : Conn) : Prop where
  unmarked : conn.state ≠ .connected → conn.uncorkedSize = 0
  fresh : conn.state = .connecting → conn.accepted = []
  own : conn.state.isLogin = true → ∀ byte ∈ conn.queue, byte.IsOwn
  unopened : .opened ∉ conn.session → ∀ byte ∈ conn.accepted, byte.IsOwn
  opened : conn.state = .connected → .opened ∈ conn.session

/-- Before the connection is opened a flush finds nothing to move, or moves it
where the greeting will clear it: not during a login, and not behind bytes that
have not been sent. -/
def FlushesOpened (conn : Conn) : Event × Answers → Prop
  | (.flush, _) => conn.state = .connected ∨ conn.outputBuffer.content = [] ∨
      conn.state.isLogin = false ∧ conn.sendBuffer.unsent = []
  | _ => True

section Outcomes
variable {before after : Conn}

theorem Isolated.same (isolated : Isolated before) (state : after.state = before.state)
    (mark : after.uncorkedSize = before.uncorkedSize) (accepted : after.accepted = before.accepted)
    (send : after.sendBuffer = before.sendBuffer) (session : after.session = before.session) :
    Isolated after where
  unmarked := by
    rw [state, mark]
    exact isolated.unmarked
  fresh := by
    rw [state, accepted]
    exact isolated.fresh
  own := by
    rw [state, queue, accepted, send]
    exact isolated.own
  unopened := by
    rw [session, accepted]
    exact isolated.unopened
  opened := by
    rw [state, session]
    exact isolated.opened

theorem isolated_offline (state : after.state = .disconnected ∨ after.state = .addressResolving)
    (mark : after.uncorkedSize = 0)
    (unopened : .opened ∉ after.session → ∀ byte ∈ after.accepted, byte.IsOwn) :
    Isolated after := by
  refine ⟨fun _ => mark, ?_, ?_, unopened, ?_⟩ <;> intro other <;>
    rcases state with closed | resolving
  · exact absurd (closed.symm.trans other) State.noConfusion
  · exact absurd (resolving.symm.trans other) State.noConfusion
  · rw [closed] at other
    exact absurd other Bool.false_ne_true
  · rw [resolving] at other
    exact absurd other Bool.false_ne_true
  · exact absurd (closed.symm.trans other) State.noConfusion
  · exact absurd (resolving.symm.trans other) State.noConfusion

theorem closed_isolated (delay : Int) (extra : List Note)
    (mark : before.socket = false → before.uncorkedSize = 0)
    (unopened : .opened ∉ before.session → ∀ byte ∈ before.accepted, byte.IsOwn) :
    Isolated { before.closed delay with notes := before.notes ++ extra } := by
  have reset : (before.closed delay).uncorkedSize = 0 ∧
      (before.closed delay).session = before.session ∧
      (before.closed delay).accepted = before.accepted := by
    unfold Conn.closed
    split
    · exact ⟨rfl, rfl, rfl⟩
    · rename_i none
      exact ⟨mark (eq_false_of_ne_true none), rfl, rfl⟩
  refine isolated_offline (.inl ?_) reset.1 ?_
  · exact closed_state delay before
  · change .opened ∉ (before.closed delay).session →
      ∀ byte ∈ (before.closed delay).accepted, byte.IsOwn
    rw [reset.2.1, reset.2.2]
    exact unopened

theorem failed_isolated {handler : Bool} (failed : FailedBy handler before after)
    (mark : before.socket = false → before.uncorkedSize = 0)
    (unopened : .opened ∉ before.session → ∀ byte ∈ before.accepted, byte.IsOwn) :
    Isolated after := by
  obtain ⟨extra, rfl, _⟩ := failed
  exact (closed_isolated 0 extra mark unopened).same rfl rfl rfl rfl rfl

theorem quiet_isolated (quiet : Quiet before after) (isolated : Isolated before) :
    Isolated after := by
  obtain ⟨_, _, _, _, rfl, _⟩ := quiet
  exact isolated.same rfl rfl rfl rfl rfl

theorem input_isolated (input : InputOnly before after) (isolated : Isolated before) :
    Isolated after := by
  obtain ⟨_, _, _, _, _, _, rfl, _⟩ := input
  exact isolated.same rfl rfl rfl rfl rfl

theorem linked_unmarked (isolated : Isolated before)
    (linked : before.socket = before.state.hasSocket) (closed : before.socket = false) :
    before.uncorkedSize = 0 := by
  apply isolated.unmarked
  intro connected
  rw [linked, connected] at closed
  exact absurd closed Bool.noConfusion

/-- What `write()` needs to know: where it sends from, and for whom. -/
theorem writes_isolated {answers : Answers} (writes : Writes answers before after)
    (isolated : Isolated before) (linked : before.socket = before.state.hasSocket) :
    Isolated after := by
  have unmarked : before.socket = false → before.uncorkedSize = 0 :=
    linked_unmarked isolated linked
  cases writes with
  | established => exact isolated.same rfl rfl rfl rfl rfl
  | refused _ _ failed => exact failed_isolated failed unmarked isolated.unopened
  | @sends middle _ waiting moved _ ended =>
      have sent := moved.unmarked
      obtain ⟨_, _, _, _, _, _, _, shape, _⟩ := moved.output
      have same : middle.state = before.state ∧ middle.session = before.session ∧
          middle.socket = before.socket := by
        rw [shape]
        exact ⟨rfl, rfl, rfl⟩
      obtain ⟨state, session, socket⟩ := same
      -- an opened session may send what it likes; before that only the queue moves
      have kept : before.state ≠ .connected → before.state.isLogin = true ∨
          middle.accepted = before.accepted → Isolated middle := by
        intro unopened sends
        obtain ⟨mark, queue⟩ := sent (isolated.unmarked unopened)
        refine ⟨fun _ => mark, ?_, ?_, ?_, ?_⟩
        · intro connecting
          exact absurd (state.symm.trans connecting) waiting
        · rw [state, queue]
          exact isolated.own
        · rw [session]
          intro known byte member
          rcases sends with login | accepted
          · apply isolated.own login byte
            rw [← queue]
            exact List.mem_append_left _ member
          · rw [accepted] at member
            exact isolated.unopened known byte member
        · intro connected
          exact absurd (state.symm.trans connected) unopened
      have moves : middle.accepted = before.accepted ∨ before.socket = true → Isolated middle := by
        intro ready
        by_cases opened : before.state = .connected
        · have known := isolated.opened opened
          refine ⟨?_, ?_, ?_, ?_, fun _ => session ▸ known⟩
          · exact fun other => absurd (state.trans opened) other
          · exact fun connecting => absurd (state.symm.trans connecting) waiting
          · intro login
            rw [state, opened] at login
            exact absurd login Bool.false_ne_true
          · exact fun none => absurd (session ▸ known) none
        · apply kept opened
          rcases ready with accepted | socket
          · exact .inr accepted
          · left
            rw [linked] at socket
            cases known : before.state with
            | featuresRequest | authentication => rfl
            | connecting => exact absurd known waiting
            | connected => exact absurd known opened
            | disconnected | addressResolving =>
                rw [known] at socket
                exact absurd socket Bool.false_ne_true
      cases ended with
      | drained empty ready =>
          refine (moves ?_).same rfl rfl rfl rfl rfl
          by_cases closed : before.socket = true
          · exact .inr closed
          -- nothing was queued, so nothing can have been accepted
          · have none := ready.resolve_left closed
            have queue := (sent (unmarked (eq_false_of_ne_true closed))).2
            simp only [Conn.queue, empty, none, List.append_nil] at queue
            exact .inl queue
      | paused opened => exact (moves (.inr opened)).same rfl rfl rfl rfl rfl
      | failed cause _ failed =>
          have isolated := moves (cause.imp And.right And.left)
          have still : middle.socket = middle.state.hasSocket := by rw [socket, linked, state]
          exact failed_isolated failed (linked_unmarked isolated still) isolated.unopened

theorem launched_isolated (isolated : Isolated before) (unasked : before.state.isLogin = false) :
    Isolated before.launched where
  unmarked := fun _ => rfl
  fresh := isolated.fresh
  own := fun login => absurd (unasked.symm.trans login) Bool.false_ne_true
  unopened := isolated.unopened
  opened := isolated.opened

theorem flushes_isolated {answers : Answers} (flushes : Flushes answers before after)
    (isolated : Isolated before) (linked : before.socket = before.state.hasSocket)
    (admitted : before.FlushesOpened (.flush, answers)) : Isolated after := by
  cases flushes with
  | nothing => exact isolated
  | marks some queued =>
      rcases admitted with opened | none | ⟨_, drained⟩
      · refine ⟨fun other => absurd opened other, isolated.fresh, ?_, isolated.unopened,
          isolated.opened⟩
        intro login
        change before.state.isLogin = true at login
        rw [opened] at login
        exact absurd login Bool.false_ne_true
      · exact absurd none some
      · exact absurd drained queued
  | writes some _ wrote =>
      have unasked : before.state.isLogin = false := by
        rcases admitted with opened | none | ⟨outside, _⟩
        · rw [opened]
          rfl
        · exact absurd none some
        · exact outside
      exact writes_isolated wrote (launched_isolated isolated unasked) linked

theorem tries_isolated {attempts : List Attempt} (tries : Tries attempts before after)
    (isolated : Isolated before) (unopened : before.state ≠ .connected) : Isolated after := by
  -- a new session has accepted nothing, and no mark is left from an earlier one
  have starts : ∀ {middle after : Conn}, Quiet before middle → after.state = .connecting →
      after.accepted = [] → after.uncorkedSize = middle.uncorkedSize → Isolated after := by
    intro middle after quiet state accepted mark
    have unmarked := (quiet_isolated quiet isolated).unmarked
    obtain ⟨_, _, _, _, rfl, _⟩ := quiet
    refine ⟨fun _ => mark.trans (unmarked unopened), fun _ => accepted, ?_, ?_, ?_⟩
    · intro login
      rw [state] at login
      exact absurd login Bool.false_ne_true
    · rw [accepted]
      exact fun _ _ member => absurd member List.not_mem_nil
    · exact fun connected => absurd (state.symm.trans connected) State.noConfusion
  cases tries with
  | established _ quiet | inProgress quiet => exact starts quiet rfl rfl rfl
  | refused quiet failed =>
      have kept := quiet_isolated quiet isolated
      obtain ⟨_, _, _, _, rfl, _⟩ := quiet
      exact failed_isolated failed (fun _ => kept.unmarked unopened) kept.unopened
  | exhausted quiet =>
      have kept := quiet_isolated quiet isolated
      obtain ⟨_, _, _, _, rfl, _⟩ := quiet
      exact isolated_offline (.inl rfl) (kept.unmarked unopened) kept.unopened

theorem opens_isolated {parseCs : Bytes → CsParts} {answers : Answers} {delay : Int}
    (opens : Opens parseCs answers delay before after) (isolated : Isolated before) :
    Isolated after := by
  have prepared : Isolated (before.prepared parseCs) := isolated.same rfl rfl rfl rfl rfl
  have closed : before.state = .disconnected → before.state ≠ .connected := by
    intro state
    rw [state]
    exact State.noConfusion
  cases opens with
  | rejected quiet => exact quiet_isolated quiet isolated
  | delayed => exact isolated.same rfl rfl rfl rfl rfl
  | prepares _ _ quiet => exact quiet_isolated quiet prepared
  | resolves state =>
      exact isolated_offline (.inr rfl) (isolated.unmarked (closed state)) isolated.unopened
  | tries state _ tried => exact tries_isolated tried prepared (closed state)

theorem ticks_isolated {parseCs : Bytes → CsParts} {answers : Answers}
    (ticks : Ticks parseCs answers before after) (isolated : Isolated before)
    (linked : before.socket = before.state.hasSocket) : Isolated after := by
  have counted : ∀ count, Isolated { before with autoreconnectTicksCounter := count } :=
    fun _ => isolated.same rfl rfl rfl rfl rfl
  cases ticks with
  | reopens _ _ opens => exact opens_isolated opens (counted _)
  | expires _ _ _ failed =>
      exact failed_isolated failed (linked_unmarked isolated linked) isolated.unopened
  | counts _ quiet => exact quiet_isolated quiet (counted _)
  | flushes _ state _ reported flushed idle =>
      apply quiet_isolated idle
      have noted := quiet_isolated reported (counted _)
      obtain ⟨_, _, _, _, rfl, _⟩ := reported
      -- the timer flushes an opened session only
      exact flushes_isolated flushed noted linked (.inl state)

theorem asked_isolated {send : SendBuffer} (asks : before.Asks send)
    (accepted : ∀ byte ∈ before.accepted, byte.IsOwn) (mark : before.uncorkedSize = 0)
    (login : after.state.isLogin = true) (same : after.accepted = before.accepted)
    (queued : after.sendBuffer = send) (kept : after.uncorkedSize = before.uncorkedSize) :
    Isolated after := by
  have other : ∀ {state : State}, state.isLogin = false → ¬ after.state = state := by
    rintro _ outside rfl
    exact absurd (outside.symm.trans login) Bool.false_ne_true
  refine ⟨fun _ => kept.trans mark, ?_, ?_, ?_, ?_⟩
  · exact fun connecting => absurd connecting (other rfl)
  · intro _ byte member
    rw [queue, same, queued] at member
    rcases List.mem_append.mp member with sent | asked
    · exact accepted byte sent
    · exact ⟨_, _, asks.own byte (asks.unsent ▸ asked)⟩
  · rw [same]
    exact fun _ => accepted
  · exact fun connected => absurd connected (other rfl)

theorem handshakes_isolated {answers : Answers} (handshakes : Handshakes answers before after)
    (isolated : Isolated before) (linked : before.socket = before.state.hasSocket)
    (login : before.state.isLogin = true) : Isolated after := by
  have accepted : ∀ byte ∈ before.accepted, byte.IsOwn := fun byte member =>
    isolated.own login byte (List.mem_append_left _ member)
  have mark : before.uncorkedSize = 0 := by
    apply isolated.unmarked
    intro connected
    rw [connected] at login
    exact absurd login Bool.false_ne_true
  cases handshakes with
  | abandons lapsed failed =>
      obtain ⟨_, _, _, _, _, _, _, rfl, _⟩ := lapsed
      exact failed_isolated failed (fun _ => mark) fun _ => accepted
  | @authenticates proto code send _ state _ _ asks wrote =>
      have asked : Isolated (before.challenged proto code send) :=
        asked_isolated asks accepted mark rfl rfl rfl rfl
      apply writes_isolated wrote asked
      change before.socket = true
      rw [linked, state]
      rfl
  | @opens _ code _ =>
      have opened :
          Milestone.opened ∈ before.session ++ [.response before.state code] ++ [.opened] :=
        List.mem_append_right _ List.mem_cons_self
      exact ⟨fun other => absurd rfl other, State.noConfusion, fun outside => absurd outside
        Bool.false_ne_true, fun none => absurd opened none, fun _ => opened⟩

theorem reads_isolated {answers : Answers} (reads : Reads answers before after)
    (isolated : Isolated before) (linked : before.socket = before.state.hasSocket) :
    Isolated after := by
  have arrived : ∀ buffer bytes, Isolated (before.arrived buffer bytes) :=
    fun _ _ => isolated.same rfl rfl rfl rfl rfl
  cases reads with
  | nothing => exact isolated
  | ended _ _ failed =>
      exact failed_isolated failed (linked_unmarked (arrived _ _) linked) isolated.unopened
  | waits => exact arrived _ _
  | @greets buffer bytes send _ receives state _ asks wrote =>
      have none : before.accepted = [] := isolated.fresh state
      have mark : before.uncorkedSize = 0 := by
        apply isolated.unmarked
        rw [state]
        exact State.noConfusion
      have asks : (before.arrived buffer bytes).Asks send := ⟨asks.1, asks.2, asks.3⟩
      have fresh : ∀ byte ∈ (before.arrived buffer bytes).accepted, byte.IsOwn := by
        change ∀ byte ∈ before.accepted, byte.IsOwn
        rw [none]
        exact fun _ member => absurd member List.not_mem_nil
      have greeted : Isolated ((before.arrived buffer bytes).greeted send) :=
        asked_isolated asks fresh mark rfl rfl rfl rfl
      exact writes_isolated wrote greeted receives.socket
  | holds _ _ input => exact input_isolated input (arrived _ _)
  | handshakes _ during input _ shaken =>
      have found := input_isolated input (arrived _ _)
      obtain ⟨_, _, _, _, _, _, rfl, _⟩ := input
      apply handshakes_isolated shaken found linked
      change before.state.isLogin = true
      rcases during with state | state <;> rw [state] <;> rfl

theorem turns_isolated {parseCs : Bytes → CsParts} {event : Event × Answers}
    (turns : Turns parseCs event before after) (isolated : Isolated before)
    (linked : Linked before) (admitted : before.FlushesOpened event) :
    Isolated after := by
  cases turns with
  | opens opens => exact opens_isolated opens isolated
  | closes => exact closed_isolated _ _ (linked_unmarked isolated linked.socket) isolated.unopened
  | rests quiet => exact quiet_isolated quiet isolated
  | listens | appends | reserves | requests | ignores => exact isolated.same rfl rfl rfl rfl rfl
  | flushes flushed => exact flushes_isolated flushed isolated linked.socket admitted
  | processes => exact input_isolated (input_processed_input _ before) isolated
  | ticks ticked => exact ticks_isolated ticked isolated linked.socket
  | reads read => exact reads_isolated read isolated linked.socket
  | writes wrote => exact writes_isolated wrote isolated linked.socket
  | resolves _ state tried =>
      have joined : Isolated { before with resolverJoinable := false } :=
        isolated.same rfl rfl rfl rfl rfl
      apply tries_isolated tried joined
      change before.state ≠ .connected
      rw [state]
      exact State.noConfusion
  | lapses joinable =>
      have mark := linked_unmarked isolated linked.socket (linked.joined joinable)
      exact isolated_offline (.inl rfl) mark isolated.unopened

end Outcomes

section Runs
variable (mp : Msgpuck) (crypto : Crypto) (parseCs : Bytes → CsParts)

theorem initial_isolated (cs : Bytes) (callbacks : Callbacks) :
    Isolated (Conn.initial cs callbacks) where
  unmarked := fun _ => rfl
  fresh := fun _ => rfl
  own := fun login => absurd login Bool.false_ne_true
  unopened := fun _ _ member => absurd member List.not_mem_nil
  opened := State.noConfusion

/-- In every run that flushes nothing towards a login, the socket has accepted
only the ID and AUTH requests of the connection itself until it is opened; this
also holds of a session that ended unopened. -/
theorem handshake_isolated (cs : Bytes) (callbacks : Callbacks) (conn : Conn)
    (events : List (Event × Answers))
    (run : Run (step mp crypto parseCs) (fun conn event =>
      conn.Polled event ∧ conn.FlushesOpened event) (Conn.initial cs callbacks) events conn) :
    (conn.socket = true → conn.state ≠ .connected → ∀ byte ∈ conn.accepted, byte.IsOwn) ∧
    (.opened ∉ conn.session → ∀ byte ∈ conn.accepted, byte.IsOwn) := by
  have held : Linked conn ∧ Isolated conn := by
    apply linked_invariant mp crypto parseCs run
    · exact fun _ _ admitted => admitted.1
    · exact initial_isolated cs callbacks
    · intro before event after linked isolated admitted done
      exact turns_isolated (step_turns mp crypto parseCs event before after done) isolated linked
        admitted.2
  refine ⟨?_, held.2.unopened⟩
  intro socket unopened byte member
  rw [held.1.socket] at socket
  cases state : conn.state with
  | connecting =>
      rw [held.2.fresh state] at member
      exact absurd member List.not_mem_nil
  | featuresRequest | authentication =>
      apply held.2.own _ byte (List.mem_append_left _ member)
      rw [state]
      rfl
  | connected => exact absurd state unopened
  | disconnected | addressResolving =>
      rw [state] at socket
      exact absurd socket Bool.false_ne_true

end Runs

/-- The ID request has been sent, and nothing else. -/
theorem handshake_isolated_greeted : ∃ conn : Conn, conn.state = .featuresRequest ∧
    conn.accepted ≠ [] ∧ ∀ byte ∈ conn.accepted, byte.IsOwn := by
  obtain ⟨buffer, queue, _, some, greeted, underway⟩ := at_socket_greeted unixPath
  refine ⟨_, underway.state, ?_, ?_⟩
  · change [] ++ queue.unsent.take queue.unsent.length ≠ []
    rw [List.take_length]
    exact some
  · apply (handshake_isolated reference sampleCrypto unixPath [] acceptAll _
      [(.openConnection 0, { attempts := [.established] }), greetingArrives] _).1 underway.socket
    · rw [underway.state]
      exact State.noConfusion
    · exact .cons ⟨trivial, trivial⟩ unix_established (.cons ⟨trivial, trivial⟩ greeted .nil)

theorem flush_drains (answers : Answers) (more : Nat) (rest : List SendResult) (conn : Conn)
    (state : conn.state ≠ .connecting) (socket : conn.socket = true)
    (answered : answers.sends = .accepted more :: rest) (drained : conn.sendBuffer.unsent = [])
    (some : conn.outputBuffer.content ≠ []) (enough : conn.outputBuffer.size ≤ more + 1) :
    conn.flush answers = .some (true, conn.launched.delivered answers.now) := by
  have offers : ¬ conn.outputBuffer.size = 0 := fun none =>
    some (List.eq_nil_of_length_eq_zero none)
  have wrote := write_drains answers more rest conn.launched state socket answered rfl some enough
  rw [flush, if_neg offers, if_pos drained]
  exact congrArg (Option.map _) wrote

def callerAppends : Event × Answers := (.append [1], {})

def callerFlushes : Event × Answers := (.flush, { sends := [.accepted 1023] })

theorem append_taken (conn : Conn) (state : conn.state ≠ .connecting) (socket : conn.socket = true)
    (drained : conn.sendBuffer.unsent = []) (empty : conn.outputBuffer.content = [])
    (room : 1 ≤ conn.outputBuffer.available) :
    ∃ appended flushed, step reference sampleCrypto unixPath callerAppends conn = some appended ∧
      step reference sampleCrypto unixPath callerFlushes appended = some flushed ∧
      flushed.state = conn.state ∧ ⟨1, .caller⟩ ∈ flushed.accepted := by
  let appended := { conn with outputBuffer := conn.outputBuffer.push [⟨1, .caller⟩] }
  have one : appended.outputBuffer.content = [⟨1, .caller⟩] := by
    rw [OwnedBuffer.push_content, empty, List.nil_append]
  have flushed : appended.flush { sends := [.accepted 1023] } =
      some (true, appended.launched.delivered 0) := by
    apply flush_drains _ 1023 [] appended state socket rfl drained
    · rw [one]
      exact List.cons_ne_nil _ _
    · rw [OwnedBuffer.size, one]
      decide
  refine ⟨appended, _, if_pos room, congrArg (Option.map Prod.snd) flushed, rfl, ?_⟩
  change _ ∈ _ ++ appended.outputBuffer.content.take appended.outputBuffer.content.length
  rw [one]
  exact List.mem_append_right _ List.mem_cons_self

/-- A flush after the ID request sends what the caller has appended. -/
theorem flushed_into_login : ∃ conn : Conn, Run (step reference sampleCrypto unixPath) Polled
    (Conn.initial [] acceptAll)
    [(.openConnection 0, { attempts := [.established] }), greetingArrives, callerAppends,
      callerFlushes] conn ∧ conn.state = .featuresRequest ∧
    ¬ ∀ byte ∈ conn.accepted, byte.IsOwn := by
  obtain ⟨buffer, queue, _, _, greeted, underway⟩ := at_socket_greeted unixPath
  have room : 1 ≤ (atSocket unixPath).outputBuffer.available := by
    have total : (atSocket unixPath).outputBuffer.capacity = 2 ^ 20 :=
      OwnedBuffer.of_size_capacity (2 ^ 20)
    have free := OwnedBuffer.empty_available (atSocket unixPath).outputBuffer rfl
    omega
  obtain ⟨appended, flushed, append, flush, state, member⟩ := append_taken _
    (underway.state ▸ State.noConfusion) underway.socket (delivered_unsent 0 _) rfl room
  refine ⟨flushed, .cons trivial unix_established (.cons trivial greeted (.cons trivial append
    (.cons trivial flush .nil))), state, ?_⟩
  intro own
  obtain ⟨_, _, origin⟩ := own _ member
  cases origin

end Conn

end Cpp2tnt
