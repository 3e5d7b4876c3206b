import Cpp2tnt.ConnectionSteps

/-!
What an event can come to. Each relation lists the outcomes of one function of a
connection, with what is known there about the state before and about the
answers. An invariant of the connection is checked against these outcomes.
-/

namespace Cpp2tnt
open Imperative MessagePack

def Longer (least : Nat) (writer : MpWriter) : Prop := least ≤ writer.buf.size

section Growth
variable {least : Nat}

theorem on_buffer_longer {α : Type} {body : Cxx Exn (WtfBuffer UInt8) α}
    (kept : Cxx.Preserves (fun buf => least ≤ buf.size) body) :
    Cxx.Preserves (Longer least) (MpWriter.onBuffer body) :=
  Cxx.preserves_zoom kept (fun _ longer => longer) (fun _ _ _ longer => longer)

theorem push_longer (items : Bytes) (buf : WtfBuffer UInt8) (longer : least ≤ buf.size) :
    least ≤ (buf.push items).size := by
  rw [WtfBuffer.size, WtfBuffer.push_content, List.length_append]
  exact Nat.le_add_right_of_le longer

theorem emit_longer (bytes : Bytes) : Cxx.Preserves (Longer least) (MpWriter.emit bytes) := by
  apply on_buffer_longer
  apply Cxx.preserves_get_bind
  intro buf longer
  exact Cxx.preserves_ite (fun _ => Cxx.preserves_put (push_longer bytes buf longer))
    fun _ => Cxx.preserves_undefined

theorem store_longer (offset : Nat) (bytes : Bytes) :
    Cxx.Preserves (Longer least) (MpWriter.onBuffer (WtfBuffer.store offset bytes)) := by
  apply on_buffer_longer
  apply Cxx.preserves_get_bind
  intro buf longer
  apply Cxx.preserves_ite
  · intro room
    apply Cxx.preserves_put
    have small := buf.size_le_capacity
    have total := buf.storage_length
    simp only [WtfBuffer.size, List.length_take, List.length_append, List.length_drop]
      at longer small ⊢
    omega
  · exact fun _ => Cxx.preserves_undefined

theorem load_longer (offset : Nat) :
    Cxx.Preserves (Longer least) (MpWriter.onBuffer (WtfBuffer.load offset)) := by
  apply on_buffer_longer
  apply Cxx.preserves_get_bind
  intro buf longer
  split
  · exact Cxx.preserves_pure _
  · exact Cxx.preserves_undefined

theorem reserve_longer (size : Nat) :
    Cxx.Preserves (Longer least) (MpWriter.onBuffer (WtfBuffer.reserve size)) := by
  apply on_buffer_longer
  apply Cxx.preserves_get_bind
  intro buf longer
  apply Cxx.preserves_ite
  · exact fun _ => Cxx.preserves_pure ()
  · intro large
    have regrown : ∀ kept : Bytes, least ≤ (buf.regrown kept size).size := by
      intro kept
      have small := buf.size_le_capacity
      simp only [WtfBuffer.regrown, WtfBuffer.size, List.length_take, List.length_append,
        List.length_replicate] at longer small ⊢
      omega
    split
    · exact Cxx.preserves_throw _
    · exact Cxx.preserves_put (regrown _)
    · exact Cxx.preserves_put (regrown _)

variable (mp : Msgpuck)

theorem patch_longer (encode : Nat → Bytes) (sizeof : Nat → Nat) (exceeded : String)
    (container : ContainerMeta) (count : Nat) : Cxx.Preserves (Longer least)
      (MpWriter.patchHeader mp encode sizeof exceeded container count) := by
  have stored : Cxx.Preserves (Longer least) (if sizeof container.maxCardinality = 1 then
      MpWriter.onBuffer (WtfBuffer.store container.headOffset (encode count))
    else if sizeof container.maxCardinality = 3 then
      MpWriter.onBuffer (WtfBuffer.store (container.headOffset + 1)
        (mp.mpStoreU16 (count % 2 ^ 16)))
    else if sizeof container.maxCardinality = 5 then
      MpWriter.onBuffer (WtfBuffer.store (container.headOffset + 1) (mp.mpStoreU32 count))
    else Cxx.throw ⟨.runtimeError, "previously not implemented container cardinality"⟩) := by
    apply Cxx.preserves_ite (fun _ => store_longer _ _)
    intro _
    apply Cxx.preserves_ite (fun _ => store_longer _ _)
    intro _
    exact Cxx.preserves_ite (fun _ => store_longer _ _) fun _ => Cxx.preserves_throw _
  apply Cxx.preserves_ite (fun _ => Cxx.preserves_pure ())
  intro _
  apply Cxx.preserves_ite
  · exact fun _ => Cxx.preserves_bind (Cxx.preserves_throw _) fun _ => stored
  · exact fun _ => stored

theorem container_longer : Cxx.Preserves (Longer least) (MpWriter.finalize mp) := by
  apply Cxx.preserves_get_bind
  intro writer longer
  split
  · exact Cxx.preserves_throw _
  · apply Cxx.preserves_bind
    · exact Cxx.preserves_put longer
    intro _
    apply Cxx.preserves_bind (load_longer _)
    intro head
    split
    · exact patch_longer mp _ _ _ _ _
    · apply Cxx.preserves_ite
      · exact fun _ => Cxx.preserves_bind (Cxx.preserves_throw _) fun _ => patch_longer mp _ _ _ _ _
      · exact fun _ => patch_longer mp _ _ _ _ _
    · exact Cxx.preserves_throw _

theorem message_longer : Cxx.Preserves (Longer least) (IprotoWriter.finalize mp) := by
  apply Cxx.preserves_get_bind
  intro writer longer
  split
  · exact Cxx.preserves_throw _
  · apply Cxx.preserves_bind (load_longer _)
    intro head
    apply Cxx.preserves_ite
    · intro _
      apply Cxx.preserves_bind
      · exact Cxx.preserves_put longer
      intro _
      apply Cxx.preserves_ite (fun _ => Cxx.preserves_pure ())
      intro _
      apply Cxx.preserves_ite
      · exact fun _ => Cxx.preserves_bind (Cxx.preserves_throw _) fun _ => store_longer _ _
      · exact fun _ => store_longer _ _
    · exact fun _ => container_longer mp

theorem all_longer : Cxx.Preserves (Longer least) (IprotoWriter.finalizeAll mp) := by
  apply Cxx.preserves_get_bind
  intro writer _
  exact Cxx.preserves_forEach (fun _ => message_longer mp) _

theorem start_longer : Cxx.Establishes (Longer 4) (IprotoWriter.startMessage mp) := by
  have advanced : Cxx.Establishes (Longer 4) (MpWriter.onBuffer (WtfBuffer.advance 4)) := by
    intro writer value reached done
    by_cases room : 4 ≤ writer.buf.available
    · rw [MpWriter.onBuffer, Cxx.zoom_returned (WtfBuffer.advance_returned 4 writer.buf room)]
        at done
      cases done
      simp only [WtfBuffer.available] at room
      simp only [Longer, WtfBuffer.size, WtfBuffer.push_content, List.length_append,
        List.length_take]
      omega
    · simp [MpWriter.onBuffer, Cxx.zoom, WtfBuffer.advance, room] at done
  have begun : Cxx.Establishes (Longer 4) (do
      MpWriter.pushContainer (2 ^ 32 - 1)
      MpWriter.emit (mp.mpStoreU8 0xce)
      MpWriter.onBuffer (WtfBuffer.advance 4)) :=
    Cxx.establishes_last fun _ => Cxx.establishes_last fun _ => advanced
  apply Cxx.establishes_last
  intro _
  apply Cxx.establishes_last
  intro writer
  by_cases tight : writer.buf.capacity - writer.buf.size < 1024
  · rw [if_pos tight]
    exact Cxx.establishes_last fun _ => begun
  · rw [if_neg tight]
    exact begun

theorem header_longer (type : RequestType) (sync : UInt64) :
    Cxx.Establishes (Longer 4) (IprotoWriter.encodeRequestHeader mp type sync) := by
  apply Cxx.establishes_first (start_longer mp)
  intro _
  exact Cxx.preserves_bind (emit_longer _) fun _ => Cxx.preserves_bind (emit_longer _) fun _ =>
    emit_longer _

theorem id_longer (proto : ProtoId) (sync : UInt64) :
    Cxx.Establishes (Longer 4) (IprotoWriter.encodeIdRequest mp proto sync) := by
  have rest : Cxx.Preserves (Longer 4) (do
      if !proto.auth.isEmpty then
        MpWriter.emit (mp.mpEncodeUint Field.authType.key)
        MpWriter.emit (mp.mpEncodeStr (narrow proto.auth))
      IprotoWriter.finalize mp) := by
    apply Cxx.preserves_ite
    · exact fun _ => Cxx.preserves_bind (emit_longer _) fun _ =>
        Cxx.preserves_bind (emit_longer _) fun _ => message_longer mp
    · exact fun _ => message_longer mp
  have features : Cxx.Preserves (Longer 4) (do
      MpWriter.emit (mp.mpEncodeUint Field.features.key)
      MpWriter.emit (mp.mpEncodeArray proto.listFeatures.length)
      Cxx.forEach (fun feature => MpWriter.emit (mp.mpEncodeUint feature)) proto.listFeatures
      if !proto.auth.isEmpty then
        MpWriter.emit (mp.mpEncodeUint Field.authType.key)
        MpWriter.emit (mp.mpEncodeStr (narrow proto.auth))
      IprotoWriter.finalize mp) :=
    Cxx.preserves_bind (emit_longer _) fun _ => Cxx.preserves_bind (emit_longer _) fun _ =>
      Cxx.preserves_bind (Cxx.preserves_forEach (fun _ => emit_longer _) _) fun _ => rest
  apply Cxx.establishes_first (header_longer mp .protoId sync)
  intro _
  apply Cxx.preserves_bind (emit_longer _)
  intro _
  apply Cxx.preserves_ite
  · exact fun _ => Cxx.preserves_bind (emit_longer _) fun _ =>
      Cxx.preserves_bind (emit_longer _) fun _ => features
  · exact fun _ => features

theorem auth_longer (crypto : Crypto) (greeting user password authProto : Bytes) (sync : UInt64) :
    Cxx.Establishes (Longer 4)
      (IprotoWriter.encodeAuthRequest mp crypto greeting user password authProto sync) := by
  apply Cxx.establishes_first (header_longer mp .auth sync)
  intro _
  apply Cxx.preserves_bind (emit_longer _)
  intro _
  apply Cxx.preserves_bind (emit_longer _)
  intro _
  apply Cxx.preserves_bind (emit_longer _)
  intro _
  apply Cxx.preserves_bind (emit_longer _)
  intro _
  apply Cxx.preserves_bind (emit_longer _)
  intro _
  apply Cxx.preserves_bind (emit_longer _)
  intro _
  apply Cxx.preserves_bind (emit_longer _)
  intro _
  apply Cxx.preserves_bind (emit_longer _)
  exact fun _ => message_longer mp

end Growth

namespace Conn

/-- The unsent bytes are one request of the connection, with the next number. -/
structure Asks (conn : Conn) (send : SendBuffer) : Prop where
  unsent : send.unsent = send.buffer.content
  some : send.unsent ≠ []
  own : ∀ byte ∈ send.buffer.content,
    byte.origin = .handshake conn.requestsIssued conn.requestId

theorem paint_nothing (origin : Origin) (bytes : Bytes) :
    paint origin [] bytes = bytes.map fun byte => ⟨byte, origin⟩ := by
  cases bytes with
  | nil => rfl
  | cons byte bytes => exact congrArg _ (paint_nothing origin bytes)

theorem send_request_returned (encode : UInt64 → Write Unit) (conn queued : Conn)
    (longer : ∀ sync, Cxx.Establishes (Longer 4) (encode sync))
    (done : conn.sendRequest encode = .returned () queued) :
    ∃ send, queued = { conn with
        requestId := conn.requestId + 1
        requestsIssued := conn.requestsIssued + 1
        sendBuffer := send } ∧ conn.Asks send := by
  unfold sendRequest writeInto at done
  simp only at done
  cases wrote : encode conn.requestId (MpWriter.ofBuffer (OwnedBuffer.toWtf
      ⟨conn.sendBuffer.buffer.clear.content.map OutByte.byte,
        conn.sendBuffer.buffer.clear.spare.map OutByte.byte⟩)) with
  | returned value writer =>
      have size : 4 ≤ writer.buf.content.length := longer _ _ _ _ wrote
      simp only [wrote] at done
      split at done
      · cases done
        refine ⟨_, rfl, rfl, ?_, ?_⟩
        · intro none
          have empty : writer.buf.content = [] := by
            simpa [OwnedBuffer.clear, paint_nothing] using none
          rw [empty] at size
          exact absurd size (by decide)
        · intro byte member
          simp only [SendBuffer.ofBuffer, OwnedBuffer.clear_content, paint_nothing, List.mem_map]
            at member
          obtain ⟨_, _, rfl⟩ := member
          rfl
      · cases done
  | thrown error writer =>
      simp only [wrote] at done
      cases done
  | undefined =>
      simp only [wrote] at done
      cases done

theorem send_request_thrown (encode : UInt64 → Write Unit) (conn failed : Conn) (error : Exn)
    (done : conn.sendRequest encode = .thrown error failed) :
    ∃ send, failed = { conn with
        requestId := conn.requestId + 1
        requestsIssued := conn.requestsIssued + 1
        sendBuffer := send } := by
  unfold sendRequest at done
  simp only at done
  split at done
  · split at done
    · cases done
    · cases done
  · cases done
    exact ⟨_, rfl⟩
  · cases done

def launched (conn : Conn) : Conn :=
  { conn with
    sendBuffer := .ofBuffer conn.outputBuffer
    outputBuffer := conn.sendBuffer.buffer.clear
    uncorkedSize := 0 }

/-- `write()`: in state `connecting` it asks how the attempt went. -/
inductive Writes (answers : Answers) (before : Conn) : Conn → Prop where
  | established : before.state = .connecting → before.socket = true →
      Writes answers before (before.watchSocket .read)
  | refused {after : Conn} : before.state = .connecting →
      (before.socket = false ∨ answers.soError = true) → FailedBy false before after →
      Writes answers before after
  | sends {middle after : Conn} : before.state ≠ .connecting → Moved before middle →
      (before.Marked → middle.Marked) → Ended answers before middle after →
      Writes answers before after

inductive Flushes (answers : Answers) (before : Conn) : Conn → Prop where
  | nothing : before.outputBuffer.content = [] → Flushes answers before before
  | marks : before.outputBuffer.content ≠ [] → before.sendBuffer.unsent ≠ [] →
      Flushes answers before { before with uncorkedSize := before.outputBuffer.size }
  | writes {after : Conn} : before.outputBuffer.content ≠ [] → before.sendBuffer.unsent = [] →
      Writes answers before.launched after → Flushes answers before after

theorem write_writes (answers : Answers) (conn after : Conn)
    (done : conn.write answers = some after) : Writes answers conn after := by
  by_cases state : conn.state = .connecting
  · rw [write, if_pos state] at done
    by_cases bad : (!conn.socket || answers.soError) = true
    · rw [if_pos bad] at done
      cases done
      have cause : conn.socket = false ∨ answers.soError = true := by simpa using bad
      exact .refused state cause (fail_failed answers [] .system false conn)
    · rw [if_neg bad] at done
      cases done
      have good : conn.socket = true ∧ answers.soError = false := by simpa using bad
      exact .established state good.1
  · obtain ⟨middle, moved, marked, ended⟩ := write_shape answers conn after state done
    exact .sends state moved marked ended

theorem flush_flushes (answers : Answers) (conn : Conn) (after : Bool × Conn)
    (done : conn.flush answers = some after) : Flushes answers conn after.2 := by
  unfold flush at done
  by_cases empty : conn.outputBuffer.size = 0
  · rw [if_pos empty] at done
    cases done
    exact .nothing (List.eq_nil_of_length_eq_zero empty)
  rw [if_neg empty] at done
  have some : conn.outputBuffer.content ≠ [] := fun none => empty (congrArg List.length none)
  by_cases drained : conn.sendBuffer.unsent = []
  · rw [if_pos drained] at done
    cases ran : conn.launched.write answers with
    | none =>
        simp only [launched] at ran
        simp [ran] at done
    | some reached =>
        have wrote := write_writes answers conn.launched reached ran
        simp only [launched] at ran
        simp only [ran, Option.map_some, Option.some.injEq] at done
        subst done
        exact .writes some drained wrote
  · rw [if_neg drained] at done
    cases done
    exact .marks some drained

def trying (conn : Conn) : Conn := { conn with state := .connecting }

/-- The attempts to connect, up to the one that decides. -/
inductive Tries (attempts : List Attempt) (before : Conn) : Conn → Prop where
  | established {middle : Conn} : Attempt.established ∈ attempts → Quiet before middle →
      Tries attempts before (middle.trying.startSession .read)
  | inProgress {middle : Conn} : Quiet before middle →
      Tries attempts before (middle.trying.startSession .write).reconnectSoon
  | refused {middle after : Conn} : Quiet before middle → FailedBy false middle.trying after →
      Tries attempts before after
  | exhausted {middle : Conn} : Quiet before middle →
      Tries attempts before { middle with state := .disconnected }.reconnectSoon

theorem closed_state (delay : Int) (conn : Conn) : (conn.closed delay).state = .disconnected := by
  unfold closed
  split <;> rfl

theorem close_state (answers : Answers) (handler : Bool) (delay : Int) (conn : Conn) :
    (conn.close answers handler delay).state = .disconnected := by
  obtain ⟨extra, shape, _⟩ := close_shape answers handler delay conn
  rw [shape]
  exact conn.closed_state delay

theorem refused_failed (answers : Answers) (conn : Conn) :
    FailedBy false conn.trying (conn.connectTo answers .refused).reconnectSoon :=
  fail_failed answers [] .system false conn.trying

theorem Tries.cons {attempt : Attempt} {attempts : List Attempt} {before next after : Conn}
    (quiet : Quiet before next) (tries : Tries attempts next after) :
    Tries (attempt :: attempts) before after := by
  cases tries with
  | established known kept => exact .established (List.mem_cons_of_mem _ known) (quiet.trans kept)
  | inProgress kept => exact .inProgress (quiet.trans kept)
  | refused kept failed => exact .refused (quiet.trans kept) failed
  | exhausted kept => exact .exhausted (quiet.trans kept)

theorem connect_loop_refused (answers : Answers) (attempts : List Attempt) (conn : Conn) :
    conn.connectLoop answers (.refused :: attempts) =
      (conn.connectTo answers .refused).reconnectSoon := by
  have state := close_state answers false 0 (conn.trying.handleError [] .system 0)
  have same : { conn.connectTo answers .refused with state := .disconnected } =
      conn.connectTo answers .refused := by
    rw [← state]
    rfl
  rw [connectLoop, same]

theorem connect_loop_tries (answers : Answers) (attempts : List Attempt) (conn : Conn) :
    Tries attempts conn (connectLoop answers attempts conn) := by
  induction attempts generalizing conn with
  | nil => exact .exhausted (.refl conn)
  | cons attempt attempts ih =>
      cases attempt with
      | noSocket =>
          rw [connectLoop]
          exact (ih (conn.handleError [] .system 0)).cons (error_quiet conn [] .system 0)
      | established => exact .established List.mem_cons_self (.refl conn)
      | inProgress => exact .inProgress (.refl conn)
      | refused =>
          rw [connect_loop_refused]
          exact .refused (.refl conn) (refused_failed answers conn)

/-- What `open()` resets before it connects. -/
def prepared (parseCs : Bytes → CsParts) (conn : Conn) : Conn :=
  { conn with
    autoreconnectTimeout := generalTimeout
    autoreconnectTicksCounter := -1
    csParts := parseCs conn.currentCs }

inductive Opens (parseCs : Bytes → CsParts) (answers : Answers) (delay : Int) (before : Conn) :
    Conn → Prop where
  | rejected {after : Conn} : Quiet before after → Opens parseCs answers delay before after
  | delayed : before.state = .disconnected → 0 < delay → Opens parseCs answers delay before
      { before with autoreconnectTicksCounter := 0, autoreconnectTimeout := delay }
  | prepares {after : Conn} : before.state = .disconnected → before.resolverJoinable = false →
      Quiet (before.prepared parseCs) after → Opens parseCs answers delay before after
  | resolves : before.state = .disconnected → before.resolverJoinable = false →
      Opens parseCs answers delay before { before.prepared parseCs with
        state := .addressResolving
        resolverJoinable := true
        resolversStarted := before.resolversStarted + 1 }
  | tries {after : Conn} : before.state = .disconnected → before.resolverJoinable = false →
      Tries answers.attempts (before.prepared parseCs) after →
      Opens parseCs answers delay before after

/-- Everything `open()` can do: the calls it refuses, the delay, and what follows
the parts of the connection string. -/
theorem open_cases {parseCs : Bytes → CsParts} {answers : Answers} {delay : Int} {conn after : Conn}
    (done : conn.openConnection parseCs answers delay = some after) :
    Quiet conn after ∨
    conn.state = .disconnected ∧ 0 < delay ∧
      after = { conn with autoreconnectTicksCounter := 0, autoreconnectTimeout := delay } ∨
    conn.state = .disconnected ∧ conn.resolverJoinable = false ∧ ¬ 0 < delay ∧
      (Quiet (conn.prepared parseCs) after ∨
        after = { conn.prepared parseCs with
          state := .addressResolving
          resolverJoinable := true
          resolversStarted := conn.resolversStarted + 1 } ∨
        (parseCs conn.currentCs).host = [] ∧ (parseCs conn.currentCs).unixSocketPath ≠ [] ∧
          ∃ attempt, answers.attempts.headD .refused = attempt ∧ attempt ≠ .noSocket ∧
            after = if attempt = .refused
              then ((conn.prepared parseCs).connectTo answers attempt).reconnectSoon
              else (conn.prepared parseCs).connectTo answers attempt) := by
  unfold openConnection at done
  by_cases opened : conn.state = .connected
  · rw [if_pos opened] at done
    cases done
    exact .inl (.refl conn)
  rw [if_neg opened] at done
  by_cases busy : conn.state ≠ .disconnected
  · rw [if_pos busy] at done
    cases done
    exact .inl (error_quiet conn _ _ 0)
  rw [if_neg busy] at done
  have idle : conn.state = .disconnected := not_not.mp busy
  by_cases later : delay > 0
  · rw [if_pos later] at done
    cases done
    exact .inr (.inl ⟨idle, later, rfl⟩)
  rw [if_neg later] at done
  by_cases resolving : conn.resolverJoinable = true
  · rw [if_pos resolving] at done
    cases done
    exact .inl (error_quiet conn _ _ 0)
  rw [if_neg resolving] at done
  -- from here on the call is accepted, and the connection string decides
  refine .inr (.inr ⟨idle, eq_false_of_ne_true resolving, later, ?_⟩)
  simp only at done
  by_cases host : (parseCs conn.currentCs).host ≠ []
  · rw [if_pos host] at done
    cases done
    exact .inr (.inl rfl)
  rw [if_neg host] at done
  by_cases path : (parseCs conn.currentCs).unixSocketPath ≠ []
  · rw [if_pos path] at done
    generalize first : answers.attempts.headD .refused = attempt at done
    cases attempt with
    | noSocket =>
        cases done
        exact .inl (error_quiet _ _ _ 0)
    | established | inProgress | refused =>
        refine .inr (.inr ⟨not_not.mp host, path, _, rfl, by decide, ?_⟩)
        -- a longer path overruns `sun_path`
        simp only at done
        split at done
        · exact (Option.some.inj done).symm
        · cases done
  · rw [if_neg path] at done
    cases done
    exact .inl (error_quiet _ _ _ 0)

theorem open_opens (parseCs : Bytes → CsParts) (answers : Answers) (delay : Int)
    (conn after : Conn) (done : conn.openConnection parseCs answers delay = some after) :
    Opens parseCs answers delay conn after := by
  rcases open_cases done with quiet | ⟨idle, later, rfl⟩ |
    ⟨idle, free, _, quiet | rfl | ⟨_, _, attempt, first, made, rfl⟩⟩
  · exact .rejected quiet
  · exact .delayed idle later
  · exact .prepares idle free quiet
  · exact .resolves idle free
  · cases attempt with
    | noSocket => exact absurd rfl made
    | established =>
        have known : Attempt.established ∈ answers.attempts := by
          cases attempts : answers.attempts with
          | nil =>
              rw [attempts] at first
              cases first
          | cons head rest =>
              rw [attempts] at first
              rw [show head = .established from first]
              exact List.mem_cons_self
        exact .tries idle free (.established known (.refl _))
    | inProgress => exact .tries idle free (.inProgress (.refl _))
    | refused => exact .tries idle free (.refused (.refl _) (refused_failed answers _))

def Counted (before : Conn) (ticks : Int) : Prop :=
  (before.autoreconnectTicksCounter < 0 ∧ ticks = before.autoreconnectTicksCounter) ∨
    (0 ≤ before.autoreconnectTicksCounter ∧ ticks = before.autoreconnectTicksCounter + 1 ∧
      ticks < before.autoreconnectTimeout)

inductive Ticks (parseCs : Bytes → CsParts) (answers : Answers) (before : Conn) : Conn → Prop where
  | reopens {after : Conn} : 0 ≤ before.autoreconnectTicksCounter →
      before.state = .disconnected → Opens parseCs answers 0 { before with
        autoreconnectTicksCounter := before.autoreconnectTicksCounter + 1 } after →
      Ticks parseCs answers before after
  | expires {after : Conn} : 0 ≤ before.autoreconnectTicksCounter →
      before.autoreconnectTimeout ≤ before.autoreconnectTicksCounter + 1 →
      before.state ≠ .disconnected → FailedBy true before after → Ticks parseCs answers before after
  | counts {ticks : Int} {after : Conn} : before.Counted ticks →
      Quiet { before with autoreconnectTicksCounter := ticks } after →
      Ticks parseCs answers before after
  | flushes {ticks : Int} {reported middle after : Conn} : before.Counted ticks →
      before.state = .connected → before.uncorkedSize ≠ 0 →
      Quiet { before with autoreconnectTicksCounter := ticks } reported →
      Flushes answers reported middle → Quiet middle after → Ticks parseCs answers before after

theorem idle_tick_quiet (conn : Conn) : Quiet conn conn.idleTick := by
  unfold idleTick
  simp only
  split
  · exact ⟨_, _, _, _, rfl, phases_note conn .idle rfl⟩
  · exact ⟨_, _, _, _, rfl, rfl⟩

theorem opened_tick_ticks (parseCs : Bytes → CsParts) (answers : Answers) (conn after : Conn)
    (ticks : Int) (counted : conn.Counted ticks)
    (done : { conn with autoreconnectTicksCounter := ticks }.openedTick answers = some after) :
    Ticks parseCs answers conn after := by
  unfold openedTick at done
  split at done
  · cases done
    exact .counts counted (.refl _)
  rename_i state
  split at done
  · rename_i stuck
    simp only at done
    cases ran : ({ conn with autoreconnectTicksCounter := ticks }.handleError
        ({ conn with autoreconnectTicksCounter := ticks }.jamReport
          "~~~~~ uncorked data is stuck! ~~~~~") .uncorkedDataJam 0).flush answers with
    | none =>
        rw [ran] at done
        cases done
    | some flushed =>
        rw [ran] at done
        cases done
        exact .flushes counted (not_not.mp state) stuck.1 (error_quiet _ _ _ 0)
          (flush_flushes answers _ flushed ran) flushed.2.idle_tick_quiet
  · cases done
    exact .counts counted (idle_tick_quiet _)

theorem tick_ticks (parseCs : Bytes → CsParts) (answers : Answers) (conn after : Conn)
    (done : conn.tick1sec parseCs answers = some after) : Ticks parseCs answers conn after := by
  unfold tick1sec at done
  by_cases armed : conn.autoreconnectTicksCounter ≥ 0
  · rw [if_pos armed] at done
    simp only at done
    by_cases expired : conn.autoreconnectTicksCounter + 1 ≥ conn.autoreconnectTimeout
    · rw [if_pos expired] at done
      by_cases waiting : conn.state = .disconnected
      · rw [if_pos waiting] at done
        exact .reopens armed waiting (open_opens parseCs answers 0 _ after done)
      · rw [if_neg waiting] at done
        cases done
        apply Ticks.expires armed expired waiting
        obtain ⟨extra, shape, _, phase⟩ := close_shape answers true 0 { conn with
          autoreconnectTicksCounter := conn.autoreconnectTicksCounter + 1 }
        refine ⟨extra ++ [.error (ascii "timeout expired") .timeout 0], ?_, ?_⟩
        · rw [shape]
          unfold closed
          cases opened : conn.socket <;>
            simp [opened, handleError, note, reset, dropSocket, watchSocket, reconnectSoon]
        · rw [phases_append, phase]
          exact List.append_nil _
    · rw [if_neg expired] at done
      exact opened_tick_ticks parseCs answers conn after _ (.inr ⟨armed, rfl, not_le.mp expired⟩) done
  · rw [if_neg armed] at done
    exact opened_tick_ticks parseCs answers conn after _ (.inl ⟨not_le.mp armed, rfl⟩) done

end Conn

def Acceptable (during : State) (code : Nat) : Prop :=
  code = 0 ∨ (during = .featuresRequest ∧ code = unknownRequestType)

theorem response_acceptable (mp : Msgpuck) (mem : Bytes) (during : State) (server proto : ProtoId)
    (code : Nat) (reader reached : MpReader)
    (done : readResponse mp mem during server reader = .returned (.accepted code proto) reached) :
    Acceptable during code := by
  obtain ⟨found, middle, _, rest⟩ := Cxx.bind_inversion done
  by_cases success : found.1 = 0
  · rw [if_pos success] at rest
    by_cases features : during = .featuresRequest
    · rw [if_pos features] at rest
      obtain ⟨_, _, _, rest⟩ := Cxx.bind_inversion rest
      obtain ⟨_, _, _, rest⟩ := Cxx.bind_inversion rest
      cases rest
      exact .inl rfl
    · rw [if_neg features] at rest
      cases rest
      exact .inl rfl
  · rw [if_neg success] at rest
    by_cases unknown : during = .featuresRequest ∧ found.1.toNat &&& 0x7fff = unknownRequestType
    · rw [if_pos unknown] at rest
      cases rest
      exact .inr unknown
    · rw [if_neg unknown] at rest
      obtain ⟨_, _, _, rest⟩ := Cxx.bind_inversion rest
      cases rest

theorem reply_acceptable (mp : Msgpuck) (mem : Bytes) (during : State) (server proto : ProtoId)
    (code : Nat) (reader reached : MpReader)
    (done : readReply mp mem during server reader = .returned (.accepted code proto) reached) :
    Acceptable during code := by
  obtain ⟨response, middle, _, rest⟩ := Cxx.bind_inversion done
  obtain ⟨⟨reply, object⟩, last, read, rest⟩ := Cxx.bind_inversion rest
  cases rest
  unfold Cxx.onObject at read
  cases answered : readResponse mp mem during server response with
  | returned value object =>
      rw [answered] at read
      cases read
      exact response_acceptable mp mem during server proto code response object answered
  | thrown error object =>
      rw [answered] at read
      cases read
  | undefined =>
      rw [answered] at read
      cases read

namespace Conn

def Anonymous (conn : Conn) : Prop := conn.csParts.user = [] ∨ conn.csParts.user = guest

instance (conn : Conn) : Decidable conn.Anonymous := inferInstanceAs (Decidable (_ ∨ _))

def challenged (proto : ProtoId) (code : Nat) (send : SendBuffer) (conn : Conn) : Conn :=
  { conn.clearReceiveBuffer with
    serverProto := proto
    state := .authentication
    session := conn.session ++ [.response conn.state code] ++ [.authRequest]
    requestId := conn.requestId + 1
    requestsIssued := conn.requestsIssued + 1
    sendBuffer := send }

def Lapsed (found failed : Conn) : Prop :=
  ∃ proto state session id issued send notes, failed = { found.clearReceiveBuffer with
    serverProto := proto
    state := state
    session := session
    requestId := id
    requestsIssued := issued
    sendBuffer := send
    notes := notes } ∧ phases notes = phases found.notes ∧ found.requestsIssued ≤ issued ∧
    ∀ text, .greeting text ∈ session → .greeting text ∈ found.session

/-- What a response of the handshake leads to. -/
inductive Handshakes (answers : Answers) (found : Conn) : Conn → Prop where
  | abandons {failed after : Conn} : Lapsed found failed → FailedBy false failed after →
      Handshakes answers found after
  | authenticates {proto : ProtoId} {code : Nat} {send : SendBuffer} {after : Conn} :
      found.state = .featuresRequest → ¬ found.Anonymous → Acceptable .featuresRequest code →
      found.Asks send → Writes answers (found.challenged proto code send) after →
      Handshakes answers found after
  | opens {proto : ProtoId} {code : Nat} {notes : List Note} :
      (found.state = .featuresRequest ∧ found.Anonymous ∧ Acceptable .featuresRequest code ∨
        found.state = .authentication ∧ code = 0) →
      phases notes = phases found.notes ++ (if found.callbacks.opened then [.opened] else []) →
      Handshakes answers found { found.clearReceiveBuffer with
        serverProto := proto
        state := .connected
        autoreconnectTicksCounter := -1
        session := found.session ++ [.response found.state code] ++ [.opened]
        notes := notes }

theorem abandon_failed (answers : Answers) (conn : Conn) :
    FailedBy false conn.clearReceiveBuffer (conn.abandon answers) := by
  obtain ⟨extra, shape, _, phase⟩ := close_shape answers false 0 conn.clearReceiveBuffer
  exact ⟨extra, by rw [abandon, shape]; rfl, phase⟩

theorem set_connected_shape (answers : Answers) (conn : Conn) :
    ∃ notes, conn.setConnected answers = { conn.clearReceiveBuffer with
        state := .connected
        autoreconnectTicksCounter := -1
        session := conn.session ++ [.opened]
        notes := notes } ∧
      phases notes = phases conn.notes ++ (if conn.callbacks.opened then [.opened] else []) := by
  by_cases callback : conn.callbacks.opened = true
  · obtain ⟨extra, shape, _, phase⟩ := called_shape .opened answers.openedThrows
      { conn.clearReceiveBuffer with
        state := .connected
        autoreconnectTicksCounter := -1
        session := conn.session ++ [.opened] } rfl
    refine ⟨conn.notes ++ extra, (if_pos callback).trans shape, ?_⟩
    rw [phases_append, phase, if_pos callback]
    rfl
  · refine ⟨conn.notes, if_neg callback, ?_⟩
    rw [if_neg callback, List.append_nil]

theorem set_connected_opens (answers : Answers) (found : Conn) (proto : ProtoId) (code : Nat)
    (granted : found.state = .featuresRequest ∧ found.Anonymous ∧ Acceptable .featuresRequest code ∨
      found.state = .authentication ∧ code = 0) :
    Handshakes answers found ({ found with
      serverProto := proto
      session := found.session ++ [Milestone.response found.state code] }.setConnected answers) := by
  obtain ⟨notes, shape, phase⟩ := set_connected_shape answers { found with
    serverProto := proto
    session := found.session ++ [Milestone.response found.state code] }
  rw [shape]
  exact .opens granted phase

theorem authenticate_shape (mp : Msgpuck) (crypto : Crypto) (answers : Answers)
    (conn after : Conn) (done : conn.authenticate mp crypto answers = some after) :
    (conn.Anonymous ∧ after = conn.setConnected answers) ∨
      (¬ conn.Anonymous ∧ ∃ send, conn.Asks send ∧ Writes answers { conn.clearReceiveBuffer with
        state := .authentication
        session := conn.session ++ [.authRequest]
        requestId := conn.requestId + 1
        requestsIssued := conn.requestsIssued + 1
        sendBuffer := send } after) ∨
      ∃ failed, Lapsed conn failed ∧ FailedBy false failed after := by
  by_cases anonymous : conn.Anonymous
  · have opened := (if_pos anonymous).symm.trans done
    cases opened
    exact .inl ⟨anonymous, rfl⟩
  have named : ¬ (conn.csParts.user = [] ∨ conn.csParts.user = guest) := anonymous
  unfold authenticate at done
  rw [if_neg named] at done
  simp only at done
  split at done
  · rename_i queued sent
    obtain ⟨send, shape, asks⟩ := send_request_returned _ _ queued
      (fun sync => auth_longer mp crypto _ _ _ _ sync) sent
    have wrote := write_writes answers _ after done
    rw [shape] at wrote
    exact .inr (.inl ⟨anonymous, send, ⟨asks.1, asks.2, asks.3⟩, wrote⟩)
  · rename_i error failed sent
    obtain ⟨send, shape⟩ := send_request_thrown _ _ failed error sent
    cases done
    refine .inr (.inr ⟨_, ?_, abandon_failed answers _⟩)
    rw [shape]
    exact ⟨_, _, _, _, _, _, _, rfl, phases_note _ _ rfl, Nat.le_succ _, fun _ => id⟩
  · cases done

theorem abandon_handshakes (answers : Answers) (found : Conn) (message : Bytes) (code : ErrorCode)
    (dbError : Nat) :
    Handshakes answers found ((found.handleError message code dbError).abandon answers) := by
  apply Handshakes.abandons _ (abandon_failed answers (found.handleError message code dbError))
  exact ⟨_, _, _, _, _, _, _, rfl, phases_note found _ rfl, Nat.le_refl _, fun _ => id⟩

theorem lapsed_answered {found failed : Conn} {proto : ProtoId} {during : State} {code : Nat}
    (lapsed : Lapsed { found with
      serverProto := proto
      session := found.session ++ [.response during code] } failed) : Lapsed found failed := by
  obtain ⟨_, _, _, _, _, _, _, rfl, phase, issued, greetings⟩ := lapsed
  refine ⟨_, _, _, _, _, _, _, rfl, phase, issued, ?_⟩
  intro text member
  rcases List.mem_append.mp (greetings text member) with kept | answer
  · exact kept
  · cases List.mem_singleton.mp answer

theorem handshake_handshakes (mp : Msgpuck) (crypto : Crypto) (answers : Answers)
    (found after : Conn) (state : found.state = .featuresRequest ∨ found.state = .authentication)
    (done : found.handshake mp crypto answers = some after) : Handshakes answers found after := by
  unfold handshake at done
  simp only at done
  split at done
  · cases done
  · rename_i error _ _
    rw [← Option.some.inj done]
    exact abandon_handshakes answers found (ascii error.what) _ 0
  · rename_i message code _ _
    rw [← Option.some.inj done]
    exact abandon_handshakes answers found message _ code
  · rename_i code proto reader read
    have acceptable := reply_acceptable mp _ _ _ _ _ _ _ read
    by_cases features : found.state = .featuresRequest
    · rw [if_pos features] at done
      rw [features] at acceptable
      rcases authenticate_shape mp crypto answers _ after done with ⟨anonymous, rfl⟩ |
        ⟨named, send, asks, wrote⟩ | ⟨failed, lapsed, ended⟩
      · exact set_connected_opens answers found proto code (.inl ⟨features, anonymous, acceptable⟩)
      · exact .authenticates features named acceptable ⟨asks.1, asks.2, asks.3⟩ wrote
      · exact .abandons (lapsed_answered lapsed) ended
    · rw [if_neg features] at done
      cases done
      apply set_connected_opens
      rcases acceptable with success | ⟨other, _⟩
      · exact .inr ⟨state.resolve_left features, success⟩
      · exact absurd other features

/-- These bytes have arrived in the receive buffer. -/
structure Receives (before : Conn) (buffer : OwnedBuffer UInt8) (bytes : Bytes) : Prop where
  socket : before.socket = true
  content : buffer.content = before.receiveBuffer.content ++ bytes
  room : before.receiveBuffer.capacity ≤ buffer.capacity

def arrived (buffer : OwnedBuffer UInt8) (bytes : Bytes) (conn : Conn) : Conn :=
  { conn with idleTicksCounter := 0 }.taken buffer bytes

def greeted (send : SendBuffer) (conn : Conn) : Conn :=
  { conn.clearReceiveBuffer with
    greeting := conn.receiveBuffer.content
    state := .featuresRequest
    session := conn.session ++ [Milestone.greeting conn.receiveBuffer.content]
    requestId := conn.requestId + 1
    requestsIssued := conn.requestsIssued + 1
    sendBuffer := send }

inductive Reads (answers : Answers) (before : Conn) : Conn → Prop where
  | nothing : before.socket = false → Reads answers before before
  | ended {buffer : OwnedBuffer UInt8} {bytes : Bytes} {after : Conn} :
      before.Receives buffer bytes → (before.Roomy → ¬ Ongoing answers.recvs) →
      FailedBy true (before.arrived buffer bytes) after → Reads answers before after
  | waits {buffer : OwnedBuffer UInt8} {bytes : Bytes} :
      before.Receives buffer bytes → before.state = .connecting →
      Reads answers before (before.arrived buffer bytes)
  | greets {buffer : OwnedBuffer UInt8} {bytes : Bytes} {send : SendBuffer} {after : Conn} :
      before.Receives buffer bytes → before.state = .connecting → greetingSize ≤ buffer.size →
      before.Asks send → Writes answers ((before.arrived buffer bytes).greeted send) after →
      bytes = before.arriving answers → Reads answers before after
  | holds {buffer : OwnedBuffer UInt8} {bytes : Bytes} {after : Conn} :
      before.Receives buffer bytes → before.state ≠ .connecting →
      InputOnly (before.arrived buffer bytes) after →
      ((before.arrived buffer bytes).HeadWithin → after.HeadWithin) → Reads answers before after
  | handshakes {buffer : OwnedBuffer UInt8} {bytes : Bytes} {found after : Conn} :
      before.Receives buffer bytes →
      (before.state = .featuresRequest ∨ before.state = .authentication) →
      InputOnly (before.arrived buffer bytes) found →
      ((before.arrived buffer bytes).HeadWithin → found.HeadWithin) →
      Handshakes answers found after → Reads answers before after

theorem greet_writes (mp : Msgpuck) (answers : Answers) (conn after : Conn)
    (done : conn.takeGreeting mp answers = some after) :
    ∃ send, conn.Asks send ∧ Writes answers (conn.greeted send) after := by
  unfold takeGreeting at done
  simp only at done
  split at done
  · rename_i queued sent
    obtain ⟨send, shape, asks⟩ := send_request_returned _ _ queued (fun sync => id_longer mp _ sync)
      sent
    have wrote := write_writes answers _ after done
    rw [shape] at wrote
    exact ⟨send, ⟨asks.1, asks.2, asks.3⟩, wrote⟩
  · cases done

theorem pass_head (answers : List ResponseAnswer) (conn : Conn) (within : conn.HeadWithin) :
    (passResponseToCaller answers conn).HeadWithin := by
  rcases pass_shape answers conn with same | ⟨_, _, _, shape, _⟩
  · rw [same]
    exact within
  · obtain ⟨_, _, swapped, _⟩ := conn.hand_over_swaps
    have done : conn.handOver.lastReceivedHeadOffset = 0 := by rw [swapped]
    rw [shape, HeadWithin, done]
    exact Nat.zero_le _

theorem process_reads (mp : Msgpuck) (crypto : Crypto) (answers : Answers) (before after : Conn)
    (buffer : OwnedBuffer UInt8) (bytes : Bytes) (receives : before.Receives buffer bytes)
    (state : before.state ≠ .connecting)
    (done : (before.arrived buffer bytes).processReceiveBuffer mp crypto answers = some after) :
    Reads answers before after := by
  have found := detect_input mp (before.arrived buffer bytes)
  have within := detect_head mp (before.arrived buffer bytes)
  unfold processReceiveBuffer at done
  simp only at done
  split at done
  · cases done
    exact .holds receives state found within
  split at done
  · rename_i during
    apply Reads.handshakes receives _ found within
      (handshake_handshakes mp crypto answers _ after during done)
    obtain ⟨_, _, _, _, _, _, shape, _⟩ := found
    rw [shape] at during
    exact during
  split at done
  · cases done
    exact .holds receives state (found.trans (pass_input answers.responses _))
      fun held => pass_head answers.responses _ (within held)
  · cases done
    exact .holds receives state found within

theorem read_reads (mp : Msgpuck) (crypto : Crypto) (answers : Answers) (conn after : Conn)
    (done : conn.read mp crypto answers = some after) : Reads answers conn after := by
  obtain ⟨buffer, content, room, ended⟩ := conn.receive_shape answers
  unfold read at done
  simp only at done
  by_cases closed : conn.socket = false
  · rw [closed] at done
    cases done
    exact .nothing closed
  have receives : conn.Receives buffer (conn.arriving answers) :=
    ⟨eq_true_of_ne_false closed, content, room⟩
  rw [eq_true_of_ne_false closed] at done
  rcases ended with ⟨paused, shape⟩ | ⟨met, message, code, shape⟩
  · have going : (conn.receive answers).1 = true := by simpa [meetsEnd] using paused
    have loop : (conn.receive answers).2 = conn.arrived buffer (conn.arriving answers) := shape
    rw [going, loop] at done
    simp only [Bool.not_true, Bool.false_eq_true, if_false] at done
    by_cases connecting : conn.state = .connecting
    · have still : (conn.arrived buffer (conn.arriving answers)).state = .connecting := connecting
      rw [if_pos still] at done
      split at done
      · cases done
        exact .waits receives connecting
      · rename_i enough
        obtain ⟨send, asks, wrote⟩ := greet_writes mp answers _ after done
        exact .greets receives connecting (not_lt.mp enough) ⟨asks.1, asks.2, asks.3⟩ wrote rfl
    · have still : ¬ (conn.arrived buffer (conn.arriving answers)).state = .connecting := connecting
      rw [if_neg still] at done
      exact process_reads mp crypto answers conn after buffer _ receives connecting done
  · have stopped : (conn.receive answers).1 = false := by simpa [meetsEnd] using met
    rw [stopped, shape] at done
    simp only [Bool.not_true, Bool.not_false, Bool.false_eq_true, if_false, if_true] at done
    cases done
    apply Reads.ended receives
    · intro roomy ongoing
      have going := recv_loop_ongoing answers answers.recvs { conn with idleTicksCounter := 0 }
        roomy.receive ongoing
      exact absurd (going.symm.trans stopped) Bool.noConfusion
    · exact fail_failed answers message code true _

theorem FailedBy.received {handler : Bool} {before after : Conn}
    (failed : FailedBy handler before after) : after.received = before.received := by
  obtain ⟨extra, rfl, _⟩ := failed
  unfold closed
  split <;> rfl

theorem Writes.received {answers : Answers} {before after : Conn}
    (writes : Writes answers before after) : after.received = before.received := by
  cases writes with
  | established => rfl
  | refused _ _ failed => exact failed.received
  | sends _ moved _ ended =>
      obtain ⟨_, _, _, _, _, _, _, rfl, _⟩ := moved.output
      cases ended with
      | drained => rfl
      | paused => rfl
      | failed _ _ failed => exact failed.received

theorem Reads.received {answers : Answers} {before after : Conn}
    (reads : Reads answers before after) : before.received <+: after.received := by
  cases reads with
  | nothing => exact List.prefix_refl _
  | ended _ _ failed =>
      rw [failed.received]
      exact List.prefix_append _ _
  | waits => exact List.prefix_append _ _
  | greets _ _ _ _ wrote =>
      rw [wrote.received]
      exact List.prefix_append _ _
  | holds _ _ input =>
      obtain ⟨_, _, _, _, _, _, rfl, _⟩ := input
      exact List.prefix_append _ _
  | handshakes _ _ input _ shaken =>
      obtain ⟨_, _, _, _, _, _, rfl, _⟩ := input
      cases shaken with
      | abandons lapsed failed =>
          obtain ⟨_, _, _, _, _, _, _, rfl, _⟩ := lapsed
          rw [failed.received]
          exact List.prefix_append _ _
      | authenticates _ _ _ _ wrote =>
          rw [wrote.received]
          exact List.prefix_append _ _
      | opens => exact List.prefix_append _ _

theorem address_resolved_tries (answers : Answers) (conn : Conn)
    (state : conn.state = .addressResolving) :
    Tries answers.attempts conn (conn.addressResolved answers) := by
  have loop : conn.addressResolved answers = connectLoop answers answers.attempts conn :=
    if_neg (not_not.mpr state)
  rw [loop]
  exact connect_loop_tries answers answers.attempts conn

end Conn

end Cpp2tnt
