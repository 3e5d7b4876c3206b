import Cpp2tnt.Connection

/-!
What each function of a connection can do, said once: which fields it may
change, and how. The invariants of the later modules are derived from these
statements and never unfold the functions again.
-/

namespace Cpp2tnt
open Imperative MessagePack

def Note.isQuiet : Note → Bool
  | .response _ | .processed => false
  | _ => true

def Note.isPhase : Note → Bool
  | .opened | .closed => true
  | _ => false

/-- The calls of the opened and closed callbacks. -/
def phases (notes : List Note) : List Note := notes.filter Note.isPhase

@[simp] theorem phases_append (front back : List Note) :
    phases (front ++ back) = phases front ++ phases back := List.filter_append _ _

namespace Conn

/-- There is always room for a byte more. -/
structure Roomy (conn : Conn) : Prop where
  receive : 2 ≤ conn.receiveBuffer.capacity
  input : 2 ≤ conn.inputBuffer.capacity

def InputOnly (before after : Conn) : Prop :=
  ∃ receive input idle head detected notes, after = { before with
    receiveBuffer := receive
    inputBuffer := input
    callerIdle := idle
    lastReceivedHeadOffset := head
    detectedResponseSize := detected
    notes := notes } ∧ phases notes = phases before.notes ∧ (before.Roomy → after.Roomy)

theorem InputOnly.refl (conn : Conn) : InputOnly conn conn := ⟨_, _, _, _, _, _, rfl, rfl, id⟩

theorem InputOnly.trans {first second third : Conn} (left : InputOnly first second)
    (right : InputOnly second third) : InputOnly first third := by
  obtain ⟨_, _, _, _, _, _, rfl, calm, room⟩ := left
  obtain ⟨_, _, _, _, _, _, rfl, still, kept⟩ := right
  exact ⟨_, _, _, _, _, _, rfl, still.trans calm, kept ∘ room⟩

def OutputOnly (before after : Conn) : Prop :=
  ∃ output send uncorked accepted time idle notes, after = { before with
    outputBuffer := output
    sendBuffer := send
    uncorkedSize := uncorked
    accepted := accepted
    lastWriteTime := time
    idleTicksCounter := idle
    notes := notes } ∧ phases notes = phases before.notes

theorem OutputOnly.refl (conn : Conn) : OutputOnly conn conn := ⟨_, _, _, _, _, _, _, rfl, rfl⟩

theorem OutputOnly.trans {first second third : Conn} (left : OutputOnly first second)
    (right : OutputOnly second third) : OutputOnly first third := by
  obtain ⟨_, _, _, _, _, _, _, rfl, calm⟩ := left
  obtain ⟨_, _, _, _, _, _, _, rfl, still⟩ := right
  exact ⟨_, _, _, _, _, _, _, rfl, still.trans calm⟩

def Quiet (before after : Conn) : Prop :=
  ∃ notes idle cs proto, after = { before with
    notes := notes
    idleTicksCounter := idle
    currentCs := cs
    requiredProto := proto } ∧ phases notes = phases before.notes

theorem Quiet.refl (conn : Conn) : Quiet conn conn := ⟨_, _, _, _, rfl, rfl⟩

theorem Quiet.trans {first second third : Conn} (left : Quiet first second)
    (right : Quiet second third) : Quiet first third := by
  obtain ⟨_, _, _, _, rfl, calm⟩ := left
  obtain ⟨_, _, _, _, rfl, still⟩ := right
  exact ⟨_, _, _, _, rfl, still.trans calm⟩

theorem phases_note (conn : Conn) (item : Note) (calm : item.isPhase = false) :
    phases (conn.note item).notes = phases conn.notes := by
  have none : phases [item] = [] := by simp [phases, calm]
  rw [note, phases_append, none, List.append_nil]

theorem error_quiet (conn : Conn) (message : Bytes) (code : ErrorCode) (dbError : Nat) :
    Quiet conn (conn.handleError message code dbError) :=
  ⟨_, _, _, _, rfl, conn.phases_note _ rfl⟩

/-- What is queued for the socket, and what it has accepted. -/
def held (conn : Conn) : List OutByte :=
  conn.accepted ++ conn.sendBuffer.buffer.content ++ conn.outputBuffer.content

def Marked (conn : Conn) : Prop := conn.uncorkedSize ≠ 0 → conn.sendBuffer.unsent ≠ []

def Within (conn : Conn) : Prop := conn.uncorkedSize ≤ conn.outputBuffer.size

/-- What has left the output buffer: accepted, or next to be. -/
def queue (conn : Conn) : List OutByte := conn.accepted ++ conn.sendBuffer.unsent

/-- Bytes may have moved on the output side; none has come from elsewhere, and
without a mark none has left the output buffer. -/
structure Moved (before after : Conn) : Prop where
  output : OutputOnly before after
  held : after.held ⊆ before.held
  within : before.Within → after.Within
  unmarked : before.uncorkedSize = 0 → after.uncorkedSize = 0 ∧ after.queue = before.queue

theorem Moved.refl (conn : Conn) : Moved conn conn :=
  ⟨.refl conn, List.Subset.refl _, id, fun none => ⟨none, rfl⟩⟩

theorem Moved.trans {first second third : Conn} (left : Moved first second)
    (right : Moved second third) : Moved first third where
  output := left.output.trans right.output
  held := List.Subset.trans right.held left.held
  within := right.within ∘ left.within
  unmarked := by
    intro none
    obtain ⟨still, same⟩ := left.unmarked none
    obtain ⟨after, kept⟩ := right.unmarked still
    exact ⟨after, kept.trans same⟩

def reports (handler : Bool) (conn : Conn) : Bool :=
  conn.socket && conn.state ≠ .connecting && conn.callbacks.closed && handler

theorem called_shape (item : Note) (throws : Option String) (conn : Conn) (quiet : item.isQuiet) :
    ∃ extra, conn.called item throws = { conn with notes := conn.notes ++ extra } ∧
      (∀ other ∈ extra, other.isQuiet) ∧ phases extra = phases [item] := by
  cases throws with
  | none => exact ⟨[item], rfl, by simpa using quiet, rfl⟩
  | some what =>
      refine ⟨[item, .error (ascii what) .external 0], ?_, by simpa [Note.isQuiet] using quiet, ?_⟩
      · simp [called, note, handleError]
      · cases item <;> rfl

/-- The state after `close()`, but for what is reported. -/
def closed (autoreconnectDelay : Int) (conn : Conn) : Conn :=
  if conn.socket then (conn.reset autoreconnectDelay).dropSocket else conn.reset autoreconnectDelay

theorem close_shape (answers : Answers) (handler : Bool) (delay : Int) (conn : Conn) :
    ∃ extra, conn.close answers handler delay =
        { conn.closed delay with notes := conn.notes ++ extra } ∧
      (∀ item ∈ extra, item.isQuiet) ∧
      phases extra = if conn.reports handler then [.closed] else [] := by
  unfold close closed reports
  cases opened : conn.socket with
  | false => exact ⟨[], by simp [reset], by simp, rfl⟩
  | true =>
      simp only [Bool.not_true, Bool.false_eq_true, if_false, if_true]
      by_cases called : conn.state ≠ .connecting ∧ conn.callbacks.closed = true ∧ handler = true
      · obtain ⟨extra, shape, quiet, phase⟩ := called_shape .closed answers.closedThrows
          (conn.reset delay).dropSocket rfl
        refine ⟨extra, ?_, quiet, ?_⟩
        · rw [if_pos called]
          exact shape
        · rw [phase]
          simp [called, phases, Note.isPhase]
      · refine ⟨[], ?_, by simp, ?_⟩
        · rw [if_neg called]
          simp [reset, dropSocket, watchSocket]
        · have silent : ¬ (true && decide (conn.state ≠ .connecting) && conn.callbacks.closed &&
              handler) = true := by
            simpa [and_assoc] using called
          rw [if_neg silent]
          rfl

theorem fail_shape (answers : Answers) (message : Bytes) (code : ErrorCode) (handler : Bool)
    (conn : Conn) :
    ∃ extra, conn.fail answers message code handler =
        { (conn.closed 0).reconnectSoon with notes := conn.notes ++ extra } ∧
      (∀ item ∈ extra, item.isQuiet) ∧
      phases extra = if conn.reports handler then [.closed] else [] := by
  obtain ⟨extra, shape, quiet, phase⟩ :=
    close_shape answers handler 0 (conn.handleError message code 0)
  refine ⟨.error message code 0 :: extra, ?_, by simpa [Note.isQuiet] using quiet, phase⟩
  rw [fail, shape]
  unfold closed
  cases opened : conn.socket <;>
    simp [opened, handleError, note, reset, dropSocket, watchSocket, reconnectSoon]

/-- A session, or an attempt, that ended by `close()`, with a reconnect soon. -/
def FailedBy (handler : Bool) (before after : Conn) : Prop :=
  ∃ extra, after = { (before.closed 0).reconnectSoon with notes := before.notes ++ extra } ∧
    phases extra = if before.reports handler then [.closed] else []

theorem fail_failed (answers : Answers) (message : Bytes) (code : ErrorCode) (handler : Bool)
    (conn : Conn) : FailedBy handler conn (conn.fail answers message code handler) := by
  obtain ⟨extra, shape, _, phase⟩ := fail_shape answers message code handler conn
  exact ⟨extra, shape, phase⟩

theorem sent_moved (now : Int) (count : Nat) (conn : Conn) : Moved conn (conn.sent now count) := by
  have some : conn.sendBuffer.unsent.take count ⊆ conn.sendBuffer.buffer.content :=
    List.Subset.trans (List.take_subset _ _) (List.drop_subset _ _)
  constructor
  · exact ⟨_, _, _, _, _, _, _, rfl, rfl⟩
  · intro byte member
    simp only [held, sent, SendBuffer.advance_buffer, List.mem_append] at member ⊢
    rcases member with ((old | new) | kept) | kept
    · exact .inl (.inl old)
    · exact .inl (.inr (some new))
    · exact .inl (.inr kept)
    · exact .inr kept
  · exact id
  · intro none
    refine ⟨none, ?_⟩
    simp only [queue, sent, SendBuffer.advance_unsent, List.append_assoc, List.take_append_drop]

theorem sent_left (now : Int) (count left : Nat) (conn : Conn)
    (offered : conn.sendBuffer.unsent.length = left) :
    (conn.sent now count).sendBuffer.unsent.length = left - count := by
  simp only [sent, SendBuffer.advance_unsent, List.length_drop, offered]

theorem swap_shape (conn swapped : Conn) (done : conn.swapCorked = some swapped)
    (within : conn.uncorkedSize ≤ conn.outputBuffer.size) (marked : conn.uncorkedSize ≠ 0) :
    Moved conn swapped ∧ swapped.uncorkedSize = 0 ∧
      swapped.sendBuffer.unsent.length = conn.uncorkedSize := by
  have small : ∀ after : Conn, after.uncorkedSize = 0 → after.Within := by
    intro after none
    rw [Within, none]
    exact Nat.zero_le _
  unfold swapCorked at done
  simp only at done
  split at done
  · split at done
    · have front := OwnedBuffer.resize_content conn.uncorkedSize conn.outputBuffer within
      cases done
      refine ⟨⟨⟨_, _, _, _, _, _, _, rfl, rfl⟩, ?_, fun _ => small _ rfl,
        fun none => absurd none marked⟩, rfl, ?_⟩
      · intro byte member
        simp only [held, SendBuffer.ofBuffer, front, OwnedBuffer.overwrite_resize_content,
          List.mem_append] at member ⊢
        rcases member with (old | taken) | tail
        · exact .inl (.inl old)
        · exact .inr (List.mem_of_mem_take taken)
        · exact .inr (List.mem_of_mem_drop tail)
      · rw [SendBuffer.of_buffer_unsent, front, List.length_take]
        exact Nat.min_eq_left within
    · cases done
  · rename_i corked
    cases done
    refine ⟨⟨⟨_, _, _, _, _, _, _, rfl, rfl⟩, ?_, fun _ => small _ rfl,
      fun none => absurd none marked⟩, rfl, ?_⟩
    · intro byte member
      simp only [held, SendBuffer.ofBuffer, OwnedBuffer.clear_content, List.mem_append,
        List.not_mem_nil, or_false] at member ⊢
      rcases member with old | output
      · exact .inl (.inl old)
      · exact .inr output
    · exact Nat.le_antisymm (Nat.le_of_not_lt corked) within

theorem send_loop_kept {kept : Conn → Prop} (answers : Answers)
    (watched : ∀ conn mode, kept conn → kept (conn.watchSocket mode))
    (failed : ∀ conn, kept conn → kept (conn.fail answers [] .system true))
    (sent : ∀ conn count, kept conn → kept (conn.sent answers.now count))
    (swapped : ∀ conn next, kept conn → conn.swapCorked = some next → kept next)
    (results : List SendResult) (left : Nat) {conn after : Conn} (held : kept conn)
    (done : sendLoop answers results left conn = some after) : kept after := by
  -- on the results: each pass takes one, also where `send` was interrupted
  induction results generalizing left conn with
  | nil =>
      cases left with
      | zero =>
          cases done
          exact watched conn .read held
      | succ left =>
          cases done
          exact watched conn .readWrite held
  | cons result results ih =>
      cases left with
      | zero =>
          cases done
          exact watched conn .read held
      | succ left =>
          cases result with
          | eagain =>
              cases done
              exact watched conn .readWrite held
          | error =>
              cases done
              exact failed conn held
          | eintr => exact ih (left + 1) held done
          | accepted more =>
              have moved := sent conn (min (more + 1) (left + 1)) held
              rw [sendLoop] at done
              split at done
              · split at done
                · split at done
                  · rename_i next swap
                    exact ih _ (swapped _ next moved swap) done
                  · cases done
                · cases done
              · exact ih _ moved done

/-- How the send loop ends, after it has moved bytes up to `middle`. -/
inductive Ended (answers : Answers) (begun middle : Conn) : Conn → Prop where
  | drained : middle.sendBuffer.unsent = [] →
      (begun.socket = true ∨ begun.sendBuffer.unsent = []) →
      Ended answers begun middle (middle.watchSocket .read)
  | paused : begun.socket = true → Ended answers begun middle (middle.watchSocket .readWrite)
  | failed {after : Conn} : (begun.socket = false ∧ middle.accepted = begun.accepted ∨
        begun.socket = true ∧ SendResult.error ∈ answers.sends) →
      begun.sendBuffer.unsent ≠ [] → FailedBy true middle after →
      Ended answers begun middle after

theorem send_loop_shape (answers : Answers) (results : List SendResult) (left : Nat)
    (conn after : Conn) (done : sendLoop answers results left conn = some after)
    (offered : conn.sendBuffer.unsent.length = left) :
    ∃ middle, Moved conn middle ∧ (conn.Marked → middle.Marked) ∧
      ((after = middle.watchSocket .read ∧ middle.sendBuffer.unsent = []) ∨
        (after = middle.watchSocket .readWrite ∧ left ≠ 0) ∨
        (after = middle.fail answers [] .system true ∧ SendResult.error ∈ results ∧ left ≠ 0)) := by
  induction results generalizing left conn with
  | nil =>
      cases left with
      | zero =>
          cases done
          exact ⟨conn, .refl conn, id, .inl ⟨rfl, List.eq_nil_of_length_eq_zero offered⟩⟩
      | succ left =>
          cases done
          exact ⟨conn, .refl conn, id, .inr (.inl ⟨rfl, Nat.succ_ne_zero left⟩)⟩
  | cons result results ih =>
      -- a turn that goes on: its move is composed with what the rest of the loop does
      have later : ∀ next rest, left ≠ 0 → Moved conn next → (conn.Marked → next.Marked) →
          next.sendBuffer.unsent.length = rest → sendLoop answers results rest next = some after →
          ∃ middle, Moved conn middle ∧ (conn.Marked → middle.Marked) ∧
            ((after = middle.watchSocket .read ∧ middle.sendBuffer.unsent = []) ∨
              (after = middle.watchSocket .readWrite ∧ left ≠ 0) ∨
              (after = middle.fail answers [] .system true ∧
                SendResult.error ∈ result :: results ∧ left ≠ 0)) := by
        intro next rest some moved still queue ran
        obtain ⟨middle, more, kept, ended⟩ := ih rest next ran queue
        refine ⟨middle, moved.trans more, fun marked => kept (still marked), ?_⟩
        rcases ended with quiet | ⟨paused, _⟩ | ⟨failed, fatal, _⟩
        · exact .inl quiet
        · exact .inr (.inl ⟨paused, some⟩)
        · exact .inr (.inr ⟨failed, List.mem_cons_of_mem _ fatal, some⟩)
      cases left with
      | zero =>
          cases done
          exact ⟨conn, .refl conn, id, .inl ⟨rfl, List.eq_nil_of_length_eq_zero offered⟩⟩
      | succ left =>
          have some := Nat.succ_ne_zero left
          cases result with
          | eagain =>
              cases done
              exact ⟨conn, .refl conn, id, .inr (.inl ⟨rfl, some⟩)⟩
          | error =>
              cases done
              exact ⟨conn, .refl conn, id, .inr (.inr ⟨rfl, List.mem_cons_self, some⟩)⟩
          | eintr => exact later conn (left + 1) some (.refl conn) id offered done
          | accepted more =>
              have sent := sent_moved answers.now (min (more + 1) (left + 1)) conn
              have remaining := sent_left answers.now (min (more + 1) (left + 1)) (left + 1) conn
                offered
              rw [sendLoop] at done
              split at done
              · rename_i swaps
                split at done
                · rename_i within
                  split at done
                  · rename_i swapped swap
                    obtain ⟨moved, clean, queue⟩ := swap_shape _ swapped swap within swaps.2
                    exact later swapped _ some (sent.trans moved) (fun _ still => absurd clean still)
                      queue done
                  · cases done
                · cases done
              · rename_i unfinished
                apply later _ _ some sent _ remaining done
                intro _ corked empty
                rw [empty] at remaining
                exact unfinished ⟨remaining.symm, corked⟩

theorem start_write_moved (conn : Conn) :
    Moved conn conn.startWrite ∧ conn.startWrite.sendBuffer = conn.sendBuffer ∧
      conn.startWrite.uncorkedSize = conn.uncorkedSize := by
  unfold startWrite
  simp only
  split
  · refine ⟨⟨⟨_, _, _, _, _, _, _, rfl, ?_⟩, List.Subset.refl _, id, fun none => ⟨none, rfl⟩⟩,
      rfl, rfl⟩
    exact phases_note _ _ rfl
  · exact ⟨⟨⟨_, _, _, _, _, _, _, rfl, rfl⟩, List.Subset.refl _, id, fun none => ⟨none, rfl⟩⟩,
      rfl, rfl⟩

/-- What `write()` does outside `connecting`. With nothing to send it only asks
to be called; a closed socket fails whatever is sent. -/
theorem write_shape (answers : Answers) (conn after : Conn) (state : conn.state ≠ .connecting)
    (done : conn.write answers = some after) :
    ∃ middle, Moved conn middle ∧ (conn.Marked → middle.Marked) ∧
      Ended answers conn middle after := by
  obtain ⟨begun, queue, mark⟩ := start_write_moved conn
  have started : conn.Marked → conn.startWrite.Marked := by
    rw [Marked, Marked, queue, mark]
    exact id
  have filled : conn.sendBuffer.unsent.length ≠ 0 → conn.sendBuffer.unsent ≠ [] := by
    intro some none
    exact some (congrArg List.length none)
  rw [write, if_neg state] at done
  by_cases ready : conn.socket = true ∨ conn.sendBuffer.unsent = []
  · obtain ⟨middle, moved, kept, ended⟩ := send_loop_shape answers _ _ _ after done
      (congrArg (fun send => send.unsent.length) queue)
    refine ⟨middle, begun.trans moved, fun marked => kept (started marked), ?_⟩
    have opened : conn.sendBuffer.unsent.length ≠ 0 → conn.socket = true := by
      intro some
      rcases ready with opened | none
      · exact opened
      · exact absurd none (filled some)
    rcases ended with ⟨rfl, empty⟩ | ⟨rfl, some⟩ | ⟨rfl, fatal, some⟩
    · exact .drained empty ready
    · exact .paused (opened some)
    · rw [if_pos (opened some)] at fatal
      exact .failed (.inr ⟨opened some, fatal⟩) (filled some) (fail_failed answers [] .system true middle)
  · have closed : conn.socket = false := by
      cases opened : conn.socket with
      | true => exact absurd (.inl opened) ready
      | false => rfl
    have some : conn.sendBuffer.unsent ≠ [] := fun none => ready (.inr none)
    obtain ⟨left, offered⟩ := Nat.exists_eq_succ_of_ne_zero
      (fun empty => some (List.eq_nil_of_length_eq_zero empty))
    rw [closed, if_neg Bool.false_ne_true, offered] at done
    cases done
    have nothing : conn.startWrite.accepted = conn.accepted := by
      unfold startWrite
      simp only
      split <;> rfl
    exact ⟨conn.startWrite, begun, started, .failed (.inl ⟨closed, nothing⟩) some
      (fail_failed answers [] .system true conn.startWrite)⟩

theorem hand_over_swaps (conn : Conn) :
    ∃ receive input : OwnedBuffer UInt8, conn.handOver = { conn with
        receiveBuffer := receive
        inputBuffer := input
        lastReceivedHeadOffset := 0 } ∧
      conn.receiveBuffer.capacity ≤ input.capacity ∧
      conn.inputBuffer.capacity ≤ receive.capacity := by
  unfold handOver
  by_cases some : (conn.receiveBuffer.content.drop conn.lastReceivedHeadOffset).length ≠ 0
  · simp only [if_pos some]
    refine ⟨_, _, rfl, ?_, ?_⟩
    · rw [OwnedBuffer.resize_capacity]
      exact Nat.le_max_left _ _
    · rw [OwnedBuffer.overwrite_capacity, OwnedBuffer.resize_capacity, OwnedBuffer.clear_capacity]
      omega
  · simp only [if_neg some]
    refine ⟨_, _, rfl, Nat.le_refl _, ?_⟩
    rw [OwnedBuffer.clear_capacity]

theorem pass_nothing (answers : List ResponseAnswer) (conn : Conn)
    (none : conn.lastReceivedHeadOffset = 0) : passResponseToCaller answers conn = conn := by
  rw [passResponseToCaller, if_pos none]

/-- What `close()` would drop: the bytes after the whole responses. -/
def orphaned (conn : Conn) : Bytes := conn.receiveBuffer.content.drop conn.lastReceivedHeadOffset

theorem hand_over_orphaned (conn : Conn) : conn.handOver.receiveBuffer.content = conn.orphaned := by
  unfold handOver
  by_cases some : (conn.receiveBuffer.content.drop conn.lastReceivedHeadOffset).length ≠ 0
  · simp only [if_pos some]
    exact OwnedBuffer.resize_overwrite_content _ _
  · simp only [if_neg some]
    exact (List.eq_nil_of_length_eq_zero (not_not.mp some)).symm

theorem note_input (conn : Conn) (item : Note) (calm : item.isPhase = false) :
    InputOnly conn (conn.note item) :=
  ⟨_, _, _, _, _, _, rfl, conn.phases_note item calm, fun room => ⟨room.1, room.2⟩⟩

theorem idle_input (conn : Conn) (idle : Bool) : InputOnly conn { conn with callerIdle := idle } :=
  ⟨_, _, _, _, _, _, rfl, rfl, fun room => ⟨room.1, room.2⟩⟩

theorem released_input (conn : Conn) : InputOnly conn conn.releaseInput :=
  (conn.idle_input true).trans (note_input _ .processed rfl)

theorem pass_shape (answers : List ResponseAnswer) (conn : Conn) :
    passResponseToCaller answers conn = conn ∨
      ∃ input idle notes, passResponseToCaller answers conn = { conn.handOver with
        inputBuffer := input
        callerIdle := idle
        notes := notes } ∧
        phases notes = phases conn.notes ∧ input.capacity = conn.handOver.inputBuffer.capacity := by
  by_cases none : conn.lastReceivedHeadOffset = 0
  · exact .inl (pass_nothing answers conn none)
  obtain ⟨receive, input, swapped, _⟩ := conn.hand_over_swaps
  have noted : conn.handOver.notes = conn.notes := by rw [swapped]
  have done : conn.handOver.lastReceivedHeadOffset = 0 := by rw [swapped]
  refine .inr ?_
  rw [passResponseToCaller, if_neg none]
  simp only
  split
  · exact ⟨_, conn.handOver.callerIdle, conn.handOver.notes, rfl, congrArg phases noted,
      OwnedBuffer.clear_capacity _⟩
  have given : phases ({ conn.handOver with callerIdle := false }.note
      (.response conn.handOver.inputBuffer.content)).notes = phases conn.notes := by
    rw [phases_note _ _ rfl, noted]
  cases answers with
  | nil => exact ⟨_, _, _, rfl, given, rfl⟩
  | cons answer rest =>
      -- the call from inside the callback finds no responses
      have again : ∀ idle notes, passResponseToCaller rest { conn.handOver with
          callerIdle := idle
          notes := notes } = { conn.handOver with callerIdle := idle, notes := notes } :=
        fun idle notes => pass_nothing rest _ done
      have after : ∃ idle notes, (if answer.processed = true then
          passResponseToCaller rest ({ conn.handOver with callerIdle := false }.note
            (.response conn.handOver.inputBuffer.content)).releaseInput
          else { conn.handOver with callerIdle := false }.note
            (.response conn.handOver.inputBuffer.content)) =
          { conn.handOver with callerIdle := idle, notes := notes } ∧
            phases notes = phases conn.notes := by
        split
        · exact ⟨_, _, again _ _, (phases_note _ .processed rfl).trans given⟩
        · exact ⟨_, _, rfl, given⟩
      obtain ⟨idle, notes, reached, calm⟩ := after
      simp only [reached]
      split
      · exact ⟨_, _, _, rfl, calm, rfl⟩
      · rename_i what _
        have reported := phases_note { conn.handOver with callerIdle := idle, notes := notes }
          (.error (ascii what) .system 0) rfl
        exact ⟨_, _, _, again _ _, (phases_note _ .processed rfl).trans (reported.trans calm), rfl⟩

theorem pass_input (answers : List ResponseAnswer) (conn : Conn) :
    InputOnly conn (passResponseToCaller answers conn) := by
  rcases pass_shape answers conn with same | ⟨input, idle, notes, shape, calm, room⟩
  · rw [same]
    exact .refl conn
  · obtain ⟨receive, _, swapped, grownInput, grownReceive⟩ := conn.hand_over_swaps
    rw [swapped] at room
    rw [shape, swapped]
    refine ⟨receive, input, idle, 0, conn.detectedResponseSize, notes, rfl, calm, ?_⟩
    intro roomy
    exact ⟨Nat.le_trans roomy.input grownReceive,
      room.symm ▸ Nat.le_trans roomy.receive grownInput⟩

theorem pass_orphaned (answers : List ResponseAnswer) (conn : Conn) :
    (passResponseToCaller answers conn).orphaned = conn.orphaned := by
  rcases pass_shape answers conn with same | ⟨_, _, _, shape, _⟩
  · rw [same]
  · obtain ⟨_, _, swapped, _⟩ := conn.hand_over_swaps
    have done : conn.handOver.lastReceivedHeadOffset = 0 := by rw [swapped]
    rw [shape]
    simp only [orphaned, done, List.drop_zero]
    exact conn.hand_over_orphaned

theorem input_processed_input (answers : Answers) (conn : Conn) :
    InputOnly conn (conn.inputProcessed answers) :=
  conn.released_input.trans (pass_input answers.responses conn.releaseInput)

theorem make_room_shape (conn : Conn) :
    ∃ buffer : OwnedBuffer UInt8, conn.makeRoom = { conn with receiveBuffer := buffer } ∧
      buffer.content = conn.receiveBuffer.content ∧
      conn.receiveBuffer.capacity ≤ buffer.capacity ∧
      (2 ≤ conn.receiveBuffer.capacity → 0 < buffer.available) := by
  unfold makeRoom
  by_cases tight : conn.receiveBuffer.available < 1024
  · rw [if_pos tight]
    refine ⟨_, rfl, rfl, ?_, ?_⟩
    · rw [OwnedBuffer.reserve_capacity]
      exact Nat.le_max_left _ _
    · intro room
      have total := OwnedBuffer.reserve_capacity (conn.receiveBuffer.capacity * 3 / 2)
        conn.receiveBuffer
      simp only [OwnedBuffer.capacity, OwnedBuffer.reserve_content, OwnedBuffer.available]
        at room total ⊢
      omega
  · rw [if_neg tight]
    exact ⟨_, rfl, rfl, Nat.le_refl _, fun _ => by omega⟩

/-- With these bytes added to the receive buffer. -/
def taken (buffer : OwnedBuffer UInt8) (arrived : Bytes) (conn : Conn) : Conn :=
  { conn with receiveBuffer := buffer, received := conn.received ++ arrived }

theorem recv_loop_shape (answers : Answers) (results : List RecvResult) (conn : Conn) :
    ∃ buffer arrived, buffer.content = conn.receiveBuffer.content ++ arrived ∧
      conn.receiveBuffer.capacity ≤ buffer.capacity ∧
      (recvLoop answers results conn = (true, conn.taken buffer arrived) ∨
        ∃ message code, recvLoop answers results conn =
          (false, (conn.taken buffer arrived).fail answers message code true)) := by
  induction results generalizing conn with
  | nil =>
      obtain ⟨buffer, shape, same, grown, _⟩ := conn.make_room_shape
      refine ⟨buffer, [], by simpa using same, grown, .inl ?_⟩
      simp [recvLoop, shape, taken]
  | cons result results ih =>
      obtain ⟨buffer, shape, same, grown, _⟩ := conn.make_room_shape
      cases result with
      | eagain =>
          refine ⟨buffer, [], by simpa using same, grown, .inl ?_⟩
          simp [recvLoop, shape, taken]
      | error =>
          refine ⟨buffer, [], by simpa using same, grown, .inr ⟨[], .system, ?_⟩⟩
          simp [recvLoop, shape, taken]
      | eintr =>
          obtain ⟨last, arrived, content, room, ended⟩ := ih conn.makeRoom
          rw [shape] at content room ended
          refine ⟨last, arrived, by rw [← same]; exact content, Nat.le_trans grown room, ?_⟩
          rw [recvLoop, shape]
          exact ended
      | bytes chunk =>
          -- `recv` that gives 0 bytes is the end of the stream
          by_cases none : chunk.take conn.makeRoom.receiveBuffer.available = []
          · refine ⟨buffer, [], by simpa using same, grown, .inr ⟨ascii "connection closed by peer",
              .closedByPeer, ?_⟩⟩
            rw [recvLoop, if_pos none, shape]
            simp [taken]
          · obtain ⟨last, arrived, content, room, ended⟩ := ih { conn.makeRoom with
              receiveBuffer := conn.makeRoom.receiveBuffer.push
                (chunk.take conn.makeRoom.receiveBuffer.available)
              received := conn.makeRoom.received ++
                chunk.take conn.makeRoom.receiveBuffer.available }
            rw [shape] at none content room ended
            refine ⟨last, chunk.take buffer.available ++ arrived, ?_, ?_, ?_⟩
            · rw [content, OwnedBuffer.push_content, same, List.append_assoc]
            · apply Nat.le_trans grown (Nat.le_trans _ room)
              rw [OwnedBuffer.push_capacity _ buffer (List.length_take_le _ _)]
            · rw [recvLoop, shape, if_neg none]
              simpa [taken, List.append_assoc] using ended

def arriving (answers : Answers) (conn : Conn) : Bytes :=
  (conn.receive answers).2.received.drop conn.received.length

/-- Whether a `read()` meets the end of the stream or an error. -/
def meetsEnd (answers : Answers) (conn : Conn) : Bool := !(conn.receive answers).1

theorem fail_received (answers : Answers) (message : Bytes) (code : ErrorCode) (handler : Bool)
    (conn : Conn) : (conn.fail answers message code handler).received = conn.received := by
  obtain ⟨extra, shape, _⟩ := fail_shape answers message code handler conn
  rw [shape]
  unfold closed
  split <;> rfl

theorem receive_shape (answers : Answers) (conn : Conn) :
    ∃ buffer, buffer.content = conn.receiveBuffer.content ++ conn.arriving answers ∧
      conn.receiveBuffer.capacity ≤ buffer.capacity ∧
      (conn.meetsEnd answers = false ∧ (conn.receive answers).2 =
          { conn with idleTicksCounter := 0 }.taken buffer (conn.arriving answers) ∨
        conn.meetsEnd answers = true ∧ ∃ message code, (conn.receive answers).2 =
          ({ conn with idleTicksCounter := 0 }.taken buffer (conn.arriving answers)).fail answers
            message code true) := by
  obtain ⟨buffer, arrived, content, room, ended⟩ := recv_loop_shape answers answers.recvs
    { conn with idleTicksCounter := 0 }
  have whole : (conn.receive answers).2.received = conn.received ++ arrived := by
    rcases ended with paused | ⟨message, code, failed⟩
    · rw [receive, paused]
      rfl
    · rw [receive, failed, fail_received]
      rfl
  have same : conn.arriving answers = arrived := by
    rw [arriving, whole, List.drop_left]
  rw [same]
  refine ⟨buffer, content, room, ?_⟩
  rcases ended with paused | ⟨message, code, failed⟩
  · exact .inl ⟨by rw [meetsEnd, receive, paused]; rfl, by rw [receive, paused]⟩
  · exact .inr ⟨by rw [meetsEnd, receive, failed]; rfl, message, code, by rw [receive, failed]⟩

def Ongoing (results : List RecvResult) : Prop :=
  RecvResult.error ∉ results ∧ RecvResult.bytes [] ∉ results

instance (results : List RecvResult) : Decidable (Ongoing results) :=
  inferInstanceAs (Decidable (_ ∧ _))

theorem recv_loop_ongoing (answers : Answers) (results : List RecvResult) (conn : Conn)
    (room : 2 ≤ conn.receiveBuffer.capacity) (ongoing : Ongoing results) :
    (recvLoop answers results conn).1 = true := by
  induction results generalizing conn with
  | nil => rfl
  | cons result results ih =>
      have rest : Ongoing results :=
        ⟨fun fatal => ongoing.1 (List.mem_cons_of_mem result fatal),
          fun last => ongoing.2 (List.mem_cons_of_mem result last)⟩
      obtain ⟨buffer, shape, _, grown, free⟩ := conn.make_room_shape
      have wide := Nat.le_trans room grown
      cases result with
      | eagain => rfl
      | error => exact absurd List.mem_cons_self ongoing.1
      | eintr =>
          rw [recvLoop, shape]
          exact ih _ wide rest
      | bytes chunk =>
          have some : chunk ≠ [] := by
            rintro rfl
            exact ongoing.2 List.mem_cons_self
          have taken : chunk.take buffer.available ≠ [] := by
            have positive := free room
            rw [Ne, List.take_eq_nil_iff]
            rintro (full | empty)
            · omega
            · exact some empty
          rw [recvLoop, shape, if_neg taken]
          apply ih _ _ rest
          rw [OwnedBuffer.push_capacity _ buffer (List.length_take_le _ _)]
          exact wide

theorem ongoing_meets_none (answers : Answers) (conn : Conn)
    (room : 2 ≤ conn.receiveBuffer.capacity) (ongoing : Ongoing answers.recvs) :
    conn.meetsEnd answers = false := by
  have going := recv_loop_ongoing answers answers.recvs { conn with idleTicksCounter := 0 } room
    ongoing
  rw [meetsEnd, receive, going]
  rfl

def HeadWithin (conn : Conn) : Prop := conn.lastReceivedHeadOffset ≤ conn.receiveBuffer.size

theorem detect_size_input (mp : Msgpuck) (conn : Conn) :
    InputOnly conn (conn.detectSize mp) := by
  unfold detectSize
  simp only
  split
  · split
    · exact ⟨_, _, _, _, _, _, rfl, rfl, fun room => ⟨room.1, room.2⟩⟩
    · refine ⟨_, _, _, _, _, _, rfl, phases_note conn _ rfl, fun room => ⟨?_, room.2⟩⟩
      rw [OwnedBuffer.resize_capacity]
      exact Nat.le_trans room.receive (Nat.le_max_left _ _)
  · exact .refl conn

theorem cursor_input (conn : Conn) (head detected : Nat) : InputOnly conn
    { conn with lastReceivedHeadOffset := head, detectedResponseSize := detected } :=
  ⟨_, _, _, _, _, _, rfl, rfl, fun room => ⟨room.1, room.2⟩⟩

theorem detect_input (mp : Msgpuck) (conn : Conn) :
    InputOnly conn (conn.detectResponses mp) := by
  induction conn using detectResponses.induct mp with
  | case1 conn orphaned found whole ih =>
      rw [detectResponses, dif_pos whole]
      exact ((detect_size_input mp conn).trans (cursor_input _ _ _)).trans ih
  | case2 conn orphaned found partly =>
      rw [detectResponses, dif_neg partly]
      exact detect_size_input mp conn

theorem detect_size_caller (mp : Msgpuck) (conn : Conn) :
    (conn.detectSize mp).callerIdle = conn.callerIdle := by
  unfold detectSize
  simp only
  split
  · split <;> rfl
  · rfl

theorem detect_caller (mp : Msgpuck) (conn : Conn) :
    (conn.detectResponses mp).callerIdle = conn.callerIdle := by
  induction conn using detectResponses.induct mp with
  | case1 conn orphaned found whole ih =>
      rw [detectResponses, dif_pos whole]
      exact ih.trans (detect_size_caller mp conn)
  | case2 conn orphaned found partly =>
      rw [detectResponses, dif_neg partly]
      exact detect_size_caller mp conn

theorem detect_size_head (mp : Msgpuck) (conn : Conn) (within : conn.HeadWithin) :
    (conn.detectSize mp).HeadWithin := by
  unfold detectSize
  simp only
  split
  · split
    · exact within
    · have kept := OwnedBuffer.resize_content conn.lastReceivedHeadOffset conn.receiveBuffer within
      simp only [HeadWithin, OwnedBuffer.size, kept, List.length_take]
      exact Nat.le_min.mpr ⟨Nat.le_refl _, within⟩
  · exact within

theorem detect_head (mp : Msgpuck) (conn : Conn) (within : conn.HeadWithin) :
    (conn.detectResponses mp).HeadWithin := by
  induction conn using detectResponses.induct mp with
  | case1 conn orphaned found whole ih =>
      rw [detectResponses, dif_pos whole]
      apply ih
      obtain ⟨buffer, head⟩ := detectSize_known mp conn whole.1
      have fits : found.detectedResponseSize ≤
        conn.receiveBuffer.size - conn.lastReceivedHeadOffset := whole.2
      have inside : conn.lastReceivedHeadOffset ≤ conn.receiveBuffer.size := within
      change (conn.detectSize mp).lastReceivedHeadOffset + found.detectedResponseSize ≤
        (conn.detectSize mp).receiveBuffer.size
      rw [buffer, head]
      exact Nat.add_le_of_le_sub' inside fits
  | case2 conn orphaned found partly =>
      rw [detectResponses, dif_neg partly]
      exact detect_size_head mp conn within

end Conn

end Cpp2tnt
