import Cpp2tnt.ConnectionSteps
import Cpp2tnt.Library.Transition

/-!
The output stream of an open connection. Bytes move from the output buffer to
the send buffer and to the socket; `Conserves` says that a step moves them
without changing their order or the place of the flush mark. The one copy of
`write()` that is not checked is the corked tail: `TailFits` is when it fits.
-/

namespace Cpp2tnt
open Imperative MessagePack Transition

/-- What the caller has appended, and what of it before the latest flush. -/
structure Tally where
  appended : Bytes
  beforeFlush : Bytes

def Tally.count (tally : Tally) : Event × Answers → Tally
  | (.append bytes, _) => { tally with appended := tally.appended ++ bytes }
  | (.flush, _) => { tally with beforeFlush := tally.appended }
  | _ => tally

def tallyOf (events : List (Event × Answers)) : Tally := events.foldl Tally.count ⟨[], []⟩

def drains : List SendResult → Nat → Bool
  | _, 0 => true
  | .eintr :: results, left + 1 => drains results (left + 1)
  | .accepted more :: results, left + 1 => drains results (left + 1 - min (more + 1) (left + 1))
  | _, _ + 1 => false

namespace Conn

/-- Everything appended, in the order it is sent. -/
def stream (conn : Conn) : List OutByte :=
  conn.accepted ++ conn.sendBuffer.unsent ++ conn.outputBuffer.content

def flushed (conn : Conn) : List OutByte :=
  conn.accepted ++ conn.sendBuffer.unsent ++ conn.outputBuffer.content.take conn.uncorkedSize

/-- An open session without any output. -/
structure Ready (conn : Conn) : Prop where
  socket : conn.socket = true
  state : conn.state = .connected
  unsent : conn.sendBuffer.unsent = []
  uncorked : conn.uncorkedSize = 0
  output : conn.outputBuffer.content = []
  accepted : conn.accepted = []

/-- Appends that fit, flushes, and write events without a fatal error. -/
def WritesOutput (conn : Conn) : Event × Answers → Prop
  | (.append bytes, _) => bytes.length ≤ conn.outputBuffer.available
  | (.reserve _, _) => True
  | (.flush, answers) | (.write, answers) => SendResult.error ∉ answers.sends
  | _ => False

/-- When a write event drains the send buffer past a flush mark, what follows
the mark fits into the storage of the send buffer. -/
def TailFits (conn : Conn) : Event × Answers → Prop
  | (.write, answers) => conn.uncorkedSize ≠ 0 →
      drains answers.sends conn.sendBuffer.unsent.length →
      conn.outputBuffer.size - conn.uncorkedSize ≤ conn.sendBuffer.buffer.capacity
  | _ => True

structure Conserves (before after : Conn) : Prop where
  stream : after.stream = before.stream
  flushed : after.flushed = before.flushed
  within : before.uncorkedSize ≤ before.outputBuffer.size →
    after.uncorkedSize ≤ after.outputBuffer.size
  socket : after.socket = before.socket
  state : after.state = before.state

theorem Conserves.refl (conn : Conn) : Conserves conn conn := ⟨rfl, rfl, id, rfl, rfl⟩

theorem Conserves.trans {first second third : Conn} (left : Conserves first second)
    (right : Conserves second third) : Conserves first third :=
  ⟨right.stream.trans left.stream, right.flushed.trans left.flushed,
    fun held => right.within (left.within held), right.socket.trans left.socket,
    right.state.trans left.state⟩

theorem sent_conserves (now : Int) (count : Nat) (conn : Conn) :
    Conserves conn (conn.sent now count) := by
  have moved : conn.sendBuffer.unsent.take count ++ conn.sendBuffer.unsent.drop count =
      conn.sendBuffer.unsent := List.take_append_drop _ _
  constructor
  · simp only [stream, sent, SendBuffer.advance_unsent]
    rw [List.append_assoc conn.accepted, moved]
  · simp only [flushed, sent, SendBuffer.advance_unsent]
    rw [List.append_assoc conn.accepted, moved]
  · exact id
  · rfl
  · rfl

theorem swap_conserves (conn : Conn) (drained : conn.sendBuffer.unsent = [])
    (within : conn.uncorkedSize ≤ conn.outputBuffer.size)
    (fits : conn.outputBuffer.size - conn.uncorkedSize ≤ conn.sendBuffer.buffer.capacity) :
    ∃ swapped, conn.swapCorked = some swapped ∧ Conserves conn swapped ∧
      swapped.sendBuffer.unsent.length = conn.uncorkedSize ∧ swapped.uncorkedSize = 0 := by
  unfold swapCorked
  by_cases corked : conn.uncorkedSize < conn.outputBuffer.size
  · have tail : (conn.outputBuffer.content.drop conn.uncorkedSize).length ≤
        conn.sendBuffer.buffer.clear.capacity := by
      rw [OwnedBuffer.clear_capacity, List.length_drop]
      exact fits
    have front := OwnedBuffer.resize_content conn.uncorkedSize conn.outputBuffer within
    simp only [if_pos corked, if_pos tail]
    refine ⟨_, rfl, ?_, ?_, rfl⟩
    · constructor
      · simp only [stream, SendBuffer.of_buffer_unsent, front, drained, List.append_nil,
          OwnedBuffer.overwrite_resize_content]
        rw [List.append_assoc, List.take_append_drop]
      · simp [flushed, front, drained]
      · exact fun _ => Nat.zero_le _
      · rfl
      · rfl
    · rw [SendBuffer.of_buffer_unsent, front, List.length_take]
      exact Nat.min_eq_left within
  · have whole : conn.uncorkedSize = conn.outputBuffer.size := by omega
    simp only [if_neg corked]
    refine ⟨_, rfl, ?_, whole.symm, rfl⟩
    constructor
    · simp [stream, drained]
    · have all : conn.outputBuffer.content.take conn.uncorkedSize = conn.outputBuffer.content := by
        rw [whole]
        exact List.take_length
      simp [flushed, drained, all]
    · exact fun _ => Nat.zero_le _
    · rfl
    · rfl

theorem watch_conserves (mode : WatchMode) (conn : Conn) :
    Conserves conn (conn.watchSocket mode) := ⟨rfl, rfl, id, rfl, rfl⟩

theorem send_loop_goes_on (answers : Answers) (more left : Nat) (results : List SendResult)
    (conn : Conn)
    (unfinished : ¬ (left + 1 - min (more + 1) (left + 1) = 0 ∧ conn.uncorkedSize ≠ 0)) :
    sendLoop answers (.accepted more :: results) (left + 1) conn =
      sendLoop answers results (left + 1 - min (more + 1) (left + 1))
        (conn.sent answers.now (min (more + 1) (left + 1))) := by
  rw [sendLoop]
  exact if_neg unfinished

theorem send_loop_swaps (answers : Answers) (more left : Nat) (results : List SendResult)
    (conn : Conn) (finished : left + 1 - min (more + 1) (left + 1) = 0)
    (marked : conn.uncorkedSize ≠ 0) (within : conn.uncorkedSize ≤ conn.outputBuffer.size) :
    sendLoop answers (.accepted more :: results) (left + 1) conn =
      ((conn.sent answers.now (min (more + 1) (left + 1))).swapCorked).bind
        (sendLoop answers results conn.uncorkedSize) := by
  have inside : (conn.sent answers.now (min (more + 1) (left + 1))).uncorkedSize ≤
    (conn.sent answers.now (min (more + 1) (left + 1))).outputBuffer.size := within
  rw [sendLoop, if_pos ⟨finished, marked⟩, if_pos inside]
  cases (conn.sent answers.now (min (more + 1) (left + 1))).swapCorked <;> rfl

/-- The send loop, whatever is accepted: with a tail that fits it moves bytes
and stops with either a pause or nothing marked. The induction is on the
results; the condition is used up by the swap, after which nothing is marked. -/
theorem send_loop_conserves (answers : Answers) (results : List SendResult) (left : Nat)
    (conn : Conn) (offered : conn.sendBuffer.unsent.length = left)
    (within : conn.uncorkedSize ≤ conn.outputBuffer.size) (marked : conn.Marked)
    (nonfatal : SendResult.error ∉ results)
    (fits : conn.uncorkedSize ≠ 0 → drains results left →
      conn.outputBuffer.size - conn.uncorkedSize ≤ conn.sendBuffer.buffer.capacity) :
    ∃ after, sendLoop answers results left conn = some after ∧ Conserves conn after ∧
      after.Marked := by
  induction results generalizing left conn with
  | nil =>
      cases left with
      | zero => exact ⟨_, rfl, watch_conserves .read conn, marked⟩
      | succ left => exact ⟨_, rfl, watch_conserves .readWrite conn, marked⟩
  | cons result results ih =>
      have rest : SendResult.error ∉ results := fun fatal =>
        nonfatal (List.mem_cons_of_mem result fatal)
      cases left with
      | zero => exact ⟨_, rfl, watch_conserves .read conn, marked⟩
      | succ left =>
          cases result with
          | eagain => exact ⟨_, rfl, watch_conserves .readWrite conn, marked⟩
          | error => exact absurd List.mem_cons_self nonfatal
          | eintr => exact ih (left + 1) conn offered within marked rest fits
          | accepted more =>
              have moved := sent_conserves answers.now (min (more + 1) (left + 1)) conn
              have remaining := sent_left answers.now (min (more + 1) (left + 1)) (left + 1) conn
                offered
              -- the queue is drained and data waits behind it: only this turn needs `fits`
              by_cases swaps : left + 1 - min (more + 1) (left + 1) = 0 ∧ conn.uncorkedSize ≠ 0
              · obtain ⟨finished, corked⟩ := swaps
                have drained := List.eq_nil_of_length_eq_zero (remaining.trans finished)
                have through : drains (.accepted more :: results) (left + 1) = true := by
                  rw [drains, finished, drains]
                obtain ⟨swapped, done, kept, queued, clean⟩ := swap_conserves
                  (conn.sent answers.now (min (more + 1) (left + 1))) drained within
                  (fits corked through)
                have unmarked : swapped.Marked := fun still => absurd clean still
                have small : swapped.uncorkedSize ≤ swapped.outputBuffer.size := by
                  rw [clean]
                  exact Nat.zero_le _
                obtain ⟨after, ran, keeps, stopped⟩ := ih conn.uncorkedSize swapped queued small
                  unmarked rest (fun still => absurd clean still)
                refine ⟨after, ?_, (moved.trans kept).trans keeps, stopped⟩
                rw [send_loop_swaps answers more left results conn finished corked within, done]
                exact ran
              · have still : (conn.sent answers.now (min (more + 1) (left + 1))).Marked := by
                  intro corked empty
                  rw [empty] at remaining
                  exact swaps ⟨remaining.symm, corked⟩
                have later : conn.uncorkedSize ≠ 0 →
                    drains results (left + 1 - min (more + 1) (left + 1)) →
                    conn.outputBuffer.size - conn.uncorkedSize ≤
                      conn.sendBuffer.buffer.capacity := by
                  intro corked drained
                  apply fits corked
                  rw [drains]
                  exact drained
                obtain ⟨after, ran, keeps, stopped⟩ := ih _
                  (conn.sent answers.now (min (more + 1) (left + 1))) remaining within still rest
                  later
                refine ⟨after, ?_, moved.trans keeps, stopped⟩
                rw [send_loop_goes_on answers more left results conn swaps]
                exact ran

theorem swap_overflows (conn : Conn)
    (large : conn.sendBuffer.buffer.capacity < conn.outputBuffer.size - conn.uncorkedSize) :
    conn.swapCorked = none := by
  have behind : conn.uncorkedSize < conn.outputBuffer.size := by omega
  have tail : ¬ (conn.outputBuffer.content.drop conn.uncorkedSize).length ≤
      conn.sendBuffer.buffer.clear.capacity := by
    rw [OwnedBuffer.clear_capacity, List.length_drop]
    exact Nat.not_le_of_lt large
  simp only [swapCorked, if_pos behind, if_neg tail]

theorem send_loop_overflows (answers : Answers) (results : List SendResult) (left : Nat)
    (conn : Conn) (offered : conn.sendBuffer.unsent.length = left) (offers : left ≠ 0)
    (within : conn.uncorkedSize ≤ conn.outputBuffer.size) (corked : conn.uncorkedSize ≠ 0)
    (through : drains results left)
    (large : conn.sendBuffer.buffer.capacity < conn.outputBuffer.size - conn.uncorkedSize) :
    sendLoop answers results left conn = none := by
  induction results generalizing left conn with
  | nil =>
      cases left with
      | zero => exact absurd rfl offers
      | succ left => simp [drains] at through
  | cons result results ih =>
      cases left with
      | zero => exact absurd rfl offers
      | succ left =>
          cases result with
          | eagain => simp [drains] at through
          | error => simp [drains] at through
          | eintr => exact ih (left + 1) conn offered offers within corked through large
          | accepted more =>
              have remaining := sent_left answers.now (min (more + 1) (left + 1)) (left + 1) conn
                offered
              by_cases finished : left + 1 - min (more + 1) (left + 1) = 0
              · have past := swap_overflows
                  (conn.sent answers.now (min (more + 1) (left + 1))) large
                rw [send_loop_swaps answers more left results conn finished corked within, past]
                rfl
              · rw [send_loop_goes_on answers more left results conn fun both => finished both.1]
                rw [drains] at through
                exact ih _ (conn.sent answers.now (min (more + 1) (left + 1))) remaining finished
                  within corked through large

theorem write_loops (answers : Answers) (conn : Conn) (ready : conn.state ≠ .connecting)
    (marked : conn.Marked) :
    conn.write answers = sendLoop answers (if conn.socket then answers.sends else [.error])
      conn.sendBuffer.unsent.length { conn with idleTicksCounter := 0 } := by
  have queued : ¬ (conn.sendBuffer.unsent = [] ∧ conn.uncorkedSize ≠ 0) := fun both =>
    marked both.2 both.1
  rw [write, if_neg ready, startWrite, if_neg queued]

/-- The state of the output in an open session, against what was appended. -/
structure Flow (tally : Tally) (conn : Conn) : Prop where
  socket : conn.socket = true
  state : conn.state = .connected
  appended : conn.stream.map OutByte.byte = tally.appended
  beforeFlush : conn.flushed.map OutByte.byte = tally.beforeFlush
  within : conn.uncorkedSize ≤ conn.outputBuffer.size
  marked : conn.Marked

theorem Flow.conserved {tally : Tally} {before after : Conn} (flow : Flow tally before)
    (kept : Conserves before after) (marked : after.Marked) : Flow tally after where
  socket := kept.socket.trans flow.socket
  state := kept.state.trans flow.state
  appended := by rw [kept.stream, flow.appended]
  beforeFlush := by rw [kept.flushed, flow.beforeFlush]
  within := kept.within flow.within
  marked := marked

theorem ready_flow (conn : Conn) (ready : conn.Ready) : Flow ⟨[], []⟩ conn where
  socket := ready.socket
  state := ready.state
  appended := by simp [stream, ready.accepted, ready.unsent, ready.output]
  beforeFlush := by simp [flushed, ready.accepted, ready.unsent, ready.output]
  within := by
    rw [ready.uncorked]
    exact Nat.zero_le _
  marked := fun corked => absurd ready.uncorked corked

theorem write_flow (answers : Answers) (tally : Tally) (conn : Conn) (flow : Flow tally conn)
    (nonfatal : SendResult.error ∉ answers.sends) (fits : conn.TailFits (.write, answers)) :
    ∃ after, conn.write answers = some after ∧ Flow tally after := by
  have ready : conn.state ≠ .connecting := by
    rw [flow.state]
    decide
  obtain ⟨after, ran, kept, stopped⟩ := send_loop_conserves answers answers.sends
    conn.sendBuffer.unsent.length { conn with idleTicksCounter := 0 } rfl flow.within flow.marked
    nonfatal fits
  refine ⟨after, ?_, flow.conserved ⟨kept.1, kept.2, kept.3, kept.4, kept.5⟩ stopped⟩
  rw [write_loops answers conn ready flow.marked, if_pos flow.socket]
  exact ran

theorem write_overflows (answers : Answers) (tally : Tally) (conn : Conn) (flow : Flow tally conn)
    (large : ¬ conn.TailFits (.write, answers)) : conn.write answers = none := by
  simp only [TailFits, Classical.not_imp, Nat.not_le] at large
  obtain ⟨corked, through, large⟩ := large
  have ready : conn.state ≠ .connecting := by
    rw [flow.state]
    decide
  have queued : conn.sendBuffer.unsent.length ≠ 0 := fun empty =>
    flow.marked corked (List.eq_nil_of_length_eq_zero empty)
  rw [write_loops answers conn ready flow.marked, if_pos flow.socket]
  exact send_loop_overflows answers answers.sends _ { conn with idleTicksCounter := 0 } rfl queued
    flow.within corked through large

theorem flush_flow (answers : Answers) (tally : Tally) (conn : Conn) (flow : Flow tally conn)
    (nonfatal : SendResult.error ∉ answers.sends) :
    ∃ after, conn.flush answers = some after ∧
      Flow { tally with beforeFlush := tally.appended } after.2 := by
  unfold flush
  by_cases empty : conn.outputBuffer.size = 0
  · rw [if_pos empty]
    have nothing : conn.outputBuffer.content = [] := List.eq_nil_of_length_eq_zero empty
    refine ⟨_, rfl, flow.socket, flow.state, flow.appended, ?_, flow.within, flow.marked⟩
    rw [← flow.appended]
    simp [stream, flushed, nothing]
  · rw [if_neg empty]
    by_cases drained : conn.sendBuffer.unsent = []
    · rw [if_pos drained]
      have swapped : Flow { tally with beforeFlush := tally.appended } { conn with
          sendBuffer := .ofBuffer conn.outputBuffer
          outputBuffer := conn.sendBuffer.buffer.clear
          uncorkedSize := 0 } := by
        have whole := flow.appended
        simp only [stream, drained, List.append_nil] at whole
        refine ⟨flow.socket, flow.state, ?_, ?_, Nat.zero_le _, fun corked => absurd rfl corked⟩
        · simpa [stream] using whole
        · simpa [flushed] using whole
      obtain ⟨after, ran, kept⟩ := write_flow answers _ _ swapped nonfatal
        fun corked => absurd rfl corked
      refine ⟨(true, after), ?_, kept⟩
      simp only [ran, Option.map_some]
    · rw [if_neg drained]
      refine ⟨_, rfl, flow.socket, flow.state, flow.appended, ?_, Nat.le_refl _, fun _ => drained⟩
      rw [← flow.appended]
      have all : conn.outputBuffer.content.take conn.outputBuffer.size =
        conn.outputBuffer.content := List.take_length
      simp [stream, flushed, all]

theorem append_flow (bytes : Bytes) (tally : Tally) (conn : Conn) (flow : Flow tally conn)
    (room : bytes.length ≤ conn.outputBuffer.available) :
    ∃ after, conn.append bytes = some after ∧
      Flow { tally with appended := tally.appended ++ bytes } after := by
  refine ⟨_, if_pos room, flow.socket, flow.state, ?_, ?_, ?_, flow.marked⟩
  · rw [← flow.appended]
    simp [stream, List.map_map, Function.comp_def]
  · have inside : conn.uncorkedSize ≤ conn.outputBuffer.content.length := flow.within
    rw [← flow.beforeFlush]
    simp [flushed, List.take_append_of_le_length inside]
  · have grows : conn.outputBuffer.size ≤ (conn.outputBuffer.push
        (bytes.map fun byte => (⟨byte, .caller⟩ : OutByte))).size := by
      simp [OwnedBuffer.size]
    exact Nat.le_trans flow.within grows

theorem flush_waits (conn : Conn) (socket : conn.socket = true) (state : conn.state = .connected)
    (queue : conn.sendBuffer.unsent = []) (offers : conn.outputBuffer.size ≠ 0) :
    conn.flush {} = some (true, { conn with
      sendBuffer := .ofBuffer conn.outputBuffer
      outputBuffer := conn.sendBuffer.buffer.clear
      uncorkedSize := 0
      idleTicksCounter := 0
      prevWatchMode := .readWrite }) := by
  obtain ⟨left, offered⟩ := Nat.exists_eq_succ_of_ne_zero offers
  have length : conn.outputBuffer.content.length = left + 1 := offered
  simp [flush, write, startWrite, offers, queue, state, socket, length, sendLoop, watchSocket]

theorem flush_marks (conn : Conn) (queue : conn.sendBuffer.unsent ≠ [])
    (offers : conn.outputBuffer.size ≠ 0) :
    conn.flush {} = some (false, { conn with uncorkedSize := conn.outputBuffer.size }) := by
  simp [flush, offers, queue]

def markedEvents : List (Event × Answers) :=
  [(.append [1], {}), (.flush, {}), (.append [2], {}), (.flush, {})]

theorem marked_run (mp : Msgpuck) (crypto : Crypto) (parseCs : Bytes → CsParts) (start : Conn)
    (socket : start.socket = true) (state : start.state = .connected)
    (sent : start.sendBuffer.unsent = []) (nothing : start.outputBuffer.content = [])
    (output : 0 < start.outputBuffer.capacity) (send : 0 < start.sendBuffer.buffer.capacity) :
    ∃ conn, Run (step mp crypto parseCs) (fun conn event =>
        conn.WritesOutput event ∧ conn.TailFits event) start markedEvents conn ∧
      conn.socket = true ∧ conn.state = .connected ∧ conn.uncorkedSize = 1 ∧ conn.sendBuffer.unsent.length = 1 ∧ conn.outputBuffer.size = 1 ∧
      conn.sendBuffer.buffer.capacity = start.outputBuffer.capacity ∧
      conn.outputBuffer.capacity = start.sendBuffer.buffer.capacity := by
  have room : 1 ≤ start.outputBuffer.available := by
    simp only [OwnedBuffer.capacity, nothing, List.length_nil, Nat.zero_add] at output
    exact output
  have other : 1 ≤ start.sendBuffer.buffer.clear.available := by
    rw [← OwnedBuffer.clear_capacity, OwnedBuffer.capacity, OwnedBuffer.clear_content,
      List.length_nil, Nat.zero_add] at send
    exact send
  let appended := { start with outputBuffer := start.outputBuffer.push [⟨1, .caller⟩] }
  have one : appended.outputBuffer.content = [⟨1, .caller⟩] := by
    simp [appended, nothing]
  let waiting := { appended with
    sendBuffer := .ofBuffer appended.outputBuffer
    outputBuffer := start.sendBuffer.buffer.clear
    uncorkedSize := 0
    idleTicksCounter := 0
    prevWatchMode := .readWrite }
  -- the first byte goes to the send buffer, the second one waits behind a mark
  have waited : appended.flush {} = some (true, waiting) := by
    apply flush_waits appended socket state sent
    rw [OwnedBuffer.size, one]
    decide
  let behind := { waiting with outputBuffer := waiting.outputBuffer.push [⟨2, .caller⟩] }
  have marked : behind.flush {} = some (false, { behind with uncorkedSize := 1 }) := by
    apply flush_marks behind
    · change appended.outputBuffer.content ≠ []
      rw [one]
      exact List.cons_ne_nil _ _
    · exact Nat.succ_ne_zero 0
  refine ⟨{ behind with uncorkedSize := 1 }, ?_, socket, state, rfl, ?_, rfl, ?_, ?_⟩
  · have first : step mp crypto parseCs (.append [1], {}) start = some appended := if_pos room
    have second : step mp crypto parseCs (.flush, {}) appended = some waiting :=
      congrArg (Option.map Prod.snd) waited
    have third : step mp crypto parseCs (.append [2], {}) waiting = some behind := if_pos other
    have fourth : step mp crypto parseCs (.flush, {}) behind =
      some { behind with uncorkedSize := 1 } := congrArg (Option.map Prod.snd) marked
    exact .cons ⟨room, trivial⟩ first (.cons ⟨List.not_mem_nil, trivial⟩ second
      (.cons ⟨other, trivial⟩ third (.cons ⟨List.not_mem_nil, trivial⟩ fourth .nil)))
  · change appended.outputBuffer.content.length = 1
    rw [one]
    rfl
  · exact OwnedBuffer.push_capacity _ _ room
  · exact (OwnedBuffer.push_capacity [(⟨2, .caller⟩ : OutByte)] _ other).trans
      (OwnedBuffer.clear_capacity _)

theorem opened_ready : opened.Ready := ⟨rfl, rfl, rfl, rfl, rfl, rfl⟩

section Runs
variable (mp : Msgpuck) (crypto : Crypto) (parseCs : Bytes → CsParts)

theorem step_flow (event : Event × Answers) (tally : Tally) (conn : Conn)
    (flow : Flow tally conn) (writes : conn.WritesOutput event) (fits : conn.TailFits event) :
    ∃ after, step mp crypto parseCs event conn = some after ∧ Flow (tally.count event) after := by
  obtain ⟨call, answers⟩ := event
  cases call with
  | append bytes => exact append_flow bytes tally conn flow writes
  | reserve size =>
      exact ⟨_, rfl, flow.socket, flow.state, flow.appended, flow.beforeFlush, flow.within,
        flow.marked⟩
  | flush =>
      obtain ⟨after, ran, kept⟩ := flush_flow answers tally conn flow writes
      refine ⟨after.2, ?_, kept⟩
      simp only [step, ran, Option.map_some]
  | write => exact write_flow answers tally conn flow writes fits
  | openConnection | close | setConnectionString | setRequiredProto | setCallbacks | request
  | inputProcessed | tick1sec | read | resolved | resolveFailed => exact writes.elim

theorem run_flow (start conn : Conn) (events : List (Event × Answers)) (ready : start.Ready)
    (run : Run (step mp crypto parseCs) (fun conn event =>
      conn.WritesOutput event ∧ conn.TailFits event) start events conn) :
    Flow (tallyOf events) conn := by
  apply run.history (ready_flow start ready)
  intro events before event after flow admitted done
  obtain ⟨reached, ran, kept⟩ := step_flow mp crypto parseCs event _ before flow admitted.1
    admitted.2
  cases ran.symm.trans done
  rw [tallyOf, List.foldl_append]
  exact kept

/-- In every run whose corked tails fit, the socket, the unsent bytes and the
output buffer hold what was appended, the flush mark is where the latest flush
was, and the next step is defined exactly if its tail fits too. -/
theorem output_stream_intact (start conn : Conn) (events : List (Event × Answers))
    (ready : start.Ready)
    (run : Run (step mp crypto parseCs) (fun conn event =>
      conn.WritesOutput event ∧ conn.TailFits event) start events conn) :
    (conn.accepted ++ conn.sendBuffer.unsent ++ conn.outputBuffer.content).map OutByte.byte =
      (tallyOf events).appended ∧
    (conn.accepted ++ conn.sendBuffer.unsent ++
      conn.outputBuffer.content.take conn.uncorkedSize).map OutByte.byte =
      (tallyOf events).beforeFlush ∧
    ∀ event, conn.WritesOutput event →
      ((step mp crypto parseCs event conn).isSome ↔ conn.TailFits event) := by
  have flow := run_flow mp crypto parseCs start conn events ready run
  refine ⟨flow.appended, flow.beforeFlush, ?_⟩
  intro event writes
  constructor
  · intro defined
    by_cases fits : conn.TailFits event
    · exact fits
    · obtain ⟨call, answers⟩ := event
      cases call with
      | write =>
          have undefined := write_overflows answers _ conn flow fits
          simp only [step, undefined] at defined
          cases defined
      | append | reserve | flush => exact trivial
      | openConnection | close | setConnectionString | setRequiredProto | setCallbacks | request
      | inputProcessed | tick1sec | read | resolved | resolveFailed => exact writes.elim
  · intro fits
    obtain ⟨after, ran, _⟩ := step_flow mp crypto parseCs event _ conn flow writes fits
    rw [ran]
    rfl

end Runs

def bytesEvent : Event × Answers := (.append [3, 4], {})

def drainEvent : Event × Answers := (.write, { sends := [.accepted 0] })

theorem drains_marked {tally : Tally} {conn : Conn} (flow : Flow tally conn)
    (waiting : conn.sendBuffer.unsent.length = 1) (corked : conn.uncorkedSize ≠ 0)
    (behind : conn.uncorkedSize < conn.outputBuffer.size)
    (fits : conn.outputBuffer.size - conn.uncorkedSize ≤ conn.sendBuffer.buffer.capacity) :
    ∃ after, conn.write drainEvent.2 = some after ∧
      after.accepted = conn.accepted ++ conn.sendBuffer.unsent ∧
      after.sendBuffer.unsent = conn.outputBuffer.content.take conn.uncorkedSize ∧
      after.outputBuffer.content = conn.outputBuffer.content.drop conn.uncorkedSize ∧
      after.uncorkedSize = 0 := by
  have ready : conn.state ≠ .connecting := by
    rw [flow.state]
    decide
  have tail : (conn.outputBuffer.content.drop conn.uncorkedSize).length ≤
      conn.sendBuffer.buffer.clear.capacity := by
    rw [OwnedBuffer.clear_capacity, List.length_drop]
    exact fits
  have front := OwnedBuffer.resize_content conn.uncorkedSize conn.outputBuffer (Nat.le_of_lt behind)
  let passed := { conn with idleTicksCounter := 0 }.sent drainEvent.2.now 1
  let after := { passed with
    outputBuffer := (conn.sendBuffer.buffer.clear.overwrite
      (conn.outputBuffer.content.drop conn.uncorkedSize)).resize
        (conn.outputBuffer.content.drop conn.uncorkedSize).length
    sendBuffer := .ofBuffer (conn.outputBuffer.resize conn.uncorkedSize)
    uncorkedSize := 0 }
  have swapped : passed.swapCorked = some after := (if_pos behind).trans (if_pos tail)
  have looped := send_loop_swaps drainEvent.2 0 0 [] { conn with idleTicksCounter := 0 } rfl corked
    (Nat.le_of_lt behind)
  have stops : sendLoop drainEvent.2 [] conn.uncorkedSize after =
      some (after.watchSocket .readWrite) := by
    obtain ⟨left, marked⟩ := Nat.exists_eq_succ_of_ne_zero corked
    rw [marked]
    rfl
  have ran : conn.write drainEvent.2 = some (after.watchSocket .readWrite) := by
    rw [write_loops _ conn ready flow.marked, if_pos flow.socket, waiting]
    exact looped.trans ((congrArg (Option.bind · _) swapped).trans stops)
  refine ⟨_, ran, ?_, front, OwnedBuffer.overwrite_resize_content _ _, rfl⟩
  exact congrArg (conn.accepted ++ ·) (List.take_of_length_le (Nat.le_of_eq waiting))

theorem two_more_fit {buf : OwnedBuffer OutByte} (size : buf.size = 1) (storage : buf.capacity = 2 ^ 20) :
    [(3 : UInt8), 4].length ≤ buf.available := by
  have total : buf.size + buf.available = buf.capacity := rfl
  rw [List.length_cons, List.length_singleton]
  omega

/-- Two bytes follow the mark when the send buffer runs empty: what is marked is queued, and
they are copied back. -/
theorem output_stream_intact_marked :
    ∃ conn : Conn, conn.accepted.length = 1 ∧ conn.sendBuffer.unsent.length = 1 ∧
      conn.outputBuffer.size = 2 ∧ conn.uncorkedSize = 0 ∧
      (conn.accepted ++ conn.sendBuffer.unsent ++ conn.outputBuffer.content).map OutByte.byte =
        [1, 2, 3, 4] ∧
      (conn.accepted ++ conn.sendBuffer.unsent ++
        conn.outputBuffer.content.take conn.uncorkedSize).map OutByte.byte = [1, 2] := by
  have send : opened.sendBuffer.buffer.capacity = 2 ^ 20 := OwnedBuffer.of_size_capacity (2 ^ 20)
  have output : opened.outputBuffer.capacity = 2 ^ 20 := OwnedBuffer.of_size_capacity (2 ^ 20)
  obtain ⟨marked, run, _, _, corked, waiting, size, capacity, storage⟩ := marked_run reference
    ⟨id, fun _ _ => []⟩ (fun _ => ⟨[], [], [], [], []⟩) opened rfl rfl rfl rfl (by omega) (by omega)
  rw [output] at capacity
  have room := two_more_fit size (storage.trans send)
  let longer := { marked with
    outputBuffer := marked.outputBuffer.push ([(3 : UInt8), 4].map fun byte => ⟨byte, .caller⟩) }
  have appended := run.snoc (show marked.WritesOutput bytesEvent ∧ marked.TailFits bytesEvent from
    ⟨room, trivial⟩) (show marked.append _ = some longer from if_pos room)
  have total : longer.outputBuffer.size = 3 := by
    have one : marked.outputBuffer.content.length = 1 := size
    simp [longer, OwnedBuffer.size, one]
  have mark : longer.uncorkedSize = 1 := corked
  have fits : longer.outputBuffer.size - longer.uncorkedSize ≤ longer.sendBuffer.buffer.capacity := by
    rw [total]
    exact Nat.le_trans (Nat.sub_le 3 _) (capacity.ge.trans' (by decide))
  obtain ⟨after, drained, accepted, queued, tail, cleared⟩ := drains_marked
    (run_flow _ _ _ _ _ _ opened_ready appended) waiting (by omega) (by omega) fits
  have nonfatal : SendResult.error ∉ [SendResult.accepted 0] := by decide
  have whole := appended.snoc (show longer.WritesOutput drainEvent ∧ longer.TailFits drainEvent from
    ⟨nonfatal, fun _ _ => fits⟩) drained
  have intact := output_stream_intact _ _ _ _ _ _ opened_ready whole
  have queue : after.sendBuffer.unsent.length = 1 := by
    rw [queued, mark, List.length_take]
    exact Nat.min_eq_left (total.ge.trans' (by decide))
  have rest : after.outputBuffer.content.length = 2 := by
    rw [tail, mark, List.length_drop]
    exact congrArg (· - 1) total
  refine ⟨after, ?_, queue, rest, cleared, intact.1, intact.2.1⟩
  have all := congrArg List.length intact.1
  rw [List.length_map, List.length_append, List.length_append, queue, rest] at all
  exact Nat.add_right_cancel (Nat.add_right_cancel all)

def growEvent : Event × Answers := (.reserve (2 ^ 20 + 2), {})

def tailEvent : Event × Answers := (.append (List.replicate (2 ^ 20 + 1) 3), {})

/-- From an open session with default buffers: one byte waits in the send buffer,
and the tail behind the flush mark is one byte larger than that buffer. -/
theorem long_tail_run :
    ∃ conn, Run (step reference ⟨id, fun _ _ => []⟩ fun _ => ⟨[], [], [], [], []⟩)
        (fun conn event => conn.WritesOutput event ∧ conn.TailFits event) opened
        (markedEvents ++ [growEvent] ++ [tailEvent]) conn ∧
      conn.uncorkedSize ≠ 0 ∧ conn.sendBuffer.unsent.length = 1 ∧
      conn.sendBuffer.buffer.capacity < conn.outputBuffer.size - conn.uncorkedSize := by
  have output : opened.outputBuffer.capacity = 2 ^ 20 := OwnedBuffer.of_size_capacity (2 ^ 20)
  have send : opened.sendBuffer.buffer.capacity = 2 ^ 20 := OwnedBuffer.of_size_capacity (2 ^ 20)
  obtain ⟨marked, run, _, _, corked, waiting, size, capacity, _⟩ := marked_run reference
    ⟨id, fun _ _ => []⟩ (fun _ => ⟨[], [], [], [], []⟩) opened rfl rfl rfl rfl (by omega) (by omega)
  rw [output] at capacity
  let grown := { marked with outputBuffer := marked.outputBuffer.reserve (2 ^ 20 + 2) }
  have room : (List.replicate (2 ^ 20 + 1) (3 : UInt8)).length ≤ grown.outputBuffer.available := by
    have total := OwnedBuffer.reserve_capacity (2 ^ 20 + 2) marked.outputBuffer
    simp only [OwnedBuffer.capacity, OwnedBuffer.reserve_content] at total
    simp only [OwnedBuffer.size] at size
    rw [List.length_replicate]
    change 2 ^ 20 + 1 ≤ (marked.outputBuffer.reserve (2 ^ 20 + 2)).spare.length
    omega
  let longer := { grown with
    outputBuffer := grown.outputBuffer.push ((List.replicate (2 ^ 20 + 1) (3 : UInt8)).map
      fun byte => ⟨byte, .caller⟩) }
  have whole := (run.snoc (show marked.WritesOutput growEvent ∧ marked.TailFits growEvent from
    ⟨trivial, trivial⟩) rfl).snoc (show grown.WritesOutput tailEvent ∧ grown.TailFits tailEvent from
    ⟨room, trivial⟩) (show grown.append _ = some longer from if_pos room)
  have total : longer.outputBuffer.size = marked.outputBuffer.size + (2 ^ 20 + 1) := by
    simp only [longer, grown, OwnedBuffer.size, OwnedBuffer.push_content, List.length_append,
      List.length_map, List.length_replicate, OwnedBuffer.reserve_content]
  refine ⟨longer, whole, ?_, waiting, ?_⟩
  · change marked.uncorkedSize ≠ 0
    omega
  · rw [total]
    change marked.sendBuffer.buffer.capacity < marked.outputBuffer.size + (2 ^ 20 + 1) - marked.uncorkedSize
    omega

/-- A byte is accepted, and the tail does not fit. -/
theorem corked_tail_overflows :
    ∃ conn, Run (step reference ⟨id, fun _ _ => []⟩ fun _ => ⟨[], [], [], [], []⟩) WritesOutput
        opened (markedEvents ++ [growEvent] ++ [tailEvent]) conn ∧
      conn.WritesOutput (.write, { sends := [.accepted 0] }) ∧
      step reference ⟨id, fun _ _ => []⟩ (fun _ => ⟨[], [], [], [], []⟩)
        (.write, { sends := [.accepted 0] }) conn = none := by
  obtain ⟨conn, run, corked, waiting, large⟩ := long_tail_run
  have nonfatal : SendResult.error ∉ [SendResult.accepted 0] := by decide
  refine ⟨conn, run.weaken fun _ _ both => both.1, nonfatal, ?_⟩
  apply write_overflows _ _ _ (run_flow _ _ _ _ _ _ opened_ready run)
  intro fits
  have through : drains [.accepted 0] conn.sendBuffer.unsent.length = true := by
    rw [waiting]
    rfl
  exact Nat.not_lt.mpr (fits corked through) large

end Conn

end Cpp2tnt
