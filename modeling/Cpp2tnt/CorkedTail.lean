import Cpp2tnt.OutputStream

/-!
The copies of the corked tail. `write()` copies what follows the flush mark into
the storage the send buffer had, and only then resizes it. The two storages change
places at every swap, while `reserve()` grows the one the caller holds. `Books`
follows the caller's calls alone: what it has asked for either storage, and what it
has appended since its last flush.
-/

namespace Cpp2tnt
open Imperative MessagePack Transition

/-- A `memcpy` of the corked tail: its length and the capacity of its target. -/
structure TailCopy where
  length : Nat
  capacity : Nat

def TailCopy.Fits (copy : TailCopy) : Prop := copy.length ≤ copy.capacity

namespace Conn

def swapCopies (conn : Conn) : List TailCopy :=
  if conn.uncorkedSize < conn.outputBuffer.size then
    [⟨(conn.outputBuffer.content.drop conn.uncorkedSize).length,
      conn.sendBuffer.buffer.clear.capacity⟩]
  else []

def loopCopies (answers : Answers) : List SendResult → Nat → Conn → List TailCopy
  | _, 0, _ | [], _ + 1, _ | .eagain :: _, _ + 1, _ | .error :: _, _ + 1, _ => []
  | .eintr :: results, left + 1, conn => loopCopies answers results (left + 1) conn
  | .accepted more :: results, left + 1, conn =>
      let count := min (more + 1) (left + 1)
      let after := conn.sent answers.now count
      if left + 1 - count = 0 ∧ after.uncorkedSize ≠ 0 then
        after.swapCopies ++
          match after.swapCorked with
          | some swapped => loopCopies answers results after.uncorkedSize swapped
          | none => []
      else loopCopies answers results (left + 1 - count) after

def writeCopies (answers : Answers) (conn : Conn) : List TailCopy :=
  if conn.state = .connecting then []
  else
    loopCopies answers (if conn.socket then answers.sends else [.error])
      conn.sendBuffer.unsent.length conn.startWrite

def flushCopies (answers : Answers) (conn : Conn) : List TailCopy :=
  if conn.outputBuffer.size = 0 then []
  else if conn.sendBuffer.unsent = [] then
    { conn with
      sendBuffer := .ofBuffer conn.outputBuffer
      outputBuffer := conn.sendBuffer.buffer.clear
      uncorkedSize := 0 }.writeCopies answers
  else []

/-- Appends that fit, reserves, flushes and write events, whatever `send()` gives. -/
def MovesOutput (conn : Conn) : Event × Answers → Prop
  | (.append bytes, _) => bytes.length ≤ conn.outputBuffer.available
  | (.reserve _, _) | (.flush, _) | (.write, _) => True
  | _ => False

def tailCopies (conn : Conn) : Event × Answers → List TailCopy
  | (.flush, answers) => conn.flushCopies answers
  | (.write, answers) => conn.writeCopies answers
  | _ => []

def TailRoom (conn : Conn) : Event × Answers → Prop
  | (.write, answers) => conn.state ≠ .connecting → conn.socket = true →
      conn.sendBuffer.unsent ≠ [] → conn.TailFits (.write, answers)
  | _ => True

theorem swap_unmarked {conn swapped : Conn} (done : conn.swapCorked = some swapped) :
    swapped.uncorkedSize = 0 := by
  unfold swapCorked at done
  by_cases behind : conn.uncorkedSize < conn.outputBuffer.size
  · by_cases room : (conn.outputBuffer.content.drop conn.uncorkedSize).length ≤
        conn.sendBuffer.buffer.clear.capacity
    · simp only [if_pos behind, if_pos room, Option.some.injEq] at done
      rw [← done]
    · simp only [if_pos behind, if_neg room] at done
      cases done
  · simp only [if_neg behind, Option.some.injEq] at done
    rw [← done]

theorem swap_made (conn : Conn)
    (room : conn.outputBuffer.size - conn.uncorkedSize ≤ conn.sendBuffer.buffer.capacity) :
    ∃ swapped, conn.swapCorked = some swapped := by
  have small : (conn.outputBuffer.content.drop conn.uncorkedSize).length ≤
      conn.sendBuffer.buffer.clear.capacity := by
    rw [OwnedBuffer.clear_capacity, List.length_drop]
    exact room
  unfold swapCorked
  by_cases behind : conn.uncorkedSize < conn.outputBuffer.size
  · simp only [if_pos behind, if_pos small]
    exact ⟨_, rfl⟩
  · simp only [if_neg behind]
    exact ⟨_, rfl⟩

theorem swap_copies_iff (conn : Conn) : (∀ copy ∈ conn.swapCopies, copy.Fits) ↔
    conn.outputBuffer.size - conn.uncorkedSize ≤ conn.sendBuffer.buffer.capacity := by
  unfold swapCopies
  by_cases behind : conn.uncorkedSize < conn.outputBuffer.size
  · rw [if_pos behind, List.forall_mem_singleton, TailCopy.Fits, OwnedBuffer.clear_capacity,
      List.length_drop]
    rfl
  · rw [if_neg behind, Nat.sub_eq_zero_of_le (Nat.le_of_not_lt behind)]
    exact iff_of_true (fun _ member => nomatch member) (Nat.zero_le _)

theorem loop_copies_unmarked (answers : Answers) (results : List SendResult) (left : Nat)
    (conn : Conn) (unmarked : conn.uncorkedSize = 0) : loopCopies answers results left conn = [] := by
  induction results generalizing left conn with
  | nil => cases left <;> rfl
  | cons result results ih =>
      cases left with
      | zero => rfl
      | succ left =>
          cases result with
          | eagain | error => rfl
          | eintr => exact ih (left + 1) conn unmarked
          | accepted more =>
              rw [loopCopies, if_neg fun both => both.2 unmarked]
              exact ih _ _ unmarked

theorem loop_copies_goes_on (answers : Answers) (more left : Nat) (results : List SendResult)
    (conn : Conn)
    (unfinished : ¬ (left + 1 - min (more + 1) (left + 1) = 0 ∧ conn.uncorkedSize ≠ 0)) :
    loopCopies answers (.accepted more :: results) (left + 1) conn =
      loopCopies answers results (left + 1 - min (more + 1) (left + 1))
        (conn.sent answers.now (min (more + 1) (left + 1))) := by
  rw [loopCopies]
  exact if_neg unfinished

theorem loop_copies_swaps (answers : Answers) (more left : Nat) (results : List SendResult)
    (conn : Conn) (finished : left + 1 - min (more + 1) (left + 1) = 0)
    (marked : conn.uncorkedSize ≠ 0) :
    loopCopies answers (.accepted more :: results) (left + 1) conn =
      (conn.sent answers.now (min (more + 1) (left + 1))).swapCopies := by
  have both : left + 1 - min (more + 1) (left + 1) = 0 ∧
    (conn.sent answers.now (min (more + 1) (left + 1))).uncorkedSize ≠ 0 := ⟨finished, marked⟩
  rw [loopCopies, if_pos both]
  cases done : (conn.sent answers.now (min (more + 1) (left + 1))).swapCorked with
  | none => exact List.append_nil _
  | some swapped =>
      have nothing := loop_copies_unmarked answers results
        (conn.sent answers.now (min (more + 1) (left + 1))).uncorkedSize swapped
        (swap_unmarked done)
      simp only [nothing, List.append_nil]

theorem loop_copies_iff (answers : Answers) (results : List SendResult) (left : Nat) (conn : Conn) :
    (∀ copy ∈ loopCopies answers results left conn, copy.Fits) ↔
      (left ≠ 0 → conn.uncorkedSize ≠ 0 → drains results left →
        conn.outputBuffer.size - conn.uncorkedSize ≤ conn.sendBuffer.buffer.capacity) := by
  induction results generalizing left conn with
  | nil =>
      cases left with
      | zero => simp [loopCopies]
      | succ left => simp [loopCopies, drains]
  | cons result results ih =>
      cases left with
      | zero => simp [loopCopies]
      | succ left =>
          cases result with
          | eagain | error => simp [loopCopies, drains]
          | eintr => exact ih (left + 1) conn
          | accepted more =>
              -- only the pass that drains the queue up to a mark copies
              by_cases swaps : left + 1 - min (more + 1) (left + 1) = 0 ∧ conn.uncorkedSize ≠ 0
              · obtain ⟨finished, marked⟩ := swaps
                have room := swap_copies_iff (conn.sent answers.now (min (more + 1) (left + 1)))
                rw [loop_copies_swaps answers more left results conn finished marked, room, drains,
                  finished, drains]
                constructor
                · intro fits _ _ _
                  exact fits
                · intro fits
                  exact fits (Nat.succ_ne_zero left) marked rfl
              · rw [loop_copies_goes_on answers more left results conn swaps, ih, drains]
                constructor
                · intro fits _ marked through
                  exact fits (fun finished => swaps ⟨finished, marked⟩) marked through
                · intro fits _ marked through
                  exact fits (Nat.succ_ne_zero left) marked through

theorem write_copies_iff (answers : Answers) (conn : Conn) :
    (∀ copy ∈ conn.writeCopies answers, copy.Fits) ↔ conn.TailRoom (.write, answers) := by
  have same : conn.startWrite.uncorkedSize = conn.uncorkedSize ∧
      conn.startWrite.outputBuffer = conn.outputBuffer ∧
      conn.startWrite.sendBuffer = conn.sendBuffer := by
    unfold startWrite
    split <;> exact ⟨rfl, rfl, rfl⟩
  unfold writeCopies
  by_cases connecting : conn.state = .connecting
  · simp [connecting, TailRoom]
  · rw [if_neg connecting, loop_copies_iff, same.1, same.2.1, same.2.2]
    cases open_ : conn.socket with
    | true => simp [TailRoom, TailFits, connecting, open_]
    | false =>
        cases queue : conn.sendBuffer.unsent with
        | nil => simp [TailRoom, open_]
        | cons byte rest => simp [TailRoom, open_, drains]

theorem flush_copies_nothing (answers : Answers) (conn : Conn) : conn.flushCopies answers = [] := by
  unfold flushCopies
  split_ifs
  · rfl
  · unfold writeCopies startWrite
    split_ifs <;> first | rfl | exact loop_copies_unmarked _ _ _ _ rfl
  · rfl

theorem tail_copies_iff (conn : Conn) (event : Event × Answers) (moves : conn.MovesOutput event) :
    (∀ copy ∈ conn.tailCopies event, copy.Fits) ↔ conn.TailRoom event := by
  obtain ⟨call, answers⟩ := event
  cases call with
  | write => exact write_copies_iff answers conn
  | flush =>
      rw [tailCopies, flush_copies_nothing]
      exact iff_of_true (fun _ member => nomatch member) trivial
  | append | reserve => exact iff_of_true (fun _ member => nomatch member) trivial
  | openConnection | close | setConnectionString | setRequiredProto | setCallbacks | request
  | inputProcessed | tick1sec | read | resolved | resolveFailed => exact moves.elim

/-- The recorded copies are the ones the loop stumbles over: with the flush mark
inside the output buffer, nothing else makes it undefined. -/
theorem loop_defined_iff (answers : Answers) (results : List SendResult) (left : Nat) (conn : Conn)
    (within : conn.uncorkedSize ≤ conn.outputBuffer.size) :
    (sendLoop answers results left conn).isSome ↔
      ∀ copy ∈ loopCopies answers results left conn, copy.Fits := by
  induction results generalizing left conn with
  | nil => cases left <;> simp [sendLoop, loopCopies]
  | cons result results ih =>
      cases left with
      | zero => simp [sendLoop, loopCopies]
      | succ left =>
          cases result with
          | eagain | error => simp [sendLoop, loopCopies]
          | eintr => exact ih (left + 1) conn within
          | accepted more =>
              by_cases swaps : left + 1 - min (more + 1) (left + 1) = 0 ∧ conn.uncorkedSize ≠ 0
              · obtain ⟨finished, marked⟩ := swaps
                rw [send_loop_swaps answers more left results conn finished marked within,
                  loop_copies_swaps answers more left results conn finished marked]
                by_cases room : conn.outputBuffer.size - conn.uncorkedSize ≤
                    conn.sendBuffer.buffer.capacity
                · obtain ⟨swapped, done⟩ := swap_made
                    (conn.sent answers.now (min (more + 1) (left + 1))) room
                  have unmarked := swap_unmarked done
                  have small : swapped.uncorkedSize ≤ swapped.outputBuffer.size := by
                    rw [unmarked]
                    exact Nat.zero_le _
                  refine iff_of_true ?_ ((swap_copies_iff _).mpr room)
                  rw [done, Option.bind_some, ih _ _ small, loop_copies_unmarked _ _ _ _ unmarked]
                  intro _ member
                  cases member
                · have large := swap_overflows (conn.sent answers.now (min (more + 1) (left + 1)))
                    (Nat.lt_of_not_le room)
                  rw [large]
                  refine iff_of_false Bool.false_ne_true fun fits => room ?_
                  exact (swap_copies_iff _).mp fits
              · rw [send_loop_goes_on answers more left results conn swaps,
                  loop_copies_goes_on answers more left results conn swaps]
                exact ih _ _ within

end Conn

/-- The room asked for in the storage the caller writes to and in the other one, and how
much is unsent, flushed behind that, and appended since the last flush. -/
structure Books where
  output : Nat
  send : Nat
  unsent : Nat
  flushed : Nat
  tail : Nat
  socket : Bool
  connecting : Bool
  deriving DecidableEq

namespace Books

def swapped (books : Books) : Books :=
  { books with output := books.send, send := books.output, unsent := books.flushed, flushed := 0 }

def closed (books : Books) : Books :=
  if books.socket then
    { books with socket := false, connecting := false, unsent := 0, flushed := 0, tail := 0 }
  else { books with connecting := false }

def sends : List SendResult → Books → Books
  | [], books | .eagain :: _, books => books
  | .eintr :: results, books => sends results books
  | .error :: _, books => if books.unsent = 0 then books else books.closed
  | .accepted more :: results, books =>
      if books.unsent = 0 then books
      else if books.unsent - (more + 1) = 0 ∧ books.flushed ≠ 0 then sends results books.swapped
      else sends results { books with unsent := books.unsent - (more + 1) }

def writes (answers : Answers) (books : Books) : Books :=
  if books.connecting then
    if !books.socket || answers.soError then books.closed else books
  else books.sends (if books.socket then answers.sends else [.error])

def flushes (answers : Answers) (books : Books) : Books :=
  if books.flushed + books.tail = 0 then books
  else if books.unsent = 0 then
    { books with
      output := books.send
      send := books.output
      unsent := books.flushed + books.tail
      flushed := 0
      tail := 0 }.writes answers
  else { books with flushed := books.flushed + books.tail, tail := 0 }

def after : Event × Answers → Books → Books
  | (.append bytes, _), books => { books with tail := books.tail + bytes.length }
  | (.reserve size, _), books => { books with output := max books.output size }
  | (.flush, answers), books => books.flushes answers
  | (.write, answers), books => books.writes answers
  | _, books => books

/-- The appends since the last flush, when a write event sends all that is queued and goes on
with what was flushed, are covered by what was asked for the storage that is sent. -/
def Covered (books : Books) : Event × Answers → Prop
  | (.write, answers) => books.connecting = false → books.socket = true → books.unsent ≠ 0 →
      books.flushed ≠ 0 → drains answers.sends books.unsent → books.tail ≤ books.send
  | _ => True

/-- At every event of the list. -/
def CoversTails : List (Event × Answers) → Books → Prop
  | [], _ => True
  | event :: events, books => books.Covered event ∧ CoversTails events (books.after event)

instance (books : Books) : (event : Event × Answers) → Decidable (books.Covered event)
  | (.write, _) => by unfold Covered; infer_instance
  | (.openConnection _, _) | (.close _ _, _) | (.setConnectionString _, _)
  | (.setRequiredProto _, _) | (.setCallbacks _ _, _) | (.append _, _) | (.reserve _, _)
  | (.request _, _) | (.flush, _) | (.inputProcessed, _) | (.tick1sec, _) | (.read, _)
  | (.resolved, _) | (.resolveFailed _, _) => .isTrue trivial

instance : (events : List (Event × Answers)) → (books : Books) →
    Decidable (books.CoversTails events)
  | [], _ => .isTrue trivial
  | event :: events, books =>
      have := instDecidableCoversTails events (books.after event)
      inferInstanceAs (Decidable (books.Covered event ∧ CoversTails events (books.after event)))

end Books

namespace Conn

/-- The books of a connection that has this storage. -/
def books (conn : Conn) : Books where
  output := conn.outputBuffer.capacity
  send := conn.sendBuffer.buffer.capacity
  unsent := conn.sendBuffer.unsent.length
  flushed := conn.uncorkedSize
  tail := conn.outputBuffer.size - conn.uncorkedSize
  socket := conn.socket
  connecting := conn.state = .connecting

/-- The flush mark is inside the output buffer. -/
def MarkInside (conn : Conn) : Prop := conn.uncorkedSize ≤ conn.outputBuffer.size

/-- The connection keeps these books. -/
structure KeepsBooks (books : Books) (conn : Conn) : Prop where
  same : conn.books = books
  inside : conn.MarkInside

section Bookkeeping
variable {conn after : Conn} {answers : Answers}

theorem fail_books (message : Bytes) (code : ErrorCode) (handler : Bool) (inside : conn.MarkInside) :
    KeepsBooks conn.books.closed (conn.fail answers message code handler) := by
  obtain ⟨extra, shape, _⟩ := fail_shape answers message code handler conn
  rw [shape]
  unfold closed
  cases opened : conn.socket with
  | true =>
      simp only [if_true]
      refine ⟨?_, Nat.zero_le _⟩
      have emptied : conn.outputBuffer.clear.size - 0 = 0 := rfl
      have output := OwnedBuffer.clear_capacity conn.outputBuffer
      have send := OwnedBuffer.clear_capacity conn.sendBuffer.buffer
      simp only [books, Books.closed, opened, if_true, reconnectSoon, dropSocket, reset, watchSocket,
        emptied, output, SendBuffer.ofBuffer, send]
      rfl
  | false =>
      simp only [Bool.false_eq_true, if_false]
      refine ⟨?_, inside⟩
      simp only [books, Books.closed, opened, Bool.false_eq_true, if_false, reconnectSoon, reset]
      rfl

theorem sent_books (now : Int) (count : Nat) (conn : Conn) :
    (conn.sent now count).books =
      { conn.books with unsent := conn.sendBuffer.unsent.length - count } := by
  simp only [books, sent, SendBuffer.advance_unsent, List.length_drop, SendBuffer.advance_buffer]
  rfl

theorem swap_books (drained : conn.sendBuffer.unsent = []) (inside : conn.MarkInside)
    (done : conn.swapCorked = some after) : KeepsBooks conn.books.swapped after := by
  have fits : conn.outputBuffer.size - conn.uncorkedSize ≤ conn.sendBuffer.buffer.capacity := by
    by_contra large
    rw [swap_overflows conn (Nat.lt_of_not_le large)] at done
    cases done
  obtain ⟨swapped, same, kept, queued, clean⟩ := swap_conserves conn drained inside fits
  cases done.symm.trans same
  refine ⟨?_, by rw [MarkInside, clean]; exact Nat.zero_le _⟩
  have room : after.outputBuffer.capacity = conn.sendBuffer.buffer.capacity ∧
      after.sendBuffer.buffer.capacity = conn.outputBuffer.capacity ∧
      after.outputBuffer.size = conn.outputBuffer.size - conn.uncorkedSize := by
    unfold swapCorked at done
    have inside : conn.uncorkedSize ≤ conn.outputBuffer.size := inside
    have stored : conn.outputBuffer.size ≤ conn.outputBuffer.capacity := Nat.le_add_right _ _
    have length : (conn.outputBuffer.content.drop conn.uncorkedSize).length =
      conn.outputBuffer.size - conn.uncorkedSize := List.length_drop
    by_cases behind : conn.uncorkedSize < conn.outputBuffer.size
    · have tail : (conn.outputBuffer.content.drop conn.uncorkedSize).length ≤
          conn.sendBuffer.buffer.clear.capacity := by
        rw [OwnedBuffer.clear_capacity, length]
        exact fits
      simp only [if_pos behind, if_pos tail, Option.some.injEq] at done
      subst done
      refine ⟨?_, ?_, ?_⟩
      · simp only [OwnedBuffer.resize_capacity, OwnedBuffer.overwrite_capacity,
          OwnedBuffer.clear_capacity, length]
        omega
      · simp only [SendBuffer.ofBuffer, OwnedBuffer.resize_capacity]
        omega
      · simp only [OwnedBuffer.size, OwnedBuffer.overwrite_resize_content]
        exact length
    · simp only [if_neg behind, Option.some.injEq] at done
      subst done
      refine ⟨OwnedBuffer.clear_capacity _, rfl, ?_⟩
      change 0 = _
      omega
  obtain ⟨output, send, size⟩ := room
  simp only [books, Books.swapped, output, send, size, queued, clean, kept.socket, kept.state,
    Nat.sub_zero]

theorem send_loop_books (results : List SendResult) (inside : conn.MarkInside)
    (done : sendLoop answers results conn.sendBuffer.unsent.length conn = some after) :
    KeepsBooks (conn.books.sends results) after := by
  generalize offered : conn.sendBuffer.unsent.length = left at done
  -- on the results of `send()`: both sides take the same ones
  induction results generalizing left conn with
  | nil =>
      cases left <;>
      · cases done
        exact ⟨rfl, inside⟩
  | cons result results ih =>
      have queue : conn.books.unsent = left := offered
      cases left with
      | zero =>
          cases done
          -- with nothing to send no result is looked at
          have still : ∀ results, Books.sends results conn.books = conn.books := by
            intro results
            induction results with
            | nil => rfl
            | cons result results ih =>
                cases result with
                | eagain => rfl
                | eintr => exact ih
                | error | accepted => exact if_pos queue
          rw [still]
          exact ⟨rfl, inside⟩
      | succ left =>
          have some : ¬ conn.books.unsent = 0 := by omega
          cases result with
          | eagain =>
              cases done
              exact ⟨rfl, inside⟩
          | error =>
              cases done
              rw [Books.sends, if_neg some]
              exact fail_books [] .system true inside
          | eintr => exact ih inside (left + 1) offered done
          | accepted more =>
              have remaining := sent_left answers.now (min (more + 1) (left + 1)) (left + 1) conn
                offered
              have count : conn.books.unsent - (more + 1) =
                  left + 1 - min (more + 1) (left + 1) := by omega
              have moved := sent_books answers.now (min (more + 1) (left + 1)) conn
              rw [offered] at moved
              rw [Books.sends, if_neg some, count]
              -- the last byte has gone and a tail was flushed: the buffers change places
              by_cases swaps : left + 1 - min (more + 1) (left + 1) = 0 ∧ conn.uncorkedSize ≠ 0
              · have through : left + 1 - min (more + 1) (left + 1) = 0 ∧ conn.books.flushed ≠ 0 :=
                  swaps
                rw [send_loop_swaps answers more left results conn swaps.1 swaps.2 inside] at done
                obtain ⟨swapped, swap, rest⟩ := Option.bind_eq_some_iff.mp done
                have drained := List.eq_nil_of_length_eq_zero (remaining.trans swaps.1)
                have kept := swap_books drained inside swap
                rw [moved] at kept
                have queued : swapped.sendBuffer.unsent.length = conn.uncorkedSize :=
                  congrArg Books.unsent kept.same
                have later := ih kept.inside conn.uncorkedSize queued rest
                rw [kept.same] at later
                rw [if_pos through]
                exact later
              · have through : ¬ (left + 1 - min (more + 1) (left + 1) = 0 ∧
                    conn.books.flushed ≠ 0) := swaps
                rw [send_loop_goes_on answers more left results conn swaps] at done
                have marked : (conn.sent answers.now (min (more + 1) (left + 1))).MarkInside :=
                  inside
                have later := ih marked _ remaining done
                rw [moved] at later
                rw [if_neg through]
                exact later

theorem write_books (inside : conn.MarkInside) (done : conn.write answers = some after) :
    KeepsBooks (conn.books.writes answers) after := by
  have same : conn.startWrite.books = conn.books ∧ conn.startWrite.MarkInside ∧
      conn.startWrite.sendBuffer = conn.sendBuffer := by
    unfold startWrite
    split <;> exact ⟨rfl, inside, rfl⟩
  obtain ⟨books, marked, queue⟩ := same
  unfold write at done
  by_cases connecting : conn.state = .connecting
  · have first : conn.books.connecting = true := decide_eq_true connecting
    rw [if_pos connecting] at done
    rw [Books.writes, if_pos first]
    by_cases refused : (!conn.socket || answers.soError) = true
    · have lost : (!conn.books.socket || answers.soError) = true := refused
      rw [if_pos refused] at done
      cases done
      rw [if_pos lost]
      exact fail_books [] .system false inside
    · have well : ¬ (!conn.books.socket || answers.soError) = true := refused
      rw [if_neg refused] at done
      cases done
      rw [if_neg well]
      exact ⟨rfl, inside⟩
  · have later : ¬ conn.books.connecting = true := fun first => connecting (of_decide_eq_true first)
    rw [if_neg connecting, ← queue] at done
    rw [Books.writes, if_neg later, ← books]
    have socket : conn.startWrite.books.socket = conn.socket := by
      rw [books]
      rfl
    rw [socket]
    exact send_loop_books _ marked done

theorem flush_books {flushed : Bool × Conn} (inside : conn.MarkInside)
    (done : conn.flush answers = some flushed) :
    KeepsBooks (conn.books.flushes answers) flushed.2 := by
  have inside' : conn.uncorkedSize ≤ conn.outputBuffer.size := inside
  have total : conn.books.flushed + conn.books.tail = conn.outputBuffer.size := by
    change conn.uncorkedSize + (conn.outputBuffer.size - conn.uncorkedSize) = _
    omega
  unfold flush at done
  rw [Books.flushes, total]
  by_cases nothing : conn.outputBuffer.size = 0
  · rw [if_pos nothing] at done
    cases done
    rw [if_pos nothing]
    exact ⟨rfl, inside⟩
  · rw [if_neg nothing] at done ⊢
    -- an idle send buffer takes the output whole, else the flush only moves the mark
    by_cases idle : conn.sendBuffer.unsent = []
    · have none : conn.books.unsent = 0 := by
        change conn.sendBuffer.unsent.length = 0
        rw [idle]
        rfl
      rw [if_pos idle] at done
      rw [if_pos none]
      obtain ⟨wrote, ran, rfl⟩ := Option.map_eq_some_iff.mp done
      let moved := { conn with
        sendBuffer := .ofBuffer conn.outputBuffer
        outputBuffer := conn.sendBuffer.buffer.clear
        uncorkedSize := 0 }
      have kept := @write_books moved wrote answers (Nat.zero_le _) ran
      have same : moved.books = { conn.books with
          output := conn.books.send
          send := conn.books.output
          unsent := conn.outputBuffer.size
          flushed := 0
          tail := 0 } := by
        have cleared : conn.sendBuffer.buffer.clear.size - 0 = 0 := rfl
        simp only [moved, books, OwnedBuffer.clear_capacity, SendBuffer.of_buffer_unsent, cleared]
        rfl
      rw [same] at kept
      exact kept
    · have some : ¬ conn.books.unsent = 0 := fun none =>
        idle (List.eq_nil_of_length_eq_zero none)
      rw [if_neg idle] at done
      cases done
      rw [if_neg some]
      refine ⟨?_, Nat.le_refl _⟩
      simp only [books, Nat.sub_self]

variable (mp : Msgpuck) (crypto : Crypto) (parseCs : Bytes → CsParts)

theorem step_books {event : Event × Answers} (inside : conn.MarkInside)
    (moves : conn.MovesOutput event) (done : step mp crypto parseCs event conn = some after) :
    KeepsBooks (conn.books.after event) after := by
  have inside' : conn.uncorkedSize ≤ conn.outputBuffer.size := inside
  obtain ⟨call, answers⟩ := event
  cases call with
  | append bytes =>
      have room : bytes.length ≤ conn.outputBuffer.available := moves
      have stored : conn.append bytes = some after := done
      rw [append, if_pos room] at stored
      cases stored
      have size : (conn.outputBuffer.push (bytes.map fun byte => ⟨byte, .caller⟩)).size =
          conn.outputBuffer.size + bytes.length := by
        simp [OwnedBuffer.size]
      have storage := OwnedBuffer.push_capacity (bytes.map fun byte => (⟨byte, .caller⟩ : OutByte))
        conn.outputBuffer (by rwa [List.length_map])
      have behind : conn.outputBuffer.size + bytes.length - conn.uncorkedSize =
          conn.outputBuffer.size - conn.uncorkedSize + bytes.length := by omega
      refine ⟨?_, ?_⟩
      · simp only [books, Books.after, size, storage, behind]
      · change conn.uncorkedSize ≤ (conn.outputBuffer.push _).size
        rw [size]
        omega
  | reserve size =>
      cases done
      refine ⟨?_, inside⟩
      simp only [books, Books.after, OwnedBuffer.reserve_capacity]
      rfl
  | flush =>
      obtain ⟨flushed, ran, rfl⟩ := Option.map_eq_some_iff.mp done
      exact flush_books inside ran
  | write => exact write_books inside done
  | openConnection | close | setConnectionString | setRequiredProto | setCallbacks | request
  | inputProcessed | tick1sec | read | resolved | resolveFailed => exact moves.elim

theorem tail_room_iff (event : Event × Answers) : conn.TailRoom event ↔ conn.books.Covered event := by
  obtain ⟨call, answers⟩ := event
  cases call with
  | write =>
      have connecting : conn.books.connecting = false ↔ conn.state ≠ .connecting :=
        decide_eq_false_iff_not
      have unsent : conn.books.unsent ≠ 0 ↔ conn.sendBuffer.unsent ≠ [] :=
        not_congr List.length_eq_zero_iff
      rw [Books.Covered, connecting, unsent]
      exact Iff.rfl
  | _ => exact Iff.rfl

theorem run_books {start : Conn} {events : List (Event × Answers)} (inside : start.MarkInside)
    (run : Run (step mp crypto parseCs) MovesOutput start events conn) :
    KeepsBooks (events.foldl (fun books event => books.after event) start.books) conn := by
  induction run with
  | nil => exact ⟨rfl, inside⟩
  | snoc _ moves done ih =>
      have kept := step_books mp crypto parseCs ih.inside moves done
      rw [ih.same] at kept
      rw [List.foldl_append]
      exact kept

theorem step_made {event : Event × Answers} (inside : conn.MarkInside)
    (moves : conn.MovesOutput event) (covered : conn.books.Covered event) :
    ∃ next, step mp crypto parseCs event conn = some next := by
  -- `memcpy` is the only thing that can be undefined
  have looped : ∀ (answers : Answers) (results : List SendResult) (left : Nat) (conn : Conn),
      conn.MarkInside → (∀ copy ∈ loopCopies answers results left conn, copy.Fits) →
      ∃ next, sendLoop answers results left conn = some next := by
    intro answers results left conn inside fits
    exact Option.isSome_iff_exists.mp ((loop_defined_iff answers results left conn inside).mpr fits)
  have wrote : ∀ (answers : Answers) (conn : Conn), conn.MarkInside →
      (∀ copy ∈ conn.writeCopies answers, copy.Fits) → ∃ next, conn.write answers = some next := by
    intro answers conn inside fits
    unfold write
    unfold writeCopies at fits
    by_cases connecting : conn.state = .connecting
    · rw [if_pos connecting]
      split <;> exact ⟨_, rfl⟩
    · rw [if_neg connecting] at fits ⊢
      refine looped answers _ _ _ ?_ fits
      unfold startWrite
      split <;> exact inside
  obtain ⟨call, answers⟩ := event
  cases call with
  | append bytes => exact ⟨_, if_pos moves⟩
  | reserve size => exact ⟨_, rfl⟩
  | write =>
      have fits := (write_copies_iff answers conn).mpr ((tail_room_iff _).mpr covered)
      exact wrote answers conn inside fits
  | flush =>
      have flushed : ∃ reached, conn.flush answers = some reached := by
        unfold flush
        split_ifs
        · exact ⟨_, rfl⟩
        · have fits := flush_copies_nothing answers conn
          rename_i offers idle
          rw [flushCopies, if_neg offers, if_pos idle] at fits
          obtain ⟨next, done⟩ := wrote answers { conn with
            sendBuffer := .ofBuffer conn.outputBuffer
            outputBuffer := conn.sendBuffer.buffer.clear
            uncorkedSize := 0 } (Nat.zero_le _) (by rw [fits]; exact fun _ member => nomatch member)
          exact ⟨_, congrArg (Option.map fun next => (true, next)) done⟩
        · exact ⟨_, rfl⟩
      obtain ⟨reached, done⟩ := flushed
      exact ⟨reached.2, congrArg (Option.map Prod.snd) done⟩
  | openConnection | close | setConnectionString | setRequiredProto | setCallbacks | request
  | inputProcessed | tick1sec | read | resolved | resolveFailed => exact moves.elim

/-- In every run of appends, reserves, flushes and write events all copies of corked tails fit if
and only if the caller's appends between a flush and the write event that gets past it are always
covered by what was asked for the other storage. -/
theorem corked_tails_fit_iff (start : Conn) (inside : start.MarkInside)
    (events : List (Event × Answers))
    (contract : Throughout (step mp crypto parseCs) MovesOutput events start) :
    (∀ copy ∈ gathered (step mp crypto parseCs) tailCopies events start, copy.Fits) ↔
      start.books.CoversTails events := by
  induction events generalizing start with
  | nil => exact iff_of_true (fun _ member => nomatch member) trivial
  | cons event events ih =>
      obtain ⟨moves, later⟩ := contract
      rw [gathered, List.forall_mem_append, tail_copies_iff start event moves, tail_room_iff,
        Books.CoversTails]
      apply and_congr_right
      intro covered
      obtain ⟨next, done⟩ := step_made mp crypto parseCs inside moves covered
      have kept := step_books mp crypto parseCs inside moves done
      simp only [done]
      rw [ih next kept.inside (later next done), kept.same]

end Bookkeeping

theorem writes_moves (conn : Conn) (event : Event × Answers) (writes : conn.WritesOutput event) :
    conn.MovesOutput event := by
  obtain ⟨call, answers⟩ := event
  cases call with
  | append => exact writes
  | reserve | flush | write => exact trivial
  | openConnection | close | setConnectionString | setRequiredProto | setCallbacks | request
  | inputProcessed | tick1sec | read | resolved | resolveFailed => exact writes.elim

/-- The same has been asked for both storages. -/
structure Even (storage : Nat) (books : Books) : Prop where
  output : books.output = storage
  send : books.send = storage

section Even
variable {storage : Nat} {books : Books}

theorem closed_even (even : Even storage books) : Even storage books.closed := by
  unfold Books.closed
  split <;> exact ⟨even.output, even.send⟩

theorem sends_even (results : List SendResult) (even : Even storage books) :
    Even storage (books.sends results) := by
  induction results generalizing books with
  | nil => exact even
  | cons result results ih =>
      cases result with
      | eagain => exact even
      | eintr => exact ih even
      | error =>
          rw [Books.sends]
          split
          · exact even
          · exact closed_even even
      | accepted more =>
          rw [Books.sends]
          split_ifs
          · exact even
          · exact ih ⟨even.send, even.output⟩
          · exact ih ⟨even.output, even.send⟩

theorem writes_even (answers : Answers) (even : Even storage books) :
    Even storage (books.writes answers) := by
  unfold Books.writes
  split_ifs
  · exact closed_even even
  · exact even
  · exact sends_even _ even
  · exact sends_even _ even

theorem after_even {event : Event × Answers} (even : Even storage books)
    (modest : ∀ size, event.1 = .reserve size → size ≤ storage) :
    Even storage (books.after event) := by
  obtain ⟨call, answers⟩ := event
  cases call with
  | reserve size =>
      refine ⟨?_, even.send⟩
      change max books.output size = storage
      rw [even.output]
      exact Nat.max_eq_left (modest size rfl)
  | flush =>
      change Even storage (books.flushes answers)
      unfold Books.flushes
      split_ifs
      · exact even
      · exact writes_even answers ⟨even.send, even.output⟩
      · exact ⟨even.output, even.send⟩
  | write => exact writes_even answers even
  | _ => exact ⟨even.output, even.send⟩

/-- A caller that never reserves more than the common storage of both buffers has all its tails
copied within them. -/
theorem modest_reserves_fit (mp : Msgpuck) (crypto : Crypto) (parseCs : Bytes → CsParts)
    (start : Conn) (inside : start.MarkInside) (events : List (Event × Answers))
    (even : Even storage start.books)
    (contract : Throughout (step mp crypto parseCs) MovesOutput events start)
    (modest : ∀ event ∈ events, ∀ size, event.1 = .reserve size → size ≤ storage) :
    start.books.CoversTails events := by
  induction events generalizing start with
  | nil => trivial
  | cons event events ih =>
      have covered : start.books.Covered event := by
        obtain ⟨call, answers⟩ := event
        cases call with
        | write =>
            intro _ _ _ _ _
            have stored : start.outputBuffer.size ≤ start.outputBuffer.capacity :=
              Nat.le_add_right _ _
            have output : start.outputBuffer.capacity = storage := even.output
            rw [even.send, ← output]
            exact Nat.le_trans (Nat.sub_le _ _) stored
        | _ => exact trivial
      refine ⟨covered, ?_⟩
      obtain ⟨next, done⟩ := step_made mp crypto parseCs inside contract.1 covered
      have kept := step_books mp crypto parseCs inside contract.1 done
      have later := after_even even (modest event List.mem_cons_self)
      rw [← kept.same] at later ⊢
      exact ih next kept.inside later (contract.2 next done) fun other member =>
        modest other (List.mem_cons_of_mem event member)

end Even

/-- Two bytes are appended behind a flush mark when the byte that waits is sent. -/
theorem corked_tails_fit_marked :
    (∃ copy ∈ gathered (step reference ⟨id, fun _ _ => []⟩ fun _ => ⟨[], [], [], [], []⟩) tailCopies
        (markedEvents ++ [bytesEvent, drainEvent]) opened, copy.length = 2) ∧
      ∀ copy ∈ gathered (step reference ⟨id, fun _ _ => []⟩ fun _ => ⟨[], [], [], [], []⟩) tailCopies
        (markedEvents ++ [bytesEvent, drainEvent]) opened, copy.Fits := by
  have output : opened.outputBuffer.capacity = 2 ^ 20 := OwnedBuffer.of_size_capacity (2 ^ 20)
  have send : opened.sendBuffer.buffer.capacity = 2 ^ 20 := OwnedBuffer.of_size_capacity (2 ^ 20)
  have inside : opened.MarkInside := Nat.zero_le _
  have first : opened.books = ⟨2 ^ 20, 2 ^ 20, 0, 0, 0, true, false⟩ := by
    rw [books, output, send]
    rfl
  obtain ⟨marked, run, _⟩ := marked_run reference ⟨id, fun _ _ => []⟩ (fun _ => ⟨[], [], [], [], []⟩)
    opened rfl rfl rfl rfl (by omega) (by omega)
  have moving := run.weaken fun conn event writes => writes_moves conn event writes.1
  have kept := run_books _ _ _ inside moving
  have same : marked.books = ⟨2 ^ 20, 2 ^ 20, 1, 1, 0, true, false⟩ := by
    rw [kept.same, first]
    rfl
  have flow := run_flow _ _ _ _ _ _ opened_ready run
  have corked : marked.uncorkedSize = 1 := congrArg Books.flushed same
  have waiting : marked.sendBuffer.unsent.length = 1 := congrArg Books.unsent same
  have tail : marked.outputBuffer.size - marked.uncorkedSize = 0 := congrArg Books.tail same
  have storage : marked.outputBuffer.capacity = 2 ^ 20 := congrArg Books.output same
  have size : marked.outputBuffer.size = 1 := by
    have mark : marked.uncorkedSize ≤ marked.outputBuffer.size := kept.inside
    omega
  have room := two_more_fit size storage
  let longer := { marked with
    outputBuffer := marked.outputBuffer.push ([(3 : UInt8), 4].map fun byte => ⟨byte, .caller⟩) }
  have appended : step reference ⟨id, fun _ _ => []⟩ (fun _ => ⟨[], [], [], [], []⟩) bytesEvent
    marked = some longer := if_pos room
  have contract : Throughout (step reference ⟨id, fun _ _ => []⟩ fun _ => ⟨[], [], [], [], []⟩)
      MovesOutput (markedEvents ++ [bytesEvent, drainEvent]) opened :=
    moving.throughout ⟨room, fun _ _ => ⟨trivial, fun _ _ => trivial⟩⟩
  refine ⟨⟨⟨2, longer.sendBuffer.buffer.clear.capacity⟩, moving.gathered_behind ?_, rfl⟩, ?_⟩
  · have connected : longer.state ≠ .connecting := by
      change marked.state ≠ .connecting
      rw [flow.state]
      decide
    have total : longer.outputBuffer.content.length = 3 := by
      have size : marked.outputBuffer.content.length = 1 := size
      simp [longer, size]
    have copies : longer.tailCopies drainEvent = [⟨2, longer.sendBuffer.buffer.clear.capacity⟩] := by
      have started : longer.startWrite.uncorkedSize = 1 ∧
          longer.startWrite.outputBuffer = longer.outputBuffer ∧
          longer.startWrite.sendBuffer = longer.sendBuffer := by
        unfold startWrite
        split <;> exact ⟨corked, rfl, rfl⟩
      have behind : 1 < longer.outputBuffer.size := by
        rw [OwnedBuffer.size, total]
        decide
      have socket : longer.socket = true := flow.socket
      have offered : longer.sendBuffer.unsent.length = 0 + 1 := waiting
      change longer.writeCopies { sends := [.accepted 0] } = _
      rw [writeCopies, if_neg connected, socket, offered, if_pos rfl,
        loop_copies_swaps _ 0 0 [] longer.startWrite rfl (by rw [started.1]; decide), swapCopies]
      simp only [sent, SendBuffer.advance_buffer, started.2.1, started.2.2, started.1, if_pos behind,
        List.length_drop, total]
    rw [gathered, appended]
    simp [gathered, copies]
  · apply (corked_tails_fit_iff _ _ _ opened inside _ contract).mpr
    rw [first]
    decide

/-- A tail of one byte more than the default size, which `reserve()` made room for
in the other buffer. -/
theorem corked_tail_too_long :
    ∃ events, Throughout (step reference ⟨id, fun _ _ => []⟩ fun _ => ⟨[], [], [], [], []⟩)
        MovesOutput events opened ∧
      ¬ ∀ copy ∈ gathered (step reference ⟨id, fun _ _ => []⟩ fun _ => ⟨[], [], [], [], []⟩)
        tailCopies events opened, copy.Fits := by
  obtain ⟨conn, run, marked, waiting, large⟩ := long_tail_run
  have moving : Run (step reference ⟨id, fun _ _ => []⟩ fun _ => ⟨[], [], [], [], []⟩) MovesOutput
      opened (markedEvents ++ [growEvent] ++ [tailEvent]) conn :=
    run.weaken fun conn event writes => writes_moves conn event writes.1
  have contract : Throughout (step reference ⟨id, fun _ _ => []⟩ fun _ => ⟨[], [], [], [], []⟩)
      MovesOutput (markedEvents ++ [growEvent] ++ [tailEvent] ++ [drainEvent]) opened :=
    moving.throughout ⟨trivial, fun _ _ => trivial⟩
  refine ⟨_, contract, ?_⟩
  intro fits
  have throughout := (gathered_iff tail_copies_iff _ _ contract).mp fits
  have room := (run.behind throughout).1
  have flow := run_flow _ _ _ _ _ _ opened_ready run
  have queue : conn.sendBuffer.unsent ≠ [] := flow.marked marked
  have connected : conn.state ≠ .connecting := by
    rw [flow.state]
    decide
  have through : drains [.accepted 0] conn.sendBuffer.unsent.length = true := by
    rw [waiting]
    rfl
  exact Nat.not_lt.mpr (room connected flow.socket queue marked through) large

end Conn

end Cpp2tnt
