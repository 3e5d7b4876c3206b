import Cpp2tnt.ConnectionEvents
import Cpp2tnt.Library.Transition

/-!
The room for `recv`. The receive buffer and the input buffer trade places with
each batch; neither ever gets smaller, whatever the caller does with the one it
was given, and half as much again is more as long as there are two bytes.
-/

namespace Cpp2tnt
open Imperative MessagePack Transition

/-- What `read()` does to the buffer before `recv`; the result is the window. -/
def WtfBuffer.growForRecv : Cxx Exn (WtfBuffer UInt8) Nat := do
  let buf ← Cxx.get
  let rest := buf.capacity - buf.size
  if rest < 1024 then
    WtfBuffer.reserve (buf.capacity * 3 / 2)
    let buf ← Cxx.get
    return buf.capacity - buf.size
  else return rest

namespace Conn

/-- One pass of the loop of `read()`: it leaves the loop or goes on with the next. -/
def recvPass (answers : Answers) (result : RecvResult) (conn : Conn) : (Bool × Conn) ⊕ Conn :=
  let ready := conn.makeRoom
  match result with
  | .eagain => .inl (true, ready)
  | .eintr => .inr ready
  | .error => .inl (false, ready.fail answers [] .system true)
  | .bytes chunk =>
      let taken := chunk.take ready.receiveBuffer.available
      if taken = [] then
        .inl (false, ready.fail answers (ascii "connection closed by peer") .closedByPeer true)
      else
        .inr { ready with
          receiveBuffer := ready.receiveBuffer.push taken
          received := ready.received ++ taken }

/-- The loop comes to a pass, with some of the results left. -/
inductive Comes (answers : Answers) : List RecvResult → Conn → List RecvResult → Conn → Prop
  | first {results : List RecvResult} {conn : Conn} : Comes answers results conn results conn
  | next {result : RecvResult} {results rest : List RecvResult} {conn middle call : Conn}
      (passed : recvPass answers result conn = .inr middle)
      (comes : Comes answers results middle rest call) :
      Comes answers (result :: results) conn rest call

/-- The connection at each call of `recv()`, before room is made for it. -/
def recvCalls (answers : Answers) : List RecvResult → Conn → List Conn
  | [], conn => [conn]
  | result :: results, conn =>
      conn :: (recvPass answers result conn).elim (fun _ => []) (recvCalls answers results)

section Passes
variable {answers : Answers}

theorem recv_loop_pass (result : RecvResult) (results : List RecvResult) (conn : Conn) :
    recvLoop answers (result :: results) conn =
      (recvPass answers result conn).elim id (recvLoop answers results) := by
  cases result with
  | eagain | eintr | error => rfl
  | bytes chunk =>
      rw [recvLoop, recvPass]
      by_cases ended : chunk.take conn.makeRoom.receiveBuffer.available = []
      · simp only [if_pos ended]
        rfl
      · simp only [if_neg ended]
        rfl

theorem Comes.loop {results rest : List RecvResult} {conn call : Conn}
    (comes : Comes answers results conn rest call) :
    recvLoop answers results conn = recvLoop answers rest call := by
  induction comes with
  | first => rfl
  | next passed _ ih => rw [recv_loop_pass, passed, Sum.elim_inr, ih]

theorem mem_recv_calls_iff (results : List RecvResult) (conn call : Conn) :
    call ∈ recvCalls answers results conn ↔ ∃ rest, Comes answers results conn rest call := by
  constructor
  · intro member
    induction results generalizing conn with
    | nil =>
        cases List.mem_singleton.mp member
        exact ⟨[], .first⟩
    | cons result results ih =>
        rcases List.mem_cons.mp member with rfl | later
        · exact ⟨_, .first⟩
        · cases passed : recvPass answers result conn with
          | inl ended =>
              rw [passed] at later
              cases later
          | inr middle =>
              rw [passed] at later
              obtain ⟨rest, comes⟩ := ih middle later
              exact ⟨rest, .next passed comes⟩
  · rintro ⟨rest, comes⟩
    induction comes with
    | @first results conn => cases results <;> exact List.mem_cons_self
    | next passed _ ih =>
        rw [recvCalls, passed]
        exact List.mem_cons_of_mem _ ih

end Passes

/-- The calls of `recv()` of one `read()`. -/
def readCalls (answers : Answers) (conn : Conn) : List Conn :=
  if conn.socket then recvCalls answers answers.recvs { conn with idleTicksCounter := 0 } else []

/-- The growth step returns a window of a byte at least, which lies in the storage
behind the bytes received so far; only a peer that sends nothing returns 0. -/
def Offered (conn : Conn) : Prop :=
  ∃ rest grown, WtfBuffer.growForRecv conn.receiveBuffer.toWtf = .returned rest grown ∧
    grown = conn.makeRoom.receiveBuffer.toWtf ∧
    1 ≤ rest ∧ grown.size + rest ≤ grown.capacity ∧
    grown.content = conn.receiveBuffer.content ∧
    ∀ chunk : Bytes, chunk.take rest = [] → chunk = []

theorem grow_makes_room (conn : Conn) :
    WtfBuffer.growForRecv conn.receiveBuffer.toWtf =
      .returned conn.makeRoom.receiveBuffer.available conn.makeRoom.receiveBuffer.toWtf := by
  have rest : ∀ buf : OwnedBuffer UInt8, buf.toWtf.capacity - buf.toWtf.size = buf.available :=
    fun buf => Nat.add_sub_cancel_left _ _
  have grown : WtfBuffer.reserve (conn.receiveBuffer.toWtf.capacity * 3 / 2) conn.receiveBuffer.toWtf =
      .returned () (conn.receiveBuffer.reserve (conn.receiveBuffer.capacity * 3 / 2)).toWtf :=
    OwnedBuffer.reserve_refines _ _
  simp only [WtfBuffer.growForRecv, Cxx.bind_get, rest]
  by_cases tight : conn.receiveBuffer.available < 1024
  · rw [if_pos tight, Cxx.bind_returned grown, Cxx.bind_get, rest, makeRoom, if_pos tight]
    rfl
  · rw [if_neg tight, makeRoom, if_neg tight]
    rfl

theorem room_offered (conn : Conn) (roomy : 2 ≤ conn.receiveBuffer.capacity) : conn.Offered := by
  obtain ⟨buffer, shape, content, _, room⟩ := conn.make_room_shape
  have some : 0 < conn.makeRoom.receiveBuffer.available := by
    rw [shape]
    exact room roomy
  refine ⟨_, _, conn.grow_makes_room, rfl, some, Nat.le_refl _, ?_, ?_⟩
  · rw [shape]
    exact content
  · intro chunk nothing
    exact (List.take_eq_nil_iff.mp nothing).resolve_left (Nat.ne_of_gt some)

theorem pass_capacity {answers : Answers} {result : RecvResult} {conn later : Conn}
    (passed : recvPass answers result conn = .inr later) :
    conn.receiveBuffer.capacity ≤ later.receiveBuffer.capacity := by
  obtain ⟨buffer, shape, _, grown, _⟩ := conn.make_room_shape
  have kept : conn.receiveBuffer.capacity ≤ conn.makeRoom.receiveBuffer.capacity := by
    rw [shape]
    exact grown
  cases result with
  | eagain | error => cases passed
  | eintr =>
      cases passed
      exact kept
  | bytes chunk =>
      simp only [recvPass] at passed
      split at passed
      · cases passed
      · cases passed
        have fits : (chunk.take conn.makeRoom.receiveBuffer.available).length ≤
            conn.makeRoom.receiveBuffer.available := List.length_take_le _ _
        exact Nat.le_trans kept (OwnedBuffer.push_capacity _ _ fits).ge

theorem Comes.offered {answers : Answers} {results rest : List RecvResult} {conn call : Conn}
    (comes : Comes answers results conn rest call) (roomy : 2 ≤ conn.receiveBuffer.capacity) :
    call.Offered := by
  induction comes with
  | first => exact room_offered _ roomy
  | next passed _ ih => exact ih (Nat.le_trans roomy (pass_capacity passed))

section Frames
variable {parseCs : Bytes → CsParts} {answers : Answers} {before middle after : Conn}

theorem Quiet.roomy (quiet : Quiet before after) (roomy : before.Roomy) : after.Roomy := by
  obtain ⟨_, _, _, _, rfl, _⟩ := quiet
  exact ⟨roomy.1, roomy.2⟩

theorem InputOnly.roomy (input : InputOnly before after) (roomy : before.Roomy) : after.Roomy := by
  obtain ⟨_, _, _, _, _, _, _, _, room⟩ := input
  exact room roomy

theorem cleared_roomy (roomy : before.Roomy) : before.clearReceiveBuffer.Roomy :=
  ⟨(OwnedBuffer.clear_capacity _).symm ▸ roomy.1, roomy.2⟩

theorem closed_roomy (delay : Int) (roomy : before.Roomy) : (before.closed delay).Roomy := by
  unfold closed
  split
  · refine ⟨?_, roomy.2⟩
    have grown := OwnedBuffer.resize_capacity before.lastReceivedHeadOffset before.receiveBuffer
    exact Nat.le_trans roomy.1 (grown ▸ Nat.le_max_left _ _)
  · exact ⟨roomy.1, roomy.2⟩

theorem FailedBy.roomy {handler : Bool} (failed : FailedBy handler before after)
    (roomy : before.Roomy) : after.Roomy := by
  obtain ⟨_, rfl, _⟩ := failed
  exact ⟨(closed_roomy 0 roomy).1, (closed_roomy 0 roomy).2⟩

theorem Writes.roomy (writes : Writes answers before after) (roomy : before.Roomy) : after.Roomy := by
  cases writes with
  | established => exact ⟨roomy.1, roomy.2⟩
  | refused _ _ failed => exact failed.roomy roomy
  | sends _ moved _ ended =>
      obtain ⟨_, _, _, _, _, _, _, rfl, _⟩ := moved.output
      cases ended with
      | drained => exact ⟨roomy.1, roomy.2⟩
      | paused => exact ⟨roomy.1, roomy.2⟩
      | failed _ _ failed => exact failed.roomy ⟨roomy.1, roomy.2⟩

theorem Flushes.roomy (flushes : Flushes answers before after) (roomy : before.Roomy) :
    after.Roomy := by
  cases flushes with
  | nothing => exact roomy
  | marks => exact ⟨roomy.1, roomy.2⟩
  | writes _ _ writes => exact writes.roomy ⟨roomy.1, roomy.2⟩

theorem Tries.roomy {attempts : List Attempt} (tries : Tries attempts before after)
    (roomy : before.Roomy) : after.Roomy := by
  cases tries with
  | established _ quiet => exact ⟨(quiet.roomy roomy).1, (quiet.roomy roomy).2⟩
  | inProgress quiet => exact ⟨(quiet.roomy roomy).1, (quiet.roomy roomy).2⟩
  | refused quiet failed => exact failed.roomy ⟨(quiet.roomy roomy).1, (quiet.roomy roomy).2⟩
  | exhausted quiet => exact ⟨(quiet.roomy roomy).1, (quiet.roomy roomy).2⟩

theorem Opens.roomy {delay : Int} (opens : Opens parseCs answers delay before after)
    (roomy : before.Roomy) : after.Roomy := by
  cases opens with
  | rejected quiet => exact quiet.roomy roomy
  | delayed => exact ⟨roomy.1, roomy.2⟩
  | prepares _ _ quiet => exact quiet.roomy ⟨roomy.1, roomy.2⟩
  | resolves => exact ⟨roomy.1, roomy.2⟩
  | tries _ _ tries => exact tries.roomy ⟨roomy.1, roomy.2⟩

theorem Ticks.roomy (ticks : Ticks parseCs answers before after) (roomy : before.Roomy) :
    after.Roomy := by
  cases ticks with
  | reopens _ _ opens => exact opens.roomy ⟨roomy.1, roomy.2⟩
  | expires _ _ _ failed => exact failed.roomy roomy
  | counts _ quiet => exact quiet.roomy ⟨roomy.1, roomy.2⟩
  | flushes _ _ _ reported flushes quiet =>
      exact quiet.roomy (flushes.roomy (reported.roomy ⟨roomy.1, roomy.2⟩))

theorem Handshakes.roomy (shaken : Handshakes answers before after) (roomy : before.Roomy) :
    after.Roomy := by
  have cleared := cleared_roomy roomy
  cases shaken with
  | abandons lapsed failed =>
      obtain ⟨_, _, _, _, _, _, _, rfl, _⟩ := lapsed
      exact failed.roomy ⟨cleared.1, cleared.2⟩
  | authenticates _ _ _ _ wrote => exact wrote.roomy ⟨cleared.1, cleared.2⟩
  | opens => exact ⟨cleared.1, cleared.2⟩

theorem arrived_roomy {buffer : OwnedBuffer UInt8} {bytes : Bytes}
    (receives : before.Receives buffer bytes) (roomy : before.Roomy) :
    (before.arrived buffer bytes).Roomy :=
  ⟨Nat.le_trans roomy.1 receives.room, roomy.2⟩

theorem Reads.roomy (reads : Reads answers before after) (roomy : before.Roomy) : after.Roomy := by
  cases reads with
  | nothing => exact roomy
  | ended receives _ failed => exact failed.roomy (arrived_roomy receives roomy)
  | waits receives => exact arrived_roomy receives roomy
  | greets receives _ _ _ wrote =>
      have cleared := cleared_roomy (arrived_roomy receives roomy)
      exact wrote.roomy ⟨cleared.1, cleared.2⟩
  | holds receives _ input => exact input.roomy (arrived_roomy receives roomy)
  | handshakes receives _ input _ shaken =>
      exact shaken.roomy (input.roomy (arrived_roomy receives roomy))

theorem Turns.roomy {event : Event × Answers} (turns : Turns parseCs event before after)
    (roomy : before.Roomy) : after.Roomy := by
  cases turns with
  | opens opens => exact opens.roomy roomy
  | closes => exact ⟨(closed_roomy _ roomy).1, (closed_roomy _ roomy).2⟩
  | rests quiet => exact quiet.roomy roomy
  | flushes flushes => exact flushes.roomy roomy
  | processes => exact (input_processed_input _ before).roomy roomy
  | ticks ticks => exact ticks.roomy roomy
  | reads reads => exact reads.roomy roomy
  | writes writes => exact writes.roomy roomy
  | resolves _ _ tries => exact tries.roomy ⟨roomy.1, roomy.2⟩
  | listens | appends | reserves | requests | ignores | lapses => exact ⟨roomy.1, roomy.2⟩

end Frames

/-- An event of the connection, or a change the caller makes to the input buffer
it was given. -/
inductive InputUse where
  | turn (event : Event × Answers)
  | edit (buffer : OwnedBuffer UInt8)

/-- The caller works inside the buffer; it does not replace it by a smaller one. -/
def KeepsStorage (conn : Conn) : InputUse → Prop
  | .turn _ => True
  | .edit buffer => conn.inputBuffer.capacity ≤ buffer.capacity

section Runs
variable (mp : Msgpuck) (crypto : Crypto) (parseCs : Bytes → CsParts)

def inputStep : InputUse → Conn → Option Conn
  | .turn event, conn => step mp crypto parseCs event conn
  | .edit buffer, conn => some { conn with inputBuffer := buffer }

variable {mp crypto parseCs}

/-- Whatever a connection has been through, every `recv()` of its next `read()` is
offered room: the calls are those of the passes that the loop comes to. -/
theorem recv_has_room {cs : Bytes} {callbacks : Callbacks} {uses : List InputUse} {conn : Conn}
    (run : Run (inputStep mp crypto parseCs) KeepsStorage (Conn.initial cs callbacks) uses conn)
    (answers : Answers) :
    (∀ call ∈ conn.readCalls answers, call.Offered) ∧
    (conn.socket = true → ∀ call, call ∈ conn.readCalls answers ↔
      ∃ rest, Comes answers answers.recvs { conn with idleTicksCounter := 0 } rest call) ∧
    (∀ rest call, Comes answers answers.recvs { conn with idleTicksCounter := 0 } rest call →
      conn.receive answers = recvLoop answers rest call) := by
  have roomy : conn.Roomy := by
    apply run.invariant
    · exact ⟨OwnedBuffer.of_size_roomy (by decide), OwnedBuffer.of_size_roomy (by decide)⟩
    · intro before use after roomy keeps done
      cases use with
      | turn event => exact (step_turns mp crypto parseCs event before after done).roomy roomy
      | edit buffer =>
          cases done
          exact ⟨roomy.1, Nat.le_trans roomy.2 keeps⟩
  refine ⟨?_, ?_, fun rest call comes => comes.loop⟩
  · intro call member
    unfold readCalls at member
    split at member
    · obtain ⟨rest, comes⟩ := (mem_recv_calls_iff _ _ call).mp member
      exact comes.offered roomy.1
    · cases member
  · intro socket call
    rw [readCalls, if_pos socket]
    exact mem_recv_calls_iff _ _ call

end Runs

/-- Connected at once to a local socket, then cleared by the caller. -/
theorem recv_has_room_local :
    ∃ conn, Run (inputStep reference ⟨id, fun _ _ => []⟩ fun _ => ⟨ascii "/tnt", [], [], [], []⟩)
        KeepsStorage (Conn.initial [] ⟨true, true, true, true⟩)
        [.turn (.openConnection 0, { attempts := [.established] }), .edit (.ofSize (2 ^ 20))] conn ∧
      conn.socket = true ∧
      ∀ call ∈ conn.readCalls { recvs := [.bytes [0x2a], .eintr, .bytes []] }, call.Offered := by
  have opened : Run (inputStep reference ⟨id, fun _ _ => []⟩ fun _ => ⟨ascii "/tnt", [], [], [], []⟩)
      KeepsStorage (Conn.initial [] ⟨true, true, true, true⟩)
      ([] ++ [.turn (.openConnection 0, { attempts := [.established] })]) _ := .snoc .nil trivial rfl
  have run : Run (inputStep reference ⟨id, fun _ _ => []⟩ fun _ => ⟨ascii "/tnt", [], [], [], []⟩)
      KeepsStorage (Conn.initial [] ⟨true, true, true, true⟩)
      ([.turn (.openConnection 0, { attempts := [.established] })] ++ [.edit (.ofSize (2 ^ 20))]) _ :=
    .snoc opened (Nat.le_refl _) rfl
  exact ⟨_, run, rfl, (recv_has_room run _).1⟩

end Conn

end Cpp2tnt
