import Mathlib.Data.List.Forall2
import Cpp2tnt.Exchange

/-!
The caller of the tests waits for several responses at once. It keeps a handler under
the number of each request; the response with this number takes the handler out and
is queued with it for the thread of the tests, in whatever order the responses come.
-/

namespace Cpp2tnt
open Imperative MessagePack Transition

variable {Handler : Type}

/-- What the loop queues for the thread of the tests. -/
inductive TestsSideHandler (Handler : Type) where
  | call (sync : UInt64) (handler : Handler) (message : Bytes) (header body : MpReader)
  /-- A handler called with empty readers. -/
  | drop (sync : UInt64) (handler : Handler)
  | orphaned (sync : UInt64)
  | failed (error : Exn)
  | log (message : Bytes) (code : ErrorCode) (dbError : Nat)
  | pass

/-- The handlers of the loop, and all that has been queued so far. -/
structure Sides (Handler : Type) where
  loopSide : StdMap UInt64 Handler
  testsSide : List (TestsSideHandler Handler)

namespace StdMap
variable {Key Value : Type} [Ord Key]

def without (key : Key) (map : StdMap Key Value) : StdMap Key Value :=
  ⟨map.entries.filter fun entry => compare key entry.1 ≠ .eq, map.ascending.filter _⟩

end StdMap

def readSync (mp : Msgpuck) (mem : Bytes) : Read (MpReader × UInt64) := do
  let header ← readMap mp mem
  let sync ← readValue mp mem Field.sync.key (readIntegral mp mem .uint64) header
  return (header, UInt64.ofNat sync.1.toNat)

namespace Sides
variable (mp : Msgpuck)

def push (item : TestsSideHandler Handler) (sides : Sides Handler) : Sides Handler :=
  { sides with testsSide := sides.testsSide ++ [item] }

def setHandler (requestId : UInt64) (handler : Handler) (sides : Sides Handler) : Sides Handler :=
  { sides with loopSide := sides.loopSide.set requestId handler }

/-- One turn of the loop of `on_response`, over a copy of the message. The handler is taken out
before the body is read. -/
def takeResponse (message : Bytes) (sides : Sides Handler) : Option (Sides Handler) :=
  match readSync mp message (MpReader.plain 0 message.length) with
  | .undefined => none
  | .thrown error _ => some (sides.push (.failed error))
  | .returned (header, sync) response =>
      match sides.loopSide.find sync with
      | none => some (sides.push (.orphaned sync))
      | some handler =>
          let extracted := { sides with loopSide := sides.loopSide.without sync }
          match readMap mp message response with
          | .undefined => none
          | .thrown error _ => some (extracted.push (.failed error))
          | .returned body _ => some (extracted.push (.call sync handler message header body))

/-- `while (mp_reader r = bunch.iproto_message())`. What it throws leaves the callback. -/
def takeResponses (batch : Bytes) :
    Nat → MpReader → Sides Handler → Option (Sides Handler × Option Exn)
  | 0, _, _ => none
  | fuel + 1, bunch, sides => match iprotoMessage mp batch bunch with
    | .undefined => none
    | .thrown error _ => some (sides, some error)
    | .returned response bunch =>
        if !response.nonempty then some (sides, none)
        else (sides.takeResponse mp (response.slice batch)).bind (takeResponses batch fuel bunch)

/-- The callback of `on_response`, with the answer the connection gets. -/
def onResponse (batch : Bytes) (sides : Sides Handler) : Option (Sides Handler × ResponseAnswer) :=
  (sides.takeResponses mp batch (batch.length + 1) (MpReader.plain 0 batch.length)).map
    fun (after, error) => (after, ⟨error.isNone, error.map Exn.what⟩)

def dropHandlers (sides : Sides Handler) : Sides Handler where
  loopSide := .empty
  testsSide := sides.testsSide ++ sides.loopSide.entries.map fun entry => .drop entry.1 entry.2

def onError (message : Bytes) (code : ErrorCode) (dbError : Nat) (sides : Sides Handler) :
    Sides Handler :=
  (sides.push (.log message code dbError)).dropHandlers

def onOpened (sides : Sides Handler) : Sides Handler := sides.push .pass

def onClosed (sides : Sides Handler) : Sides Handler := sides.dropHandlers

end Sides

namespace Response

/-- The number is the one of the first `SYNC` in the header, and the body is a map. -/
structure Answers (response : Response) (sync : UInt64) : Prop where
  formed : response.Formed
  sized : Sized response.bytes
  sync : ∃ value, FirstAt response.header Field.sync.key value ∧
    HeadEncodes (.uint sync.toNat) value
  body : ∃ front fields, response.body = front ++ pairsBytes fields ∧
    HeadEncodes (.map fields.length) front ∧ ∀ pair ∈ fields, MapPair.Formed pair

/-- The two readers stand at the pairs of the header and of the body. -/
def Opens (response : Response) (header body : MpReader) : Prop :=
  header = innerReader (.map response.header.length) response.front.length
    (response.front ++ pairsBytes response.header).length ∧
  ∃ front fields, response.body = front ++ pairsBytes fields ∧
    HeadEncodes (.map fields.length) front ∧ (∀ pair ∈ fields, MapPair.Formed pair) ∧
    body = innerReader (.map fields.length)
      ((response.front ++ pairsBytes response.header).length + front.length) response.bytes.length

end Response

/-- What becomes of a response: its handler is called, or nobody has waited for it. -/
inductive Answered (response : Response) (sync : UInt64) (before : Sides Handler) :
    Sides Handler → Prop
  | called (handler : Handler) (header body : MpReader) :
      before.loopSide.find sync = some handler → response.Opens header body →
      Answered response sync before
        ⟨before.loopSide.without sync,
          before.testsSide ++ [.call sync handler response.bytes header body]⟩
  | orphaned : before.loopSide.find sync = none →
      Answered response sync before (before.push (.orphaned sync))

section Reading
variable {mp : Msgpuck} {mem rest : Bytes} {reader : MpReader} {response : Response} {sync : UInt64}

theorem sync_read (implements : Implements mp) (answers : response.Answers sync)
    (stands : Stands mem reader (response.front ++ pairsBytes response.header) rest) :
    ∃ pos, reader.currentPos = some pos ∧ readSync mp mem reader = .returned
      (innerReader (.map response.header.length) (pos + response.front.length)
        (pos + (response.front ++ pairsBytes response.header).length), sync)
      (reader.advance (response.front ++ pairsBytes response.header).length) := by
  obtain ⟨value, first, encodes⟩ := answers.sync
  obtain ⟨headed, pairs⟩ := answers.formed
  obtain ⟨values, counted, inner⟩ := pairs_encode pairs
  obtain ⟨pos, current, whole, opened⟩ := read_map_returned implements headed counted inner stands
  have behind : mem.drop (pos + response.front.length) = pairsBytes response.header ++ rest := by
    rw [← List.drop_drop, whole, List.append_assoc, List.drop_left]
  have small : sync.toNat < 2 ^ 64 := sync.toNat_lt
  have bounded : (sync.toNat : Int) ≤ IntType.uint64.max := by
    change (sync.toNat : Int) ≤ 2 ^ 64 - 1
    omega
  let number : IntType.uint64.Val :=
    ⟨sync.toNat, Int.le_trans (IntType.min_nonpos _) (Int.natCast_nonneg _), bounded⟩
  have found := value_found implements pairs first behind (fun object behind _ _ here => by
    obtain ⟨read, same, reads⟩ := number_read implements .uint64 encodes bounded here
    exact ⟨_, (Subtype.ext same : read = number) ▸ reads⟩)
    (reader.advance (response.front ++ pairsBytes response.header).length)
  rw [Nat.add_assoc, ← List.length_append] at found
  refine ⟨pos, current, ?_⟩
  rw [readSync, Cxx.bind_returned opened, Cxx.bind_returned found]
  have back : UInt64.ofNat number.1.toNat = sync := by
    change UInt64.ofNat (sync.toNat : Int).toNat = sync
    rw [Int.toNat_natCast, UInt64.ofNat_toNat]
  rw [back]
  rfl

theorem take_response_answered (implements : Implements mp) (answers : response.Answers sync)
    (sides : Sides Handler) :
    ∃ after, sides.takeResponse mp response.bytes = some after ∧
      Answered response sync sides after := by
  let header := response.front ++ pairsBytes response.header
  have size : response.bytes.length = header.length + response.body.length := List.length_append
  let whole := MpReader.plain 0 response.bytes.length
  have stands : Stands response.bytes whole header response.body := by
    apply stands_between
    · rfl
    · omega
  obtain ⟨pos, current, read⟩ := sync_read implements answers stands
  obtain rfl : 0 = pos := Option.some.inj current
  rw [Nat.zero_add, Nat.zero_add] at read
  rw [Sides.takeResponse, read]
  simp only
  cases found : sides.loopSide.find sync with
  | none => exact ⟨_, rfl, .orphaned found⟩
  | some handler =>
      obtain ⟨front, fields, shape, headed, pairs⟩ := answers.body
      have behind : Stands response.bytes (whole.advance header.length)
          (front ++ pairsBytes fields) [] := by
        apply stands_plain rfl rfl
        · change response.bytes.drop (0 + header.length) = _
          rw [Nat.zero_add, Response.bytes, List.drop_left, shape, List.append_nil]
        · rintro _ ⟨⟩
          change 0 + header.length + _ ≤ response.bytes.length
          rw [Nat.zero_add, size, shape]
      obtain ⟨values, counted, inner⟩ := pairs_encode pairs
      obtain ⟨place, here, _, opened⟩ := read_map_returned implements headed counted inner behind
      have at_body : header.length = place := (Nat.zero_add _).symm.trans (Option.some.inj here)
      rw [opened]
      refine ⟨_, rfl, .called handler _ _ found ⟨rfl, front, fields, shape, headed, pairs, ?_⟩⟩
      rw [size, shape, at_body]

end Reading

abbrev Synced := UInt64 × Response

def Synced.bytes (answer : Synced) : Bytes := answer.2.bytes

def Synced.Formed (answer : Synced) : Prop := answer.2.Answers answer.1

/-- Responses that are settled one after the other. -/
inductive AllAnswered : List Synced → Sides Handler → Sides Handler → Prop
  | nil (sides : Sides Handler) : AllAnswered [] sides sides
  | cons {answer : Synced} {answers : List Synced} {before middle after : Sides Handler} :
      Answered answer.2 answer.1 before middle → AllAnswered answers middle after →
      AllAnswered (answer :: answers) before after

section Batches
variable {mp : Msgpuck} {batch : Bytes}

theorem frame_slice (body rest : Bytes) (pos : Nat) (found : batch.drop pos = frame body ++ rest) :
    (MpReader.plain (pos + 5) (pos + 5 + body.length)).slice batch = body := by
  have five : frame body ++ rest = (0xce :: bigEndian 4 body.length) ++ (body ++ rest) := by
    simp [frame]
  have width : (0xce :: bigEndian 4 body.length : Bytes).length = 5 := by simp
  have inside : (batch.drop (pos + 5)).take body.length = body := by
    rw [← List.drop_drop, found, five, ← width, List.drop_left, List.take_left]
  simp [MpReader.slice, MpReader.plain, inside]

theorem take_responses_answered (implements : Implements mp) (answers : List Synced)
    (formed : ∀ answer ∈ answers, answer.Formed) (pos fuel : Nat) (reader : MpReader)
    (current : reader.currentPos = some pos)
    (bound : reader.endPos = some (pos + (frames (answers.map Synced.bytes)).length))
    (found : batch.drop pos = frames (answers.map Synced.bytes)) (enough : answers.length < fuel)
    (sides : Sides Handler) :
    ∃ after, sides.takeResponses mp batch fuel reader = some (after, none) ∧
      AllAnswered answers sides after := by
  induction answers generalizing pos fuel reader sides with
  | nil =>
      obtain ⟨fuel, rfl⟩ : ∃ less, fuel = less + 1 := ⟨fuel - 1, by omega⟩
      have done := message_end mp batch pos reader current bound
      have empty : (MpReader.plain pos pos).nonempty = false := by
        simp [MpReader.nonempty, MpReader.plain]
      refine ⟨sides, ?_, .nil sides⟩
      rw [Sides.takeResponses, done]
      simp only [empty]
      rfl
  | cons answer answers ih =>
      obtain ⟨fuel, rfl⟩ : ∃ less, fuel = less + 1 := ⟨fuel - 1, by omega⟩
      obtain ⟨one, others⟩ := List.forall_mem_cons.mp formed
      obtain ⟨headed, short⟩ := one.sized
      rw [List.map_cons, frames_cons] at found bound
      rw [List.length_append] at bound
      have message := message_returned implements answer.bytes _ pos _ reader current bound found
        (by omega) short
      have next : batch.drop (pos + (frame answer.bytes).length) =
          frames (answers.map Synced.bytes) := by
        rw [← List.drop_drop, found, List.drop_left]
      have more : (MpReader.plain (pos + 5) (pos + 5 + answer.bytes.length)).nonempty = true := by
        have some : 0 < answer.bytes.length := headed
        simp [MpReader.nonempty, MpReader.plain, some]
      obtain ⟨middle, taken, settled⟩ := take_response_answered implements one sides
      obtain ⟨after, ran, rest⟩ := ih others (pos + (frame answer.bytes).length) fuel
        { reader with currentPos := some (pos + (frame answer.bytes).length) } rfl
        (by rw [bound, Nat.add_assoc]) next (by simpa using enough) middle
      refine ⟨after, ?_, .cons settled rest⟩
      rw [Sides.takeResponses, message]
      simp only [more, frame_slice answer.bytes _ pos found, Bool.not_true, Bool.false_eq_true,
        if_false]
      exact (congrArg (Option.bind · _) taken).trans ran

theorem on_response_answered (implements : Implements mp) (answers : List Synced)
    (formed : ∀ answer ∈ answers, answer.Formed)
    (whole : batch = frames (answers.map Synced.bytes)) (sides : Sides Handler) :
    ∃ after, sides.onResponse mp batch = some (after, ⟨true, none⟩) ∧
      AllAnswered answers sides after := by
  have count := frames_length (answers.map Synced.bytes)
  rw [List.length_map] at count
  have fuel : answers.length < batch.length + 1 := whole ▸ Nat.lt_succ_of_le count
  obtain ⟨after, ran, settled⟩ := take_responses_answered implements answers formed 0
    (batch.length + 1) (MpReader.plain 0 batch.length) rfl
    (congrArg some (by rw [whole, Nat.zero_add])) whole fuel sides
  refine ⟨after, ?_, settled⟩
  rw [Sides.onResponse, ran]
  rfl

end Batches

inductive Callback (Handler : Type) where
  | setHandler (requestId : UInt64) (handler : Handler)
  | response (batch : Bytes)
  | error (message : Bytes) (code : ErrorCode) (dbError : Nat)
  | opened
  | closed

namespace Sides
variable {mp : Msgpuck} {before middle after sides : Sides Handler}

def step (mp : Msgpuck) : Callback Handler → Sides Handler → Option (Sides Handler)
  | .setHandler requestId handler, sides => some (sides.setHandler requestId handler)
  | .response batch, sides => (sides.onResponse mp batch).map Prod.fst
  | .error message code dbError, sides => some (sides.onError message code dbError)
  | .opened, sides => some sides.onOpened
  | .closed, sides => some sides.onClosed

def registered (events : List (Callback Handler)) : List (UInt64 × Handler) :=
  events.filterMap fun
    | .setHandler requestId handler => some (requestId, handler)
    | _ => none

def held : TestsSideHandler Handler → Option (UInt64 × Handler)
  | .call sync handler _ _ _ | .drop sync handler => some (sync, handler)
  | .orphaned _ | .failed _ | .log _ _ _ | .pass => none

def kept (sides : Sides Handler) : List (UInt64 × Handler) :=
  sides.loopSide.entries ++ sides.testsSide.filterMap held

section Calls
variable {number : Bytes → UInt64} {handler : Bytes → Handler} {answer : Bytes → Response}
  {requests given : List Bytes}

end Calls

end Sides

end Cpp2tnt
