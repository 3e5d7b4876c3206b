import Cpp2tnt.ConnectionTurns
import Cpp2tnt.Frames
import Cpp2tnt.Library.Transition

/-!
Delivery of responses. `Inflow` is the run invariant: the receive buffer is
whole responses up to the head offset and an unfinished one after it, whose size
is known exactly if its header is there. It holds at every point between two
events, however the stream is cut and whenever the caller is done.
-/

namespace Cpp2tnt
open Imperative MessagePack Transition

def awaitingAfter (prior : Option Bytes) : Note → Option Bytes
  | .response batch => some batch
  | .processed => none
  | _ => prior

def awaiting (notes : List Note) : Option Bytes := notes.foldl awaitingAfter none

def batches (notes : List Note) : List Bytes :=
  notes.filterMap fun | .response batch => some batch | _ => none

/-- No batch comes while the caller works on one. -/
def Alternate (notes : List Note) : Prop :=
  ∀ front batch back, notes = front ++ .response batch :: back → awaiting front = none

def Note.isResponse : Note → Bool
  | .response _ => true
  | _ => false

@[simp] theorem awaiting_append (front : List Note) (item : Note) :
    awaiting (front ++ [item]) = awaitingAfter (awaiting front) item := by
  simp [awaiting]

@[simp] theorem batches_append (front back : List Note) :
    batches (front ++ back) = batches front ++ batches back := List.filterMap_append

theorem Alternate.append {notes : List Note} {item : Note} (alternate : Alternate notes)
    (idle : item.isResponse → awaiting notes = none) : Alternate (notes ++ [item]) := by
  intro front batch back split
  rcases List.eq_nil_or_concat back with rfl | ⟨less, last, rfl⟩
  · obtain ⟨same, found⟩ := List.append_inj' split rfl
    cases found
    rw [← same]
    exact idle rfl
  · rw [List.concat_eq_append, ← List.cons_append, ← List.append_assoc] at split
    exact alternate front batch less (List.append_inj' split rfl).1

theorem Alternate.append_all {notes extra : List Note} (alternate : Alternate notes)
    (none : ∀ item ∈ extra, item.isResponse = false) :
    Alternate (notes ++ extra) ∧ batches (notes ++ extra) = batches notes := by
  induction extra generalizing notes with
  | nil =>
      rw [List.append_nil]
      exact ⟨alternate, rfl⟩
  | cons item extra ih =>
      have first := none item List.mem_cons_self
      have one : Alternate (notes ++ [item]) := by
        apply alternate.append
        rw [first]
        exact fun impossible => absurd impossible Bool.false_ne_true
      have empty : batches [item] = [] := by
        cases item <;> simp [Note.isResponse] at first <;> rfl
      obtain ⟨rest, same⟩ := ih one fun other kept => none other (List.mem_cons_of_mem item kept)
      rw [List.append_cons]
      refine ⟨rest, ?_⟩
      rw [same, batches_append, empty, List.append_nil]

/-- Nothing about the batches changes with quiet notes. -/
structure SameBatches (before after : List Note) : Prop where
  awaiting : awaiting after = awaiting before
  batches : batches after = batches before
  alternate : Alternate before → Alternate after

theorem quiet_same (notes extra : List Note) (quiet : ∀ item ∈ extra, item.isQuiet) :
    SameBatches notes (notes ++ extra) := by
  induction extra generalizing notes with
  | nil =>
      rw [List.append_nil]
      exact ⟨rfl, rfl, id⟩
  | cons item extra ih =>
      have calm : item.isQuiet := quiet item List.mem_cons_self
      have rest := ih (notes ++ [item]) fun other kept => quiet other (List.mem_cons_of_mem item kept)
      rw [← List.append_cons] at rest
      have unanswered : item.isResponse = false := by
        cases item <;> simp [Note.isQuiet] at calm <;> rfl
      have after : awaitingAfter (awaiting notes) item = awaiting notes := by
        cases item <;> simp [Note.isQuiet] at calm <;> rfl
      have none : batches [item] = [] := by
        cases item <;> simp [Note.isQuiet] at calm <;> rfl
      constructor
      · rw [rest.awaiting, awaiting_append, after]
      · rw [rest.batches, batches_append, none, List.append_nil]
      · intro alternate
        apply rest.alternate
        apply alternate.append
        rw [unanswered]
        exact fun impossible => absurd impossible Bool.false_ne_true

section Detection
variable {mp : Msgpuck}

/-- What may follow the whole responses: an unfinished one, which stays, or
something that is no header, which is dropped. -/
inductive Remainder (mp : Msgpuck) : Bytes → Bytes → Nat → Prop where
  | unfinished {bytes : Bytes} {size : Nat} : Unfinished bytes size → Remainder mp bytes bytes size
  | foreign {byte : UInt8} {rest : Bytes} : 5 ≤ (byte :: rest).length →
      mp.mpTypeof byte ≠ .uint → Remainder mp (byte :: rest) [] 0

theorem Remainder.unfinished_kept {bytes kept : Bytes} {size : Nat}
    (remainder : Remainder mp bytes kept size) : Unfinished kept size := by
  cases remainder with
  | unfinished unfinished => exact unfinished
  | foreign => exact .short [] (by decide)

/-- The size is not known yet, or it is the one in the header. -/
def Conn.Knows (orphaned : Bytes) (conn : Conn) : Prop :=
  conn.detectedResponseSize = 0 ∨
    ∃ length, Headed length orphaned ∧ conn.detectedResponseSize = length + 5

theorem Unfinished.size_known {bytes : Bytes} {size : Nat} (unfinished : Unfinished bytes size) :
    size = 0 ∨ ∃ length, Headed length bytes ∧ size = length + 5 := by
  cases unfinished with
  | short => exact .inl rfl
  | waiting length _ headed _ => exact .inr ⟨length, headed, rfl⟩

theorem Headed.length_le {length : Nat} {bytes : Bytes} (headed : Headed length bytes) :
    5 ≤ bytes.length := by
  obtain ⟨_, _, rest, rfl⟩ := headed
  simp

theorem Headed.append {length : Nat} {bytes : Bytes} (headed : Headed length bytes)
    (more : Bytes) : Headed length (bytes ++ more) := by
  obtain ⟨positive, small, rest, rfl⟩ := headed
  exact ⟨positive, small, rest ++ more, by simp⟩

namespace Conn
variable {conn : Conn} {front orphaned : Bytes}

theorem orphaned_size (content : conn.receiveBuffer.content = front ++ orphaned)
    (head : conn.lastReceivedHeadOffset = front.length) :
    conn.receiveBuffer.size - conn.lastReceivedHeadOffset = orphaned.length := by
  simp [OwnedBuffer.size, content, head]

theorem orphaned_storage (content : conn.receiveBuffer.content = front ++ orphaned)
    (head : conn.lastReceivedHeadOffset = front.length) :
    conn.receiveBuffer.storage.drop conn.lastReceivedHeadOffset =
      orphaned ++ conn.receiveBuffer.spare := by
  rw [OwnedBuffer.storage, content, head, List.append_assoc, List.drop_left]

theorem detect_headed (implements : Implements mp) (length : Nat)
    (content : conn.receiveBuffer.content = front ++ orphaned)
    (head : conn.lastReceivedHeadOffset = front.length) (headed : Headed length orphaned)
    (knows : conn.Knows orphaned) :
    conn.detectSize mp = { conn with detectedResponseSize := length + 5 } := by
  have enough := headed.length_le
  have size := orphaned_size content head
  rcases knows with unknown | ⟨known, same, detected⟩
  · obtain ⟨_, small, rest, split⟩ := headed
    have encodes := wide_uint_head 4 0xce length (by simp) (by omega)
    have type := implements.typeof _ _ _ encodes
    have decoded := implements.decodeUint _ _ (rest ++ conn.receiveBuffer.spare) encodes
    have header : conn.headerSize mp = some (length + 5) := by
      have bounded : (length + 5) % 2 ^ 64 = length + 5 := Nat.mod_eq_of_lt (by omega)
      simp only [headerSize, orphaned_storage content head, split, List.append_assoc,
        List.cons_append] at decoded ⊢
      rw [if_pos (by rw [type]; rfl), decoded, bounded]
    rw [detectSize, if_pos ⟨unknown, by rw [size]; exact enough⟩, header]
  · have exact := same.unique headed
    subst exact
    have searched : ¬ (conn.detectedResponseSize = 0 ∧
        5 ≤ conn.receiveBuffer.size - conn.lastReceivedHeadOffset) := by
      rw [detected]
      exact fun both => absurd both.1 (Nat.succ_ne_zero _)
    rw [detectSize, if_neg searched, ← detected]

theorem detect_short (content : conn.receiveBuffer.content = front ++ orphaned)
    (head : conn.lastReceivedHeadOffset = front.length) (few : orphaned.length < 5) :
    conn.detectSize mp = conn := by
  have size := orphaned_size content head
  rw [detectSize, if_neg]
  rw [size]
  exact fun both => absurd both.2 (Nat.not_le_of_lt few)

theorem detect_foreign (byte : UInt8) (rest : Bytes)
    (content : conn.receiveBuffer.content = front ++ byte :: rest)
    (head : conn.lastReceivedHeadOffset = front.length) (unknown : conn.detectedResponseSize = 0)
    (enough : 5 ≤ (byte :: rest).length) (type : mp.mpTypeof byte ≠ .uint) :
    conn.detectSize mp =
      { conn.handleError (ascii "incorrect iproto message") .unexpectedData 0 with
        receiveBuffer := conn.receiveBuffer.resize conn.lastReceivedHeadOffset } := by
  have size := orphaned_size content head
  have header : conn.headerSize mp = none := by
    simp only [headerSize, orphaned_storage content head, List.cons_append, if_neg type]
  rw [detectSize, if_pos ⟨unknown, by rw [size]; exact enough⟩, header]

theorem detect_whole (implements : Implements mp) (body rest : Bytes) (sized : Sized body)
    (content : conn.receiveBuffer.content = front ++ (frame body ++ rest))
    (head : conn.lastReceivedHeadOffset = front.length) (knows : conn.Knows (frame body ++ rest)) :
    conn.detectResponses mp = detectResponses mp { conn with
      lastReceivedHeadOffset := (front ++ frame body).length
      detectedResponseSize := 0 } := by
  have found := detect_headed implements body.length content head (frame_headed body rest sized)
    knows
  have size := orphaned_size content head
  have whole : body.length + 5 ≤ conn.receiveBuffer.size - conn.lastReceivedHeadOffset := by
    rw [size, List.length_append, frame_length]
    exact Nat.le_add_right _ _
  have moved : conn.lastReceivedHeadOffset + (body.length + 5) = (front ++ frame body).length := by
    rw [head, List.length_append, frame_length]
  rw [detectResponses]
  simp only [found]
  rw [dif_pos ⟨Nat.succ_ne_zero _, whole⟩, moved]

theorem detect_remainder (implements : Implements mp) (kept : Bytes) (size : Nat)
    (remainder : Remainder mp orphaned kept size)
    (content : conn.receiveBuffer.content = front ++ orphaned)
    (head : conn.lastReceivedHeadOffset = front.length) (knows : conn.Knows orphaned) :
    ∃ buffer extra, conn.detectResponses mp = { conn with
        receiveBuffer := buffer
        detectedResponseSize := size
        notes := conn.notes ++ extra } ∧
      buffer.content = front ++ kept ∧ conn.receiveBuffer.capacity ≤ buffer.capacity ∧
      (∀ item ∈ extra, item.isQuiet) := by
  have total := orphaned_size content head
  rw [detectResponses]
  cases remainder with
  | unfinished unfinished =>
      have found : conn.detectSize mp = { conn with detectedResponseSize := size } := by
        cases unfinished with
        | short _ few =>
            have unknown : conn.detectedResponseSize = 0 := by
              rcases knows with unknown | ⟨length, headed, _⟩
              · exact unknown
              · exact absurd headed.length_le (Nat.not_le_of_lt few)
            rw [detect_short content head few, ← unknown]
        | waiting length _ headed _ => exact detect_headed implements length content head headed knows
      have less : ¬ (size ≠ 0 ∧ size ≤ orphaned.length) := by
        rintro ⟨some, whole⟩
        cases unfinished with
        | short => exact some rfl
        | waiting length _ headed few => exact absurd whole (Nat.not_le_of_lt few)
      refine ⟨conn.receiveBuffer, [], ?_, content, Nat.le_refl _, by simp⟩
      simp only [found, total]
      rw [dif_neg less, List.append_nil]
  | @foreign byte rest enough type =>
      -- a size already known would have come from a head of the right type
      have unknown : conn.detectedResponseSize = 0 := by
        rcases knows with unknown | ⟨length, ⟨positive, small, tail, same⟩, _⟩
        · exact unknown
        · have encodes := wide_uint_head 4 0xce length (by simp) (by omega)
          have header := implements.typeof _ _ _ encodes
          rw [(List.cons.inj same).1] at type
          exact absurd header type
      have found := detect_foreign byte rest content head unknown enough type
      refine ⟨conn.receiveBuffer.resize conn.lastReceivedHeadOffset,
        [.error (ascii "incorrect iproto message") .unexpectedData 0], ?_, ?_, ?_,
        by simp [Note.isQuiet]⟩
      · simp only [found, handleError, note]
        rw [dif_neg (fun both => both.1 unknown), unknown]
      · rw [head, OwnedBuffer.resize_content _ _ (by simp [OwnedBuffer.size, content]), content,
          List.take_left, List.append_nil]
      · rw [OwnedBuffer.resize_capacity]
        exact Nat.le_max_left _ _

theorem detect_framed (implements : Implements mp) (fresh : List Bytes)
    (sized : ∀ body ∈ fresh, Sized body) (tail kept : Bytes) (size : Nat)
    (remainder : Remainder mp tail kept size) (conn : Conn) (front : Bytes)
    (content : conn.receiveBuffer.content = front ++ (frames fresh ++ tail))
    (head : conn.lastReceivedHeadOffset = front.length)
    (knows : conn.Knows (frames fresh ++ tail)) :
    ∃ buffer extra, conn.detectResponses mp = { conn with
        receiveBuffer := buffer
        lastReceivedHeadOffset := (front ++ frames fresh).length
        detectedResponseSize := size
        notes := conn.notes ++ extra } ∧
      buffer.content = front ++ frames fresh ++ kept ∧
      conn.receiveBuffer.capacity ≤ buffer.capacity ∧ (∀ item ∈ extra, item.isQuiet) := by
  -- on the whole responses in front of the remainder, one turn of the loop for each
  induction fresh generalizing conn front with
  | nil =>
      obtain ⟨buffer, extra, found, kept_eq, room, quiet⟩ := detect_remainder implements kept size
        remainder content head knows
      refine ⟨buffer, extra, ?_, by simpa using kept_eq, room, quiet⟩
      rw [found, frames_nil, List.append_nil, ← head]
  | cons body fresh ih =>
      have one : Sized body := sized body List.mem_cons_self
      rw [frames_cons, List.append_assoc] at content knows
      have stepped := detect_whole implements body _ one content head knows
      obtain ⟨buffer, extra, found, kept_eq, room, quiet⟩ := ih
        (fun other kept => sized other (List.mem_cons_of_mem body kept))
        { conn with
          lastReceivedHeadOffset := (front ++ frame body).length
          detectedResponseSize := 0 }
        (front ++ frame body) (by rw [List.append_assoc]; exact content) rfl (.inl rfl)
      refine ⟨buffer, extra, ?_, ?_, room, quiet⟩
      · rw [stepped, found, frames_cons, List.append_assoc]
      · rw [kept_eq, frames_cons]
        simp only [List.append_assoc]

end Conn

end Detection

namespace Conn

theorem hand_over_contents (conn : Conn) (whole orphaned : Bytes)
    (content : conn.receiveBuffer.content = whole ++ orphaned)
    (head : conn.lastReceivedHeadOffset = whole.length) :
    conn.handOver.inputBuffer.content = whole ∧
      conn.handOver.receiveBuffer.content = orphaned := by
  have rest : conn.receiveBuffer.content.drop conn.lastReceivedHeadOffset = orphaned := by
    rw [content, head, List.drop_left]
  simp only [handOver, rest]
  by_cases some : orphaned.length ≠ 0
  · simp only [if_pos some]
    constructor
    · have size : conn.receiveBuffer.size - orphaned.length = whole.length := by
        simp [OwnedBuffer.size, content]
      rw [size, OwnedBuffer.resize_content whole.length _ (by simp [OwnedBuffer.size, content]),
        content, List.take_left]
    · exact OwnedBuffer.resize_overwrite_content orphaned _
  · have none : orphaned = [] := by simpa using some
    subst none
    simp [content]

/-- What the caller does from inside the callback, or after it has thrown, never
delivers again: the head offset is back at 0. -/
theorem pass_batch (answers : List ResponseAnswer) (conn : Conn)
    (some : conn.lastReceivedHeadOffset ≠ 0) (callback : conn.callbacks.response = true) :
    ∃ idle extra, passResponseToCaller answers conn = { conn.handOver with
        callerIdle := idle
        notes := conn.notes ++ [.response conn.handOver.inputBuffer.content] ++ extra } ∧
      (∀ item ∈ extra, item.isResponse = false) ∧
      awaiting (conn.notes ++ [.response conn.handOver.inputBuffer.content] ++ extra) =
        if idle then none else Option.some conn.handOver.inputBuffer.content := by
  obtain ⟨receive, input, shape, _⟩ := conn.hand_over_swaps
  have called : conn.handOver.callbacks.response = true := by rw [shape]; exact callback
  have noted : conn.handOver.notes = conn.notes := by rw [shape]
  have done : conn.handOver.lastReceivedHeadOffset = 0 := by rw [shape]
  rw [passResponseToCaller, if_neg some]
  simp only [called, Bool.not_true, Bool.false_eq_true, if_false]
  cases answers with
  | nil =>
      refine ⟨false, [], ?_, by simp, by simp [awaiting, awaitingAfter]⟩
      simp [note, noted]
  | cons answer rest =>
      -- `input_processed` delivers again at once, with the head offset already at 0
      have nested : ∀ idle notes, passResponseToCaller rest { conn.handOver with
          callerIdle := idle
          notes := notes } = { conn.handOver with callerIdle := idle, notes := notes } :=
        fun idle notes => pass_nothing rest _ done
      obtain ⟨processed, throws⟩ := answer
      cases throws with
      | none =>
          cases processed with
          | false =>
              refine ⟨false, [], ?_, by simp, by simp [awaiting, awaitingAfter]⟩
              simp [note, noted]
          | true =>
              refine ⟨true, [.processed], ?_, by simp [Note.isResponse],
                by simp [awaiting, awaitingAfter]⟩
              simp [releaseInput, note, noted, nested]
      | some what =>
          cases processed with
          | false =>
              refine ⟨true, [.error (ascii what) .system 0, .processed], ?_,
                by simp [Note.isResponse], by simp [awaiting, awaitingAfter]⟩
              simp [releaseInput, handleError, note, noted, nested]
          | true =>
              refine ⟨true, [.processed, .error (ascii what) .system 0, .processed], ?_,
                by simp [Note.isResponse], by simp [awaiting, awaitingAfter]⟩
              simp [releaseInput, handleError, note, noted, nested]

/-- Bodies delivered, bodies that wait for the caller, and the unfinished rest. -/
structure Inflow (done pending : List Bytes) (orphaned : Bytes) (conn : Conn) : Prop where
  content : conn.receiveBuffer.content = frames pending ++ orphaned
  head : conn.lastReceivedHeadOffset = (frames pending).length
  sized : ∀ body ∈ done ++ pending, Sized body
  unfinished : Unfinished orphaned conn.detectedResponseSize
  delivered : ∃ groups : List (List Bytes), batches conn.notes = groups.map frames ∧ groups.flatten = done ∧
    ∀ group ∈ groups, group ≠ []
  awaits : awaiting conn.notes = if conn.callerIdle then none else some conn.inputBuffer.content
  alternate : Alternate conn.notes
  callback : conn.callbacks.response = true
  receiveRoom : 2 ≤ conn.receiveBuffer.capacity
  inputRoom : 2 ≤ conn.inputBuffer.capacity

/-- The socket session is the same, with the same bytes received. -/
structure SameSession (before after : Conn) : Prop where
  state : after.state = before.state
  socket : after.socket = before.socket
  received : after.received = before.received

theorem pass_inflow (answers : List ResponseAnswer) (done pending : List Bytes)
    (orphaned : Bytes) (conn : Conn) (inflow : Inflow done pending orphaned conn)
    (idle : conn.callerIdle = true) :
    Inflow (done ++ pending) [] orphaned (conn.passResponseToCaller answers) ∧
      SameSession conn (conn.passResponseToCaller answers) := by
  by_cases none : conn.lastReceivedHeadOffset = 0
  · have empty : frames pending = [] := List.eq_nil_of_length_eq_zero (inflow.head.symm.trans none)
    have nothing := frames_eq_nil empty
    subst nothing
    rw [pass_nothing answers conn none, List.append_nil]
    exact ⟨inflow, rfl, rfl, rfl⟩
  · obtain ⟨busy, extra, passed, quiet, awaits⟩ := pass_batch answers conn none inflow.callback
    obtain ⟨receive, input, swapped, grownInput, grownReceive⟩ := conn.hand_over_swaps
    obtain ⟨batch, rest⟩ := hand_over_contents conn _ _ inflow.content inflow.head
    have given : awaiting conn.notes = Option.none := by rw [inflow.awaits, idle, if_pos rfl]
    have noted : Alternate (conn.notes ++ [.response conn.handOver.inputBuffer.content]) :=
      inflow.alternate.append fun _ => given
    obtain ⟨alternate, same⟩ := noted.append_all quiet
    -- the buffers trade places, so each keeps the room of the other
    rw [batch] at passed awaits alternate same
    rw [swapped] at batch rest passed
    rw [passed]
    obtain ⟨groups, sent, flat, some⟩ := inflow.delivered
    constructor
    · constructor
      · rw [frames_nil, List.nil_append]
        exact rest
      · rfl
      · rw [List.append_nil]
        exact inflow.sized
      · exact inflow.unfinished
      · refine ⟨groups ++ [pending], ?_, ?_, ?_⟩
        · rw [same, batches_append, sent, List.map_append]
          rfl
        · rw [List.flatten_append, flat, List.flatten_singleton]
        · intro group kept
          rcases List.mem_append.mp kept with old | new
          · exact some group old
          · rw [List.mem_singleton.mp new]
            rintro rfl
            exact none inflow.head
      · rw [awaits]
        exact congrArg _ (congrArg _ batch.symm)
      · exact alternate
      · exact inflow.callback
      · exact Nat.le_trans inflow.inputRoom grownReceive
      · exact Nat.le_trans inflow.receiveRoom grownInput
    · exact ⟨rfl, rfl, rfl⟩

/-- Neither a greeting nor the end of a login is awaited: what arrives is responses. -/
def TakesResponses (conn : Conn) : Prop :=
  conn.state = .connected ∨ conn.state = .disconnected ∨ conn.state = .addressResolving

theorem TakesResponses.unconnecting {conn : Conn} (takes : conn.TakesResponses) :
    conn.state ≠ .connecting := by
  rcases takes with state | state | state <;>
  · rw [state]
    decide

theorem TakesResponses.no_login {conn : Conn} (takes : conn.TakesResponses) :
    ¬ (conn.state = .featuresRequest ∨ conn.state = .authentication) := by
  rcases takes with state | state | state <;>
  · rw [state]
    decide

/-- Outside a login whole responses go to an idle caller. -/
theorem process_responses (mp : Msgpuck) (crypto : Crypto) (answers : Answers) (conn : Conn)
    (takes : conn.TakesResponses) :
    conn.processReceiveBuffer mp crypto answers = some (if conn.callerIdle then
      (conn.detectResponses mp).passResponseToCaller answers.responses
      else conn.detectResponses mp) := by
  have kept : (conn.detectResponses mp).state = conn.state := by
    obtain ⟨_, _, _, _, _, _, shape, _⟩ := detect_input mp conn
    rw [shape]
  have passed : ¬ ((conn.detectResponses mp).state = .featuresRequest ∨
      (conn.detectResponses mp).state = .authentication) := by
    rw [kept]
    exact takes.no_login
  rw [processReceiveBuffer]
  simp only [if_neg passed, detect_caller mp conn]
  by_cases none : (conn.detectResponses mp).lastReceivedHeadOffset = 0
  · rw [if_pos none, pass_nothing _ _ none]
    split <;> rfl
  · rw [if_neg none]
    split <;> rfl

theorem found_inflow {mp : Msgpuck} (implements : Implements mp) (done pending : List Bytes)
    (orphaned : Bytes) (conn : Conn) (inflow : Inflow done pending orphaned conn)
    (buffer : OwnedBuffer UInt8) (arrived : Bytes)
    (content : buffer.content = conn.receiveBuffer.content ++ arrived)
    (room : conn.receiveBuffer.capacity ≤ buffer.capacity) (fresh : List Bytes)
    (sized : ∀ body ∈ fresh, Sized body) (tail kept : Bytes) (size : Nat)
    (remainder : Remainder mp tail kept size) (split : orphaned ++ arrived = frames fresh ++ tail) :
    Inflow done (pending ++ fresh) kept ((conn.taken buffer arrived).detectResponses mp) ∧
      ((conn.taken buffer arrived).detectResponses mp).callerIdle = conn.callerIdle ∧
      SameSession (conn.taken buffer arrived) ((conn.taken buffer arrived).detectResponses mp) := by
  have whole : (conn.taken buffer arrived).receiveBuffer.content =
      frames pending ++ (frames fresh ++ tail) := by
    rw [← split, ← List.append_assoc, ← inflow.content]
    exact content
  -- a size that was known is the one of the first unfinished response
  have knows : (conn.taken buffer arrived).Knows (frames fresh ++ tail) := by
    rw [← split]
    rcases inflow.unfinished.size_known with unknown | ⟨length, headed, known⟩
    · exact .inl unknown
    · exact .inr ⟨length, headed.append arrived, known⟩
  obtain ⟨last, extra, found, left, grown, quiet⟩ := detect_framed implements fresh sized tail kept
    size remainder (conn.taken buffer arrived) (frames pending) whole inflow.head knows
  have same := quiet_same conn.notes extra quiet
  rw [found]
  refine ⟨?_, rfl, rfl, rfl, rfl⟩
  constructor
  · rw [frames_append]
    exact left
  · rw [frames_append]
  · intro body member
    rw [← List.append_assoc] at member
    rcases List.mem_append.mp member with old | new
    · exact inflow.sized body old
    · exact sized body new
  · exact remainder.unfinished_kept
  · have sent := same.batches
    simp only [taken] at sent ⊢
    rw [sent]
    exact inflow.delivered
  · have waits := same.awaiting
    simp only [taken] at waits ⊢
    rw [waits]
    exact inflow.awaits
  · exact same.alternate inflow.alternate
  · exact inflow.callback
  · exact Nat.le_trans inflow.receiveRoom (Nat.le_trans room grown)
  · exact inflow.inputRoom

/-- A `read()` of responses that meets no end. -/
theorem read_goes_on (mp : Msgpuck) (crypto : Crypto) (answers : Answers) (conn : Conn)
    (takes : conn.TakesResponses) (socket : conn.socket = true)
    (ongoing : conn.meetsEnd answers = false) :
    ∃ buffer, buffer.content = conn.receiveBuffer.content ++ conn.arriving answers ∧
      conn.receiveBuffer.capacity ≤ buffer.capacity ∧
      conn.read mp crypto answers = some (if conn.callerIdle then
        (({ conn with idleTicksCounter := 0 }.taken buffer (conn.arriving answers)).detectResponses
          mp).passResponseToCaller answers.responses
        else ({ conn with idleTicksCounter := 0 }.taken buffer
          (conn.arriving answers)).detectResponses mp) := by
  obtain ⟨buffer, content, room, ended⟩ := conn.receive_shape answers
  refine ⟨buffer, content, room, ?_⟩
  have loop : (conn.receive answers).2 =
      { conn with idleTicksCounter := 0 }.taken buffer (conn.arriving answers) := by
    rcases ended with ⟨_, paused⟩ | ⟨failed, _⟩
    · exact paused
    · rw [ongoing] at failed
      cases failed
  have going : (conn.receive answers).1 = true := by
    simpa [meetsEnd] using ongoing
  have still : (conn.receive answers).2.TakesResponses := by
    rw [loop]
    exact takes
  have whole : conn.read mp crypto answers =
      (conn.receive answers).2.processReceiveBuffer mp crypto answers := by
    simp [read, socket, going, still.unconnecting]
  rw [whole, process_responses mp crypto answers _ still, loop]
  rfl

/-- A `read()` of responses that goes on: the whole ones are delivered to an idle
caller and wait for a busy one. -/
theorem read_inflow {mp : Msgpuck} (implements : Implements mp) (crypto : Crypto)
    (answers : Answers) (done pending : List Bytes) (orphaned : Bytes) (conn : Conn)
    (inflow : Inflow done pending orphaned conn) (takes : conn.TakesResponses)
    (socket : conn.socket = true) (ongoing : conn.meetsEnd answers = false) (fresh : List Bytes)
    (sized : ∀ body ∈ fresh, Sized body) (tail kept : Bytes) (size : Nat)
    (remainder : Remainder mp tail kept size)
    (split : orphaned ++ conn.arriving answers = frames fresh ++ tail) :
    ∃ after done' pending', conn.read mp crypto answers = some after ∧
      Inflow done' pending' kept after ∧ done' ++ pending' = done ++ pending ++ fresh ∧
      (after.callerIdle = true → pending' = []) ∧ after.state = conn.state ∧
      after.socket = true ∧ after.received = conn.received ++ conn.arriving answers := by
  obtain ⟨buffer, content, room, ran⟩ := read_goes_on mp crypto answers conn takes socket ongoing
  have started : Inflow done pending orphaned { conn with idleTicksCounter := 0 } :=
    ⟨inflow.content, inflow.head, inflow.sized, inflow.unfinished, inflow.delivered, inflow.awaits,
      inflow.alternate, inflow.callback, inflow.receiveRoom, inflow.inputRoom⟩
  obtain ⟨found, caller, session⟩ := found_inflow implements done pending orphaned
    { conn with idleTicksCounter := 0 } started buffer (conn.arriving answers) content room fresh
    sized tail kept size remainder split
  rw [ran]
  by_cases idle : conn.callerIdle = true
  · obtain ⟨passed, same⟩ := pass_inflow answers.responses _ _ _ _ found (caller.trans idle)
    refine ⟨_, done ++ (pending ++ fresh), [], congrArg some (if_pos idle), passed, ?_, fun _ => rfl,
      ?_, ?_, ?_⟩
    · simp
    · exact same.state.trans session.state
    · exact (same.socket.trans session.socket).trans socket
    · exact same.received.trans session.received
  · refine ⟨_, done, pending ++ fresh, congrArg some (if_neg idle), found, by simp, ?_, ?_, ?_, ?_⟩
    · exact fun later => absurd (caller.symm.trans later) idle
    · exact session.state
    · exact session.socket.trans socket
    · exact session.received

theorem read_received (mp : Msgpuck) (crypto : Crypto) (answers : Answers) (conn after : Conn)
    (takes : conn.TakesResponses) (socket : conn.socket = true)
    (ongoing : conn.meetsEnd answers = false) (done : conn.read mp crypto answers = some after) :
    after.received = conn.received ++ conn.arriving answers := by
  obtain ⟨buffer, _, _, ran⟩ := read_goes_on mp crypto answers conn takes socket ongoing
  cases done.symm.trans ran
  obtain ⟨_, _, _, _, _, _, detected, _⟩ := detect_input mp
    ({ conn with idleTicksCounter := 0 }.taken buffer (conn.arriving answers))
  obtain ⟨_, _, _, _, _, _, passed, _⟩ := pass_input answers.responses
    (({ conn with idleTicksCounter := 0 }.taken buffer (conn.arriving answers)).detectResponses mp)
  split
  · rw [passed, detected]
    rfl
  · rw [detected]
    rfl

theorem input_processed_inflow (answers : Answers) (done pending : List Bytes) (orphaned : Bytes)
    (conn : Conn) (inflow : Inflow done pending orphaned conn) :
    Inflow (done ++ pending) [] orphaned (conn.inputProcessed answers) ∧
      SameSession conn (conn.inputProcessed answers) := by
  have released : Inflow done pending orphaned conn.releaseInput := by
    refine ⟨inflow.content, inflow.head, inflow.sized, inflow.unfinished, ?_, ?_, ?_,
      inflow.callback, inflow.receiveRoom, inflow.inputRoom⟩
    · simp only [releaseInput, note, batches_append]
      exact (List.append_nil (batches conn.notes)).symm ▸ inflow.delivered
    · simp [releaseInput, note, awaitingAfter]
    · exact inflow.alternate.append fun response => absurd response Bool.false_ne_true
  obtain ⟨passed, same⟩ := pass_inflow answers.responses done pending orphaned conn.releaseInput
    released rfl
  exact ⟨passed, same.state, same.socket, same.received⟩

/-- An open session before its first response, with a response callback. -/
structure Listening (conn : Conn) : Prop where
  socket : conn.socket = true
  state : conn.state = .connected
  callback : conn.callbacks.response = true
  idle : conn.callerIdle = true
  content : conn.receiveBuffer.content = []
  head : conn.lastReceivedHeadOffset = 0
  detected : conn.detectedResponseSize = 0
  receiveRoom : 2 ≤ conn.receiveBuffer.capacity
  inputRoom : 2 ≤ conn.inputBuffer.capacity
  received : conn.received = []
  notes : conn.notes = []

/-- Read events without an end, and the caller who is done with a batch. -/
def ReadsInput (_ : Conn) : Event × Answers → Prop
  | (.read, answers) => Ongoing answers.recvs
  | (.inputProcessed, _) => True
  | _ => False

theorem listening_inflow (conn : Conn) (listening : conn.Listening) : Inflow [] [] [] conn where
  content := listening.content
  head := listening.head
  sized := by simp
  unfinished := by
    rw [listening.detected]
    exact .short [] (by decide)
  delivered := ⟨[], by rw [listening.notes]; rfl, rfl, by simp⟩
  awaits := by
    rw [listening.notes, listening.idle]
    rfl
  alternate := by
    rw [listening.notes]
    intro front batch back split
    simp at split
  callback := listening.callback
  receiveRoom := listening.receiveRoom
  inputRoom := listening.inputRoom

/-- The invariant against the bodies that are sent: the stream is used up in
order, and an idle caller has been given all that is whole. -/
structure Streaming (bodies : List Bytes) (conn : Conn) (done pending rest : List Bytes)
    (orphaned : Bytes) : Prop where
  inflow : Inflow done pending orphaned conn
  bodies : bodies = done ++ pending ++ rest
  received : conn.received = frames (done ++ pending) ++ orphaned
  socket : conn.socket = true
  takes : conn.TakesResponses
  idle : conn.callerIdle = true → pending = []

section Runs
variable {mp : Msgpuck} (crypto : Crypto) (parseCs : Bytes → CsParts)

theorem read_streaming (implements : Implements mp) (answers : Answers) (bodies : List Bytes)
    (sized : ∀ body ∈ bodies, Sized body) (conn after : Conn) (done pending rest : List Bytes)
    (orphaned : Bytes) (streaming : Streaming bodies conn done pending rest orphaned)
    (ongoing : conn.meetsEnd answers = false) (ran : conn.read mp crypto answers = some after)
    (stream : after.received <+: frames bodies) :
    ∃ done' pending' rest' orphaned', Streaming bodies after done' pending' rest' orphaned' := by
  have grown := read_received mp crypto answers conn after streaming.takes streaming.socket ongoing
    ran
  rw [grown, streaming.received, streaming.bodies, frames_append (done ++ pending), List.append_assoc]
    at stream
  obtain ⟨fresh, later, tail, size, split, found, unfinished, _⟩ := prefix_splits rest
    (fun body member => sized body (by
      rw [streaming.bodies]
      exact List.mem_append_right _ member))
    (orphaned ++ conn.arriving answers) ((List.prefix_append_right_inj _).mp stream)
  have whole : ∀ body ∈ fresh, Sized body := by
    intro body member
    apply sized body
    rw [streaming.bodies, split]
    exact List.mem_append_right _ (List.mem_append_left _ member)
  obtain ⟨reached, done', pending', done_eq, inflow, both, idle, state, socket, received⟩ :=
    read_inflow implements crypto answers done pending orphaned conn streaming.inflow
      streaming.takes streaming.socket ongoing fresh whole tail tail size
      (.unfinished unfinished) found
  cases done_eq.symm.trans ran
  refine ⟨done', pending', later, tail, inflow, ?_, ?_, socket, ?_, idle⟩
  · rw [both, streaming.bodies, split]
    simp only [List.append_assoc]
  · rw [grown, streaming.received, both, frames_append (done ++ pending), List.append_assoc,
      List.append_assoc, found]
  · rw [TakesResponses, state]
    exact streaming.takes

theorem processed_streaming (answers : Answers) (bodies : List Bytes) (conn : Conn)
    (done pending rest : List Bytes) (orphaned : Bytes)
    (streaming : Streaming bodies conn done pending rest orphaned) :
    Streaming bodies (conn.inputProcessed answers) (done ++ pending) [] rest orphaned := by
  obtain ⟨inflow, same⟩ := input_processed_inflow answers done pending orphaned conn
    streaming.inflow
  refine ⟨inflow, ?_, ?_, ?_, ?_, fun _ => rfl⟩
  · rw [List.append_nil]
    exact streaming.bodies
  · rw [same.received, List.append_nil]
    exact streaming.received
  · rw [same.socket]
    exact streaming.socket
  · rw [TakesResponses, same.state]
    exact streaming.takes

theorem run_streaming (implements : Implements mp) (bodies : List Bytes)
    (sized : ∀ body ∈ bodies, Sized body) (start conn : Conn) (events : List (Event × Answers))
    (listening : start.Listening)
    (run : Run (step mp crypto parseCs) ReadsInput start events conn)
    (stream : conn.received <+: frames bodies) :
    ∃ done pending rest orphaned, Streaming bodies conn done pending rest orphaned := by
  induction run with
  | nil =>
      refine ⟨[], [], bodies, [], listening_inflow start listening, rfl, ?_, listening.socket,
        .inl listening.state, fun _ => rfl⟩
      rw [listening.received]
      rfl
  | @snoc _ before after event run admitted ran ih =>
      obtain ⟨call, answers⟩ := event
      cases call with
      | read =>
          have more := (read_reads mp crypto answers before after ran).received
          obtain ⟨done, pending, rest, orphaned, streaming⟩ := ih (more.trans stream)
          have ongoing := ongoing_meets_none answers before streaming.inflow.receiveRoom admitted
          exact read_streaming crypto implements answers bodies sized before after done pending
            rest orphaned streaming ongoing ran stream
      | inputProcessed =>
          cases ran
          have same : (before.inputProcessed answers).received = before.received := by
            obtain ⟨_, _, _, _, _, _, shape, _⟩ := input_processed_input answers before
            rw [shape]
          rw [same] at stream
          obtain ⟨done, pending, rest, orphaned, streaming⟩ := ih stream
          exact ⟨_, _, _, _, processed_streaming answers bodies before done pending rest orphaned
            streaming⟩
      | openConnection | close | setConnectionString | setRequiredProto | setCallbacks | append
      | reserve | request | flush | tick1sec | write | resolved | resolveFailed =>
          exact admitted.elim

/-- Whatever the chunks are and whenever the caller is done with a batch: the
batches and the receive buffer hold what was received, a batch is whole
responses, no batch comes while the caller works on one, and an idle caller has
been given every whole response. -/
theorem input_delivered (implements : Implements mp) (bodies : List Bytes)
    (sized : ∀ body ∈ bodies, Sized body) (start conn : Conn) (events : List (Event × Answers))
    (listening : start.Listening)
    (run : Run (step mp crypto parseCs) ReadsInput start events conn)
    (stream : conn.received <+: frames bodies) :
    (batches conn.notes).flatten ++ conn.receiveBuffer.content = conn.received ∧
    (∀ batch ∈ batches conn.notes, ∃ group : List Bytes,
      batch = frames group ∧ group ≠ [] ∧ ∀ body ∈ group, Sized body) ∧
    Alternate conn.notes ∧
    awaiting conn.notes = (if conn.callerIdle then none else some conn.inputBuffer.content) ∧
    (conn.callerIdle = true → ∀ body rest, Sized body →
      conn.receiveBuffer.content ≠ frame body ++ rest) := by
  obtain ⟨done, pending, rest, orphaned, streaming⟩ := run_streaming crypto parseCs implements
    bodies sized start conn events listening run stream
  obtain ⟨groups, sent, flat, some⟩ := streaming.inflow.delivered
  have whole : (batches conn.notes).flatten = frames done := by
    rw [sent, ← flat, frames_flatten]
  refine ⟨?_, ?_, streaming.inflow.alternate, streaming.inflow.awaits, ?_⟩
  · rw [whole, streaming.inflow.content, streaming.received, frames_append, List.append_assoc]
  · intro batch member
    rw [sent] at member
    obtain ⟨group, inside, rfl⟩ := List.mem_map.mp member
    refine ⟨group, rfl, some group inside, ?_⟩
    intro body kept
    apply streaming.inflow.sized body
    rw [← flat]
    exact List.mem_append_left _ (List.mem_flatten.mpr ⟨group, inside, kept⟩)
  · intro idle body rest sized same
    have content := streaming.inflow.content
    rw [streaming.idle idle, frames_nil, List.nil_append] at content
    exact streaming.inflow.unfinished.no_frame body rest sized (content.symm.trans same)

end Runs

theorem opened_listening : opened.Listening where
  socket := rfl
  state := rfl
  callback := rfl
  idle := rfl
  content := rfl
  head := rfl
  detected := rfl
  receiveRoom := OwnedBuffer.of_size_roomy (by decide)
  inputRoom := OwnedBuffer.of_size_roomy (by decide)
  received := rfl
  notes := rfl

theorem chunk_pushed (answers : Answers) (chunk : Bytes) (results : List RecvResult) (conn : Conn)
    (answered : answers.recvs = .bytes chunk :: results) (some : chunk ≠ [])
    (room : 1024 ≤ conn.receiveBuffer.available)
    (fits : chunk.length ≤ conn.receiveBuffer.available) :
    conn.receive answers = recvLoop answers results { conn with
      idleTicksCounter := 0
      receiveBuffer := conn.receiveBuffer.push chunk
      received := conn.received ++ chunk } := by
  have ready : { conn with idleTicksCounter := 0 }.makeRoom = { conn with idleTicksCounter := 0 } :=
    if_neg (Nat.not_lt.mpr room)
  have whole : chunk.take conn.receiveBuffer.available = chunk := List.take_of_length_le fits
  simp only [receive, answered, recvLoop, ready, whole, if_neg some]

theorem chunk_arrives (answers : Answers) (chunk : Bytes) (conn : Conn)
    (answered : answers.recvs = [.bytes chunk]) (some : chunk ≠ [])
    (room : 1024 ≤ conn.receiveBuffer.available)
    (fits : chunk.length ≤ conn.receiveBuffer.available) : conn.arriving answers = chunk := by
  obtain ⟨buffer, shape, _⟩ := make_room_shape { conn with
    idleTicksCounter := 0
    receiveBuffer := conn.receiveBuffer.push chunk
    received := conn.received ++ chunk }
  rw [arriving, chunk_pushed answers chunk [] conn answered some room fits, recvLoop, shape]
  exact List.drop_left

theorem opened_available : opened.receiveBuffer.available = 2 ^ 20 :=
  OwnedBuffer.of_size_available (2 ^ 20)

/-- Neither buffer of the input is smaller than `room`. -/
structure Wide (room : Nat) (conn : Conn) : Prop where
  receive : room ≤ conn.receiveBuffer.capacity
  input : room ≤ conn.inputBuffer.capacity

theorem opened_wide : opened.Wide (2 ^ 20) where
  receive := Nat.le_of_eq (OwnedBuffer.of_size_capacity (2 ^ 20)).symm
  input := Nat.le_of_eq (OwnedBuffer.of_size_capacity (2 ^ 20)).symm

theorem detect_wide (mp : Msgpuck) {room : Nat} (conn : Conn) (wide : conn.Wide room) :
    (conn.detectResponses mp).Wide room := by
  have searched : ∀ conn : Conn, conn.Wide room → (conn.detectSize mp).Wide room := by
    intro conn wide
    unfold detectSize
    simp only
    split
    · split
      · exact ⟨wide.receive, wide.input⟩
      · refine ⟨?_, wide.input⟩
        rw [OwnedBuffer.resize_capacity]
        exact Nat.le_trans wide.receive (Nat.le_max_left _ _)
    · exact wide
  induction conn using detectResponses.induct mp with
  | case1 conn orphaned found whole ih =>
      rw [detectResponses, dif_pos whole]
      exact ih ⟨(searched conn wide).receive, (searched conn wide).input⟩
  | case2 conn orphaned found partly =>
      rw [detectResponses, dif_neg partly]
      exact searched conn wide

theorem pass_wide (answers : List ResponseAnswer) {room : Nat} (conn : Conn)
    (callback : conn.callbacks.response = true) (wide : conn.Wide room) :
    (conn.passResponseToCaller answers).Wide room := by
  by_cases none : conn.lastReceivedHeadOffset = 0
  · rw [pass_nothing answers conn none]
    exact wide
  · obtain ⟨_, _, passed, _⟩ := pass_batch answers conn none callback
    obtain ⟨receive, input, swapped, grownInput, grownReceive⟩ := conn.hand_over_swaps
    rw [passed, swapped]
    exact ⟨Nat.le_trans wide.input grownReceive, Nat.le_trans wide.receive grownInput⟩

theorem read_wide (mp : Msgpuck) (crypto : Crypto) (answers : Answers) {room : Nat}
    (conn after : Conn) (takes : conn.TakesResponses) (socket : conn.socket = true)
    (callback : conn.callbacks.response = true) (ongoing : conn.meetsEnd answers = false)
    (wide : conn.Wide room) (done : conn.read mp crypto answers = some after) :
    after.Wide room := by
  obtain ⟨buffer, _, grown, shape⟩ := read_goes_on mp crypto answers conn takes socket ongoing
  have taken : ({ conn with idleTicksCounter := 0 }.taken buffer (conn.arriving answers)).Wide room :=
    ⟨Nat.le_trans wide.receive grown, wide.input⟩
  have found := detect_wide mp _ taken
  cases done.symm.trans shape
  split
  · refine pass_wide answers.responses _ ?_ found
    obtain ⟨_, _, _, _, _, _, same, _⟩ := detect_input mp
      ({ conn with idleTicksCounter := 0 }.taken buffer (conn.arriving answers))
    rw [same]
    exact callback
  · exact found

theorem chunk_taken (chunk : Bytes) (conn : Conn) (some : chunk ≠ []) (fits : chunk.length ≤ 1024)
    (wide : conn.Wide (2 ^ 20)) (short : conn.receiveBuffer.content.length ≤ 1024) :
    conn.arriving { recvs := [.bytes chunk] } = chunk ∧
      conn.meetsEnd { recvs := [.bytes chunk] } = false := by
  have room : 1024 ≤ conn.receiveBuffer.available := by
    have receive := wide.receive
    simp only [OwnedBuffer.capacity] at receive
    simp only [OwnedBuffer.available]
    omega
  constructor
  · exact chunk_arrives _ chunk conn rfl some room (Nat.le_trans fits room)
  · apply ongoing_meets_none _ conn (Nat.le_trans (by decide) wide.receive)
    simp [Ongoing, some.symm]

theorem opened_takes (chunk : Bytes) (some : chunk ≠ []) (fits : chunk.length ≤ 1024) :
    opened.arriving { recvs := [.bytes chunk] } = chunk ∧
      opened.meetsEnd { recvs := [.bytes chunk] } = false :=
  chunk_taken chunk opened some fits opened_wide (by decide)

theorem input_delivered_two : ∃ conn : Conn,
    (batches conn.notes).flatten ++ conn.receiveBuffer.content = conn.received ∧
    conn.received = frames [[0x80], [0x80]] ++ [0xce] ∧
    (∀ batch ∈ batches conn.notes, ∃ group : List Bytes,
      batch = frames group ∧ group ≠ [] ∧ ∀ body ∈ group, Sized body) ∧
    Alternate conn.notes := by
  let chunk := frames [[0x80], [0x80]] ++ [0xce]
  let answers : Answers := { recvs := [.bytes chunk] }
  obtain ⟨arrives, going⟩ : opened.arriving answers = chunk ∧ opened.meetsEnd answers = false :=
    opened_takes chunk (by decide) (by decide)
  have split : [] ++ opened.arriving answers = frames [[0x80], [0x80]] ++ [0xce] := by
    rw [List.nil_append, arrives]
  have ongoing : Ongoing answers.recvs := by decide
  have sized : ∀ body ∈ [[0x80], [0x80], [0x80]], Sized body := by decide
  obtain ⟨after, _, _, ran, _, _, _, _, _, received⟩ := read_inflow reference_implements
    ⟨id, fun _ _ => []⟩ answers [] [] [] opened (listening_inflow opened opened_listening)
    (.inl opened_listening.state) opened_listening.socket going [[0x80], [0x80]] (by decide) [0xce] [0xce] 0
    (.unfinished (.short _ (by decide))) split
  rw [arrives] at received
  have run : Run (step reference ⟨id, fun _ _ => []⟩ fun _ => ⟨[], [], [], [], []⟩) ReadsInput
      opened [(.read, answers)] after := .snoc .nil ongoing ran
  obtain ⟨whole, groups, alternate, _⟩ := input_delivered _ _ reference_implements
    [[0x80], [0x80], [0x80]] sized opened after _ opened_listening run (by
      rw [received]
      decide)
  exact ⟨after, whole, received, groups, alternate⟩

end Conn

end Cpp2tnt
