import Cpp2tnt.ResponseHandlers
import Cpp2tnt.RequestFraming

/-!
Responses written by the same writer. `encode_response_header` puts three entries
in front of the body, and the sender appends a map. What one side composes is what
the other side is told: the handlers of the requests, and the handshake.
-/

namespace Cpp2tnt
open Imperative MessagePack MpWriter

/-- `header_field::SCHEMA_ID`. -/
def schemaIdKey : Nat := 0x05

def responseCode (errorCode : UInt32) : UInt32 := if errorCode ≠ 0 then 0x8000 ||| errorCode else 0

def IprotoWriter.encodeResponseHeader (mp : Msgpuck) (errorCode : UInt32)
    (schemaVersion sync : UInt64) : Write Unit := do
  startMessage mp
  emit (mp.mpEncodeMap 3)
  emit (mp.mpEncodeUint Field.code.key ++ mp.mpEncodeUint (responseCode errorCode).toNat)
  emit (mp.mpEncodeUint Field.sync.key ++ mp.mpEncodeUint sync.toNat)
  emit (mp.mpEncodeUint schemaIdKey ++ mp.mpEncodeUint schemaVersion.toNat)

/-- A response as its sender composes it. The map behind the header is closed by up to two calls of
`finalize`, or by the next message. -/
structure Composed where
  sync : UInt64
  errorCode : UInt32
  schemaVersion : UInt64
  maxCardinality : Nat
  fields : List Doc
  finalized : Nat

namespace Composed

def body (composed : Composed) : Doc := .container .map composed.maxCardinality composed.fields

def run (mp : Msgpuck) (composed : Composed) : Write Unit := do
  IprotoWriter.encodeResponseHeader mp composed.errorCode composed.schemaVersion composed.sync
  beginMap mp composed.maxCardinality
  execAll mp (Doc.opsAll composed.fields)
  Cxx.forEach (fun _ => IprotoWriter.finalize mp) (List.replicate composed.finalized ())

def numberPair (key number : Nat) : MapPair := ⟨.int key, encodeUint key, encodeUint number⟩

def response (mp : Msgpuck) (composed : Composed) : Response where
  front := encodeMapHead 3
  header := [numberPair Field.code.key (responseCode composed.errorCode).toNat,
    numberPair Field.sync.key composed.sync.toNat, numberPair schemaIdKey composed.schemaVersion.toNat]
  body := composed.body.bytes mp

/-- A valid map, nested at most 14 deep, in a message of the length that is stored. -/
structure Valid (mp : Msgpuck) (composed : Composed) : Prop where
  body : composed.body.Valid
  shallow : Doc.depthAll composed.fields ≤ 14
  few : composed.finalized ≤ 2
  short : (frame (composed.response mp).bytes).length < 2 ^ 32

section Reading
variable {mp : Msgpuck} {composed : Composed}

theorem number_pair_formed {key number : Nat} (small : key < 2 ^ 64) (bounded : number < 2 ^ 64) :
    (numberPair key number).Formed :=
  ⟨uint_encodes key small, .int number, uint_encodes number bounded⟩

theorem code_small (composed : Composed) : (responseCode composed.errorCode).toNat < 2 ^ 64 := by
  have small := (responseCode composed.errorCode).toNat_lt
  omega

theorem response_formed : (composed.response mp).Formed where
  headed := encode_map_head 3 (by decide)
  pairs := by
    intro pair member
    simp only [response, List.mem_cons, List.not_mem_nil, or_false] at member
    rcases member with rfl | rfl | rfl
    · exact number_pair_formed (by decide) composed.code_small
    · exact number_pair_formed (by decide) composed.sync.toNat_lt
    · exact number_pair_formed (by decide) composed.schemaVersion.toNat_lt

theorem response_coded :
    (composed.response mp).HasCode (responseCode composed.errorCode).toNat :=
  ⟨(responseCode composed.errorCode).toNat_lt, _, ⟨[], _, _, rfl,
    fun _ member => absurd member List.not_mem_nil, rfl, rfl⟩,
    encode_uint_head _ composed.code_small⟩

theorem items_paired {count : Nat} {values : List Value} {bytes : Bytes}
    (even : values.length = 2 * count) (encodes : EncodesAll values bytes) :
    ∃ pairs, pairs.length = count ∧ pairsBytes pairs = bytes ∧
      ∀ pair ∈ pairs, MapPair.Formed pair := by
  induction count generalizing values bytes with
  | zero =>
      obtain rfl := List.eq_nil_of_length_eq_zero even
      cases encodes
      exact ⟨[], rfl, rfl, fun _ member => absurd member List.not_mem_nil⟩
  | succ count ih =>
      obtain ⟨key, value, rest, rfl⟩ : ∃ key value rest, values = key :: value :: rest := by
        obtain ⟨key, behind, rfl⟩ := List.exists_cons_of_length_pos (l := values) (by omega)
        obtain ⟨value, rest, rfl⟩ := List.exists_cons_of_length_pos (l := behind) (by
          rw [List.length_cons] at even; omega)
        exact ⟨key, value, rest, rfl⟩
      obtain ⟨first, _, rfl, named, second, back, rfl, valued, others⟩ := encodes
      obtain ⟨pairs, length, same, formed⟩ := ih (by
        simp only [List.length_cons] at even; omega) others
      refine ⟨⟨key, first, second⟩ :: pairs, by rw [List.length_cons, length], ?_, ?_⟩
      · rw [pairsBytes, same, MapPair.bytes, List.append_assoc]
      · exact List.forall_mem_cons.mpr ⟨⟨named, value, valued⟩, formed⟩

theorem body_paired (implements : Implements mp) (valid : composed.body.Valid) :
    ∃ front pairs, composed.body.bytes mp = front ++ pairsBytes pairs ∧
      HeadEncodes (.map pairs.length) front ∧ ∀ pair ∈ pairs, MapPair.Formed pair := by
  rw [body, Doc.Valid] at valid
  obtain ⟨inner, _, many, even, fits⟩ := valid
  have paired := even rfl
  obtain ⟨pairs, length, same, formed⟩ := @items_paired
    ((Doc.valuesAll composed.fields).length / 2) _ _ (by omega) (docs_encode implements _ inner)
  have headed := patched_head_encodes .map composed.maxCardinality _
    (cardinality_lt .map _ many) fits
  refine ⟨patchedHead .map composed.maxCardinality
    (Container.map.cardinality (Doc.valuesAll composed.fields).length), pairs, ?_, ?_, formed⟩
  · rw [body, Doc.bytes, ← same]
  · rw [length]
    exact headed

theorem response_sized (valid : composed.Valid mp) :
    Sized (composed.response mp).bytes := by
  have short := valid.short
  rw [frame_length] at short
  have front : 0 < (encodeMapHead 3).length := by decide
  refine ⟨?_, by omega⟩
  rw [Response.bytes, List.append_assoc, List.length_append]
  exact Nat.add_pos_left front _

theorem response_answers (implements : Implements mp) (valid : composed.Valid mp) :
    (composed.response mp).Answers composed.sync where
  formed := response_formed
  sized := response_sized valid
  sync := by
    refine ⟨_, ⟨[_], _, _, rfl, ?_, rfl, rfl⟩, encode_uint_head _ composed.sync.toNat_lt⟩
    intro other member
    rw [List.mem_singleton.mp member]
    rfl
  body := body_paired implements valid.body

end Reading

section Writing
variable {mp : Msgpuck} {composed : Composed}

def head (mp : Msgpuck) (composed : Composed) : Bytes :=
  let response := composed.response mp
  response.front ++ pairsBytes response.header

theorem response_header_emitted (implements : Implements mp) (composed : Composed) :
    IprotoWriter.encodeResponseHeader mp composed.errorCode composed.schemaVersion composed.sync = (do
      IprotoWriter.startMessage mp
      emit (composed.head mp)) := by
  have schema : mp.mpEncodeUint schemaIdKey = encodeUint schemaIdKey :=
    implements.encodeUint _ (by decide)
  simp only [IprotoWriter.encodeResponseHeader, emit_append, mp_field implements, schema,
    implements.encodeMap 3 (by omega), implements.encodeUint _ composed.code_small,
    implements.encodeUint _ composed.sync.toNat_lt, implements.encodeUint _ composed.schemaVersion.toNat_lt]
  simp [head, response, pairsBytes, MapPair.bytes, numberPair, List.append_assoc]

theorem closed_settles {written closed : MpWriter} {buf : WtfBuffer UInt8}
    (first : IprotoWriter.finalize mp written = .returned () closed)
    (second : IprotoWriter.finalize mp closed = .returned () (MpWriter.ofBuffer buf))
    (two : written.openedContainers.items.length = 2)
    (one : closed.openedContainers.items.length = 1) {count : Nat} (few : count ≤ 2) :
    ∃ after, Cxx.forEach (fun _ => IprotoWriter.finalize mp) (List.replicate count ()) written =
        .returned () after ∧ Settles mp after buf := by
  have last := settles_after second one (settles_nothing buf)
  have cases : count = 0 ∨ count = 1 ∨ count = 2 := by omega
  rcases cases with rfl | rfl | rfl
  · exact ⟨written, rfl, settles_after first (by rw [two, one]) last⟩
  · exact ⟨closed, Cxx.bind_returned first _, last⟩
  · exact ⟨_, (Cxx.bind_returned first _).trans (Cxx.bind_returned second _), settles_nothing buf⟩

theorem composed_step (implements : Implements mp) (valid : composed.Valid mp)
    {writer : MpWriter} {buf : WtfBuffer UInt8} (settles : Settles mp writer buf) {need : Nat}
    (roomy : Roomy buf ((frame (composed.response mp).bytes).length + need)) :
    ∃ after, composed.run mp writer = .returned () after ∧
      Settles mp after ((reserved buf).push (frame (composed.response mp).bytes)) := by
  have started := start_returned implements settles roomy
  have enough := (reserved_roomy roomy).1.enough
  obtain ⟨written, closed, ran, first, second, two, one⟩ := container_drafted implements
    .map (composed.head mp) composed.maxCardinality composed.fields valid.body valid.shallow
    (reserved buf) valid.short (Nat.le_trans (Nat.le_add_right _ _) enough)
  obtain ⟨after, ended, settled⟩ := closed_settles first second two one valid.few
  refine ⟨after, ?_, settled⟩
  rw [run, response_header_emitted implements, bind_assoc, Cxx.bind_returned started]
  have whole := (Cxx.bind_returned ran fun _ => Cxx.forEach (fun _ => IprotoWriter.finalize mp)
    (List.replicate composed.finalized ())).trans ended
  simpa only [WriterOp.exec, bind_assoc] using whole

end Writing
end Composed

/-- What one side composes. -/
inductive Message where
  | asks (request : Request) (sync : UInt64)
  | answers (composed : Composed)

namespace Message
variable (mp : Msgpuck) (crypto : Crypto)

def run : Message → Write Unit
  | .asks request sync => request.run mp crypto sync
  | .answers composed => composed.run mp

def payload : Message → Bytes
  | .asks request sync => request.payload mp crypto sync
  | .answers composed => (composed.response mp).bytes

def Valid : Message → Prop
  | .asks request sync => request.Valid mp crypto sync
  | .answers composed => composed.Valid mp

def composeAll (messages : List Message) : Write Unit :=
  Cxx.forEach (fun message => message.run mp crypto) messages

end Message

section Messages
variable {mp : Msgpuck} {writer : MpWriter} {buf : WtfBuffer UInt8}

theorem message_step (implements : Implements mp) (crypto : Crypto) (message : Message)
    (valid : message.Valid mp crypto) (settles : Settles mp writer buf) {need : Nat}
    (roomy : Roomy buf ((frame (message.payload mp crypto)).length + need)) :
    ∃ after, message.run mp crypto writer = .returned () after ∧
      Settles mp after ((reserved buf).push (frame (message.payload mp crypto))) := by
  cases message with
  | asks request sync => exact request_step implements crypto request sync valid settles roomy
  | answers composed => exact composed.composed_step implements valid settles roomy

theorem messages_run (implements : Implements mp) (crypto : Crypto) (messages : List Message)
    (valid : ∀ message ∈ messages, message.Valid mp crypto) (settles : Settles mp writer buf)
    (roomy : Roomy buf (frames (messages.map (Message.payload mp crypto))).length) :
    ∃ after settled, Message.composeAll mp crypto messages writer = .returned () after ∧
      Settles mp after settled ∧
      settled.content = buf.content ++ frames (messages.map (Message.payload mp crypto)) := by
  induction messages generalizing writer buf with
  | nil => exact ⟨writer, buf, rfl, settles, (List.append_nil _).symm⟩
  | cons message messages ih =>
      rw [List.map_cons, frames_cons, List.length_append] at roomy
      obtain ⟨one, others⟩ := List.forall_mem_cons.mp valid
      obtain ⟨middle, ran, reached⟩ := message_step implements crypto message one settles roomy
      obtain ⟨after, settled, rest, final, content⟩ := ih others reached
        ((reserved_roomy roomy).1.push _)
      refine ⟨after, settled, (Cxx.bind_returned ran _).trans rest, final, ?_⟩
      rw [content, WtfBuffer.push_content, reserved_content, List.map_cons, frames_cons,
        List.append_assoc]

theorem messages_written (implements : Implements mp) (crypto : Crypto) (messages : List Message)
    (valid : ∀ message ∈ messages, message.Valid mp crypto)
    (roomy : Roomy buf (frames (messages.map (Message.payload mp crypto))).length) :
    ∃ settled, (do
        Message.composeAll mp crypto messages
        IprotoWriter.finalizeAll mp) (MpWriter.ofBuffer buf) =
        .returned () (MpWriter.ofBuffer settled) ∧
      settled.content = buf.content ++ frames (messages.map (Message.payload mp crypto)) := by
  obtain ⟨after, settled, ran, final, content⟩ := messages_run implements crypto messages valid
    (settles_nothing buf) roomy
  exact ⟨settled, (Cxx.bind_returned ran _).trans final, content⟩

theorem message_sized {mp : Msgpuck} {crypto : Crypto} {message : Message}
    (valid : message.Valid mp crypto) : Sized (message.payload mp crypto) := by
  cases message with
  | asks request sync =>
      exact @payload_sized mp crypto [(request, sync)] (by
        intro other member
        rw [List.mem_singleton.mp member]
        exact valid) _ List.mem_cons_self
  | answers composed => exact Composed.response_sized valid

/-- Requests and responses composed in any order over one buffer: the walk finds each of them, whole
and in its place. -/
theorem messages_framed (implements : Implements mp) (crypto : Crypto) (messages : List Message)
    (valid : ∀ message ∈ messages, message.Valid mp crypto) (fresh : buf.content = [])
    (roomy : Roomy buf (frames (messages.map (Message.payload mp crypto))).length) :
    ∃ sent walked, (do
        Message.composeAll mp crypto messages
        IprotoWriter.finalizeAll mp) (MpWriter.ofBuffer buf) =
        .returned () (MpWriter.ofBuffer sent) ∧
      walkMessages mp sent.content (sent.size + 1) (MpReader.plain 0 sent.size) =
        .returned walked { MpReader.plain 0 sent.size with currentPos := some sent.size } ∧
      walked.map (MpReader.slice sent.content) = messages.map (Message.payload mp crypto) := by
  obtain ⟨sent, ran, content⟩ := messages_written implements crypto messages valid roomy
  rw [fresh, List.nil_append] at content
  have many := frames_length (messages.map (Message.payload mp crypto))
  have last : sent.size = 0 + (frames (messages.map (Message.payload mp crypto))).length := by
    rw [Nat.zero_add, ← content]
    rfl
  have sized : ∀ body ∈ messages.map (Message.payload mp crypto),
      0 < body.length ∧ body.length < 2 ^ 32 := by
    intro body member
    obtain ⟨message, kept, rfl⟩ := List.mem_map.mp member
    exact message_sized (valid message kept)
  obtain ⟨walked, walks, slices⟩ : ∃ walked,
      walkMessages mp sent.content (sent.size + 1) (MpReader.plain 0 sent.size) =
        .returned walked { MpReader.plain 0 sent.size with currentPos := some sent.size } ∧
      walked.map (MpReader.slice sent.content) = messages.map (Message.payload mp crypto) := by
    rw [last]
    refine walk_frames implements _ sized 0 _ _ rfl rfl content ?_
    rw [Nat.zero_add]
    exact Nat.lt_succ_of_le many
  exact ⟨sent, walked, ran, walks, slices⟩

/-- A response without fields, and a refusal whose map and message are left open. -/
def sampleResponses : List Composed :=
  [⟨0, 0, 80, 0, [], 1⟩, ⟨1, 47, 80, 1, [.scalar (.int 0x31), .scalar (.str [0x6e, 0x6f])], 0⟩]

theorem sample_responses_valid : ∀ composed ∈ sampleResponses, composed.Valid reference := by
  intro composed member
  rcases List.mem_pair.mp member with rfl | rfl
  all_goals
    refine ⟨?_, by decide, by decide, by decide +kernel⟩
    simp [Composed.body, Doc.Valid, Doc.ValidAll, Scalar.Valid, HeaderFits, Doc.valuesAll,
      Doc.values, Container.cardinality]

theorem sample_messages_framed : ∃ sent walked, (do
      Message.composeAll reference sampleCrypto (.asks .ping 0 :: sampleResponses.map .answers)
      IprotoWriter.finalizeAll reference) (MpWriter.ofBuffer (WtfBuffer.ofSize 64)) =
      .returned () (MpWriter.ofBuffer sent) ∧
    walkMessages reference sent.content (sent.size + 1) (MpReader.plain 0 sent.size) =
      .returned walked { MpReader.plain 0 sent.size with currentPos := some sent.size } ∧
    walked.map (MpReader.slice sent.content) =
      (Message.asks .ping 0 :: sampleResponses.map .answers).map
        (Message.payload reference sampleCrypto) := by
  apply messages_framed reference_implements
  · intro message member
    rcases List.mem_cons.mp member with rfl | later
    · exact ⟨by decide +kernel, trivial⟩
    · obtain ⟨composed, kept, rfl⟩ := List.mem_map.mp later
      exact sample_responses_valid composed kept
  · rfl
  · exact ⟨by decide +kernel, .inl (WtfBuffer.of_size_owned 64)⟩

end Messages

/-- `throw_if_error`: the text it throws. -/
def throwIfError {σ : Type} (mp : Msgpuck) (mem : Bytes) (header body : MpReader) :
    Cxx Exn σ (Option Bytes) := do
  let code ← readValue mp mem Field.code.key (readIntegral mp mem .int32) header
  if code.1 = 0 then return none
  let error ← readValue mp mem protoError24 (toString mp mem 0) body
  return some error

inductive Response.Tells (mp : Msgpuck) (response : Response) (number : Nat) :
    Option Bytes → Prop
  | nothing : number = 0 → Tells mp response number none
  | message (text : Bytes) : number ≠ 0 → response.HasMessage mp text →
      Tells mp response number (some text)

section Handlers
variable {mp : Msgpuck} {Handler : Type} {response : Response}

theorem map_unique {count other : Nat} {front start back rest : Bytes}
    (first : HeadEncodes (.map count) front) (second : HeadEncodes (.map other) start)
    (same : front ++ back = start ++ rest) : count = other ∧ front = start ∧ back = rest := by
  have read := second rest
  rw [← same, first back] at read
  simp only [Option.some.injEq, Prod.mk.injEq, Head.map.injEq] at read
  obtain ⟨counts, rfl⟩ := read
  exact ⟨counts, List.append_cancel_right same, rfl⟩

theorem error_thrown (implements : Implements mp) (reads : ReadsItems mp)
    (formed : response.Formed) {number : Nat} (coded : response.HasCode number)
    (small : number < 2 ^ 31) {header body : MpReader} (opens : response.Opens header body)
    {told : Option Bytes} (tells : response.Tells mp number told) {σ : Type} (state : σ) :
    throwIfError mp response.bytes header body state = .returned told state := by
  obtain ⟨rfl, front, fields, shape, headed, -, rfl⟩ := opens
  obtain ⟨-, value, first, encodes⟩ := coded
  have bounded : (number : Int) ≤ IntType.int32.max := by
    change (number : Int) ≤ 2 ^ 31 - 1
    omega
  let code : IntType.int32.Val :=
    ⟨number, Int.le_trans (IntType.min_nonpos _) (Int.natCast_nonneg _), bounded⟩
  have behind : response.bytes.drop response.front.length =
      pairsBytes response.header ++ response.body := by
    rw [Response.bytes, List.append_assoc, List.drop_left]
  have read := value_found implements formed.pairs first behind (fun object rest _ _ here => by
    obtain ⟨found, same, reads⟩ := number_read implements .int32 encodes bounded here
    exact ⟨_, (Subtype.ext same : found = code) ▸ reads⟩) state
  rw [← List.length_append] at read
  rw [throwIfError, Cxx.bind_returned read]
  cases tells with
  | nothing zero =>
      rw [if_pos (by change (number : Int) = 0; omega)]
      rfl
  | message text failed message =>
      rw [if_neg (by change (number : Int) ≠ 0; omega)]
      obtain ⟨start, errors, field, item, split, begun, pairs, named, stored, prints⟩ := message
      obtain ⟨count, rfl, same⟩ := map_unique headed begun (shape.symm.trans split)
      have place : response.bytes.drop
          ((response.front ++ pairsBytes response.header).length + front.length) =
          pairsBytes errors ++ [] := by
        rw [← List.drop_drop, Response.bytes, List.drop_left, split, List.drop_left,
          List.append_nil]
      have found := value_found implements pairs named place (fun object rest _ _ here =>
        ⟨_, item_printed implements reads stored here prints⟩) state
      have last : (response.front ++ pairsBytes response.header).length + front.length +
          (pairsBytes errors).length = response.bytes.length := by
        simp only [Response.bytes, split, List.length_append]
        omega
      rw [last, ← count] at found
      rw [Cxx.bind_returned found]
      rfl

end Handlers

theorem response_code_small {errorCode : UInt32} (small : errorCode.toNat < 2 ^ 31) :
    (responseCode errorCode).toNat < 2 ^ 31 := by
  rw [responseCode]
  split
  · rw [UInt32.toNat_or]
    exact Nat.or_lt_two_pow (by decide) small
  · decide

/-- Responses that are composed one after another are settled one after another, each under its own
number, and what a handler then throws is decided by the code they were composed with. -/
theorem responses_told {mp : Msgpuck} {Handler : Type} (implements : Implements mp)
    (reads : ReadsItems mp) (crypto : Crypto) (responses : List Composed)
    (valid : ∀ composed ∈ responses, composed.Valid mp) {buf : WtfBuffer UInt8}
    (fresh : buf.content = [])
    (roomy : Roomy buf
      (frames (responses.map fun composed => (composed.response mp).bytes)).length)
    (sides : Sides Handler) :
    ∃ sent after, (do
        Message.composeAll mp crypto (responses.map Message.answers)
        IprotoWriter.finalizeAll mp) (MpWriter.ofBuffer buf) =
        .returned () (MpWriter.ofBuffer sent) ∧
      sides.onResponse mp sent.content = some (after, ⟨true, none⟩) ∧
      AllAnswered (responses.map fun composed => (composed.sync, composed.response mp))
        sides after ∧
      ∀ composed ∈ responses, ∀ header body told, (composed.response mp).Opens header body →
        composed.errorCode.toNat < 2 ^ 31 →
        (composed.response mp).Tells mp (responseCode composed.errorCode).toNat told →
        throwIfError mp (composed.response mp).bytes header body () = .returned told () := by
  have payloads : (responses.map Message.answers).map (Message.payload mp crypto) =
      responses.map fun composed => (composed.response mp).bytes := by
    rw [List.map_map]
    rfl
  have formed : ∀ answer ∈ responses.map fun composed => (composed.sync, composed.response mp),
      Synced.Formed answer := by
    intro answer member
    obtain ⟨composed, kept, rfl⟩ := List.mem_map.mp member
    exact composed.response_answers implements (valid composed kept)
  obtain ⟨sent, ran, content⟩ := messages_written implements crypto
    (responses.map Message.answers) (by
      intro message member
      obtain ⟨composed, kept, rfl⟩ := List.mem_map.mp member
      exact valid composed kept) (payloads ▸ roomy)
  rw [payloads, fresh, List.nil_append] at content
  have whole : sent.content = frames ((responses.map fun composed =>
      (composed.sync, composed.response mp)).map Synced.bytes) := by
    rw [content, List.map_map]
    rfl
  obtain ⟨after, called, settled⟩ := on_response_answered implements _ formed whole sides
  refine ⟨sent, after, ran, called, settled, ?_⟩
  intro composed member header body told opens small tells
  exact error_thrown implements reads composed.response_formed composed.response_coded
    (response_code_small small) opens tells ()

theorem sample_responses_told : ∃ sent after, (do
      Message.composeAll reference sampleCrypto (sampleResponses.map Message.answers)
      IprotoWriter.finalizeAll reference) (MpWriter.ofBuffer (WtfBuffer.ofSize 64)) =
      .returned () (MpWriter.ofBuffer sent) ∧
    ((⟨.empty, []⟩ : Sides Nat).setHandler 1 7).onResponse reference sent.content =
      some (after, ⟨true, none⟩) ∧
    AllAnswered (sampleResponses.map fun composed => (composed.sync, composed.response reference))
      ((⟨.empty, []⟩ : Sides Nat).setHandler 1 7) after := by
  obtain ⟨sent, after, ran, called, settled, _⟩ := responses_told reference_implements
    reference_reads_items sampleCrypto sampleResponses sample_responses_valid
    (rfl : (WtfBuffer.ofSize 64).content = [])
    ⟨by decide +kernel, .inl (WtfBuffer.of_size_owned 64)⟩
    ((⟨.empty, []⟩ : Sides Nat).setHandler 1 7)
  exact ⟨sent, after, ran, called, settled⟩

namespace ProtoId

/-- The entries `encode_id_request` writes, as the reader of the answer takes them. -/
def written (proto : ProtoId) : List IdEntry :=
  (if proto.version = 0 then []
    else [.version proto.version.toNat (encodeUint Field.version.key)
      (encodeUint proto.version.toNat)]) ++
  [.features (proto.listFeatures.map fun feature => (feature, encodeUint feature))
    (encodeUint Field.features.key) (encodeArrayHead proto.listFeatures.length)] ++
  (if proto.auth.isEmpty then []
    else [.authType proto.auth (encodeUint Field.authType.key) (encodeStrHead proto.auth.length)])

/-- What is known of a server after it has told about itself. -/
def learns (server told : ProtoId) : ProtoId where
  version := if told.version = 0 then server.version else told.version
  auth := if told.auth.isEmpty then server.auth else told.auth
  features := server.features ||| (told.features &&& 0b11111)

theorem written_text (proto : ProtoId) :
    encodeMapHead proto.written.length ++ (proto.written.flatMap IdEntry.items).flatten =
      entriesText (idEntries proto) := by
  have same : (proto.listFeatures.map fun feature => (feature, encodeUint feature)).map (·.2) =
      proto.listFeatures.map encodeUint := by
    rw [List.map_map]
    rfl
  by_cases version : proto.version = 0 <;> by_cases auth : proto.auth.isEmpty = true
  all_goals
    simp [written, idEntries, entriesText, version, auth, IdEntry.items, IdEntry.key,
      IdEntry.value, strText, same, List.append_assoc]

theorem written_formed (proto : ProtoId) (short : proto.auth.length < 2 ^ 32) :
    ∀ entry ∈ proto.written, entry.Formed := by
  intro entry member
  simp only [written, List.mem_append] at member
  rcases member with (version | features) | auth
  · split_ifs at version
    · cases version
    · obtain rfl := List.mem_singleton.mp version
      exact ⟨encode_uint_head _ (by decide), encode_uint_head _ proto.version.toNat_lt,
        proto.version.toNat_lt⟩
  · obtain rfl := List.mem_singleton.mp features
    have few := list_features_length proto
    refine ⟨encode_uint_head _ (by decide), ?_, ?_⟩
    · rw [List.length_map]
      exact encode_array_head _ (by omega)
    · intro number kept
      obtain ⟨feature, listed, rfl⟩ := List.mem_map.mp kept
      have small := list_features_small proto feature listed
      exact ⟨encode_uint_head feature (by omega), by omega⟩
  · split_ifs at auth
    · cases auth
    · obtain rfl := List.mem_singleton.mp auth
      exact ⟨encode_uint_head _ (by decide), encode_str_head _ short⟩

theorem features_set (numbers : List Nat) (features : BitVec 32) (index : Nat) (small : index < 32) :
    (numbers.foldl IdEntry.setFeature features).getLsbD index =
      (features.getLsbD index || decide (index ∈ numbers)) := by
  induction numbers generalizing features with
  | nil => simp
  | cons number numbers ih =>
      rw [List.foldl_cons, ih, IdEntry.setFeature]
      by_cases same : index = number
      · subst same
        simp [small]
      · by_cases bounded : number < 32
        · have other : (1#32 <<< number).getLsbD index = false := by
            simp [BitVec.getLsbD_one]
            omega
          simp [bounded, other, same]
        · simp [bounded, same]

theorem written_learned (server proto : ProtoId) :
    proto.written.foldl IdEntry.apply server = server.learns proto := by
  have numbers : (proto.listFeatures.map fun feature => (feature, encodeUint feature)).map (·.1) =
      proto.listFeatures := by
    rw [List.map_map]
    exact List.map_id _
  have features : proto.listFeatures.foldl IdEntry.setFeature server.features =
      server.features ||| (proto.features &&& 0b11111) := by
    apply BitVec.eq_of_getLsbD_eq
    intro index small
    have known : ∀ index < 32, (0b11111 : BitVec 32).getLsbD index =
        decide (index < featureInvalid) := by decide
    rw [features_set _ _ _ small, BitVec.getLsbD_or, BitVec.getLsbD_and, known index small]
    simp [listFeatures, small]
  by_cases version : proto.version = 0 <;> by_cases auth : proto.auth.isEmpty = true
  all_goals
    simp [written, learns, version, auth, IdEntry.apply, numbers, features]

theorem learns_all (proto : ProtoId) (known : proto.features &&& 0b11111 = proto.features) :
    (⟨0, [], 0⟩ : ProtoId).learns proto = proto := by
  obtain ⟨version, auth, features⟩ := proto
  simp only [learns, known]
  congr 1
  · split
    · rename_i zero
      exact zero.symm
    · rfl
  · split
    · rename_i empty
      exact (List.isEmpty_iff.mp empty).symm
    · rfl
  · exact BitVec.zero_or

end ProtoId

/-- What a composed response replies to a handshake. -/
inductive Composed.Replies (mp : Msgpuck) (composed : Composed) (during : State)
    (server : ProtoId) : Reply → Prop
  | granted : composed.errorCode = 0 → during ≠ .featuresRequest →
      Replies mp composed during server (.accepted 0 server)
  | identified (proto : ProtoId) : composed.errorCode = 0 → during = .featuresRequest →
      proto.auth.length < 2 ^ 32 → composed.body.bytes mp = entriesText (idEntries proto) →
      Replies mp composed during server (.accepted 0 (server.learns proto))
  | unaware : composed.errorCode ≠ 0 → during = .featuresRequest →
      composed.errorCode.toNat % 2 ^ 15 = unknownRequestType →
      Replies mp composed during server (.accepted unknownRequestType server)
  | refused (text : Bytes) : composed.errorCode ≠ 0 →
      ¬(during = .featuresRequest ∧ composed.errorCode.toNat % 2 ^ 15 = unknownRequestType) →
      (composed.response mp).HasMessage mp text →
      Replies mp composed during server (.refused text (composed.errorCode.toNat % 2 ^ 15))

section Handshakes
variable {mp : Msgpuck} {composed : Composed} {during : State} {server proto : ProtoId}
  {reply : Reply} {response : Response} {buf : WtfBuffer UInt8}

theorem identity_means (during_features : during = .featuresRequest) (coded : response.HasCode 0)
    (short : proto.auth.length < 2 ^ 32) (body : response.body = entriesText (idEntries proto)) :
    response.Means mp during server (.accepted 0 (server.learns proto)) := by
  have few : proto.written.length < 2 ^ 32 := by
    simp only [ProtoId.written]
    split_ifs <;> simp
  rw [← ProtoId.written_learned]
  exact .identified _ proto.written coded during_features (encode_map_head _ few)
    (proto.written_formed short) (body.trans proto.written_text.symm)

/-- The map that `encode_id_request` writes tells the reader of the answer all that is written
there: the version and the method unless they are empty, and the features that have names. -/
theorem identity_recovered (implements : Implements mp) (reads : ReadsItems mp) (crypto : Crypto)
    (sync : UInt64) (valid : (Request.id proto).Valid mp crypto sync)
    (roomy : Roomy buf (frame ((Request.id proto).payload mp crypto sync)).length)
    (formed : response.Formed) (sized : Sized response.bytes) (coded : response.HasCode 0)
    (body : response.body = entriesText (idEntries proto)) :
    (∃ sent, IprotoWriter.encodeIdRequest mp proto sync (MpWriter.ofBuffer buf) =
        .returned () (MpWriter.ofBuffer sent) ∧ sent.content = buf.content ++
          frame (entriesText (headerEntries .protoId sync) ++ response.body)) ∧
      (∃ reached, readReply mp (frame response.bytes) .featuresRequest server
        (MpReader.plain 0 (frame response.bytes).length) =
        .returned (.accepted 0 (server.learns proto)) reached) ∧
      (proto.features &&& 0b11111 = proto.features →
        (⟨0, [], 0⟩ : ProtoId).learns proto = proto) := by
  have authShort : proto.auth.length < 2 ^ 32 := by
    by_cases auth : proto.auth.isEmpty = true
    · rw [List.isEmpty_iff.mp auth, List.length_nil]
      omega
    · apply (str_text_length proto.auth).trans_lt
      apply entry_text_short valid.1 ⟨.authType, .str proto.auth, strText proto.auth⟩
      simp [Request.entries, idEntries, auth]
  have enough : Roomy buf ((frame ((Request.id proto).payload mp crypto sync)).length + 0) := roomy
  have emitted := (congrFun (id_emitted implements crypto proto sync authShort) _).trans
    (message_emitted implements _ valid.1 (settles_nothing buf) enough)
  refine ⟨⟨_, emitted, ?_⟩, ?_, proto.learns_all⟩
  · rw [WtfBuffer.push_content, reserved_content, body]
    rfl
  · exact reply_returned implements reads formed sized
      (identity_means rfl coded authShort body) (List.append_nil _).symm
      (Nat.zero_add _).le

/-- A response whose body is the map of a request. -/
def identityResponse : Response where
  front := [0x81]
  header := [⟨.int 0, [0x00], [0x00]⟩]
  body := entriesText (idEntries ⟨3, [0x78], 0b101⟩)

theorem sample_identity_recovered : ∃ reached,
    readReply reference (frame identityResponse.bytes) .featuresRequest ⟨0, [], 0⟩
      (MpReader.plain 0 (frame identityResponse.bytes).length) =
      .returned (.accepted 0 ⟨3, [0x78], 0b101⟩) reached := by
  have zero : Encodes (.int 0) [0x00] := encodes_plain (fix_uint_head 0 (by decide)) rfl
  have formed : identityResponse.Formed := by
    refine ⟨fix_map_head 1 (by decide), ?_⟩
    intro pair member
    rw [List.mem_singleton.mp member]
    exact ⟨zero, .int 0, zero⟩
  have coded : identityResponse.HasCode 0 :=
    ⟨by decide, _, ⟨[], _, _, rfl, fun _ member => absurd member List.not_mem_nil, rfl, rfl⟩,
      fix_uint_head 0 (by decide)⟩
  exact (@identity_recovered reference ⟨0, [], 0⟩ ⟨3, [0x78], 0b101⟩ identityResponse
    (WtfBuffer.ofSize 64) reference_implements reference_reads_items sampleCrypto 0
    ⟨by decide +kernel, trivial⟩ ⟨by decide +kernel, .inl (WtfBuffer.of_size_owned 64)⟩ formed
    (by decide +kernel) coded rfl).2.1

end Handshakes

end Cpp2tnt
