import Cpp2tnt.Frames
import Cpp2tnt.IprotoWriter

/-!
Requests composed one after another. `Settles` is the run invariant: closing
everything that is open leaves exactly the frames of the requests so far. Every
request starts by closing what the last one left, so one step lemma covers every
mixture of finished and unfinished requests.
-/

namespace Cpp2tnt
open Imperative MessagePack MpWriter

/-- A key and its value, with the text the value is written as. -/
structure Entry where
  field : Field
  value : Value
  text : Bytes

def entriesValue (entries : List Entry) : Value :=
  .map (entries.map fun entry => (.int entry.field.key, entry.value))

def entriesText (entries : List Entry) : Bytes :=
  encodeMapHead entries.length ++
    (entries.map fun entry => encodeUint entry.field.key ++ entry.text).flatten

def strText (text : Bytes) : Bytes := encodeStrHead text.length ++ text

/-- One request, as the caller composes it. The last two leave their argument
array to be closed by up to two calls of `finalize`, or by the next request. -/
inductive Request where
  | auth (greeting user password authProto : Bytes)
  | id (proto : ProtoId)
  | ping
  | call (fnName : Bytes) (args : List Doc)
  | eval (script : Bytes) (args : List Doc)
  | beginCall (fnName : Bytes) (maxCardinality : Nat) (args : List Doc) (finalized : Nat)
  | beginEval (script : Bytes) (maxCardinality : Nat) (args : List Doc) (finalized : Nat)

def Request.type : Request → RequestType
  | .auth _ _ _ _ => .auth
  | .id _ => .protoId
  | .ping => .ping
  | .call _ _ | .beginCall _ _ _ _ => .call
  | .eval _ _ | .beginEval _ _ _ _ => .eval

section Requests
variable (mp : Msgpuck) (crypto : Crypto)

def openArguments (maxCardinality : Nat) (args : List Doc) (finalized : Nat) : Write Unit := do
  beginArray mp maxCardinality
  execAll mp (Doc.opsAll args)
  Cxx.forEach (fun _ => IprotoWriter.finalize mp) (List.replicate finalized ())

def Request.run (sync : UInt64) : Request → Write Unit
  | .auth greeting user password authProto =>
      IprotoWriter.encodeAuthRequest mp crypto greeting user password authProto sync
  | .id proto => IprotoWriter.encodeIdRequest mp proto sync
  | .ping => IprotoWriter.encodePingRequest mp sync
  | .call fnName args => IprotoWriter.call mp fnName args sync
  | .eval script args => IprotoWriter.eval mp script args sync
  | .beginCall fnName maxCardinality args finalized => do
      IprotoWriter.beginCall mp fnName sync
      openArguments mp maxCardinality args finalized
  | .beginEval script maxCardinality args finalized => do
      IprotoWriter.beginEval mp script sync
      openArguments mp maxCardinality args finalized

def argumentEntries (field : Field) (text : Bytes) (maxCardinality : Nat) (args : List Doc) :
    List Entry :=
  [⟨field, .str text, strText text⟩,
    ⟨.tuple, .array (Doc.valuesAll args), (Doc.container .array maxCardinality args).bytes mp⟩]

def authEntries (greeting user password authProto : Bytes) : List Entry :=
  let salt := crypto.base64Decode
    (((greeting.drop versionSize).take (scrambleSize + saltSize)).take saltSize) 64
  let scramble := scramblePrepare crypto salt password
  [⟨.userName, .str user, strText user⟩,
    ⟨.tuple, .array [.str authProto, .str scramble],
      encodeArrayHead 2 ++ (strText authProto ++ strText scramble)⟩]

def idEntries (proto : ProtoId) : List Entry :=
  (if proto.version = 0 then []
    else [⟨.version, .int proto.version.toNat, encodeUint proto.version.toNat⟩]) ++
  [⟨.features, .array (proto.listFeatures.map fun (feature : Nat) => .int feature),
    encodeArrayHead proto.listFeatures.length ++
      (proto.listFeatures.map encodeUint).flatten⟩] ++
  (if proto.auth.isEmpty then [] else [⟨.authType, .str proto.auth, strText proto.auth⟩])

def Request.entries : Request → List Entry
  | .auth greeting user password authProto => authEntries crypto greeting user password authProto
  | .id proto => idEntries proto
  | .ping => []
  | .call fnName args => argumentEntries mp .functionName fnName args.length args
  | .eval script args => argumentEntries mp .expression script args.length args
  | .beginCall fnName maxCardinality args _ =>
      argumentEntries mp .functionName fnName maxCardinality args
  | .beginEval script maxCardinality args _ =>
      argumentEntries mp .expression script maxCardinality args

def headerEntries (type : RequestType) (sync : UInt64) : List Entry :=
  [⟨.code, .int type.code, encodeUint type.code⟩,
    ⟨.sync, .int sync.toNat, encodeUint sync.toNat⟩]

def Request.payload (sync : UInt64) (request : Request) : Bytes :=
  entriesText (headerEntries request.type sync) ++ entriesText (request.entries mp crypto)

def ValidArguments (maxCardinality : Nat) (args : List Doc) (finalized : Nat) : Prop :=
  (Doc.container .array maxCardinality args).Valid ∧ Doc.depthAll args ≤ 14 ∧ finalized ≤ 2

def Request.Valid (sync : UInt64) (request : Request) : Prop :=
  (frame (request.payload mp crypto sync)).length < 2 ^ 32 ∧
  match request with
  | .auth _ _ _ _ | .id _ | .ping => True
  | .call _ args | .eval _ args => ValidArguments args.length args 0
  | .beginCall _ maxCardinality args finalized | .beginEval _ maxCardinality args finalized =>
      ValidArguments maxCardinality args finalized

end Requests

theorem EncodesAll.of_texts {values : List Value} {texts : List Bytes}
    (encodes : List.Forall₂ Encodes values texts) : EncodesAll values texts.flatten := by
  induction encodes with
  | nil => exact encodes_all_nil
  | cons first _ ih => exact encodes_all_cons first ih

theorem uint_encodes (number : Nat) (bounded : number < 2 ^ 64) :
    Encodes (.int number) (encodeUint number) :=
  encodes_plain (encode_uint_head number bounded) rfl

theorem str_encodes (text : Bytes) (bounded : text.length < 2 ^ 32) :
    Encodes (.str text) (strText text) :=
  encodes_str (encode_str_head text.length bounded)

theorem field_encodes (field : Field) : Encodes (.int field.key) (encodeUint field.key) := by
  apply uint_encodes
  cases field <;> decide

def entryItems (entries : List Entry) : List Value :=
  entries.flatMap fun entry => [.int entry.field.key, entry.value]

theorem entry_items_length (entries : List Entry) :
    (entryItems entries).length = 2 * entries.length := by
  induction entries with
  | nil => rfl
  | cons entry entries ih =>
      rw [entryItems, List.flatMap_cons, List.length_append, ← entryItems, ih]
      simp only [List.length_cons, List.length_nil]
      omega

theorem entry_items_paired (entries : List Entry) :
    pairUp (entryItems entries) =
      entries.map fun entry => ((.int entry.field.key : Value), entry.value) := by
  induction entries with
  | nil => rfl
  | cons entry entries ih =>
      rw [List.map_cons, ← ih]
      rfl

theorem entry_items_encode (entries : List Entry)
    (encodes : ∀ entry ∈ entries, Encodes entry.value entry.text) :
    EncodesAll (entryItems entries)
      (entries.map fun entry => encodeUint entry.field.key ++ entry.text).flatten := by
  induction entries with
  | nil => exact encodes_all_nil
  | cons entry entries ih =>
      rw [entryItems, List.flatMap_cons, List.map_cons, List.flatten_cons]
      apply encodes_all_append
      · exact encodes_all_cons (field_encodes entry.field)
          (encodes_all_singleton (encodes entry List.mem_cons_self))
      · exact ih fun other kept => encodes other (List.mem_cons_of_mem entry kept)

theorem entries_encode (entries : List Entry) (few : entries.length < 2 ^ 32)
    (encodes : ∀ entry ∈ entries, Encodes entry.value entry.text) :
    Encodes (entriesValue entries) (entriesText entries) := by
  have whole := encodes_map (encode_map_head entries.length few) (entry_items_length entries)
    (entry_items_encode entries encodes)
  rw [entry_items_paired] at whole
  exact whole

theorem header_encodes (type : RequestType) (sync : UInt64) :
    Encodes (entriesValue (headerEntries type sync)) (entriesText (headerEntries type sync)) := by
  have code : type.code < 2 ^ 64 := by cases type <;> decide
  apply entries_encode _ (by simp [headerEntries])
  intro entry kept
  rcases List.mem_pair.mp kept with rfl | rfl
  · exact uint_encodes type.code code
  · exact uint_encodes sync.toNat sync.toNat_lt

theorem entry_text_le (entries : List Entry) (entry : Entry) (kept : entry ∈ entries) :
    entry.text.length ≤ (entriesText entries).length := by
  have inside := List.Sublist.length_le (List.sublist_flatten_of_mem
    (List.mem_map.mpr ⟨entry, kept, rfl⟩ :
      encodeUint entry.field.key ++ entry.text ∈
        entries.map fun entry => encodeUint entry.field.key ++ entry.text))
  rw [List.length_append] at inside
  rw [entriesText, List.length_append]
  omega

theorem entry_text_short {mp : Msgpuck} {crypto : Crypto} {request : Request} {sync : UInt64}
    (short : (frame (request.payload mp crypto sync)).length < 2 ^ 32) (entry : Entry)
    (kept : entry ∈ request.entries mp crypto) : entry.text.length < 2 ^ 32 := by
  have inside := entry_text_le _ entry kept
  rw [frame_length, Request.payload, List.length_append] at short
  omega

theorem str_text_length (text : Bytes) : text.length ≤ (strText text).length := by
  rw [strText, List.length_append]
  omega

theorem list_features_length (proto : ProtoId) : proto.listFeatures.length ≤ 32 := by
  have bounded := List.length_filter_le
    (fun index => proto.features.getLsbD index && decide (index < featureInvalid)) (List.range 32)
  rwa [List.length_range] at bounded

theorem list_features_small (proto : ProtoId) (feature : Nat)
    (kept : feature ∈ proto.listFeatures) : feature < 32 := by
  have inside := (List.mem_filter.mp kept).1
  exact List.mem_range.mp inside

theorem id_entries_encode (proto : ProtoId)
    (short : ∀ entry ∈ idEntries proto, entry.text.length < 2 ^ 32) (entry : Entry)
    (kept : entry ∈ idEntries proto) : Encodes entry.value entry.text := by
  have bounded := short entry kept
  simp only [idEntries, List.mem_append] at kept
  rcases kept with (version | features) | auth
  · split_ifs at version
    · cases version
    · obtain rfl := List.mem_singleton.mp version
      exact uint_encodes _ proto.version.toNat_lt
  · obtain rfl := List.mem_singleton.mp features
    have few := list_features_length proto
    apply encodes_array
    · rw [List.length_map]
      exact encode_array_head _ (by omega)
    · apply EncodesAll.of_texts
      rw [List.forall₂_map_left_iff, List.forall₂_map_right_iff, List.forall₂_same]
      intro feature listed
      have small := list_features_small proto feature listed
      exact uint_encodes feature (by omega)
  · split_ifs at auth
    · cases auth
    · obtain rfl := List.mem_singleton.mp auth
      exact str_encodes proto.auth ((str_text_length proto.auth).trans_lt bounded)

theorem encodes_of_singleton {value : Value} {bytes : Bytes} (encodes : EncodesAll [value] bytes) :
    Encodes value bytes := by
  obtain ⟨front, back, rfl, first, rest⟩ := encodes
  cases rest
  rwa [List.append_nil]

theorem argument_entries_encode {mp : Msgpuck} (implements : Implements mp) (field : Field)
    (text : Bytes) (maxCardinality : Nat) (args : List Doc)
    (valid : (Doc.container .array maxCardinality args).Valid)
    (short : ∀ entry ∈ argumentEntries mp field text maxCardinality args,
      entry.text.length < 2 ^ 32) (entry : Entry)
    (kept : entry ∈ argumentEntries mp field text maxCardinality args) :
    Encodes entry.value entry.text := by
  have bounded := short entry kept
  rcases List.mem_pair.mp kept with rfl | rfl
  · exact str_encodes text ((str_text_length text).trans_lt bounded)
  · have encodes := doc_encodes implements _ valid
    rw [Doc.values] at encodes
    exact encodes_of_singleton encodes

theorem auth_entries_encode (crypto : Crypto) (greeting user password authProto : Bytes)
    (short : ∀ entry ∈ authEntries crypto greeting user password authProto,
      entry.text.length < 2 ^ 32) (entry : Entry)
    (kept : entry ∈ authEntries crypto greeting user password authProto) :
    Encodes entry.value entry.text := by
  have bounded := short entry kept
  rcases List.mem_pair.mp kept with rfl | rfl
  · exact str_encodes user ((str_text_length user).trans_lt bounded)
  · simp only [List.length_append] at bounded
    apply encodes_array
    · exact encode_array_head 2 (by omega)
    · apply encodes_all_cons
      · exact str_encodes authProto ((str_text_length authProto).trans_lt (by omega))
      · apply encodes_all_singleton
        apply str_encodes
        exact (str_text_length _).trans_lt (by omega)

theorem body_encodes {mp : Msgpuck} (implements : Implements mp) (crypto : Crypto)
    (request : Request) (sync : UInt64) (valid : request.Valid mp crypto sync) :
    Encodes (entriesValue (request.entries mp crypto))
      (entriesText (request.entries mp crypto)) := by
  have short := entry_text_short valid.1
  cases request with
  | auth greeting user password authProto =>
      apply entries_encode _ (by simp [Request.entries, authEntries])
      exact auth_entries_encode crypto greeting user password authProto short
  | id proto =>
      apply entries_encode
      · simp only [Request.entries, idEntries]
        split_ifs <;> simp
      · exact id_entries_encode proto short
  | ping =>
      apply entries_encode _ (by simp [Request.entries])
      intro entry kept
      cases kept
  | call text args | eval text args =>
      apply entries_encode _ (by simp [Request.entries, argumentEntries])
      exact argument_entries_encode implements _ text args.length args valid.2.1 short
  | beginCall text maxCardinality args _ | beginEval text maxCardinality args _ =>
      apply entries_encode _ (by simp [Request.entries, argumentEntries])
      exact argument_entries_encode implements _ text maxCardinality args valid.2.1 short

section Emission
variable {mp : Msgpuck}

theorem emit_append (front back : Bytes) :
    (do emit front; emit back) = emit (front ++ back) := by
  funext writer
  by_cases room : front.length ≤ writer.buf.available
  · rw [Cxx.bind_returned (emit_returned front writer room)]
    have left : ({ writer with buf := writer.buf.push front } : MpWriter).buf.available =
        writer.buf.available - front.length := WtfBuffer.push_available front writer.buf
    by_cases more : back.length ≤ writer.buf.available - front.length
    · rw [emit_returned back _ (by rwa [left]),
        emit_returned (front ++ back) writer (by rw [List.length_append]; omega),
        WtfBuffer.push_push]
    · rw [emit_undefined back _ (by rwa [left]),
        emit_undefined (front ++ back) writer (by rw [List.length_append]; omega)]
  · rw [Cxx.bind_run, emit_undefined front writer room,
      emit_undefined (front ++ back) writer (by rw [List.length_append]; omega)]

theorem emit_emit (front back : Bytes) (rest : Write Unit) :
    (do emit front; emit back; rest) = (do emit (front ++ back); rest) := by
  rw [← emit_append, bind_assoc]

theorem for_each_emit (encode : Nat → Bytes) (items : List Nat) :
    Cxx.forEach (fun item => emit (encode item)) items = emit (items.map encode).flatten := by
  induction items with
  | nil =>
      funext writer
      rw [Cxx.forEach_nil, List.map_nil, List.flatten_nil, emit_returned [] writer (Nat.zero_le _),
        WtfBuffer.push_nil]
  | cons item items ih =>
      rw [List.map_cons, List.flatten_cons, ← emit_append, ← ih]
      rfl

theorem narrow_short (text : Bytes) (short : text.length < 2 ^ 32) : narrow text = text := by
  rw [narrow, Nat.mod_eq_of_lt short, List.take_length]

theorem mp_field (implements : Implements mp) (field : Field) :
    mp.mpEncodeUint field.key = encodeUint field.key := by
  apply implements.encodeUint
  cases field <;> decide

theorem mp_str (implements : Implements mp) (text : Bytes) (short : text.length < 2 ^ 32) :
    mp.mpEncodeStr (narrow text) = strText text := by
  rw [narrow_short text short, implements.encodeStr text short, strText]

theorem header_emitted (implements : Implements mp) (type : RequestType) (sync : UInt64) :
    IprotoWriter.encodeRequestHeader mp type sync = (do
      IprotoWriter.startMessage mp
      emit (entriesText (headerEntries type sync))) := by
  have code : type.code < 2 ^ 64 := by cases type <;> decide
  simp only [IprotoWriter.encodeRequestHeader, emit_append, mp_field implements,
    implements.encodeMap 2 (by omega), implements.encodeUint _ code,
    implements.encodeUint _ sync.toNat_lt]
  simp [entriesText, headerEntries, List.append_assoc]

def emitMessage (mp : Msgpuck) (payload : Bytes) : Write Unit := do
  IprotoWriter.startMessage mp
  emit payload
  IprotoWriter.finalize mp

theorem ping_emitted (implements : Implements mp) (crypto : Crypto) (sync : UInt64) :
    Request.run mp crypto sync .ping = emitMessage mp (Request.payload mp crypto sync .ping) := by
  simp only [Request.run, IprotoWriter.encodePingRequest, header_emitted implements, bind_assoc,
    emit_emit, implements.encodeMap 0 (by omega)]
  rfl

theorem auth_emitted (implements : Implements mp) (crypto : Crypto)
    (greeting user password authProto : Bytes) (sync : UInt64)
    (userShort : user.length < 2 ^ 32) (protoShort : authProto.length < 2 ^ 32) :
    Request.run mp crypto sync (.auth greeting user password authProto) =
      emitMessage mp (Request.payload mp crypto sync (.auth greeting user password authProto)) := by
  have length : (scramblePrepare crypto (crypto.base64Decode
      (((greeting.drop versionSize).take (scrambleSize + saltSize)).take saltSize) 64)
      password).length = scrambleSize := by
    simp [scramblePrepare]
  simp only [Request.run, IprotoWriter.encodeAuthRequest, header_emitted implements, bind_assoc,
    emit_emit, mp_field implements, mp_str implements _ protoShort,
    Nat.mod_eq_of_lt userShort, implements.encodeMap 2 (by omega),
    implements.encodeArray 2 (by omega), implements.encodeStrl _ userShort,
    implements.encodeStrl scrambleSize (by decide), emitMessage]
  simp [Request.payload, Request.entries, Request.type, entriesText, authEntries, strText, length,
    List.append_assoc]

theorem id_emitted (implements : Implements mp) (crypto : Crypto) (proto : ProtoId)
    (sync : UInt64) (authShort : proto.auth.length < 2 ^ 32) :
    Request.run mp crypto sync (.id proto) =
      emitMessage mp (Request.payload mp crypto sync (.id proto)) := by
  have few := list_features_length proto
  have features : proto.listFeatures.map mp.mpEncodeUint =
      proto.listFeatures.map encodeUint := by
    apply List.map_congr_left
    intro feature listed
    have small := list_features_small proto feature listed
    exact implements.encodeUint feature (by omega)
  have array := implements.encodeArray proto.listFeatures.length (by omega)
  simp only [Request.run, IprotoWriter.encodeIdRequest, header_emitted implements, bind_assoc,
    mp_field implements, mp_str implements _ authShort, for_each_emit, features, array,
    implements.encodeUint _ proto.version.toNat_lt, emitMessage]
  by_cases version : proto.version = 0 <;> by_cases auth : proto.auth.isEmpty = true
  all_goals
    simp only [version, auth, ne_eq, not_true_eq_false, not_false_eq_true, if_true, if_false,
      Bool.not_true, Bool.false_eq_true, Bool.not_false, emit_emit]
    simp [implements.encodeMap, Request.payload, Request.entries, Request.type, entriesText,
      idEntries, version, auth, List.append_assoc]

theorem begin_emitted (implements : Implements mp) (type : RequestType) (field : Field)
    (text : Bytes) (sync : UInt64) (short : text.length < 2 ^ 32) :
    IprotoWriter.beginRequest mp type field text sync = (do
      IprotoWriter.startMessage mp
      emit (entriesText (headerEntries type sync) ++ (encodeMapHead 2 ++
        (encodeUint field.key ++ (strText text ++ encodeUint Field.tuple.key))))) := by
  simp only [IprotoWriter.beginRequest, header_emitted implements, bind_assoc, emit_append,
    mp_field implements, mp_str implements _ short, implements.encodeMap 2 (by omega)]

end Emission

/-- Room for `need` more bytes, and for the kilobyte every message reserves. -/
structure Roomy (buf : WtfBuffer UInt8) (need : Nat) : Prop where
  enough : need ≤ buf.available
  slack : buf.Owned ∨ need + 1024 ≤ buf.available

/-- The buffer after the reservation of `start_message`. -/
def reserved (buf : WtfBuffer UInt8) : WtfBuffer UInt8 :=
  if buf.available < 1024 then buf.extend (buf.capacity + 1024) else buf

theorem reserved_content (buf : WtfBuffer UInt8) : (reserved buf).content = buf.content := by
  unfold reserved
  split_ifs
  · exact WtfBuffer.extend_content _ _
  · rfl

theorem extend_available (buf : WtfBuffer UInt8) (size : Nat) (larger : buf.capacity ≤ size) :
    (buf.extend size).available = buf.available + (size - buf.capacity) := by
  have grown := WtfBuffer.extend_capacity size buf
  have same := congrArg List.length (WtfBuffer.extend_content size buf)
  simp only [WtfBuffer.capacity, WtfBuffer.available] at grown same larger ⊢
  omega

theorem reserved_roomy {buf : WtfBuffer UInt8} {need : Nat} (roomy : Roomy buf need) :
    Roomy (reserved buf) need ∧ 1024 ≤ (reserved buf).available := by
  unfold reserved
  by_cases tight : buf.available < 1024
  · rw [if_pos tight]
    have owned : buf.Owned := roomy.slack.resolve_right (by have := roomy.enough; omega)
    have more := extend_available buf (buf.capacity + 1024) (by omega)
    refine ⟨⟨?_, .inl (WtfBuffer.extend_owned _ buf owned)⟩, by omega⟩
    have enough := roomy.enough
    omega
  · rw [if_neg tight]
    exact ⟨roomy, by omega⟩

theorem Roomy.push {buf : WtfBuffer UInt8} {need : Nat} (bytes : Bytes)
    (roomy : Roomy buf (bytes.length + need)) : Roomy (buf.push bytes) need := by
  have enough := roomy.enough
  constructor
  · rw [WtfBuffer.push_available]
    omega
  · rcases roomy.slack with owned | slack
    · exact .inl (WtfBuffer.push_owned bytes buf owned (by omega))
    · right
      rw [WtfBuffer.push_available]
      omega

def Settles (mp : Msgpuck) (writer : MpWriter) (buf : WtfBuffer UInt8) : Prop :=
  IprotoWriter.finalizeAll mp writer = .returned () (MpWriter.ofBuffer buf)

def drafted (buf : WtfBuffer UInt8) : MpWriter :=
  ⟨buf.push (0xce :: (buf.spare.drop 1).take 4), ⟨[⟨buf.size, 2 ^ 32 - 1, 0⟩], by simp⟩⟩

section Running
variable {mp : Msgpuck}

theorem settles_nothing (buf : WtfBuffer UInt8) : Settles mp (MpWriter.ofBuffer buf) buf := rfl

theorem for_each_length {α β : Type} (body : Write Unit) (items : List α) (others : List β)
    (same : items.length = others.length) :
    Cxx.forEach (fun _ => body) items = Cxx.forEach (fun _ => body) others := by
  induction items generalizing others with
  | nil =>
      cases others with
      | nil => rfl
      | cons other others => cases same
  | cons item items ih =>
      cases others with
      | nil => cases same
      | cons other others =>
          have rest := ih others (by simpa using same)
          simp only [Cxx.forEach, rest]

theorem settles_after {writer closed : MpWriter} {buf : WtfBuffer UInt8}
    (step : IprotoWriter.finalize mp writer = .returned () closed)
    (one : writer.openedContainers.items.length = closed.openedContainers.items.length + 1)
    (settles : Settles mp closed buf) : Settles mp writer buf := by
  obtain ⟨top, rest, shape⟩ : ∃ top rest, writer.openedContainers.items = top :: rest :=
    List.exists_cons_of_length_eq_add_one one
  rw [shape, List.length_cons] at one
  have loop := for_each_length (IprotoWriter.finalize mp) rest closed.openedContainers.items
    (by omega)
  rw [Settles, IprotoWriter.finalizeAll, Cxx.bind_get, shape, Cxx.forEach,
    Cxx.bind_returned step, loop]
  exact settles

theorem head_drafted (implements : Implements mp) (buf : WtfBuffer UInt8)
    (room : 5 ≤ buf.available) :
    (do
      pushContainer (2 ^ 32 - 1)
      emit (mp.mpStoreU8 0xce)
      onBuffer (WtfBuffer.advance 4)) (MpWriter.ofBuffer buf) = .returned () (drafted buf) := by
  have pushed := push_container_returned (2 ^ 32 - 1) (MpWriter.ofBuffer buf) (Nat.zero_lt_succ _)
  have tag : mp.mpStoreU8 0xce = [0xce] := implements.storeU8 0xce (by omega)
  have one : ([0xce] : Bytes).length ≤ buf.available := by
    rw [List.length_singleton]
    omega
  have left : 4 ≤ (buf.push [0xce]).available := by
    rw [WtfBuffer.push_available, List.length_singleton]
    omega
  rw [Cxx.bind_returned pushed, tag, Cxx.bind_returned (emit_returned [0xce] _ one)]
  apply (on_buffer_returned (WtfBuffer.advance_returned 4 (buf.push [0xce]) left)).trans
  rw [WtfBuffer.push_push]
  rfl

theorem start_returned (implements : Implements mp) {writer : MpWriter} {buf : WtfBuffer UInt8}
    (settles : Settles mp writer buf) {need : Nat} (roomy : Roomy buf need) :
    IprotoWriter.startMessage mp writer = .returned () (drafted (reserved buf)) := by
  have free : buf.capacity - buf.size = buf.available := by
    simp [WtfBuffer.capacity, WtfBuffer.size, WtfBuffer.available]
  have ample := (reserved_roomy roomy).2
  have head := head_drafted implements (reserved buf) (by omega)
  rw [IprotoWriter.startMessage, Cxx.bind_returned settles, Cxx.bind_get]
  by_cases tight : buf.available < 1024
  · have owned : buf.Owned := roomy.slack.resolve_right (by omega)
    have grown : onBuffer (WtfBuffer.reserve (buf.capacity + 1024)) (MpWriter.ofBuffer buf) =
        .returned () (MpWriter.ofBuffer (buf.extend (buf.capacity + 1024))) :=
      on_buffer_returned (WtfBuffer.reserve_owned (buf.capacity + 1024) buf owned)
    rw [reserved, if_pos tight] at head ⊢
    rw [if_pos (by rwa [← free] at tight)]
    exact (Cxx.bind_returned grown _).trans head
  · rw [reserved, if_neg tight] at head ⊢
    rw [if_neg (by rwa [← free] at tight)]
    exact head

theorem drafted_content (buf : WtfBuffer UInt8) (room : 5 ≤ buf.available) :
    ∃ stale, stale.length = 4 ∧ (drafted buf).buf = buf.push (0xce :: stale) := by
  refine ⟨(buf.spare.drop 1).take 4, ?_, rfl⟩
  simp only [WtfBuffer.available] at room
  rw [List.length_take, List.length_drop]
  omega

theorem finalize_message (implements : Implements mp) (buf : WtfBuffer UInt8) (count : UInt32)
    (stale payload : Bytes) (width : stale.length = 4)
    (short : (frame payload).length < 2 ^ 32)
    (bounded : [(⟨buf.size, 2 ^ 32 - 1, count⟩ : ContainerMeta)].length ≤ 16) :
    IprotoWriter.finalize mp
        ⟨(buf.push (0xce :: stale)).push payload, ⟨[⟨buf.size, 2 ^ 32 - 1, count⟩], bounded⟩⟩ =
      .returned () (MpWriter.ofBuffer (buf.push (frame payload))) := by
  rw [frame_length] at short
  have loaded : ∀ opened, onBuffer (WtfBuffer.load buf.size)
      ⟨(buf.push (0xce :: stale)).push payload, opened⟩ =
      .returned 0xce ⟨(buf.push (0xce :: stale)).push payload, opened⟩ := by
    intro opened
    apply on_buffer_returned
    apply WtfBuffer.load_returned _ buf.content (stale ++ payload)
    simp
  have size : (((((buf.push (0xce :: stale)).push payload).size : Int) - buf.size) %
      2 ^ 64).toNat = payload.length + 5 := by
    simp only [WtfBuffer.size, WtfBuffer.push_content, List.length_append, List.length_cons, width]
    omega
  have word : mp.mpStoreU32 ((((payload.length + 5 : Nat) : Int) - 5) % 2 ^ 32).toNat =
      bigEndian 4 payload.length := by
    have same : ((((payload.length + 5 : Nat) : Int) - 5) % 2 ^ 32).toNat = payload.length := by
      omega
    rw [same, implements.storeU32 _ (by omega)]
  have stored := WtfBuffer.store_returned ((buf.push (0xce :: stale)).push payload)
    (buf.content ++ [0xce]) stale payload (bigEndian 4 payload.length) (by simp) (by simp [width])
  have place : buf.size + 1 = (buf.content ++ [0xce]).length := by simp [WtfBuffer.size]
  simp only [IprotoWriter.finalize, Cxx.bind_get, WtfStack.pop?]
  rw [Cxx.bind_returned (loaded _), if_pos rfl, Cxx.bind_put]
  simp only [size]
  rw [if_neg (by omega), if_neg (by omega), word, place]
  apply (on_buffer_returned stored).trans
  have head : (0xce :: stale : Bytes).length = 5 := by simp [width]
  have drops : (buf.spare.drop 5).drop payload.length = buf.spare.drop (frame payload).length := by
    rw [List.drop_drop, frame_length, Nat.add_comm]
  have text : buf.content ++ [0xce] ++ bigEndian 4 payload.length ++ payload =
      buf.content ++ frame payload := by
    simp [frame]
  simp only [MpWriter.ofBuffer, WtfBuffer.push, head, drops, text]
  rfl

theorem message_emitted (implements : Implements mp) (payload : Bytes)
    (short : (frame payload).length < 2 ^ 32) {writer : MpWriter} {buf : WtfBuffer UInt8}
    (settles : Settles mp writer buf) {need : Nat}
    (roomy : Roomy buf ((frame payload).length + need)) :
    emitMessage mp payload writer =
      .returned () (MpWriter.ofBuffer ((reserved buf).push (frame payload))) := by
  have started := start_returned implements settles roomy
  have enough := (reserved_roomy roomy).1.enough
  rw [frame_length] at enough
  obtain ⟨stale, width, text⟩ := drafted_content (reserved buf) (by omega)
  have head : (0xce :: stale : Bytes).length = 5 := by simp [width]
  have emitted := emit_returned payload (drafted (reserved buf))
    (by rw [text, WtfBuffer.push_available, head]; omega)
  have closed := finalize_message implements (reserved buf) 0 stale payload width short (by simp)
  rw [text] at emitted
  rw [emitMessage, Cxx.bind_returned started, Cxx.bind_returned emitted]
  exact closed

theorem container_byte (kind : Container) (declared : Nat) (bounded : declared < 2 ^ 32) :
    ∃ byte tail, kind.encode declared = byte :: tail ∧ byte ≠ 0xce := by
  have encodes := kind.encode_head declared bounded
  obtain ⟨byte, tail, shape⟩ := List.exists_cons_of_ne_nil encodes.ne_nil
  refine ⟨byte, tail, shape, ?_⟩
  rintro rfl
  have decoded := encodes []
  rw [shape] at decoded
  have word : decodeHead ((0xce :: tail) ++ []) = wordHead .uint 4 (tail ++ []) := rfl
  rw [word, wordHead, Option.map_eq_some_iff] at decoded
  obtain ⟨number, _, same⟩ := decoded
  cases kind <;> cases same

theorem finalize_container (kind : Container) (declared : Nat) (bounded : declared < 2 ^ 32)
    (body : Bytes) (items : Nat) (writer : MpWriter)
    (outer : writer.openedContainers.items.length < 16) :
    IprotoWriter.finalize mp ((writer.opened kind declared outer).written body items) =
      MpWriter.finalize mp ((writer.opened kind declared outer).written body items) := by
  obtain ⟨byte, tail, shape, other⟩ := container_byte kind declared bounded
  have loaded : onBuffer (WtfBuffer.load writer.buf.size)
      ((writer.opened kind declared outer).written body items) =
      .returned byte ((writer.opened kind declared outer).written body items) := by
    apply on_buffer_returned
    apply WtfBuffer.load_returned _ writer.buf.content (tail ++ body)
    simp [opened, shape]
  rw [IprotoWriter.finalize, Cxx.bind_get]
  change (do
    let head ← onBuffer (WtfBuffer.load writer.buf.size)
    _) _ = _
  rw [Cxx.bind_returned loaded, if_neg other]

theorem container_drafted (implements : Implements mp) (kind : Container) (front : Bytes)
    (declared : Nat) (docs : List Doc) (valid : (Doc.container kind declared docs).Valid)
    (shallow : Doc.depthAll docs ≤ 14) (buf : WtfBuffer UInt8)
    (short : (frame (front ++ (Doc.container kind declared docs).bytes mp)).length < 2 ^ 32)
    (room : (frame (front ++ (Doc.container kind declared docs).bytes mp)).length ≤
      buf.available) :
    ∃ written closed, (do
        emit front
        WriterOp.exec mp (.begin kind declared)
        execAll mp (Doc.opsAll docs)) (drafted buf) = .returned () written ∧
      IprotoWriter.finalize mp written = .returned () closed ∧
      IprotoWriter.finalize mp closed = .returned () (MpWriter.ofBuffer
        (buf.push (frame (front ++ (Doc.container kind declared docs).bytes mp)))) ∧
      written.openedContainers.items.length = 2 ∧ closed.openedContainers.items.length = 1 := by
  have parts := valid
  rw [Doc.Valid] at parts
  obtain ⟨inner, bounded, _, _, fits⟩ := parts
  have width := patched_head_length kind declared _ fits
  rw [frame_length, List.length_append] at room
  have size := congrArg List.length (Doc.bytes.eq_3 mp kind declared docs)
  rw [List.length_append, width] at size
  -- four bytes of no meaning stand where `finalize` will put the length
  obtain ⟨stale, four, shown⟩ := drafted_content buf (by omega)
  have head : (0xce :: stale : Bytes).length = 5 := by simp [four]
  have emitted := emit_returned front (drafted buf)
    (by rw [shown, WtfBuffer.push_available, head]; omega)
  rw [shown] at emitted
  let inside : MpWriter := { drafted buf with buf := (buf.push (0xce :: stale)).push front }
  have left : inside.buf.available = buf.available - 5 - front.length := by
    simp only [inside, WtfBuffer.push_available, head]
  have outer : inside.openedContainers.items.length < 16 := by
    change 1 < 16
    omega
  have began := begin_returned implements kind declared bounded inside outer (by omega)
  have ran := docs_run implements docs inner (inside.opened kind declared outer)
    (by simp only [opened, WtfBuffer.push_available]; omega)
    (by simp only [opened, List.length_cons, counted_opened_length]; simp [inside, drafted]; omega)
  have closed := (finalize_container kind declared bounded (Doc.bytesAll mp docs)
    (Doc.valuesAll docs).length inside outer).trans
    (close_returned implements kind declared docs valid inside outer)
  have message := finalize_message implements buf (0 + UInt32.ofNat 1) stale
    (front ++ (Doc.container kind declared docs).bytes mp) four short (by simp)
  rw [← WtfBuffer.push_push] at message
  refine ⟨_, _, ?_, closed, message, by simp [opened, inside, drafted], rfl⟩
  rw [Cxx.bind_returned emitted, Cxx.bind_returned began]
  exact ran

theorem open_arguments_returned (implements : Implements mp) (front : Bytes) (declared : Nat)
    (args : List Doc) (finalized : Nat) (valid : ValidArguments declared args finalized)
    (buf : WtfBuffer UInt8)
    (short : (frame (front ++ (Doc.container .array declared args).bytes mp)).length < 2 ^ 32)
    (room : (frame (front ++ (Doc.container .array declared args).bytes mp)).length ≤
      buf.available) :
    ∃ after, (do emit front; openArguments mp declared args finalized) (drafted buf) =
        .returned () after ∧
      Settles mp after
        (buf.push (frame (front ++ (Doc.container .array declared args).bytes mp))) := by
  obtain ⟨container, shallow, few⟩ := valid
  obtain ⟨written, closed, ran, array, message, opened, outer⟩ :=
    container_drafted implements .array front declared args container shallow buf short room
  have begun : ∀ rest : Write Unit,
      (do
        emit front
        beginArray mp declared
        execAll mp (Doc.opsAll args)
        rest) (drafted buf) = rest written := by
    intro rest
    have whole := Cxx.bind_returned ran fun _ => rest
    simpa only [WriterOp.exec, bind_assoc] using whole
  have two := settles_after message outer (settles_nothing _)
  have one := settles_after array (by rw [opened, outer]) two
  -- how many of the two open containers the caller closes itself
  have cases : finalized = 0 ∨ finalized = 1 ∨ finalized = 2 := by omega
  rcases cases with rfl | rfl | rfl
  · exact ⟨_, begun _, one⟩
  · refine ⟨_, (begun _).trans ?_, two⟩
    exact Cxx.bind_returned array _
  · refine ⟨_, (begun _).trans ?_, settles_nothing _⟩
    exact (Cxx.bind_returned array _).trans (Cxx.bind_returned message _)

theorem begun_arguments (implements : Implements mp) (crypto : Crypto) (request : Request)
    (sync : UInt64) (field : Field) (text : Bytes) (declared : Nat) (args : List Doc)
    (entries : request.entries mp crypto = argumentEntries mp field text declared args)
    (short : (frame (request.payload mp crypto sync)).length < 2 ^ 32) :
    ∃ front, request.payload mp crypto sync =
        front ++ (Doc.container .array declared args).bytes mp ∧
      ∀ rest : Write Unit, (do
          IprotoWriter.beginRequest mp request.type field text sync
          rest) = (do
          IprotoWriter.startMessage mp
          emit front
          rest) := by
  have textShort : text.length < 2 ^ 32 := by
    apply (str_text_length text).trans_lt
    apply entry_text_short short ⟨field, .str text, strText text⟩
    rw [entries]
    exact List.mem_cons_self
  refine ⟨entriesText (headerEntries request.type sync) ++ (encodeMapHead 2 ++
    (encodeUint field.key ++ (strText text ++ encodeUint Field.tuple.key))), ?_, ?_⟩
  · rw [Request.payload, entries]
    simp [entriesText, argumentEntries, List.append_assoc]
  · intro rest
    rw [begin_emitted implements _ _ _ _ textShort, bind_assoc]

theorem closed_arguments (declared : Nat) (args : List Doc) (begun : Write Unit) :
    (do
      begun
      beginArray mp declared
      execAll mp (Doc.opsAll args)
      IprotoWriter.finalizeAll mp) = (do
      (do
        begun
        openArguments mp declared args 0)
      IprotoWriter.finalizeAll mp) := by
  simp [openArguments, Cxx.forEach]

theorem request_step (implements : Implements mp) (crypto : Crypto) (request : Request)
    (sync : UInt64) (valid : request.Valid mp crypto sync) {writer : MpWriter}
    {buf : WtfBuffer UInt8} (settles : Settles mp writer buf) {need : Nat}
    (roomy : Roomy buf ((frame (request.payload mp crypto sync)).length + need)) :
    ∃ after, request.run mp crypto sync writer = .returned () after ∧
      Settles mp after ((reserved buf).push (frame (request.payload mp crypto sync))) := by
  have short := valid.1
  have started := start_returned implements settles roomy
  have enough := (reserved_roomy roomy).1.enough
  have entryShort := entry_text_short short
  -- the arguments of a call, whatever is left open after them
  have arguments : ∀ field text declared args finalized,
      request.entries mp crypto = argumentEntries mp field text declared args →
      ValidArguments declared args finalized →
      ∃ after, (do
          IprotoWriter.beginRequest mp request.type field text sync
          openArguments mp declared args finalized) writer = .returned () after ∧
        Settles mp after ((reserved buf).push (frame (request.payload mp crypto sync))) := by
    intro field text declared args finalized entries validArguments
    obtain ⟨front, payload, begun⟩ :=
      begun_arguments implements crypto request sync field text declared args entries short
    rw [payload] at short enough ⊢
    rw [begun, Cxx.bind_returned started]
    exact open_arguments_returned implements front declared args finalized validArguments _ short
      (by omega)
  cases request with
  | ping =>
      rw [ping_emitted implements]
      exact ⟨_, message_emitted implements _ short settles roomy, settles_nothing _⟩
  | id proto =>
      have authShort : proto.auth.length < 2 ^ 32 := by
        by_cases auth : proto.auth.isEmpty = true
        · rw [List.isEmpty_iff.mp auth, List.length_nil]
          omega
        · apply (str_text_length proto.auth).trans_lt
          apply entryShort ⟨.authType, .str proto.auth, strText proto.auth⟩
          simp [Request.entries, idEntries, auth]
      rw [id_emitted implements crypto proto sync authShort]
      exact ⟨_, message_emitted implements _ short settles roomy, settles_nothing _⟩
  | auth greeting user password authProto =>
      have userShort : user.length < 2 ^ 32 := by
        apply (str_text_length user).trans_lt
        apply entryShort ⟨.userName, .str user, strText user⟩
        exact List.mem_cons_self
      have protoShort : authProto.length < 2 ^ 32 := by
        have tuple := entryShort _ (List.mem_cons_of_mem _ List.mem_cons_self)
        simp only [List.length_append] at tuple
        have inside := str_text_length authProto
        omega
      rw [auth_emitted implements crypto greeting user password authProto sync userShort
        protoShort]
      exact ⟨_, message_emitted implements _ short settles roomy, settles_nothing _⟩
  | beginCall fnName declared args finalized =>
      exact arguments .functionName fnName declared args finalized rfl valid.2
  | beginEval script declared args finalized =>
      exact arguments .expression script declared args finalized rfl valid.2
  | call fnName args =>
      obtain ⟨after, ran, settled⟩ := arguments .functionName fnName args.length args 0 rfl valid.2
      refine ⟨_, ?_, settles_nothing _⟩
      rw [Request.run, IprotoWriter.call, closed_arguments]
      exact (Cxx.bind_returned ran _).trans settled
  | eval script args =>
      obtain ⟨after, ran, settled⟩ := arguments .expression script args.length args 0 rfl valid.2
      refine ⟨_, ?_, settles_nothing _⟩
      rw [Request.run, IprotoWriter.eval, closed_arguments]
      exact (Cxx.bind_returned ran _).trans settled

def payloads (mp : Msgpuck) (crypto : Crypto) (requests : List (Request × UInt64)) : List Bytes :=
  requests.map fun request => request.1.payload mp crypto request.2

theorem payloads_cons (mp : Msgpuck) (crypto : Crypto) (request : Request × UInt64)
    (requests : List (Request × UInt64)) :
    payloads mp crypto (request :: requests) =
      request.1.payload mp crypto request.2 :: payloads mp crypto requests := rfl

def compose (mp : Msgpuck) (crypto : Crypto) (requests : List (Request × UInt64)) : Write Unit :=
  Cxx.forEach (fun request => request.1.run mp crypto request.2) requests

theorem requests_run (implements : Implements mp) (crypto : Crypto)
    (requests : List (Request × UInt64))
    (valid : ∀ request ∈ requests, request.1.Valid mp crypto request.2) {writer : MpWriter}
    {buf : WtfBuffer UInt8} (settles : Settles mp writer buf)
    (roomy : Roomy buf ((payloads mp crypto requests).map frame).flatten.length) :
    ∃ after settled, compose mp crypto requests writer = .returned () after ∧
      Settles mp after settled ∧
      settled.content = buf.content ++ ((payloads mp crypto requests).map frame).flatten := by
  -- the room left behind a request is enough for the others
  induction requests generalizing writer buf with
  | nil => exact ⟨writer, buf, rfl, settles, by simp [payloads]⟩
  | cons request requests ih =>
      rw [payloads_cons, List.map_cons, List.flatten_cons, List.length_append] at roomy
      obtain ⟨middle, ran, reached⟩ := request_step implements crypto request.1 request.2
        (valid request List.mem_cons_self) settles roomy
      obtain ⟨after, settled, rest, final, content⟩ := ih
        (fun other kept => valid other (List.mem_cons_of_mem request kept)) reached
        ((reserved_roomy roomy).1.push _)
      refine ⟨after, settled, ?_, final, ?_⟩
      · exact (Cxx.bind_returned ran _).trans rest
      · rw [content, WtfBuffer.push_content, reserved_content, payloads_cons, List.map_cons,
          List.flatten_cons, List.append_assoc]

end Running

def Carries (mp : Msgpuck) (crypto : Crypto) (mem : Bytes) (request : Request × UInt64)
    (message : MpReader) : Prop :=
  ∃ header body, message.slice mem = header ++ body ∧
    Encodes (.map [(.int Field.code.key, .int request.1.type.code),
      (.int Field.sync.key, .int request.2.toNat)]) header ∧
    Encodes (entriesValue (request.1.entries mp crypto)) body

theorem payload_carried {mp : Msgpuck} (implements : Implements mp) (crypto : Crypto)
    (mem : Bytes) (request : Request × UInt64)
    (valid : request.1.Valid mp crypto request.2) (message : MpReader)
    (same : request.1.payload mp crypto request.2 = message.slice mem) :
    Carries mp crypto mem request message :=
  ⟨_, _, same.symm, header_encodes request.1.type request.2,
    body_encodes implements crypto request.1 request.2 valid⟩

theorem payload_sized {mp : Msgpuck} {crypto : Crypto} {requests : List (Request × UInt64)}
    (valid : ∀ request ∈ requests, request.1.Valid mp crypto request.2) (body : Bytes)
    (kept : body ∈ payloads mp crypto requests) : 0 < body.length ∧ body.length < 2 ^ 32 := by
  obtain ⟨request, listed, rfl⟩ := List.mem_map.mp kept
  have short := (valid request listed).1
  have headed := (header_encodes request.1.type request.2).length_pos
  rw [frame_length] at short
  rw [Request.payload, List.length_append] at short ⊢
  constructor <;> omega

/-- Any requests composed over one buffer, closed by a final `finalize_all`: the
walk finds one message for each of them, in order, up to the last byte. -/
theorem requests_framed {mp : Msgpuck} (implements : Implements mp) (crypto : Crypto)
    (requests : List (Request × UInt64))
    (valid : ∀ request ∈ requests, request.1.Valid mp crypto request.2)
    (buf : WtfBuffer UInt8) (fresh : buf.content = [])
    (roomy : Roomy buf ((payloads mp crypto requests).map frame).flatten.length) :
    ∃ after messages, (do
        compose mp crypto requests
        IprotoWriter.finalizeAll mp) (MpWriter.ofBuffer buf) = .returned () after ∧
      after.openedContainers.items = [] ∧
      walkMessages mp after.buf.content (after.buf.size + 1) (MpReader.plain 0 after.buf.size) =
        .returned messages
          { MpReader.plain 0 after.buf.size with currentPos := some after.buf.size } ∧
      after.buf.content =
        (messages.map fun message => frame (message.slice after.buf.content)).flatten ∧
      List.Forall₂ (Carries mp crypto after.buf.content) requests messages := by
  obtain ⟨after, settled, ran, final, content⟩ :=
    requests_run implements crypto requests valid (settles_nothing buf) roomy
  rw [fresh, List.nil_append] at content
  have many := frames_length (payloads mp crypto requests)
  have last : settled.size = 0 + ((payloads mp crypto requests).map frame).flatten.length := by
    rw [Nat.zero_add, ← content]
    rfl
  -- the content is frames to its end, and the walk finds them
  obtain ⟨messages, walked, slices⟩ : ∃ messages,
      walkMessages mp settled.content (settled.size + 1) (MpReader.plain 0 settled.size) =
        .returned messages
          { MpReader.plain 0 settled.size with currentPos := some settled.size } ∧
      messages.map (MpReader.slice settled.content) = payloads mp crypto requests := by
    rw [last]
    exact walk_frames implements _ (payload_sized valid) 0 _ _ rfl rfl content (by omega)
  refine ⟨MpWriter.ofBuffer settled, messages, (Cxx.bind_returned ran _).trans final, rfl, walked,
    ?_, ?_⟩
  · have texts : messages.map (fun message => frame (message.slice settled.content)) =
        (messages.map (MpReader.slice settled.content)).map frame := by
      rw [List.map_map]
      rfl
    rw [MpWriter.ofBuffer, texts, slices, content]
  · have same : List.Forall₂ Eq (payloads mp crypto requests)
        (messages.map (MpReader.slice settled.content)) := by
      rw [List.forall₂_eq_eq_eq, slices]
    rw [payloads, List.forall₂_map_left_iff, List.forall₂_map_right_iff] at same
    clear walked slices last content final ran roomy many
    induction same with
    | nil => exact .nil
    | cons first _ ih =>
        apply List.Forall₂.cons
        · exact payload_carried implements crypto _ _ (valid _ List.mem_cons_self) _ first
        · exact ih fun other kept => valid other (List.mem_cons_of_mem _ kept)

/-- A call left open, an identification and a ping. -/
def sampleRequests : List (Request × UInt64) :=
  [(.beginCall [0x66] 2 [.scalar (.int 7), .scalar .nil] 0, 0),
    (.id ⟨3, [0x78], 0b101⟩, 1), (.ping, 2)]

def sampleCrypto : Crypto := ⟨fun _ => [], fun _ _ => []⟩

theorem sample_requests_framed :
    ∃ after messages, (do
        compose reference sampleCrypto sampleRequests
        IprotoWriter.finalizeAll reference) (MpWriter.ofBuffer (WtfBuffer.ofSize 64)) =
        .returned () after ∧
      after.openedContainers.items = [] ∧
      walkMessages reference after.buf.content (after.buf.size + 1)
          (MpReader.plain 0 after.buf.size) =
        .returned messages
          { MpReader.plain 0 after.buf.size with currentPos := some after.buf.size } ∧
      after.buf.content =
        (messages.map fun message => frame (message.slice after.buf.content)).flatten ∧
      List.Forall₂ (Carries reference sampleCrypto after.buf.content) sampleRequests messages := by
  apply requests_framed reference_implements
  · intro request kept
    simp only [sampleRequests, List.mem_cons, List.not_mem_nil, or_false] at kept
    rcases kept with rfl | rfl | rfl
    · refine ⟨by decide +kernel, ?_, by decide, by decide⟩
      simp [Doc.Valid, Doc.ValidAll, Scalar.Valid, HeaderFits, Doc.valuesAll, Doc.values,
        Container.cardinality]
    · exact ⟨by decide +kernel, trivial⟩
    · exact ⟨by decide +kernel, trivial⟩
  · rfl
  · exact ⟨by decide +kernel, .inl (WtfBuffer.of_size_owned 64)⟩

end Cpp2tnt
