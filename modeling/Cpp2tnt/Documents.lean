import Cpp2tnt.MpWriter

/-!
Properly nested sequences of writer operations. A `Doc` is the tree behind such
a sequence: `ops` flattens it to the calls the program makes, `values` is the
tree that was written, `bytes` the text it must leave in the buffer. The run
lemma follows the tree: a document appends its bytes, adds its items to the
innermost counter and touches nothing else.
-/

namespace Cpp2tnt
open Imperative MessagePack MpWriter

inductive Doc where
  | scalar (value : Scalar)
  | bulk (bytes : Bytes) (cardinality : Nat) (values : List Value)
  | container (kind : Container) (maxCardinality : Nat) (children : List Doc)

inductive WriterOp where
  | begin (kind : Container) (maxCardinality : Nat)
  | finalize
  | scalar (value : Scalar)
  | write (bytes : Bytes) (cardinality : Nat)

def WriterOp.exec (mp : Msgpuck) : WriterOp → Write Unit
  | .begin .array maxCardinality => beginArray mp maxCardinality
  | .begin .map maxCardinality => beginMap mp maxCardinality
  | .finalize => MpWriter.finalize mp
  | .scalar value => writeScalar mp value
  | .write bytes cardinality => MpWriter.write mp bytes cardinality

def execAll (mp : Msgpuck) (ops : List WriterOp) : Write Unit :=
  Cxx.forEach (WriterOp.exec mp) ops

mutual
def Doc.ops : Doc → List WriterOp
  | .scalar value => [.scalar value]
  | .bulk bytes cardinality _ => [.write bytes cardinality]
  | .container kind maxCardinality children =>
      .begin kind maxCardinality :: (Doc.opsAll children ++ [.finalize])

def Doc.opsAll : List Doc → List WriterOp
  | [] => []
  | doc :: docs => doc.ops ++ Doc.opsAll docs
end

def Scalar.value : Scalar → Value
  | .nil => .nil
  | .bool value => .bool value
  | .int number => .int number
  | .str text => .str text
  | .strictUint _ number => .int number
  | .float bits => .float bits
  | .double bits => .double bits

/-- The head a scalar is written with, and what follows it. -/
def Scalar.head : Scalar → Head
  | .nil => .nil
  | .bool value => .bool value
  | .int number => intHead number
  | .str text => .str text.length
  | .strictUint _ number => .uint number
  | .float bits => .float bits
  | .double bits => .double bits

def Scalar.payload : Scalar → Bytes
  | .str text => text
  | .nil | .bool _ | .int _ | .strictUint _ _ | .float _ | .double _ => []

mutual
/-- The items a document adds to the container around it. -/
def Doc.values : Doc → List Value
  | .scalar value => [value.value]
  | .bulk _ _ values => values
  | .container kind _ children => [kind.value (Doc.valuesAll children)]

def Doc.valuesAll : List Doc → List Value
  | [] => []
  | doc :: docs => doc.values ++ Doc.valuesAll docs
end

mutual
/-- How many containers the document opens inside each other. -/
def Doc.depth : Doc → Nat
  | .container _ _ children => Doc.depthAll children + 1
  | _ => 0

def Doc.depthAll : List Doc → Nat
  | [] => 0
  | doc :: docs => max doc.depth (Doc.depthAll docs)
end

/-- The header `finalize` leaves: the declared one when the count matches, else
the actual cardinality in a header of the declared width. -/
def patchedHead (kind : Container) (declared actual : Nat) : Bytes :=
  if actual = declared then kind.encode declared
  else if declared < 16 then kind.encode actual
  else if declared < 2 ^ 16 then kind.tag :: bigEndian 2 actual
  else (kind.tag + 1) :: bigEndian 4 actual

def scalarText (mp : Msgpuck) (value : Scalar) : Bytes :=
  match scalarBytes mp value with
  | .ok bytes => bytes
  | .error _ => []

mutual
def Doc.bytes (mp : Msgpuck) : Doc → Bytes
  | .scalar value => scalarText mp value
  | .bulk bytes _ _ => bytes
  | .container kind maxCardinality children =>
      patchedHead kind maxCardinality (kind.cardinality (Doc.valuesAll children).length) ++
        Doc.bytesAll mp children

def Doc.bytesAll (mp : Msgpuck) : List Doc → Bytes
  | [] => []
  | doc :: docs => doc.bytes mp ++ Doc.bytesAll mp docs
end

/-- Values in the range of their C++ type; a double the writer does not refuse. -/
def Scalar.Valid : Scalar → Prop
  | .nil | .bool _ => True
  | .int number => -2 ^ 63 ≤ number ∧ number < 2 ^ 64
  | .str text => text.length < 2 ^ 32
  | .strictUint width number =>
      (width = 2 ∨ width = 4 ∨ width = 8) ∧ number < 256 ^ width
  | .float bits => bits < 2 ^ 32
  | .double bits => bits < 2 ^ 64 ∧ doubleAccepted bits = true

def HeaderFits (kind : Container) (declared actual : Nat) : Prop :=
  (kind.encode actual).length ≤ (kind.encode declared).length

mutual
def Doc.Valid : Doc → Prop
  | .scalar value => value.Valid
  | .bulk bytes cardinality values =>
      EncodesAll values bytes ∧ (cardinality = values.length ∨ cardinality = 0)
  | .container kind maxCardinality children =>
      Doc.ValidAll children ∧ maxCardinality < 2 ^ 32 ∧
      (Doc.valuesAll children).length < 2 ^ 32 ∧
      (kind = .map → (Doc.valuesAll children).length % 2 = 0) ∧
      HeaderFits kind maxCardinality (kind.cardinality (Doc.valuesAll children).length)

def Doc.ValidAll : List Doc → Prop
  | [] => True
  | doc :: docs => doc.Valid ∧ Doc.ValidAll docs
end

theorem cardinality_lt (kind : Container) (items : Nat) (bounded : items < 2 ^ 32) :
    kind.cardinality items < 2 ^ 32 := by
  cases kind <;> simp only [Container.cardinality] <;> omega

theorem HeaderFits.small {kind : Container} {declared actual : Nat}
    (fits : HeaderFits kind declared actual) (small : declared < 16) : actual < 16 := by
  rw [HeaderFits, kind.encode_length, kind.encode_length, if_pos small] at fits
  by_contra large
  rw [if_neg large] at fits
  split_ifs at fits <;> omega

theorem HeaderFits.half {kind : Container} {declared actual : Nat}
    (fits : HeaderFits kind declared actual) (half : declared < 2 ^ 16) : actual < 2 ^ 16 := by
  rw [HeaderFits, kind.encode_length, kind.encode_length] at fits
  by_contra large
  rw [if_neg large] at fits
  split_ifs at fits <;> omega

theorem patched_head_length (kind : Container) (declared actual : Nat)
    (fits : HeaderFits kind declared actual) :
    (patchedHead kind declared actual).length = (kind.encode declared).length := by
  unfold patchedHead
  by_cases same : actual = declared
  · rw [if_pos same]
  · rw [if_neg same, Container.encode_length]
    by_cases small : declared < 16
    · rw [if_pos small, if_pos small, Container.encode_length, if_pos (fits.small small)]
    · rw [if_neg small, if_neg small]
      by_cases half : declared < 2 ^ 16
      · rw [if_pos half, if_pos half, List.length_cons, big_endian_length]
      · rw [if_neg half, if_neg half, List.length_cons, big_endian_length]

theorem patched_head_encodes (kind : Container) (declared actual : Nat)
    (bounded : actual < 2 ^ 32) (fits : HeaderFits kind declared actual) :
    HeadEncodes (kind.head actual) (patchedHead kind declared actual) := by
  unfold patchedHead
  by_cases same : actual = declared
  · rw [if_pos same, ← same]
    exact kind.encode_head actual bounded
  · rw [if_neg same]
    by_cases small : declared < 16
    · rw [if_pos small]
      exact kind.encode_head actual bounded
    · rw [if_neg small]
      by_cases half : declared < 2 ^ 16
      · rw [if_pos half]
        exact kind.half_head actual (fits.half half)
      · rw [if_neg half]
        exact kind.word_head actual bounded

section Text
variable {mp : Msgpuck}

theorem scalar_bytes_ok (value : Scalar) (valid : value.Valid) :
    scalarBytes mp value = .ok (scalarText mp value) := by
  cases value with
  | str text =>
      have short : ¬ 2 ^ 32 - 1 < text.length := by
        simp only [Scalar.Valid] at valid
        omega
      simp only [scalarText, scalarBytes, if_neg short]
  | double bits => simp [scalarText, scalarBytes, valid.2]
  | _ => rfl

theorem strict_uint_text (implements : Implements mp) (width number : Nat)
    (valid : (Scalar.strictUint width number).Valid) :
    HeadEncodes (.uint number) (scalarText mp (.strictUint width number)) := by
  obtain ⟨known, bounded⟩ := valid
  rcases known with rfl | rfl | rfl
  · simp only [scalarText, scalarBytes, strictTag, if_true,
      implements.storeU8 0xcd (by omega), implements.storeU16 number (by omega)]
    exact wide_uint_head 2 _ number (by simp) bounded
  · simp only [scalarText, scalarBytes, strictTag, if_true, Nat.reduceEqDiff, if_false,
      implements.storeU8 0xce (by omega), implements.storeU32 number (by omega)]
    exact wide_uint_head 4 _ number (by simp) bounded
  · simp only [scalarText, scalarBytes, strictTag, Nat.reduceEqDiff, if_false,
      implements.storeU8 0xcf (by omega), implements.storeU64 number (by omega)]
    exact wide_uint_head 8 _ number (by simp) bounded

theorem int_text (implements : Implements mp) (number : Int)
    (valid : (Scalar.int number).Valid) :
    HeadEncodes (intHead number) (scalarText mp (.int number)) := by
  obtain ⟨low, high⟩ := valid
  simp only [scalarText, scalarBytes, intHead]
  by_cases natural : 0 ≤ number
  · have bounded : number.toNat < 2 ^ 64 := by omega
    rw [if_pos natural, if_pos natural, implements.encodeUint _ bounded]
    exact encode_uint_head _ bounded
  · have negative : number < 0 := by omega
    rw [if_neg natural, if_neg natural, implements.encodeInt number negative low]
    exact encode_int_head number negative low

theorem scalar_text_headed (implements : Implements mp) (value : Scalar) (valid : value.Valid) :
    ∃ front, scalarText mp value = front ++ value.payload ∧ HeadEncodes value.head front := by
  cases value with
  | nil => exact ⟨encodeNil, by simp [scalarText, scalarBytes, implements.encodeNil, Scalar.payload],
      encode_nil_head⟩
  | bool value =>
      exact ⟨encodeBool value, by simp [scalarText, scalarBytes, implements.encodeBool,
        Scalar.payload], encode_bool_head value⟩
  | int number => exact ⟨_, (List.append_nil _).symm, int_text implements number valid⟩
  | str text =>
      have bounded : text.length < 2 ^ 32 := valid
      have short : ¬ 2 ^ 32 - 1 < text.length := by omega
      refine ⟨encodeStrHead text.length, ?_, encode_str_head text.length bounded⟩
      simp only [scalarText, scalarBytes, if_neg short, implements.encodeStr text bounded,
        Scalar.payload]
  | strictUint width number =>
      exact ⟨_, (List.append_nil _).symm, strict_uint_text implements width number valid⟩
  | float bits =>
      exact ⟨encodeFloat bits, by simp [scalarText, scalarBytes,
        implements.encodeFloat bits valid, Scalar.payload], encode_float_head bits valid⟩
  | double bits =>
      exact ⟨encodeDouble bits, by simp [scalarText, scalarBytes, valid.2,
        implements.encodeDouble bits valid.1, Scalar.payload], encode_double_head bits valid.1⟩

theorem scalar_text_encodes (implements : Implements mp) (value : Scalar) (valid : value.Valid) :
    Encodes value.value (scalarText mp value) := by
  obtain ⟨front, text, encodes⟩ := scalar_text_headed implements value valid
  rw [text]
  cases value with
  | str characters => exact encodes_str encodes
  | int number =>
      rw [Scalar.payload, List.append_nil]
      simp only [Scalar.head, intHead] at encodes
      by_cases natural : 0 ≤ number
      · rw [if_pos natural] at encodes
        apply encodes_plain encodes
        simp [Head.plain, Scalar.value, natural]
      · rw [if_neg natural] at encodes
        exact encodes_plain encodes rfl
  | _ =>
      rw [Scalar.payload, List.append_nil]
      exact encodes_plain encodes rfl

mutual
theorem doc_encodes (implements : Implements mp) :
    (doc : Doc) → doc.Valid → EncodesAll doc.values (doc.bytes mp)
  | .scalar value, valid => by
      rw [Doc.values, Doc.bytes]
      exact encodes_all_singleton (scalar_text_encodes implements value valid)
  | .bulk bytes cardinality values, valid => by
      rw [Doc.values, Doc.bytes]
      exact valid.1
  | .container kind declared children, valid => by
      rw [Doc.Valid] at valid
      obtain ⟨inner, _, few, paired, fits⟩ := valid
      rw [Doc.values, Doc.bytes]
      apply encodes_all_singleton
      apply encodes_container kind _ paired (docs_encode implements children inner)
      exact patched_head_encodes kind declared _ (cardinality_lt kind _ few) fits

theorem docs_encode (implements : Implements mp) : (docs : List Doc) → Doc.ValidAll docs →
    EncodesAll (Doc.valuesAll docs) (Doc.bytesAll mp docs)
  | [], _ => by
      rw [Doc.valuesAll, Doc.bytesAll]
      exact encodes_all_nil
  | doc :: docs, valid => by
      rw [Doc.ValidAll] at valid
      rw [Doc.valuesAll, Doc.bytesAll]
      exact encodes_all_append (doc_encodes implements doc valid.1)
        (docs_encode implements docs valid.2)
end

end Text

namespace MpWriter

/-- The writer after `items` items with the text `bytes` went through it. -/
def written (bytes : Bytes) (items : Nat) (writer : MpWriter) : MpWriter :=
  { writer with buf := writer.buf.push bytes }.counted items

@[simp] theorem written_buf (bytes : Bytes) (items : Nat) (writer : MpWriter) :
    (writer.written bytes items).buf = writer.buf.push bytes := rfl

@[simp] theorem written_opened (bytes : Bytes) (items : Nat) (writer : MpWriter) :
    (writer.written bytes items).openedContainers =
      writer.openedContainers.mapTop (ContainerMeta.addItems items) := rfl

theorem written_nothing (writer : MpWriter) : writer.written [] 0 = writer := by
  obtain ⟨buf, ⟨_ | ⟨top, rest⟩, bounded⟩⟩ := writer
  · simp [written, counted, WtfStack.mapTop]
  · simp [written, counted, WtfStack.mapTop, ContainerMeta.addItems]

theorem written_written (front back : Bytes) (first second : Nat) (writer : MpWriter) :
    (writer.written front first).written back second =
      writer.written (front ++ back) (first + second) := by
  obtain ⟨buf, ⟨_ | ⟨top, rest⟩, bounded⟩⟩ := writer
  · simp [written, counted, WtfStack.mapTop, WtfBuffer.push_push]
  · simp [written, counted, WtfStack.mapTop, ContainerMeta.addItems, WtfBuffer.push_push,
      UInt32.add_assoc]

end MpWriter

section Run
variable {mp : Msgpuck}

theorem write_scalar_returned (value : Scalar) (valid : value.Valid) (writer : MpWriter)
    (room : (scalarText mp value).length ≤ writer.buf.available) :
    writeScalar mp value writer = .returned () (writer.written (scalarText mp value) 1) := by
  have emitted := emit_returned (scalarText mp value) writer room
  simp only [writeScalar, scalar_bytes_ok value valid]
  rw [Cxx.bind_returned emitted]
  rfl

theorem write_scalar_refused (value : Scalar) (error : Exn)
    (refused : scalarBytes mp value = .error error) (writer : MpWriter) :
    writeScalar mp value writer = .thrown error writer := by
  simp [writeScalar, refused]

theorem count_items_returned (implements : Implements mp) (mem : Bytes) (values : List Value)
    (body : Bytes) (encodes : EncodesAll values body) (pos fuel : Nat) (reader : MpReader)
    (shape : reader.shape = .plain) (current : reader.currentPos = some pos)
    (bound : reader.endPos = some (pos + body.length)) (found : mem.drop pos = body)
    (enough : values.length < fuel) :
    ∃ reached, countItems mp mem fuel reader = .returned values.length reached := by
  induction values generalizing body pos fuel reader with
  | nil =>
      cases encodes
      obtain ⟨fuel, rfl⟩ : ∃ less, fuel = less + 1 := ⟨fuel - 1, by omega⟩
      have done : hasNext false reader = .returned false reader := by
        simp [hasNext, bound, current]
      refine ⟨reader, ?_⟩
      rw [countItems, Cxx.bind_returned done]
      rfl
  | cons value values ih =>
      obtain ⟨front, back, rfl, first, later⟩ := encodes
      obtain ⟨fuel, rfl⟩ : ∃ less, fuel = less + 1 := ⟨fuel - 1, by omega⟩
      have stands : Stands mem reader front back := by
        apply stands_plain shape current found
        intro last mem
        rw [bound, Option.mem_some_iff] at mem
        rw [← mem, List.length_append]
        omega
      have more : hasNext false reader = .returned true reader :=
        has_next_returned stands first.length_pos (.inl (by simp [bound]))
      have moved := skip_returned implements first stands
      obtain ⟨reached, counted⟩ := ih back later (pos + front.length) fuel
        (reader.advance front.length) shape (by simp [MpReader.advance, current])
        (by simp [MpReader.advance, bound, Nat.add_assoc])
        (by rw [← List.drop_drop, found, List.drop_left]) (by simpa using enough)
      refine ⟨reached, ?_⟩
      rw [countItems, Cxx.bind_returned more]
      simp only [Bool.not_true, Bool.false_eq_true, if_false]
      rw [Cxx.bind_returned moved, Cxx.bind_returned counted]
      rfl

theorem resize_within (buf : WtfBuffer UInt8) (count : Nat) (room : count ≤ buf.available) :
    WtfBuffer.resize (buf.size + count) buf = .returned () (buf.cut (buf.size + count)) := by
  have within : ¬ buf.size + count > buf.capacity := by
    simp only [WtfBuffer.size, WtfBuffer.capacity, WtfBuffer.available] at room ⊢
    omega
  simp [WtfBuffer.resize, within]

theorem store_after_cut (bytes : Bytes) (buf : WtfBuffer UInt8)
    (room : bytes.length ≤ buf.available) :
    WtfBuffer.store buf.size bytes (buf.cut (buf.size + bytes.length)) =
      .returned () (buf.push bytes) := by
  have shown : (buf.cut (buf.size + bytes.length)).content =
      buf.content ++ buf.spare.take bytes.length ++ [] := by
    simp [WtfBuffer.cut, WtfBuffer.storage, WtfBuffer.size, List.take_append]
  have same : bytes.length = (buf.spare.take bytes.length).length := by
    simpa [WtfBuffer.available] using room
  have stored := WtfBuffer.store_returned _ buf.content _ [] bytes shown same
  have beyond : (buf.content ++ buf.spare).drop (buf.content.length + bytes.length) =
      buf.spare.drop bytes.length := by
    rw [← List.drop_drop, List.drop_left]
  simpa only [WtfBuffer.size, WtfBuffer.cut, WtfBuffer.push, WtfBuffer.storage, beyond,
    List.append_nil] using stored

theorem EncodesAll.length_le {values : List Value} {bytes : Bytes}
    (encodes : EncodesAll values bytes) : values.length ≤ bytes.length := by
  induction values generalizing bytes with
  | nil => exact Nat.zero_le _
  | cons value values ih =>
      obtain ⟨front, back, rfl, first, later⟩ := encodes
      have headed := first.length_pos
      have tail := ih later
      rw [List.length_append, List.length_cons]
      omega

/-- The counting part of `write`, after the range has been copied. -/
def countRange (mp : Msgpuck) (bytes : Bytes) (cardinality : Nat) : Write Unit := do
  let writer ← Cxx.get
  if !writer.openedContainers.items.isEmpty then
    if cardinality = 0 then
      let (counted, _) ← Cxx.onObject (countItems mp bytes (bytes.length + 1))
        (MpReader.plain 0 bytes.length)
      incrementContainerCounter counted
    else incrementContainerCounter cardinality

theorem write_within {writer : MpWriter} (bytes : Bytes) (cardinality : Nat)
    (room : bytes.length ≤ writer.buf.available) :
    MpWriter.write mp bytes cardinality writer =
      countRange mp bytes cardinality { writer with buf := writer.buf.push bytes } := by
  have resized := on_buffer_returned (resize_within writer.buf bytes.length room)
  have stored : onBuffer (WtfBuffer.store writer.buf.size bytes)
      { writer with buf := writer.buf.cut (writer.buf.size + bytes.length) } =
      .returned () { writer with buf := writer.buf.push bytes } :=
    on_buffer_returned (store_after_cut bytes writer.buf room)
  rw [MpWriter.write, Cxx.bind_get, Cxx.bind_returned resized, if_pos room,
    Cxx.bind_returned stored]
  rfl

theorem write_returned (implements : Implements mp) (bytes : Bytes) (cardinality : Nat)
    (values : List Value) (encodes : EncodesAll values bytes)
    (given : cardinality = values.length ∨ cardinality = 0) (writer : MpWriter)
    (room : bytes.length ≤ writer.buf.available) :
    MpWriter.write mp bytes cardinality writer =
      .returned () (writer.written bytes values.length) := by
  rw [write_within bytes cardinality room, countRange, Cxx.bind_get]
  obtain ⟨buf, ⟨_ | ⟨top, rest⟩, bounded⟩⟩ := writer
  · rfl
  · simp only [List.isEmpty_cons, Bool.not_false, if_true]
    by_cases counted : cardinality = 0
    · obtain ⟨reached, count⟩ := count_items_returned implements bytes values bytes encodes 0
        (bytes.length + 1) (MpReader.plain 0 bytes.length) rfl rfl (by simp [MpReader.plain])
        rfl (Nat.lt_succ_of_le (EncodesAll.length_le encodes))
      rw [if_pos counted, Cxx.bind_returned (Cxx.onObject_returned count _)]
      rfl
    · have known : cardinality = values.length := by tauto
      rw [if_neg counted, known]
      rfl

/-- The state a `begin_...` leaves: counted above, opened below. -/
def MpWriter.opened (kind : Container) (declared : Nat) (writer : MpWriter)
    (shallow : writer.openedContainers.items.length < 16) : MpWriter :=
  { buf := writer.buf.push (kind.encode declared)
    openedContainers :=
      ⟨⟨writer.buf.size, declared, 0⟩ :: (writer.counted 1).openedContainers.items,
        by rwa [List.length_cons, counted_opened_length]⟩ }

theorem begin_returned (implements : Implements mp) (kind : Container) (declared : Nat)
    (bounded : declared < 2 ^ 32) (writer : MpWriter)
    (shallow : writer.openedContainers.items.length < 16)
    (room : (kind.encode declared).length ≤ writer.buf.available) :
    WriterOp.exec mp (.begin kind declared) writer =
      .returned () (writer.opened kind declared shallow) := by
  have pushed := push_container_returned declared (writer.counted 1) (by rwa [counted_opened_length])
  have emitted := emit_returned (kind.encode declared)
    ({ writer.counted 1 with openedContainers :=
      ⟨⟨writer.buf.size, declared, 0⟩ :: (writer.counted 1).openedContainers.items,
        by rwa [List.length_cons, counted_opened_length]⟩ }) room
  cases kind with
  | array =>
      simp only [WriterOp.exec, beginArray, implements.encodeArray declared bounded]
      rw [Cxx.bind_returned (increment_returned 1 writer), Cxx.bind_returned pushed]
      exact emitted
  | map =>
      simp only [WriterOp.exec, beginMap, implements.encodeMap declared bounded]
      rw [Cxx.bind_returned (increment_returned 1 writer), Cxx.bind_returned pushed]
      exact emitted

/-- The buffer with `text` in place of what it held. -/
def MpWriter.rewritten (text : Bytes) (writer : MpWriter) : MpWriter :=
  { writer with buf := { writer.buf with content := text } }

theorem store_in_writer (writer : MpWriter) (front before after items : Bytes)
    (content : writer.buf.content = front ++ before ++ after)
    (same : items.length = before.length) :
    onBuffer (WtfBuffer.store front.length items) writer =
      .returned () (writer.rewritten (front ++ items ++ after)) :=
  on_buffer_returned (WtfBuffer.store_returned writer.buf front before after items content same)

theorem patch_header_returned (implements : Implements mp) (kind : Container)
    {encode : Nat → Bytes} {sizeof : Nat → Nat} (exceeded : String) (declared actual : Nat)
    (count : UInt32) (encodes : encode actual = kind.encode actual)
    (sizes : ∀ cardinality < 2 ^ 32, sizeof cardinality = (kind.encode cardinality).length)
    (declaredBounded : declared < 2 ^ 32) (actualBounded : actual < 2 ^ 32)
    (fits : HeaderFits kind declared actual) (writer : MpWriter) (front body : Bytes)
    (content : writer.buf.content = front ++ kind.encode declared ++ body) :
    patchHeader mp encode sizeof exceeded ⟨front.length, declared, count⟩ actual writer =
      .returned () (writer.rewritten (front ++ patchedHead kind declared actual ++ body)) := by
  have lengths := kind.encode_length
  have smaller : ¬ (actual > declared ∧ sizeof actual > sizeof declared) := by
    rw [sizes actual actualBounded, sizes declared declaredBounded]
    simp only [HeaderFits] at fits
    omega
  unfold patchHeader patchedHead
  by_cases same : actual = declared
  · simp only [same, if_true, ← content]
    rfl
  · simp only [if_neg same]
    rw [if_neg smaller]
    simp only [sizes declared declaredBounded, lengths]
    -- the width of the header that is patched depends on the declared cardinality
    by_cases small : declared < 16
    · rw [if_pos small, if_pos small, if_pos rfl, encodes]
      apply store_in_writer writer front _ body _ content
      rw [lengths, lengths, if_pos small, if_pos (fits.small small)]
    · rw [if_neg small, if_neg small]
      by_cases half : declared < 2 ^ 16
      · have narrow := fits.half half
        have placed : writer.buf.content =
            (front ++ [kind.tag]) ++ bigEndian 2 declared ++ body := by
          rw [content, kind.encode_half declared small half]
          simp
        have stored := store_in_writer writer (front ++ [kind.tag]) _ body
          (bigEndian 2 actual) placed (by simp)
        rw [if_pos half, if_pos half, if_neg (by omega), if_pos rfl, Nat.mod_eq_of_lt narrow,
          implements.storeU16 actual narrow]
        simpa using stored
      · have placed : writer.buf.content =
            (front ++ [kind.tag + 1]) ++ bigEndian 4 declared ++ body := by
          rw [content, kind.encode_word declared half]
          simp
        have stored := store_in_writer writer (front ++ [kind.tag + 1]) _ body
          (bigEndian 4 actual) placed (by simp)
        rw [if_neg half, if_neg half, if_neg (by omega), if_neg (by omega), if_pos rfl,
          implements.storeU32 actual actualBounded]
        simpa using stored

theorem finalize_returned (implements : Implements mp) (kind : Container) (declared : Nat)
    (bounded : declared < 2 ^ 32) (count : UInt32) (rest : WtfStack ContainerMeta 16)
    (room : rest.items.length < 16) (buf : WtfBuffer UInt8) (front body : Bytes)
    (paired : kind = .map → count.toNat % 2 = 0)
    (fits : HeaderFits kind declared (kind.cardinality count.toNat))
    (content : buf.content = front ++ kind.encode declared ++ body) :
    MpWriter.finalize mp ⟨buf, ⟨⟨front.length, declared, count⟩ :: rest.items, room⟩⟩ =
      .returned () ((⟨buf, rest⟩ : MpWriter).rewritten
        (front ++ patchedHead kind declared (kind.cardinality count.toNat) ++ body)) := by
  have encodes := kind.encode_head declared bounded
  obtain ⟨byte, tail, shape⟩ := List.exists_cons_of_ne_nil encodes.ne_nil
  rw [shape] at encodes
  have type := implements.typeof _ byte tail encodes
  have loaded : onBuffer (WtfBuffer.load front.length) ⟨buf, rest⟩ =
      .returned byte ⟨buf, rest⟩ := by
    apply on_buffer_returned
    apply WtfBuffer.load_returned buf front (tail ++ body)
    rw [content, shape]
    simp
  have small := cardinality_lt kind count.toNat (by simpa using count.toNat_lt)
  simp only [MpWriter.finalize, Cxx.bind_get, WtfStack.pop?, Cxx.bind_put]
  rw [Cxx.bind_returned loaded, type]
  cases kind with
  | array =>
      exact patch_header_returned implements .array _ declared _ count
        (implements.encodeArray _ small) implements.sizeofArray bounded small fits ⟨buf, rest⟩
        front body content
  | map =>
      have even : ¬ count.toNat % 2 = 1 := by
        have whole := paired rfl
        omega
      simp only [headType, Container.head, if_neg even]
      exact patch_header_returned implements .map _ declared _ count
        (implements.encodeMap _ small) implements.sizeofMap bounded small fits ⟨buf, rest⟩
        front body content

/-- Closing a container whose children have been written leaves the container's
text and one item in the enclosing one. -/
theorem close_returned (implements : Implements mp) (kind : Container) (declared : Nat)
    (children : List Doc) (valid : (Doc.container kind declared children).Valid)
    (writer : MpWriter) (outer : writer.openedContainers.items.length < 16) :
    MpWriter.finalize mp ((writer.opened kind declared outer).written
        (Doc.bytesAll mp children) (Doc.valuesAll children).length) =
      .returned () (writer.written ((Doc.container kind declared children).bytes mp) 1) := by
  rw [Doc.Valid] at valid
  obtain ⟨_, bounded, few, paired, fits⟩ := valid
  have width := patched_head_length kind declared _ fits
  have counted : (0 + UInt32.ofNat (Doc.valuesAll children).length).toNat =
      (Doc.valuesAll children).length := by
    rw [UInt32.zero_add, UInt32.toNat_ofNat', Nat.mod_eq_of_lt few]
  have closed := finalize_returned implements kind declared bounded
    (0 + UInt32.ofNat (Doc.valuesAll children).length) (writer.counted 1).openedContainers
    (by rwa [counted_opened_length])
    ((writer.buf.push (kind.encode declared)).push (Doc.bytesAll mp children))
    writer.buf.content (Doc.bytesAll mp children) (by rwa [counted]) (by rwa [counted]) rfl
  rw [counted] at closed
  apply Eq.trans closed
  -- the header was replaced by one of the same width, so the children have not moved
  simp [rewritten, written, MpWriter.counted, Doc.bytes, WtfBuffer.push, width,
    List.append_assoc, List.drop_drop]

mutual
/-- A document appends its text, adds its items to the innermost counter and
leaves the enclosing containers alone. -/
theorem doc_run (implements : Implements mp) : (doc : Doc) → doc.Valid → (writer : MpWriter) →
    (doc.bytes mp).length ≤ writer.buf.available →
    writer.openedContainers.items.length + doc.depth ≤ 16 →
    execAll mp doc.ops writer = .returned () (writer.written (doc.bytes mp) doc.values.length)
  | .scalar value, valid, writer, room, _ => by
      rw [Doc.bytes] at room ⊢
      exact Cxx.forEach_cons_returned (write_scalar_returned value valid writer room) []
  | .bulk bytes cardinality values, valid, writer, room, _ => by
      rw [Doc.bytes] at room ⊢
      exact Cxx.forEach_cons_returned (write_returned implements bytes cardinality values
        valid.1 valid.2 writer room) []
  | .container kind declared children, valid, writer, room, shallow => by
      have whole := valid
      rw [Doc.Valid] at valid
      obtain ⟨inner, bounded, _, _, fits⟩ := valid
      rw [Doc.depth] at shallow
      rw [Doc.bytes, List.length_append, patched_head_length kind declared _ fits] at room
      have outer : writer.openedContainers.items.length < 16 := by omega
      have began := begin_returned implements kind declared bounded writer outer (by omega)
      have ran := docs_run implements children inner (writer.opened kind declared outer)
        (by simp only [opened, WtfBuffer.push_available]; omega)
        (by simp only [opened, List.length_cons, counted_opened_length]; omega)
      have closed := close_returned implements kind declared children whole writer outer
      rw [Doc.ops, execAll, Cxx.forEach_cons_returned began, Cxx.forEach_append_returned ran,
        Cxx.forEach_cons_returned (by exact closed), Cxx.forEach_nil, Doc.values]
      rfl

theorem docs_run (implements : Implements mp) : (docs : List Doc) → Doc.ValidAll docs →
    (writer : MpWriter) → (Doc.bytesAll mp docs).length ≤ writer.buf.available →
    writer.openedContainers.items.length + Doc.depthAll docs ≤ 16 →
    execAll mp (Doc.opsAll docs) writer =
      .returned () (writer.written (Doc.bytesAll mp docs) (Doc.valuesAll docs).length)
  | [], _, writer, _, _ => by
      rw [Doc.opsAll, Doc.bytesAll, Doc.valuesAll, List.length_nil, written_nothing]
      rfl
  | doc :: docs, valid, writer, room, shallow => by
      rw [Doc.ValidAll] at valid
      rw [Doc.bytesAll, List.length_append] at room
      rw [Doc.depthAll] at shallow
      have first := doc_run implements doc valid.1 writer (by omega) (by omega)
      have later := docs_run implements docs valid.2
        (writer.written (doc.bytes mp) doc.values.length)
        (by rw [written_buf, WtfBuffer.push_available]; omega)
        (by rw [written_opened, WtfStack.map_top_length]; omega)
      rw [Doc.opsAll, execAll, Cxx.forEach_append_returned first]
      rw [execAll] at later
      rw [later, written_written, Doc.bytesAll, Doc.valuesAll, List.length_append]
end

end Run

/-- `child` is a document at some depth of `docs`, and `front` is the call
sequence before its first call. -/
inductive Doc.Inside (child : Doc) : List Doc → List WriterOp → Prop
  | here (before behind : List Doc) :
      Doc.Inside child (before ++ child :: behind) (Doc.opsAll before)
  | under (before behind : List Doc) (kind : Container) (declared : Nat) (children : List Doc)
      (front : List WriterOp) (inside : Doc.Inside child children front) :
      Doc.Inside child (before ++ .container kind declared children :: behind)
        (Doc.opsAll before ++ .begin kind declared :: front)

theorem valid_all_append (before behind : List Doc) :
    Doc.ValidAll (before ++ behind) ↔ Doc.ValidAll before ∧ Doc.ValidAll behind := by
  induction before with
  | nil => simp [Doc.ValidAll]
  | cons doc before ih => simp [Doc.ValidAll, ih, and_assoc]

theorem bytes_all_append (mp : Msgpuck) (before behind : List Doc) :
    Doc.bytesAll mp (before ++ behind) = Doc.bytesAll mp before ++ Doc.bytesAll mp behind := by
  induction before with
  | nil => simp [Doc.bytesAll]
  | cons doc before ih => simp [Doc.bytesAll, ih]

theorem depth_all_append (before behind : List Doc) :
    Doc.depthAll (before ++ behind) = max (Doc.depthAll before) (Doc.depthAll behind) := by
  induction before with
  | nil => simp [Doc.depthAll]
  | cons doc before ih => simp [Doc.depthAll, ih, Nat.max_assoc]

section Children
variable {mp : Msgpuck}

theorem inside_reached (implements : Implements mp) {child : Doc} {docs : List Doc}
    {front : List WriterOp} (inside : Doc.Inside child docs front) (valid : Doc.ValidAll docs)
    (writer : MpWriter) (room : (Doc.bytesAll mp docs).length ≤ writer.buf.available)
    (shallow : writer.openedContainers.items.length + Doc.depthAll docs ≤ 16) :
    ∃ middle before behind, execAll mp front writer = .returned () middle ∧
      Doc.bytesAll mp docs = before ++ child.bytes mp ++ behind ∧
      middle.buf.size = writer.buf.size + before.length ∧
      execAll mp child.ops middle =
        .returned () (middle.written (child.bytes mp) child.values.length) := by
  -- on the way down to the child: a header is as long when it is opened as when it is closed
  induction inside generalizing writer with
  | here before behind =>
      rw [valid_all_append, Doc.ValidAll] at valid
      rw [bytes_all_append, Doc.bytesAll, List.length_append, List.length_append] at room
      rw [depth_all_append, Doc.depthAll] at shallow
      have ran := docs_run implements before valid.1 writer (by omega) (by omega)
      refine ⟨_, Doc.bytesAll mp before, Doc.bytesAll mp behind, ran, ?_, ?_, ?_⟩
      · rw [bytes_all_append, Doc.bytesAll, List.append_assoc]
      · simp [WtfBuffer.size]
      · apply doc_run implements child valid.2.1
        · rw [written_buf, WtfBuffer.push_available]
          omega
        · rw [written_opened, WtfStack.map_top_length]
          omega
  | under before behind kind declared children front inside ih =>
      rw [valid_all_append, Doc.ValidAll, Doc.Valid] at valid
      obtain ⟨earlier, ⟨inner, bounded, few, paired, fits⟩, _⟩ := valid
      have width := patched_head_length kind declared _ fits
      rw [bytes_all_append, Doc.bytesAll, Doc.bytes] at room
      simp only [List.length_append] at room
      rw [depth_all_append, Doc.depthAll, Doc.depth] at shallow
      have ran := docs_run implements before earlier writer (by omega) (by omega)
      have outer : (writer.written (Doc.bytesAll mp before)
          (Doc.valuesAll before).length).openedContainers.items.length < 16 := by
        rw [written_opened, WtfStack.map_top_length]
        omega
      have began := begin_returned implements kind declared bounded _ outer
        (by rw [written_buf, WtfBuffer.push_available]; omega)
      obtain ⟨middle, first, last, reached, text, size, rest⟩ := ih inner
        (MpWriter.opened kind declared _ outer)
        (by simp only [opened, written_buf, WtfBuffer.push_available]; omega)
        (by simp only [opened, List.length_cons, counted_opened_length, written_opened,
              WtfStack.map_top_length]; omega)
      refine ⟨middle, Doc.bytesAll mp before ++ patchedHead kind declared
        (kind.cardinality (Doc.valuesAll children).length) ++ first,
        last ++ Doc.bytesAll mp behind, ?_, ?_, ?_, rest⟩
      · rw [execAll, Cxx.forEach_append_returned ran, Cxx.forEach_cons_returned began]
        exact reached
      · rw [bytes_all_append, Doc.bytesAll, Doc.bytes, text]
        simp only [List.append_assoc]
      · rw [size]
        simp only [opened, written_buf, WtfBuffer.size, WtfBuffer.push_content,
          List.length_append, width]
        omega

/-- Whole documents written to a buffer with nothing open: what stands in the
buffer afterwards encodes exactly the values written, and every document inside
stands where its own calls put it. -/
theorem documents_written (implements : Implements mp) (docs : List Doc)
    (valid : Doc.ValidAll docs) (buf : WtfBuffer UInt8)
    (room : (Doc.bytesAll mp docs).length ≤ buf.available)
    (shallow : Doc.depthAll docs ≤ 16) :
    ∃ after text, execAll mp (Doc.opsAll docs) (MpWriter.ofBuffer buf) = .returned () after ∧
      after.openedContainers.items = [] ∧
      after.buf.content = buf.content ++ text ∧
      EncodesAll (Doc.valuesAll docs) text ∧ decodeAll text = some (Doc.valuesAll docs) ∧
      ∀ child front, Doc.Inside child docs front →
        ∃ before closed, execAll mp front (MpWriter.ofBuffer buf) = .returned () before ∧
          execAll mp child.ops before = .returned () closed ∧
          closed.buf.content = before.buf.content ++ child.bytes mp ∧
          (after.buf.content.drop before.buf.size).take (child.bytes mp).length =
            child.bytes mp := by
  have encodes := docs_encode implements docs valid
  have nothing : (MpWriter.ofBuffer buf).openedContainers.items.length + Doc.depthAll docs ≤ 16 := by
    simpa [MpWriter.ofBuffer, WtfStack.empty] using shallow
  have ran := docs_run implements docs valid (MpWriter.ofBuffer buf) room nothing
  refine ⟨_, _, ran, rfl, rfl, encodes, decode_all_exact encodes, ?_⟩
  intro child front inside
  obtain ⟨middle, first, last, reached, text, size, written⟩ :=
    inside_reached implements inside valid (MpWriter.ofBuffer buf) room nothing
  refine ⟨middle, _, reached, written, rfl, ?_⟩
  have place : buf.content.length + first.length = (buf.content ++ first).length := by simp
  have whole : buf.content ++ (first ++ child.bytes mp ++ last) =
      (buf.content ++ first) ++ (child.bytes mp ++ last) := by simp only [List.append_assoc]
  rw [size, written_buf, WtfBuffer.push_content, text]
  simp only [MpWriter.ofBuffer, WtfBuffer.size]
  rw [place, whole, List.drop_left, List.take_left]

end Children

/-- An array declared too large around a map, a counted and an uncounted range. -/
def nestedDocs : List Doc :=
  [.container .array 15 [.scalar (.int (-1)),
    .container .map 3 [.scalar (.str [0x6b]), .bulk [0xc0] 0 [.nil]],
    .bulk [0x01, 0x02] 2 [.int 1, .int 2]]]

theorem documents_written_nested :
    ∃ after text, execAll reference (Doc.opsAll nestedDocs) (MpWriter.ofBuffer (WtfBuffer.ofSize 64)) =
        .returned () after ∧
      after.openedContainers.items = [] ∧
      after.buf.content = (WtfBuffer.ofSize 64).content ++ text ∧
      EncodesAll (Doc.valuesAll nestedDocs) text ∧
      decodeAll text = some (Doc.valuesAll nestedDocs) ∧
      ∀ child front, Doc.Inside child nestedDocs front →
        ∃ before closed,
          execAll reference front (MpWriter.ofBuffer (WtfBuffer.ofSize 64)) = .returned () before ∧
          execAll reference child.ops before = .returned () closed ∧
          closed.buf.content = before.buf.content ++ child.bytes reference ∧
          (after.buf.content.drop before.buf.size).take (child.bytes reference).length =
            child.bytes reference := by
  apply documents_written reference_implements
  · have nil : EncodesAll [.nil] [0xc0] :=
      encodes_all_singleton (encodes_plain encode_nil_head rfl)
    have pair : EncodesAll [.int 1, .int 2] [0x01, 0x02] :=
      encodes_all_cons (encodes_plain (fix_uint_head 1 (by decide)) rfl)
        (encodes_all_singleton (encodes_plain (fix_uint_head 2 (by decide)) rfl))
    simp [nestedDocs, Doc.ValidAll, Doc.Valid, Scalar.Valid, HeaderFits, Doc.valuesAll, Doc.values,
      Container.cardinality, Container.encode, encodeArrayHead, encodeMapHead, nil, pair]
  · simp [nestedDocs, Doc.bytesAll, Doc.bytes, scalarText, scalarBytes, reference, patchedHead,
      Doc.valuesAll, Doc.values, Container.cardinality, Container.encode, encodeArrayHead,
      encodeMapHead, encodeStrHead, encodeInt, WtfBuffer.ofSize, WtfBuffer.available]
  · simp [nestedDocs, Doc.depthAll, Doc.depth]

end Cpp2tnt
