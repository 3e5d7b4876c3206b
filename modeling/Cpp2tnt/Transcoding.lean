import Cpp2tnt.FillContainer
import Cpp2tnt.Negotiation

/-!
Items copied from a reader into a writer. A reader hands over one item at a time,
and a plain range is copied until nothing is left of it. The memory that is read
lies outside the buffer that is written.
-/

namespace Cpp2tnt
open Imperative MessagePack MpWriter

abbrev Copy := Cxx Exn (MpWriter × MpReader)

namespace Copy

def onWriter {α : Type} (body : Write α) : Copy α :=
  Cxx.zoom Prod.fst (fun writer state => (writer, state.2)) body

def onReader {α : Type} (body : Read α) : Copy α :=
  Cxx.zoom Prod.snd (fun reader state => (state.1, reader)) body

end Copy

section Copying
variable (mp : Msgpuck) (mem : Bytes)

/-- `mp_raw_view(begin, r.pos() - begin)`; it counts as one item. -/
def passedView (before after : MpReader) : MpRawView :=
  match before.currentPos, after.currentPos with
  | some first, some last => ⟨(mem.drop first).take (last - first), 1⟩
  | _, _ => ⟨[], 1⟩

/-- `operator<<(mp_reader &)`. -/
def copyItem : Copy Unit := do
  let before ← Copy.onReader Cxx.get
  Copy.onReader (skip mp mem)
  let after ← Copy.onReader Cxx.get
  let view := passedView mem before after
  Copy.onWriter (MpWriter.write mp view.bytes view.cardinality.toNat)

/-- The loop of `operator<<(const mp_plain &)`. The fuel covers every run in which `mp_next` moves
forward. -/
def copyItems : Nat → Copy Unit
  | 0 => Cxx.undefined
  | fuel + 1 => do
      if !(← Copy.onReader (hasNext true)) then return ()
      copyItem mp mem
      copyItems fuel

/-- `operator<<(const mp_plain &)`; the reader is a local object. -/
def writePlain (src : MpReader) : Write Unit := fun writer =>
  match copyItems mp mem (mem.length + 1) (writer, src) with
  | .returned () after => .returned () after.1
  | .thrown error after => .thrown error after.1
  | .undefined => .undefined

end Copying

section Items
variable {mp : Msgpuck} {mem item rest : Bytes} {items : List Bytes} {reader : MpReader}
  {writer : MpWriter}

theorem passed_item (stands : Stands mem reader item rest) :
    passedView mem reader (reader.advance item.length) = ⟨item, 1⟩ := by
  obtain ⟨pos, current, found, -⟩ := stands.placed
  have next : (reader.advance item.length).currentPos = some (pos + item.length) := by
    rw [MpReader.advance, current]
    rfl
  rw [passedView, current, next]
  simp only [Nat.add_sub_cancel_left, found, List.take_left]

theorem copy_item_returned (implements : Implements mp) {value : Value}
    (encodes : Encodes value item) (stands : Stands mem reader item rest)
    (room : item.length ≤ writer.buf.available) :
    copyItem mp mem (writer, reader) =
      .returned () (writer.written item 1, reader.advance item.length) := by
  have read : ∀ state : MpWriter × MpReader,
      Copy.onReader Cxx.get state = .returned state.2 state := fun _ => rfl
  have moved : Copy.onReader (skip mp mem) (writer, reader) =
      .returned () (writer, reader.advance item.length) :=
    Cxx.zoom_returned (skip_returned implements encodes stands)
  have wrote : Copy.onWriter (MpWriter.write mp item 1) (writer, reader.advance item.length) =
      .returned () (writer.written item 1, reader.advance item.length) :=
    Cxx.zoom_returned (write_returned implements item 1 [value] (encodes_all_singleton encodes)
      (.inl rfl) writer room)
  rw [copyItem, Cxx.bind_returned (read _), Cxx.bind_returned moved, Cxx.bind_returned (read _),
    passed_item stands]
  exact wrote

theorem copy_items_each (implements : Implements mp)
    (formed : ∀ item ∈ items, ∃ value, Encodes value item) (later : List Bytes)
    (facing : Facing mem reader (items ++ later) rest)
    (room : items.flatten.length ≤ writer.buf.available) :
    ∃ after, Cxx.forEach (fun _ => copyItem mp mem) (List.replicate items.length ())
        (writer, reader) = .returned () (writer.written items.flatten items.length, after) ∧
      Facing mem after later rest ∧ after.shape = reader.shape := by
  induction items generalizing reader writer with
  | nil =>
      refine ⟨reader, ?_, facing, rfl⟩
      rw [List.flatten_nil, List.length_nil, written_nothing]
      rfl
  | cons item items ih =>
      obtain ⟨⟨value, encodes⟩, others⟩ := List.forall_mem_cons.mp formed
      rw [List.flatten_cons, List.length_append] at room
      have copied : copyItem mp mem (writer, reader) =
          .returned () (writer.written item 1, reader.advance item.length) :=
        copy_item_returned implements encodes facing.first (by omega)
      have left : items.flatten.length ≤ (writer.written item 1).buf.available := by
        rw [written_buf, WtfBuffer.push_available]
        omega
      obtain ⟨after, ran, behind, same⟩ := ih others facing.later left
      refine ⟨after, ?_, behind, same⟩
      rw [written_written, Nat.add_comm 1] at ran
      rw [List.flatten_cons, List.length_cons, List.replicate_succ]
      exact (Cxx.bind_returned copied _).trans ran

theorem copy_items_pass (implements : Implements mp)
    (formed : ∀ item ∈ items, ∃ value, Encodes value item) (tail : Bytes) {pos last : Nat}
    (plain : reader.shape = .plain) (current : reader.currentPos = some pos)
    (bound : reader.endPos = some last) (found : mem.drop pos = items.flatten ++ tail)
    (within : pos + items.flatten.length ≤ last)
    (room : items.flatten.length ≤ writer.buf.available) (fuel : Nat) :
    ∃ after : MpReader, after.shape = .plain ∧
      after.currentPos = some (pos + items.flatten.length) ∧ after.endPos = some last ∧
      copyItems mp mem (fuel + items.length) (writer, reader) =
        copyItems mp mem fuel (writer.written items.flatten items.length, after) := by
  -- on the items: each is one pass of the loop, whatever fuel is left
  induction items generalizing reader writer pos with
  | nil =>
      refine ⟨reader, plain, current, bound, ?_⟩
      rw [List.flatten_nil, List.length_nil, written_nothing]
      rfl
  | cons item items ih =>
      obtain ⟨⟨value, encodes⟩, others⟩ := List.forall_mem_cons.mp formed
      rw [List.flatten_cons, List.length_append] at within room
      rw [List.flatten_cons, List.append_assoc] at found
      have stands : Stands mem reader item (items.flatten ++ tail) := by
        apply stands_plain plain current found
        intro limit same
        rw [bound, Option.mem_some_iff] at same
        omega
      have more : hasNext true reader = .returned true reader :=
        has_next_returned stands encodes.length_pos (.inl (bound ▸ rfl))
      have goes : Copy.onReader (hasNext true) (writer, reader) =
          .returned true (writer, reader) := Cxx.zoom_returned more
      have copied : copyItem mp mem (writer, reader) =
          .returned () (writer.written item 1, reader.advance item.length) :=
        copy_item_returned implements encodes stands (by omega)
      have next : (reader.advance item.length).currentPos = some (pos + item.length) := by
        rw [MpReader.advance, current]
        rfl
      have left : items.flatten.length ≤ (writer.written item 1).buf.available := by
        rw [written_buf, WtfBuffer.push_available]
        omega
      obtain ⟨after, shape, place, stop, ran⟩ := @ih (reader.advance item.length)
        (writer.written item 1) others (pos + item.length) plain next bound
        (by rw [← List.drop_drop, found, List.drop_left]) (by omega) left
      refine ⟨after, shape, ?_, stop, ?_⟩
      · rw [place, List.flatten_cons, List.length_append, Nat.add_assoc]
      · rw [written_written, Nat.add_comm 1] at ran
        rw [List.length_cons, List.flatten_cons, ← Nat.add_assoc, copyItems,
          Cxx.bind_returned goes]
        exact (Cxx.bind_returned copied _).trans ran

theorem copy_ends {pos : Nat} (current : reader.currentPos = some pos)
    (bound : reader.endPos = some pos) (fuel : Nat) :
    copyItems mp mem (fuel + 1) (writer, reader) = .returned () (writer, reader) := by
  have ended : hasNext true reader = .returned false reader := by
    simp [hasNext, current, bound]
  have stops : Copy.onReader (hasNext true) (writer, reader) =
      .returned false (writer, reader) := Cxx.zoom_returned ended
  rw [copyItems, Cxx.bind_returned stops]
  rfl

theorem copy_cut (implements : Implements mp) {value : Value} (encodes : Encodes value item)
    {pos last : Nat} (plain : reader.shape = .plain) (current : reader.currentPos = some pos)
    (bound : reader.endPos = some last) (found : mem.drop pos = item ++ rest)
    (begun : pos < last) (cut : last < pos + item.length) (fuel : Nat) :
    copyItems mp mem (fuel + 1) (writer, reader) =
      .thrown (mpReaderError "invalid messagepack") (writer, reader) := by
  have more : hasNext true reader = .returned true reader := by
    simp [hasNext, current, bound, begun]
  have goes : Copy.onReader (hasNext true) (writer, reader) =
      .returned true (writer, reader) := Cxx.zoom_returned more
  have bytes : mp.mpNext (bytesAt mem (some pos)) = item.length := by
    change mp.mpNext (mem.drop pos) = item.length
    rw [found, implements.next value item rest encodes]
  have refused : skip mp mem reader = .thrown (mpReaderError "invalid messagepack") reader := by
    have inside : ¬ last ≤ pos := by omega
    simp [skip, atEnd, bytes, plain, Shape.limit, current, bound, MpReader.advance, inside, cut]
  have thrown : copyItem mp mem (writer, reader) =
      .thrown (mpReaderError "invalid messagepack") (writer, reader) := by
    have moved : Copy.onReader (skip mp mem) (writer, reader) =
        .thrown (mpReaderError "invalid messagepack") (writer, reader) := by
      rw [Copy.onReader, Cxx.zoom, refused]
    exact Cxx.bind_thrown moved _
  rw [copyItems, Cxx.bind_returned goes]
  exact Cxx.bind_thrown thrown _

theorem items_count (formed : ∀ item ∈ items, ∃ value, Encodes value item) :
    items.length ≤ items.flatten.length := by
  obtain ⟨values, length, encodes⟩ := items_encode formed
  exact length.symm.trans_le (EncodesAll.length_le encodes)

/-- A range of whole items is copied as `write` would append it. What stands behind them is not
copied when it is less than an item; the items before it are. -/
theorem plain_copied (implements : Implements mp)
    (formed : ∀ item ∈ items, ∃ value, Encodes value item) {tail : Bytes} {first last : Nat}
    (found : mem.drop first = items.flatten ++ tail)
    (room : items.flatten.length ≤ writer.buf.available) :
    (last = first + items.flatten.length →
      writePlain mp mem (MpReader.plain first last) writer =
        MpWriter.write mp items.flatten 0 writer ∧
      writePlain mp mem (MpReader.plain first last) writer =
        .returned () (writer.written items.flatten items.length)) ∧
    ∀ value part behind, tail = part ++ behind → Encodes value part →
      first + items.flatten.length < last → last < first + items.flatten.length + part.length →
      writePlain mp mem (MpReader.plain first last) writer =
        .thrown (mpReaderError "invalid messagepack")
          (writer.written items.flatten items.length) := by
  have count := items_count formed
  have size := congrArg List.length found
  rw [List.length_drop, List.length_append] at size
  obtain ⟨fuel, enough⟩ : ∃ fuel, mem.length + 1 = fuel + 1 + items.length :=
    ⟨mem.length - items.length, by omega⟩
  refine ⟨?_, ?_⟩
  · rintro rfl
    obtain ⟨after, plain, current, bound, ran⟩ := copy_items_pass implements formed tail
      (rfl : (MpReader.plain first (first + items.flatten.length)).shape = .plain) rfl rfl found
      (Nat.le_refl _) room (fuel + 1)
    have copied : writePlain mp mem (MpReader.plain first (first + items.flatten.length)) writer =
        .returned () (writer.written items.flatten items.length) := by
      rw [writePlain, enough, ran, copy_ends current bound]
    obtain ⟨values, length, encodes⟩ := items_encode formed
    have wrote := write_returned implements items.flatten 0 values encodes (.inr rfl) writer room
    rw [length] at wrote
    exact ⟨copied.trans wrote.symm, copied⟩
  · rintro value part behind rfl encodes begun cut
    obtain ⟨after, plain, current, bound, ran⟩ := copy_items_pass implements formed
      (part ++ behind) (rfl : (MpReader.plain first last).shape = .plain) rfl rfl found
      (Nat.le_of_lt begun) room (fuel + 1)
    have here : mem.drop (first + items.flatten.length) = part ++ behind := by
      rw [← List.drop_drop, found, List.drop_left]
    rw [writePlain, enough, ran, copy_cut implements encodes plain current bound here begun cut]

/-- A number, nil and the first bytes of a wider number. -/
theorem cut_range_copied :
    writePlain reference [0x01, 0xc0, 0xcd, 0x01, 0x02] (MpReader.plain 0 2)
        (MpWriter.ofBuffer (WtfBuffer.ofSize 8)) =
        .returned () ((MpWriter.ofBuffer (WtfBuffer.ofSize 8)).written [0x01, 0xc0] 2) ∧
      writePlain reference [0x01, 0xc0, 0xcd, 0x01, 0x02] (MpReader.plain 0 4)
        (MpWriter.ofBuffer (WtfBuffer.ofSize 8)) =
        .thrown (mpReaderError "invalid messagepack")
          ((MpWriter.ofBuffer (WtfBuffer.ofSize 8)).written [0x01, 0xc0] 2) := by
  have formed : ∀ item ∈ [[0x01], [0xc0]], ∃ value, Encodes value (item : Bytes) := by
    intro item member
    rcases List.mem_pair.mp member with rfl | rfl
    · exact ⟨_, encodes_plain (fix_uint_head 1 (by decide)) rfl⟩
    · exact ⟨_, encodes_plain encode_nil_head rfl⟩
  have wide : Encodes (.int 258) [0xcd, 0x01, 0x02] :=
    encodes_plain (wide_uint_head 2 0xcd 258 (by decide) (by decide)) rfl
  have room : ([0x01, 0xc0] : Bytes).length ≤
      (MpWriter.ofBuffer (WtfBuffer.ofSize 8)).buf.available := by decide
  have found : ([0x01, 0xc0, 0xcd, 0x01, 0x02] : Bytes).drop 0 =
      ([[0x01], [0xc0]] : List Bytes).flatten ++ [0xcd, 0x01, 0x02] := rfl
  refine ⟨?_, ?_⟩
  · exact ((plain_copied reference_implements formed found room).1 rfl).2
  · exact (plain_copied reference_implements formed found room).2 _ _ [] rfl wide (by decide)
      (by decide)

/-- `>> mp_reader<mp_array>` or `>> mp_reader<mp_map>`. -/
def readNested (mp : Msgpuck) (mem : Bytes) : Container → Read MpReader
  | .array => readArray mp mem
  | .map => readMap mp mem

theorem inner_returned (implements : Implements mp) (kind : Container) {front : Bytes}
    (formed : ∀ item ∈ items, ∃ value, Encodes value item)
    (headed : HeadEncodes (kind.head (kind.cardinality items.length)) front)
    (paired : kind = .map → items.length % 2 = 0)
    (stands : Stands mem reader (front ++ items.flatten) rest) :
    ∃ inside, readNested mp mem kind reader =
        .returned inside (reader.advance (front ++ items.flatten).length) ∧
      inside.shape.cardinality = kind.cardinality items.length ∧ Facing mem inside items rest := by
  obtain ⟨values, length, inner⟩ := items_encode formed
  cases kind with
  | array =>
      change HeadEncodes (.array items.length) front at headed
      rw [← length] at headed
      obtain ⟨pos, -, found, read⟩ := read_array_returned implements headed inner stands
      rw [length] at read
      refine ⟨_, read, rfl, inner_facing found ?_⟩
      rintro _ ⟨⟩
      exact Nat.le_refl _
  | map =>
      have even := paired rfl
      have twice : values.length = 2 * (items.length / 2) := by omega
      obtain ⟨pos, -, found, read⟩ := read_map_returned implements headed twice inner stands
      refine ⟨_, read, rfl, inner_facing found ?_⟩
      have half : Container.map.cardinality items.length = items.length / 2 := rfl
      rintro _ ⟨⟩
      omega

/-- A nested reader copied item by item between `begin` and `finalize`: whatever header it had, what
is written is the same array or map under the shortest one. -/
theorem container_transcoded (implements : Implements mp) (kind : Container) {front : Bytes}
    (formed : ∀ item ∈ items, ∃ value, Encodes value item) (few : items.length < 2 ^ 32)
    (headed : HeadEncodes (kind.head (kind.cardinality items.length)) front)
    (paired : kind = .map → items.length % 2 = 0)
    (stands : Stands mem reader (front ++ items.flatten) rest)
    (outer : writer.openedContainers.items.length < 16)
    (room : (kind.encode (kind.cardinality items.length) ++ items.flatten).length ≤
      writer.buf.available) :
    ∃ inside after values, values.length = items.length ∧
      readNested mp mem kind reader =
        .returned inside (reader.advance (front ++ items.flatten).length) ∧
      (do
        Copy.onWriter (WriterOp.exec mp (.begin kind inside.shape.cardinality))
        Cxx.forEach (fun _ => copyItem mp mem) (List.replicate items.length ())
        Copy.onWriter (MpWriter.finalize mp)) (writer, inside) = .returned ()
          (writer.written (kind.encode (kind.cardinality items.length) ++ items.flatten) 1,
            after) ∧
      hasNext false after = .returned false after ∧
      Encodes (kind.value values) (front ++ items.flatten) ∧
      Encodes (kind.value values)
        (kind.encode (kind.cardinality items.length) ++ items.flatten) := by
  obtain ⟨values, length, encodes⟩ := items_encode formed
  obtain ⟨inside, read, counted, facing⟩ := inner_returned implements kind formed headed paired
    stands
  have bounded := cardinality_lt kind items.length few
  have even : kind = .map → values.length % 2 = 0 := fun map => length.symm ▸ paired map
  rw [List.length_append] at room
  let body : Doc := .bulk items.flatten values.length values
  have all : Doc.valuesAll [body] = values := List.append_nil values
  have valid : (Doc.container kind (kind.cardinality items.length) [body]).Valid := by
    rw [Doc.Valid, all, length]
    exact ⟨⟨⟨encodes, .inl rfl⟩, trivial⟩, bounded, few, paired, Nat.le_refl _⟩
  -- as a document the copy is one bulk write inside the container
  have began := begin_returned implements kind (kind.cardinality items.length) bounded writer outer
    (by omega)
  let opened := writer.opened kind (kind.cardinality items.length) outer
  have left : items.flatten.length ≤ opened.buf.available := by
    simp only [opened, MpWriter.opened, WtfBuffer.push_available]
    omega
  obtain ⟨after, ran, ended, -⟩ := @copy_items_each mp mem rest items inside opened implements
    formed [] (by rwa [List.append_nil]) left
  have closed := close_returned implements kind (kind.cardinality items.length) [body] valid writer
    outer
  have text : (Doc.container kind (kind.cardinality items.length) [body]).bytes mp =
      kind.encode (kind.cardinality items.length) ++ items.flatten := by
    rw [Doc.bytes, all, length, patchedHead, if_pos rfl]
    exact congrArg _ (List.append_nil _)
  have bytes : Doc.bytesAll mp [body] = items.flatten := List.append_nil _
  rw [text, bytes, all, length] at closed
  refine ⟨inside, after, values, length, read, ?_, ended.ended, ?_, ?_⟩
  · rw [counted]
    refine (Cxx.bind_returned (Cxx.zoom_returned began) _).trans ?_
    refine (Cxx.bind_returned ran _).trans ?_
    exact Cxx.zoom_returned closed
  · exact encodes_container kind (length ▸ headed) even encodes
  · exact encodes_container kind (by rw [length]; exact kind.encode_head _ bounded) even encodes

/-- An array of one number under a header of three bytes. -/
theorem wide_array_transcoded : ∃ inside after,
    readNested reference [0xdc, 0x00, 0x01, 0x07] .array (MpReader.plain 0 4) =
        .returned inside ((MpReader.plain 0 4).advance 4) ∧
      (do
        Copy.onWriter (WriterOp.exec reference (.begin .array inside.shape.cardinality))
        Cxx.forEach (fun _ => copyItem reference [0xdc, 0x00, 0x01, 0x07]) (List.replicate 1 ())
        Copy.onWriter (MpWriter.finalize reference))
          (MpWriter.ofBuffer (WtfBuffer.ofSize 8), inside) = .returned ()
          ((MpWriter.ofBuffer (WtfBuffer.ofSize 8)).written [0x91, 0x07] 1, after) := by
  have seven : Encodes (.int 7) [0x07] := encodes_plain (fix_uint_head 7 (by decide)) rfl
  have formed : ∀ item ∈ [[0x07]], ∃ value, Encodes value (item : Bytes) := by
    intro item member
    rw [List.mem_singleton.mp member]
    exact ⟨_, seven⟩
  have headed : HeadEncodes (Container.array.head 1) [0xdc, 0x00, 0x01] := fun _ => rfl
  have stands : Stands [0xdc, 0x00, 0x01, 0x07] (MpReader.plain 0 4)
      ([0xdc, 0x00, 0x01] ++ ([[0x07]] : List Bytes).flatten) [] :=
    stands_between rfl (Nat.le_refl _)
  obtain ⟨inside, after, _, _, read, copied, _⟩ := container_transcoded reference_implements .array
    formed (by decide) headed (fun map => by cases map) stands
    (by decide : (MpWriter.ofBuffer (WtfBuffer.ofSize 8)).openedContainers.items.length < 16)
    (by decide)
  exact ⟨inside, after, read, copied⟩

end Items

end Cpp2tnt
