import Cpp2tnt.BufferMemory
import Cpp2tnt.LedgerSimulation

/-!
`write(begin, end, cardinality)` over a range outside the buffer. The destination
is the end of the content at the time of the call. It is still inside the buffer
after `resize` when nothing had to grow. `PlacedWriter` knows the addresses and
finds out, `MpWriter` takes it that growing moves the storage.
-/

namespace Cpp2tnt
open Imperative MessagePack MpWriter

def Refused (writer : MpWriter) (bytes : Bytes) : Prop :=
  writer.buf.target = .raw false ∧ writer.buf.available < bytes.length

instance (writer : MpWriter) (bytes : Bytes) : Decidable (Refused writer bytes) :=
  inferInstanceAs (Decidable (_ ∧ _))

/-- The buffer holds the old content and then the range; where it cannot grow the
writer is as it was. What counting the items throws does not take the range back. -/
def AppendsRange (mp : Msgpuck) (writer : MpWriter) (bytes : Bytes) (cardinality : Nat) : Prop :=
  match MpWriter.write mp bytes cardinality writer with
  | .returned _ after => ¬ Refused writer bytes ∧
      after.buf.content = writer.buf.content ++ bytes
  | .thrown _ after => if Refused writer bytes then after = writer
      else after.buf.content = writer.buf.content ++ bytes
  | .undefined => False

section Counting
variable {mp : Msgpuck} {writer : MpWriter} {bytes : Bytes}

theorem skip_plain {mem : Bytes} {reader : MpReader} {pos last : Nat} (plain : reader.shape = .plain)
    (stands : reader.currentPos = some pos) (ends : reader.endPos = some last) (more : pos < last) :
    skip mp mem reader = if last < pos + mp.mpNext (mem.drop pos) then
        .thrown (mpReaderError "invalid messagepack") reader
      else .returned () (reader.advance (mp.mpNext (mem.drop pos))) := by
  have going : atEnd reader = false := by simp [atEnd, stands, ends, more]
  have uncounted : reader.shape.limit = none := by rw [plain]; rfl
  have found : bytesAt mem (some pos) = mem.drop pos := rfl
  simp only [skip, Cxx.bind_get, going, uncounted, found, Option.any_none, Bool.false_eq_true,
    if_false, ends, MpReader.advance, stands, Option.map_some]
  split_ifs <;> rfl

theorem count_items_ends (moves : MovesForward mp) (fuel : Nat) (reader : MpReader)
    (plain : reader.shape = .plain) {pos : Nat} (stands : reader.currentPos = some pos)
    (ends : reader.endPos = some bytes.length) (within : pos ≤ bytes.length)
    (enough : bytes.length < pos + fuel) : countItems mp bytes fuel reader ≠ .undefined := by
  -- every item takes a byte at least, so the bytes are used up before the passes
  induction fuel generalizing reader pos with
  | zero => omega
  | succ fuel ih =>
      have asked : hasNext false reader = .returned (decide (pos < bytes.length)) reader := by
        simp [hasNext, ends, stands]
      rw [countItems, Cxx.bind_returned asked]
      by_cases more : pos < bytes.length
      · have behind : bytes.drop pos ≠ [] :=
          List.ne_nil_of_length_pos (by rw [List.length_drop]; omega)
        have forward := moves _ behind
        have skipped : skip mp bytes reader = _ := skip_plain plain stands ends more
        simp only [more, decide_true, Bool.not_true, Bool.false_eq_true, if_false]
        split_ifs at skipped with beyond
        · rw [Cxx.bind_thrown skipped]
          intro impossible
          cases impossible
        · have reached : (reader.advance (mp.mpNext (bytes.drop pos))).currentPos =
              some (pos + mp.mpNext (bytes.drop pos)) := by
            rw [MpReader.advance, stands]
            rfl
          have rest := ih (reader.advance (mp.mpNext (bytes.drop pos))) plain reached ends
            (by omega) (by omega)
          rw [Cxx.bind_returned skipped, Cxx.bind_run]
          cases again : countItems mp bytes fuel (reader.advance (mp.mpNext (bytes.drop pos))) with
          | undefined => exact absurd again rest
          | returned _ _ | thrown _ _ =>
              intro impossible
              cases impossible
      · simp [more]

theorem count_range_ends (moves : MovesForward mp) (cardinality : Nat) :
    (∃ items, countRange mp bytes cardinality writer = .returned () (writer.counted items)) ∨
      ∃ error, countRange mp bytes cardinality writer = .thrown error writer := by
  by_cases given : cardinality = 0 ∧ writer.openedContainers.items ≠ []
  · obtain ⟨rfl, nested⟩ := given
    have inside : (!writer.openedContainers.items.isEmpty) = true := by
      rw [Bool.not_eq_true', List.isEmpty_eq_false_iff]
      exact nested
    have ends := count_items_ends moves (bytes.length + 1) (MpReader.plain 0 bytes.length) rfl rfl
      rfl (Nat.zero_le _) (by omega)
    rw [countRange, Cxx.bind_get, if_pos inside, if_pos rfl, Cxx.bind_run, Cxx.onObject]
    cases counting : countItems mp bytes (bytes.length + 1) (MpReader.plain 0 bytes.length) with
    | undefined => exact absurd counting ends
    | returned items reader => exact .inl ⟨items, rfl⟩
    | thrown error reader => exact .inr ⟨error, rfl⟩
  · exact .inl ⟨cardinality, count_range_given given⟩

end Counting

/-- Growing is taken to move the storage: without room the copy is undefined, unless the buffer
cannot grow. -/
theorem write_undefined_iff {mp : Msgpuck} (moves : MovesForward mp) {writer : MpWriter}
    {bytes : Bytes} {cardinality : Nat} : MpWriter.write mp bytes cardinality writer = .undefined ↔
      ¬ (bytes.length ≤ writer.buf.available ∨ writer.buf.target = .raw false) := by
  by_cases room : bytes.length ≤ writer.buf.available
  · rw [write_within bytes cardinality room]
    refine iff_of_false ?_ (not_not_intro (.inl room))
    rcases count_range_ends moves cardinality with ⟨items, done⟩ | ⟨error, done⟩
    · rw [done]
      rintro ⟨⟩
    · rw [done]
      rintro ⟨⟩
  · by_cases fixed : writer.buf.target = .raw false
    · rw [write_refused bytes cardinality room fixed]
      refine iff_of_false ?_ (not_not_intro (.inr fixed))
      rintro ⟨⟩
    · exact iff_of_true (write_overruns bytes cardinality room fixed) fun either =>
        either.elim room fixed

theorem range_appended_iff {mp : Msgpuck} (moves : MovesForward mp) (writer : MpWriter)
    (bytes : Bytes) (cardinality : Nat) : AppendsRange mp writer bytes cardinality ↔
      bytes.length ≤ writer.buf.available ∨ writer.buf.target = .raw false := by
  by_cases room : bytes.length ≤ writer.buf.available
  · have kept : ¬ Refused writer bytes := fun refused => Nat.not_lt.mpr room refused.2
    refine iff_of_true ?_ (.inl room)
    rw [AppendsRange, write_within bytes cardinality room]
    rcases count_range_ends moves cardinality with ⟨items, done⟩ | ⟨error, done⟩
    · rw [done]
      exact ⟨kept, rfl⟩
    · rw [done]
      simp only [if_neg kept]
      rfl
  · by_cases fixed : writer.buf.target = .raw false
    · have refused : Refused writer bytes := ⟨fixed, Nat.lt_of_not_le room⟩
      refine iff_of_true ?_ (.inr fixed)
      rw [AppendsRange, write_refused bytes cardinality room fixed]
      simp only [if_pos refused]
    · refine iff_of_false ?_ fun either => either.elim room fixed
      rw [AppendsRange, write_overruns bytes cardinality room fixed]
      exact id

/-- A writer whose buffer has its pointers. -/
structure PlacedWriter where
  buf : Buffer
  openedContainers : WtfStack ContainerMeta 16

namespace PlacedWriter

def view (writer : PlacedWriter) : MpWriter := ⟨writer.buf.view, writer.openedContainers⟩

/-- `write(begin, end, cardinality)`. -/
def write (mp : Msgpuck) (growth : Growth) (bytes : Bytes) (cardinality : Nat) :
    Cxx Exn PlacedWriter Unit := do
  Cxx.zoom buf (fun buf writer => { writer with buf := buf }) (Buffer.copyRange bytes growth)
  Cxx.zoom view (fun seen writer => { writer with openedContainers := seen.openedContainers })
    (countRange mp bytes cardinality)

def total (bytes : Bytes) (writer : PlacedWriter) : Nat := writer.buf.size + bytes.length

def Refused (growth : Growth) (bytes : Bytes) (writer : PlacedWriter) : Prop :=
  writer.buf.available < bytes.length ∧ writer.buf.grownBase (writer.total bytes) growth = none

instance (growth : Growth) (bytes : Bytes) (writer : PlacedWriter) :
    Decidable (writer.Refused growth bytes) := inferInstanceAs (Decidable (_ ∧ _))

/-- `AppendsRange` of the addresses. -/
def AppendsRange (mp : Msgpuck) (growth : Growth) (bytes : Bytes) (cardinality : Nat)
    (writer : PlacedWriter) : Prop :=
  match writer.write mp growth bytes cardinality with
  | .returned _ after => ¬ writer.Refused growth bytes ∧
      after.buf.content = writer.buf.content ++ bytes
  | .thrown _ after => if writer.Refused growth bytes then after = writer
      else after.buf.content = writer.buf.content ++ bytes
  | .undefined => False

section Placed
variable {mp : Msgpuck} {growth : Growth} {bytes : Bytes} {cardinality : Nat}
variable {writer : PlacedWriter}

theorem write_counts (moves : MovesForward mp) (cardinality : Nat) {buf : Buffer}
    (copied : Buffer.copyRange bytes growth writer.buf = .returned () buf) :
    (∃ opened, writer.write mp growth bytes cardinality = .returned () ⟨buf, opened⟩) ∨
      ∃ error, writer.write mp growth bytes cardinality =
        .thrown error ⟨buf, writer.openedContainers⟩ := by
  have placed : Cxx.zoom PlacedWriter.buf (fun buf writer => { writer with buf := buf })
      (Buffer.copyRange bytes growth) writer = .returned () { writer with buf := buf } :=
    Cxx.zoom_returned copied
  rw [write, Cxx.bind_returned placed]
  rcases @count_range_ends mp (view { writer with buf := buf }) bytes moves cardinality with
    ⟨items, done⟩ | ⟨error, done⟩
  · exact .inl ⟨_, Cxx.zoom_returned done⟩
  · exact .inr ⟨error, Cxx.zoom_thrown done⟩

theorem write_refuses {error : Exn} {buf : Buffer}
    (refused : Buffer.copyRange bytes growth writer.buf = .thrown error buf) :
    writer.write mp growth bytes cardinality = .thrown error { writer with buf := buf } := by
  rw [write, Cxx.bind_thrown (Cxx.zoom_thrown refused)]

theorem write_dangles (stuck : Buffer.copyRange bytes growth writer.buf = .undefined) :
    writer.write mp growth bytes cardinality = .undefined := by
  rw [write, Cxx.bind_stuck (Cxx.zoom_stuck stuck)]

theorem appends_range_iff (moves : MovesForward mp) (bounded : writer.buf.Bounded)
    (own : writer.buf.Own) (provides : writer.buf.Provides (writer.total bytes) growth) :
    writer.AppendsRange mp growth bytes cardinality ↔ writer.buf.AppendsRange bytes growth := by
  have throws := Buffer.copy_range_throws bounded own provides
  rw [Buffer.AppendsRange]
  cases copied : Buffer.copyRange bytes growth writer.buf with
  | returned _ buf =>
      rw [copied] at throws
      have kept : ¬ writer.Refused growth bytes := throws
      rcases write_counts moves cardinality copied with
        ⟨opened, done⟩ | ⟨error, done⟩
      · rw [AppendsRange, done]
        exact and_iff_right kept
      · rw [AppendsRange, done]
        simp only [if_neg kept]
  | thrown error buf =>
      rw [copied] at throws
      obtain ⟨rfl, refused⟩ := throws
      have given : writer.Refused growth bytes := refused
      rw [AppendsRange, write_refuses copied]
      simp only [if_pos given]
  | undefined => rw [AppendsRange, write_dangles copied]

theorem view_available (bounded : writer.buf.Bounded) :
    writer.view.buf.available = writer.buf.available := by
  have whole := Buffer.view_capacity bounded
  have front := Buffer.view_size bounded
  have lower := bounded.lower
  have upper := bounded.upper
  simp only [WtfBuffer.capacity, WtfBuffer.size] at whole front
  simp only [Buffer.capacity, Buffer.size] at whole front
  simp only [view, WtfBuffer.available, Buffer.available]
  omega

theorem view_fixed_iff : writer.view.buf.target = .raw false ↔
    ∃ block, writer.buf.target = .raw block false := by
  cases kind : writer.buf.target <;> simp [view, Buffer.view, kind]

theorem dangles_iff (moves : MovesForward mp) (bounded : writer.buf.Bounded) (own : writer.buf.Own)
    (provides : writer.buf.Provides (writer.total bytes) growth)
    (apart : writer.buf.Apart (writer.total bytes) growth)
    (relocates : writer.buf.Relocates (writer.total bytes) growth) :
    writer.write mp growth bytes cardinality = .undefined ↔
      MpWriter.write mp bytes cardinality writer.view = .undefined := by
  have throws := Buffer.copy_range_throws bounded own provides
  have fixed : (∃ block, writer.buf.target = .raw block false) →
      writer.buf.grownBase (writer.total bytes) growth = none := by
    rintro ⟨block, target⟩
    rw [Buffer.grownBase, target]
    rfl
  rw [write_undefined_iff moves, view_available bounded, view_fixed_iff]
  by_cases room : bytes.length ≤ writer.buf.available
  · obtain ⟨after, done, _⟩ := Buffer.write_returned bounded room
    have copied : Buffer.copyRange bytes growth writer.buf = .returned () after :=
      (Buffer.copy_range_within bounded room).trans done
    refine iff_of_false ?_ (not_not_intro (.inl room))
    rcases write_counts moves cardinality copied with
      ⟨opened, ran⟩ | ⟨error, ran⟩
    · rw [ran]
      rintro ⟨⟩
    · rw [ran]
      rintro ⟨⟩
  · rw [or_iff_right room]
    rcases relocates with refuses | ⟨base, lies, moved⟩
    · have unplaced := fixed refuses
      have full := Nat.lt_of_not_le room
      refine iff_of_false ?_ (not_not_intro refuses)
      cases copied : Buffer.copyRange bytes growth writer.buf with
      | thrown error left =>
          rw [write_refuses copied]
          rintro ⟨⟩
      | returned _ _ | undefined =>
          rw [copied] at throws
          exact absurd ⟨full, unplaced⟩ throws
    · refine iff_of_true ?_ ?_
      · exact write_dangles (Buffer.copy_range_dangles bounded own apart room lies moved)
      · intro refuses
        cases (fixed refuses).symm.trans lies

end Placed

end PlacedWriter

/-- The range is appended if and only if it fits, or cannot be made to fit. With addresses it
is also appended where the storage grows in place over nothing but its own content, and
growth that moves leaves a dangling destination. -/
theorem bulk_append_iff {mp : Msgpuck} (moves : MovesForward mp) (writer : MpWriter) (bytes : Bytes)
    (cardinality : Nat) :
    (AppendsRange mp writer bytes cardinality ↔
      bytes.length ≤ writer.buf.available ∨ writer.buf.target = .raw false) ∧
    ∀ (placed : PlacedWriter) (growth : Growth), placed.view = writer → placed.buf.Bounded →
      placed.buf.Own → placed.buf.Provides (placed.total bytes) growth →
      placed.buf.Apart (placed.total bytes) growth →
      (placed.AppendsRange mp growth bytes cardinality ↔ bytes.length ≤ placed.buf.available ∨
        ∀ base, placed.buf.grownBase (placed.total bytes) growth = some base →
          base = placed.buf.head ∧ ∀ byte ∈ placed.buf.exposed, byte = 0) ∧
      (placed.buf.Relocates (placed.total bytes) growth →
        (placed.write mp growth bytes cardinality = .undefined ↔
          MpWriter.write mp bytes cardinality writer = .undefined)) := by
  constructor
  · exact range_appended_iff moves writer bytes cardinality
  · rintro placed growth rfl bounded own provides apart
    constructor
    · rw [placed.appends_range_iff moves bounded own provides]
      exact Buffer.appends_range_iff bounded own provides apart
    · exact PlacedWriter.dangles_iff moves bounded own provides apart

/-- An own vector of this size at the address 100. -/
def placedVector (size : Nat) : PlacedWriter := ⟨Buffer.ofSize 100 size, WtfStack.empty⟩

theorem placed_vector_bounded (size : Nat) : (placedVector size).buf.Bounded :=
  (Buffer.of_vector_bounded_iff _ _ _).mpr (Nat.zero_le _)

/-- Two bytes into a vector of one, which moves to the address 200. -/
theorem bulk_append_within :
    (AppendsRange reference (ofBuffer (WtfBuffer.ofSize 4)) [0xc3, 0xc0] 2 ↔
      [0xc3, (0xc0 : UInt8)].length ≤ (ofBuffer (WtfBuffer.ofSize 4)).buf.available ∨
        (ofBuffer (WtfBuffer.ofSize 4)).buf.target = .raw false) ∧
    (PlacedWriter.write reference (.moves 200 []) [0xc3, 0xc0] 2 (placedVector 1) = .undefined ↔
      MpWriter.write reference [0xc3, 0xc0] 2 (placedVector 1).view = .undefined) := by
  have fits := bulk_append_iff reference_moves (ofBuffer (WtfBuffer.ofSize 4)) [0xc3, 0xc0] 2
  have grows := bulk_append_iff reference_moves (placedVector 1).view [0xc3, 0xc0] 2
  refine ⟨fits.1, (grows.2 (placedVector 1) (.moves 200 []) rfl (placed_vector_bounded 1)
    (Buffer.of_vector_own _ _ _) ?_ ?_).2 ?_⟩
  · rintro block ⟨⟩
  · rintro after done
    cases done
    exact .inr fun inside => absurd inside.1 (by decide)
  · exact .inr ⟨200, rfl, by decide⟩

/-- Two items, one byte left and a vector to grow. -/
theorem bulk_append_moves :
    PlacedWriter.write reference (.moves 200 []) [0xc3, 0xc0] 2 (placedVector 1) = .undefined ∧
      MpWriter.write reference [0xc3, 0xc0] 2 (ofBuffer (WtfBuffer.ofSize 1)) = .undefined ∧
      ¬ AppendsRange reference (ofBuffer (WtfBuffer.ofSize 1)) [0xc3, 0xc0] 2 :=
  ⟨rfl, rfl, id⟩

end Cpp2tnt
