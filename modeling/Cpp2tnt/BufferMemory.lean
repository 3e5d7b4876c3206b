import Cpp2tnt.WtfBuffer
import Cpp2tnt.Library.MessagePack
import Cpp2tnt.Library.Transition

/-!
`wtf_buffer` with its pointers. A pointer is an address; the target says where
its memory begins and what it holds. `WtfBuffer` is what the user sees of it. The
vector of a target has elements of its own, which are not the bytes between
`head` and `end`: growth keeps the former.
-/

namespace Cpp2tnt
open Imperative MessagePack Transition

/-- Memory that belongs together: where it begins and what it holds. -/
structure Block where
  base : Nat
  bytes : Bytes
  deriving DecidableEq

namespace Block

def limit (block : Block) : Nat := block.base + block.bytes.length

def Contains (pos : Nat) (block : Block) : Prop := block.base ≤ pos ∧ pos < block.limit

def range (first last : Nat) (block : Block) : Bytes :=
  (block.bytes.drop (first - block.base)).take (last - first)

def store (pos : Nat) (items : Bytes) (block : Block) : Block :=
  { block with
    bytes := block.bytes.take (pos - block.base) ++ items ++
      block.bytes.drop (pos - block.base + items.length) }

end Block

/-- What the allocator or the `realloc` of the user gives: other memory with
`fresh` behind what is kept, or nothing. -/
inductive Growth where
  | fails (error : Exn)
  | moves (base : Nat) (fresh : Bytes)

def Growth.base? : Growth → Option Nat
  | .fails _ => none
  | .moves base _ => some base

/-- `std::vector<char>`: its memory, and how many elements it has there. -/
structure StdVector where
  block : Block
  size : Nat
  fits : size ≤ block.bytes.length
  deriving DecidableEq

namespace StdVector

def elements (vector : StdVector) : Bytes := vector.block.bytes.take vector.size

def capacity (vector : StdVector) : Nat := vector.block.bytes.length

def zeros (size : Nat) : StdVector := ⟨⟨0, List.replicate size 0⟩, size, by simp⟩

def copy (base : Nat) (vector : StdVector) : StdVector :=
  ⟨⟨base, vector.elements⟩, vector.size, by simp [elements, vector.fits]⟩

def extended (size : Nat) (vector : StdVector) : Bytes :=
  vector.elements ++ List.replicate (size - vector.size) 0

theorem extended_length {size : Nat} (vector : StdVector) (larger : vector.size ≤ size) :
    (vector.extended size).length = size := by
  have fits := vector.fits
  simp only [extended, elements, List.length_append, List.length_take, List.length_replicate]
  omega

/-- `resize`: in place as long as there is room. -/
def resize (size : Nat) (growth : Growth) (vector : StdVector) : Except Exn StdVector :=
  if small : size ≤ vector.size then .ok ⟨vector.block, size, Nat.le_trans small vector.fits⟩
  else if room : size ≤ vector.capacity then
    .ok ⟨⟨vector.block.base, vector.extended size ++ vector.block.bytes.drop size⟩, size, by
      have fits := vector.fits
      simp only [extended, elements, List.length_append, List.length_take, List.length_replicate]
      omega⟩
  else match growth with
    | .fails error => .error error
    | .moves base fresh => .ok ⟨⟨base, vector.extended size ++ fresh⟩, size, by
        have fits := vector.fits
        simp only [extended, elements, List.length_append, List.length_take, List.length_replicate]
        omega⟩

end StdVector

/-- The alternatives of `target`; a vector is a member or somewhere else. -/
inductive Memory where
  | raw (block : Block) (realloc : Bool)
  | stdVector (member : Bool) (vector : StdVector)
  deriving DecidableEq

def Memory.block : Memory → Block
  | .raw block _ => block
  | .stdVector _ vector => vector.block

def Memory.store (pos : Nat) (items : Bytes) : Memory → Memory
  | .raw block realloc => .raw (block.store pos items) realloc
  | .stdVector member vector => .stdVector member ⟨vector.block.store pos items, vector.size, by
      have fits := vector.fits
      simp only [Block.store, List.length_append, List.length_take, List.length_drop]
      omega⟩

structure Buffer where
  target : Memory
  head : Nat
  endPos : Nat
  endOfStorage : Nat
  deriving DecidableEq

namespace Buffer

def capacity (buf : Buffer) : Nat := buf.endOfStorage - buf.head

def size (buf : Buffer) : Nat := buf.endPos - buf.head

def available (buf : Buffer) : Nat := buf.endOfStorage - buf.endPos

/-- What stands between `head` and `end`. -/
def content (buf : Buffer) : Bytes := buf.target.block.range buf.head buf.endPos

def storage (buf : Buffer) : Bytes := buf.target.block.range buf.head buf.endOfStorage

/-- `wtf_buffer(std::vector<char> &, size_t)`. -/
def ofVector (member : Bool) (vector : StdVector) (offset : Nat) : Buffer :=
  { target := .stdVector member vector
    head := vector.block.base
    endOfStorage := vector.block.base + vector.capacity
    endPos := vector.block.base + offset }

/-- `wtf_buffer(std::vector<char> &&, size_t)`: the argument has a name, so the
target is made from it as a copy. -/
def ofMoved (base : Nat) (vector : StdVector) (offset : Nat) : Buffer :=
  ofVector true (vector.copy base) offset

/-- `wtf_buffer(size_t)`. -/
def ofSize (base size : Nat) : Buffer := ofMoved base (.zeros size) 0

def ofRaw (block : Block) (realloc : Bool) : Buffer :=
  { target := .raw block realloc
    head := block.base
    endOfStorage := block.base + block.bytes.length
    endPos := block.base }

/-- A constructor with its arguments; `base` is where its allocation lies. -/
inductive Construction where
  | sized (base size : Nat)
  | borrowed (vector : StdVector) (offset : Nat)
  | moved (base : Nat) (vector : StdVector) (offset : Nat)
  | raw (data : Option Block) (realloc : Bool)

/-- A null pointer is refused with `std::invalid_argument`. -/
def Construction.build : Construction → Option Buffer
  | .sized base size => some (ofSize base size)
  | .borrowed vector offset => some (ofVector false vector offset)
  | .moved base vector offset => some (ofMoved base vector offset)
  | .raw data realloc => data.map fun block => ofRaw block realloc

/-- The offset points into the memory of the target. -/
def Construction.OffsetInside : Construction → Prop
  | .borrowed vector offset => offset ≤ vector.capacity
  | .moved _ vector offset => offset ≤ vector.size
  | .sized _ _ | .raw _ _ => True

/-- The pointers into the memory of a target that has grown. -/
def placed (target : Memory) (size : Nat) (buf : Buffer) : Buffer :=
  { target := target
    head := target.block.base
    endOfStorage := target.block.base + size
    endPos := target.block.base + buf.size }

def reserve (size : Nat) (growth : Growth) : Cxx Exn Buffer Unit := do
  let buf ← Cxx.get
  if size ≤ buf.capacity then return ()
  match buf.target with
  | .raw _ realloc =>
      if !realloc then Cxx.throw ⟨.runtimeError, "unable to resize raw buffer"⟩
      match growth with
      | .fails error => Cxx.throw error
      | .moves base fresh => Cxx.put (buf.placed (.raw ⟨base, buf.storage ++ fresh⟩ true) size)
  | .stdVector member vector =>
      match vector.resize size growth with
      | .error error => Cxx.throw error
      | .ok grown => Cxx.put (buf.placed (.stdVector member grown) size)

def resize (size : Nat) (growth : Growth) : Cxx Exn Buffer Unit := do
  let buf ← Cxx.get
  if size > buf.capacity then reserve size growth
  let buf ← Cxx.get
  Cxx.put { buf with endPos := buf.head + size }

def clear : Cxx Exn Buffer Unit := do
  let buf ← Cxx.get
  Cxx.put { buf with endPos := buf.head }

/-- Bytes stored through `end`, which moves behind them. -/
def write (items : Bytes) : Cxx Exn Buffer Unit := do
  let buf ← Cxx.get
  if buf.target.block.base ≤ buf.endPos ∧ buf.endPos + items.length ≤ buf.target.block.limit then
    Cxx.put { buf with
      target := buf.target.store buf.endPos items
      endPos := buf.endPos + items.length }
  else Cxx.undefined

/-- `std::copy` to an address, which the memory of the target has to contain. -/
def store (pos : Nat) (items : Bytes) : Cxx Exn Buffer Unit := do
  let buf ← Cxx.get
  if buf.target.block.base ≤ pos ∧ pos + items.length ≤ buf.target.block.limit then
    Cxx.put { buf with target := buf.target.store pos items }
  else Cxx.undefined

/-- The range in `mp_writer::write(begin, end, cardinality)`: it is copied to where
`end` has been before `resize`. -/
def copyRange (items : Bytes) (growth : Growth) : Cxx Exn Buffer Unit := do
  let before ← Cxx.get
  resize (before.size + items.length) growth
  store before.endPos items

/-- `head <= end <= end_of_storage`, in the memory of the target. -/
structure Bounded (buf : Buffer) : Prop where
  base : buf.target.block.base = buf.head
  lower : buf.head ≤ buf.endPos
  upper : buf.endPos ≤ buf.endOfStorage
  owned : buf.endOfStorage ≤ buf.target.block.limit

/-- A vector has its own elements inside the storage. -/
def Own (buf : Buffer) : Prop :=
  ∀ member vector, buf.target = .stdVector member vector → vector.size ≤ buf.capacity

inductive Op where
  | write (items : Bytes)
  | reserve (size : Nat)
  | resize (size : Nat)
  | clear

def exec : Op × Growth → Cxx Exn Buffer Unit
  | (.write items, _) => write items
  | (.reserve size, growth) => reserve size growth
  | (.resize size, growth) => resize size growth
  | (.clear, _) => clear

/-- A program may catch what an operation throws. -/
def step (event : Op × Growth) (buf : Buffer) : Option Buffer :=
  match exec event buf with
  | .returned _ after | .thrown _ after => some after
  | .undefined => none

/-- The memory that a `realloc` gives has the size it was asked for. -/
def Provides (size : Nat) (buf : Buffer) : Growth → Prop
  | .fails _ => True
  | .moves _ fresh => ∀ block, buf.target = .raw block true → size ≤ buf.capacity + fresh.length

/-- Writes stay within `available()`. -/
def Allowed (buf : Buffer) : Op × Growth → Prop
  | (.write items, _) => items.length ≤ buf.available
  | (.reserve size, growth) | (.resize size, growth) => buf.Provides size growth
  | (.clear, _) => True

def kept (buf : Buffer) : Op → Nat
  | .write _ | .reserve _ => buf.size
  | .resize size => min size buf.size
  | .clear => 0

/-- The operation keeps the bounds and the content, or throws and changes nothing. -/
def Lawful (buf : Buffer) (event : Op × Growth) : Prop :=
  match exec event buf with
  | .returned _ after => after.Bounded ∧
      after.content.take (buf.kept event.1) = buf.content.take (buf.kept event.1)
  | .thrown _ after => after = buf
  | .undefined => False

/-- Content that does not belong to the elements of the vector. -/
def exposed (buf : Buffer) : Bytes :=
  match buf.target with
  | .raw _ _ => []
  | .stdVector _ vector => buf.content.drop vector.size

def Regrows (size : Nat) (growth : Growth) (buf : Buffer) : Prop :=
  buf.capacity < size ∧ ∃ member vector grown, buf.target = .stdVector member vector ∧
    vector.resize size growth = .ok grown

/-- A vector that grows has no content but zeros behind its elements. -/
def Covered (buf : Buffer) : Op × Growth → Prop
  | (.reserve size, growth) | (.resize size, growth) => buf.Regrows size growth →
      ∀ byte ∈ buf.exposed, byte = 0
  | (.write _, _) | (.clear, _) => True

section Operations
variable {buf after : Buffer} {size : Nat} {growth : Growth}

theorem take_content (bounded : buf.Bounded) {count : Nat} (within : count ≤ buf.size) :
    buf.content.take count = buf.target.block.bytes.take count := by
  have base := bounded.base
  rw [content, Block.range, base, Nat.sub_self, List.drop_zero, List.take_take, Nat.min_eq_left]
  exact within

theorem content_front (bounded : buf.Bounded) :
    buf.content = buf.target.block.bytes.take buf.size := by
  rw [content, Block.range, bounded.base, Nat.sub_self, List.drop_zero]
  rfl

theorem content_whole (bounded : buf.Bounded) {length : Nat} (same : buf.size = length) :
    buf.content.take length = buf.content := by
  rw [take_content bounded (Nat.le_of_eq same.symm), content_front bounded, same]

theorem size_le_capacity (bounded : buf.Bounded) : buf.size ≤ buf.capacity :=
  Nat.sub_le_sub_right bounded.upper buf.head

theorem capacity_le (bounded : buf.Bounded) : buf.capacity ≤ buf.target.block.bytes.length := by
  have base := bounded.base
  have owned := bounded.owned
  simp only [Block.limit] at owned
  simp only [capacity]
  omega

theorem placed_bounded (bounded : buf.Bounded) {target : Memory} (large : buf.capacity ≤ size)
    (room : size ≤ target.block.bytes.length) : (buf.placed target size).Bounded := by
  have small := size_le_capacity bounded
  constructor
  · rfl
  · exact Nat.le_add_right _ _
  · exact Nat.add_le_add_left (Nat.le_trans small large) _
  · exact Nat.add_le_add_left room _

@[simp] theorem placed_size (target : Memory) : (buf.placed target size).size = buf.size :=
  Nat.add_sub_cancel_left _ _

@[simp] theorem placed_capacity (target : Memory) : (buf.placed target size).capacity = size :=
  Nat.add_sub_cancel_left _ _

theorem reserve_small (room : size ≤ buf.capacity) :
    reserve size growth buf = .returned () buf := by
  simp [reserve, room]

theorem reserve_raw (growth : Growth) {block : Block} {realloc : Bool} (large : buf.capacity < size)
    (target : buf.target = .raw block realloc) :
    (∃ error, reserve size growth buf = .thrown error buf) ∨
      ∃ base fresh, realloc = true ∧ growth = .moves base fresh ∧
        reserve size growth buf =
          .returned () (buf.placed (.raw ⟨base, buf.storage ++ fresh⟩ true) size) := by
  have still : ¬ size ≤ buf.capacity := Nat.not_le_of_lt large
  simp only [reserve, Cxx.bind_get, if_neg still, target]
  cases realloc with
  | false => exact .inl ⟨_, rfl⟩
  | true =>
      cases growth with
      | fails error => exact .inl ⟨error, rfl⟩
      | moves base fresh => exact .inr ⟨base, fresh, rfl, rfl, rfl⟩

theorem reserve_vector (growth : Growth) {member : Bool} {vector : StdVector}
    (large : buf.capacity < size)
    (target : buf.target = .stdVector member vector) :
    reserve size growth buf =
      match vector.resize size growth with
      | .error error => .thrown error buf
      | .ok grown => .returned () (buf.placed (.stdVector member grown) size) := by
  have still : ¬ size ≤ buf.capacity := Nat.not_le_of_lt large
  simp only [reserve, Cxx.bind_get, if_neg still, target]
  cases vector.resize size growth <;> rfl

theorem resize_grown {vector grown : StdVector} (large : vector.size < size)
    (done : vector.resize size growth = .ok grown) :
    (∃ rest, grown.block.bytes = vector.extended size ++ rest) ∧ grown.size = size := by
  unfold StdVector.resize at done
  split_ifs at done with small room
  · omega
  · cases done
    exact ⟨⟨_, rfl⟩, rfl⟩
  · cases growth with
    | fails error => cases done
    | moves base fresh =>
        cases done
        exact ⟨⟨fresh, rfl⟩, rfl⟩

theorem padded_take_iff (bytes : Bytes) (own : Nat) {count : Nat} (asked : count ≤ size)
    (stored : count ≤ bytes.length) :
    (bytes.take own ++ List.replicate (size - own) 0).take count = bytes.take count ↔
      ∀ byte ∈ (bytes.take count).drop own, byte = 0 := by
  by_cases inside : count ≤ own
  · have nothing : (bytes.take count).drop own = [] := by
      apply List.drop_eq_nil_of_le
      rw [List.length_take]
      omega
    have room : count ≤ (bytes.take own).length := by
      rw [List.length_take]
      omega
    rw [nothing, List.take_append_of_le_length room, List.take_take, Nat.min_eq_left inside]
    exact iff_of_true rfl (List.forall_mem_nil _)
  · have front : (bytes.take own).length = own := by
      rw [List.length_take]
      omega
    have whole : bytes.take count = bytes.take own ++ (bytes.take count).drop own := by
      have split := List.take_append_drop own (bytes.take count)
      rw [List.take_take, Nat.min_eq_left (by omega)] at split
      exact split.symm
    have padded : (bytes.take own ++ List.replicate (size - own) (0 : UInt8)).take count =
        bytes.take own ++ List.replicate (count - own) 0 := by
      rw [List.take_append, front, List.take_replicate, List.take_of_length_le (by omega),
        Nat.min_eq_left (by omega)]
    have length : ((bytes.take count).drop own).length = count - own := by
      rw [List.length_drop, List.length_take]
      omega
    rw [padded]
    constructor
    · intro same
      rw [whole] at same
      have tail := List.append_cancel_left same
      rw [← tail]
      exact fun byte member => List.eq_of_mem_replicate member
    · intro zeros
      rw [whole, List.eq_replicate_of_mem zeros, length]

/-- Storage of the size that was asked for, which a vector has as many elements as. -/
structure Grown (size : Nat) (after : Buffer) : Prop where
  bounded : after.Bounded
  full : ∀ member vector, after.target = .stdVector member vector → vector.size = size
  total : after.capacity = size

theorem placed_grown (bounded : buf.Bounded) {target : Memory} (large : buf.capacity ≤ size)
    (room : size ≤ target.block.bytes.length)
    (full : ∀ member vector, target = .stdVector member vector → vector.size = size) :
    Grown size (buf.placed target size) where
  bounded := placed_bounded bounded large room
  full := full
  total := placed_capacity target

theorem placed_content (bounded : buf.Bounded) {target : Memory} (large : buf.capacity ≤ size)
    (room : size ≤ target.block.bytes.length) :
    (buf.placed target size).content = target.block.bytes.take buf.size := by
  rw [content_front (placed_bounded bounded large room), placed_size]
  rfl

theorem storage_front (bounded : buf.Bounded) :
    buf.storage = buf.target.block.bytes.take buf.capacity := by
  rw [storage, Block.range, bounded.base, Nat.sub_self, List.drop_zero]
  rfl

/-- What `reserve` does when it has to grow: it throws and nothing happens, or the
pointers move into memory of the size that was asked for. -/
theorem reserve_grows (bounded : buf.Bounded) (own : buf.Own) (large : buf.capacity < size)
    (provides : buf.Provides size growth) :
    (∃ error, reserve size growth buf = .thrown error buf ∧ ¬ buf.Regrows size growth) ∨
      ∃ after, reserve size growth buf = .returned () after ∧ Grown size after ∧
        after.size = buf.size ∧ (after.content = buf.content ↔
          (buf.Regrows size growth → ∀ byte ∈ buf.exposed, byte = 0)) := by
  have small := size_le_capacity bounded
  have stored := capacity_le bounded
  cases kind : buf.target with
  | raw block realloc =>
      have never : ¬ buf.Regrows size growth := by
        rintro ⟨_, member, vector, grown, same, _⟩
        cases kind.symm.trans same
      rcases reserve_raw growth large kind with ⟨error, thrown⟩ |
        ⟨base, fresh, callable, given, done⟩
      · exact .inl ⟨error, thrown, never⟩
      · have length : buf.storage.length = buf.capacity := by
          rw [storage_front bounded, List.length_take, Nat.min_eq_left stored]
        have room : size ≤ (Memory.raw ⟨base, buf.storage ++ fresh⟩ true).block.bytes.length := by
          rw [given] at provides
          change size ≤ (buf.storage ++ fresh).length
          rw [List.length_append, length]
          exact provides block (by rw [kind, callable])
        refine .inr ⟨_, done, placed_grown bounded (Nat.le_of_lt large) room nofun,
          placed_size _, ?_⟩
        refine iff_of_true ?_ fun regrows => absurd regrows never
        -- `realloc` copies the whole block, whoever wrote into it
        have front : (buf.storage ++ fresh).take buf.size = buf.content := by
          rw [List.take_append_of_le_length (by omega), storage_front bounded, List.take_take,
            Nat.min_eq_left small, content_front bounded]
        exact (placed_content bounded (Nat.le_of_lt large) room).trans front
  | stdVector member vector =>
      have inside : vector.size < size := Nat.lt_of_le_of_lt (own member vector kind) large
      have done := reserve_vector growth large kind
      cases resized : vector.resize size growth with
      | error error =>
          rw [resized] at done
          refine .inl ⟨error, done, ?_⟩
          rintro ⟨_, other, found, grown, same, success⟩
          cases kind.symm.trans same
          cases resized.symm.trans success
      | ok grown =>
          rw [resized] at done
          obtain ⟨⟨rest, bytes⟩, count⟩ := resize_grown inside resized
          have room : size ≤ (Memory.stdVector member grown).block.bytes.length := by
            rw [← count]
            exact grown.fits
          have whole : ∀ other found, Memory.stdVector member grown = .stdVector other found →
              found.size = size := by
            rintro other found ⟨⟩
            exact count
          refine .inr ⟨_, done, placed_grown bounded (Nat.le_of_lt large) room whole,
            placed_size _, ?_⟩
          -- the vector copies its own elements and fills up with zeros, over what the pointers
          -- have put behind them
          have regrows : buf.Regrows size growth := ⟨large, member, vector, grown, kind, resized⟩
          have length := vector.extended_length (Nat.le_of_lt inside)
          have block : buf.target.block = vector.block := by rw [kind]; rfl
          have exposed : buf.exposed = (vector.block.bytes.take buf.size).drop vector.size := by
            rw [Buffer.exposed, kind, content_front bounded, block]
          rw [placed_content bounded (Nat.le_of_lt large) room, content_front bounded, block, exposed]
          change grown.block.bytes.take buf.size = _ ↔ _
          rw [bytes, List.take_append_of_le_length (by omega), StdVector.extended,
            StdVector.elements, padded_take_iff vector.block.bytes vector.size (by omega)
              (by rw [← block]; omega)]
          exact ⟨fun zeros _ => zeros, fun zeros => zeros regrows⟩

theorem reserve_lawful_iff (bounded : buf.Bounded) (own : buf.Own)
    (provides : buf.Provides size growth) :
    buf.Lawful (.reserve size, growth) ↔ buf.Covered (.reserve size, growth) := by
  by_cases room : size ≤ buf.capacity
  · have never : ¬ buf.Regrows size growth := fun regrows => Nat.not_lt.mpr room regrows.1
    rw [Lawful, exec, reserve_small room]
    exact iff_of_true ⟨bounded, rfl⟩ fun regrows => absurd regrows never
  · rcases reserve_grows bounded own (Nat.lt_of_not_le room) provides with
      ⟨error, thrown, never⟩ | ⟨after, done, grown, length, same⟩
    · rw [Lawful, exec, thrown]
      exact iff_of_true rfl fun regrows => absurd regrows never
    · rw [Lawful, exec, done]
      change after.Bounded ∧ after.content.take buf.size = buf.content.take buf.size ↔ _
      rw [content_whole grown.bounded length, content_whole bounded rfl, same]
      exact and_iff_right grown.bounded

/-- `end` set anywhere in the storage. -/
theorem moved_bounded (bounded : buf.Bounded) (within : size ≤ buf.capacity) :
    Bounded { buf with endPos := buf.head + size } where
  base := bounded.base
  lower := Nat.le_add_right _ _
  upper := by
    have lower := bounded.lower
    have upper := bounded.upper
    change buf.head + size ≤ buf.endOfStorage
    simp only [capacity] at within
    omega
  owned := bounded.owned

theorem moved_content (bounded : buf.Bounded) (within : size ≤ buf.capacity) :
    ({ buf with endPos := buf.head + size } : Buffer).content = buf.target.block.bytes.take size := by
  rw [content_front (moved_bounded bounded within)]
  exact congrArg (List.take · buf.target.block.bytes) (Nat.add_sub_cancel_left _ _)

theorem moved_take (bounded : buf.Bounded) (within : size ≤ buf.capacity) :
    ({ buf with endPos := buf.head + size } : Buffer).content.take (min size buf.size) =
      buf.content.take (min size buf.size) := by
  rw [moved_content bounded within, content_front bounded, List.take_take, List.take_take]
  congr 1
  omega

theorem resize_returned (large : buf.capacity < size)
    (done : reserve size growth buf = .returned () after) :
    resize size growth buf = .returned () { after with endPos := after.head + size } := by
  have more : size > buf.capacity := large
  simp only [resize, Cxx.bind_get, if_pos more]
  rw [Cxx.bind_returned done]
  rfl

theorem resize_thrown {error : Exn} (large : buf.capacity < size)
    (thrown : reserve size growth buf = .thrown error after) :
    resize size growth buf = .thrown error after := by
  have more : size > buf.capacity := large
  simp only [resize, Cxx.bind_get, if_pos more]
  rw [Cxx.bind_thrown thrown]

theorem resize_lawful_iff (bounded : buf.Bounded) (own : buf.Own)
    (provides : buf.Provides size growth) :
    buf.Lawful (.resize size, growth) ↔ buf.Covered (.resize size, growth) := by
  by_cases room : size ≤ buf.capacity
  · have never : ¬ buf.Regrows size growth := fun regrows => Nat.not_lt.mpr room regrows.1
    have done : resize size growth buf = .returned () { buf with endPos := buf.head + size } := by
      have still : ¬ size > buf.capacity := Nat.not_lt.mpr room
      simp only [resize, Cxx.bind_get, if_neg still]
      rfl
    rw [Lawful, exec, done]
    exact iff_of_true ⟨moved_bounded bounded room, moved_take bounded room⟩
      fun regrows => absurd regrows never
  · have large := Nat.lt_of_not_le room
    have small := size_le_capacity bounded
    rcases reserve_grows bounded own large provides with
      ⟨error, thrown, never⟩ | ⟨after, done, grown, length, same⟩
    · rw [Lawful, exec, resize_thrown large thrown]
      exact iff_of_true rfl fun regrows => absurd regrows never
    · have within : size ≤ after.capacity := Nat.le_of_eq grown.total.symm
      have shown := moved_take grown.bounded within
      have kept : min size buf.size = buf.size := by omega
      rw [length, kept] at shown
      rw [Lawful, exec, resize_returned large done]
      change Bounded { after with endPos := after.head + size } ∧
        ({ after with endPos := after.head + size } : Buffer).content.take (min size buf.size) =
          buf.content.take (min size buf.size) ↔ _
      rw [kept, shown, content_whole grown.bounded length, content_whole bounded rfl, same]
      exact and_iff_right (moved_bounded grown.bounded within)

/-- The storage is the one it was, and a vector has the elements it had. -/
structure SameStorage (before after : Buffer) : Prop where
  bounded : after.Bounded
  total : after.capacity = before.capacity
  elements : ∀ member vector, after.target = .stdVector member vector →
    ∃ found, before.target = .stdVector member found ∧ found.size = vector.size

/-- The buffer after a write within the storage. -/
structure Written (items : Bytes) (before after : Buffer) : Prop where
  storage : SameStorage before after
  content : after.content = before.content ++ items

theorem write_returned {items : Bytes} (bounded : buf.Bounded) (room : items.length ≤ buf.available) :
    ∃ after, write items buf = .returned () after ∧ Written items buf after := by
  have base := bounded.base
  have lower := bounded.lower
  have upper := bounded.upper
  have owned := bounded.owned
  simp only [available] at room
  have inside : buf.target.block.base ≤ buf.endPos ∧
      buf.endPos + items.length ≤ buf.target.block.limit := by omega
  have stored : (buf.target.store buf.endPos items).block =
      buf.target.block.store buf.endPos items := by cases buf.target <;> rfl
  have front : (buf.target.block.bytes.take buf.size).length = buf.size := by
    have small := Nat.le_trans (size_le_capacity bounded) (capacity_le bounded)
    rw [List.length_take, Nat.min_eq_left small]
  have length : (buf.target.block.store buf.endPos items).limit = buf.target.block.limit := by
    simp only [Block.store, Block.limit, List.length_append, List.length_take, List.length_drop] at *
    omega
  -- the storage stays where it is, only `end` moves
  have after : Bounded { buf with
      target := buf.target.store buf.endPos items
      endPos := buf.endPos + items.length } := by
    constructor
    · change (buf.target.store buf.endPos items).block.base = buf.head
      rw [stored]
      exact base
    · exact Nat.le_trans lower (Nat.le_add_right _ _)
    · change buf.endPos + items.length ≤ buf.endOfStorage
      omega
    · change buf.endOfStorage ≤ (buf.target.store buf.endPos items).block.limit
      rw [stored, length]
      exact owned
  have done : write items buf = .returned () { buf with
      target := buf.target.store buf.endPos items
      endPos := buf.endPos + items.length } := by
    rw [write, Cxx.bind_get, if_pos inside]
    rfl
  refine ⟨_, done, ⟨after, rfl, ?_⟩, ?_⟩
  · intro member vector same
    cases kind : buf.target with
    | raw block realloc =>
        rw [kind] at same
        cases same
    | stdVector other found =>
        rw [kind] at same
        cases same
        exact ⟨found, rfl, rfl⟩
  · rw [content_front after, content_front bounded]
    change (buf.target.store buf.endPos items).block.bytes.take (buf.endPos + items.length - buf.head) = _
    have total : buf.endPos + items.length - buf.head = buf.size + items.length := by
      simp only [size]
      omega
    have offset : buf.endPos - buf.target.block.base = buf.size := by rw [base]; rfl
    rw [stored, total, Block.store, offset]
    have whole : (buf.target.block.bytes.take buf.size ++ items).length = buf.size + items.length := by
      rw [List.length_append, front]
    rw [← whole, List.take_left]

theorem clear_bounded (bounded : buf.Bounded) : Bounded { buf with endPos := buf.head } where
  base := bounded.base
  lower := Nat.le_refl _
  upper := Nat.le_trans bounded.lower bounded.upper
  owned := bounded.owned

theorem lawful_iff (bounded : buf.Bounded) (own : buf.Own) (event : Op × Growth)
    (allowed : buf.Allowed event) : buf.Lawful event ↔ buf.Covered event := by
  obtain ⟨op, growth⟩ := event
  cases op with
  | write items =>
      obtain ⟨after, done, written⟩ := write_returned bounded allowed
      refine iff_of_true ?_ trivial
      have front : buf.size = buf.content.length := by
        have small := Nat.le_trans (size_le_capacity bounded) (capacity_le bounded)
        rw [content_front bounded, List.length_take, Nat.min_eq_left small]
      rw [Lawful, exec, done]
      refine ⟨written.storage.bounded, ?_⟩
      change after.content.take buf.size = buf.content.take buf.size
      rw [written.content, front, List.take_left, List.take_length]
  | reserve size => exact reserve_lawful_iff bounded own allowed
  | resize size => exact resize_lawful_iff bounded own allowed
  | clear => exact iff_of_true ⟨clear_bounded bounded, rfl⟩ trivial

theorem same_storage_of {endPos : Nat} (bounded : Bounded { buf with endPos := endPos }) :
    SameStorage buf { buf with endPos := endPos } where
  bounded := bounded
  total := rfl
  elements _ vector same := ⟨vector, same, rfl⟩

theorem step_storage (event : Op × Growth) (bounded : buf.Bounded) (own : buf.Own)
    (allowed : buf.Allowed event) (done : step event buf = some after) :
    SameStorage buf after ∨ ∃ size, Grown size after := by
  obtain ⟨op, growth⟩ := event
  have same : SameStorage buf buf := same_storage_of bounded
  cases op with
  | write items =>
      obtain ⟨reached, ran, written⟩ := write_returned bounded allowed
      simp only [step, exec, ran, Option.some.injEq] at done
      rw [← done]
      exact .inl written.storage
  | reserve size =>
      by_cases room : size ≤ buf.capacity
      · simp only [step, exec, reserve_small room, Option.some.injEq] at done
        rw [← done]
        exact .inl same
      · rcases reserve_grows bounded own (Nat.lt_of_not_le room) allowed with
          ⟨error, thrown, _⟩ | ⟨reached, ran, grown, _⟩
        · simp only [step, exec, thrown, Option.some.injEq] at done
          rw [← done]
          exact .inl same
        · simp only [step, exec, ran, Option.some.injEq] at done
          rw [← done]
          exact .inr ⟨size, grown⟩
  | resize size =>
      by_cases room : size ≤ buf.capacity
      · have still : ¬ size > buf.capacity := Nat.not_lt.mpr room
        simp only [step, exec, resize, Cxx.bind_get, if_neg still] at done
        cases done
        exact .inl (same_storage_of (moved_bounded bounded room))
      · have large := Nat.lt_of_not_le room
        rcases reserve_grows bounded own large allowed with
          ⟨error, thrown, _⟩ | ⟨reached, ran, grown, _⟩
        · simp only [step, exec, resize_thrown large thrown, Option.some.injEq] at done
          rw [← done]
          exact .inl same
        · simp only [step, exec, resize_returned large ran, Option.some.injEq] at done
          rw [← done]
          exact .inr ⟨size, moved_bounded grown.bounded (Nat.le_of_eq grown.total.symm),
            grown.full, grown.total⟩
  | clear =>
      cases done
      exact .inl (same_storage_of (clear_bounded bounded))

theorem step_valid (event : Op × Growth) (valid : buf.Bounded ∧ buf.Own)
    (allowed : buf.Allowed event) (done : step event buf = some after) :
    after.Bounded ∧ after.Own := by
  rcases step_storage event valid.1 valid.2 allowed done with same | ⟨size, grown⟩
  · refine ⟨same.bounded, ?_⟩
    intro member vector target
    obtain ⟨found, before, elements⟩ := same.elements member vector target
    rw [← elements, same.total]
    exact valid.2 member found before
  · refine ⟨grown.bounded, ?_⟩
    intro member vector target
    rw [grown.full member vector target, grown.total]

def Whole (buf : Buffer) : Prop :=
  ∀ member vector, buf.target = .stdVector member vector → vector.size = buf.capacity

theorem step_whole (event : Op × Growth) (bounded : buf.Bounded) (whole : buf.Whole)
    (allowed : buf.Allowed event) (done : step event buf = some after) : after.Whole := by
  have own : buf.Own := fun member vector target => Nat.le_of_eq (whole member vector target)
  rcases step_storage event bounded own allowed done with same | ⟨size, grown⟩
  · intro member vector target
    obtain ⟨found, before, elements⟩ := same.elements member vector target
    rw [← elements, same.total]
    exact whole member found before
  · intro member vector target
    rw [grown.full member vector target, grown.total]

theorem whole_covered (event : Op × Growth) (bounded : buf.Bounded) (whole : buf.Whole) :
    buf.Covered event := by
  have nothing : buf.exposed = [] := by
    cases kind : buf.target with
    | raw block realloc => rw [exposed, kind]
    | stdVector member vector =>
        have small := size_le_capacity bounded
        have full := whole member vector kind
        rw [exposed, kind]
        apply List.drop_eq_nil_of_le
        rw [content_front bounded, List.length_take]
        omega
  obtain ⟨op, growth⟩ := event
  cases op with
  | write | clear => exact trivial
  | reserve | resize =>
      intro _
      rw [nothing]
      exact List.forall_mem_nil _

end Operations

/-- Where the storage lies after growing to this size. -/
def grownBase (size : Nat) (growth : Growth) (buf : Buffer) : Option Nat :=
  match buf.target with
  | .raw _ realloc => if realloc then growth.base? else none
  | .stdVector _ vector => if size ≤ vector.capacity then some buf.head else growth.base?

/-- Storage that lies elsewhere does not contain the old end of the content. -/
def Apart (size : Nat) (growth : Growth) (buf : Buffer) : Prop :=
  ∀ after, reserve size growth buf = .returned () after →
    after.head = buf.head ∨ ¬ after.target.block.Contains buf.endPos

/-- Growing gets storage from elsewhere, unless the target is raw memory that stays as it is. -/
def Relocates (size : Nat) (growth : Growth) (buf : Buffer) : Prop :=
  (∃ block, buf.target = .raw block false) ∨
    ∃ base, buf.grownBase size growth = some base ∧ base ≠ buf.head

/-- The range stands behind the old content, or nothing has changed. -/
def AppendsRange (items : Bytes) (growth : Growth) (buf : Buffer) : Prop :=
  match copyRange items growth buf with
  | .returned _ after => after.content = buf.content ++ items
  | .thrown _ after => after = buf
  | .undefined => False

section Ranges
variable {buf after : Buffer} {items : Bytes} {growth : Growth}

theorem reserve_based {size : Nat} (bounded : buf.Bounded) (own : buf.Own)
    (large : buf.capacity < size) :
    match reserve size growth buf with
    | .returned _ after => buf.grownBase size growth = some after.head
    | .thrown _ _ => buf.grownBase size growth = none
    | .undefined => False := by
  cases kind : buf.target with
  | raw block realloc =>
      have still : ¬ size ≤ buf.capacity := Nat.not_le_of_lt large
      simp only [reserve, Cxx.bind_get, if_neg still, kind, grownBase]
      cases realloc <;> cases growth <;> rfl
  | stdVector member vector =>
      have inside : ¬ size ≤ vector.size :=
        Nat.not_le_of_lt (Nat.lt_of_le_of_lt (own member vector kind) large)
      have base : vector.block.base = buf.head := by
        rw [← bounded.base, kind]
        rfl
      rw [reserve_vector growth large kind, StdVector.resize, dif_neg inside, grownBase, kind]
      by_cases room : size ≤ vector.capacity
      · simp only [dif_pos room, if_pos room]
        rw [← base]
        rfl
      · simp only [dif_neg room, if_neg room]
        cases growth <;> rfl

theorem store_is_write (bounded : buf.Bounded) {size : Nat} (total : size = buf.size + items.length) :
    store buf.endPos items { buf with endPos := buf.head + size } = write items buf := by
  have lower := bounded.lower
  have behind : buf.head + size = buf.endPos + items.length := by
    rw [total]
    simp only [Buffer.size]
    omega
  simp only [store, write, Cxx.bind_get, behind]
  split <;> rfl

theorem copy_range_within (bounded : buf.Bounded) (room : items.length ≤ buf.available) :
    copyRange items growth buf = write items buf := by
  have lower := bounded.lower
  have upper := bounded.upper
  have still : ¬ buf.size + items.length > buf.capacity := by
    simp only [available] at room
    simp only [Buffer.size, capacity]
    omega
  have resized : resize (buf.size + items.length) growth buf =
      .returned () { buf with endPos := buf.head + (buf.size + items.length) } := by
    simp only [resize, Cxx.bind_get, if_neg still]
    rfl
  rw [copyRange, Cxx.bind_get, Cxx.bind_returned resized]
  exact store_is_write bounded rfl

theorem copy_range_grown (large : buf.capacity < buf.size + items.length)
    (done : reserve (buf.size + items.length) growth buf = .returned () after) :
    copyRange items growth buf = store buf.endPos items
      { after with endPos := after.head + (buf.size + items.length) } := by
  rw [copyRange, Cxx.bind_get, Cxx.bind_returned (resize_returned large done)]

theorem copy_range_refused (large : buf.capacity < buf.size + items.length) {error : Exn}
    {left : Buffer} (thrown : reserve (buf.size + items.length) growth buf = .thrown error left) :
    copyRange items growth buf = .thrown error left := by
  rw [copyRange, Cxx.bind_get, Cxx.bind_thrown (resize_thrown large thrown)]

theorem room_missing (bounded : buf.Bounded) (full : ¬ items.length ≤ buf.available) :
    buf.capacity < buf.size + items.length := by
  have lower := bounded.lower
  simp only [available] at full
  simp only [Buffer.size, capacity]
  omega

theorem copy_range_throws (bounded : buf.Bounded) (own : buf.Own)
    (provides : buf.Provides (buf.size + items.length) growth) :
    match copyRange items growth buf with
    | .thrown _ after => after = buf ∧ buf.available < items.length ∧
        buf.grownBase (buf.size + items.length) growth = none
    | .returned _ _ | .undefined => ¬ (buf.available < items.length ∧
        buf.grownBase (buf.size + items.length) growth = none) := by
  by_cases room : items.length ≤ buf.available
  · obtain ⟨after, done, _⟩ := write_returned bounded room
    rw [copy_range_within bounded room, done]
    exact fun refused => Nat.not_lt.mpr room refused.1
  · have large := room_missing bounded room
    have based := @reserve_based buf growth _ bounded own large
    rcases reserve_grows bounded own large provides with
      ⟨error, thrown, _⟩ | ⟨after, done, _, _, _⟩
    · rw [thrown] at based
      rw [copy_range_refused large thrown]
      exact ⟨rfl, Nat.lt_of_not_le room, based⟩
    · rw [done] at based
      rw [copy_range_grown large done]
      simp only [store, Cxx.bind_get, based]
      split_ifs <;> exact fun refused => nomatch refused.2

theorem copy_range_dangles (bounded : buf.Bounded) (own : buf.Own)
    (apart : buf.Apart (buf.size + items.length) growth) (full : ¬ items.length ≤ buf.available)
    {base : Nat} (lies : buf.grownBase (buf.size + items.length) growth = some base)
    (moved : base ≠ buf.head) : copyRange items growth buf = .undefined := by
  have large := room_missing bounded full
  have based := @reserve_based buf growth _ bounded own large
  cases done : reserve (buf.size + items.length) growth buf with
  | returned _ after =>
      rw [done] at based
      cases based.symm.trans lies
      have outside := (apart after done).resolve_left moved
      have missed : ¬ (after.target.block.base ≤ buf.endPos ∧
          buf.endPos + items.length ≤ after.target.block.limit) := by
        rintro ⟨above, below⟩
        exact outside ⟨above, by omega⟩
      rw [copy_range_grown large done]
      simp only [store, Cxx.bind_get, if_neg missed]
      rfl
  | thrown error left =>
      rw [done] at based
      cases based.symm.trans lies
  | undefined =>
      rw [done] at based
      exact based.elim

theorem regrows_vector {size : Nat} (large : buf.capacity < size)
    (done : reserve size growth buf = .returned () after) :
    (buf.Regrows size growth → ∀ byte ∈ buf.exposed, byte = 0) ↔
      ∀ byte ∈ buf.exposed, byte = 0 := by
  cases kind : buf.target with
  | raw block realloc =>
      rw [exposed, kind]
      exact iff_of_true (fun _ => List.forall_mem_nil _) (List.forall_mem_nil _)
  | stdVector member vector =>
      rw [reserve_vector growth large kind] at done
      cases resized : vector.resize size growth with
      | error error =>
          rw [resized] at done
          cases done
      | ok grown =>
          have regrows : buf.Regrows size growth := ⟨large, member, vector, grown, kind, resized⟩
          exact ⟨fun zeros => zeros regrows, fun zeros _ => zeros⟩

/-- The range is appended if and only if there is room, or the storage stays where it is and
its new memory begins with the content. -/
theorem appends_range_iff (bounded : buf.Bounded) (own : buf.Own)
    (provides : buf.Provides (buf.size + items.length) growth)
    (apart : buf.Apart (buf.size + items.length) growth) :
    buf.AppendsRange items growth ↔ items.length ≤ buf.available ∨
      ∀ base, buf.grownBase (buf.size + items.length) growth = some base →
        base = buf.head ∧ ∀ byte ∈ buf.exposed, byte = 0 := by
  by_cases room : items.length ≤ buf.available
  · obtain ⟨after, done, written⟩ := write_returned bounded room
    refine iff_of_true ?_ (.inl room)
    rw [AppendsRange, copy_range_within bounded room, done]
    exact written.content
  · have large := room_missing bounded room
    have based := @reserve_based buf growth _ bounded own large
    rw [or_iff_right room]
    rcases reserve_grows bounded own large provides with
      ⟨error, thrown, _⟩ | ⟨after, done, grown, length, same⟩
    · rw [thrown] at based
      refine iff_of_true ?_ ?_
      · rw [AppendsRange, copy_range_refused large thrown]
      · intro base lies
        cases based.symm.trans lies
    · rw [done] at based
      simp only [based, Option.some.injEq, forall_eq']
      rw [AppendsRange, copy_range_grown large done]
      -- storage that stays makes `dst` the end of the content once more
      by_cases stays : after.head = buf.head
      · have lower := bounded.lower
        have behind : after.endPos = buf.endPos := by
          have first := grown.bounded.lower
          simp only [Buffer.size, stays] at length first
          omega
        have fits : items.length ≤ after.available := by
          have total := grown.total
          have first := grown.bounded.lower
          simp only [Buffer.size, capacity] at total length
          simp only [available]
          omega
        obtain ⟨reached, ran, written⟩ := write_returned grown.bounded fits
        rw [← behind, store_is_write grown.bounded (length ▸ rfl), ran]
        change reached.content = buf.content ++ items ↔ _
        rw [written.content, List.append_cancel_right_eq, same, regrows_vector large done]
        exact (and_iff_right stays).symm
      · have dangles := copy_range_dangles bounded own apart room based stays
        rw [copy_range_grown large done] at dangles
        rw [dangles]
        exact iff_of_false id fun kept => stays kept.1

end Ranges

def view (buf : Buffer) : WtfBuffer UInt8 :=
  { content := buf.content
    spare := buf.target.block.range buf.endPos buf.endOfStorage
    target := match buf.target with
      | .raw _ realloc => .raw realloc
      | .stdVector _ vector => .vector vector.size }

section Views
variable {buf : Buffer} {size : Nat} {growth : Growth}

theorem spare_front (bounded : buf.Bounded) : buf.view.spare =
    (buf.target.block.bytes.drop buf.size).take (buf.capacity - buf.size) := by
  have lower := bounded.lower
  have upper := bounded.upper
  have rest : buf.endOfStorage - buf.endPos = buf.capacity - buf.size := by
    simp only [capacity, Buffer.size]
    omega
  simp only [view, Block.range, bounded.base, rest]
  rfl

theorem view_storage (bounded : buf.Bounded) : buf.view.storage = buf.storage := by
  have small := size_le_capacity bounded
  have split := List.take_append_drop buf.size (buf.target.block.bytes.take buf.capacity)
  rw [List.take_take, Nat.min_eq_left small, List.drop_take] at split
  rw [WtfBuffer.storage, spare_front bounded, storage_front bounded, ← split]
  exact congrArg (· ++ _) (content_front bounded)

theorem view_size (bounded : buf.Bounded) : buf.view.size = buf.size := by
  have small := Nat.le_trans (size_le_capacity bounded) (capacity_le bounded)
  change buf.content.length = buf.size
  rw [content_front bounded, List.length_take, Nat.min_eq_left small]

theorem view_capacity (bounded : buf.Bounded) : buf.view.capacity = buf.capacity := by
  rw [← WtfBuffer.storage_length, view_storage bounded, storage_front bounded, List.length_take,
    Nat.min_eq_left (capacity_le bounded)]

theorem reserve_refines {member : Bool} {vector : StdVector} (bounded : buf.Bounded)
    (own : buf.Own) (kind : buf.target = .stdVector member vector) :
    (∃ error, reserve size growth buf = .thrown error buf) ∨
      ∃ after, reserve size growth buf = .returned () after ∧
        WtfBuffer.reserve size buf.view = .returned () after.view := by
  by_cases room : size ≤ buf.capacity
  · refine .inr ⟨buf, reserve_small room, ?_⟩
    have seen : size ≤ buf.view.capacity := by
      rw [view_capacity bounded]
      exact room
    simp [WtfBuffer.reserve, seen]
  · have large := Nat.lt_of_not_le room
    have inside := own member vector kind
    have small := size_le_capacity bounded
    have done := reserve_vector growth large kind
    cases resized : vector.resize size growth with
    | error error =>
        rw [resized] at done
        exact .inl ⟨error, done⟩
    | ok grown =>
        rw [resized] at done
        refine .inr ⟨_, done, ?_⟩
        obtain ⟨⟨rest, bytes⟩, count⟩ := resize_grown (Nat.lt_of_le_of_lt inside large) resized
        -- the new block holds the old elements and zeros behind them; both views read it whole
        have fits := vector.fits
        have length := vector.extended_length (Nat.le_of_lt (Nat.lt_of_le_of_lt inside large))
        have stored : size ≤ (Memory.stdVector member grown).block.bytes.length := by
          rw [← count]
          exact grown.fits
        have placed := placed_bounded bounded (Nat.le_of_lt large) stored
        have still : ¬ size ≤ buf.view.capacity := by
          rw [view_capacity bounded]
          exact room
        have target : buf.view.target = .vector vector.size := by simp only [view, kind]
        have elements : buf.view.storage.take vector.size = vector.elements := by
          rw [view_storage bounded, storage_front bounded, List.take_take, Nat.min_eq_left inside,
            kind]
          rfl
        have kept : vector.elements.length = vector.size := by
          rw [StdVector.elements, List.length_take, Nat.min_eq_left fits]
        have front : (grown.block.bytes.take buf.size) = (vector.extended size).take buf.size := by
          rw [bytes, List.take_append_of_le_length (by omega)]
        have back : (grown.block.bytes.drop buf.size).take (size - buf.size) =
            (vector.extended size).drop buf.size := by
          rw [bytes, List.drop_append_of_le_length (by omega),
            List.take_append_of_le_length (by rw [List.length_drop]; omega)]
          exact List.take_of_length_le (by rw [List.length_drop]; omega)
        have content : (buf.placed (.stdVector member grown) size).view.content =
            (vector.extended size).take buf.size :=
          (placed_content bounded (Nat.le_of_lt large) stored).trans front
        have spare : (buf.placed (.stdVector member grown) size).view.spare =
            (vector.extended size).drop buf.size := by
          rw [spare_front placed, placed_size, placed_capacity]
          exact back
        have shown : (buf.placed (.stdVector member grown) size).view =
            ⟨(vector.extended size).take buf.size, (vector.extended size).drop buf.size,
              .vector size⟩ := by
          rw [← content, ← spare, ← count]
          rfl
        simp only [WtfBuffer.reserve, Cxx.bind_get, if_neg still, target, WtfBuffer.regrown,
          elements, kept, view_size bounded, shown]
        rfl

/-- A write through `end` is an append to what the user sees. -/
theorem write_refines {items : Bytes} (bounded : buf.Bounded) (room : items.length ≤ buf.available) :
    ∃ after, write items buf = .returned () after ∧ after.content = (buf.view.push items).content := by
  obtain ⟨after, done, written⟩ := write_returned bounded room
  exact ⟨after, done, written.content⟩

end Views

section Runs
variable {mode : Construction} {buf : Buffer}

theorem of_vector_bounded_iff (member : Bool) (vector : StdVector) (offset : Nat) :
    (ofVector member vector offset).Bounded ↔ offset ≤ vector.capacity := by
  constructor
  · intro bounded
    exact Nat.le_of_add_le_add_left bounded.upper
  · intro inside
    exact ⟨rfl, Nat.le_add_right _ _, Nat.add_le_add_left inside _, Nat.le_refl _⟩

theorem of_vector_own (member : Bool) (vector : StdVector) (offset : Nat) :
    (ofVector member vector offset).Own := by
  rintro _ _ ⟨⟩
  have fits := vector.fits
  have total : (ofVector member vector offset).capacity = vector.block.bytes.length :=
    Nat.add_sub_cancel_left _ _
  rw [total]
  exact fits

theorem copy_capacity (base : Nat) (vector : StdVector) :
    (vector.copy base).capacity = vector.size := by
  have fits := vector.fits
  simp only [StdVector.copy, StdVector.capacity, StdVector.elements, List.length_take]
  omega

theorem build_bounded_iff (built : mode.build = some buf) : buf.Bounded ↔ mode.OffsetInside := by
  cases mode with
  | sized base size =>
      cases built
      have bounded := (of_vector_bounded_iff true ((StdVector.zeros size).copy base) 0).mpr
        (Nat.zero_le _)
      exact iff_of_true bounded trivial
  | borrowed vector offset =>
      cases built
      exact of_vector_bounded_iff false vector offset
  | moved base vector offset =>
      cases built
      rw [ofMoved, of_vector_bounded_iff, copy_capacity]
      rfl
  | raw data realloc =>
      obtain ⟨block, rfl, rfl⟩ := Option.map_eq_some_iff.mp built
      exact iff_of_true ⟨rfl, Nat.le_refl _, Nat.le_add_right _ _, Nat.le_refl _⟩ trivial

theorem build_own (built : mode.build = some buf) : buf.Own := by
  cases mode with
  | sized base size =>
      cases built
      exact of_vector_own true _ 0
  | borrowed vector offset =>
      cases built
      exact of_vector_own false vector offset
  | moved base vector offset =>
      cases built
      exact of_vector_own true _ offset
  | raw data realloc =>
      obtain ⟨block, rfl, rfl⟩ := Option.map_eq_some_iff.mp built
      exact nofun

/-- However a buffer is constructed and whatever is done with it, the pointers stay
in bounds and the content is kept if and only if the offset lies inside and no
vector grows under content that it does not know of. -/
theorem buffer_lawful_iff (built : mode.build = some buf) (events : List (Op × Growth))
    (contract : Throughout step Allowed events buf) :
    buf.Bounded ∧ Throughout step Lawful events buf ↔
      mode.OffsetInside ∧ Throughout step Covered events buf := by
  rw [build_bounded_iff built]
  apply and_congr_right
  intro inside
  have bounded := (build_bounded_iff built).mpr inside
  exact throughout_iff (fun _ event _ valid allowed done => step_valid event valid allowed done)
    (fun _ event valid allowed => lawful_iff valid.1 valid.2 event allowed) events buf
    ⟨bounded, build_own built⟩ contract

theorem whole_lawful {buf : Buffer} (bounded : buf.Bounded) (whole : buf.Whole)
    (events : List (Op × Growth)) (contract : Throughout step Allowed events buf) :
    Throughout step Lawful events buf := by
  have own : ∀ {other : Buffer}, other.Whole → other.Own :=
    fun whole member vector target => Nat.le_of_eq (whole member vector target)
  have kept : ∀ (before : Buffer) (event : Op × Growth) (after : Buffer),
      before.Bounded ∧ before.Whole → before.Allowed event → step event before = some after →
        after.Bounded ∧ after.Whole := by
    intro before event after valid allowed done
    exact ⟨(step_valid event ⟨valid.1, own valid.2⟩ allowed done).1,
      step_whole event valid.1 valid.2 allowed done⟩
  refine throughout_of kept ?_ events buf ⟨bounded, whole⟩ contract
  intro before event valid allowed
  exact (lawful_iff valid.1 (own valid.2) event allowed).mpr (whole_covered event valid.1 valid.2)

theorem moved_whole (base : Nat) (vector : StdVector) (offset : Nat) :
    (ofMoved base vector offset).Whole := by
  rintro _ _ ⟨⟩
  have total : (ofMoved base vector offset).capacity = (vector.copy base).capacity :=
    Nat.add_sub_cancel_left _ _
  rw [total, copy_capacity]
  rfl

theorem raw_whole (block : Block) (realloc : Bool) : (ofRaw block realloc).Whole := nofun

end Runs

theorem buffer_lawful_member :
    (ofSize 16 2).Bounded ∧ Throughout step Lawful [(.write [7], .moves 32 []), (.reserve 4, .moves 32 [])]
        (ofSize 16 2) ↔
      (Construction.sized 16 2).OffsetInside ∧
        Throughout step Covered [(.write [7], .moves 32 []), (.reserve 4, .moves 32 [])] (ofSize 16 2) := by
  have room : [(7 : UInt8)].length ≤ (ofSize 16 2).available := by decide
  have built : (Construction.sized 16 2).build = some (ofSize 16 2) := rfl
  refine buffer_lawful_iff built _ ⟨room, fun next done => ⟨?_, fun _ _ => trivial⟩⟩
  cases done
  exact nofun

/-- An empty vector with reserved capacity, passed by reference. -/
def reserved : StdVector := ⟨⟨16, [0, 0]⟩, 0, Nat.zero_le _⟩

/-- Two bytes are written through `end`, and the next `reserve()` wipes them out. -/
theorem reserve_wipes_content :
    (Construction.borrowed reserved 0).build = some (ofVector false reserved 0) ∧
      Throughout step Allowed [(.write [7, 8], .moves 32 []), (.reserve 4, .moves 32 [])]
        (ofVector false reserved 0) ∧
      (∃ written grown, step (.write [7, 8], .moves 32 []) (ofVector false reserved 0) = some written ∧
        written.content = [7, 8] ∧ step (.reserve 4, .moves 32 []) written = some grown ∧
        grown.content = [0, 0]) ∧
      ¬ Throughout step Lawful [(.write [7, 8], .moves 32 []), (.reserve 4, .moves 32 [])]
        (ofVector false reserved 0) := by
  have room : [(7 : UInt8), 8].length ≤ (ofVector false reserved 0).available := by decide
  refine ⟨rfl, ⟨room, fun next done => ⟨?_, fun _ _ => trivial⟩⟩, ⟨_, _, rfl, rfl, rfl, rfl⟩, ?_⟩
  · cases done
    exact nofun
  · rintro ⟨_, later⟩
    have kept := (later _ rfl).1.2
    revert kept
    decide

end Buffer

end Cpp2tnt
