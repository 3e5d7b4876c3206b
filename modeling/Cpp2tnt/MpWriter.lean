import Cpp2tnt.MpReader

/-!
`mp_writer`. The writer keeps a stack of open containers over one buffer. A
container's header is written when it is opened, with the declared cardinality,
and patched in place when it is closed. Every value bumps the counter of the
innermost container once. Exceptions leave the writer as it was when they were
thrown: a container popped by a failing `finalize` stays popped.
-/

namespace Cpp2tnt
open Imperative MessagePack

/-- `wtf_stack<T, N>`: the innermost element first. -/
structure WtfStack (α : Type) (limit : Nat) where
  items : List α
  bounded : items.length ≤ limit

namespace WtfStack
variable {α : Type} {limit : Nat}

@[ext] theorem ext {left right : WtfStack α limit} (same : left.items = right.items) :
    left = right := by
  cases left
  cases right
  cases same
  rfl

def empty : WtfStack α limit := ⟨[], Nat.zero_le _⟩

/-- `_items[_size++] = value`, an array store: past the last slot it is undefined. -/
def push? (item : α) (stack : WtfStack α limit) : Option (WtfStack α limit) :=
  if room : stack.items.length < limit then some ⟨item :: stack.items, room⟩ else none

def pop? (stack : WtfStack α limit) : Option (α × WtfStack α limit) :=
  match stack with
  | ⟨[], _⟩ => none
  | ⟨item :: rest, bounded⟩ => some (item, ⟨rest, Nat.le_of_succ_le bounded⟩)

def mapTop (f : α → α) (stack : WtfStack α limit) : WtfStack α limit :=
  match stack with
  | ⟨[], bounded⟩ => ⟨[], bounded⟩
  | ⟨item :: rest, bounded⟩ => ⟨f item :: rest, bounded⟩

@[simp] theorem map_top_length (f : α → α) (stack : WtfStack α limit) :
    (stack.mapTop f).items.length = stack.items.length := by
  rcases stack with ⟨_ | ⟨item, rest⟩, bounded⟩ <;> rfl

end WtfStack

structure ContainerMeta where
  headOffset : Nat
  maxCardinality : Nat
  /-- A map has twice as many items as pairs. -/
  itemsCount : UInt32
  deriving DecidableEq

def ContainerMeta.addItems (count : Nat) (container : ContainerMeta) : ContainerMeta :=
  { container with itemsCount := container.itemsCount + UInt32.ofNat count }

structure MpWriter where
  buf : WtfBuffer UInt8
  openedContainers : WtfStack ContainerMeta 16

abbrev Write := Cxx Exn MpWriter

/-- The values the non-template and integral overloads of `operator<<` take. A
`string_view` without data and an empty `optional` are written as nil; floating
point values are given by their bits. -/
inductive Scalar where
  | nil
  | bool (value : Bool)
  | int (number : Int)
  | str (text : Bytes)
  | strictUint (width number : Nat)
  | float (bits : Nat)
  | double (bits : Nat)

/-- `!isfinite(val) || (val <= max() && val >= min())` on the bits of a double:
`min()` is the smallest positive normal number. -/
def doubleAccepted (bits : Nat) : Bool :=
  bits / 2 ^ 52 % 2 ^ 11 = 2047 || (2 ^ 52 ≤ bits && bits < 2 ^ 63)

def strictTag (width : Nat) : Nat := if width = 2 then 0xcd else if width = 4 then 0xce else 0xcf

namespace MpWriter

def ofBuffer (buf : WtfBuffer UInt8) : MpWriter := ⟨buf, WtfStack.empty⟩

def onBuffer {α : Type} (body : Cxx Exn (WtfBuffer UInt8) α) : Write α :=
  Cxx.zoom MpWriter.buf (fun buf writer => { writer with buf := buf }) body

/-- `_buf.end = mp_encode_...(_buf.end, ...)`: the space is not checked. -/
def emit (bytes : Bytes) : Write Unit := onBuffer (WtfBuffer.append bytes)

def counted (items : Nat) (writer : MpWriter) : MpWriter :=
  { writer with
    openedContainers := writer.openedContainers.mapTop (ContainerMeta.addItems items) }

def incrementContainerCounter (itemsAdded : Nat) : Write Unit := do
  let writer ← Cxx.get
  Cxx.put (writer.counted itemsAdded)

def pushContainer (maxCardinality : Nat) : Write Unit := do
  let writer ← Cxx.get
  match writer.openedContainers.push? ⟨writer.buf.size, maxCardinality, 0⟩ with
  | some opened => Cxx.put { writer with openedContainers := opened }
  | none => Cxx.undefined

section Encoding
variable (mp : Msgpuck)

def beginArray (maxCardinality : Nat) : Write Unit := do
  incrementContainerCounter 1
  pushContainer maxCardinality
  emit (mp.mpEncodeArray maxCardinality)

def beginMap (maxCardinality : Nat) : Write Unit := do
  incrementContainerCounter 1
  pushContainer maxCardinality
  emit (mp.mpEncodeMap maxCardinality)

/-- What `finalize` does with the header of an array or of a map, once it knows
the actual cardinality. -/
def patchHeader (encode : Nat → Bytes) (sizeof : Nat → Nat) (exceeded : String)
    (container : ContainerMeta) (actualCardinality : Nat) : Write Unit := do
  if actualCardinality = container.maxCardinality then return ()
  let maxNumBytes := sizeof container.maxCardinality
  if actualCardinality > container.maxCardinality ∧ sizeof actualCardinality > maxNumBytes then
    Cxx.throw ⟨.overflowError, exceeded⟩
  if maxNumBytes = 1 then
    onBuffer (WtfBuffer.store container.headOffset (encode actualCardinality))
  else if maxNumBytes = 3 then
    onBuffer (WtfBuffer.store (container.headOffset + 1)
      (mp.mpStoreU16 (actualCardinality % 2 ^ 16)))
  else if maxNumBytes = 5 then
    onBuffer (WtfBuffer.store (container.headOffset + 1) (mp.mpStoreU32 actualCardinality))
  else Cxx.throw ⟨.runtimeError, "previously not implemented container cardinality"⟩

def finalize : Write Unit := do
  let writer ← Cxx.get
  match writer.openedContainers.pop? with
  | none => Cxx.throw ⟨.rangeError, "no container to finalize"⟩
  | some (container, rest) => do
      Cxx.put { writer with openedContainers := rest }
      match mp.mpTypeof (← onBuffer (WtfBuffer.load container.headOffset)) with
      | .array =>
          patchHeader mp mp.mpEncodeArray mp.mpSizeofArray "array header size exceeded" container
            container.itemsCount.toNat
      | .map =>
          if container.itemsCount.toNat % 2 = 1 then
            Cxx.throw ⟨.runtimeError, "odd number of map items"⟩
          patchHeader mp mp.mpEncodeMap mp.mpSizeofMap "map header size exceeded" container
            (container.itemsCount.toNat / 2)
      | _ => Cxx.throw ⟨.runtimeError, "unexpected container header"⟩

/-- `finalize_all` closes the containers that are open when it starts. -/
def finalizeAll : Write Unit := do
  let writer ← Cxx.get
  Cxx.forEach (fun _ => finalize mp) writer.openedContainers.items

/-- The loop of `write` that counts the items of the appended range. The fuel
covers every run in which `mp_next` moves forward. -/
def countItems (bytes : Bytes) : Nat → Read Nat
  | 0 => Cxx.undefined
  | fuel + 1 => do
      if !(← hasNext false) then return 0
      skip mp bytes
      let rest ← countItems bytes fuel
      return rest + 1

/-- `write(begin, end, cardinality)`. The destination is taken before `resize`, which
replaces the storage where it has to grow: `PlacedWriter.write` looks at the addresses. -/
def write (bytes : Bytes) (cardinality : Nat) : Write Unit := do
  let before ← Cxx.get
  onBuffer (WtfBuffer.resize (before.buf.size + bytes.length))
  if bytes.length ≤ before.buf.available then onBuffer (WtfBuffer.store before.buf.size bytes)
  else Cxx.undefined
  let writer ← Cxx.get
  if !writer.openedContainers.items.isEmpty then
    if cardinality = 0 then
      let (counted, _) ← Cxx.onObject (countItems mp bytes (bytes.length + 1))
        (MpReader.plain 0 bytes.length)
      incrementContainerCounter counted
    else incrementContainerCounter cardinality

def scalarBytes : Scalar → Except Exn Bytes
  | .nil => .ok mp.mpEncodeNil
  | .bool value => .ok (mp.mpEncodeBool value)
  | .int number =>
      .ok (if 0 ≤ number then mp.mpEncodeUint number.toNat else mp.mpEncodeInt number)
  | .str text =>
      if 2 ^ 32 - 1 < text.length then .error ⟨.overflowError, "too long string"⟩
      else .ok (mp.mpEncodeStr text)
  | .strictUint width number =>
      .ok (mp.mpStoreU8 (strictTag width) ++
        (if width = 2 then mp.mpStoreU16 number
          else if width = 4 then mp.mpStoreU32 number else mp.mpStoreU64 number))
  | .float bits => .ok (mp.mpEncodeFloat bits)
  | .double bits =>
      if doubleAccepted bits then .ok (mp.mpEncodeDouble bits)
      else .error ⟨.overflowError, "unable to fit floating point value into msgpack"⟩

def writeScalar (value : Scalar) : Write Unit := do
  match scalarBytes mp value with
  | .error error => Cxx.throw error
  | .ok bytes =>
      emit bytes
      incrementContainerCounter 1

end Encoding

@[simp] theorem increment_returned (items : Nat) (writer : MpWriter) :
    incrementContainerCounter items writer = .returned () (writer.counted items) := rfl

theorem on_buffer_returned {α : Type} {body : Cxx Exn (WtfBuffer UInt8) α} {writer : MpWriter}
    {value : α} {reached : WtfBuffer UInt8} (done : body writer.buf = .returned value reached) :
    onBuffer body writer = .returned value { writer with buf := reached } :=
  Cxx.zoom_returned done

theorem emit_returned (bytes : Bytes) (writer : MpWriter)
    (room : bytes.length ≤ writer.buf.available) :
    emit bytes writer = .returned () { writer with buf := writer.buf.push bytes } :=
  on_buffer_returned (WtfBuffer.append_returned bytes writer.buf room)

theorem emit_undefined (bytes : Bytes) (writer : MpWriter)
    (full : ¬ bytes.length ≤ writer.buf.available) : emit bytes writer = .undefined := by
  simp only [emit, onBuffer, Cxx.zoom, WtfBuffer.append, Cxx.bind_get, if_neg full,
    Cxx.undefined_run]

theorem push_container_returned (maxCardinality : Nat) (writer : MpWriter)
    (room : writer.openedContainers.items.length < 16) :
    pushContainer maxCardinality writer = .returned ()
      { writer with openedContainers :=
        ⟨⟨writer.buf.size, maxCardinality, 0⟩ :: writer.openedContainers.items, room⟩ } := by
  simp [pushContainer, WtfStack.push?, room]

@[simp] theorem counted_buf (items : Nat) (writer : MpWriter) :
    (writer.counted items).buf = writer.buf := rfl

@[simp] theorem counted_opened_length (items : Nat) (writer : MpWriter) :
    (writer.counted items).openedContainers.items.length =
      writer.openedContainers.items.length := by
  simp [counted]

end MpWriter

end Cpp2tnt
