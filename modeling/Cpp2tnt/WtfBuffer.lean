import Mathlib.Data.List.Basic
import Cpp2tnt.Library.Imperative

/-!
`wtf_buffer`. The storage `[head, end_of_storage)` is `content ++ spare`, split at
`end`, so `head <= end <= end_of_storage` holds by construction. `spare` keeps
whatever was stored there before; `resize` exposes it. The target decides what
growth keeps: a `std::vector` copies its own `size()` elements and clears the
rest, which is not the size the user sees. Elements are generic: the buffer
never looks at them.
-/

namespace Cpp2tnt
open Imperative

inductive ExnType where
  | rangeError | overflowError | runtimeError | lengthError | mpReaderError
  deriving DecidableEq

/-- A C++ exception: its class and what the code passed as `what()`. -/
structure Exn where
  type : ExnType
  what : String
  deriving DecidableEq

inductive Target where
  | raw (realloc : Bool)
  | vector (size : Nat)
  deriving DecidableEq

structure WtfBuffer (α : Type) where
  content : List α
  spare : List α
  target : Target

namespace WtfBuffer
variable {α : Type}

def storage (buf : WtfBuffer α) : List α := buf.content ++ buf.spare

def size (buf : WtfBuffer α) : Nat := buf.content.length

def capacity (buf : WtfBuffer α) : Nat := buf.content.length + buf.spare.length

def available (buf : WtfBuffer α) : Nat := buf.spare.length

/-- `wtf_buffer(size_t size = 1024 * 1024)`: an owned, zero-filled vector. -/
def ofSize [Inhabited α] (size : Nat) : WtfBuffer α :=
  { content := [], spare := List.replicate size default, target := .vector size }

/-- Set `end` to `head + size`; the storage is untouched. -/
def cut (size : Nat) (buf : WtfBuffer α) : WtfBuffer α :=
  { buf with content := buf.storage.take size, spare := buf.storage.drop size }

def clear (buf : WtfBuffer α) : WtfBuffer α := buf.cut 0

/-- New storage of `size` elements that starts with the elements `kept`. -/
def regrown [Inhabited α] (kept : List α) (size : Nat) (buf : WtfBuffer α) : WtfBuffer α :=
  let storage := kept ++ List.replicate (size - kept.length) default
  { buf with content := storage.take buf.size, spare := storage.drop buf.size }

def reserve [Inhabited α] (size : Nat) : Cxx Exn (WtfBuffer α) Unit := do
  let buf ← Cxx.get
  if size ≤ buf.capacity then return ()
  match buf.target with
  | .raw false => Cxx.throw ⟨.runtimeError, "unable to resize raw buffer"⟩
  | .raw true => Cxx.put (buf.regrown buf.storage size)
  | .vector own =>
      Cxx.put { buf.regrown (buf.storage.take own) size with target := .vector size }

def resize [Inhabited α] (size : Nat) : Cxx Exn (WtfBuffer α) Unit := do
  let buf ← Cxx.get
  if size > buf.capacity then reserve size
  let buf ← Cxx.get
  Cxx.put (buf.cut size)

/-- Elements stored at `end`, which then moves past them. The caller is trusted
to have checked `available()`; without room the stores leave the storage. -/
def push (items : List α) (buf : WtfBuffer α) : WtfBuffer α :=
  { buf with content := buf.content ++ items, spare := buf.spare.drop items.length }

def append (items : List α) : Cxx Exn (WtfBuffer α) Unit := do
  let buf ← Cxx.get
  if items.length ≤ buf.available then Cxx.put (buf.push items) else Cxx.undefined

/-- `end += count`: shows what the storage holds there. -/
def advance (count : Nat) : Cxx Exn (WtfBuffer α) Unit := do
  let buf ← Cxx.get
  if count ≤ buf.available then Cxx.put (buf.push (buf.spare.take count)) else Cxx.undefined

/-- Overwrite the storage at `head + offset`. -/
def store (offset : Nat) (items : List α) : Cxx Exn (WtfBuffer α) Unit := do
  let buf ← Cxx.get
  if offset + items.length ≤ buf.capacity then
    let storage := buf.storage.take offset ++ items ++ buf.storage.drop (offset + items.length)
    Cxx.put { buf with content := storage.take buf.size, spare := storage.drop buf.size }
  else Cxx.undefined

def load (offset : Nat) : Cxx Exn (WtfBuffer α) α := do
  let buf ← Cxx.get
  match buf.storage[offset]? with
  | some item => return item
  | none => Cxx.undefined

def map {β : Type} (f : α → β) (buf : WtfBuffer α) : WtfBuffer β :=
  { content := buf.content.map f, spare := buf.spare.map f, target := buf.target }

@[simp] theorem storage_length (buf : WtfBuffer α) : buf.storage.length = buf.capacity := by
  simp [storage, capacity]

theorem size_le_capacity (buf : WtfBuffer α) : buf.size ≤ buf.capacity := Nat.le_add_right _ _

@[simp] theorem clear_content (buf : WtfBuffer α) : buf.clear.content = [] := by
  simp [clear, cut]

@[simp] theorem cut_target (size : Nat) (buf : WtfBuffer α) :
    (buf.cut size).target = buf.target := rfl

@[simp] theorem cut_storage (size : Nat) (buf : WtfBuffer α) :
    (buf.cut size).storage = buf.storage := by
  simp [cut, storage]

@[simp] theorem cut_capacity (size : Nat) (buf : WtfBuffer α) :
    (buf.cut size).capacity = buf.capacity := by
  rw [← storage_length, cut_storage, storage_length]

@[simp] theorem clear_capacity (buf : WtfBuffer α) : buf.clear.capacity = buf.capacity :=
  cut_capacity 0 buf

theorem cut_content (size : Nat) (buf : WtfBuffer α) (within : size ≤ buf.size) :
    (buf.cut size).content = buf.content.take size := by
  simp [cut, storage, List.take_append_of_le_length within]

@[simp] theorem push_content (items : List α) (buf : WtfBuffer α) :
    (buf.push items).content = buf.content ++ items := rfl

@[simp] theorem push_target (items : List α) (buf : WtfBuffer α) :
    (buf.push items).target = buf.target := rfl

theorem push_capacity (items : List α) (buf : WtfBuffer α) (room : items.length ≤ buf.available) :
    (buf.push items).capacity = buf.capacity := by
  simp only [available] at room
  simp only [capacity, push, List.length_append, List.length_drop]
  omega

theorem push_available (items : List α) (buf : WtfBuffer α) :
    (buf.push items).available = buf.available - items.length := by
  simp [available, push]

@[simp] theorem push_nil (buf : WtfBuffer α) : buf.push [] = buf := by
  simp [push]

theorem push_push (first second : List α) (buf : WtfBuffer α) :
    (buf.push first).push second = buf.push (first ++ second) := by
  simp [push, List.append_assoc, List.drop_drop]

theorem append_returned (items : List α) (buf : WtfBuffer α) (room : items.length ≤ buf.available) :
    append items buf = .returned () (buf.push items) := by
  simp [append, room]

theorem advance_returned (count : Nat) (buf : WtfBuffer α) (room : count ≤ buf.available) :
    advance count buf = .returned () (buf.push (buf.spare.take count)) := by
  simp [advance, room]

theorem store_returned (buf : WtfBuffer α) (front before after items : List α)
    (content : buf.content = front ++ before ++ after) (same : items.length = before.length) :
    store front.length items buf = .returned () { buf with content := front ++ items ++ after } := by
  have room : front.length + items.length ≤ buf.capacity := by
    simp only [capacity, content, List.length_append]
    omega
  have storage : buf.storage = front ++ (before ++ (after ++ buf.spare)) := by
    simp [WtfBuffer.storage, content, List.append_assoc]
  have kept : buf.storage.take front.length = front := by rw [storage, List.take_left]
  have rest : buf.storage.drop (front.length + items.length) = after ++ buf.spare := by
    rw [storage, same, ← List.drop_drop, List.drop_left, List.drop_left]
  have size : buf.size = (front ++ items ++ after).length := by
    simp [WtfBuffer.size, content, same]
  have whole : front ++ items ++ (after ++ buf.spare) = (front ++ items ++ after) ++ buf.spare := by
    simp [List.append_assoc]
  simp only [store, Cxx.bind_get, room, if_true, kept, rest, whole, size, List.take_left,
    List.drop_left, Cxx.put_run]

theorem load_returned (buf : WtfBuffer α) (front after : List α) (item : α)
    (content : buf.content = front ++ item :: after) :
    load front.length buf = .returned item buf := by
  have found : buf.storage[front.length]? = some item := by
    simp [storage, content, List.append_assoc]
  simp [load, found]

/-!
A buffer the class allocated itself keeps `size() == capacity()` of its vector,
so growth keeps every byte. All four buffers of a connection are of this kind.
-/

def Owned (buf : WtfBuffer α) : Prop := buf.target = .vector buf.capacity

/-- Storage grown to at least `size` elements. -/
def extend [Inhabited α] (size : Nat) (buf : WtfBuffer α) : WtfBuffer α :=
  if size ≤ buf.capacity then buf
  else { buf with
    spare := buf.spare ++ List.replicate (size - buf.capacity) default
    target := .vector size }

theorem of_size_owned [Inhabited α] (size : Nat) : (ofSize size : WtfBuffer α).Owned := by
  simp [Owned, ofSize, capacity]

theorem push_owned (items : List α) (buf : WtfBuffer α) (owned : buf.Owned)
    (room : items.length ≤ buf.available) : (buf.push items).Owned := by
  rw [Owned, push_capacity items buf room]
  exact owned

@[simp] theorem extend_content [Inhabited α] (size : Nat) (buf : WtfBuffer α) :
    (buf.extend size).content = buf.content := by
  unfold extend
  split <;> rfl

theorem extend_capacity [Inhabited α] (size : Nat) (buf : WtfBuffer α) :
    (buf.extend size).capacity = max buf.capacity size := by
  unfold extend
  split
  · omega
  · simp only [capacity, List.length_append, List.length_replicate] at *
    omega

theorem extend_owned [Inhabited α] (size : Nat) (buf : WtfBuffer α) (owned : buf.Owned) :
    (buf.extend size).Owned := by
  rw [Owned, extend_capacity]
  unfold extend
  split
  · rw [owned]
    congr 1
    omega
  · simp only [Target.vector.injEq]
    omega

theorem reserve_owned [Inhabited α] (size : Nat) (buf : WtfBuffer α) (owned : buf.Owned) :
    reserve size buf = .returned () (buf.extend size) := by
  unfold reserve extend
  by_cases within : size ≤ buf.capacity
  · simp [within]
  · have whole : buf.storage.take buf.capacity = buf.storage :=
      List.take_of_length_le (by simp)
    have kept : buf.storage ++ List.replicate (size - buf.storage.length) default =
        buf.content ++ (buf.spare ++ List.replicate (size - buf.capacity) default) := by
      simp [storage, capacity]
    rw [Owned] at owned
    simp only [Cxx.bind_get, within, if_false, owned, Cxx.put_run, regrown, whole, kept,
      WtfBuffer.size, List.take_left, List.drop_left]

theorem resize_owned [Inhabited α] (size : Nat) (buf : WtfBuffer α) (owned : buf.Owned) :
    resize size buf = .returned () ((buf.extend size).cut size) := by
  unfold resize
  by_cases within : size ≤ buf.capacity
  · have same : buf.extend size = buf := by simp [extend, within]
    simp [Nat.not_lt.mpr within, same]
  · have grown := reserve_owned size buf owned
    simp only [Cxx.bind_get, Nat.lt_of_not_le within, if_true]
    rw [Cxx.bind_returned grown]
    rfl

end WtfBuffer

end Cpp2tnt
