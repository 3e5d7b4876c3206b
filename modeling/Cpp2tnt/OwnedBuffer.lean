import Cpp2tnt.WtfBuffer

/-!
The buffers of a connection. Each is constructed by `wtf_buffer(size_t)` and
only ever moved, so its vector is always as large as its storage. `OwnedBuffer`
keeps just the two parts of the storage: being owned holds by construction. The
refinement theorems relate every operation to the one of `WtfBuffer`.
-/

namespace Cpp2tnt
open Imperative

structure OwnedBuffer (α : Type) where
  content : List α
  spare : List α

namespace OwnedBuffer
variable {α β : Type}

def toWtf (buf : OwnedBuffer α) : WtfBuffer α :=
  { content := buf.content
    spare := buf.spare
    target := .vector (buf.content.length + buf.spare.length) }

def ofWtf (buf : WtfBuffer α) : OwnedBuffer α := ⟨buf.content, buf.spare⟩

def size (buf : OwnedBuffer α) : Nat := buf.content.length

def capacity (buf : OwnedBuffer α) : Nat := buf.content.length + buf.spare.length

def available (buf : OwnedBuffer α) : Nat := buf.spare.length

def storage (buf : OwnedBuffer α) : List α := buf.content ++ buf.spare

def clear (buf : OwnedBuffer α) : OwnedBuffer α := ⟨[], buf.storage⟩

/-- Store at `end` and move it; the caller has checked that there is room. -/
def push (items : List α) (buf : OwnedBuffer α) : OwnedBuffer α :=
  ⟨buf.content ++ items, buf.spare.drop items.length⟩

def truncate (size : Nat) (buf : OwnedBuffer α) : OwnedBuffer α :=
  ⟨buf.storage.take size, buf.storage.drop size⟩

/-- `memcpy(data(), items, n)` over what is stored; `end` stays. -/
def overwrite (items : List α) (buf : OwnedBuffer α) : OwnedBuffer α :=
  let storage := items ++ buf.storage.drop items.length
  ⟨storage.take buf.size, storage.drop buf.size⟩

section Growth
variable [Inhabited α]

def ofSize (size : Nat) : OwnedBuffer α := ⟨[], List.replicate size default⟩

def reserve (size : Nat) (buf : OwnedBuffer α) : OwnedBuffer α :=
  ⟨buf.content, buf.spare ++ List.replicate (size - buf.capacity) default⟩

def resize (size : Nat) (buf : OwnedBuffer α) : OwnedBuffer α := (buf.reserve size).truncate size

end Growth

theorem to_wtf_owned (buf : OwnedBuffer α) : buf.toWtf.Owned := rfl

theorem of_wtf_owned (buf : WtfBuffer α) (owned : buf.Owned) : (ofWtf buf).toWtf = buf := by
  obtain ⟨content, spare, target⟩ := buf
  have same : target = .vector (content.length + spare.length) := owned
  rw [same]
  rfl

@[simp] theorem clear_content (buf : OwnedBuffer α) : buf.clear.content = [] := rfl

@[simp] theorem clear_capacity (buf : OwnedBuffer α) : buf.clear.capacity = buf.capacity := by
  simp [clear, capacity, storage]

@[simp] theorem push_content (items : List α) (buf : OwnedBuffer α) :
    (buf.push items).content = buf.content ++ items := rfl

theorem push_capacity (items : List α) (buf : OwnedBuffer α) (room : items.length ≤ buf.available) :
    (buf.push items).capacity = buf.capacity := by
  simp only [available] at room
  simp only [capacity, push, List.length_append, List.length_drop]
  omega

theorem empty_available (buf : OwnedBuffer α) (empty : buf.content = []) :
    buf.available = buf.capacity := by
  rw [capacity, empty, List.length_nil, Nat.zero_add, available]

theorem truncate_content (size : Nat) (buf : OwnedBuffer α) (within : size ≤ buf.size) :
    (buf.truncate size).content = buf.content.take size :=
  List.take_append_of_le_length within

theorem storage_length (buf : OwnedBuffer α) : buf.storage.length = buf.capacity :=
  List.length_append

theorem split_capacity (storage : List α) (size : Nat) :
    (⟨storage.take size, storage.drop size⟩ : OwnedBuffer α).capacity = storage.length := by
  rw [← storage_length]
  simp only [OwnedBuffer.storage, List.take_append_drop]

@[simp] theorem truncate_capacity (size : Nat) (buf : OwnedBuffer α) :
    (buf.truncate size).capacity = buf.capacity := by
  rw [truncate, split_capacity, storage_length]

theorem overwrite_storage (items : List α) (buf : OwnedBuffer α) :
    (buf.overwrite items).storage = items ++ buf.storage.drop items.length :=
  List.take_append_drop _ _

@[simp] theorem overwrite_capacity (items : List α) (buf : OwnedBuffer α) :
    (buf.overwrite items).capacity = max buf.capacity items.length := by
  rw [overwrite, split_capacity, List.length_append, List.length_drop, storage_length]
  omega

section Growth
variable [Inhabited α]

theorem of_size_capacity (size : Nat) : (ofSize size : OwnedBuffer α).capacity = size := by
  simp [ofSize, capacity]

theorem of_size_roomy {least size : Nat} (fits : least ≤ size) :
    least ≤ (ofSize size : OwnedBuffer α).capacity := by
  rw [of_size_capacity]
  exact fits

theorem of_size_available (size : Nat) : (ofSize size : OwnedBuffer α).available = size := by
  simp [ofSize, available]

@[simp] theorem reserve_content (size : Nat) (buf : OwnedBuffer α) :
    (buf.reserve size).content = buf.content := rfl

@[simp] theorem reserve_capacity (size : Nat) (buf : OwnedBuffer α) :
    (buf.reserve size).capacity = max buf.capacity size := by
  simp only [reserve, capacity, List.length_append, List.length_replicate]
  omega

theorem resize_content (size : Nat) (buf : OwnedBuffer α) (within : size ≤ buf.size) :
    (buf.resize size).content = buf.content.take size :=
  truncate_content size _ within

@[simp] theorem resize_capacity (size : Nat) (buf : OwnedBuffer α) :
    (buf.resize size).capacity = max buf.capacity size := by
  simp [resize]

theorem resize_overwrite_content (items : List α) (buf : OwnedBuffer α) :
    ((buf.resize items.length).overwrite items).content = items := by
  have size : (buf.resize items.length).size = items.length := by
    have grown := (buf.reserve items.length).storage_length
    rw [reserve_capacity] at grown
    simp only [OwnedBuffer.size, resize, truncate, List.length_take, grown]
    omega
  rw [overwrite, size]
  exact List.take_left

theorem overwrite_resize_content (items : List α) (buf : OwnedBuffer α) :
    ((buf.overwrite items).resize items.length).content = items := by
  have kept : ((buf.overwrite items).reserve items.length).storage =
      items ++ (buf.storage.drop items.length ++
        List.replicate (items.length - (buf.overwrite items).capacity) default) := by
    rw [← List.append_assoc, ← overwrite_storage]
    exact (List.append_assoc _ _ _).symm
  rw [resize, truncate, kept]
  exact List.take_left

end Growth

theorem clear_refines (buf : OwnedBuffer α) : buf.clear.toWtf = buf.toWtf.clear := by
  simp [clear, toWtf, WtfBuffer.clear, WtfBuffer.cut, storage, WtfBuffer.storage]

theorem push_refines (items : List α) (buf : OwnedBuffer α) (room : items.length ≤ buf.available) :
    WtfBuffer.append items buf.toWtf = .returned () (buf.push items).toWtf := by
  have size : buf.content.length + items.length + (buf.spare.length - items.length) =
      buf.content.length + buf.spare.length := by
    simp only [available] at room
    omega
  rw [WtfBuffer.append_returned items buf.toWtf room]
  simp [push, toWtf, WtfBuffer.push, size]

theorem truncate_refines (size : Nat) (buf : OwnedBuffer α) :
    (buf.truncate size).toWtf = buf.toWtf.cut size := by
  have total : (buf.storage.take size).length + (buf.storage.drop size).length =
      buf.content.length + buf.spare.length := by
    rw [← List.length_append, List.take_append_drop, storage, List.length_append]
  simp only [truncate, toWtf, total]
  rfl

section Growth
variable [Inhabited α]

theorem reserve_extends (size : Nat) (buf : OwnedBuffer α) :
    (buf.reserve size).toWtf = buf.toWtf.extend size := by
  have same : buf.toWtf.capacity = buf.content.length + buf.spare.length := rfl
  unfold WtfBuffer.extend
  rw [same]
  by_cases within : size ≤ buf.content.length + buf.spare.length
  · have nothing : size - buf.capacity = 0 := Nat.sub_eq_zero_of_le within
    rw [if_pos within, reserve, nothing]
    simp [toWtf]
  · rw [if_neg within]
    simp only [reserve, toWtf, capacity, List.length_append, List.length_replicate,
      WtfBuffer.mk.injEq, Target.vector.injEq, true_and]
    omega

theorem reserve_refines (size : Nat) (buf : OwnedBuffer α) :
    WtfBuffer.reserve size buf.toWtf = .returned () (buf.reserve size).toWtf := by
  rw [reserve_extends]
  exact WtfBuffer.reserve_owned size buf.toWtf buf.to_wtf_owned

theorem resize_refines (size : Nat) (buf : OwnedBuffer α) :
    WtfBuffer.resize size buf.toWtf = .returned () (buf.resize size).toWtf := by
  rw [WtfBuffer.resize_owned size buf.toWtf buf.to_wtf_owned, ← reserve_extends,
    ← truncate_refines]
  rfl

end Growth

theorem overwrite_refines (items : List α) (buf : OwnedBuffer α) :
    WtfBuffer.store 0 items buf.toWtf =
      if items.length ≤ buf.capacity then .returned () (buf.overwrite items).toWtf
      else .undefined := by
  have same : buf.toWtf.capacity = buf.capacity := rfl
  simp only [WtfBuffer.store, Cxx.bind_get, Nat.zero_add, same]
  by_cases room : items.length ≤ buf.capacity
  · have total : (buf.overwrite items).capacity = buf.capacity := by
      rw [overwrite_capacity]
      omega
    have target : (buf.overwrite items).toWtf.target = buf.toWtf.target :=
      congrArg Target.vector total
    rw [if_pos room, if_pos room, Cxx.put_run, List.take_zero, List.nil_append, ← target]
    rfl
  · rw [if_neg room, if_neg room, Cxx.undefined_run]

end OwnedBuffer

end Cpp2tnt
