import Cpp2tnt.ReaderContent

/-!
Items by their index: `operator[]` of an array reader, which skips items on a copy
of the reader, and `operator[]` of `mp_array` itself. The latter counts an unsigned
index down to below zero.
-/

namespace Cpp2tnt
open Imperative MessagePack

/-- The loop of `mp_array::operator[]`: `i-- >= 0` is asked of a `size_t`. Without
`fuel` there is no result yet. -/
def itemLoop (mp : Msgpuck) (mem : Bytes) : Nat → UInt64 → Nat → Nat → Cxx Exn Unit (Option (Nat × Nat))
  | 0, _, _, _ => pure none
  | fuel + 1, i, prevPos, pos =>
      if 0 ≤ i then
        if pos < mem.length then itemLoop mp mem fuel (i - 1) pos (pos + mp.mpNext (mem.drop pos))
        else Cxx.undefined
      else pure (some (prevPos, pos))

/-- `mp_array::operator[](i)`: where the item begins and ends. -/
def mpArrayAt (mp : Msgpuck) (mem : Bytes) (fuel beginPos : Nat) (i : UInt64) :
    Cxx Exn Unit (Option (Nat × Nat)) := itemLoop mp mem fuel i beginPos beginPos

theorem item_loop_never (mp : Msgpuck) (mem : Bytes) (fuel : Nat) (i : UInt64) (prevPos pos : Nat)
    (slice : Nat × Nat) : itemLoop mp mem fuel i prevPos pos () ≠ .returned (some slice) () := by
  induction fuel generalizing i prevPos pos with
  | zero => nofun
  | succ fuel ih =>
      -- the counter is unsigned: `i >= 0` holds of every value, also after 0 is decremented
      have always : 0 ≤ i := UInt64.zero_le
      rw [itemLoop, if_pos always]
      split
      · exact ih _ _ _
      · nofun

/-- A reader of an array stands before an item of this number. -/
structure AtItem (pos : Nat) (items : List Bytes) (ind : Nat) (reader : MpReader) : Prop where
  shape : reader.shape = .array items.length
  begins : reader.beginPos = some pos
  stands : reader.currentPos = some (pos + itemOffset items ind)
  counted : reader.currentInd ≤ ind
  ends : ∀ last ∈ reader.endPos, pos + items.flatten.length ≤ last

section Items
variable {mp : Msgpuck} {mem rest : Bytes} {items : List Bytes} {pos ind : Nat} {reader : MpReader}

theorem AtItem.at_index (stands : AtItem pos items ind reader) : AtIndex items pos ind reader := by
  refine ⟨⟨stands.begins, ?_, stands.ends⟩, stands.stands, fun _ => stands.counted⟩
  rw [stands.shape]
  rintro _ ⟨⟩
  exact Nat.le_refl _

/-- The reader gives the item of an index, and the array itself never comes to a
result. -/
theorem array_index_never (implements : Implements mp) (placed : mem.drop pos = items.flatten ++ rest)
    (formed : ∀ item ∈ items, ∃ value, Encodes value item)
    (stands : AtItem pos items reader.currentInd reader) (i : UInt64)
    (within : i.toNat < items.length) :
    (∃ first last, index mp mem i.toNat reader = .returned (MpReader.plain first last) reader ∧
      (mem.drop first).take (last - first) = items[i.toNat]) ∧
    ¬ ∃ fuel slice, mpArrayAt mp mem fuel pos i () = .returned (some slice) () := by
  constructor
  · exact ⟨_, _, index_returned implements ⟨placed, formed⟩ stands.at_index within,
      item_slice placed within⟩
  · rintro ⟨fuel, slice, done⟩
    exact item_loop_never mp mem fuel i pos pos slice done

end Items

theorem array_index_nil :
    (∃ first last, index reference [0xc0] (0 : UInt64).toNat (innerReader (.array 1) 0 1) =
        .returned (MpReader.plain first last) (innerReader (.array 1) 0 1) ∧
      ([(0xc0 : UInt8)].drop first).take (last - first) = [[(0xc0 : UInt8)]][(0 : UInt64).toNat]) ∧
    ¬ ∃ fuel slice, mpArrayAt reference [0xc0] fuel 0 0 () = .returned (some slice) () := by
  have nil : Encodes .nil [0xc0] := encodes_plain encode_nil_head rfl
  have formed : ∀ item ∈ [[(0xc0 : UInt8)]], ∃ value, Encodes value item := by
    rw [List.forall_mem_singleton]
    exact ⟨_, nil⟩
  have stands : AtItem 0 [[0xc0]] 0 (innerReader (.array 1) 0 1) := by
    refine ⟨rfl, rfl, rfl, Nat.le_refl _, ?_⟩
    rintro _ ⟨⟩
    exact Nat.le_refl 1
  exact array_index_never reference_implements rfl formed stands 0 (by decide)

/-- An array of one nil: its only item is never found. -/
theorem first_item_never :
    Encodes .nil [0xc0] ∧
      ¬ ∃ fuel slice, mpArrayAt reference [0xc0] fuel 0 0 () = .returned (some slice) () := by
  refine ⟨encodes_plain encode_nil_head rfl, ?_⟩
  rintro ⟨fuel, slice, done⟩
  exact item_loop_never reference [0xc0] fuel 0 0 0 slice done

end Cpp2tnt
