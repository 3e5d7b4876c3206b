import Cpp2tnt.ReaderOps
import Cpp2tnt.SpanViews

/-!
Readers over whole items. The content is the list of the items a reader has room
for: a cardinality may promise more of them, a right bound may lie behind the last
one. `operator[]` of a reader gives any of the items, from wherever its cursor
stands.
-/

namespace Cpp2tnt
open Imperative MessagePack

/-- The items stand in the memory. -/
structure Laid (mem : Bytes) (items : List Bytes) (pos : Nat) (rest : Bytes) : Prop where
  placed : mem.drop pos = items.flatten ++ rest
  formed : ∀ item ∈ items, ∃ value, Encodes value item

/-- The reader begins with the first item and has room for all of them. -/
structure Over (items : List Bytes) (pos : Nat) (reader : MpReader) : Prop where
  begins : reader.beginPos = some pos
  counts : ∀ limit ∈ reader.shape.limit, items.length ≤ limit
  ends : ∀ last ∈ reader.endPos, pos + items.flatten.length ≤ last

/-- The cursor is at the beginning of the item of this number, or behind the last one. -/
structure AtIndex (items : List Bytes) (pos ind : Nat) (reader : MpReader) : Prop
    extends Over items pos reader where
  stands : reader.currentPos = some (pos + itemOffset items ind)
  counted : reader.shape.limit.isSome → reader.currentInd ≤ ind

section Items
variable {mp : Msgpuck} {mem rest : Bytes} {items : List Bytes} {pos ind : Nat} {reader : MpReader}

theorem Laid.next (laid : Laid mem items pos rest) (implements : Implements mp)
    (within : ind < items.length) :
    mp.mpNext (mem.drop (pos + itemOffset items ind)) = items[ind].length := by
  obtain ⟨value, encodes⟩ := laid.formed items[ind] (List.getElem_mem within)
  rw [item_placed laid.placed within, implements.next value _ _ encodes]

theorem AtIndex.item (laid : Laid mem items pos rest) (stands : AtIndex items pos ind reader)
    (within : ind < items.length) :
    Stands mem reader items[ind] ((items.drop (ind + 1)).flatten ++ rest) := by
  have limit := item_offset_le items (ind + 1)
  have next := item_offset_succ within
  refine ⟨⟨_, stands.stands, item_placed laid.placed within, ?_⟩, ?_⟩
  · intro last bounded
    have ends := stands.ends last bounded
    omega
  · intro limit bounded
    have counts := stands.counts limit bounded
    have counted := stands.counted (Option.isSome_of_mem bounded)
    omega

theorem AtIndex.advance (stands : AtIndex items pos ind reader) (within : ind < items.length) :
    AtIndex items pos (ind + 1) (reader.advance items[ind].length) := by
  refine ⟨⟨stands.begins, stands.counts, stands.ends⟩, ?_, ?_⟩
  · rw [MpReader.advance, stands.stands, item_offset_succ within]
    simp [Nat.add_assoc]
  · intro limited
    exact Nat.le_trans (Nat.mod_le _ _) (Nat.succ_le_succ (stands.counted limited))

theorem skip_item (implements : Implements mp) (laid : Laid mem items pos rest)
    (stands : AtIndex items pos ind reader) (within : ind < items.length) :
    skip mp mem reader = .returned () (reader.advance items[ind].length) := by
  obtain ⟨value, encodes⟩ := laid.formed items[ind] (List.getElem_mem within)
  exact skip_returned implements encodes (stands.item laid within)

theorem skips_items (implements : Implements mp) (laid : Laid mem items pos rest) (count : Nat)
    (stands : AtIndex items pos ind reader) (within : ind + count ≤ items.length) :
    ∃ after, skips mp mem count reader = .returned () after ∧
      AtIndex items pos (ind + count) after := by
  induction count generalizing ind reader with
  | zero => exact ⟨reader, rfl, stands⟩
  | succ count ih =>
      have inside : ind < items.length := by omega
      have skipped := skip_item implements laid stands inside
      obtain ⟨after, done, reached⟩ := ih (stands.advance inside) (by omega)
      refine ⟨after, (Cxx.bind_returned skipped _).trans done, ?_⟩
      rw [Nat.add_right_comm] at reached
      exact reached

theorem Over.rewound (covers : Over items pos reader) : AtIndex items pos 0 reader.rewound :=
  ⟨⟨covers.begins, covers.counts, covers.ends⟩, covers.begins, fun _ => Nat.le_refl 0⟩

theorem index_returned (implements : Implements mp) (laid : Laid mem items pos rest)
    (stands : AtIndex items pos reader.currentInd reader) (within : ind < items.length) :
    index mp mem ind reader = .returned
      (MpReader.plain (pos + itemOffset items ind) (pos + itemOffset items (ind + 1))) reader := by
  obtain ⟨tmp, chosen, there, before⟩ : ∃ tmp,
      (if reader.currentInd ≤ ind then reader else reader.rewound) = tmp ∧
        AtIndex items pos tmp.currentInd tmp ∧ tmp.currentInd ≤ ind := by
    by_cases ahead : reader.currentInd ≤ ind
    · exact ⟨reader, if_pos ahead, stands, ahead⟩
    · exact ⟨reader.rewound, if_neg ahead, stands.toOver.rewound, Nat.zero_le _⟩
  obtain ⟨first, skipped, reached⟩ := skips_items implements laid (ind - tmp.currentInd) there
    (by omega)
  rw [Nat.add_sub_of_le before] at reached
  have passed := skip_item implements laid reached within
  have behind := reached.advance within
  have slice : (do
      skips mp mem (ind - tmp.currentInd)
      let first := (← Cxx.get).currentPos
      skip mp mem
      let last := (← Cxx.get).currentPos
      return (⟨.plain, first, last, first, 0⟩ : MpReader) : Read MpReader) tmp = .returned
        (MpReader.plain (pos + itemOffset items ind) (pos + itemOffset items (ind + 1)))
        (first.advance items[ind].length) := by
    rw [Cxx.bind_returned skipped, Cxx.bind_get, Cxx.bind_returned passed, Cxx.bind_get,
      reached.stands, behind.stands]
    rfl
  rw [index, Cxx.bind_get]
  simp only [chosen]
  rw [Cxx.bind_returned (Cxx.onObject_returned slice reader)]
  rfl

theorem item_slice (placed : mem.drop pos = items.flatten ++ rest) (within : ind < items.length) :
    (mem.drop (pos + itemOffset items ind)).take
      (pos + itemOffset items (ind + 1) - (pos + itemOffset items ind)) = items[ind] := by
  have length : pos + itemOffset items (ind + 1) - (pos + itemOffset items ind) =
      items[ind].length := by
    rw [item_offset_succ within]
    omega
  rw [length, item_placed placed within, List.take_left]

end Items

end Cpp2tnt
