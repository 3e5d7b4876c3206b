import Cpp2tnt.CursorOps
import Cpp2tnt.Library.Transition

/-!
The cursor of a reader is a position and an index, and `operator[]` relies on the
index. Whatever is read, the position is the one that many items after the
beginning; only `iproto_message` moves it without counting.
-/

namespace Cpp2tnt
open Imperative MessagePack Transition

def itemStart (mp : Msgpuck) (mem : Bytes) (pos : Nat) : Nat → Nat
  | 0 => pos
  | ind + 1 =>
      let start := itemStart mp mem pos ind
      start + mp.mpNext (mem.drop start)

/-- The reader that many items after its beginning. -/
def MpReader.after (mp : Msgpuck) (mem : Bytes) (count : Nat) (reader : MpReader) : MpReader :=
  { reader with
    currentPos := reader.beginPos.map (itemStart mp mem · count)
    currentInd := count % 2 ^ 32 }

/-- The reader knows where its items end, by its cardinality or its right bound. -/
def Bounded (items : List Bytes) (pos : Nat) (reader : MpReader) : Prop :=
  reader.shape.limit = some items.length ∨ reader.endPos = some (pos + items.flatten.length)

/-- `iproto_message` moves the cursor: a packet header stands there and it is one. -/
def Detaches (mem : Bytes) (reader : MpReader) (op : CursorOp) : Prop :=
  op = .iprotoMessage ∧ ∃ pos last, reader.currentPos = some pos ∧ reader.endPos = some last ∧
    5 ≤ (last : Int) - pos ∧ mem[pos]? = some 0xce

def Counts (mp : Msgpuck) (mem : Bytes) (items : List Bytes) (pos : Nat) (start reader : MpReader) :
    Prop :=
  ∃ count, reader = start.after mp mem count ∧ (Bounded items pos start → count ≤ items.length)

section Counting
variable {mp : Msgpuck} {mem rest : Bytes} {items : List Bytes} {pos : Nat} {start reader : MpReader}
variable {realText : RealText}

theorem item_start_offset (implements : Implements mp) (laid : Laid mem items pos rest) {ind : Nat}
    (within : ind ≤ items.length) : itemStart mp mem pos ind = pos + itemOffset items ind := by
  induction ind with
  | zero => rfl
  | succ ind ih =>
      have here := ih (Nat.le_of_succ_le within)
      simp only [itemStart, here]
      rw [laid.next implements within, item_offset_succ within, Nat.add_assoc]

theorem item_start_mono (mp : Msgpuck) (mem : Bytes) (pos ind more : Nat) :
    itemStart mp mem pos ind ≤ itemStart mp mem pos (ind + more) := by
  induction more with
  | zero => exact Nat.le_refl _
  | succ more ih => exact Nat.le_trans ih (Nat.le_add_right _ _)

theorem after_advance (count : Nat) :
    (start.after mp mem count).advance (mp.mpNext (bytesAt mem (start.after mp mem count).currentPos)) =
      start.after mp mem (count + 1) := by
  have wraps : (count % 2 ^ 32 + 1) % 2 ^ 32 = (count + 1) % 2 ^ 32 := by omega
  cases begins : start.beginPos with
  | none => simp only [MpReader.advance, MpReader.after, begins, Option.map_none, wraps]
  | some pos =>
      simp only [MpReader.advance, MpReader.after, begins, Option.map_some, wraps, bytesAt,
        Option.getD_some, itemStart]

theorem last_refused (implements : Implements mp) (laid : Laid mem items pos rest)
    (covers : Over items pos start) (few : items.length < 2 ^ 32) (bounded : Bounded items pos start) :
    ¬ CanSkip mp mem (start.after mp mem items.length) := by
  intro can
  rcases bounded with limited | ends
  · have room := can.room items.length limited
    simp only [MpReader.after, Nat.mod_eq_of_lt few] at room
    exact Nat.lt_irrefl _ room
  · have before := can.before
    have stands := item_start_offset implements laid (Nat.le_refl items.length)
    rw [itemOffset, List.take_length] at stands
    simp [atEnd, MpReader.after, covers.begins, ends, stands] at before

theorem skip_counts (implements : Implements mp) (laid : Laid mem items pos rest)
    (covers : Over items pos start) (few : items.length < 2 ^ 32) :
    Cxx.Preserves (Counts mp mem items pos start) (skip mp mem) := by
  rintro _ ⟨count, rfl, within⟩
  by_cases can : CanSkip mp mem (start.after mp mem count)
  · rw [skip_run can, after_advance]
    refine ⟨count + 1, rfl, ?_⟩
    intro bounded
    apply Nat.lt_of_le_of_ne (within bounded)
    rintro rfl
    exact last_refused implements laid covers few bounded can
  · obtain ⟨error, refused⟩ := skip_refused can
    rw [refused]
    exact ⟨count, rfl, within⟩

theorem rewind_counts : Cxx.Preserves (Counts mp mem items pos start) rewind := by
  rintro _ ⟨count, rfl, _⟩
  refine ⟨0, ?_, fun _ => Nat.zero_le _⟩
  cases begins : start.beginPos <;>
    simp [MpReader.rewound, MpReader.after, begins, itemStart]

theorem message_stays {after : MpReader} (stays : ¬ Detaches mem reader .iprotoMessage)
    (done : CursorOp.iprotoMessage.step mp mem realText reader = some after) : after = reader := by
  simp only [CursorOp.step, CursorOp.exec, discard, iprotoMessage, Cxx.bind_run, Cxx.get_run] at done
  cases current : reader.currentPos with
  | none =>
      simp only [current, Cxx.pure_run] at done
      cases done
      rfl
  | some pos =>
      cases ends : reader.endPos with
      | none =>
          simp only [current, ends, Cxx.pure_run] at done
          cases done
          rfl
      | some last =>
          simp only [current, ends] at done
          by_cases short : (last : Int) - pos < 5
          · simp only [if_pos short, Cxx.pure_run] at done
            cases done
            rfl
          · simp only [if_neg short, Cxx.bind_run] at done
            cases here : mem[pos]? with
            | none => simp [deref, here] at done
            | some byte =>
                have other : byte ≠ 0xce := by
                  rintro rfl
                  exact stays ⟨rfl, pos, last, current, ends, Int.not_lt.mp short, here⟩
                simp [deref, here, other, Cxx.bind_run] at done
                exact done.symm

theorem step_counts (implements : Implements mp) (laid : Laid mem items pos rest)
    (covers : Over items pos start) (few : items.length < 2 ^ 32) {op : CursorOp}
    (counts : Counts mp mem items pos start reader) (stays : ¬ Detaches mem reader op)
    {after : MpReader} (done : op.step mp mem realText reader = some after) :
    Counts mp mem items pos start after := by
  by_cases message : op = .iprotoMessage
  · subst message
    rw [message_stays stays done]
    exact counts
  · have kept : Cxx.Preserves (Counts mp mem items pos start) (op.exec mp mem realText) := by
      by_cases again : op = .rewind
      · subst again
        exact rewind_counts
      · exact exec_preserves (skip_counts implements laid covers few) op message again
    exact CursorOp.step_preserves kept counts done

theorem run_counts (implements : Implements mp) (laid : Laid mem items pos rest)
    (covers : Over items pos start) (few : items.length < 2 ^ 32)
    (fresh : start.currentPos = start.beginPos ∧ start.currentInd = 0) {ops : List CursorOp}
    (run : Run (CursorOp.step mp mem realText) (fun reader op => ¬ Detaches mem reader op) start ops
      reader) : Counts mp mem items pos start reader := by
  apply run.invariant
  · refine ⟨0, ?_, fun _ => Nat.zero_le _⟩
    cases begins : start.beginPos <;> cases start <;> simp_all [MpReader.after, itemStart]
  · intro before op after counts stays done
    exact step_counts implements laid covers few counts stays done

/-- In a run without a moving `iproto_message` the cursor stands where its index
says, and every index gives its item. A reader that knows no end has to stay within
the items. -/
theorem cursor_counts_items (implements : Implements mp) (laid : Laid mem items pos rest)
    (covers : Over items pos start) (few : items.length < 2 ^ 32)
    (fresh : start.currentPos = start.beginPos ∧ start.currentInd = 0) {ops : List CursorOp}
    (run : Run (CursorOp.step mp mem realText) (fun reader op => ¬ Detaches mem reader op) start ops
      reader)
    (extent : Bounded items pos start ∨
      0 < mp.mpNext rest ∧ ∀ at_ ∈ reader.currentPos, at_ ≤ pos + items.flatten.length) :
    reader.currentInd ≤ items.length ∧
      reader.currentPos = some (pos + itemOffset items reader.currentInd) ∧
      ∀ ind, (within : ind < items.length) → ∃ first last,
        index mp mem ind reader = .returned (MpReader.plain first last) reader ∧
        (mem.drop first).take (last - first) = items[ind] := by
  obtain ⟨count, rfl, known⟩ := run_counts implements laid covers few fresh run
  have inside : count ≤ items.length := by
    rcases extent with bounded | ⟨moves, stays⟩
    · exact known bounded
    -- a skip past the items would have moved the cursor behind their end
    · apply Nat.le_of_not_lt
      intro beyond
      have stands := item_start_offset implements laid (Nat.le_refl items.length)
      rw [itemOffset, List.take_length] at stands
      have placed : mem.drop (pos + items.flatten.length) = rest := by
        rw [← List.drop_drop, laid.placed, List.drop_left]
      have next : itemStart mp mem pos (items.length + 1) =
          pos + items.flatten.length + mp.mpNext rest := by
        simp only [itemStart, stands, placed]
      have mono := item_start_mono mp mem pos (items.length + 1) (count - (items.length + 1))
      rw [Nat.add_sub_of_le beyond] at mono
      have here := stays (itemStart mp mem pos count) (by simp [MpReader.after, covers.begins])
      omega
  have counted : (start.after mp mem count).currentInd = count :=
    Nat.mod_eq_of_lt (Nat.lt_of_le_of_lt inside few)
  have stands : (start.after mp mem count).currentPos = some (pos + itemOffset items count) := by
    rw [MpReader.after, covers.begins, Option.map_some, item_start_offset implements laid inside]
  have there : AtIndex items pos (start.after mp mem count).currentInd (start.after mp mem count) := by
    rw [counted]
    exact ⟨⟨covers.begins, covers.counts, covers.ends⟩, stands, fun _ => Nat.le_of_eq counted⟩
  rw [counted]
  refine ⟨inside, stands, ?_⟩
  intro ind within
  exact ⟨_, _, index_returned implements laid there within, item_slice laid.placed within⟩

end Counting

/-- A packet without anything in its header and its body, and one more item. -/
def packetItems : List Bytes := [[0xce, 0, 0, 0, 2], [0x80], [0x80], [5]]

theorem packet_laid : Laid packetItems.flatten packetItems 0 [] ∧
    Over packetItems 0 (MpReader.plain 0 8) := by
  have size : Encodes (.int 2) [0xce, 0, 0, 0, 2] :=
    encodes_plain (wide_uint_head 4 0xce 2 (by decide) (by decide)) rfl
  have none : HeadEncodes (.map 0) [0x80] := fix_map_head 0 (by decide)
  have empty : Encodes (.map (pairUp [])) ([0x80] ++ []) := encodes_map none rfl encodes_all_nil
  have five : Encodes (.int 5) [5] := encodes_plain (fix_uint_head 5 (by decide)) rfl
  refine ⟨⟨rfl, ?_⟩, rfl, nofun, ?_⟩
  · rw [packetItems]
    simp only [List.forall_mem_cons]
    exact ⟨⟨_, size⟩, ⟨_, empty⟩, ⟨_, empty⟩, ⟨_, five⟩, nofun⟩
  · rintro _ ⟨⟩
    exact Nat.le_refl 8

theorem cursor_counts_items_once : ∃ reader : MpReader,
    Run (CursorOp.step reference packetItems.flatten noText)
      (fun reader op => ¬ Detaches packetItems.flatten reader op) (MpReader.plain 0 8) [.skip] reader ∧
    reader.currentInd ≤ packetItems.length ∧
      reader.currentPos = some (0 + itemOffset packetItems reader.currentInd) ∧
      ∀ ind, (within : ind < packetItems.length) → ∃ first last,
        index reference packetItems.flatten ind reader =
          .returned (MpReader.plain first last) reader ∧
        (packetItems.flatten.drop first).take (last - first) = packetItems[ind] := by
  have run : Run (CursorOp.step reference packetItems.flatten noText)
      (fun reader op => ¬ Detaches packetItems.flatten reader op) (MpReader.plain 0 8) ([] ++ [.skip])
      ⟨.plain, some 0, some 8, some 5, 1⟩ := by
    refine .snoc .nil ?_ rfl
    rintro ⟨same, _⟩
    cases same
  exact ⟨_, run, cursor_counts_items reference_implements packet_laid.1 packet_laid.2 (by decide)
    ⟨rfl, rfl⟩ run (.inl (.inr rfl))⟩

/-- The packet is taken; then the index still says the first item, and it is the last
one that `operator[](0)` gives. -/
theorem message_shifts_index : ∃ reader : MpReader,
    CursorOp.iprotoMessage.exec reference packetItems.flatten noText (MpReader.plain 0 8) =
      .returned () reader ∧
    reader.currentPos ≠ some (0 + itemOffset packetItems reader.currentInd) ∧
    index reference packetItems.flatten 0 reader = .returned (MpReader.plain 7 8) reader ∧
    (packetItems.flatten.drop 7).take (8 - 7) ≠ packetItems[0] :=
  ⟨⟨.plain, some 0, some 8, some 7, 0⟩, rfl, by decide, rfl, by decide⟩

end Cpp2tnt
