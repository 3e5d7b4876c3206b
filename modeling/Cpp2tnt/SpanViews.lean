import Cpp2tnt.MpReader

/-!
`mp_span`: a number of consecutive items with the right bound of each of them, as
an offset from the beginning of the span. `rbounds` has room for `maxN` offsets;
the list holds those that have been written. `sub` moves the beginning and copies
the offsets as they are.
-/

namespace Cpp2tnt
open Imperative MessagePack

structure MpSpan (maxN : Nat) where
  beginPos : Option Nat
  endPos : Option Nat
  cardinality : Nat
  rbounds : List Nat
  fits : rbounds.length ≤ maxN

namespace MpSpan
variable {maxN : Nat}

def fresh : MpSpan maxN := ⟨none, none, 0, [], Nat.zero_le _⟩

/-- `rbounds[ind] = offset; ++cardinality`. -/
def record (span : MpSpan maxN) (ind offset : Nat) (room : ind < maxN) : MpSpan maxN :=
  { span with
    cardinality := span.cardinality + 1
    rbounds := span.rbounds.take ind ++ offset :: span.rbounds.drop (ind + 1)
    fits := by
      have fits := span.fits
      simp only [List.length_append, List.length_take, List.length_cons, List.length_drop]
      omega }

/-- What an index gives: a part of the buffer, or the static nil. -/
inductive Item where
  | nil
  | slice (first last : Option Nat)
  deriving DecidableEq

def bound (span : MpSpan maxN) (ind : Nat) : Cxx Exn Unit Nat :=
  match span.rbounds[ind]? with
  | some offset => pure offset
  | none => Cxx.undefined

def leftBound (span : MpSpan maxN) (ind : Nat) : Cxx Exn Unit Nat :=
  if ind = 0 then pure 0 else span.bound (ind - 1)

/-- `sub<maxResN>(first_ind, last_ind)`. The constructor at its end copies as many
offsets as there are items, whatever the target has room for. -/
def sub (maxResN : Nat) (span : MpSpan maxN) (firstInd lastInd : Nat) :
    Cxx Exn Unit (MpSpan maxResN) := do
  if firstInd > lastInd then Cxx.throw (mpReaderError "first_ind > last_ind")
  if lastInd ≥ span.cardinality then Cxx.throw (mpReaderError "read out of bounds")
  let left ← span.leftBound firstInd
  let right ← span.bound lastInd
  let count := lastInd - firstInd + 1
  if room : count ≤ maxResN then
    return {
      beginPos := span.beginPos.map (· + left)
      endPos := span.beginPos.map (· + right)
      cardinality := count
      rbounds := (span.rbounds.drop firstInd).take count
      fits := Nat.le_trans (List.length_take_le _ _) room }
  else Cxx.undefined

/-- `operator[]`. -/
def item (span : MpSpan maxN) (ind : Nat) : Cxx Exn Unit Item := do
  if span.cardinality ≤ ind then return .nil
  let one ← span.sub 1 ind ind
  return .slice one.beginPos one.endPos

end MpSpan

section Reading
variable (mp : Msgpuck) (mem : Bytes) {maxN : Nat}

/-- The loop of `operator>>(mp_span &)`; `left` passes are enough. -/
def spanLoop : Nat → Nat → MpSpan maxN → Read (MpSpan maxN)
  | 0, _, dst => return dst
  | left + 1, ind, dst => do
      if room : ind < maxN then
        if !(← hasNext false) then return dst
        skip mp mem
        let reader ← Cxx.get
        let offset := (reader.currentPos.getD 0 - dst.beginPos.getD 0) % 2 ^ 32
        spanLoop left (ind + 1) (dst.record ind offset room)
      else return dst

def readSpan (dst : MpSpan maxN) : Read (MpSpan maxN) := do
  let reader ← Cxx.get
  let read ← spanLoop mp mem maxN 0 { dst with beginPos := reader.currentPos }
  let reader ← Cxx.get
  return { read with endPos := reader.currentPos }

end Reading

/-- Where an item begins, counted from the first one. -/
def itemOffset (items : List Bytes) (ind : Nat) : Nat := (items.take ind).flatten.length

/-- The span begins at the first item and knows where each of its items ends. -/
structure MpSpan.Covers {maxN : Nat} (pos : Nat) (items : List Bytes) (span : MpSpan maxN) : Prop where
  begins : span.beginPos = some pos
  counted : span.cardinality = span.rbounds.length
  ends : ∀ ind, ind < span.cardinality →
    span.rbounds[ind]? = some (itemOffset items (ind + 1) % 2 ^ 32)

section Items
variable {mp : Msgpuck} {mem rest : Bytes} {items : List Bytes} {pos maxN : Nat}

theorem item_offset_succ {ind : Nat} (within : ind < items.length) :
    itemOffset items (ind + 1) = itemOffset items ind + items[ind].length := by
  rw [itemOffset, itemOffset, ← List.take_concat_get' items ind within, List.flatten_append,
    List.length_append, List.flatten_singleton]

theorem item_offset_le (items : List Bytes) (ind : Nat) :
    itemOffset items ind ≤ items.flatten.length := by
  rw [← List.take_append_drop ind items, List.flatten_append, List.length_append,
    List.take_append_drop]
  exact Nat.le_add_right _ _

theorem item_placed (placed : mem.drop pos = items.flatten ++ rest) {ind : Nat}
    (within : ind < items.length) :
    mem.drop (pos + itemOffset items ind) =
      items[ind] ++ ((items.drop (ind + 1)).flatten ++ rest) := by
  have split : items.flatten = (items.take ind).flatten ++ (items.drop ind).flatten := by
    rw [← List.flatten_append, List.take_append_drop]
  rw [← List.drop_drop, placed, split, itemOffset, List.append_assoc, List.drop_left,
    List.drop_eq_getElem_cons within, List.flatten_cons, List.append_assoc]

theorem skip_moved {reader after : MpReader} {value : Unit}
    (done : skip mp mem reader = .returned value after) :
    after = reader.advance (mp.mpNext (bytesAt mem reader.currentPos)) := by
  cases done.symm.trans (skip_run (can_skip_of_returned done))
  rfl

theorem has_next_stays {strict more : Bool} {reader after : MpReader}
    (done : hasNext strict reader = .returned more after) : after = reader := by
  rw [has_next_run] at done
  split at done
  · cases done
  · cases done
    rfl

theorem record_covers {dst : MpSpan maxN} (covers : dst.Covers pos items) {ind : Nat}
    (counted : dst.cardinality = ind) (room : ind < maxN) :
    (dst.record ind (itemOffset items (ind + 1) % 2 ^ 32) room).Covers pos items := by
  have length : dst.rbounds.length = ind := covers.counted.symm.trans counted
  have appended : dst.rbounds.take ind ++ itemOffset items (ind + 1) % 2 ^ 32 ::
      dst.rbounds.drop (ind + 1) = dst.rbounds ++ [itemOffset items (ind + 1) % 2 ^ 32] := by
    rw [List.take_of_length_le (Nat.le_of_eq length), List.drop_eq_nil_of_le (by omega)]
  constructor
  · exact covers.begins
  · simp only [MpSpan.record, appended, List.length_append, List.length_singleton, covers.counted]
  · intro one within
    simp only [MpSpan.record] at within ⊢
    rw [appended]
    by_cases last : one = ind
    · rw [last, ← length, List.getElem?_concat_length]
    · have earlier : one < dst.cardinality := by omega
      rw [List.getElem?_append_left (by omega)]
      exact covers.ends one earlier

theorem span_loop_grows (left ind : Nat) {dst span : MpSpan maxN} {reader after : MpReader}
    (done : spanLoop mp mem left ind dst reader = .returned span after) :
    dst.cardinality ≤ span.cardinality := by
  induction left generalizing ind dst reader with
  | zero => cases done; exact Nat.le_refl _
  | succ left ih =>
      unfold spanLoop at done
      split at done
      · obtain ⟨more, middle, asked, done⟩ := Cxx.bind_inversion done
        cases more with
        | false => cases done; exact Nat.le_refl _
        | true =>
            obtain ⟨_, moved, _, done⟩ := Cxx.bind_inversion done
            exact Nat.le_of_succ_le (ih _ done)
      · cases done; exact Nat.le_refl _

theorem span_loop_covers (implements : Implements mp) (placed : mem.drop pos = items.flatten ++ rest)
    (formed : ∀ item ∈ items, ∃ value, Encodes value item) (left ind : Nat)
    {dst span : MpSpan maxN} {reader after : MpReader}
    (done : spanLoop mp mem left ind dst reader = .returned span after)
    (few : span.cardinality ≤ items.length) (covers : dst.Covers pos items)
    (counted : dst.cardinality = ind)
    (stands : reader.currentPos = some (pos + itemOffset items ind)) : span.Covers pos items := by
  induction left generalizing ind dst reader with
  | zero => cases done; exact covers
  | succ left ih =>
      unfold spanLoop at done
      split at done
      · rename_i room
        obtain ⟨more, middle, asked, done⟩ := Cxx.bind_inversion done
        rw [has_next_stays asked] at done
        cases more with
        | false => cases done; exact covers
        | true =>
            obtain ⟨_, moved, skipped, done⟩ := Cxx.bind_inversion done
            -- a pass past the last item would leave more ends than items
            have grows := span_loop_grows _ _ done
            have within : ind < items.length := by
              rw [MpSpan.record, counted] at grows
              exact Nat.lt_of_lt_of_le grows few
            obtain ⟨value, encodes⟩ := formed items[ind] (List.getElem_mem within)
            have size : mp.mpNext (bytesAt mem reader.currentPos) = items[ind].length := by
              rw [stands, bytesAt, Option.getD_some, item_placed placed within,
                implements.next value _ _ encodes]
            have reached : moved.currentPos = some (pos + itemOffset items (ind + 1)) := by
              rw [skip_moved skipped, size, MpReader.advance, stands, item_offset_succ within]
              simp [Nat.add_assoc]
            refine ih (ind + 1) done ?_ ?_ reached
            · have offset : moved.currentPos.getD 0 - dst.beginPos.getD 0 =
                  itemOffset items (ind + 1) := by
                rw [reached, covers.begins]
                exact Nat.add_sub_cancel_left _ _
              rw [offset]
              exact record_covers covers counted room
            · rw [MpSpan.record, counted]
      · cases done; exact covers

theorem read_span_covers (implements : Implements mp) {reader after : MpReader}
    {span : MpSpan maxN} (stands : reader.currentPos = some pos)
    (placed : mem.drop pos = items.flatten ++ rest)
    (formed : ∀ item ∈ items, ∃ value, Encodes value item)
    (done : readSpan mp mem MpSpan.fresh reader = .returned span after)
    (all : items.length = span.cardinality) : span.Covers pos items := by
  unfold readSpan at done
  rw [Cxx.bind_get] at done
  obtain ⟨read, reached, looped, last⟩ := Cxx.bind_inversion done
  cases last
  have empty : MpSpan.Covers pos items { (MpSpan.fresh : MpSpan maxN) with
      beginPos := reader.currentPos } :=
    ⟨stands, rfl, fun _ within => absurd within (Nat.not_lt_zero _)⟩
  have covers := span_loop_covers implements placed formed maxN 0 looped (Nat.le_of_eq all.symm)
    empty rfl (by rw [stands, itemOffset]; rfl)
  exact ⟨covers.begins, covers.counted, covers.ends⟩

end Items

namespace MpSpan
variable {maxN maxResN : Nat} {span : MpSpan maxN}

/-- `sub<maxResN>(first_ind, last_ind)` is defined and shows what the span shows
between these indices, and a part of it is that part of the span. -/
def SubConsistent (maxResN : Nat) (span : MpSpan maxN) (firstInd lastInd : Nat) : Prop :=
  (∃ error, span.sub maxResN firstInd lastInd () = .thrown error ()) ∨
  ∃ part, span.sub maxResN firstInd lastInd () = .returned part () ∧
    part.cardinality = lastInd - firstInd + 1 ∧
    (∀ ind, part.item ind () =
      if ind < part.cardinality then span.item (firstInd + ind) () else .returned .nil ()) ∧
    ∀ maxSubN left right, left ≤ right → right < part.cardinality →
      part.sub maxSubN left right () = span.sub maxSubN (firstInd + left) (firstInd + right) ()

def left (span : MpSpan maxN) (ind : Nat) : Option Nat :=
  if ind = 0 then some 0 else span.rbounds[ind - 1]?

theorem sub_run {firstInd lastInd left right : Nat} (ordered : firstInd ≤ lastInd)
    (inside : lastInd < span.cardinality) (begins : span.left firstInd = some left)
    (ends : span.rbounds[lastInd]? = some right) :
    span.sub maxResN firstInd lastInd () =
      if room : lastInd - firstInd + 1 ≤ maxResN then .returned {
        beginPos := span.beginPos.map (· + left)
        endPos := span.beginPos.map (· + right)
        cardinality := lastInd - firstInd + 1
        rbounds := (span.rbounds.drop firstInd).take (lastInd - firstInd + 1)
        fits := Nat.le_trans (List.length_take_le _ _) room } ()
      else .undefined := by
  have front : span.leftBound firstInd () = .returned left () := by
    unfold MpSpan.left at begins
    unfold leftBound
    split_ifs at begins ⊢ with zero
    · cases begins
      rfl
    · rw [bound, begins]
      rfl
  have back : span.bound lastInd () = .returned right () := by
    rw [bound, ends]
    rfl
  unfold sub
  simp only [Nat.not_lt.mpr ordered, Nat.not_le.mpr inside, if_false]
  rw [Cxx.bind_returned front, Cxx.bind_returned back]
  split_ifs <;> rfl

theorem item_run {ind left right : Nat} (inside : ind < span.cardinality)
    (begins : span.left ind = some left) (ends : span.rbounds[ind]? = some right) :
    span.item ind () = .returned (.slice (span.beginPos.map (· + left))
      (span.beginPos.map (· + right))) () := by
  have one : span.sub 1 ind ind () = _ := sub_run (Nat.le_refl ind) inside begins ends
  rw [dif_pos (by omega)] at one
  rw [item, if_neg (Nat.not_le.mpr inside), Cxx.bind_returned one]
  rfl

theorem item_past {ind : Nat} (past : span.cardinality ≤ ind) :
    span.item ind () = .returned .nil () := by
  rw [item, if_pos past]
  rfl

section Parts
variable {items : List Bytes} {pos firstInd lastInd : Nat}

theorem Covers.left (covers : span.Covers pos items) {ind : Nat} (inside : ind < span.cardinality) :
    span.left ind = some (itemOffset items ind % 2 ^ 32) := by
  unfold MpSpan.left
  split_ifs with zero
  · rw [zero]
    rfl
  · have ends := covers.ends (ind - 1) (by omega)
    rwa [Nat.sub_add_cancel (Nat.pos_of_ne_zero zero)] at ends

/-- The copied offsets, where the beginning has not moved. -/
structure Copies (span : MpSpan maxN) (firstInd : Nat) (part : MpSpan maxResN) : Prop where
  begins : part.beginPos = span.beginPos
  within : firstInd + part.cardinality ≤ span.cardinality
  left : ∀ ind, ind < part.cardinality → part.left ind = span.left (firstInd + ind)
  ends : ∀ ind, ind < part.cardinality → part.rbounds[ind]? = span.rbounds[firstInd + ind]?
  rest : ∀ ind count, ind + count ≤ part.cardinality →
    (part.rbounds.drop ind).take count = (span.rbounds.drop (firstInd + ind)).take count

theorem Copies.item {part : MpSpan maxResN} (covers : span.Covers pos items)
    (copies : span.Copies firstInd part) {ind : Nat} (inside : ind < part.cardinality) :
    part.item ind () = span.item (firstInd + ind) () := by
  have within := copies.within
  have there : firstInd + ind < span.cardinality := by omega
  have begins := covers.left there
  have ends := covers.ends (firstInd + ind) there
  rw [item_run there begins ends, item_run inside ((copies.left ind inside).trans begins)
    ((copies.ends ind inside).trans ends), copies.begins]

theorem Copies.sub {part : MpSpan maxResN} (covers : span.Covers pos items)
    (copies : span.Copies firstInd part) (maxSubN : Nat) {left right : Nat} (ordered : left ≤ right)
    (inside : right < part.cardinality) :
    part.sub maxSubN left right () = span.sub maxSubN (firstInd + left) (firstInd + right) () := by
  have within := copies.within
  have there : firstInd + right < span.cardinality := by omega
  have begins := covers.left (show firstInd + left < span.cardinality by omega)
  have ends := covers.ends (firstInd + right) there
  have count : firstInd + right - (firstInd + left) + 1 = right - left + 1 := by omega
  have same := copies.rest left (right - left + 1) (by omega)
  rw [sub_run (Nat.add_le_add_left ordered firstInd) there begins ends,
    sub_run ordered inside ((copies.left left (by omega)).trans begins)
      ((copies.ends right inside).trans ends)]
  simp only [copies.begins, count, same]

theorem Covers.copies (covers : span.Covers pos items) (ordered : firstInd ≤ lastInd)
    (inside : lastInd < span.cardinality) (zero : itemOffset items firstInd % 2 ^ 32 = 0)
    {part : MpSpan maxResN} (begins : part.beginPos = span.beginPos)
    (counted : part.cardinality = lastInd - firstInd + 1)
    (copied : part.rbounds = (span.rbounds.drop firstInd).take part.cardinality) :
    span.Copies firstInd part where
  begins := begins
  within := by omega
  left ind within := by
    rw [covers.left (by omega)]
    by_cases first : ind = 0
    · rw [first, Nat.add_zero, zero]
      rfl
    · have ends := covers.ends (firstInd + (ind - 1)) (by omega)
      rw [MpSpan.left, if_neg first, copied, List.getElem?_take_of_lt (by omega),
        List.getElem?_drop, ends, Nat.add_assoc, Nat.sub_add_cancel (Nat.pos_of_ne_zero first)]
  ends ind within := by
    rw [copied, List.getElem?_take_of_lt within, List.getElem?_drop]
  rest ind count within := by
    rw [copied, List.drop_take, List.take_take, List.drop_drop, Nat.min_eq_left (by omega)]

/-- The view is consistent if and only if the offsets fit into its array and the
items in front of it take up no space in 32 bits. -/
theorem covered_consistent_iff (covers : span.Covers pos items) (ordered : firstInd ≤ lastInd)
    (inside : lastInd < span.cardinality) :
    span.SubConsistent maxResN firstInd lastInd ↔
      lastInd - firstInd < maxResN ∧ itemOffset items firstInd % 2 ^ 32 = 0 := by
  have first : firstInd < span.cardinality := Nat.lt_of_le_of_lt ordered inside
  have begins := covers.left first
  have made : span.sub maxResN firstInd lastInd () = _ :=
    sub_run ordered inside begins (covers.ends lastInd inside)
  constructor
  · rintro (⟨error, thrown⟩ | ⟨part, returned, counted, items_, -⟩)
    · rw [made] at thrown
      split_ifs at thrown
    · rw [made] at returned
      split_ifs at returned with room
      refine ⟨room, ?_⟩
      -- the first item of the part already shows the shift of the offsets
      have ends := covers.ends firstInd first
      have same := items_ 0
      rw [if_pos (by omega), Nat.add_zero, item_run first begins ends] at same
      cases returned
      have bound : ((span.rbounds.drop firstInd).take (lastInd - firstInd + 1))[0]? =
          some (itemOffset items (firstInd + 1) % 2 ^ 32) := by
        rw [List.getElem?_take_of_lt (by omega), List.getElem?_drop]
        exact ends
      rw [item_run (by simp) rfl bound, covers.begins] at same
      simp at same
      omega
  · rintro ⟨room, zero⟩
    rw [dif_pos (Nat.succ_le_of_lt room)] at made
    obtain ⟨part, made, unmoved, counted, copied⟩ : ∃ part : MpSpan maxResN,
        span.sub maxResN firstInd lastInd () = .returned part () ∧
        part.beginPos = span.beginPos ∧ part.cardinality = lastInd - firstInd + 1 ∧
        part.rbounds = (span.rbounds.drop firstInd).take part.cardinality :=
      ⟨_, made, by simp only [covers.begins, zero, Option.map_some, Nat.add_zero], rfl, rfl⟩
    have copies := covers.copies ordered inside zero unmoved counted copied
    refine .inr ⟨part, made, counted, ?_, ?_⟩
    · intro ind
      split_ifs with within
      · exact copies.item covers within
      · exact item_past (Nat.not_lt.mp within)
    · exact fun maxSubN left right below within => copies.sub covers maxSubN below within

end Parts

end MpSpan

section Read
variable {mp : Msgpuck} {mem rest : Bytes} {items : List Bytes} {pos maxN : Nat}
variable {span : MpSpan maxN} {reader after : MpReader}

/-- A view of a span that was read from well-formed items shows these items if and
only if they fit into its array and the items in front of them take up no space
in 32 bits. -/
theorem sub_consistent_iff (implements : Implements mp) (stands : reader.currentPos = some pos)
    (placed : mem.drop pos = items.flatten ++ rest)
    (formed : ∀ item ∈ items, ∃ value, Encodes value item)
    (done : readSpan mp mem MpSpan.fresh reader = .returned span after)
    (all : items.length = span.cardinality) (maxResN firstInd lastInd : Nat)
    (ordered : firstInd ≤ lastInd) (inside : lastInd < span.cardinality) :
    span.SubConsistent maxResN firstInd lastInd ↔
      lastInd - firstInd < maxResN ∧ itemOffset items firstInd % 2 ^ 32 = 0 :=
  MpSpan.covered_consistent_iff (read_span_covers implements stands placed formed done all)
    ordered inside

theorem span_loop_reads (implements : Implements mp) (placed : mem.drop pos = items.flatten ++ rest)
    (formed : ∀ item ∈ items, ∃ value, Encodes value item) (room : items.length ≤ maxN)
    (left ind : Nat) (dst : MpSpan maxN) (reader : MpReader) (enough : items.length ≤ ind + left)
    (plain : reader.shape = .plain) (ends : reader.endPos = some (pos + items.flatten.length))
    (stands : reader.currentPos = some (pos + itemOffset items ind)) (early : ind ≤ items.length) :
    ∃ span after, spanLoop mp mem left ind dst reader = .returned span after ∧
      span.cardinality = dst.cardinality + (items.length - ind) := by
  -- on the passes that are left; each records the end of one item
  induction left generalizing ind dst reader with
  | zero => exact ⟨dst, reader, rfl, by omega⟩
  | succ left ih =>
      by_cases more : ind < items.length
      · obtain ⟨value, encodes⟩ := formed items[ind] (List.getElem_mem more)
        have next := item_offset_succ more
        have limit := item_offset_le items (ind + 1)
        have standing : Stands mem reader items[ind] ((items.drop (ind + 1)).flatten ++ rest) := by
          apply stands_plain plain stands (item_placed placed more)
          intro last bounded
          rw [ends, Option.mem_some_iff] at bounded
          omega
        have asked : hasNext false reader = .returned true reader :=
          has_next_returned standing encodes.length_pos (.inl (by rw [ends]; rfl))
        have skipped := skip_returned implements encodes standing
        have reached : (reader.advance items[ind].length).currentPos =
            some (pos + itemOffset items (ind + 1)) := by
          rw [MpReader.advance, stands, next]
          simp [Nat.add_assoc]
        have free : ind < maxN := Nat.lt_of_lt_of_le more room
        let offset := ((reader.advance items[ind].length).currentPos.getD 0 -
          dst.beginPos.getD 0) % 2 ^ 32
        obtain ⟨span, after, done, counted⟩ := ih (ind + 1) (dst.record ind offset free)
          (reader.advance items[ind].length) (by omega) plain ends reached more
        refine ⟨span, after, ?_, counted.trans (by simp only [MpSpan.record]; omega)⟩
        rw [spanLoop, dif_pos free, Cxx.bind_returned asked]
        exact (Cxx.bind_returned skipped _).trans done
      · have last : ind = items.length := by omega
        have whole : itemOffset items ind = items.flatten.length := by
          rw [last, itemOffset, List.take_length]
        have asked : hasNext false reader = .returned false reader := by
          simp [hasNext, ends, stands, whole]
        refine ⟨dst, reader, ?_, by omega⟩
        unfold spanLoop
        split_ifs
        · rw [Cxx.bind_returned asked]
          rfl
        · rfl

theorem span_of_items (implements : Implements mp) (placed : mem.drop pos = items.flatten ++ rest)
    (formed : ∀ item ∈ items, ∃ value, Encodes value item) (room : items.length ≤ maxN) :
    ∃ (span : MpSpan maxN) (after : MpReader),
      readSpan mp mem MpSpan.fresh (MpReader.plain pos (pos + items.flatten.length)) =
        .returned span after ∧ span.cardinality = items.length := by
  obtain ⟨span, after, done, counted⟩ := span_loop_reads implements placed formed room maxN 0
    { (MpSpan.fresh : MpSpan maxN) with beginPos := some pos }
    (MpReader.plain pos (pos + items.flatten.length)) (by omega) rfl rfl rfl (Nat.zero_le _)
  refine ⟨{ span with endPos := after.currentPos }, after, ?_, counted.trans (Nat.zero_add _)⟩
  rw [readSpan, Cxx.bind_get]
  exact (Cxx.bind_returned done _).trans rfl

end Read

def threeItems : List Bytes := [[0x01], [0xcd, 0x01, 0x00], [0xc3]]

def threeSpan : MpSpan 3 := ⟨some 0, some 5, 3, [1, 4, 5], by decide⟩

theorem three_read : readSpan reference threeItems.flatten MpSpan.fresh (MpReader.plain 0 5) =
    .returned threeSpan ⟨.plain, some 0, some 5, some 5, 3⟩ := rfl

theorem sub_consistent_front :
    threeSpan.SubConsistent 2 0 1 ↔ 1 - 0 < 2 ∧ itemOffset threeItems 0 % 2 ^ 32 = 0 := by
  have one : Encodes (.int 1) [0x01] := encodes_plain (encode_uint_head 1 (by decide)) rfl
  have wide : Encodes (.int 256) [0xcd, 0x01, 0x00] :=
    encodes_plain (encode_uint_head 256 (by decide)) rfl
  have flag : Encodes (.bool true) [0xc3] := encodes_plain (encode_bool_head true) rfl
  have formed : ∀ item ∈ threeItems, ∃ value, Encodes value item := by
    simp only [threeItems, List.forall_mem_cons]
    exact ⟨⟨_, one⟩, ⟨_, wide⟩, ⟨_, flag⟩, List.forall_mem_nil _⟩
  have placed : threeItems.flatten.drop 0 = threeItems.flatten ++ [] := rfl
  exact sub_consistent_iff reference_implements rfl placed formed three_read rfl 2 0 1 (by decide)
    (by decide)

/-- The second of three items, read through `sub`, ends where the offset from the
old beginning leads. -/
theorem sub_shifted :
    readSpan reference threeItems.flatten MpSpan.fresh (MpReader.plain 0 5) =
        .returned threeSpan ⟨.plain, some 0, some 5, some 5, 3⟩ ∧
      threeSpan.sub 3 1 2 () = .returned ⟨some 1, some 5, 2, [4, 5], by decide⟩ () ∧
      threeSpan.item 1 () = .returned (.slice (some 1) (some 4)) () ∧
      ¬ threeSpan.SubConsistent 3 1 2 := by
  refine ⟨rfl, rfl, rfl, ?_⟩
  rintro (⟨error, thrown⟩ | ⟨part, returned, counted, items, -⟩)
  · cases thrown
  · cases returned
    cases items 0

end Cpp2tnt
