import Cpp2tnt.FailedReads
import Cpp2tnt.PrintedExtensions

/-!
What a read leaves of its destination. Most overloads assign, a vector is resized
and its elements are read in place. A map is inserted into, a span counts on from
its cardinality and keeps the offsets it does not reach, a string is the buffer an
extension is printed to. `Agree` is what two destinations must have in common to
become equal.
-/

namespace Cpp2tnt
open Imperative MessagePack

section Agreement
variable (mp : Msgpuck) (mem : Bytes)

/-- `mp_snprint` follows `snprintf` on the extensions in the memory. -/
def PrintsExtensions : Prop :=
  ∀ pos byte, mem[pos]? = some byte → mp.mpTypeof byte = .ext →
    ∃ printed, Prints mp (mem.drop pos) unquoteUuid printed

def spanItems : Nat → MpReader → Nat
  | 0, _ => 0
  | left + 1, reader => if reader.more = true then spanItems left (skipped mp mem reader) + 1 else 0

def SamePrint (left right text : Bytes) : Prop :=
  (Accommodates left text ↔ Accommodates right text) ∧ (¬ Accommodates left text →
    (printedOnce left text).take text.length = (printedOnce right text).take text.length)

def EachAgree {α : Type} (agree : α → α → MpReader → Prop)
    (takes : α → MpReader → (MpReader → Prop) → Prop) : List α → List α → MpReader → Prop
  | left :: lefts, right :: rights, reader =>
      agree left right reader ∧ takes left reader (EachAgree agree takes lefts rights)
  | _, _, _ => True

def EntryKey {Key Value : Type} (getKey : Read Key) (getValue : Read Value) (key : Key) :
    Nat → MpReader → Prop
  | 0, _ => False
  | pairs + 1, reader => ∃ one middle, getKey reader = .returned one middle ∧ (key = one ∨
      ∃ value after, getValue middle = .returned value after ∧
        EntryKey getKey getValue key pairs after)

variable (realText : RealText)

mutual
/-- What two destinations have in common where the item does not overwrite them. -/
def Overload.Agree {α : Type} : Overload α → α → α → MpReader → Prop
  | .bool, _, _, _ | .int _, _, _, _ | .real _, _, _, _ | .stringView, _, _, _ => True
  | .timePoint, _, _, _ | .array, _, _, _ | .map, _, _, _ | .optional _, _, _, _ => True
  | .string, left, right, reader => TypeAt mp mem reader.currentPos fun type => type = .ext →
      ∀ text, Prints mp (bytesAt mem reader.currentPos) unquoteUuid (some text) →
        SamePrint left right text
  | .span maxN, left, right, reader =>
      let count := spanItems mp mem maxN reader
      left.cardinality = right.cardinality ∧ left.rbounds.drop count = right.rbounds.drop count
  | .vector elem, left, right, reader => TakesArray mp mem reader fun nested =>
      EachAgree elem.Agree (elem.Takes mp mem realText)
        (resizeVector elem.fresh nested.shape.cardinality left)
        (resizeVector elem.fresh nested.shape.cardinality right) nested
  | .tuple elems, left, right, reader => TakesArray mp mem reader fun nested =>
      elems.AllAgree left right nested
  | @Overload.stdMap _ _ _ _ _ key value, left, right, reader => TakesMap mp mem reader fun nested =>
      ∀ one, ¬ EntryKey (key.get mp mem realText key.fresh) (value.get mp mem realText value.fresh)
        one nested.shape.cardinality nested → left.find one = right.find one

def Fields.AllAgree {α : Type} : Fields α → α → α → MpReader → Prop
  | .nil, _, _, _ => True
  | .cons first rest, left, right, reader => first.Agree left.1 right.1 reader ∧
      first.Takes mp mem realText left.1 reader (rest.AllAgree left.2 right.2)
end

end Agreement

section Alike
variable {mp : Msgpuck} {mem : Bytes} {realText : RealText} {α β : Type}

theorem discard_bind {first : Read α} {next : α → Read β} {rest : Read Unit}
    (same : ∀ value, discard (next value) = rest) :
    discard (first >>= next) = discard first >>= fun _ => rest := by
  simp only [discard, bind_assoc, pure_bind]
  exact bind_congr same

theorem discard_congr {first : Read α} {left right : α → Read β}
    (same : ∀ value, discard (left value) = discard (right value)) :
    discard (first >>= left) = discard (first >>= right) := by
  simp only [discard, bind_assoc]
  exact bind_congr same

theorem discard_map (make : α → β) (body : Read α) : discard (make <$> body) = discard body := by
  simp [discard]

theorem discard_both {γ : Type} (first : Read α) (second : Read β) (make : α → β → γ) : discard (do
      let one ← first
      let other ← second
      return make one other) = discard first >>= fun _ => discard second := by
  apply discard_bind
  intro one
  simp only [bind_pure_comp, discard_map]

theorem discard_run (body : Read α) (reader : MpReader) : discard body reader =
    match body reader with
    | .returned _ after => .returned () after
    | .thrown error left => .thrown error left
    | .undefined => .undefined := by
  rw [discard, Cxx.bind_run]
  cases body reader <;> rfl

theorem discard_onObject {left right : Read α} (same : discard left = discard right)
    (object : MpReader) : discard (do
      let result ← Cxx.onObject left object
      return result.1) = discard (do
      let result ← Cxx.onObject right object
      return result.1) := by
  have here := congrFun same object
  rw [discard_run, discard_run] at here
  funext reader
  simp only [discard, Cxx.bind_run, Cxx.onObject]
  cases ran : left object <;> cases other : right object <;> simp_all

theorem alike_returned {left right : Read α} (same : discard left = discard right)
    {reader after : MpReader} {value : α} (done : left reader = .returned value after) :
    ∃ value, right reader = .returned value after := by
  have here := congrFun same reader
  rw [discard_run, discard_run, done] at here
  cases ran : right reader with
  | returned value reached =>
      rw [ran] at here
      cases here
      exact ⟨value, rfl⟩
  | thrown error left =>
      rw [ran] at here
      cases here
  | undefined =>
      rw [ran] at here
      cases here

theorem each_alike {get : α → Read α} (element : ∀ left right, discard (get left) = discard (get right))
    {lefts rights : List α} (long : lefts.length = rights.length) :
    discard (getEach get lefts) = discard (getEach get rights) := by
  induction lefts generalizing rights with
  | nil =>
      cases rights with
      | nil => rfl
      | cons right rights => cases long
  | cons left lefts ih =>
      cases rights with
      | nil => cases long
      | cons right rights =>
          rw [getEach, getEach, discard_both, discard_both, element left right,
            ih (Nat.succ.inj long)]

theorem entries_alike {Key Value : Type} [Ord Key] [Std.TransOrd Key] (getKey : Read Key)
    (getValue : Read Value) (pairs : Nat) (left right : StdMap Key Value) :
    discard (getEntries getKey getValue pairs left) =
      discard (getEntries getKey getValue pairs right) := by
  induction pairs generalizing left right with
  | zero => rfl
  | succ pairs ih =>
      apply discard_congr
      intro key
      apply discard_congr
      intro value
      exact ih _ _

theorem span_alike {maxN : Nat} (left ind : Nat) (one other : MpSpan maxN)
    (same : one.beginPos = other.beginPos) :
    discard (spanLoop mp mem left ind one) = discard (spanLoop mp mem left ind other) := by
  induction left generalizing ind one other with
  | zero => rfl
  | succ left ih =>
      rw [spanLoop, spanLoop]
      split
      · apply discard_congr
        intro more
        cases more with
        | false => rfl
        | true =>
            apply discard_congr
            intro _
            apply discard_congr
            intro reader
            rw [same]
            exact ih _ _ _ same
      · rfl

theorem read_string_plain {reader : MpReader}
    (plain : TypeAt mp mem reader.currentPos fun type => type ≠ .ext) (left right : Bytes) :
    readString mp mem left reader = readString mp mem right reader := by
  rw [readString, readString, Cxx.bind_get, Cxx.bind_get]
  by_cases unknown : reader.currentPos.isNone = true
  · rw [if_pos unknown, if_pos unknown]
    rfl
  · rw [if_neg unknown, if_neg unknown]
    beta_reduce
    rw [Cxx.bind_run, Cxx.bind_run, deref_run]
    cases here : reader.currentPos.bind (mem[·]?) with
    | none => rfl
    | some byte =>
        dsimp only
        rw [if_neg (plain byte here), if_neg (plain byte here)]

/-- What `mp_snprint` makes of an extension at the cursor. -/
structure ExtensionAt (mp : Msgpuck) (mem : Bytes) (reader : MpReader) (byte : UInt8)
    (printed : Option Bytes) : Prop where
  known : reader.currentPos.isNone = false
  here : reader.currentPos.bind (mem[·]?) = some byte
  ext : mp.mpTypeof byte = .ext
  prints : Prints mp (bytesAt mem reader.currentPos) unquoteUuid printed

theorem ExtensionAt.read {reader : MpReader} {byte : UInt8} {printed : Option Bytes}
    (item : ExtensionAt mp mem reader byte printed) :
    deref mem reader.currentPos reader = .returned byte reader := by
  rw [deref_run, item.here]

theorem plain_or_extension (prints : PrintsExtensions mp mem) (reader : MpReader) :
    (TypeAt mp mem reader.currentPos fun type => type ≠ .ext) ∨
      ∃ byte printed, ExtensionAt mp mem reader byte printed := by
  by_cases plain : TypeAt mp mem reader.currentPos fun type => type ≠ .ext
  · exact .inl plain
  · right
    simp only [TypeAt, not_forall, not_not] at plain
    obtain ⟨byte, here, ext⟩ := plain
    cases current : reader.currentPos with
    | none =>
        rw [current] at here
        cases here
    | some pos =>
        have stands : mem[pos]? = some byte := by rwa [current] at here
        obtain ⟨printed, item⟩ := prints pos byte stands ext
        refine ⟨byte, printed, by rw [current, Option.isNone_some], here, ext, ?_⟩
        rwa [current]

theorem string_alike (prints : PrintsExtensions mp mem) (left right : Bytes) :
    discard (readString mp mem left) = discard (readString mp mem right) := by
  funext reader
  rw [discard_run, discard_run]
  rcases plain_or_extension prints reader with plain | ⟨byte, printed, item⟩
  · rw [read_string_plain plain left right]
  · cases printed with
    | none =>
        rw [read_string_unprinted left item.known item.read item.ext item.prints,
          read_string_unprinted right item.known item.read item.ext item.prints]
    | some text =>
        rw [read_string_printed left item.known item.read item.ext item.prints,
          read_string_printed right item.known item.read item.ext item.prints,
          Cxx.bind_run, Cxx.bind_run]
        cases skip mp mem reader <;> rfl

mutual
theorem get_alike (prints : PrintsExtensions mp mem) {α : Type} : (dst : Overload α) →
    (left right : α) →
    discard (dst.get mp mem realText left) = discard (dst.get mp mem realText right)
  | .bool, _, _ | .int _, _, _ | .real _, _, _ | .stringView, _, _ => rfl
  | .timePoint, _, _ | .array, _, _ | .map, _, _ | .optional _, _, _ => rfl
  | .string, left, right => string_alike prints left right
  | .span maxN, left, right => by
      have last : ∀ read : MpSpan maxN, discard (do
          let reader ← Cxx.get
          return { read with endPos := reader.currentPos }) = pure () := fun _ => rfl
      apply discard_congr
      intro reader
      rw [discard_bind last, discard_bind last]
      exact congrArg (· >>= fun _ => pure ()) (span_alike maxN 0 _ _ rfl)
  | .vector elem, left, right => by
      apply discard_congr
      intro nested
      apply discard_onObject (each_alike (get_alike prints elem) _) nested
      simp only [resizeVector, List.length_append, List.length_take, List.length_replicate]
      omega
  | .tuple elems, left, right => by
      apply discard_congr
      intro nested
      exact discard_onObject (get_all_alike prints elems left right) nested
  | @Overload.stdMap _ _ _ _ _ _ _, left, right => by
      apply discard_congr
      intro nested
      exact discard_onObject (entries_alike _ _ _ left right) nested

theorem get_all_alike (prints : PrintsExtensions mp mem) {α : Type} : (elems : Fields α) →
    (left right : α) →
    discard (elems.getAll mp mem realText left) = discard (elems.getAll mp mem realText right)
  | .nil, _, _ => rfl
  | .cons first rest, left, right => by
      rw [Fields.getAll, Fields.getAll, discard_both, discard_both,
        get_alike prints first left.1 right.1, get_all_alike prints rest left.2 right.2]
end

end Alike

section Agreed
variable {mp : Msgpuck} {mem : Bytes} {realText : RealText} {α : Type} {reader after : MpReader}

theorem cut_printed_agree {left right text : Bytes} (plain : (0 : UInt8) ∉ text) :
    cutPrinted left text = cutPrinted right text ↔ SamePrint left right text := by
  have once : ∀ {prior}, ¬ Accommodates prior text →
      cutPrinted prior text = (printedOnce prior text).take text.length := by
    intro prior spoilt
    exact cut_printed_once fun second => spoilt (.inl second)
  by_cases one : Accommodates left text
  · have whole := (cut_printed_iff plain).mpr one
    rw [whole, eq_comm, cut_printed_iff plain]
    exact ⟨fun other => ⟨iff_of_true one other, absurd one⟩, fun same => same.1.mp one⟩
  · constructor
    · intro same
      have both : ¬ Accommodates right text := by
        rwa [← cut_printed_iff plain, ← same, cut_printed_iff plain]
      exact ⟨iff_of_false one both, fun _ => by rw [← once one, ← once both, same]⟩
    · intro same
      have both : ¬ Accommodates right text := fun other => one (same.1.mpr other)
      rw [once one, once both, same.2 one]

theorem printed_once_full {prior text : Bytes} (full : text.length = max 128 prior.length)
    (int : text.length < 2 ^ 31) : printedOnce prior text = text.take (text.length - 1) ++ [0] := by
  have word : intArgument text.length = text.length := Nat.mod_eq_of_lt (by omega)
  have size : (firstBuffer prior).length = text.length := first_buffer_length.trans full.symm
  have whole : (text.take (text.length - 1) ++ [0]).length = text.length := by
    rw [List.length_append, List.length_take, List.length_singleton]
    omega
  rw [printedOnce, ← full, word, written, if_neg (by omega), printedOver,
    List.drop_eq_nil_of_le (by omega), List.append_nil]

theorem same_print_int {left right text : Bytes} (leftSmall : left.length < 2 ^ 31)
    (rightSmall : right.length < 2 ^ 31) : SamePrint left right text ↔
      (text.length = max 128 left.length ↔ text.length = max 128 right.length) := by
  rw [SamePrint, accommodates_int leftSmall, accommodates_int rightSmall, not_iff_not, not_not]
  constructor
  · exact fun same => same.1
  · intro same
    refine ⟨same, ?_⟩
    intro full
    rw [printed_once_full full (by omega), printed_once_full (same.mp full) (by omega)]

theorem string_agree (prints : PrintsExtensions mp mem) {left right one other : Bytes}
    {last : MpReader} (doneLeft : readString mp mem left reader = .returned one after)
    (doneRight : readString mp mem right reader = .returned other last) :
    one = other ↔ Overload.string.Agree mp mem realText left right reader := by
  rw [Overload.Agree]
  rcases plain_or_extension prints reader with plain | ⟨byte, printed, item⟩
  · rw [read_string_plain plain left right] at doneLeft
    cases doneLeft.symm.trans doneRight
    exact iff_of_true rfl fun byte here ext => absurd ext (plain byte here)
  · cases printed with
    | none =>
        rw [read_string_unprinted left item.known item.read item.ext item.prints] at doneLeft
        cases doneLeft
    | some text =>
        rw [read_string_printed left item.known item.read item.ext item.prints] at doneLeft
        rw [read_string_printed right item.known item.read item.ext item.prints] at doneRight
        obtain ⟨_, _, _, filled⟩ := Cxx.bind_inversion doneLeft
        cases filled
        obtain ⟨_, _, _, filled⟩ := Cxx.bind_inversion doneRight
        cases filled
        rw [cut_printed_agree item.prints.1]
        constructor
        · intro same byte _ _ found prints
          rwa [prints_unique prints item.prints]
        · intro agree
          exact agree byte item.here item.ext text item.prints

def spanOffsets (mp : Msgpuck) (mem : Bytes) (first : Option Nat) : Nat → MpReader → List Nat
  | 0, _ => []
  | left + 1, reader =>
      if reader.more = true then
        ((skipped mp mem reader).currentPos.getD 0 - first.getD 0) % 2 ^ 32 ::
          spanOffsets mp mem first left (skipped mp mem reader)
      else []

theorem record_front {maxN ind offset : Nat} {span : MpSpan maxN} (room : ind < maxN)
    (filled : ind ≤ span.rbounds.length) :
    (span.record ind offset room).rbounds.take (ind + 1) = span.rbounds.take ind ++ [offset] := by
  have front : (span.rbounds.take ind).length = ind := List.length_take_of_le filled
  have shape : (span.record ind offset room).rbounds =
      (span.rbounds.take ind ++ [offset]) ++ span.rbounds.drop (ind + 1) := by simp [MpSpan.record]
  rw [shape, List.take_left' (by simp [front])]

theorem record_back {maxN ind offset : Nat} {span : MpSpan maxN} (room : ind < maxN)
    (filled : ind ≤ span.rbounds.length) (count : Nat) :
    (span.record ind offset room).rbounds.drop (ind + 1 + count) =
      span.rbounds.drop (ind + 1 + count) := by
  have front : (span.rbounds.take ind).length = ind := List.length_take_of_le filled
  have shape : (span.record ind offset room).rbounds =
      (span.rbounds.take ind ++ [offset]) ++ span.rbounds.drop (ind + 1) := by simp [MpSpan.record]
  rw [shape, ← List.drop_drop, List.drop_left' (by simp [front]), List.drop_drop]

theorem span_loop_written {maxN : Nat} (left ind : Nat) (inside : left + ind ≤ maxN)
    {dst span : MpSpan maxN} (filled : ind ≤ dst.rbounds.length)
    (done : spanLoop mp mem left ind dst reader = .returned span after) :
    span.beginPos = dst.beginPos ∧
      span.cardinality = dst.cardinality + spanItems mp mem left reader ∧
      span.rbounds = dst.rbounds.take ind ++ spanOffsets mp mem dst.beginPos left reader ++
        dst.rbounds.drop (ind + spanItems mp mem left reader) ∧
      skips mp mem (spanItems mp mem left reader) reader = .returned () after := by
  -- on the passes left: what is recorded already is in front, what is not reached behind
  induction left generalizing ind dst reader with
  | zero =>
      cases done
      refine ⟨rfl, rfl, ?_, rfl⟩
      simp [spanOffsets, spanItems]
  | succ left ih =>
      have room : ind < maxN := by omega
      rw [spanLoop, dif_pos room, Cxx.bind_run, has_next_run, if_neg (by simp)] at done
      dsimp only at done
      rw [spanOffsets, spanItems]
      cases more : reader.more with
      | false =>
          rw [more] at done
          cases done
          refine ⟨rfl, rfl, ?_, rfl⟩
          simp
      | true =>
          rw [more] at done
          simp only [Bool.not_true, Bool.false_eq_true, if_false] at done
          obtain ⟨_, middle, moved, rest⟩ := Cxx.bind_inversion done
          have stepped := skip_skipped (can_skip_of_returned moved)
          cases stepped.symm.trans moved
          rw [Cxx.bind_get] at rest
          generalize ((skipped mp mem reader).currentPos.getD 0 - dst.beginPos.getD 0) % 2 ^ 32 =
            found at rest ⊢
          have longer : ind + 1 ≤ (dst.record ind found room).rbounds.length := by
            have front := congrArg List.length (@record_front maxN ind found dst room filled)
            simp only [List.length_take, List.length_append, List.length_singleton] at front
            omega
          obtain ⟨begins, counted, ends, passed⟩ := ih (ind + 1) (by omega) longer rest
          rw [record_front room filled, record_back room filled] at ends
          have later : ind + 1 + spanItems mp mem left (skipped mp mem reader) =
              ind + (spanItems mp mem left (skipped mp mem reader) + 1) := by omega
          simp only [if_true]
          refine ⟨begins, ?_, ?_, ?_⟩
          · have one : (dst.record ind found room).cardinality = dst.cardinality + 1 := rfl
            omega
          · rw [ends, later]
            simp [MpSpan.record]
          · rw [skips, Cxx.bind_returned stepped]
            exact passed

theorem span_written {maxN : Nat} {prior span : MpSpan maxN}
    (done : readSpan mp mem prior reader = .returned span after) :
    span.beginPos = reader.currentPos ∧ span.endPos = after.currentPos ∧
      span.cardinality = prior.cardinality + spanItems mp mem maxN reader ∧
      span.rbounds = spanOffsets mp mem reader.currentPos maxN reader ++
        prior.rbounds.drop (spanItems mp mem maxN reader) ∧
      skips mp mem (spanItems mp mem maxN reader) reader = .returned () after := by
  rw [readSpan, Cxx.bind_get] at done
  obtain ⟨read, reached, looped, last⟩ := Cxx.bind_inversion done
  cases last
  obtain ⟨begins, counted, ends, passed⟩ :=
    span_loop_written maxN 0 (Nat.le_of_eq (Nat.add_zero maxN)) (Nat.zero_le _) looped
  rw [List.take_zero, List.nil_append, Nat.zero_add] at ends
  exact ⟨begins, rfl, counted, ends, passed⟩

theorem span_agree {maxN : Nat} {left right one other : MpSpan maxN} {last : MpReader}
    (doneLeft : readSpan mp mem left reader = .returned one after)
    (doneRight : readSpan mp mem right reader = .returned other last) :
    one = other ↔ (Overload.span maxN).Agree mp mem realText left right reader := by
  obtain ⟨begins, stops, counted, ends, passed⟩ := span_written doneLeft
  obtain ⟨begins', stops', counted', ends', passed'⟩ := span_written doneRight
  cases passed.symm.trans passed'
  rw [Overload.Agree]
  constructor
  · rintro rfl
    constructor
    · omega
    · exact List.append_cancel_left (ends.symm.trans ends')
  · rintro ⟨cardinality, kept⟩
    cases one
    cases other
    simp_all

theorem nested_returned {opened : Read MpReader} {body : MpReader → Read α} {value : α}
    (done : (do
      let nested ← opened
      let result ← Cxx.onObject (body nested) nested
      return result.1) reader = .returned value after) :
    ∃ nested last, opened reader = .returned nested after ∧
      body nested nested = .returned value last := by
  obtain ⟨nested, middle, ran, rest⟩ := Cxx.bind_inversion done
  obtain ⟨result, reached, inner, last⟩ := Cxx.bind_inversion rest
  cases last
  rw [Cxx.onObject] at inner
  cases filled : body nested nested with
  | returned value last =>
      rw [filled] at inner
      cases inner
      exact ⟨nested, last, ran, filled⟩
  | thrown error last =>
      rw [filled] at inner
      cases inner
  | undefined =>
      rw [filled] at inner
      cases inner

def AgreesOn (get : α → Read α) (agree : α → α → MpReader → Prop) : Prop :=
  ∀ ⦃left right one other : α⦄ ⦃reader after last : MpReader⦄,
    get left reader = .returned one after → get right reader = .returned other last →
      (one = other ↔ agree left right reader)

theorem both_agree {β γ : Type} {first first' : Read α} {second second' : Read β} {make : α → β → γ}
    (apart : ∀ front back front' back',
      make front back = make front' back' ↔ front = front' ∧ back = back')
    (alike : discard first = discard first') {front back : MpReader → Prop}
    (heads : ∀ one other middle middle', first reader = .returned one middle →
      first' reader = .returned other middle' → (one = other ↔ front reader))
    (tails : ∀ one other middle after last, second middle = .returned one after →
      second' middle = .returned other last → (one = other ↔ back middle))
    {one other : γ} {last : MpReader}
    (doneLeft : (do
      let value ← first
      let rest ← second
      return make value rest) reader = .returned one after)
    (doneRight : (do
      let value ← first'
      let rest ← second'
      return make value rest) reader = .returned other last) :
    one = other ↔ front reader ∧ Cxx.Delivers first reader fun _ => back := by
  obtain ⟨value, middle, ran, more⟩ := Cxx.bind_inversion doneLeft
  obtain ⟨rest, reached, later, done⟩ := Cxx.bind_inversion more
  cases done
  obtain ⟨value', middle', ran', more⟩ := Cxx.bind_inversion doneRight
  obtain ⟨rest', reached', later', done⟩ := Cxx.bind_inversion more
  cases done
  -- the first parts may differ, the second read begins at one place all the same
  obtain ⟨_, again⟩ := alike_returned alike ran
  cases again.symm.trans ran'
  rw [Cxx.delivers_returned ran, apart, heads _ _ _ _ ran ran', tails _ _ _ _ _ later later']

theorem each_agree {get : α → Read α} {agree : α → α → MpReader → Prop}
    {takes : α → MpReader → (MpReader → Prop) → Prop} (element : AgreesOn get agree)
    (alike : ∀ left right, discard (get left) = discard (get right))
    (taken : ∀ prior reader next,
      Cxx.Delivers (get prior) reader (fun _ => next) ↔ takes prior reader next)
    {lefts rights one other : List α} {last : MpReader} (long : lefts.length = rights.length)
    (doneLeft : getEach get lefts reader = .returned one after)
    (doneRight : getEach get rights reader = .returned other last) :
    one = other ↔ EachAgree agree takes lefts rights reader := by
  induction lefts generalizing rights one other reader after last with
  | nil =>
      cases rights with
      | nil =>
          cases doneLeft
          cases doneRight
          exact iff_of_true rfl trivial
      | cons right rights => cases long
  | cons left lefts ih =>
      cases rights with
      | nil => cases long
      | cons right rights =>
          rw [EachAgree, ← taken]
          apply both_agree _ (alike left right) _ _ doneLeft doneRight
          · exact fun _ _ _ _ => Iff.of_eq (List.cons.injEq _ _ _ _)
          · exact fun _ _ _ _ ran ran' => element ran ran'
          · exact fun _ _ _ _ _ later later' => ih (Nat.succ.inj long) later later'

theorem entries_agree {Key Value : Type} [Ord Key] [Std.TransOrd Key] [Std.LawfulEqOrd Key]
    {getKey : Read Key} {getValue : Read Value} (pairs : Nat) {left right one other : StdMap Key Value}
    {last : MpReader} (doneLeft : getEntries getKey getValue pairs left reader = .returned one after)
    (doneRight : getEntries getKey getValue pairs right reader = .returned other last) :
    one = other ↔ ∀ key, ¬ EntryKey getKey getValue key pairs reader →
      left.find key = right.find key := by
  induction pairs generalizing left right reader with
  | zero =>
      cases doneLeft
      cases doneRight
      rw [StdMap.ext_find]
      exact forall_congr' fun key => ⟨fun same _ => same, fun same => same id⟩
  | succ pairs ih =>
      rw [getEntries] at doneLeft doneRight
      obtain ⟨key, middle, ran, rest⟩ := Cxx.bind_inversion doneLeft
      obtain ⟨value, reached, stored, later⟩ := Cxx.bind_inversion rest
      obtain ⟨key', middle', ran', rest⟩ := Cxx.bind_inversion doneRight
      obtain ⟨value', reached', stored', later'⟩ := Cxx.bind_inversion rest
      cases ran.symm.trans ran'
      cases stored.symm.trans stored'
      have keys : ∀ found, EntryKey getKey getValue found (pairs + 1) reader ↔
          found = key ∨ EntryKey getKey getValue found pairs reached := by
        intro found
        simp [EntryKey, ran, stored]
      -- the value just stored is the same in both maps, so its key asks for nothing
      rw [ih later later']
      apply forall_congr'
      intro found
      rw [keys]
      by_cases here : found = key
      · simp [here]
      · have apart : compare found key ≠ .eq := fun same => here (Std.LawfulEqOrd.eq_of_compare same)
        simp [here, apart]

theorem assigned_agrees {get : Read α} :
    AgreesOn (fun _ => get) (fun _ _ _ => True) := by
  intro _ _ one other reader after last doneLeft doneRight
  cases doneLeft.symm.trans doneRight
  exact iff_of_true rfl trivial

theorem resized_length (fresh : α) (size : Nat) (left right : List α) :
    (resizeVector fresh size left).length = (resizeVector fresh size right).length := by
  simp only [resizeVector, List.length_append, List.length_take, List.length_replicate]
  omega

theorem nested_agrees {opened : Read MpReader} {left right : MpReader → Read α}
    {agree : MpReader → Prop} {one other : α} {last : MpReader}
    (elements : ∀ nested one other first last, left nested nested = .returned one first →
      right nested nested = .returned other last → (one = other ↔ agree nested))
    (doneLeft : (do
      let nested ← opened
      let result ← Cxx.onObject (left nested) nested
      return result.1) reader = .returned one after)
    (doneRight : (do
      let nested ← opened
      let result ← Cxx.onObject (right nested) nested
      return result.1) reader = .returned other last) :
    one = other ↔ Cxx.Delivers opened reader fun nested _ => agree nested := by
  obtain ⟨nested, _, ran, filled⟩ := nested_returned doneLeft
  obtain ⟨again, _, ran', filled'⟩ := nested_returned doneRight
  cases ran.symm.trans ran'
  rw [Cxx.delivers_returned ran, elements nested _ _ _ _ filled filled']

mutual
theorem get_agree (prints : PrintsExtensions mp mem) : {α : Type} → (dst : Overload α) →
    AgreesOn (dst.get mp mem realText) (dst.Agree mp mem realText)
  | _, .bool => assigned_agrees
  | _, .int _ => assigned_agrees
  | _, .real _ => assigned_agrees
  | _, .stringView => assigned_agrees
  | _, .timePoint => assigned_agrees
  | _, .array => assigned_agrees
  | _, .map => assigned_agrees
  | _, .optional _ => assigned_agrees
  | _, .string => fun _ _ _ _ _ _ _ => string_agree prints
  | _, .span _ => fun _ _ _ _ _ _ _ => span_agree
  | _, .vector elem => by
      intro left right one other reader after last doneLeft doneRight
      refine (nested_agrees ?_ doneLeft doneRight).trans read_array_takes
      intro nested values others first last
      exact each_agree (get_agree prints elem) (get_alike prints elem) (get_takes elem)
        (resized_length _ _ _ _)
  | _, .tuple elems => by
      intro left right one other reader after last doneLeft doneRight
      refine (nested_agrees ?_ doneLeft doneRight).trans read_array_takes
      intro nested values others first last filled filled'
      exact get_all_agree prints elems filled filled'
  | _, @Overload.stdMap _ _ _ _ _ key value => by
      intro left right one other reader after last doneLeft doneRight
      refine (nested_agrees ?_ doneLeft doneRight).trans read_map_takes
      intro nested values others first last
      exact entries_agree _

theorem get_all_agree (prints : PrintsExtensions mp mem) : {α : Type} → (elems : Fields α) →
    AgreesOn (elems.getAll mp mem realText) (elems.AllAgree mp mem realText)
  | _, .nil => assigned_agrees
  | _, .cons first rest => by
      intro left right one other reader after last doneLeft doneRight
      rw [Fields.AllAgree, ← get_takes]
      apply both_agree _ (get_alike prints first left.1 right.1) _ _ doneLeft doneRight
      · exact fun _ _ _ _ => Iff.of_eq (Prod.mk.injEq _ _ _ _)
      · exact fun _ _ _ _ ran ran' => get_agree prints first ran ran'
      · exact fun _ _ _ _ _ later later' => get_all_agree prints rest later later'
end

end Agreed

/-- An item that can be read into a fresh destination makes two destinations equal exactly
if they agree where it does not overwrite them. A span counts the items it has read
exactly if it counted none before. -/
theorem reads_overwrite_iff {mp : Msgpuck} {mem : Bytes} (prints : PrintsExtensions mp mem)
    (realText : RealText) :
    (∀ {α : Type} (dst : Overload α) (left right : α) (reader : MpReader),
      (∃ value after, dst.get mp mem realText dst.fresh reader = .returned value after) →
        ((∃ value after, dst.get mp mem realText left reader = .returned value after ∧
            dst.get mp mem realText right reader = .returned value after) ↔
          dst.Agree mp mem realText left right reader)) ∧
    ∀ (maxN : Nat) (prior span : MpSpan maxN) (reader after : MpReader),
      readSpan mp mem prior reader = .returned span after →
        skips mp mem (spanItems mp mem maxN reader) reader = .returned () after ∧
          (span.cardinality = spanItems mp mem maxN reader ↔ prior.cardinality = 0) := by
  constructor
  · intro α dst left right reader readable
    obtain ⟨value, after, fresh⟩ := readable
    obtain ⟨one, doneLeft⟩ := alike_returned (get_alike prints dst dst.fresh left) fresh
    obtain ⟨other, doneRight⟩ := alike_returned (get_alike prints dst dst.fresh right) fresh
    rw [← get_agree prints dst doneLeft doneRight]
    constructor
    · rintro ⟨same, reached, filledLeft, filledRight⟩
      cases doneLeft.symm.trans filledLeft
      cases doneRight.symm.trans filledRight
      rfl
    · rintro rfl
      exact ⟨one, after, doneLeft, doneRight⟩
  · intro maxN prior span reader after done
    obtain ⟨_, _, counted, _, passed⟩ := span_written done
    refine ⟨passed, ?_⟩
    omega

/-- A span that was used before and is emptied. -/
theorem reads_overwrite_span : ∃ value after,
    (Overload.span 2).get (printer [0x37]) [0x01, 0x02] noText MpSpan.fresh (MpReader.plain 0 2) =
      .returned value after ∧
    (Overload.span 2).get (printer [0x37]) [0x01, 0x02] noText ⟨some 5, some 9, 0, [3, 4], by decide⟩
      (MpReader.plain 0 2) = .returned value after := by
  have prints : PrintsExtensions (printer [0x37]) [0x01, 0x02] :=
    fun _ _ _ _ => ⟨some [0x37], printer_prints (by decide) (by decide) _ _⟩
  have agree := (reads_overwrite_iff prints noText).1 (.span 2) MpSpan.fresh
    ⟨some 5, some 9, 0, [3, 4], by decide⟩ (MpReader.plain 0 2) ⟨_, _, rfl⟩
  exact agree.mpr ⟨rfl, rfl⟩

/-- The pair `true: true` read into an empty map and into one with another key, one item
read into a span that counts one already. -/
theorem old_content_stays :
    (∃ one other after,
      (Overload.stdMap .bool .bool).get reference [0x81, 0xc3, 0xc3] noText StdMap.empty
        (MpReader.plain 0 3) = .returned one after ∧
      (Overload.stdMap .bool .bool).get reference [0x81, 0xc3, 0xc3] noText
        (StdMap.empty.set false false) (MpReader.plain 0 3) = .returned other after ∧
      one ≠ other) ∧
    ∃ span after, readSpan reference [0x01] (⟨none, none, 1, [1], by decide⟩ : MpSpan 2)
      (MpReader.plain 0 1) = .returned span after ∧ after.currentInd = 1 ∧ span.cardinality = 2 := by
  constructor
  · refine ⟨_, _, _, rfl, rfl, ?_⟩
    intro same
    cases congrArg (fun map => map.entries.length) same
  · exact ⟨_, _, rfl, rfl, rfl⟩

end Cpp2tnt
