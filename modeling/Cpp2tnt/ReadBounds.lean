import Cpp2tnt.ReaderOps
import Cpp2tnt.Library.Transition
import Cpp2tnt.Library.WellFormed

/-!
Reads stay inside the buffer. A computation is contained in a buffer when it does
the same whatever bytes follow the buffer in memory, and always something defined.
The cursor of every reader a program can get hold of stands where the rest of the
buffer is a sequence of whole items, or at its end.
-/

namespace Cpp2tnt
open Imperative MessagePack Transition

def Contained {σ α : Type} (buf : Bytes) (kept : σ → Prop) (post : α → Prop)
    (body : Bytes → Cxx Exn σ α) (state : σ) : Prop :=
  ∃ outcome, (∀ extra, body (buf ++ extra) state = outcome) ∧ match outcome with
    | .returned value reached => kept reached ∧ post value
    | .thrown _ reached => kept reached
    | .undefined => False

namespace Contained
variable {σ τ α β : Type} {buf : Bytes} {kept : σ → Prop} {post : α → Prop} {last : β → Prop}
variable {state : σ}

theorem returned {body : Bytes → Cxx Exn σ α} (value : α) (reached : σ)
    (done : ∀ extra, body (buf ++ extra) state = .returned value reached) (holds : kept reached)
    (result : post value) : Contained buf kept post body state :=
  ⟨_, done, holds, result⟩

theorem thrown {body : Bytes → Cxx Exn σ α} (error : Exn) (reached : σ)
    (done : ∀ extra, body (buf ++ extra) state = .thrown error reached) (holds : kept reached) :
    Contained buf kept post body state :=
  ⟨_, done, holds⟩

theorem congr {body same : Bytes → Cxx Exn σ α} {other : σ}
    (contained : Contained buf kept post same other)
    (agree : ∀ extra, body (buf ++ extra) state = same (buf ++ extra) other) :
    Contained buf kept post body state := by
  obtain ⟨outcome, found, holds⟩ := contained
  exact ⟨outcome, fun extra => (agree extra).trans (found extra), holds⟩

theorem bind {first : Bytes → Cxx Exn σ α} {next : Bytes → α → Cxx Exn σ β}
    (head : Contained buf kept post first state)
    (tail : ∀ value reached, first buf state = .returned value reached → kept reached →
      post value → Contained buf kept last (fun mem => next mem value) reached) :
    Contained buf kept last (fun mem => first mem >>= next mem) state := by
  obtain ⟨outcome, same, holds⟩ := head
  cases outcome with
  | returned value reached =>
      have here := same []
      rw [List.append_nil] at here
      obtain ⟨result, again, ends⟩ := tail value reached here holds.1 holds.2
      exact ⟨result, fun extra => (Cxx.bind_returned (same extra) _).trans (again extra), ends⟩
  | thrown error reached =>
      exact ⟨.thrown error reached, fun extra => Cxx.bind_thrown (same extra) _, holds⟩
  | undefined => cases holds

theorem step {first : Bytes → Cxx Exn σ α} {next : Bytes → α → Cxx Exn σ β} {value : α} {reached : σ}
    (done : ∀ extra, first (buf ++ extra) state = .returned value reached)
    (tail : Contained buf kept last (fun mem => next mem value) reached) :
    Contained buf kept last (fun mem => first mem >>= next mem) state :=
  tail.congr fun extra => Cxx.bind_returned (done extra) _

theorem get_bind {next : Bytes → σ → Cxx Exn σ β}
    (tail : Contained buf kept last (fun mem => next mem state) state) :
    Contained buf kept last (fun mem => Cxx.get >>= next mem) state := tail

theorem pure (value : α) (holds : kept state) (result : post value) :
    Contained buf kept post (fun _ => Pure.pure value) state :=
  .returned value state (fun _ => rfl) holds result

theorem throw (error : Exn) (holds : kept state) :
    Contained buf kept post (fun _ => Cxx.throw error) state :=
  .thrown error state (fun _ => rfl) holds

theorem throw_bind {next : Bytes → β → Cxx Exn σ α} (error : Exn) (holds : kept state) :
    Contained buf kept post (fun mem => Cxx.throw error >>= next mem) state :=
  .thrown error state (fun _ => rfl) holds

theorem mono {weaker : α → Prop} {body : Bytes → Cxx Exn σ α}
    (contained : Contained buf kept post body state) (implied : ∀ value, post value → weaker value) :
    Contained buf kept weaker body state := by
  obtain ⟨outcome, same, holds⟩ := contained
  refine ⟨outcome, same, ?_⟩
  cases outcome with
  | returned value reached => exact ⟨holds.1, implied value holds.2⟩
  | thrown error reached => exact holds
  | undefined => exact holds

theorem onObject {inner : τ → Prop} {body : Bytes → Cxx Exn τ α} {object : τ}
    (contained : Contained buf inner post body object) (holds : kept state) :
    Contained buf kept (fun result : α × τ => post result.1 ∧ inner result.2)
      (fun mem => Cxx.onObject (body mem) object) state := by
  obtain ⟨outcome, same, ends⟩ := contained
  cases outcome with
  | returned value reached =>
      exact .returned (value, reached) state
        (fun extra => by rw [Cxx.onObject, same extra]) holds ⟨ends.2, ends.1⟩
  | thrown error reached =>
      exact .thrown error state (fun extra => by rw [Cxx.onObject, same extra]) holds
  | undefined => cases ends

theorem outcome {body : Bytes → Cxx Exn σ α} (contained : Contained buf kept post body state) :
    (∀ extra, body (buf ++ extra) state = body buf state) ∧ match body buf state with
      | .returned value reached => kept reached ∧ post value
      | .thrown _ reached => kept reached
      | .undefined => False := by
  obtain ⟨outcome, same, holds⟩ := contained
  have here := same []
  rw [List.append_nil] at here
  rw [here]
  exact ⟨same, holds⟩

end Contained

/-- From here on the buffer holds whole items to its end. -/
structure Tail (buf : Bytes) (pos : Nat) : Prop where
  within : pos ≤ buf.length
  items : ∃ values, EncodesAll values (buf.drop pos)

/-- An item begins here, with this head and this body. -/
structure ItemAt (buf : Bytes) (pos : Nat) (head : Head) (value : Value) (front body rest : Bytes) :
    Prop where
  before : pos < buf.length
  placed : buf.drop pos = front ++ body ++ rest
  encodes : HeadEncodes head front
  holds : head.Holds value body
  behind : ∃ values, EncodesAll values rest

section Positions
variable {buf front body rest : Bytes} {pos : Nat} {head : Head} {value : Value} {mp : Msgpuck}

theorem Tail.item (tail : Tail buf pos) (before : pos < buf.length) :
    ∃ head value front body rest, ItemAt buf pos head value front body rest := by
  obtain ⟨values, encodes⟩ := tail.items
  cases values with
  | nil =>
      have none : (buf.drop pos).length = 0 := by rw [encodes]; rfl
      rw [List.length_drop] at none
      omega
  | cons value values =>
      obtain ⟨item, rest, split, first, later⟩ := encodes
      obtain ⟨head, front, body, same, headed, holds⟩ := first.apart
      exact ⟨head, value, front, body, rest, before, by rw [split, same], headed, holds,
        values, later⟩

theorem tail_after {skipped : Bytes} {values : List Value} (within : pos ≤ buf.length)
    (placed : buf.drop pos = skipped ++ rest) (encodes : EncodesAll values rest) :
    Tail buf (pos + skipped.length) := by
  have size : (buf.drop pos).length = skipped.length + rest.length := by
    rw [placed, List.length_append]
  rw [List.length_drop] at size
  constructor
  · omega
  · exact ⟨values, by rwa [← List.drop_drop, placed, List.drop_left]⟩

namespace ItemAt
variable (item : ItemAt buf pos head value front body rest)
include item

theorem tail : Tail buf (pos + (front ++ body).length) := by
  obtain ⟨values, encodes⟩ := item.behind
  exact tail_after (Nat.le_of_lt item.before) item.placed encodes

theorem whole : Encodes value (front ++ body) := item.holds.encodes item.encodes

theorem found (extra : Bytes) :
    (buf ++ extra).drop pos = front ++ body ++ (rest ++ extra) := by
  rw [List.drop_append_of_le_length (Nat.le_of_lt item.before), item.placed,
    List.append_assoc (front ++ body)]

theorem next (implements : Implements mp) (extra : Bytes) :
    mp.mpNext ((buf ++ extra).drop pos) = (front ++ body).length := by
  rw [item.found extra, implements.next value _ _ item.whole]

theorem byte (implements : Implements mp) :
    ∃ byte, mp.mpTypeof byte = headType head ∧ ∀ extra, (buf ++ extra)[pos]? = some byte := by
  obtain ⟨byte, tail, shape⟩ := List.exists_cons_of_ne_nil item.encodes.ne_nil
  have encodes := item.encodes
  rw [shape] at encodes
  refine ⟨byte, implements.typeof head byte tail encodes, fun extra => ?_⟩
  rw [← List.head?_drop, item.found extra, shape]
  rfl

theorem type {σ : Type} (implements : Implements mp) (state : σ) :
    ∃ byte, mp.mpTypeof byte = headType head ∧
      ∀ extra, deref (buf ++ extra) (some pos) state = .returned byte state := by
  obtain ⟨byte, type, here⟩ := item.byte implements
  exact ⟨byte, type, fun extra => by simp [deref, here extra]⟩

end ItemAt
end Positions

/-- A reader over a part of the buffer. -/
structure Inside (buf : Bytes) (reader : MpReader) : Prop where
  begins : ∃ pos, reader.beginPos = some pos ∧ Tail buf pos
  stands : ∃ pos, reader.currentPos = some pos ∧ Tail buf pos
  ends : ∃ pos, reader.endPos = some pos ∧ pos ≤ buf.length

def Away (buf : Bytes) (reader : MpReader) : Prop := reader.currentPos ≠ some buf.length

instance (buf : Bytes) (reader : MpReader) : Decidable (Away buf reader) :=
  inferInstanceAs (Decidable (_ ≠ _))

def Anything {α : Type} (_ : α) : Prop := True

section Primitives
variable {buf : Bytes} {reader : MpReader} {mp : Msgpuck}

theorem Inside.away_item (inside : Inside buf reader) (away : Away buf reader) :
    ∃ pos head value front body rest, reader.currentPos = some pos ∧
      ItemAt buf pos head value front body rest := by
  obtain ⟨pos, stands, tail⟩ := inside.stands
  have before : pos < buf.length := by
    apply Nat.lt_of_le_of_ne tail.within
    rintro rfl
    exact away stands
  obtain ⟨head, value, front, body, rest, item⟩ := tail.item before
  exact ⟨pos, head, value, front, body, rest, stands, item⟩

/-- `skip` compares the cursor with the right bound before it looks at anything. -/
theorem skip_contained (implements : Implements mp) (inside : Inside buf reader) :
    Contained buf (Inside buf) Anything (fun mem => skip mp mem) reader := by
  obtain ⟨pos, stands, tail⟩ := inside.stands
  obtain ⟨last, bound, limit⟩ := inside.ends
  by_cases stop : last ≤ pos
  · refine .thrown (mpReaderError "read out of bounds") reader (fun extra => ?_) inside
    have ended : atEnd reader = true := by simp [atEnd, stands, bound, stop]
    simp [skip, ended]
  · have going : atEnd reader = false := by simpa [atEnd, stands, bound] using stop
    by_cases counted : reader.shape.limit.any (· ≤ reader.currentInd)
    · refine .thrown (mpReaderError "read out of bounds") reader (fun extra => ?_) inside
      simp [skip, going, counted]
    · obtain ⟨head, value, front, body, rest, item⟩ :=
        tail.item (Nat.lt_of_lt_of_le (Nat.lt_of_not_le stop) limit)
      have moved := item.next implements
      by_cases beyond : last < pos + (front ++ body).length
      · refine .thrown (mpReaderError "invalid messagepack") reader (fun extra => ?_) inside
        simp [-List.length_append, skip, going, counted, bytesAt, stands, moved extra,
          MpReader.advance, bound, beyond]
      · refine .returned () (reader.advance (front ++ body).length) (fun extra => ?_) ?_ trivial
        · simp [-List.length_append, skip, going, counted, bytesAt, stands, moved extra,
          MpReader.advance, bound, beyond]
        · exact ⟨inside.begins, ⟨_, by simp [MpReader.advance, stands], item.tail⟩,
            ⟨last, bound, limit⟩⟩

theorem has_next_known (inside : Inside buf reader) (strict : Bool) :
    ∃ more, hasNext strict reader = .returned more reader ∧ (more = true → Away buf reader) := by
  obtain ⟨pos, stands, tail⟩ := inside.stands
  obtain ⟨last, bound, limit⟩ := inside.ends
  refine ⟨decide (pos < last), by simp [hasNext, bound, stands], ?_⟩
  intro more same
  rw [stands, Option.some.injEq] at same
  rw [decide_eq_true_eq] at more
  omega

theorem read_bool_contained (implements : Implements mp) (inside : Inside buf reader)
    (away : Away buf reader) :
    Contained buf (Inside buf) Anything (fun mem => readBool mp mem) reader := by
  obtain ⟨pos, head, value, front, body, rest, stands, item⟩ := inside.away_item away
  obtain ⟨byte, type, read⟩ := item.type implements reader
  unfold readBool
  apply Contained.get_bind
  simp only [stands, Option.isNone_some, Bool.false_eq_true, if_false]
  apply Contained.step read
  rw [type]
  by_cases bool : headType head = .bool
  · simp only [ne_eq, bool, not_true_eq_false, if_false]
    apply (skip_contained implements inside).bind
    intro _ after _ moved _
    obtain ⟨flag, rfl⟩ : ∃ flag, head = .bool flag := by
      cases head <;> cases bool
      exact ⟨_, rfl⟩
    refine .returned flag after (fun extra => ?_) moved trivial
    have decoded : mp.mpDecodeBool (bytesAt (buf ++ extra) (some pos)) = (flag, front.length) := by
      rw [bytesAt, Option.getD_some, item.found extra, List.append_assoc,
        implements.decodeBool flag front _ item.encodes]
    rw [decoded]
    rfl
  · simp only [ne_eq, bool, not_false_eq_true, if_true]
    exact .throw_bind _ inside

theorem read_string_view_contained (implements : Implements mp) (inside : Inside buf reader) :
    Contained buf (Inside buf) Anything (fun mem => readStringView mp mem) reader := by
  obtain ⟨more, known, away⟩ := has_next_known inside false
  unfold readStringView
  apply Contained.step fun _ => known
  cases more with
  | false => exact .pure none inside trivial
  | true =>
      obtain ⟨pos, head, value, front, body, rest, stands, item⟩ := inside.away_item (away rfl)
      obtain ⟨byte, type, read⟩ := item.type implements reader
      simp only [Bool.not_true, Bool.false_eq_true, if_false]
      apply Contained.get_bind
      simp only [stands]
      apply Contained.step read
      rw [type]
      cases head with
      | str length =>
          apply (skip_contained implements inside).bind
          intro _ after _ moved _
          refine .returned (some body) after (fun extra => ?_) moved trivial
          have decoded : mp.mpDecodeStr (bytesAt (buf ++ extra) (some pos)) =
              (length, front.length) := by
            rw [bytesAt, Option.getD_some, item.found extra, List.append_assoc,
              implements.decodeStr length front _ item.encodes]
          have size : body.length = length := item.holds.1
          rw [decoded, bytesAt, Option.getD_some, item.found extra]
          simp [← size]
      | nil =>
          apply (skip_contained implements inside).bind
          intro _ after _ moved _
          exact .pure none moved trivial
      | _ => exact .throw _ inside

theorem ItemAt.printed {pos : Nat} {head : Head} {value : Value} {front body rest : Bytes}
    (prints : ReadsItems mp) (item : ItemAt buf pos head value front body rest) (size flags : Nat)
    (extra : Bytes) : mp.mpSnprint size (bytesAt (buf ++ extra) (some pos)) flags =
      mp.mpSnprint size (front ++ body) flags := by
  rw [bytesAt, Option.getD_some, item.found extra]
  exact prints.snprint value (front ++ body) (rest ++ extra) size flags item.whole

def printInto (print : Nat → Int × Bytes) (prior : Bytes) : Nat × Bytes :=
  let value := if prior.length < 128 then resizeString 128 prior else prior
  let first := print value.length
  let value := printedOver first.2 value
  let length := (first.1 % 2 ^ 64).toNat
  if value.length < length then
    let size := (length + 1) % 2 ^ 64
    let second := print size
    ((second.1 % 2 ^ 64).toNat, printedOver second.2 (resizeString size value))
  else (length, value)

theorem read_string_ext (mem prior : Bytes) (byte : UInt8)
    (known : reader.currentPos.isNone = false)
    (read : deref mem reader.currentPos reader = .returned byte reader)
    (ext : mp.mpTypeof byte = .ext) :
    readString mp mem prior reader =
      let printed := printInto
        (fun size => mp.mpSnprint (intArgument size) (bytesAt mem reader.currentPos) unquoteUuid) prior
      (if 2 ^ 63 ≤ printed.1 then
        (Cxx.throw ⟨.lengthError, "basic_string::_M_replace_aux"⟩ : Read Bytes)
      else do
        skip mp mem
        return resizeString printed.1 printed.2) reader := by
  simp only [readString, Cxx.bind_get, known, Bool.false_eq_true, if_false]
  rw [Cxx.bind_returned read]
  simp only [ext, if_true, printInto]
  split <;> split <;> rfl

theorem read_string_contained (implements : Implements mp) (prints : ReadsItems mp) (prior : Bytes)
    (inside : Inside buf reader) (away : Away buf reader) :
    Contained buf (Inside buf) Anything (fun mem => readString mp mem prior) reader := by
  obtain ⟨pos, head, value, front, body, rest, stands, item⟩ := inside.away_item away
  obtain ⟨byte, type, read⟩ := item.type implements reader
  have known : reader.currentPos.isNone = false := by rw [stands, Option.isNone_some]
  have here : ∀ extra, deref (buf ++ extra) reader.currentPos reader = .returned byte reader := by
    rw [stands]
    exact read
  by_cases ext : mp.mpTypeof byte = .ext
  · have same : ∀ extra, (fun size =>
        mp.mpSnprint (intArgument size) (bytesAt (buf ++ extra) reader.currentPos) unquoteUuid) =
          fun size => mp.mpSnprint (intArgument size) (front ++ body) unquoteUuid := by
      intro extra
      funext size
      rw [stands, item.printed prints]
    have shape := fun extra => read_string_ext (buf ++ extra) prior byte known (here extra) ext
    simp only [same] at shape
    generalize printInto (fun size => mp.mpSnprint (intArgument size) (front ++ body) unquoteUuid) prior =
      printed at shape
    by_cases failed : 2 ^ 63 ≤ printed.1
    · exact .thrown _ reader (fun extra => (shape extra).trans (by rw [if_pos failed]; rfl)) inside
    · have moved : Contained buf (Inside buf) Anything (fun mem => do
          skip mp mem
          return resizeString printed.1 printed.2) reader :=
        (skip_contained implements inside).bind fun _ _ _ kept _ => .pure _ kept trivial
      exact moved.congr fun extra => (shape extra).trans (by rw [if_neg failed])
  · unfold readString
    apply Contained.get_bind
    simp only [known, Bool.false_eq_true, if_false]
    apply Contained.step here
    simp only [ext, if_false]
    apply (read_string_view_contained implements inside).bind
    intro text reached _ kept _
    cases text with
    | none => exact .throw _ kept
    | some text => exact .pure text kept trivial

theorem skip_away (inside : Inside buf reader) {value : Unit} {after : MpReader}
    (moved : skip mp buf reader = .returned value after) : Away buf reader := by
  obtain ⟨pos, stands, tail⟩ := inside.stands
  obtain ⟨last, bound, limit⟩ := inside.ends
  intro finished
  have ended : atEnd reader = true := by simp [atEnd, finished, bound, limit]
  simp [skip, ended] at moved

/-- The item an integral read moves over is not an extension that cannot be printed,
or only into more than its 64 characters. -/
def Printable (mp : Msgpuck) (buf : Bytes) (reader : MpReader) : Prop :=
  ∀ byte after, skip mp buf reader = .returned () after →
    reader.currentPos.bind (buf[·]?) = some byte → mp.mpTypeof byte = .ext →
    0 ≤ (mp.mpSnprint 64 (bytesAt buf reader.currentPos) 0).1 ∧
      (mp.mpSnprint 64 (bytesAt buf reader.currentPos) 0).1 ≤
        (mp.mpSnprint 64 (bytesAt buf reader.currentPos) 0).2.length

/-- An integral read skips first. Of an extension that cannot be printed it parses a
text that ends before it begins. -/
theorem read_integral_contained (implements : Implements mp) (prints : ReadsItems mp)
    (type : IntType) (inside : Inside buf reader) (printable : Printable mp buf reader) :
    Contained buf (Inside buf) Anything (fun mem => readIntegral mp mem type) reader := by
  unfold readIntegral
  apply Contained.get_bind
  apply (skip_contained implements inside).bind
  intro _ after moved kept _
  obtain ⟨pos, head, value, front, body, rest, stands, item⟩ :=
    inside.away_item (skip_away inside moved)
  obtain ⟨byte, same, read⟩ := item.type implements after
  simp only [stands]
  apply Contained.step read
  rw [same]
  -- these three branches decode bytes behind the head, which are those of the item in any memory
  cases head with
  | uint number =>
      have fixed : Contained buf (Inside buf) Anything (fun _ =>
          if (number : Int) ≤ type.max then (Pure.pure (type.cast number) : Read type.Val)
          else Cxx.throw (mpReaderError "value overflow")) after := by
        split
        · exact .pure _ kept trivial
        · exact .throw _ kept
      refine fixed.congr fun extra => ?_
      simp only [headType, bytesAt, Option.getD_some, item.found extra, List.append_assoc,
        implements.decodeUint number front _ item.encodes]
  | int number =>
      have fixed : Contained buf (Inside buf) Anything (fun _ =>
          if (if type = .uint64 then number % 2 ^ 64 else number) ≤ type.max ∧
              type.min ≤ (if type = .uint64 then number % 2 ^ 64 else number) then
            (Pure.pure (type.cast number) : Read type.Val)
          else Cxx.throw (mpReaderError "value overflow")) after := by
        generalize (if type = .uint64 then number % 2 ^ 64 else number) = common
        split
        · exact .pure _ kept trivial
        · exact .throw _ kept
      refine fixed.congr fun extra => ?_
      simp only [headType, bytesAt, Option.getD_some, item.found extra, List.append_assoc,
        implements.decodeInt number front _ item.encodes]
  | ext code length =>
      obtain ⟨first, ext, here⟩ := item.byte implements
      have inBuf : buf[pos]? = some first := by
        have whole := here []
        rwa [List.append_nil] at whole
      have prints64 := item.printed prints 64 0
      have readable : ¬ ((mp.mpSnprint 64 (front ++ body) 0).1 < 0 ∨
          ((mp.mpSnprint 64 (front ++ body) 0).2.length : Int) <
            (mp.mpSnprint 64 (front ++ body) 0).1) := by
        have known := printable first after moved (by rw [stands, Option.bind_some, inBuf]) ext
        have whole := prints64 []
        rw [List.append_nil] at whole
        rw [stands, whole] at known
        exact not_or.mpr ⟨Int.not_lt.mpr known.1, Int.not_lt.mpr known.2⟩
      have fixed : Contained buf (Inside buf) Anything
          (fun _ => extViaString mp type (front ++ body)) after := by
        simp only [extViaString, extText, if_neg readable, pure_bind]
        split
        · exact .pure _ kept trivial
        · exact .throw _ kept
        · exact .throw _ kept
      refine fixed.congr fun extra => ?_
      simp only [headType, extViaString, extText, prints64 extra]
  | _ => exact .throw _ kept

theorem skip_type_contained (implements : Implements mp) (type : MpType) (nullable : Bool)
    (inside : Inside buf reader) (away : Away buf reader) :
    Contained buf (Inside buf) Anything (fun mem => skipType mp mem type nullable) reader := by
  obtain ⟨pos, head, value, front, body, rest, stands, item⟩ := inside.away_item away
  obtain ⟨byte, _, read⟩ := item.type implements reader
  unfold skipType
  apply Contained.get_bind
  simp only [stands, Option.isNone_some, Bool.false_eq_true, if_false]
  apply Contained.step read
  split
  · exact .throw_bind _ inside
  · exact skip_contained implements inside

theorem look_contained {α : Type} {post : α → Prop} (implements : Implements mp)
    (inside : Inside buf reader) {next : Bytes → MpReader → UInt8 → Read α}
    (each : ∀ {pos : Nat} {head : Head} {value : Value} {front body rest : Bytes} (byte : UInt8),
      reader.currentPos = some pos → ItemAt buf pos head value front body rest →
      mp.mpTypeof byte = headType head →
      Contained buf (Inside buf) post (fun mem => next mem reader byte) reader) :
    Contained buf (Inside buf) post (fun mem => do
      if !(← hasNext false) then Cxx.throw (mpReaderError "read out of bounds")
      let reader ← Cxx.get
      next mem reader (← deref mem reader.currentPos)) reader := by
  obtain ⟨more, known, away⟩ := has_next_known inside false
  apply Contained.step fun _ => known
  cases more with
  | false => exact .throw_bind _ inside
  | true =>
      obtain ⟨pos, head, value, front, body, rest, stands, item⟩ := inside.away_item (away rfl)
      obtain ⟨byte, type, read⟩ := item.type implements reader
      simp only [Bool.not_true, Bool.false_eq_true, if_false]
      apply Contained.get_bind
      simp only [stands]
      exact Contained.step read (each byte stands item type)

theorem is_null_contained (implements : Implements mp) (inside : Inside buf reader) :
    Contained buf (Inside buf) Anything (fun mem => isNull mp mem) reader :=
  look_contained implements inside fun _ _ _ _ => .pure _ inside trivial

theorem skips_contained (implements : Implements mp) (count : Nat) (inside : Inside buf reader) :
    Contained buf (Inside buf) Anything (fun mem => skips mp mem count) reader := by
  induction count generalizing reader with
  | zero => exact .pure () inside trivial
  | succ count ih =>
      apply (skip_contained implements inside).bind
      exact fun _ after _ kept _ => ih kept

theorem index_contained (implements : Implements mp) (ind : Nat) (inside : Inside buf reader) :
    Contained buf (Inside buf) (Inside buf) (fun mem => index mp mem ind) reader := by
  unfold index
  apply Contained.get_bind
  have copy : Inside buf (if reader.currentInd ≤ ind then reader else reader.rewound) := by
    split
    · exact inside
    · exact ⟨inside.begins, inside.begins, inside.ends⟩
  generalize (if reader.currentInd ≤ ind then reader else reader.rewound) = tmp at copy
  have slice : Contained buf (Inside buf) (Inside buf) (fun mem => do
      skips mp mem (ind - tmp.currentInd)
      let first := (← Cxx.get).currentPos
      skip mp mem
      let last := (← Cxx.get).currentPos
      return (⟨.plain, first, last, first, 0⟩ : MpReader)) tmp := by
    apply (skips_contained implements _ copy).bind
    intro _ front _ kept _
    apply Contained.get_bind
    apply (skip_contained implements kept).bind
    intro _ back _ moved _
    apply Contained.get_bind
    obtain ⟨last, stands, tail⟩ := moved.stands
    exact .pure _ moved ⟨kept.stands, kept.stands, last, stands, tail.within⟩
  apply (slice.onObject inside).bind
  intro result reached _ kept holds
  exact .pure result.1 kept holds.1

theorem read_floating_contained (implements : Implements mp) (reads : ReadsItems mp)
    (inside : Inside buf reader) :
    Contained buf (Inside buf) Anything (fun mem => readFloating mp mem) reader := by
  unfold readFloating
  apply Contained.get_bind
  apply (skip_contained implements inside).bind
  intro _ after moved kept _
  obtain ⟨pos, head, value, front, body, rest, stands, item⟩ :=
    inside.away_item (skip_away inside moved)
  obtain ⟨byte, same, read⟩ := item.type implements after
  simp only [stands]
  apply Contained.step read
  rw [same]
  cases head with
  | float bits =>
      refine .returned (.single bits) after (fun extra => ?_) kept trivial
      simp only [headType, bytesAt, Option.getD_some, item.found extra, List.append_assoc,
        reads.decodeFloat bits front _ item.encodes, Cxx.pure_run]
  | double bits =>
      refine .returned (.double bits) after (fun extra => ?_) kept trivial
      simp only [headType, bytesAt, Option.getD_some, item.found extra, List.append_assoc,
        reads.decodeDouble bits front _ item.encodes, Cxx.pure_run]
  | _ => exact .throw _ kept

theorem ItemAt.copied {σ : Type} {state : σ} {pos offset count : Nat} {head : Head} {value : Value}
    {front body rest : Bytes} (item : ItemAt buf pos head value front body rest)
    (within : offset + count ≤ (front ++ body).length) (extra : Bytes) :
    copyFrom (buf ++ extra) (pos + offset) count state =
      .returned (((front ++ body).drop offset).take count) state := by
  have before : pos ≤ (buf ++ extra).length := by
    rw [List.length_append]
    exact Nat.le_trans (Nat.le_of_lt item.before) (Nat.le_add_right _ _)
  exact copy_placed (item.found extra) before within

theorem read_datetime_contained (implements : Implements mp) (reads : ReadsItems mp) {pos : Nat}
    {code : UInt8} {length : Nat} {value : Value} {front body rest : Bytes}
    (inside : Inside buf reader)
    (item : ItemAt buf pos (.ext code length) value front body rest) :
    Contained buf (Inside buf) Anything (fun mem => readDatetime mp mem pos) reader := by
  have decoded : ∀ extra, mp.mpDecodeExtl ((buf ++ extra).drop pos) =
      (code, length, front.length) := by
    intro extra
    rw [item.found extra, List.append_assoc, reads.decodeExtl code length front _ item.encodes]
  have size : (front ++ body).length = front.length + length := by
    rw [List.length_append, item.holds.1]
  have fixed : Contained buf (Inside buf) Anything (fun mem => do
      if code ≠ mp.mpDatetime then
        Cxx.throw (mpReaderError "unable to extract time_point from ext")
      if length ≠ 8 ∧ length ≠ 16 then Cxx.throw (mpReaderError "unexpected MP_DATETIME value")
      let epoch ← copyFrom mem (pos + front.length) 8
      let tail ← if length = 8 then pure (List.replicate 8 0)
        else copyFrom mem (pos + front.length + 8) 8
      skip mp mem
      return TimeSource.since (signed 8 (ofLittleEndian epoch))
        (signed 4 (ofLittleEndian (tail.take 4)))) reader := by
    by_cases other : code ≠ mp.mpDatetime
    · simp only [if_pos other]
      exact .throw_bind _ inside
    by_cases odd : length ≠ 8 ∧ length ≠ 16
    · simp only [if_neg other, if_pos odd]
      exact .throw_bind _ inside
    simp only [if_neg other, if_neg odd]
    have moved (time : TimeSource) : Contained buf (Inside buf) Anything (fun mem => do
        skip mp mem
        return time) reader :=
      (skip_contained implements inside).bind fun _ _ _ kept _ => .pure _ kept trivial
    apply Contained.step fun extra => item.copied (by rw [size]; omega) extra
    by_cases short : length = 8
    · simp only [if_pos short]
      exact (moved _).step fun _ => rfl
    · simp only [if_neg short, Nat.add_assoc]
      exact (moved _).step fun extra => item.copied (by rw [size]; omega) extra
  exact fixed.congr fun extra => by simp only [readDatetime, decoded extra]

theorem read_time_point_contained (implements : Implements mp) (reads : ReadsItems mp)
    (inside : Inside buf reader) (away : Away buf reader) :
    Contained buf (Inside buf) Anything (fun mem => readTimePoint mp mem) reader := by
  obtain ⟨pos, head, value, front, body, rest, stands, item⟩ := inside.away_item away
  obtain ⟨byte, type, read⟩ := item.type implements reader
  have number : headType head ≠ .ext → Contained buf (Inside buf) Anything
      (fun mem => readIntegral mp mem .int64) reader := by
    intro plain
    obtain ⟨first, same, here⟩ := item.byte implements
    apply read_integral_contained implements reads .int64 inside
    intro other _ _ found ext
    have whole := here []
    rw [List.append_nil] at whole
    rw [stands, Option.bind_some, whole, Option.some.injEq] at found
    exact absurd (same.symm.trans (found ▸ ext)) plain
  unfold readTimePoint
  apply Contained.get_bind
  simp only [stands, Option.isNone_some, Bool.false_eq_true, if_false, Option.getD_some]
  apply Contained.step read
  rw [type]
  cases head with
  | uint | int =>
      apply (number (by rintro ⟨⟩)).bind
      exact fun _ _ _ kept _ => .pure _ kept trivial
  | float | double =>
      apply (read_floating_contained implements reads inside).bind
      exact fun _ _ _ kept _ => .pure _ kept trivial
  | ext code length => exact read_datetime_contained implements reads inside item
  | _ => exact .throw _ inside

end Primitives

/-!
The payload of an extension is opaque to the format. The constructors read an
`MP_ERROR` or `MP_INTERVAL` payload without checking that it is what they expect.
-/

def HeadedBy (make : Nat → Head) (data : Bytes) : Prop :=
  ∃ count front body values, data = front ++ body ∧ HeadEncodes (make count) front ∧
    EncodesAll values body

/-- What the loop over the keys of an error reads: unsigned integers up to the
key 0, and an array behind that one. -/
def StackLayout : Nat → Bytes → Prop
  | 0, _ => True
  | pairs + 1, bytes => ∃ number key rest, bytes = key ++ rest ∧ HeadEncodes (.uint number) key ∧
      (number % 2 ^ 32 ≠ 0 → StackLayout pairs rest) ∧
      (number % 2 ^ 32 = 0 → ∃ count front body behind items others,
        rest = front ++ body ++ behind ∧ HeadEncodes (.array count) front ∧
        items.length = count ∧ EncodesAll items body ∧ EncodesAll others behind)

/-- The extension at the cursor, if there is one, has a payload that
`mp_array(begin)` can read. -/
def OpensArray (mp : Msgpuck) (buf : Bytes) (reader : MpReader) : Prop :=
  ∀ pos type data item rest, reader.currentPos = some pos → buf.drop pos = item ++ rest →
    Encodes (.ext type data) item → type = mp.mpError →
      ∃ pairs front body, data = front ++ body ∧ HeadEncodes (.map pairs) front ∧
        StackLayout pairs body

def OpensMap (mp : Msgpuck) (buf : Bytes) (reader : MpReader) : Prop :=
  ∀ pos type data item rest, reader.currentPos = some pos → buf.drop pos = item ++ rest →
    Encodes (.ext type data) item →
      (type = mp.mpInterval → HeadedBy .uint data) ∧
      (type ≠ mp.mpInterval → type = mp.mpError → HeadedBy .map data)

/-- A nested reader before its right bound is set. -/
structure Begun (buf : Bytes) (reader : MpReader) : Prop where
  begins : ∃ pos, reader.beginPos = some pos ∧ Tail buf pos
  stands : ∃ pos, reader.currentPos = some pos ∧ Tail buf pos
  ends : ∀ pos ∈ reader.endPos, pos ≤ buf.length

section Containers
variable {buf : Bytes} {reader : MpReader} {mp : Msgpuck} {σ : Type} {kept : σ → Prop} {state : σ}

theorem drop_extra {pos : Nat} (within : pos ≤ buf.length) (extra : Bytes) :
    (buf ++ extra).drop pos = buf.drop pos ++ extra := List.drop_append_of_le_length within

theorem begun {shape : Shape} {pos : Nat} (tail : Tail buf pos) :
    Begun buf ⟨shape, some pos, none, some pos, 0⟩ :=
  ⟨⟨pos, rfl, tail⟩, ⟨pos, rfl, tail⟩, fun _ member => by cases member⟩

theorem error_stack_contained (implements : Implements mp) (pairs head : Nat)
    {bytes rest : Bytes} {values : List Value} (within : head ≤ buf.length)
    (placed : buf.drop head = bytes ++ rest) (behind : EncodesAll values rest)
    (layout : StackLayout pairs bytes) (holds : kept state) :
    Contained buf kept (Begun buf) (fun mem => errorStack mp mem pairs head) state := by
  -- the loop takes one item a turn, and the layout has an item for each turn left
  induction pairs generalizing head bytes with
  | zero => exact .throw _ holds
  | succ pairs ih =>
      obtain ⟨number, key, body, rfl, encodes, later, stack⟩ := layout
      have decoded : ∀ extra, mp.mpDecodeUint ((buf ++ extra).drop head) = (number, key.length) := by
        intro extra
        rw [drop_extra within, placed, List.append_assoc, List.append_assoc,
          implements.decodeUint number key _ encodes]
      have moved : buf.drop (head + key.length) = body ++ rest := by
        rw [← List.drop_drop, placed, List.append_assoc, List.drop_left]
      have stays : head + key.length ≤ buf.length := by
        have size := congrArg List.length placed
        simp only [List.length_drop, List.length_append] at size
        omega
      by_cases zero : number % 2 ^ 32 = 0
      · obtain ⟨count, front, inner, behind', items, others, rfl, array, size, encoded, more⟩ :=
          stack zero
        subst size
        have item := encodes_array array encoded
        have here : ∀ extra, (buf ++ extra).drop (head + key.length) =
            front ++ (inner ++ (behind' ++ (rest ++ extra))) := by
          intro extra
          rw [drop_extra stays, moved]
          simp only [List.append_assoc]
        have parts : buf.drop (head + key.length) = front ++ (inner ++ (behind' ++ rest)) := by
          rw [moved]
          simp only [List.append_assoc]
        have first : Tail buf (head + key.length + front.length) :=
          tail_after stays parts (encodes_all_append encoded (encodes_all_append more behind))
        have last : head + key.length + (front ++ inner).length ≤ buf.length := by
          have total := congrArg List.length moved
          simp only [List.length_drop, List.length_append] at total ⊢
          omega
        refine .returned ⟨.array items.length, some (head + key.length + front.length),
          some (head + key.length + (front ++ inner).length),
          some (head + key.length + front.length), 0⟩ state (fun extra => ?_) holds
          ⟨⟨_, rfl, first⟩, ⟨_, rfl, first⟩, ?_⟩
        · have next : mp.mpNext ((buf ++ extra).drop (head + key.length)) =
              (front ++ inner).length := by
            rw [here extra, ← List.append_assoc, implements.next _ _ _ item]
          simp only [errorStack, decoded extra, zero, if_true, next]
          rw [here extra, implements.decodeArray _ front _ array]
          rfl
        · intro pos bound
          cases bound
          exact last
      · have next := ih (head + key.length) stays moved (later zero)
        refine next.congr fun extra => ?_
        simp only [errorStack, decoded extra, zero, if_false]

section Opened
variable {pos : Nat} {head : Head} {value : Value} {front body rest : Bytes}

theorem ItemAt.inner_tail {items : List Value}
    (item : ItemAt buf pos head value front body rest) (inner : EncodesAll items body) :
    Tail buf (pos + front.length) := by
  obtain ⟨values, behind⟩ := item.behind
  have parts : buf.drop pos = front ++ (body ++ rest) := by rw [item.placed, List.append_assoc]
  exact tail_after (Nat.le_of_lt item.before) parts (encodes_all_append inner behind)

theorem ItemAt.payload_tail {items : List Value} {lead tail : Bytes}
    (item : ItemAt buf pos head value front (lead ++ tail) rest) (inner : EncodesAll items tail) :
    Tail buf (pos + front.length + lead.length) := by
  obtain ⟨values, behind⟩ := item.behind
  have parts : buf.drop pos = front ++ lead ++ (tail ++ rest) := by
    rw [item.placed]
    simp only [List.append_assoc]
  rw [Nat.add_assoc, ← List.length_append]
  exact tail_after (Nat.le_of_lt item.before) parts (encodes_all_append inner behind)

theorem ItemAt.payload (item : ItemAt buf pos head value front body rest) (extra : Bytes) :
    (buf ++ extra).drop (pos + front.length) = body ++ (rest ++ extra) := by
  rw [← List.drop_drop, item.found extra, List.append_assoc, List.drop_left]

theorem ItemAt.extension {type : UInt8} {length : Nat}
    (item : ItemAt buf pos (.ext type length) value front body rest) :
    Encodes (.ext type body) (front ++ body) := by
  have whole := item.whole
  rwa [item.holds.2] at whole

theorem mp_array_contained (implements : Implements mp) (reads : ReadsItems mp)
    (stands : reader.currentPos = some pos) (item : ItemAt buf pos head value front body rest)
    (opens : OpensArray mp buf reader) (holds : kept state) :
    Contained buf kept (Begun buf) (fun mem => mpArray mp mem (some pos)) state := by
  obtain ⟨byte, type, read⟩ := item.type implements state
  unfold mpArray
  apply Contained.step read
  rw [type]
  cases head with
  | array count =>
      obtain ⟨items, rfl, inner, _⟩ := item.holds
      refine .returned ⟨.array items.length, _, none, _, 0⟩ state (fun extra => ?_) holds
        (begun (item.inner_tail inner))
      simp only [headType, item.found extra, List.append_assoc,
        implements.decodeArray _ front _ item.encodes, Cxx.pure_run]
  | ext code length =>
      have decoded : ∀ extra, mp.mpDecodeExtl ((buf ++ extra).drop pos) =
          (code, length, front.length) := by
        intro extra
        rw [item.found extra, List.append_assoc, reads.decodeExtl code length front _ item.encodes]
      by_cases error : code = mp.mpError
      · obtain ⟨pairs, lead, tail, rfl, map, layout⟩ :=
          opens pos code body _ rest stands item.placed item.extension error
        have counted : ∀ extra, mp.mpDecodeMap ((buf ++ extra).drop (pos + front.length)) =
            (pairs, lead.length) := by
          intro extra
          rw [item.payload extra, List.append_assoc, implements.decodeMap pairs lead _ map]
        obtain ⟨values, behind⟩ := item.behind
        have placed : buf.drop (pos + front.length + lead.length) = tail ++ rest := by
          have payload := item.payload []
          simp only [List.append_nil] at payload
          rw [← List.drop_drop, payload, List.append_assoc, List.drop_left]
        have within : pos + front.length + lead.length ≤ buf.length := by
          have size := congrArg List.length item.placed
          have before := item.before
          simp only [List.length_drop, List.length_append] at size
          omega
        have stack := error_stack_contained implements pairs _ within placed behind layout holds
        refine stack.congr fun extra => ?_
        simp only [headType, decoded extra, error, if_true, counted extra]
      · refine .thrown (mpReaderError "unable to read map from ext type 10") state
          (fun extra => ?_) holds
        simp only [headType, decoded extra, error, if_false, Cxx.throw_run]
  | _ => exact .throw _ holds

theorem mp_map_contained (implements : Implements mp) (reads : ReadsItems mp)
    (stands : reader.currentPos = some pos) (item : ItemAt buf pos head value front body rest)
    (opens : OpensMap mp buf reader) (holds : kept state) :
    Contained buf kept (Begun buf) (fun mem => mpMap mp mem (some pos)) state := by
  obtain ⟨byte, type, read⟩ := item.type implements state
  unfold mpMap
  simp only [Option.getD_some]
  apply Contained.step read
  rw [type]
  cases head with
  | map count =>
      obtain ⟨items, _, inner, _⟩ := item.holds
      refine .returned ⟨.map count, _, none, _, 0⟩ state (fun extra => ?_) holds
        (begun (item.inner_tail inner))
      simp only [headType, item.found extra, List.append_assoc,
        implements.decodeMap _ front _ item.encodes, Cxx.pure_run]
  | ext code length =>
      have decoded : ∀ extra, mp.mpDecodeExtl ((buf ++ extra).drop pos) =
          (code, length, front.length) := by
        intro extra
        rw [item.found extra, List.append_assoc, reads.decodeExtl code length front _ item.encodes]
      obtain ⟨intervals, errors⟩ := opens pos code body _ rest stands item.placed item.extension
      by_cases interval : code = mp.mpInterval
      · obtain ⟨count, lead, tail, values, rfl, uint, inner⟩ := intervals interval
        refine .returned ⟨.map count, _, none, _, 0⟩ state (fun extra => ?_) holds
          (begun (item.payload_tail inner))
        simp only [headType, decoded extra, interval, if_true, item.payload extra,
          List.append_assoc, implements.decodeUint count lead _ uint, Cxx.pure_run]
      · by_cases error : code = mp.mpError
        · obtain ⟨count, lead, tail, values, rfl, map, inner⟩ := errors interval error
          refine .returned ⟨.map count, _, none, _, 0⟩ state (fun extra => ?_) holds
            (begun (item.payload_tail inner))
          simp only [headType, decoded extra, if_neg interval, if_pos error, item.payload extra,
            List.append_assoc, implements.decodeMap count lead _ map, Cxx.pure_run]
        · refine .thrown (mpReaderError "unable to read map from ext type 10") state
            (fun extra => ?_) holds
          simp only [headType, decoded extra, if_neg interval, if_neg error, Cxx.throw_run]
  | _ => exact .throw _ holds

end Opened

theorem read_array_contained (implements : Implements mp) (reads : ReadsItems mp)
    (inside : Inside buf reader) (away : Away buf reader) (opens : OpensArray mp buf reader) :
    Contained buf (Inside buf) (Inside buf) (fun mem => readArray mp mem) reader := by
  obtain ⟨pos, head, value, front, body, rest, stands, item⟩ := inside.away_item away
  unfold readArray
  apply Contained.get_bind
  simp only [stands]
  apply (mp_array_contained implements reads stands item opens inside).bind
  intro array _ _ kept begun
  apply (skip_contained implements kept).bind
  intro _ parent _ moved _
  apply Contained.get_bind
  obtain ⟨last, after, tail⟩ := moved.stands
  refine .pure _ moved ⟨begun.begins, begun.stands, ?_⟩
  cases bound : array.endPos with
  | none => exact ⟨last, by simp [after], tail.within⟩
  | some limit => exact ⟨limit, by simp, begun.ends limit bound⟩

theorem read_map_contained (implements : Implements mp) (reads : ReadsItems mp)
    (inside : Inside buf reader) (away : Away buf reader) (opens : OpensMap mp buf reader) :
    Contained buf (Inside buf) (Inside buf) (fun mem => readMap mp mem) reader := by
  obtain ⟨pos, head, value, front, body, rest, stands, item⟩ := inside.away_item away
  unfold readMap
  apply Contained.get_bind
  simp only [stands]
  apply (mp_map_contained implements reads stands item opens inside).bind
  intro map _ _ kept begun
  apply (skip_contained implements kept).bind
  intro _ parent _ moved _
  apply Contained.get_bind
  obtain ⟨last, after, tail⟩ := moved.stands
  exact .pure _ moved ⟨begun.begins, begun.stands, last, after, tail.within⟩

theorem ItemAt.peeked {pos : Nat} {head : Head} {value : Value} {front body rest : Bytes}
    (stands : reader.currentPos = some pos) (item : ItemAt buf pos head value front body rest)
    (extra : Bytes) : Stands (buf ++ extra) reader.peeking (front ++ body) (rest ++ extra) where
  placed := ⟨pos, stands, item.found extra, fun _ member => by cases member⟩
  below _ member := by cases member

theorem equals_contained (implements : Implements mp) (key : Key) (inside : Inside buf reader) :
    Contained buf (Inside buf) Anything (fun mem => equals mp mem key) reader := by
  cases key with
  | noText => exact is_null_contained implements inside
  | int number =>
      refine look_contained implements inside
        fun {pos head value front body rest} byte stands item type => ?_
      simp only [stands]
      rw [type]
      cases head with
      | uint found =>
          refine .returned (decide (0 ≤ number) && ((found : Int) == number)) reader
            (fun extra => ?_) inside trivial
          simp only [headType, bytesAt, Option.getD_some, item.found extra, List.append_assoc,
            implements.decodeUint found front _ item.encodes, Cxx.pure_run]
      | int found =>
          refine .returned (found == number) reader (fun extra => ?_) inside trivial
          simp only [headType, bytesAt, Option.getD_some, item.found extra, List.append_assoc,
            implements.decodeInt found front _ item.encodes, Cxx.pure_run]
      | _ => exact .pure false inside trivial
  | bool flag =>
      refine look_contained implements inside
        fun {pos head value front body rest} byte stands item type => ?_
      rw [type]
      cases head with
      | bool found =>
          obtain ⟨rfl, _⟩ := item.holds
          simp only [headType, if_true]
          -- the local reader stands on the head alone, a bool has no body
          have peeked : ∀ extra, Stands (buf ++ extra) reader.peeking front (rest ++ extra) := by
            intro extra
            have whole := item.peeked stands extra
            rwa [List.append_nil] at whole
          exact Contained.step (fun extra => Cxx.onObject_returned
            (read_bool_returned implements found item.encodes (peeked extra)) reader)
            (.pure _ inside trivial)
      | _ => exact .pure false inside trivial
  | text text =>
      refine look_contained implements inside
        fun {pos head value front body rest} byte stands item type => ?_
      rw [type]
      cases head with
      | str length =>
          obtain ⟨rfl, _⟩ := item.holds
          simp only [headType, if_true]
          have knows : reader.peeking.Knows false := .inr ⟨by simp [MpReader.peeking, stands],
            .inr rfl⟩
          exact Contained.step (fun extra => Cxx.onObject_returned
            (read_string_view_returned implements item.encodes (item.peeked stands extra) knows)
            reader) (.pure _ inside trivial)
      | _ => exact .pure false inside trivial

theorem find_loop_contained (implements : Implements mp) (key : Key) (pairs : Nat)
    (inside : Inside buf reader) :
    Contained buf (Inside buf) (fun slice : Option (Nat × Nat) =>
        ∀ first last, slice = some (first, last) → Tail buf first ∧ last ≤ buf.length)
      (fun mem => findLoop mp mem (equals mp mem key) pairs) reader := by
  induction pairs generalizing reader with
  | zero => exact .pure none inside fun _ _ same => by cases same
  | succ pairs ih =>
      apply (equals_contained implements key inside).bind
      intro found _ _ kept _
      apply (skip_contained implements kept).bind
      intro _ front _ before _
      apply Contained.get_bind
      apply (skip_contained implements before).bind
      intro _ back _ behind _
      apply Contained.get_bind
      cases found with
      | false => exact ih behind
      | true =>
          obtain ⟨first, starts, head⟩ := before.stands
          obtain ⟨last, stops, tail⟩ := behind.stands
          refine .pure (some (front.currentPos.getD 0, back.currentPos.getD 0)) behind ?_
          intro one other same
          rw [starts, stops] at same
          cases same
          exact ⟨head, tail.within⟩

theorem value_at_contained (implements : Implements mp) (key : Key) (inside : Inside buf reader) :
    Contained buf (Inside buf) (Inside buf) (fun mem => valueAt mp mem key) reader := by
  unfold valueAt mapAt
  apply Contained.get_bind
  have tmp : Inside buf ⟨.plain, reader.beginPos, reader.endPos, reader.beginPos, 0⟩ :=
    ⟨inside.begins, inside.begins, inside.ends⟩
  apply ((find_loop_contained implements key reader.shape.cardinality tmp).onObject inside).bind
  intro result reached _ kept holds
  obtain ⟨slice, left⟩ := result
  cases slice with
  | none => exact .throw _ kept
  | some bounds =>
      obtain ⟨first, last⟩ := bounds
      obtain ⟨starts, ends⟩ := holds.1 first last rfl
      by_cases some : first < last
      · simp only [some, if_true]
        exact .pure _ kept ⟨⟨first, rfl, starts⟩, ⟨first, rfl, starts⟩, last, rfl, ends⟩
      · simp only [some, if_false]
        exact .throw _ kept

end Containers

/-!
A vector, a tuple or a map is read by the reads of its elements from a nested
reader, so what may go wrong is said about each of them.
-/

section Compound
variable {α Key Value : Type}

def EachClear (get : α → Read α) (clear : α → MpReader → Prop) : List α → MpReader → Prop
  | [], _ => True
  | prior :: rest, reader => clear prior reader ∧
      ∀ value reached, get prior reader = .returned value reached → EachClear get clear rest reached

def EntriesClear (getKey : Read Key) (getValue : Read Value) (clearKey clearValue : MpReader → Prop) :
    Nat → MpReader → Prop
  | 0, _ => True
  | pairs + 1, reader => clearKey reader ∧
      ∀ key middle, getKey reader = .returned key middle → clearValue middle ∧
        ∀ value reached, getValue middle = .returned value reached →
          EntriesClear getKey getValue clearKey clearValue pairs reached

variable (mp : Msgpuck) (buf : Bytes)

mutual
/-- No read of the type, nor of a part of it, looks at a type byte with the cursor
at the end of the buffer, opens a payload that is not laid out for it or parses
the text of an extension that cannot be printed. -/
def Ty.Clear : (type : Ty) → type.Val → MpReader → Prop
  | .bool, _, reader => Away buf reader
  | .int _, _, reader => Printable mp buf reader
  | .string, _, reader => Away buf reader
  | .optional elem, _, reader =>
      hasNext true reader = .returned true reader → elem.Clear elem.fresh reader
  | .vector elem, prior, reader => Away buf reader ∧ OpensArray mp buf reader ∧
      ∀ arr reached, readArray mp buf reader = .returned arr reached →
        EachClear (elem.get mp buf) elem.Clear
          (resizeVector elem.fresh arr.shape.cardinality prior) arr
  | .tuple elems, prior, reader => Away buf reader ∧ OpensArray mp buf reader ∧
      ∀ arr reached, readArray mp buf reader = .returned arr reached → Ty.AllClear elems prior arr
  | .map key value, _, reader => Away buf reader ∧ OpensMap mp buf reader ∧
      ∀ map reached, readMap mp buf reader = .returned map reached →
        EntriesClear (key.get mp buf key.fresh) (value.get mp buf value.fresh) (key.Clear key.fresh)
          (value.Clear value.fresh) map.shape.cardinality map

def Ty.AllClear : (types : List Ty) → Ty.Vals types → MpReader → Prop
  | [], _, _ => True
  | type :: types, prior, reader => type.Clear prior.1 reader ∧
      ∀ value reached, type.get mp buf prior.1 reader = .returned value reached →
        Ty.AllClear types prior.2 reached
end

variable {mp buf}

theorem each_contained {get : Bytes → α → Read α} {clear : α → MpReader → Prop}
    (each : ∀ prior reader, Inside buf reader → clear prior reader →
      Contained buf (Inside buf) Anything (fun mem => get mem prior) reader)
    (priors : List α) (reader : MpReader) (inside : Inside buf reader)
    (fine : EachClear (get buf) clear priors reader) :
    Contained buf (Inside buf) Anything (fun mem => getEach (get mem) priors) reader := by
  induction priors generalizing reader with
  | nil => exact .pure [] inside trivial
  | cons prior rest ih =>
      apply (each prior reader inside fine.1).bind
      intro value middle done kept _
      apply (ih middle kept (fine.2 value middle done)).bind
      exact fun values reached _ last _ => .pure (value :: values) last trivial

theorem entries_contained [Ord Key] [Std.TransOrd Key] {getKey : Bytes → Read Key}
    {getValue : Bytes → Read Value} {clearKey clearValue : MpReader → Prop}
    (keys : ∀ reader, Inside buf reader → clearKey reader →
      Contained buf (Inside buf) Anything (fun mem => getKey mem) reader)
    (values : ∀ reader, Inside buf reader → clearValue reader →
      Contained buf (Inside buf) Anything (fun mem => getValue mem) reader)
    (pairs : Nat) (map : StdMap Key Value) (reader : MpReader) (inside : Inside buf reader)
    (fine : EntriesClear (getKey buf) (getValue buf) clearKey clearValue pairs reader) :
    Contained buf (Inside buf) Anything
      (fun mem => getEntries (getKey mem) (getValue mem) pairs map) reader := by
  induction pairs generalizing reader map with
  | zero => exact .pure map inside trivial
  | succ pairs ih =>
      apply (keys reader inside fine.1).bind
      intro key middle keyed kept _
      have later := fine.2 key middle keyed
      apply (values middle kept later.1).bind
      exact fun value reached valued last _ => ih _ reached last (later.2 value reached valued)

mutual
theorem get_contained (implements : Implements mp) (reads : ReadsItems mp) :
    (type : Ty) → (prior : type.Val) → (reader : MpReader) →
    Inside buf reader → type.Clear mp buf prior reader →
    Contained buf (Inside buf) Anything (fun mem => type.get mp mem prior) reader
  | .bool, _, _, inside, fine => read_bool_contained implements inside fine
  | .int type, _, _, inside, fine => read_integral_contained implements reads type inside fine
  | .string, prior, _, inside, fine => read_string_contained implements reads prior inside fine
  | .optional elem, _, reader, inside, fine => by
      -- whether there is an item is known from the bound; only then its type is read
      obtain ⟨more, known, away⟩ := has_next_known inside true
      simp only [Ty.get, getOptional]
      apply Contained.step fun _ => known
      cases more with
      | false => exact .pure none inside trivial
      | true =>
          obtain ⟨pos, head, value, front, body, rest, stands, item⟩ := inside.away_item (away rfl)
          obtain ⟨byte, _, read⟩ := item.type implements reader
          simp only [Bool.not_true, Bool.false_eq_true, if_false]
          apply Contained.get_bind
          simp only [stands]
          apply Contained.step read
          split
          · apply (skip_contained implements inside).bind
            exact fun _ _ _ kept _ => .pure none kept trivial
          · apply (get_contained implements reads elem elem.fresh reader inside (fine known)).bind
            exact fun value _ _ kept _ => .pure (some value) kept trivial
  | .vector elem, prior, reader, inside, fine => by
      obtain ⟨away, opens, elements⟩ := fine
      simp only [Ty.get, getVector]
      apply (read_array_contained implements reads inside away opens).bind
      intro arr reached opened kept inner
      have each := each_contained (get_contained implements reads elem) _ arr inner
        (elements arr reached opened)
      apply (each.onObject kept).bind
      exact fun result _ _ last _ => .pure result.1 last trivial
  | .tuple elems, prior, reader, inside, fine => by
      obtain ⟨away, opens, elements⟩ := fine
      simp only [Ty.get]
      apply (read_array_contained implements reads inside away opens).bind
      intro arr reached opened kept inner
      have all := get_all_contained implements reads elems prior arr inner
        (elements arr reached opened)
      apply (all.onObject kept).bind
      exact fun result _ _ last _ => .pure result.1 last trivial
  | .map key value, prior, reader, inside, fine => by
      obtain ⟨away, opens, elements⟩ := fine
      simp only [Ty.get, getMap]
      apply (read_map_contained implements reads inside away opens).bind
      intro map reached opened kept inner
      have entries := entries_contained (get_contained implements reads key key.fresh)
        (get_contained implements reads value value.fresh) _ prior map inner (elements map reached opened)
      apply (entries.onObject kept).bind
      exact fun result _ _ last _ => .pure result.1 last trivial

theorem get_all_contained (implements : Implements mp) (reads : ReadsItems mp) :
    (types : List Ty) → (prior : Ty.Vals types) → (reader : MpReader) →
    Inside buf reader → Ty.AllClear mp buf types prior reader →
    Contained buf (Inside buf) Anything (fun mem => Ty.getAll mp mem types prior) reader
  | [], _, _, inside, _ => .pure () inside trivial
  | type :: types, prior, reader, inside, fine => by
      simp only [Ty.getAll]
      apply (get_contained implements reads type prior.1 reader inside fine.1).bind
      intro value middle done kept _
      apply (get_all_contained implements reads types prior.2 middle kept
        (fine.2 value middle done)).bind
      exact fun values _ _ last _ => .pure (value, values) last trivial
end

end Compound

/-- What an operation needs of the reader it is used on. -/
def ReaderOp.Clear (mp : Msgpuck) (buf : Bytes) : ReaderOp → MpReader → Prop
  | .skip, _ | .isNull, _ | .stringView, _ | .index _, _ | .value _, _ => True
  | .skipType _ _, reader | .timePoint, reader => Away buf reader
  | .array, reader => Away buf reader ∧ OpensArray mp buf reader
  | .map, reader => Away buf reader ∧ OpensMap mp buf reader
  | .get type prior, reader => type.Clear mp buf prior reader

/-- The program uses a reader it has, for something the reader is fit for. -/
def Act.Fits (mp : Msgpuck) (buf : Bytes) (readers : List MpReader) (act : Act) : Prop :=
  ∀ reader, readers[act.which]? = some reader → act.op.Clear mp buf reader

section Sequences
variable {buf : Bytes} {reader : MpReader} {mp : Msgpuck}

theorem exec_contained (implements : Implements mp) (reads : ReadsItems mp) (op : ReaderOp)
    (inside : Inside buf reader) (fits : op.Clear mp buf reader) :
    Contained buf (Inside buf) (fun result => ∀ made ∈ op.opened result, Inside buf made)
      (fun mem => op.exec mp mem) reader := by
  cases op with
  | skip => exact (skip_contained implements inside).mono fun _ _ _ made => by cases made
  | isNull => exact (is_null_contained implements inside).mono fun _ _ _ made => by cases made
  | stringView =>
      exact (read_string_view_contained implements inside).mono fun _ _ _ made => by cases made
  | skipType type nullable =>
      exact (skip_type_contained implements type nullable inside fits).mono
        fun _ _ _ made => by cases made
  | timePoint =>
      exact (read_time_point_contained implements reads inside fits).mono
        fun _ _ _ made => by cases made
  | get type prior =>
      exact (get_contained implements reads type prior reader inside fits).mono
        fun _ _ _ made => by cases made
  | array =>
      exact (read_array_contained implements reads inside fits.1 fits.2).mono
        fun _ made => List.forall_mem_singleton.mpr made
  | map =>
      exact (read_map_contained implements reads inside fits.1 fits.2).mono
        fun _ made => List.forall_mem_singleton.mpr made
  | index ind =>
      exact (index_contained implements ind inside).mono
        fun _ made => List.forall_mem_singleton.mpr made
  | value key =>
      exact (value_at_contained implements key inside).mono
        fun _ made => List.forall_mem_singleton.mpr made

theorem plain_inside {values : List Value} (encodes : EncodesAll values buf) :
    Inside buf (MpReader.plain 0 buf.length) := by
  have front : Tail buf 0 := ⟨Nat.zero_le _, values, encodes⟩
  exact ⟨⟨0, rfl, front⟩, ⟨0, rfl, front⟩, buf.length, rfl, Nat.le_refl _⟩

theorem step_inside (implements : Implements mp) (reads : ReadsItems mp)
    {readers after : List MpReader} {act : Act} (fits : act.Fits mp buf readers)
    (inside : ∀ reader ∈ readers, Inside buf reader) (done : act.step mp buf readers = some after) :
    ∀ reader ∈ after, Inside buf reader := by
  unfold Act.step at done
  cases used : readers[act.which]? with
  | none => simp [used] at done
  | some reader =>
      obtain ⟨outcome, same, holds⟩ :=
        exec_contained implements reads act.op (inside reader (List.mem_of_getElem? used))
          (fits reader used)
      have here := same []
      rw [List.append_nil] at here
      simp only [used, here] at done
      cases outcome with
      | undefined => cases done
      | thrown error reached =>
          cases done
          intro other member
          rcases List.mem_or_eq_of_mem_set member with old | rfl
          · exact inside other old
          · exact holds
      | returned value reached =>
          cases done
          intro other member
          rcases List.mem_append.mp member with kept | made
          · rcases List.mem_or_eq_of_mem_set kept with old | rfl
            · exact inside other old
            · exact holds.1
          · exact holds.2 other made

theorem run_inside (implements : Implements mp) (reads : ReadsItems mp) {values : List Value}
    (encodes : EncodesAll values buf) {acts : List Act} {readers : List MpReader}
    (run : Run (Act.step mp buf) (Act.Fits mp buf) [MpReader.plain 0 buf.length] acts readers) :
    ∀ reader ∈ readers, Inside buf reader := by
  apply run.invariant
  · intro reader member
    rw [List.mem_singleton.mp member]
    exact plain_inside encodes
  · intro before act after inside fits done
    exact step_inside implements reads fits inside done

/-- In every run of fitting operations the next one succeeds or throws, and does
the same whatever stands behind the buffer. -/
theorem reads_in_bounds (implements : Implements mp) (reads : ReadsItems mp) {values : List Value}
    (encodes : EncodesAll values buf) {acts : List Act} {readers : List MpReader}
    (run : Run (Act.step mp buf) (Act.Fits mp buf) [MpReader.plain 0 buf.length] acts readers)
    (op : ReaderOp) (member : reader ∈ readers) (fits : op.Clear mp buf reader) :
    ∃ outcome, outcome ≠ .undefined ∧ ∀ extra, op.exec mp (buf ++ extra) reader = outcome := by
  have inside := run_inside implements reads encodes run reader member
  obtain ⟨outcome, same, holds⟩ := exec_contained implements reads op inside fits
  refine ⟨outcome, ?_, same⟩
  rintro rfl
  exact holds

theorem ext_byte (implements : Implements mp) {pos : Nat} {type : UInt8} {data item rest : Bytes}
    (placed : buf.drop pos = item ++ rest) (encodes : Encodes (.ext type data) item) :
    ∃ byte, buf[pos]? = some byte ∧ mp.mpTypeof byte = .ext := by
  obtain ⟨head, front, body, rfl, headed, holds⟩ := encodes.apart
  obtain ⟨byte, tail, rfl⟩ := List.exists_cons_of_ne_nil headed.ne_nil
  refine ⟨byte, ?_, ?_⟩
  · rw [← List.head?_drop, placed]
    rfl
  · rw [implements.typeof head byte tail headed]
    cases head <;> simp_all [Head.Holds, Head.plain, headType]

theorem opens_plain (implements : Implements mp) {pos : Nat} {byte : UInt8}
    (stands : reader.currentPos = some pos) (here : buf[pos]? = some byte)
    (plain : mp.mpTypeof byte ≠ .ext) : OpensArray mp buf reader ∧ OpensMap mp buf reader := by
  have none : ∀ at_ type data item rest, reader.currentPos = some at_ →
      buf.drop at_ = item ++ rest → ¬ Encodes (.ext type data) item := by
    intro at_ type data item rest same placed encodes
    obtain ⟨found, place, ext⟩ := ext_byte implements placed encodes
    rw [stands] at same
    cases same
    rw [here] at place
    cases place
    exact plain ext
  constructor
  · intro at_ type data item rest same placed encodes
    exact absurd encodes (none at_ type data item rest same placed)
  · intro at_ type data item rest same placed encodes
    exact absurd encodes (none at_ type data item rest same placed)

theorem reads_in_bounds_once :
    ∃ outcome, outcome ≠ .undefined ∧ ∀ extra, ReaderOp.exec reference ([0x91, 0xc3] ++ extra)
      (.get .bool false) ⟨.array 1, some 1, some 2, some 1, 0⟩ = outcome := by
  have flag : EncodesAll [.bool true] [0xc3] :=
    ⟨[0xc3], [], rfl, encodes_plain (encode_bool_head true) rfl, rfl⟩
  have front : HeadEncodes (.array [Value.bool true].length) [0x91] := fix_array_head 1 (by decide)
  have item : Encodes (.array [.bool true]) ([0x91] ++ [0xc3]) := encodes_array front flag
  have encodes : EncodesAll [.array [.bool true]] [0x91, 0xc3] := ⟨_, [], rfl, item, rfl⟩
  have run : Run (Act.step reference [0x91, 0xc3]) (Act.Fits reference [0x91, 0xc3])
      [MpReader.plain 0 2] ([] ++ [⟨0, .array⟩])
      [⟨.plain, some 0, some 2, some 2, 1⟩, ⟨.array 1, some 1, some 2, some 1, 0⟩] := by
    refine .snoc .nil ?_ rfl
    intro reader used
    cases used
    exact ⟨by decide, (opens_plain reference_implements rfl rfl (by decide)).1⟩
  exact reads_in_bounds reference_implements reference_reads_items encodes run (.get .bool false)
    (List.mem_cons_of_mem _ (List.mem_singleton.mpr rfl)) (by decide : Away _ _)

def ReaderOp.peeksFirst : ReaderOp → Bool
  | .skipType _ _ | .timePoint | .array | .map => true
  | .get .bool _ | .get .string _ | .get (.vector _) _ | .get (.tuple _) _ | .get (.map _ _) _ => true
  | .get (.int _) _ | .get (.optional _) _ => false
  | .skip | .isNull | .stringView | .index _ | .value _ => false

theorem peek_at_end (op : ReaderOp) (peeks : op.peeksFirst = true)
    (ended : reader.currentPos = some buf.length) : op.exec mp buf reader = .undefined := by
  have outside : ∀ {α : Type} (next : UInt8 → Read α),
      (deref buf (some buf.length) >>= next) reader = .undefined := by
    intro α next
    simp [Cxx.bind_run, deref]
  have arrays : readArray mp buf reader = .undefined := by
    simp [readArray, mpArray, ended, Cxx.bind_run, deref]
  have maps : readMap mp buf reader = .undefined := by
    simp [readMap, mpMap, ended, Cxx.bind_run, deref]
  cases op with
  | skip | isNull | stringView | index _ | value _ => cases peeks
  | skipType type nullable =>
      simp only [ReaderOp.exec, skipType, Cxx.bind_get, ended]
      exact outside _
  | timePoint =>
      simp only [ReaderOp.exec, readTimePoint, Cxx.bind_get, ended]
      exact outside _
  | array => exact arrays
  | map => exact maps
  | get type prior =>
      cases type with
      | int _ | optional _ => cases peeks
      | bool =>
          simp only [ReaderOp.exec, Ty.get, readBool, Cxx.bind_get, ended]
          exact outside _
      | string =>
          simp only [ReaderOp.exec, Ty.get, readString, Cxx.bind_get, ended]
          exact outside _
      | vector elem =>
          simp only [ReaderOp.exec, Ty.get, getVector, Cxx.bind_run, arrays]
          rfl
      | tuple elems =>
          simp only [ReaderOp.exec, Ty.get, Cxx.bind_run, arrays]
          rfl
      | map key value =>
          simp only [ReaderOp.exec, Ty.get, getMap, Cxx.bind_run, maps]
          rfl

/-- After the only item has been read, one more read looks behind the buffer. -/
theorem read_behind_the_end :
    EncodesAll [.bool true] [0xc3] ∧
      Run (Act.step reference [0xc3]) (fun _ _ => True) [MpReader.plain 0 1]
        [⟨0, .get .bool false⟩] [⟨.plain, some 0, some 1, some 1, 1⟩] ∧
      ReaderOp.exec reference [0xc3] (.get .bool false) ⟨.plain, some 0, some 1, some 1, 1⟩ =
        .undefined := by
  refine ⟨⟨[0xc3], [], rfl, encodes_plain (encode_bool_head true) rfl, rfl⟩, ?_, rfl⟩
  exact Run.snoc .nil trivial rfl

end Sequences

end Cpp2tnt
