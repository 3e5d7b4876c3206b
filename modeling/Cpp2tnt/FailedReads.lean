import Cpp2tnt.CursorOps
import Cpp2tnt.ReadBounds

/-!
Where a failed read leaves the cursor. `skip` puts it back and most operations look
at the type before they move; the others skip first and refuse what they find
afterwards. `Takes` tells from the content what a typed read accepts and where it
stands then, `Steady` when none of its refusals comes after a move.
-/

namespace Cpp2tnt
open Imperative MessagePack

section Acceptance
variable (mp : Msgpuck) (mem : Bytes)

def TypeAt (pos : Option Nat) (holds : MpType → Prop) : Prop :=
  ∀ byte, pos.bind (mem[·]?) = some byte → holds (mp.mpTypeof byte)

/-- An integral type takes the item and what follows holds: the number is one of its
values, the text of an extension begins with one. What a failed or a cut print gives
is undefined. -/
def TakesIntegral (type : IntType) (pos : Option Nat) (next : Prop) : Prop :=
  TypeAt mp mem pos fun
    | .uint => ((mp.mpDecodeUint (bytesAt mem pos)).1 : Int) ≤ type.max ∧ next
    | .int =>
        let res := (mp.mpDecodeInt (bytesAt mem pos)).1
        let common := if type = .uint64 then res % 2 ^ 64 else res
        (common ≤ type.max ∧ type.min ≤ common) ∧ next
    | .ext =>
        let printed := mp.mpSnprint 64 (bytesAt mem pos) 0
        0 ≤ printed.1 → printed.1 ≤ printed.2.length →
          (∃ value, fromChars type (printed.2.take printed.1.toNat) = .parsed value) ∧ next
    | _ => False

open Binary64 in
def TakesReal (realText : RealText) (type : RealType) (pos : Option Nat) (next : Prop) : Prop :=
  TypeAt mp mem pos fun
    | .float => next
    | .double =>
        let res := (mp.mpDecodeDouble (bytesAt mem pos)).1
        ¬ (type = .single ∧ IsFinite res ∧ (maxSingle < value res ∨ value res < minSingle)) ∧ next
    | .ext => (∃ value, realText (bytesAt mem pos) = .ok value) ∧ next
    | _ => False

/-- `mp_snprint` prints the item for `to_string`. -/
def TakesText (flags : Nat) (pos : Option Nat) : Prop :=
  let first := mp.mpSnprint 256 (bytesAt mem pos) flags
  0 ≤ (if first.1 ≥ 256 then mp.mpSnprint (first.1.toNat + 1) (bytesAt mem pos) flags else first).1

def TakesStack (opened : MpReader → Prop) : Nat → Nat → Prop
  | 0, _ => False
  | pairs + 1, head =>
      let key := mp.mpDecodeUint (mem.drop head)
      let pos := head + key.2
      if key.1 % 2 ^ 32 = 0 then
        let stack := mp.mpDecodeArray (mem.drop pos)
        let first := some (pos + stack.2)
        opened ⟨.array stack.1, first, some (pos + mp.mpNext (mem.drop pos)), first, 0⟩
      else TakesStack opened pairs pos

/-- The constructor of `mp_array` takes what is at the position. -/
def MakesArray (beginPos : Option Nat) (opened : MpReader → Prop) : Prop :=
  match beginPos with
  | none => opened (MpReader.null (.array 0))
  | some pos => TypeAt mp mem (some pos) fun
      | .array =>
          let head := mp.mpDecodeArray (mem.drop pos)
          opened ⟨.array head.1, some (pos + head.2), none, some (pos + head.2), 0⟩
      | .ext =>
          let ext := mp.mpDecodeExtl (mem.drop pos)
          let map := mp.mpDecodeMap (mem.drop (pos + ext.2.2))
          ext.1 = mp.mpError ∧ TakesStack mp mem opened map.1 (pos + ext.2.2 + map.2)
      | _ => False

def MakesMap (beginPos : Option Nat) (opened : MpReader → Prop) : Prop :=
  let pos := beginPos.getD 0
  TypeAt mp mem beginPos fun
    | .map =>
        let head := mp.mpDecodeMap (mem.drop pos)
        opened ⟨.map head.1, some (pos + head.2), none, some (pos + head.2), 0⟩
    | .ext =>
        let ext := mp.mpDecodeExtl (mem.drop pos)
        let body := pos + ext.2.2
        let head := if ext.1 = mp.mpInterval then mp.mpDecodeUint (mem.drop body)
          else mp.mpDecodeMap (mem.drop body)
        (ext.1 = mp.mpInterval ∨ ext.1 = mp.mpError) ∧
          opened ⟨.map head.1, some (body + head.2), none, some (body + head.2), 0⟩
    | _ => False

def TakesArray (reader : MpReader) (opened : MpReader → Prop) : Prop :=
  MakesArray mp mem reader.currentPos fun array => CanSkip mp mem reader ∧
    opened { array with endPos := array.endPos.or (skipped mp mem reader).currentPos }

def TakesMap (reader : MpReader) (opened : MpReader → Prop) : Prop :=
  MakesMap mp mem reader.currentPos fun map => CanSkip mp mem reader ∧
    opened { map with endPos := (skipped mp mem reader).currentPos }

def TakesDatetime (reader : MpReader) (next : Prop) : Prop :=
  let pos := reader.currentPos.getD 0
  let ext := mp.mpDecodeExtl (mem.drop pos)
  let data := pos + ext.2.2
  ext.1 = mp.mpDatetime ∧ (ext.2.1 = 8 ∨ ext.2.1 = 16) ∧
    (data + ext.2.1 ≤ mem.length → CanSkip mp mem reader ∧ next)

def TakesSpan (next : MpReader → Prop) : Nat → MpReader → Prop
  | 0, reader => next reader
  | left + 1, reader =>
      if reader.more = true then CanSkip mp mem reader ∧ TakesSpan next left (skipped mp mem reader)
      else next reader

def TakesItems : Nat → MpReader → Prop
  | 0, _ => True
  | count + 1, reader => CanSkip mp mem reader ∧ TakesItems count (skipped mp mem reader)

def TakesEach {α : Type} (takes : α → MpReader → (MpReader → Prop) → Prop)
    (next : MpReader → Prop) : List α → MpReader → Prop
  | [], reader => next reader
  | prior :: rest, reader => takes prior reader (TakesEach takes next rest)

def TakesEntries (takesKey takesValue : MpReader → (MpReader → Prop) → Prop)
    (next : MpReader → Prop) : Nat → MpReader → Prop
  | 0, reader => next reader
  | pairs + 1, reader => takesKey reader fun middle =>
      takesValue middle (TakesEntries takesKey takesValue next pairs)

variable (realText : RealText)

mutual
def Overload.Takes {α : Type} : Overload α → α → MpReader → (MpReader → Prop) → Prop
  | .bool, _, reader, next => reader.currentPos.isSome ∧
      TypeAt mp mem reader.currentPos fun type =>
        type = .bool ∧ CanSkip mp mem reader ∧ next (skipped mp mem reader)
  | .int type, _, reader, next => CanSkip mp mem reader ∧
      TakesIntegral mp mem type reader.currentPos (next (skipped mp mem reader))
  | .real type, _, reader, next => CanSkip mp mem reader ∧
      TakesReal mp mem realText type reader.currentPos (next (skipped mp mem reader))
  | .string, prior, reader, next => reader.currentPos.isSome ∧
      TypeAt mp mem reader.currentPos fun type =>
        -- a failed print is a huge unsigned length, to which no string can be resized
        if type = .ext then
          (printInto (fun size => mp.mpSnprint (intArgument size)
            (bytesAt mem reader.currentPos) unquoteUuid) prior).1 < 2 ^ 63 ∧
            CanSkip mp mem reader ∧ next (skipped mp mem reader)
        else reader.more = true ∧ type = .str ∧ CanSkip mp mem reader ∧ next (skipped mp mem reader)
  | .stringView, _, reader, next =>
      if reader.more = true then TypeAt mp mem reader.currentPos fun type =>
        (type = .str ∨ type = .nil) ∧ CanSkip mp mem reader ∧ next (skipped mp mem reader)
      else next reader
  | .timePoint, _, reader, next => reader.currentPos.isSome ∧
      TypeAt mp mem reader.currentPos fun
        | .uint | .int => CanSkip mp mem reader ∧
            TakesIntegral mp mem .int64 reader.currentPos (next (skipped mp mem reader))
        | .float | .double => CanSkip mp mem reader ∧ next (skipped mp mem reader)
        | .ext => TakesDatetime mp mem reader (next (skipped mp mem reader))
        | _ => False
  | .span maxN, _, reader, next => TakesSpan mp mem next maxN reader
  | .array, _, reader, next => TakesArray mp mem reader fun _ => next (skipped mp mem reader)
  | .map, _, reader, next => TakesMap mp mem reader fun _ => next (skipped mp mem reader)
  | .optional elem, _, reader, next => ¬ reader.Unbounded ∧
      if reader.more = true then TypeAt mp mem reader.currentPos fun type =>
        if type = .nil then CanSkip mp mem reader ∧ next (skipped mp mem reader)
        else elem.Takes elem.fresh reader next
      else next reader
  | .vector elem, prior, reader, next => TakesArray mp mem reader fun nested =>
      TakesEach elem.Takes (fun _ => next (skipped mp mem reader))
        (resizeVector elem.fresh nested.shape.cardinality prior) nested
  | .tuple elems, prior, reader, next => TakesArray mp mem reader fun nested =>
      elems.AllTake prior nested fun _ => next (skipped mp mem reader)
  | @Overload.stdMap _ _ _ _ _ key value, _, reader, next => TakesMap mp mem reader fun nested =>
      TakesEntries (key.Takes key.fresh) (value.Takes value.fresh)
        (fun _ => next (skipped mp mem reader)) nested.shape.cardinality nested

def Fields.AllTake {α : Type} : Fields α → α → MpReader → (MpReader → Prop) → Prop
  | .nil, _, reader, next => next reader
  | .cons first rest, prior, reader, next =>
      first.Takes prior.1 reader fun middle => rest.AllTake prior.2 middle next
end

/-- What the destination refuses it refuses before the cursor moves. An integer, a
floating point number and the text of an extension are looked at behind the skip, a
string meets a nil there, a container its elements. -/
def Overload.Steady {α : Type} : Overload α → α → MpReader → Prop
  | .bool, _, _ | .stringView, _, _ | .array, _, _ | .map, _, _ => True
  | .int type, _, reader =>
      CanSkip mp mem reader → TakesIntegral mp mem type reader.currentPos True
  | .real type, _, reader =>
      CanSkip mp mem reader → TakesReal mp mem realText type reader.currentPos True
  | .string, _, reader => TypeAt mp mem reader.currentPos fun type =>
      type = .nil → reader.more = true → ¬ CanSkip mp mem reader
  | .timePoint, _, reader => TypeAt mp mem reader.currentPos fun type =>
      type = .uint ∨ type = .int → CanSkip mp mem reader →
        TakesIntegral mp mem .int64 reader.currentPos True
  | .span maxN, _, reader => CanSkip mp mem reader → reader.more = true →
      TakesSpan mp mem (fun _ => True) (maxN - 1) (skipped mp mem reader)
  | .optional elem, _, reader => ¬ reader.Unbounded → reader.more = true →
      TypeAt mp mem reader.currentPos fun type => type ≠ .nil → elem.Steady elem.fresh reader
  | .vector elem, prior, reader => TakesArray mp mem reader (fun _ => True) →
      TakesArray mp mem reader fun nested => TakesEach (elem.Takes mp mem realText) (fun _ => True)
        (resizeVector elem.fresh nested.shape.cardinality prior) nested
  | .tuple elems, prior, reader => TakesArray mp mem reader (fun _ => True) →
      TakesArray mp mem reader fun nested =>
        elems.AllTake mp mem realText prior nested fun _ => True
  | @Overload.stdMap _ _ _ _ _ key value, _, reader => TakesMap mp mem reader (fun _ => True) →
      TakesMap mp mem reader fun nested =>
        TakesEntries (key.Takes mp mem realText key.fresh) (value.Takes mp mem realText value.fresh)
          (fun _ => True) nested.shape.cardinality nested

/-- `iproto_message` has moved over the length when it finds the packet partial. -/
def WholePacket (reader : MpReader) : Prop :=
  match reader.currentPos, reader.endPos with
  | some pos, some last => 5 ≤ (last : Int) - pos → mem[pos]? = some 0xce →
      let size := mp.mpDecodeUint (mem.drop pos)
      size.2 = 0 ∨ size.1 ≤ last - (pos + size.2)
  | _, _ => True

def CursorOp.Steady : CursorOp → MpReader → Prop
  | .skip, _ | .skipType _ _, _ | .isNull, _ | .hasNext _, _ => True
  | .index _, _ | .value _, _ | .equals _, _ | .rewind, _ => True
  | .none count, reader =>
      CanSkip mp mem reader → TakesItems mp mem (count - 1) (skipped mp mem reader)
  | .get dst prior, reader => dst.Steady mp mem realText prior reader
  | .getOr dst prior _, reader => ¬ reader.Unbounded → reader.more = true →
      TypeAt mp mem reader.currentPos fun type =>
        type ≠ .nil → dst.Steady mp mem realText prior reader
  | .text flags, reader => CanSkip mp mem reader → TakesText mp mem flags reader.currentPos
  | .iprotoMessage, reader => WholePacket mp mem reader

end Acceptance

section Rules
variable {mp : Msgpuck} {mem : Bytes} {realText : RealText} {α β σ : Type} {reader : MpReader}

theorem skipped_moves : (skipped mp mem reader).currentInd ≠ reader.currentInd := by
  change (reader.currentInd + 1) % 2 ^ 32 ≠ reader.currentInd
  omega

@[simp] theorem delivers_skip {post : Unit → MpReader → Prop} :
    Cxx.Delivers (skip mp mem) reader post ↔
      CanSkip mp mem reader ∧ post () (skipped mp mem reader) := by
  by_cases can : CanSkip mp mem reader
  · rw [Cxx.delivers_returned (skip_skipped can), and_iff_right can]
  · obtain ⟨error, refused⟩ := skip_refused can
    exact iff_of_false (Cxx.not_delivers_thrown refused) fun both => can both.1

@[simp] theorem delivers_has_next (strict : Bool) {post : Bool → MpReader → Prop} :
    Cxx.Delivers (hasNext strict) reader post ↔
      ¬ (strict = true ∧ reader.Unbounded) ∧ post reader.more reader := by
  have run := has_next_run reader strict
  by_cases unknown : strict = true ∧ reader.Unbounded
  · rw [if_pos unknown] at run
    exact iff_of_false (Cxx.not_delivers_thrown run) fun both => both.1 unknown
  · rw [if_neg unknown] at run
    rw [Cxx.delivers_returned run, and_iff_right unknown]

@[simp] theorem delivers_deref {pos : Option Nat} {state : σ} {post : UInt8 → σ → Prop} :
    Cxx.Delivers (deref mem pos) state post ↔
      ∀ byte, pos.bind (mem[·]?) = some byte → post byte state := by
  unfold Cxx.Delivers
  rw [deref_run]
  cases pos.bind (mem[·]?) <;> simp

@[simp] theorem delivers_copy_from {pos count : Nat} {state : σ} {post : Bytes → σ → Prop} :
    Cxx.Delivers (copyFrom mem pos count) state post ↔
      (pos + count ≤ mem.length → post ((mem.drop pos).take count) state) := by
  simp [copyFrom, Cxx.delivers_ite]

theorem delivers_typed {pos : Option Nat} {state : σ} {rest : UInt8 → Cxx Exn σ β}
    {post : β → σ → Prop} {holds : MpType → Prop}
    (each : ∀ byte, Cxx.Delivers (rest byte) state post ↔ holds (mp.mpTypeof byte)) :
    Cxx.Delivers (deref mem pos >>= rest) state post ↔ TypeAt mp mem pos holds := by
  rw [Cxx.delivers_bind, delivers_deref]
  exact forall_congr' fun byte => imp_congr_right fun _ => each byte

/-! What is refused is refused in place -/

@[simp] theorem in_place_skip : Cxx.InPlace (skip mp mem) reader := fun _ _ done => skip_thrown done

theorem in_place_skip_bind {next : Unit → Read β} (still : ∀ done, Cxx.Still (next done)) :
    Cxx.InPlace (skip mp mem >>= next) reader ↔
      (CanSkip mp mem reader → Cxx.Quiet (next ()) (skipped mp mem reader)) := by
  rw [Cxx.inPlace_moved_bind in_place_skip _ still]
  · simp only [Cxx.Quiet, Cxx.delivers_bind, delivers_skip, and_true]
    exact forall_congr' fun can => and_iff_right can
  · intro value middle done same
    cases (skip_skipped (can_skip_of_returned done)).symm.trans done
    exact skipped_moves (congrArg MpReader.currentInd same)

@[simp] theorem in_place_has_next_bind (strict : Bool) {next : Bool → Read β} :
    Cxx.InPlace (hasNext strict >>= next) reader ↔
      (¬ (strict = true ∧ reader.Unbounded) → Cxx.InPlace (next reader.more) reader) := by
  rw [Cxx.inPlace_still_bind (has_next_still strict)]
  have run := has_next_run reader strict
  constructor
  · intro holds known
    rw [if_neg known] at run
    exact holds _ run
  · intro holds value done
    by_cases unknown : strict = true ∧ reader.Unbounded
    · rw [if_pos unknown] at run
      cases run.symm.trans done
    · rw [if_neg unknown] at run
      cases run.symm.trans done
      exact holds unknown

@[simp] theorem in_place_deref_bind {pos : Option Nat} {next : UInt8 → Read β} :
    Cxx.InPlace (deref mem pos >>= next) reader ↔
      ∀ byte, pos.bind (mem[·]?) = some byte → Cxx.InPlace (next byte) reader := by
  rw [Cxx.inPlace_still_bind (deref_still pos)]
  simp only [deref_run]
  cases pos.bind (mem[·]?) with
  | none => exact iff_of_true nofun nofun
  | some byte =>
      constructor
      · rintro holds _ ⟨⟩
        exact holds byte rfl
      · rintro holds _ ⟨⟩
        exact holds byte rfl

theorem in_place_typed {next : UInt8 → Read β} {error : Exn} {holds : MpType → Prop}
    (each : ∀ byte, reader.currentPos.bind (mem[·]?) = some byte →
      (Cxx.InPlace (next byte) reader ↔ holds (mp.mpTypeof byte))) :
    Cxx.InPlace (do
      if reader.currentPos.isNone then Cxx.throw error
      let byte ← deref mem reader.currentPos
      next byte) reader ↔ TypeAt mp mem reader.currentPos holds := by
  rw [Cxx.inPlace_guard, in_place_deref_bind]
  constructor
  · intro steady byte here
    have known : ¬ reader.currentPos.isNone = true := by
      intro none
      rw [Option.isNone_iff_eq_none.mp none] at here
      cases here
    exact (each byte here).mp (steady known byte here)
  · intro steady _ byte here
    exact (each byte here).mpr (steady byte here)

end Rules

section Taken
variable {mp : Msgpuck} {mem : Bytes} {realText : RealText} {α σ : Type} {reader : MpReader}
  {next : MpReader → Prop}

theorem integral_takes (type : IntType) (pos : Option Nat) :
    Cxx.Delivers (integralAt mp mem type pos) reader (fun _ => next) ↔
      TakesIntegral mp mem type pos (next reader) := by
  apply delivers_typed
  intro byte
  cases mp.mpTypeof byte with
  | uint => exact Cxx.delivers_require
  | int => exact Cxx.delivers_require
  | ext =>
      simp only [extViaString, extText, Cxx.delivers_bind, Cxx.delivers_ite,
        Cxx.delivers_undefined, Cxx.delivers_pure, implies_true, true_and, not_or, Int.not_lt,
        and_imp]
      apply imp_congr_right
      intro _
      apply imp_congr_right
      intro _
      cases parsed : fromChars type _ <;> simp
  | _ => simp

theorem real_takes (type : RealType) (pos : Option Nat) :
    Cxx.Delivers (realAt mp mem realText type pos) reader (fun _ => next) ↔
      TakesReal mp mem realText type pos (next reader) := by
  apply delivers_typed
  intro byte
  cases mp.mpTypeof byte with
  | float => simp
  | double => exact Cxx.delivers_guard
  | ext =>
      simp only [viaText]
      cases realText (bytesAt mem pos) <;> simp
  | _ => simp

theorem text_takes (flags : Nat) (pos : Option Nat) :
    Cxx.Quiet (textAt mp mem flags pos) reader ↔ TakesText mp mem flags pos := by
  simp only [textAt, TakesText, Cxx.Quiet, Cxx.delivers_guard, Cxx.delivers_pure, and_true,
    Int.not_lt]

theorem error_stack_takes {state : σ} {opened : MpReader → σ → Prop} (pairs head : Nat) :
    Cxx.Delivers (errorStack mp mem pairs head) state opened ↔
      TakesStack mp mem (opened · state) pairs head := by
  induction pairs generalizing head with
  | zero => exact iff_of_false (Cxx.not_delivers_throw _) id
  | succ pairs ih =>
      rw [errorStack, TakesStack]
      by_cases zero : (mp.mpDecodeUint (mem.drop head)).1 % 2 ^ 32 = 0
      · simp only [zero, if_true, Cxx.delivers_pure]
      · simp only [zero, if_false, ih]

theorem mp_array_takes {state : σ} {opened : MpReader → σ → Prop} (beginPos : Option Nat) :
    Cxx.Delivers (mpArray mp mem beginPos) state opened ↔
      MakesArray mp mem beginPos (opened · state) := by
  cases beginPos with
  | none => exact Cxx.delivers_pure _
  | some pos =>
      rw [mpArray, MakesArray]
      apply delivers_typed
      intro byte
      cases mp.mpTypeof byte with
      | array => simp
      | ext =>
          by_cases error : (mp.mpDecodeExtl (mem.drop pos)).1 = mp.mpError <;>
            simp [error, error_stack_takes]
      | _ => simp

theorem mp_map_takes {state : σ} {opened : MpReader → σ → Prop} (beginPos : Option Nat) :
    Cxx.Delivers (mpMap mp mem beginPos) state opened ↔
      MakesMap mp mem beginPos (opened · state) := by
  rw [mpMap, MakesMap]
  apply delivers_typed
  intro byte
  cases mp.mpTypeof byte with
  | map => simp
  | ext =>
      by_cases interval : (mp.mpDecodeExtl (mem.drop (beginPos.getD 0))).1 = mp.mpInterval
      · simp [interval]
      · by_cases error : (mp.mpDecodeExtl (mem.drop (beginPos.getD 0))).1 = mp.mpError
        · have other : mp.mpError ≠ mp.mpInterval := fun same => interval (error.trans same)
          simp [error, other]
        · simp [interval, error]
  | _ => simp

theorem read_array_takes {opened : MpReader → MpReader → Prop} :
    Cxx.Delivers (readArray mp mem) reader opened ↔
      TakesArray mp mem reader (opened · (skipped mp mem reader)) := by
  simp [readArray, mp_array_takes, TakesArray]

theorem read_map_takes {opened : MpReader → MpReader → Prop} :
    Cxx.Delivers (readMap mp mem) reader opened ↔
      TakesMap mp mem reader (opened · (skipped mp mem reader)) := by
  simp [readMap, mp_map_takes, TakesMap]

variable (realText) in
theorem string_view_takes : Cxx.Delivers (readStringView mp mem) reader (fun _ => next) ↔
    Overload.stringView.Takes mp mem realText none reader next := by
  rw [readStringView, Overload.Takes, Cxx.delivers_bind, delivers_has_next]
  cases reader.more with
  | false => simp
  | true =>
      simp only [Bool.false_eq_true, false_and, not_false_eq_true, true_and, Bool.not_true, if_false,
        if_true, Cxx.delivers_bind, Cxx.delivers_get, delivers_deref]
      apply forall_congr'
      intro byte
      apply imp_congr_right
      intro _
      cases mp.mpTypeof byte <;> simp

variable (realText) in
theorem bool_takes : Cxx.Delivers (readBool mp mem) reader (fun _ => next) ↔
    Overload.bool.Takes mp mem realText false reader next := by
  rw [readBool, Overload.Takes, Cxx.delivers_bind, Cxx.delivers_get, Cxx.delivers_guard,
    Bool.not_eq_true, Option.isNone_eq_false_iff]
  apply and_congr_right
  intro _
  apply delivers_typed
  intro byte
  by_cases bool : mp.mpTypeof byte = .bool <;> simp [bool]

variable (realText) in
theorem string_takes (prior : Bytes) : Cxx.Delivers (readString mp mem prior) reader (fun _ => next) ↔
    Overload.string.Takes mp mem realText prior reader next := by
  rw [readString, Overload.Takes, Cxx.delivers_bind, Cxx.delivers_get, Cxx.delivers_guard,
    Bool.not_eq_true, Option.isNone_eq_false_iff, Cxx.delivers_bind, delivers_deref]
  apply and_congr_right
  intro _
  apply forall_congr'
  intro byte
  apply imp_congr_right
  intro here
  by_cases ext : mp.mpTypeof byte = .ext
  · simp only [ext, if_true, printInto]
    split <;> split <;> rw [Cxx.delivers_guard, Nat.not_le] <;> simp
  · simp only [ext, if_false]
    rw [Cxx.delivers_bind, readStringView, Cxx.delivers_bind, delivers_has_next]
    cases reader.more with
    | false => simp
    | true => cases type : mp.mpTypeof byte <;> simp_all

theorem datetime_takes : Cxx.Delivers (readDatetime mp mem (reader.currentPos.getD 0)) reader
      (fun _ => next) ↔ TakesDatetime mp mem reader (next (skipped mp mem reader)) := by
  rcases decoded : mp.mpDecodeExtl (mem.drop (reader.currentPos.getD 0)) with ⟨type, length, payload⟩
  simp only [readDatetime, TakesDatetime, decoded]
  rw [Cxx.delivers_guard, Cxx.delivers_guard, not_not, not_and_or, not_not, not_not]
  apply and_congr_right
  intro _
  apply and_congr_right
  rintro (rfl | rfl)
  · simp
  · have wide : ¬ 16 = 8 := by decide
    simp only [wide, if_false, Cxx.delivers_bind, delivers_copy_from, delivers_skip,
      Cxx.delivers_pure]
    constructor
    · intro holds within
      exact holds (by omega) (by omega)
    · intro holds _ within
      exact holds (by omega)

variable (realText) in
theorem time_point_takes : Cxx.Delivers (readTimePoint mp mem) reader (fun _ => next) ↔
    Overload.timePoint.Takes mp mem realText (.count IntType.int64.zero) reader next := by
  rw [readTimePoint, Overload.Takes, Cxx.delivers_bind, Cxx.delivers_get, Cxx.delivers_guard,
    Bool.not_eq_true, Option.isNone_eq_false_iff, Cxx.delivers_bind, delivers_deref]
  apply and_congr_right
  intro _
  apply forall_congr'
  intro byte
  apply imp_congr_right
  intro here
  cases type : mp.mpTypeof byte with
  | uint | int => simp [read_integral_parts, integral_takes]
  | float | double => simp [readFloating, here, type]
  | ext => exact datetime_takes
  | _ => simp

theorem span_takes {maxN : Nat} (left ind : Nat) (room : left + ind ≤ maxN) (dst : MpSpan maxN) :
    Cxx.Delivers (spanLoop mp mem left ind dst) reader (fun _ => next) ↔
      TakesSpan mp mem next left reader := by
  induction left generalizing ind dst reader with
  | zero => exact Cxx.delivers_pure _
  | succ left ih =>
      have inside : ind < maxN := by omega
      rw [spanLoop, dif_pos inside, TakesSpan, Cxx.delivers_bind, delivers_has_next]
      cases reader.more with
      | false => simp
      | true => simp [ih (ind + 1) (by omega)]

theorem each_takes {get : α → Read α} {takes : α → MpReader → (MpReader → Prop) → Prop}
    (element : ∀ prior reader next,
      Cxx.Delivers (get prior) reader (fun _ => next) ↔ takes prior reader next)
    (priors : List α) : Cxx.Delivers (getEach get priors) reader (fun _ => next) ↔
      TakesEach takes next priors reader := by
  induction priors generalizing reader with
  | nil => exact Cxx.delivers_pure _
  | cons prior rest ih => simp [getEach, TakesEach, ih, element]

theorem entries_take {Key Value : Type} [Ord Key] [Std.TransOrd Key] {getKey : Read Key}
    {getValue : Read Value} {takesKey takesValue : MpReader → (MpReader → Prop) → Prop}
    (key : ∀ reader next, Cxx.Delivers getKey reader (fun _ => next) ↔ takesKey reader next)
    (value : ∀ reader next, Cxx.Delivers getValue reader (fun _ => next) ↔ takesValue reader next)
    (pairs : Nat) (map : StdMap Key Value) :
    Cxx.Delivers (getEntries getKey getValue pairs map) reader (fun _ => next) ↔
      TakesEntries takesKey takesValue next pairs reader := by
  induction pairs generalizing reader map with
  | zero => exact Cxx.delivers_pure _
  | succ pairs ih => simp [getEntries, TakesEntries, ih, key, value]

theorem optional_takes {get : α → Read α} {fresh : α} {takes : (MpReader → Prop) → Prop}
    (element : ∀ next, Cxx.Delivers (get fresh) reader (fun _ => next) ↔ takes next) :
    Cxx.Delivers (getOptional mp mem get fresh) reader (fun _ => next) ↔ ¬ reader.Unbounded ∧
      if reader.more = true then TypeAt mp mem reader.currentPos fun type =>
        if type = .nil then CanSkip mp mem reader ∧ next (skipped mp mem reader) else takes next
      else next reader := by
  rw [getOptional, Cxx.delivers_bind, delivers_has_next]
  apply and_congr (by simp)
  cases reader.more with
  | false => simp
  | true =>
      simp only [Bool.not_true, Bool.false_eq_true, if_false, if_true, Cxx.delivers_bind,
        Cxx.delivers_get, delivers_deref]
      apply forall_congr'
      intro byte
      apply imp_congr_right
      intro _
      by_cases nil : mp.mpTypeof byte = .nil <;> simp [nil, element]

mutual
theorem get_takes {α : Type} : (dst : Overload α) → (prior : α) → (reader : MpReader) →
    (next : MpReader → Prop) →
    (Cxx.Delivers (dst.get mp mem realText prior) reader (fun _ => next) ↔
      dst.Takes mp mem realText prior reader next)
  | .bool, _, _, _ => bool_takes realText
  | .int type, _, reader, next => by
      simp [Overload.get, Overload.Takes, read_integral_parts, integral_takes]
  | .real type, _, reader, next => by
      simp [Overload.get, Overload.Takes, read_real_parts, real_takes]
  | .string, prior, _, _ => string_takes realText prior
  | .stringView, _, _, _ => string_view_takes realText
  | .timePoint, _, _, _ => time_point_takes realText
  | .span maxN, prior, reader, next => by
      simp [Overload.get, Overload.Takes, readSpan, span_takes maxN 0 (Nat.le_refl maxN)]
  | .array, _, _, _ => read_array_takes
  | .map, _, _, _ => read_map_takes
  | .optional elem, _, reader, _ => optional_takes (get_takes elem elem.fresh reader)
  | .vector elem, prior, reader, next => by
      simp [Overload.get, Overload.Takes, getVector, read_array_takes, each_takes (get_takes elem)]
  | .tuple elems, prior, reader, next => by
      simp [Overload.get, Overload.Takes, getTuple, read_array_takes, get_all_takes elems]
  | @Overload.stdMap _ _ _ _ _ key value, prior, reader, next => by
      simp [Overload.get, Overload.Takes, getMap, read_map_takes,
        entries_take (get_takes key key.fresh) (get_takes value value.fresh)]

theorem get_all_takes {α : Type} : (elems : Fields α) → (prior : α) → (reader : MpReader) →
    (next : MpReader → Prop) →
    (Cxx.Delivers (elems.getAll mp mem realText prior) reader (fun _ => next) ↔
      elems.AllTake mp mem realText prior reader next)
  | .nil, _, _, _ => Cxx.delivers_pure _
  | .cons first rest, prior, reader, next => by
      simp [Fields.getAll, Fields.AllTake, get_takes first, get_all_takes rest]
end

end Taken

section Steadiness
variable {mp : Msgpuck} {mem : Bytes} {realText : RealText} {α : Type} {reader : MpReader}

theorem bool_steady : Cxx.InPlace (readBool mp mem) reader := by
  simp only [readBool, Cxx.inPlace_get_bind, Cxx.inPlace_guard, in_place_deref_bind]
  intro _ byte _ _
  rw [in_place_skip_bind fun _ => Cxx.still_pure _]
  exact fun _ => trivial

theorem skip_type_steady (type : MpType) (nullable : Bool) :
    Cxx.InPlace (skipType mp mem type nullable) reader := by
  simp only [skipType, Cxx.inPlace_get_bind, Cxx.inPlace_guard, in_place_deref_bind, in_place_skip,
    implies_true]

theorem string_view_steady : Cxx.InPlace (readStringView mp mem) reader := by
  rw [readStringView, in_place_has_next_bind]
  intro _
  cases reader.more with
  | false => simp
  | true =>
      simp only [Bool.not_true, Bool.false_eq_true, if_false, Cxx.inPlace_get_bind,
        in_place_deref_bind]
      intro byte _
      cases mp.mpTypeof byte <;> simp

theorem read_array_steady : Cxx.InPlace (readArray mp mem) reader := by
  rw [readArray, Cxx.inPlace_get_bind, Cxx.inPlace_still_bind (mp_array_still _)]
  intro array _
  rw [in_place_skip_bind fun _ => Cxx.still_bind Cxx.still_get fun _ => Cxx.still_pure _]
  exact fun _ => trivial

theorem read_map_steady : Cxx.InPlace (readMap mp mem) reader := by
  rw [readMap, Cxx.inPlace_get_bind, Cxx.inPlace_still_bind (mp_map_still _)]
  intro map _
  rw [in_place_skip_bind fun _ => Cxx.still_bind Cxx.still_get fun _ => Cxx.still_pure _]
  exact fun _ => trivial

theorem integral_steady (type : IntType) : Cxx.InPlace (readIntegral mp mem type) reader ↔
    (CanSkip mp mem reader → TakesIntegral mp mem type reader.currentPos True) := by
  rw [read_integral_parts, Cxx.inPlace_get_bind, in_place_skip_bind fun _ => integral_at_still _ _]
  exact imp_congr_right fun _ => @integral_takes mp mem (skipped mp mem reader) (fun _ => True) type _

theorem real_steady (type : RealType) : Cxx.InPlace (readReal mp mem (viaText realText) type) reader ↔
    (CanSkip mp mem reader → TakesReal mp mem realText type reader.currentPos True) := by
  rw [read_real_parts, Cxx.inPlace_get_bind, in_place_skip_bind fun _ => real_at_still _ _]
  exact imp_congr_right fun _ =>
    @real_takes mp mem realText (skipped mp mem reader) (fun _ => True) type _

theorem text_steady (flags : Nat) : Cxx.InPlace (toString mp mem flags) reader ↔
    (CanSkip mp mem reader → TakesText mp mem flags reader.currentPos) := by
  rw [to_string_parts, Cxx.inPlace_get_bind, in_place_skip_bind fun _ => text_at_still _ _]
  exact imp_congr_right fun _ => text_takes flags _

theorem string_steady (prior : Bytes) : Cxx.InPlace (readString mp mem prior) reader ↔
    Overload.string.Steady mp mem realText prior reader := by
  apply in_place_typed
  intro byte here
  by_cases ext : mp.mpTypeof byte = .ext
  · refine iff_of_true ?_ fun nil => by cases ext.symm.trans nil
    rw [if_pos ext]
    dsimp only
    rw [Cxx.inPlace_guard]
    simp
  · rw [if_neg ext, readStringView, bind_assoc, in_place_has_next_bind]
    cases more : reader.more with
    | false => simp
    | true =>
        cases type : mp.mpTypeof byte with
        | nil =>
            -- the view skips a nil, and only then there is no string to assign
            have refused := @in_place_skip_bind mp mem Bytes reader _ fun _ =>
              Cxx.still_throw (mpReaderError "string expected, got no data")
            simp [here, type, refused]
        | _ => simp_all

theorem datetime_steady (pos : Nat) : Cxx.InPlace (readDatetime mp mem pos) reader := by
  rcases decoded : mp.mpDecodeExtl (mem.drop pos) with ⟨type, length, payload⟩
  simp only [readDatetime, decoded]
  rw [Cxx.inPlace_guard, Cxx.inPlace_guard]
  intro _ _
  rw [Cxx.inPlace_still_bind (copy_from_still _ _)]
  intro epoch _
  rw [Cxx.inPlace_ite]
  constructor
  · intro _
    simp
  · intro _
    rw [Cxx.inPlace_still_bind (copy_from_still _ _)]
    simp

theorem floating_steady {byte : UInt8} (here : reader.currentPos.bind (mem[·]?) = some byte)
    (typed : mp.mpTypeof byte = .float ∨ mp.mpTypeof byte = .double) :
    Cxx.InPlace (readFloating mp mem) reader := by
  rw [← read_real_double]
  have steady := @real_steady mp mem noText reader .double
  apply steady.mpr
  intro _ same found
  cases here.symm.trans found
  rcases typed with single | double
  · simp [single]
  · simp [double]

variable (realText) in
theorem time_point_steady : Cxx.InPlace (readTimePoint mp mem) reader ↔
    Overload.timePoint.Steady mp mem realText (.count IntType.int64.zero) reader := by
  apply in_place_typed
  intro byte here
  cases type : mp.mpTypeof byte with
  | uint | int => simp [integral_steady]
  | float | double => simp [floating_steady here, type]
  | ext => exact iff_of_true (datetime_steady _) nofun
  | _ => simp

/-! A failing `skip` stands where there is nothing to skip -/

theorem skip_leaves : Cxx.LeavesIn (fun left => ¬ CanSkip mp mem left) (skip mp mem) := by
  intro reader error left done can
  rw [skip_thrown done] at can
  cases done.symm.trans (skip_skipped can)

theorem has_next_leaves : Cxx.LeavesIn (fun left => ¬ CanSkip mp mem left) (hasNext false) := by
  intro reader error left done
  rw [has_next_run, if_neg (by simp)] at done
  cases done

theorem skips_leave (count : Nat) :
    Cxx.LeavesIn (fun left => ¬ CanSkip mp mem left) (skips mp mem count) := by
  induction count with
  | zero => exact Cxx.leavesIn_pure _
  | succ count ih => exact Cxx.leavesIn_bind skip_leaves fun _ => ih

theorem span_loop_leaves {maxN : Nat} (left ind : Nat) (dst : MpSpan maxN) :
    Cxx.LeavesIn (fun left => ¬ CanSkip mp mem left) (spanLoop mp mem left ind dst) := by
  induction left generalizing ind dst with
  | zero => exact Cxx.leavesIn_pure _
  | succ left ih =>
      rw [spanLoop]
      split
      · apply Cxx.leavesIn_bind has_next_leaves
        intro more
        cases more with
        | false => exact Cxx.leavesIn_pure _
        | true =>
            apply Cxx.leavesIn_bind skip_leaves
            intro _
            exact Cxx.leavesIn_bind Cxx.leavesIn_get fun reader => ih _ _
      · exact Cxx.leavesIn_pure _

/-- Where there was something to skip, a read that fails at a `skip` has moved. -/
theorem in_place_skips {body : Read α} {rest : Prop}
    (leaves : Cxx.LeavesIn (fun left => ¬ CanSkip mp mem left) body)
    (first : ¬ CanSkip mp mem reader → Cxx.InPlace body reader)
    (later : CanSkip mp mem reader → (Cxx.Quiet body reader ↔ rest)) :
    Cxx.InPlace body reader ↔ (CanSkip mp mem reader → rest) := by
  constructor
  · intro steady can
    apply (later can).mp
    cases done : body reader with
    | returned value after => exact (Cxx.delivers_returned done).mpr trivial
    | undefined => exact Cxx.delivers_nothing done
    | thrown error left =>
        -- where it stands nothing can be skipped, and at the beginning something could
        have same := steady error left done
        exact absurd (same ▸ can) (leaves reader error left done)
  · intro holds
    by_cases can : CanSkip mp mem reader
    · exact Cxx.Quiet.inPlace ((later can).mpr (holds can))
    · exact first can

theorem skips_take (count : Nat) : Cxx.Quiet (skips mp mem count) reader ↔
    TakesItems mp mem count reader := by
  induction count generalizing reader with
  | zero => exact Cxx.delivers_pure _
  | succ count ih => simp [skips, TakesItems, ← ih, Cxx.Quiet]

theorem in_place_skip_stuck {next : Unit → Read α} (cannot : ¬ CanSkip mp mem reader) :
    Cxx.InPlace (skip mp mem >>= next) reader := by
  rw [Cxx.inPlace_bind]
  refine ⟨in_place_skip, ?_⟩
  intro value middle done
  exact absurd (can_skip_of_returned done) cannot

theorem skips_steady (count : Nat) : Cxx.InPlace (skips mp mem count) reader ↔
    (CanSkip mp mem reader → TakesItems mp mem (count - 1) (skipped mp mem reader)) := by
  apply in_place_skips (skips_leave count)
  · intro cannot
    cases count with
    | zero => exact Cxx.inPlace_pure _
    | succ count => exact in_place_skip_stuck cannot
  · intro can
    rw [skips_take]
    cases count with
    | zero => exact Iff.rfl
    | succ count => exact and_iff_right can

theorem span_loop_stuck {maxN : Nat} (cannot : ¬ CanSkip mp mem reader) (left ind : Nat)
    (dst : MpSpan maxN) : Cxx.InPlace (spanLoop mp mem left ind dst) reader := by
  cases left with
  | zero => exact Cxx.inPlace_pure _
  | succ left =>
      rw [spanLoop]
      split
      · rw [in_place_has_next_bind]
        intro _
        cases reader.more with
        | false => exact Cxx.inPlace_pure _
        | true => exact in_place_skip_stuck cannot
      · exact Cxx.inPlace_pure _

theorem span_steady {maxN : Nat} (prior : MpSpan maxN) : Cxx.InPlace (readSpan mp mem prior) reader ↔
    (Overload.span maxN).Steady mp mem realText prior reader := by
  apply in_place_skips
  · refine Cxx.leavesIn_bind Cxx.leavesIn_get fun reader => ?_
    refine Cxx.leavesIn_bind (span_loop_leaves _ _ _) fun read => ?_
    exact Cxx.leavesIn_bind Cxx.leavesIn_get fun reader => Cxx.leavesIn_pure _
  · intro cannot
    rw [readSpan, Cxx.inPlace_get_bind, Cxx.inPlace_bind]
    exact ⟨span_loop_stuck cannot _ _ _, fun _ _ _ => nofun⟩
  · intro can
    have taken := @get_takes mp mem realText _ (.span maxN) prior reader fun _ => True
    refine taken.trans ?_
    cases maxN with
    | zero => exact iff_of_true trivial fun _ => trivial
    | succ maxN => cases more : reader.more <;> simp [Overload.Takes, TakesSpan, more, can]

theorem unless_nil_steady {β : Type} {absent : β} {present : Read β} :
    Cxx.InPlace (do
      if !(← hasNext true) then return absent
      let reader ← Cxx.get
      if mp.mpTypeof (← deref mem reader.currentPos) = .nil then
        skip mp mem
        return absent
      else present) reader ↔ (¬ reader.Unbounded → reader.more = true →
        TypeAt mp mem reader.currentPos fun type => type ≠ .nil → Cxx.InPlace present reader) := by
  rw [in_place_has_next_bind]
  simp only [true_and]
  apply imp_congr_right
  intro _
  cases reader.more with
  | false => simp
  | true =>
      simp only [Bool.not_true, Bool.false_eq_true, if_false, Cxx.inPlace_get_bind,
        in_place_deref_bind, true_implies]
      apply forall_congr'
      intro byte
      apply imp_congr_right
      intro _
      by_cases nil : mp.mpTypeof byte = .nil <;> simp [nil]

theorem optional_steady {get : α → Read α} {fresh : α} {steady : Prop}
    (element : Cxx.InPlace (get fresh) reader ↔ steady) :
    Cxx.InPlace (getOptional mp mem get fresh) reader ↔ (¬ reader.Unbounded → reader.more = true →
      TypeAt mp mem reader.currentPos fun type => type ≠ .nil → steady) := by
  have wrapped : Cxx.InPlace (do return some (← get fresh)) reader ↔ steady :=
    Cxx.inPlace_map.trans element
  rw [getOptional, unless_nil_steady, wrapped]

theorem nested_steady {opened : Read MpReader} {β : Type} {body : MpReader → Read β}
    (steady : Cxx.InPlace opened reader)
    (moved : Cxx.Quiet opened reader → Cxx.Delivers opened reader fun _ after => after ≠ reader) :
    Cxx.InPlace (do
      let nested ← opened
      let result ← Cxx.onObject (body nested) nested
      return result.1) reader ↔ (Cxx.Quiet opened reader → Cxx.Quiet (do
      let nested ← opened
      let result ← Cxx.onObject (body nested) nested
      return result.1) reader) := by
  apply Cxx.inPlace_moved_bind steady
  · intro value middle done
    exact (Cxx.delivers_returned done).mp (moved ((Cxx.delivers_returned done).mpr trivial))
  · intro nested
    exact Cxx.still_bind Cxx.still_onObject fun _ => Cxx.still_pure _

theorem skipped_ne : skipped mp mem reader ≠ reader :=
  fun same => skipped_moves (congrArg MpReader.currentInd same)

theorem array_moved (quiet : Cxx.Quiet (readArray mp mem) reader) :
    Cxx.Delivers (readArray mp mem) reader fun _ after => after ≠ reader := by
  rw [Cxx.Quiet, read_array_takes] at quiet
  rw [read_array_takes]
  simpa only [skipped_ne, ne_eq, not_false_eq_true] using quiet

theorem map_moved (quiet : Cxx.Quiet (readMap mp mem) reader) :
    Cxx.Delivers (readMap mp mem) reader fun _ after => after ≠ reader := by
  rw [Cxx.Quiet, read_map_takes] at quiet
  rw [read_map_takes]
  simpa only [skipped_ne, ne_eq, not_false_eq_true] using quiet

theorem get_steady {α : Type} : (dst : Overload α) → (prior : α) →
    (Cxx.InPlace (dst.get mp mem realText prior) reader ↔ dst.Steady mp mem realText prior reader)
  | .bool, _ => iff_of_true bool_steady trivial
  | .int type, _ => integral_steady type
  | .real type, _ => real_steady type
  | .string, prior => string_steady prior
  | .stringView, _ => iff_of_true string_view_steady trivial
  | .timePoint, _ => time_point_steady realText
  | .span maxN, prior => span_steady prior
  | .array, _ => iff_of_true read_array_steady trivial
  | .map, _ => iff_of_true read_map_steady trivial
  | .optional elem, _ => optional_steady (get_steady elem elem.fresh)
  | .vector elem, prior => (nested_steady read_array_steady array_moved).trans
      (imp_congr read_array_takes (get_takes (.vector elem) prior reader fun _ => True))
  | .tuple elems, prior => (nested_steady read_array_steady array_moved).trans
      (imp_congr read_array_takes (get_takes (.tuple elems) prior reader fun _ => True))
  | @Overload.stdMap _ _ _ _ _ key value, prior => (nested_steady read_map_steady map_moved).trans
      (imp_congr read_map_takes (get_takes (.stdMap key value) prior reader fun _ => True))

theorem get_or_steady (dst : Overload α) (prior default : α) :
    Cxx.InPlace (getOr mp mem realText dst prior default) reader ↔
      (CursorOp.getOr dst prior default).Steady mp mem realText reader := by
  rw [getOr, CursorOp.Steady, unless_nil_steady, get_steady]

theorem packet_steady {pos last size count : Nat} (current : reader.currentPos = some pos)
    {next : PUnit → Read MpReader} (quiet : ∀ state, Cxx.Quiet (next ⟨⟩) state) : Cxx.InPlace (do
      Cxx.put { reader with currentPos := some (pos + count) }
      if last - (pos + count) < size then
        Cxx.throw (mpReaderError "partial iproto packet") >>= next
      else next ⟨⟩) reader ↔ count = 0 ∨ size ≤ last - (pos + count) := by
  unfold Cxx.InPlace
  rw [Cxx.bind_put, ← Nat.not_lt]
  by_cases lacks : last - (pos + count) < size
  · rw [if_pos lacks, Cxx.bind_throw]
    constructor
    · intro steady
      have same := congrArg MpReader.currentPos (steady _ _ rfl)
      rw [current, Option.some.injEq] at same
      omega
    · rintro (rfl | whole) error left ⟨⟩
      · rw [Nat.add_zero, ← current]
      · exact absurd lacks whole
  · rw [if_neg lacks]
    exact iff_of_true (fun _ _ done => absurd (quiet _) (Cxx.not_delivers_thrown done)) (.inr lacks)

theorem iproto_steady : Cxx.InPlace (iprotoMessage mp mem) reader ↔ WholePacket mp mem reader := by
  rw [iprotoMessage, Cxx.inPlace_get_bind, WholePacket]
  cases current : reader.currentPos with
  | none => exact iff_of_true (Cxx.inPlace_pure _) trivial
  | some pos =>
      cases ends : reader.endPos with
      | none => exact iff_of_true (Cxx.inPlace_pure _) trivial
      | some last =>
          rcases decoded : mp.mpDecodeUint (mem.drop pos) with ⟨size, count⟩
          simp only [decoded]
          rw [Cxx.inPlace_ite, Int.not_lt, and_iff_right fun _ => Cxx.inPlace_pure _,
            in_place_deref_bind]
          -- the other refusals come before the cursor is put behind the length
          have packet := @packet_steady reader pos last size count current
          rw [ends] at packet
          apply imp_congr_right
          intro _
          constructor
          · intro steady marked
            have rest := steady 0xce marked
            rw [Cxx.inPlace_guard] at rest
            refine (packet ?_).mp (rest (by decide))
            exact fun _ => trivial
          · intro whole byte here
            rw [Cxx.inPlace_guard]
            intro marker
            refine (packet ?_).mpr (whole (not_not.mp marker ▸ here))
            exact fun _ => trivial

theorem in_place_discard {body : Read α} :
    Cxx.InPlace (discard body) reader ↔ Cxx.InPlace body reader := Cxx.inPlace_map

theorem exec_steady (op : CursorOp) :
    Cxx.InPlace (op.exec mp mem realText) reader ↔ op.Steady mp mem realText reader := by
  cases op with
  | skip => exact iff_of_true in_place_skip trivial
  | skipType type nullable => exact iff_of_true (skip_type_steady type nullable) trivial
  | none count => exact skips_steady count
  | isNull => exact iff_of_true (in_place_discard.mpr is_null_still.inPlace) trivial
  | hasNext strict => exact iff_of_true (in_place_discard.mpr (has_next_still strict).inPlace) trivial
  | get dst prior => exact in_place_discard.trans (get_steady dst prior)
  | getOr dst prior default => exact in_place_discard.trans (get_or_steady dst prior default)
  | text flags => exact in_place_discard.trans (text_steady flags)
  | index ind => exact iff_of_true (in_place_discard.mpr (index_still ind).inPlace) trivial
  | value key => exact iff_of_true (in_place_discard.mpr (value_at_still key).inPlace) trivial
  | equals key => exact iff_of_true (in_place_discard.mpr (equals_still key).inPlace) trivial
  | iprotoMessage => exact in_place_discard.trans iproto_steady
  | rewind => exact iff_of_true nofun trivial

def SameContent (reader left : MpReader) : Prop :=
  left.shape = reader.shape ∧ left.beginPos = reader.beginPos ∧ left.endPos = reader.endPos

theorem skip_content : Cxx.Preserves (SameContent reader) (skip mp mem) := by
  intro state same
  by_cases can : CanSkip mp mem state
  · rw [skip_skipped can]
    exact same
  · obtain ⟨error, refused⟩ := skip_refused can
    rw [refused]
    exact same

theorem iproto_content : Cxx.Preserves (SameContent reader) (iprotoMessage mp mem) := by
  apply Cxx.preserves_get_bind
  intro state same
  cases state.currentPos with
  | none => exact Cxx.preserves_pure _
  | some pos =>
      cases ends : state.endPos with
      | none => exact Cxx.preserves_pure _
      | some last =>
          have moved : ∀ current, SameContent reader { state with currentPos := current } :=
            fun _ => same
          rw [ends] at moved
          apply Cxx.preserves_ite
          · exact fun _ => Cxx.preserves_pure _
          · intro _
            apply Cxx.preserves_bind (deref_still _).preserves
            intro byte
            apply Cxx.preserves_guard
            intro _
            apply Cxx.preserves_bind (Cxx.preserves_put (moved _))
            intro _
            apply Cxx.preserves_guard
            intro _
            exact Cxx.preserves_bind (Cxx.preserves_put (moved _)) fun _ => Cxx.preserves_pure _

theorem exec_content (op : CursorOp) :
    Cxx.Preserves (SameContent reader) (op.exec mp mem realText) := by
  by_cases message : op = .iprotoMessage
  · rw [message]
    exact preserves_discard iproto_content
  · by_cases again : op = .rewind
    · rw [again]
      exact Cxx.preserves_get_bind fun state same => Cxx.preserves_put same
    · exact exec_preserves skip_content op message again

theorem in_place_iff (op : CursorOp) : Cxx.InPlace (op.exec mp mem realText) reader ↔
    ∀ error left, op.exec mp mem realText reader = .thrown error left →
      left.currentPos = reader.currentPos ∧ left.currentInd = reader.currentInd := by
  constructor
  · intro steady error left done
    rw [steady error left done]
    exact ⟨rfl, rfl⟩
  · intro holds error left done
    obtain ⟨pos, ind⟩ := holds error left done
    obtain ⟨shape, first, last⟩ := (exec_content op).thrown ⟨rfl, rfl, rfl⟩ done
    cases left
    cases reader
    cases shape
    cases first
    cases last
    cases pos
    cases ind
    rfl

end Steadiness

/-- What an operation throws leaves the cursor where it was exactly if nothing is refused
behind a `skip`. -/
theorem failed_read_stays_iff (mp : Msgpuck) (mem : Bytes) (realText : RealText) (op : CursorOp)
    (reader : MpReader) : (∀ error left, op.exec mp mem realText reader = .thrown error left →
      left.currentPos = reader.currentPos ∧ left.currentInd = reader.currentInd) ↔
        op.Steady mp mem realText reader :=
  (in_place_iff op).symm.trans (exec_steady op)

/-- A string read as an integer is refused behind it. -/
theorem refused_item_consumed : ¬ ∀ error left,
    (CursorOp.get (.int .int32) IntType.int32.zero).exec reference [0xa1, 0x61] noText
      (MpReader.plain 0 2) = .thrown error left → left.currentPos = some 0 ∧ left.currentInd = 0 := by
  intro stays
  have moved := (stays _ _ rfl).2
  cases moved

end Cpp2tnt
