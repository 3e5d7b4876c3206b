import Cpp2tnt.NumericReads
import Cpp2tnt.ReaderContent

/-!
Everything a program can do to one reader. `Overload` is the overload set of
`operator>>`, indexed by the type of the destination; a container's overload is a
function of the overloads of its elements. All operations but two move the cursor
only through `skip`: `iproto_message` steps over a packet, `rewind` starts again.
-/

namespace Cpp2tnt
open Imperative MessagePack

mutual
inductive Overload : Type → Type 1
  | bool : Overload Bool
  | int (type : IntType) : Overload type.Val
  | real (type : RealType) : Overload Floating
  | string : Overload Bytes
  | stringView : Overload (Option Bytes)
  | timePoint : Overload TimeSource
  | span (maxN : Nat) : Overload (MpSpan maxN)
  | array : Overload MpReader
  | map : Overload MpReader
  | optional {α : Type} (elem : Overload α) : Overload (Option α)
  | vector {α : Type} (elem : Overload α) : Overload (List α)
  | tuple {α : Type} (elems : Fields α) : Overload α
  | stdMap {Key Value : Type} [Ord Key] [Std.TransOrd Key] [Std.LawfulEqOrd Key]
      (key : Overload Key) (value : Overload Value) : Overload (StdMap Key Value)

inductive Fields : Type → Type 1
  | nil : Fields Unit
  | cons {α β : Type} (first : Overload α) (rest : Fields β) : Fields (α × β)
end

mutual
def Overload.fresh {α : Type} : Overload α → α
  | .bool => false
  | .int type => type.zero
  | .real _ => .double 0
  | .string => []
  | .stringView => none
  | .timePoint => .count IntType.int64.zero
  | .span _ => MpSpan.fresh
  | .array => MpReader.null (.array 0)
  | .map => MpReader.null (.map 0)
  | .optional _ => none
  | .vector _ => []
  | .tuple elems => elems.fresh
  | @Overload.stdMap _ _ _ _ _ _ _ => StdMap.empty

def Fields.fresh {α : Type} : Fields α → α
  | .nil => ()
  | .cons first rest => (first.fresh, rest.fresh)
end

/-- What `snprint` and `from_chars` make of an extension for a floating point number. -/
abbrev RealText := Bytes → Except Exn Floating

def noText : RealText := fun _ => .error (mpReaderError "float expected, got ext")

def viaText (realText : RealText) (data : Bytes) : Read Floating :=
  match realText data with
  | .ok value => pure value
  | .error error => Cxx.throw error

section Reading
variable (mp : Msgpuck) (mem : Bytes) (realText : RealText) {α : Type}

def getTuple (getAll : α → Read α) (prior : α) : Read α := do
  let arr ← readArray mp mem
  let result ← Cxx.onObject (getAll prior) arr
  return result.1

mutual
/-- `operator>>`, with the destination's prior content. -/
def Overload.get {α : Type} : Overload α → α → Read α
  | .bool, _ => readBool mp mem
  | .int type, _ => readIntegral mp mem type
  | .real type, _ => readReal mp mem (viaText realText) type
  | .string, prior => readString mp mem prior
  | .stringView, _ => readStringView mp mem
  | .timePoint, _ => readTimePoint mp mem
  | .span _, dst => readSpan mp mem dst
  | .array, _ => readArray mp mem
  | .map, _ => readMap mp mem
  | .optional elem, _ => getOptional mp mem elem.get elem.fresh
  | .vector elem, prior => getVector mp mem elem.get elem.fresh prior
  | .tuple elems, prior => getTuple mp mem elems.getAll prior
  | @Overload.stdMap _ _ _ _ _ key value, prior =>
      getMap mp mem (key.get key.fresh) (value.get value.fresh) prior

def Fields.getAll {α : Type} : Fields α → α → Read α
  | .nil, _ => return ()
  | .cons first rest, prior => do
      let value ← first.get prior.1
      let values ← rest.getAll prior.2
      return (value, values)
end

/-- `operator>>(mp_optional<T> &&)`, and `read_or` with a fresh destination. -/
def getOr (elem : Overload α) (dst default : α) : Read α := do
  if !(← hasNext true) then return default
  let reader ← Cxx.get
  if mp.mpTypeof (← deref mem reader.currentPos) = .nil then
    skip mp mem
    return default
  else elem.get mp mem realText dst

end Reading

theorem StdMap.lawful {Key Value : Type} [Ord Key] [Ord Value] [Std.LawfulEqOrd Key]
    [Std.LawfulEqOrd Value] : Std.LawfulEqOrd (StdMap Key Value) :=
  let _ : Ord (Key × Value) := lexOrd
  have pairs : Std.LawfulEqCmp (compareLex (compareOn (Prod.fst : Key × Value → Key))
      (compareOn Prod.snd)) := inferInstanceAs (Std.LawfulEqOrd (Key × Value))
  have entries : Std.LawfulEqCmp (StdMap.cmpEntries : List (Key × Value) → _ → _) :=
    inferInstanceAs (Std.LawfulEqCmp (List.compareLex _))
  { compare_self := entries.compare_self
    eq_of_compare := by
      intro left right same
      have equal := entries.eq_of_compare same
      cases left
      cases right
      cases equal
      rfl }

mutual
theorem Ty.lawful : (type : Ty) → Std.LawfulEqOrd type.Val
  | .bool => inferInstanceAs (Std.LawfulEqOrd Bool)
  | .int _ =>
      { compare_self := fun {value} => Std.ReflOrd.compare_self (a := value.1)
        eq_of_compare := fun same => Subtype.ext (Std.LawfulEqOrd.eq_of_compare same) }
  | .string => inferInstanceAs (Std.LawfulEqOrd (List UInt8))
  | .optional elem =>
      have := elem.lawful
      inferInstanceAs (Std.LawfulEqOrd (Option elem.Val))
  | .vector elem =>
      have := elem.lawful
      inferInstanceAs (Std.LawfulEqOrd (List elem.Val))
  | .tuple elems => Ty.lawfulAll elems
  | .map key value =>
      have := key.lawful
      have := value.lawful
      StdMap.lawful

theorem Ty.lawfulAll : (types : List Ty) → Std.LawfulEqOrd (Ty.Vals types)
  | [] => { compare_self := rfl, eq_of_compare := fun _ => rfl }
  | type :: types =>
      have := type.lawful
      have := Ty.lawfulAll types
      let _ : Ord (type.Val × Ty.Vals types) := lexOrd
      inferInstanceAs (Std.LawfulEqOrd (type.Val × Ty.Vals types))
end

instance Ty.transitive (type : Ty) : Std.TransOrd type.Val := type.comparable.trans

mutual
def Ty.overload : (type : Ty) → Overload type.Val
  | .bool => .bool
  | .int type => .int type
  | .string => .string
  | .optional elem => .optional elem.overload
  | .vector elem => .vector elem.overload
  | .tuple elems => .tuple (Ty.fields elems)
  | .map key value =>
      have := key.lawful
      .stdMap key.overload value.overload

def Ty.fields : (types : List Ty) → Fields (Ty.Vals types)
  | [] => .nil
  | type :: types => .cons type.overload (Ty.fields types)
end

mutual
theorem overload_fresh : (type : Ty) → type.overload.fresh = type.fresh
  | .bool | .int _ | .string | .optional _ | .vector _ | .map _ _ => rfl
  | .tuple elems => fields_fresh elems

theorem fields_fresh : (types : List Ty) → (Ty.fields types).fresh = Ty.freshAll types
  | [] => rfl
  | type :: types => Prod.ext (overload_fresh type) (fields_fresh types)
end

mutual
theorem overload_get (mp : Msgpuck) (mem : Bytes) (realText : RealText) :
    (type : Ty) → type.overload.get mp mem realText = type.get mp mem
  | .bool | .int _ | .string => by funext prior; rfl
  | .optional elem => by
      funext prior
      simp only [Ty.overload, Overload.get, Ty.get, overload_get mp mem realText elem,
        overload_fresh]
      rfl
  | .vector elem => by
      funext prior
      simp only [Ty.overload, Overload.get, Ty.get, overload_get mp mem realText elem,
        overload_fresh]
      rfl
  | .tuple elems => by
      funext prior
      change getTuple mp mem ((Ty.fields elems).getAll mp mem realText) prior = _
      rw [fields_get mp mem realText elems]
      rfl
  | .map key value => by
      funext prior
      simp only [Ty.overload, Overload.get, Ty.get, overload_get mp mem realText key,
        overload_get mp mem realText value, overload_fresh]
      rfl

theorem fields_get (mp : Msgpuck) (mem : Bytes) (realText : RealText) :
    (types : List Ty) → (Ty.fields types).getAll mp mem realText = Ty.getAll mp mem types
  | [] => by funext prior; rfl
  | type :: types => by
      funext prior
      simp only [Ty.fields, Fields.getAll, Ty.getAll, overload_get mp mem realText type,
        fields_get mp mem realText types]
      rfl
end

inductive CursorOp where
  | skip
  | skipType (type : MpType) (nullable : Bool)
  | none (count : Nat)
  | isNull
  | hasNext (strict : Bool)
  | get {α : Type} (dst : Overload α) (prior : α)
  | getOr {α : Type} (dst : Overload α) (prior default : α)
  | text (flags : Nat)
  | index (ind : Nat)
  | value (key : Key)
  | equals (key : Key)
  | iprotoMessage
  | rewind

def discard {α : Type} (body : Read α) : Read Unit := do
  let _ ← body

def rewind : Read Unit := do
  Cxx.put (← Cxx.get).rewound

section Execution
variable (mp : Msgpuck) (mem : Bytes) (realText : RealText)

def CursorOp.exec : CursorOp → Read Unit
  | .skip => Cpp2tnt.skip mp mem
  | .skipType type nullable => Cpp2tnt.skipType mp mem type nullable
  | .none count => skips mp mem count
  | .isNull => discard (Cpp2tnt.isNull mp mem)
  | .hasNext strict => discard (Cpp2tnt.hasNext strict)
  | .get dst prior => discard (dst.get mp mem realText prior)
  | .getOr dst prior default => discard (Cpp2tnt.getOr mp mem realText dst prior default)
  | .text flags => discard (toString mp mem flags)
  | .index ind => discard (Cpp2tnt.index mp mem ind)
  | .value key => discard (valueAt mp mem key)
  | .equals key => discard (Cpp2tnt.equals mp mem key)
  | .iprotoMessage => discard (Cpp2tnt.iprotoMessage mp mem)
  | .rewind => Cpp2tnt.rewind

/-- The program catches what an operation throws. -/
def CursorOp.step (op : CursorOp) (reader : MpReader) : Option MpReader :=
  match op.exec mp mem realText reader with
  | .returned _ after | .thrown _ after => some after
  | .undefined => .none

end Execution

section Frames
variable {mp : Msgpuck} {mem : Bytes} {realText : RealText} {σ : Type}

theorem deref_still (pos : Option Nat) : Cxx.Still (deref mem pos : Cxx Exn σ UInt8) := by
  unfold deref
  cases pos.bind (mem[·]?) with
  | none => exact Cxx.still_undefined
  | some byte => exact Cxx.still_pure byte

theorem has_next_still (strict : Bool) : Cxx.Still (hasNext strict) := by
  apply Cxx.still_bind Cxx.still_get
  intro reader
  cases reader.endPos <;> cases reader.beginPos <;> cases reader.shape.limit <;>
    first
      | exact Cxx.still_pure _
      | exact Cxx.still_ite (Cxx.still_throw _) (Cxx.still_pure _)

theorem error_stack_still (pairs head : Nat) :
    Cxx.Still (errorStack mp mem pairs head : Cxx Exn σ MpReader) := by
  induction pairs generalizing head with
  | zero => exact Cxx.still_throw _
  | succ pairs ih => exact Cxx.still_ite (Cxx.still_pure _) (ih _)

theorem mp_array_still (beginPos : Option Nat) :
    Cxx.Still (mpArray mp mem beginPos : Cxx Exn σ MpReader) := by
  cases beginPos with
  | none => exact Cxx.still_pure _
  | some pos =>
      apply Cxx.still_bind (deref_still _)
      intro byte
      cases mp.mpTypeof byte with
      | array => exact Cxx.still_pure _
      | ext => exact Cxx.still_ite (error_stack_still _ _) (Cxx.still_throw _)
      | _ => exact Cxx.still_throw _

theorem mp_map_still (beginPos : Option Nat) :
    Cxx.Still (mpMap mp mem beginPos : Cxx Exn σ MpReader) := by
  apply Cxx.still_bind (deref_still _)
  intro byte
  cases mp.mpTypeof byte with
  | map => exact Cxx.still_pure _
  | ext =>
      apply Cxx.still_ite (Cxx.still_pure _)
      exact Cxx.still_ite (Cxx.still_pure _) (Cxx.still_throw _)
  | _ => exact Cxx.still_throw _

theorem copy_from_still (pos count : Nat) : Cxx.Still (copyFrom mem pos count : Cxx Exn σ Bytes) :=
  Cxx.still_ite (Cxx.still_pure _) Cxx.still_undefined

theorem is_null_still : Cxx.Still (isNull mp mem) := by
  apply Cxx.still_bind (has_next_still false)
  intro more
  apply Cxx.still_guard
  intro _
  apply Cxx.still_bind Cxx.still_get
  intro reader
  apply Cxx.still_bind (deref_still _)
  intro byte
  exact Cxx.still_pure _

theorem index_still (ind : Nat) : Cxx.Still (index mp mem ind) := by
  apply Cxx.still_bind Cxx.still_get
  intro reader
  apply Cxx.still_bind Cxx.still_onObject
  intro slice
  exact Cxx.still_pure _

theorem value_at_still (key : Key) : Cxx.Still (valueAt mp mem key) := by
  apply Cxx.still_bind Cxx.still_get
  intro reader
  apply Cxx.still_bind Cxx.still_onObject
  rintro ⟨found, tmp⟩
  cases found with
  | none => exact Cxx.still_throw _
  | some slice => exact Cxx.still_ite (Cxx.still_pure _) (Cxx.still_throw _)

theorem equals_still (key : Key) : Cxx.Still (equals mp mem key) := by
  cases key with
  | noText => exact is_null_still
  | int number =>
      apply Cxx.still_bind (has_next_still false)
      intro more
      apply Cxx.still_guard
      intro _
      apply Cxx.still_bind Cxx.still_get
      intro reader
      apply Cxx.still_bind (deref_still _)
      intro byte
      cases mp.mpTypeof byte <;> exact Cxx.still_pure _
  | bool value | text value =>
      apply Cxx.still_bind (has_next_still false)
      intro more
      apply Cxx.still_guard
      intro _
      apply Cxx.still_bind Cxx.still_get
      intro reader
      apply Cxx.still_bind (deref_still _)
      intro byte
      apply Cxx.still_ite _ (Cxx.still_pure _)
      exact Cxx.still_bind Cxx.still_onObject fun _ => Cxx.still_pure _

theorem ext_via_string_still (type : IntType) (data : Bytes) :
    Cxx.Still (extViaString mp type data) := by
  apply Cxx.still_bind (Cxx.still_ite Cxx.still_undefined (Cxx.still_pure _))
  intro text
  cases fromChars type text with
  | parsed value => exact Cxx.still_pure _
  | invalidArgument => exact Cxx.still_throw _
  | resultOutOfRange => exact Cxx.still_throw _

theorem via_text_still (data : Bytes) : Cxx.Still (viaText realText data) := by
  unfold viaText
  cases realText data with
  | ok value => exact Cxx.still_pure _
  | error error => exact Cxx.still_throw _

def integralAt (mp : Msgpuck) (mem : Bytes) (type : IntType) (pos : Option Nat) : Read type.Val := do
  let data := bytesAt mem pos
  match mp.mpTypeof (← deref mem pos) with
  | .uint =>
      let res : Int := (mp.mpDecodeUint data).1
      if res ≤ type.max then return type.cast res
      Cxx.throw (mpReaderError "value overflow")
  | .int =>
      let res := (mp.mpDecodeInt data).1
      let common := if type = .uint64 then res % 2 ^ 64 else res
      if common ≤ type.max ∧ type.min ≤ common then return type.cast res
      Cxx.throw (mpReaderError "value overflow")
  | .ext => extViaString mp type data
  | other => Cxx.throw (mpReaderError ("integer expected, got " ++ mpuckTypeName other))

theorem read_integral_parts (type : IntType) : readIntegral mp mem type = (do
    let reader ← Cxx.get
    skip mp mem
    integralAt mp mem type reader.currentPos) := rfl

theorem integral_at_still (type : IntType) (pos : Option Nat) :
    Cxx.Still (integralAt mp mem type pos) := by
  apply Cxx.still_bind (deref_still _)
  intro byte
  cases mp.mpTypeof byte with
  | uint => exact Cxx.still_ite (Cxx.still_pure _) (Cxx.still_throw _)
  | int => exact Cxx.still_ite (Cxx.still_pure _) (Cxx.still_throw _)
  | ext => exact ext_via_string_still type _
  | _ => exact Cxx.still_throw _

open Binary64 in
def realAt (mp : Msgpuck) (mem : Bytes) (realText : RealText) (type : RealType) (pos : Option Nat) :
    Read Floating := do
  let data := bytesAt mem pos
  match mp.mpTypeof (← deref mem pos) with
  | .float => return .single (mp.mpDecodeFloat data).1
  | .double =>
      let res := (mp.mpDecodeDouble data).1
      if type = .single ∧ IsFinite res ∧ (maxSingle < value res ∨ value res < minSingle) then
        Cxx.throw (mpReaderError "value overflow")
      return .double res
  | .ext => viaText realText data
  | other => Cxx.throw (mpReaderError ("float expected, got " ++ mpuckTypeName other))

theorem read_real_parts (type : RealType) : readReal mp mem (viaText realText) type = (do
    let reader ← Cxx.get
    skip mp mem
    realAt mp mem realText type reader.currentPos) := rfl

theorem real_at_still (type : RealType) (pos : Option Nat) :
    Cxx.Still (realAt mp mem realText type pos) := by
  apply Cxx.still_bind (deref_still _)
  intro byte
  cases mp.mpTypeof byte with
  | float => exact Cxx.still_pure _
  | double => exact Cxx.still_guard fun _ => Cxx.still_pure _
  | ext => exact via_text_still _
  | _ => exact Cxx.still_throw _

def textAt (mp : Msgpuck) (mem : Bytes) (flags : Nat) (pos : Option Nat) : Read Bytes := do
  let data := bytesAt mem pos
  let first := mp.mpSnprint 256 data flags
  let (count, text) := if first.1 ≥ 256 then mp.mpSnprint (first.1.toNat + 1) data flags else first
  if count < 0 then Cxx.throw (mpReaderError "mp_snprint error")
  return text.take count.toNat

theorem to_string_parts (flags : Nat) : toString mp mem flags = (do
    let reader ← Cxx.get
    skip mp mem
    textAt mp mem flags reader.currentPos) := rfl

theorem text_at_still (flags : Nat) (pos : Option Nat) : Cxx.Still (textAt mp mem flags pos) :=
  Cxx.still_guard fun _ => Cxx.still_pure _

end Frames

section Moves
variable {mp : Msgpuck} {mem : Bytes} {realText : RealText} {invariant : MpReader → Prop} {α : Type}

theorem skips_preserves (kept : Cxx.Preserves invariant (skip mp mem)) (count : Nat) :
    Cxx.Preserves invariant (skips mp mem count) := by
  induction count with
  | zero => exact Cxx.preserves_pure _
  | succ count ih => exact Cxx.preserves_bind kept fun _ => ih

theorem preserves_discard {body : Read α} (kept : Cxx.Preserves invariant body) :
    Cxx.Preserves invariant (discard body) :=
  Cxx.preserves_bind kept fun _ => Cxx.preserves_pure _

theorem preserves_skip_first (kept : Cxx.Preserves invariant (skip mp mem)) {rest : Option Nat → Read α}
    (still : ∀ pos, Cxx.Still (rest pos)) : Cxx.Preserves invariant (do
      let reader ← Cxx.get
      skip mp mem
      rest reader.currentPos) := by
  apply Cxx.preserves_bind Cxx.still_get.preserves
  intro reader
  exact Cxx.preserves_bind kept fun _ => (still _).preserves

theorem preserves_typed {rest : MpReader → UInt8 → Read α}
    (kept : ∀ reader byte, Cxx.Preserves invariant (rest reader byte)) : Cxx.Preserves invariant (do
      let reader ← Cxx.get
      let byte ← deref mem reader.currentPos
      rest reader byte) := by
  apply Cxx.preserves_bind Cxx.still_get.preserves
  intro reader
  exact Cxx.preserves_bind (deref_still _).preserves fun byte => kept reader byte

theorem read_string_view_preserves (kept : Cxx.Preserves invariant (skip mp mem)) :
    Cxx.Preserves invariant (readStringView mp mem) := by
  apply Cxx.preserves_bind (has_next_still false).preserves
  intro more
  cases more with
  | false => exact Cxx.preserves_pure _
  | true =>
      apply preserves_typed
      intro reader byte
      cases mp.mpTypeof byte with
      | str => exact Cxx.preserves_bind kept fun _ => Cxx.preserves_pure _
      | nil => exact Cxx.preserves_bind kept fun _ => Cxx.preserves_pure _
      | _ => exact Cxx.preserves_throw _

theorem read_bool_preserves (kept : Cxx.Preserves invariant (skip mp mem)) :
    Cxx.Preserves invariant (readBool mp mem) := by
  apply Cxx.preserves_bind Cxx.still_get.preserves
  intro reader
  apply Cxx.preserves_guard
  intro _
  apply Cxx.preserves_bind (deref_still _).preserves
  intro byte
  apply Cxx.preserves_guard
  intro _
  exact Cxx.preserves_bind kept fun _ => Cxx.preserves_pure _

theorem skip_type_preserves (kept : Cxx.Preserves invariant (skip mp mem)) (type : MpType)
    (nullable : Bool) : Cxx.Preserves invariant (skipType mp mem type nullable) := by
  apply Cxx.preserves_bind Cxx.still_get.preserves
  intro reader
  apply Cxx.preserves_guard
  intro _
  apply Cxx.preserves_bind (deref_still _).preserves
  intro byte
  exact Cxx.preserves_guard fun _ => kept

theorem read_string_preserves (kept : Cxx.Preserves invariant (skip mp mem)) (prior : Bytes) :
    Cxx.Preserves invariant (readString mp mem prior) := by
  apply Cxx.preserves_bind Cxx.still_get.preserves
  intro reader
  apply Cxx.preserves_guard
  intro _
  apply Cxx.preserves_bind (deref_still _).preserves
  intro byte
  apply Cxx.preserves_ite
  · intro _
    dsimp only
    exact Cxx.preserves_guard fun _ => Cxx.preserves_bind kept fun _ => Cxx.preserves_pure _
  · intro _
    apply Cxx.preserves_bind (read_string_view_preserves kept)
    intro view
    cases view with
    | none => exact Cxx.preserves_throw _
    | some text => exact Cxx.preserves_pure _

theorem read_datetime_preserves (kept : Cxx.Preserves invariant (skip mp mem)) (pos : Nat) :
    Cxx.Preserves invariant (readDatetime mp mem pos) := by
  unfold readDatetime
  dsimp only
  apply Cxx.preserves_guard
  intro _
  apply Cxx.preserves_guard
  intro _
  apply Cxx.preserves_bind (copy_from_still _ _).preserves
  intro epoch
  have last : ∀ tail : Bytes, Cxx.Preserves invariant (do
      skip mp mem
      return TimeSource.since (signed 8 (ofLittleEndian epoch))
        (signed 4 (ofLittleEndian (tail.take 4)))) := by
    intro tail
    exact Cxx.preserves_bind kept fun _ => Cxx.preserves_pure _
  apply Cxx.preserves_ite
  · exact fun _ => Cxx.preserves_bind (Cxx.preserves_pure _) last
  · exact fun _ => Cxx.preserves_bind (copy_from_still _ _).preserves last

theorem read_time_point_preserves (kept : Cxx.Preserves invariant (skip mp mem)) :
    Cxx.Preserves invariant (readTimePoint mp mem) := by
  have number : Cxx.Preserves invariant (do
      return TimeSource.count (← readIntegral mp mem .int64)) := by
    apply Cxx.preserves_bind _ fun _ => Cxx.preserves_pure _
    exact preserves_skip_first kept (integral_at_still _)
  have floating : Cxx.Preserves invariant (do
      return TimeSource.floating (← readFloating mp mem)) := by
    apply Cxx.preserves_bind _ fun _ => Cxx.preserves_pure _
    have still : ∀ pos, Cxx.Still (realAt mp mem noText .double pos) := real_at_still .double
    rw [← read_real_double]
    exact preserves_skip_first kept still
  apply Cxx.preserves_bind Cxx.still_get.preserves
  intro reader
  apply Cxx.preserves_guard
  intro _
  apply Cxx.preserves_bind (deref_still _).preserves
  intro byte
  cases mp.mpTypeof byte with
  | uint | int => exact number
  | float | double => exact floating
  | ext => exact read_datetime_preserves kept _
  | _ => exact Cxx.preserves_throw _

theorem span_loop_preserves {maxN : Nat} (kept : Cxx.Preserves invariant (skip mp mem))
    (left ind : Nat) (dst : MpSpan maxN) : Cxx.Preserves invariant (spanLoop mp mem left ind dst) := by
  induction left generalizing ind dst with
  | zero => exact Cxx.preserves_pure _
  | succ left ih =>
      unfold spanLoop
      split
      · apply Cxx.preserves_bind (has_next_still false).preserves
        intro more
        apply Cxx.preserves_ite
        · exact fun _ => Cxx.preserves_pure _
        · intro _
          apply Cxx.preserves_bind kept
          intro _
          apply Cxx.preserves_bind Cxx.still_get.preserves
          intro reader
          exact ih _ _
      · exact Cxx.preserves_pure _

theorem read_span_preserves {maxN : Nat} (kept : Cxx.Preserves invariant (skip mp mem))
    (dst : MpSpan maxN) : Cxx.Preserves invariant (readSpan mp mem dst) := by
  apply Cxx.preserves_bind Cxx.still_get.preserves
  intro reader
  apply Cxx.preserves_bind (span_loop_preserves kept _ _ _)
  intro read
  apply Cxx.preserves_bind Cxx.still_get.preserves
  intro reader
  exact Cxx.preserves_pure _

theorem read_array_preserves (kept : Cxx.Preserves invariant (skip mp mem)) :
    Cxx.Preserves invariant (readArray mp mem) := by
  apply Cxx.preserves_bind Cxx.still_get.preserves
  intro reader
  apply Cxx.preserves_bind (mp_array_still _).preserves
  intro array
  apply Cxx.preserves_bind kept
  intro _
  apply Cxx.preserves_bind Cxx.still_get.preserves
  intro parent
  exact Cxx.preserves_pure _

theorem read_map_preserves (kept : Cxx.Preserves invariant (skip mp mem)) :
    Cxx.Preserves invariant (readMap mp mem) := by
  apply Cxx.preserves_bind Cxx.still_get.preserves
  intro reader
  apply Cxx.preserves_bind (mp_map_still _).preserves
  intro map
  apply Cxx.preserves_bind kept
  intro _
  apply Cxx.preserves_bind Cxx.still_get.preserves
  intro parent
  exact Cxx.preserves_pure _

theorem preserves_nested {β : Type} {opened : Read MpReader} {body : MpReader → Read β}
    (kept : Cxx.Preserves invariant opened) : Cxx.Preserves invariant (do
      let nested ← opened
      let result ← Cxx.onObject (body nested) nested
      return result.1) := by
  apply Cxx.preserves_bind kept
  intro nested
  exact Cxx.preserves_bind Cxx.preserves_onObject fun _ => Cxx.preserves_pure _

theorem get_optional_preserves (kept : Cxx.Preserves invariant (skip mp mem)) {get : α → Read α}
    {fresh : α} (element : Cxx.Preserves invariant (get fresh)) :
    Cxx.Preserves invariant (getOptional mp mem get fresh) := by
  apply Cxx.preserves_bind (has_next_still true).preserves
  intro more
  apply Cxx.preserves_ite
  · exact fun _ => Cxx.preserves_pure _
  · intro _
    apply preserves_typed
    intro reader byte
    apply Cxx.preserves_ite
    · exact fun _ => Cxx.preserves_bind kept fun _ => Cxx.preserves_pure _
    · exact fun _ => Cxx.preserves_bind element fun _ => Cxx.preserves_pure _

theorem get_preserves (kept : Cxx.Preserves invariant (skip mp mem)) {α : Type} :
    (dst : Overload α) → (prior : α) → Cxx.Preserves invariant (dst.get mp mem realText prior)
  | .bool, _ => read_bool_preserves kept
  | .int _, _ => preserves_skip_first kept (integral_at_still _)
  | .real _, _ => preserves_skip_first kept (real_at_still _)
  | .string, prior => read_string_preserves kept prior
  | .stringView, _ => read_string_view_preserves kept
  | .timePoint, _ => read_time_point_preserves kept
  | .span _, prior => read_span_preserves kept prior
  | .array, _ => read_array_preserves kept
  | .map, _ => read_map_preserves kept
  | .optional elem, _ => get_optional_preserves kept (get_preserves kept elem elem.fresh)
  | .vector _, _ => preserves_nested (read_array_preserves kept)
  | .tuple _, _ => preserves_nested (read_array_preserves kept)
  | @Overload.stdMap _ _ _ _ _ _ _, _ => preserves_nested (read_map_preserves kept)

theorem get_or_preserves (kept : Cxx.Preserves invariant (skip mp mem)) (dst : Overload α)
    (prior default : α) : Cxx.Preserves invariant (getOr mp mem realText dst prior default) := by
  apply Cxx.preserves_bind (has_next_still true).preserves
  intro more
  apply Cxx.preserves_ite
  · exact fun _ => Cxx.preserves_pure _
  · intro _
    apply preserves_typed
    intro reader byte
    apply Cxx.preserves_ite
    · exact fun _ => Cxx.preserves_bind kept fun _ => Cxx.preserves_pure _
    · exact fun _ => get_preserves kept dst prior

/-- Every operation but these two moves the cursor by `skip` alone. -/
theorem exec_preserves (kept : Cxx.Preserves invariant (skip mp mem)) (op : CursorOp)
    (message : op ≠ .iprotoMessage) (again : op ≠ .rewind) :
    Cxx.Preserves invariant (op.exec mp mem realText) := by
  cases op with
  | skip => exact kept
  | skipType type nullable => exact skip_type_preserves kept type nullable
  | none count => exact skips_preserves kept count
  | isNull => exact preserves_discard is_null_still.preserves
  | hasNext strict => exact preserves_discard (has_next_still strict).preserves
  | get dst prior => exact preserves_discard (get_preserves kept dst prior)
  | getOr dst prior default => exact preserves_discard (get_or_preserves kept dst prior default)
  | text flags => exact preserves_discard (preserves_skip_first kept (text_at_still flags))
  | index ind => exact preserves_discard (index_still ind).preserves
  | value key => exact preserves_discard (value_at_still key).preserves
  | equals key => exact preserves_discard (equals_still key).preserves
  | iprotoMessage => exact absurd rfl message
  | rewind => exact absurd rfl again

theorem CursorOp.step_preserves {op : CursorOp} (kept : Cxx.Preserves invariant (op.exec mp mem realText))
    {reader after : MpReader} (held : invariant reader)
    (done : op.step mp mem realText reader = some after) : invariant after := by
  have step := kept reader held
  unfold CursorOp.step at done
  cases reached : op.exec mp mem realText reader with
  | returned value left =>
      rw [reached] at done step
      cases done
      exact step
  | thrown error left =>
      rw [reached] at done step
      cases done
      exact step
  | undefined =>
      rw [reached] at done
      cases done

end Moves

end Cpp2tnt
