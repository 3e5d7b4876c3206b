import Cpp2tnt.TypedValues

/-!
The operations a program performs on readers: the ones that only move the cursor,
the typed reads, the readers that are made over a part of the content. An
operation is chosen without looking at the content. It works on one reader and
may hand out another one.
-/

namespace Cpp2tnt
open Imperative MessagePack

section Operations
variable (mp : Msgpuck) (mem : Bytes)

/-- `skip(type, nullable)`: the type byte is read first. -/
def skipType (type : MpType) (nullable : Bool) : Read Unit := do
  let reader ← Cxx.get
  if reader.currentPos.isNone then Cxx.throw noData
  let actual := mp.mpTypeof (← deref mem reader.currentPos)
  if actual ≠ type ∧ (nullable = false ∨ actual ≠ .nil) then
    Cxx.throw (mpReaderError (mpuckTypeName type ++ " expected, got " ++ mpuckTypeName actual))
  skip mp mem

def isNull : Read Bool := do
  if !(← hasNext false) then Cxx.throw (mpReaderError "read out of bounds")
  let reader ← Cxx.get
  return mp.mpTypeof (← deref mem reader.currentPos) = .nil

def MpReader.rewound (reader : MpReader) : MpReader :=
  { reader with currentPos := reader.beginPos, currentInd := 0 }

def skips : Nat → Read Unit
  | 0 => return ()
  | count + 1 => do
      skip mp mem
      skips count

/-- `operator[](ind)`, on a copy of the reader. -/
def index (ind : Nat) : Read MpReader := do
  let reader ← Cxx.get
  let tmp := if reader.currentInd ≤ ind then reader else reader.rewound
  let (slice, _) ← Cxx.onObject (do
    skips mp mem (ind - tmp.currentInd)
    let first := (← Cxx.get).currentPos
    skip mp mem
    let last := (← Cxx.get).currentPos
    return (⟨.plain, first, last, first, 0⟩ : MpReader)) tmp
  return slice

def copyFrom {σ : Type} (pos count : Nat) : Cxx Exn σ Bytes :=
  if pos + count ≤ mem.length then pure ((mem.drop pos).take count) else Cxx.undefined

variable {mem} in
theorem copy_placed {σ : Type} {state : σ} {pos offset count : Nat} {item rest : Bytes}
    (placed : mem.drop pos = item ++ rest) (before : pos ≤ mem.length)
    (within : offset + count ≤ item.length) :
    copyFrom mem (pos + offset) count state = .returned ((item.drop offset).take count) state := by
  have size : mem.length - pos = item.length + rest.length := by
    rw [← List.length_drop, placed, List.length_append]
  have covered : pos + offset + count ≤ mem.length := by omega
  have inner : offset ≤ item.length := Nat.le_trans (Nat.le_add_right _ _) within
  have read : (mem.drop (pos + offset)).take count = (item.drop offset).take count := by
    rw [← List.drop_drop, placed, List.drop_append_of_le_length inner,
      List.take_append_of_le_length (by rw [List.length_drop]; omega)]
  rw [copyFrom, if_pos covered, read]
  rfl

def ofLittleEndian (word : Bytes) : Nat := ofBigEndian word.reverse

/-- A floating point number by its bits, of the width it was stored with. -/
inductive Floating where
  | single (bits : Nat)
  | double (bits : Nat)

/-- What the duration of a `time_point` is made of. -/
inductive TimeSource where
  | count (ticks : IntType.int64.Val)
  | floating (ticks : Floating)
  | since (epoch nsec : Int)

/-- `read<double>()` for an item of one of these two types. -/
def readFloating : Read Floating := do
  let reader ← Cxx.get
  skip mp mem
  let data := bytesAt mem reader.currentPos
  match mp.mpTypeof (← deref mem reader.currentPos) with
  | .float => return .single (mp.mpDecodeFloat data).1
  | .double => return .double (mp.mpDecodeDouble data).1
  | other => Cxx.throw (mpReaderError ("float expected, got " ++ mpuckTypeName other))

def readDatetime (pos : Nat) : Read TimeSource := do
  let (type, length, payload) := mp.mpDecodeExtl (mem.drop pos)
  let data := pos + payload
  if type ≠ mp.mpDatetime then
    Cxx.throw (mpReaderError "unable to extract time_point from ext")
  if length ≠ 8 ∧ length ≠ 16 then Cxx.throw (mpReaderError "unexpected MP_DATETIME value")
  let epoch ← copyFrom mem data 8
  let tail ← if length = 8 then pure (List.replicate 8 0) else copyFrom mem (data + 8) 8
  skip mp mem
  return .since (signed 8 (ofLittleEndian epoch)) (signed 4 (ofLittleEndian (tail.take 4)))

/-- `operator>>(time_point &)` up to the conversion to its duration. -/
def readTimePoint : Read TimeSource := do
  let reader ← Cxx.get
  if reader.currentPos.isNone then Cxx.throw noData
  match mp.mpTypeof (← deref mem reader.currentPos) with
  | .uint | .int => return .count (← readIntegral mp mem .int64)
  | .float | .double => return .floating (← readFloating mp mem)
  | .ext => readDatetime mp mem (reader.currentPos.getD 0)
  | other => Cxx.throw (mpReaderError ("unable to get time_point from " ++ mpuckTypeName other))

/-- A key of `mp_map::find`: an integer or enumeration value, a bool, a string or
a view, a view without data. -/
inductive Key where
  | int (number : Int)
  | bool (value : Bool)
  | text (value : Bytes)
  | noText

/-- The local reader of `equals`, without a right bound. -/
def MpReader.peeking (reader : MpReader) : MpReader :=
  ⟨.plain, reader.currentPos, none, reader.currentPos, 0⟩

def equals : Key → Read Bool
  | .int number => equalsInt mp mem number
  | .bool value => do
      if !(← hasNext false) then Cxx.throw (mpReaderError "read out of bounds")
      let reader ← Cxx.get
      if mp.mpTypeof (← deref mem reader.currentPos) = .bool then
        let (found, _) ← Cxx.onObject (readBool mp mem) reader.peeking
        return value == found
      else return false
  | .text value => do
      if !(← hasNext false) then Cxx.throw (mpReaderError "read out of bounds")
      let reader ← Cxx.get
      if mp.mpTypeof (← deref mem reader.currentPos) = .str then
        let (found, _) ← Cxx.onObject (readStringView mp mem) reader.peeking
        return found == some value
      else return false
  | .noText => isNull mp mem

def valueAt (key : Key) : Read MpReader := do
  mapAt mp mem (← Cxx.get) (equals mp mem key)

end Operations

inductive ReaderOp where
  | skip
  | skipType (type : MpType) (nullable : Bool)
  | isNull
  | get (type : Ty) (prior : type.Val)
  | stringView
  | timePoint
  | array
  | map
  | index (ind : Nat)
  | value (key : Key)

namespace ReaderOp

def Res : ReaderOp → Type
  | .skip | .skipType _ _ => Unit
  | .isNull => Bool
  | .get type _ => type.Val
  | .stringView => Option Bytes
  | .timePoint => TimeSource
  | .array | .map | .index _ | .value _ => MpReader

def exec (mp : Msgpuck) (mem : Bytes) : (op : ReaderOp) → Read op.Res
  | .skip => Cpp2tnt.skip mp mem
  | .skipType type nullable => Cpp2tnt.skipType mp mem type nullable
  | .isNull => Cpp2tnt.isNull mp mem
  | .get type prior => type.get mp mem prior
  | .stringView => readStringView mp mem
  | .timePoint => readTimePoint mp mem
  | .array => readArray mp mem
  | .map => readMap mp mem
  | .index ind => Cpp2tnt.index mp mem ind
  | .value key => valueAt mp mem key

/-- The readers the program has afterwards besides the ones it had. -/
def opened : (op : ReaderOp) → op.Res → List MpReader
  | .array, reader | .map, reader | .index _, reader | .value _, reader => [reader]
  | .skip, _ | .skipType _ _, _ | .isNull, _ | .get _ _, _ | .stringView, _ | .timePoint, _ => []

end ReaderOp

/-- An operation on one of the program's readers; the program may catch what it
throws. -/
structure Act where
  which : Nat
  op : ReaderOp

def Act.step (mp : Msgpuck) (mem : Bytes) (act : Act) (readers : List MpReader) :
    Option (List MpReader) :=
  match readers[act.which]? with
  | none => none
  | some reader => match act.op.exec mp mem reader with
    | .returned value reached => some (readers.set act.which reached ++ act.op.opened value)
    | .thrown _ reached => some (readers.set act.which reached)
    | .undefined => none

end Cpp2tnt
