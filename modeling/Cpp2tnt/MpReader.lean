import Mathlib.Tactic.SplitIfs
import Cpp2tnt.Msgpuck
import Cpp2tnt.WtfBuffer

/-!
`mp_reader`. All readers of one buffer share the memory block `mem`; a pointer is
an offset into it, and `nullptr` is `none`. `Shape` stands for the template
argument: `mp_plain`, `mp_array` or `mp_map`. Dereferencing a position outside
`mem` is undefined behaviour. An `mp_reader_error` is modelled by its message
without the hex dump its constructor appends.
-/

namespace Cpp2tnt
open Imperative MessagePack

inductive Shape where
  | plain
  | array (cardinality : Nat)
  | map (cardinality : Nat)
  deriving DecidableEq

def Shape.limit : Shape → Option Nat
  | .plain => none
  | .array cardinality => some cardinality
  | .map cardinality => some (cardinality * 2)

/-- `cardinality()` of an array or a map. -/
def Shape.cardinality : Shape → Nat
  | .plain => 0
  | .array cardinality | .map cardinality => cardinality

structure MpReader where
  shape : Shape
  beginPos : Option Nat
  endPos : Option Nat
  currentPos : Option Nat
  currentInd : Nat
  deriving DecidableEq

abbrev Read := Cxx Exn MpReader

def mpReaderError (what : String) : Exn := ⟨.mpReaderError, what⟩

namespace MpReader

/-- `mp_reader(mp_plain{begin, end})`. -/
def plain (beginPos endPos : Nat) : MpReader :=
  ⟨.plain, some beginPos, some endPos, some beginPos, 0⟩

def null (shape : Shape) : MpReader := ⟨shape, none, none, none, 0⟩

/-- `mp_plain::operator bool`, also used by readers without a cardinality. -/
def nonempty (reader : MpReader) : Bool :=
  match reader.beginPos, reader.endPos with
  | some first, some last => first < last
  | _, _ => false

/-- The reader after one more item of `count` bytes. -/
def advance (count : Nat) (reader : MpReader) : MpReader :=
  { reader with
    currentPos := reader.currentPos.map (· + count)
    currentInd := (reader.currentInd + 1) % 2 ^ 32 }

end MpReader

section Reading
variable (mp : Msgpuck) (mem : Bytes)

def deref {σ : Type} (pos : Option Nat) : Cxx Exn σ UInt8 :=
  match pos.bind (mem[·]?) with
  | some byte => pure byte
  | none => Cxx.undefined

def bytesAt (pos : Option Nat) : Bytes := mem.drop (pos.getD 0)

def atEnd (reader : MpReader) : Bool :=
  match reader.currentPos, reader.endPos with
  | none, _ => true
  | some pos, some last => last ≤ pos
  | some _, none => false

def skip : Read Unit := do
  let reader ← Cxx.get
  if atEnd reader then Cxx.throw (mpReaderError "read out of bounds")
  if reader.shape.limit.any (· ≤ reader.currentInd) then
    Cxx.throw (mpReaderError "read out of bounds")
  let next := reader.advance (mp.mpNext (bytesAt mem reader.currentPos))
  match next.currentPos, reader.endPos with
  | some pos, some last =>
      if last < pos then Cxx.throw (mpReaderError "invalid messagepack") else Cxx.put next
  | _, _ => Cxx.put next

def hasNext (strict : Bool) : Read Bool := do
  let reader ← Cxx.get
  match reader.endPos, reader.beginPos, reader.shape.limit with
  | some last, _, _ => return reader.currentPos.any (· < last)
  | none, none, _ => return false
  | none, some _, some limit => return reader.currentPos.isSome && reader.currentInd < limit
  | none, some _, none =>
      if strict then
        Cxx.throw (mpReaderError
          "unable to determine if next value exists - no right bound specified")
      else return true

def noData : Exn := ⟨.runtimeError, "no msgpack data to read"⟩

/-- `iproto_message`: the cursor has already moved over the length when a
partial packet is reported. -/
def iprotoMessage : Read MpReader := do
  let reader ← Cxx.get
  match reader.currentPos, reader.endPos with
  | some pos, some last =>
      if (last : Int) - pos < 5 then return MpReader.plain pos pos
      let byte ← deref mem (some pos)
      if byte ≠ 0xce then Cxx.throw (mpReaderError "invalid iproto packet")
      let (responseSize, count) := mp.mpDecodeUint (mem.drop pos)
      Cxx.put { reader with currentPos := some (pos + count) }
      if last - (pos + count) < responseSize then
        Cxx.throw (mpReaderError "partial iproto packet")
      Cxx.put { reader with currentPos := some (pos + count + responseSize) }
      return MpReader.plain (pos + count) (pos + count + responseSize)
  | pos, _ => return ⟨.plain, pos, pos, pos, 0⟩

/-- Two attempts of `mp_snprint`, the second one with room for the whole text. -/
def toString (flags : Nat) : Read Bytes := do
  let reader ← Cxx.get
  let data := bytesAt mem reader.currentPos
  skip mp mem
  let first := mp.mpSnprint 256 data flags
  let (count, text) := if first.1 ≥ 256 then mp.mpSnprint (first.1.toNat + 1) data flags else first
  if count < 0 then Cxx.throw (mpReaderError "mp_snprint error")
  return text.take count.toNat

def readBool : Read Bool := do
  let reader ← Cxx.get
  if reader.currentPos.isNone then Cxx.throw noData
  let type := mp.mpTypeof (← deref mem reader.currentPos)
  if type ≠ .bool then
    Cxx.throw (mpReaderError ("boolean expected, got " ++ mpuckTypeName type))
  let value := (mp.mpDecodeBool (bytesAt mem reader.currentPos)).1
  skip mp mem
  return value

/-- `std::string_view`; a view without data is `none`. -/
def readStringView : Read (Option Bytes) := do
  if !(← hasNext false) then return none
  let reader ← Cxx.get
  match mp.mpTypeof (← deref mem reader.currentPos) with
  | .str =>
      skip mp mem
      let head := mp.mpDecodeStr (bytesAt mem reader.currentPos)
      return some (((bytesAt mem reader.currentPos).drop head.2).take head.1)
  | .nil =>
      skip mp mem
      return none
  | type => Cxx.throw (mpReaderError ("string expected, got " ++ mpuckTypeName type))

/-- `UNQUOTE_UUID` of `ext_tnt.h`: print a UUID without quotes. -/
def unquoteUuid : Nat := 1

/-- What `mp_snprint` leaves in a string it is given as its buffer. -/
def printedOver (text value : Bytes) : Bytes := text ++ value.drop text.length

def resizeString (size : Nat) (value : Bytes) : Bytes :=
  value.take size ++ List.replicate (size - value.length) 0

/-- A `size_t` that is passed as an `int`. -/
def intArgument (size : Nat) : Nat := size % 2 ^ 32

/-- `operator>>(std::string &)`: `len` is a `size_t`, so a failing `mp_snprint`
reads as a huge length. -/
def readString (value : Bytes) : Read Bytes := do
  let reader ← Cxx.get
  if reader.currentPos.isNone then Cxx.throw noData
  if mp.mpTypeof (← deref mem reader.currentPos) = .ext then
    let data := bytesAt mem reader.currentPos
    let value := if value.length < 128 then resizeString 128 value else value
    let first := mp.mpSnprint (intArgument value.length) data unquoteUuid
    let value := printedOver first.2 value
    let length := (first.1 % 2 ^ 64).toNat
    let (length, value) :=
      if value.length < length then
        let size := (length + 1) % 2 ^ 64
        let second := mp.mpSnprint (intArgument size) data unquoteUuid
        ((second.1 % 2 ^ 64).toNat, printedOver second.2 (resizeString size value))
      else (length, value)
    if 2 ^ 63 ≤ length then Cxx.throw ⟨.lengthError, "basic_string::_M_replace_aux"⟩
    skip mp mem
    return resizeString length value
  else
    match ← readStringView mp mem with
    | none => Cxx.throw (mpReaderError "string expected, got no data")
    | some text => return text

/-- An integral type other than `bool`, narrower than 128 bits. -/
inductive IntType where
  | int8 | int16 | int32 | int64 | uint8 | uint16 | uint32 | uint64
  deriving DecidableEq

def IntType.signed : IntType → Bool
  | .int8 | .int16 | .int32 | .int64 => true
  | .uint8 | .uint16 | .uint32 | .uint64 => false

def IntType.bits : IntType → Nat
  | .int8 | .uint8 => 8
  | .int16 | .uint16 => 16
  | .int32 | .uint32 => 32
  | .int64 | .uint64 => 64

def IntType.min (type : IntType) : Int := if type.signed then -2 ^ (type.bits - 1) else 0

def IntType.max (type : IntType) : Int :=
  if type.signed then 2 ^ (type.bits - 1) - 1 else 2 ^ type.bits - 1

def IntType.Val (type : IntType) : Type := { value : Int // type.min ≤ value ∧ value ≤ type.max }

/-- `static_cast<T>`: the representative of the value in the type's range. -/
def IntType.cast (type : IntType) (value : Int) : type.Val :=
  let word := value % 2 ^ type.bits
  ⟨if type.max < word then word - 2 ^ type.bits else word, by
    cases type <;> simp only [word, max, min, bits, signed] <;> split_ifs <;> omega⟩

inductive FromChars (type : IntType) where
  | parsed (value : type.Val)
  | invalidArgument
  | resultOutOfRange

def isDigit (char : UInt8) : Bool := 0x30 ≤ char && char ≤ 0x39

/-- `std::from_chars` with base 10: a minus sign for signed types only, then at
least one digit; the rest of the text is not looked at. -/
def fromChars (type : IntType) (text : Bytes) : FromChars type :=
  let negative := type.signed && text.head? == some 0x2d
  let digits := (if negative then text.drop 1 else text).takeWhile isDigit
  let number : Int := (digits.foldl (fun number char => number * 10 + (char.toNat - 0x30)) 0 : Nat)
  let value := if negative then -number else number
  if digits.isEmpty then .invalidArgument
  else if fits : type.min ≤ value ∧ value ≤ type.max then .parsed ⟨value, fits⟩
  else .resultOutOfRange

/-- The range `tmp, tmp + len` of `ext_via_string` over its `char tmp[64]`. It is
not looked whether it ends before it begins or behind what has been written. -/
def extText (data : Bytes) : Read Bytes :=
  let printed := mp.mpSnprint 64 data 0
  if printed.1 < 0 ∨ (printed.2.length : Int) < printed.1 then Cxx.undefined
  else return printed.2.take printed.1.toNat

/-- The lambda `ext_via_string`: `from_chars` over the printed item. -/
def extViaString (type : IntType) (data : Bytes) : Read type.Val := do
  match fromChars type (← extText mp data) with
  | .parsed value => return value
  | .invalidArgument => Cxx.throw (mpReaderError "not a number")
  | .resultOutOfRange => Cxx.throw (mpReaderError "out of range")

/-- The integral branch of `operator>>(T &)`. The signed comparison is made in
the common type, which is unsigned for `uint64_t`. -/
def readIntegral (type : IntType) : Read type.Val := do
  let reader ← Cxx.get
  skip mp mem
  let data := bytesAt mem reader.currentPos
  match mp.mpTypeof (← deref mem reader.currentPos) with
  | .uint =>
      let res : Int := (mp.mpDecodeUint data).1
      if res ≤ type.max then return type.cast res
      Cxx.throw (mpReaderError "value overflow")
  | .int =>
      let res := (mp.mpDecodeInt data).1
      let common := if type = .uint64 then res % 2 ^ 64 else res
      if common ≤ type.max ∧ type.min ≤ common then return type.cast res
      Cxx.throw (mpReaderError "value overflow")
  | .ext => extViaString mp type data
  | other => Cxx.throw (mpReaderError ("integer expected, got " ++ mpuckTypeName other))

/-- The loop of `mp_array::mp_array` over an error extension. A key other than 0
leaves the head at its value. -/
def errorStack {σ : Type} : Nat → Nat → Cxx Exn σ MpReader
  | 0, _ => Cxx.throw (mpReaderError "MP_ERROR_STACK not found within ext error")
  | pairs + 1, head =>
      let key := mp.mpDecodeUint (mem.drop head)
      let valuePos := head + key.2
      if key.1 % 2 ^ 32 = 0 then
        let stack := mp.mpDecodeArray (mem.drop valuePos)
        let first := some (valuePos + stack.2)
        pure ⟨.array stack.1, first, some (valuePos + mp.mpNext (mem.drop valuePos)), first, 0⟩
      else errorStack pairs valuePos

/-- `mp_array(begin)`, as a reader standing on its first item. -/
def mpArray {σ : Type} (beginPos : Option Nat) : Cxx Exn σ MpReader :=
  match beginPos with
  | none => pure (MpReader.null (.array 0))
  | some pos => do
      match mp.mpTypeof (← deref mem (some pos)) with
      | .array =>
          let head := mp.mpDecodeArray (mem.drop pos)
          return ⟨.array head.1, some (pos + head.2), none, some (pos + head.2), 0⟩
      | .ext =>
          let ext := mp.mpDecodeExtl (mem.drop pos)
          if ext.1 = mp.mpError then
            let map := mp.mpDecodeMap (mem.drop (pos + ext.2.2))
            errorStack mp mem map.1 (pos + ext.2.2 + map.2)
          else Cxx.throw (mpReaderError "unable to read map from ext type 10")
      | type => Cxx.throw (mpReaderError ("array expected, got " ++ mpuckTypeName type))

/-- `mp_map(begin)`, as a reader standing on its first key. -/
def mpMap {σ : Type} (beginPos : Option Nat) : Cxx Exn σ MpReader := do
  let pos := beginPos.getD 0
  match mp.mpTypeof (← deref mem beginPos) with
  | .map =>
      let head := mp.mpDecodeMap (mem.drop pos)
      return ⟨.map head.1, some (pos + head.2), none, some (pos + head.2), 0⟩
  | .ext =>
      let ext := mp.mpDecodeExtl (mem.drop pos)
      let body := pos + ext.2.2
      if ext.1 = mp.mpInterval then
        let head := mp.mpDecodeUint (mem.drop body)
        return ⟨.map head.1, some (body + head.2), none, some (body + head.2), 0⟩
      else if ext.1 = mp.mpError then
        let head := mp.mpDecodeMap (mem.drop body)
        return ⟨.map head.1, some (body + head.2), none, some (body + head.2), 0⟩
      else Cxx.throw (mpReaderError "unable to read map from ext type 10")
  | type => Cxx.throw (mpReaderError ("map expected, got " ++ mpuckTypeName type))

/-- `operator>>(mp_reader<mp_array> &)`: a bound the error stack has set stays. -/
def readArray : Read MpReader := do
  let array ← mpArray mp mem (← Cxx.get).currentPos
  skip mp mem
  let parent ← Cxx.get
  return { array with endPos := array.endPos.or parent.currentPos }

def readMap : Read MpReader := do
  let map ← mpMap mp mem (← Cxx.get).currentPos
  skip mp mem
  let parent ← Cxx.get
  return { map with endPos := parent.currentPos }

/-- `equals` for an integral or enumeration value. -/
def equalsInt (key : Int) : Read Bool := do
  if !(← hasNext false) then Cxx.throw (mpReaderError "read out of bounds")
  let reader ← Cxx.get
  let data := bytesAt mem reader.currentPos
  match mp.mpTypeof (← deref mem reader.currentPos) with
  | .uint => return 0 ≤ key && ((mp.mpDecodeUint data).1 : Int) == key
  | .int => return (mp.mpDecodeInt data).1 == key
  | _ => return false

def findLoop (equals : Read Bool) : Nat → Read (Option (Nat × Nat))
  | 0 => return none
  | pairs + 1 => do
      let found ← equals
      skip mp mem
      let valueBegin := (← Cxx.get).currentPos
      skip mp mem
      let valueEnd := (← Cxx.get).currentPos
      if found then return some (valueBegin.getD 0, valueEnd.getD 0)
      findLoop equals pairs

/-- `mp_map::operator[]`: a reader over the value of the first equal key. -/
def mapAt {σ : Type} (map : MpReader) (equals : Read Bool) : Cxx Exn σ MpReader := do
  let tmp : MpReader := ⟨.plain, map.beginPos, map.endPos, map.beginPos, 0⟩
  let (value, _) ← Cxx.onObject (findLoop mp mem equals map.shape.cardinality) tmp
  match value with
  | some (first, last) =>
      if first < last then return MpReader.plain first last
      else Cxx.throw (mpReaderError "key not found")
  | none => Cxx.throw (mpReaderError "key not found")

end Reading

structure CanSkip (mp : Msgpuck) (mem : Bytes) (reader : MpReader) : Prop where
  before : atEnd reader = false
  room : ∀ limit ∈ reader.shape.limit, reader.currentInd < limit
  whole : ∀ pos ∈ reader.currentPos, ∀ last ∈ reader.endPos,
    pos + mp.mpNext (bytesAt mem reader.currentPos) ≤ last

def skipped (mp : Msgpuck) (mem : Bytes) (reader : MpReader) : MpReader :=
  reader.advance (mp.mpNext (bytesAt mem reader.currentPos))

section Skip
variable {mp : Msgpuck} {mem : Bytes} {reader : MpReader}

theorem skip_run (can : CanSkip mp mem reader) : skip mp mem reader =
    .returned () (reader.advance (mp.mpNext (bytesAt mem reader.currentPos))) := by
  have below : reader.shape.limit.any (· ≤ reader.currentInd) = false := by
    cases limited : reader.shape.limit with
    | none => rfl
    | some limit => simpa using can.room limit limited
  have whole := can.whole
  simp only [skip, Cxx.bind_get, can.before, below, Bool.false_eq_true, if_false, MpReader.advance]
  cases current : reader.currentPos with
  | none => simp
  | some pos =>
      cases ends : reader.endPos with
      | none => simp
      | some last =>
          have within := whole pos current last ends
          rw [current] at within
          simp [Nat.not_lt.mpr within]

theorem skip_refused (cannot : ¬ CanSkip mp mem reader) :
    ∃ error, skip mp mem reader = .thrown error reader := by
  by_cases stop : atEnd reader = true
  · exact ⟨_, by simp [skip, stop]; rfl⟩
  · by_cases counted : reader.shape.limit.any (· ≤ reader.currentInd) = true
    · exact ⟨_, by simp [skip, stop, counted]; rfl⟩
    · have room : ∀ limit ∈ reader.shape.limit, reader.currentInd < limit := by
        intro limit limited
        rw [limited] at counted
        simpa using counted
      have before : atEnd reader = false := by simpa using stop
      cases current : reader.currentPos with
      | none => simp [atEnd, current] at before
      | some pos =>
          cases ends : reader.endPos with
          | none => exact absurd ⟨before, room, by simp [ends]⟩ cannot
          | some last =>
              have beyond : last < pos + mp.mpNext (bytesAt mem (some pos)) := by
                apply Nat.lt_of_not_le
                intro whole
                apply cannot
                refine ⟨before, room, ?_⟩
                rw [current, ends]
                rintro _ ⟨⟩ _ ⟨⟩
                exact whole
              refine ⟨mpReaderError "invalid messagepack", ?_⟩
              simp [skip, before, counted, MpReader.advance, current, ends, beyond]

theorem can_skip_of_returned {value : Unit} {after : MpReader}
    (done : skip mp mem reader = .returned value after) : CanSkip mp mem reader := by
  apply Classical.byContradiction
  intro cannot
  obtain ⟨error, refused⟩ := skip_refused cannot
  cases done.symm.trans refused

theorem skip_thrown {error : Exn} {after : MpReader}
    (done : skip mp mem reader = .thrown error after) : after = reader := by
  by_cases can : CanSkip mp mem reader
  · cases done.symm.trans (skip_run can)
  · obtain ⟨same, refused⟩ := skip_refused can
    cases done.symm.trans refused
    rfl

theorem skip_skipped (can : CanSkip mp mem reader) :
    skip mp mem reader = .returned () (skipped mp mem reader) := skip_run can

theorem deref_run {σ : Type} (pos : Option Nat) (state : σ) : deref mem pos state =
    match pos.bind (mem[·]?) with
    | some byte => .returned byte state
    | none => .undefined := by
  unfold deref
  cases pos.bind (mem[·]?) <;> rfl

end Skip

namespace MpReader

def more (reader : MpReader) : Bool :=
  match reader.endPos, reader.beginPos, reader.shape.limit with
  | some last, _, _ => reader.currentPos.any (· < last)
  | none, none, _ => false
  | none, some _, some limit => reader.currentPos.isSome && reader.currentInd < limit
  | none, some _, none => true

def Unbounded (reader : MpReader) : Prop :=
  reader.endPos = none ∧ reader.beginPos.isSome ∧ reader.shape.limit = none

instance (reader : MpReader) : Decidable reader.Unbounded := inferInstanceAs (Decidable (_ ∧ _))

end MpReader

theorem has_next_run (reader : MpReader) (strict : Bool) : hasNext strict reader =
    if strict = true ∧ reader.Unbounded then
      .thrown (mpReaderError
        "unable to determine if next value exists - no right bound specified") reader
    else .returned reader.more reader := by
  cases ends : reader.endPos <;> cases begins : reader.beginPos <;>
    cases limited : reader.shape.limit <;> cases strict <;>
    simp [hasNext, MpReader.more, MpReader.Unbounded, ends, begins, limited]

/-- The bytes of one item stand at the cursor, followed by `rest`, inside the
right bound and below the cardinality of the reader. -/
structure Stands (mem : Bytes) (reader : MpReader) (bytes rest : Bytes) : Prop where
  placed : ∃ pos, reader.currentPos = some pos ∧ mem.drop pos = bytes ++ rest ∧
    ∀ last ∈ reader.endPos, pos + bytes.length ≤ last
  below : ∀ limit ∈ reader.shape.limit, reader.currentInd < limit

section Standing
variable {mp : Msgpuck} {mem bytes rest : Bytes} {reader : MpReader}

theorem stands_plain {pos : Nat} (shape : reader.shape = .plain)
    (current : reader.currentPos = some pos) (found : mem.drop pos = bytes ++ rest)
    (within : ∀ last ∈ reader.endPos, pos + bytes.length ≤ last) :
    Stands mem reader bytes rest := by
  refine ⟨⟨pos, current, found, within⟩, ?_⟩
  intro limit limited
  rw [shape] at limited
  cases limited

theorem stands_between {pos last : Nat} (found : mem.drop pos = bytes ++ rest)
    (within : pos + bytes.length ≤ last) :
    Stands mem (MpReader.plain pos last) bytes rest := by
  apply stands_plain rfl rfl found
  rintro _ ⟨⟩
  exact within

theorem Stands.bytes_at (stands : Stands mem reader bytes rest) :
    bytesAt mem reader.currentPos = bytes ++ rest := by
  obtain ⟨pos, current, found, _⟩ := stands.placed
  simpa [bytesAt, current] using found

theorem Stands.current_some (stands : Stands mem reader bytes rest) :
    reader.currentPos.isNone = false := by
  obtain ⟨pos, current, _⟩ := stands.placed
  simp [current]

theorem Stands.deref {σ : Type} {byte : UInt8} {tail : Bytes}
    (stands : Stands mem reader (byte :: tail) rest) (state : σ) :
    deref mem reader.currentPos state = .returned byte state := by
  obtain ⟨pos, current, found, _⟩ := stands.placed
  have here : mem[pos]? = some byte := by
    rw [← List.head?_drop, found]
    rfl
  simp [Cpp2tnt.deref, current, here]

theorem Stands.can_skip (implements : Implements mp) {value : Value}
    (encodes : Encodes value bytes) (stands : Stands mem reader bytes rest) :
    CanSkip mp mem reader := by
  have moved : mp.mpNext (bytesAt mem reader.currentPos) = bytes.length := by
    rw [stands.bytes_at, implements.next value bytes rest encodes]
  have headed := encodes.length_pos
  obtain ⟨pos, current, _, bounded⟩ := stands.placed
  refine ⟨?_, stands.below, ?_⟩
  · unfold atEnd
    rw [current]
    cases bound : reader.endPos with
    | none => rfl
    | some last =>
        have within := bounded last bound
        simp only [decide_eq_false_iff_not]
        omega
  · rw [moved, current]
    rintro _ ⟨⟩ last bound
    exact bounded last bound

theorem skip_returned (implements : Implements mp) {value : Value}
    (encodes : Encodes value bytes) (stands : Stands mem reader bytes rest) :
    skip mp mem reader = .returned () (reader.advance bytes.length) := by
  rw [skip_run (stands.can_skip implements encodes), stands.bytes_at,
    implements.next value bytes rest encodes]

/-- Where the first key is the one searched for, `operator[]` is a reader over its value. -/
theorem map_at_first {σ : Type} {state : σ} {equals : Read Bool} {map : MpReader}
    {name value : Value} {key text : Bytes} {first last pairs : Nat} (implements : Implements mp)
    (begins : map.beginPos = some first) (ends : map.endPos = some last)
    (counted : map.shape.cardinality = pairs + 1)
    (found : mem.drop first = key ++ (text ++ rest))
    (within : first + key.length + text.length ≤ last)
    (keyItem : Encodes name key) (textItem : Encodes value text)
    (equal : equals ⟨.plain, some first, some last, some first, 0⟩ =
      .returned true ⟨.plain, some first, some last, some first, 0⟩) :
    mapAt mp mem map equals state = .returned
      (MpReader.plain (first + key.length) (first + key.length + text.length)) state := by
  let tmp : MpReader := ⟨.plain, some first, some last, some first, 0⟩
  have keyStands : Stands mem tmp key (text ++ rest) := by
    apply stands_plain rfl rfl found
    rintro _ ⟨⟩
    exact Nat.le_trans (Nat.le_add_right _ _) within
  have textStands : Stands mem (tmp.advance key.length) text rest := by
    apply stands_plain rfl rfl
    · rw [← List.drop_drop, found, List.drop_left]
    · rintro _ ⟨⟩
      exact within
  have searched : findLoop mp mem equals (pairs + 1) tmp = .returned
      (some (first + key.length, first + key.length + text.length))
      ((tmp.advance key.length).advance text.length) := by
    rw [findLoop, Cxx.bind_returned equal, Cxx.bind_returned (skip_returned implements keyItem keyStands),
      Cxx.bind_get, Cxx.bind_returned (skip_returned implements textItem textStands), Cxx.bind_get]
    rfl
  have headed : first + key.length < first + key.length + text.length :=
    Nat.lt_add_of_pos_right textItem.length_pos
  rw [mapAt, begins, ends, counted]
  refine (Cxx.bind_returned (Cxx.onObject_returned searched _) _).trans ?_
  simp only [if_pos headed]
  rfl

/-- The reader can tell whether an item follows. A plain reader without a right
bound refuses the strict question and answers yes to the other one. -/
def MpReader.Knows (reader : MpReader) (strict : Bool) : Prop :=
  reader.endPos.isSome ∨ reader.beginPos.isSome ∧ (reader.shape.limit.isSome ∨ strict = false)

theorem has_next_returned {strict : Bool} (stands : Stands mem reader bytes rest)
    (headed : 0 < bytes.length) (knows : reader.Knows strict) :
    hasNext strict reader = .returned true reader := by
  obtain ⟨pos, current, _, bounded⟩ := stands.placed
  cases bound : reader.endPos with
  | some last =>
      have within := bounded last bound
      have before : pos < last := by omega
      simp [hasNext, bound, current, before]
  | none =>
      simp only [MpReader.Knows, bound, Option.isSome_none, Bool.false_eq_true, false_or] at knows
      obtain ⟨begun, limited⟩ := knows
      obtain ⟨first, start⟩ := Option.isSome_iff_exists.mp begun
      cases counted : reader.shape.limit with
      | some limit =>
          have below := stands.below limit counted
          simp [hasNext, bound, start, counted, current, below]
      | none =>
          simp only [counted, Option.isSome_none, Bool.false_eq_true, false_or] at limited
          simp [hasNext, bound, start, counted, limited]

/-! Each typed read of a well-formed item returns its value and moves over it. -/

theorem typeof_first (implements : Implements mp) {head : Head} {front back : Bytes}
    (encodes : HeadEncodes head front) (stands : Stands mem reader (front ++ back) rest) :
    ∃ byte, mp.mpTypeof byte = headType head ∧
      ∀ state : MpReader, Cpp2tnt.deref mem reader.currentPos state = .returned byte state := by
  obtain ⟨byte, tail, shape⟩ := List.exists_cons_of_ne_nil encodes.ne_nil
  rw [shape] at encodes stands
  refine ⟨byte, implements.typeof head byte tail encodes, ?_⟩
  intro state
  exact stands.deref state

theorem read_bool_returned (implements : Implements mp) (value : Bool)
    (encodes : HeadEncodes (.bool value) bytes) (stands : Stands mem reader bytes rest) :
    readBool mp mem reader = .returned value (reader.advance bytes.length) := by
  have item : Encodes (.bool value) bytes := encodes_plain encodes rfl
  have moved := skip_returned implements item stands
  have whole : Stands mem reader (bytes ++ []) rest := by simpa using stands
  obtain ⟨byte, type, read⟩ := typeof_first implements encodes whole
  simp only [readBool, Cxx.bind_get, stands.current_some, Bool.false_eq_true, if_false]
  rw [Cxx.bind_returned (read reader), type, if_neg (by simp [headType]),
    Cxx.bind_returned moved, stands.bytes_at, implements.decodeBool value bytes rest encodes]
  rfl

theorem IntType.cast_val {type : IntType} (value : type.Val) : type.cast value.1 = value := by
  obtain ⟨number, low, high⟩ := value
  apply Subtype.ext
  cases type <;>
    simp only [IntType.cast, min, max, bits, signed, if_true, Bool.false_eq_true, if_false]
      at low high ⊢ <;>
    split_ifs <;> omega

def intHead (number : Int) : Head := if 0 ≤ number then .uint number.toNat else .int number

theorem read_integral_returned (implements : Implements mp) (type : IntType) (value : type.Val)
    (encodes : HeadEncodes (intHead value.1) bytes) (stands : Stands mem reader bytes rest) :
    readIntegral mp mem type reader = .returned value (reader.advance bytes.length) := by
  have whole : Stands mem reader (bytes ++ []) rest := by simpa using stands
  obtain ⟨byte, same, read⟩ := typeof_first implements encodes whole
  have cast := IntType.cast_val value
  obtain ⟨number, low, high⟩ := value
  simp only [intHead] at encodes same
  simp only [readIntegral, Cxx.bind_get]
  by_cases natural : 0 ≤ number
  · rw [if_pos natural] at encodes same
    have moved := skip_returned implements (encodes_plain encodes rfl) stands
    have whole : ((number.toNat : Nat) : Int) = number := by omega
    rw [Cxx.bind_returned moved, Cxx.bind_returned (read _), same, stands.bytes_at,
      implements.decodeUint _ bytes rest encodes]
    simp only [headType, whole, if_pos high]
    rw [cast]
    rfl
  · rw [if_neg natural] at encodes same
    have moved := skip_returned implements (encodes_plain encodes rfl) stands
    have wide : type ≠ .uint64 := by
      rintro rfl
      exact natural low
    rw [Cxx.bind_returned moved, Cxx.bind_returned (read _), same, stands.bytes_at,
      implements.decodeInt _ bytes rest encodes]
    simp only [headType, if_neg wide, if_pos (And.intro high low)]
    rw [cast]
    rfl

theorem looks_at_item {α : Type} (more : hasNext false reader = .returned true reader) {byte : UInt8}
    (read : deref mem reader.currentPos reader = .returned byte reader)
    (next : MpReader → UInt8 → Read α) :
    (do
      if !(← hasNext false) then Cxx.throw (mpReaderError "read out of bounds")
      let reader ← Cxx.get
      next reader (← deref mem reader.currentPos)) reader = next reader byte reader := by
  rw [Cxx.bind_returned more]
  simp only [Bool.not_true, Bool.false_eq_true, if_false, Cxx.bind_get]
  rw [Cxx.bind_returned read]

theorem read_string_view_returned (implements : Implements mp) {front text : Bytes}
    (encodes : HeadEncodes (.str text.length) front)
    (stands : Stands mem reader (front ++ text) rest) (knows : reader.Knows false) :
    readStringView mp mem reader =
      .returned (some text) (reader.advance (front ++ text).length) := by
  have item := encodes_str encodes
  have more := has_next_returned stands item.length_pos knows
  have moved := skip_returned implements item stands
  obtain ⟨byte, type, read⟩ := typeof_first implements encodes stands
  rw [readStringView, Cxx.bind_returned more]
  simp only [Bool.not_true, Bool.false_eq_true, if_false, Cxx.bind_get]
  rw [Cxx.bind_returned (read reader), type]
  simp only [headType]
  rw [Cxx.bind_returned moved, stands.bytes_at, List.append_assoc,
    implements.decodeStr text.length front (text ++ rest) encodes]
  simp

theorem read_string_returned (implements : Implements mp) (prior : Bytes) {front text : Bytes}
    (encodes : HeadEncodes (.str text.length) front)
    (stands : Stands mem reader (front ++ text) rest) (knows : reader.Knows false) :
    readString mp mem prior reader =
      .returned text (reader.advance (front ++ text).length) := by
  obtain ⟨byte, type, read⟩ := typeof_first implements encodes stands
  have plain : mp.mpTypeof byte ≠ .ext := by
    rw [type]
    intro same
    cases same
  simp only [readString, Cxx.bind_get, stands.current_some, Bool.false_eq_true, if_false]
  rw [Cxx.bind_returned (read reader)]
  rw [if_neg plain]
  rw [Cxx.bind_returned (read_string_view_returned implements encodes stands knows)]
  rfl

/-- The reader an array or a map hands out for its items. -/
def innerReader (shape : Shape) (first last : Nat) : MpReader :=
  ⟨shape, some first, some last, some first, 0⟩

theorem read_array_returned (implements : Implements mp) {items : List Value} {front body : Bytes}
    (encodes : HeadEncodes (.array items.length) front) (inner : EncodesAll items body)
    (stands : Stands mem reader (front ++ body) rest) :
    ∃ pos, reader.currentPos = some pos ∧ mem.drop pos = front ++ body ++ rest ∧
      readArray mp mem reader = .returned
        (innerReader (.array items.length) (pos + front.length) (pos + (front ++ body).length))
        (reader.advance (front ++ body).length) := by
  have moved := skip_returned implements (encodes_array encodes inner) stands
  obtain ⟨byte, type, read⟩ := typeof_first implements encodes stands
  obtain ⟨pos, current, found, _⟩ := stands.placed
  refine ⟨pos, current, found, ?_⟩
  rw [current] at read
  have opened : mpArray mp mem (some pos) reader = .returned
      ⟨.array items.length, some (pos + front.length), none, some (pos + front.length), 0⟩
      reader := by
    rw [mpArray, Cxx.bind_returned (read reader), type]
    simp only [headType, found, List.append_assoc, implements.decodeArray _ front _ encodes,
      Cxx.pure_run]
  simp only [readArray, Cxx.bind_get, current]
  rw [Cxx.bind_returned opened, Cxx.bind_returned moved]
  simp [MpReader.advance, current, innerReader]

theorem read_map_returned (implements : Implements mp) {items : List Value} {front body : Bytes}
    {count : Nat} (encodes : HeadEncodes (.map count) front) (paired : items.length = 2 * count)
    (inner : EncodesAll items body) (stands : Stands mem reader (front ++ body) rest) :
    ∃ pos, reader.currentPos = some pos ∧ mem.drop pos = front ++ body ++ rest ∧
      readMap mp mem reader = .returned
        (innerReader (.map count) (pos + front.length) (pos + (front ++ body).length))
        (reader.advance (front ++ body).length) := by
  have moved := skip_returned implements (encodes_map encodes paired inner) stands
  obtain ⟨byte, type, read⟩ := typeof_first implements encodes stands
  obtain ⟨pos, current, found, _⟩ := stands.placed
  refine ⟨pos, current, found, ?_⟩
  rw [current] at read
  have opened : mpMap mp mem (some pos) reader = .returned
      ⟨.map count, some (pos + front.length), none, some (pos + front.length), 0⟩ reader := by
    simp only [mpMap]
    rw [Cxx.bind_returned (read reader), type]
    simp only [headType, Option.getD_some, found, List.append_assoc,
      implements.decodeMap _ front _ encodes, Cxx.pure_run]
  simp only [readMap, Cxx.bind_get, current]
  rw [Cxx.bind_returned opened, Cxx.bind_returned moved]
  simp [MpReader.advance, current, innerReader]

end Standing

end Cpp2tnt
