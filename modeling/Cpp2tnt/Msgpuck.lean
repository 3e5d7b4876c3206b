import Cpp2tnt.Library.WellFormed

/-!
The msgpuck library (`third_party/msgpuck`) is a git submodule without sources
here, so it is a parameter. A `Msgpuck` gives the functions this repository
calls; a function that takes `const char **` returns the number of bytes it
moves the cursor, one that writes returns the bytes written. `Implements` is the
documented contract: encoders are minimal, decoders read the one item they are
given. Nothing is assumed about malformed input.
-/

namespace Cpp2tnt
open MessagePack

inductive MpType where
  | nil | uint | int | str | bin | array | map | bool | float | double | ext
  deriving DecidableEq

def mpuckTypeName : MpType → String
  | .nil => "nil"
  | .uint => "uint"
  | .int => "int"
  | .str => "string"
  | .bin => "bin"
  | .array => "array"
  | .map => "map"
  | .bool => "bool"
  | .float => "float"
  | .double => "double"
  | .ext => "ext"

structure Msgpuck where
  mpTypeof : UInt8 → MpType
  mpNext : Bytes → Nat
  mpDecodeUint : Bytes → Nat × Nat
  mpDecodeInt : Bytes → Int × Nat
  mpDecodeBool : Bytes → Bool × Nat
  /-- The bits of the number. -/
  mpDecodeFloat : Bytes → Nat × Nat
  mpDecodeDouble : Bytes → Nat × Nat
  /-- The length of the text and the offset of its first character. -/
  mpDecodeStr : Bytes → Nat × Nat
  mpDecodeArray : Bytes → Nat × Nat
  mpDecodeMap : Bytes → Nat × Nat
  /-- The extension type, the payload length and the offset of the payload. -/
  mpDecodeExtl : Bytes → UInt8 × Nat × Nat
  /-- `mp_snprint(buf, size, data, flags)`: the result and what it left in `buf`. The
  size is an `int`, given by its word. -/
  mpSnprint : Nat → Bytes → Nat → Int × Bytes
  mpEncodeNil : Bytes
  mpEncodeBool : Bool → Bytes
  mpEncodeUint : Nat → Bytes
  mpEncodeInt : Int → Bytes
  mpEncodeFloat : Nat → Bytes
  mpEncodeDouble : Nat → Bytes
  mpEncodeStrl : Nat → Bytes
  mpEncodeStr : Bytes → Bytes
  mpEncodeArray : Nat → Bytes
  mpEncodeMap : Nat → Bytes
  mpSizeofArray : Nat → Nat
  mpSizeofMap : Nat → Nat
  mpStoreU8 : Nat → Bytes
  mpStoreU16 : Nat → Bytes
  mpStoreU32 : Nat → Bytes
  mpStoreU64 : Nat → Bytes
  /-- The extension types `MP_ERROR`, `MP_INTERVAL` and `MP_DATETIME` of `ext_tnt.h`. -/
  mpError : UInt8
  mpInterval : UInt8
  mpDatetime : UInt8

def headType : Head → MpType
  | .nil => .nil
  | .bool _ => .bool
  | .uint _ => .uint
  | .int _ => .int
  | .float _ => .float
  | .double _ => .double
  | .str _ => .str
  | .bin _ => .bin
  | .array _ => .array
  | .map _ => .map
  | .ext _ _ => .ext

structure Implements (mp : Msgpuck) : Prop where
  typeof : ∀ head byte tail, HeadEncodes head (byte :: tail) → mp.mpTypeof byte = headType head
  next : ∀ value bytes rest, Encodes value bytes → mp.mpNext (bytes ++ rest) = bytes.length
  decodeUint : ∀ number bytes rest, HeadEncodes (.uint number) bytes →
    mp.mpDecodeUint (bytes ++ rest) = (number, bytes.length)
  decodeInt : ∀ number bytes rest, HeadEncodes (.int number) bytes →
    mp.mpDecodeInt (bytes ++ rest) = (number, bytes.length)
  decodeBool : ∀ value bytes rest, HeadEncodes (.bool value) bytes →
    mp.mpDecodeBool (bytes ++ rest) = (value, bytes.length)
  decodeStr : ∀ length bytes rest, HeadEncodes (.str length) bytes →
    mp.mpDecodeStr (bytes ++ rest) = (length, bytes.length)
  decodeArray : ∀ count bytes rest, HeadEncodes (.array count) bytes →
    mp.mpDecodeArray (bytes ++ rest) = (count, bytes.length)
  decodeMap : ∀ count bytes rest, HeadEncodes (.map count) bytes →
    mp.mpDecodeMap (bytes ++ rest) = (count, bytes.length)
  encodeNil : mp.mpEncodeNil = encodeNil
  encodeBool : ∀ value, mp.mpEncodeBool value = encodeBool value
  encodeUint : ∀ number < 2 ^ 64, mp.mpEncodeUint number = encodeUint number
  encodeInt : ∀ number, number < 0 → -2 ^ 63 ≤ number → mp.mpEncodeInt number = encodeInt number
  encodeFloat : ∀ bits < 2 ^ 32, mp.mpEncodeFloat bits = encodeFloat bits
  encodeDouble : ∀ bits < 2 ^ 64, mp.mpEncodeDouble bits = encodeDouble bits
  encodeStrl : ∀ length < 2 ^ 32, mp.mpEncodeStrl length = encodeStrHead length
  encodeStr : ∀ text : Bytes, text.length < 2 ^ 32 →
    mp.mpEncodeStr text = encodeStrHead text.length ++ text
  encodeArray : ∀ count < 2 ^ 32, mp.mpEncodeArray count = encodeArrayHead count
  encodeMap : ∀ count < 2 ^ 32, mp.mpEncodeMap count = encodeMapHead count
  sizeofArray : ∀ count < 2 ^ 32, mp.mpSizeofArray count = (encodeArrayHead count).length
  sizeofMap : ∀ count < 2 ^ 32, mp.mpSizeofMap count = (encodeMapHead count).length
  storeU8 : ∀ number < 2 ^ 8, mp.mpStoreU8 number = bigEndian 1 number
  storeU16 : ∀ number < 2 ^ 16, mp.mpStoreU16 number = bigEndian 2 number
  storeU32 : ∀ number < 2 ^ 32, mp.mpStoreU32 number = bigEndian 4 number
  storeU64 : ∀ number < 2 ^ 64, mp.mpStoreU64 number = bigEndian 8 number

/-- The rest of the decoders read the one item they are given, too. -/
structure ReadsItems (mp : Msgpuck) : Prop where
  decodeFloat : ∀ bits bytes rest, HeadEncodes (.float bits) bytes →
    mp.mpDecodeFloat (bytes ++ rest) = (bits, bytes.length)
  decodeDouble : ∀ bits bytes rest, HeadEncodes (.double bits) bytes →
    mp.mpDecodeDouble (bytes ++ rest) = (bits, bytes.length)
  decodeExtl : ∀ type length bytes rest, HeadEncodes (.ext type length) bytes →
    mp.mpDecodeExtl (bytes ++ rest) = (type, length, bytes.length)
  snprint : ∀ value bytes rest size flags, Encodes value bytes →
    mp.mpSnprint size (bytes ++ rest) flags = mp.mpSnprint size bytes flags

/-- `mp_next` moves forward over any bytes, so a loop over them ends. -/
def MovesForward (mp : Msgpuck) : Prop := ∀ data, data ≠ [] → 0 < mp.mpNext data

/-!
The format's own decoder satisfies the contract, so the hypotheses above are
consistent and the theorems that use them speak about something.
-/

def typeOfTag : Nat → MpType
  | 0xc0 => .nil
  | 0xc2 | 0xc3 => .bool
  | 0xc4 | 0xc5 | 0xc6 => .bin
  | 0xca => .float
  | 0xcb => .double
  | 0xcc | 0xcd | 0xce | 0xcf => .uint
  | 0xd0 | 0xd1 | 0xd2 | 0xd3 => .int
  | 0xd9 | 0xda | 0xdb => .str
  | 0xdc | 0xdd => .array
  | 0xde | 0xdf => .map
  | _ => .ext

def typeOfByte (byte : UInt8) : MpType :=
  let tag := byte.toNat
  if tag < 0x80 then .uint
  else if tag < 0x90 then .map
  else if tag < 0xa0 then .array
  else if tag < 0xc0 then .str
  else if 0xe0 ≤ tag then .int
  else typeOfTag tag

def headOf {α : Type} (other : α) (pick : Head → Option α) (input : Bytes) : α × Nat :=
  match decodeHead input with
  | some (head, rest) => ((pick head).getD other, input.length - rest.length)
  | none => (other, 0)

def reference : Msgpuck where
  mpTypeof := typeOfByte
  mpNext input := match decode input with
    | some (_, rest) => input.length - rest.length
    | none => 1
  mpDecodeUint := headOf 0 fun | .uint number => some number | _ => none
  mpDecodeInt := headOf 0 fun | .int number => some number | _ => none
  mpDecodeBool := headOf false fun | .bool value => some value | _ => none
  mpDecodeFloat := headOf 0 fun | .float bits => some bits | _ => none
  mpDecodeDouble := headOf 0 fun | .double bits => some bits | _ => none
  mpDecodeStr := headOf 0 fun | .str length => some length | _ => none
  mpDecodeArray := headOf 0 fun | .array count => some count | _ => none
  mpDecodeMap := headOf 0 fun | .map count => some count | _ => none
  mpDecodeExtl input :=
    let found := headOf (0, 0) (fun | .ext type length => some (type, length) | _ => none) input
    (found.1.1, found.1.2, found.2)
  mpSnprint _ _ _ := (-1, [])
  mpEncodeNil := encodeNil
  mpEncodeBool := encodeBool
  mpEncodeUint := encodeUint
  mpEncodeInt := encodeInt
  mpEncodeFloat := encodeFloat
  mpEncodeDouble := encodeDouble
  mpEncodeStrl := encodeStrHead
  mpEncodeStr text := encodeStrHead text.length ++ text
  mpEncodeArray := encodeArrayHead
  mpEncodeMap := encodeMapHead
  mpSizeofArray count := (encodeArrayHead count).length
  mpSizeofMap count := (encodeMapHead count).length
  mpStoreU8 := bigEndian 1
  mpStoreU16 := bigEndian 2
  mpStoreU32 := bigEndian 4
  mpStoreU64 := bigEndian 8
  mpError := 3
  mpInterval := 6
  mpDatetime := 4

theorem head_of_encodes {α : Type} {head : Head} {bytes : Bytes}
    (encodes : HeadEncodes head bytes) (other : α) (pick : Head → Option α) (rest : Bytes) :
    headOf other pick (bytes ++ rest) = ((pick head).getD other, bytes.length) := by
  simp [headOf, encodes rest]

theorem word_head_type {make : Nat → Head} {width : Nat} {input rest : Bytes} {head : Head}
    {type : MpType} (same : ∀ number, headType (make number) = type)
    (decoded : wordHead make width input = some (head, rest)) : headType head = type := by
  simp only [wordHead, Option.map_eq_some_iff, Prod.mk.injEq] at decoded
  obtain ⟨word, _, rfl, _⟩ := decoded
  exact same _

theorem ext_head_type {length : Nat} {input rest : Bytes} {head : Head}
    (decoded : extHead length input = some (head, rest)) : headType head = .ext := by
  cases input with
  | nil => simp [extHead] at decoded
  | cons type tail => cases decoded; rfl

theorem long_ext_head_type {width : Nat} {input rest : Bytes} {head : Head}
    (decoded : longExtHead width input = some (head, rest)) : headType head = .ext := by
  simp only [longExtHead, Option.bind_eq_some_iff] at decoded
  obtain ⟨word, _, decoded⟩ := decoded
  exact ext_head_type decoded

theorem type_of_tag_exact (tag : Nat) (input rest : Bytes) (head : Head)
    (decoded : taggedHead tag input = some (head, rest)) : typeOfTag tag = headType head := by
  unfold taggedHead at decoded
  split at decoded
  all_goals first
    | (cases decoded <;> rfl)
    | exact (word_head_type (by intro number; rfl) decoded).symm
    | exact (ext_head_type decoded).symm
    | exact (long_ext_head_type decoded).symm

theorem type_of_byte_exact (byte : UInt8) (input rest : Bytes) (head : Head)
    (decoded : decodeHead (byte :: input) = some (head, rest)) :
    typeOfByte byte = headType head := by
  simp only [decodeHead, typeOfByte] at decoded ⊢
  split_ifs at decoded ⊢ with fix map array str negative
  · cases decoded; rfl
  · cases decoded; rfl
  · cases decoded; rfl
  · cases decoded; rfl
  · cases decoded; rfl
  · exact type_of_tag_exact _ input rest head decoded

theorem reference_implements : Implements reference where
  typeof head byte tail encodes := by
    have decoded := encodes []
    rw [List.append_nil] at decoded
    exact type_of_byte_exact byte tail [] head decoded
  next value bytes rest encodes := by simp [reference, encodes rest]
  decodeUint number bytes rest encodes := head_of_encodes encodes _ _ rest
  decodeInt number bytes rest encodes := head_of_encodes encodes _ _ rest
  decodeBool value bytes rest encodes := head_of_encodes encodes _ _ rest
  decodeStr length bytes rest encodes := head_of_encodes encodes _ _ rest
  decodeArray count bytes rest encodes := head_of_encodes encodes _ _ rest
  decodeMap count bytes rest encodes := head_of_encodes encodes _ _ rest
  encodeNil := rfl
  encodeBool _ := rfl
  encodeUint _ _ := rfl
  encodeInt _ _ _ := rfl
  encodeFloat _ _ := rfl
  encodeDouble _ _ := rfl
  encodeStrl _ _ := rfl
  encodeStr _ _ := rfl
  encodeArray _ _ := rfl
  encodeMap _ _ := rfl
  sizeofArray _ _ := rfl
  sizeofMap _ _ := rfl
  storeU8 _ _ := rfl
  storeU16 _ _ := rfl
  storeU32 _ _ := rfl
  storeU64 _ _ := rfl

theorem reference_reads_items : ReadsItems reference where
  decodeFloat bits bytes rest encodes := head_of_encodes encodes _ _ rest
  decodeDouble bits bytes rest encodes := head_of_encodes encodes _ _ rest
  decodeExtl type length bytes rest encodes := by
    simp only [reference]
    rw [head_of_encodes encodes]
    rfl
  snprint _ _ _ _ _ _ := rfl

theorem reference_moves : MovesForward reference := by
  intro data given
  change 0 < match decode data with
    | some (_, rest) => data.length - rest.length
    | none => 1
  cases decoded : decode data with
  | none => exact Nat.one_pos
  | some item =>
      obtain ⟨value, rest⟩ := item
      obtain ⟨head, front, body, split, encodes, _⟩ := decode_fuel_apart _ data value rest decoded
      have headed := List.length_pos_of_ne_nil encodes.ne_nil
      have sizes := congrArg List.length split
      rw [List.length_append, List.length_append] at sizes
      simp only
      omega

end Cpp2tnt
