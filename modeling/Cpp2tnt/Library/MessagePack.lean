import Mathlib.Data.List.Basic
import Mathlib.Tactic.Ring
import Mathlib.Tactic.NormNum
import Mathlib.Tactic.Positivity
import Mathlib.Tactic.SplitIfs

/-!
The MessagePack format. An item is a head and, for strings, extensions and
containers, a payload. `decodeHead` and `decode` read one head and one whole
item from the front of a byte string; they accept every encoding the format
allows, minimal or not. `HeadEncodes` and `Encodes` say that bytes are one head
or one item whatever follows them. The encoders are the minimal ones.
-/

namespace MessagePack

abbrev Bytes := List UInt8

def bigEndian : Nat → Nat → Bytes
  | 0, _ => []
  | width + 1, number => bigEndian width (number / 256) ++ [UInt8.ofNat number]

def ofBigEndian (word : Bytes) : Nat :=
  word.foldl (fun number byte => number * 256 + byte.toNat) 0

@[simp] theorem big_endian_length (width number : Nat) :
    (bigEndian width number).length = width := by
  induction width generalizing number with
  | zero => rfl
  | succ width ih => simp [bigEndian, ih]

theorem of_big_endian (width number : Nat) (bounded : number < 256 ^ width) :
    ofBigEndian (bigEndian width number) = number := by
  induction width generalizing number with
  | zero =>
      have zero : number = 0 := by simpa using bounded
      simp [bigEndian, ofBigEndian, zero]
  | succ width ih =>
      have smaller : number / 256 < 256 ^ width := by
        rw [Nat.div_lt_iff_lt_mul (by omega)]
        simpa [Nat.pow_succ] using bounded
      have front := ih (number / 256) smaller
      simp only [ofBigEndian] at front ⊢
      simp only [bigEndian, List.foldl_append, front, List.foldl_cons, List.foldl_nil,
        UInt8.toNat_ofNat']
      omega

theorem big_endian_append (front width number : Nat) : bigEndian (front + width) number =
    bigEndian front (number / 256 ^ width) ++ bigEndian width (number % 256 ^ width) := by
  induction width generalizing number with
  | zero => simp [bigEndian]
  | succ width ih =>
      have upper : number / 256 / 256 ^ width = number / 256 ^ (width + 1) := by
        rw [Nat.div_div_eq_div_mul, Nat.pow_succ']
      have middle : number % 256 ^ (width + 1) / 256 = number / 256 % 256 ^ width := by
        rw [Nat.pow_succ', Nat.mod_mul_right_div_self]
      have last : UInt8.ofNat (number % 256 ^ (width + 1)) = UInt8.ofNat number := by
        apply UInt8.toNat_inj.mp
        rw [UInt8.toNat_ofNat', UInt8.toNat_ofNat', Nat.pow_succ']
        exact Nat.mod_mul_right_mod number 256 _
      rw [← Nat.add_assoc, bigEndian, ih, upper, bigEndian, middle, last, List.append_assoc]

theorem big_endian_mod (width number : Nat) :
    bigEndian width (number % 256 ^ width) = bigEndian width number := by
  have whole := big_endian_append 0 width number
  rw [Nat.zero_add, bigEndian, List.nil_append] at whole
  exact whole.symm

def takeWord (width : Nat) (input : Bytes) : Option (Nat × Bytes) :=
  if width ≤ input.length then some (ofBigEndian (input.take width), input.drop width) else none

@[simp] theorem take_word_append (width number : Nat) (rest : Bytes)
    (bounded : number < 256 ^ width) :
    takeWord width (bigEndian width number ++ rest) = some (number, rest) := by
  have size := big_endian_length width number
  rw [takeWord, if_pos (by simp), List.take_left' size, List.drop_left' size,
    of_big_endian width number bounded]

def takeBytes (count : Nat) (input : Bytes) : Option (Bytes × Bytes) :=
  if count ≤ input.length then some (input.take count, input.drop count) else none

@[simp] theorem take_bytes_append (data rest : Bytes) :
    takeBytes data.length (data ++ rest) = some (data, rest) := by
  simp [takeBytes]

def signed (width number : Nat) : Int :=
  if number < 2 ^ (8 * width - 1) then (number : Int) else (number : Int) - 2 ^ (8 * width)

inductive Head where
  | nil
  | bool (value : Bool)
  | uint (number : Nat)
  | int (number : Int)
  | float (bits : Nat)
  | double (bits : Nat)
  | str (length : Nat)
  | bin (length : Nat)
  | array (count : Nat)
  | map (count : Nat)
  | ext (type : UInt8) (length : Nat)
  deriving DecidableEq

def wordHead (make : Nat → Head) (width : Nat) (input : Bytes) : Option (Head × Bytes) :=
  (takeWord width input).map fun word => (make word.1, word.2)

def extHead (length : Nat) : Bytes → Option (Head × Bytes)
  | [] => none
  | type :: rest => some (.ext type length, rest)

def longExtHead (width : Nat) (input : Bytes) : Option (Head × Bytes) :=
  (takeWord width input).bind fun word => extHead word.1 word.2

def taggedHead (tag : Nat) (rest : Bytes) : Option (Head × Bytes) :=
  match tag with
  | 0xc0 => some (.nil, rest)
  | 0xc2 => some (.bool false, rest)
  | 0xc3 => some (.bool true, rest)
  | 0xc4 => wordHead .bin 1 rest
  | 0xc5 => wordHead .bin 2 rest
  | 0xc6 => wordHead .bin 4 rest
  | 0xc7 => longExtHead 1 rest
  | 0xc8 => longExtHead 2 rest
  | 0xc9 => longExtHead 4 rest
  | 0xca => wordHead .float 4 rest
  | 0xcb => wordHead .double 8 rest
  | 0xcc => wordHead .uint 1 rest
  | 0xcd => wordHead .uint 2 rest
  | 0xce => wordHead .uint 4 rest
  | 0xcf => wordHead .uint 8 rest
  | 0xd0 => wordHead (fun number => .int (signed 1 number)) 1 rest
  | 0xd1 => wordHead (fun number => .int (signed 2 number)) 2 rest
  | 0xd2 => wordHead (fun number => .int (signed 4 number)) 4 rest
  | 0xd3 => wordHead (fun number => .int (signed 8 number)) 8 rest
  | 0xd4 => extHead 1 rest
  | 0xd5 => extHead 2 rest
  | 0xd6 => extHead 4 rest
  | 0xd7 => extHead 8 rest
  | 0xd8 => extHead 16 rest
  | 0xd9 => wordHead .str 1 rest
  | 0xda => wordHead .str 2 rest
  | 0xdb => wordHead .str 4 rest
  | 0xdc => wordHead .array 2 rest
  | 0xdd => wordHead .array 4 rest
  | 0xde => wordHead .map 2 rest
  | 0xdf => wordHead .map 4 rest
  | _ => none

def decodeHead : Bytes → Option (Head × Bytes)
  | [] => none
  | byte :: rest =>
      let tag := byte.toNat
      if tag < 0x80 then some (.uint tag, rest)
      else if tag < 0x90 then some (.map (tag - 0x80), rest)
      else if tag < 0xa0 then some (.array (tag - 0x90), rest)
      else if tag < 0xc0 then some (.str (tag - 0xa0), rest)
      else if 0xe0 ≤ tag then some (.int ((tag : Int) - 256), rest)
      else taggedHead tag rest

def HeadEncodes (head : Head) (bytes : Bytes) : Prop :=
  ∀ rest, decodeHead (bytes ++ rest) = some (head, rest)

theorem HeadEncodes.ne_nil {head : Head} {bytes : Bytes} (encodes : HeadEncodes head bytes) :
    bytes ≠ [] := by
  rintro rfl
  simpa [decodeHead] using encodes []

def encodeNil : Bytes := [0xc0]

def encodeBool (value : Bool) : Bytes := if value then [0xc3] else [0xc2]

def encodeUint (number : Nat) : Bytes :=
  if number < 0x80 then [UInt8.ofNat number]
  else if number < 2 ^ 8 then 0xcc :: bigEndian 1 number
  else if number < 2 ^ 16 then 0xcd :: bigEndian 2 number
  else if number < 2 ^ 32 then 0xce :: bigEndian 4 number
  else 0xcf :: bigEndian 8 number

def unsignedWord (width : Nat) (number : Int) : Nat := (number + 2 ^ (8 * width)).toNat

def encodeInt (number : Int) : Bytes :=
  if -32 ≤ number then [UInt8.ofNat (unsignedWord 1 number)]
  else if -2 ^ 7 ≤ number then 0xd0 :: bigEndian 1 (unsignedWord 1 number)
  else if -2 ^ 15 ≤ number then 0xd1 :: bigEndian 2 (unsignedWord 2 number)
  else if -2 ^ 31 ≤ number then 0xd2 :: bigEndian 4 (unsignedWord 4 number)
  else 0xd3 :: bigEndian 8 (unsignedWord 8 number)

def encodeFloat (bits : Nat) : Bytes := 0xca :: bigEndian 4 bits

def encodeDouble (bits : Nat) : Bytes := 0xcb :: bigEndian 8 bits

def encodeStrHead (length : Nat) : Bytes :=
  if length < 32 then [UInt8.ofNat (0xa0 + length)]
  else if length < 2 ^ 8 then 0xd9 :: bigEndian 1 length
  else if length < 2 ^ 16 then 0xda :: bigEndian 2 length
  else 0xdb :: bigEndian 4 length

def encodeArrayHead (count : Nat) : Bytes :=
  if count < 16 then [UInt8.ofNat (0x90 + count)]
  else if count < 2 ^ 16 then 0xdc :: bigEndian 2 count
  else 0xdd :: bigEndian 4 count

def encodeMapHead (count : Nat) : Bytes :=
  if count < 16 then [UInt8.ofNat (0x80 + count)]
  else if count < 2 ^ 16 then 0xde :: bigEndian 2 count
  else 0xdf :: bigEndian 4 count

theorem word_head_append (make : Nat → Head) (width number : Nat) (rest : Bytes)
    (bounded : number < 256 ^ width) :
    wordHead make width (bigEndian width number ++ rest) = some (make number, rest) := by
  simp [wordHead, take_word_append width number rest bounded]

theorem encode_nil_head : HeadEncodes .nil encodeNil := fun _ => rfl

theorem encode_bool_head (value : Bool) : HeadEncodes (.bool value) (encodeBool value) := by
  intro rest
  cases value <;> rfl

theorem wide_uint_head (width : Nat) (tag : UInt8) (number : Nat)
    (known : (width, tag) ∈ [(1, 0xcc), (2, 0xcd), (4, 0xce), (8, (0xcf : UInt8))])
    (bounded : number < 256 ^ width) :
    HeadEncodes (.uint number) (tag :: bigEndian width number) := by
  intro rest
  simp only [List.mem_cons, Prod.mk.injEq, List.not_mem_nil, or_false] at known
  rcases known with ⟨rfl, rfl⟩ | ⟨rfl, rfl⟩ | ⟨rfl, rfl⟩ | ⟨rfl, rfl⟩ <;>
    exact word_head_append .uint _ number rest bounded

theorem fix_uint_head (number : Nat) (small : number < 0x80) :
    HeadEncodes (.uint number) [UInt8.ofNat number] := by
  intro rest
  have tag : (UInt8.ofNat number).toNat = number := by
    rw [UInt8.toNat_ofNat']; omega
  simp [decodeHead, tag, small]

theorem encode_uint_head (number : Nat) (bounded : number < 2 ^ 64) :
    HeadEncodes (.uint number) (encodeUint number) := by
  unfold encodeUint
  split_ifs with fix byte half word
  · exact fix_uint_head number fix
  · exact wide_uint_head 1 _ number (by simp) (by omega)
  · exact wide_uint_head 2 _ number (by simp) (by omega)
  · exact wide_uint_head 4 _ number (by simp) (by omega)
  · exact wide_uint_head 8 _ number (by simp) (by omega)

theorem unsigned_word_lt (width : Nat) (number : Int) (wide : 0 < width)
    (negative : number < 0) (bounded : -2 ^ (8 * width - 1) ≤ number) :
    unsignedWord width number < 256 ^ width := by
  have half : (2 : Int) ^ (8 * width) = 2 * 2 ^ (8 * width - 1) := by
    rw [← pow_succ', Nat.sub_add_cancel (by omega)]
  have size : ((256 ^ width : Nat) : Int) = 2 ^ (8 * width) := by
    rw [pow_mul]; norm_num
  have positive : (0 : Int) < 2 ^ (8 * width - 1) := by positivity
  unfold unsignedWord
  omega

theorem signed_unsigned_word (width : Nat) (number : Int) (wide : 0 < width)
    (negative : number < 0) (bounded : -2 ^ (8 * width - 1) ≤ number) :
    signed width (unsignedWord width number) = number := by
  have half : (2 : Int) ^ (8 * width) = 2 * 2 ^ (8 * width - 1) := by
    rw [← pow_succ', Nat.sub_add_cancel (by omega)]
  have size : ((2 ^ (8 * width - 1) : Nat) : Int) = 2 ^ (8 * width - 1) := by norm_num
  unfold signed unsignedWord
  rw [if_neg (by omega)]
  omega

theorem wide_int_head (width : Nat) (tag : UInt8) (number : Int)
    (known : (width, tag) ∈ [(1, 0xd0), (2, 0xd1), (4, 0xd2), (8, (0xd3 : UInt8))])
    (negative : number < 0) (bounded : -2 ^ (8 * width - 1) ≤ number) :
    HeadEncodes (.int number) (tag :: bigEndian width (unsignedWord width number)) := by
  intro rest
  simp only [List.mem_cons, Prod.mk.injEq, List.not_mem_nil, or_false] at known
  have value := signed_unsigned_word width number (by omega) negative bounded
  have word := unsigned_word_lt width number (by omega) negative bounded
  rcases known with ⟨rfl, rfl⟩ | ⟨rfl, rfl⟩ | ⟨rfl, rfl⟩ | ⟨rfl, rfl⟩ <;>
    exact (word_head_append (fun number => .int (signed _ number)) _ _ rest word).trans
      (by rw [value])

theorem fix_int_head (number : Int) (negative : number < 0) (small : -32 ≤ number) :
    HeadEncodes (.int number) [UInt8.ofNat (unsignedWord 1 number)] := by
  intro rest
  have tag : (UInt8.ofNat (unsignedWord 1 number)).toNat = unsignedWord 1 number := by
    rw [UInt8.toNat_ofNat']; simp only [unsignedWord]; omega
  have high : 0xe0 ≤ unsignedWord 1 number := by simp only [unsignedWord]; omega
  have value : ((unsignedWord 1 number : Nat) : Int) - 256 = number := by
    simp only [unsignedWord]; omega
  simp only [List.cons_append, List.nil_append, decodeHead, tag]
  rw [if_neg (by omega), if_neg (by omega), if_neg (by omega), if_neg (by omega), if_pos high, value]

theorem encode_int_head (number : Int) (negative : number < 0) (bounded : -2 ^ 63 ≤ number) :
    HeadEncodes (.int number) (encodeInt number) := by
  unfold encodeInt
  split_ifs with fix byte half word
  · exact fix_int_head number negative fix
  · exact wide_int_head 1 _ number (by simp) negative byte
  · exact wide_int_head 2 _ number (by simp) negative half
  · exact wide_int_head 4 _ number (by simp) negative word
  · exact wide_int_head 8 _ number (by simp) negative bounded

theorem encode_float_head (bits : Nat) (bounded : bits < 2 ^ 32) :
    HeadEncodes (.float bits) (encodeFloat bits) :=
  fun rest => word_head_append .float 4 bits rest (by omega)

theorem encode_double_head (bits : Nat) (bounded : bits < 2 ^ 64) :
    HeadEncodes (.double bits) (encodeDouble bits) :=
  fun rest => word_head_append .double 8 bits rest (by omega)

theorem encode_str_head (length : Nat) (bounded : length < 2 ^ 32) :
    HeadEncodes (.str length) (encodeStrHead length) := by
  intro rest
  unfold encodeStrHead
  split_ifs with fix byte half
  · have tag : (UInt8.ofNat (0xa0 + length)).toNat = 0xa0 + length := by
      rw [UInt8.toNat_ofNat']; omega
    simp only [List.cons_append, List.nil_append, decodeHead, tag]
    rw [if_neg (by omega), if_neg (by omega), if_neg (by omega), if_pos (by omega),
      Nat.add_sub_cancel_left]
  · exact word_head_append .str 1 length rest (by omega)
  · exact word_head_append .str 2 length rest (by omega)
  · exact word_head_append .str 4 length rest (by omega)

theorem fix_array_head (count : Nat) (small : count < 16) :
    HeadEncodes (.array count) [UInt8.ofNat (0x90 + count)] := by
  intro rest
  have tag : (UInt8.ofNat (0x90 + count)).toNat = 0x90 + count := by
    rw [UInt8.toNat_ofNat']; omega
  simp only [List.cons_append, List.nil_append, decodeHead, tag]
  rw [if_neg (by omega), if_neg (by omega), if_pos (by omega), Nat.add_sub_cancel_left]

theorem fix_map_head (count : Nat) (small : count < 16) :
    HeadEncodes (.map count) [UInt8.ofNat (0x80 + count)] := by
  intro rest
  have tag : (UInt8.ofNat (0x80 + count)).toNat = 0x80 + count := by
    rw [UInt8.toNat_ofNat']; omega
  simp only [List.cons_append, List.nil_append, decodeHead, tag]
  rw [if_neg (by omega), if_pos (by omega), Nat.add_sub_cancel_left]

theorem array16_head (count : Nat) (bounded : count < 2 ^ 16) :
    HeadEncodes (.array count) (0xdc :: bigEndian 2 count) :=
  fun rest => word_head_append .array 2 count rest (by omega)

theorem array32_head (count : Nat) (bounded : count < 2 ^ 32) :
    HeadEncodes (.array count) (0xdd :: bigEndian 4 count) :=
  fun rest => word_head_append .array 4 count rest (by omega)

theorem map16_head (count : Nat) (bounded : count < 2 ^ 16) :
    HeadEncodes (.map count) (0xde :: bigEndian 2 count) :=
  fun rest => word_head_append .map 2 count rest (by omega)

theorem map32_head (count : Nat) (bounded : count < 2 ^ 32) :
    HeadEncodes (.map count) (0xdf :: bigEndian 4 count) :=
  fun rest => word_head_append .map 4 count rest (by omega)

theorem encode_array_head (count : Nat) (bounded : count < 2 ^ 32) :
    HeadEncodes (.array count) (encodeArrayHead count) := by
  unfold encodeArrayHead
  split_ifs with fix half
  · exact fix_array_head count fix
  · exact array16_head count half
  · exact array32_head count bounded

theorem encode_map_head (count : Nat) (bounded : count < 2 ^ 32) :
    HeadEncodes (.map count) (encodeMapHead count) := by
  unfold encodeMapHead
  split_ifs with fix half
  · exact fix_map_head count fix
  · exact map16_head count half
  · exact map32_head count bounded

/-! Arrays and maps have the same three header widths. -/

inductive Container where
  | array
  | map
  deriving DecidableEq

def Container.head : Container → Nat → Head
  | .array => .array
  | .map => .map

def Container.encode : Container → Nat → Bytes
  | .array => encodeArrayHead
  | .map => encodeMapHead

def Container.tag : Container → UInt8
  | .array => 0xdc
  | .map => 0xde

/-- The cardinality of a container with that many items in its body. -/
def Container.cardinality : Container → Nat → Nat
  | .array, items => items
  | .map, items => items / 2

theorem Container.encode_head (kind : Container) (count : Nat) (bounded : count < 2 ^ 32) :
    HeadEncodes (kind.head count) (kind.encode count) := by
  cases kind with
  | array => exact encode_array_head count bounded
  | map => exact encode_map_head count bounded

theorem Container.encode_length (kind : Container) (count : Nat) :
    (kind.encode count).length = if count < 16 then 1 else if count < 2 ^ 16 then 3 else 5 := by
  cases kind <;> simp only [encode, encodeArrayHead, encodeMapHead] <;> split_ifs <;> simp

theorem Container.encode_half (kind : Container) (count : Nat) (large : ¬ count < 16)
    (half : count < 2 ^ 16) : kind.encode count = kind.tag :: bigEndian 2 count := by
  cases kind <;> simp only [encode, encodeArrayHead, encodeMapHead] <;>
    rw [if_neg large, if_pos half] <;> rfl

theorem Container.encode_word (kind : Container) (count : Nat) (large : ¬ count < 2 ^ 16) :
    kind.encode count = (kind.tag + 1) :: bigEndian 4 count := by
  cases kind <;> simp only [encode, encodeArrayHead, encodeMapHead] <;>
    rw [if_neg (by omega), if_neg large] <;> rfl

theorem Container.half_head (kind : Container) (count : Nat) (bounded : count < 2 ^ 16) :
    HeadEncodes (kind.head count) (kind.tag :: bigEndian 2 count) := by
  cases kind with
  | array => exact array16_head count bounded
  | map => exact map16_head count bounded

theorem Container.word_head (kind : Container) (count : Nat) (bounded : count < 2 ^ 32) :
    HeadEncodes (kind.head count) ((kind.tag + 1) :: bigEndian 4 count) := by
  cases kind with
  | array => exact array32_head count bounded
  | map => exact map32_head count bounded

inductive Value where
  | nil
  | bool (value : Bool)
  | int (number : Int)
  | float (bits : Nat)
  | double (bits : Nat)
  | str (text : Bytes)
  | bin (data : Bytes)
  | array (items : List Value)
  | map (entries : List (Value × Value))
  | ext (type : UInt8) (data : Bytes)

def Head.plain : Head → Option Value
  | .nil => some .nil
  | .bool value => some (.bool value)
  | .uint number => some (.int number)
  | .int number => some (.int number)
  | .float bits => some (.float bits)
  | .double bits => some (.double bits)
  | _ => none

def pairUp {α : Type} : List α → List (α × α)
  | key :: value :: rest => (key, value) :: pairUp rest
  | _ => []

def decodeMany (one : Bytes → Option (Value × Bytes)) :
    Nat → Bytes → Option (List Value × Bytes)
  | 0, input => some ([], input)
  | count + 1, input => do
      let (value, rest) ← one input
      let (values, rest) ← decodeMany one count rest
      return (value :: values, rest)

def decodeFuel : Nat → Bytes → Option (Value × Bytes)
  | 0, _ => none
  | fuel + 1, input => do
      let (head, rest) ← decodeHead input
      match head with
      | .str length =>
          let (text, rest) ← takeBytes length rest
          return (.str text, rest)
      | .bin length =>
          let (data, rest) ← takeBytes length rest
          return (.bin data, rest)
      | .array count =>
          let (items, rest) ← decodeMany (decodeFuel fuel) count rest
          return (.array items, rest)
      | .map count =>
          let (items, rest) ← decodeMany (decodeFuel fuel) (2 * count) rest
          return (.map (pairUp items), rest)
      | .ext type length =>
          let (data, rest) ← takeBytes length rest
          return (.ext type data, rest)
      | head => return (← head.plain, rest)

/-- Every nesting level takes at least the byte of its head, so the length of
the input bounds the depth. -/
def decode (input : Bytes) : Option (Value × Bytes) := decodeFuel (input.length + 1) input

def Encodes (value : Value) (bytes : Bytes) : Prop :=
  ∀ rest, decode (bytes ++ rest) = some (value, rest)

def EncodesAll : List Value → Bytes → Prop
  | [], bytes => bytes = []
  | value :: values, bytes =>
      ∃ front back, bytes = front ++ back ∧ Encodes value front ∧ EncodesAll values back

def decodeAllFuel : Nat → Bytes → Option (List Value)
  | _, [] => some []
  | 0, _ => none
  | fuel + 1, input => do
      let (value, rest) ← decode input
      let values ← decodeAllFuel fuel rest
      return value :: values

/-- All items of a byte string, which must be whole items to its end. -/
def decodeAll (input : Bytes) : Option (List Value) := decodeAllFuel input.length input

theorem decode_many_mono (one other : Bytes → Option (Value × Bytes))
    (agrees : ∀ input result, one input = some result → other input = some result)
    (count : Nat) (input : Bytes) (result : List Value × Bytes)
    (decoded : decodeMany one count input = some result) :
    decodeMany other count input = some result := by
  induction count generalizing input result with
  | zero => exact decoded
  | succ count ih =>
      simp only [decodeMany, Option.bind_eq_bind, Option.bind_eq_some_iff] at decoded ⊢
      obtain ⟨first, found, tail, rest, last⟩ := decoded
      exact ⟨first, agrees _ _ found, tail, ih _ _ rest, last⟩

theorem decode_fuel_succ (fuel : Nat) (input : Bytes) (result : Value × Bytes)
    (decoded : decodeFuel fuel input = some result) :
    decodeFuel (fuel + 1) input = some result := by
  induction fuel generalizing input result with
  | zero => simp [decodeFuel] at decoded
  | succ fuel ih =>
      rw [decodeFuel] at decoded ⊢
      simp only [Option.bind_eq_bind, Option.bind_eq_some_iff] at decoded ⊢
      obtain ⟨⟨head, rest⟩, found, body⟩ := decoded
      refine ⟨(head, rest), found, ?_⟩
      cases head with
      | array count =>
          simp only [Option.bind_eq_some_iff] at body ⊢
          obtain ⟨items, many, last⟩ := body
          exact ⟨items, decode_many_mono _ _ ih _ _ _ many, last⟩
      | map count =>
          simp only [Option.bind_eq_some_iff] at body ⊢
          obtain ⟨items, many, last⟩ := body
          exact ⟨items, decode_many_mono _ _ ih _ _ _ many, last⟩
      | _ => exact body

theorem decode_fuel_mono (fuel more : Nat) (enough : fuel ≤ more) (input : Bytes)
    (result : Value × Bytes) (decoded : decodeFuel fuel input = some result) :
    decodeFuel more input = some result := by
  induction more, enough using Nat.le_induction with
  | base => exact decoded
  | succ more _ ih => exact decode_fuel_succ more input result ih

theorem Encodes.ne_nil {value : Value} {bytes : Bytes} (encodes : Encodes value bytes) :
    bytes ≠ [] := by
  rintro rfl
  simpa [decode, decodeFuel, decodeHead] using encodes []

theorem Encodes.length_pos {value : Value} {bytes : Bytes} (encodes : Encodes value bytes) :
    0 < bytes.length := List.length_pos_iff.mpr encodes.ne_nil

theorem EncodesAll.decode_many {values : List Value} {bytes : Bytes}
    (encodes : EncodesAll values bytes) (rest : Bytes) (fuel : Nat)
    (enough : (bytes ++ rest).length < fuel) :
    decodeMany (decodeFuel fuel) values.length (bytes ++ rest) = some (values, rest) := by
  induction values generalizing bytes with
  | nil =>
      cases encodes
      rfl
  | cons value values ih =>
      obtain ⟨front, back, rfl, first, later⟩ := encodes
      have size : (front ++ (back ++ rest)).length + 1 ≤ fuel := by
        simp only [List.length_append] at enough ⊢
        omega
      have head : decodeFuel fuel (front ++ (back ++ rest)) = some (value, back ++ rest) :=
        decode_fuel_mono _ _ size _ _ (first (back ++ rest))
      have tail := ih later (by simp only [List.length_append] at size ⊢; omega)
      simp [decodeMany, List.append_assoc, head, tail]

theorem encodes_plain {head : Head} {bytes : Bytes} {value : Value}
    (encodes : HeadEncodes head bytes) (plain : head.plain = some value) :
    Encodes value bytes := by
  intro rest
  rw [decode, decodeFuel, encodes rest]
  cases head <;> cases plain <;> rfl

theorem encodes_str {text bytes : Bytes} (encodes : HeadEncodes (.str text.length) bytes) :
    Encodes (.str text) (bytes ++ text) := by
  intro rest
  rw [decode, decodeFuel, List.append_assoc, encodes (text ++ rest)]
  simp

theorem encodes_array {values : List Value} {bytes body : Bytes}
    (encodes : HeadEncodes (.array values.length) bytes) (items : EncodesAll values body) :
    Encodes (.array values) (bytes ++ body) := by
  intro rest
  have headed : 0 < bytes.length := List.length_pos_iff.mpr encodes.ne_nil
  have many := items.decode_many rest ((bytes ++ body ++ rest).length)
    (by simp only [List.length_append]; omega)
  rw [decode, decodeFuel]
  simp only [List.append_assoc] at many ⊢
  simp only [encodes (body ++ rest), Option.bind_eq_bind, Option.bind_some, many]
  rfl

theorem encodes_map {values : List Value} {bytes body : Bytes} {count : Nat}
    (encodes : HeadEncodes (.map count) bytes) (paired : values.length = 2 * count)
    (items : EncodesAll values body) :
    Encodes (.map (pairUp values)) (bytes ++ body) := by
  intro rest
  have headed : 0 < bytes.length := List.length_pos_iff.mpr encodes.ne_nil
  have many := items.decode_many rest ((bytes ++ body ++ rest).length)
    (by simp only [List.length_append]; omega)
  rw [decode, decodeFuel]
  rw [paired] at many
  simp only [List.append_assoc] at many ⊢
  simp only [encodes (body ++ rest), Option.bind_eq_bind, Option.bind_some, many]
  rfl

def Container.value : Container → List Value → Value
  | .array, items => .array items
  | .map, items => .map (pairUp items)

theorem encodes_container (kind : Container) {values : List Value} {bytes body : Bytes}
    (encodes : HeadEncodes (kind.head (kind.cardinality values.length)) bytes)
    (paired : kind = .map → values.length % 2 = 0) (items : EncodesAll values body) :
    Encodes (kind.value values) (bytes ++ body) := by
  cases kind with
  | array => exact encodes_array encodes items
  | map =>
      have even := paired rfl
      exact encodes_map encodes (by simp only [Container.cardinality]; omega) items

theorem encodes_all_nil : EncodesAll [] [] := rfl

theorem encodes_all_cons {value : Value} {values : List Value} {front back : Bytes}
    (first : Encodes value front) (rest : EncodesAll values back) :
    EncodesAll (value :: values) (front ++ back) := ⟨front, back, rfl, first, rest⟩

theorem encodes_all_singleton {value : Value} {bytes : Bytes} (encodes : Encodes value bytes) :
    EncodesAll [value] bytes := by
  simpa using encodes_all_cons encodes encodes_all_nil

theorem encodes_all_append {left right : List Value} {front back : Bytes}
    (first : EncodesAll left front) (second : EncodesAll right back) :
    EncodesAll (left ++ right) (front ++ back) := by
  induction left generalizing front with
  | nil =>
      cases first
      exact second
  | cons value left ih =>
      obtain ⟨head, tail, rfl, encodes, rest⟩ := first
      rw [List.append_assoc]
      exact encodes_all_cons encodes (ih rest)

theorem decode_all_fuel_exact {values : List Value} {bytes : Bytes}
    (encodes : EncodesAll values bytes) (fuel : Nat) (enough : bytes.length ≤ fuel) :
    decodeAllFuel fuel bytes = some values := by
  induction values generalizing bytes fuel with
  | nil =>
      cases encodes
      cases fuel <;> rfl
  | cons value values ih =>
      obtain ⟨front, back, rfl, first, later⟩ := encodes
      have headed := first.length_pos
      rw [List.length_append] at enough
      obtain ⟨fuel, rfl⟩ : ∃ less, fuel = less + 1 := ⟨fuel - 1, by omega⟩
      obtain ⟨byte, rest, same⟩ : ∃ byte rest, front ++ back = byte :: rest := by
        cases front with
        | nil => simp at headed
        | cons byte rest => exact ⟨byte, rest ++ back, rfl⟩
      have tail := ih later fuel (by omega)
      rw [same, decodeAllFuel, ← same, first back]
      · simp [tail]
      · simp

theorem decode_all_exact {values : List Value} {bytes : Bytes}
    (encodes : EncodesAll values bytes) : decodeAll bytes = some values :=
  decode_all_fuel_exact encodes _ (Nat.le_refl _)

end MessagePack
