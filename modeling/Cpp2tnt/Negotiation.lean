import Cpp2tnt.MapLookup
import Cpp2tnt.PrintedExtensions
import Cpp2tnt.Frames
import Cpp2tnt.Connection
import Cpp2tnt.NumericReads

/-!
What the handshake reads out of a response. A response is a header map and a body
map in any encoding and any order of keys. The code is the first one in the
header; the answer to the ID request is folded entry by entry, unknown keys are
passed over; an error carries the text of its message.
-/

namespace Cpp2tnt
open Imperative MessagePack

section Reading
variable {mp : Msgpuck} {mem rest item : Bytes} {items : List Bytes} {reader : MpReader}

/-- These items stand between the cursor and the right bound. -/
structure Facing (mem : Bytes) (reader : MpReader) (items : List Bytes) (rest : Bytes) : Prop where
  placed : ∃ pos, reader.currentPos = some pos ∧ reader.endPos = some (pos + items.flatten.length) ∧
    mem.drop pos = items.flatten ++ rest
  below : ∀ limit ∈ reader.shape.limit, reader.currentInd + items.length ≤ limit

theorem Facing.first (facing : Facing mem reader (item :: items) rest) :
    Stands mem reader item (items.flatten ++ rest) := by
  obtain ⟨pos, current, bound, found⟩ := facing.placed
  rw [List.flatten_cons] at bound found
  refine ⟨⟨pos, current, by rw [found, List.append_assoc], ?_⟩, ?_⟩
  · rintro last same
    rw [bound, Option.mem_some_iff, List.length_append] at same
    omega
  · intro limit limited
    have below := facing.below limit limited
    rw [List.length_cons] at below
    omega

theorem Facing.knows (facing : Facing mem reader items rest) (strict : Bool) :
    reader.Knows strict := by
  obtain ⟨pos, -, bound, -⟩ := facing.placed
  exact .inl (bound ▸ rfl)

theorem Facing.later (facing : Facing mem reader (item :: items) rest) :
    Facing mem (reader.advance item.length) items rest := by
  obtain ⟨pos, current, bound, found⟩ := facing.placed
  rw [List.flatten_cons] at bound found
  refine ⟨⟨pos + item.length, by rw [MpReader.advance, current]; rfl, ?_, ?_⟩, ?_⟩
  · rw [List.length_append, ← Nat.add_assoc] at bound
    exact bound
  · rw [← List.drop_drop, found, List.append_assoc, List.drop_left]
  · intro limit limited
    have below := facing.below limit limited
    have index : (reader.advance item.length).currentInd ≤ reader.currentInd + 1 := Nat.mod_le _ _
    rw [List.length_cons] at below
    omega

theorem Facing.ended (facing : Facing mem reader [] rest) :
    hasNext false reader = .returned false reader := by
  obtain ⟨pos, current, bound, -⟩ := facing.placed
  simp only [List.flatten_nil, List.length_nil, Nat.add_zero] at bound
  simp [hasNext, current, bound]

theorem Facing.more (facing : Facing mem reader (item :: items) rest) (headed : item ≠ []) :
    hasNext false reader = .returned true reader :=
  has_next_returned facing.first (List.length_pos_iff.mpr headed) (facing.knows false)

theorem inner_facing {shape : Shape} {front : Bytes} {pos : Nat}
    (found : mem.drop pos = front ++ items.flatten ++ rest)
    (counted : ∀ limit ∈ shape.limit, items.length ≤ limit) :
    Facing mem (innerReader shape (pos + front.length) (pos + (front ++ items.flatten).length))
      items rest := by
  refine ⟨⟨pos + front.length, rfl, ?_, ?_⟩, ?_⟩
  · rw [List.length_append, ← Nat.add_assoc]
    rfl
  · rw [← List.drop_drop, found, List.append_assoc, List.drop_left]
  · intro limit limited
    have inside := counted limit limited
    simpa [innerReader] using inside

theorem Facing.count_le (facing : Facing mem reader items rest)
    (formed : ∀ item ∈ items, ∃ value, Encodes value item) : items.length ≤ mem.length := by
  obtain ⟨pos, -, -, found⟩ := facing.placed
  have counted : items.length ≤ items.flatten.length := by
    clear facing found
    induction items with
    | nil => exact Nat.le_refl 0
    | cons item items ih =>
        obtain ⟨⟨value, encodes⟩, others⟩ := List.forall_mem_cons.mp formed
        have positive := encodes.length_pos
        have later := ih others
        rw [List.flatten_cons, List.length_append, List.length_cons]
        omega
  have whole := congrArg List.length found
  rw [List.length_drop, List.length_append] at whole
  omega

theorem items_encode (formed : ∀ item ∈ items, ∃ value, Encodes value item) :
    ∃ values, values.length = items.length ∧ EncodesAll values items.flatten := by
  induction items with
  | nil => exact ⟨[], rfl, encodes_all_nil⟩
  | cons item items ih =>
      obtain ⟨⟨value, encodes⟩, others⟩ := List.forall_mem_cons.mp formed
      obtain ⟨values, length, all⟩ := ih others
      exact ⟨value :: values, by rw [List.length_cons, List.length_cons, length],
        encodes_all_cons encodes all⟩

end Reading

/-- One entry of the body, with its bytes. -/
inductive IdEntry where
  | version (number : Nat) (key value : Bytes)
  | authType (name key front : Bytes)
  | features (numbers : List (Nat × Bytes)) (key front : Bytes)
  | other (number : Nat) (key value : Bytes)

namespace IdEntry

def key : IdEntry → Bytes
  | version _ key _ => key
  | authType _ key _ => key
  | features _ key _ => key
  | other _ key _ => key

def value : IdEntry → Bytes
  | version _ _ value => value
  | authType name _ front => front ++ name
  | features numbers _ front => front ++ (numbers.map (·.2)).flatten
  | other _ _ value => value

def items (entry : IdEntry) : List Bytes := [entry.key, entry.value]

/-- The key is a number of its kind, the value an item of the type that is read there. -/
def Formed : IdEntry → Prop
  | version number key value => HeadEncodes (.uint Field.version.key) key ∧
      HeadEncodes (.uint number) value ∧ number < 2 ^ 64
  | authType name key front => HeadEncodes (.uint Field.authType.key) key ∧
      HeadEncodes (.str name.length) front
  | features numbers key front => HeadEncodes (.uint Field.features.key) key ∧
      HeadEncodes (.array numbers.length) front ∧
      ∀ number ∈ numbers, HeadEncodes (.uint number.1) number.2 ∧ number.1 < 2 ^ 8
  | other number key value => HeadEncodes (.uint number) key ∧ number < 2 ^ 32 ∧
      number ∉ [Field.version.key, Field.authType.key, Field.features.key] ∧
      ∃ item, Encodes item value

/-- `features.set(fnum)`, for the bits there are. -/
def setFeature (features : BitVec 32) (number : Nat) : BitVec 32 :=
  if number < 32 then features ||| (1#32 <<< number) else features

def apply (proto : ProtoId) : IdEntry → ProtoId
  | version number _ _ => { proto with version := UInt64.ofNat number }
  | authType name _ _ => { proto with auth := name }
  | features numbers _ _ =>
      { proto with features := (numbers.map (·.1)).foldl setFeature proto.features }
  | other _ _ _ => proto

end IdEntry

section Answer
variable {mp : Msgpuck} {mem rest : Bytes} {reader : MpReader}

theorem number_read (implements : Implements mp) (type : IntType) {number : Nat} {bytes : Bytes}
    (encodes : HeadEncodes (.uint number) bytes) (fits : (number : Int) ≤ type.max)
    (stands : Stands mem reader bytes rest) :
    ∃ value : type.Val, value.1 = number ∧
      readIntegral mp mem type reader = .returned value (reader.advance bytes.length) := by
  have low : type.min ≤ (number : Int) := Int.le_trans (IntType.min_nonpos type) (Int.natCast_nonneg _)
  have natural : intHead (number : Int) = .uint number := rfl
  exact ⟨⟨number, low, fits⟩, rfl,
    read_integral_returned implements type ⟨number, low, fits⟩ (natural ▸ encodes) stands⟩

theorem features_read (implements : Implements mp) (numbers : List (Nat × Bytes))
    (formed : ∀ number ∈ numbers, HeadEncodes (.uint number.1) number.2 ∧ number.1 < 2 ^ 8)
    (facing : Facing mem reader (numbers.map (·.2)) rest) (fuel : Nat)
    (enough : numbers.length < fuel) (features : BitVec 32) :
    ∃ reached, readFeatures mp mem fuel features reader =
      .returned ((numbers.map (·.1)).foldl IdEntry.setFeature features) reached := by
  induction numbers generalizing reader fuel features with
  | nil =>
      obtain ⟨fuel, rfl⟩ : ∃ less, fuel = less + 1 := ⟨fuel - 1, by omega⟩
      refine ⟨reader, ?_⟩
      rw [readFeatures, Cxx.bind_returned facing.ended]
      rfl
  | cons number numbers ih =>
      obtain ⟨fuel, rfl⟩ : ∃ less, fuel = less + 1 := ⟨fuel - 1, by omega⟩
      obtain ⟨⟨encodes, small⟩, others⟩ := List.forall_mem_cons.mp formed
      obtain ⟨value, same, read⟩ := number_read implements .uint8 encodes
        (by change (number.1 : Int) ≤ 2 ^ 8 - 1; omega) facing.first
      obtain ⟨reached, later⟩ := ih others facing.later fuel (by rw [List.length_cons] at enough; omega)
        (IdEntry.setFeature features number.1)
      refine ⟨reached, ?_⟩
      rw [readFeatures, Cxx.bind_returned (facing.more encodes.ne_nil)]
      simp only [Bool.not_true, Bool.false_eq_true, if_false]
      rw [Cxx.bind_returned read]
      have turned : (if value.1 < 32 then features ||| (1#32 <<< value.1.toNat) else features) =
          IdEntry.setFeature features number.1 := by
        rw [same, IdEntry.setFeature, Int.toNat_natCast]
        simp only [show ((number.1 : Int) < 32 ↔ number.1 < 32) by omega]
      rw [turned]
      exact later

theorem IdEntry.key_number {entry : IdEntry} (formed : entry.Formed) :
    ∃ number, HeadEncodes (.uint number) entry.key ∧ number < 2 ^ 32 := by
  cases entry with
  | version number key value => exact ⟨_, formed.1, by decide⟩
  | authType name key front => exact ⟨_, formed.1, by decide⟩
  | features numbers key front => exact ⟨_, formed.1, by decide⟩
  | other number key value => exact ⟨_, formed.1, formed.2.1⟩

theorem IdEntry.value_item {entry : IdEntry} (formed : entry.Formed) :
    ∃ value, Encodes value entry.value := by
  cases entry with
  | version number key value => exact ⟨_, encodes_plain formed.2.1 rfl⟩
  | authType name key front => exact ⟨_, encodes_str formed.2⟩
  | features numbers key front =>
      obtain ⟨values, length, all⟩ := @items_encode (numbers.map (·.2)) (by
        rintro item member
        obtain ⟨number, kept, rfl⟩ := List.mem_map.mp member
        exact ⟨_, encodes_plain (formed.2.2 number kept).1 rfl⟩)
      rw [List.length_map] at length
      exact ⟨_, encodes_array (length ▸ formed.2.1) all⟩
  | other number key value => exact formed.2.2.2

theorem IdEntry.items_formed {entries : List IdEntry} (formed : ∀ entry ∈ entries, entry.Formed) :
    ∀ item ∈ entries.flatMap IdEntry.items, ∃ value, Encodes value item := by
  intro item member
  obtain ⟨entry, kept, inside⟩ := List.mem_flatMap.mp member
  rcases List.mem_pair.mp inside with rfl | rfl
  · obtain ⟨number, headed, -⟩ := IdEntry.key_number (formed entry kept)
    exact ⟨_, encodes_plain headed rfl⟩
  · exact IdEntry.value_item (formed entry kept)

theorem key_read (implements : Implements mp) {key : Bytes} {items : List Bytes} {number : Nat}
    (headed : HeadEncodes (.uint number) key) (small : number < 2 ^ 32)
    (facing : Facing mem reader (key :: items) rest) (proto : ProtoId) :
    ∃ code : IntType.uint32.Val, code.1 = number ∧
      ∀ next : IntType.uint32.Val → Read ProtoId, (do
        if !(← hasNext false) then return proto
        next (← readIntegral mp mem .uint32)) reader = next code (reader.advance key.length) := by
  have bounded : (number : Int) ≤ IntType.uint32.max := by
    change (number : Int) ≤ 2 ^ 32 - 1
    omega
  obtain ⟨code, same, read⟩ := number_read implements .uint32 headed bounded facing.first
  refine ⟨code, same, fun next => ?_⟩
  rw [Cxx.bind_returned (facing.more headed.ne_nil)]
  simp only [Bool.not_true, Bool.false_eq_true, if_false]
  rw [Cxx.bind_returned read]

theorem entry_read (implements : Implements mp) {entry : IdEntry} (formed : entry.Formed)
    {items : List Bytes} (facing : Facing mem reader (entry.key :: entry.value :: items) rest)
    (fuel : Nat) (proto : ProtoId) :
    readProto mp mem (fuel + 1) proto reader =
      readProto mp mem fuel (entry.apply proto)
        ((reader.advance entry.key.length).advance entry.value.length) := by
  have behind := facing.later
  -- one branch of the loop for each kind of entry, in the order the keys are compared
  cases entry with
  | version number key value =>
      obtain ⟨headed, encodes, small⟩ := formed
      obtain ⟨code, same, turned⟩ := key_read implements headed (by decide) facing proto
      change Facing mem (reader.advance key.length) (value :: items) rest at behind
      obtain ⟨found, known, read⟩ := number_read implements .uint64 encodes
        (by change (number : Int) ≤ 2 ^ 64 - 1; omega) behind.first
      rw [readProto]
      refine (turned _).trans ?_
      rw [if_pos same, Cxx.bind_returned read, known]
      rfl
  | authType name key front =>
      obtain ⟨headed, encodes⟩ := formed
      obtain ⟨code, same, turned⟩ := key_read implements headed (by decide) facing proto
      change Facing mem (reader.advance key.length) ((front ++ name) :: items) rest at behind
      have read := read_string_returned implements proto.auth encodes behind.first
        (behind.knows false)
      rw [readProto]
      refine (turned _).trans ?_
      rw [if_neg (by rw [same]; decide), if_pos same, Cxx.bind_returned read]
      rfl
  | features numbers key front =>
      obtain ⟨headed, encodes, all⟩ := formed
      obtain ⟨code, same, turned⟩ := key_read implements headed (by decide) facing proto
      change Facing mem (reader.advance key.length)
        ((front ++ (numbers.map (·.2)).flatten) :: items) rest at behind
      have each : ∀ item ∈ numbers.map (·.2), ∃ value, Encodes value item := by
        rintro item member
        obtain ⟨number, kept, rfl⟩ := List.mem_map.mp member
        exact ⟨_, encodes_plain (all number kept).1 rfl⟩
      obtain ⟨values, length, inner⟩ := items_encode each
      rw [List.length_map] at length
      rw [← length] at encodes
      obtain ⟨pos, -, found, opened⟩ := read_array_returned implements encodes inner behind.first
      have facing := @inner_facing _ _ _ (.array values.length) _ _ found (by
        rintro _ ⟨⟩
        rw [List.length_map, length])
      have count := facing.count_le each
      rw [List.length_map] at count
      obtain ⟨reached, read⟩ := features_read implements numbers all facing (mem.length + 1)
        (Nat.lt_succ_of_le count) proto.features
      rw [readProto]
      refine (turned _).trans ?_
      rw [if_neg (by rw [same]; decide), if_neg (by rw [same]; decide), if_pos same,
        Cxx.bind_returned opened, Cxx.bind_returned (Cxx.onObject_returned read _)]
      rfl
  | other number key value =>
      obtain ⟨headed, small, unknown, item, encodes⟩ := formed
      obtain ⟨code, same, turned⟩ := key_read implements headed small facing proto
      change Facing mem (reader.advance key.length) (value :: items) rest at behind
      simp only [List.mem_cons, List.not_mem_nil, or_false, not_or] at unknown
      rw [readProto]
      refine (turned _).trans ?_
      rw [if_neg (by rw [same]; omega), if_neg (by rw [same]; omega), if_neg (by rw [same]; omega),
        Cxx.bind_returned (skip_returned implements encodes behind.first)]
      rfl

theorem entries_read (implements : Implements mp) (entries : List IdEntry)
    (formed : ∀ entry ∈ entries, entry.Formed)
    (facing : Facing mem reader (entries.flatMap IdEntry.items) rest) (fuel : Nat)
    (enough : entries.length < fuel) (proto : ProtoId) :
    ∃ reached, readProto mp mem fuel proto reader =
      .returned (entries.foldl IdEntry.apply proto) reached := by
  induction entries generalizing reader fuel proto with
  | nil =>
      obtain ⟨fuel, rfl⟩ : ∃ less, fuel = less + 1 := ⟨fuel - 1, by omega⟩
      refine ⟨reader, ?_⟩
      rw [readProto, Cxx.bind_returned facing.ended]
      rfl
  | cons entry entries ih =>
      obtain ⟨fuel, rfl⟩ : ∃ less, fuel = less + 1 := ⟨fuel - 1, by omega⟩
      obtain ⟨one, others⟩ := List.forall_mem_cons.mp formed
      change Facing mem reader
        (entry.key :: entry.value :: entries.flatMap IdEntry.items) rest at facing
      obtain ⟨reached, later⟩ := ih others facing.later.later fuel
        (by rw [List.length_cons] at enough; omega) (entry.apply proto)
      exact ⟨reached, (entry_read implements one facing fuel proto).trans later⟩

end Answer

/-- `operator[]` of a map, and a value read from what it finds. -/
def readValue {α σ : Type} (mp : Msgpuck) (mem : Bytes) (key : Nat) (read : Read α)
    (map : MpReader) : Cxx Exn σ α := do
  let value ← mapAt mp mem map (equalsInt mp mem key)
  let found ← Cxx.onObject read value
  return found.1

section Lookup
variable {mp : Msgpuck} {mem front rest : Bytes} {pairs : List MapPair} {reader : MpReader}

def FirstAt (pairs : List MapPair) (number : Nat) (value : Bytes) : Prop :=
  ∃ before pair after, pairs = before ++ pair :: after ∧
    (∀ other ∈ before, (Key.int number).denotes other.key = false) ∧
    (Key.int number).denotes pair.key = true ∧ pair.valueBytes = value

def pairItems (pair : MapPair) : List Bytes := [pair.keyBytes, pair.valueBytes]

theorem pairs_flatten (pairs : List MapPair) :
    (pairs.flatMap pairItems).flatten = pairsBytes pairs := by
  induction pairs with
  | nil => rfl
  | cons pair pairs ih =>
      rw [List.flatMap_cons, List.flatten_append, ih, pairsBytes, MapPair.bytes]
      simp [pairItems]

theorem pairs_encode (formed : ∀ pair ∈ pairs, pair.Formed) :
    ∃ values, values.length = 2 * pairs.length ∧ EncodesAll values (pairsBytes pairs) := by
  have each : ∀ item ∈ pairs.flatMap pairItems, ∃ value, Encodes value item := by
    intro item member
    obtain ⟨pair, kept, inside⟩ := List.mem_flatMap.mp member
    rcases List.mem_pair.mp inside with rfl | rfl
    · exact ⟨_, (formed pair kept).key⟩
    · exact (formed pair kept).value
  obtain ⟨values, length, all⟩ := items_encode each
  refine ⟨values, ?_, pairs_flatten pairs ▸ all⟩
  rw [length, List.length_flatMap]
  simp [pairItems, Nat.mul_comm]

theorem value_found (implements : Implements mp) (formed : ∀ pair ∈ pairs, pair.Formed)
    {number : Nat} {value : Bytes} (first : FirstAt pairs number value) {start : Nat}
    (found : mem.drop start = pairsBytes pairs ++ rest) {α : Type} {read : Read α} {result : α}
    (reads : ∀ object behind, object.shape = .plain → object.endPos.isSome →
      Stands mem object value behind → ∃ after, read object = .returned result after)
    {σ : Type} (state : σ) :
    readValue mp mem number read
      (innerReader (.map pairs.length) start (start + (pairsBytes pairs).length)) state =
      .returned result state := by
  obtain ⟨before, pair, after, rfl, others, same, rfl⟩ := first
  simp only [List.forall_mem_append, List.forall_mem_cons] at formed
  obtain ⟨formedBefore, formedPair, -⟩ := formed
  let map := innerReader (.map (before ++ pair :: after).length) start
    (start + (pairsBytes (before ++ pair :: after)).length)
  have searches : Searches ⟨.plain, map.beginPos, map.endPos, map.beginPos, 0⟩
      (some start) map.endPos start := ⟨rfl, rfl, rfl, rfl⟩
  have behind : mem.drop start =
      pairsBytes before ++ (pair.bytes ++ (pairsBytes after ++ rest)) := by
    rw [found, pairs_bytes_append, pairsBytes]
    simp only [List.append_assoc]
  have within : ∀ last ∈ map.endPos, start + (pairsBytes before).length +
      pair.bytes.length ≤ last := by
    rintro _ ⟨⟩
    simp only [List.length_append, pairs_bytes_append, pairsBytes]
    omega
  -- the pairs before it are passed over, its own turn finds it
  obtain ⟨middle, there, passed⟩ := @find_loop_passes mp mem _ _ (.int number) _ _ _ implements before
    formedBefore others searches behind (fun last bound => Nat.le_trans (Nat.le_add_right _ _)
      (within last bound)) (after.length + 1)
  have here : mem.drop (start + (pairsBytes before).length) =
      pair.bytes ++ (pairsBytes after ++ rest) := by
    rw [← List.drop_drop, behind, List.drop_left]
  obtain ⟨last, -, turned⟩ := @find_loop_turn mp mem _ _ _ (.int number) _ _ _ implements formedPair
    there here within after.length
  rw [if_pos same] at turned
  obtain ⟨item, encodes⟩ := formedPair.value
  have count : map.shape.cardinality = before.length + (after.length + 1) := by
    simp [map, innerReader, Shape.cardinality]
  have searched := passed.trans turned
  rw [← count, MapPair.bytes, List.length_append, ← Nat.add_assoc] at searched
  have sliced := ((gives_slice searched (Nat.lt_add_of_pos_right encodes.length_pos)).1 _ state).2
  have slice : mem.drop (start + (pairsBytes before).length + pair.keyBytes.length) =
      pair.valueBytes ++ (pairsBytes after ++ rest) := by
    rw [← List.drop_drop, here, MapPair.bytes, List.append_assoc, List.drop_left]
  have object := stands_between slice (Nat.le_refl _)
  obtain ⟨left, read⟩ := reads _ _ rfl rfl object
  rw [readValue]
  refine (Cxx.bind_returned sliced _).trans ?_
  rw [Cxx.bind_returned (Cxx.onObject_returned read _)]
  rfl

theorem entry_found (implements : Implements mp) (headed : HeadEncodes (.map pairs.length) front)
    (formed : ∀ pair ∈ pairs, pair.Formed) {number : Nat} {value : Bytes}
    (first : FirstAt pairs number value) (stands : Stands mem reader (front ++ pairsBytes pairs) rest)
    {α : Type} {read : Read α} {result : α}
    (reads : ∀ object behind, object.shape = .plain → object.endPos.isSome →
      Stands mem object value behind → ∃ after, read object = .returned result after) :
    readEntry mp mem number read reader =
      .returned result (reader.advance (front ++ pairsBytes pairs).length) := by
  obtain ⟨values, counted, inner⟩ := pairs_encode formed
  obtain ⟨pos, -, found, opened⟩ := read_map_returned implements headed counted inner stands
  have behind : mem.drop (pos + front.length) = pairsBytes pairs ++ rest := by
    rw [← List.drop_drop, found, List.append_assoc, List.drop_left]
  rw [List.length_append, ← Nat.add_assoc] at opened
  refine (Cxx.bind_returned opened (readValue mp mem number read)).trans ?_
  rw [← List.length_append]
  exact value_found implements formed first behind reads _

end Lookup

/-- A header map and what follows it. -/
structure Response where
  front : Bytes
  header : List MapPair
  body : Bytes

namespace Response

def bytes (response : Response) : Bytes :=
  response.front ++ pairsBytes response.header ++ response.body

structure Formed (response : Response) : Prop where
  headed : HeadEncodes (.map response.header.length) response.front
  pairs : ∀ pair ∈ response.header, pair.Formed

/-- The code is the number of the first `CODE` in the header. -/
def HasCode (response : Response) (number : Nat) : Prop :=
  number < 2 ^ 32 ∧ ∃ value, FirstAt response.header Field.code.key value ∧
    HeadEncodes (.uint number) value

def HasMessage (mp : Msgpuck) (response : Response) (text : Bytes) : Prop :=
  ∃ front errors value item, response.body = front ++ pairsBytes errors ∧
    HeadEncodes (.map errors.length) front ∧ (∀ pair ∈ errors, MapPair.Formed pair) ∧
    FirstAt errors protoError24 value ∧ Encodes item value ∧ Prints mp value 0 (some text)

/-- What a response means to a handshake. -/
inductive Means (mp : Msgpuck) (response : Response) (during : State) (server : ProtoId) :
    Reply → Prop
  | authenticated : response.HasCode 0 → during ≠ .featuresRequest →
      Means mp response during server (.accepted 0 server)
  | identified (front : Bytes) (entries : List IdEntry) : response.HasCode 0 →
      during = .featuresRequest → HeadEncodes (.map entries.length) front →
      (∀ entry ∈ entries, entry.Formed) →
      response.body = front ++ (entries.flatMap IdEntry.items).flatten →
      Means mp response during server (.accepted 0 (entries.foldl IdEntry.apply server))
  | unaware (number : Nat) : response.HasCode number → number ≠ 0 → during = .featuresRequest →
      number &&& 0x7fff = unknownRequestType →
      Means mp response during server (.accepted (number &&& 0x7fff) server)
  | refused (number : Nat) (text : Bytes) : response.HasCode number → number ≠ 0 →
      ¬ (during = .featuresRequest ∧ number &&& 0x7fff = unknownRequestType) →
      response.HasMessage mp text →
      Means mp response during server (.refused text (number &&& 0x7fff))

end Response

section Replies
variable {mp : Msgpuck} {mem rest bytes : Bytes} {reader : MpReader} {response : Response}

theorem code_found (implements : Implements mp) (formed : response.Formed) {number : Nat}
    (coded : response.HasCode number)
    (stands : Stands mem reader (response.front ++ pairsBytes response.header) rest) :
    ∃ code : IntType.uint32.Val, code.1 = number ∧
      readEntry mp mem Field.code.key (readIntegral mp mem .uint32) reader =
        .returned code (reader.advance (response.front ++ pairsBytes response.header).length) := by
  obtain ⟨small, value, first, encodes⟩ := coded
  have bounded : (number : Int) ≤ IntType.uint32.max := by
    change (number : Int) ≤ 2 ^ 32 - 1
    omega
  let code : IntType.uint32.Val :=
    ⟨number, Int.le_trans (IntType.min_nonpos _) (Int.natCast_nonneg _), bounded⟩
  refine ⟨code, rfl, entry_found implements formed.headed formed.pairs first stands ?_⟩
  intro object behind _ _ here
  obtain ⟨found, same, read⟩ := number_read implements .uint32 encodes bounded here
  exact ⟨_, (Subtype.ext same : found = code) ▸ read⟩

theorem response_read (implements : Implements mp) (reads : ReadsItems mp)
    (formed : response.Formed) {during : State} {server : ProtoId} {reply : Reply}
    (means : response.Means mp during server reply) {pos : Nat}
    (found : mem.drop pos = response.bytes ++ rest) :
    ∃ reached, readResponse mp mem during server
      (MpReader.plain pos (pos + response.bytes.length)) = .returned reply reached := by
  let reader := MpReader.plain pos (pos + response.bytes.length)
  let header := response.front ++ pairsBytes response.header
  have size : response.bytes.length = header.length + response.body.length := List.length_append
  -- the reader is at the header, and behind it at the body
  have stands : Stands mem reader header (response.body ++ rest) := by
    apply stands_between
    · rw [found, Response.bytes, List.append_assoc]
    · omega
  have behind : Stands mem (reader.advance header.length) response.body rest := by
    apply stands_plain rfl rfl
    · rw [← List.drop_drop, found, Response.bytes, List.append_assoc, List.drop_left]
    · rintro _ ⟨⟩
      rw [size, ← Nat.add_assoc]
  rw [readResponse]
  cases means with
  | authenticated coded other =>
      obtain ⟨code, same, read⟩ := code_found implements formed coded stands
      have zero : code.1 = 0 := same
      rw [Cxx.bind_returned read, if_pos zero, if_neg other]
      exact ⟨_, rfl⟩
  | identified front entries coded features headed all shape =>
      obtain ⟨code, same, read⟩ := code_found implements formed coded stands
      have zero : code.1 = 0 := same
      rw [Cxx.bind_returned read, if_pos zero, if_pos features]
      have each := IdEntry.items_formed all
      obtain ⟨values, length, inner⟩ := items_encode each
      have twice : (entries.flatMap IdEntry.items).length = 2 * entries.length := by
        rw [List.length_flatMap]
        simp [IdEntry.items, Nat.mul_comm]
      -- the loop goes over the entries of the body up to its end
      rw [shape] at behind
      obtain ⟨start, -, placed, opened⟩ := read_map_returned implements headed
        (length.trans twice) inner behind
      have facing := @inner_facing _ _ _ (.map entries.length) _ _ placed (by
        rintro _ ⟨⟩
        rw [twice, Nat.mul_comm])
      have count := facing.count_le each
      obtain ⟨reached, folded⟩ := entries_read implements entries all facing (mem.length + 1)
        (by omega) server
      rw [Cxx.bind_returned opened, Cxx.bind_returned (Cxx.onObject_returned folded _)]
      exact ⟨_, rfl⟩
  | unaware number coded failed features unknown =>
      obtain ⟨code, same, read⟩ := code_found implements formed coded stands
      have other : code.1 ≠ 0 := by omega
      have masked : code.1.toNat = number := by rw [same, Int.toNat_natCast]
      rw [Cxx.bind_returned read, if_neg other, masked]
      simp only [if_pos (And.intro features unknown)]
      exact ⟨_, rfl⟩
  | refused number text coded failed others message =>
      obtain ⟨code, same, read⟩ := code_found implements formed coded stands
      have other : code.1 ≠ 0 := by omega
      have masked : code.1.toNat = number := by rw [same, Int.toNat_natCast]
      obtain ⟨front, errors, value, item, shape, headed, all, first, encodes, prints⟩ := message
      rw [shape] at behind
      -- the message is looked up in the body and printed whole
      have told := @entry_found mp mem front rest errors _ implements headed all _ _ first behind _
        (toString mp mem 0) text fun object behind _ _ here =>
          ⟨_, item_printed implements reads encodes here prints⟩
      rw [Cxx.bind_returned read, if_neg other, masked]
      simp only [if_neg others]
      rw [Cxx.bind_returned told]
      exact ⟨_, rfl⟩

theorem reply_returned (implements : Implements mp) (reads : ReadsItems mp)
    (formed : response.Formed) (sized : Sized response.bytes) {during : State} {server : ProtoId}
    {reply : Reply} (means : response.Means mp during server reply) {pos last : Nat}
    (found : mem.drop pos = frame response.bytes ++ rest)
    (within : pos + (frame response.bytes).length ≤ last) :
    ∃ reached, readReply mp mem during server (MpReader.plain pos last) =
      .returned reply reached := by
  have message := message_returned implements response.bytes rest pos last
    (MpReader.plain pos last) rfl rfl found within sized.2
  have body : mem.drop (pos + 5) = response.bytes ++ rest := by
    rw [← List.drop_drop, found, frame]
    rfl
  obtain ⟨object, read⟩ := response_read implements reads formed means body
  rw [readReply, Cxx.bind_returned message]
  exact ⟨_, Cxx.bind_returned (Cxx.onObject_returned read _) _⟩

end Replies

/-- A response whose keys stand in another order, one of them unknown. -/
def shuffledResponse : Response where
  front := [0x82]
  header := [⟨.int 1, [0x01], [0x07]⟩, ⟨.int 0, [0x00], [0xcc, 0x00]⟩]
  body := [0x82, 0x09, 0xc0, 0x54, 0x03]

theorem shuffled_response_formed : shuffledResponse.Formed where
  headed := fix_map_head 2 (by decide)
  pairs := by
    intro pair member
    rcases List.mem_pair.mp member with rfl | rfl
    · exact ⟨encodes_plain (fix_uint_head 1 (by decide)) rfl, .int 7,
        encodes_plain (fix_uint_head 7 (by decide)) rfl⟩
    · exact ⟨encodes_plain (fix_uint_head 0 (by decide)) rfl, .int 0,
        encodes_plain (wide_uint_head 1 0xcc 0 (by decide) (by decide)) rfl⟩

theorem shuffled_response_means (mp : Msgpuck) :
    shuffledResponse.Means mp .featuresRequest ⟨0, [], 0⟩ (.accepted 0 ⟨3, [], 0⟩) := by
  let entries : List IdEntry := [.other 9 [0x09] [0xc0], .version 3 [0x54] [0x03]]
  have coded : shuffledResponse.HasCode 0 := by
    refine ⟨by decide, [0xcc, 0x00], ?_, wide_uint_head 1 0xcc 0 (by decide) (by decide)⟩
    refine ⟨[⟨.int 1, [0x01], [0x07]⟩], ⟨.int 0, [0x00], [0xcc, 0x00]⟩, [], rfl, ?_, rfl, rfl⟩
    intro other member
    rw [List.mem_singleton.mp member]
    rfl
  have formed : ∀ entry ∈ entries, entry.Formed := by
    intro entry member
    rcases List.mem_pair.mp member with rfl | rfl
    · exact ⟨fix_uint_head 9 (by decide), by decide, by decide, .nil,
        encodes_plain encode_nil_head rfl⟩
    · exact ⟨fix_uint_head 0x54 (by decide), fix_uint_head 3 (by decide), by decide⟩
  exact .identified [0x82] entries coded rfl (fix_map_head 2 (by decide)) formed rfl

end Cpp2tnt
