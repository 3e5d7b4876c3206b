import Mathlib.Tactic.IntervalCases
import Cpp2tnt.Library.WellFormed
import Cpp2tnt.SpanViews

/-!
The error stack of an `MP_ERROR` extension. Its payload is a map, and the
constructor of `mp_array` looks for key 0 in it. The loop decodes a key, keeps the
position behind it, and goes on there: it takes the value for the next key. What
`mp_decode_uint` makes of an item of another type is not promised.
-/

namespace Cpp2tnt
open Imperative MessagePack

def PassedOver (item : Bytes) : Prop :=
  ∃ number, HeadEncodes (.uint number) item ∧ number % 2 ^ 32 ≠ 0

def PassedAt (items : List Bytes) (ind : Nat) : Prop :=
  ∃ item, items[ind]? = some item ∧ PassedOver item

section Loop
variable {mp : Msgpuck} {mem rest : Bytes} {items : List Bytes} {pos : Nat} {σ : Type}

theorem placed_at (placed : mem.drop pos = items.flatten ++ rest) {ind : Nat} {item : Bytes}
    (found : items[ind]? = some item) :
    mem.drop (pos + itemOffset items ind) = item ++ ((items.drop (ind + 1)).flatten ++ rest) := by
  obtain ⟨within, rfl⟩ := List.getElem?_eq_some_iff.mp found
  exact item_placed placed within

theorem item_offset_mono {less more : Nat} (ordered : less ≤ more) :
    itemOffset items less ≤ itemOffset items more := by
  have split : items.take less = (items.take more).take less := by
    rw [List.take_take, Nat.min_eq_left ordered]
  rw [itemOffset, itemOffset, split]
  exact item_offset_le (items.take more) less

theorem offset_behind {ind : Nat} {item : Bytes} (found : items[ind]? = some item) :
    itemOffset items (ind + 1) = itemOffset items ind + item.length := by
  obtain ⟨within, rfl⟩ := List.getElem?_eq_some_iff.mp found
  exact item_offset_succ within

theorem error_stack_pass (state : σ) (implements : Implements mp)
    (placed : mem.drop pos = items.flatten ++ rest)
    {ind : Nat} (passed : PassedAt items ind) (left : Nat) :
    errorStack mp mem (left + 1) (pos + itemOffset items ind) state =
      errorStack mp mem left (pos + itemOffset items (ind + 1)) state := by
  obtain ⟨item, found, number, encodes, other⟩ := passed
  rw [errorStack, placed_at placed found, implements.decodeUint number item _ encodes]
  simp only [if_neg other]
  rw [offset_behind found, Nat.add_assoc]

theorem error_stack_walks (state : σ) (implements : Implements mp)
    (placed : mem.drop pos = items.flatten ++ rest)
    (count left : Nat) (passed : ∀ ind < count, PassedAt items ind) :
    errorStack mp mem (count + left) pos state =
      errorStack mp mem left (pos + itemOffset items count) state := by
  induction count generalizing left with
  | zero =>
      rw [Nat.zero_add]
      rfl
  | succ count ih =>
      have earlier : ∀ ind < count, PassedAt items ind := fun ind before =>
        passed ind (Nat.lt_succ_of_lt before)
      have more : count + 1 + left = count + (left + 1) := by omega
      rw [more, ih (left + 1) earlier]
      exact error_stack_pass state implements placed (passed count (Nat.lt_succ_self count)) left

def stackBehind (mp : Msgpuck) (mem : Bytes) (valuePos : Nat) : MpReader :=
  let stack := mp.mpDecodeArray (mem.drop valuePos)
  let first := some (valuePos + stack.2)
  ⟨.array stack.1, first, some (valuePos + mp.mpNext (mem.drop valuePos)), first, 0⟩

theorem error_stack_stops (state : σ) (implements : Implements mp)
    (placed : mem.drop pos = items.flatten ++ rest)
    {ind number : Nat} {item : Bytes} (found : items[ind]? = some item)
    (encodes : HeadEncodes (.uint number) item) (zero : number % 2 ^ 32 = 0) (left : Nat) :
    errorStack mp mem (left + 1) (pos + itemOffset items ind) state =
      .returned (stackBehind mp mem (pos + itemOffset items (ind + 1))) state := by
  rw [errorStack, placed_at placed found, implements.decodeUint number item _ encodes]
  simp only [if_pos zero]
  rw [offset_behind found, ← Nat.add_assoc]
  rfl

end Loop

/-- An error extension: its head, the head of its map, and the keys and values of
the map in turn. -/
structure ErrorExt (type : UInt8) (count : Nat) (ext front : Bytes) (items : List Bytes) : Prop where
  headed : HeadEncodes (.ext type (front ++ items.flatten).length) ext
  mapped : HeadEncodes (.map count) front
  paired : items.length = 2 * count
  formed : ∀ item ∈ items, ∃ value, Encodes value item
  keys : ∀ ind < count, ∃ item number, items[2 * ind]? = some item ∧ HeadEncodes (.uint number) item

def notFound : Exn := mpReaderError "MP_ERROR_STACK not found within ext error"

def FindsStack (mp : Msgpuck) (mem : Bytes) (reader after array : MpReader) : Prop :=
  mpArray mp mem reader.currentPos reader = .returned array reader ∧
    readArray mp mem reader = .returned array after

def MissesStack (mp : Msgpuck) (mem : Bytes) (reader : MpReader) : Prop :=
  mpArray mp mem reader.currentPos reader = .thrown notFound reader ∧
    readArray mp mem reader = .thrown notFound reader

section Extension
variable {mp : Msgpuck} {mem ext front rest : Bytes} {items : List Bytes} {reader : MpReader}
variable {type : UInt8} {count pos : Nat}

theorem mp_array_error (implements : Implements mp) (reads : ReadsItems mp) (same : mp.mpError = type)
    (error : ErrorExt type count ext front items) (current : reader.currentPos = some pos)
    (stands : Stands mem reader (ext ++ (front ++ items.flatten)) rest) :
    mem.drop (pos + ext.length + front.length) = items.flatten ++ rest ∧
      mpArray mp mem reader.currentPos reader =
        errorStack mp mem count (pos + ext.length + front.length) reader := by
  obtain ⟨byte, kind, read⟩ := typeof_first implements error.headed stands
  obtain ⟨found, standing, placed, _⟩ := stands.placed
  cases current.symm.trans standing
  have payload : mem.drop (pos + ext.length) = front ++ (items.flatten ++ rest) := by
    rw [← List.drop_drop, placed, List.append_assoc, List.drop_left, List.append_assoc]
  have behind : mem.drop (pos + ext.length + front.length) = items.flatten ++ rest := by
    rw [← List.drop_drop, payload, List.drop_left]
  have whole : mem.drop pos = ext ++ (front ++ items.flatten ++ rest) := by
    rw [placed, List.append_assoc]
  refine ⟨behind, ?_⟩
  rw [current] at read ⊢
  rw [mpArray, Cxx.bind_returned (read reader), kind]
  simp only [headType, whole, reads.decodeExtl _ _ ext _ error.headed, same, if_true, payload,
    implements.decodeMap count front _ error.mapped]

theorem read_array_error (implements : Implements mp) (error : ErrorExt type count ext front items)
    (stands : Stands mem reader (ext ++ (front ++ items.flatten)) rest) {array : MpReader}
    (bounded : array.endPos.isSome)
    (made : mpArray mp mem reader.currentPos reader = .returned array reader) :
    readArray mp mem reader =
      .returned array (reader.advance (ext ++ (front ++ items.flatten)).length) := by
  have moved := skip_returned implements (encodes_ext error.headed) stands
  obtain ⟨last, ends⟩ := Option.isSome_iff_exists.mp bounded
  have kept : ∀ other : Option Nat, array.endPos.or other = array.endPos := by
    intro other
    rw [ends]
    rfl
  simp only [readArray, Cxx.bind_get]
  rw [Cxx.bind_returned made, Cxx.bind_returned moved]
  simp only [Cxx.bind_get, kept, Cxx.pure_run]

theorem read_array_thrown {thrown : Exn}
    (made : mpArray mp mem reader.currentPos reader = .thrown thrown reader) :
    readArray mp mem reader = .thrown thrown reader := by
  simp only [readArray, Cxx.bind_get]
  rw [Cxx.bind_thrown made]

end Extension

/-!
Both keep the contract. They differ in what `mp_decode_uint` gives for an item of
another type: a number that is not 0 and no move, or 0.
-/

def keyless (type : UInt8) : Msgpuck :=
  { reference with
    mpError := type
    mpDecodeUint := fun input => match decodeHead input with
      | some (.uint number, rest) => (number, input.length - rest.length)
      | _ => (1, 0)
    mpDecodeArray := fun input => match decodeHead input with
      | some (.array count, rest) => (count, input.length - rest.length)
      | _ => (0, 0) }

def zeroing (type : UInt8) : Msgpuck := { reference with mpError := type }

theorem keyless_implements (type : UInt8) : Implements (keyless type) := by
  have contract := reference_implements
  refine { contract with decodeUint := ?_, decodeArray := ?_ }
  · intro number bytes rest encodes
    simp [keyless, encodes rest]
  · intro count bytes rest encodes
    simp [keyless, encodes rest]

theorem zeroing_implements (type : UInt8) : Implements (zeroing type) :=
  { reference_implements with }

theorem keyless_reads_items (type : UInt8) : ReadsItems (keyless type) :=
  { reference_reads_items with }

theorem zeroing_reads_items (type : UInt8) : ReadsItems (zeroing type) :=
  { reference_reads_items with }

section Adversaries
variable {mem rest item : Bytes} {pos : Nat} {σ : Type}

theorem uint_or_other {value : Value} (encodes : Encodes value item) :
    (∃ number, HeadEncodes (.uint number) item) ∨
      ∃ head front body, item = front ++ body ∧ HeadEncodes head front ∧
        ∀ number, head ≠ .uint number := by
  obtain ⟨head, front, body, rfl, headed, holds⟩ := encodes.apart
  by_cases natural : ∃ number, head = .uint number
  · obtain ⟨number, rfl⟩ := natural
    obtain ⟨rfl, _⟩ := holds
    rw [List.append_nil]
    exact .inl ⟨number, headed⟩
  · exact .inr ⟨head, front, body, rfl, headed, fun number same => natural ⟨number, same⟩⟩

theorem keyless_stays (type : UInt8) (state : σ) {head : Head} {front body : Bytes}
    (headed : HeadEncodes head front)
    (other : ∀ number, head ≠ .uint number) (placed : mem.drop pos = front ++ body ++ rest)
    (left : Nat) : errorStack (keyless type) mem left pos state = .thrown notFound state := by
  have key : (keyless type).mpDecodeUint (mem.drop pos) = (1, 0) := by
    rw [placed, List.append_assoc]
    cases head with
    | uint number => exact absurd rfl (other number)
    | _ => simp [keyless, headed (body ++ rest)]
  -- this decoder reads the item as key 1 of no length, so the loop stands still
  induction left with
  | zero => rfl
  | succ left ih =>
      rw [errorStack, key]
      exact ih

theorem zeroing_stops (type : UInt8) (state : σ) {head : Head} {front body : Bytes}
    (headed : HeadEncodes head front)
    (other : ∀ number, head ≠ .uint number) (placed : mem.drop pos = front ++ body ++ rest)
    (left : Nat) : ∃ array, errorStack (zeroing type) mem (left + 1) pos state =
      .returned array state := by
  have key : ((zeroing type).mpDecodeUint (mem.drop pos)).1 = 0 := by
    rw [placed, List.append_assoc]
    change (headOf 0 _ (front ++ (body ++ rest))).1 = 0
    rw [head_of_encodes headed]
    cases head with
    | uint number => exact absurd rfl (other number)
    | _ => rfl
  rw [errorStack]
  simp only [key, Nat.zero_mod, if_true]
  exact ⟨_, rfl⟩

theorem keyless_array_within (type : UInt8) {value : Value} (encodes : Encodes value item)
    (placed : mem.drop pos = item ++ rest) :
    ((keyless type).mpDecodeArray (mem.drop pos)).2 ≤ item.length := by
  obtain ⟨head, front, body, rfl, headed, _⟩ := encodes.apart
  rw [placed, List.append_assoc]
  cases head with
  | array count => simp [keyless, headed (body ++ rest)]
  | _ => simp [keyless, headed (body ++ rest)]

end Adversaries

theorem first_stop (items : List Bytes) (bound : Nat) :
    (∀ ind < bound, PassedAt items ind) ∨
      ∃ ind < bound, ¬ PassedAt items ind ∧ ∀ earlier < ind, PassedAt items earlier := by
  induction bound with
  | zero => exact .inl fun _ below => absurd below (Nat.not_lt_zero _)
  | succ bound ih =>
      rcases ih with all | ⟨ind, below, stops, earlier⟩
      · by_cases last : PassedAt items bound
        · refine .inl fun ind below => ?_
          rcases Nat.lt_succ_iff_lt_or_eq.mp below with before | rfl
          · exact all ind before
          · exact last
        · exact .inr ⟨bound, Nat.lt_succ_self bound, last, all⟩
      · exact .inr ⟨ind, Nat.lt_succ_of_lt below, stops, earlier⟩

/-- The pair of this number has key 0 and an array value. -/
structure StackAt (items : List Bytes) (ind cardinality : Nat) (head body : Bytes) : Prop where
  key : ∃ item, items[2 * ind]? = some item ∧ HeadEncodes (.uint 0) item
  value : items[2 * ind + 1]? = some (head ++ body)
  headed : HeadEncodes (.array cardinality) head

/-- With any decoders that keep the contract the array is this one. -/
def YieldsStack (type : UInt8) (mem : Bytes) (reader after array : MpReader) : Prop :=
  ∀ mp, Implements mp → ReadsItems mp → mp.mpError = type → FindsStack mp mem reader after array

def ReportsNone (type : UInt8) (mem : Bytes) (reader : MpReader) : Prop :=
  ∀ mp, Implements mp → ReadsItems mp → mp.mpError = type → MissesStack mp mem reader

section Results
variable {mem ext front rest head body : Bytes} {items : List Bytes} {reader : MpReader}
variable {type : UInt8} {count pos ind cardinality : Nat}

theorem ErrorExt.item (error : ErrorExt type count ext front items) {one : Nat} {item : Bytes}
    (found : items[one]? = some item) : ∃ value, Encodes value item := by
  obtain ⟨within, rfl⟩ := List.getElem?_eq_some_iff.mp found
  exact error.formed _ (List.getElem_mem within)

theorem stack_behind_array {mp : Msgpuck} (implements : Implements mp) {value : Value}
    {valuePos : Nat} (headed : HeadEncodes (.array cardinality) head)
    (encodes : Encodes value (head ++ body)) (placed : mem.drop valuePos = head ++ body ++ rest) :
    stackBehind mp mem valuePos =
      innerReader (.array cardinality) (valuePos + head.length) (valuePos + (head ++ body).length) := by
  have array : mp.mpDecodeArray (mem.drop valuePos) = (cardinality, head.length) := by
    rw [placed, List.append_assoc, implements.decodeArray cardinality head _ headed]
  have next : mp.mpNext (mem.drop valuePos) = (head ++ body).length := by
    rw [placed, implements.next value (head ++ body) rest encodes]
  simp only [stackBehind, array, next, innerReader]

theorem finds_stack {mp : Msgpuck} (implements : Implements mp) (reads : ReadsItems mp)
    (same : mp.mpError = type) (error : ErrorExt type count ext front items)
    (current : reader.currentPos = some pos)
    (stands : Stands mem reader (ext ++ (front ++ items.flatten)) rest)
    (stack : StackAt items ind cardinality head body) (early : 2 * ind < count)
    (passed : ∀ other < 2 * ind, PassedAt items other) :
    FindsStack mp mem reader (reader.advance (ext ++ (front ++ items.flatten)).length)
      (innerReader (.array cardinality)
        (pos + ext.length + front.length + itemOffset items (2 * ind + 1) + head.length)
        (pos + ext.length + front.length + itemOffset items (2 * ind + 1) + (head ++ body).length)) := by
  obtain ⟨placed, made⟩ := mp_array_error implements reads same error current stands
  obtain ⟨item, found, zero⟩ := stack.key
  obtain ⟨value, encodes⟩ := error.item stack.value
  have passes : count = 2 * ind + (count - 2 * ind - 1 + 1) := by omega
  have loop : errorStack mp mem count (pos + ext.length + front.length) reader = .returned
      (stackBehind mp mem (pos + ext.length + front.length + itemOffset items (2 * ind + 1))) reader := by
    rw [passes, error_stack_walks reader implements placed (2 * ind) _ passed]
    exact error_stack_stops reader implements placed found zero rfl _
  rw [stack_behind_array implements stack.headed encodes (placed_at placed stack.value)] at loop
  have direct := made.trans loop
  exact ⟨direct, read_array_error implements error stands rfl direct⟩

theorem keyless_needs (error : ErrorExt type count ext front items)
    (current : reader.currentPos = some pos)
    (stands : Stands mem reader (ext ++ (front ++ items.flatten)) rest)
    (stack : StackAt items ind cardinality head body)
    (finds : mpArray (keyless type) mem reader.currentPos reader = .returned
      (innerReader (.array cardinality)
        (pos + ext.length + front.length + itemOffset items (2 * ind + 1) + head.length)
        (pos + ext.length + front.length + itemOffset items (2 * ind + 1) + (head ++ body).length))
      reader) : 2 * ind < count ∧ ∀ other < 2 * ind, PassedAt items other := by
  have contract := keyless_implements type
  obtain ⟨placed, made⟩ := mp_array_error contract (keyless_reads_items type) rfl error current stands
  rw [made] at finds
  -- a loop that comes to its end throws
  have ended : (∀ other < count, PassedAt items other) → False := by
    intro all
    have walked := error_stack_walks reader contract placed count 0 all
    rw [Nat.add_zero, finds] at walked
    cases walked
  rcases first_stop items (2 * ind) with all | ⟨one, before, stops, earlier⟩
  · refine ⟨?_, all⟩
    by_contra late
    exact ended fun other below => all other (by omega)
  · exfalso
    by_cases late : count ≤ one
    · exact ended fun other below => earlier other (by omega)
    · have within := stack.value
      have length := (List.getElem?_eq_some_iff.mp within).1
      have passes : count = one + (count - one - 1 + 1) := by omega
      have here : items[one]? = some items[one] := List.getElem?_eq_getElem (by omega)
      obtain ⟨value, encodes⟩ := error.item here
      rw [passes, error_stack_walks reader contract placed one _ earlier] at finds
      rcases uint_or_other encodes with ⟨number, natural⟩ | ⟨other, first, last, shape, headed, kind⟩
      · have zero : number % 2 ^ 32 = 0 := by
          by_contra more
          exact stops ⟨_, here, number, natural, more⟩
        rw [error_stack_stops reader contract placed here natural zero] at finds
        -- the array that is found begins too early
        have next : items[one + 1]? = some items[one + 1] := List.getElem?_eq_getElem (by omega)
        obtain ⟨after, formed⟩ := error.item next
        have inside := keyless_array_within type formed (placed_at placed next)
        have behind := offset_behind next
        have grows : itemOffset items (one + 1 + 1) ≤ itemOffset items (2 * ind + 1) :=
          item_offset_mono (by omega)
        have some := List.length_pos_of_ne_nil stack.headed.ne_nil
        have begins := congrArg MpReader.beginPos (Outcome.returned.inj finds).1
        simp only [stackBehind, innerReader, Option.some.injEq] at begins
        omega
      · have stuck := keyless_stays type reader headed kind
          (by rw [placed_at placed here, shape]) (count - one - 1 + 1)
        rw [stuck] at finds
        cases finds

theorem misses_stack {mp : Msgpuck} (implements : Implements mp) (reads : ReadsItems mp)
    (same : mp.mpError = type) (error : ErrorExt type count ext front items)
    (current : reader.currentPos = some pos)
    (stands : Stands mem reader (ext ++ (front ++ items.flatten)) rest)
    (passed : ∀ other < count, PassedAt items other) : MissesStack mp mem reader := by
  obtain ⟨placed, made⟩ := mp_array_error implements reads same error current stands
  have walked := error_stack_walks reader implements placed count 0 passed
  have direct := made.trans walked
  exact ⟨direct, read_array_thrown direct⟩

theorem zeroing_needs (error : ErrorExt type count ext front items)
    (current : reader.currentPos = some pos)
    (stands : Stands mem reader (ext ++ (front ++ items.flatten)) rest)
    (misses : mpArray (zeroing type) mem reader.currentPos reader = .thrown notFound reader) :
    ∀ other < count, PassedAt items other := by
  have contract := zeroing_implements type
  have paired := error.paired
  obtain ⟨placed, made⟩ := mp_array_error contract (zeroing_reads_items type) rfl error current stands
  rw [made] at misses
  rcases first_stop items count with all | ⟨one, before, stops, earlier⟩
  · exact all
  · exfalso
    have passes : count = one + (count - one - 1 + 1) := by omega
    have here : items[one]? = some items[one] := List.getElem?_eq_getElem (by omega)
    obtain ⟨value, encodes⟩ := error.item here
    rw [passes, error_stack_walks reader contract placed one _ earlier] at misses
    rcases uint_or_other encodes with ⟨number, natural⟩ | ⟨other, first, last, shape, headed, kind⟩
    · have zero : number % 2 ^ 32 = 0 := by
        by_contra more
        exact stops ⟨_, here, number, natural, more⟩
      rw [error_stack_stops reader contract placed here natural zero] at misses
      cases misses
    · obtain ⟨array, stopped⟩ := zeroing_stops type reader headed kind
        (by rw [placed_at placed here, shape]) (count - one - 1)
      rw [stopped] at misses
      cases misses

/-- The stack under key 0 is found if and only if all keys and values in front of
it are numbers other than 0 modulo 2^32 and the loop has a pass left for it. Without
key 0 the report comes if and only if the loop passes over such numbers only. -/
theorem error_stack_iff (error : ErrorExt type count ext front items)
    (current : reader.currentPos = some pos)
    (stands : Stands mem reader (ext ++ (front ++ items.flatten)) rest) :
    (∀ ind cardinality head body, StackAt items ind cardinality head body →
      (YieldsStack type mem reader (reader.advance (ext ++ (front ++ items.flatten)).length)
        (innerReader (.array cardinality)
          (pos + ext.length + front.length + itemOffset items (2 * ind + 1) + head.length)
          (pos + ext.length + front.length + itemOffset items (2 * ind + 1) + (head ++ body).length)) ↔
        2 * ind < count ∧ ∀ other < 2 * ind, PassedAt items other)) ∧
    ((∀ ind < count, ∀ item, items[2 * ind]? = some item → ¬ HeadEncodes (.uint 0) item) →
      (ReportsNone type mem reader ↔ ∀ other < count, PassedAt items other)) := by
  constructor
  · intro ind cardinality head body stack
    constructor
    · intro yields
      have finds := yields (keyless type) (keyless_implements type) (keyless_reads_items type) rfl
      exact keyless_needs error current stands stack finds.1
    · rintro ⟨early, passed⟩ mp implements reads same
      exact finds_stack implements reads same error current stands stack early passed
  · intro _
    constructor
    · intro reports
      have misses := reports (zeroing type) (zeroing_implements type) (zeroing_reads_items type) rfl
      exact zeroing_needs error current stands misses.1
    · intro passed mp implements reads same
      exact misses_stack implements reads same error current stands passed

end Results

/-- The keys and values of `{1: 2, 0: [9], 3: 4, 5: 6}`. -/
def fourPairs : List Bytes := [[1], [2], [0], [0x91, 9], [3], [4], [5], [6]]

def fourPairsExt : Bytes := [0xc7, 10, 3] ++ ([0x84] ++ fourPairs.flatten)

def twoPairs : List Bytes := [[1], [2], [3], [4]]

def twoPairsExt : Bytes := [0xc7, 5, 3] ++ ([0x82] ++ twoPairs.flatten)

/-- A stack of one error in front of two other pairs, and none at all. -/
theorem error_stack_pairs :
    YieldsStack 3 fourPairsExt (MpReader.plain 0 13) ((MpReader.plain 0 13).advance 13)
      (innerReader (.array 1) 8 9) ∧
    ReportsNone 3 twoPairsExt (MpReader.plain 0 8) := by
  have digit : ∀ number < 128, HeadEncodes (.uint number) [UInt8.ofNat number] := fun number small =>
    fix_uint_head number small
  have plain : ∀ number < 128, ∃ value, Encodes value [UInt8.ofNat number] := fun number small =>
    ⟨_, encodes_plain (digit number small) rfl⟩
  have array : HeadEncodes (.array 1) [0x91] := fun _ => rfl
  have nine : Encodes (.int 9) [9] := encodes_plain (digit 9 (by decide)) rfl
  have stack : Encodes (.array [.int 9]) ([0x91] ++ [9]) := encodes_array array (encodes_all_singleton nine)
  have passes : ∀ number < 128, number ≠ 0 → PassedOver [UInt8.ofNat number] := by
    intro number small some
    exact ⟨number, digit number small, by omega⟩
  constructor
  · have error : ErrorExt 3 4 [0xc7, 10, 3] [0x84] fourPairs := by
      refine ⟨fun _ => rfl, fun _ => rfl, rfl, ?_, ?_⟩
      · simp only [fourPairs, List.forall_mem_cons]
        exact ⟨plain 1 (by decide), plain 2 (by decide), plain 0 (by decide), ⟨_, stack⟩,
          plain 3 (by decide), plain 4 (by decide), plain 5 (by decide), plain 6 (by decide),
          List.forall_mem_nil _⟩
      · intro ind below
        interval_cases ind
        · exact ⟨_, 1, rfl, digit 1 (by decide)⟩
        · exact ⟨_, 0, rfl, digit 0 (by decide)⟩
        · exact ⟨_, 3, rfl, digit 3 (by decide)⟩
        · exact ⟨_, 5, rfl, digit 5 (by decide)⟩
    have stands : Stands fourPairsExt (MpReader.plain 0 13)
        ([0xc7, 10, 3] ++ ([0x84] ++ fourPairs.flatten)) [] := stands_between rfl (Nat.le_refl 13)
    refine ((error_stack_iff error rfl stands).1 1 1 [0x91] [9] ?_).mpr ⟨by decide, ?_⟩
    · exact ⟨⟨[0], rfl, digit 0 (by decide)⟩, rfl, array⟩
    · intro other before
      interval_cases other
      · exact ⟨_, rfl, passes 1 (by decide) (by decide)⟩
      · exact ⟨_, rfl, passes 2 (by decide) (by decide)⟩
  · have error : ErrorExt 3 2 [0xc7, 5, 3] [0x82] twoPairs := by
      refine ⟨fun _ => rfl, fun _ => rfl, rfl, ?_, ?_⟩
      · simp only [twoPairs, List.forall_mem_cons]
        exact ⟨plain 1 (by decide), plain 2 (by decide), plain 3 (by decide), plain 4 (by decide),
          List.forall_mem_nil _⟩
      · intro ind below
        interval_cases ind
        · exact ⟨_, 1, rfl, digit 1 (by decide)⟩
        · exact ⟨_, 3, rfl, digit 3 (by decide)⟩
    have stands : Stands twoPairsExt (MpReader.plain 0 8)
        ([0xc7, 5, 3] ++ ([0x82] ++ twoPairs.flatten)) [] := stands_between rfl (Nat.le_refl 8)
    refine ((error_stack_iff error rfl stands).2 ?_).mpr ?_
    · intro ind below item found encodes
      interval_cases ind
      · cases found
        cases (digit 1 (by decide) []).symm.trans (encodes [])
      · cases found
        cases (digit 3 (by decide) []).symm.trans (encodes [])
    · intro other before
      interval_cases other
      · exact ⟨_, rfl, passes 1 (by decide) (by decide)⟩
      · exact ⟨_, rfl, passes 2 (by decide) (by decide)⟩

/-- A stack behind one other pair: `{1: 2, 0: []}`. -/
def secondStack : Bytes := [0xc7, 5, 3, 0x82, 1, 2, 0, 0x90]

/-- The loop has used up its passes on 1 and 2. -/
theorem stack_behind_a_pair :
    StackAt [[1], [2], [0], [0x90]] 1 0 [0x90] [] ∧
      mpArray reference secondStack (some 0) (MpReader.plain 0 8) =
        .thrown notFound (MpReader.plain 0 8) ∧
      ∀ after array, ¬ YieldsStack 3 secondStack (MpReader.plain 0 8) after array := by
  have missed : mpArray reference secondStack (some 0) (MpReader.plain 0 8) =
      .thrown notFound (MpReader.plain 0 8) := rfl
  refine ⟨⟨⟨[0], rfl, fun _ => rfl⟩, rfl, fun _ => rfl⟩, missed, ?_⟩
  intro after array yields
  have found := (yields reference reference_implements reference_reads_items rfl).1
  cases missed.symm.trans found

end Cpp2tnt
