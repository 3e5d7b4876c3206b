import Cpp2tnt.KeyComparison

/-!
`mp_map::find`. The loop compares the key of each pair and skips the key and the
value, on a plain reader from the first pair on. Where the pairs begin depends on
what the map was constructed from: a map, or the payload of an extension.
-/

namespace Cpp2tnt
open Imperative MessagePack

section Operations
variable (mp : Msgpuck) (mem : Bytes)

/-- `mp_map(begin, end)`. -/
def mpMapOf {σ : Type} (beginPos endPos : Option Nat) : Cxx Exn σ MpReader := do
  let map ← mpMap mp mem beginPos
  return { map with endPos := endPos }

/-- `mp_map::find`; the empty `mp_plain` is `none`. -/
def mapFind {σ : Type} (map : MpReader) (key : Key) : Cxx Exn σ (Option (Nat × Nat)) := do
  let tmp : MpReader := ⟨.plain, map.beginPos, map.endPos, map.beginPos, 0⟩
  let (value, _) ← Cxx.onObject (findLoop mp mem (equals mp mem key) map.shape.cardinality) tmp
  return value

end Operations

structure MapPair where
  key : Value
  keyBytes : Bytes
  valueBytes : Bytes

namespace MapPair

def bytes (pair : MapPair) : Bytes := pair.keyBytes ++ pair.valueBytes

structure Formed (pair : MapPair) : Prop where
  key : Encodes pair.key pair.keyBytes
  value : ∃ value, Encodes value pair.valueBytes

end MapPair

def pairsBytes : List MapPair → Bytes
  | [] => []
  | pair :: pairs => pair.bytes ++ pairsBytes pairs

theorem pairs_bytes_append (front back : List MapPair) :
    pairsBytes (front ++ back) = pairsBytes front ++ pairsBytes back := by
  induction front with
  | nil => rfl
  | cons pair front ih => rw [List.cons_append, pairsBytes, pairsBytes, ih, List.append_assoc]

/-- The local reader of the search stands here. -/
structure Searches (reader : MpReader) (beginPos endPos : Option Nat) (pos : Nat) : Prop where
  plain : reader.shape = .plain
  begins : reader.beginPos = beginPos
  ends : reader.endPos = endPos
  stands : reader.currentPos = some pos

section Search
variable {mp : Msgpuck} {mem rest : Bytes} {reader : MpReader} {pair : MapPair} {key : Key}
variable {pos first : Nat} {endPos : Option Nat}

theorem Searches.advance (searches : Searches reader (some first) endPos pos) (count : Nat) :
    Searches (reader.advance count) (some first) endPos (pos + count) := by
  refine ⟨searches.plain, searches.begins, searches.ends, ?_⟩
  rw [MpReader.advance, searches.stands, Option.map_some]

theorem Searches.item {bytes : Bytes} (searches : Searches reader (some first) endPos pos)
    (placed : mem.drop pos = bytes ++ rest) (within : ∀ last ∈ endPos, pos + bytes.length ≤ last) :
    Stands mem reader bytes rest := by
  apply stands_plain searches.plain searches.stands placed
  rw [searches.ends]
  exact within

theorem find_loop_turn (implements : Implements mp) (formed : pair.Formed)
    (searches : Searches reader (some first) endPos pos)
    (placed : mem.drop pos = pair.bytes ++ rest)
    (within : ∀ last ∈ endPos, pos + pair.bytes.length ≤ last) (left : Nat) :
    ∃ moved, Searches moved (some first) endPos (pos + pair.bytes.length) ∧
      findLoop mp mem (equals mp mem key) (left + 1) reader =
        if key.denotes pair.key = true then
          .returned (some (pos + pair.keyBytes.length, pos + pair.bytes.length)) moved
        else findLoop mp mem (equals mp mem key) left moved := by
  obtain ⟨value, encodes⟩ := formed.value
  rw [MapPair.bytes, List.append_assoc] at placed
  simp only [MapPair.bytes, List.length_append] at within ⊢
  have keyStands : Stands mem reader pair.keyBytes (pair.valueBytes ++ rest) := by
    apply searches.item placed
    intro last bound
    have inside := within last bound
    omega
  have behind := searches.advance pair.keyBytes.length
  have valueStands : Stands mem (reader.advance pair.keyBytes.length) pair.valueBytes rest := by
    apply behind.item
    · rw [← List.drop_drop, placed, List.drop_left]
    · intro last bound
      have inside := within last bound
      omega
  have compared : equals mp mem key reader = .returned (key.denotes pair.key) reader := by
    obtain ⟨head, front, body, same, headed, holds⟩ := formed.key.apart
    rw [same] at keyStands
    apply equals_returned implements headed holds keyStands
    exact .inr ⟨by rw [searches.begins]; rfl, .inr rfl⟩
  -- the comparison leaves the reader at the key, two skips take it to the next pair
  have moved := behind.advance pair.valueBytes.length
  rw [Nat.add_assoc] at moved
  refine ⟨_, moved, ?_⟩
  rw [findLoop, Cxx.bind_returned compared,
    Cxx.bind_returned (skip_returned implements formed.key keyStands), Cxx.bind_get,
    Cxx.bind_returned (skip_returned implements encodes valueStands), Cxx.bind_get,
    behind.stands, moved.stands]
  cases key.denotes pair.key <;> rfl

theorem find_loop_passes (implements : Implements mp) (pairs : List MapPair)
    (formed : ∀ pair ∈ pairs, pair.Formed) (others : ∀ pair ∈ pairs, key.denotes pair.key = false)
    (searches : Searches reader (some first) endPos pos)
    (placed : mem.drop pos = pairsBytes pairs ++ rest)
    (within : ∀ last ∈ endPos, pos + (pairsBytes pairs).length ≤ last) (left : Nat) :
    ∃ moved, Searches moved (some first) endPos (pos + (pairsBytes pairs).length) ∧
      findLoop mp mem (equals mp mem key) (pairs.length + left) reader =
        findLoop mp mem (equals mp mem key) left moved := by
  induction pairs generalizing reader pos with
  | nil =>
      rw [List.length_nil, Nat.zero_add]
      exact ⟨reader, searches, rfl⟩
  | cons pair pairs ih =>
      obtain ⟨one, later⟩ := List.forall_mem_cons.mp formed
      obtain ⟨other, rest'⟩ := List.forall_mem_cons.mp others
      simp only [pairsBytes, List.append_assoc, List.length_append] at placed within ⊢
      have near : ∀ last ∈ endPos, pos + pair.bytes.length ≤ last := by
        intro last bound
        have inside := within last bound
        omega
      obtain ⟨middle, there, turned⟩ := find_loop_turn implements one searches placed near
        (pairs.length + left)
      have behind : mem.drop (pos + pair.bytes.length) = pairsBytes pairs ++ rest := by
        rw [← List.drop_drop, placed, List.drop_left]
      have far : ∀ last ∈ endPos, pos + pair.bytes.length + (pairsBytes pairs).length ≤ last := by
        intro last bound
        have inside := within last bound
        omega
      obtain ⟨moved, reached, ran⟩ := ih later rest' there behind far
      refine ⟨moved, by rwa [Nat.add_assoc] at reached, ?_⟩
      rw [List.length_cons, Nat.add_right_comm, turned, other, if_neg Bool.false_ne_true, ran]

end Search

/-- What stands in front of the first pair, where the pairs take `size` bytes: the
head of a map, or the head of an extension and of its payload. -/
inductive MapLead (mp : Msgpuck) (pairs size : Nat) : Bytes → Prop
  | map (front : Bytes) (headed : HeadEncodes (.map pairs) front) : MapLead mp pairs size front
  | interval (ext front : Bytes)
      (headed : HeadEncodes (.ext mp.mpInterval (front.length + size)) ext)
      (counted : HeadEncodes (.uint pairs) front) : MapLead mp pairs size (ext ++ front)
  | error (ext front : Bytes) (other : mp.mpError ≠ mp.mpInterval)
      (headed : HeadEncodes (.ext mp.mpError (front.length + size)) ext)
      (mapped : HeadEncodes (.map pairs) front) : MapLead mp pairs size (ext ++ front)

section Lookup
variable {mp : Msgpuck} {mem front rest : Bytes} {pairs : List MapPair} {pos : Nat}
variable {σ : Type}

theorem deref_placed (implements : Implements mp) {head : Head} {tail : Bytes}
    (headed : HeadEncodes head front) (placed : mem.drop pos = front ++ tail) (state : σ) :
    ∃ byte, mp.mpTypeof byte = headType head ∧ deref mem (some pos) state = .returned byte state := by
  obtain ⟨byte, others, rfl⟩ := List.exists_cons_of_ne_nil headed.ne_nil
  refine ⟨byte, implements.typeof head byte others headed, ?_⟩
  have here : mem[pos]? = some byte := by
    rw [← List.head?_drop, placed]
    rfl
  simp [deref, here]

theorem mp_map_of_returned (implements : Implements mp) (reads : ReadsItems mp) {count : Nat} {body : Bytes}
    (lead : MapLead mp count body.length front) (placed : mem.drop pos = front ++ (body ++ rest))
    (endPos : Option Nat) (state : σ) :
    mpMapOf mp mem (some pos) endPos state = .returned
      ⟨.map count, some (pos + front.length), endPos, some (pos + front.length), 0⟩ state := by
  unfold mpMapOf mpMap
  cases lead with
  | map front headed =>
      obtain ⟨byte, type, read⟩ := deref_placed implements headed placed state
      rw [Cxx.bind_run, Cxx.bind_returned read, type]
      simp only [headType, Option.getD_some, placed, implements.decodeMap count front _ headed,
        Cxx.pure_run]
  | interval ext front headed counted =>
      rw [List.append_assoc] at placed
      obtain ⟨byte, type, read⟩ := deref_placed implements headed placed state
      have payload : mem.drop (pos + ext.length) = front ++ (body ++ rest) := by
        rw [← List.drop_drop, placed, List.drop_left]
      rw [Cxx.bind_run, Cxx.bind_returned read, type]
      simp only [headType, Option.getD_some, placed, reads.decodeExtl _ _ ext _ headed, if_true,
        payload, implements.decodeUint count front _ counted, Cxx.pure_run, List.length_append,
        Nat.add_assoc]
  | error ext front other headed mapped =>
      rw [List.append_assoc] at placed
      obtain ⟨byte, type, read⟩ := deref_placed implements headed placed state
      have payload : mem.drop (pos + ext.length) = front ++ (body ++ rest) := by
        rw [← List.drop_drop, placed, List.drop_left]
      rw [Cxx.bind_run, Cxx.bind_returned read, type]
      simp only [headType, Option.getD_some, placed, reads.decodeExtl _ _ ext _ headed, if_neg other,
        if_true, payload, implements.decodeMap count front _ mapped, Cxx.pure_run,
        List.length_append, Nat.add_assoc]

/-- The map, or a reader over it. -/
structure OverMap (map reader : MpReader) : Prop where
  shape : reader.shape = map.shape
  begins : reader.beginPos = map.beginPos
  ends : reader.endPos = map.endPos

/-- `find` and both `operator[]` give this slice, and leave everything as it was. -/
def GivesSlice (mp : Msgpuck) (mem : Bytes) (map : MpReader) (key : Key) (first last : Nat) : Prop :=
  (∀ (σ : Type) (state : σ), mapFind mp mem map key state = .returned (some (first, last)) state ∧
    mapAt mp mem map (equals mp mem key) state = .returned (MpReader.plain first last) state) ∧
  ∀ reader, OverMap map reader → valueAt mp mem key reader = .returned (MpReader.plain first last) reader

/-- `find` gives the empty slice, and `operator[]` throws. -/
def GivesNothing (mp : Msgpuck) (mem : Bytes) (map : MpReader) (key : Key) : Prop :=
  (∀ (σ : Type) (state : σ), mapFind mp mem map key state = .returned none state ∧
    mapAt mp mem map (equals mp mem key) state = .thrown (mpReaderError "key not found") state) ∧
  ∀ reader, OverMap map reader → valueAt mp mem key reader = .thrown (mpReaderError "key not found") reader

theorem value_at_over {map reader : MpReader} (covers : OverMap map reader) (key : Key) :
    valueAt mp mem key reader = mapAt mp mem map (equals mp mem key) reader := by
  rw [valueAt, Cxx.bind_get, mapAt, mapAt, covers.shape, covers.begins, covers.ends]

theorem gives_slice {map after : MpReader} {key : Key} {first last : Nat}
    (found : findLoop mp mem (equals mp mem key) map.shape.cardinality
      ⟨.plain, map.beginPos, map.endPos, map.beginPos, 0⟩ = .returned (some (first, last)) after)
    (some : first < last) : GivesSlice mp mem map key first last := by
  have at_map : ∀ (σ : Type) (state : σ), mapAt mp mem map (equals mp mem key) state =
      .returned (MpReader.plain first last) state := by
    intro σ state
    rw [mapAt]
    refine (Cxx.bind_returned (Cxx.onObject_returned found state) _).trans ?_
    simp only [if_pos some]
    rfl
  refine ⟨fun σ state => ⟨?_, at_map σ state⟩, fun reader covers => ?_⟩
  · exact Cxx.bind_returned (Cxx.onObject_returned found state) _
  · rw [value_at_over covers]
    exact at_map _ reader

theorem gives_nothing {map after : MpReader} {key : Key}
    (missed : findLoop mp mem (equals mp mem key) map.shape.cardinality
      ⟨.plain, map.beginPos, map.endPos, map.beginPos, 0⟩ = .returned none after) :
    GivesNothing mp mem map key := by
  have at_map : ∀ (σ : Type) (state : σ), mapAt mp mem map (equals mp mem key) state =
      .thrown (mpReaderError "key not found") state := by
    intro σ state
    exact Cxx.bind_returned (Cxx.onObject_returned missed state) _
  refine ⟨fun σ state => ⟨?_, at_map σ state⟩, fun reader covers => ?_⟩
  · exact Cxx.bind_returned (Cxx.onObject_returned missed state) _
  · rw [value_at_over covers]
    exact at_map _ reader

/-- A lookup gives the value of the first pair whose key denotes the one that is
searched for, and nothing if there is none. -/
theorem map_lookup (implements : Implements mp) (reads : ReadsItems mp)
    (lead : MapLead mp pairs.length (pairsBytes pairs).length front)
    (formed : ∀ pair ∈ pairs, pair.Formed)
    (placed : mem.drop pos = front ++ (pairsBytes pairs ++ rest)) (endPos : Option Nat)
    (within : ∀ last ∈ endPos, pos + front.length + (pairsBytes pairs).length ≤ last)
    (key : Key) (state : σ) :
    ∃ map, mpMapOf mp mem (some pos) endPos state = .returned map state ∧
      (∀ before pair after, pairs = before ++ pair :: after →
        (∀ other ∈ before, key.denotes other.key = false) → key.denotes pair.key = true →
          ∃ first, GivesSlice mp mem map key first (first + pair.valueBytes.length) ∧
            first = pos + front.length + (pairsBytes before).length + pair.keyBytes.length ∧
            (mem.drop first).take pair.valueBytes.length = pair.valueBytes) ∧
      ((∀ pair ∈ pairs, key.denotes pair.key = false) → GivesNothing mp mem map key) := by
  have behind : mem.drop (pos + front.length) = pairsBytes pairs ++ rest := by
    rw [← List.drop_drop, placed, List.drop_left]
  have searches : Searches ⟨.plain, some (pos + front.length), endPos, some (pos + front.length), 0⟩
      (some (pos + front.length)) endPos (pos + front.length) := ⟨rfl, rfl, rfl, rfl⟩
  refine ⟨_, mp_map_of_returned implements reads lead placed endPos state, ?_, ?_⟩
  · intro before pair after split others same
    subst split
    simp only [List.forall_mem_append, List.forall_mem_cons] at formed
    obtain ⟨formedBefore, formedPair, _⟩ := formed
    simp only [pairs_bytes_append, pairsBytes, List.append_assoc, List.length_append] at behind within
    obtain ⟨middle, there, passed⟩ := find_loop_passes implements before formedBefore others searches
      behind (fun last bound => by have inside := within last bound; omega) (after.length + 1)
    have here : mem.drop (pos + front.length + (pairsBytes before).length) =
        pair.bytes ++ (pairsBytes after ++ rest) := by
      rw [← List.drop_drop, behind, List.drop_left]
    obtain ⟨last, _, turned⟩ := find_loop_turn implements formedPair there here
      (fun last bound => by have inside := within last bound; omega) after.length
    rw [if_pos same] at turned
    have valued := formedPair.value.choose_spec.length_pos
    refine ⟨_, ?_, rfl, ?_⟩
    · apply gives_slice
      · simp only [Shape.cardinality, List.length_append, List.length_cons]
        rw [passed, turned, MapPair.bytes, List.length_append, ← Nat.add_assoc]
      · exact Nat.lt_add_of_pos_right valued
    · rw [← List.drop_drop, here, MapPair.bytes, List.append_assoc, List.drop_left, List.take_left]
  · intro others
    obtain ⟨moved, _, passed⟩ := find_loop_passes implements pairs formed others searches behind
      within 0
    exact gives_nothing passed

end Lookup

/-- The map `{1: 2, 1: 3}`: the key 1 in two bytes gives the first value. -/
theorem map_lookup_wide_key :
    ∃ map, mpMapOf reference [0x82, 0xcc, 1, 2, 1, 3] (some 0) none () = .returned map () ∧
      ∃ first, GivesSlice reference [0x82, 0xcc, 1, 2, 1, 3] map (.int 1) first (first + 1) := by
  let pairs : List MapPair := [⟨.int 1, [0xcc, 1], [2]⟩, ⟨.int 1, [1], [3]⟩]
  have number : ∀ value : Nat, ∀ bytes, HeadEncodes (.uint value) bytes → Encodes (.int value) bytes :=
    fun value bytes headed => encodes_plain headed rfl
  have formed : ∀ pair ∈ pairs, pair.Formed := by
    simp only [pairs, List.forall_mem_cons]
    exact ⟨⟨number 1 _ fun _ => rfl, _, number 2 _ fun _ => rfl⟩,
      ⟨number 1 _ fun _ => rfl, _, number 3 _ fun _ => rfl⟩, nofun⟩
  have lead : MapLead reference pairs.length (pairsBytes pairs).length [0x82] := .map _ fun _ => rfl
  have placed : ([0x82, 0xcc, 1, 2, 1, 3] : Bytes).drop 0 = [0x82] ++ (pairsBytes pairs ++ []) := rfl
  obtain ⟨map, made, found, _⟩ := map_lookup reference_implements reference_reads_items lead formed
    placed none nofun (.int 1) ()
  obtain ⟨first, gives, _⟩ := found [] _ _ rfl nofun rfl
  exact ⟨map, made, first, gives⟩

end Cpp2tnt
