import Cpp2tnt.Documents

/-!
The typed overloads of `mp_writer::operator<<` and `mp_reader::operator>>`. A `Ty`
is a C++ type built from the supported ones, `Val` its values, `put` and `get`
the overload that is chosen for it. Every template overload is a function of the
overloads for its arguments. A read gets the prior content of its destination.
-/

namespace Cpp2tnt
open Imperative MessagePack MpWriter

/-- A type with the order its `operator<` gives it. -/
structure Comparable where
  Carrier : Type
  [order : Ord Carrier]
  [trans : Std.TransOrd Carrier]

attribute [instance] Comparable.order Comparable.trans

/-- `std::map`: its keys ascend, so it iterates over them in this order. -/
structure StdMap (Key Value : Type) [Ord Key] where
  entries : List (Key × Value)
  ascending : entries.Pairwise fun left right => compare left.1 right.1 = .lt

namespace StdMap
variable {Key Value : Type} [Ord Key]

def empty : StdMap Key Value := ⟨[], .nil⟩

def insertEntry (key : Key) (value : Value) : List (Key × Value) → List (Key × Value)
  | [] => [(key, value)]
  | entry :: rest => match compare key entry.1 with
    | .lt => (key, value) :: entry :: rest
    | .eq => (entry.1, value) :: rest
    | .gt => entry :: insertEntry key value rest

theorem mem_insert_entry (key : Key) (value : Value) (entries : List (Key × Value))
    (found : Key × Value) (inserted : found ∈ insertEntry key value entries) :
    found.1 = key ∨ ∃ entry ∈ entries, found.1 = entry.1 := by
  induction entries with
  | nil =>
      rw [insertEntry, List.mem_singleton] at inserted
      exact .inl (by rw [inserted])
  | cons entry rest ih =>
      rw [insertEntry] at inserted
      split at inserted
      · rcases List.mem_cons.mp inserted with rfl | old
        · exact .inl rfl
        · exact .inr ⟨found, old, rfl⟩
      · rcases List.mem_cons.mp inserted with rfl | old
        · exact .inr ⟨entry, List.mem_cons_self, rfl⟩
        · exact .inr ⟨found, List.mem_cons_of_mem entry old, rfl⟩
      · rcases List.mem_cons.mp inserted with rfl | old
        · exact .inr ⟨found, List.mem_cons_self, rfl⟩
        · rcases ih old with same | ⟨other, kept, same⟩
          · exact .inl same
          · exact .inr ⟨other, List.mem_cons_of_mem entry kept, same⟩

theorem insert_entry_ascending [Std.TransOrd Key] (key : Key) (value : Value)
    (entries : List (Key × Value))
    (ascending : entries.Pairwise fun left right => compare left.1 right.1 = .lt) :
    (insertEntry key value entries).Pairwise fun left right => compare left.1 right.1 = .lt := by
  induction entries with
  | nil => simp [insertEntry]
  | cons entry rest ih =>
      obtain ⟨above, later⟩ := List.pairwise_cons.mp ascending
      rw [insertEntry]
      split
      next smaller =>
        apply List.pairwise_cons.mpr
        refine ⟨?_, ascending⟩
        intro other kept
        rcases List.mem_cons.mp kept with rfl | kept
        · exact smaller
        · exact Std.TransCmp.lt_trans smaller (above other kept)
      next =>
        apply List.pairwise_cons.mpr
        exact ⟨above, later⟩
      next larger =>
        apply List.pairwise_cons.mpr
        refine ⟨?_, ih later⟩
        intro other kept
        rcases mem_insert_entry key value rest other kept with same | ⟨old, kept, same⟩
        · rw [same]
          exact Std.OrientedCmp.lt_of_gt larger
        · rw [same]
          exact above old kept

/-- `map[key] = value`. -/
def set [Std.TransOrd Key] (key : Key) (value : Value) (map : StdMap Key Value) :
    StdMap Key Value :=
  ⟨insertEntry key value map.entries, insert_entry_ascending key value map.entries map.ascending⟩

theorem insert_entry_last [Std.TransOrd Key] (key : Key) (value : Value)
    (entries : List (Key × Value)) (above : ∀ entry ∈ entries, compare entry.1 key = .lt) :
    insertEntry key value entries = entries ++ [(key, value)] := by
  induction entries with
  | nil => rfl
  | cons entry rest ih =>
      have larger : compare key entry.1 = .gt :=
        Std.OrientedCmp.gt_of_lt (above entry List.mem_cons_self)
      simp only [insertEntry, larger]
      rw [ih (fun other kept => above other (List.mem_cons_of_mem entry kept)), List.cons_append]

theorem set_last [Std.TransOrd Key] (key : Key) (value : Value) (map : StdMap Key Value)
    (above : ∀ entry ∈ map.entries, compare entry.1 key = .lt) :
    (map.set key value).entries = map.entries ++ [(key, value)] :=
  insert_entry_last key value map.entries above

def findEntry (key : Key) : List (Key × Value) → Option Value
  | [] => none
  | entry :: rest => if compare key entry.1 = .eq then some entry.2 else findEntry key rest

def find (key : Key) (map : StdMap Key Value) : Option Value := findEntry key map.entries

theorem find_insert_entry [Std.LawfulEqOrd Key] (key : Key) (value : Value) (entries : List (Key × Value)) (other : Key) :
    findEntry other (insertEntry key value entries) =
      if compare other key = .eq then some value else findEntry other entries := by
  induction entries with
  | nil => rfl
  | cons entry rest ih =>
      rw [insertEntry]
      cases order : compare key entry.1 with
      | lt => rfl
      | eq =>
          have same := Std.LawfulEqOrd.eq_of_compare order
          simp only [findEntry, same]
          split <;> rfl
      | gt =>
          simp only [findEntry, ih]
          split_ifs with here there
          · cases Std.LawfulEqOrd.eq_of_compare here
            cases Std.LawfulEqOrd.eq_of_compare there
            rw [Std.ReflOrd.compare_self] at order
            cases order
          all_goals rfl

theorem find_none {key : Key} {entries : List (Key × Value)}
    (above : ∀ entry ∈ entries, compare key entry.1 = .lt) : findEntry key entries = none := by
  induction entries with
  | nil => rfl
  | cons entry rest ih =>
      have smaller := above entry List.mem_cons_self
      rw [findEntry, smaller, if_neg (by decide)]
      exact ih fun other kept => above other (List.mem_cons_of_mem entry kept)

theorem find_before [Std.TransOrd Key] {key : Key} {entry : Key × Value} {rest : List (Key × Value)}
    (ascending : (entry :: rest).Pairwise fun left right => compare left.1 right.1 = .lt)
    (before : compare key entry.1 = .lt) : findEntry key (entry :: rest) = none := by
  apply find_none
  intro other kept
  rcases List.mem_cons.mp kept with rfl | kept
  · exact before
  · exact Std.TransCmp.lt_trans before ((List.pairwise_cons.mp ascending).1 other kept)

theorem find_first [Std.ReflOrd Key] (entry : Key × Value) (rest : List (Key × Value)) :
    findEntry entry.1 (entry :: rest) = some entry.2 := by
  rw [findEntry, if_pos Std.ReflOrd.compare_self]

theorem entries_ext [Std.TransOrd Key] [Std.LawfulEqOrd Key] {left right : List (Key × Value)}
    (leftUp : left.Pairwise fun one other => compare one.1 other.1 = .lt)
    (rightUp : right.Pairwise fun one other => compare one.1 other.1 = .lt)
    (same : ∀ key, findEntry key left = findEntry key right) : left = right := by
  induction left generalizing right with
  | nil =>
      cases right with
      | nil => rfl
      | cons entry rest => cases (same entry.1).trans (find_first entry rest)
  | cons entry rest ih =>
      cases right with
      | nil => cases (same entry.1).symm.trans (find_first entry rest)
      | cons other others =>
          cases order : compare entry.1 other.1 with
          -- the smaller of the two first keys would be missing in the other list
          | lt =>
              have missing := (same entry.1).trans (find_before rightUp order)
              cases missing.symm.trans (find_first entry rest)
          | gt =>
              have missing := (same other.1).symm.trans
                (find_before leftUp (Std.OrientedCmp.lt_of_gt order))
              cases missing.symm.trans (find_first other others)
          | eq =>
              have keys := Std.LawfulEqOrd.eq_of_compare order
              have values := (find_first entry rest).symm.trans (same entry.1)
              rw [keys, find_first, Option.some.injEq] at values
              obtain ⟨leftAbove, leftLater⟩ := List.pairwise_cons.mp leftUp
              obtain ⟨rightAbove, rightLater⟩ := List.pairwise_cons.mp rightUp
              have tails : ∀ key, findEntry key rest = findEntry key others := by
                intro key
                by_cases here : compare key entry.1 = .eq
                · cases Std.LawfulEqOrd.eq_of_compare here
                  rw [find_none leftAbove, find_none (keys ▸ rightAbove)]
                · have later := same key
                  rwa [findEntry, findEntry, ← keys, if_neg here, if_neg here] at later
              rw [Prod.ext keys values, ih leftLater rightLater tails]

theorem ext_find [Std.TransOrd Key] [Std.LawfulEqOrd Key] {left right : StdMap Key Value} :
    left = right ↔ ∀ key, left.find key = right.find key := by
  constructor
  · rintro rfl key
    rfl
  · intro same
    have entries := entries_ext left.ascending right.ascending same
    cases left
    cases right
    cases entries
    rfl

@[simp] theorem find_set [Std.TransOrd Key] [Std.LawfulEqOrd Key] (key : Key) (value : Value)
    (map : StdMap Key Value) (other : Key) : (map.set key value).find other =
      if compare other key = .eq then some value else map.find other :=
  find_insert_entry key value map.entries other

end StdMap

inductive Ty where
  | bool
  | int (type : IntType)
  | string
  | optional (elem : Ty)
  | vector (elem : Ty)
  | tuple (elems : List Ty)
  | map (key value : Ty)

instance (type : IntType) : Ord type.Val := ⟨compareOn Subtype.val⟩

instance (type : IntType) : Std.TransOrd type.Val :=
  inferInstanceAs (Std.TransCmp (compareOn (Subtype.val : type.Val → Int)))

def StdMap.cmpEntries {Key Value : Type} [Ord Key] [Ord Value] :
    List (Key × Value) → List (Key × Value) → Ordering :=
  List.compareLex (compareLex (compareOn Prod.fst) (compareOn Prod.snd))

instance {Key Value : Type} [Ord Key] [Ord Value] : Ord (StdMap Key Value) where
  compare left right := StdMap.cmpEntries left.entries right.entries

instance {Key Value : Type} [Ord Key] [Ord Value] [Std.TransOrd Key] [Std.TransOrd Value] :
    Std.TransOrd (StdMap Key Value) :=
  have entries : Std.TransCmp (StdMap.cmpEntries : List (Key × Value) → _ → _) :=
    inferInstanceAs (Std.TransCmp (List.compareLex _))
  { eq_swap := entries.eq_swap
    isLE_trans := entries.isLE_trans }

mutual
def Ty.comparable : Ty → Comparable
  | .bool => { Carrier := Bool }
  | .int type => { Carrier := type.Val }
  | .string => { Carrier := Bytes }
  | .optional elem => { Carrier := Option elem.comparable.Carrier }
  | .vector elem => { Carrier := List elem.comparable.Carrier }
  | .tuple elems => Ty.comparableAll elems
  | .map key value =>
      { Carrier := StdMap key.comparable.Carrier value.comparable.Carrier }

def Ty.comparableAll : List Ty → Comparable
  | [] => { Carrier := Unit }
  | elem :: elems =>
      { Carrier := elem.comparable.Carrier × (Ty.comparableAll elems).Carrier
        order := lexOrd
        trans := inferInstance }
end

abbrev Ty.Val (type : Ty) : Type := type.comparable.Carrier

abbrev Ty.Vals (types : List Ty) : Type := (Ty.comparableAll types).Carrier

section Put
variable (mp : Msgpuck) {α Key Value : Type} [Ord Key]

def putOptional (put : α → Write Unit) : Option α → Write Unit
  | none => writeScalar mp .nil
  | some value => put value

def putVector (put : α → Write Unit) (values : List α) : Write Unit := do
  beginArray mp (values.length % 2 ^ 32)
  Cxx.forEach put values
  MpWriter.finalize mp

def putMap (putKey : Key → Write Unit) (putValue : Value → Write Unit)
    (map : StdMap Key Value) : Write Unit := do
  beginMap mp (map.entries.length % 2 ^ 32)
  Cxx.forEach (fun entry => do
    putKey entry.1
    putValue entry.2) map.entries
  MpWriter.finalize mp

mutual
/-- `operator<<`. -/
def Ty.put : (type : Ty) → type.Val → Write Unit
  | .bool, value => writeScalar mp (.bool value)
  | .int _, value => writeScalar mp (.int value.1)
  | .string, text => writeScalar mp (.str text)
  | .optional elem, value => putOptional mp elem.put value
  | .vector elem, values => putVector mp elem.put values
  | .tuple elems, values => do
      beginArray mp (elems.length % 2 ^ 32)
      Ty.putAll elems values
      MpWriter.finalize mp
  | .map key value, entries => putMap mp key.put value.put entries

def Ty.putAll : (types : List Ty) → Ty.Vals types → Write Unit
  | [], _ => pure ()
  | type :: types, values => do
      type.put values.1
      Ty.putAll types values.2
end

end Put

/-- A default constructed destination. A scalar local is not initialised in the
source; no read looks at it. -/
def IntType.zero (type : IntType) : type.Val := type.cast 0

mutual
def Ty.fresh : (type : Ty) → type.Val
  | .bool => false
  | .int type => type.zero
  | .string => []
  | .optional _ => none
  | .vector _ => []
  | .tuple elems => Ty.freshAll elems
  | .map _ _ => StdMap.empty

def Ty.freshAll : (types : List Ty) → Ty.Vals types
  | [] => ()
  | type :: types => (type.fresh, Ty.freshAll types)
end

section Get
variable (mp : Msgpuck) (mem : Bytes) {α Key Value : Type} [Ord Key] [Std.TransOrd Key]

def getOptional (get : α → Read α) (fresh : α) : Read (Option α) := do
  if !(← hasNext true) then return none
  let reader ← Cxx.get
  if mp.mpTypeof (← deref mem reader.currentPos) = .nil then
    skip mp mem
    return none
  else return some (← get fresh)

def getEach (get : α → Read α) : List α → Read (List α)
  | [] => return []
  | prior :: rest => do
      let value ← get prior
      let values ← getEach get rest
      return value :: values

def resizeVector (fresh : α) (size : Nat) (prior : List α) : List α :=
  prior.take size ++ List.replicate (size - prior.length) fresh

def getVector (get : α → Read α) (fresh : α) (prior : List α) : Read (List α) := do
  let arr ← readArray mp mem
  let result ← Cxx.onObject (getEach get (resizeVector fresh arr.shape.cardinality prior)) arr
  return result.1

def getEntries (getKey : Read Key) (getValue : Read Value) :
    Nat → StdMap Key Value → Read (StdMap Key Value)
  | 0, map => return map
  | pairs + 1, map => do
      let key ← getKey
      let value ← getValue
      getEntries getKey getValue pairs (map.set key value)

def getMap (getKey : Read Key) (getValue : Read Value) (prior : StdMap Key Value) :
    Read (StdMap Key Value) := do
  let map ← readMap mp mem
  let result ← Cxx.onObject (getEntries getKey getValue map.shape.cardinality prior) map
  return result.1

mutual
/-- `operator>>`, with the destination's prior content. -/
def Ty.get : (type : Ty) → type.Val → Read type.Val
  | .bool, _ => readBool mp mem
  | .int type, _ => readIntegral mp mem type
  | .string, prior => readString mp mem prior
  | .optional elem, _ => getOptional mp mem elem.get elem.fresh
  | .vector elem, prior => getVector mp mem elem.get elem.fresh prior
  | .tuple elems, prior => do
      let arr ← readArray mp mem
      let result ← Cxx.onObject (Ty.getAll elems prior) arr
      return result.1
  | .map key value, prior => getMap mp mem (key.get key.fresh) (value.get value.fresh) prior

def Ty.getAll : (types : List Ty) → Ty.Vals types → Read (Ty.Vals types)
  | [], _ => return ()
  | type :: types, prior => do
      let value ← type.get prior.1
      let values ← Ty.getAll types prior.2
      return (value, values)
end

end Get

end Cpp2tnt
