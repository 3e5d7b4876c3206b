import Cpp2tnt.TypedValues

/-!
Typed values through the writer and back. `Ty.doc` is the document a value is
written as: `put` runs exactly its calls, so the laws of documents apply. Reading
follows the same recursion: each overload, standing on the text of its value,
returns the value and moves over the text.
-/

namespace Cpp2tnt
open Imperative MessagePack MpWriter

mutual
def Ty.doc : (type : Ty) → type.Val → Doc
  | .bool, value => .scalar (.bool value)
  | .int _, value => .scalar (.int value.1)
  | .string, text => .scalar (.str text)
  | .optional _, none => .scalar .nil
  | .optional elem, some value => elem.doc value
  | .vector elem, values => .container .array values.length (values.map elem.doc)
  | .tuple elems, values => .container .array elems.length (Ty.docAll elems values)
  | .map key value, dict => .container .map dict.entries.length
      (dict.entries.flatMap fun entry => [key.doc entry.1, value.doc entry.2])

def Ty.docAll : (types : List Ty) → Ty.Vals types → List Doc
  | [], _ => []
  | type :: types, values => type.doc values.1 :: Ty.docAll types values.2
end

def Each {α : Type} (property : α → Prop) (items : List α) : Prop :=
  ∀ item ∈ items, property item

mutual
/-- Strings below 2^32 bytes and containers below 2^31 elements. -/
def Ty.Small : (type : Ty) → type.Val → Prop
  | .bool, _ | .int _, _ | .optional _, none => True
  | .string, text => text.length < 2 ^ 32
  | .optional elem, some value => elem.Small value
  | .vector elem, values =>
      List.length values < 2 ^ 31 ∧ Each elem.Small values
  | .tuple elems, values => elems.length < 2 ^ 31 ∧ Ty.SmallAll elems values
  | .map key value, dict => dict.entries.length < 2 ^ 31 ∧
      Each (fun entry => key.Small entry.1 ∧ value.Small entry.2) dict.entries

def Ty.SmallAll : (types : List Ty) → Ty.Vals types → Prop
  | [], _ => True
  | type :: types, values => type.Small values.1 ∧ Ty.SmallAll types values.2
end

/-- Only an empty `optional` is written as nil. -/
def Ty.isOptional : Ty → Bool
  | .optional _ => true
  | _ => false

def Ty.isBool : Ty → Bool
  | .bool => true
  | _ => false

mutual
/-- The types the overloads compile and round-trip for: no `vector<bool>`, and an
`optional` only of a type that is never written as nil. -/
def Ty.Supported : Ty → Prop
  | .bool | .int _ | .string => True
  | .optional elem => elem.isOptional = false ∧ elem.Supported
  | .vector elem => elem.isBool = false ∧ elem.Supported
  | .tuple elems => Ty.SupportedAll elems
  | .map key value => key.Supported ∧ value.Supported

def Ty.SupportedAll : List Ty → Prop
  | [] => True
  | type :: types => type.Supported ∧ Ty.SupportedAll types
end

section Write
variable {mp : Msgpuck}

theorem exec_all_singleton (op : WriterOp) : execAll mp [op] = op.exec mp :=
  Cxx.forEach_singleton _ op

theorem exec_all_append (front back : List WriterOp) :
    execAll mp (front ++ back) = (do execAll mp front; execAll mp back) :=
  Cxx.forEach_append _ front back

theorem exec_container (kind : Container) (declared : Nat) (children : List Doc) :
    execAll mp (Doc.container kind declared children).ops = (do
      (WriterOp.begin kind declared).exec mp
      execAll mp (Doc.opsAll children)
      MpWriter.finalize mp) := by
  rw [Doc.ops]
  have split : WriterOp.begin kind declared :: (Doc.opsAll children ++ [.finalize]) =
      [.begin kind declared] ++ (Doc.opsAll children ++ [.finalize]) := rfl
  rw [split, exec_all_append, exec_all_append, exec_all_singleton, exec_all_singleton]
  rfl

theorem ops_all_append (before behind : List Doc) :
    Doc.opsAll (before ++ behind) = Doc.opsAll before ++ Doc.opsAll behind := by
  induction before with
  | nil => rfl
  | cons doc before ih => simp [Doc.opsAll, ih]

theorem ops_all_singleton (doc : Doc) : Doc.opsAll [doc] = doc.ops := by
  simp [Doc.opsAll]

theorem exec_scalar (value : Scalar) :
    execAll mp (Doc.scalar value).ops = writeScalar mp value := by
  rw [Doc.ops, exec_all_singleton]
  rfl

theorem for_each_docs {α : Type} (put : α → Write Unit) (docs : α → List Doc) (items : List α)
    (same : ∀ item ∈ items, put item = execAll mp (Doc.opsAll (docs item))) :
    Cxx.forEach put items = execAll mp (Doc.opsAll (items.flatMap docs)) := by
  induction items with
  | nil => rfl
  | cons item items ih =>
      have first := same item List.mem_cons_self
      have later := ih fun other kept => same other (List.mem_cons_of_mem item kept)
      rw [List.flatMap_cons, ops_all_append, exec_all_append, ← later, ← first]
      rfl

theorem put_vector_docs {α : Type} (put : α → Write Unit) (doc : α → Doc) (values : List α)
    (short : values.length < 2 ^ 31)
    (same : ∀ value ∈ values, put value = execAll mp (doc value).ops) :
    putVector mp put values =
      execAll mp (Doc.container .array values.length (values.map doc)).ops := by
  have each := for_each_docs put (fun value => [doc value]) values fun value kept => by
    rw [ops_all_singleton]
    exact same value kept
  have children : (values.flatMap fun value => [doc value]) = values.map doc :=
    List.map_eq_flatMap.symm
  rw [putVector, Nat.mod_eq_of_lt (by omega), each, exec_container, children]
  rfl

theorem put_map_docs {Key Value : Type} [Ord Key] (putKey : Key → Write Unit)
    (putValue : Value → Write Unit) (keyDoc : Key → Doc) (valueDoc : Value → Doc)
    (dict : StdMap Key Value) (short : dict.entries.length < 2 ^ 31)
    (same : ∀ entry ∈ dict.entries, putKey entry.1 = execAll mp (keyDoc entry.1).ops ∧
      putValue entry.2 = execAll mp (valueDoc entry.2).ops) :
    putMap mp putKey putValue dict =
      execAll mp (Doc.container .map dict.entries.length
        (dict.entries.flatMap fun entry => [keyDoc entry.1, valueDoc entry.2])).ops := by
  have each := for_each_docs (fun entry => do putKey entry.1; putValue entry.2)
    (fun entry => [keyDoc entry.1, valueDoc entry.2]) dict.entries fun entry kept => by
      obtain ⟨key, value⟩ := same entry kept
      rw [key, value, Doc.opsAll, ops_all_singleton, exec_all_append]
  rw [putMap, Nat.mod_eq_of_lt (by omega), each, exec_container]
  rfl

mutual
/-- `operator<<` makes exactly the calls of the document. -/
theorem put_doc : (type : Ty) → (value : type.Val) → type.Small value →
    type.put mp value = execAll mp (type.doc value).ops
  | .bool, value, _ => by rw [Ty.put, Ty.doc, exec_scalar]
  | .int type, value, _ => by rw [Ty.put, Ty.doc, exec_scalar]
  | .string, text, _ => by rw [Ty.put, Ty.doc, exec_scalar]
  | .optional _, none, _ => (exec_scalar .nil).symm
  | .optional elem, some value, small => put_doc elem value small
  | .vector elem, values, small =>
      put_vector_docs (elem.put mp) elem.doc values small.1
        fun value kept => put_doc elem value (small.2 value kept)
  | .tuple elems, values, small => by
      have short : elems.length % 2 ^ 32 = elems.length :=
        Nat.mod_eq_of_lt (Nat.lt_trans small.1 (by decide))
      rw [Ty.put, short, put_all_docs elems values small.2, Ty.doc, exec_container]
      rfl
  | .map key value, dict, small =>
      put_map_docs (key.put mp) (value.put mp) key.doc value.doc dict small.1
        fun entry kept => ⟨put_doc key entry.1 (small.2 entry kept).1,
          put_doc value entry.2 (small.2 entry kept).2⟩

theorem put_all_docs : (types : List Ty) → (values : Ty.Vals types) →
    Ty.SmallAll types values →
    Ty.putAll mp types values = execAll mp (Doc.opsAll (Ty.docAll types values))
  | [], _, _ => by
      rw [Ty.putAll, Ty.docAll, Doc.opsAll]
      rfl
  | type :: types, values, small => by
      rw [Ty.putAll, put_doc type values.1 small.1, put_all_docs types values.2 small.2,
        Ty.docAll, Doc.opsAll, exec_all_append]
end

end Write

/-! Every value is one item, and every container declares exactly its children. -/

theorem doc_single : (type : Ty) → (value : type.Val) → (type.doc value).values.length = 1
  | .bool, _ | .int _, _ | .string, _ | .optional _, none => rfl
  | .optional elem, some value => doc_single elem value
  | .vector _, _ | .tuple _, _ | .map _ _, _ => rfl

theorem values_all_length (docs : List Doc) (single : ∀ doc ∈ docs, doc.values.length = 1) :
    (Doc.valuesAll docs).length = docs.length := by
  induction docs with
  | nil => rfl
  | cons doc docs ih =>
      have first := single doc List.mem_cons_self
      have later := ih fun other kept => single other (List.mem_cons_of_mem doc kept)
      rw [Doc.valuesAll, List.length_append, first, later, List.length_cons]
      omega

theorem valid_all_of_each (docs : List Doc) (valid : ∀ doc ∈ docs, doc.Valid) :
    Doc.ValidAll docs := by
  induction docs with
  | nil => trivial
  | cons doc docs ih =>
      rw [Doc.ValidAll]
      constructor
      · exact valid doc List.mem_cons_self
      · exact ih fun other kept => valid other (List.mem_cons_of_mem doc kept)

def SingleItem (doc : Doc) : Prop := doc.values.length = 1 ∧ doc.Valid

abbrev SingleItems (docs : List Doc) : Prop := ∀ doc ∈ docs, SingleItem doc

theorem vector_single {α : Type} (doc : α → Doc) (values : List α)
    (single : ∀ value ∈ values, SingleItem (doc value)) : SingleItems (values.map doc) := by
  intro item kept
  obtain ⟨value, member, rfl⟩ := List.mem_map.mp kept
  exact single value member

theorem map_single {Key Value : Type} (keyDoc : Key → Doc) (valueDoc : Value → Doc)
    (entries : List (Key × Value))
    (single : ∀ entry ∈ entries, SingleItem (keyDoc entry.1) ∧ SingleItem (valueDoc entry.2)) :
    SingleItems (entries.flatMap fun entry => [keyDoc entry.1, valueDoc entry.2]) := by
  intro item kept
  obtain ⟨entry, member, inside⟩ := List.mem_flatMap.mp kept
  have both := single entry member
  rcases List.mem_pair.mp inside with rfl | rfl
  · exact both.1
  · exact both.2

theorem exact_container_valid (kind : Container) (declared : Nat) (children : List Doc)
    (single : SingleItems children) (short : children.length < 2 ^ 32)
    (exactly : kind.cardinality children.length = declared)
    (paired : kind = .map → children.length % 2 = 0) :
    (Doc.container kind declared children).Valid := by
  have size := values_all_length children fun doc kept => (single doc kept).1
  have fits : HeaderFits kind declared declared := Nat.le_refl _
  rw [Doc.Valid, size, exactly]
  refine ⟨?_, ?_, short, paired, fits⟩
  · exact valid_all_of_each children fun doc kept => (single doc kept).2
  · rw [← exactly]
    exact cardinality_lt kind _ short

theorem doc_all_length : (types : List Ty) → (values : Ty.Vals types) →
    (Ty.docAll types values).length = types.length
  | [], _ => rfl
  | _ :: types, values => congrArg (· + 1) (doc_all_length types values.2)

theorem entry_docs_length {Key Value : Type} (keyDoc : Key → Doc) (valueDoc : Value → Doc)
    (entries : List (Key × Value)) :
    (entries.flatMap fun entry => [keyDoc entry.1, valueDoc entry.2]).length =
      2 * entries.length := by
  induction entries with
  | nil => rfl
  | cons entry entries ih =>
      rw [List.flatMap_cons, List.length_append, ih, List.length_cons]
      simp only [List.length_cons, List.length_nil]
      omega

mutual
theorem doc_valid : (type : Ty) → (value : type.Val) → type.Small value →
    (type.doc value).Valid
  | .bool, _, _ => trivial
  | .int type, value, _ => by
      obtain ⟨number, low, high⟩ := value
      change -2 ^ 63 ≤ number ∧ number < 2 ^ 64
      cases type <;>
        simp only [IntType.min, IntType.max, IntType.bits, IntType.signed, if_true,
          Bool.false_eq_true, if_false] at low high <;>
        constructor <;> omega
  | .string, _, small => small
  | .optional _, none, _ => trivial
  | .optional elem, some value, small => doc_valid elem value small
  | .vector elem, values, small => by
      apply exact_container_valid .array
      · exact vector_single elem.doc values fun value kept =>
          ⟨doc_single elem value, doc_valid elem value (small.2 value kept)⟩
      · exact (List.length_map _).trans_lt (Nat.lt_trans small.1 (by decide))
      · exact List.length_map _
      · intro impossible
        cases impossible
  | .tuple elems, values, small => by
      have size := doc_all_length elems values
      apply exact_container_valid .array
      · exact docs_single elems values small.2
      · rw [size]
        exact Nat.lt_trans small.1 (by decide)
      · exact size
      · intro impossible
        cases impossible
  | .map key value, dict, small => by
      have size := entry_docs_length key.doc value.doc dict.entries
      have short := small.1
      apply exact_container_valid .map
      · exact map_single key.doc value.doc dict.entries fun entry kept =>
          ⟨⟨doc_single key entry.1, doc_valid key entry.1 (small.2 entry kept).1⟩,
            ⟨doc_single value entry.2, doc_valid value entry.2 (small.2 entry kept).2⟩⟩
      · rw [size]
        omega
      · rw [size, Container.cardinality]
        omega
      · intro _
        rw [size]
        omega

theorem docs_single : (types : List Ty) → (values : Ty.Vals types) → Ty.SmallAll types values →
    SingleItems (Ty.docAll types values)
  | [], _, _ => by
      intro doc kept
      cases kept
  | type :: types, values, small => by
      intro doc kept
      rcases List.mem_cons.mp kept with rfl | later
      · exact ⟨doc_single type values.1, doc_valid type values.1 small.1⟩
      · exact docs_single types values.2 small.2 doc later
end

section Read
variable {mp : Msgpuck} {mem rest : Bytes} {reader : MpReader}

/-- The texts of the documents stand at the cursor of a reader with a right bound
that has at least so many items left. -/
structure StandsAll (mp : Msgpuck) (mem : Bytes) (reader : MpReader) (docs : List Doc)
    (rest : Bytes) : Prop where
  placed : ∃ pos last, reader.currentPos = some pos ∧ reader.endPos = some last ∧
    mem.drop pos = Doc.bytesAll mp docs ++ rest ∧ pos + (Doc.bytesAll mp docs).length ≤ last
  below : ∀ limit ∈ reader.shape.limit, reader.currentInd + docs.length ≤ limit
  narrow : reader.currentInd + docs.length < 2 ^ 32

theorem StandsAll.first {doc : Doc} {docs : List Doc}
    (stands : StandsAll mp mem reader (doc :: docs) rest) :
    Stands mem reader (doc.bytes mp) (Doc.bytesAll mp docs ++ rest) := by
  obtain ⟨pos, last, current, bound, found, within⟩ := stands.placed
  rw [Doc.bytesAll] at found within
  rw [List.length_append] at within
  constructor
  · refine ⟨pos, current, by rw [found, List.append_assoc], ?_⟩
    intro other same
    rw [bound, Option.mem_some_iff] at same
    omega
  · intro limit limited
    have below := stands.below limit limited
    rw [List.length_cons] at below
    omega

theorem StandsAll.knows {docs : List Doc} (stands : StandsAll mp mem reader docs rest)
    (strict : Bool) : reader.Knows strict := by
  obtain ⟨pos, last, _, bound, _⟩ := stands.placed
  exact .inl (by simp [bound])

theorem StandsAll.later {doc : Doc} {docs : List Doc}
    (stands : StandsAll mp mem reader (doc :: docs) rest) :
    StandsAll mp mem (reader.advance (doc.bytes mp).length) docs rest := by
  obtain ⟨pos, last, current, bound, found, within⟩ := stands.placed
  have below := stands.below
  have narrow := stands.narrow
  rw [Doc.bytesAll] at found within
  rw [List.length_append] at within
  rw [List.length_cons] at narrow
  have next : (reader.advance (doc.bytes mp).length).currentInd = reader.currentInd + 1 :=
    Nat.mod_eq_of_lt (by omega)
  constructor
  · refine ⟨pos + (doc.bytes mp).length, last, ?_, bound, ?_, by omega⟩
    · simp [MpReader.advance, current]
    · rw [← List.drop_drop, found, List.append_assoc, List.drop_left]
  · intro limit limited
    have enough := below limit limited
    rw [next]
    rw [List.length_cons] at enough
    omega
  · rw [next]
    omega

/-- A read of one document: standing on its text it returns the value and moves
over the text. `strict` tells which question about a next item it asks. -/
def Reads {α : Type} (mp : Msgpuck) (mem : Bytes) (strict : Bool) (get : Read α) (doc : Doc)
    (value : α) : Prop :=
  ∀ reader rest, Stands mem reader (doc.bytes mp) rest → reader.Knows strict →
    get reader = .returned value (reader.advance (doc.bytes mp).length)

theorem Reads.first {α : Type} {strict : Bool} {get : Read α} {doc : Doc} {value : α}
    (reads : Reads mp mem strict get doc value) {docs : List Doc}
    (stands : StandsAll mp mem reader (doc :: docs) rest) :
    get reader = .returned value (reader.advance (doc.bytes mp).length) :=
  reads reader _ stands.first (stands.knows strict)

theorem get_each_returned {α : Type} (strict : Bool) (get : α → Read α) (fresh : α)
    (doc : α → Doc) (values : List α)
    (reads : ∀ value ∈ values, Reads mp mem strict (get fresh) (doc value) value)
    (stands : StandsAll mp mem reader (values.map doc) rest) :
    ∃ reached, getEach get (List.replicate values.length fresh) reader =
      .returned values reached := by
  induction values generalizing reader with
  | nil => exact ⟨reader, rfl⟩
  | cons value values ih =>
      have first := (reads value List.mem_cons_self).first stands
      obtain ⟨reached, later⟩ := ih
        (fun other kept => reads other (List.mem_cons_of_mem value kept)) stands.later
      refine ⟨reached, ?_⟩
      rw [List.length_cons, List.replicate_succ, getEach, Cxx.bind_returned first,
        Cxx.bind_returned later]
      rfl

theorem get_entries_returned {Key Value : Type} [Ord Key] [Std.TransOrd Key]
    (strictKey strictValue : Bool) (getKey : Read Key) (getValue : Read Value)
    (keyDoc : Key → Doc) (valueDoc : Value → Doc) (later : List (Key × Value))
    (reads : ∀ entry ∈ later, Reads mp mem strictKey getKey (keyDoc entry.1) entry.1 ∧
      Reads mp mem strictValue getValue (valueDoc entry.2) entry.2)
    (earlier whole : StdMap Key Value) (split : whole.entries = earlier.entries ++ later)
    (stands : StandsAll mp mem reader
      (later.flatMap fun entry => [keyDoc entry.1, valueDoc entry.2]) rest) :
    ∃ reached, getEntries getKey getValue later.length earlier reader =
      .returned whole reached := by
  induction later generalizing earlier reader with
  | nil =>
      have same : earlier = whole := by
        cases earlier
        cases whole
        simpa using split.symm
      exact ⟨reader, by rw [same]; rfl⟩
  | cons entry later ih =>
      have both := reads entry List.mem_cons_self
      rw [List.flatMap_cons] at stands
      have first := both.1.first stands
      have second := both.2.first stands.later
      have ascending := whole.ascending
      rw [split] at ascending
      have last := StdMap.set_last entry.1 entry.2 earlier fun other kept =>
        (List.pairwise_append.mp ascending).2.2 other kept entry List.mem_cons_self
      obtain ⟨reached, rest⟩ := ih
        (fun other kept => reads other (List.mem_cons_of_mem entry kept))
        (earlier.set entry.1 entry.2)
        (by rw [split, last, List.append_assoc]; rfl) stands.later.later
      refine ⟨reached, ?_⟩
      rw [List.length_cons, getEntries, Cxx.bind_returned first, Cxx.bind_returned second]
      exact rest

theorem exact_container_text (mp : Msgpuck) (kind : Container) (declared : Nat) (children : List Doc)
    (single : SingleItems children) (exactly : kind.cardinality children.length = declared) :
    (Doc.container kind declared children).bytes mp =
      kind.encode declared ++ Doc.bytesAll mp children := by
  have size := values_all_length children fun doc kept => (single doc kept).1
  rw [Doc.bytes, size, exactly, patchedHead, if_pos rfl]

theorem inner_stands_all (shape : Shape) (docs : List Doc) (front : Bytes) (pos : Nat)
    (found : mem.drop pos = front ++ Doc.bytesAll mp docs ++ rest)
    (limited : ∀ limit ∈ shape.limit, docs.length ≤ limit) (short : docs.length < 2 ^ 32) :
    StandsAll mp mem (innerReader shape (pos + front.length)
      (pos + (front ++ Doc.bytesAll mp docs).length)) docs rest := by
  constructor
  · refine ⟨_, _, rfl, rfl, ?_, ?_⟩
    · rw [← List.drop_drop, found, List.append_assoc, List.drop_left]
    · rw [List.length_append]
      omega
  · intro limit same
    have enough := limited limit same
    simpa [innerReader] using enough
  · simpa [innerReader] using short

theorem array_opened (implements : Implements mp) (declared : Nat) (children : List Doc)
    (single : SingleItems children) (short : children.length < 2 ^ 31)
    (exactly : children.length = declared)
    (stands : Stands mem reader ((Doc.container .array declared children).bytes mp) rest) :
    ∃ inner, readArray mp mem reader = .returned inner
        (reader.advance ((Doc.container .array declared children).bytes mp).length) ∧
      inner.shape = .array declared ∧ StandsAll mp mem inner children rest := by
  have size := values_all_length children fun doc kept => (single doc kept).1
  have text := exact_container_text mp .array declared children single exactly
  have encodes := docs_encode implements children
    (valid_all_of_each children fun doc kept => (single doc kept).2)
  have headed : HeadEncodes (.array (Doc.valuesAll children).length)
      (Container.array.encode declared) := by
    rw [size, exactly]
    exact encode_array_head declared (by omega)
  rw [text] at stands ⊢
  obtain ⟨pos, _, found, read⟩ := read_array_returned implements headed encodes stands
  refine ⟨_, read, by rw [size, exactly]; rfl, ?_⟩
  apply inner_stands_all _ _ _ _ found
  · intro limit limited
    rw [Shape.limit, Option.mem_some_iff] at limited
    omega
  · omega

theorem map_opened (implements : Implements mp) (declared : Nat) (children : List Doc)
    (single : SingleItems children) (short : declared < 2 ^ 31)
    (exactly : children.length = 2 * declared)
    (stands : Stands mem reader ((Doc.container .map declared children).bytes mp) rest) :
    ∃ inner, readMap mp mem reader = .returned inner
        (reader.advance ((Doc.container .map declared children).bytes mp).length) ∧
      inner.shape = .map declared ∧ StandsAll mp mem inner children rest := by
  have size := values_all_length children fun doc kept => (single doc kept).1
  have half : Container.map.cardinality children.length = declared := by
    rw [Container.cardinality]
    omega
  have text := exact_container_text mp .map declared children single half
  have encodes := docs_encode implements children
    (valid_all_of_each children fun doc kept => (single doc kept).2)
  have headed : HeadEncodes (.map declared) (Container.map.encode declared) :=
    encode_map_head declared (by omega)
  rw [text] at stands ⊢
  obtain ⟨pos, _, found, read⟩ := read_map_returned implements headed
    (by rw [size, exactly]) encodes stands
  refine ⟨_, read, rfl, ?_⟩
  apply inner_stands_all _ _ _ _ found
  · intro limit limited
    rw [Shape.limit, Option.mem_some_iff] at limited
    omega
  · omega

theorem MpReader.Knows.weaken {strict : Bool} (knows : reader.Knows strict) :
    reader.Knows false := by
  rcases knows with bound | ⟨begun, _⟩
  · exact .inl bound
  · exact .inr ⟨begun, .inr rfl⟩

theorem container_headed (mp : Msgpuck) (kind : Container) (declared : Nat) (children : List Doc)
    (valid : (Doc.container kind declared children).Valid) :
    ∃ actual front back, (Doc.container kind declared children).bytes mp = front ++ back ∧
      HeadEncodes (kind.head actual) front := by
  rw [Doc.Valid] at valid
  obtain ⟨_, _, few, _, fits⟩ := valid
  refine ⟨kind.cardinality (Doc.valuesAll children).length, _, Doc.bytesAll mp children,
    by rw [Doc.bytes], ?_⟩
  exact patched_head_encodes kind declared _ (cardinality_lt kind _ few) fits

/-- Only an `optional` can start with the type nil. -/
theorem doc_not_nil (implements : Implements mp) (type : Ty) (plain : type.isOptional = false)
    (value : type.Val) (small : type.Small value) :
    ∃ head front back, (type.doc value).bytes mp = front ++ back ∧ HeadEncodes head front ∧
      headType head ≠ .nil := by
  have valid := doc_valid type value small
  cases type with
  | bool =>
      obtain ⟨front, text, encodes⟩ := scalar_text_headed implements (.bool value) valid
      exact ⟨_, front, _, text, encodes, by simp [Scalar.head, headType]⟩
  | int type =>
      obtain ⟨front, text, encodes⟩ := scalar_text_headed implements (.int value.1) valid
      refine ⟨_, front, _, text, encodes, ?_⟩
      simp only [Scalar.head, intHead]
      split_ifs <;> simp [headType]
  | string =>
      obtain ⟨front, text, encodes⟩ := scalar_text_headed implements (.str value) valid
      exact ⟨_, front, _, text, encodes, by simp [Scalar.head, headType]⟩
  | optional elem => cases plain
  | vector elem =>
      obtain ⟨actual, front, back, text, encodes⟩ := container_headed mp _ _ _ valid
      exact ⟨_, front, back, text, encodes, by simp [Container.head, headType]⟩
  | tuple elems =>
      obtain ⟨actual, front, back, text, encodes⟩ := container_headed mp _ _ _ valid
      exact ⟨_, front, back, text, encodes, by simp [Container.head, headType]⟩
  | map key elem =>
      obtain ⟨actual, front, back, text, encodes⟩ := container_headed mp _ _ _ valid
      exact ⟨_, front, back, text, encodes, by simp [Container.head, headType]⟩

theorem scalar_reads_bool (implements : Implements mp) (value : Bool) :
    Reads mp mem false (readBool mp mem) (.scalar (.bool value)) value := by
  intro reader rest stands _
  obtain ⟨front, text, encodes⟩ := scalar_text_headed implements (.bool value) trivial
  rw [Scalar.payload, List.append_nil] at text
  rw [← text] at encodes
  exact read_bool_returned implements value encodes stands

theorem scalar_reads_int (implements : Implements mp) (type : IntType) (value : type.Val)
    (valid : (Scalar.int value.1).Valid) :
    Reads mp mem false (readIntegral mp mem type) (.scalar (.int value.1)) value :=
  fun _ _ stands _ => read_integral_returned implements type value
    (int_text implements value.1 valid) stands

theorem scalar_reads_string (implements : Implements mp) (prior text : Bytes)
    (short : text.length < 2 ^ 32) :
    Reads mp mem false (readString mp mem prior) (.scalar (.str text)) text := by
  intro reader rest stands knows
  obtain ⟨front, whole, encodes⟩ := scalar_text_headed implements (.str text) short
  rw [Doc.bytes, whole] at stands ⊢
  exact read_string_returned implements prior encodes stands knows

theorem get_optional_none {α : Type} (implements : Implements mp) (get : α → Read α) (fresh : α) :
    Reads mp mem true (getOptional mp mem get fresh) (.scalar .nil) none := by
  intro reader rest stands knows
  obtain ⟨front, text, encodes⟩ := scalar_text_headed implements .nil trivial
  have item := scalar_text_encodes implements .nil trivial
  have more := has_next_returned stands item.length_pos knows
  have moved := skip_returned implements item stands
  rw [Doc.bytes, text] at stands
  obtain ⟨byte, type, read⟩ := typeof_first implements encodes stands
  rw [getOptional, Cxx.bind_returned more]
  simp only [Bool.not_true, Bool.false_eq_true, if_false, Cxx.bind_get]
  rw [Cxx.bind_returned (read reader), type,
    if_pos (show headType Scalar.nil.head = .nil from rfl), Cxx.bind_returned moved]
  rfl

theorem get_optional_some {α : Type} (implements : Implements mp) (get : α → Read α) (fresh : α)
    (doc : Doc) (value : α) (reads : Reads mp mem false (get fresh) doc value)
    (headed : ∃ head front back, doc.bytes mp = front ++ back ∧ HeadEncodes head front ∧
      headType head ≠ .nil) :
    Reads mp mem true (getOptional mp mem get fresh) doc (some value) := by
  intro reader rest stands knows
  have inner := reads reader rest stands knows.weaken
  obtain ⟨head, front, back, text, encodes, other⟩ := headed
  have begun := List.length_pos_iff.mpr encodes.ne_nil
  have more := has_next_returned stands (by rw [text, List.length_append]; omega) knows
  rw [text] at stands
  obtain ⟨byte, type, read⟩ := typeof_first implements encodes stands
  rw [getOptional, Cxx.bind_returned more]
  simp only [Bool.not_true, Bool.false_eq_true, if_false, Cxx.bind_get]
  rw [Cxx.bind_returned (read reader), type, if_neg other, Cxx.bind_returned inner]
  rfl

theorem get_vector_returned {α : Type} (implements : Implements mp) (strict : Bool)
    (get : α → Read α) (fresh : α) (doc : α → Doc) (values : List α)
    (short : values.length < 2 ^ 31) (single : SingleItems (values.map doc))
    (reads : ∀ value ∈ values, Reads mp mem strict (get fresh) (doc value) value) :
    Reads mp mem false (getVector mp mem get fresh [])
      (.container .array values.length (values.map doc)) values := by
  intro reader rest stands _
  have size : (values.map doc).length = values.length := List.length_map _
  obtain ⟨inner, opened, shape, items⟩ := array_opened implements values.length (values.map doc)
    single (by omega) size stands
  obtain ⟨reached, each⟩ := get_each_returned strict get fresh doc values reads items
  have resized : resizeVector fresh inner.shape.cardinality [] =
      List.replicate values.length fresh := by
    simp [resizeVector, shape, Shape.cardinality]
  rw [getVector, Cxx.bind_returned opened, resized,
    Cxx.bind_returned (Cxx.onObject_returned each _)]
  rfl

theorem get_map_returned {Key Value : Type} [Ord Key] [Std.TransOrd Key]
    (implements : Implements mp) (strictKey strictValue : Bool) (getKey : Read Key)
    (getValue : Read Value) (keyDoc : Key → Doc) (valueDoc : Value → Doc)
    (dict : StdMap Key Value) (short : dict.entries.length < 2 ^ 31)
    (single : SingleItems (dict.entries.flatMap fun entry =>
      [keyDoc entry.1, valueDoc entry.2]))
    (reads : ∀ entry ∈ dict.entries, Reads mp mem strictKey getKey (keyDoc entry.1) entry.1 ∧
      Reads mp mem strictValue getValue (valueDoc entry.2) entry.2) :
    Reads mp mem false (getMap mp mem getKey getValue StdMap.empty)
      (.container .map dict.entries.length
        (dict.entries.flatMap fun entry => [keyDoc entry.1, valueDoc entry.2])) dict := by
  intro reader rest stands _
  obtain ⟨inner, opened, shape, items⟩ := map_opened implements dict.entries.length _ single short
    (entry_docs_length keyDoc valueDoc dict.entries) stands
  obtain ⟨reached, each⟩ := get_entries_returned strictKey strictValue getKey getValue keyDoc
    valueDoc dict.entries reads StdMap.empty dict rfl items
  rw [getMap, Cxx.bind_returned opened, shape, Shape.cardinality,
    Cxx.bind_returned (Cxx.onObject_returned each _)]
  rfl

mutual
/-- `operator>>` reads back the document `operator<<` wrote. -/
theorem get_returned (implements : Implements mp) : (type : Ty) → type.Supported →
    (value : type.Val) → type.Small value →
    Reads mp mem type.isOptional (type.get mp mem type.fresh) (type.doc value) value
  | .bool, _, value, _ => scalar_reads_bool implements value
  | .int type, _, value, small =>
      scalar_reads_int implements type value (doc_valid (.int type) value small)
  | .string, _, text, small => scalar_reads_string implements [] text small
  | .optional elem, _, none, _ => get_optional_none implements (elem.get mp mem) elem.fresh
  | .optional elem, supported, some value, small => by
      have reads := get_returned implements elem supported.2 value small
      rw [supported.1] at reads
      exact get_optional_some implements (elem.get mp mem) elem.fresh (elem.doc value) value reads
        (doc_not_nil implements elem supported.1 value small)
  | .vector elem, supported, values, small =>
      get_vector_returned implements elem.isOptional (elem.get mp mem) elem.fresh elem.doc values
        small.1
        (vector_single elem.doc values fun value kept =>
          ⟨doc_single elem value, doc_valid elem value (small.2 value kept)⟩)
        fun value kept => get_returned implements elem supported.2 value (small.2 value kept)
  | .tuple elems, supported, values, small => by
      intro reader rest stands _
      have size := doc_all_length elems values
      obtain ⟨inner, opened, _, items⟩ := array_opened implements elems.length _
        (docs_single elems values small.2) (size.trans_lt small.1) size stands
      obtain ⟨reached, each⟩ := get_all_returned implements elems supported values small.2 items
      rw [Ty.get, Cxx.bind_returned opened, Ty.fresh,
        Cxx.bind_returned (Cxx.onObject_returned each _)]
      rfl
  | .map key value, supported, dict, small =>
      get_map_returned implements key.isOptional value.isOptional (key.get mp mem key.fresh)
        (value.get mp mem value.fresh) key.doc value.doc dict small.1
        (map_single key.doc value.doc dict.entries fun entry kept =>
          ⟨⟨doc_single key entry.1, doc_valid key entry.1 (small.2 entry kept).1⟩,
            ⟨doc_single value entry.2, doc_valid value entry.2 (small.2 entry kept).2⟩⟩)
        fun entry kept =>
          ⟨get_returned implements key supported.1 entry.1 (small.2 entry kept).1,
            get_returned implements value supported.2 entry.2 (small.2 entry kept).2⟩

theorem get_all_returned (implements : Implements mp) : (types : List Ty) →
    Ty.SupportedAll types → (values : Ty.Vals types) → Ty.SmallAll types values →
    {reader : MpReader} → {rest : Bytes} →
    StandsAll mp mem reader (Ty.docAll types values) rest →
    ∃ reached, Ty.getAll mp mem types (Ty.freshAll types) reader = .returned values reached
  | [], _, _, _, reader, _, _ => ⟨reader, rfl⟩
  | type :: types, supported, values, small, reader, rest, stands => by
      have first := (get_returned implements type supported.1 values.1 small.1).first stands
      obtain ⟨reached, later⟩ :=
        get_all_returned implements types supported.2 values.2 small.2 stands.later
      refine ⟨reached, ?_⟩
      rw [Ty.getAll, Ty.freshAll, Cxx.bind_returned first, Cxx.bind_returned later]
      rfl
end

end Read

/-- A value written at any nesting position is read back by every reader that
stands on its text, whatever follows it. -/
theorem typed_round_trip {mp : Msgpuck} (implements : Implements mp) (type : Ty)
    (supported : type.Supported) (value : type.Val) (small : type.Small value)
    (writer : MpWriter) (room : ((type.doc value).bytes mp).length ≤ writer.buf.available)
    (shallow : writer.openedContainers.items.length + (type.doc value).depth ≤ 16) :
    ∃ text, type.put mp value writer = .returned () (writer.written text 1) ∧
      ∀ mem reader rest, Stands mem reader text rest → reader.Knows type.isOptional →
        type.get mp mem type.fresh reader = .returned value (reader.advance text.length) := by
  have ran := doc_run implements (type.doc value) (doc_valid type value small) writer room shallow
  refine ⟨(type.doc value).bytes mp, ?_, ?_⟩
  · rw [put_doc type value small, ran, doc_single type value]
  · intro mem reader rest stands knows
    exact get_returned implements type supported value small reader rest stands knows

/-- A map from a name to an absent text and a list of numbers, read from a buffer
that goes on after it. -/
def sampleType : Ty := .map .string (.tuple [.optional .string, .vector (.int .int16)])

def sampleValue : sampleType.Val :=
  ⟨[([0x6b], (none, [⟨-300, by decide⟩, ⟨7, by decide⟩], ()))], by simp⟩

theorem typed_round_trip_sample :
    ∃ text, sampleType.put reference sampleValue (MpWriter.ofBuffer (WtfBuffer.ofSize 64)) =
        .returned () ((MpWriter.ofBuffer (WtfBuffer.ofSize 64)).written text 1) ∧
      sampleType.get reference (text ++ [0xc0]) sampleType.fresh
          (MpReader.plain 0 (text.length + 1)) =
        .returned sampleValue ((MpReader.plain 0 (text.length + 1)).advance text.length) := by
  obtain ⟨text, written, reads⟩ := typed_round_trip reference_implements sampleType
    (by simp [sampleType, Ty.Supported, Ty.SupportedAll, Ty.isOptional, Ty.isBool]) sampleValue
    (by
      refine ⟨by decide, ?_⟩
      intro entry kept
      obtain rfl := List.mem_singleton.mp kept
      have name : [(0x6b : UInt8)].length < 2 ^ 32 := by decide
      exact ⟨name, by decide, trivial, ⟨by decide, fun _ _ => trivial⟩, trivial⟩)
    (MpWriter.ofBuffer (WtfBuffer.ofSize 64))
    (by decide +kernel) (by decide +kernel)
  refine ⟨text, written, reads _ _ [0xc0] ?_ (.inl rfl)⟩
  constructor
  · exact ⟨0, rfl, rfl, fun last same => by cases same; omega⟩
  · intro limit limited
    cases limited

end Cpp2tnt
