import Cpp2tnt.FailedReads
import Cpp2tnt.Library.WellFormed
import Cpp2tnt.ReaderOps
import Cpp2tnt.SpanViews

/-!
`equals` of every kind of reader. Before it looks at the item it makes a local
reader of its own kind from the current position. The one of a plain reader is
made without looking; `mp_array` and `mp_map` are constructed from the item, and
their constructors refuse what is not a container.
-/

namespace Cpp2tnt
open Imperative MessagePack

section Operations
variable (mp : Msgpuck) (mem : Bytes)

/-- `mp_reader tmp(_current_pos)`: the argument goes to the constructor of the kind. -/
def localReader : Read MpReader := do
  let reader ← Cxx.get
  match reader.shape with
  | .plain => return reader.peeking
  | .array _ => mpArray mp mem reader.currentPos
  | .map _ => mpMap mp mem reader.currentPos

def sameUint (res : Nat) (val : Int) : Bool := 0 ≤ val && res == val.toNat

def sameInt (res val : Int) : Bool :=
  if res < 0 ∧ val < 0 then res == val
  else if 0 ≤ res ∧ 0 ≤ val then res.toNat == val.toNat
  else false

/-- `equals`, for any kind of reader. -/
def equalsOf (key : Key) : Read Bool := do
  if !(← hasNext false) then Cxx.throw (mpReaderError "read out of bounds")
  let tmp ← localReader mp mem
  let reader ← Cxx.get
  let data := bytesAt mem reader.currentPos
  let type := mp.mpTypeof (← deref mem reader.currentPos)
  match key with
  | .bool value =>
      if type = .bool then
        let (found, _) ← Cxx.onObject (readBool mp mem) tmp
        return value == found
      else return false
  | .int number =>
      match type with
      | .uint => return sameUint (mp.mpDecodeUint data).1 number
      | .int => return sameInt (mp.mpDecodeInt data).1 number
      | _ => return false
  | .text value =>
      if type = .str then
        let (found, _) ← Cxx.onObject (readStringView mp mem) tmp
        return found == some value
      else return false
  | .noText => return type = .nil

end Operations

/-- The item stands for the value that is compared. -/
def Key.denotes : Key → Value → Bool
  | .int number, .int found => number == found
  | .bool flag, .bool found => flag == found
  | .text name, .str found => name == found
  | .noText, .nil => true
  | _, _ => false

def Key.denotedBy : Key → Head → Bytes → Bool
  | .int number, .uint found, _ => number == found
  | .int number, .int found, _ => number == found
  | .bool flag, .bool found, _ => flag == found
  | .text name, .str _, body => name == body
  | .noText, .nil, _ => true
  | _, _, _ => false

theorem Key.denotes_held (key : Key) {head : Head} {value : Value} {body : Bytes}
    (holds : head.Holds value body) : key.denotes value = key.denotedBy head body := by
  cases head with
  | array count | map count =>
      obtain ⟨items, _, _, rfl⟩ := holds
      cases key <;> rfl
  | str length | bin length | ext type length =>
      obtain ⟨_, rfl⟩ := holds
      cases key <;> rfl
  | nil | bool found | uint found | int found | float bits | double bits =>
      obtain ⟨_, plain⟩ := holds
      cases plain
      cases key <;> rfl

/-- The constructor of the reader's kind accepts the item. -/
def TakesItem (mp : Msgpuck) (mem : Bytes) (reader : MpReader) (head : Head) : Prop :=
  match reader.shape, head with
  | .plain, _ | .array _, .array _ | .map _, .map _ => True
  | .array _, .ext _ _ => MakesArray mp mem reader.currentPos fun _ => True
  | .map _, .ext type _ => type = mp.mpInterval ∨ type = mp.mpError
  | _, _ => False

section Comparison
variable {mp : Msgpuck} {mem front body rest : Bytes} {reader : MpReader} {head : Head} {value : Value}

theorem same_uint (res : Nat) (val : Int) : sameUint res val = (0 ≤ val && (res : Int) == val) := by
  rw [sameUint, Bool.eq_iff_iff]
  simp only [Bool.and_eq_true, decide_eq_true_eq, beq_iff_eq]
  omega

theorem same_int (res val : Int) : sameInt res val = (res == val) := by
  rw [sameInt, Bool.eq_iff_iff]
  split_ifs <;> simp only [beq_iff_eq, false_iff] <;> omega

theorem equals_of_plain (plain : reader.shape = .plain) (key : Key) :
    equalsOf mp mem key reader = equals mp mem key reader := by
  have made : localReader mp mem reader = .returned reader.peeking reader := by
    simp only [localReader, Cxx.bind_get, plain, Cxx.pure_run]
  cases known : hasNext false reader with
  | returned more after =>
      cases has_next_stays known
      cases more with
      | false =>
          cases key <;> simp only [equalsOf, equals, equalsInt, isNull] <;>
            rw [Cxx.bind_returned known, Cxx.bind_returned known] <;> rfl
      | true =>
          cases key <;>
            simp only [equalsOf, equals, equalsInt, isNull, same_uint, same_int] <;>
            rw [Cxx.bind_returned known, Cxx.bind_returned known] <;>
            simp only [Bool.not_true, Bool.false_eq_true, if_false] <;>
            rw [Cxx.bind_returned made] <;> rfl
  | thrown error after =>
      cases key <;> simp only [equalsOf, equals, equalsInt, isNull] <;>
        rw [Cxx.bind_thrown known, Cxx.bind_thrown known]
  | undefined =>
      cases key <;> simp only [equalsOf, equals, equalsInt, isNull, Cxx.bind_run, known]

theorem equals_returned (implements : Implements mp) (headed : HeadEncodes head front)
    (holds : head.Holds value body) (stands : Stands mem reader (front ++ body) rest)
    (knows : reader.Knows false) (key : Key) :
    equals mp mem key reader = .returned (key.denotes value) reader := by
  have more := has_next_returned stands (holds.encodes headed).length_pos knows
  obtain ⟨byte, type, read⟩ := typeof_first implements headed stands
  have found : bytesAt mem reader.currentPos = front ++ (body ++ rest) := by
    rw [stands.bytes_at, List.append_assoc]
  -- the local reader has no right bound of its own
  have peeked : Stands mem reader.peeking (front ++ body) rest := by
    obtain ⟨pos, current, placed, _⟩ := stands.placed
    exact stands_plain rfl current placed nofun
  rw [key.denotes_held holds]
  cases key with
  | int number =>
      simp only [equals, equalsInt]
      refine (looks_at_item more (read reader) _).trans ?_
      rw [type]
      cases head with
      | uint natural =>
          simp only [headType, found, implements.decodeUint natural front _ headed, Cxx.pure_run,
            Key.denotedBy]
          congr 1
          rw [Bool.eq_iff_iff]
          simp only [Bool.and_eq_true, decide_eq_true_eq, beq_iff_eq]
          omega
      | int signed =>
          simp only [headType, found, implements.decodeInt signed front _ headed, Cxx.pure_run,
            Key.denotedBy, Bool.beq_comm]
      | _ => rfl
  | bool flag =>
      simp only [equals]
      refine (looks_at_item more (read reader) _).trans ?_
      rw [type]
      cases head with
      | bool other =>
          obtain ⟨rfl, _⟩ := holds
          rw [List.append_nil] at peeked
          have known := Cxx.onObject_returned
            (read_bool_returned implements other headed peeked) reader
          have bool : headType (.bool other) = .bool := rfl
          rw [if_pos bool, Cxx.bind_returned known]
          rfl
      | _ => rfl
  | text name =>
      simp only [equals]
      refine (looks_at_item more (read reader) _).trans ?_
      rw [type]
      cases head with
      | str length =>
          obtain ⟨rfl, _⟩ := holds
          obtain ⟨pos, current, _⟩ := stands.placed
          have asked : reader.peeking.Knows false := .inr ⟨by simp [MpReader.peeking, current], .inr rfl⟩
          have known := Cxx.onObject_returned
            (read_string_view_returned implements headed peeked asked) reader
          have str : headType (.str body.length) = .str := rfl
          rw [if_pos str, Cxx.bind_returned known]
          simp only [Cxx.pure_run, Key.denotedBy]
          congr 1
          rw [Bool.eq_iff_iff]
          simp only [beq_iff_eq, Option.some.injEq]
          exact eq_comm
      | _ => rfl
  | noText =>
      simp only [equals, isNull]
      refine (looks_at_item more (read reader) _).trans ?_
      rw [type]
      cases head <;> rfl

theorem error_stack_ends {σ : Type} (pairs pos : Nat) (state : σ) :
    (∃ stack, errorStack mp mem pairs pos state = .returned stack state) ∨
      ∃ error, errorStack mp mem pairs pos state = .thrown error state := by
  induction pairs generalizing pos with
  | zero => exact .inr ⟨_, rfl⟩
  | succ pairs ih =>
      rw [errorStack]
      by_cases zero : (mp.mpDecodeUint (mem.drop pos)).1 % 2 ^ 32 = 0
      · simp only [if_pos zero]
        exact .inl ⟨_, rfl⟩
      · simp only [if_neg zero]
        exact ih _

theorem local_reader_cases (implements : Implements mp) (reads : ReadsItems mp)
    (headed : HeadEncodes head front) (stands : Stands mem reader (front ++ body) rest) :
    (TakesItem mp mem reader head → ∃ tmp, localReader mp mem reader = .returned tmp reader) ∧
    (¬ TakesItem mp mem reader head → ∃ error, localReader mp mem reader = .thrown error reader) := by
  obtain ⟨byte, type, read⟩ := typeof_first implements headed stands
  obtain ⟨pos, current, placed, _⟩ := stands.placed
  have whole : mem.drop pos = front ++ (body ++ rest) := by rw [placed, List.append_assoc]
  rw [current] at read
  unfold TakesItem localReader
  simp only [Cxx.bind_get]
  cases shape : reader.shape with
  | plain => exact ⟨fun _ => ⟨_, rfl⟩, fun refused => absurd trivial refused⟩
  | array cardinality =>
      simp only [current, mpArray]
      rw [Cxx.bind_returned (read reader), type]
      cases head with
      | array count => exact ⟨fun _ => ⟨_, rfl⟩, fun refused => absurd trivial refused⟩
      | ext code length =>
          simp only [headType, whole, reads.decodeExtl code length front _ headed]
          have taken := @mp_array_takes mp mem _ reader (fun _ _ => True) (some pos)
          rw [Cxx.Delivers, mpArray, Cxx.bind_returned (read reader), type] at taken
          simp only [headType, whole, reads.decodeExtl code length front _ headed] at taken
          by_cases error : code = mp.mpError
          · simp only [error, if_true] at taken ⊢
            -- without a stack the constructor throws, it is never undefined
            rcases error_stack_ends _ _ reader with ⟨stack, found⟩ | ⟨_, missing⟩
            · rw [found] at taken ⊢
              exact ⟨fun _ => ⟨stack, rfl⟩, fun refused => absurd (taken.mp trivial) refused⟩
            · rw [missing] at taken ⊢
              exact ⟨fun takes => (taken.mpr takes).elim, fun _ => ⟨_, rfl⟩⟩
          · simp only [error, if_false] at taken ⊢
            exact ⟨fun takes => (taken.mpr takes).elim, fun _ => ⟨_, rfl⟩⟩
      | _ => exact ⟨False.elim, fun _ => ⟨_, rfl⟩⟩
  | map cardinality =>
      simp only [current, mpMap]
      rw [Cxx.bind_returned (read reader), type]
      cases head with
      | map count => exact ⟨fun _ => ⟨_, rfl⟩, fun refused => absurd trivial refused⟩
      | ext code length =>
          simp only [headType, Option.getD_some, whole, reads.decodeExtl code length front _ headed]
          by_cases interval : code = mp.mpInterval
          · simp only [interval, if_true, true_or]
            exact ⟨fun _ => ⟨_, rfl⟩, fun refused => absurd trivial refused⟩
          · by_cases error : code = mp.mpError
            · simp only [if_neg interval, if_pos error]
              exact ⟨fun _ => ⟨_, rfl⟩, fun refused => absurd (.inr error) refused⟩
            · simp only [if_neg interval, if_neg error]
              exact ⟨fun takes => absurd takes (not_or.mpr ⟨interval, error⟩), fun _ => ⟨_, rfl⟩⟩
      | _ => exact ⟨False.elim, fun _ => ⟨_, rfl⟩⟩

theorem equals_of_container (headed : HeadEncodes head front) (implements : Implements mp)
    (stands : Stands mem reader (front ++ body) rest) (more : hasNext false reader = .returned true reader)
    {tmp : MpReader} (made : localReader mp mem reader = .returned tmp reader)
    (container : headType head = .array ∨ headType head = .map ∨ headType head = .ext) (key : Key) :
    equalsOf mp mem key reader = .returned (key.denotedBy head body) reader := by
  obtain ⟨byte, type, read⟩ := typeof_first implements headed stands
  rw [equalsOf, Cxx.bind_returned more]
  simp only [Bool.not_true, Bool.false_eq_true, if_false]
  rw [Cxx.bind_returned made, Cxx.bind_get, Cxx.bind_returned (read reader), type]
  cases head with
  | array count | map count | ext code length => cases key <;> rfl
  | _ => rcases container with same | same | same <;> cases same

/-- `equals` is faithful for all keys if and only if the constructor of the reader's
kind accepts the item the reader stands on; otherwise it throws. -/
theorem equals_faithful_iff (implements : Implements mp) (reads : ReadsItems mp)
    (headed : HeadEncodes head front) (holds : head.Holds value body)
    (stands : Stands mem reader (front ++ body) rest) (knows : reader.Knows false) :
    (∀ key, equalsOf mp mem key reader = .returned (key.denotes value) reader) ↔
      TakesItem mp mem reader head := by
  have more := has_next_returned stands (holds.encodes headed).length_pos knows
  obtain ⟨makes, refuses⟩ := local_reader_cases implements reads headed stands
  constructor
  · intro faithful
    by_contra refused
    obtain ⟨error, thrown⟩ := refuses refused
    have done := faithful .noText
    rw [equalsOf, Cxx.bind_returned more] at done
    simp only [Bool.not_true, Bool.false_eq_true, if_false] at done
    rw [Cxx.bind_thrown thrown] at done
    cases done
  · intro takes key
    cases shape : reader.shape with
    | plain =>
        rw [equals_of_plain shape]
        exact equals_returned implements headed holds stands knows key
    | array cardinality =>
        obtain ⟨tmp, made⟩ := makes takes
        rw [key.denotes_held holds]
        apply equals_of_container headed implements stands more made
        cases head with
        | array count => exact .inl rfl
        | ext code length => exact .inr (.inr rfl)
        | _ => simp only [TakesItem, shape] at takes
    | map cardinality =>
        obtain ⟨tmp, made⟩ := makes takes
        rw [key.denotes_held holds]
        apply equals_of_container headed implements stands more made
        cases head with
        | map count => exact .inr (.inl rfl)
        | ext code length => exact .inr (.inr rfl)
        | _ => simp only [TakesItem, shape] at takes

end Comparison

/-- The items of an array, an array and a number: an array reader compares the first. -/
theorem equals_faithful_nested :
    (∀ key, equalsOf reference [0x92, 0x91, 5, 6] key (innerReader (.array 2) 1 4) =
      .returned (key.denotes (.array [.int 5])) (innerReader (.array 2) 1 4)) ∧
    ¬ ∀ key, equalsOf reference [0x92, 0x91, 5, 6] key ((innerReader (.array 2) 1 4).advance 2) =
      .returned (key.denotes (.int 6)) ((innerReader (.array 2) 1 4).advance 2) := by
  have plain : HeadEncodes (.uint 5) [5] := fun _ => rfl
  have five : Encodes (.int 5) [5] := encodes_plain plain rfl
  have one : HeadEncodes (.array 1) [0x91] := fun _ => rfl
  have six : HeadEncodes (.uint 6) [6] := fun _ => rfl
  constructor
  · have stands : Stands [0x92, 0x91, 5, 6] (innerReader (.array 2) 1 4) ([0x91] ++ [5]) [6] := by
      refine ⟨⟨1, rfl, rfl, ?_⟩, ?_⟩
      · rintro _ ⟨⟩
        decide
      · rintro _ ⟨⟩
        decide
    have holds : Head.Holds (.array 1) (.array [.int 5]) [5] :=
      ⟨_, rfl, encodes_all_singleton five, rfl⟩
    exact (equals_faithful_iff reference_implements reference_reads_items one holds stands
      (.inl rfl)).mpr trivial
  · have stands : Stands [0x92, 0x91, 5, 6] ((innerReader (.array 2) 1 4).advance 2) ([6] ++ []) [] := by
      refine ⟨⟨3, rfl, rfl, ?_⟩, ?_⟩
      · rintro _ ⟨⟩
        decide
      · rintro _ ⟨⟩
        decide
    have holds : Head.Holds (.uint 6) (.int 6) [] := ⟨rfl, rfl⟩
    exact mt (equals_faithful_iff reference_implements reference_reads_items six holds stands
      (.inl rfl)).mp id

/-- The only item of an array, 5, compared with 5. -/
theorem array_reader_compares_nothing :
    Stands [0x91, 5] (innerReader (.array 1) 1 2) [5] [] ∧ HeadEncodes (.uint 5) [5] ∧
      (Key.int 5).denotes (.int 5) = true ∧
      equalsOf reference [0x91, 5] (.int 5) (innerReader (.array 1) 1 2) =
        .thrown (mpReaderError "array expected, got uint") (innerReader (.array 1) 1 2) := by
  refine ⟨⟨⟨1, rfl, rfl, ?_⟩, ?_⟩, fun _ => rfl, rfl, rfl⟩
  · rintro _ ⟨⟩
    exact Nat.le_refl 2
  · rintro _ ⟨⟩
    exact Nat.zero_lt_one

end Cpp2tnt
