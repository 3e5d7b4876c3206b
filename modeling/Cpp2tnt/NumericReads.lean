import Cpp2tnt.Library.Binary64
import Cpp2tnt.Library.WellFormed
import Cpp2tnt.ReaderOps

/-!
Numbers read as C++ types. An integer item has many encodings, of two types. The
signed comparison of `operator>>` is made in the common type of `int64_t` and the
target. The floating point comparisons are made on exact values, between the
largest number of a type and its smallest normal one.
-/

namespace Cpp2tnt
open Imperative MessagePack

def integerOf : Head → Option Int
  | .uint number => some number
  | .int number => some number
  | _ => none

section Integers
variable {mp : Msgpuck} {mem bytes rest : Bytes} {reader : MpReader} {type : IntType}

/-- `>>` gives the number of an item if it is in the range of the type, and reports
an overflow otherwise. -/
def ReadsExactly (mp : Msgpuck) (mem : Bytes) (type : IntType) (number : Int) (reader : MpReader)
    (after : MpReader) : Prop :=
  if fits : type.min ≤ number ∧ number ≤ type.max then
    readIntegral mp mem type reader = .returned ⟨number, fits⟩ after
  else readIntegral mp mem type reader = .thrown (mpReaderError "value overflow") after

theorem IntType.min_nonpos (type : IntType) : type.min ≤ 0 := by
  cases type <;> decide

theorem read_uint_run (implements : Implements mp) {number : Nat}
    (encodes : HeadEncodes (.uint number) bytes) (stands : Stands mem reader bytes rest) :
    readIntegral mp mem type reader =
      if (number : Int) ≤ type.max then
        .returned (type.cast number) (reader.advance bytes.length)
      else .thrown (mpReaderError "value overflow") (reader.advance bytes.length) := by
  have whole : Stands mem reader (bytes ++ []) rest := by simpa using stands
  have moved := skip_returned implements (encodes_plain encodes rfl) stands
  obtain ⟨byte, same, read⟩ := typeof_first implements encodes whole
  simp only [readIntegral, Cxx.bind_get]
  rw [Cxx.bind_returned moved, Cxx.bind_returned (read _), same, stands.bytes_at,
    implements.decodeUint _ bytes rest encodes]
  simp only [headType]
  split <;> rfl

theorem read_int_run (implements : Implements mp) {number : Int}
    (encodes : HeadEncodes (.int number) bytes) (stands : Stands mem reader bytes rest) :
    readIntegral mp mem type reader =
      let common := if type = .uint64 then number % 2 ^ 64 else number
      if common ≤ type.max ∧ type.min ≤ common then
        .returned (type.cast number) (reader.advance bytes.length)
      else .thrown (mpReaderError "value overflow") (reader.advance bytes.length) := by
  have whole : Stands mem reader (bytes ++ []) rest := by simpa using stands
  have moved := skip_returned implements (encodes_plain encodes rfl) stands
  obtain ⟨byte, same, read⟩ := typeof_first implements encodes whole
  simp only [readIntegral, Cxx.bind_get]
  rw [Cxx.bind_returned moved, Cxx.bind_returned (read _), same, stands.bytes_at,
    implements.decodeInt _ bytes rest encodes]
  simp only [headType]
  split <;> split <;> rfl

/-- An integer read is exact unless a negative item is read as `uint64_t`. -/
theorem read_integral_exact_iff (implements : Implements mp) {head : Head} {number : Int}
    (integer : integerOf head = some number) (encodes : HeadEncodes head bytes)
    (stands : Stands mem reader bytes rest) (type : IntType) :
    ReadsExactly mp mem type number reader (reader.advance bytes.length) ↔
      ¬ (type = .uint64 ∧ number < 0) := by
  have low := type.min_nonpos
  unfold ReadsExactly
  cases head with
  | uint natural =>
      cases integer
      rw [read_uint_run implements encodes stands]
      refine iff_of_true ?_ fun both => absurd both.2 (Int.not_lt.mpr (Int.natCast_nonneg natural))
      by_cases small : (natural : Int) ≤ type.max
      · have fits : type.min ≤ (natural : Int) ∧ (natural : Int) ≤ type.max := ⟨by omega, small⟩
        have cast : type.cast natural = ⟨natural, fits⟩ := IntType.cast_val ⟨natural, fits⟩
        rw [dif_pos fits, if_pos small, cast]
      · rw [dif_neg fun fits => small fits.2, if_neg small]
  | int signed =>
      cases integer
      have bounded : (Head.int number).Bounded := encodes.bounded
      rw [read_int_run implements encodes stands]
      by_cases wide : type = .uint64
      · subst wide
        -- the common type is unsigned: both comparisons see the number modulo 2^64
        have total : number % 2 ^ 64 ≤ IntType.uint64.max ∧ IntType.uint64.min ≤ number % 2 ^ 64 := by
          simp only [IntType.max, IntType.min, IntType.signed, IntType.bits, Bool.false_eq_true,
            if_false]
          omega
        simp only [if_true, if_pos total, true_and]
        by_cases negative : number < 0
        · have outside : ¬ (IntType.uint64.min ≤ number ∧ number ≤ IntType.uint64.max) :=
            fun fits => Int.not_lt.mpr fits.1 negative
          rw [dif_neg outside]
          exact iff_of_false nofun (not_not.mpr negative)
        · have fits : IntType.uint64.min ≤ number ∧ number ≤ IntType.uint64.max := by
            simp only [Head.Bounded] at bounded
            simp only [IntType.max, IntType.min, IntType.signed, IntType.bits, Bool.false_eq_true,
              if_false]
            omega
          have cast : IntType.uint64.cast number = ⟨number, fits⟩ := IntType.cast_val ⟨number, fits⟩
          rw [dif_pos fits, cast]
          exact iff_of_true rfl negative
      · refine iff_of_true ?_ fun both => wide both.1
        simp only [if_neg wide]
        by_cases fits : type.min ≤ number ∧ number ≤ type.max
        · have cast : type.cast number = ⟨number, fits⟩ := IntType.cast_val ⟨number, fits⟩
          rw [dif_pos fits, if_pos fits.symm, cast]
        · rw [dif_neg fits, if_neg fun both => fits both.symm]
  | _ => cases integer

end Integers

/-- The negative fixint -1, read as a signed byte. -/
theorem read_integral_exact_minus :
    ReadsExactly reference [0xff] .int8 (-1) (MpReader.plain 0 1) (MpReader.plain 0 1 |>.advance 1) ↔
      ¬ (IntType.int8 = .uint64 ∧ (-1 : Int) < 0) := by
  have encodes : HeadEncodes (.int (-1)) [0xff] := fun _ => rfl
  have stands : Stands [0xff] (MpReader.plain 0 1) [0xff] [] :=
    stands_between rfl (Nat.le_refl 1)
  exact read_integral_exact_iff reference_implements rfl encodes stands .int8

/-- The same item read as `uint64_t` gives the largest number. -/
theorem minus_one_unsigned :
    HeadEncodes (.int (-1)) [0xff] ∧
      readIntegral reference [0xff] .uint64 (MpReader.plain 0 1) =
        .returned ⟨2 ^ 64 - 1, by decide⟩ ((MpReader.plain 0 1).advance 1) ∧
      ¬ ReadsExactly reference [0xff] .uint64 (-1) (MpReader.plain 0 1)
        ((MpReader.plain 0 1).advance 1) := by
  have outside : ¬ (IntType.uint64.min ≤ -1 ∧ (-1 : Int) ≤ IntType.uint64.max) := by decide
  refine ⟨fun _ => rfl, rfl, ?_⟩
  rw [ReadsExactly, dif_neg outside]
  nofun

inductive RealType where
  | single
  | double
  deriving DecidableEq

open Binary64 in
/-- The floating point branch of `operator>>(T &)`, up to the conversion of a double
to `float`. An extension is printed and parsed by `viaString`. -/
def readReal (mp : Msgpuck) (mem : Bytes) (viaString : Bytes → Read Floating) (type : RealType) :
    Read Floating := do
  let reader ← Cxx.get
  skip mp mem
  let data := bytesAt mem reader.currentPos
  match mp.mpTypeof (← deref mem reader.currentPos) with
  | .float => return .single (mp.mpDecodeFloat data).1
  | .double =>
      let res := (mp.mpDecodeDouble data).1
      if type = .single ∧ IsFinite res ∧ (maxSingle < value res ∨ value res < minSingle) then
        Cxx.throw (mpReaderError "value overflow")
      return .double res
  | .ext => viaString data
  | other => Cxx.throw (mpReaderError ("float expected, got " ++ mpuckTypeName other))

theorem read_real_double (mp : Msgpuck) (mem : Bytes) :
    readReal mp mem (fun _ => Cxx.throw (mpReaderError "float expected, got ext")) .double =
      readFloating mp mem := by
  unfold readReal readFloating
  refine bind_congr fun reader => bind_congr fun _ => bind_congr fun byte => ?_
  cases mp.mpTypeof byte <;> rfl

section Doubles
open Binary64
variable {mp : Msgpuck} {mem bytes rest : Bytes} {reader : MpReader} {bits : Nat}

theorem double_accepted_iff (finite : IsFinite bits) :
    doubleAccepted bits = true ↔ value bits ≤ maxDouble ∧ minDouble ≤ value bits := by
  have infinite : ¬ bits / 2 ^ 52 % 2 ^ 11 = 2047 := finite
  rw [and_iff_right (value_le_max bits finite), min_le_value_iff]
  simp only [doubleAccepted, infinite, decide_false, Bool.false_or, Bool.and_eq_true, decide_eq_true_eq]

theorem read_real_run (implements : Implements mp) (reads : ReadsItems mp)
    (viaString : Bytes → Read Floating) (type : RealType)
    (encodes : HeadEncodes (.double bits) bytes) (stands : Stands mem reader bytes rest) :
    readReal mp mem viaString type reader =
      if type = .single ∧ IsFinite bits ∧ (maxSingle < value bits ∨ value bits < minSingle) then
        .thrown (mpReaderError "value overflow") (reader.advance bytes.length)
      else .returned (.double bits) (reader.advance bytes.length) := by
  have whole : Stands mem reader (bytes ++ []) rest := by simpa using stands
  have moved := skip_returned implements (encodes_plain encodes rfl) stands
  obtain ⟨byte, same, read⟩ := typeof_first implements encodes whole
  simp only [readReal, Cxx.bind_get]
  rw [Cxx.bind_returned moved, Cxx.bind_returned (read _), same, stands.bytes_at,
    reads.decodeDouble _ bytes rest encodes]
  simp only [headType]
  split <;> rfl

/-- The writer takes a number and the reader gives it back. -/
def PassesThrough (mp : Msgpuck) (bits : Nat) (writer : MpWriter) : Prop :=
  ∃ bytes after, MpWriter.writeScalar mp (.double bits) writer = .returned () after ∧
    after.buf.content = writer.buf.content ++ bytes ∧
    ∀ mem reader rest viaString, Stands mem reader bytes rest →
      ∃ moved, readReal mp mem viaString .double reader = .returned (.double bits) moved

theorem passes_through_iff (implements : Implements mp) (reads : ReadsItems mp)
    (bounded : bits < 2 ^ 64) (finite : IsFinite bits) (writer : MpWriter)
    (room : 9 ≤ writer.buf.available) : PassesThrough mp bits writer ↔ minDouble ≤ value bits := by
  have accepted := double_accepted_iff finite
  rw [and_iff_right (value_le_max bits finite)] at accepted
  rw [← accepted]
  by_cases taken : doubleAccepted bits = true
  · refine iff_of_true ?_ taken
    have text : mp.mpEncodeDouble bits = encodeDouble bits := implements.encodeDouble bits bounded
    have fits : (encodeDouble bits).length ≤ writer.buf.available := room
    have wrote : MpWriter.writeScalar mp (.double bits) writer = .returned ()
        (MpWriter.counted 1 { writer with buf := writer.buf.push (encodeDouble bits) }) := by
      simp only [MpWriter.writeScalar, MpWriter.scalarBytes, if_pos taken, text]
      rw [Cxx.bind_returned (MpWriter.emit_returned _ writer fits)]
      rfl
    refine ⟨encodeDouble bits, _, wrote, rfl, ?_⟩
    intro mem reader rest viaString stands
    have whole : ¬ RealType.double = RealType.single := by decide
    rw [read_real_run implements reads viaString .double (encode_double_head bits bounded) stands,
      if_neg fun single => whole single.1]
    exact ⟨_, rfl⟩
  · refine iff_of_false ?_ taken
    rintro ⟨bytes, after, wrote, _⟩
    simp only [MpWriter.writeScalar, MpWriter.scalarBytes, if_neg taken] at wrote
    cases wrote

theorem reads_as_float_iff (implements : Implements mp) (reads : ReadsItems mp)
    (viaString : Bytes → Read Floating) (encodes : HeadEncodes (.double bits) bytes)
    (stands : Stands mem reader bytes rest) (finite : IsFinite bits)
    (narrow : |value bits| ≤ maxSingle) :
    (∀ reached, readReal mp mem viaString .single reader ≠
      .thrown (mpReaderError "value overflow") reached) ↔ minSingle ≤ value bits := by
  have small : ¬ maxSingle < value bits := not_lt.mpr (le_trans (le_abs_self _) narrow)
  rw [read_real_run implements reads viaString .single encodes stands]
  by_cases normal : minSingle ≤ value bits
  · refine iff_of_true ?_ normal
    have kept : ¬ (RealType.single = .single ∧ IsFinite bits ∧
        (maxSingle < value bits ∨ value bits < minSingle)) :=
      fun refused => refused.2.2.elim small (not_lt.mpr normal)
    rw [if_neg kept]
    nofun
  · refine iff_of_false ?_ normal
    rw [if_pos ⟨rfl, finite, .inr (not_le.mp normal)⟩]
    exact fun never => never _ rfl

/-- A finite double passes through writer and reader exactly if it is positive and
normal; read as a float within the range of floats, it is taken for an overflow
exactly if it is below the smallest positive normal float. -/
theorem finite_doubles_pass_iff (implements : Implements mp) (reads : ReadsItems mp) (bits : Nat)
    (bounded : bits < 2 ^ 64) (finite : IsFinite bits) (writer : MpWriter)
    (room : 9 ≤ writer.buf.available) (viaString : Bytes → Read Floating)
    (encodes : HeadEncodes (.double bits) bytes) (stands : Stands mem reader bytes rest) :
    (PassesThrough mp bits writer ↔ minDouble ≤ value bits) ∧
      (|value bits| ≤ maxSingle →
        ((∀ reached, readReal mp mem viaString .single reader ≠
          .thrown (mpReaderError "value overflow") reached) ↔ minSingle ≤ value bits)) :=
  ⟨passes_through_iff implements reads bounded finite writer room,
    fun narrow => reads_as_float_iff implements reads viaString encodes stands finite narrow⟩

end Doubles

def oneBytes : Bytes := [0xcb, 0x3f, 0xf0, 0, 0, 0, 0, 0, 0]

theorem finite_doubles_pass_one :
    (PassesThrough reference 0x3ff0000000000000 (MpWriter.ofBuffer (WtfBuffer.ofSize 9)) ↔
        Binary64.minDouble ≤ Binary64.value 0x3ff0000000000000) ∧
      (|Binary64.value 0x3ff0000000000000| ≤ Binary64.maxSingle →
        ((∀ reached, readReal reference oneBytes (fun _ => Cxx.undefined) .single (MpReader.plain 0 9) ≠
          .thrown (mpReaderError "value overflow") reached) ↔
            Binary64.minSingle ≤ Binary64.value 0x3ff0000000000000)) := by
  have encodes : HeadEncodes (.double 0x3ff0000000000000) oneBytes := fun _ => rfl
  have stands : Stands oneBytes (MpReader.plain 0 9) oneBytes [] :=
    stands_between rfl (Nat.le_refl 9)
  have room : 9 ≤ (MpWriter.ofBuffer (WtfBuffer.ofSize 9)).buf.available := Nat.le_refl 9
  exact finite_doubles_pass_iff reference_implements reference_reads_items _ (by decide) (by decide)
    _ room _ encodes stands

/-- Zero is refused by the writer, and an overflow when it is read as a float. -/
theorem zero_does_not_pass :
    Binary64.IsFinite 0 ∧ Binary64.value 0 = 0 ∧
      MpWriter.writeScalar reference (.double 0) (MpWriter.ofBuffer (WtfBuffer.ofSize 9)) =
        .thrown ⟨.overflowError, "unable to fit floating point value into msgpack"⟩
          (MpWriter.ofBuffer (WtfBuffer.ofSize 9)) ∧
      ∃ reached, readReal reference (encodeDouble 0) (fun _ => Cxx.undefined) .single
        (MpReader.plain 0 9) = .thrown (mpReaderError "value overflow") reached := by
  have zero : Binary64.value 0 = 0 := by
    simp [Binary64.value, Binary64.units, Binary64.exponent, Binary64.fraction]
  have small : Binary64.value 0 < Binary64.minSingle := by
    rw [zero]
    exact div_pos one_pos (pow_pos two_pos 126)
  have stands : Stands (encodeDouble 0) (MpReader.plain 0 9) (encodeDouble 0) [] :=
    stands_between rfl (Nat.le_refl 9)
  refine ⟨by decide, zero, rfl, ?_⟩
  rw [read_real_run reference_implements reference_reads_items _ .single
    (encode_double_head 0 (by decide)) stands, if_pos ⟨rfl, by decide, .inr small⟩]
  exact ⟨_, rfl⟩

end Cpp2tnt
