import Cpp2tnt.Library.Binary64
import Cpp2tnt.Library.WellFormed
import Cpp2tnt.ReaderOps

/-!
The arithmetic of `operator>>(time_point &)` on an `MP_DATETIME` extension. With a
nanosecond part the count is computed in nanoseconds, in 64 bits and without a
check; a signed result out of range is undefined behaviour. Without one the
seconds are handed over as they are.
-/

namespace Cpp2tnt
open Imperative MessagePack

/-- A destination that the operator compiles for. `D(read<double>())` takes no integral
count, so the conversions are floating point arithmetic and do not overflow. -/
structure Destination (Count : Type) where
  /-- `D(int64_t)` and `D(double)`. -/
  ofInteger : Int → Count
  ofFloating : Floating → Count
  /-- From `duration<int64_t>` and from `duration<int64_t, std::nano>`. -/
  ofSeconds : Int → Count
  ofNanoseconds : Int → Count

def int64Result (exact : Int) : Read Int :=
  if IntType.int64.min ≤ exact ∧ exact ≤ IntType.int64.max then pure exact else Cxx.undefined

namespace Destination
variable {Count : Type} (dst : Destination Count)

def sinceEpoch (epoch nsec : Int) : Read Count := do
  if nsec ≠ 0 then
    let product ← int64Result (epoch * 1000000000)
    let sum ← int64Result (nsec + product)
    return dst.ofNanoseconds sum
  else return dst.ofSeconds epoch

/-- The instant in the destination: `epoch` seconds and `nsec` nanoseconds. -/
def moment (epoch nsec : Int) : Count :=
  if nsec = 0 then dst.ofSeconds epoch else dst.ofNanoseconds (epoch * 1000000000 + nsec)

end Destination

section Reading
variable (mp : Msgpuck) (mem : Bytes) {Count : Type} (dst : Destination Count)

def readDatetimeInto (pos : Nat) : Read Count := do
  let (type, length, payload) := mp.mpDecodeExtl (mem.drop pos)
  let data := pos + payload
  if type ≠ mp.mpDatetime then
    Cxx.throw (mpReaderError "unable to extract time_point from ext")
  if length ≠ 8 ∧ length ≠ 16 then Cxx.throw (mpReaderError "unexpected MP_DATETIME value")
  let epoch ← copyFrom mem data 8
  let tail ← if length = 8 then pure (List.replicate 8 0) else copyFrom mem (data + 8) 8
  let count ← dst.sinceEpoch (signed 8 (ofLittleEndian epoch))
    (signed 4 (ofLittleEndian (tail.take 4)))
  skip mp mem
  return count

/-- `operator>>(time_point &)`. -/
def readTimePointInto : Read Count := do
  let reader ← Cxx.get
  if reader.currentPos.isNone then Cxx.throw noData
  match mp.mpTypeof (← deref mem reader.currentPos) with
  | .uint | .int => return dst.ofInteger (← readIntegral mp mem .int64).1
  | .float | .double => return dst.ofFloating (← readFloating mp mem)
  | .ext => readDatetimeInto mp mem dst (reader.currentPos.getD 0)
  | other => Cxx.throw (mpReaderError ("unable to get time_point from " ++ mpuckTypeName other))

end Reading

/-- There are no nanoseconds, or both 64-bit computations stay in range. -/
def MomentInRange (epoch nsec : Int) : Prop :=
  nsec = 0 ∨ IntType.int64.min ≤ epoch * 1000000000 ∧
    epoch * 1000000000 + nsec ≤ IntType.int64.max

section Conversion
variable {Count : Type} {dst : Destination Count} {epoch nsec : Int} {reader : MpReader}

theorem int64_result_returned (fits : IntType.int64.min ≤ epoch ∧ epoch ≤ IntType.int64.max) :
    int64Result epoch reader = .returned epoch reader := by
  rw [int64Result, if_pos fits]
  rfl

theorem int64_result_undefined (outside : ¬ (IntType.int64.min ≤ epoch ∧ epoch ≤ IntType.int64.max)) :
    int64Result epoch reader = .undefined := by
  rw [int64Result, if_neg outside]
  rfl

theorem since_epoch_returned (part : 0 ≤ nsec) (fits : MomentInRange epoch nsec) :
    dst.sinceEpoch epoch nsec reader = .returned (dst.moment epoch nsec) reader := by
  unfold Destination.sinceEpoch Destination.moment
  by_cases none : nsec = 0
  · rw [if_neg (not_not.mpr none), if_pos none]
    rfl
  · obtain ⟨low, high⟩ := fits.resolve_left none
    have product : IntType.int64.min ≤ epoch * 1000000000 ∧
        epoch * 1000000000 ≤ IntType.int64.max := ⟨low, by omega⟩
    have sum : IntType.int64.min ≤ nsec + epoch * 1000000000 ∧
        nsec + epoch * 1000000000 ≤ IntType.int64.max := ⟨by omega, by omega⟩
    rw [if_pos none, if_neg none, Cxx.bind_returned (int64_result_returned product),
      Cxx.bind_returned (int64_result_returned sum), Int.add_comm]
    rfl

theorem since_epoch_undefined (outside : ¬ MomentInRange epoch nsec) :
    dst.sinceEpoch epoch nsec reader = .undefined := by
  obtain ⟨some, large⟩ := not_or.mp outside
  unfold Destination.sinceEpoch
  rw [if_pos some]
  by_cases product : IntType.int64.min ≤ epoch * 1000000000 ∧
      epoch * 1000000000 ≤ IntType.int64.max
  · have sum : ¬ (IntType.int64.min ≤ nsec + epoch * 1000000000 ∧
        nsec + epoch * 1000000000 ≤ IntType.int64.max) := by omega
    rw [Cxx.bind_returned (int64_result_returned product), Cxx.bind_run,
      int64_result_undefined sum]
  · rw [Cxx.bind_run, int64_result_undefined product]

end Conversion

/-- A payload of either length: seconds, and a tail that begins with nanoseconds. -/
structure DatetimePayload (epoch nsec : Int) (data : Bytes) : Prop where
  sized : data.length = 8 ∨ data.length = 16
  seconds : signed 8 (ofLittleEndian (data.take 8)) = epoch
  part : (if data.length = 8 then 0 else signed 4 (ofLittleEndian ((data.drop 8).take 4))) = nsec
  bounded : 0 ≤ nsec ∧ nsec < 1000000000

section Items
variable {mp : Msgpuck} {mem front data rest : Bytes} {reader : MpReader} {pos : Nat}
variable {epoch nsec : Int} {Count : Type} {dst : Destination Count}

theorem read_time_point_datetime (implements : Implements mp) (reads : ReadsItems mp)
    (headed : HeadEncodes (.ext mp.mpDatetime data.length) front)
    (payload : DatetimePayload epoch nsec data) (stands : Stands mem reader (front ++ data) rest) :
    readTimePointInto mp mem dst reader = (do
      let count ← dst.sinceEpoch epoch nsec
      skip mp mem
      return count : Read Count) reader := by
  obtain ⟨byte, type, read⟩ := typeof_first implements headed stands
  obtain ⟨pos, current, placed, _⟩ := stands.placed
  have before : pos ≤ mem.length := by
    have some := List.length_pos_of_ne_nil headed.ne_nil
    have size := congrArg List.length placed
    simp only [List.length_drop, List.length_append] at size
    omega
  have decoded : mp.mpDecodeExtl (mem.drop pos) = (mp.mpDatetime, data.length, front.length) := by
    rw [placed, List.append_assoc, reads.decodeExtl _ _ front _ headed]
  have sized : ¬ (data.length ≠ 8 ∧ data.length ≠ 16) := by
    have known := payload.sized
    omega
  have copied : ∀ offset count : Nat, offset + count ≤ data.length →
      copyFrom mem (pos + front.length + offset) count reader =
        .returned ((data.drop offset).take count) reader := by
    intro offset count within
    rw [Nat.add_assoc, copy_placed placed before (by rw [List.length_append]; omega),
      ← List.drop_drop, List.drop_left]
  have long : 8 ≤ data.length := by
    have known := payload.sized
    omega
  have epochCopied : copyFrom mem (pos + front.length) 8 reader = .returned (data.take 8) reader := by
    exact copied 0 8 (by omega)
  simp only [readTimePointInto, Cxx.bind_get, stands.current_some, Bool.false_eq_true, if_false]
  rw [Cxx.bind_returned (read reader), type]
  simp only [headType, current, Option.getD_some, readDatetimeInto, decoded, ne_eq, not_true_eq_false,
    if_false]
  rw [if_neg sized, Cxx.bind_returned epochCopied, payload.seconds, ← payload.part]
  by_cases short : data.length = 8
  · have zero : signed 4 (ofLittleEndian ((List.replicate 8 0).take 4)) = 0 := by decide
    -- without a tail the nanoseconds keep their initial value
    rw [if_pos short, if_pos short, Cxx.bind_pure_run, zero]
  · have longer : 8 + 8 ≤ data.length := by
      have known := payload.sized
      omega
    rw [if_neg short, if_neg short, Cxx.bind_returned (copied 8 8 longer), List.take_take]
    rfl

/-- Either an exception or the instant the item stands for, without undefined behaviour. -/
def ReadsMoment (mp : Msgpuck) (mem : Bytes) (dst : Destination Count) (epoch nsec : Int)
    (reader : MpReader) : Prop :=
  match readTimePointInto mp mem dst reader with
  | .returned count _ => count = dst.moment epoch nsec
  | .thrown _ _ => True
  | .undefined => False

/-- A datetime is read without an overflow if and only if it has no nanoseconds, or
the seconds and the whole instant fit into 64 bits as nanoseconds. -/
theorem datetime_in_range_iff (implements : Implements mp) (reads : ReadsItems mp)
    (dst : Destination Count) (headed : HeadEncodes (.ext mp.mpDatetime data.length) front)
    (payload : DatetimePayload epoch nsec data) (stands : Stands mem reader (front ++ data) rest) :
    ReadsMoment mp mem dst epoch nsec reader ↔ MomentInRange epoch nsec := by
  unfold ReadsMoment
  rw [read_time_point_datetime implements reads headed payload stands]
  by_cases fits : MomentInRange epoch nsec
  · rw [Cxx.bind_returned (since_epoch_returned payload.bounded.1 fits),
      Cxx.bind_returned (skip_returned implements (encodes_ext headed) stands)]
    exact iff_of_true rfl fits
  · rw [Cxx.bind_run, since_epoch_undefined fits]
    exact iff_of_false id fits

end Items

def Floating.value : Floating → ℚ
  | .double bits => Binary64.value bits
  | .single bits =>
      let exponent : Nat := bits / 2 ^ 23 % 2 ^ 8
      let fraction : Nat := bits % 2 ^ 23
      let units : Nat := if exponent = 0 then fraction else (2 ^ 23 + fraction) * 2 ^ (exponent - 1)
      if 2 ^ 31 ≤ bits then -((units : ℚ) / 2 ^ 149) else (units : ℚ) / 2 ^ 149

/-- `duration<double>`, for the counts it holds exactly. -/
def exactSeconds : Destination ℚ where
  ofInteger count := count
  ofFloating := Floating.value
  ofSeconds count := count
  ofNanoseconds count := count / 1000000000

def secondAndHalf : Bytes := [0xd8, 4] ++ ([1, 0, 0, 0, 0, 0, 0, 0] ++ [0, 0x65, 0xcd, 0x1d, 0, 0, 0, 0])

theorem datetime_in_range_second :
    exactSeconds.moment 1 500000000 = 3 / 2 ∧
      (ReadsMoment reference secondAndHalf exactSeconds 1 500000000 (MpReader.plain 0 18) ↔
        MomentInRange 1 500000000) := by
  let data : Bytes := [1, 0, 0, 0, 0, 0, 0, 0] ++ [0, 0x65, 0xcd, 0x1d, 0, 0, 0, 0]
  have headed : HeadEncodes (.ext reference.mpDatetime data.length) [0xd8, 4] := fun _ => rfl
  have payload : DatetimePayload 1 500000000 data :=
    ⟨by decide, by decide, by decide, by decide⟩
  have stands : Stands secondAndHalf (MpReader.plain 0 18) ([0xd8, 4] ++ data) [] :=
    stands_between rfl (Nat.le_refl 18)
  refine ⟨?_, datetime_in_range_iff reference_implements reference_reads_items exactSeconds headed
    payload stands⟩
  norm_num [Destination.moment, exactSeconds]

/-- 2262-04-11 23:47:17 and a nanosecond, 9223372037 seconds in sixteen bytes. -/
def lateSecond : Bytes := [5, 0x7d, 0xc1, 0x25, 2, 0, 0, 0] ++ [1, 0, 0, 0, 0, 0, 0, 0]

theorem late_second_overflows :
    HeadEncodes (.ext reference.mpDatetime 16) [0xd8, 4] ∧ DatetimePayload 9223372037 1 lateSecond ∧
      readTimePointInto reference ([0xd8, 4] ++ lateSecond) exactSeconds (MpReader.plain 0 18) =
        .undefined ∧
      ¬ ReadsMoment reference ([0xd8, 4] ++ lateSecond) exactSeconds 9223372037 1
        (MpReader.plain 0 18) := by
  have headed : HeadEncodes (.ext reference.mpDatetime lateSecond.length) [0xd8, 4] := fun _ => rfl
  have payload : DatetimePayload 9223372037 1 lateSecond :=
    ⟨by decide, by decide, by decide, by decide⟩
  have stands : Stands ([0xd8, 4] ++ lateSecond) (MpReader.plain 0 18) ([0xd8, 4] ++ lateSecond) [] :=
    stands_between rfl (Nat.le_refl 18)
  have outside : ¬ MomentInRange 9223372037 1 := by
    rintro (none | ⟨_, high⟩)
    · exact absurd none (by decide)
    · exact absurd high (by decide)
  have overflow : readTimePointInto reference ([0xd8, 4] ++ lateSecond) exactSeconds
      (MpReader.plain 0 18) = .undefined := by
    rw [read_time_point_datetime reference_implements reference_reads_items headed payload stands,
      Cxx.bind_run, since_epoch_undefined outside]
  refine ⟨headed, payload, overflow, ?_⟩
  rw [ReadsMoment, overflow]
  exact id

end Cpp2tnt
