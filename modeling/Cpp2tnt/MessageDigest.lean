import Cpp2tnt.Sha1

/-!
A message hashed in parts. `Holds` ties a context to the bytes it has been given
so far: the whole blocks are in its state, the others in its buffer. One update
keeps it exactly if its 32-bit sum of waiting and new bytes does not wrap.
-/

namespace Cpp2tnt
open MessagePack BlockHash

namespace Sha1

structure Holds (message : Bytes) (context : Sha1Ctx) : Prop where
  state : viewed 0 context.state = absorb compress 64 initial message
  count : context.count1.toNat * 2 ^ 32 + context.count0.toNat = 8 * message.length % 2 ^ 64
  room : context.buffer.length = 64
  waits : context.buffer.take (message.length % 64) = waiting 64 message

section Counting
variable {count0 count1 len : UInt32} {length : Nat}

theorem halves_mod {high low : Nat} (small : low < 2 ^ 32) :
    high % 2 ^ 32 * 2 ^ 32 + low = (high * 2 ^ 32 + low) % 2 ^ 64 := by omega

theorem eight_split (number : Nat) :
    number / 2 ^ 29 * 2 ^ 32 + number * 8 % 2 ^ 32 = 8 * number := by omega

theorem low_carries (low shifted high top : Nat) (inside : low < 2 ^ 32)
    (shiftedInside : shifted < 2 ^ 32) :
    ((if (low + shifted) % 2 ^ 32 < low then high + 1 else high) + top) * 2 ^ 32 +
      (low + shifted) % 2 ^ 32 = high * 2 ^ 32 + low + (top * 2 ^ 32 + shifted) := by
  by_cases carry : (low + shifted) % 2 ^ 32 < low
  · rw [if_pos carry]
    omega
  · rw [if_neg carry]
    omega

theorem count_advances
    (counted : count1.toNat * 2 ^ 32 + count0.toNat = 8 * length % 2 ^ 64) :
    ((if count0 + len <<< 3 < count0 then count1 + 1 else count1) + len >>> 29).toNat * 2 ^ 32 +
      (count0 + len <<< 3).toNat = 8 * (length + len.toNat) % 2 ^ 64 := by
  have low := count0.toNat_lt
  have shifted : (len <<< 3).toNat = len.toNat * 8 % 2 ^ 32 := by
    simp [UInt32.toNat_shiftLeft, Nat.shiftLeft_eq]
  have top : (len >>> 29).toNat = len.toNat / 2 ^ 29 := by
    simp [UInt32.toNat_shiftRight, Nat.shiftRight_eq_div_pow]
  have sum : (count0 + len <<< 3).toNat = (count0.toNat + len.toNat * 8 % 2 ^ 32) % 2 ^ 32 :=
    shifted ▸ UInt32.toNat_add count0 (len <<< 3)
  have carried : (if count0 + len <<< 3 < count0 then count1 + 1 else count1).toNat =
      (if (count0.toNat + len.toNat * 8 % 2 ^ 32) % 2 ^ 32 < count0.toNat then count1.toNat + 1
        else count1.toNat) % 2 ^ 32 := by
    simp only [UInt32.lt_iff_toNat_lt, sum]
    split_ifs
    · exact UInt32.toNat_add count1 1
    · exact (Nat.mod_eq_of_lt count1.toNat_lt).symm
  have added := low_carries count0.toNat (len.toNat * 8 % 2 ^ 32) count1.toNat
    (len.toNat / 2 ^ 29) low (Nat.mod_lt _ (by decide))
  have total : 8 * (length + len.toNat) % 2 ^ 64 =
      (8 * length % 2 ^ 64 + 8 * len.toNat) % 2 ^ 64 := by
    rw [Nat.mul_add, Nat.mod_add_mod]
  have high := Nat.mod_add_mod
    (if (count0.toNat + len.toNat * 8 % 2 ^ 32) % 2 ^ 32 < count0.toNat then count1.toNat + 1
      else count1.toNat) (2 ^ 32) (len.toNat / 2 ^ 29)
  rw [total, ← counted, ← eight_split, ← added, UInt32.toNat_add, carried, top, sum, high]
  exact halves_mod (Nat.mod_lt _ (by decide))

theorem pending_length
    (counted : count1.toNat * 2 ^ 32 + count0.toNat = 8 * length % 2 ^ 64) :
    ((count0 >>> 3) &&& 63).toNat = length % 64 := by
  have mask : ∀ number : Nat, number &&& 63 = number % 64 := fun number =>
    Nat.and_two_pow_sub_one_eq_mod number 6
  have value : ((count0 >>> 3) &&& 63).toNat = count0.toNat / 8 % 64 := by
    simp [UInt32.toNat_and, UInt32.toNat_shiftRight, Nat.shiftRight_eq_div_pow, mask]
  rw [value]
  omega

end Counting

theorem read_from_some {data : Bytes} {offset count : Nat} (inside : offset + count ≤ data.length) :
    readFrom data offset count = some ((data.drop offset).take count) := if_pos inside

theorem copy_into_some {buffer bytes : Bytes} {offset : Nat}
    (inside : offset + bytes.length ≤ buffer.length) :
    copyInto buffer offset bytes =
      some (buffer.take offset ++ bytes ++ buffer.drop (offset + bytes.length)) := if_pos inside

theorem copied_length {buffer bytes : Bytes} {offset : Nat}
    (inside : offset + bytes.length ≤ buffer.length) :
    (buffer.take offset ++ bytes ++ buffer.drop (offset + bytes.length)).length = buffer.length := by
  simp only [List.length_append, List.length_take, List.length_drop]
  omega

theorem copied_front {buffer bytes : Bytes} {offset : Nat}
    (inside : offset + bytes.length ≤ buffer.length) :
    (buffer.take offset ++ bytes ++ buffer.drop (offset + bytes.length)).take
      (offset + bytes.length) = buffer.take offset ++ bytes := by
  apply List.take_left'
  rw [List.length_append, List.length_take]
  omega

theorem loop_blocks {data : Bytes} {len : UInt32} (present : len.toNat ≤ data.length)
    (count fuel : Nat) (i : UInt32) (state : Registers) (enough : count < fuel)
    (blocksFit : i.toNat + 64 * count ≤ len.toNat)
    (last : len.toNat < i.toNat + 64 * count + 64)
    (unwrapped : i.toNat + 64 * count + 63 < 2 ^ 32) :
    ∃ reached after, transformLoop data len fuel i state = some (reached, after) ∧
      reached.toNat = i.toNat + 64 * count ∧
      viewed 0 after = blocks compress 64 count (viewed 0 state) (data.drop i.toNat) := by
  induction count generalizing fuel i state with
  | zero =>
      obtain ⟨fuel, rfl⟩ : ∃ less, fuel = less + 1 := ⟨fuel - 1, by omega⟩
      have sum : (i + 63).toNat = i.toNat + 63 := by
        rw [UInt32.toNat_add]
        exact Nat.mod_eq_of_lt unwrapped
      have stop : ¬ i + 63 < len := by
        rw [UInt32.lt_iff_toNat_lt, sum]
        omega
      exact ⟨i, state, by rw [transformLoop, if_neg stop], rfl, rfl⟩
  | succ count ih =>
      obtain ⟨fuel, rfl⟩ : ∃ less, fuel = less + 1 := ⟨fuel - 1, by omega⟩
      have sum : (i + 63).toNat = i.toNat + 63 := by
        rw [UInt32.toNat_add]
        exact Nat.mod_eq_of_lt (by change i.toNat + 63 < 2 ^ 32; omega)
      have next : (i + 64).toNat = i.toNat + 64 := by
        rw [UInt32.toNat_add]
        exact Nat.mod_eq_of_lt (by change i.toNat + 64 < 2 ^ 32; omega)
      have again : i + 63 < len := by
        rw [UInt32.lt_iff_toNat_lt, sum]
        omega
      have whole : ((data.drop i.toNat).take 64).length = 64 := by
        rw [List.length_take, List.length_drop]
        omega
      obtain ⟨reached, after, ran, there, absorbed⟩ := ih fuel (i + 64)
        (sha1Transform state ((data.drop i.toNat).take 64)) (by omega) (by omega) (by omega)
        (by omega)
      refine ⟨reached, after, ?_, by omega, ?_⟩
      · rw [transformLoop, if_pos again, read_from_some (by omega)]
        exact ran
      · rw [absorbed, transform_compresses _ _ whole, next, blocks, List.drop_drop]

section Updates
variable {message data : Bytes} {len : UInt32} {context : Sha1Ctx}

theorem update_waits (holds : Holds message context) (present : len.toNat ≤ data.length)
    (few : message.length % 64 + len.toNat ≤ 63) :
    ∃ after, sha1Update data len context = some after ∧ Holds (message ++ data.take len.toNat) after := by
  have pending := pending_length holds.count
  have sum : ((context.count0 >>> 3 &&& 63) + len).toNat = message.length % 64 + len.toNat := by
    rw [UInt32.toNat_add, pending]
    exact Nat.mod_eq_of_lt (by omega)
  have short : ¬ (context.count0 >>> 3 &&& 63) + len > 63 := by
    rw [gt_iff_lt, UInt32.lt_iff_toNat_lt, sum]
    exact Nat.not_lt.mpr few
  have size : (data.take len.toNat).length = len.toNat := List.length_take_of_le present
  have room := holds.room
  have fits : message.length % 64 + (data.take len.toNat).length ≤ context.buffer.length := by
    omega
  have behind : (waiting 64 message ++ data.take len.toNat).length < 64 := by
    rw [List.length_append, waiting_length, size]
    omega
  have counted := @count_advances _ _ len _ holds.count
  have longer : (message ++ data.take len.toNat).length = message.length + len.toNat := by
    rw [List.length_append, size]
  rw [← longer] at counted
  refine ⟨⟨context.state, context.count0 + len <<< 3,
    (if context.count0 + len <<< 3 < context.count0 then context.count1 + 1 else context.count1) +
      len >>> 29, _⟩, ?_, ⟨?_, counted, (copied_length fits).trans room, ?_⟩⟩
  · rw [sha1Update]
    simp only [if_neg short, pending]
    rw [read_from_some (by omega), List.drop_zero]
    simp only [Option.bind_eq_bind, Option.bind_some]
    rw [copy_into_some fits]
    rfl
  · rw [absorb_append _ _ (by decide), absorb_short behind, holds.state]
  · have length : (message ++ data.take len.toNat).length % 64 =
        message.length % 64 + (data.take len.toNat).length := by
      rw [List.length_append, size]
      omega
    rw [length, copied_front fits, holds.waits, waiting_append _ _ (by decide),
      waiting_short behind]

theorem update_compresses (holds : Holds message context) (present : len.toNat ≤ data.length)
    (many : 64 ≤ message.length % 64 + len.toNat)
    (unwrapped : message.length % 64 + len.toNat < 2 ^ 32) :
    ∃ after, sha1Update data len context = some after ∧ Holds (message ++ data.take len.toNat) after := by
  have pending := pending_length holds.count
  have few := Nat.mod_lt message.length (by decide : 64 > 0)
  have room := holds.room
  have sum : ((context.count0 >>> 3 &&& 63) + len).toNat = message.length % 64 + len.toNat := by
    rw [UInt32.toNat_add, pending]
    exact Nat.mod_eq_of_lt unwrapped
  have long : (context.count0 >>> 3 &&& 63) + len > 63 := by
    rw [gt_iff_lt, UInt32.lt_iff_toNat_lt, sum]
    exact many
  have missing : ((64 : UInt32) - (context.count0 >>> 3 &&& 63)).toNat = 64 - message.length % 64 := by
    rw [UInt32.toNat_sub_of_le, pending]
    · rfl
    · rw [UInt32.le_iff_toNat_le, pending]
      exact Nat.le_of_lt few
  let front := data.take (64 - message.length % 64)
  have frontSize : front.length = 64 - message.length % 64 := by
    rw [List.length_take]
    omega
  have fits : message.length % 64 + front.length ≤ context.buffer.length := by omega
  let filled := context.buffer.take (message.length % 64) ++ front ++
    context.buffer.drop (message.length % 64 + front.length)
  have whole : filled.length = 64 := (copied_length fits).trans room
  have full : filled = waiting 64 message ++ front := by
    have none : context.buffer.drop (message.length % 64 + front.length) = [] :=
      List.drop_eq_nil_of_le (by omega)
    rw [← holds.waits]
    simp only [filled, none, List.append_nil]
  obtain ⟨reached, after, looped, there, absorbed⟩ := loop_blocks present
    ((message.length % 64 + len.toNat) / 64 - 1) (len.toNat / 64 + 1)
    ((64 : UInt32) - (context.count0 >>> 3 &&& 63)) (sha1Transform context.state filled) (by omega)
    (by rw [missing]; omega) (by rw [missing]; omega) (by rw [missing]; omega)
  have rest : (len - reached).toNat = len.toNat - reached.toNat := by
    apply UInt32.toNat_sub_of_le
    rw [UInt32.le_iff_toNat_le]
    omega
  have size : (data.take len.toNat).length = len.toNat := List.length_take_of_le present
  let last := (data.drop reached.toNat).take (len.toNat - reached.toNat)
  have lastSize : last.length = (message.length % 64 + len.toNat) % 64 := by
    rw [List.length_take, List.length_drop]
    omega
  have lastFits : 0 + last.length ≤ filled.length := by omega
  -- the stream behind what was held: one filled block, and the data behind its front
  have split : waiting 64 message ++ data.take len.toNat =
      filled ++ (data.take len.toNat).drop (64 - message.length % 64) := by
    rw [full, List.append_assoc]
    congr 1
    have inside : (data.take len.toNat).take (64 - message.length % 64) = front := by
      rw [List.take_take, Nat.min_eq_left (by omega)]
    rw [← inside, List.take_append_drop]
  have behind : (data.take len.toNat).drop (64 - message.length % 64) =
      (data.drop (64 - message.length % 64)).take (len.toNat - (64 - message.length % 64)) :=
    List.drop_take ..
  have behindSize : ((data.take len.toNat).drop (64 - message.length % 64)).length =
      message.length % 64 + len.toNat - 64 := by
    rw [List.length_drop, size]
    omega
  have blockCount : (message.length % 64 + len.toNat - 64) / 64 =
      (message.length % 64 + len.toNat) / 64 - 1 := by omega
  have counted := @count_advances _ _ len _ holds.count
  have longer : (message ++ data.take len.toNat).length = message.length + len.toNat := by
    rw [List.length_append, size]
  rw [← longer] at counted
  refine ⟨⟨after, context.count0 + len <<< 3,
    (if context.count0 + len <<< 3 < context.count0 then context.count1 + 1 else context.count1) +
      len >>> 29, _⟩, ?_, ⟨?_, counted, (copied_length lastFits).trans whole, ?_⟩⟩
  · rw [sha1Update]
    simp only [if_pos long, pending, missing]
    rw [read_from_some (by omega), List.drop_zero]
    simp only [Option.bind_eq_bind, Option.bind_some]
    rw [copy_into_some fits]
    simp only [Option.bind_some]
    rw [looped]
    simp only [Option.bind_some]
    rw [read_from_some (by omega), rest]
    exact congrArg (Option.bind · _) (copy_into_some lastFits)
  · rw [absorb_append _ _ (by decide), ← holds.state, split,
      absorb_block (by decide) whole, absorb, behindSize, blockCount, absorbed, missing,
      transform_compresses _ _ whole]
    have inside : ((message.length % 64 + len.toNat) / 64 - 1) * 64 ≤
        ((data.take len.toNat).drop (64 - message.length % 64)).length := by
      rw [behindSize]
      omega
    have parts : data.drop (64 - message.length % 64) =
        (data.take len.toNat).drop (64 - message.length % 64) ++
          (data.drop (64 - message.length % 64)).drop (len.toNat - (64 - message.length % 64)) := by
      rw [behind, List.take_append_drop]
    rw [parts, blocks_front _ _ _ _ inside]
  · have length : (message ++ data.take len.toNat).length % 64 = 0 + last.length := by
      rw [List.length_append, size, lastSize]
      omega
    rw [length, copied_front lastFits, List.take_zero, List.nil_append,
      waiting_append _ _ (by decide), split, waiting_block (by decide) whole, waiting, behindSize,
      blockCount, behind, List.drop_take, List.drop_drop]
    have start : 64 - message.length % 64 + ((message.length % 64 + len.toNat) / 64 - 1) * 64 =
        reached.toNat := by
      rw [there, missing]
      omega
    have left : len.toNat - (64 - message.length % 64) -
        ((message.length % 64 + len.toNat) / 64 - 1) * 64 = len.toNat - reached.toNat := by
      rw [Nat.sub_sub, start]
    rw [start, left]

theorem update_overruns (holds : Holds message context) (present : len.toNat ≤ data.length)
    (wrapped : 2 ^ 32 ≤ message.length % 64 + len.toNat) : sha1Update data len context = none := by
  have pending := pending_length holds.count
  have few := Nat.mod_lt message.length (by decide : 64 > 0)
  have size := len.toNat_lt
  have room := holds.room
  have sum : ((context.count0 >>> 3 &&& 63) + len).toNat =
      message.length % 64 + len.toNat - 2 ^ 32 := by
    rw [UInt32.toNat_add, pending]
    omega
  have short : ¬ (context.count0 >>> 3 &&& 63) + len > 63 := by
    rw [gt_iff_lt, UInt32.lt_iff_toNat_lt, sum]
    have limit : UInt32.toNat 63 = 63 := rfl
    omega
  have beyond : ¬ message.length % 64 + ((data.drop 0).take len.toNat).length ≤
      context.buffer.length := by
    rw [List.drop_zero, List.length_take_of_le present]
    omega
  rw [sha1Update]
  simp only [if_neg short, pending]
  rw [read_from_some (by omega)]
  simp only [Option.bind_eq_bind, Option.bind_some]
  rw [copyInto, if_neg beyond]
  rfl

theorem update_holds (holds : Holds message context) (present : len.toNat ≤ data.length)
    (unwrapped : message.length % 64 + len.toNat < 2 ^ 32) :
    ∃ after, sha1Update data len context = some after ∧
      Holds (message ++ data.take len.toNat) after := by
  by_cases few : message.length % 64 + len.toNat ≤ 63
  · exact update_waits holds present few
  · exact update_compresses holds present (by omega) unwrapped

end Updates

theorem init_holds {buffer : Bytes} (room : buffer.length = 64) : Holds [] (sha1Init buffer) where
  state := rfl
  count := by simp [sha1Init]
  room := room
  waits := rfl

theorem word_byte (word : UInt32) (i : Nat) :
    wordByte word i = UInt8.ofNat (word.toNat / 256 ^ (3 - i % 4)) := by
  apply UInt8.toNat_inj.mp
  have place : (3 - i % 4) * 8 < 32 := by omega
  have power : 2 ^ ((3 - i % 4) * 8) = 256 ^ (3 - i % 4) := by
    rw [Nat.mul_comm, Nat.pow_mul]
  have mask : ∀ number : Nat, number &&& 255 = number % 256 := fun number =>
    Nat.and_two_pow_sub_one_eq_mod number 8
  rw [wordByte, UInt32.toNat_toUInt8, UInt32.toNat_and, UInt32.toNat_shiftRight,
    UInt32.toNat_ofNat', Nat.mod_eq_of_lt (by omega : (3 - i % 4) * 8 < 2 ^ 32),
    Nat.mod_eq_of_lt place, Nat.shiftRight_eq_div_pow, power, UInt8.toNat_ofNat']
  exact (congrArg (· % 256) (mask _)).trans (Nat.mod_mod _ _)

theorem word_bytes (word : UInt32) :
    [wordByte word 0, wordByte word 1, wordByte word 2, wordByte word 3] =
      bigEndian 4 word.toNat := by
  simp only [word_byte, bigEndian, List.nil_append, List.cons_append, Nat.div_div_eq_div_mul]
  norm_num

theorem count_words (context : Sha1Ctx) :
    ((List.range 8).map fun i => wordByte (if i ≥ 4 then context.count0 else context.count1) i) =
      bigEndian 8 (context.count1.toNat * 2 ^ 32 + context.count0.toNat) := by
  have low := context.count0.toNat_lt
  have split := big_endian_append 4 4 (context.count1.toNat * 2 ^ 32 + context.count0.toNat)
  have high : (context.count1.toNat * 2 ^ 32 + context.count0.toNat) / 256 ^ 4 =
      context.count1.toNat := by omega
  have behind : (context.count1.toNat * 2 ^ 32 + context.count0.toNat) % 256 ^ 4 =
      context.count0.toNat := by omega
  rw [split, high, behind, ← word_bytes, ← word_bytes]
  rfl

theorem state_words (state : Registers) :
    ((List.range 20).map fun i => wordByte (state (Fin.ofNat 5 (i / 4))) i) =
      (viewed 0 state).bytes := by
  simp only [Words.bytes, ← word_bytes]
  rfl

theorem count_reached {message : Bytes} {context : Sha1Ctx} (holds : Holds message context) :
    context.count0 &&& 504 = 448 ↔ message.length % 64 = 56 := by
  have shifted : (context.count0 &&& 504).toNat = (context.count0.toNat / 8 % 64) * 8 := by
    have mask : context.count0.toNat &&& 504 = (context.count0.toNat >>> 3 &&& 63) <<< 3 := by
      apply Nat.eq_of_testBit_eq
      intro bit
      have split : (504 : Nat).testBit bit = (decide (bit ≥ 3) && Nat.testBit 63 (bit - 3)) :=
        Nat.testBit_shiftLeft (i := 3) 63
      rw [Nat.testBit_and, Nat.testBit_shiftLeft, Nat.testBit_and, Nat.testBit_shiftRight, split]
      by_cases above : bit ≥ 3
      · simp [above]
      · simp [above]
    rw [UInt32.toNat_and]
    exact mask.trans (by rw [Nat.and_two_pow_sub_one_eq_mod _ 6, Nat.shiftLeft_eq,
      Nat.shiftRight_eq_div_pow])
  have pending := holds.count
  rw [← UInt32.toNat_inj, shifted]
  change _ = 448 ↔ _
  omega

theorem update_part {message part : Bytes} {context : Sha1Ctx} (holds : Holds message context)
    (short : part.length < 2 ^ 16) : ∃ after,
      sha1Update part (UInt32.ofNat part.length) context = some after ∧
        Holds (message ++ part) after := by
  have size : (UInt32.ofNat part.length).toNat = part.length := by
    rw [UInt32.toNat_ofNat']
    exact Nat.mod_eq_of_lt (by omega)
  have advanced := update_holds holds (Nat.le_of_eq size) (by omega)
  rw [size, List.take_length] at advanced
  exact advanced

theorem pad_zeros {message : Bytes} {context : Sha1Ctx} (count fuel : Nat)
    (left : (120 - message.length % 64) % 64 = count) (enough : count < fuel)
    (holds : Holds message context) :
    ∃ after, padLoop fuel context = some after ∧
      Holds (message ++ List.replicate count 0) after := by
  induction count generalizing fuel message context with
  | zero =>
      obtain ⟨fuel, rfl⟩ : ∃ less, fuel = less + 1 := ⟨fuel - 1, by omega⟩
      have stop : ¬ context.count0 &&& 504 ≠ 448 :=
        not_not_intro ((count_reached holds).mpr (by omega))
      exact ⟨context, by rw [padLoop, if_neg stop], by simpa using holds⟩
  | succ count ih =>
      obtain ⟨fuel, rfl⟩ : ∃ less, fuel = less + 1 := ⟨fuel - 1, by omega⟩
      have again : context.count0 &&& 504 ≠ 448 := fun reached => by
        have ended := (count_reached holds).mp reached
        omega
      obtain ⟨longer, updated, next⟩ := @update_part _ [0] _ holds (by decide)
      have fewer : (120 - (message ++ [0]).length % 64) % 64 = count := by
        rw [List.length_append, List.length_singleton]
        omega
      obtain ⟨after, padded, reached⟩ := ih fuel fewer (by omega) next
      refine ⟨after, ?_, ?_⟩
      · rw [padLoop, if_pos again]
        change (sha1Update [0] 1 context).bind _ = _
        rw [show sha1Update [0] 1 context = some longer from updated]
        exact padded
      · rwa [List.append_assoc, List.singleton_append, ← List.replicate_succ] at reached

theorem length_field {message : Bytes} {context : Sha1Ctx} (holds : Holds message context) :
    ((List.range 8).map fun i => wordByte (if i ≥ 4 then context.count0 else context.count1) i) =
      bigEndian 8 (8 * message.length) := by
  rw [count_words, holds.count]
  exact big_endian_mod 8 (8 * message.length)

theorem final_digest {message : Bytes} {context : Sha1Ctx} (holds : Holds message context) :
    sha1Final context = some (digest message) := by
  obtain ⟨marked, markedRan, markedHolds⟩ := @update_part _ [0x80] _ holds (by decide)
  have zeros : (120 - (message ++ [0x80]).length % 64) % 64 = (119 - message.length % 64) % 64 := by
    rw [List.length_append, List.length_singleton]
    omega
  obtain ⟨filled, filledRan, filledHolds⟩ := pad_zeros _ 64 zeros (Nat.mod_lt _ (by decide)) markedHolds
  obtain ⟨finished, finishedRan, finishedHolds⟩ :=
    @update_part _ (bigEndian 8 (8 * message.length)) _ filledHolds (by simp)
  have field := big_endian_length 8 (8 * message.length)
  rw [field] at finishedRan
  have whole : message ++ [0x80] ++ List.replicate ((119 - message.length % 64) % 64) 0 ++
      bigEndian 8 (8 * message.length) = padded message := by
    simp [padded]
  rw [whole] at finishedHolds
  have words : (List.range 20).map (fun i => wordByte (finished.state (Fin.ofNat 5 (i / 4))) i) =
      digest message := by
    rw [state_words, finishedHolds.state, digest]
  rw [sha1Final, length_field holds]
  change (sha1Update [0x80] 1 context).bind _ = _
  rw [show sha1Update [0x80] 1 context = some marked from markedRan, Option.bind_some, filledRan]
  change (sha1Update _ 8 filled).bind _ = _
  rw [show sha1Update _ 8 filled = some finished from finishedRan, ← words]
  rfl

/-- `SHA1Update` with one part after the other; a caller narrows each size to 32 bits. -/
def updateParts : List Bytes → Sha1Ctx → Option Sha1Ctx
  | [], context => some context
  | part :: rest, context => do
      let longer ← sha1Update part (UInt32.ofNat part.length) context
      updateParts rest longer

def hashParts (buffer : Bytes) (parts : List Bytes) : Option Bytes := do
  let context ← updateParts parts (sha1Init buffer)
  sha1Final context

def hashed (part : Bytes) : Bytes := part.take (part.length % 2 ^ 32)

/-- No sum of waiting and new bytes wraps, from a message of this length on. -/
def Fits : Nat → List Bytes → Prop
  | _, [] => True
  | length, part :: rest =>
      length % 64 + (hashed part).length < 2 ^ 32 ∧ Fits (length + (hashed part).length) rest

instance (length : Nat) (parts : List Bytes) : Decidable (Fits length parts) :=
  match parts with
  | [] => .isTrue trivial
  | _ :: rest => @instDecidableAnd _ _ _ (instDecidableFits _ rest)

theorem part_hashed {message part : Bytes} {context : Sha1Ctx} (holds : Holds message context) :
    (message.length % 64 + (hashed part).length < 2 ^ 32 →
      ∃ after, sha1Update part (UInt32.ofNat part.length) context = some after ∧
        Holds (message ++ hashed part) after) ∧
    (¬ message.length % 64 + (hashed part).length < 2 ^ 32 →
      sha1Update part (UInt32.ofNat part.length) context = none) := by
  have size : (UInt32.ofNat part.length).toNat = part.length % 2 ^ 32 := UInt32.toNat_ofNat'
  have present : (UInt32.ofNat part.length).toNat ≤ part.length := by
    rw [size]
    exact Nat.mod_le _ _
  have read : (hashed part).length = (UInt32.ofNat part.length).toNat := by
    rw [size, hashed, List.length_take, Nat.min_eq_left (Nat.mod_le _ _)]
  rw [read]
  constructor
  · intro fits
    have advanced := update_holds holds present fits
    rwa [size] at advanced
  · intro wraps
    exact update_overruns holds present (Nat.le_of_not_lt wraps)

theorem update_parts {message : Bytes} {context : Sha1Ctx} (parts : List Bytes)
    (holds : Holds message context) :
    (Fits message.length parts →
      ∃ after, updateParts parts context = some after ∧
        Holds (message ++ (parts.map hashed).flatten) after) ∧
    (¬ Fits message.length parts → updateParts parts context = none) := by
  induction parts generalizing message context with
  | nil => exact ⟨fun _ => ⟨context, rfl, by simpa using holds⟩, fun wraps => absurd trivial wraps⟩
  | cons part rest ih =>
      obtain ⟨kept, lost⟩ := @part_hashed _ part _ holds
      by_cases inside : message.length % 64 + (hashed part).length < 2 ^ 32
      · obtain ⟨longer, updated, next⟩ := kept inside
        obtain ⟨later, failed⟩ := ih next
        rw [List.length_append] at later failed
        rw [updateParts, updated, Option.bind_eq_bind, Option.bind_some]
        constructor
        · intro fits
          obtain ⟨after, ran, reached⟩ := later fits.2
          rw [List.append_assoc] at reached
          exact ⟨after, ran, reached⟩
        · intro wraps
          exact failed fun fits => wraps ⟨inside, fits⟩
      · refine ⟨fun fits => absurd fits.1 inside, fun _ => ?_⟩
        rw [updateParts, lost inside]
        rfl

/-- The hash of a message given in parts is its digest, unless a sum wraps: then a copy
leaves the context's buffer. -/
theorem hash_parts {buffer : Bytes} (room : buffer.length = 64) (parts : List Bytes) :
    hashParts buffer parts =
      if Fits 0 parts then some (digest (parts.map hashed).flatten) else none := by
  obtain ⟨kept, lost⟩ := update_parts parts (init_holds room)
  by_cases fits : Fits 0 parts
  · obtain ⟨after, ran, holds⟩ := kept fits
    rw [if_pos fits, hashParts, ran]
    exact final_digest holds
  · rw [if_neg fits, hashParts, lost fits]
    rfl

theorem two_parts_hashed : hashParts (List.replicate 64 0) [[97], [98, 99]] =
    some (digest [97, 98, 99]) :=
  (hash_parts rfl [[97], [98, 99]]).trans (if_pos (by decide))

end Sha1
end Cpp2tnt
