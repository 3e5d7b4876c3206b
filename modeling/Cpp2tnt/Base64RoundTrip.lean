import Cpp2tnt.Base64

/-!
What `base64_decode` and `base64_encode` compute. The decoder skips what is no
letter, and runs out of its memory exactly if the text holds the byte behind the
letters or the bytes leave no room for one more. With the room the header asks
for, decoding gives back what was encoded.
-/

namespace Cpp2tnt
open MessagePack

namespace Base64

section Memory
variable {memory : Bytes} {position : Nat}

theorem store_some (inside : position < memory.length) (byte : UInt8) :
    store memory position byte = some (memory.set position byte) := if_pos inside

theorem take_stored (inside : position < memory.length) (byte : UInt8) :
    (memory.set position byte).take (position + 1) = memory.take position ++ [byte] := by
  have slot : position < (memory.set position byte).length := by rwa [List.length_set]
  rw [List.take_succ_eq_append_getElem slot, List.getElem_set_self, List.take_set_of_le (Nat.le_refl _)]

theorem load_none (outside : memory.length ≤ position) : load memory position = none :=
  List.getElem?_eq_none outside

end Memory

theorem decode_value (value : UInt8) (inside : value ≠ 123) :
    decodeValue value =
      some ((letter value).elim (if value = 61 then (-2 : Int) else -1) fun six => (six : Int)) := by
  have table : ∀ index < 256, UInt8.ofNat index ≠ 123 → decodeValue (UInt8.ofNat index) =
      some ((letter (UInt8.ofNat index)).elim (if UInt8.ofNat index = 61 then (-2 : Int) else -1)
        fun six => (six : Int)) := by decide +kernel
  have found := table value.toNat value.toNat_lt
  rw [UInt8.ofNat_toNat] at found
  exact found inside

theorem letter_bound {value : UInt8} {six : Nat} (found : letter value = some six) : six < 64 := by
  simp only [letter] at found
  split_ifs at found <;> cases found <;> omega

theorem letters_bound {text : Bytes} {six : Nat} (member : six ∈ letters text) : six < 64 := by
  obtain ⟨value, -, found⟩ := List.mem_filterMap.mp member
  exact letter_bound found

theorem letters_skip {value : UInt8} {text : Bytes} (skipped : letter value = none) :
    letters (value :: text) = letters text := List.filterMap_cons_none skipped

theorem letters_keep {value : UInt8} {text : Bytes} {six : Nat} (kept : letter value = some six) :
    letters (value :: text) = six :: letters text := List.filterMap_cons_some kept

theorem brace_value : decodeValue 123 = none := by decide

theorem letter_character {value : Nat} (small : value < 64) : letter (character value) = some value := by
  have table : ∀ value < 64, letter (character value) = some value := by decide +kernel
  exact table value small

theorem letter_newline : letter 10 = none := by decide

theorem letter_padding : letter 61 = none := by decide

section Decoding
variable {step next : DecodeStep} {outPos position : Nat} {out memory : Bytes}

theorem leave_full (full : out.length ≤ outPos) : leave step outPos out = none := by
  rw [leave, load_none full]
  rfl

theorem leave_some (room : outPos < out.length) :
    ∃ state, leave step outPos out = some (state, outPos, out) := by
  refine ⟨⟨step, out[outPos]⟩, ?_⟩
  rw [leave, load, List.getElem?_eq_getElem room]
  rfl

def lettersLoop : List Nat → DecodeStep → Nat → Bytes → Option (DecodeState × Nat × Bytes)
  | [], step, outPos, out => leave step outPos out
  | value :: rest, step, outPos, out =>
      if outPos ≥ out.length then leave step outPos out
      else do
        let (step, outPos, out) ← decodeLetter step value outPos out
        lettersLoop rest step outPos out

theorem letters_full (values : List Nat) (full : out.length ≤ outPos) :
    lettersLoop values step outPos out = none := by
  cases values with
  | nil => exact leave_full full
  | cons value rest => rw [lettersLoop, if_pos full, leave_full full]

theorem letters_turn {value : Nat} {rest : List Nat} (room : outPos < out.length)
    (stored : decodeLetter step value outPos out = some (next, position, memory)) :
    lettersLoop (value :: rest) step outPos out = lettersLoop rest next position memory := by
  rw [lettersLoop, if_neg (Nat.not_le.mpr room), stored]
  rfl

/-- The byte behind the last letter is read behind the table, if no full memory ends the loop
with another bad read before. -/
theorem decode_brace {text : Bytes} (brace : 123 ∈ text) (step : DecodeStep) (outPos : Nat)
    (out : Bytes) : decodeLoop text step outPos out = none := by
  induction text generalizing step outPos out with
  | nil => cases brace
  | cons value rest ih =>
      rw [decodeLoop]
      by_cases full : outPos ≥ out.length
      · rw [if_pos full, leave_full full]
      rw [if_neg full]
      by_cases here : value = 123
      · rw [here, brace_value]
        rfl
      have behind : 123 ∈ rest := (List.mem_cons.mp brace).resolve_left (Ne.symm here)
      rw [decode_value value here, Option.bind_eq_bind, Option.bind_some]
      generalize (letter value).elim (if value = 61 then (-2 : Int) else -1) _ = fragment
      by_cases skipped : fragment < 0
      · rw [if_pos skipped, ih behind]
      · rw [if_neg skipped]
        cases decodeLetter step fragment.toNat outPos out with
        | none => rfl
        | some reached => exact ih behind reached.1 reached.2.1 reached.2.2

theorem decode_letters {text : Bytes} (clean : 123 ∉ text) (step : DecodeStep) (outPos : Nat)
    (out : Bytes) : decodeLoop text step outPos out = lettersLoop (letters text) step outPos out := by
  induction text generalizing step outPos out with
  | nil => rfl
  | cons value rest ih =>
      have here : value ≠ 123 := fun same => clean (same ▸ List.mem_cons_self)
      have behind : 123 ∉ rest := fun member => clean (List.mem_cons_of_mem _ member)
      rw [decodeLoop]
      by_cases full : outPos ≥ out.length
      · rw [if_pos full, leave_full full, letters_full _ full]
      rw [if_neg full, decode_value value here, Option.bind_eq_bind, Option.bind_some]
      cases found : letter value with
      | none =>
          have skipped : (if value = 61 then (-2 : Int) else -1) < 0 := by split_ifs <;> decide
          rw [Option.elim_none, if_pos skipped, ih behind, letters_skip found]
      | some six =>
          have kept : ¬ (six : Int) < 0 := by omega
          rw [Option.elim_some, if_neg kept, Int.toNat_natCast, letters_keep found, lettersLoop,
            if_neg full]
          cases stored : decodeLetter step six outPos out with
          | none => rfl
          | some reached => exact ih behind reached.1 reached.2.1 reached.2.2

theorem letter_starts {value : Nat} (small : value < 64) (room : outPos < out.length) :
    ∃ memory, decodeLetter .a value outPos out = some (.b, outPos, memory) ∧
      memory.length = out.length ∧ memory.take outPos = out.take outPos ∧
      memory[outPos]? = some (UInt8.ofNat (value * 4)) := by
  have masked : (value &&& 0x3f) <<< 2 = value * 4 := by
    rw [Nat.and_two_pow_sub_one_eq_mod value 6, Nat.mod_eq_of_lt small, Nat.shiftLeft_eq]
  refine ⟨out.set outPos (UInt8.ofNat (value * 4)), ?_, List.length_set,
    List.take_set_of_le (Nat.le_refl _), List.getElem?_set_self room⟩
  rw [decodeLetter, masked, store_some room]
  rfl

theorem byte_completed {held high low : UInt8} (there : out[outPos]? = some held) :
    ∃ memory, (do
        let held ← load out outPos
        let out ← store out outPos (held ||| high)
        if outPos + 1 < out.length then do
          let out ← store out (outPos + 1) low
          return (next, outPos + 1, out)
        else return (next, outPos + 1, out)) = some (next, outPos + 1, memory) ∧
      memory.length = out.length ∧ memory.take (outPos + 1) = out.take outPos ++ [held ||| high] ∧
      (outPos + 1 < out.length → memory[outPos + 1]? = some low) := by
  have room : outPos < out.length := (List.getElem?_eq_some_iff.mp there).1
  let done := out.set outPos (held ||| high)
  have size : done.length = out.length := List.length_set
  by_cases further : outPos + 1 < done.length
  · refine ⟨done.set (outPos + 1) low, ?_, List.length_set.trans size, ?_,
      fun _ => List.getElem?_set_self further⟩
    · rw [load, there, Option.bind_eq_bind, Option.bind_some, store_some room]
      change (if outPos + 1 < done.length then _ else _) = _
      rw [if_pos further, store_some further]
      rfl
    · rw [List.take_set_of_le (Nat.le_refl _)]
      exact take_stored room _
  · refine ⟨done, ?_, size, take_stored room _, fun inside => absurd (size ▸ inside) further⟩
    rw [load, there, Option.bind_eq_bind, Option.bind_some, store_some room]
    change (if outPos + 1 < done.length then _ else _) = _
    rw [if_neg further]
    rfl

theorem joined_bits {width low : Nat} (high : Nat) (small : low < 2 ^ width) :
    UInt8.ofNat (high * 2 ^ width) ||| UInt8.ofNat low = UInt8.ofNat (high * 2 ^ width + low) := by
  rw [← UInt8.ofNat_or, ← Nat.shiftLeft_eq, Nat.shiftLeft_add_eq_or_of_lt small]

theorem letter_masks : ∀ value < 64, (value &&& 0x30) >>> 4 = value / 16 ∧
    (value &&& 0x0f) <<< 4 = value % 16 * 16 ∧ (value &&& 0x3c) >>> 2 = value / 4 ∧
    (value &&& 0x03) <<< 6 = value % 4 * 64 ∧ value &&& 0x3f = value := by decide

theorem second_letter {a b : Nat} (small : b < 64) (there : out[outPos]? = some (UInt8.ofNat (a * 4))) :
    ∃ memory, decodeLetter .b b outPos out = some (.c, outPos + 1, memory) ∧
      memory.length = out.length ∧
      memory.take (outPos + 1) = out.take outPos ++ [UInt8.ofNat (a * 4 + b / 16)] ∧
      (outPos + 1 < out.length → memory[outPos + 1]? = some (UInt8.ofNat (b % 16 * 16))) := by
  obtain ⟨high, low, -, -, -⟩ := letter_masks b small
  have joined : UInt8.ofNat (a * 4) ||| UInt8.ofNat (b / 16) = UInt8.ofNat (a * 4 + b / 16) :=
    @joined_bits 2 (b / 16) a (by omega)
  rw [← joined, decodeLetter, high, low]
  exact byte_completed there

theorem third_letter {b c : Nat} (small : c < 64)
    (there : out[outPos]? = some (UInt8.ofNat (b % 16 * 16))) :
    ∃ memory, decodeLetter .c c outPos out = some (.d, outPos + 1, memory) ∧
      memory.length = out.length ∧
      memory.take (outPos + 1) = out.take outPos ++ [UInt8.ofNat (b % 16 * 16 + c / 4)] ∧
      (outPos + 1 < out.length → memory[outPos + 1]? = some (UInt8.ofNat (c % 4 * 64))) := by
  obtain ⟨-, -, high, low, -⟩ := letter_masks c small
  have joined : UInt8.ofNat (b % 16 * 16) ||| UInt8.ofNat (c / 4) =
      UInt8.ofNat (b % 16 * 16 + c / 4) := @joined_bits 4 (c / 4) (b % 16) (by omega)
  rw [← joined, decodeLetter, high, low]
  exact byte_completed there

theorem fourth_letter {c d : Nat} (small : d < 64)
    (there : out[outPos]? = some (UInt8.ofNat (c % 4 * 64))) :
    ∃ memory, decodeLetter .d d outPos out = some (.a, outPos + 1, memory) ∧
      memory.length = out.length ∧
      memory.take (outPos + 1) = out.take outPos ++ [UInt8.ofNat (c % 4 * 64 + d)] := by
  have room : outPos < out.length := (List.getElem?_eq_some_iff.mp there).1
  obtain ⟨-, -, -, -, whole⟩ := letter_masks d small
  have joined := @joined_bits 6 d (c % 4) small
  refine ⟨out.set outPos (UInt8.ofNat (c % 4 * 64) ||| UInt8.ofNat d), ?_, List.length_set, ?_⟩
  · rw [decodeLetter, whole, load, there, Option.bind_eq_bind, Option.bind_some, store_some room]
    rfl
  · rw [take_stored room]
    exact congrArg (_ ++ [·]) joined

/-! The letters of a group: the memory ends, or the loop goes on behind the byte they complete. -/

variable {a b c d : Nat} (rest : List Nat)

theorem two_letters (smallA : a < 64) (smallB : b < 64) (room : outPos < out.length) :
    (out.length ≤ outPos + 1 → lettersLoop (a :: b :: rest) .a outPos out = none) ∧
    (outPos + 1 < out.length → ∃ memory,
      lettersLoop (a :: b :: rest) .a outPos out = lettersLoop rest .c (outPos + 1) memory ∧
      memory.length = out.length ∧
      memory.take (outPos + 1) = out.take outPos ++ [UInt8.ofNat (a * 4 + b / 16)] ∧
      memory[outPos + 1]? = some (UInt8.ofNat (b % 16 * 16))) := by
  obtain ⟨first, started, firstSize, firstFront, firstHeld⟩ := letter_starts smallA room
  obtain ⟨second, joined, secondSize, secondFront, secondHeld⟩ := second_letter smallB firstHeld
  rw [letters_turn room started, letters_turn (firstSize ▸ room) joined]
  rw [firstSize] at secondSize secondHeld
  rw [firstFront] at secondFront
  exact ⟨fun full => letters_full _ (secondSize ▸ full),
    fun further => ⟨second, rfl, secondSize, secondFront, secondHeld further⟩⟩

theorem three_letters (smallA : a < 64) (smallB : b < 64) (smallC : c < 64)
    (room : outPos < out.length) :
    (out.length ≤ outPos + 2 → lettersLoop (a :: b :: c :: rest) .a outPos out = none) ∧
    (outPos + 2 < out.length → ∃ memory,
      lettersLoop (a :: b :: c :: rest) .a outPos out = lettersLoop rest .d (outPos + 2) memory ∧
      memory.length = out.length ∧
      memory.take (outPos + 2) = out.take outPos ++
        [UInt8.ofNat (a * 4 + b / 16), UInt8.ofNat (b % 16 * 16 + c / 4)] ∧
      memory[outPos + 2]? = some (UInt8.ofNat (c % 4 * 64))) := by
  obtain ⟨ended, going⟩ := two_letters (c :: rest) smallA smallB room
  by_cases further : outPos + 1 < out.length
  · obtain ⟨second, reached, secondSize, secondFront, secondHeld⟩ := going further
    obtain ⟨third, joined, thirdSize, thirdFront, thirdHeld⟩ := third_letter smallC secondHeld
    rw [reached, letters_turn (secondSize ▸ further) joined]
    rw [secondSize] at thirdSize thirdHeld
    rw [secondFront, List.append_assoc] at thirdFront
    exact ⟨fun full => letters_full _ (thirdSize ▸ full),
      fun last => ⟨third, rfl, thirdSize, thirdFront, thirdHeld last⟩⟩
  · exact ⟨fun _ => ended (by omega), fun last => absurd last (by omega)⟩

theorem four_letters (smallA : a < 64) (smallB : b < 64) (smallC : c < 64) (smallD : d < 64)
    (room : outPos < out.length) :
    (out.length ≤ outPos + 2 → lettersLoop (a :: b :: c :: d :: rest) .a outPos out = none) ∧
    (outPos + 2 < out.length → ∃ memory,
      lettersLoop (a :: b :: c :: d :: rest) .a outPos out =
        lettersLoop rest .a (outPos + 3) memory ∧
      memory.length = out.length ∧
      memory.take (outPos + 3) = out.take outPos ++ [UInt8.ofNat (a * 4 + b / 16),
        UInt8.ofNat (b % 16 * 16 + c / 4), UInt8.ofNat (c % 4 * 64 + d)]) := by
  obtain ⟨ended, going⟩ := three_letters (d :: rest) smallA smallB smallC room
  refine ⟨ended, fun last => ?_⟩
  obtain ⟨third, reached, thirdSize, thirdFront, thirdHeld⟩ := going last
  obtain ⟨fourth, joined, fourthSize, fourthFront⟩ := fourth_letter smallD thirdHeld
  rw [thirdFront, List.append_assoc] at fourthFront
  refine ⟨fourth, ?_, fourthSize.trans thirdSize, fourthFront⟩
  rw [reached, letters_turn (thirdSize ▸ last) joined]

theorem letters_decoded (values : List Nat) (small : ∀ value ∈ values, value < 64) (outPos : Nat)
    (out : Bytes) :
    (outPos + (bytesOf values).length < out.length →
      ∃ state after, lettersLoop values .a outPos out =
          some (state, outPos + (bytesOf values).length, after) ∧
        after.length = out.length ∧
        after.take (outPos + (bytesOf values).length) = out.take outPos ++ bytesOf values) ∧
    (¬ outPos + (bytesOf values).length < out.length → lettersLoop values .a outPos out = none) := by
  by_cases full : out.length ≤ outPos
  · exact ⟨fun room => absurd room (by omega), fun _ => letters_full values full⟩
  have room := Nat.not_le.mp full
  clear full
  -- on groups of four letters; a shorter group is the last one
  induction values using bytesOf.induct generalizing outPos out with
  | case1 a b c d rest ih =>
      obtain ⟨smallA, smallB, smallC, smallD, smallRest⟩ :
          a < 64 ∧ b < 64 ∧ c < 64 ∧ d < 64 ∧ ∀ value ∈ rest, value < 64 := by
        simpa using small
      obtain ⟨ended, going⟩ := four_letters rest smallA smallB smallC smallD room
      by_cases last : outPos + 2 < out.length
      · obtain ⟨memory, reached, size, front⟩ := going last
        rw [reached]
        have length : outPos + (bytesOf (a :: b :: c :: d :: rest)).length =
            outPos + 3 + (bytesOf rest).length := by
          simp only [bytesOf, List.length_cons]
          omega
        rw [length]
        -- the three bytes of the group may be the last the memory holds
        by_cases further : outPos + 3 < memory.length
        · obtain ⟨kept, lost⟩ := ih smallRest (outPos + 3) memory further
          rw [size] at kept lost
          refine ⟨fun fits => ?_, lost⟩
          obtain ⟨state, after, ran, afterSize, afterFront⟩ := kept fits
          refine ⟨state, after, ran, afterSize, ?_⟩
          rw [afterFront, front, List.append_assoc]
          rfl
        · exact ⟨fun fits => absurd fits (by omega), fun _ => letters_full rest (by omega)⟩
      · refine ⟨fun fits => ?_, fun _ => ended (by omega)⟩
        simp only [bytesOf, List.length_cons] at fits
        omega
  | case2 a b c =>
      obtain ⟨smallA, smallB, smallC⟩ : a < 64 ∧ b < 64 ∧ c < 64 := by simpa using small
      obtain ⟨ended, going⟩ := three_letters [] smallA smallB smallC room
      refine ⟨fun fits => ?_, fun past => ended (Nat.not_lt.mp past)⟩
      obtain ⟨memory, reached, size, front, -⟩ := going fits
      obtain ⟨state, left⟩ := @leave_some .d (outPos + 2) memory (size ▸ fits)
      exact ⟨state, memory, reached.trans left, size, front⟩
  | case3 a b =>
      obtain ⟨smallA, smallB⟩ : a < 64 ∧ b < 64 := by simpa using small
      obtain ⟨ended, going⟩ := two_letters [] smallA smallB room
      refine ⟨fun fits => ?_, fun past => ended (Nat.not_lt.mp past)⟩
      obtain ⟨memory, reached, size, front, -⟩ := going fits
      obtain ⟨state, left⟩ := @leave_some .c (outPos + 1) memory (size ▸ fits)
      exact ⟨state, memory, reached.trans left, size, front⟩
  | case4 a =>
      obtain ⟨memory, started, size, front, -⟩ := letter_starts (small a List.mem_cons_self) room
      obtain ⟨state, left⟩ := @leave_some .b outPos memory (size ▸ room)
      rw [letters_turn room started]
      exact ⟨fun _ => ⟨state, memory, left, size, front.trans (List.append_nil _).symm⟩,
        fun past => absurd room past⟩
  | case5 =>
      obtain ⟨state, left⟩ := @leave_some .a outPos out room
      exact ⟨fun _ => ⟨state, out, left, rfl, (List.append_nil _).symm⟩,
        fun past => absurd room past⟩

theorem bytes_length (values : List Nat) : (bytesOf values).length = 3 * values.length / 4 := by
  induction values using bytesOf.induct with
  | case1 a b c d rest ih =>
      simp only [bytesOf, List.length_cons, ih]
      omega
  | case2 a b c => simp [bytesOf]
  | case3 a b => simp [bytesOf]
  | case4 a => simp [bytesOf]
  | case5 => rfl

/-- The decoder reads nothing outside its table and its output exactly if the text is free of
the byte behind the letters and the decoded bytes leave room for one more. -/
theorem decode_text (text out : Bytes) :
    (123 ∉ text ∧ 3 * (letters text).length / 4 < out.length →
      ∃ after, base64Decode text out = some (3 * (letters text).length / 4, after) ∧
        after.length = out.length ∧
        after.take (3 * (letters text).length / 4) = bytesOf (letters text)) ∧
    (¬ (123 ∉ text ∧ 3 * (letters text).length / 4 < out.length) →
      base64Decode text out = none) := by
  rw [← bytes_length]
  by_cases empty : out = []
  · subst empty
    exact ⟨fun fits => absurd fits.2 (Nat.not_lt_zero _), fun _ => rfl⟩
  have room : 0 < out.length := List.length_pos_iff.mpr empty
  have started : base64Decode text out =
      (decodeLoop text .a 0 (out.set 0 0)).map fun reached => (reached.2.1, reached.2.2) := by
    rw [base64Decode, decodeBlock, store_some room]
    change (decodeLoop text .a 0 (out.set 0 0)).bind _ = _
    cases decodeLoop text .a 0 (out.set 0 0) <;> rfl
  have size : (out.set 0 0).length = out.length := List.length_set
  rw [started]
  by_cases brace : 123 ∈ text
  · rw [decode_brace brace]
    exact ⟨fun fits => absurd brace fits.1, fun _ => rfl⟩
  · obtain ⟨kept, lost⟩ := letters_decoded (letters text) (fun _ => letters_bound) 0 (out.set 0 0)
    rw [Nat.zero_add, size] at kept lost
    rw [decode_letters brace]
    constructor
    · rintro ⟨-, fits⟩
      obtain ⟨state, after, ran, afterSize, front⟩ := kept fits
      rw [ran]
      exact ⟨after, rfl, afterSize, front⟩
    · intro past
      rw [lost fun fits => past ⟨brace, fits⟩]
      rfl

end Decoding

section Encoding
variable {entry : EncodeState} {out : Bytes} {outPos : Nat}

theorem encode_value {value : Nat} (small : value < 64) : encodeValue value = character value := by
  have table : ∀ value < 64, encodeValue value = character value := by decide +kernel
  exact table value small

theorem fragment_masks (fragment : UInt8) :
    (fragment.toNat &&& 0xfc) >>> 2 = fragment.toNat / 4 ∧
    (fragment.toNat &&& 0x03) <<< 4 = fragment.toNat % 4 * 16 ∧
    (fragment.toNat &&& 0xf0) >>> 4 = fragment.toNat / 16 ∧
    (fragment.toNat &&& 0x0f) <<< 2 = fragment.toNat % 16 * 4 ∧
    (fragment.toNat &&& 0xc0) >>> 6 = fragment.toNat / 64 ∧
    fragment.toNat &&& 0x3f = fragment.toNat % 64 := by
  have table : ∀ value < 256, (value &&& 0xfc) >>> 2 = value / 4 ∧
      (value &&& 0x03) <<< 4 = value % 4 * 16 ∧ (value &&& 0xf0) >>> 4 = value / 16 ∧
      (value &&& 0x0f) <<< 2 = value % 16 * 4 ∧ (value &&& 0xc0) >>> 6 = value / 64 ∧
      value &&& 0x3f = value % 64 := by decide +kernel
  exact table fragment.toNat fragment.toNat_lt

theorem or_joins {width low : Nat} (high : Nat) (small : low < 2 ^ width) :
    high * 2 ^ width ||| low = high * 2 ^ width + low := by
  rw [← Nat.shiftLeft_eq, Nat.shiftLeft_add_eq_or_of_lt small]

theorem step_a (fragment : UInt8) (rest : Bytes) (result stepcount : Nat)
    (room : outPos < out.length) :
    encodeBlock entry (fragment :: rest) ⟨.a, result, stepcount⟩ outPos out =
      encodeBlock entry rest ⟨.b, fragment.toNat % 4 * 16, stepcount⟩ (outPos + 1)
        (out.set outPos (character (fragment.toNat / 4))) := by
  have bound := fragment.toNat_lt
  obtain ⟨high, low, -, -, -, -⟩ := fragment_masks fragment
  simp only [encodeBlock]
  rw [if_neg (Nat.not_le.mpr room), high, low, encode_value (by omega), store_some room]
  rfl

theorem step_b (held fragment : UInt8) (rest : Bytes) (stepcount : Nat)
    (room : outPos < out.length) :
    encodeBlock entry (fragment :: rest) ⟨.b, held.toNat % 4 * 16, stepcount⟩ outPos out =
      encodeBlock entry rest ⟨.c, fragment.toNat % 16 * 4, stepcount⟩ (outPos + 1)
        (out.set outPos (character (held.toNat % 4 * 16 + fragment.toNat / 16))) := by
  have bound := fragment.toNat_lt
  obtain ⟨-, -, high, low, -, -⟩ := fragment_masks fragment
  have joined : held.toNat % 4 * 16 ||| fragment.toNat / 16 =
      held.toNat % 4 * 16 + fragment.toNat / 16 := @or_joins 4 _ _ (by omega)
  simp only [encodeBlock]
  rw [if_neg (Nat.not_le.mpr room), high, low, joined, encode_value (by omega), store_some room]
  rfl

theorem step_c (held fragment : UInt8) (rest : Bytes) (stepcount : Nat)
    (room : outPos + 2 < out.length) :
    encodeBlock entry (fragment :: rest) ⟨.c, held.toNat % 16 * 4, stepcount⟩ outPos out =
      let memory := (out.set outPos (character (held.toNat % 16 * 4 + fragment.toNat / 64))).set
        (outPos + 1) (character (fragment.toNat % 64))
      if (stepcount + 1) * 4 = charsPerLine then
        encodeBlock entry rest ⟨.a, fragment.toNat % 64, 0⟩ (outPos + 3) (memory.set (outPos + 2) 10)
      else encodeBlock entry rest ⟨.a, fragment.toNat % 64, stepcount + 1⟩ (outPos + 2) memory := by
  have bound := fragment.toNat_lt
  obtain ⟨-, -, -, -, high, low⟩ := fragment_masks fragment
  have joined : held.toNat % 16 * 4 ||| fragment.toNat / 64 =
      held.toNat % 16 * 4 + fragment.toNat / 64 := @or_joins 2 _ _ (by omega)
  let first := out.set outPos (character (held.toNat % 16 * 4 + fragment.toNat / 64))
  have firstSize : first.length = out.length := List.length_set
  let second := first.set (outPos + 1) (character (fragment.toNat % 64))
  have secondSize : second.length = out.length := List.length_set.trans firstSize
  simp only [encodeBlock]
  rw [if_neg (Nat.not_le.mpr room), high, low, joined, encode_value (by omega),
    encode_value (by omega), store_some (by omega), Option.bind_eq_bind, Option.bind_some]
  change (store first (outPos + 1) (character (fragment.toNat % 64))).bind _ = _
  rw [store_some (by omega), Option.bind_some]
  by_cases full : (stepcount + 1) * 4 = charsPerLine
  · have inside : outPos + 2 < second.length := secondSize ▸ room
    rw [if_pos full, if_pos full]
    change (if outPos + 2 ≥ second.length then _ else _) = _
    rw [if_neg (Nat.not_le.mpr inside), store_some inside]
    rfl
  · rw [if_neg full, if_neg full]

theorem terminate_some (room : outPos < out.length) :
    terminate outPos out = some (outPos, out.set outPos 0) := by
  rw [terminate, if_neg (Nat.not_le.mpr room), store_some room]
  rfl

def place : Bytes → Nat → Bytes → Bytes
  | out, _, [] => out
  | out, outPos, byte :: rest => place (out.set outPos byte) (outPos + 1) rest

theorem place_length (out : Bytes) (outPos : Nat) (text : Bytes) :
    (place out outPos text).length = out.length := by
  induction text generalizing out outPos with
  | nil => rfl
  | cons byte rest ih => rw [place, ih, List.length_set]

theorem place_front (out : Bytes) (outPos : Nat) (text : Bytes)
    (fits : outPos + text.length ≤ out.length) :
    (place out outPos text).take (outPos + text.length) = out.take outPos ++ text := by
  induction text generalizing out outPos with
  | nil => exact (List.append_nil _).symm
  | cons byte rest ih =>
      rw [List.length_cons] at fits
      have front := ih (out.set outPos byte) (outPos + 1) (by rw [List.length_set]; omega)
      rw [take_stored (by omega), List.append_assoc, List.singleton_append] at front
      rw [place, List.length_cons, ← front]
      congr 1
      omega

/-- A text behind a place of the memory, with its zero. -/
structure Written (out : Bytes) (outPos : Nat) (text after : Bytes) : Prop where
  size : after.length = out.length
  front : after.take (outPos + text.length) = out.take outPos ++ text
  zero : after[outPos + text.length]? = some 0

theorem placed_written (text : Bytes) (room : outPos + text.length < out.length) :
    Written out outPos text ((place out outPos text).set (outPos + text.length) 0) where
  size := List.length_set.trans (place_length out outPos text)
  front := by rw [List.take_set_of_le (Nat.le_refl _), place_front _ _ _ (Nat.le_of_lt room)]
  zero := List.getElem?_set_self (by rwa [place_length])

theorem Written.behind {front text after : Bytes} (fits : outPos + front.length ≤ out.length)
    (written : Written (place out outPos front) (outPos + front.length) text after) :
    Written out outPos (front ++ text) after where
  size := written.size.trans (place_length out outPos front)
  front := by
    rw [List.length_append, ← Nat.add_assoc, written.front, place_front _ _ _ fits,
      List.append_assoc]
  zero := by
    rw [List.length_append, ← Nat.add_assoc]
    exact written.zero

theorem group_encoded (a b c : UInt8) (rest : Bytes) (result groups : Nat)
    (room : outPos + 4 < out.length) :
    let front := [character (a.toNat / 4), character (a.toNat % 4 * 16 + b.toNat / 16),
      character (b.toNat % 16 * 4 + c.toNat / 64), character (c.toNat % 64)]
    encodeBlock entry (a :: b :: c :: rest) ⟨.a, result, groups⟩ outPos out =
      if (groups + 1) * 4 = charsPerLine then
        encodeBlock entry rest ⟨.a, c.toNat % 64, 0⟩ (outPos + 5) (place out outPos (front ++ [10]))
      else
        encodeBlock entry rest ⟨.a, c.toNat % 64, groups + 1⟩ (outPos + 4)
          (place out outPos front) := by
  rw [step_a _ _ _ _ (by omega), step_b _ _ _ _ (by rw [List.length_set]; omega),
    step_c _ _ _ _ (by rw [List.length_set, List.length_set]; omega)]
  rfl

theorem blockend_b (value groups : Nat) (small : value < 64) (room : outPos + 3 < out.length) :
    encodeBlockend ⟨.b, value, groups⟩ outPos out =
      some (outPos + 3, (place out outPos [character value, 61, 61]).set (outPos + 3) 0) := by
  have size := place_length out outPos [character value, 61, 61]
  simp only [encodeBlockend]
  rw [if_neg (by omega), encode_value small, store_some (by omega), Option.bind_eq_bind,
    Option.bind_some, store_some (by rw [List.length_set]; omega), Option.bind_some,
    store_some (by rw [List.length_set, List.length_set]; omega)]
  exact terminate_some (size ▸ room)

theorem blockend_c (value groups : Nat) (small : value < 64) (room : outPos + 2 < out.length) :
    encodeBlockend ⟨.c, value, groups⟩ outPos out =
      some (outPos + 2, (place out outPos [character value, 61]).set (outPos + 2) 0) := by
  have size := place_length out outPos [character value, 61]
  simp only [encodeBlockend]
  rw [if_neg (by omega), encode_value small, store_some (by omega), Option.bind_eq_bind,
    Option.bind_some, store_some (by rw [List.length_set]; omega)]
  exact terminate_some (size ▸ room)

def Encodes (entry state : EncodeState) (bin : Bytes) (outPos : Nat) (out text : Bytes) : Prop :=
  ∃ left reached memory after,
    encodeBlock entry bin state outPos out = some (left, reached, memory) ∧
    encodeBlockend left reached memory = some (outPos + text.length, after) ∧
    Written out outPos text after

theorem Encodes.behind {state next : EncodeState} {bin rest front text : Bytes}
    (turned : encodeBlock entry bin state outPos out =
      encodeBlock entry rest next (outPos + front.length) (place out outPos front))
    (fits : outPos + front.length ≤ out.length)
    (encodes : Encodes entry next rest (outPos + front.length) (place out outPos front) text) :
    Encodes entry state bin outPos out (front ++ text) := by
  obtain ⟨left, reached, memory, after, block, ended, written⟩ := encodes
  refine ⟨left, reached, memory, after, turned.trans block, ?_, written.behind fits⟩
  rw [ended, List.length_append, Nat.add_assoc]

theorem text_encoded (groups result : Nat) (bin : Bytes) (outPos : Nat) (out : Bytes)
    (room : outPos + (textOf groups bin).length < out.length) :
    Encodes entry ⟨.a, result, groups⟩ bin outPos out (textOf groups bin) := by
  -- on groups of three bytes; a line ends behind every eighteenth group
  induction groups, bin using textOf.induct generalizing result outPos out with
  | case1 groups a b c rest newLine sameLine =>
      let group := [character (a.toNat / 4), character (a.toNat % 4 * 16 + b.toNat / 16),
        character (b.toNat % 16 * 4 + c.toNat / 64), character (c.toNat % 64)]
      by_cases full : (groups + 1) * 4 = charsPerLine
      · have shape : textOf groups (a :: b :: c :: rest) = (group ++ [10]) ++ textOf 0 rest := by
          rw [textOf, if_pos full]
          rfl
        have five : (group ++ [10]).length = 5 := rfl
        rw [shape, List.length_append, five] at room
        have turned := @group_encoded entry out outPos a b c rest result groups (by omega)
        simp only [if_pos full] at turned
        rw [shape]
        apply Encodes.behind turned (by omega)
        apply newLine
        rw [place_length, five]
        omega
      · have shape : textOf groups (a :: b :: c :: rest) = group ++ textOf (groups + 1) rest := by
          rw [textOf, if_neg full]
          rfl
        have four : group.length = 4 := rfl
        rw [shape, List.length_append, four] at room
        have turned := @group_encoded entry out outPos a b c rest result groups (by omega)
        simp only [if_neg full] at turned
        rw [shape]
        apply Encodes.behind turned (by omega)
        apply sameLine
        rw [place_length, four]
        omega
  | case2 groups a b =>
      have bound := b.toNat_lt
      have four : outPos + 4 < out.length := room
      rw [Encodes, step_a _ _ _ _ (by omega), step_b _ _ _ _ (by rw [List.length_set]; omega)]
      refine ⟨_, _, _, _, rfl, ?_, placed_written _ room⟩
      exact blockend_c _ _ (by omega) (by rw [List.length_set, List.length_set]; omega)
  | case3 groups a =>
      have bound := a.toNat_lt
      have four : outPos + 4 < out.length := room
      rw [Encodes, step_a _ _ _ _ (by omega)]
      refine ⟨_, _, _, _, rfl, ?_, placed_written _ room⟩
      exact blockend_b _ _ (by omega) (by rw [List.length_set]; omega)
  | case4 groups => exact ⟨_, _, _, _, rfl, terminate_some room, placed_written [] room⟩

/-- The call returns a place inside a memory of its size. -/
def Inside {β : Type} (limit : Nat) (place : β → Nat × Bytes) (outcome : Option β) : Prop :=
  ∃ reached, outcome = some reached ∧ (place reached).1 ≤ limit ∧ (place reached).2.length = limit

theorem Inside.stop {β : Type} {place : β → Nat × Bytes} {reached : β} {limit : Nat}
    (inside : (place reached).1 ≤ limit) (size : (place reached).2.length = limit) :
    Inside limit place (some reached) := ⟨reached, rfl, inside, size⟩

theorem Inside.stored {β : Type} {place : β → Nat × Bytes} {next : Bytes → Option β} {byte : UInt8}
    {limit : Nat} (room : outPos < limit) (size : out.length = limit)
    (later : ∀ memory, memory.length = limit → Inside limit place (next memory)) :
    Inside limit place ((store out outPos byte).bind next) := by
  rw [store_some (size ▸ room), Option.bind_some]
  exact later _ (List.length_set.trans size)

theorem block_inside (bin : Bytes) (state : EncodeState) (limit outPos : Nat) (out : Bytes)
    (inside : outPos ≤ limit) (size : out.length = limit) :
    Inside limit (·.2) (encodeBlock entry bin state outPos out) := by
  induction bin generalizing state outPos out with
  | nil => exact .stop inside size
  | cons fragment rest ih =>
      obtain ⟨step, result, groups⟩ := state
      cases step with
      | a | b =>
          simp only [encodeBlock]
          by_cases full : outPos ≥ out.length
          · rw [if_pos full]
            exact .stop inside size
          · rw [if_neg full]
            exact .stored (by omega) size fun memory kept => ih _ _ memory (by omega) kept
      | c =>
          simp only [encodeBlock]
          by_cases full : outPos + 2 ≥ out.length
          · rw [if_pos full]
            exact .stop inside size
          · rw [if_neg full]
            refine .stored (by omega) size fun first firstKept => ?_
            refine .stored (by omega) firstKept fun second secondKept => ?_
            by_cases line : (groups + 1) * 4 = charsPerLine
            · rw [if_pos line, if_neg (by omega)]
              exact .stored (by omega) secondKept fun third kept => ih _ _ third (by omega) kept
            · rw [if_neg line]
              exact ih _ _ second (by omega) secondKept

theorem terminate_inside (limit : Nat) (inside : outPos ≤ limit) (size : out.length = limit) :
    Inside limit id (terminate outPos out) := by
  rw [terminate]
  by_cases full : outPos ≥ out.length
  · rw [if_pos full]
    exact .stop inside size
  · rw [if_neg full]
    exact .stored (by omega) size fun memory kept => .stop inside kept

theorem blockend_inside (state : EncodeState) (limit : Nat) (inside : outPos ≤ limit)
    (size : out.length = limit) : Inside limit id (encodeBlockend state outPos out) := by
  obtain ⟨step, result, groups⟩ := state
  cases step with
  | a => exact terminate_inside limit inside size
  | b =>
      simp only [encodeBlockend]
      by_cases full : outPos + 2 ≥ out.length
      · rw [if_pos full]
        exact .stop inside size
      · rw [if_neg full]
        exact .stored (by omega) size fun _ first => .stored (by omega) first fun _ second =>
          .stored (by omega) second fun _ third => terminate_inside limit (by omega) third
  | c =>
      simp only [encodeBlockend]
      by_cases full : outPos + 1 ≥ out.length
      · rw [if_pos full]
        exact .stop inside size
      · rw [if_neg full]
        exact .stored (by omega) size fun _ first => .stored (by omega) first fun _ second =>
          terminate_inside limit (by omega) second

end Encoding

theorem character_plain {value : Nat} (small : value < 64) : character value ≠ 123 := by
  have table : ∀ value < 64, character value ≠ 123 := by decide +kernel
  exact table value small

theorem letters_character {value : Nat} (small : value < 64) (text : Bytes) :
    letters (character value :: text) = value :: letters text := letters_keep (letter_character small)

theorem group_bytes (a b c : UInt8) (rest : List Nat) :
    bytesOf (a.toNat / 4 :: (a.toNat % 4 * 16 + b.toNat / 16) :: (b.toNat % 16 * 4 + c.toNat / 64) ::
      c.toNat % 64 :: rest) = a :: b :: c :: bytesOf rest := by
  have boundA := a.toNat_lt
  have boundB := b.toNat_lt
  have boundC := c.toNat_lt
  have first : a.toNat / 4 * 4 + (a.toNat % 4 * 16 + b.toNat / 16) / 16 = a.toNat := by omega
  have second : (a.toNat % 4 * 16 + b.toNat / 16) % 16 * 16 + (b.toNat % 16 * 4 + c.toNat / 64) / 4 =
      b.toNat := by omega
  have third : (b.toNat % 16 * 4 + c.toNat / 64) % 4 * 64 + c.toNat % 64 = c.toNat := by omega
  rw [bytesOf, first, second, third, UInt8.ofNat_toNat, UInt8.ofNat_toNat, UInt8.ofNat_toNat]

theorem letters_text (groups : Nat) (bin : Bytes) : bytesOf (letters (textOf groups bin)) = bin := by
  induction groups, bin using textOf.induct with
  | case1 groups a b c rest newLine sameLine =>
      have boundA := a.toNat_lt
      have boundB := b.toNat_lt
      have boundC := c.toNat_lt
      rw [textOf, letters_character (by omega), letters_character (by omega),
        letters_character (by omega), letters_character (by omega), group_bytes]
      by_cases full : (groups + 1) * 4 = charsPerLine
      · rw [if_pos full, letters_skip letter_newline, newLine]
      · rw [if_neg full, sameLine]
  | case2 groups a b =>
      have boundA := a.toNat_lt
      have boundB := b.toNat_lt
      have first : a.toNat / 4 * 4 + (a.toNat % 4 * 16 + b.toNat / 16) / 16 = a.toNat := by omega
      have second : (a.toNat % 4 * 16 + b.toNat / 16) % 16 * 16 + b.toNat % 16 * 4 / 4 =
          b.toNat := by omega
      rw [textOf, letters_character (by omega), letters_character (by omega),
        letters_character (by omega), letters_skip letter_padding]
      change bytesOf [_, _, _] = _
      rw [bytesOf, first, second, UInt8.ofNat_toNat, UInt8.ofNat_toNat]
  | case3 groups a =>
      have boundA := a.toNat_lt
      have first : a.toNat / 4 * 4 + a.toNat % 4 * 16 / 16 = a.toNat := by omega
      rw [textOf, letters_character (by omega), letters_character (by omega),
        letters_skip letter_padding, letters_skip letter_padding]
      change bytesOf [_, _] = _
      rw [bytesOf, first, UInt8.ofNat_toNat]
  | case4 groups => rfl

theorem text_plain (groups : Nat) (bin : Bytes) : 123 ∉ textOf groups bin := by
  induction groups, bin using textOf.induct with
  | case1 groups a b c rest newLine sameLine =>
      have boundA := a.toNat_lt
      have boundB := b.toNat_lt
      have boundC := c.toNat_lt
      rw [textOf]
      simp only [List.mem_cons, not_or]
      refine ⟨(character_plain (by omega)).symm, (character_plain (by omega)).symm,
        (character_plain (by omega)).symm, (character_plain (by omega)).symm, ?_⟩
      by_cases full : (groups + 1) * 4 = charsPerLine
      · rw [if_pos full]
        exact List.not_mem_cons_of_ne_of_not_mem (by decide) newLine
      · rw [if_neg full]
        exact sameLine
  | case2 groups a b =>
      have boundA := a.toNat_lt
      have boundB := b.toNat_lt
      simp only [textOf, List.mem_cons, List.not_mem_nil, or_false, not_or]
      exact ⟨(character_plain (by omega)).symm, (character_plain (by omega)).symm,
        (character_plain (by omega)).symm, by decide⟩
  | case3 groups a =>
      have boundA := a.toNat_lt
      simp only [textOf, List.mem_cons, List.not_mem_nil, or_false, not_or]
      exact ⟨(character_plain (by omega)).symm, (character_plain (by omega)).symm, by decide,
        by decide⟩
  | case4 groups => exact List.not_mem_nil

theorem text_length (groups : Nat) (bin : Bytes) (line : groups < 18) :
    (textOf groups bin).length = (bin.length + 2) / 3 * 4 + (groups + bin.length / 3) / 18 := by
  induction groups, bin using textOf.induct with
  | case1 groups a b c rest newLine sameLine =>
      rw [textOf]
      by_cases full : (groups + 1) * 4 = charsPerLine
      · have eighteen : groups + 1 = 18 := by
          rw [charsPerLine] at full
          omega
        rw [if_pos full]
        simp only [List.length_cons, newLine (by decide)]
        omega
      · have further : groups + 1 < 18 := by
          rw [charsPerLine] at full
          omega
        rw [if_neg full]
        simp only [List.length_cons, sameLine further]
        omega
  | case2 groups a b => 
      simp only [textOf, List.length_cons, List.length_nil]
      omega
  | case3 groups a =>
      simp only [textOf, List.length_cons, List.length_nil]
      omega
  | case4 groups =>
      simp only [textOf, List.length_nil]
      omega

theorem bufsize_fits {bin : Bytes} {size : Nat} (sized : base64Bufsize bin.length = some size) :
    (textOf 0 bin).length < size := by
  rw [base64Bufsize] at sized
  split_ifs at sized
  have exact := Option.some.inj sized
  rw [text_length 0 bin (by decide), ← exact, charsPerLine]
  omega

/-- The encoder stays in its output and returns what it has written there: all of the text, and
a zero behind it, if there is room for both. -/
theorem encode_text (bin out : Bytes) :
    ∃ count after, base64Encode bin out = some (count, after) ∧ count ≤ out.length ∧
      after.length = out.length ∧
      ((textOf 0 bin).length < out.length → count = (textOf 0 bin).length ∧
        after.take count = textOf 0 bin ∧ after[count]? = some 0) := by
  by_cases room : (textOf 0 bin).length < out.length
  · obtain ⟨left, reached, memory, after, block, ended, written⟩ :=
      @text_encoded encodeStateInit 0 0 bin 0 out (by omega)
    have front := written.front
    have zero := written.zero
    rw [Nat.zero_add] at ended front zero
    refine ⟨_, after, ?_, Nat.le_of_lt room, written.size, fun _ => ⟨rfl, front, zero⟩⟩
    have called : encodeBlock encodeStateInit bin encodeStateInit 0 out =
      some (left, reached, memory) := block
    rw [base64Encode, called]
    exact ended
  · obtain ⟨⟨left, reached, memory⟩, block, within, size⟩ :=
      @block_inside encodeStateInit bin encodeStateInit out.length 0 out (Nat.zero_le _) rfl
    obtain ⟨⟨count, after⟩, ended, inside, kept⟩ := blockend_inside left out.length within size
    refine ⟨count, after, ?_, inside, kept, fun fits => absurd fits room⟩
    rw [base64Encode, block]
    exact ended

/-- With an output as large as `base64_bufsize` asks for, what was encoded is decoded again, in
any memory with room for one byte more. -/
theorem decode_encoded {bin out back : Bytes} {size : Nat}
    (sized : base64Bufsize bin.length = some size) (room : size ≤ out.length)
    (space : bin.length < back.length) :
    ∃ count written after, base64Encode bin out = some (count, written) ∧
      base64Decode (written.take count) back = some (bin.length, after) ∧
      after.take bin.length = bin := by
  obtain ⟨count, written, encoded, -, -, whole⟩ := encode_text bin out
  obtain ⟨-, text, -⟩ := whole (Nat.lt_of_lt_of_le (bufsize_fits sized) room)
  have same := letters_text 0 bin
  have length : 3 * (letters (textOf 0 bin)).length / 4 = bin.length := by
    rw [← bytes_length, same]
  obtain ⟨after, decoded, -, front⟩ := (decode_text (textOf 0 bin) back).1
    ⟨text_plain 0 bin, length ▸ space⟩
  rw [length] at decoded front
  exact ⟨count, written, after, encoded, text ▸ decoded, front.trans same⟩

theorem four_bytes_decoded : ∃ count written after,
    base64Encode [1, 2, 3, 255] (List.replicate 10 0) = some (count, written) ∧
      base64Decode (written.take count) (List.replicate 5 0) = some (4, after) ∧
      after.take 4 = [1, 2, 3, 255] :=
  @decode_encoded _ _ _ 10 (by decide) (by decide) (by decide)

end Base64
end Cpp2tnt
