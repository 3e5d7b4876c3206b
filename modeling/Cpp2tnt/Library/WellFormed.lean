import Cpp2tnt.Library.MessagePack

/-!
Well-formed items taken apart. Every reader of the format looks at the front of
its input only, so what it has accepted it accepts before any other bytes. An
item is a head and what the head announces, and these are items again.
-/

namespace MessagePack

def ReadsFront {α : Type} (read : Bytes → Option (α × Bytes)) : Prop :=
  ∀ input value rest, read input = some (value, rest) →
    ∃ front, input = front ++ rest ∧ ∀ other, read (front ++ other) = some (value, other)

theorem take_word_front (width : Nat) : ReadsFront (takeWord width) := by
  intro input number rest done
  rw [takeWord] at done
  split at done
  case isFalse => cases done
  case isTrue enough =>
    cases done
    have size : (input.take width).length = width := List.length_take_of_le enough
    refine ⟨input.take width, (List.take_append_drop width input).symm, fun other => ?_⟩
    have within : width ≤ (input.take width ++ other).length := by
      rw [List.length_append, size]
      exact Nat.le_add_right _ _
    rw [takeWord, if_pos within, List.take_left' size, List.drop_left' size]

theorem word_head_front (make : Nat → Head) (width : Nat) : ReadsFront (wordHead make width) := by
  intro input head rest done
  rw [wordHead, Option.map_eq_some_iff] at done
  obtain ⟨⟨number, tail⟩, word, same⟩ := done
  cases same
  obtain ⟨front, split, again⟩ := take_word_front width input number tail word
  exact ⟨front, split, fun other => by rw [wordHead, again]; rfl⟩

theorem ext_head_front (length : Nat) : ReadsFront (extHead length) := by
  intro input head rest done
  cases input with
  | nil => cases done
  | cons type tail =>
      cases done
      exact ⟨[type], rfl, fun _ => rfl⟩

theorem long_ext_head_front (width : Nat) : ReadsFront (longExtHead width) := by
  intro input head rest done
  rw [longExtHead, Option.bind_eq_some_iff] at done
  obtain ⟨⟨length, tail⟩, word, typed⟩ := done
  obtain ⟨front, split, again⟩ := take_word_front width input length tail word
  obtain ⟨type, typeSplit, typeAgain⟩ := ext_head_front length tail head rest typed
  refine ⟨front ++ type, by rw [split, typeSplit, List.append_assoc], fun other => ?_⟩
  rw [longExtHead, List.append_assoc, again]
  exact typeAgain other

theorem tagged_head_front (tag : Nat) : ReadsFront (taggedHead tag) := by
  intro input head rest done
  unfold taggedHead at done ⊢
  split at done
  all_goals first
    | exact word_head_front _ _ input head rest done
    | exact ext_head_front _ input head rest done
    | exact long_ext_head_front _ input head rest done
    | (cases done <;> exact ⟨[], rfl, fun _ => rfl⟩)

theorem decode_head_front : ReadsFront decodeHead := by
  intro input head rest done
  cases input with
  | nil => cases done
  | cons byte tail =>
      simp only [decodeHead] at done
      split_ifs at done with fix map array str negative
      case neg =>
        obtain ⟨front, split, again⟩ := tagged_head_front byte.toNat tail head rest done
        refine ⟨byte :: front, by rw [split, List.cons_append], fun other => ?_⟩
        simp only [List.cons_append, decodeHead]
        rw [if_neg fix, if_neg map, if_neg array, if_neg str, if_neg negative]
        exact again other
      -- a head of one byte
      all_goals
        cases done
        refine ⟨[byte], rfl, fun other => ?_⟩
        simp only [List.cons_append, List.nil_append, decodeHead]
        simp [*]

theorem decode_head_encodes {input rest : Bytes} {head : Head}
    (done : decodeHead input = some (head, rest)) :
    ∃ front, input = front ++ rest ∧ HeadEncodes head front :=
  decode_head_front input head rest done

/-! A head holds no more than the words of its encodings. -/

def Head.Bounded : Head → Prop
  | .uint number => number < 2 ^ 64
  | .int number => -2 ^ 63 ≤ number ∧ number < 2 ^ 63
  | .float bits => bits < 2 ^ 32
  | .double bits => bits < 2 ^ 64
  | .str length | .bin length | .ext _ length => length < 2 ^ 32
  | .array count | .map count => count < 2 ^ 32
  | .nil | .bool _ => True

theorem of_big_endian_lt (word : Bytes) : ofBigEndian word < 256 ^ word.length := by
  induction word using List.reverseRecOn with
  | nil => exact Nat.one_pos
  | append_singleton front byte ih =>
      have small := byte.toNat_lt
      simp only [ofBigEndian] at ih
      simp only [ofBigEndian, List.foldl_append, List.foldl_cons, List.foldl_nil,
        List.length_append, List.length_singleton, Nat.pow_succ]
      omega

theorem take_word_lt {width word : Nat} {input rest : Bytes}
    (done : takeWord width input = some (word, rest)) : word < 256 ^ width := by
  rw [takeWord] at done
  split at done
  case isFalse => cases done
  case isTrue enough =>
    cases done
    have bounded := of_big_endian_lt (input.take width)
    rwa [List.length_take_of_le enough] at bounded

theorem word_head_bounded {make : Nat → Head} {width : Nat} {input rest : Bytes} {head : Head}
    (fits : ∀ word < 256 ^ width, (make word).Bounded)
    (done : wordHead make width input = some (head, rest)) : head.Bounded := by
  simp only [wordHead, Option.map_eq_some_iff, Prod.mk.injEq] at done
  obtain ⟨⟨word, tail⟩, taken, rfl, _⟩ := done
  exact fits word (take_word_lt taken)

theorem ext_head_bounded {length : Nat} {input rest : Bytes} {head : Head}
    (fits : length < 2 ^ 32) (done : extHead length input = some (head, rest)) : head.Bounded := by
  cases input with
  | nil => cases done
  | cons type tail =>
      cases done
      exact fits

theorem long_ext_head_bounded {width : Nat} {input rest : Bytes} {head : Head}
    (fits : 256 ^ width ≤ 2 ^ 32) (done : longExtHead width input = some (head, rest)) :
    head.Bounded := by
  simp only [longExtHead, Option.bind_eq_some_iff] at done
  obtain ⟨⟨word, tail⟩, taken, done⟩ := done
  exact ext_head_bounded (Nat.lt_of_lt_of_le (take_word_lt taken) fits) done

theorem signed_bounded {width word : Nat} (wide : width = 1 ∨ width = 2 ∨ width = 4 ∨ width = 8)
    (bounded : word < 256 ^ width) : (Head.int (signed width word)).Bounded := by
  rcases wide with rfl | rfl | rfl | rfl <;> simp only [Head.Bounded, signed] <;> split <;>
    norm_num at * <;> omega

theorem tagged_head_bounded {tag : Nat} {input rest : Bytes} {head : Head}
    (done : taggedHead tag input = some (head, rest)) : head.Bounded := by
  unfold taggedHead at done
  split at done
  all_goals first
    | (cases done <;> trivial)
    | exact ext_head_bounded (by decide) done
    | exact long_ext_head_bounded (by decide) done
    | exact word_head_bounded (fun word bounded => signed_bounded (by decide) bounded) done
    | exact word_head_bounded (fun word bounded => Nat.lt_of_lt_of_le bounded (by decide)) done

theorem decode_head_bounded {input rest : Bytes} {head : Head}
    (done : decodeHead input = some (head, rest)) : head.Bounded := by
  cases input with
  | nil => cases done
  | cons byte tail =>
      have small := byte.toNat_lt
      simp only [decodeHead] at done
      split_ifs at done with fix map array str negative
      case neg => exact tagged_head_bounded done
      all_goals
        cases done
        simp only [Head.Bounded]
        omega

theorem HeadEncodes.bounded {head : Head} {bytes : Bytes} (encodes : HeadEncodes head bytes) :
    head.Bounded := decode_head_bounded (encodes [])

def Head.Holds : Head → Value → Bytes → Prop
  | .str length, value, body => body.length = length ∧ value = .str body
  | .bin length, value, body => body.length = length ∧ value = .bin body
  | .array count, value, body =>
      ∃ items, items.length = count ∧ EncodesAll items body ∧ value = .array items
  | .map count, value, body =>
      ∃ items, items.length = 2 * count ∧ EncodesAll items body ∧ value = .map (pairUp items)
  | .ext type length, value, body => body.length = length ∧ value = .ext type body
  | head, value, body => body = [] ∧ head.plain = some value

theorem encodes_bin {data bytes : Bytes} (encodes : HeadEncodes (.bin data.length) bytes) :
    Encodes (.bin data) (bytes ++ data) := by
  intro rest
  rw [decode, decodeFuel, List.append_assoc, encodes (data ++ rest)]
  simp

theorem encodes_ext {type : UInt8} {data bytes : Bytes}
    (encodes : HeadEncodes (.ext type data.length) bytes) :
    Encodes (.ext type data) (bytes ++ data) := by
  intro rest
  rw [decode, decodeFuel, List.append_assoc, encodes (data ++ rest)]
  simp

theorem Head.Holds.encodes {head : Head} {value : Value} {front body : Bytes}
    (encodes : HeadEncodes head front) (holds : head.Holds value body) :
    Encodes value (front ++ body) := by
  cases head with
  | str length =>
      obtain ⟨rfl, rfl⟩ := holds
      exact encodes_str encodes
  | bin length =>
      obtain ⟨rfl, rfl⟩ := holds
      exact encodes_bin encodes
  | array count =>
      obtain ⟨items, rfl, inner, rfl⟩ := holds
      exact encodes_array encodes inner
  | map count =>
      obtain ⟨items, paired, inner, rfl⟩ := holds
      exact encodes_map encodes paired inner
  | ext type length =>
      obtain ⟨rfl, rfl⟩ := holds
      exact encodes_ext encodes
  | nil | bool value | uint number | int number | float bits | double bits =>
      obtain ⟨rfl, plain⟩ := holds
      rw [List.append_nil]
      exact encodes_plain encodes plain

theorem take_bytes_sound {count : Nat} {input data rest : Bytes}
    (done : takeBytes count input = some (data, rest)) :
    input = data ++ rest ∧ data.length = count := by
  rw [takeBytes] at done
  split at done
  case isFalse => cases done
  case isTrue enough =>
    cases done
    exact ⟨(List.take_append_drop count input).symm, List.length_take_of_le enough⟩

theorem decode_many_encodes {one : Bytes → Option (Value × Bytes)}
    (each : ∀ input value rest, one input = some (value, rest) →
      ∃ front, input = front ++ rest ∧ Encodes value front)
    (count : Nat) (input : Bytes) (values : List Value) (rest : Bytes)
    (done : decodeMany one count input = some (values, rest)) :
    ∃ front, input = front ++ rest ∧ values.length = count ∧ EncodesAll values front := by
  induction count generalizing input values with
  | zero =>
      cases done
      exact ⟨[], rfl, rfl, rfl⟩
  | succ count ih =>
      simp only [decodeMany, Option.bind_eq_bind, Option.bind_eq_some_iff] at done
      obtain ⟨⟨value, middle⟩, first, ⟨later, last⟩, many, same⟩ := done
      cases same
      obtain ⟨front, split, encodes⟩ := each input value middle first
      obtain ⟨back, splitBack, size, all⟩ := ih middle later many
      refine ⟨front ++ back, by rw [split, splitBack, List.append_assoc], ?_,
        encodes_all_cons encodes all⟩
      rw [List.length_cons, size]

theorem decode_fuel_apart (fuel : Nat) (input : Bytes) (value : Value) (rest : Bytes)
    (done : decodeFuel fuel input = some (value, rest)) :
    ∃ head front body, input = front ++ body ++ rest ∧ HeadEncodes head front ∧
      head.Holds value body := by
  induction fuel generalizing input value rest with
  | zero => cases done
  | succ fuel ih =>
      -- containers decode their items with the smaller fuel, so each item is well formed
      have each : ∀ input value rest, decodeFuel fuel input = some (value, rest) →
          ∃ front, input = front ++ rest ∧ Encodes value front := by
        intro input value rest one
        obtain ⟨head, front, body, split, encodes, holds⟩ := ih input value rest one
        exact ⟨front ++ body, split, holds.encodes encodes⟩
      simp only [decodeFuel, Option.bind_eq_bind, Option.bind_eq_some_iff] at done
      obtain ⟨⟨head, behind⟩, headed, item⟩ := done
      obtain ⟨front, split, encodes⟩ := decode_head_encodes headed
      cases head with
      | str length =>
          simp only [Option.bind_eq_some_iff] at item
          obtain ⟨⟨text, last⟩, taken, same⟩ := item
          cases same
          obtain ⟨body, size⟩ := take_bytes_sound taken
          exact ⟨_, front, text, by rw [split, body, List.append_assoc], encodes, size, rfl⟩
      | bin length =>
          simp only [Option.bind_eq_some_iff] at item
          obtain ⟨⟨data, last⟩, taken, same⟩ := item
          cases same
          obtain ⟨body, size⟩ := take_bytes_sound taken
          exact ⟨_, front, data, by rw [split, body, List.append_assoc], encodes, size, rfl⟩
      | ext type length =>
          simp only [Option.bind_eq_some_iff] at item
          obtain ⟨⟨data, last⟩, taken, same⟩ := item
          cases same
          obtain ⟨body, size⟩ := take_bytes_sound taken
          exact ⟨_, front, data, by rw [split, body, List.append_assoc], encodes, size, rfl⟩
      | array count =>
          simp only [Option.bind_eq_some_iff] at item
          obtain ⟨⟨items, last⟩, many, same⟩ := item
          cases same
          obtain ⟨body, splitBody, size, all⟩ := decode_many_encodes each count behind items _ many
          exact ⟨_, front, body, by rw [split, splitBody, List.append_assoc], encodes, items, size,
            all, rfl⟩
      | map count =>
          simp only [Option.bind_eq_some_iff] at item
          obtain ⟨⟨items, last⟩, many, same⟩ := item
          cases same
          obtain ⟨body, splitBody, size, all⟩ :=
            decode_many_encodes each (2 * count) behind items _ many
          exact ⟨_, front, body, by rw [split, splitBody, List.append_assoc], encodes, items, size,
            all, rfl⟩
      | nil | bool value | uint number | int number | float bits | double bits =>
          cases item
          exact ⟨_, front, [], by rw [split, List.append_nil], encodes, rfl, rfl⟩

theorem Encodes.apart {value : Value} {bytes : Bytes} (encodes : Encodes value bytes) :
    ∃ head front body, bytes = front ++ body ∧ HeadEncodes head front ∧ head.Holds value body := by
  have decoded := encodes []
  rw [List.append_nil] at decoded
  obtain ⟨head, front, body, split, headed, holds⟩ := decode_fuel_apart _ bytes value [] decoded
  exact ⟨head, front, body, by rw [split, List.append_nil], headed, holds⟩

end MessagePack
