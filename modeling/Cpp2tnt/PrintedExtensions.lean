import Mathlib.Data.List.TakeWhile
import Cpp2tnt.ReadBounds

/-!
Extension values through their printed text. `mp_snprint` follows `snprintf`: it
reports the length of the whole text and writes what fits, with a terminator. A
string takes the text from a buffer of its own previous size, an integer from 64
bytes by `from_chars`.
-/

namespace Cpp2tnt
open Imperative MessagePack

/-- What `snprintf` writes into a buffer of this `int` size. -/
def written (word : Nat) (text : Bytes) : Bytes :=
  if word = 0 ∨ 2 ^ 31 ≤ word then [] else text.take (word - 1) ++ [0]

/-- The item is printed as this text, or the print fails. The length of a text with its
terminator is an `int`. -/
def Prints (mp : Msgpuck) (data : Bytes) (flags : Nat) : Option Bytes → Prop
  | some text => (0 : UInt8) ∉ text ∧ text.length + 1 < 2 ^ 31 ∧
      ∀ word, mp.mpSnprint word data flags = ((text.length : Int), written word text)
  | none => ∀ word, -2 ^ 31 ≤ (mp.mpSnprint word data flags).1 ∧
      (mp.mpSnprint word data flags).1 < 0

section Strings
variable {text prior : Bytes}

theorem resize_length (size : Nat) (value : Bytes) : (resizeString size value).length = size := by
  rw [resizeString, List.length_append, List.length_take, List.length_replicate]
  omega

theorem cut_string {size : Nat} {value : Bytes} (within : size ≤ value.length) :
    resizeString size value = value.take size := by
  rw [resizeString, Nat.sub_eq_zero_of_le within, List.replicate_zero, List.append_nil]

theorem printed_over_length {front value : Bytes} (within : front.length ≤ value.length) :
    (printedOver front value).length = value.length := by
  rw [printedOver, List.length_append, List.length_drop]
  omega

theorem resize_printed (tail value : Bytes) :
    resizeString text.length (printedOver (text ++ tail) value) = text := by
  rw [cut_string, printedOver, List.append_assoc, List.take_left]
  rw [printedOver, List.append_assoc, List.length_append]
  exact Nat.le_add_right _ _

theorem written_length_le (word : Nat) : (written word text).length ≤ word := by
  unfold written
  split
  · exact Nat.zero_le _
  · next fits =>
      rw [List.length_append, List.length_take, List.length_singleton]
      omega

theorem written_all {word : Nat} (fits : text.length < word) (int : word < 2 ^ 31) :
    written word text = text ++ [0] := by
  rw [written, if_neg (by omega), List.take_of_length_le (by omega)]

def firstBuffer (prior : Bytes) : Bytes :=
  if prior.length < 128 then resizeString 128 prior else prior

theorem first_buffer_length : (firstBuffer prior).length = max 128 prior.length := by
  unfold firstBuffer
  split
  · rw [resize_length]
    omega
  · omega

/-- What the destination's size has to be for the text: below the text's length, so that
the second print has room, or above it. A size that is no `int` prints nothing. -/
def Accommodates (prior text : Bytes) : Prop :=
  let size := max 128 prior.length
  let word := intArgument size
  size < text.length ∨
    if word = 0 ∨ 2 ^ 31 ≤ word then prior.take text.length = text else text.length < word

theorem accommodates_int (small : prior.length < 2 ^ 31) :
    Accommodates prior text ↔ text.length ≠ max 128 prior.length := by
  have word : intArgument (max 128 prior.length) = max 128 prior.length :=
    Nat.mod_eq_of_lt (by omega)
  simp only [Accommodates, word]
  rw [if_neg (by omega)]
  omega

theorem cut_text_differs (plain : (0 : UInt8) ∉ text) {word : Nat} (pos : 0 < word)
    (within : word ≤ text.length) (back : Bytes) :
    (text.take (word - 1) ++ [0] ++ back).take text.length ≠ text := by
  intro same
  have before : (text.take (word - 1)).length = word - 1 := by
    rw [List.length_take]
    omega
  have zero : (text.take (word - 1) ++ [0] ++ back)[word - 1]? = some 0 := by
    rw [List.append_assoc, List.getElem?_append_right (Nat.le_of_eq before), before, Nat.sub_self]
    rfl
  have here : text[word - 1]? = some 0 := by
    rw [← same, List.getElem?_take_of_lt (by omega)]
    exact zero
  exact plain (List.mem_of_getElem? here)

theorem print_into_run (print : Nat → Int × Bytes) : printInto print prior =
    let size := (firstBuffer prior).length
    let value := printedOver (print size).2 (firstBuffer prior)
    let length := ((print size).1 % 2 ^ 64).toNat
    if value.length < length then
      let size := (length + 1) % 2 ^ 64
      (((print size).1 % 2 ^ 64).toNat, printedOver (print size).2 (resizeString size value))
    else (length, value) := rfl

theorem prints_unique {mp : Msgpuck} {data other : Bytes} {flags : Nat}
    (one : Prints mp data flags (some text)) (two : Prints mp data flags (some other)) :
    text = other := by
  obtain ⟨_, int, print⟩ := one
  obtain ⟨_, _, again⟩ := two
  have same := (print (text.length + 1)).symm.trans (again (text.length + 1))
  obtain ⟨lengths, texts⟩ := Prod.mk.inj same
  have long : other.length < text.length + 1 := by omega
  rw [written_all (Nat.lt_succ_self _) int, written_all long int] at texts
  exact List.append_cancel_right texts

def printedOnce (prior text : Bytes) : Bytes :=
  printedOver (written (intArgument (max 128 prior.length)) text) (firstBuffer prior)

theorem printed_once_length : (printedOnce prior text).length = max 128 prior.length := by
  rw [printedOnce, printed_over_length, first_buffer_length]
  rw [first_buffer_length]
  exact Nat.le_trans (written_length_le _) (Nat.mod_le _ _)

theorem print_text (int : text.length + 1 < 2 ^ 31) :
    printInto (fun size => ((text.length : Int), written (intArgument size) text)) prior =
      (text.length, if max 128 prior.length < text.length then
          printedOver (text ++ [0]) (resizeString (text.length + 1) (printedOnce prior text))
        else printedOnce prior text) := by
  have length : ((text.length : Int) % 2 ^ 64).toNat = text.length := by omega
  have again : (text.length + 1) % 2 ^ 64 = text.length + 1 := by omega
  have word : intArgument (text.length + 1) = text.length + 1 := Nat.mod_eq_of_lt (by omega)
  have once := @printed_once_length text prior
  rw [printedOnce] at once
  rw [print_into_run]
  simp only [first_buffer_length, length, once, again, word, printedOnce,
    written_all (Nat.lt_succ_self _) int]
  split <;> rfl

theorem print_failed {print : Nat → Int × Bytes}
    (fails : ∀ size, -2 ^ 31 ≤ (print size).1 ∧ (print size).1 < 0) :
    2 ^ 63 ≤ (printInto print prior).1 := by
  have huge : ∀ size, 2 ^ 63 ≤ ((print size).1 % 2 ^ 64).toNat := by
    intro size
    obtain ⟨low, negative⟩ := fails size
    omega
  rw [print_into_run]
  dsimp only
  split
  · exact huge _
  · exact huge _

def cutPrinted (prior text : Bytes) : Bytes :=
  resizeString text.length (if max 128 prior.length < text.length then
    printedOver (text ++ [0]) (resizeString (text.length + 1) (printedOnce prior text))
  else printedOnce prior text)

theorem cut_printed_once (once : ¬ max 128 prior.length < text.length) :
    cutPrinted prior text = (printedOnce prior text).take text.length := by
  have size := @printed_once_length text prior
  rw [cutPrinted, if_neg once, cut_string (by omega)]

theorem cut_printed_iff (plain : (0 : UInt8) ∉ text) :
    cutPrinted prior text = text ↔ Accommodates prior text := by
  by_cases second : max 128 prior.length < text.length
  · rw [cutPrinted, if_pos second, resize_printed]
    exact iff_of_true rfl (.inl second)
  · rw [cut_printed_once second, printedOnce]
    simp only [Accommodates, second, false_or]
    generalize same : intArgument (max 128 prior.length) = word
    rw [intArgument] at same
    by_cases none : word = 0 ∨ 2 ^ 31 ≤ word
    · have large : ¬ prior.length < 128 := by omega
      rw [if_pos none, written, if_pos none, printedOver, firstBuffer, if_neg large]
      rfl
    · rw [if_neg none]
      by_cases shorter : text.length < word
      · rw [written_all shorter (by omega), printedOver, List.append_assoc, List.take_left]
        exact iff_of_true rfl shorter
      · rw [written, if_neg none, printedOver]
        exact iff_of_false (cut_text_differs plain (by omega) (by omega) _) shorter

end Strings

/-- The destination is the printed text, the same that `to_string` gives; what cannot be
printed is an `mp_reader_error`. -/
def DeliversText (mp : Msgpuck) (mem prior : Bytes) (reader after : MpReader) :
    Option Bytes → Prop
  | some text => readString mp mem prior reader = .returned text after ∧
      toString mp mem unquoteUuid reader = .returned text after
  | none => ∃ what left, readString mp mem prior reader = .thrown (mpReaderError what) left

section Delivery
variable {mp : Msgpuck} {mem bytes rest : Bytes} {reader : MpReader} {type : UInt8} {data : Bytes}

theorem ext_first (implements : Implements mp) (encodes : Encodes (.ext type data) bytes)
    (stands : Stands mem reader bytes rest) :
    ∃ byte, mp.mpTypeof byte = .ext ∧
      ∀ state : MpReader, Cpp2tnt.deref mem reader.currentPos state = .returned byte state := by
  obtain ⟨head, front, body, rfl, headed, holds⟩ := encodes.apart
  obtain ⟨byte, same, read⟩ := typeof_first implements headed stands
  refine ⟨byte, ?_, read⟩
  rw [same]
  cases head <;> simp_all [Head.Holds, Head.plain, headType]

theorem prints_at (reads : ReadsItems mp) {value : Value} (encodes : Encodes value bytes)
    (stands : Stands mem reader bytes rest) {flags : Nat} {printed : Option Bytes}
    (prints : Prints mp bytes flags printed) :
    Prints mp (bytesAt mem reader.currentPos) flags printed := by
  have item : ∀ word, mp.mpSnprint word (bytesAt mem reader.currentPos) flags =
      mp.mpSnprint word bytes flags := by
    intro word
    rw [stands.bytes_at, reads.snprint _ _ rest word flags encodes]
  cases printed <;> simpa only [Prints, item] using prints

theorem item_printed (implements : Implements mp) (reads : ReadsItems mp) {value : Value}
    (encodes : Encodes value bytes) (stands : Stands mem reader bytes rest) {flags : Nat}
    {text : Bytes} (prints : Prints mp bytes flags (some text)) :
    toString mp mem flags reader = .returned text (reader.advance bytes.length) := by
  obtain ⟨plain, int, print⟩ := prints_at reads encodes stands prints
  rw [toString, Cxx.bind_get, Cxx.bind_returned (skip_returned implements encodes stands)]
  simp only [print]
  by_cases long : (text.length : Int) ≥ 256
  · have room : ((text.length : Int)).toNat + 1 = text.length + 1 := by omega
    rw [if_pos long]
    simp only [room, written_all (Nat.lt_succ_self _) int]
    rw [if_neg (by omega)]
    simp
  · rw [if_neg long]
    simp only [written_all (show text.length < 256 by omega) (by decide)]
    rw [if_neg (by omega)]
    simp

theorem read_string_printed (prior : Bytes) {byte : UInt8}
    (known : reader.currentPos.isNone = false)
    (read : deref mem reader.currentPos reader = .returned byte reader)
    (ext : mp.mpTypeof byte = .ext) {text : Bytes}
    (prints : Prints mp (bytesAt mem reader.currentPos) unquoteUuid (some text)) :
    readString mp mem prior reader = (do
      skip mp mem
      return cutPrinted prior text) reader := by
  obtain ⟨plain, int, print⟩ := prints
  rw [read_string_ext mem prior byte known read ext]
  simp only [print, print_text int]
  rw [if_neg (by omega)]
  rfl

theorem read_string_unprinted (prior : Bytes) {byte : UInt8}
    (known : reader.currentPos.isNone = false)
    (read : deref mem reader.currentPos reader = .returned byte reader)
    (ext : mp.mpTypeof byte = .ext)
    (fails : Prints mp (bytesAt mem reader.currentPos) unquoteUuid none) :
    readString mp mem prior reader =
      .thrown ⟨.lengthError, "basic_string::_M_replace_aux"⟩ reader := by
  rw [read_string_ext mem prior byte known read ext]
  dsimp only
  rw [if_pos (print_failed fun size => fails (intArgument size))]
  rfl

theorem read_string_text (implements : Implements mp) (reads : ReadsItems mp)
    (encodes : Encodes (.ext type data) bytes) (stands : Stands mem reader bytes rest) (prior : Bytes)
    {text : Bytes} (prints : Prints mp bytes unquoteUuid (some text)) :
    readString mp mem prior reader =
      .returned (cutPrinted prior text) (reader.advance bytes.length) := by
  obtain ⟨byte, ext, read⟩ := ext_first implements encodes stands
  rw [read_string_printed prior stands.current_some (read reader) ext
      (prints_at reads encodes stands prints),
    Cxx.bind_returned (skip_returned implements encodes stands)]
  rfl

theorem read_string_failed (implements : Implements mp) (reads : ReadsItems mp)
    (encodes : Encodes (.ext type data) bytes) (stands : Stands mem reader bytes rest) (prior : Bytes)
    (fails : Prints mp bytes unquoteUuid none) : readString mp mem prior reader =
      .thrown ⟨.lengthError, "basic_string::_M_replace_aux"⟩ reader := by
  obtain ⟨byte, ext, read⟩ := ext_first implements encodes stands
  exact read_string_unprinted prior stands.current_some (read reader) ext
    (prints_at reads encodes stands fails)

/-- The string is the text exactly if there is one and the destination's size is not in
its way. -/
theorem ext_string_iff (implements : Implements mp) (reads : ReadsItems mp)
    (encodes : Encodes (.ext type data) bytes) (stands : Stands mem reader bytes rest) (prior : Bytes)
    {printed : Option Bytes} (prints : Prints mp bytes unquoteUuid printed) :
    DeliversText mp mem prior reader (reader.advance bytes.length) printed ↔
      ∃ text, printed = some text ∧ Accommodates prior text := by
  cases printed with
  | none =>
      refine iff_of_false ?_ nofun
      rintro ⟨what, left, thrown⟩
      cases thrown.symm.trans (read_string_failed implements reads encodes stands prior prints)
  | some text =>
      simp only [Option.some.injEq, exists_eq_left', ← cut_printed_iff prints.1, DeliversText,
        item_printed implements reads encodes stands prints, and_true,
        read_string_text implements reads encodes stands prior prints, Outcome.returned.injEq]

end Delivery

def printer (text : Bytes) : Msgpuck :=
  { reference with mpSnprint := fun word _ _ => ((text.length : Int), written word text) }

theorem printer_implements (text : Bytes) : Implements (printer text) :=
  { reference_implements with }

theorem printer_reads (text : Bytes) : ReadsItems (printer text) :=
  { reference_reads_items with snprint := fun _ _ _ _ _ _ => rfl }

theorem printer_prints {text : Bytes} (plain : (0 : UInt8) ∉ text) (int : text.length + 1 < 2 ^ 31)
    (data : Bytes) (flags : Nat) : Prints (printer text) data flags (some text) :=
  ⟨plain, int, fun _ => rfl⟩

theorem byte_extension : Encodes (.ext 5 [7]) ([0xd4, 5] ++ [7]) ∧
    Stands [0xd4, 5, 7] (MpReader.plain 0 3) ([0xd4, 5] ++ [7]) [] := by
  have headed : HeadEncodes (.ext 5 [(7 : UInt8)].length) [0xd4, 5] := fun _ => rfl
  exact ⟨encodes_ext headed, stands_between rfl (Nat.le_refl 3)⟩

theorem ext_string_short :
    DeliversText (printer [0x61]) [0xd4, 5, 7] [] (MpReader.plain 0 3)
        ((MpReader.plain 0 3).advance 3) (some [0x61]) ↔
      ∃ text, some [(0x61 : UInt8)] = some text ∧ Accommodates [] text :=
  ext_string_iff (printer_implements _) (printer_reads _) byte_extension.1 byte_extension.2 []
    (printer_prints (by decide) (by decide) _ _)

def longText : Bytes := List.replicate 128 0x61

/-- A text of 128 characters, read into an empty string: its last character is lost. -/
theorem last_character_lost : Prints (printer longText) [0xd4, 5, 7] unquoteUuid (some longText) ∧
    ¬ DeliversText (printer longText) [0xd4, 5, 7] [] (MpReader.plain 0 3)
      ((MpReader.plain 0 3).advance 3) (some longText) := by
  have length : longText.length = 128 := List.length_replicate
  have plain : (0 : UInt8) ∉ longText := by
    rw [longText, List.mem_replicate]
    decide
  have prints := printer_prints plain (by rw [length]; decide) [0xd4, 5, 7] unquoteUuid
  refine ⟨prints, ?_⟩
  rintro ⟨same, _⟩
  rw [read_string_text (printer_implements _) (printer_reads _) byte_extension.1 byte_extension.2 []
    prints, Outcome.returned.injEq] at same
  have room := (cut_printed_iff plain).mp same.1
  rw [accommodates_int (by decide), length] at room
  exact room rfl

def digitsValue : Bytes → Nat
  | [] => 0
  | digit :: rest => (digit.toNat - 0x30) * 10 ^ rest.length + digitsValue rest

/-- The integer a text denotes as a whole: at least one digit, a minus sign before them. -/
def numeral (text : Bytes) : Option Int :=
  let negative := text.head? == some 0x2d
  let digits := if negative then text.drop 1 else text
  let number : Int := digitsValue digits
  if digits ≠ [] ∧ digits.all isDigit then some (if negative then -number else number) else none

/-- The read throws or gives the integer the whole text denotes, and what is parsed are
the printed characters, no more. -/
def ReadsDenoted (mp : Msgpuck) (mem : Bytes) (type : IntType) (reader : MpReader) (bytes : Bytes)
    (printed : Option Bytes) : Prop :=
  readIntegral mp mem type reader ≠ .undefined ∧
    (∀ value after, readIntegral mp mem type reader = .returned value after →
      printed.bind numeral = some value.1) ∧
    ∃ text, printed = some text ∧ extText mp bytes reader = .returned text reader

/-- The text fits the buffer, and it is a numeral as a whole or `from_chars` finds none. -/
def WholeNumeral (type : IntType) (text : Bytes) : Prop :=
  text.length < 64 ∧ ((numeral text).isSome ∨ ∀ value, fromChars type text ≠ .parsed value)

section Integers
variable {type : IntType} {text : Bytes}

theorem digits_fold (digits : Bytes) (front : Nat) :
    digits.foldl (fun number char => number * 10 + (char.toNat - 0x30)) front =
      front * 10 ^ digits.length + digitsValue digits := by
  induction digits generalizing front with
  | nil => simp [digitsValue]
  | cons digit rest ih =>
      rw [List.foldl_cons, ih, digitsValue, List.length_cons, pow_succ]
      ring

theorem fitting_value {number : Int} {value : type.Val}
    (parsed : (if fits : type.min ≤ number ∧ number ≤ type.max then FromChars.parsed ⟨number, fits⟩
      else .resultOutOfRange) = .parsed value) : value.1 = number := by
  split at parsed
  · cases parsed
    rfl
  · cases parsed

theorem from_chars_parsed {value : type.Val} (parsed : fromChars type text = .parsed value) :
    let negative := type.signed && text.head? == some 0x2d
    let digits := (if negative then text.drop 1 else text).takeWhile isDigit
    digits ≠ [] ∧ value.1 = if negative then -(digitsValue digits : Int) else digitsValue digits := by
  simp only [fromChars, digits_fold, Nat.zero_mul, Nat.zero_add] at parsed
  dsimp only
  generalize (type.signed && text.head? == some 0x2d) = negative at parsed ⊢
  generalize (if negative = true then text.drop 1 else text).takeWhile isDigit = digits at parsed ⊢
  by_cases none : digits.isEmpty = true
  · rw [if_pos none] at parsed
    cases parsed
  · rw [if_neg none] at parsed
    exact ⟨by simpa using none, fitting_value parsed⟩

/-- `from_chars` on a text that is a numeral as a whole. -/
theorem from_chars_numeral {value : type.Val} {number : Int} (denotes : numeral text = some number)
    (parsed : fromChars type text = .parsed value) : number = value.1 := by
  obtain ⟨digits, same⟩ := from_chars_parsed parsed
  rw [numeral, Option.ite_none_right_eq_some] at denotes
  obtain ⟨⟨_, all⟩, denotes⟩ := denotes
  have whole := List.takeWhile_eq_self_iff.mpr (List.all_eq_true.mp all)
  by_cases minus : text.head? == some 0x2d
  · simp only [minus, if_true, Bool.and_true] at denotes whole digits same
    cases signed : type.signed with
    | true =>
        simp only [signed, if_true, whole] at same
        rw [same]
        exact (Option.some.inj denotes).symm
    | false =>
        -- an unsigned type does not take the sign, so there is no digit
        simp only [signed, Bool.false_eq_true, if_false] at digits
        cases text with
        | nil => exact absurd rfl digits
        | cons first tail =>
            rw [List.head?_cons, beq_iff_eq, Option.some.injEq] at minus
            subst minus
            exact absurd rfl digits
  · simp only [minus, Bool.and_false, Bool.false_eq_true, if_false] at denotes whole digits same
    rw [same, whole]
    exact (Option.some.inj denotes).symm

variable {mp : Msgpuck} {mem bytes rest data : Bytes} {reader : MpReader} {code : UInt8}

theorem read_integral_ext (implements : Implements mp) (reads : ReadsItems mp)
    (encodes : Encodes (.ext code data) bytes) (stands : Stands mem reader bytes rest) :
    readIntegral mp mem type reader = extViaString mp type bytes (reader.advance bytes.length) := by
  obtain ⟨byte, ext, read⟩ := ext_first implements encodes stands
  rw [readIntegral, Cxx.bind_get, Cxx.bind_returned (skip_returned implements encodes stands)]
  dsimp only
  rw [Cxx.bind_returned (read _), ext, stands.bytes_at, extViaString, extViaString, extText,
    extText, reads.snprint _ _ rest 64 0 encodes]

/-- An extension is read faithfully exactly if its text fits the buffer and is a numeral
as a whole, or nothing that `from_chars` takes. -/
theorem ext_integer_iff (implements : Implements mp) (reads : ReadsItems mp)
    (encodes : Encodes (.ext code data) bytes) (stands : Stands mem reader bytes rest)
    (type : IntType) {printed : Option Bytes} (prints : Prints mp bytes 0 printed) :
    ReadsDenoted mp mem type reader bytes printed ↔
      ∃ text, printed = some text ∧ WholeNumeral type text := by
  rw [ReadsDenoted, read_integral_ext implements reads encodes stands]
  cases printed with
  | none =>
      refine iff_of_false ?_ (by simp)
      rintro ⟨_, _, text, impossible, _⟩
      cases impossible
  | some text =>
      obtain ⟨plain, _, print⟩ := prints
      have size : (written 64 text).length = min 63 text.length + 1 := by
        rw [written, if_neg (by decide), List.length_append, List.length_take]
        rfl
      simp only [Option.some.injEq, exists_eq_left', Option.bind_some, WholeNumeral]
      -- a text that fits is handed to `from_chars` as it is
      by_cases fits : text.length < 64
      · have inside : ¬ ((text.length : Int) < 0 ∨ ((written 64 text).length : Int) < text.length) := by
          rw [size]
          omega
        have handed : ∀ state, extText mp bytes state = .returned text state := by
          intro state
          rw [extText, print]
          simp only [if_neg inside, Int.toNat_natCast]
          rw [written_all fits (by decide), List.take_left]
          rfl
        rw [extViaString, Cxx.bind_returned (handed _)]
        cases parsed : fromChars type text with
        | parsed value =>
            constructor
            · rintro ⟨_, exact_, _⟩
              exact ⟨fits, .inl (by rw [exact_ value _ rfl]; rfl)⟩
            · rintro ⟨_, whole | nothing⟩
              · obtain ⟨number, denotes⟩ := Option.isSome_iff_exists.mp whole
                refine ⟨by simp, ?_, handed _⟩
                rintro _ _ ⟨⟩
                rw [denotes, from_chars_numeral denotes parsed]
              · exact absurd rfl (nothing value)
        | invalidArgument =>
            exact iff_of_true ⟨by simp, by simp, handed _⟩ ⟨fits, .inr (by simp)⟩
        | resultOutOfRange =>
            exact iff_of_true ⟨by simp, by simp, handed _⟩ ⟨fits, .inr (by simp)⟩
      · -- of a longer text the terminator is parsed, too, or what is behind the buffer
        refine iff_of_false ?_ fun holds => fits holds.1
        rintro ⟨_, _, handed⟩
        rw [extText, print] at handed
        simp only at handed
        split at handed
        · cases handed
        · simp only [Int.toNat_natCast] at handed
          injection handed with cut
          have cutLength := congrArg List.length cut
          rw [List.length_take, size] at cutLength
          rw [List.take_of_length_le (by rw [size]; omega), written, if_neg (by decide)] at cut
          apply plain
          rw [← cut]
          exact List.mem_append_right _ List.mem_cons_self

end Integers

/-- `12.5`, a decimal with one digit behind the point. -/
def decimalText : Bytes := [0x31, 0x32, 0x2e, 0x35]

theorem decimal_item : Encodes (.ext 1 [1, 0x12, 0x5c]) ([0xc7, 3, 1] ++ [1, 0x12, 0x5c]) ∧
    Stands [0xc7, 3, 1, 1, 0x12, 0x5c] (MpReader.plain 0 6) ([0xc7, 3, 1] ++ [1, 0x12, 0x5c]) [] := by
  have headed : HeadEncodes (.ext 1 [(1 : UInt8), 0x12, 0x5c].length) [0xc7, 3, 1] := fun _ => rfl
  exact ⟨encodes_ext headed, stands_between rfl (Nat.le_refl 6)⟩

theorem ext_integer_decimal :
    ReadsDenoted (printer [0x31, 0x32]) [0xc7, 3, 1, 1, 0x12, 0x5c] .int32 (MpReader.plain 0 6)
        ([0xc7, 3, 1] ++ [1, 0x12, 0x5c]) (some [0x31, 0x32]) ↔
      ∃ text, some [(0x31 : UInt8), 0x32] = some text ∧ WholeNumeral .int32 text :=
  ext_integer_iff (printer_implements _) (printer_reads _) decimal_item.1 decimal_item.2 .int32
    (printer_prints (by decide) (by decide) _ _)

/-- The integer part of a fraction is read as if it were the number. -/
theorem fraction_is_cut :
    Prints (printer decimalText) ([0xc7, 3, 1] ++ [1, 0x12, 0x5c]) 0 (some decimalText) ∧
      numeral decimalText = none ∧
      (∃ value after, readIntegral (printer decimalText) [0xc7, 3, 1, 1, 0x12, 0x5c] .int32
        (MpReader.plain 0 6) = .returned value after ∧ value.1 = 12) ∧
      ¬ ReadsDenoted (printer decimalText) [0xc7, 3, 1, 1, 0x12, 0x5c] .int32 (MpReader.plain 0 6)
        ([0xc7, 3, 1] ++ [1, 0x12, 0x5c]) (some decimalText) := by
  have read : readIntegral (printer decimalText) [0xc7, 3, 1, 1, 0x12, 0x5c] .int32
      (MpReader.plain 0 6) = .returned ⟨12, by decide⟩ ((MpReader.plain 0 6).advance 6) := by
    rw [read_integral_ext (printer_implements _) (printer_reads _) decimal_item.1 decimal_item.2]
    rfl
  refine ⟨printer_prints (by decide) (by decide) _ _, by decide, ⟨_, _, read, rfl⟩, ?_⟩
  rintro ⟨_, exact_, _⟩
  exact absurd (exact_ _ _ read) (by decide)

end Cpp2tnt
