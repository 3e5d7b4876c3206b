import Cpp2tnt.MessageDigest
import Cpp2tnt.Base64RoundTrip
import Cpp2tnt.IprotoWriter

/-!
The answer to the challenge of a greeting, with the vendored SHA-1 and base64 in
the places of the parameters of `encode_auth_request`. The two sides of the
exchange know the hash of the hash of the password; from the answer the server
gets the hash itself.
-/

namespace Cpp2tnt
open MessagePack Sha1 Base64

namespace Challenge

/-- The memory of a context behind `SHA1Final`. -/
def wiped : Bytes := List.replicate 64 0

/-- `scramble_prepare`; `buffer` is what the context holds before. -/
def scramblePrepare (buffer salt password : Bytes) : Option Bytes := do
  let context ← sha1Update password (UInt32.ofNat password.length) (sha1Init buffer)
  let hash1 ← sha1Final context
  let context ← sha1Update hash1 20 (sha1Init wiped)
  let hash2 ← sha1Final context
  let context ← sha1Update salt 20 (sha1Init wiped)
  let context ← sha1Update hash2 20 context
  let hash2 ← sha1Final context
  return (List.range scrambleSize).map fun index => hash1.getD index 0 ^^^ hash2.getD index 0

/-- The part of `encode_auth_request` that answers the greeting; `salt` is its uninitialized
array. -/
def answer (buffer salt greeting password : Bytes) : Option Bytes := do
  let b64Salt := (greeting.drop versionSize).take (scrambleSize + saltSize)
  let (_, salt) ← base64Decode (b64Salt.take saltSize) salt
  scramblePrepare buffer salt password

/-- The parameters of `encode_auth_request`, where the decoder stays in its memory. -/
def vendored (memory : Bytes) : Crypto where
  sha1 := digest
  base64Decode text size := ((base64Decode text (memory.take size)).map (·.2)).getD memory

theorem digest_length (message : Bytes) : (digest message).length = 20 := by
  simp [digest, Words.bytes]

theorem front_hashed {message : Bytes} {context : Sha1Ctx} (holds : Holds message context)
    (short : message.length ≤ 20) {data : Bytes} {len : UInt32} {count : Nat}
    (same : len.toNat = count) (present : count ≤ data.length)
    (small : message.length + count < 2 ^ 32) :
    ∃ after, sha1Update data len context = some after ∧
      sha1Final after = some (digest (message ++ data.take count)) ∧
      Holds (message ++ data.take count) after := by
  subst same
  obtain ⟨after, updated, reached⟩ := update_holds holds present (by omega)
  exact ⟨after, updated, final_digest reached, reached⟩

theorem scramble_computed (memory : Bytes) {buffer salt : Bytes} (room : buffer.length = 64)
    (long : scrambleSize ≤ salt.length) (password : Bytes) :
    scramblePrepare buffer salt password =
      some (Cpp2tnt.scramblePrepare (vendored memory) salt password) := by
  have nothing : ([] : Bytes).length ≤ 20 := Nat.zero_le _
  have taken : (salt.take 20).length = 20 := List.length_take_of_le long
  have whole (message : Bytes) : 20 ≤ (digest message).length :=
    Nat.le_of_eq (digest_length message).symm
  obtain ⟨first, firstRan, hash1, -⟩ := @front_hashed _ _ (init_holds room) nothing password
    (UInt32.ofNat password.length) _ UInt32.toNat_ofNat' (Nat.mod_le _ _)
    (by rw [List.length_nil, Nat.zero_add]; exact Nat.mod_lt _ (by decide))
  change sha1Final first = some (digest (narrow password)) at hash1
  obtain ⟨second, secondRan, hash2, -⟩ := @front_hashed _ _ (@init_holds wiped rfl) nothing
    (digest (narrow password)) 20 20 rfl (whole _) (by decide)
  change sha1Final second = some (digest ((digest (narrow password)).take scrambleSize)) at hash2
  obtain ⟨third, thirdRan, -, salted⟩ := @front_hashed _ _ (@init_holds wiped rfl) nothing salt 20 20
    rfl long (by decide)
  obtain ⟨fourth, fourthRan, answered, -⟩ := @front_hashed _ _ salted
    (Nat.le_of_eq taken) (digest ((digest (narrow password)).take scrambleSize)) 20 20 rfl (whole _)
    (by rw [List.nil_append, taken]; decide)
  rw [scramblePrepare]
  simp only [Option.bind_eq_bind]
  rw [firstRan, Option.bind_some, hash1, Option.bind_some, secondRan, Option.bind_some, hash2,
    Option.bind_some, thirdRan, Option.bind_some, fourthRan, Option.bind_some, answered]
  rfl

/-- The answer is in the memory it may read exactly if the salt of the greeting holds no byte
that the decoder looks up behind its table. -/
theorem answer_defined {buffer salt : Bytes} (room : buffer.length = 64) (array : salt.length = 64)
    (greeting password : Bytes) :
    let text := (greeting.drop versionSize).take saltSize
    answer buffer salt greeting password =
      if 123 ∈ text then none
      else some (Cpp2tnt.scramblePrepare (vendored salt) ((vendored salt).base64Decode text 64) password) := by
  intro text
  have view : ((greeting.drop versionSize).take (scrambleSize + saltSize)).take saltSize = text := by
    rw [List.take_take]
    rfl
  have short : (letters text).length ≤ saltSize :=
    Nat.le_trans (List.length_filterMap_le _ _) (List.length_take_le _ _)
  rw [saltSize] at short
  obtain ⟨kept, lost⟩ := decode_text text salt
  rw [answer]
  simp only [view]
  by_cases brace : 123 ∈ text
  · rw [if_pos brace, lost fun fits => fits.1 brace]
    rfl
  · obtain ⟨after, decoded, size, -⟩ := kept ⟨brace, by omega⟩
    have whole : salt.take 64 = salt := List.take_of_length_le (Nat.le_of_eq array)
    have found : (vendored salt).base64Decode text 64 = after := by
      simp only [vendored, whole, decoded]
      rfl
    rw [if_neg brace, decoded, found]
    exact scramble_computed salt room (by rw [size, array]; decide) password

example :
    answer (List.replicate 64 7) (List.replicate 64 9) (List.replicate 128 123) [] = none :=
  (answer_defined rfl rfl _ _).trans (if_pos (by decide))

def masked (left right : Bytes) : Bytes :=
  (List.range scrambleSize).map fun index => left.getD index 0 ^^^ right.getD index 0

theorem masked_back {left right : Bytes} (size : left.length = scrambleSize) :
    masked (masked left right) right = left := by
  have length (first second : Bytes) : (masked first second).length = scrambleSize := by
    rw [masked, List.length_map, List.length_range]
  apply List.ext_getElem
  · rw [length, size]
  · intro index inside there
    have held : index < (masked left right).length := by
      rw [length, ← size]
      exact there
    have byte : (masked left right).getD index 0 = left.getD index 0 ^^^ right.getD index 0 := by
      rw [← List.getElem_eq_getD (h := held)]
      simp only [masked, List.getElem_map, List.getElem_range]
    have cancelled : (left.getD index 0 ^^^ right.getD index 0) ^^^ right.getD index 0 =
        left.getD index 0 := by rw [UInt8.xor_assoc, UInt8.xor_self, UInt8.xor_zero]
    simp only [masked, List.getElem_map, List.getElem_range]
    exact (congrArg (· ^^^ _) byte).trans (cancelled.trans (List.getElem_eq_getD _).symm)

theorem scramble_masked (memory salt password : Bytes) :
    Cpp2tnt.scramblePrepare (vendored memory) salt password =
      masked (digest (narrow password))
        (digest (salt.take scrambleSize ++ digest (digest (narrow password)))) := by
  have whole (message : Bytes) : (digest message).take scrambleSize = digest message :=
    List.take_of_length_le (Nat.le_of_eq (digest_length message))
  simp only [Cpp2tnt.scramblePrepare, vendored, whole]
  rfl

/-- A server that sent 32 bytes of salt and knows the hash of the hash of the password gets the
hash itself from the answer. -/
theorem challenge_recovered {buffer memory greeting salt : Bytes} (room : buffer.length = 64)
    (array : memory.length = 64) (size : salt.length = 32)
    (carried : (greeting.drop versionSize).take saltSize = textOf 0 salt) (password : Bytes) :
    ∃ scramble, answer buffer memory greeting password = some scramble ∧
      masked scramble (digest (salt.take scrambleSize ++ digest (digest (narrow password)))) =
        digest (narrow password) := by
  have answered := answer_defined room array greeting password
  simp only [carried, if_neg (text_plain 0 salt)] at answered
  have same := letters_text 0 salt
  have length : 3 * (letters (textOf 0 salt)).length / 4 = 32 := by rw [← bytes_length, same, size]
  obtain ⟨after, decoded, -, front⟩ := (decode_text (textOf 0 salt) memory).1
    ⟨text_plain 0 salt, by rw [length, array]; decide⟩
  rw [length, same] at front
  have whole : memory.take 64 = memory := List.take_of_length_le (Nat.le_of_eq array)
  have found : (vendored memory).base64Decode (textOf 0 salt) 64 = after := by
    simp only [vendored, whole, decoded]
    rfl
  have used : after.take scrambleSize = salt.take scrambleSize := by
    rw [← front, List.take_take]
    rfl
  refine ⟨_, answered, ?_⟩
  rw [found, scramble_masked, used]
  exact masked_back (digest_length _)

theorem zero_salt_recovered : ∃ scramble,
    answer wiped wiped (List.replicate 64 32 ++ textOf 0 (List.replicate 32 0)) [115] = some scramble ∧
      masked scramble (digest (List.replicate 20 0 ++ digest (digest [115]))) = digest [115] :=
  @challenge_recovered _ _ _ (List.replicate 32 0) rfl rfl rfl (by decide) [115]

end Challenge
end Cpp2tnt
