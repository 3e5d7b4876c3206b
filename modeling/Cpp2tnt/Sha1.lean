import Mathlib.Data.Fin.VecNotation
import Mathlib.Logic.Function.Basic
import Mathlib.Tactic.IntervalCases
import Cpp2tnt.Library.BlockHash
import Cpp2tnt.Library.MessagePack

/-!
`third_party/sha1.c` and the function it computes. The source keeps the message
schedule in the sixteen words of the block and renames the registers from round
to round; the standard has eighty words and moves the registers. Copies are
checked against the memory they touch. `char` has eight bits and the machine is
little-endian, as the byte swap of `blk0` expects.
-/

namespace Cpp2tnt
open MessagePack

namespace Sha1

def rol (value bits : UInt32) : UInt32 := (value <<< bits) ||| (value >>> (32 - bits))

abbrev Registers := Fin 5 → UInt32
abbrev Block := Fin 16 → UInt32

def littleWord (bytes : Bytes) : UInt32 :=
  bytes.foldr (fun byte word => word <<< 8 ||| byte.toUInt32) 0

/-- `memcpy(block, buffer, 64)`, seen through the words of the union. -/
def loadBlock (buffer : Bytes) : Block := fun index =>
  littleWord ((buffer.drop (4 * index)).take 4)

def slot (index : Nat) : Fin 16 := Fin.ofNat 16 index

/-- The word `blk0(i)` stores and yields. -/
def blk0 (i : Nat) (block : Block) : UInt32 :=
  (rol (block (slot i)) 24 &&& 0xFF00FF00) ||| (rol (block (slot i)) 8 &&& 0x00FF00FF)

def blk (i : Nat) (block : Block) : UInt32 :=
  rol (block (slot (i + 13)) ^^^ block (slot (i + 8)) ^^^ block (slot (i + 2)) ^^^ block (slot i)) 1

structure Work where
  registers : Registers
  block : Block

def round (mix : UInt32 → UInt32 → UInt32 → UInt32) (expand : Nat → Block → UInt32)
    (constant : UInt32) (v w x y z : Fin 5) (i : Nat) (work : Work) : Work :=
  let word := expand i work.block
  let added := Function.update work.registers z (work.registers z +
    (mix (work.registers w) (work.registers x) (work.registers y) + word + constant +
      rol (work.registers v) 5))
  ⟨Function.update added w (rol (added w) 30), Function.update work.block (slot i) word⟩

def r0 := round (fun w x y => (w &&& (x ^^^ y)) ^^^ y) blk0 0x5A827999
def r1 := round (fun w x y => (w &&& (x ^^^ y)) ^^^ y) blk 0x5A827999
def r2 := round (fun w x y => w ^^^ x ^^^ y) blk 0x6ED9EBA1
def r3 := round (fun w x y => ((w ||| x) &&& y) ||| (w &&& x)) blk 0x8F1BBCDC
def r4 := round (fun w x y => w ^^^ x ^^^ y) blk 0xCA62C1D6

/-- The register at a place of the argument list of call `i`. -/
def role (place i : Nat) : Fin 5 := Fin.ofNat 5 (place + 4 * i)

def callRound (i : Nat) : Work → Work :=
  (if i < 16 then r0 else if i < 20 then r1 else if i < 40 then r2 else if i < 60 then r3 else r4)
    (role 0 i) (role 1 i) (role 2 i) (role 3 i) (role 4 i) i

def calls : Nat → Work → Work
  | 0, work => work
  | count + 1, work => callRound count (calls count work)

def sha1Transform (state : Registers) (buffer : Bytes) : Registers := fun register =>
  state register + (calls 80 ⟨state, loadBlock buffer⟩).registers register

structure Sha1Ctx where
  state : Registers
  count0 : UInt32
  count1 : UInt32
  buffer : Bytes

def sha1Init (buffer : Bytes) : Sha1Ctx where
  state := ![0x67452301, 0xEFCDAB89, 0x98BADCFE, 0x10325476, 0xC3D2E1F0]
  count0 := 0
  count1 := 0
  buffer := buffer

def readFrom (data : Bytes) (offset count : Nat) : Option Bytes :=
  if offset + count ≤ data.length then some ((data.drop offset).take count) else none

def copyInto (buffer : Bytes) (offset : Nat) (bytes : Bytes) : Option Bytes :=
  if offset + bytes.length ≤ buffer.length then
    some (buffer.take offset ++ bytes ++ buffer.drop (offset + bytes.length))
  else none

def transformLoop (data : Bytes) (len : UInt32) : Nat → UInt32 → Registers →
    Option (UInt32 × Registers)
  | 0, _, _ => none
  | fuel + 1, i, state =>
      if i + 63 < len then do
        let block ← readFrom data i.toNat 64
        transformLoop data len fuel (i + 64) (sha1Transform state block)
      else some (i, state)

def sha1Update (data : Bytes) (len : UInt32) (context : Sha1Ctx) : Option Sha1Ctx := do
  let count0 := context.count0 + len <<< 3
  let count1 := (if count0 < context.count0 then context.count1 + 1 else context.count1) + len >>> 29
  let j := (context.count0 >>> 3) &&& 63
  if j + len > 63 then
    let front ← readFrom data 0 (64 - j).toNat
    let filled ← copyInto context.buffer j.toNat front
    let (i, state) ← transformLoop data len (len.toNat / 64 + 1) (64 - j)
      (sha1Transform context.state filled)
    let rest ← readFrom data i.toNat (len - i).toNat
    let buffer ← copyInto filled 0 rest
    return ⟨state, count0, count1, buffer⟩
  else
    let rest ← readFrom data 0 len.toNat
    let buffer ← copyInto context.buffer j.toNat rest
    return ⟨context.state, count0, count1, buffer⟩

/-- `while ((context->count[0] & 504) != 448)`: at most 63 rounds. -/
def padLoop : Nat → Sha1Ctx → Option Sha1Ctx
  | 0, _ => none
  | fuel + 1, context =>
      if context.count0 &&& 504 ≠ 448 then do
        let longer ← sha1Update [0] 1 context
        padLoop fuel longer
      else some context

/-- The byte of a word that `>> ((3 - (i & 3)) * 8) & 255` gives. -/
def wordByte (word : UInt32) (i : Nat) : UInt8 :=
  ((word >>> UInt32.ofNat ((3 - i % 4) * 8)) &&& 255).toUInt8

def sha1Final (context : Sha1Ctx) : Option Bytes := do
  let finalcount := (List.range 8).map fun i =>
    wordByte (if i ≥ 4 then context.count0 else context.count1) i
  let marked ← sha1Update [0x80] 1 context
  let padded ← padLoop 64 marked
  let finished ← sha1Update finalcount 8 padded
  return (List.range 20).map fun i => wordByte (finished.state (Fin.ofNat 5 (i / 4))) i

/-- The five words of a hash value, or the working variables of a round. -/
structure Words where
  a : UInt32
  b : UInt32
  c : UInt32
  d : UInt32
  e : UInt32

def Words.add (left right : Words) : Words :=
  ⟨left.a + right.a, left.b + right.b, left.c + right.c, left.d + right.d, left.e + right.e⟩

def initial : Words := ⟨0x67452301, 0xEFCDAB89, 0x98BADCFE, 0x10325476, 0xC3D2E1F0⟩

def bigWord (bytes : Bytes) : UInt32 :=
  bytes.foldl (fun word byte => word <<< 8 ||| byte.toUInt32) 0

def choose (b c d : UInt32) : UInt32 := (b &&& c) ^^^ (~~~b &&& d)
def parity (b c d : UInt32) : UInt32 := b ^^^ c ^^^ d
def majority (b c d : UInt32) : UInt32 := (b &&& c) ^^^ (b &&& d) ^^^ (c &&& d)

def schedule (block : Bytes) (t : Nat) : UInt32 :=
  if t < 16 then bigWord ((block.drop (4 * t)).take 4)
  else rol (schedule block (t - 3) ^^^ schedule block (t - 8) ^^^ schedule block (t - 14) ^^^
    schedule block (t - 16)) 1

def mixAt (t : Nat) : UInt32 → UInt32 → UInt32 → UInt32 :=
  if t < 20 then choose else if t < 40 then parity else if t < 60 then majority else parity

def constantAt (t : Nat) : UInt32 :=
  if t < 20 then 0x5A827999 else if t < 40 then 0x6ED9EBA1 else if t < 60 then 0x8F1BBCDC
  else 0xCA62C1D6

def Words.turn (block : Bytes) (t : Nat) (words : Words) : Words :=
  ⟨rol words.a 5 + mixAt t words.b words.c words.d + words.e + constantAt t + schedule block t,
    words.a, rol words.b 30, words.c, words.d⟩

def turns (block : Bytes) : Nat → Words → Words
  | 0, words => words
  | t + 1, words => (turns block t words).turn block t

def compress (words : Words) (block : Bytes) : Words := words.add (turns block 80 words)

/-- The bit `1`, zeros, and the length in bits in the last eight bytes. -/
def padded (message : Bytes) : Bytes :=
  message ++ 0x80 :: List.replicate ((119 - message.length % 64) % 64) 0 ++
    bigEndian 8 (8 * message.length)

def Words.bytes (words : Words) : Bytes :=
  bigEndian 4 words.a.toNat ++ bigEndian 4 words.b.toNat ++ bigEndian 4 words.c.toNat ++
    bigEndian 4 words.d.toNat ++ bigEndian 4 words.e.toNat

def digest (message : Bytes) : Bytes :=
  (BlockHash.absorb compress 64 initial (padded message)).bytes

theorem bits_ext {left right : UInt32}
    (same : ∀ bit (inside : bit < 32), left.toBitVec[bit] = right.toBitVec[bit]) : left = right := by
  apply UInt32.toBitVec_inj.mp
  ext bit inside
  exact same bit inside

theorem choose_masked (w x y : UInt32) : (w &&& (x ^^^ y)) ^^^ y = choose w x y := by
  apply bits_ext
  intro bit inside
  simp only [choose, UInt32.toBitVec_xor, UInt32.toBitVec_and, UInt32.toBitVec_not,
    BitVec.getElem_xor, BitVec.getElem_and, BitVec.getElem_not]
  cases w.toBitVec[bit] <;> cases x.toBitVec[bit] <;> cases y.toBitVec[bit] <;> rfl

theorem majority_masked (w x y : UInt32) : ((w ||| x) &&& y) ||| (w &&& x) = majority w x y := by
  apply bits_ext
  intro bit inside
  simp only [majority, UInt32.toBitVec_xor, UInt32.toBitVec_and, UInt32.toBitVec_or,
    BitVec.getElem_xor, BitVec.getElem_and, BitVec.getElem_or]
  cases w.toBitVec[bit] <;> cases x.toBitVec[bit] <;> cases y.toBitVec[bit] <;> rfl

theorem swapped_word (p q r s : UInt8) :
    (rol (littleWord [p, q, r, s]) 24 &&& 0xFF00FF00) |||
      (rol (littleWord [p, q, r, s]) 8 &&& 0x00FF00FF) = bigWord [p, q, r, s] := by
  apply bits_ext
  intro bit inside
  simp only [littleWord, bigWord, rol, List.foldr, List.foldl]
  simp
  interval_cases bit <;> simp

theorem blk0_word (i : Nat) (block : Block) (bytes : Bytes) (whole : bytes.length = 4)
    (raw : block (slot i) = littleWord bytes) : blk0 i block = bigWord bytes := by
  obtain ⟨p, q, r, s, rfl⟩ := List.length_eq_four.mp whole
  rw [blk0, raw, swapped_word]

/-- The registers in the order call `t` takes them. -/
def viewed (t : Nat) (registers : Registers) : Words :=
  ⟨registers (role 0 t), registers (role 1 t), registers (role 2 t), registers (role 3 t),
    registers (role 4 t)⟩

/-- The sixteen words that are still needed, before call `t`. -/
structure Scheduled (source : Bytes) (t : Nat) (block : Block) : Prop where
  known : ∀ k, k < t → t ≤ k + 16 → block (slot k) = schedule source k
  raw : ∀ k, t ≤ k → k < 16 → block (slot k) = littleWord ((source.drop (4 * k)).take 4)

theorem slot_injective {first second : Nat} (low : first < second + 16) (high : second < first + 16)
    (same : slot first = slot second) : first = second := by
  have values := congrArg Fin.val same
  simp only [slot, Fin.val_ofNat] at values
  omega

theorem slot_period (index : Nat) : slot (index + 16) = slot index := by
  apply Fin.ext
  simp [slot]

theorem schedule_later (source : Bytes) (back : Nat) : schedule source (back + 16) =
    rol (schedule source (back + 13) ^^^ schedule source (back + 8) ^^^ schedule source (back + 2) ^^^
      schedule source back) 1 := by
  conv_lhs => rw [schedule]
  rw [if_neg (by omega)]
  simp only [Nat.add_sub_cancel, show back + 16 - 3 = back + 13 by omega,
    show back + 16 - 8 = back + 8 by omega, show back + 16 - 14 = back + 2 by omega]

theorem scheduled_word {source : Bytes} {t : Nat} {block : Block} (whole : source.length = 64)
    (scheduled : Scheduled source t block) :
    (if t < 16 then blk0 t block else blk t block) = schedule source t := by
  by_cases first : t < 16
  · have four : ((source.drop (4 * t)).take 4).length = 4 := by
      rw [List.length_take, List.length_drop]
      omega
    rw [if_pos first, blk0_word t block _ four (scheduled.raw t (Nat.le_refl _) first), schedule,
      if_pos first]
  · obtain ⟨back, rfl⟩ : ∃ back, t = back + 16 := ⟨t - 16, by omega⟩
    have third := scheduled.known (back + 13) (by omega) (by omega)
    have eighth := scheduled.known (back + 8) (by omega) (by omega)
    have fourteenth := scheduled.known (back + 2) (by omega) (by omega)
    have sixteenth := scheduled.known back (by omega) (by omega)
    have turned : ∀ index, slot (back + 16 + index) = slot (back + index) := by
      intro index
      rw [Nat.add_right_comm, slot_period]
    have here : slot (back + 16) = slot back := slot_period back
    rw [if_neg first, blk, turned, turned, turned, here, third, eighth, fourteenth, sixteenth,
      schedule_later]

theorem Scheduled.next {source : Bytes} {t : Nat} {block : Block}
    (scheduled : Scheduled source t block) :
    Scheduled source (t + 1) (Function.update block (slot t) (schedule source t)) where
  known k before recent := by
    by_cases here : k = t
    · rw [here, Function.update_self]
    · have apart : slot k ≠ slot t := fun same =>
        here (slot_injective (by omega) (by omega) same)
      rw [Function.update_of_ne apart]
      exact scheduled.known k (by omega) (by omega)
  raw k behind inside := by
    have apart : slot k ≠ slot t := by
      intro same
      have equal := slot_injective (by omega) (by omega) same
      omega
    rw [Function.update_of_ne apart]
    exact scheduled.raw k (by omega) inside

theorem role_next (place t : Nat) : role (place + 1) (t + 1) = role place t := by
  apply Fin.ext
  simp only [role, Fin.val_ofNat]
  omega

theorem role_last (t : Nat) : role 0 (t + 1) = role 4 t := by
  apply Fin.ext
  simp only [role, Fin.val_ofNat]
  omega

theorem role_apart {first second : Nat} (low : first < second) (high : second < 5) (t : Nat) :
    role first t ≠ role second t := by
  intro same
  have values := congrArg Fin.val same
  simp only [role, Fin.val_ofNat] at values
  omega

theorem round_viewed (mix : UInt32 → UInt32 → UInt32 → UInt32) (expand : Nat → Block → UInt32)
    (constant : UInt32) (t : Nat) (work : Work) :
    let words := viewed t work.registers
    viewed (t + 1) (round mix expand constant (role 0 t) (role 1 t) (role 2 t) (role 3 t) (role 4 t)
        t work).registers =
      ⟨rol words.a 5 + mix words.b words.c words.d + words.e + constant + expand t work.block,
        words.a, rol words.b 30, words.c, words.d⟩ := by
  have apart := fun {first second : Nat} (low : first < second) (high : second < 5) =>
    role_apart low high t
  simp only [viewed, role_last, role_next 0, role_next 1, role_next 2, role_next 3, round,
    Words.mk.injEq]
  refine ⟨?_, ?_, ?_, ?_, ?_⟩
  · rw [Function.update_of_ne (apart (by omega : 1 < 4) (by omega)).symm, Function.update_self]
    ac_rfl
  · rw [Function.update_of_ne (apart (by omega : 0 < 1) (by omega)),
      Function.update_of_ne (apart (by omega : 0 < 4) (by omega))]
  · rw [Function.update_self, Function.update_of_ne (apart (by omega : 1 < 4) (by omega))]
  · rw [Function.update_of_ne (apart (by omega : 1 < 2) (by omega)).symm,
      Function.update_of_ne (apart (by omega : 2 < 4) (by omega))]
  · rw [Function.update_of_ne (apart (by omega : 1 < 3) (by omega)).symm,
      Function.update_of_ne (apart (by omega : 3 < 4) (by omega))]

theorem call_turn {source : Bytes} {t : Nat} {work : Work} (whole : source.length = 64)
    (scheduled : Scheduled source t work.block) :
    viewed (t + 1) (callRound t work).registers = (viewed t work.registers).turn source t ∧
      Scheduled source (t + 1) (callRound t work).block := by
  have word := scheduled_word whole scheduled
  have masked : (fun w x y : UInt32 => (w &&& (x ^^^ y)) ^^^ y) = choose := by
    funext w x y
    exact choose_masked w x y
  have voted : (fun w x y : UInt32 => ((w ||| x) &&& y) ||| (w &&& x)) = majority := by
    funext w x y
    exact majority_masked w x y
  have shape : callRound t = round (mixAt t) (if t < 16 then blk0 else blk) (constantAt t)
      (role 0 t) (role 1 t) (role 2 t) (role 3 t) (role 4 t) t := by
    unfold callRound mixAt constantAt r0 r1 r2 r3 r4
    rw [masked, voted]
    split_ifs <;> first | omega | rfl
  have fetched : (if t < 16 then blk0 else blk) t work.block = schedule source t := by
    rw [← word]
    split_ifs <;> rfl
  rw [shape]
  constructor
  · rw [round_viewed, fetched]
    rfl
  · change Scheduled source (t + 1) (Function.update work.block (slot t) _)
    rw [fetched]
    exact scheduled.next

theorem calls_turns {source : Bytes} (whole : source.length = 64) (state : Registers) (t : Nat) :
    viewed t (calls t ⟨state, loadBlock source⟩).registers = turns source t (viewed 0 state) ∧
      Scheduled source t (calls t ⟨state, loadBlock source⟩).block := by
  induction t with
  | zero =>
      refine ⟨rfl, ⟨fun k before _ => absurd before (Nat.not_lt_zero k), ?_⟩⟩
      intro k _ inside
      have same : (slot k).val = k := Nat.mod_eq_of_lt inside
      simp only [calls, loadBlock, same]
  | succ t ih =>
      obtain ⟨words, scheduled⟩ := ih
      obtain ⟨turned, next⟩ := call_turn whole scheduled
      refine ⟨?_, next⟩
      rw [calls, turned, words, turns]

/-- `SHA1Transform` is the compression of the standard. -/
theorem transform_compresses (state : Registers) (buffer : Bytes) (whole : buffer.length = 64) :
    viewed 0 (sha1Transform state buffer) = compress (viewed 0 state) buffer := by
  have worked := (calls_turns whole state 80).1
  have back : ∀ place, role place 80 = role place 0 := by
    intro place
    apply Fin.ext
    simp only [role, Fin.val_ofNat]
    omega
  rw [compress, ← worked]
  simp only [viewed, back, sha1Transform, Words.add]

end Sha1
end Cpp2tnt
