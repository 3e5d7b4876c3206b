import Mathlib.Data.List.Basic
import Mathlib.Tactic.SplitIfs
import Cpp2tnt.Library.MessagePack

/-!
`third_party/base64.c` and the format it reads and writes. The output is a block
of memory: a store or a read behind its last byte fails, and so does a read
behind the table of the decoder. `char` has eight bits and a sign.
-/

namespace Cpp2tnt
open MessagePack

namespace Base64

/-- `ABCDEFGHIJKLMNOPQRSTUVWXYZabcdefghijklmnopqrstuvwxyz0123456789+/`. -/
def alphabet : Bytes :=
  (List.range 26).map (fun index => UInt8.ofNat (65 + index)) ++
    (List.range 26).map (fun index => UInt8.ofNat (97 + index)) ++
    (List.range 10).map (fun index => UInt8.ofNat (48 + index)) ++ [43, 47]

def letter (byte : UInt8) : Option Nat :=
  let code := byte.toNat
  if 65 ≤ code ∧ code ≤ 90 then some (code - 65)
  else if 97 ≤ code ∧ code ≤ 122 then some (code - 71)
  else if 48 ≤ code ∧ code ≤ 57 then some (code + 4)
  else if code = 43 then some 62
  else if code = 47 then some 63
  else none

def letters (text : Bytes) : List Nat := text.filterMap letter

def bytesOf : List Nat → Bytes
  | a :: b :: c :: d :: rest =>
      UInt8.ofNat (a * 4 + b / 16) :: UInt8.ofNat (b % 16 * 16 + c / 4) ::
        UInt8.ofNat (c % 4 * 64 + d) :: bytesOf rest
  | [a, b, c] => [UInt8.ofNat (a * 4 + b / 16), UInt8.ofNat (b % 16 * 16 + c / 4)]
  | [a, b] => [UInt8.ofNat (a * 4 + b / 16)]
  | [_] => []
  | [] => []

def character (value : Nat) : UInt8 := alphabet.getD value 61

def charsPerLine : Nat := 72

/-- The text behind so many whole groups of the line. -/
def textOf : Nat → Bytes → Bytes
  | groups, a :: b :: c :: rest =>
      character (a.toNat / 4) :: character (a.toNat % 4 * 16 + b.toNat / 16) ::
        character (b.toNat % 16 * 4 + c.toNat / 64) :: character (c.toNat % 64) ::
          if (groups + 1) * 4 = charsPerLine then 10 :: textOf 0 rest else textOf (groups + 1) rest
  | _, [a, b] => [character (a.toNat / 4), character (a.toNat % 4 * 16 + b.toNat / 16),
      character (b.toNat % 16 * 4), 61]
  | _, [a] => [character (a.toNat / 4), character (a.toNat % 4 * 16), 61, 61]
  | _, [] => []

def store (memory : Bytes) (position : Nat) (byte : UInt8) : Option Bytes :=
  if position < memory.length then some (memory.set position byte) else none

def load (memory : Bytes) (position : Nat) : Option UInt8 := memory[position]?

inductive EncodeStep where
  | a | b | c
  deriving DecidableEq

structure EncodeState where
  step : EncodeStep
  result : Nat
  stepcount : Nat

def encodeStateInit : EncodeState := ⟨.a, 0, 0⟩

def encodeValue (value : Nat) : UInt8 :=
  if value > alphabet.length then 61 else (alphabet ++ [0]).getD value 0

/-- `base64_encode_block`: the state it was called with, the one it has reached, and where in
the output it is. -/
def encodeBlock (entry : EncodeState) :
    Bytes → EncodeState → Nat → Bytes → Option (EncodeState × Nat × Bytes)
  | [], state, outPos, out => some (state, outPos, out)
  | fragment :: rest, state, outPos, out =>
      match state.step with
      | .a =>
          if outPos ≥ out.length then some (state, outPos, out)
          else do
            let out ← store out outPos (encodeValue ((fragment.toNat &&& 0xfc) >>> 2))
            encodeBlock entry rest ⟨.b, (fragment.toNat &&& 0x03) <<< 4, state.stepcount⟩
              (outPos + 1) out
      | .b =>
          if outPos ≥ out.length then some (state, outPos, out)
          else do
            let out ← store out outPos
              (encodeValue (state.result ||| (fragment.toNat &&& 0xf0) >>> 4))
            encodeBlock entry rest ⟨.c, (fragment.toNat &&& 0x0f) <<< 2, state.stepcount⟩
              (outPos + 1) out
      | .c =>
          if outPos + 2 ≥ out.length then some (state, outPos, out)
          else do
            let out ← store out outPos
              (encodeValue (state.result ||| (fragment.toNat &&& 0xc0) >>> 6))
            let out ← store out (outPos + 1) (encodeValue (fragment.toNat &&& 0x3f))
            if (state.stepcount + 1) * 4 = charsPerLine then
              -- this return leaves the step and the result of the entry
              if outPos + 2 ≥ out.length then
                some (⟨entry.step, entry.result, state.stepcount + 1⟩, outPos + 2, out)
              else do
                let out ← store out (outPos + 2) 10
                encodeBlock entry rest ⟨.a, fragment.toNat &&& 0x3f, 0⟩ (outPos + 3) out
            else
              encodeBlock entry rest ⟨.a, fragment.toNat &&& 0x3f, state.stepcount + 1⟩
                (outPos + 2) out

/-- The end of `base64_encode_blockend`: the zero does not count. -/
def terminate (outPos : Nat) (out : Bytes) : Option (Nat × Bytes) :=
  if outPos ≥ out.length then some (outPos, out)
  else do
    let out ← store out outPos 0
    return (outPos, out)

def encodeBlockend (state : EncodeState) (outPos : Nat) (out : Bytes) : Option (Nat × Bytes) :=
  match state.step with
  | .b =>
      if outPos + 2 ≥ out.length then some (outPos, out)
      else do
        let out ← store out outPos (encodeValue state.result)
        let out ← store out (outPos + 1) 61
        let out ← store out (outPos + 2) 61
        terminate (outPos + 3) out
  | .c =>
      if outPos + 1 ≥ out.length then some (outPos, out)
      else do
        let out ← store out outPos (encodeValue state.result)
        let out ← store out (outPos + 1) 61
        terminate (outPos + 2) out
  | .a => terminate outPos out

def base64Encode (inBin out : Bytes) : Option (Nat × Bytes) := do
  let (state, res, out) ← encodeBlock encodeStateInit inBin encodeStateInit 0 out
  encodeBlockend state res out

/-- No value where `int` does not hold the product. -/
def base64Bufsize (binsize : Nat) : Option Nat :=
  if binsize * 4 ≥ 2 ^ 31 then none
  else
    let datasize := binsize * 4 / 3 + 4
    some (datasize + (datasize + charsPerLine - 1) / charsPerLine)

inductive DecodeStep where
  | a | b | c | d
  deriving DecidableEq

structure DecodeState where
  step : DecodeStep
  result : UInt8

def decoding : List Int :=
  [62, -1, -1, -1, 63, 52, 53, 54, 55, 56, 57, 58,
    59, 60, 61, -1, -1, -1, -2, -1, -1, -1, 0, 1,
    2, 3, 4, 5, 6, 7, 8, 9, 10, 11, 12, 13,
    14, 15, 16, 17, 18, 19, 20, 21, 22, 23, 24, 25,
    -1, -1, -1, -1, -1, -1, 26, 27, 28, 29, 30, 31,
    32, 33, 34, 35, 36, 37, 38, 39, 40, 41, 42, 43,
    44, 45, 46, 47, 48, 49, 50, 51]

def decodeValue (value : UInt8) : Option Int :=
  let codepos := value.toInt8.toInt - 43
  if codepos < 0 ∨ codepos > decoding.length then some (-1) else decoding[codepos.toNat]?

def leave (step : DecodeStep) (outPos : Nat) (out : Bytes) :
    Option (DecodeState × Nat × Bytes) := do
  let result ← load out outPos
  return (⟨step, result⟩, outPos, out)

def decodeLetter (step : DecodeStep) (fragment : Nat) (outPos : Nat) (out : Bytes) :
    Option (DecodeStep × Nat × Bytes) :=
  match step with
  | .a => do
      let out ← store out outPos (UInt8.ofNat ((fragment &&& 0x3f) <<< 2))
      return (.b, outPos, out)
  | .b => do
      let held ← load out outPos
      let out ← store out outPos (held ||| UInt8.ofNat ((fragment &&& 0x30) >>> 4))
      if outPos + 1 < out.length then do
        let out ← store out (outPos + 1) (UInt8.ofNat ((fragment &&& 0x0f) <<< 4))
        return (.c, outPos + 1, out)
      else return (.c, outPos + 1, out)
  | .c => do
      let held ← load out outPos
      let out ← store out outPos (held ||| UInt8.ofNat ((fragment &&& 0x3c) >>> 2))
      if outPos + 1 < out.length then do
        let out ← store out (outPos + 1) (UInt8.ofNat ((fragment &&& 0x03) <<< 6))
        return (.d, outPos + 1, out)
      else return (.d, outPos + 1, out)
  | .d => do
      let held ← load out outPos
      let out ← store out outPos (held ||| UInt8.ofNat (fragment &&& 0x3f))
      return (.a, outPos + 1, out)

def decodeLoop : Bytes → DecodeStep → Nat → Bytes → Option (DecodeState × Nat × Bytes)
  | [], step, outPos, out => leave step outPos out
  | value :: rest, step, outPos, out =>
      if outPos ≥ out.length then leave step outPos out
      else do
        let fragment ← decodeValue value
        if fragment < 0 then decodeLoop rest step outPos out
        else do
          let (step, outPos, out) ← decodeLetter step fragment.toNat outPos out
          decodeLoop rest step outPos out

def decodeBlock (inBase64 out : Bytes) (state : DecodeState) :
    Option (DecodeState × Nat × Bytes) := do
  let out ← store out 0 state.result
  decodeLoop inBase64 state.step 0 out

def base64Decode (inBase64 out : Bytes) : Option (Nat × Bytes) := do
  let (_, res, out) ← decodeBlock inBase64 out ⟨.a, 0⟩
  return (res, out)

end Base64
end Cpp2tnt
