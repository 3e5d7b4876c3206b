import Cpp2tnt.Documents

/-!
`iproto_writer`. A message head stays in the stack of open containers until the
message is finalized; its first byte tells it from an array or a map. `finalize`
and `finalize_all` hide the ones of `mp_writer`. `get_request_id` is a callback:
each request takes the value it returned as an argument. SHA-1 and base64 are
parameters.
-/

namespace Cpp2tnt
open Imperative MessagePack MpWriter

/-- `request_type`. -/
inductive RequestType where
  | ok | select | insert | replace | update | delete | call16 | auth | eval | upsert | call
  | execute | nop | prepare | ping | protoId | watch | unwatch | event | watchOnce
  deriving DecidableEq

def RequestType.code : RequestType → Nat
  | .ok => 0x00
  | .select => 0x01
  | .insert => 0x02
  | .replace => 0x03
  | .update => 0x04
  | .delete => 0x05
  | .call16 => 0x06
  | .auth => 0x07
  | .eval => 0x08
  | .upsert => 0x09
  | .call => 0x0a
  | .execute => 0x0b
  | .nop => 0x0c
  | .prepare => 0x0d
  | .ping => 0x40
  | .protoId => 0x49
  | .watch => 0x4a
  | .unwatch => 0x4b
  | .event => 0x4c
  | .watchOnce => 0x4d

/-- `header_field` and `body_field`, the ones requests use. -/
inductive Field where
  | code | sync | tuple | functionName | userName | expression | version | features | authType
  deriving DecidableEq

def Field.key : Field → Nat
  | .code => 0x00
  | .sync => 0x01
  | .tuple => 0x21
  | .functionName => 0x22
  | .userName => 0x23
  | .expression => 0x27
  | .version => 0x54
  | .features => 0x55
  | .authType => 0x5b

structure ProtoId where
  version : UInt64
  auth : Bytes
  features : BitVec 32

def featureInvalid : Nat := 5

def ProtoId.listFeatures (proto : ProtoId) : List Nat :=
  (List.range 32).filter fun index => proto.features.getLsbD index && index < featureInvalid

def scrambleSize : Nat := 20
def versionSize : Nat := 64
def saltSize : Nat := 44

structure Crypto where
  sha1 : Bytes → Bytes
  /-- `base64_decode(in, in_len, out, out_len)`: what it leaves in `out`. -/
  base64Decode : Bytes → Nat → Bytes

/-- `static_cast<uint32_t>` on the length of a text that is passed with it. -/
def narrow (text : Bytes) : Bytes := text.take (text.length % 2 ^ 32)

def scramblePrepare (crypto : Crypto) (salt password : Bytes) : Bytes :=
  let hash1 := crypto.sha1 (narrow password)
  let hash2 := crypto.sha1 (hash1.take scrambleSize)
  let hash2 := crypto.sha1 (salt.take scrambleSize ++ hash2.take scrambleSize)
  (List.range scrambleSize).map fun index => hash1.getD index 0 ^^^ hash2.getD index 0

namespace IprotoWriter
section Encoding
variable (mp : Msgpuck)

def finalize : Write Unit := do
  let writer ← Cxx.get
  match writer.openedContainers.pop? with
  | none => Cxx.throw ⟨.rangeError, "no request to finalize"⟩
  | some (container, rest) => do
      let head ← onBuffer (WtfBuffer.load container.headOffset)
      if head = 0xce then
        Cxx.put { writer with openedContainers := rest }
        let size := (((writer.buf.size : Int) - container.headOffset) % 2 ^ 64).toNat
        if size = 0 then return ()
        if size > container.maxCardinality then
          Cxx.throw ⟨.overflowError, "request size exceeded"⟩
        onBuffer (WtfBuffer.store (container.headOffset + 1)
          (mp.mpStoreU32 (((size : Int) - 5) % 2 ^ 32).toNat))
      else MpWriter.finalize mp

def finalizeAll : Write Unit := do
  let writer ← Cxx.get
  Cxx.forEach (fun _ => finalize mp) writer.openedContainers.items

/-- Only the tag of the length is stored here; `finalize` stores the rest. -/
def startMessage : Write Unit := do
  finalizeAll mp
  let writer ← Cxx.get
  if writer.buf.capacity - writer.buf.size < 1024 then
    onBuffer (WtfBuffer.reserve (writer.buf.capacity + 1024))
  pushContainer (2 ^ 32 - 1)
  emit (mp.mpStoreU8 0xce)
  onBuffer (WtfBuffer.advance 4)

def encodeRequestHeader (type : RequestType) (sync : UInt64) : Write Unit := do
  startMessage mp
  emit (mp.mpEncodeMap 2)
  emit (mp.mpEncodeUint Field.code.key ++ mp.mpEncodeUint type.code)
  emit (mp.mpEncodeUint Field.sync.key ++ mp.mpEncodeUint sync.toNat)

def encodeAuthRequest (crypto : Crypto) (greeting user password authProto : Bytes)
    (sync : UInt64) : Write Unit := do
  encodeRequestHeader mp .auth sync
  emit (mp.mpEncodeMap 2)
  emit (mp.mpEncodeUint Field.userName.key ++ mp.mpEncodeStrl (user.length % 2 ^ 32))
  emit user
  emit (mp.mpEncodeUint Field.tuple.key)
  let b64Salt := (greeting.drop versionSize).take (scrambleSize + saltSize)
  emit (mp.mpEncodeArray 2)
  emit (mp.mpEncodeStr (narrow authProto))
  emit (mp.mpEncodeStrl scrambleSize)
  let salt := crypto.base64Decode (b64Salt.take saltSize) 64
  emit (scramblePrepare crypto salt password)
  finalize mp

def encodeIdRequest (proto : ProtoId) (sync : UInt64) : Write Unit := do
  encodeRequestHeader mp .protoId sync
  emit (mp.mpEncodeMap
    (1 + (if proto.version ≠ 0 then 1 else 0) + (if proto.auth.isEmpty then 0 else 1)))
  if proto.version ≠ 0 then
    emit (mp.mpEncodeUint Field.version.key)
    emit (mp.mpEncodeUint proto.version.toNat)
  let features := proto.listFeatures
  emit (mp.mpEncodeUint Field.features.key)
  emit (mp.mpEncodeArray features.length)
  Cxx.forEach (fun feature => emit (mp.mpEncodeUint feature)) features
  if !proto.auth.isEmpty then
    emit (mp.mpEncodeUint Field.authType.key)
    emit (mp.mpEncodeStr (narrow proto.auth))
  finalize mp

def encodePingRequest (sync : UInt64) : Write Unit := do
  encodeRequestHeader mp .ping sync
  emit (mp.mpEncodeMap 0)
  finalize mp

/-- What `begin_call` and `begin_eval` share. -/
def beginRequest (type : RequestType) (field : Field) (text : Bytes) (sync : UInt64) :
    Write Unit := do
  encodeRequestHeader mp type sync
  emit (mp.mpEncodeMap 2)
  emit (mp.mpEncodeUint field.key)
  emit (mp.mpEncodeStr (narrow text))
  emit (mp.mpEncodeUint Field.tuple.key)

def beginCall (fnName : Bytes) (sync : UInt64) : Write Unit :=
  beginRequest mp .call .functionName fnName sync

def beginEval (script : Bytes) (sync : UInt64) : Write Unit :=
  beginRequest mp .eval .expression script sync

/-- `call(fn_name, args...)`; the arguments are given as the documents they are
written as. -/
def call (fnName : Bytes) (args : List Doc) (sync : UInt64) : Write Unit := do
  beginCall mp fnName sync
  beginArray mp args.length
  execAll mp (Doc.opsAll args)
  finalizeAll mp

def eval (script : Bytes) (args : List Doc) (sync : UInt64) : Write Unit := do
  beginEval mp script sync
  beginArray mp args.length
  execAll mp (Doc.opsAll args)
  finalizeAll mp

end Encoding
end IprotoWriter

end Cpp2tnt
