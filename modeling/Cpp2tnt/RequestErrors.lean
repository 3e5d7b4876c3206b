import Cpp2tnt.ConnectionTurns
import Cpp2tnt.RequestFraming
import Cpp2tnt.TypedValues

/-!
`call()` and `eval()` when the serialization of an argument throws. An argument
is whatever its `operator<<` does to the writer. Nothing takes back what has been
written before: the head of the message, its header and the arguments so far.
-/

namespace Cpp2tnt
open Imperative MessagePack MpWriter

/-- A serializer leaves what it finds in the buffer, and only adds to it. -/
def Appends {α : Type} (body : Write α) : Prop := ∀ least, Cxx.Preserves (Longer least) body

namespace IprotoWriter
section Encoding
variable (mp : Msgpuck)

def requestArgs (type : RequestType) (field : Field) (text : Bytes) (args : List (Write Unit))
    (sync : UInt64) : Write Unit := do
  beginRequest mp type field text sync
  beginArray mp args.length
  Cxx.forEach id args
  finalizeAll mp

/-- `call(fn_name, args...)`, with arguments of any types. -/
def callArgs (fnName : Bytes) (args : List (Write Unit)) (sync : UInt64) : Write Unit :=
  requestArgs mp .call .functionName fnName args sync

/-- `eval(script, args...)`, with arguments of any types. -/
def evalArgs (script : Bytes) (args : List (Write Unit)) (sync : UInt64) : Write Unit :=
  requestArgs mp .eval .expression script args sync

theorem exec_all_docs (docs : List Doc) :
    execAll mp (Doc.opsAll docs) = Cxx.forEach id (docs.map fun doc => execAll mp doc.ops) := by
  induction docs with
  | nil => rfl
  | cons doc docs ih =>
      rw [Doc.opsAll, execAll, Cxx.forEach_append, List.map_cons, Cxx.forEach, ← ih]
      rfl

theorem call_docs (fnName : Bytes) (docs : List Doc) (sync : UInt64) :
    call mp fnName docs sync =
      callArgs mp fnName (docs.map fun doc => execAll mp doc.ops) sync := by
  rw [call, callArgs, requestArgs, List.length_map, exec_all_docs]
  rfl

theorem eval_docs (script : Bytes) (docs : List Doc) (sync : UInt64) :
    eval mp script docs sync =
      evalArgs mp script (docs.map fun doc => execAll mp doc.ops) sync := by
  rw [eval, evalArgs, requestArgs, List.length_map, exec_all_docs]
  rfl

end Encoding
end IprotoWriter

section Serializers
variable {mp : Msgpuck}

theorem increment_appends (items : Nat) : Appends (incrementContainerCounter items) := by
  intro least
  exact Cxx.preserves_get_bind fun _ longer => Cxx.preserves_put longer

theorem push_container_appends (maxCardinality : Nat) : Appends (pushContainer maxCardinality) := by
  intro least
  apply Cxx.preserves_get_bind
  intro writer longer
  split
  · exact Cxx.preserves_put longer
  · exact Cxx.preserves_undefined

theorem Appends.bind {α β : Type} {first : Write α} {next : α → Write β} (head : Appends first)
    (tail : ∀ value, Appends (next value)) : Appends (first >>= next) :=
  fun least => Cxx.preserves_bind (head least) fun value => tail value least

theorem Appends.forEach {α : Type} {body : α → Write Unit} (each : ∀ item, Appends (body item))
    (items : List α) : Appends (Cxx.forEach body items) :=
  fun least => Cxx.preserves_forEach (fun item => each item least) items

theorem begin_array_appends (maxCardinality : Nat) : Appends (beginArray mp maxCardinality) :=
  (increment_appends 1).bind fun _ => (push_container_appends _).bind fun _ _ => emit_longer _

theorem begin_map_appends (maxCardinality : Nat) : Appends (beginMap mp maxCardinality) :=
  (increment_appends 1).bind fun _ => (push_container_appends _).bind fun _ _ => emit_longer _

theorem finalize_appends : Appends (MpWriter.finalize mp) := fun _ => container_longer mp

theorem write_scalar_appends (value : Scalar) : Appends (writeScalar mp value) := by
  unfold writeScalar
  split
  · exact fun _ => Cxx.preserves_throw _
  · exact Appends.bind (fun _ => emit_longer _) fun _ => increment_appends 1

theorem put_appends : (type : Ty) → (value : type.Val) → Appends (type.put mp value)
  | .bool, value => write_scalar_appends (.bool value)
  | .int _, value => write_scalar_appends (.int value.1)
  | .string, text => write_scalar_appends (.str text)
  | .optional _, none => write_scalar_appends .nil
  | .optional elem, some value => put_appends elem value
  | .vector elem, values =>
      (begin_array_appends _).bind fun _ => (Appends.forEach (put_appends elem) values).bind
        fun _ => finalize_appends
  | .tuple elems, values =>
      (begin_array_appends _).bind fun _ => (put_all_appends elems values).bind
        fun _ => finalize_appends
  | .map key value, map =>
      (begin_map_appends _).bind fun _ => (Appends.forEach (fun entry =>
        (put_appends key entry.1).bind fun _ => put_appends value entry.2) map.entries).bind
          fun _ => finalize_appends
where
  put_all_appends : (types : List Ty) → (values : Ty.Vals types) → Appends (Ty.putAll mp types values)
    | [], _ => fun _ => Cxx.preserves_pure ()
    | type :: types, values =>
        (put_appends type values.1).bind fun _ => put_all_appends types values.2

end Serializers

namespace IprotoWriter
section Errors
variable (mp : Msgpuck)

/-- The arguments up to this one have been written, and this one throws. -/
def ArgumentThrows (type : RequestType) (field : Field) (text : Bytes) (args : List (Write Unit))
    (sync : UInt64) (writer : MpWriter) (error : Exn) (reached : MpWriter) : Prop :=
  ∃ front arg back begun middle, args = front ++ arg :: back ∧
    (do
      beginRequest mp type field text sync
      beginArray mp args.length) writer = .returned () begun ∧
    Cxx.forEach id front begun = .returned () middle ∧ arg middle = .thrown error reached

def SameAs (writer reached : MpWriter) : Prop :=
  reached.buf.content = writer.buf.content ∧ reached.openedContainers = writer.openedContainers

theorem argument_thrown {type : RequestType} {field : Field} {text : Bytes}
    {args : List (Write Unit)} {sync : UInt64} {writer reached : MpWriter} {error : Exn}
    (throws : ArgumentThrows mp type field text args sync writer error reached) :
    requestArgs mp type field text args sync writer = .thrown error reached := by
  obtain ⟨front, arg, back, begun, middle, split, started, written, failed⟩ := throws
  have loop : Cxx.forEach id args begun = .thrown error reached := by
    rw [split]
    exact Cxx.forEach_thrown written failed
  have assoc : requestArgs mp type field text args sync = (do
      (do
        beginRequest mp type field text sync
        beginArray mp args.length)
      Cxx.forEach id args
      finalizeAll mp) := (bind_assoc _ _ _).symm
  rw [assoc, Cxx.bind_returned started, Cxx.bind_run, loop]

theorem start_grows (least : Nat) :
    Cxx.Leads (Longer least) (Longer (least + 4)) (startMessage mp) := by
  have advanced : Cxx.Leads (Longer least) (Longer (least + 4))
      (onBuffer (WtfBuffer.advance 4)) := by
    intro writer value reached longer done
    by_cases room : 4 ≤ writer.buf.available
    · rw [onBuffer, Cxx.zoom_returned (WtfBuffer.advance_returned 4 writer.buf room)] at done
      cases done
      have found : (writer.buf.spare.take 4).length = 4 := List.length_take_of_le room
      rw [Longer, WtfBuffer.size] at longer ⊢
      rw [WtfBuffer.push_content, List.length_append, found]
      exact Nat.add_le_add_right longer 4
    · simp [onBuffer, Cxx.zoom, WtfBuffer.advance, room] at done
  have begun : Cxx.Leads (Longer least) (Longer (least + 4)) (do
      pushContainer (2 ^ 32 - 1)
      emit (mp.mpStoreU8 0xce)
      onBuffer (WtfBuffer.advance 4)) :=
    Cxx.leads_bind (push_container_appends _ least).leads fun _ =>
      Cxx.leads_bind (emit_longer _).leads fun _ => advanced
  refine Cxx.leads_bind (all_longer mp).leads fun _ => Cxx.leads_get_bind fun writer => ?_
  exact Cxx.leads_ite (Cxx.leads_bind (reserve_longer _).leads fun _ => begun) begun

theorem begin_request_grows (type : RequestType) (field : Field) (text : Bytes) (sync : UInt64)
    (least : Nat) : Cxx.Leads (Longer least) (Longer (least + 4))
      (beginRequest mp type field text sync) := by
  have header : Cxx.Leads (Longer least) (Longer (least + 4))
      (encodeRequestHeader mp type sync) :=
    Cxx.leads_bind (start_grows mp least) fun _ => Cxx.leads_bind (emit_longer _).leads fun _ =>
      Cxx.leads_bind (emit_longer _).leads fun _ => (emit_longer _).leads
  exact Cxx.leads_bind header fun _ => Cxx.leads_bind (emit_longer _).leads fun _ =>
    Cxx.leads_bind (emit_longer _).leads fun _ => Cxx.leads_bind (emit_longer _).leads fun _ =>
      (emit_longer _).leads

theorem partial_request_left {type : RequestType} {field : Field} {text : Bytes}
    {args : List (Write Unit)} {sync : UInt64} {writer reached : MpWriter} {error : Exn}
    (appends : ∀ arg ∈ args, Appends arg)
    (throws : ArgumentThrows mp type field text args sync writer error reached) :
    writer.buf.size < reached.buf.size := by
  obtain ⟨front, arg, back, begun, middle, split, started, written, failed⟩ := throws
  have long : Longer (writer.buf.size + 4) begun := by
    apply Cxx.leads_bind (begin_request_grows mp type field text sync writer.buf.size)
      (fun _ => (begin_array_appends args.length _).leads) writer () begun _ started
    exact Nat.le_refl _
  have more : Longer (writer.buf.size + 4) middle := by
    have loop : ∀ front, (∀ arg ∈ front, Appends arg) → Appends (Cxx.forEach id front) := by
      intro front each
      induction front with
      | nil => exact fun _ => Cxx.preserves_pure ()
      | cons arg front ih =>
          exact (each arg List.mem_cons_self).bind fun _ => ih fun other member =>
            each other (List.mem_cons_of_mem arg member)
    apply (loop front _ _).leads begun () middle long written
    intro other member
    exact appends other (split ▸ List.mem_append_left _ member)
  have last : Appends arg := appends arg (split ▸ List.mem_append_right _ List.mem_cons_self)
  exact Nat.lt_of_lt_of_le (Nat.lt_add_of_pos_right (by decide)) ((last _).thrown more failed)

theorem request_all_or_nothing (type : RequestType) (field : Field) (text : Bytes)
    (args : List (Write Unit)) (sync : UInt64) (writer : MpWriter)
    (appends : ∀ arg ∈ args, Appends arg) :
    (∀ error reached, ArgumentThrows mp type field text args sync writer error reached →
      requestArgs mp type field text args sync writer = .thrown error reached ∧
        SameAs writer reached) ↔
    ¬ ∃ error reached, ArgumentThrows mp type field text args sync writer error reached := by
  constructor
  · rintro same ⟨error, reached, throws⟩
    have longer := partial_request_left mp appends throws
    rw [WtfBuffer.size, WtfBuffer.size, (same error reached throws).2.1] at longer
    exact absurd longer (Nat.lt_irrefl _)
  · intro none error reached throws
    exact absurd ⟨error, reached, throws⟩ none

/-- With no open container: `call()` and `eval()` leave the writer as it was when
an argument throws if and only if no argument throws. -/
theorem call_all_or_nothing (text : Bytes) (args : List (Write Unit)) (sync : UInt64)
    (writer : MpWriter) (closed : writer.openedContainers = WtfStack.empty)
    (appends : ∀ arg ∈ args, Appends arg) :
    ((∀ error reached, ArgumentThrows mp .call .functionName text args sync writer error reached →
        callArgs mp text args sync writer = .thrown error reached ∧
          reached.buf.content = writer.buf.content ∧ reached.openedContainers = WtfStack.empty) ↔
      ¬ ∃ error reached,
        ArgumentThrows mp .call .functionName text args sync writer error reached) ∧
    ((∀ error reached, ArgumentThrows mp .eval .expression text args sync writer error reached →
        evalArgs mp text args sync writer = .thrown error reached ∧
          reached.buf.content = writer.buf.content ∧ reached.openedContainers = WtfStack.empty) ↔
      ¬ ∃ error reached,
        ArgumentThrows mp .eval .expression text args sync writer error reached) := by
  rw [← closed]
  exact ⟨request_all_or_nothing mp .call .functionName text args sync writer appends,
    request_all_or_nothing mp .eval .expression text args sync writer appends⟩

end Errors

def emptyWriter : MpWriter := MpWriter.ofBuffer (WtfBuffer.ofSize (2 ^ 20))

def numberArgument : List (Write Unit) := [writeScalar reference (.int 1)]

/-- The double 0.0 is below `numeric_limits<double>::min()`: the writer rejects it. -/
def zeroArgument : List (Write Unit) := [writeScalar reference (.double 0)]

theorem number_argument_written (error : Exn) (reached : MpWriter) :
    ¬ ArgumentThrows reference .call .functionName (ascii "f") numberArgument 0 emptyWriter error
      reached := by
  rintro ⟨front, arg, back, begun, middle, split, _, _, failed⟩
  have only : arg = writeScalar reference (.int 1) := by
    have member : arg ∈ numberArgument := split ▸ List.mem_append_right _ List.mem_cons_self
    exact List.mem_singleton.mp member
  rw [only] at failed
  by_cases room : (reference.mpEncodeUint 1).length ≤ middle.buf.available
  · have emitted := emit_returned _ middle room
    have written : writeScalar reference (.int 1) middle = incrementContainerCounter 1
        { middle with buf := middle.buf.push (reference.mpEncodeUint 1) } :=
      Cxx.bind_returned emitted _
    cases written.symm.trans failed
  · have undefined := Cxx.bind_run (emit (reference.mpEncodeUint 1))
      (fun _ => incrementContainerCounter 1) middle
    rw [emit_undefined _ middle room] at undefined
    cases undefined.symm.trans failed

theorem call_all_or_nothing_number :
    (¬ ∃ error reached, ArgumentThrows reference .call .functionName (ascii "f") numberArgument 0
      emptyWriter error reached) ∧
    ∀ error reached, ArgumentThrows reference .call .functionName (ascii "f") numberArgument 0
      emptyWriter error reached →
      callArgs reference (ascii "f") numberArgument 0 emptyWriter = .thrown error reached ∧
        reached.buf.content = emptyWriter.buf.content ∧
        reached.openedContainers = WtfStack.empty := by
  have appends : ∀ arg ∈ numberArgument, Appends arg := by
    intro arg member
    rw [List.mem_singleton.mp member]
    exact write_scalar_appends (.int 1)
  have none : ¬ ∃ error reached, ArgumentThrows reference .call .functionName (ascii "f")
      numberArgument 0 emptyWriter error reached := by
    rintro ⟨error, reached, throws⟩
    exact number_argument_written error reached throws
  exact ⟨none,
    (call_all_or_nothing reference (ascii "f") numberArgument 0 emptyWriter rfl appends).1.mpr none⟩

theorem zero_refused (writer : MpWriter) : writeScalar reference (.double 0) writer =
    .thrown ⟨.overflowError, "unable to fit floating point value into msgpack"⟩ writer := rfl

theorem call_begun (buf : WtfBuffer UInt8) (roomy : Roomy buf 0) : ∃ begun, (do
    beginRequest reference .call .functionName (ascii "f") 0
    beginArray reference 1) (MpWriter.ofBuffer buf) = .returned () begun := by
  have started := start_returned reference_implements (settles_nothing buf) roomy
  let text := entriesText (headerEntries .call 0) ++ (encodeMapHead 2 ++
    (encodeUint Field.functionName.key ++ (strText (ascii "f") ++ encodeUint Field.tuple.key)))
  have ample := (reserved_roomy roomy).2
  have left : 1000 ≤ (drafted (reserved buf)).buf.available := by
    obtain ⟨stale, width, shape⟩ := drafted_content (reserved buf) (by omega)
    have head : (0xce :: stale : Bytes).length = 5 := by rw [List.length_cons, width]
    rw [shape, WtfBuffer.push_available, head]
    omega
  have short : text.length ≤ 100 := by decide
  have emitted := emit_returned text (drafted (reserved buf)) (by omega)
  let named : MpWriter :=
    { drafted (reserved buf) with buf := (drafted (reserved buf)).buf.push text }
  have after : 900 ≤ named.buf.available := by
    change 900 ≤ ((drafted (reserved buf)).buf.push text).available
    rw [WtfBuffer.push_available]
    omega
  have shallow : named.openedContainers.items.length < 16 := show 1 < 16 by decide
  have opened := begin_returned reference_implements .array 1 (by decide) named shallow
    (Nat.le_trans (by decide) after)
  refine ⟨named.opened .array 1 shallow, ?_⟩
  rw [begin_emitted reference_implements _ _ _ _ (by decide)]
  exact (Cxx.bind_returned ((Cxx.bind_returned started _).trans emitted) _).trans opened

theorem zero_argument_throws : ∃ reached, ArgumentThrows reference .call .functionName
    (ascii "f") zeroArgument 0 emptyWriter
    ⟨.overflowError, "unable to fit floating point value into msgpack"⟩ reached := by
  have roomy : Roomy (WtfBuffer.ofSize (2 ^ 20)) 0 :=
    ⟨Nat.zero_le _, .inl (WtfBuffer.of_size_owned _)⟩
  obtain ⟨begun, started⟩ := call_begun _ roomy
  exact ⟨begun, [], writeScalar reference (.double 0), [], begun, begun, rfl, started,
    Cxx.forEach_nil _ _, zero_refused begun⟩

/-- The call is given up with its beginning in the buffer. -/
theorem zero_argument_leaves_partial : ∃ error reached,
    ArgumentThrows reference .call .functionName (ascii "f") zeroArgument 0 emptyWriter error
      reached ∧
    callArgs reference (ascii "f") zeroArgument 0 emptyWriter = .thrown error reached ∧
    reached.buf.content ≠ emptyWriter.buf.content := by
  obtain ⟨reached, throws⟩ := zero_argument_throws
  refine ⟨_, reached, throws, argument_thrown reference throws, ?_⟩
  intro same
  have appends : ∀ arg ∈ zeroArgument, Appends arg := by
    intro arg member
    rw [List.mem_singleton.mp member]
    exact write_scalar_appends (.double 0)
  have longer := partial_request_left reference appends throws
  rw [WtfBuffer.size, WtfBuffer.size, same] at longer
  exact absurd longer (Nat.lt_irrefl _)

end IprotoWriter

end Cpp2tnt
