import Cpp2tnt.IprotoWriter

/-!
A `finalize` that throws. Both writers take the innermost container off the stack
and then look whether its header can hold the count. A container that is refused
is closed all the same, with the header it was opened with, and what is added next
is counted in the container around it.
-/

namespace Cpp2tnt
open Imperative MessagePack MpWriter

/-- An exception leaves the bytes and the open containers as they were. -/
def FailsCleanly (body : Write Unit) (writer : MpWriter) : Prop :=
  ∀ error reached, body writer = .thrown error reached →
    reached.buf = writer.buf ∧ reached.openedContainers = writer.openedContainers

/-- A header that was written for `maxCardinality` can be patched to this count. -/
def HeaderTakes (sizeof : Nat → Nat) (container : ContainerMeta) (actualCardinality : Nat) : Prop :=
  actualCardinality = container.maxCardinality ∨
    ¬ (actualCardinality > container.maxCardinality ∧
      sizeof actualCardinality > sizeof container.maxCardinality) ∧
    (sizeof container.maxCardinality = 1 ∨ sizeof container.maxCardinality = 3 ∨
      sizeof container.maxCardinality = 5)

/-- `mp_writer` can close a container whose header begins with this byte. -/
def Closable (mp : Msgpuck) (container : ContainerMeta) (head : UInt8) : Prop :=
  match mp.mpTypeof head with
  | .array => HeaderTakes mp.mpSizeofArray container container.itemsCount.toNat
  | .map => container.itemsCount.toNat % 2 ≠ 1 ∧
      HeaderTakes mp.mpSizeofMap container (container.itemsCount.toNat / 2)
  | _ => False

/-- `iproto_writer` can close it, where `size` bytes are in the buffer: the head of
a request holds the length of the request. -/
def RequestClosable (mp : Msgpuck) (size : Nat) (container : ContainerMeta) (head : UInt8) : Prop :=
  if head = 0xce then
    (((size : Int) - container.headOffset) % 2 ^ 64).toNat ≤ container.maxCardinality
  else Closable mp container head

/-- The innermost container, if there is one, passes the check. -/
def InnermostPasses (passes : ContainerMeta → UInt8 → Prop) (writer : MpWriter) : Prop :=
  ∀ container ∈ writer.openedContainers.items.head?,
    ∀ head ∈ writer.buf.storage[container.headOffset]?, passes container head

namespace WtfStack
variable {α : Type} {limit : Nat} {stack rest : WtfStack α limit} {item : α}

theorem items_of_pop (popped : stack.pop? = some (item, rest)) : stack.items = item :: rest.items := by
  obtain ⟨_ | ⟨first, others⟩, bounded⟩ := stack
  · cases popped
  · cases popped
    rfl

theorem items_of_pop_none (popped : stack.pop? = none) : stack.items = [] := by
  obtain ⟨_ | ⟨first, others⟩, bounded⟩ := stack
  · rfl
  · cases popped

end WtfStack

section Refusals
variable {mp : Msgpuck} {writer popped : MpWriter} {container : ContainerMeta} {head : UInt8}
variable {rest : WtfStack ContainerMeta 16}

theorem store_never_throws (offset : Nat) (bytes : Bytes) (error : Exn) (reached : MpWriter) :
    onBuffer (WtfBuffer.store offset bytes) popped ≠ .thrown error reached := by
  by_cases room : offset + bytes.length ≤ popped.buf.capacity
  · simp [onBuffer, Cxx.zoom, WtfBuffer.store, room]
  · simp [onBuffer, Cxx.zoom, WtfBuffer.store, room]

theorem patch_header_throws (encode : Nat → Bytes) (sizeof : Nat → Nat) (exceeded : String)
    (actual : Nat) : Cxx.ThrowsUnless (HeaderTakes sizeof container actual)
      (patchHeader mp encode sizeof exceeded container actual) popped popped := by
  unfold patchHeader
  by_cases exact : actual = container.maxCardinality
  · rw [if_pos exact]
    exact Cxx.throws_never nofun (.inl exact)
  · rw [if_neg exact]
    by_cases longer : actual > container.maxCardinality ∧
        sizeof actual > sizeof container.maxCardinality
    · rw [if_pos longer]
      apply Cxx.throws_always rfl
      rintro (same | ⟨fits, _⟩)
      · exact exact same
      · exact fits longer
    · rw [if_neg longer]
      by_cases one : sizeof container.maxCardinality = 1
      · rw [if_pos one]
        exact Cxx.throws_never (store_never_throws _ _) (.inr ⟨longer, .inl one⟩)
      · rw [if_neg one]
        by_cases three : sizeof container.maxCardinality = 3
        · rw [if_pos three]
          exact Cxx.throws_never (store_never_throws _ _) (.inr ⟨longer, .inr (.inl three)⟩)
        · rw [if_neg three]
          by_cases five : sizeof container.maxCardinality = 5
          · rw [if_pos five]
            exact Cxx.throws_never (store_never_throws _ _) (.inr ⟨longer, .inr (.inr five)⟩)
          · rw [if_neg five]
            apply Cxx.throws_always rfl
            rintro (same | ⟨_, width⟩)
            · exact exact same
            · exact width.elim one fun wide => wide.elim three five

theorem load_head (found : popped.buf.storage[container.headOffset]? = some head) :
    onBuffer (WtfBuffer.load container.headOffset) popped = .returned head popped := by
  simp [onBuffer, Cxx.zoom, WtfBuffer.load, found]

theorem load_nothing (missing : popped.buf.storage[container.headOffset]? = none) :
    onBuffer (WtfBuffer.load container.headOffset) popped = .undefined := by
  simp [onBuffer, Cxx.zoom, WtfBuffer.load, missing]

theorem finalize_throws (opened : writer.openedContainers.pop? = some (container, rest))
    (found : writer.buf.storage[container.headOffset]? = some head) :
    Cxx.ThrowsUnless (Closable mp container head) (MpWriter.finalize mp) writer
      { writer with openedContainers := rest } := by
  unfold MpWriter.finalize
  apply Cxx.throws_bind rfl
  simp only [opened]
  apply Cxx.throws_bind rfl
  have loaded : onBuffer (WtfBuffer.load container.headOffset)
      { writer with openedContainers := rest } =
        .returned head { writer with openedContainers := rest } := load_head found
  apply Cxx.throws_bind loaded
  unfold Closable
  cases mp.mpTypeof head with
  | array => exact patch_header_throws _ _ _ _
  | map =>
      by_cases odd : container.itemsCount.toNat % 2 = 1
      · simp only [if_pos odd]
        exact Cxx.throws_always rfl fun passes => passes.1 odd
      · simp only [if_neg odd]
        exact (patch_header_throws _ _ _ _).congr (and_iff_right odd).symm
  | _ => exact Cxx.throws_always rfl id

/-- A request head is recognized first; all other containers are left to `mp_writer`. -/
theorem request_finalize_throws (opened : writer.openedContainers.pop? = some (container, rest))
    (found : writer.buf.storage[container.headOffset]? = some head) :
    Cxx.ThrowsUnless (RequestClosable mp writer.buf.size container head)
      (IprotoWriter.finalize mp) writer { writer with openedContainers := rest } := by
  unfold IprotoWriter.finalize
  apply Cxx.throws_bind rfl
  simp only [opened]
  apply Cxx.throws_bind (load_head found)
  unfold RequestClosable
  by_cases request : head = 0xce
  · simp only [if_pos request]
    apply Cxx.throws_bind rfl
    generalize (((writer.buf.size : Int) - container.headOffset) % 2 ^ 64).toNat = size
    by_cases none : size = 0
    · rw [if_pos none]
      exact Cxx.throws_never nofun (none ▸ Nat.zero_le _)
    · rw [if_neg none]
      by_cases exceeded : size > container.maxCardinality
      · rw [if_pos exceeded]
        exact Cxx.throws_always rfl (Nat.not_le_of_gt exceeded)
      · rw [if_neg exceeded]
        exact Cxx.throws_never (store_never_throws _ _) (Nat.le_of_not_gt exceeded)
  · simp only [if_neg request]
    exact finalize_throws opened found

theorem fails_cleanly_iff {body : Write Unit} {passes : ContainerMeta → UInt8 → Prop}
    (nothing : ∀ error reached, writer.openedContainers.pop? = none →
      body writer = .thrown error reached → reached = writer)
    (outside : ∀ container rest, writer.openedContainers.pop? = some (container, rest) →
      writer.buf.storage[container.headOffset]? = none → body writer = .undefined)
    (refuses : ∀ container rest head, writer.openedContainers.pop? = some (container, rest) →
      writer.buf.storage[container.headOffset]? = some head →
        Cxx.ThrowsUnless (passes container head) body writer
          { writer with openedContainers := rest }) :
    FailsCleanly body writer ↔ InnermostPasses passes writer := by
  cases opened : writer.openedContainers.pop? with
  | none =>
      refine iff_of_true ?_ ?_
      · intro error reached done
        rw [nothing error reached opened done]
        exact ⟨rfl, rfl⟩
      · intro container innermost
        rw [WtfStack.items_of_pop_none opened] at innermost
        cases innermost
  | some top =>
      obtain ⟨container, rest⟩ := top
      have items := WtfStack.items_of_pop opened
      constructor
      · intro clean other innermost head found
        rw [items] at innermost
        cases innermost
        by_contra refused
        -- the exception leaves the stack without its top, so it cannot be the same
        obtain ⟨error, done⟩ := (refuses container rest head opened found).2 refused
        have same := congrArg WtfStack.items (clean error _ done).2
        rw [items] at same
        exact List.cons_ne_self container rest.items same.symm
      · intro passed error reached done
        cases found : writer.buf.storage[container.headOffset]? with
        | none =>
            rw [outside container rest opened found] at done
            cases done
        | some head =>
            have innermost : container ∈ writer.openedContainers.items.head? := by
              rw [items]
              rfl
            have fine := passed container innermost head found
            exact absurd done ((refuses container rest head opened found).1 fine error reached)

/-- An exception of `finalize` leaves the writer as it was if and only if no container
is open or the innermost one passes the check, so that nothing is thrown. -/
theorem finalize_fails_cleanly_iff (mp : Msgpuck) (writer : MpWriter) :
    (FailsCleanly (MpWriter.finalize mp) writer ↔ InnermostPasses (Closable mp) writer) ∧
    (FailsCleanly (IprotoWriter.finalize mp) writer ↔
      InnermostPasses (RequestClosable mp writer.buf.size) writer) := by
  constructor
  · apply fails_cleanly_iff
    · intro error reached none done
      simp only [MpWriter.finalize, Cxx.bind_get, none, Cxx.throw_run] at done
      cases done
      rfl
    · intro container rest opened missing
      have unloaded : onBuffer (WtfBuffer.load container.headOffset)
          { writer with openedContainers := rest } = .undefined := load_nothing missing
      simp only [MpWriter.finalize, Cxx.bind_get, opened, Cxx.bind_put]
      rw [Cxx.bind_run, unloaded]
    · intro container rest head opened found
      exact finalize_throws opened found
  · apply fails_cleanly_iff
    · intro error reached none done
      simp only [IprotoWriter.finalize, Cxx.bind_get, none, Cxx.throw_run] at done
      cases done
      rfl
    · intro container rest opened missing
      simp only [IprotoWriter.finalize, Cxx.bind_get, opened]
      rw [Cxx.bind_run, load_nothing missing]
    · intro container rest head opened found
      exact request_finalize_throws opened found

end Refusals

/-- An array of two around a map of one pair that has got its key only. The map is
closed by the call that refuses it; its value is then counted in the array. -/
theorem odd_map_is_closed : ∃ writer refused finished,
    execAll reference [.begin .array 2, .begin .map 1, .scalar (.int 1)]
      (MpWriter.ofBuffer (WtfBuffer.ofSize 16)) = .returned () writer ∧
    MpWriter.finalize reference writer =
      .thrown ⟨.runtimeError, "odd number of map items"⟩ refused ∧
    ¬ FailsCleanly (MpWriter.finalize reference) writer ∧
    execAll reference [.scalar (.int 2), .finalize] refused = .returned () finished ∧
    finished.openedContainers.items = [] ∧ finished.buf.content = [0x92, 0x81, 1, 2] ∧
    (decode [0x92, 0x81, 1, 2]).isNone := by
  refine ⟨_, _, _, rfl, rfl, ?_, rfl, rfl, rfl, by decide⟩
  intro clean
  have same := congrArg (fun stack => stack.items.length) (clean _ _ rfl).2
  cases same

end Cpp2tnt
