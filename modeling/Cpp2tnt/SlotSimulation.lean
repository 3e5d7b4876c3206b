import Cpp2tnt.CleanFinalize
import Cpp2tnt.StackBounds

/-!
The stack of open containers in memory against the one of the writer. As long as
the list of the open containers has an element for every `push`, the array holds
the same containers in the same order, each call has the same outcome on both,
and every slot that is used is inside.
-/

namespace Cpp2tnt
open Imperative MessagePack Transition

def MpWriter.reset : Write Unit := do
  let writer ← Cxx.get
  Cxx.put { writer with
    openedContainers := WtfStack.empty
    buf := writer.buf.clear }

/-- The open containers are in the first slots, the innermost one last. -/
structure SlotStack.Holds (stack : SlotStack) (opened : WtfStack ContainerMeta 16) : Prop where
  slots : stack.items.length = 16
  size : stack.size = opened.items.length
  content : (stack.items.take stack.size).reverse = opened.items

/-- The writers have one text and the same containers open. -/
structure SlotWriter.Represents (writer : MpWriter) (lower : SlotWriter) : Prop where
  buf : lower.buf = writer.buf
  stack : lower.openedContainers.Holds writer.openedContainers
  inside : ∀ use ∈ lower.uses, use.Inside

namespace SlotStack
variable {stack : SlotStack} {opened : WtfStack ContainerMeta 16} {container : ContainerMeta}
  {rest : List ContainerMeta} {bounded : (container :: rest).length ≤ 16}

theorem Holds.push (holds : stack.Holds opened) (value : ContainerMeta)
    (room : opened.items.length < 16) :
    Holds ⟨stack.items.set stack.size value, stack.size + 1⟩ ⟨value :: opened.items, room⟩ where
  slots := by
    rw [List.length_set]
    exact holds.slots
  size := congrArg (· + 1) holds.size
  content := by
    have slot : stack.size < (stack.items.set stack.size value).length := by
      rw [List.length_set, holds.slots, holds.size]
      exact room
    rw [List.take_succ_eq_append_getElem slot, List.getElem_set_self,
      List.take_set_of_le (Nat.le_refl _), List.reverse_append, holds.content]
    rfl

theorem Holds.innermost (holds : stack.Holds ⟨container :: rest, bounded⟩) :
    stack.topSlot = rest.length ∧ stack.size = rest.length + 1 ∧
      stack.items[rest.length]? = some container ∧
      (stack.items.take rest.length).reverse = rest := by
  have size : stack.size = rest.length + 1 := holds.size
  have slot : rest.length < stack.items.length := by
    rw [holds.slots]
    exact bounded
  have content := holds.content
  rw [size, List.take_succ_eq_append_getElem slot, List.reverse_append] at content
  obtain ⟨top, below⟩ := List.cons.inj content
  refine ⟨?_, size, ?_, below⟩
  · rw [topSlot, if_pos (by rw [size]; exact Nat.succ_ne_zero _), size]
    rfl
  · rw [List.getElem?_eq_getElem slot]
    exact congrArg some top

theorem Holds.pop (holds : stack.Holds ⟨container :: rest, bounded⟩) :
    Holds ⟨stack.items, stack.size - 1⟩ ⟨rest, Nat.le_of_succ_le bounded⟩ := by
  obtain ⟨_, size, _, below⟩ := holds.innermost
  refine ⟨holds.slots, Nat.pred_eq_of_eq_succ size, ?_⟩
  simp only [size, Nat.add_sub_cancel]
  exact below

theorem Holds.mapTop (holds : stack.Holds ⟨container :: rest, bounded⟩) (value : ContainerMeta) :
    Holds ⟨stack.items.set stack.topSlot value, stack.size⟩ ⟨value :: rest, bounded⟩ := by
  obtain ⟨slot, size, _, _⟩ := holds.innermost
  have pushed := holds.pop.push value bounded
  simp only [size, Nat.add_sub_cancel] at pushed
  rw [slot, size]
  exact pushed

end SlotStack

namespace SlotWriter
section Calls
variable {mp : Msgpuck} {writer : MpWriter} {lower : SlotWriter} {container : ContainerMeta}
  {rest : List ContainerMeta} {bounded : (container :: rest).length ≤ 16}

theorem Represents.size (holds : Represents writer lower) :
    lower.openedContainers.size = writer.openedContainers.items.length := holds.stack.size

theorem Represents.opened {buf : WtfBuffer UInt8}
    (holds : Represents ⟨buf, ⟨container :: rest, bounded⟩⟩ lower) :
    lower.openedContainers.size ≠ 0 := by
  rw [holds.size]
  exact Nat.succ_ne_zero _

theorem top_returned {buf : WtfBuffer UInt8}
    (holds : Represents ⟨buf, ⟨container :: rest, bounded⟩⟩ lower) :
    ∃ looked, top lower = .returned container looked ∧
      Represents ⟨buf, ⟨container :: rest, bounded⟩⟩ looked ∧
      looked.openedContainers = lower.openedContainers := by
  obtain ⟨slot, size, found, _⟩ := holds.stack.innermost
  refine ⟨{ lower with
    uses := .look lower.openedContainers.topSlot lower.openedContainers.size :: lower.uses }, ?_, ?_, rfl⟩
  · simp only [top, Cxx.bind_get, Cxx.bind_put, slot, found]
    rfl
  · refine ⟨holds.buf, holds.stack, List.forall_mem_cons.mpr ⟨?_, holds.inside⟩⟩
    rw [slot, size]
    exact ⟨Nat.lt_succ_self _, bounded⟩

theorem pop_returned {buf : WtfBuffer UInt8}
    (holds : Represents ⟨buf, ⟨container :: rest, bounded⟩⟩ lower) :
    ∃ popped, pop lower = .returned container popped ∧
      Represents ⟨buf, ⟨rest, Nat.le_of_succ_le bounded⟩⟩ popped := by
  obtain ⟨looked, found, stands, _⟩ := top_returned holds
  refine ⟨_, Cxx.bind_returned found _, stands.buf, ?_, stands.inside⟩
  exact stands.stack.pop

theorem on_buffer_simulates {α : Type} (body : Cxx Exn (WtfBuffer UInt8) α) :
    Cxx.Simulates Represents (MpWriter.onBuffer body) (onBuffer body) :=
  Cxx.simulates_zoom (fun _ _ holds => holds.buf)
    fun _ _ _ holds => ⟨rfl, holds.stack, holds.inside⟩

theorem increment_simulates (items : Nat) : Cxx.Simulates Represents
    (MpWriter.incrementContainerCounter items) (incrementContainerCounter items) := by
  rintro ⟨buf, ⟨_ | ⟨container, rest⟩, bounded⟩⟩ lower holds
  · have none : ¬ lower.openedContainers.size ≠ 0 := fun some => some holds.size
    simp only [incrementContainerCounter, Cxx.bind_get, if_neg none]
    exact ⟨rfl, holds⟩
  · obtain ⟨looked, found, stands, _⟩ := top_returned holds
    simp only [incrementContainerCounter, Cxx.bind_get, if_pos holds.opened]
    rw [Cxx.bind_returned found]
    exact ⟨rfl, stands.buf, stands.stack.mapTop _, stands.inside⟩

theorem push_container_simulates (maxCardinality : Nat) : Cxx.Simulates Represents
    (MpWriter.pushContainer maxCardinality) (pushContainer maxCardinality) := by
  intro writer lower holds
  by_cases room : writer.openedContainers.items.length < 16
  · rw [MpWriter.push_container_returned maxCardinality writer room]
    have slot : (SlotUse.store lower.openedContainers.size).Inside := by
      rw [holds.size]
      exact room
    have pushed := holds.stack.push ⟨lower.buf.size, maxCardinality, 0⟩ room
    rw [holds.buf] at pushed
    refine ⟨rfl, holds.buf, ?_, List.forall_mem_cons.mpr ⟨slot, holds.inside⟩⟩
    simp only [holds.buf]
    exact pushed
  · simp only [MpWriter.pushContainer, Cxx.bind_get, WtfStack.push?, dif_neg room]
    trivial

theorem begin_simulates (kind : Container) (maxCardinality : Nat) : Cxx.Simulates Represents
    (WriterOp.exec mp (.begin kind maxCardinality)) (beginContainer mp kind maxCardinality) := by
  cases kind with
  | array =>
      refine Cxx.simulates_bind (increment_simulates 1) fun _ => ?_
      refine Cxx.simulates_bind (push_container_simulates maxCardinality) fun _ => ?_
      exact on_buffer_simulates _
  | map =>
      refine Cxx.simulates_bind (increment_simulates 1) fun _ => ?_
      refine Cxx.simulates_bind (push_container_simulates maxCardinality) fun _ => ?_
      exact on_buffer_simulates _

/-! What is left of a call once its container is popped is the same computation
whatever else is open. -/

def SameText (rest other : WtfStack ContainerMeta 16) (left right : MpWriter) : Prop :=
  right.buf = left.buf ∧ left.openedContainers = rest ∧ right.openedContainers = other

section Popped
variable {below other opened : WtfStack ContainerMeta 16}

theorem buffer_same_text {α : Type} (body : Cxx Exn (WtfBuffer UInt8) α) : Cxx.Simulates
    (SameText below other) (MpWriter.onBuffer body) (MpWriter.onBuffer body) :=
  Cxx.simulates_zoom (fun _ _ holds => holds.1) fun _ _ _ holds => ⟨rfl, holds.2⟩

theorem patch_same_text (encode : Nat → Bytes) (sizeof : Nat → Nat) (exceeded : String)
    (actual : Nat) : Cxx.Simulates (SameText below other)
      (MpWriter.patchHeader mp encode sizeof exceeded container actual)
      (MpWriter.patchHeader mp encode sizeof exceeded container actual) := by
  unfold MpWriter.patchHeader
  refine Cxx.simulates_ite Iff.rfl (fun _ => Cxx.simulates_pure ()) fun _ => ?_
  refine Cxx.simulates_ite Iff.rfl (fun _ => Cxx.simulates_throw _) fun _ => ?_
  refine Cxx.simulates_ite Iff.rfl (fun _ => buffer_same_text _) fun _ => ?_
  refine Cxx.simulates_ite Iff.rfl (fun _ => buffer_same_text _) fun _ => ?_
  exact Cxx.simulates_ite Iff.rfl (fun _ => buffer_same_text _) fun _ => Cxx.simulates_throw _

theorem finalize_same_text (buf : WtfBuffer UInt8) :
    Cxx.Follows (SameText ⟨rest, Nat.le_of_succ_le bounded⟩ WtfStack.empty)
      (MpWriter.finalize mp ⟨buf, ⟨container :: rest, bounded⟩⟩)
      (MpWriter.finalize mp ⟨buf, onlyOpen container⟩) := by
  simp only [MpWriter.finalize, Cxx.bind_get, onlyOpen, WtfStack.pop?]
  refine Cxx.follows_bind ?popped fun _ => ?patched
  case popped => exact ⟨rfl, rfl, rfl, rfl⟩
  case patched =>
    refine Cxx.simulates_bind (buffer_same_text _) fun head => ?_
    cases mp.mpTypeof head with
    | array => exact patch_same_text _ _ _ _
    | map =>
        refine Cxx.simulates_ite Iff.rfl (fun _ => Cxx.simulates_throw _) fun _ => ?_
        exact patch_same_text _ _ _ _
    | _ => exact Cxx.simulates_throw _

theorem request_same_text {buf : WtfBuffer UInt8}
    (found : buf.storage[container.headOffset]? = some 0xce) :
    Cxx.Follows (SameText ⟨rest, Nat.le_of_succ_le bounded⟩ WtfStack.empty)
      (IprotoWriter.finalize mp ⟨buf, ⟨container :: rest, bounded⟩⟩)
      (IprotoWriter.finalize mp ⟨buf, onlyOpen container⟩) := by
  simp only [IprotoWriter.finalize, Cxx.bind_get, onlyOpen, WtfStack.pop?]
  rw [Cxx.bind_returned (load_head found), Cxx.bind_returned (load_head found)]
  simp only [if_true]
  refine Cxx.follows_bind ?popped fun _ => ?patched
  case popped => exact ⟨rfl, rfl, rfl, rfl⟩
  case patched =>
    refine Cxx.simulates_ite Iff.rfl (fun _ => Cxx.simulates_pure ()) fun _ => ?_
    exact Cxx.simulates_ite Iff.rfl (fun _ => Cxx.simulates_throw _) fun _ => buffer_same_text _

theorem buffered_follows {buf : WtfBuffer UInt8} (holds : Represents ⟨buf, below⟩ lower)
    {outcome : Outcome Exn MpWriter Unit} {body : Write Unit}
    (same : Cxx.Follows (SameText below other) outcome (body ⟨lower.buf, opened⟩)) :
    Cxx.Follows Represents outcome (buffered opened body lower) := by
  have written : ∀ {reached after : MpWriter}, SameText below other reached after →
      Represents reached { lower with buf := after.buf } := by
    rintro ⟨_, _⟩ after ⟨text, rfl, _⟩
    exact ⟨text, holds.stack, holds.inside⟩
  unfold buffered Cxx.zoom
  cases ran : body ⟨lower.buf, opened⟩ with
  | returned value after =>
      rw [ran] at same
      cases outcome with
      | returned _ reached => exact ⟨same.1, written same.2⟩
      | thrown _ _ => exact same.elim
      | undefined => trivial
  | thrown error after =>
      rw [ran] at same
      cases outcome with
      | returned _ _ => exact same.elim
      | thrown _ reached => exact ⟨same.1, written same.2⟩
      | undefined => trivial
  | undefined =>
      rw [ran] at same
      cases outcome with
      | returned _ _ | thrown _ _ => exact same.elim
      | undefined => trivial

end Popped

theorem finalize_simulates :
    Cxx.Simulates Represents (MpWriter.finalize mp) (finalize mp) := by
  rintro ⟨buf, ⟨_ | ⟨container, rest⟩, bounded⟩⟩ lower holds
  · have none : lower.openedContainers.size = 0 := holds.size
    simp only [finalize, Cxx.bind_get, if_pos none]
    exact ⟨rfl, holds⟩
  · -- what patches the header is the same call on a stack with this container alone
    obtain ⟨popped, found, stands⟩ := pop_returned holds
    simp only [finalize, Cxx.bind_get, if_neg holds.opened]
    rw [Cxx.bind_returned found]
    apply buffered_follows stands
    rw [stands.buf]
    exact finalize_same_text buf

theorem scalar_text {value : Scalar} {bytes : Bytes}
    (encoded : MpWriter.scalarBytes mp value = .ok bytes) :
    buffered WtfStack.empty (MpWriter.writeScalar mp value) = onBuffer (WtfBuffer.append bytes) := by
  funext lower
  simp only [buffered, onBuffer, Cxx.zoom, MpWriter.writeScalar, encoded, MpWriter.emit,
    MpWriter.onBuffer, Cxx.bind_run]
  cases WtfBuffer.append bytes lower.buf <;> rfl

theorem scalar_simulates (value : Scalar) :
    Cxx.Simulates Represents (MpWriter.writeScalar mp value) (writeScalar mp value) := by
  cases encoded : MpWriter.scalarBytes mp value with
  | error error =>
      intro writer lower holds
      have refused : buffered WtfStack.empty (MpWriter.writeScalar mp value) lower =
          .thrown error lower := by
        simp only [buffered, Cxx.zoom, MpWriter.writeScalar, encoded, Cxx.throw_run]
      rw [writeScalar, Cxx.bind_thrown refused, MpWriter.writeScalar, encoded]
      exact ⟨rfl, holds⟩
  | ok bytes =>
      rw [writeScalar, scalar_text encoded, MpWriter.writeScalar, encoded]
      exact Cxx.simulates_bind (on_buffer_simulates _) fun _ => increment_simulates 1

theorem range_simulates (bytes : Bytes) (cardinality : Nat) :
    Cxx.Simulates Represents (countRange mp bytes cardinality) (do
      let writer ← Cxx.get
      if writer.openedContainers.size ≠ 0 then
        if cardinality = 0 then
          let (counted, _) ← Cxx.onObject (MpWriter.countItems mp bytes (bytes.length + 1))
            (MpReader.plain 0 bytes.length)
          incrementContainerCounter counted
        else incrementContainerCounter cardinality) := by
  refine Cxx.simulates_get_bind fun writer lower holds => ?_
  have opened : (!writer.openedContainers.items.isEmpty) = true ↔
      lower.openedContainers.size ≠ 0 := by
    rw [holds.size]
    cases writer.openedContainers.items <;> simp
  refine Cxx.simulates_ite opened (fun _ => ?_) fun _ => Cxx.simulates_pure ()
  refine Cxx.simulates_ite Iff.rfl (fun _ => ?_) fun _ => increment_simulates cardinality
  exact Cxx.simulates_bind Cxx.simulates_onObject fun counted => increment_simulates counted.1

theorem write_simulates (bytes : Bytes) (cardinality : Nat) :
    Cxx.Simulates Represents (MpWriter.write mp bytes cardinality) (write mp bytes cardinality) := by
  intro writer lower holds
  have same := holds.buf
  -- the bytes have room, or a fixed buffer refuses them, or the copy is undefined
  by_cases room : bytes.length ≤ writer.buf.available
  · have within : bytes.length ≤ lower.buf.available := by rwa [same]
    have alone : MpWriter.write mp bytes cardinality ⟨lower.buf, WtfStack.empty⟩ =
        countRange mp bytes cardinality ⟨lower.buf.push bytes, WtfStack.empty⟩ :=
      write_within bytes cardinality within
    have appended : buffered WtfStack.empty (MpWriter.write mp bytes cardinality) lower =
        .returned () { lower with buf := lower.buf.push bytes } := by
      simp only [buffered, Cxx.zoom, alone]
      rfl
    rw [write_within bytes cardinality room, write, Cxx.bind_returned appended]
    apply range_simulates
    exact ⟨congrArg (WtfBuffer.push bytes) same, holds.stack, holds.inside⟩
  · by_cases fixed : writer.buf.target = .raw false
    · have alone : MpWriter.write mp bytes cardinality ⟨writer.buf, WtfStack.empty⟩ =
          .thrown ⟨.runtimeError, "unable to resize raw buffer"⟩ ⟨writer.buf, WtfStack.empty⟩ :=
        write_refused bytes cardinality room fixed
      have refused : buffered WtfStack.empty (MpWriter.write mp bytes cardinality) lower =
          .thrown ⟨.runtimeError, "unable to resize raw buffer"⟩ lower := by
        simp only [buffered, Cxx.zoom, same, alone]
        rw [← same]
      rw [write_refused bytes cardinality room fixed, write, Cxx.bind_thrown refused]
      exact ⟨rfl, holds⟩
    · rw [write_overruns bytes cardinality room fixed]
      trivial

theorem exec_simulates (op : WriterOp) :
    Cxx.Simulates Represents (op.exec mp) (exec mp op) := by
  cases op with
  | begin kind maxCardinality => exact begin_simulates kind maxCardinality
  | finalize => exact finalize_simulates
  | scalar value => exact scalar_simulates value
  | write bytes cardinality => exact write_simulates bytes cardinality

theorem request_finalize_outside {buf : WtfBuffer UInt8}
    (missing : buf.storage[container.headOffset]? = none) :
    IprotoWriter.finalize mp ⟨buf, ⟨container :: rest, bounded⟩⟩ = .undefined := by
  have unloaded : MpWriter.onBuffer (WtfBuffer.load container.headOffset)
      ⟨buf, ⟨container :: rest, bounded⟩⟩ = .undefined := load_nothing missing
  simp only [IprotoWriter.finalize, Cxx.bind_get, WtfStack.pop?]
  rw [Cxx.bind_run, unloaded]

theorem request_finalize_other {buf : WtfBuffer UInt8} {head : UInt8}
    (found : buf.storage[container.headOffset]? = some head) (other : ¬ head = 0xce) :
    IprotoWriter.finalize mp ⟨buf, ⟨container :: rest, bounded⟩⟩ =
      MpWriter.finalize mp ⟨buf, ⟨container :: rest, bounded⟩⟩ := by
  simp only [IprotoWriter.finalize, Cxx.bind_get, WtfStack.pop?]
  rw [Cxx.bind_returned (load_head found), if_neg other]

theorem finalize_request_simulates :
    Cxx.Simulates Represents (IprotoWriter.finalize mp) (finalizeRequest mp) := by
  rintro ⟨buf, ⟨_ | ⟨container, rest⟩, bounded⟩⟩ lower holds
  · have none : lower.openedContainers.size = 0 := holds.size
    simp only [finalizeRequest, Cxx.bind_get, if_pos none]
    exact ⟨rfl, holds⟩
  · obtain ⟨looked, found, stands, _⟩ := top_returned holds
    simp only [finalizeRequest, Cxx.bind_get, if_neg holds.opened]
    rw [Cxx.bind_returned found]
    cases loaded : buf.storage[container.headOffset]? with
    | none =>
        rw [request_finalize_outside loaded]
        trivial
    | some head =>
        have reads : onBuffer (WtfBuffer.load container.headOffset) looked =
            .returned head looked := by
          have stored : looked.buf.storage[container.headOffset]? = Option.some head := by
            rw [stands.buf]
            exact loaded
          simp [onBuffer, Cxx.zoom, WtfBuffer.load, stored]
        rw [Cxx.bind_returned reads]
        by_cases request : head = 0xce
        · obtain ⟨popped, taken, left⟩ := pop_returned stands
          rw [if_pos request, Cxx.bind_returned taken]
          apply buffered_follows left
          rw [left.buf]
          exact request_same_text (request ▸ loaded)
        · rw [if_neg request, request_finalize_other loaded request]
          exact finalize_simulates _ _ stands

theorem rounds_simulate {body : Write Unit} {turn : SlotWrite Unit}
    (each : Cxx.Simulates Represents body turn) : Cxx.Simulates Represents (do
      let writer ← Cxx.get
      Cxx.forEach (fun _ => body) writer.openedContainers.items) (finalizeAll turn) := by
  refine Cxx.simulates_get_bind fun writer lower holds => ?_
  apply Cxx.simulates_rounds each
  rw [List.length_range, holds.size]

theorem start_message_simulates :
    Cxx.Simulates Represents (IprotoWriter.startMessage mp) (startMessage mp) := by
  refine Cxx.simulates_bind (rounds_simulate finalize_request_simulates) fun _ => ?_
  refine Cxx.simulates_get_bind fun writer lower holds => ?_
  have head : Cxx.Simulates Represents (do
      MpWriter.pushContainer (2 ^ 32 - 1)
      MpWriter.emit (mp.mpStoreU8 0xce)
      MpWriter.onBuffer (WtfBuffer.advance 4)) (do
      pushContainer (2 ^ 32 - 1)
      onBuffer (WtfBuffer.append (mp.mpStoreU8 0xce))
      onBuffer (WtfBuffer.advance 4)) := by
    refine Cxx.simulates_bind (push_container_simulates _) fun _ => ?_
    exact Cxx.simulates_bind (on_buffer_simulates _) fun _ => on_buffer_simulates _
  have low : writer.buf.capacity - writer.buf.size < 1024 ↔
      lower.buf.capacity - lower.buf.size < 1024 := by rw [holds.buf]
  refine Cxx.simulates_ite low (fun _ => ?_) fun _ => head
  rw [holds.buf]
  exact Cxx.simulates_bind (on_buffer_simulates _) fun _ => head

theorem set_state_simulates {state : MpWriter.SavedState} {saved : SavedSlots}
    (length : saved.contentLen = state.contentLen)
    (stack : saved.openedContainers.Holds state.openedContainers) :
    Cxx.Simulates Represents (MpWriter.setState state) (setState saved) := by
  intro writer lower holds
  simp only [MpWriter.setState, setState, Cxx.bind_get, length, holds.buf]
  split_ifs
  · exact ⟨rfl, rfl, stack, holds.inside⟩
  · exact ⟨rfl, holds⟩

theorem reset_simulates : Cxx.Simulates Represents MpWriter.reset reset := by
  intro writer lower holds
  have empty : SlotStack.Holds ⟨lower.openedContainers.items, 0⟩ WtfStack.empty :=
    ⟨holds.stack.slots, rfl, rfl⟩
  exact ⟨rfl, congrArg WtfBuffer.clear holds.buf, empty, holds.inside⟩

end Calls
end SlotWriter

/-- A session with the list of the open containers. -/
structure WriterSession where
  writer : MpWriter
  saved : List MpWriter.SavedState

namespace WriterSession
section Steps
variable (mp : Msgpuck)

def run (session : WriterSession) : SessionEvent → Option (Write Unit)
  | .call op => some (op.exec mp)
  | .value doc => some (execAll mp doc.ops)
  | .increment itemsAdded => some (MpWriter.incrementContainerCounter itemsAdded)
  | .emit bytes => some (MpWriter.emit bytes)
  | .startMessage => some (IprotoWriter.startMessage mp)
  | .finalizeRequest => some (IprotoWriter.finalize mp)
  | .finalizeAll => some (MpWriter.finalizeAll mp)
  | .finalizeAllRequests => some (IprotoWriter.finalizeAll mp)
  | .save => some (pure ())
  | .restore index => session.saved[index]?.map MpWriter.setState
  | .reset => some MpWriter.reset

def noted (session : WriterSession) : SessionEvent → List MpWriter.SavedState
  | .save => MpWriter.getState session.writer :: session.saved
  | _ => session.saved

def step (event : SessionEvent) (session : WriterSession) : Option WriterSession :=
  match session.run mp event with
  | none => none
  | some body => match body session.writer with
    | .returned _ after => some ⟨after, session.noted event⟩
    | .thrown _ after => some ⟨after, session.noted event⟩
    | .undefined => none

end Steps

/-- The writers agree, and so do the states their users have saved. -/
structure Represents (session : WriterSession) (lower : SlotSession) : Prop where
  writer : SlotWriter.Represents session.writer lower.writer
  saved : ∀ (index : Nat) (state : MpWriter.SavedState), session.saved[index]? = some state →
    ∃ slots, lower.saved[index]? = some slots ∧ slots.contentLen = state.contentLen ∧
      slots.openedContainers.Holds state.openedContainers

section Runs
variable {mp : Msgpuck} {session after final : WriterSession} {lower : SlotSession}
  {event : SessionEvent} {events : List SessionEvent}

theorem Represents.run (holds : session.Represents lower) {body : Write Unit}
    (called : session.run mp event = some body) :
    ∃ turn, lower.run mp event = some turn ∧ Cxx.Simulates SlotWriter.Represents body turn := by
  cases event with
  | call op =>
      cases called
      exact ⟨_, rfl, SlotWriter.exec_simulates op⟩
  | value doc =>
      cases called
      exact ⟨_, rfl, Cxx.simulates_forEach SlotWriter.exec_simulates doc.ops⟩
  | increment itemsAdded =>
      cases called
      exact ⟨_, rfl, SlotWriter.increment_simulates itemsAdded⟩
  | emit bytes =>
      cases called
      exact ⟨_, rfl, SlotWriter.on_buffer_simulates _⟩
  | startMessage =>
      cases called
      exact ⟨_, rfl, SlotWriter.start_message_simulates⟩
  | finalizeRequest =>
      cases called
      exact ⟨_, rfl, SlotWriter.finalize_request_simulates⟩
  | finalizeAll =>
      cases called
      exact ⟨_, rfl, SlotWriter.rounds_simulate SlotWriter.finalize_simulates⟩
  | finalizeAllRequests =>
      cases called
      exact ⟨_, rfl, SlotWriter.rounds_simulate SlotWriter.finalize_request_simulates⟩
  | save =>
      cases called
      exact ⟨_, rfl, Cxx.simulates_pure ()⟩
  | restore index =>
      obtain ⟨state, found, rfl⟩ := Option.map_eq_some_iff.mp called
      obtain ⟨slots, kept, length, stack⟩ := holds.saved index state found
      exact ⟨_, congrArg (Option.map SlotWriter.setState) kept,
        SlotWriter.set_state_simulates length stack⟩
  | reset =>
      cases called
      exact ⟨_, rfl, SlotWriter.reset_simulates⟩

theorem Represents.noted (holds : session.Represents lower) (event : SessionEvent) :
    ∀ (index : Nat) (state : MpWriter.SavedState), (session.noted event)[index]? = some state →
      ∃ slots, (lower.noted event)[index]? = some slots ∧ slots.contentLen = state.contentLen ∧
        slots.openedContainers.Holds state.openedContainers := by
  cases event with
  | save =>
      intro index state found
      cases index with
      | zero =>
          cases found
          exact ⟨_, rfl, congrArg WtfBuffer.size holds.writer.buf, holds.writer.stack⟩
      | succ index => exact holds.saved index state found
  | _ => exact holds.saved

theorem Represents.step (holds : session.Represents lower)
    (done : WriterSession.step mp event session = some after) :
    ∃ reached, SlotSession.step mp event lower = some reached ∧ after.Represents reached := by
  unfold WriterSession.step at done
  cases called : session.run mp event with
  | none =>
      rw [called] at done
      cases done
  | some body =>
      obtain ⟨turn, below, simulates⟩ := holds.run called
      have follows := simulates session.writer lower.writer holds.writer
      have noted := holds.noted event
      rw [called] at done
      dsimp only at done
      rw [SlotSession.step, below]
      dsimp only
      cases ran : body session.writer with
      | undefined =>
          rw [ran] at done
          cases done
      | returned value reached =>
          rw [ran] at follows done
          cases done
          cases arrived : turn lower.writer with
          | returned other slots =>
              rw [arrived] at follows
              exact ⟨_, rfl, follows.2, noted⟩
          | thrown _ _ | undefined =>
              rw [arrived] at follows
              exact follows.elim
      | thrown error reached =>
          rw [ran] at follows done
          cases done
          cases arrived : turn lower.writer with
          | thrown other slots =>
              rw [arrived] at follows
              exact ⟨_, rfl, follows.2, noted⟩
          | returned _ _ | undefined =>
              rw [arrived] at follows
              exact follows.elim

/-- Every run the list of open containers allows is a run of the array: with the
same text and the same exceptions, and no slot used that is outside. -/
theorem run_represented {allowed : WriterSession → SessionEvent → Prop}
    (fresh : lower.Fresh) (run : Run (step mp) allowed
      ⟨MpWriter.ofBuffer lower.writer.buf, []⟩ events final) :
    ∃ reached, Run (SlotSession.step mp) (fun _ _ => True) lower events reached ∧
      final.Represents reached ∧ reached.StaysInside := by
  have stack : lower.writer.openedContainers.Holds WtfStack.empty :=
    ⟨fresh.slots, fresh.size, by rw [fresh.size]; rfl⟩
  have inside : ∀ use ∈ lower.writer.uses, use.Inside := by
    rw [fresh.unused]
    exact List.forall_mem_nil _
  have initial : Represents ⟨MpWriter.ofBuffer lower.writer.buf, []⟩ lower :=
    ⟨⟨rfl, stack, inside⟩, fun _ _ found => by cases found⟩
  obtain ⟨reached, below, holds⟩ :=
    run.followed (fun _ _ _ _ holds done => Represents.step holds done) initial
  exact ⟨reached, below, holds, holds.writer.inside⟩

end Runs
end WriterSession

end Cpp2tnt
