import Cpp2tnt.IprotoWriter
import Cpp2tnt.WriterUndo
import Cpp2tnt.Library.Transition

/-!
The stack of open containers as it lies in memory: an array of sixteen slots and
the number of those in use. `push` stores behind them without a check; `top` and
`pop` are guarded by their callers. The writer over such a stack notes every slot
it uses. What a call does to the buffer alone is what it does on an empty stack.
-/

namespace Cpp2tnt
open Imperative MessagePack MpWriter Transition

/-- A use of a slot: a store behind the elements, or a look at an element. -/
inductive SlotUse where
  | store (slot : Nat)
  | look (slot inUse : Nat)
  deriving DecidableEq

/-- A store stays in the array; what is looked at was pushed and not yet popped. -/
def SlotUse.Inside : SlotUse → Prop
  | .store slot => slot < 16
  | .look slot inUse => slot < inUse ∧ inUse ≤ 16

/-- `wtf_stack<container_meta>`. -/
structure SlotStack where
  items : List ContainerMeta
  size : Nat

def SlotStack.topSlot (stack : SlotStack) : Nat :=
  if stack.size ≠ 0 then stack.size - 1 else stack.size

structure SlotWriter where
  buf : WtfBuffer UInt8
  openedContainers : SlotStack
  uses : List SlotUse

abbrev SlotWrite := Cxx Exn SlotWriter

namespace SlotWriter

def onBuffer {α : Type} (body : Cxx Exn (WtfBuffer UInt8) α) : SlotWrite α :=
  Cxx.zoom SlotWriter.buf (fun buf writer => { writer with buf := buf }) body

def buffered (opened : WtfStack ContainerMeta 16) (body : Write Unit) : SlotWrite Unit :=
  Cxx.zoom (fun writer => ⟨writer.buf, opened⟩) (fun after writer => { writer with buf := after.buf })
    body

def push (value : ContainerMeta) : SlotWrite Unit := do
  let writer ← Cxx.get
  let stack := writer.openedContainers
  Cxx.put { writer with
    openedContainers := ⟨stack.items.set stack.size value, stack.size + 1⟩
    uses := .store stack.size :: writer.uses }

def top : SlotWrite ContainerMeta := do
  let writer ← Cxx.get
  let stack := writer.openedContainers
  Cxx.put { writer with uses := .look stack.topSlot stack.size :: writer.uses }
  match stack.items[stack.topSlot]? with
  | some item => return item
  | none => Cxx.undefined

def pop : SlotWrite ContainerMeta := do
  let item ← top
  let writer ← Cxx.get
  let stack := writer.openedContainers
  Cxx.put { writer with openedContainers := ⟨stack.items, stack.size - 1⟩ }
  return item

def incrementContainerCounter (itemsAdded : Nat) : SlotWrite Unit := do
  let writer ← Cxx.get
  if writer.openedContainers.size ≠ 0 then
    let container ← top
    let writer ← Cxx.get
    let stack := writer.openedContainers
    Cxx.put { writer with
      openedContainers :=
        ⟨stack.items.set stack.topSlot (container.addItems itemsAdded), stack.size⟩ }

section Encoding
variable (mp : Msgpuck)

def pushContainer (maxCardinality : Nat) : SlotWrite Unit := do
  let writer ← Cxx.get
  push ⟨writer.buf.size, maxCardinality, 0⟩

def beginContainer (kind : Container) (maxCardinality : Nat) : SlotWrite Unit := do
  incrementContainerCounter 1
  pushContainer maxCardinality
  match kind with
  | .array => onBuffer (WtfBuffer.append (mp.mpEncodeArray maxCardinality))
  | .map => onBuffer (WtfBuffer.append (mp.mpEncodeMap maxCardinality))

def onlyOpen (container : ContainerMeta) : WtfStack ContainerMeta 16 :=
  ⟨[container], by simp⟩

/-- Once the container is popped, `finalize` only patches its header. -/
def finalize : SlotWrite Unit := do
  let writer ← Cxx.get
  if writer.openedContainers.size = 0 then
    Cxx.throw ⟨.rangeError, "no container to finalize"⟩
  else
    let container ← pop
    buffered (onlyOpen container) (MpWriter.finalize mp)

def writeScalar (value : Scalar) : SlotWrite Unit := do
  buffered WtfStack.empty (MpWriter.writeScalar mp value)
  incrementContainerCounter 1

def write (bytes : Bytes) (cardinality : Nat) : SlotWrite Unit := do
  buffered WtfStack.empty (MpWriter.write mp bytes cardinality)
  let writer ← Cxx.get
  if writer.openedContainers.size ≠ 0 then
    if cardinality = 0 then
      let (counted, _) ← Cxx.onObject (countItems mp bytes (bytes.length + 1))
        (MpReader.plain 0 bytes.length)
      incrementContainerCounter counted
    else incrementContainerCounter cardinality

def exec : WriterOp → SlotWrite Unit
  | .begin kind maxCardinality => beginContainer mp kind maxCardinality
  | .finalize => finalize mp
  | .scalar value => writeScalar mp value
  | .write bytes cardinality => write mp bytes cardinality

/-- `finalize` of `iproto_writer`, which looks at the top before it pops it. -/
def finalizeRequest : SlotWrite Unit := do
  let writer ← Cxx.get
  if writer.openedContainers.size = 0 then
    Cxx.throw ⟨.rangeError, "no request to finalize"⟩
  else
    let container ← top
    let head ← onBuffer (WtfBuffer.load container.headOffset)
    if head = 0xce then
      let container ← pop
      buffered (onlyOpen container) (IprotoWriter.finalize mp)
    else finalize mp

/-- `while (!empty()) finalize();`: every round pops a container, or throws. -/
def finalizeAll (finalize : SlotWrite Unit) : SlotWrite Unit := do
  let writer ← Cxx.get
  Cxx.forEach (fun _ => finalize) (List.range writer.openedContainers.size)

def startMessage : SlotWrite Unit := do
  finalizeAll (finalizeRequest mp)
  let writer ← Cxx.get
  if writer.buf.capacity - writer.buf.size < 1024 then
    onBuffer (WtfBuffer.reserve (writer.buf.capacity + 1024))
  pushContainer (2 ^ 32 - 1)
  onBuffer (WtfBuffer.append (mp.mpStoreU8 0xce))
  onBuffer (WtfBuffer.advance 4)

end Encoding

/-- `mp_writer::state`, with the whole stack. -/
structure SavedSlots where
  contentLen : Nat
  openedContainers : SlotStack

def getState (writer : SlotWriter) : SavedSlots := ⟨writer.buf.size, writer.openedContainers⟩

def setState (state : SavedSlots) : SlotWrite Unit := do
  let writer ← Cxx.get
  if writer.buf.capacity ≥ state.contentLen then
    Cxx.put { writer with buf := writer.buf.cut state.contentLen }
  else Cxx.throw ⟨.overflowError, "destination buffer was truncated"⟩
  let writer ← Cxx.get
  Cxx.put { writer with openedContainers := state.openedContainers }

def reset : SlotWrite Unit := do
  let writer ← Cxx.get
  Cxx.put { writer with
    openedContainers := ⟨writer.openedContainers.items, 0⟩
    buf := writer.buf.clear }

end SlotWriter

/-- A writer and the states its user has saved. -/
structure SlotSession where
  writer : SlotWriter
  saved : List SlotWriter.SavedSlots

/-- What a user does with a writer: calls, whole values, and direct stores into
the buffer. `restore` takes one of the saved states. -/
inductive SessionEvent where
  | call (op : WriterOp)
  | value (doc : Doc)
  | increment (itemsAdded : Nat)
  | emit (bytes : Bytes)
  | startMessage
  | finalizeRequest
  | finalizeAll
  | finalizeAllRequests
  | save
  | restore (index : Nat)
  | reset

namespace SlotSession
open SlotWriter

section Steps
variable (mp : Msgpuck)

def run (session : SlotSession) : SessionEvent → Option (SlotWrite Unit)
  | .call op => some (SlotWriter.exec mp op)
  | .value doc => some (Cxx.forEach (SlotWriter.exec mp) doc.ops)
  | .increment itemsAdded => some (SlotWriter.incrementContainerCounter itemsAdded)
  | .emit bytes => some (SlotWriter.onBuffer (WtfBuffer.append bytes))
  | .startMessage => some (SlotWriter.startMessage mp)
  | .finalizeRequest => some (SlotWriter.finalizeRequest mp)
  | .finalizeAll => some (SlotWriter.finalizeAll (SlotWriter.finalize mp))
  | .finalizeAllRequests => some (SlotWriter.finalizeAll (SlotWriter.finalizeRequest mp))
  | .save => some (pure ())
  | .restore index => session.saved[index]?.map SlotWriter.setState
  | .reset => some SlotWriter.reset

def noted (session : SlotSession) : SessionEvent → List SavedSlots
  | .save => getState session.writer :: session.saved
  | _ => session.saved

def step (event : SessionEvent) (session : SlotSession) : Option SlotSession :=
  match session.run mp event with
  | none => none
  | some body => match body session.writer with
    | .returned _ after => some ⟨after, session.noted event⟩
    | .thrown _ after => some ⟨after, session.noted event⟩
    | .undefined => none

end Steps

def nesting : SessionEvent → Nat
  | .call (.begin _ _) => 1
  | .value doc => doc.depth
  | _ => 0

/-- The containers that are open and those the event opens have a slot each. -/
def Shallow (session : SlotSession) (event : SessionEvent) : Prop :=
  session.writer.openedContainers.size + nesting event ≤ 16

instance (session : SlotSession) (event : SessionEvent) : Decidable (session.Shallow event) :=
  inferInstanceAs (Decidable (_ ≤ _))

/-- Every slot the writer has used was its to use. -/
def StaysInside (session : SlotSession) : Prop := ∀ use ∈ session.writer.uses, use.Inside

/-- A new writer over any buffer; its slots hold anything. -/
structure Fresh (session : SlotSession) : Prop where
  slots : session.writer.openedContainers.items.length = 16
  size : session.writer.openedContainers.size = 0
  unused : session.writer.uses = []
  unsaved : session.saved = []

end SlotSession

namespace SlotWriter

def At (count : Nat) (writer : SlotWriter) : Prop :=
  (∀ use ∈ writer.uses, use.Inside) ∧ writer.openedContainers.size = count ∧ count ≤ 16

def Sound (writer : SlotWriter) : Prop := ∃ count, At count writer

theorem At.sound {count : Nat} {writer : SlotWriter} (holds : At count writer) : Sound writer :=
  ⟨count, holds⟩

theorem At.note {count : Nat} {writer : SlotWriter} (holds : At count writer) {use : SlotUse}
    (inside : use.Inside) : ∀ other ∈ use :: writer.uses, other.Inside :=
  List.forall_mem_cons.mpr ⟨inside, holds.1⟩

section Calls
variable {mp : Msgpuck} {count : Nat}

theorem push_at (value : ContainerMeta) (room : count < 16) :
    Cxx.Triple (At count) (At (count + 1)) Sound (push value) := by
  intro writer holds
  have slot : (SlotUse.store writer.openedContainers.size).Inside := by
    rw [holds.2.1]
    exact room
  exact ⟨holds.note slot, congrArg (· + 1) holds.2.1, room⟩

theorem top_at (some : count ≠ 0) : Cxx.Triple (At count) (At count) Sound top := by
  intro writer holds
  obtain ⟨uses, size, bounded⟩ := holds
  have slot : (SlotUse.look writer.openedContainers.topSlot writer.openedContainers.size).Inside := by
    simp only [SlotUse.Inside, SlotStack.topSlot, size, ne_eq, some, not_false_eq_true, if_true]
    omega
  have noted : At count { writer with
      uses := (.look writer.openedContainers.topSlot writer.openedContainers.size) :: writer.uses } :=
    ⟨List.forall_mem_cons.mpr ⟨slot, uses⟩, size, bounded⟩
  simp only [top, Cxx.bind_get, Cxx.bind_put]
  cases writer.openedContainers.items[writer.openedContainers.topSlot]? with
  | none => trivial
  | some item => exact noted

theorem pop_at : Cxx.Triple (At (count + 1)) (At count) Sound pop := by
  refine Cxx.triple_bind (top_at (Nat.succ_ne_zero _)) fun item => ?_
  rintro writer ⟨uses, size, bounded⟩
  exact ⟨uses, Nat.pred_eq_of_eq_succ size, Nat.le_of_succ_le bounded⟩

theorem increment_at (itemsAdded : Nat) :
    Cxx.Triple (At count) (At count) Sound (incrementContainerCounter itemsAdded) := by
  refine Cxx.triple_get_bind fun writer holds => ?_
  refine Cxx.triple_ite (fun opened => ?_) fun _ => Cxx.triple_pure _ fun _ => id
  rw [holds.2.1] at opened
  refine Cxx.triple_bind (top_at opened) fun container => ?_
  exact fun _ holds => holds

theorem on_buffer_at {α : Type} (body : Cxx Exn (WtfBuffer UInt8) α) :
    Cxx.Triple (At count) (At count) Sound (onBuffer body) :=
  Cxx.triple_zoom (fun _ _ holds => holds) fun _ _ holds => At.sound holds

theorem buffered_at (opened : WtfStack ContainerMeta 16) (body : Write Unit) :
    Cxx.Triple (At count) (At count) Sound (buffered opened body) :=
  Cxx.triple_zoom (fun _ _ holds => holds) fun _ _ holds => At.sound holds

theorem push_container_at (maxCardinality : Nat) (room : count < 16) :
    Cxx.Triple (At count) (At (count + 1)) Sound (pushContainer maxCardinality) :=
  fun writer holds => push_at ⟨writer.buf.size, maxCardinality, 0⟩ room writer holds

theorem begin_at (kind : Container) (maxCardinality : Nat) (room : count < 16) :
    Cxx.Triple (At count) (At (count + 1)) Sound (beginContainer mp kind maxCardinality) := by
  refine Cxx.triple_bind (increment_at 1) fun _ => ?_
  refine Cxx.triple_bind (push_container_at maxCardinality room) fun _ => ?_
  cases kind with
  | array => exact on_buffer_at _
  | map => exact on_buffer_at _

theorem finalize_at : Cxx.Triple (At count) (At (count - 1)) Sound (finalize mp) := by
  refine Cxx.triple_get_bind fun writer holds => ?_
  refine Cxx.triple_ite (fun _ => Cxx.triple_throw _ fun _ => At.sound) fun opened => ?_
  rw [holds.2.1] at opened
  obtain ⟨rest, rfl⟩ := Nat.exists_eq_succ_of_ne_zero opened
  exact Cxx.triple_bind pop_at fun container => buffered_at _ _

theorem finalize_request_at : Cxx.Triple (At count) (At (count - 1)) Sound (finalizeRequest mp) := by
  refine Cxx.triple_get_bind fun writer holds => ?_
  refine Cxx.triple_ite (fun _ => Cxx.triple_throw _ fun _ => At.sound) fun opened => ?_
  rw [holds.2.1] at opened
  refine Cxx.triple_bind (top_at opened) fun container => ?_
  refine Cxx.triple_bind (on_buffer_at _) fun head => ?_
  refine Cxx.triple_ite (fun _ => ?_) fun _ => finalize_at
  obtain ⟨rest, rfl⟩ := Nat.exists_eq_succ_of_ne_zero opened
  exact Cxx.triple_bind pop_at fun container => buffered_at _ _

theorem finalize_each_at {body : SlotWrite Unit}
    (each : ∀ count, Cxx.Triple (At count) (At (count - 1)) Sound body) (rounds : List Nat) :
    Cxx.Triple (At count) (At (count - rounds.length)) Sound (Cxx.forEach (fun _ => body) rounds) := by
  induction rounds generalizing count with
  | nil => exact Cxx.triple_pure _ fun _ holds => holds
  | cons round rounds ih =>
      refine Cxx.triple_bind (each count) fun _ => ?_
      have fewer : count - (round :: rounds).length = count - 1 - rounds.length := by
        rw [List.length_cons]
        omega
      rw [fewer]
      exact ih

theorem finalize_all_at {body : SlotWrite Unit}
    (each : ∀ count, Cxx.Triple (At count) (At (count - 1)) Sound body) :
    Cxx.Triple (At count) (At 0) Sound (finalizeAll body) := by
  refine Cxx.triple_get_bind fun writer holds => ?_
  have rounds : Cxx.Triple (At count) (At (count - (List.range count).length)) Sound
      (Cxx.forEach (fun _ => body) (List.range count)) := finalize_each_at each _
  rw [List.length_range, Nat.sub_self] at rounds
  rw [holds.2.1]
  exact rounds

theorem start_message_at : Cxx.Triple (At count) (At 1) Sound (startMessage mp) := by
  refine Cxx.triple_bind (finalize_all_at fun _ => finalize_request_at) fun _ => ?_
  refine Cxx.triple_get_bind fun writer _ => ?_
  have rest : Cxx.Triple (At 0) (At 1) Sound (do
      pushContainer (2 ^ 32 - 1)
      onBuffer (WtfBuffer.append (mp.mpStoreU8 0xce))
      onBuffer (WtfBuffer.advance 4)) := by
    refine Cxx.triple_bind (push_container_at _ (by decide)) fun _ => ?_
    exact Cxx.triple_bind (on_buffer_at _) fun _ => on_buffer_at _
  refine Cxx.triple_ite (fun _ => ?_) fun _ => rest
  exact Cxx.triple_bind (on_buffer_at _) fun _ => rest

theorem write_at (bytes : Bytes) (cardinality : Nat) :
    Cxx.Triple (At count) (At count) Sound (write mp bytes cardinality) := by
  refine Cxx.triple_bind (buffered_at _ _) fun _ => ?_
  refine Cxx.triple_get_bind fun writer _ => ?_
  refine Cxx.triple_ite (fun _ => ?_) fun _ => Cxx.triple_pure _ fun _ => id
  refine Cxx.triple_ite (fun _ => ?_) fun _ => increment_at _
  exact Cxx.triple_bind (Cxx.triple_onObject (fun _ => id) fun _ => At.sound) fun _ => increment_at _

theorem scalar_at (value : Scalar) :
    Cxx.Triple (At count) (At count) Sound (writeScalar mp value) :=
  Cxx.triple_bind (buffered_at _ _) fun _ => increment_at 1

mutual
theorem value_at (before : Nat) (doc : Doc) (shallow : before + doc.depth ≤ 16) :
    Cxx.Triple (At before) (At before) Sound (Cxx.forEach (exec mp) doc.ops) := by
  cases doc with
  | scalar value =>
      rw [Doc.ops, Cxx.forEach_singleton]
      exact scalar_at value
  | bulk bytes cardinality values =>
      rw [Doc.ops, Cxx.forEach_singleton]
      exact write_at bytes cardinality
  | container kind maxCardinality children =>
      rw [Doc.depth] at shallow
      rw [Doc.ops]
      -- the children find one container more open, and leave it to `finalize`
      refine Cxx.triple_bind (begin_at kind maxCardinality (by omega)) fun _ => ?_
      refine Cxx.triple_forEach_append (values_at (before + 1) children (by omega)) ?_
      rw [Cxx.forEach_singleton]
      exact finalize_at

theorem values_at (before : Nat) (docs : List Doc) (shallow : before + Doc.depthAll docs ≤ 16) :
    Cxx.Triple (At before) (At before) Sound (Cxx.forEach (exec mp) (Doc.opsAll docs)) := by
  cases docs with
  | nil => exact Cxx.triple_pure _ fun _ holds => holds
  | cons doc docs =>
      rw [Doc.depthAll] at shallow
      rw [Doc.opsAll]
      exact Cxx.triple_forEach_append (value_at before doc (by omega)) (values_at before docs (by omega))
end

theorem set_state_at (state : SavedSlots) (bounded : state.openedContainers.size ≤ 16) :
    Cxx.Triple Sound Sound Sound (setState state) := by
  rintro writer ⟨count, uses, holds⟩
  unfold setState
  simp only [Cxx.bind_get]
  split_ifs
  · exact ⟨_, uses, rfl, bounded⟩
  · exact ⟨count, uses, holds⟩

end Calls
end SlotWriter

namespace SlotSession
open SlotWriter

/-- The writer is sound, and so are the stacks its user can restore. -/
structure Good (session : SlotSession) : Prop where
  writer : session.writer.Sound
  saved : ∀ state ∈ session.saved, state.openedContainers.size ≤ 16

section Runs
variable {mp : Msgpuck} {session after final start : SlotSession} {event : SessionEvent}
  {events : List SessionEvent}

theorem run_sound (good : session.Good) (shallow : session.Shallow event)
    {body : SlotWrite Unit} (called : session.run mp event = some body) :
    (body session.writer).Leaves Sound := by
  obtain ⟨count, holds⟩ := good.writer
  have size : session.writer.openedContainers.size = count := holds.2.1
  -- every call keeps the number of open containers below the slots, thrown or not
  have kept : ∀ {reached : Nat} {body : SlotWrite Unit},
      Cxx.Triple (At count) (At reached) Sound body → (body session.writer).Leaves Sound :=
    fun triple => Cxx.triple_leaves triple holds (fun _ => At.sound) fun _ => id
  unfold Shallow at shallow
  rw [size] at shallow
  cases event with
  | call op =>
      cases called
      cases op with
      | begin kind maxCardinality => exact kept (begin_at kind maxCardinality shallow)
      | finalize => exact kept finalize_at
      | scalar value => exact kept (scalar_at value)
      | write bytes cardinality => exact kept (write_at bytes cardinality)
  | value doc =>
      cases called
      exact kept (value_at count doc shallow)
  | increment itemsAdded =>
      cases called
      exact kept (increment_at itemsAdded)
  | emit bytes =>
      cases called
      exact kept (on_buffer_at _)
  | startMessage =>
      cases called
      exact kept start_message_at
  | finalizeRequest =>
      cases called
      exact kept finalize_request_at
  | finalizeAll =>
      cases called
      exact kept (finalize_all_at fun _ => finalize_at)
  | finalizeAllRequests =>
      cases called
      exact kept (finalize_all_at fun _ => finalize_request_at)
  | save =>
      cases called
      exact holds.sound
  | restore index =>
      obtain ⟨state, found, rfl⟩ := Option.map_eq_some_iff.mp called
      have bounded := good.saved state (List.mem_of_getElem? found)
      exact Cxx.triple_leaves (set_state_at state bounded) holds.sound (fun _ => id) fun _ => id
  | reset =>
      cases called
      exact ⟨0, holds.1, rfl, Nat.zero_le _⟩

theorem noted_good (good : session.Good) (event : SessionEvent) :
    ∀ state ∈ session.noted event, state.openedContainers.size ≤ 16 := by
  obtain ⟨⟨count, _, size, bounded⟩, saved⟩ := good
  cases event with
  | save => exact List.forall_mem_cons.mpr ⟨size.trans_le bounded, saved⟩
  | _ => exact saved

theorem step_cases (done : step mp event session = some after) :
    ∃ body, session.run mp event = some body ∧ after.saved = session.noted event ∧
      ((∃ value, body session.writer = .returned value after.writer) ∨
        ∃ error, body session.writer = .thrown error after.writer) := by
  unfold step at done
  cases called : session.run mp event with
  | none =>
      rw [called] at done
      cases done
  | some body =>
      rw [called] at done
      dsimp only at done
      refine ⟨body, rfl, ?_⟩
      cases ran : body session.writer with
      | returned value reached =>
          rw [ran] at done
          cases done
          exact ⟨rfl, .inl ⟨value, rfl⟩⟩
      | thrown error reached =>
          rw [ran] at done
          cases done
          exact ⟨rfl, .inr ⟨error, rfl⟩⟩
      | undefined =>
          rw [ran] at done
          cases done

theorem step_good (good : session.Good) (shallow : session.Shallow event)
    (done : step mp event session = some after) : after.Good := by
  obtain ⟨body, called, saved, ended⟩ := step_cases done
  have sound := run_sound good shallow called
  refine ⟨?_, saved ▸ noted_good good event⟩
  rcases ended with ⟨value, ran⟩ | ⟨error, ran⟩
  · rw [ran] at sound
    exact sound
  · rw [ran] at sound
    exact sound

theorem Fresh.good (fresh : start.Fresh) : start.Good where
  writer := by
    refine ⟨0, ?_, fresh.size, Nat.zero_le _⟩
    rw [fresh.unused]
    exact List.forall_mem_nil _
  saved := by
    rw [fresh.unsaved]
    exact List.forall_mem_nil _

theorem begin_stores {kind : Container} {maxCardinality : Nat}
    (done : step mp (.call (.begin kind maxCardinality)) session = some after) :
    .store session.writer.openedContainers.size ∈ after.writer.uses := by
  generalize same : session.writer.openedContainers.size = size
  have looked : Cxx.Triple (fun writer => writer.openedContainers.size = size)
      (fun writer => writer.openedContainers.size = size) (fun _ => False) SlotWriter.top := by
    intro writer holds
    simp only [SlotWriter.top, Cxx.bind_get, Cxx.bind_put]
    cases writer.openedContainers.items[writer.openedContainers.topSlot]? with
    | none => trivial
    | some item => exact holds
  have counted : Cxx.Triple (fun writer => writer.openedContainers.size = size)
      (fun writer => writer.openedContainers.size = size) (fun _ => False)
      (SlotWriter.incrementContainerCounter 1) := by
    refine Cxx.triple_get_bind fun writer _ => ?_
    refine Cxx.triple_ite (fun _ => ?_) fun _ => Cxx.triple_pure _ fun _ => id
    exact Cxx.triple_bind looked fun container _ holds => holds
  have emitted : ∀ bytes, Cxx.Triple (fun writer => .store size ∈ writer.uses)
      (fun writer => .store size ∈ writer.uses) (fun _ => False)
      (SlotWriter.onBuffer (WtfBuffer.append bytes)) := by
    intro bytes writer holds
    by_cases room : bytes.length ≤ writer.buf.available
    · simpa [SlotWriter.onBuffer, Cxx.zoom, WtfBuffer.append, room] using holds
    · simp [SlotWriter.onBuffer, Cxx.zoom, WtfBuffer.append, room]
  have pushed : Cxx.Triple (fun writer => writer.openedContainers.size = size)
      (fun writer => .store size ∈ writer.uses) (fun _ => False)
      (SlotWriter.pushContainer maxCardinality) := by
    rintro writer rfl
    exact List.mem_cons_self
  have stores : Cxx.Triple (fun writer => writer.openedContainers.size = size)
      (fun writer => .store size ∈ writer.uses) (fun _ => False)
      (SlotWriter.beginContainer mp kind maxCardinality) := by
    refine Cxx.triple_bind counted fun _ => ?_
    refine Cxx.triple_bind pushed fun _ => ?_
    cases kind with
    | array => exact emitted _
    | map => exact emitted _
  -- the bytes of a header are stored or overrun the buffer, they are never refused
  have left := stores session.writer same
  obtain ⟨body, called, _, ended⟩ := step_cases done
  cases called
  rw [SlotWriter.exec] at ended
  rcases ended with ⟨value, ran⟩ | ⟨error, ran⟩
  · rw [ran] at left
    exact left
  · rw [ran] at left
    exact left.elim

/-- In every run that nests no deeper than there are slots, all uses of slots are
inside; to open one more container keeps that exactly if there is a slot left. -/
theorem stack_stays_inside (fresh : start.Fresh) (run : Run (step mp) Shallow start events final) :
    final.StaysInside ∧ ∀ kind maxCardinality after,
      step mp (.call (.begin kind maxCardinality)) final = some after →
      (after.StaysInside ↔ final.Shallow (.call (.begin kind maxCardinality))) := by
  have good : final.Good := by
    apply run.invariant
    · exact fresh.good
    · exact fun before event after good shallow done => step_good good shallow done
  obtain ⟨_, uses, _⟩ := good.writer
  refine ⟨uses, fun kind maxCardinality after done => ⟨fun inside => ?_, fun shallow => ?_⟩⟩
  · exact inside _ (begin_stores done)
  · obtain ⟨_, kept, _⟩ := (step_good good shallow done).writer
    exact kept

end Runs

def blank : SlotSession where
  writer := ⟨WtfBuffer.ofSize 20, ⟨List.replicate 16 ⟨0, 0, 0⟩, 0⟩, []⟩
  saved := []

theorem blank_fresh : blank.Fresh := ⟨rfl, rfl, rfl, rfl⟩

/-- An array with `[[5], {1: 2}]` in it, a value that is taken back, and another one. -/
def nestedEvents : List SessionEvent :=
  [.call (.begin .array 3), .value (.container .array 2 [.container .array 1 [.scalar (.int 5)],
      .container .map 1 [.scalar (.int 1), .scalar (.int 2)]]), .save,
    .call (.begin .map 1), .call (.scalar (.int 7)), .restore 0, .call (.scalar (.int 8)),
    .call .finalize]

def nestedSession : Option SlotSession :=
  nestedEvents.foldlM (fun session event =>
    if session.Shallow event then step reference event session else none) blank

theorem stack_stays_inside_nested :
    ∃ final, Run (step reference) Shallow blank nestedEvents final ∧
      final.writer.buf.content = [0x92, 0x92, 0x91, 5, 0x81, 1, 2, 8] ∧ final.StaysInside ∧
      ∀ kind maxCardinality after,
        step reference (.call (.begin kind maxCardinality)) final = some after →
        (after.StaysInside ↔ final.Shallow (.call (.begin kind maxCardinality))) := by
  have written : nestedSession.map (fun session => session.writer.buf.content) =
      some [0x92, 0x92, 0x91, 5, 0x81, 1, 2, 8] := by decide +kernel
  obtain ⟨final, done, content⟩ := Option.map_eq_some_iff.mp written
  have run : Run (step reference) Shallow blank nestedEvents final := by
    apply run_of_checked_fold
    exact done
  exact ⟨final, run, content, stack_stays_inside blank_fresh run⟩

/-- Seventeen arrays inside each other: the last one is stored behind the array. -/
theorem seventeenth_outside :
    ∃ final, Run (step reference) (fun _ _ => True) blank
        (List.replicate 17 (.call (.begin .array 0))) final ∧ ¬ final.StaysInside := by
  refine ⟨_, run_of_fold rfl, fun inside => ?_⟩
  exact absurd (inside (.store 16) (by decide)) (by simp [SlotUse.Inside])

end SlotSession

end Cpp2tnt
