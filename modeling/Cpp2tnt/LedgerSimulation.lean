import Cpp2tnt.WriterLedger

/-!
The writer follows its ledger. One lemma per call: the ledger predicts whether the
call is defined, what it appends and what it patches, and it describes the writer
again afterwards. Exceptions are caught after every call, so the predictions cover
the sequences in which some calls are refused.
-/

namespace Cpp2tnt
open Imperative MessagePack MpWriter Patches

def OpenContainer.Typed (mp : Msgpuck) (entry : OpenContainer) (content : Bytes) : Prop :=
  ∃ byte, content[entry.container.headOffset]? = some byte ∧
    mp.mpTypeof byte = headType (entry.kind.head 0)

structure Ledger.Describes (mp : Msgpuck) (ledger : Ledger) (writer : MpWriter) : Prop where
  size : writer.buf.size = ledger.size
  room : writer.buf.available = ledger.room
  target : writer.buf.target = ledger.target
  opened : writer.openedContainers.items = ledger.opened.map OpenContainer.container
  below : OpenContainer.Below ledger.size ledger.opened
  typed : ∀ entry ∈ ledger.opened, entry.Typed mp writer.buf.content

def Mirrors (mp : Msgpuck) (content : Bytes) :
    Option (Ledger × Edit) → Outcome Exn MpWriter Unit → Prop
  | some (ledger, edit), .returned () writer =>
      ledger.Describes mp writer ∧ writer.buf.content = edit.apply content
  | none, .undefined => True
  | _, _ => False

theorem patch_content (buf : WtfBuffer UInt8) (patch : Patch UInt8) (fits : patch.Fits buf.size) :
    WtfBuffer.store patch.offset patch.items buf =
      .returned () { buf with content := patch.apply buf.content } := by
  rw [Patch.Fits, WtfBuffer.size] at fits
  have front : (buf.content.take patch.offset).length = patch.offset :=
    List.length_take_of_le (Nat.le_trans (Nat.le_add_right _ _) fits)
  have width : patch.items.length = (patch.found buf.content).length := by
    rw [Patch.found, List.length_take, List.length_drop]
    omega
  have whole : buf.content = buf.content.take patch.offset ++ patch.found buf.content ++
      buf.content.drop (patch.offset + patch.items.length) := by
    rw [Patch.found, ← List.drop_drop, List.append_assoc, List.take_append_drop,
      List.take_append_drop]
  have stored := WtfBuffer.store_returned buf _ _ _ patch.items whole width
  rwa [front] at stored

section Simulation
variable {mp : Msgpuck} {ledger : Ledger} {writer : MpWriter}

theorem Ledger.Describes.appended (describes : ledger.Describes mp writer) (text : Bytes)
    (items : Nat) : Ledger.Describes mp
      { ledger with
        size := ledger.size + text.length
        room := ledger.room - text.length
        opened := countTop items ledger.opened } (writer.written text items) where
  size := by
    rw [written_buf, WtfBuffer.size, WtfBuffer.push_content, List.length_append]
    exact congrArg (· + text.length) describes.size
  room := by rw [written_buf, WtfBuffer.push_available, describes.room]
  target := describes.target
  opened := by
    have opened := describes.opened
    obtain ⟨buf, ⟨_ | ⟨top, rest⟩, bounded⟩⟩ := writer <;>
      cases entries : ledger.opened <;> simp_all [MpWriter.written, MpWriter.counted,
        WtfStack.mapTop, countTop, OpenContainer.addItems]
  below := Ledger.count_top_below items (describes.below.mono (Nat.le_add_right _ _))
  typed entry member := by
    obtain ⟨outer, found, same⟩ := Ledger.count_top_same items ledger.opened entry member
    obtain ⟨byte, stands, type⟩ := describes.typed outer found
    refine ⟨byte, ?_, ?_⟩
    · rw [same.2.1, written_buf, WtfBuffer.push_content, List.getElem?_append_left]
      · exact stands
      · exact (List.getElem?_eq_some_iff.mp stands).1
    · rw [same.1]
      exact type

theorem append_mirrors (describes : ledger.Describes mp writer) {body : Write Unit} {text : Bytes}
    {items : Nat}
    (fits : text.length ≤ writer.buf.available →
      Cxx.attempt body writer = .returned () (writer.written text items))
    (overruns : ¬ text.length ≤ writer.buf.available → Cxx.attempt body writer = .undefined) :
    Mirrors mp writer.buf.content (ledger.append text items) (Cxx.attempt body writer) := by
  rw [describes.room] at fits overruns
  rw [Ledger.append]
  by_cases room : text.length ≤ ledger.room
  · rw [if_pos room, fits room]
    exact ⟨describes.appended text items, rfl⟩
  · rw [if_neg room, overruns room]
    trivial

theorem begin_exec (implements : Implements mp) (kind : Container) (declared : Nat)
    (bounded : declared < 2 ^ 32) : WriterOp.exec mp (.begin kind declared) = (do
      incrementContainerCounter 1
      pushContainer declared
      emit (kind.encode declared)) := by
  cases kind with
  | array => simp only [WriterOp.exec, beginArray, implements.encodeArray declared bounded]; rfl
  | map => simp only [WriterOp.exec, beginMap, implements.encodeMap declared bounded]; rfl

theorem header_typed (implements : Implements mp) (kind : Container) (declared : Nat)
    (bounded : declared < 2 ^ 32) : ∃ byte tail, kind.encode declared = byte :: tail ∧
      mp.mpTypeof byte = headType (kind.head 0) := by
  have encodes := kind.encode_head declared bounded
  obtain ⟨byte, tail, shape⟩ := List.exists_cons_of_ne_nil encodes.ne_nil
  rw [shape] at encodes
  refine ⟨byte, tail, shape, (implements.typeof _ byte tail encodes).trans ?_⟩
  cases kind <;> rfl

theorem begin_mirrors (implements : Implements mp) (describes : ledger.Describes mp writer)
    (kind : Container) (declared : Nat) (bounded : declared < 2 ^ 32) :
    Mirrors mp writer.buf.content (ledger.step mp (.begin kind declared))
      (Cxx.attempt (WriterOp.exec mp (.begin kind declared)) writer) := by
  have depth : ledger.opened.length = writer.openedContainers.items.length := by
    rw [describes.opened, List.length_map]
  simp only [Ledger.step, depth]
  by_cases shallow : writer.openedContainers.items.length < 16
  · rw [if_pos shallow]
    by_cases room : (kind.encode declared).length ≤ writer.buf.available
    · have began := begin_returned implements kind declared bounded writer shallow room
      rw [Cxx.attempt_returned began, Ledger.append, if_pos (describes.room ▸ room)]
      have grown := describes.appended (kind.encode declared) 1
      refine ⟨⟨grown.size, grown.room, grown.target, ?_, ?_, ?_⟩, rfl⟩
      · exact congrArg₂ _ (by rw [describes.size]) grown.opened
      · exact ⟨bounded, Nat.le_refl _, Ledger.count_top_below 1 describes.below⟩
      · intro entry member
        cases member with
        | head =>
            obtain ⟨byte, tail, shape, type⟩ := header_typed implements kind declared bounded
            refine ⟨byte, ?_, type⟩
            rw [← describes.size, opened, WtfBuffer.push_content, WtfBuffer.size, shape]
            simp
        | tail _ deeper => exact grown.typed entry deeper
    · have pushed := push_container_returned declared (writer.counted 1)
        (by rwa [counted_opened_length])
      rw [Ledger.append, if_neg (describes.room ▸ room), begin_exec implements kind declared bounded,
        Cxx.attempt_bind (increment_returned 1 writer), Cxx.attempt_bind pushed,
        Cxx.attempt_undefined]
      · trivial
      · exact emit_undefined _ _ room
  · have full : pushContainer declared (writer.counted 1) = .undefined := by
      simp [pushContainer, WtfStack.push?, shallow]
    rw [if_neg shallow, begin_exec implements kind declared bounded,
      Cxx.attempt_bind (increment_returned 1 writer),
      Cxx.attempt_undefined (by rw [Cxx.bind_run, full])]
    trivial

theorem scalar_mirrors (describes : ledger.Describes mp writer) (value : Scalar) :
    Mirrors mp writer.buf.content (ledger.step mp (.scalar value))
      (Cxx.attempt (writeScalar mp value) writer) := by
  simp only [Ledger.step]
  cases given : scalarBytes mp value with
  | error error =>
      rw [Cxx.attempt_thrown (write_scalar_refused value error given writer)]
      exact ⟨describes, (List.append_nil _).symm⟩
  | ok text =>
      have shape : writeScalar mp value = (do
          emit text
          incrementContainerCounter 1) := by simp only [writeScalar, given]
      apply append_mirrors describes
      · intro room
        rw [shape, Cxx.attempt_bind (emit_returned text writer room)]
        rfl
      · intro room
        rw [shape, Cxx.attempt_undefined (by rw [Cxx.bind_run, emit_undefined text writer room])]

/-! Without room a fixed buffer refuses; any other is replaced under the copy. -/

theorem write_refused (bytes : Bytes) (cardinality : Nat)
    (full : ¬ bytes.length ≤ writer.buf.available) (fixed : writer.buf.target = .raw false) :
    MpWriter.write mp bytes cardinality writer =
      .thrown ⟨.runtimeError, "unable to resize raw buffer"⟩ writer := by
  have larger : writer.buf.size + bytes.length > writer.buf.capacity := by
    simp only [WtfBuffer.size, WtfBuffer.capacity, WtfBuffer.available] at full ⊢
    omega
  have beyond := Nat.not_le_of_lt larger
  simp [MpWriter.write, onBuffer, Cxx.zoom, WtfBuffer.resize, WtfBuffer.reserve, Cxx.bind_run,
    larger, beyond, fixed]

theorem write_overruns (bytes : Bytes) (cardinality : Nat)
    (full : ¬ bytes.length ≤ writer.buf.available) (grows : writer.buf.target ≠ .raw false) :
    MpWriter.write mp bytes cardinality writer = .undefined := by
  have larger : writer.buf.size + bytes.length > writer.buf.capacity := by
    simp only [WtfBuffer.size, WtfBuffer.capacity, WtfBuffer.available] at full ⊢
    omega
  have beyond := Nat.not_le_of_lt larger
  obtain ⟨⟨content, spare, target⟩, opened⟩ := writer
  rcases target with (_ | _) | own
  · exact absurd rfl grows
  all_goals
    simp [MpWriter.write, onBuffer, Cxx.zoom, WtfBuffer.resize, WtfBuffer.reserve, Cxx.bind_run,
      larger, beyond, full]

theorem write_beyond (bytes : Bytes) (cardinality : Nat)
    (full : ¬ bytes.length ≤ writer.buf.available) :
    Cxx.attempt (MpWriter.write mp bytes cardinality) writer =
      if writer.buf.target = .raw false then .returned () writer else .undefined := by
  split_ifs with fixed
  · exact Cxx.attempt_thrown (write_refused bytes cardinality full fixed)
  · exact Cxx.attempt_undefined (write_overruns bytes cardinality full fixed)

theorem counted_nothing (writer : MpWriter) : writer.counted 0 = writer := by
  obtain ⟨buf, ⟨_ | ⟨top, rest⟩, bounded⟩⟩ := writer <;>
    simp [counted, WtfStack.mapTop, ContainerMeta.addItems]

theorem count_range_given {bytes : Bytes} {cardinality : Nat}
    (given : ¬ (cardinality = 0 ∧ writer.openedContainers.items ≠ [])) :
    countRange mp bytes cardinality writer = .returned () (writer.counted cardinality) := by
  obtain ⟨buf, ⟨_ | ⟨top, rest⟩, bounded⟩⟩ := writer
  · rfl
  · have known : cardinality ≠ 0 := fun zero => given ⟨zero, List.cons_ne_nil _ _⟩
    simp [countRange, known]

theorem count_range_found {bytes : Bytes} (nested : writer.openedContainers.items ≠ []) :
    Cxx.attempt (countRange mp bytes 0) writer = match Ledger.found mp bytes with
      | some items => .returned () (writer.counted items)
      | none => .undefined := by
  have inside : (!writer.openedContainers.items.isEmpty) = true := by
    rw [Bool.not_eq_true', List.isEmpty_eq_false_iff]
    exact nested
  rw [Cxx.attempt, countRange, Cxx.bind_get, if_pos inside, if_pos rfl, Cxx.bind_run, Ledger.found,
    Cxx.onObject]
  cases countItems mp bytes (bytes.length + 1) (MpReader.plain 0 bytes.length) with
  | returned items reader => rfl
  | thrown error reader => exact congrArg _ (counted_nothing writer).symm
  | undefined => rfl

theorem write_mirrors (describes : ledger.Describes mp writer) (bytes : Bytes)
    (cardinality : Nat) :
    Mirrors mp writer.buf.content (ledger.step mp (.write bytes cardinality))
      (Cxx.attempt (MpWriter.write mp bytes cardinality) writer) := by
  have nested : ledger.opened ≠ [] ↔ writer.openedContainers.items ≠ [] := by
    rw [describes.opened, ne_eq, ne_eq, List.map_eq_nil_iff]
  have copied (room : bytes.length ≤ writer.buf.available) :
      Cxx.attempt (MpWriter.write mp bytes cardinality) writer =
        Cxx.attempt (countRange mp bytes cardinality)
          { writer with buf := writer.buf.push bytes } := by
    rw [Cxx.attempt, write_within bytes cardinality room, Cxx.attempt]
  have beyond : ¬ bytes.length ≤ writer.buf.available →
      Cxx.attempt (MpWriter.write mp bytes cardinality) writer =
        if writer.buf.target = .raw false then .returned () writer else .undefined :=
    write_beyond bytes cardinality
  simp only [Ledger.step]
  -- for a fixed buffer `resize` throws before the copy, and nothing has changed
  by_cases fixed : ledger.room < bytes.length ∧ ledger.target = .raw false
  · rw [if_pos fixed, beyond (describes.room ▸ Nat.not_le_of_lt fixed.1),
      if_pos (describes.target.trans fixed.2)]
    exact ⟨describes, (List.append_nil _).symm⟩
  rw [if_neg fixed]
  have overruns (full : ¬ bytes.length ≤ writer.buf.available) :
      Cxx.attempt (MpWriter.write mp bytes cardinality) writer = .undefined := by
    have grows : writer.buf.target ≠ .raw false := fun same =>
      fixed ⟨describes.room ▸ Nat.lt_of_not_le full, describes.target ▸ same⟩
    rw [beyond full, if_neg grows]
  -- a cardinality of 0 inside a container asks the writer to count the values itself
  by_cases given : cardinality = 0 ∧ ledger.opened ≠ []
  · obtain ⟨rfl, deep⟩ := given
    have counts : Cxx.attempt (countRange mp bytes 0) { writer with buf := writer.buf.push bytes } =
        match Ledger.found mp bytes with
        | some items => .returned () (writer.written bytes items)
        | none => .undefined := count_range_found (nested.mp deep)
    rw [if_pos ⟨rfl, deep⟩]
    cases found : Ledger.found mp bytes with
    | some items =>
        rw [found] at counts
        exact append_mirrors describes (fun room => (copied room).trans counts) overruns
    | none =>
        rw [found] at counts
        by_cases room : bytes.length ≤ writer.buf.available
        · rw [copied room, counts]
          trivial
        · rw [overruns room]
          trivial
  · rw [if_neg given]
    refine append_mirrors describes (fun room => (copied room).trans ?_) overruns
    exact Cxx.attempt_returned (count_range_given fun zero => given ⟨zero.1, nested.mpr zero.2⟩)

/-- The writer under what a `finalize` stored. -/
def MpWriter.patched (patch : Option (Patch UInt8)) (writer : MpWriter) : MpWriter :=
  writer.rewritten (applyAll patch.toList writer.buf.content)

theorem store_patches (patch : Patch UInt8) (fits : patch.Fits writer.buf.size) :
    onBuffer (WtfBuffer.store patch.offset patch.items) writer =
      .returned () (writer.patched (some patch)) :=
  on_buffer_returned (patch_content writer.buf patch fits)

theorem patch_header_mirrors (implements : Implements mp) (entry : OpenContainer)
    {encode : Nat → Bytes} {sizeof : Nat → Nat} (exceeded : String) (actual : Nat)
    (encodes : encode actual = entry.kind.encode actual)
    (sizes : ∀ count < 2 ^ 32, sizeof count = (entry.kind.encode count).length)
    (bounded : entry.container.maxCardinality < 2 ^ 32) (few : actual < 2 ^ 32)
    (fits : entry.container.headOffset + entry.width ≤ writer.buf.size) :
    Cxx.attempt (patchHeader mp encode sizeof exceeded entry.container actual) writer =
      .returned () (writer.patched (entry.patchWith actual)) := by
  have lengths := entry.kind.encode_length
  have stored : ∀ patch, entry.patchWith actual = some patch →
      Cxx.attempt (onBuffer (WtfBuffer.store patch.offset patch.items)) writer =
        .returned () (writer.patched (some patch)) := fun patch found =>
    Cxx.attempt_returned (store_patches patch (OpenContainer.Patches.fits ⟨actual, found⟩ fits))
  unfold OpenContainer.patchWith OpenContainer.width at stored ⊢
  unfold patchHeader
  by_cases same : actual = entry.container.maxCardinality
  · rw [if_pos same, if_pos same]
    rfl
  simp only [if_neg same] at stored ⊢
  rw [sizes _ few, sizes _ bounded]
  by_cases exceeds : actual > entry.container.maxCardinality ∧
      (entry.kind.encode actual).length > (entry.kind.encode entry.container.maxCardinality).length
  · rw [if_pos exceeds, if_pos exceeds]
    rfl
  simp only [if_neg exceeds] at stored ⊢
  simp only [lengths] at exceeds ⊢
  by_cases small : entry.container.maxCardinality < 16
  · simp only [if_pos small, encodes] at stored ⊢
    exact stored _ rfl
  by_cases half : entry.container.maxCardinality < 2 ^ 16
  -- two bytes hold the count here: a wider header would have been refused above
  · have narrow : actual < 2 ^ 16 := by
      by_contra wide
      simp only [if_neg small, if_pos half, if_neg wide] at exceeds
      have short : ¬ actual < 16 := by omega
      rw [if_neg short] at exceeds
      omega
    simp only [if_neg small, if_pos half, Nat.mod_eq_of_lt narrow,
      implements.storeU16 actual narrow] at stored ⊢
    exact stored _ rfl
  · simp only [if_neg small, if_neg half, implements.storeU32 actual few] at stored ⊢
    exact stored _ rfl

/-- `finalize` asks the header for the kind; that byte survives every patch. -/
theorem finalize_exec (implements : Implements mp) {entry : OpenContainer}
    (rest : WtfStack ContainerMeta 16) {buf : WtfBuffer UInt8} (room : rest.items.length < 16)
    (bounded : entry.container.maxCardinality < 2 ^ 32) (typed : entry.Typed mp buf.content)
    (fits : entry.container.headOffset + entry.width ≤ buf.size) :
    Cxx.attempt (MpWriter.finalize mp) ⟨buf, ⟨entry.container :: rest.items, room⟩⟩ =
      .returned () (MpWriter.patched entry.patch ⟨buf, rest⟩) := by
  obtain ⟨byte, stands, type⟩ := typed
  have loaded : onBuffer (WtfBuffer.load entry.container.headOffset) ⟨buf, rest⟩ =
      .returned byte ⟨buf, rest⟩ := by
    apply on_buffer_returned
    have found : buf.storage[entry.container.headOffset]? = some byte := by
      rw [WtfBuffer.storage, List.getElem?_append_left (List.getElem?_eq_some_iff.mp stands).1]
      exact stands
    simp [WtfBuffer.load, found]
  have few := cardinality_lt entry.kind entry.container.itemsCount.toNat
    (by simpa using entry.container.itemsCount.toNat_lt)
  obtain ⟨kind, container⟩ := entry
  simp only [MpWriter.finalize]
  rw [Cxx.attempt, Cxx.bind_get]
  simp only [WtfStack.pop?, Cxx.bind_put]
  rw [Cxx.bind_returned loaded, type]
  cases kind with
  | array =>
      exact patch_header_mirrors implements ⟨.array, container⟩ _ _ (implements.encodeArray _ few)
        implements.sizeofArray bounded few fits
  | map =>
      simp only [headType, Container.head]
      by_cases odd : container.itemsCount.toNat % 2 = 1
      · rw [if_pos odd, OpenContainer.patch, if_pos ⟨rfl, odd⟩]
        rfl
      · rw [if_neg odd, OpenContainer.patch, if_neg fun refused => odd refused.2]
        exact patch_header_mirrors implements ⟨.map, container⟩ _ _ (implements.encodeMap _ few)
          implements.sizeofMap bounded few fits

theorem patch_typed (implements : Implements mp) {entry : OpenContainer} {patch : Patch UInt8}
    (stored : entry.Patches patch)
    (covered : patch.Covers entry.container.headOffset) :
    ∃ byte, patch.items[entry.container.headOffset - patch.offset]? = some byte ∧
      mp.mpTypeof byte = headType (entry.kind.head 0) := by
  have place := stored.place
  obtain ⟨actual, stored⟩ := stored
  rw [OpenContainer.patchWith] at stored
  rw [OpenContainer.place] at place
  split_ifs at stored place with same exceeded small half
  · cases stored
    -- the one-byte header is written anew
    have short : actual < 16 := by
      have one : (entry.kind.encode actual).length = 1 := (Prod.mk.inj place).2
      by_contra wide
      rw [Container.encode_length, if_neg wide] at one
      split at one <;> cases one
    obtain ⟨byte, tail, shape, type⟩ := header_typed implements entry.kind actual (by omega)
    refine ⟨byte, ?_, type⟩
    rw [Nat.sub_self, shape]
    rfl
  · cases stored
    exact absurd covered.1 (Nat.not_succ_le_self _)
  · cases stored
    exact absurd covered.1 (Nat.not_succ_le_self _)

theorem finalize_mirrors (implements : Implements mp) (describes : ledger.Describes mp writer) :
    Mirrors mp writer.buf.content (ledger.step mp .finalize)
      (Cxx.attempt (MpWriter.finalize mp) writer) := by
  obtain ⟨size, room, target, opened⟩ := ledger
  cases opened with
  | nil =>
      have empty : writer.openedContainers.items = [] := describes.opened
      obtain ⟨buf, ⟨items, bounded⟩⟩ := writer
      cases empty
      exact ⟨describes, (List.append_nil _).symm⟩
  | cons entry rest =>
      have items : writer.openedContainers.items =
          entry.container :: rest.map OpenContainer.container := describes.opened
      obtain ⟨buf, ⟨items, shallow⟩⟩ := writer
      cases items
      have bounds := describes.below
      have here : entry ∈ entry :: rest := List.mem_cons_self
      have fits : entry.container.headOffset + entry.width ≤ buf.size := by
        rw [describes.size]
        exact bounds.2.1
      have closed := finalize_exec implements ⟨_, Nat.le_of_succ_le shallow⟩ shallow bounds.1
        (describes.typed entry here) fits
      have confined : Ledger.Confined ⟨size, room, target, entry :: rest⟩ ⟨size, room, target, rest⟩
        ⟨[], entry.patch.toList⟩ := Ledger.close_confined rfl bounds
      have fit : AllFit entry.patch.toList buf.content.length := by
        have sized : buf.content.length = size := describes.size
        rw [sized]
        exact confined.fit
      rw [closed]
      refine ⟨⟨?_, describes.room, describes.target, rfl, confined.below, ?_⟩, ?_⟩
      · exact (apply_all_length entry.patch.toList buf.content fit).trans describes.size
      · intro other member
        obtain ⟨byte, stands, type⟩ := describes.typed other (List.mem_cons_of_mem entry member)
        refine ⟨byte, ?_, type⟩
        refine (apply_all_uncovered entry.patch.toList buf.content fit _ ?_).trans stands
        exact fun patch stored covered =>
          confined.closed patch stored other member _ covered other.covers_head
      · rw [Edit.apply, List.append_nil]
        rfl

theorem step_mirrors (implements : Implements mp) (describes : ledger.Describes mp writer)
    (op : WriterOp) (ranged : op.InRange) :
    Mirrors mp writer.buf.content (ledger.step mp op) (Cxx.attempt (op.exec mp) writer) := by
  cases op with
  | begin kind declared => exact begin_mirrors implements describes kind declared ranged
  | finalize => exact finalize_mirrors implements describes
  | scalar value => exact scalar_mirrors describes value
  | write bytes cardinality => exact write_mirrors describes bytes cardinality

/-- A sequence of calls, each with its exceptions caught. -/
def perform (mp : Msgpuck) (ops : List WriterOp) : Write Unit :=
  Cxx.forEach (fun op => Cxx.attempt (op.exec mp)) ops

theorem exec_all_performed {ops : List WriterOp} {reached : MpWriter}
    (done : execAll mp ops writer = .returned () reached) :
    perform mp ops writer = .returned () reached := Cxx.forEach_attempt done

theorem Mirrors.inversion {content : Bytes} {predicted : Option (Ledger × Edit)}
    {outcome : Outcome Exn MpWriter Unit} {reached : MpWriter}
    (mirrors : Mirrors mp content predicted outcome) (done : outcome = .returned () reached) :
    ∃ after edit, predicted = some (after, edit) ∧ after.Describes mp reached ∧
      reached.buf.content = edit.apply content := by
  cases done
  cases predicted with
  | none => cases mirrors
  | some result => exact ⟨result.1, result.2, rfl, mirrors⟩

theorem Edit.apply_then {first later : Edit} {content : Bytes}
    (fit : AllFit first.patches (content ++ first.text).length) :
    later.apply (first.apply content) = (first.then later).apply content := by
  rw [Edit.apply, Edit.apply, Edit.apply, Edit.then, apply_all_append, ← List.append_assoc,
    apply_all_behind first.patches _ later.text fit]

theorem Ledger.Describes.fit (describes : ledger.Describes mp writer) {reached : Ledger}
    {edit : Edit} (confined : ledger.Confined reached edit) :
    AllFit edit.patches (writer.buf.content ++ edit.text).length := by
  have sized : writer.buf.content.length = ledger.size := describes.size
  rw [List.length_append, sized, ← confined.size]
  exact confined.fit

theorem Mirrors.behind {content : Bytes} {first : Edit} {predicted : Option (Ledger × Edit)}
    {outcome : Outcome Exn MpWriter Unit}
    (mirrors : Mirrors mp (first.apply content) predicted outcome)
    (fit : AllFit first.patches (content ++ first.text).length) :
    Mirrors mp content (predicted.bind fun (reached, later) => some (reached, first.then later))
      outcome := by
  cases predicted with
  | none => cases outcome <;> trivial
  | some result =>
      cases outcome with
      | returned value reached =>
          obtain ⟨describes, text⟩ := mirrors
          exact ⟨describes, text.trans (Edit.apply_then fit)⟩
      | thrown error reached => cases mirrors
      | undefined => cases mirrors

theorem run_mirrors (implements : Implements mp) (ops : List WriterOp)
    (ranged : ∀ op ∈ ops, op.InRange) (describes : ledger.Describes mp writer) :
    Mirrors mp writer.buf.content (ledger.run mp ops) (perform mp ops writer) := by
  -- a call that throws is caught: the writer goes on after it, and its ledger, too
  induction ops generalizing ledger writer with
  | nil => exact ⟨describes, (List.append_nil _).symm⟩
  | cons op ops ih =>
      have inRange := ranged op List.mem_cons_self
      have head := step_mirrors implements describes op inRange
      simp only [perform, Cxx.forEach, Ledger.run]
      rw [Cxx.bind_run]
      cases attempted : Cxx.attempt (op.exec mp) writer with
      | returned _ middle =>
          obtain ⟨after, first, stepped, follows, text⟩ := head.inversion attempted
          have fit := describes.fit (Ledger.step_confined inRange describes.below stepped)
          have tail := ih (fun other member => ranged other (List.mem_cons_of_mem op member)) follows
          simp only [stepped, Option.bind_eq_bind, Option.bind_some]
          rw [text] at tail
          exact tail.behind fit
      | thrown error middle => cases ledger.step mp op <;> simp_all [Mirrors]
      | undefined =>
          cases stepped : ledger.step mp op with
          | none => trivial
          | some result => simp_all [Mirrors]

end Simulation

end Cpp2tnt
