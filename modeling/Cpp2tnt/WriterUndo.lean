import Cpp2tnt.LedgerSimulation

/-!
`get_state()` and `set_state()`. What is restored is the length of the text and
the stack of open containers. A header below the restored length keeps what a
`finalize` in between has stored in it, until it is patched again.
-/

namespace Cpp2tnt
open Imperative MessagePack MpWriter Patches

namespace MpWriter

/-- `mp_writer::state` -/
structure SavedState where
  contentLen : Nat
  openedContainers : WtfStack ContainerMeta 16

def getState (writer : MpWriter) : SavedState := ⟨writer.buf.size, writer.openedContainers⟩

def setState (state : SavedState) : Write Unit := do
  let writer ← Cxx.get
  if writer.buf.capacity ≥ state.contentLen then
    Cxx.put { writer with buf := writer.buf.cut state.contentLen }
  else Cxx.throw ⟨.overflowError, "destination buffer was truncated"⟩
  let writer ← Cxx.get
  Cxx.put { writer with openedContainers := state.openedContainers }

end MpWriter

/-- The writer states a program can reach from one state: by calls whose
exceptions it may catch, and by undoing what it did since some point. -/
inductive Uses (mp : Msgpuck) : MpWriter → MpWriter → Prop where
  | none (writer : MpWriter) : Uses mp writer writer
  | call (start before after : MpWriter) (op : WriterOp) (earlier : Uses mp start before)
      (ranged : op.InRange) (done : Cxx.attempt (op.exec mp) before = .returned () after) :
      Uses mp start after
  | undo (start saved before after : MpWriter) (earlier : Uses mp start saved)
      (later : Uses mp saved before)
      (done : setState (getState saved) before = .returned () after) : Uses mp start after

/-- What is left of an earlier state: the headers that were open are still
headers of their kind, and the rest of the earlier text has not changed. -/
structure Outlives (mp : Msgpuck) (ledger : Ledger) (before : MpWriter) (reached : Ledger)
    (after : MpWriter) : Prop where
  longer : ledger.size ≤ reached.size
  storage : reached.size + reached.room = ledger.size + ledger.room
  target : reached.target = ledger.target
  inner : ∀ entry ∈ reached.opened,
    (∃ outer ∈ ledger.opened, entry.SameHeader outer) ∨ ledger.size ≤ entry.container.headOffset
  kept : ∀ index < ledger.size, (∀ entry ∈ ledger.opened, ¬ entry.Covers index) →
    after.buf.content[index]? = before.buf.content[index]?
  typed : ∀ entry ∈ ledger.opened, entry.Typed mp after.buf.content

section Later
variable {mp : Msgpuck} {ledger middle reached : Ledger} {writer between after : MpWriter}

theorem Outlives.refl (describes : ledger.Describes mp writer) :
    Outlives mp ledger writer ledger writer where
  longer := Nat.le_refl _
  storage := rfl
  target := rfl
  inner entry member := .inl ⟨entry, member, rfl, rfl, rfl⟩
  kept _ _ _ := rfl
  typed := describes.typed

theorem Outlives.trans (below : OpenContainer.Below ledger.size ledger.opened)
    (head : Outlives mp ledger writer middle between)
    (tail : Outlives mp middle between reached after) : Outlives mp ledger writer reached after where
  longer := Nat.le_trans head.longer tail.longer
  storage := tail.storage.trans head.storage
  target := tail.target.trans head.target
  inner entry member := by
    rcases tail.inner entry member with ⟨outer, found, same⟩ | behind
    · rcases head.inner outer found with ⟨outermost, open_, alike⟩ | behind
      · exact .inl ⟨outermost, open_, same.trans alike⟩
      · exact .inr (same.2.1 ▸ behind)
    · exact .inr (Nat.le_trans head.longer behind)
  kept index inside uncovered := by
    have apart : ∀ entry ∈ middle.opened, ¬ entry.Covers index := by
      intro entry member covers
      rcases head.inner entry member with ⟨outer, found, same⟩ | behind
      · exact uncovered outer found (same.covers covers)
      · exact absurd inside (Nat.not_lt_of_le (Nat.le_trans behind covers.1))
    rw [tail.kept index (Nat.lt_of_lt_of_le inside head.longer) apart]
    exact head.kept index inside uncovered
  typed entry member := by
    obtain ⟨byte, stands, type⟩ := head.typed entry member
    have inside : entry.container.headOffset < ledger.size :=
      below.within member entry.covers_head
    by_cases open_ : ∃ inner ∈ middle.opened, inner.Covers entry.container.headOffset
    · obtain ⟨inner, found, covers⟩ := open_
      rcases head.inner inner found with ⟨outer, outside, same⟩ | behind
      · have only := below.unique outside member (same.covers covers) entry.covers_head
        obtain ⟨other, here, kind⟩ := tail.typed inner found
        refine ⟨other, ?_, ?_⟩
        · rw [← only, ← same.2.1]
          exact here
        · rw [← only, ← same.1]
          exact kind
      · exact absurd inside (Nat.not_lt_of_le (Nat.le_trans behind covers.1))
    · have apart : ∀ inner ∈ middle.opened, ¬ inner.Covers entry.container.headOffset :=
        fun inner found covers => open_ ⟨inner, found, covers⟩
      exact ⟨byte, (tail.kept _ (Nat.lt_of_lt_of_le inside head.longer) apart).trans stands, type⟩

theorem edit_outlived (implements : Implements mp) (describes : ledger.Describes mp writer)
    {edit : Edit} (confined : ledger.Confined reached edit)
    (text : after.buf.content = edit.apply writer.buf.content) :
    Outlives mp ledger writer reached after := by
  have fit := describes.fit confined
  have sized : writer.buf.content.length = ledger.size := describes.size
  have unpatched : ∀ index < ledger.size, (∀ patch ∈ edit.patches, ¬ patch.Covers index) →
      after.buf.content[index]? = writer.buf.content[index]? := by
    intro index inside uncovered
    rw [text, Edit.apply, apply_all_uncovered edit.patches _ fit index uncovered,
      List.getElem?_append_left (by rwa [sized])]
  -- below the earlier length only headers that were open are patched
  have owner : ∀ patch ∈ edit.patches, ∀ index < ledger.size, patch.Covers index →
      ∃ entry ∈ ledger.opened, entry.Patches patch := by
    intro patch member index inside covered
    rcases confined.places patch member with stored | behind
    · exact stored
    · exact absurd inside (Nat.not_lt_of_le (Nat.le_trans behind covered.1))
  exact {
    longer := confined.size ▸ Nat.le_add_right _ _
    storage := by
      have size := confined.size
      have room := confined.room
      omega
    target := confined.target
    inner := confined.inner
    kept := by
      intro index inside uncovered
      apply unpatched index inside
      intro patch member covered
      obtain ⟨entry, found, stored⟩ := owner patch member index inside covered
      exact uncovered entry found (stored.covers covered)
    typed := by
      intro entry member
      have inside : entry.container.headOffset < ledger.size :=
        describes.below.within member entry.covers_head
      by_cases patched : ∃ patch ∈ edit.patches, patch.Covers entry.container.headOffset
      · obtain ⟨patch, given, covered⟩ := patched
        obtain ⟨other, found, stored⟩ := owner patch given _ inside covered
        have only := describes.below.unique found member (stored.covers covered) entry.covers_head
        rw [only] at stored
        obtain ⟨byte, stands, type⟩ := patch_typed implements stored covered
        refine ⟨byte, ?_, type⟩
        rw [text, Edit.apply, apply_all_found edit.patches _ fit confined.apart patch given _ covered]
        exact stands
      · obtain ⟨byte, stands, type⟩ := describes.typed entry member
        refine ⟨byte, (unpatched _ inside ?_).trans stands, type⟩
        exact fun patch given covered => patched ⟨patch, given, covered⟩ }

/-- The writer with the length and the stack of the saved one. -/
def MpWriter.undone (saved reached : MpWriter) : MpWriter :=
  ⟨reached.buf.cut saved.buf.size, saved.openedContainers⟩

theorem set_state_returned (describes : ledger.Describes mp writer)
    (follows : reached.Describes mp after) (outlives : Outlives mp ledger writer reached after) :
    setState (getState writer) after = .returned () (writer.undone after) := by
  have within : after.buf.capacity ≥ (getState writer).contentLen := by
    show writer.buf.size ≤ after.buf.capacity
    have size := follows.size
    have longer := outlives.longer
    have whole := after.buf.size_le_capacity
    rw [describes.size]
    omega
  rw [setState, Cxx.bind_get, if_pos within]
  rfl

theorem undone_content (describes : ledger.Describes mp writer)
    (follows : reached.Describes mp after) (outlives : Outlives mp ledger writer reached after) :
    (writer.undone after).buf.content = after.buf.content.take ledger.size := by
  have within : writer.buf.size ≤ after.buf.size := by
    rw [describes.size, follows.size]
    exact outlives.longer
  rw [undone, WtfBuffer.cut_content _ _ within, describes.size]

theorem undone_described (describes : ledger.Describes mp writer)
    (follows : reached.Describes mp after) (outlives : Outlives mp ledger writer reached after) :
    ledger.Describes mp (writer.undone after) := by
  have content := undone_content describes follows outlives
  have size : (writer.undone after).buf.size = ledger.size := by
    have sized : after.buf.content.length = reached.size := follows.size
    rw [WtfBuffer.size, content, List.length_take, sized]
    exact Nat.min_eq_left outlives.longer
  constructor
  case size => exact size
  case room =>
    have whole : (writer.undone after).buf.capacity = after.buf.capacity :=
      WtfBuffer.cut_capacity _ _
    have storage := outlives.storage
    have later := follows.size
    have spare := follows.room
    simp only [WtfBuffer.size, WtfBuffer.available, WtfBuffer.capacity] at *
    omega
  case target => exact follows.target.trans outlives.target
  case opened => exact describes.opened
  case below => exact describes.below
  case typed =>
    intro entry member
    obtain ⟨byte, stands, type⟩ := outlives.typed entry member
    refine ⟨byte, ?_, type⟩
    rw [content, List.getElem?_take_of_lt (describes.below.within member entry.covers_head)]
    exact stands

theorem undone_outlived {saved : MpWriter} (describes : ledger.Describes mp writer)
    (since : middle.Describes mp saved) (follows : reached.Describes mp after)
    (head : Outlives mp ledger writer middle saved)
    (tail : Outlives mp middle saved reached after) :
    Outlives mp ledger writer middle (saved.undone after) := by
  have whole := head.trans describes.below tail
  have content := undone_content since follows tail
  have same : ∀ index < ledger.size,
      (saved.undone after).buf.content[index]? = after.buf.content[index]? := by
    intro index inside
    rw [content, List.getElem?_take_of_lt (Nat.lt_of_lt_of_le inside head.longer)]
  exact { head with
    kept := fun index inside uncovered =>
      (same index inside).trans (whole.kept index inside uncovered)
    typed := by
      intro entry member
      obtain ⟨byte, stands, type⟩ := whole.typed entry member
      refine ⟨byte, (same _ (describes.below.within member entry.covers_head)).trans stands, type⟩ }

theorem uses_described (implements : Implements mp) {start reachedWriter : MpWriter}
    (uses : Uses mp start reachedWriter) : ∀ ledger : Ledger, ledger.Describes mp start →
    ∃ reached : Ledger, reached.Describes mp reachedWriter ∧
      Outlives mp ledger start reached reachedWriter := by
  -- an undo goes back to a writer that was described earlier: both parts of the run are needed
  induction uses with
  | none writer => exact fun ledger describes => ⟨ledger, describes, .refl describes⟩
  | call start before after op earlier ranged done ih =>
      intro ledger describes
      obtain ⟨middle, follows, outlives⟩ := ih ledger describes
      obtain ⟨reached, edit, stepped, describesAfter, text⟩ :=
        (step_mirrors implements follows op ranged).inversion done
      have confined := Ledger.step_confined ranged follows.below stepped
      exact ⟨reached, describesAfter,
        outlives.trans describes.below (edit_outlived implements follows confined text)⟩
  | undo start saved before after earlier later done ihEarlier ihLater =>
      intro ledger describes
      obtain ⟨middle, since, head⟩ := ihEarlier ledger describes
      obtain ⟨reached, follows, tail⟩ := ihLater middle since
      have same := set_state_returned since follows tail
      rw [same] at done
      cases done
      exact ⟨middle, undone_described since follows tail,
        undone_outlived describes since follows head tail⟩

theorem fresh_described (buf : WtfBuffer UInt8) :
    Ledger.Describes mp ⟨buf.size, buf.available, buf.target, []⟩ (MpWriter.ofBuffer buf) where
  size := rfl
  room := rfl
  target := rfl
  opened := rfl
  below := trivial
  typed _ member := by cases member

end Later

section Faithful
variable (mp : Msgpuck)

/-- The kind `finalize` will find in the header. -/
def kindOf (content : Bytes) (container : ContainerMeta) : Container :=
  match content[container.headOffset]? with
  | some byte => if mp.mpTypeof byte = .map then .map else .array
  | none => .array

def ledgerOf (writer : MpWriter) : Ledger where
  size := writer.buf.size
  room := writer.buf.available
  target := writer.buf.target
  opened := writer.openedContainers.items.map fun container =>
    ⟨kindOf mp writer.buf.content container, container⟩

/-- The headers that the calls patch when they start from this writer: one patch
for each container closed with a count other than the declared one that fits. -/
def headersPatched (ops : List WriterOp) (writer : MpWriter) : List (Patch UInt8) :=
  match (ledgerOf mp writer).run mp ops with
  | some (_, edit) => edit.patches
  | none => []

/-- Every header of an open container that `tried` would overwrite with something
else is patched by `final` as well. -/
def Repatched (tried final : List WriterOp) (writer : MpWriter) : Prop :=
  ∀ patch ∈ headersPatched mp tried writer, patch.offset < writer.buf.size →
    patch.items ≠ patch.found writer.buf.content →
    ∃ other ∈ headersPatched mp final writer, other.offset = patch.offset

variable {mp}
variable {ledger : Ledger} {writer : MpWriter}

theorem Ledger.Describes.unique (describes : ledger.Describes mp writer) :
    ledgerOf mp writer = ledger := by
  have each : ∀ entry ∈ ledger.opened,
      (⟨kindOf mp writer.buf.content entry.container, entry.container⟩ : OpenContainer) = entry := by
    intro entry member
    obtain ⟨byte, stands, type⟩ := describes.typed entry member
    obtain ⟨kind, container⟩ := entry
    cases kind <;> simp_all [kindOf, headType, Container.head]
  have opened : (ledgerOf mp writer).opened = ledger.opened := by
    rw [ledgerOf, describes.opened, List.map_map]
    exact (List.map_congr_left each).trans (List.map_id _)
  obtain ⟨size, room, target, entries⟩ := ledger
  cases opened
  cases describes.size
  cases describes.room
  cases describes.target
  rfl

/-- The bytes that differ after the undo are those that `tried` has patched with
something else; the rest of the text is the same. -/
theorem undone_differs (describes : ledger.Describes mp writer) {reached : Ledger} {edit : Edit}
    {after : MpWriter} (confined : ledger.Confined reached edit)
    (text : after.buf.content = edit.apply writer.buf.content) (index : Nat)
    (inside : index < ledger.size) :
    after.buf.content[index]? = writer.buf.content[index]? ↔
      ∀ patch ∈ edit.patches, patch.Covers index →
        patch.items[index - patch.offset]? = writer.buf.content[index]? := by
  have fit := describes.fit confined
  have sized : writer.buf.content.length = ledger.size := describes.size
  have old : (writer.buf.content ++ edit.text)[index]? = writer.buf.content[index]? :=
    List.getElem?_append_left (by rwa [sized])
  rw [text, Edit.apply]
  constructor
  · intro same patch member covered
    rw [← apply_all_found edit.patches _ fit confined.apart patch member index covered]
    exact same
  · intro each
    by_cases covered : ∃ patch ∈ edit.patches, patch.Covers index
    · obtain ⟨patch, member, covers⟩ := covered
      rw [apply_all_found edit.patches _ fit confined.apart patch member index covers]
      exact each patch member covers
    · rw [apply_all_uncovered edit.patches _ fit index fun patch member covers =>
        covered ⟨patch, member, covers⟩]
      exact old

theorem patches_meet (describes : ledger.Describes mp writer) {first second : Ledger}
    {tried final : Edit} (left : ledger.Confined first tried) (right : ledger.Confined second final)
    {patch other : Patch UInt8} (here : patch ∈ tried.patches) (there : other ∈ final.patches)
    {index : Nat} (inside : index < ledger.size) (covers : patch.Covers index)
    (meets : other.Covers index) :
    (other.offset, other.items.length) = (patch.offset, patch.items.length) := by
  rcases left.places patch here with ⟨entry, found, stored⟩ | behind
  · rcases right.places other there with ⟨again, standing, restored⟩ | behind
    · have only := describes.below.unique found standing (stored.covers covers)
        (restored.covers meets)
      rw [stored.place, restored.place, only]
    · exact absurd inside (Nat.not_lt_of_le (Nat.le_trans behind meets.1))
  · exact absurd inside (Nat.not_lt_of_le (Nat.le_trans behind covers.1))

theorem headers_patched_run {ops : List WriterOp} {reached : Ledger} {edit : Edit}
    (describes : ledger.Describes mp writer) (ran : ledger.run mp ops = some (reached, edit)) :
    headersPatched mp ops writer = edit.patches := by
  rw [headersPatched, describes.unique, ran]

/-- The two texts under the patches of `final`: what `tried` has left in the open
headers shows where it is not patched again. -/
theorem replayed_same (describes : ledger.Describes mp writer) {first second : Ledger}
    {tried final : Edit} {after undone : MpWriter} (left : ledger.Confined first tried)
    (right : ledger.Confined second final)
    (text : after.buf.content = tried.apply writer.buf.content)
    (restored : ledger.Describes mp undone)
    (kept : undone.buf.content = after.buf.content.take ledger.size) :
    final.apply undone.buf.content = final.apply writer.buf.content ↔
      ∀ patch ∈ tried.patches, patch.offset < ledger.size →
        patch.items ≠ patch.found writer.buf.content →
        ∃ other ∈ final.patches, other.offset = patch.offset := by
  have sized : writer.buf.content.length = ledger.size := describes.size
  have again : undone.buf.content.length = ledger.size := restored.size
  have same : (undone.buf.content ++ final.text).length =
      (writer.buf.content ++ final.text).length := by
    rw [List.length_append, List.length_append, sized, again]
  have below : ∀ index < ledger.size, ((undone.buf.content ++ final.text)[index]? =
      (writer.buf.content ++ final.text)[index]? ↔
        after.buf.content[index]? = writer.buf.content[index]?) := by
    intro index inside
    rw [List.getElem?_append_left (by rwa [again]), List.getElem?_append_left (by rwa [sized]), kept,
      List.getElem?_take_of_lt inside]
  have whole : ∀ patch ∈ tried.patches, patch.offset < ledger.size →
      patch.Fits writer.buf.content.length := by
    intro patch member inside
    rw [sized]
    rcases left.places patch member with ⟨entry, found, stored⟩ | behind
    · exact stored.fits (describes.below.member found).2
    · exact absurd inside (Nat.not_lt_of_le behind)
  rw [Edit.apply, Edit.apply, apply_all_eq_iff _ _ _ same (restored.fit right)]
  constructor
  · intro each patch member inside changed
    -- some byte of the header differs, so `final` has to patch it
    by_contra unpatched
    apply changed
    rw [Patch.found_eq_iff patch _ (whole patch member inside)]
    intro index covers
    have within : index < ledger.size := by
      have fits := whole patch member inside
      rw [sized] at fits
      exact Nat.lt_of_lt_of_le covers.2 fits
    rcases each index with ⟨other, given, meets⟩ | agree
    · have place := patches_meet describes left right member given within covers meets
      exact absurd ⟨other, given, (Prod.mk.inj place).1⟩ unpatched
    · exact (undone_differs describes left text index within).mp ((below index within).mp agree)
        patch member covers
  · intro each index
    by_cases inside : index < ledger.size
    · by_cases patched : ∃ other ∈ final.patches, other.Covers index
      · exact .inl patched
      · right
        rw [below index inside, undone_differs describes left text index inside]
        intro patch member covers
        have start : patch.offset < ledger.size := Nat.lt_of_le_of_lt covers.1 inside
        by_contra differs
        have changed : patch.items ≠ patch.found writer.buf.content := fun unchanged =>
          differs ((patch.found_eq_iff _ (whole patch member start)).mp unchanged index covers)
        obtain ⟨other, given, place⟩ := each patch member start changed
        -- both patches go to the one header that starts there
        have starts : other.Covers patch.offset := by
          rcases right.places other given with ⟨entry, _, stored⟩ | behind
          · exact place ▸ stored.covers_offset
          · exact absurd start (Nat.not_lt_of_le (place ▸ behind))
        have first : patch.Covers patch.offset :=
          ⟨Nat.le_refl _, Nat.lt_of_le_of_lt covers.1 covers.2⟩
        have length := (Prod.mk.inj
          (patches_meet describes left right member given start first starts)).2
        refine patched ⟨other, given, ?_⟩
        rw [Patch.Covers, place, length]
        exact covers
    · right
      have beyond := Nat.le_of_not_lt inside
      rw [List.getElem?_append_right (by rwa [again]), List.getElem?_append_right (by rwa [sized]),
        again, sized]

/-- `tried`, `set_state()` and `final` leave the bytes of `final` alone if and only
if every header that `tried` has overwritten is patched again. -/
theorem undo_faithful (implements : Implements mp) (buf : WtfBuffer UInt8)
    (saved reached finished : MpWriter) (tried final : List WriterOp)
    (rangedTried : ∀ op ∈ tried, op.InRange) (rangedFinal : ∀ op ∈ final, op.InRange)
    (uses : Uses mp (MpWriter.ofBuffer buf) saved)
    (ran : perform mp tried saved = .returned () reached)
    (alone : perform mp final saved = .returned () finished) :
    ∃ undone replayed, setState (getState saved) reached = .returned () undone ∧
      perform mp final undone = .returned () replayed ∧
      replayed.openedContainers.items = finished.openedContainers.items ∧
      (replayed.buf.content = finished.buf.content ↔ Repatched mp tried final saved) := by
  obtain ⟨ledger, describes, _⟩ := uses_described implements uses _ (fresh_described buf)
  obtain ⟨first, edit, tries, follows, text⟩ :=
    (run_mirrors implements tried rangedTried describes).inversion ran
  obtain ⟨last, added, ends, closes, whole⟩ :=
    (run_mirrors implements final rangedFinal describes).inversion alone
  have left := Ledger.run_confined rangedTried describes.below tries
  have right := Ledger.run_confined rangedFinal describes.below ends
  have outlives := edit_outlived implements describes left text
  have restored := undone_described describes follows outlives
  have replay := run_mirrors implements final rangedFinal restored
  rw [ends] at replay
  cases result : perform mp final (saved.undone reached) with
  | thrown error stopped =>
      rw [result] at replay
      cases replay
  | undefined =>
      rw [result] at replay
      cases replay
  | returned value replayed =>
      rw [result] at replay
      obtain ⟨again, bytes⟩ := replay
      refine ⟨_, replayed, set_state_returned describes follows outlives, result,
        again.opened.trans closes.opened.symm, ?_⟩
      rw [bytes, whole, Repatched, headers_patched_run describes tries,
        headers_patched_run describes ends, describes.size]
      exact replayed_same describes left right text restored
        (undone_content describes follows outlives)

end Faithful

/-- A writer over sixteen bytes with an open array of two. -/
def openArray : MpWriter :=
  ⟨(WtfBuffer.ofSize 16).push (encodeArrayHead 2), ⟨[⟨0, 2, 0⟩], by decide⟩⟩

theorem open_array_begun : Cxx.attempt (WriterOp.exec reference (.begin .array 2))
    (MpWriter.ofBuffer (WtfBuffer.ofSize 16)) = .returned () openArray := rfl

/-- Closed with one value in both runs: the header is patched, undone and patched again. -/
theorem undo_faithful_repatched : ∃ reached undone replayed finished,
    perform reference [.scalar .nil, .finalize] openArray = .returned () reached ∧
    setState (getState openArray) reached = .returned () undone ∧
    perform reference [.scalar (.int 7), .finalize] undone = .returned () replayed ∧
    perform reference [.scalar (.int 7), .finalize] openArray = .returned () finished ∧
    replayed.buf.content = finished.buf.content := by
  have ranged : ∀ value, ∀ op ∈ [WriterOp.scalar value, .finalize], op.InRange := by
    intro value op member
    rcases List.mem_cons.mp member with rfl | member
    · trivial
    · cases List.mem_singleton.mp member
      trivial
  have uses : Uses reference (MpWriter.ofBuffer (WtfBuffer.ofSize 16)) openArray :=
    .call _ _ _ (.begin .array 2) (.none _) (show 2 < 2 ^ 32 by decide) open_array_begun
  obtain ⟨undone, replayed, restored, ran, _, same⟩ := undo_faithful reference_implements
    (WtfBuffer.ofSize 16) openArray _ _ [.scalar .nil, .finalize] [.scalar (.int 7), .finalize]
    (ranged .nil) (ranged (.int 7)) uses rfl rfl
  refine ⟨_, undone, replayed, _, rfl, restored, ran, rfl, same.mpr ?_⟩
  intro patch member _ _
  exact ⟨patch, member, rfl⟩

/-- The array is closed with one value, undone, and closed with two: the header
still says one. -/
theorem undone_header_left : ∃ reached undone replayed finished,
    perform reference [.scalar (.int 1), .finalize] openArray = .returned () reached ∧
    setState (getState openArray) reached = .returned () undone ∧
    perform reference [.scalar (.int 1), .scalar (.int 2), .finalize] undone =
      .returned () replayed ∧
    perform reference [.scalar (.int 1), .scalar (.int 2), .finalize] openArray =
      .returned () finished ∧
    replayed.openedContainers.items = [] ∧ finished.openedContainers.items = [] ∧
    finished.buf.content = [0x92, 1, 2] ∧ replayed.buf.content = [0x91, 1, 2] :=
  ⟨_, _, _, _, rfl, rfl, rfl, rfl, rfl, rfl, rfl, rfl⟩

end Cpp2tnt
