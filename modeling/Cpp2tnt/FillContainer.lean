import Cpp2tnt.BulkAppend

/-!
`fill`. The guard of its loop adds the cardinality the view declares to the
counter; `write` takes a cardinality of 0 for "count the items".
-/

namespace Cpp2tnt
open Imperative MessagePack MpWriter

/-- `mp_raw_view`: encoded items and how many of them it declares. -/
structure MpRawView where
  bytes : Bytes
  cardinality : UInt64

def MpRawView.adds (items : Nat) (view : MpRawView) : Nat :=
  if view.cardinality = 0 then items else view.cardinality.toNat

def MpRawView.copies (count : Nat) (view : MpRawView) : Bytes :=
  (List.replicate count view.bytes).flatten

namespace MpWriter

/-- `_opened_containers.top().items_count`. -/
def topCount (writer : MpWriter) : Nat :=
  match writer.openedContainers.items with
  | [] => 0
  | container :: _ => container.itemsCount.toNat

section Filling
variable (mp : Msgpuck) (view : MpRawView) (target : UInt32)

/-- One turn of the loop of `fill`, and whether there may be another one. -/
def fillPass : Write Bool := do
  let writer ← Cxx.get
  match writer.openedContainers.items with
  | [] => Cxx.undefined
  | container :: _ =>
      if container.itemsCount < target then
        if container.itemsCount.toUInt64 + view.cardinality ≤ target.toUInt64 then
          write mp view.bytes view.cardinality.toNat
          return true
        else return false
      else return false

/-- `fill(items_to_fill, target_items_count)`, as far as so many turns go. -/
def fill (turns : Nat) (writer : MpWriter) : Option (Outcome Exn MpWriter Unit) :=
  if writer.openedContainers.items.isEmpty then
    some (.thrown ⟨.runtimeError, "no opened containers"⟩ writer)
  else Cxx.whileLoop (fillPass mp view target) turns writer

end Filling
end MpWriter

section Statement
variable (mp : Msgpuck) (view : MpRawView) (target : UInt32) (items : Nat) (writer : MpWriter)

/-- Whole copies of the view stand behind the old content, and neither they nor
the counter exceed the limit. -/
structure Copied (limit copies : Nat) (after : MpWriter) : Prop where
  content : after.buf.content = writer.buf.content ++ view.copies copies
  fits : writer.topCount + copies * view.adds items ≤ limit
  counter : after.topCount ≤ limit

/-- What a call of `fill` comes to. If it throws, the buffer is full. -/
def FilledUp : Outcome Exn MpWriter Unit → Prop
  | .returned _ after => ∃ copies,
      Copied view items writer (max writer.topCount target.toNat) copies after ∧
      (view.bytes = [] ∨
        max writer.topCount target.toNat < writer.topCount + (copies + 1) * view.adds items)
  | .thrown _ after => ∃ copies,
      Copied view items writer (max writer.topCount target.toNat) copies after ∧
      after.buf.available < view.bytes.length
  | .undefined => False

/-- The call ends, with as many copies as fit. -/
def Fills : Prop :=
  ∃ turns outcome, fill mp view target turns writer = some outcome ∧
    FilledUp view target items writer outcome

def fitting : Nat := (target.toNat - writer.topCount) / view.adds items

/-- The guard lets one copy more pass: it adds nothing for the items that
are counted later, and wraps for a cardinality of almost 2^64. -/
def Overshoots : Prop :=
  if view.cardinality = 0 then ¬ items ∣ target.toNat - writer.topCount
  else 2 ^ 64 ≤ writer.topCount + view.cardinality.toNat

instance : Decidable (Overshoots view target items writer) := by
  unfold Overshoots
  exact inferInstance

def wanted : Nat :=
  fitting view target items writer + if Overshoots view target items writer then 1 else 0

/-- The container is full already, or a copy adds something and no more copies
pass than fit; if the buffer has no room for them, it is one that refuses them. -/
def Fillable : Prop :=
  target.toNat ≤ writer.topCount ∨
    (view.adds items ≠ 0 ∧
      if wanted view target items writer * view.bytes.length ≤ writer.buf.available then
        ¬ Overshoots view target items writer ∨ view.bytes = []
      else writer.buf.target = .raw false)

end Statement

def Admits (view : MpRawView) (target : UInt32) (count : Nat) : Prop :=
  count < target.toNat ∧ (count + view.cardinality.toNat) % 2 ^ 64 ≤ target.toNat

instance (view : MpRawView) (target : UInt32) (count : Nat) : Decidable (Admits view target count) :=
  inferInstanceAs (Decidable (_ ∧ _))

section Turns
variable {mp : Msgpuck} {view : MpRawView} {target : UInt32} {values : List Value}
  {writer : MpWriter}

theorem write_view (implements : Implements mp) (encodes : EncodesAll values view.bytes)
    (room : view.bytes.length ≤ writer.buf.available) :
    MpWriter.write mp view.bytes view.cardinality.toNat writer =
      .returned () (writer.written view.bytes (view.adds values.length)) := by
  unfold MpRawView.adds
  by_cases counted : view.cardinality = 0
  · rw [if_pos counted, counted]
    exact write_returned implements view.bytes 0 values encodes (.inr rfl) writer room
  · have given : view.cardinality.toNat ≠ 0 := fun zero => counted (UInt64.toNat_inj.mp zero)
    rw [if_neg counted, write_within _ _ room]
    exact count_range_given fun both => given both.1

theorem fill_pass (target : UInt32) (implements : Implements mp) (encodes : EncodesAll values view.bytes)
    (nested : writer.openedContainers.items ≠ []) :
    fillPass mp view target writer =
      if Admits view target writer.topCount then
        if view.bytes.length ≤ writer.buf.available then
          .returned true (writer.written view.bytes (view.adds values.length))
        else if writer.buf.target = .raw false then
          .thrown ⟨.runtimeError, "unable to resize raw buffer"⟩ writer
        else .undefined
      else .returned false writer := by
  obtain ⟨container, rest, opened⟩ := List.exists_cons_of_ne_nil nested
  have count : writer.topCount = container.itemsCount.toNat := by simp only [topCount, opened]
  have below : container.itemsCount < target ↔ writer.topCount < target.toNat := by
    rw [count]
    exact UInt32.lt_iff_toNat_lt
  have fits : container.itemsCount.toUInt64 + view.cardinality ≤ target.toUInt64 ↔
      (writer.topCount + view.cardinality.toNat) % 2 ^ 64 ≤ target.toNat := by
    rw [count, UInt64.le_iff_toNat_le, UInt64.toNat_add, UInt32.toNat_toUInt64,
      UInt32.toNat_toUInt64]
  simp only [fillPass, Cxx.bind_get, opened, below, fits, Admits]
  by_cases more : writer.topCount < target.toNat
  · by_cases passes : (writer.topCount + view.cardinality.toNat) % 2 ^ 64 ≤ target.toNat
    · simp only [more, passes, and_self, if_true]
      by_cases room : view.bytes.length ≤ writer.buf.available
      · rw [if_pos room, Cxx.bind_returned (write_view implements encodes room)]
        rfl
      · rw [if_neg room]
        by_cases fixed : writer.buf.target = .raw false
        · rw [if_pos fixed, Cxx.bind_thrown (write_refused _ _ room fixed)]
        · rw [if_neg fixed, Cxx.bind_run, write_overruns _ _ room fixed]
    · simp only [more, passes, and_false, if_true, if_false]
      rfl
  · simp only [more, false_and, if_false]
    rfl

end Turns

def MpWriter.filledBy (view : MpRawView) (items count : Nat) (writer : MpWriter) : MpWriter :=
  writer.written (view.copies count) (count * view.adds items)

section Loop
variable {mp : Msgpuck} {view : MpRawView} {target : UInt32} {items : Nat} {writer : MpWriter}

theorem copies_length (count : Nat) : (view.copies count).length = count * view.bytes.length := by
  simp [MpRawView.copies]

theorem filled_zero : writer.filledBy view items 0 = writer := by
  rw [filledBy, Nat.zero_mul]
  exact written_nothing writer

theorem filled_next (count : Nat) : (writer.filledBy view items count).written view.bytes
    (view.adds items) = writer.filledBy view items (count + 1) := by
  have copies : view.copies (count + 1) = view.copies count ++ view.bytes := by
    simp [MpRawView.copies, List.replicate_succ']
  rw [filledBy, written_written, filledBy, copies, Nat.succ_mul]

theorem filled_available (view : MpRawView) (items : Nat) (writer : MpWriter) (count : Nat) :
    (writer.filledBy view items count).buf.available =
      writer.buf.available - count * view.bytes.length := by
  rw [filledBy, written_buf, WtfBuffer.push_available, copies_length]

theorem written_top (nested : writer.openedContainers.items ≠ []) (bytes : Bytes) (count : Nat) :
    (writer.written bytes count).topCount = (writer.topCount + count) % 2 ^ 32 := by
  obtain ⟨buf, ⟨_ | ⟨container, rest⟩, bounded⟩⟩ := writer
  · exact absurd rfl nested
  · change (container.itemsCount + UInt32.ofNat count).toNat = _
    rw [UInt32.toNat_add, UInt32.toNat_ofNat', Nat.add_mod_mod]
    rfl

theorem written_nested (nested : writer.openedContainers.items ≠ []) (bytes : Bytes) (count : Nat) :
    (writer.written bytes count).openedContainers.items ≠ [] := by
  intro none
  have same := MpWriter.counted_opened_length count { writer with buf := writer.buf.push bytes }
  rw [show (MpWriter.counted count { writer with buf := writer.buf.push bytes }) =
    writer.written bytes count from rfl, none] at same
  exact nested (List.eq_nil_of_length_eq_zero same.symm)

theorem filled_nested (view : MpRawView) (items : Nat)
    (nested : writer.openedContainers.items ≠ []) (count : Nat) :
    (writer.filledBy view items count).openedContainers.items ≠ [] :=
  written_nested nested _ _

theorem top_bounded (writer : MpWriter) : writer.topCount < 2 ^ 32 := by
  unfold topCount
  split
  · decide
  · exact UInt32.toNat_lt _

/-! How far the guard lets the counter come. -/

theorem fitting_within (count : Nat) (within : count ≤ fitting view target items writer)
    (below : writer.topCount ≤ target.toNat) :
    writer.topCount + count * view.adds items ≤ target.toNat := by
  have product : count * view.adds items ≤ target.toNat - writer.topCount :=
    (Nat.mul_le_mul_right _ within).trans (Nat.div_mul_le_self _ _)
  omega

theorem beyond_fitting (target : UInt32) (writer : MpWriter) (adds : view.adds items ≠ 0) :
    target.toNat < writer.topCount + (fitting view target items writer + 1) * view.adds items := by
  have next := Nat.lt_mul_div_succ (target.toNat - writer.topCount) (Nat.pos_of_ne_zero adds)
  rw [Nat.mul_comm] at next
  unfold fitting
  omega

theorem admits_before (count : Nat) (within : count < fitting view target items writer)
    (adds : view.adds items ≠ 0) (below : writer.topCount < target.toNat) :
    Admits view target (writer.topCount + count * view.adds items) := by
  have next := fitting_within (count + 1) within below.le
  have bounded := target.toNat_lt
  rw [Nat.succ_mul] at next
  refine ⟨by omega, ?_⟩
  by_cases counted : view.cardinality = 0
  · rw [counted, UInt64.toNat_zero, Nat.mod_eq_of_lt (by omega)]
    omega
  · have given : view.adds items = view.cardinality.toNat := if_neg counted
    rw [given] at next ⊢
    rw [Nat.mod_eq_of_lt (by omega)]
    omega

theorem admits_last (adds : view.adds items ≠ 0) (below : writer.topCount < target.toNat) :
    Admits view target (writer.topCount + fitting view target items writer * view.adds items) ↔
      Overshoots view target items writer := by
  have reached := fitting_within (fitting view target items writer) le_rfl below.le
  have beyond := beyond_fitting target writer adds
  have bounded := target.toNat_lt
  rw [Nat.succ_mul] at beyond
  unfold Admits Overshoots
  by_cases counted : view.cardinality = 0
  · have given : view.adds items = items := if_pos counted
    rw [if_pos counted, counted, UInt64.toNat_zero, Nat.mod_eq_of_lt (by omega)]
    rw [Nat.dvd_iff_div_mul_eq]
    unfold fitting at reached beyond ⊢
    rw [given] at reached beyond ⊢
    omega
  · have given : view.adds items = view.cardinality.toNat := if_neg counted
    have narrow := view.cardinality.toNat_lt
    -- the sum wraps only for a cardinality of which not even one copy fits
    have multiple : fitting view target items writer * view.cardinality.toNat = 0 ∨
        view.cardinality.toNat ≤ fitting view target items writer * view.cardinality.toNat := by
      rcases Nat.eq_zero_or_pos (fitting view target items writer) with none | some
      · exact .inl (by rw [none, Nat.zero_mul])
      · exact .inr (Nat.le_mul_of_pos_left _ some)
    rw [if_neg counted]
    rw [given] at reached beyond ⊢
    omega

theorem admits_wanted (count : Nat) (within : count < wanted view target items writer)
    (adds : view.adds items ≠ 0) (below : writer.topCount < target.toNat) :
    count ≤ fitting view target items writer ∧
      Admits view target (writer.topCount + count * view.adds items) := by
  unfold wanted at within
  by_cases early : count < fitting view target items writer
  · exact ⟨early.le, admits_before count early adds below⟩
  · -- the only turn beyond those that fit is the one that overshoots
    split_ifs at within with more
    · obtain rfl : count = fitting view target items writer := by omega
      exact ⟨le_rfl, (admits_last adds below).mpr more⟩
    · omega

theorem filled_top (nested : writer.openedContainers.items ≠ []) {count : Nat}
    (within : count ≤ fitting view target items writer) (below : writer.topCount < target.toNat) :
    (writer.filledBy view items count).topCount = writer.topCount + count * view.adds items := by
  have reached := fitting_within count within below.le
  have bounded := target.toNat_lt
  rw [filledBy, written_top nested, Nat.mod_eq_of_lt (by omega)]

theorem filled_copied (nested : writer.openedContainers.items ≠ []) {count : Nat}
    (within : count ≤ fitting view target items writer) (below : writer.topCount < target.toNat) :
    Copied view items writer (max writer.topCount target.toNat) count
      (writer.filledBy view items count) where
  content := rfl
  fits := (fitting_within count within below.le).trans (le_max_right _ _)
  counter := by
    rw [filled_top nested within below]
    exact (fitting_within count within below.le).trans (le_max_right _ _)

end Loop

section Runs
variable {mp : Msgpuck} {view : MpRawView} {target : UInt32} {values : List Value}
  {writer : MpWriter}

theorem fill_nested (nested : writer.openedContainers.items ≠ []) (turns : Nat) :
    fill mp view target turns writer = Cxx.whileLoop (fillPass mp view target) turns writer := by
  have inside : ¬ writer.openedContainers.items.isEmpty = true := by
    rw [List.isEmpty_iff]
    exact nested
  rw [fill, if_neg inside]

theorem fill_reaches (implements : Implements mp) (encodes : EncodesAll values view.bytes)
    (nested : writer.openedContainers.items ≠ []) (adds : view.adds values.length ≠ 0)
    (below : writer.topCount < target.toNat) {count : Nat}
    (within : count ≤ wanted view target values.length writer)
    (room : count * view.bytes.length ≤ writer.buf.available) (turns : Nat) :
    fill mp view target (count + turns) writer =
      Cxx.whileLoop (fillPass mp view target) turns (writer.filledBy view values.length count) := by
  have each : ∀ ind < count, fillPass mp view target (writer.filledBy view values.length ind) =
      .returned true (writer.filledBy view values.length (ind + 1)) := by
    intro ind early
    obtain ⟨fits, admits⟩ := admits_wanted ind (early.trans_le within) adds below
    have next : (ind + 1) * view.bytes.length ≤ writer.buf.available :=
      (Nat.mul_le_mul_right _ early).trans room
    rw [Nat.succ_mul] at next
    have left : view.bytes.length ≤ (writer.filledBy view values.length ind).buf.available := by
      rw [filled_available]
      omega
    rw [fill_pass target implements encodes (filled_nested view values.length nested ind),
      filled_top nested fits below, if_pos admits, if_pos left, filled_next]
  have taken := Cxx.while_passes (fun ind => writer.filledBy view values.length ind) count each turns
  rw [filled_zero] at taken
  rw [fill_nested nested, taken]

theorem fill_stuck (implements : Implements mp) (encodes : EncodesAll values view.bytes)
    (nested : writer.openedContainers.items ≠ []) (below : writer.topCount < target.toNat)
    (nothing : view.adds values.length = 0) : ¬ Fills mp view target values.length writer := by
  obtain ⟨counted, none⟩ : view.cardinality = 0 ∧ values = [] := by
    unfold MpRawView.adds at nothing
    split_ifs at nothing with counted
    · exact ⟨counted, List.length_eq_zero_iff.mp nothing⟩
    · exact absurd (UInt64.toNat_inj.mp nothing) counted
  have empty : view.bytes = [] := by
    rw [none] at encodes
    exact encodes
  have admits : Admits view target writer.topCount := by
    have bounded := target.toNat_lt
    refine ⟨below, ?_⟩
    rw [counted, UInt64.toNat_zero, Nat.mod_eq_of_lt (by omega)]
    exact below.le
  have room : view.bytes.length ≤ writer.buf.available := by
    rw [empty]
    exact Nat.zero_le _
  have again : fillPass mp view target writer = .returned true writer := by
    rw [fill_pass target implements encodes nested, if_pos admits, if_pos room, nothing, empty,
      written_nothing]
  rintro ⟨turns, outcome, ran, _⟩
  rw [fill_nested nested, Cxx.while_never again] at ran
  cases ran

/-- A cardinality with which the sum wraps takes from the counter, so the turns
come to an end all the same. -/
theorem wrapped_ends (target : UInt32) (implements : Implements mp)
    (encodes : EncodesAll values view.bytes) (nested : writer.openedContainers.items ≠ []) (empty : view.bytes = [])
    (wraps : 2 ^ 64 - 2 ^ 32 ≤ view.cardinality.toNat) : ∃ turns after,
      Cxx.whileLoop (fillPass mp view target) turns writer = some (.returned () after) ∧
      after.buf.content = writer.buf.content ∧ after.topCount ≤ writer.topCount := by
  induction counter : writer.topCount using Nat.strong_induction_on generalizing writer with
  | _ count ih =>
      have passed := fill_pass target implements encodes nested
      by_cases admits : Admits view target writer.topCount
      · have room : view.bytes.length ≤ writer.buf.available := by
          rw [empty]
          exact Nat.zero_le _
        have given : view.adds values.length = view.cardinality.toNat := by
          refine if_neg fun counted => ?_
          rw [counted] at wraps
          exact absurd wraps (by decide)
        rw [if_pos admits, if_pos room, given, empty] at passed
        have bounded := top_bounded writer
        have narrow := view.cardinality.toNat_lt
        have above := target.toNat_lt
        -- modulo 2 ^ 32 such a cardinality is a subtraction
        have fewer : (writer.written [] view.cardinality.toNat).topCount < count := by
          rw [written_top nested, ← counter]
          have guard := admits.2
          omega
        obtain ⟨turns, after, ran, content, less⟩ :=
          ih _ fewer (written_nested nested [] view.cardinality.toNat) rfl
        refine ⟨turns + 1, after, (Cxx.while_again passed turns).trans ran, ?_, by omega⟩
        rw [content]
        simp
      · rw [if_neg admits] at passed
        exact ⟨1, writer, Cxx.while_ends passed 0, rfl, counter.le⟩

theorem fill_wraps (implements : Implements mp) (encodes : EncodesAll values view.bytes)
    (nested : writer.openedContainers.items ≠ []) (adds : view.adds values.length ≠ 0)
    (more : Overshoots view target values.length writer) (empty : view.bytes = []) : Fills mp view target values.length writer := by
  have none : values = [] := by
    have fewer := EncodesAll.length_le encodes
    rw [empty, List.length_nil] at fewer
    exact List.eq_nil_of_length_eq_zero (Nat.le_zero.mp fewer)
  have wraps : 2 ^ 64 - 2 ^ 32 ≤ view.cardinality.toNat := by
    unfold Overshoots at more
    split_ifs at more with counted
    · rw [MpRawView.adds, if_pos counted, none] at adds
      exact absurd rfl adds
    · have bounded := top_bounded writer
      omega
  obtain ⟨turns, after, ran, content, less⟩ :=
    wrapped_ends target implements encodes nested empty wraps
  refine ⟨turns, _, (fill_nested nested turns).trans ran, 0, ?_, .inl empty⟩
  refine ⟨?_, by simp, less.trans (le_max_left _ _)⟩
  rw [content]
  exact (List.append_nil _).symm

theorem fill_full (implements : Implements mp) (encodes : EncodesAll values view.bytes)
    (nested : writer.openedContainers.items ≠ []) (full : target.toNat ≤ writer.topCount) :
    Fills mp view target values.length writer := by
  have stops : ¬ Admits view target writer.topCount := fun admits => Nat.not_lt.mpr full admits.1
  have pass : fillPass mp view target writer = .returned false writer := by
    rw [fill_pass target implements encodes nested, if_neg stops]
  refine ⟨1, _, (fill_nested nested 1).trans (Cxx.while_ends pass 0), 0, ?_, ?_⟩
  · exact ⟨(List.append_nil _).symm, by simp, le_max_left _ _⟩
  · by_cases adds : view.adds values.length = 0
    · left
      unfold MpRawView.adds at adds
      split_ifs at adds with counted
      · rw [List.length_eq_zero_iff.mp adds] at encodes
        exact encodes
      · exact absurd (UInt64.toNat_inj.mp adds) counted
    · right
      omega

theorem fill_fits (implements : Implements mp) (encodes : EncodesAll values view.bytes)
    (nested : writer.openedContainers.items ≠ []) (below : writer.topCount < target.toNat)
    (adds : view.adds values.length ≠ 0) (stays : ¬ Overshoots view target values.length writer)
    (room : fitting view target values.length writer * view.bytes.length ≤ writer.buf.available) :
    Fills mp view target values.length writer := by
  have last : wanted view target values.length writer = fitting view target values.length writer := by
    rw [wanted, if_neg stays, Nat.add_zero]
  have reached := fill_reaches implements encodes nested adds below last.ge room 1
  have stops : ¬ Admits view target (writer.filledBy view values.length
      (fitting view target values.length writer)).topCount := by
    rw [filled_top nested le_rfl below]
    exact fun admits => stays ((admits_last adds below).mp admits)
  have pass := fill_pass target implements encodes
    (filled_nested view values.length nested (fitting view target values.length writer))
  rw [if_neg stops] at pass
  refine ⟨_, _, reached.trans (Cxx.while_ends pass 0), fitting view target values.length writer,
    filled_copied nested le_rfl below, .inr ?_⟩
  have beyond := beyond_fitting target writer adds
  rw [max_eq_right below.le]
  exact beyond

theorem fill_overshoots (implements : Implements mp) (encodes : EncodesAll values view.bytes)
    (nested : writer.openedContainers.items ≠ []) (below : writer.topCount < target.toNat)
    (adds : view.adds values.length ≠ 0) (more : Overshoots view target values.length writer)
    (some : view.bytes ≠ [])
    (room : wanted view target values.length writer * view.bytes.length ≤ writer.buf.available) :
    ¬ Fills mp view target values.length writer := by
  have last : wanted view target values.length writer =
      fitting view target values.length writer + 1 := by
    rw [wanted, if_pos more]
  have length := List.length_pos_iff.mpr some
  -- behind these copies the loop only appends
  have kept : Cxx.Preserves (fun state => state.openedContainers.items ≠ [] ∧
      ∃ count, wanted view target values.length writer ≤ count ∧
        state.buf.content = writer.buf.content ++ view.copies count)
      (fillPass mp view target) := by
    rintro state ⟨inside, count, many, content⟩
    rw [fill_pass target implements encodes inside]
    split_ifs
    · refine ⟨written_nested inside _ _, count + 1, by omega, ?_⟩
      rw [written_buf, WtfBuffer.push_content, content, MpRawView.copies, MpRawView.copies,
        List.append_assoc, List.replicate_succ', List.flatten_append, List.flatten_singleton]
    · exact ⟨inside, count, many, content⟩
    · trivial
    · exact ⟨inside, count, many, content⟩
  have beyond := beyond_fitting target writer adds
  rintro ⟨turns, outcome, ran, filled⟩
  have reached := fill_reaches implements encodes nested adds below le_rfl room turns
  rw [fill_nested nested] at ran reached
  rw [Nat.add_comm, Cxx.while_more ran] at reached
  have left := Cxx.while_preserves kept
    ⟨filled_nested view values.length nested _, _, le_rfl, rfl⟩ reached.symm
  have contradiction : ∀ after copies,
      Copied view values.length writer (max writer.topCount target.toNat) copies after →
      (∃ count, wanted view target values.length writer ≤ count ∧
        after.buf.content = writer.buf.content ++ view.copies count) → False := by
    rintro after copies copied ⟨count, many, content⟩
    have same := congrArg List.length (List.append_cancel_left (copied.content.symm.trans content))
    rw [copies_length, copies_length] at same
    have fits := copied.fits
    rw [max_eq_right below.le] at fits
    have equal := Nat.eq_of_mul_eq_mul_right length same
    have product := Nat.mul_le_mul_right (view.adds values.length)
      (show fitting view target values.length writer + 1 ≤ copies by omega)
    omega
  cases outcome with
  | returned _ after =>
      obtain ⟨copies, copied, _⟩ := filled
      exact contradiction after copies copied left.2
  | thrown _ after =>
      obtain ⟨copies, copied, _⟩ := filled
      exact contradiction after copies copied left.2
  | undefined => exact filled

theorem fill_short (implements : Implements mp) (encodes : EncodesAll values view.bytes)
    (nested : writer.openedContainers.items ≠ []) (below : writer.topCount < target.toNat)
    (adds : view.adds values.length ≠ 0)
    (room : ¬ wanted view target values.length writer * view.bytes.length ≤ writer.buf.available) :
    Fills mp view target values.length writer ↔ writer.buf.target = .raw false := by
  have length : 0 < view.bytes.length := by
    rcases Nat.eq_zero_or_pos view.bytes.length with none | some
    · rw [none, Nat.mul_zero] at room
      exact absurd (Nat.zero_le _) room
    · exact some
  -- as many copies as there is room for
  generalize whole : writer.buf.available / view.bytes.length = count
  have within : count * view.bytes.length ≤ writer.buf.available := by
    rw [← whole]
    exact Nat.div_mul_le_self _ _
  have next : writer.buf.available < count * view.bytes.length + view.bytes.length := by
    rw [← whole, Nat.mul_comm]
    exact Nat.lt_mul_div_succ _ length
  have early : count < wanted view target values.length writer := by
    rw [← whole]
    exact (Nat.div_lt_iff_lt_mul length).mpr (Nat.lt_of_not_le room)
  obtain ⟨fits, admits⟩ := admits_wanted count early adds below
  have left := filled_available view values.length writer count
  have reached := fill_reaches implements encodes nested adds below early.le within 1
  have pass := fill_pass target implements encodes
    (filled_nested view values.length nested count)
  have full : ¬ view.bytes.length ≤ (writer.filledBy view values.length count).buf.available := by
    rw [left]
    omega
  rw [filled_top nested fits below, if_pos admits, if_neg full] at pass
  by_cases fixed : writer.buf.target = .raw false
  · refine iff_of_true ?_ fixed
    rw [if_pos (show (writer.filledBy view values.length count).buf.target = _ from fixed)] at pass
    refine ⟨_, _, reached.trans (Cxx.while_throws pass 0), count, filled_copied nested fits below, ?_⟩
    exact Nat.lt_of_not_le full
  · refine iff_of_false ?_ fixed
    rw [if_neg (show (writer.filledBy view values.length count).buf.target ≠ _ from fixed)] at pass
    rintro ⟨turns, outcome, ran, filled⟩
    rw [Cxx.while_undefined pass, fill_nested nested] at reached
    rw [fill_nested nested] at ran
    rw [Cxx.while_unique ran reached] at filled
    exact filled

end Runs

/-- `fill` ends with as many copies as fit exactly if no more than these pass its
guard, each adds something, and the buffer has room for them or refuses them. -/
theorem fills_iff {mp : Msgpuck} (implements : Implements mp) {view : MpRawView}
    {values : List Value} (encodes : EncodesAll values view.bytes) (target : UInt32)
    {writer : MpWriter} (nested : writer.openedContainers.items ≠ []) :
    Fills mp view target values.length writer ↔ Fillable view target values.length writer := by
  unfold Fillable
  by_cases full : target.toNat ≤ writer.topCount
  · exact iff_of_true (fill_full implements encodes nested full) (.inl full)
  have below := Nat.lt_of_not_le full
  by_cases adds : view.adds values.length = 0
  · exact iff_of_false (fill_stuck implements encodes nested below adds) (by simp [full, adds])
  by_cases room : wanted view target values.length writer * view.bytes.length ≤ writer.buf.available
  · simp only [full, adds, room, false_or, ne_eq, not_false_eq_true, true_and, if_true]
    by_cases more : Overshoots view target values.length writer
    · by_cases empty : view.bytes = []
      · refine iff_of_true ?_ (.inr empty)
        exact fill_wraps implements encodes nested adds more empty
      · refine iff_of_false ?_ (not_or.mpr ⟨not_not.mpr more, empty⟩)
        exact fill_overshoots implements encodes nested below adds more empty room
    · refine iff_of_true ?_ (.inl more)
      rw [wanted, if_neg more, Nat.add_zero] at room
      exact fill_fits implements encodes nested below adds more room
  · rw [fill_short implements encodes nested below adds room]
    simp [full, adds, room]

/-- An array of five with three items in it, and room for ten bytes. -/
def threeOfFive : MpWriter where
  buf := ⟨[0x95, 0xc0, 0xc0, 0xc0], List.replicate 10 0, .vector 14⟩
  openedContainers := ⟨[⟨0, 5, 3⟩], by decide⟩

def oneNil : MpRawView := ⟨[0xc0], 1⟩

theorem fills_plain : Fills reference oneNil 5 1 threeOfFive ↔ Fillable oneNil 5 1 threeOfFive := by
  have encodes : EncodesAll [.nil] oneNil.bytes :=
    encodes_all_singleton (encodes_plain encode_nil_head rfl)
  have nested : threeOfFive.openedContainers.items ≠ [] := List.cons_ne_nil _ _
  exact fills_iff reference_implements encodes 5 nested

/-- Two items of no declared cardinality exceed a target of four, and a view of
none is written for ever. -/
theorem fill_exceeds : ¬ Fills reference ⟨[0xc3, 0xc2], 0⟩ 4 2 threeOfFive ∧
    ∀ turns, fill reference ⟨[], 0⟩ 4 turns threeOfFive = none := by
  constructor
  · rintro ⟨turns, outcome, ran, filled⟩
    have two : fill reference ⟨[0xc3, 0xc2], 0⟩ 4 2 threeOfFive =
        some (.returned () (threeOfFive.written [0xc3, 0xc2] 2)) := rfl
    cases (Cxx.while_unique ran two : outcome = _)
    obtain ⟨copies, copied, _⟩ := filled
    exact absurd copied.counter (by decide)
  · intro turns
    have again : fillPass reference ⟨[], 0⟩ 4 threeOfFive = .returned true threeOfFive := rfl
    exact Cxx.while_never again turns

end Cpp2tnt
