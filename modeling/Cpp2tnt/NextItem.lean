import Cpp2tnt.CursorOps
import Cpp2tnt.Library.Transition

/-!
`has_next` and `skip`. `skip` looks at the right bound and at the cardinality,
`has_next` at one of them: at the right bound where there is one. They disagree
behind the last item of a reader whose bound lies further on.
-/

namespace Cpp2tnt
open Imperative MessagePack Transition

/-- The items end where the right bound is, or their number is the cardinality. The
index of the cursor is an `uint32_t`. -/
structure KnownEnd (items : List Bytes) (pos : Nat) (reader : MpReader) : Prop
    extends Over items pos reader where
  known : reader.endPos = some (pos + items.flatten.length) ∨
    reader.shape.limit = some items.length ∧ items.length < 2 ^ 32

/-- `mp_array(begin, end)`: only the stack of an error sets its own right bound. -/
def mpArrayOf {σ : Type} (mp : Msgpuck) (mem : Bytes) (beginPos endPos : Option Nat) :
    Cxx Exn σ MpReader := do
  let array ← mpArray mp mem beginPos
  return { array with endPos := array.endPos.or endPos }

def ItemLeft (items : List Bytes) (pos : Nat) (reader : MpReader) : Prop :=
  reader.currentPos ≠ some (pos + items.flatten.length)

def NilHere (mp : Msgpuck) (mem : Bytes) (reader : MpReader) : Prop :=
  (reader.currentPos.bind (mem[·]?)).map mp.mpTypeof = some .nil

instance (mp : Msgpuck) (mem : Bytes) (reader : MpReader) : Decidable (NilHere mp mem reader) :=
  inferInstanceAs (Decidable (_ = _))

/-- The answer of `has_next` is the one of `skip`; `std::optional`, `mp_optional` and
`read_or` take the default without reading if no item is left, and read it if one is. -/
structure SeesEnd (mp : Msgpuck) (mem : Bytes) (realText : RealText) (left : Prop)
    (reader : MpReader) : Prop where
  agrees : (∃ after, hasNext false reader = .returned true after) ↔
    ∃ after, skip mp mem reader = .returned () after
  absent : ¬ left → ∀ {α : Type} (dst : Overload α) (prior default : α) (before : Option α),
    getOr mp mem realText dst prior default reader = .returned default reader ∧
      (Overload.optional dst).get mp mem realText before reader = .returned none reader
  present : left → ∀ {α : Type} (dst : Overload α) (prior default : α) (before : Option α),
    getOr mp mem realText dst prior default reader =
        (if NilHere mp mem reader then do
          skip mp mem
          return default
        else dst.get mp mem realText prior) reader ∧
      (Overload.optional dst).get mp mem realText before reader =
        (if NilHere mp mem reader then do
          skip mp mem
          return none
        else do return some (← dst.get mp mem realText dst.fresh)) reader

/-- A packet is taken from a plain reader, and it ends between two items. -/
def TakesPacket (mp : Msgpuck) (mem : Bytes) (realText : RealText) (items : List Bytes) (pos : Nat)
    (reader : MpReader) (op : CursorOp) : Prop :=
  op = .iprotoMessage → reader.shape = .plain ∧
    ∀ after, op.step mp mem realText reader = some after →
      ∃ ind ≤ items.length, after = { reader with currentPos := some (pos + itemOffset items ind) }

def Between (items : List Bytes) (pos : Nat) (reader : MpReader) : Prop :=
  ∃ ind ≤ items.length, AtIndex items pos ind reader ∧ KnownEnd items pos reader ∧
    (reader.endPos ≠ some (pos + items.flatten.length) → reader.currentInd = ind)

section Ends
variable {mp : Msgpuck} {mem rest : Bytes} {items : List Bytes} {pos ind : Nat}
variable {start reader : MpReader} {realText : RealText}

theorem AtIndex.last_cannot (stands : AtIndex items pos items.length reader)
    (known : KnownEnd items pos reader)
    (exact_ : reader.endPos ≠ some (pos + items.flatten.length) → reader.currentInd = items.length) :
    ¬ CanSkip mp mem reader := by
  intro can
  by_cases ends : reader.endPos = some (pos + items.flatten.length)
  · have before := can.before
    have here := stands.stands
    rw [itemOffset, List.take_length] at here
    simp [atEnd, here, ends] at before
  · rcases known.known with same | ⟨limited, few⟩
    · exact ends same
    · have room := can.room items.length limited
      rw [exact_ ends] at room
      exact Nat.lt_irrefl _ room

theorem AtIndex.left_iff (laid : Laid mem items pos rest) (stands : AtIndex items pos ind reader)
    (within : ind ≤ items.length) : ItemLeft items pos reader ↔ ind < items.length := by
  rw [ItemLeft, stands.stands]
  constructor
  · intro left
    apply Nat.lt_of_le_of_ne within
    rintro rfl
    rw [itemOffset, List.take_length] at left
    exact left rfl
  · intro before same
    obtain ⟨value, encodes⟩ := laid.formed items[ind] (List.getElem_mem before)
    have headed := encodes.length_pos
    have next := item_offset_succ before
    have limit := item_offset_le items (ind + 1)
    have ended := Option.some.inj same
    omega

theorem skip_between (implements : Implements mp) (laid : Laid mem items pos rest) :
    Cxx.Preserves (Between items pos) (skip mp mem) := by
  rintro reader ⟨ind, within, stands, known, counted⟩
  by_cases before : ind < items.length
  · rw [skip_item implements laid stands before]
    refine ⟨ind + 1, before, stands.advance before, ⟨⟨known.begins, known.counts, known.ends⟩,
      known.known⟩, ?_⟩
    intro beyond
    rcases known.known with same | ⟨_, few⟩
    · exact absurd same beyond
    · have same : reader.currentInd = ind := counted beyond
      rw [MpReader.advance, same]
      exact Nat.mod_eq_of_lt (Nat.lt_of_le_of_lt before few)
  · obtain rfl : ind = items.length := Nat.le_antisymm within (Nat.le_of_not_lt before)
    obtain ⟨error, refused⟩ := skip_refused (stands.last_cannot known counted)
    rw [refused]
    exact ⟨_, within, stands, known, counted⟩

theorem rewind_between : Cxx.Preserves (Between items pos) rewind := by
  rintro reader ⟨ind, _, _, known, _⟩
  exact ⟨0, Nat.zero_le _, known.toOver.rewound,
    ⟨⟨known.begins, known.counts, known.ends⟩, known.known⟩, fun _ => rfl⟩

theorem step_between (implements : Implements mp) (laid : Laid mem items pos rest) {op : CursorOp}
    (between : Between items pos reader) (packet : TakesPacket mp mem realText items pos reader op)
    {after : MpReader} (done : op.step mp mem realText reader = some after) :
    Between items pos after := by
  by_cases message : op = .iprotoMessage
  -- a plain reader has no cardinality, so its index does not matter here
  · obtain ⟨plain, ends⟩ := packet message
    obtain ⟨next, within, rfl⟩ := ends after done
    obtain ⟨ind, _, stands, known, counted⟩ := between
    refine ⟨next, within, ⟨⟨known.begins, known.counts, known.ends⟩, rfl, ?_⟩,
      ⟨⟨known.begins, known.counts, known.ends⟩, known.known⟩, ?_⟩
    · intro limited
      simp [plain, Shape.limit] at limited
    · intro beyond
      rcases known.known with same | ⟨limited, _⟩
      · exact absurd same beyond
      · simp [plain, Shape.limit] at limited
  · have kept : Cxx.Preserves (Between items pos) (op.exec mp mem realText) := by
      by_cases again : op = .rewind
      · subst again
        exact rewind_between
      · exact exec_preserves (skip_between implements laid) op message again
    exact CursorOp.step_preserves kept between done

theorem run_between (implements : Implements mp) (laid : Laid mem items pos rest)
    (known : KnownEnd items pos start)
    (fresh : start.currentPos = start.beginPos ∧ start.currentInd = 0) {ops : List CursorOp}
    (run : Run (CursorOp.step mp mem realText) (TakesPacket mp mem realText items pos) start ops
      reader) : Between items pos reader := by
  apply run.invariant
  · refine ⟨0, Nat.zero_le _, ⟨known.toOver, ?_, ?_⟩, known, fun _ => fresh.2⟩
    · rw [fresh.1, known.begins]
      rfl
    · intro _
      exact Nat.le_of_eq fresh.2
  · intro before op after between packet done
    exact step_between implements laid between packet done

theorem has_next_bounded {last : Nat} (ends : reader.endPos = some last) (strict : Bool) :
    hasNext strict reader = .returned (reader.currentPos.any (· < last)) reader := by
  simp [hasNext, ends]

theorem has_next_counted {limit : Nat} (ends : reader.endPos = none)
    (begins : reader.beginPos = some pos) (limited : reader.shape.limit = some limit) (strict : Bool) :
    hasNext strict reader =
      .returned (reader.currentPos.isSome && reader.currentInd < limit) reader := by
  simp [hasNext, ends, begins, limited]

theorem default_absent (no : hasNext true reader = .returned false reader) {α : Type}
    (dst : Overload α) (prior default : α) (before : Option α) :
    getOr mp mem realText dst prior default reader = .returned default reader ∧
      (Overload.optional dst).get mp mem realText before reader = .returned none reader := by
  constructor
  · rw [getOr, Cxx.bind_returned no]
    rfl
  · rw [Overload.get, getOptional, Cxx.bind_returned no]
    rfl

theorem default_present (yes : hasNext true reader = .returned true reader) {byte : UInt8}
    (here : reader.currentPos.bind (mem[·]?) = some byte) {α : Type} (dst : Overload α)
    (prior default : α) (before : Option α) :
    getOr mp mem realText dst prior default reader =
        (if NilHere mp mem reader then do
          skip mp mem
          return default
        else dst.get mp mem realText prior) reader ∧
      (Overload.optional dst).get mp mem realText before reader =
        (if NilHere mp mem reader then do
          skip mp mem
          return none
        else do return some (← dst.get mp mem realText dst.fresh)) reader := by
  have read : deref mem reader.currentPos reader = .returned byte reader := by
    rw [deref, here]
    rfl
  have typed : NilHere mp mem reader ↔ mp.mpTypeof byte = .nil := by
    rw [NilHere, here, Option.map_some, Option.some.injEq]
  simp only [typed]
  constructor
  · rw [getOr, Cxx.bind_returned yes]
    simp only [Bool.not_true, Bool.false_eq_true, if_false, Cxx.bind_get]
    rw [Cxx.bind_returned read]
  · rw [Overload.get, getOptional, Cxx.bind_returned yes]
    simp only [Bool.not_true, Bool.false_eq_true, if_false, Cxx.bind_get]
    rw [Cxx.bind_returned read]

theorem AtIndex.sees_left (implements : Implements mp) (laid : Laid mem items pos rest)
    (stands : AtIndex items pos ind reader) (known : KnownEnd items pos reader)
    (before : ind < items.length) :
    SeesEnd mp mem realText (ItemLeft items pos reader) reader := by
  obtain ⟨value, encodes⟩ := laid.formed items[ind] (List.getElem_mem before)
  have left := (stands.left_iff laid (Nat.le_of_lt before)).mpr before
  have knows (strict : Bool) : reader.Knows strict := by
    rcases known.known with same | ⟨limited, _⟩
    · exact .inl (by rw [same]; rfl)
    · exact .inr ⟨by rw [known.begins]; rfl, .inl (by rw [limited]; rfl)⟩
  have more (strict : Bool) : hasNext strict reader = .returned true reader :=
    has_next_returned (stands.item laid before) encodes.length_pos (knows strict)
  obtain ⟨byte, tail, shape⟩ := List.exists_cons_of_ne_nil
    (List.ne_nil_of_length_pos encodes.length_pos)
  have here : reader.currentPos.bind (mem[·]?) = some byte := by
    rw [stands.stands, Option.bind_some, ← List.head?_drop, item_placed laid.placed before, shape]
    rfl
  refine ⟨?_, fun gone => absurd left gone, fun _ => default_present (more true) here⟩
  exact iff_of_true ⟨_, more false⟩ ⟨_, skip_item implements laid stands before⟩

theorem AtIndex.has_next_behind (stands : AtIndex items pos items.length reader)
    (known : KnownEnd items pos reader)
    (counted : reader.endPos ≠ some (pos + items.flatten.length) → reader.currentInd = items.length)
    (strict : Bool) :
    hasNext strict reader =
      .returned (reader.endPos.any (pos + items.flatten.length < ·)) reader := by
  have here : reader.currentPos = some (pos + items.flatten.length) := by
    rw [stands.stands, itemOffset, List.take_length]
  cases ends : reader.endPos with
  | some last =>
      rw [has_next_bounded ends, here]
      rfl
  | none =>
      rcases known.known with same | ⟨limited, few⟩
      · cases ends.symm.trans same
      · have last : reader.currentInd = items.length := counted (by simp [ends])
        rw [has_next_counted ends known.begins limited, last]
        simp

theorem sees_gone_iff {left : Prop} {further : Bool} (gone : ¬ left)
    (cannot : ¬ CanSkip mp mem reader)
    (asked : ∀ strict, hasNext strict reader = .returned further reader) :
    SeesEnd mp mem realText left reader ↔ further = false := by
  have refused : ¬ ∃ after, skip mp mem reader = .returned () after :=
    fun ⟨_, done⟩ => cannot (can_skip_of_returned done)
  constructor
  · intro sees
    by_contra yes
    rw [Bool.not_eq_false] at yes
    subst yes
    exact refused (sees.agrees.mp ⟨_, asked false⟩)
  · rintro rfl
    refine ⟨iff_of_false ?_ refused, fun _ => default_absent (asked true), fun some => absurd some gone⟩
    rintro ⟨after, yes⟩
    cases (asked false).symm.trans yes

/-- In every state reached, `has_next` is right exactly if an item is left or the right
bound, where there is one, is the end of the last item. -/
theorem sees_end_iff (implements : Implements mp) (laid : Laid mem items pos rest)
    (known : KnownEnd items pos start)
    (fresh : start.currentPos = start.beginPos ∧ start.currentInd = 0) {ops : List CursorOp}
    (run : Run (CursorOp.step mp mem realText) (TakesPacket mp mem realText items pos) start ops
      reader) :
    SeesEnd mp mem realText (ItemLeft items pos reader) reader ↔
      (¬ ItemLeft items pos reader → ∀ last ∈ reader.endPos, last = pos + items.flatten.length) := by
  obtain ⟨ind, within, stands, known, counted⟩ := run_between implements laid known fresh run
  by_cases before : ind < items.length
  · have left := (stands.left_iff laid within).mpr before
    exact iff_of_true (stands.sees_left implements laid known before) fun gone => absurd left gone
  · have gone := mt (stands.left_iff laid within).mp before
    obtain rfl : ind = items.length := Nat.le_antisymm within (Nat.le_of_not_lt before)
    rw [sees_gone_iff gone (stands.last_cannot known counted) (stands.has_next_behind known counted)]
    cases ends : reader.endPos with
    | none => simp
    | some last =>
        have beyond := known.ends last ends
        simp only [Option.any_some, decide_eq_false_iff_not, Option.mem_some_iff, forall_eq']
        constructor
        · intro same _
          omega
        · intro same
          have := same gone
          omega

end Ends

section Constructors
variable {mp : Msgpuck} {mem front rest : Bytes} {items : List Bytes} {pos last : Nat}

theorem plain_known : KnownEnd items pos (MpReader.plain pos (pos + items.flatten.length)) :=
  ⟨⟨rfl, nofun, by rintro _ ⟨⟩; exact Nat.le_refl _⟩, .inl rfl⟩

theorem nested_known {shape : Shape} (counts : ∀ limit ∈ shape.limit, items.length ≤ limit) :
    KnownEnd items pos (innerReader shape pos (pos + items.flatten.length)) :=
  ⟨⟨rfl, counts, by rintro _ ⟨⟩; exact Nat.le_refl _⟩, .inl rfl⟩

theorem given_known {shape : Shape} (limited : shape.limit = some items.length)
    (few : items.length < 2 ^ 32) (endPos : Option Nat)
    (ends : ∀ last ∈ endPos, pos + items.flatten.length ≤ last) :
    KnownEnd items pos ⟨shape, some pos, endPos, some pos, 0⟩ := by
  refine ⟨⟨rfl, ?_, ends⟩, .inr ⟨limited, few⟩⟩
  intro limit same
  rw [limited] at same
  cases same
  exact Nat.le_refl _

theorem array_on_buffer {σ : Type} (implements : Implements mp)
    (headed : HeadEncodes (.array items.length) front) (few : items.length < 2 ^ 32)
    (placed : mem.drop pos = front ++ (items.flatten ++ rest))
    (within : pos + front.length + items.flatten.length ≤ last) (state : σ) :
    ∃ reader, mpArrayOf mp mem (some pos) (some last) state = .returned reader state ∧
      KnownEnd items (pos + front.length) reader ∧ reader.endPos = some last ∧
      reader.currentPos = reader.beginPos ∧ reader.currentInd = 0 := by
  obtain ⟨byte, tail, rfl⟩ := List.exists_cons_of_ne_nil headed.ne_nil
  have here : mem[pos]? = some byte := by
    rw [← List.head?_drop, placed]
    rfl
  have read : deref mem (some pos) state = .returned byte state := by
    simp [deref, here]
  have opened : mpArrayOf mp mem (some pos) (some last) state = .returned
      ⟨.array items.length, some (pos + (byte :: tail).length), some last,
        some (pos + (byte :: tail).length), 0⟩ state := by
    simp only [mpArrayOf, mpArray, Cxx.bind_run, read, implements.typeof _ _ _ headed, headType,
      placed, implements.decodeArray _ _ _ headed, Cxx.pure_run]
    rfl
  refine ⟨_, opened, given_known rfl few _ ?_, rfl, rfl, rfl⟩
  rintro _ ⟨⟩
  exact within

end Constructors

/-- An array of one item as a nested reader has it, after the item has been read. -/
theorem sees_end_nested :
    SeesEnd reference [0x91, 5] noText (ItemLeft [[5]] 1 ⟨.array 1, some 1, some 2, some 2, 1⟩)
        ⟨.array 1, some 1, some 2, some 2, 1⟩ ↔
      (¬ ItemLeft [[5]] 1 ⟨.array 1, some 1, some 2, some 2, 1⟩ →
        ∀ last ∈ some 2, last = 1 + [[(5 : UInt8)]].flatten.length) := by
  have five : Encodes (.int 5) [5] := encodes_plain (fix_uint_head 5 (by decide)) rfl
  have laid : Laid [0x91, 5] [[5]] 1 [] := by
    refine ⟨rfl, ?_⟩
    rw [List.forall_mem_singleton]
    exact ⟨_, five⟩
  have counts : ∀ limit ∈ (Shape.array 1).limit, [[(5 : UInt8)]].length ≤ limit := by
    rintro _ ⟨⟩
    exact Nat.le_refl 1
  have run : Run (CursorOp.step reference [0x91, 5] noText)
      (TakesPacket reference [0x91, 5] noText [[5]] 1) (innerReader (.array 1) 1 2) ([] ++ [.skip])
      ⟨.array 1, some 1, some 2, some 2, 1⟩ := .snoc .nil nofun rfl
  exact sees_end_iff reference_implements laid (nested_known counts) ⟨rfl, rfl⟩ run

/-- An array with one more byte behind it: after its only item there is a next one, but
it cannot be skipped, and an optional is not empty but throws. -/
theorem array_reads_on :
    mpArrayOf reference [0x91, 5, 7] (some 0) (some 3) () =
        .returned ⟨.array 1, some 1, some 3, some 1, 0⟩ () ∧
      CursorOp.skip.exec reference [0x91, 5, 7] noText ⟨.array 1, some 1, some 3, some 1, 0⟩ =
        .returned () ⟨.array 1, some 1, some 3, some 2, 1⟩ ∧
      hasNext false ⟨.array 1, some 1, some 3, some 2, 1⟩ =
        .returned true ⟨.array 1, some 1, some 3, some 2, 1⟩ ∧
      skip reference [0x91, 5, 7] ⟨.array 1, some 1, some 3, some 2, 1⟩ =
        .thrown (mpReaderError "read out of bounds") ⟨.array 1, some 1, some 3, some 2, 1⟩ ∧
      (Overload.optional (.int .uint8)).get reference [0x91, 5, 7] noText none
        ⟨.array 1, some 1, some 3, some 2, 1⟩ =
        .thrown (mpReaderError "read out of bounds") ⟨.array 1, some 1, some 3, some 2, 1⟩ :=
  ⟨rfl, rfl, rfl, rfl, rfl⟩

end Cpp2tnt
