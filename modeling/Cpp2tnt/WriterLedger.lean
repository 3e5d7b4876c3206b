import Cpp2tnt.Documents
import Cpp2tnt.Library.Patches

/-!
The open containers of a writer without the text. A ledger knows where each
header stands, what was declared and how many items were counted; from that alone
it says what a call appends and which header it patches. The text is then the
appended bytes under the patches, whatever the headers held before.
-/

namespace Cpp2tnt
open Imperative MessagePack MpWriter Patches

/-- An open container and its kind, which the writer reads from the header. -/
structure OpenContainer where
  kind : Container
  container : ContainerMeta

namespace OpenContainer

def width (entry : OpenContainer) : Nat := (entry.kind.encode entry.container.maxCardinality).length

def Covers (entry : OpenContainer) (index : Nat) : Prop :=
  entry.container.headOffset ≤ index ∧ index < entry.container.headOffset + entry.width

def addItems (count : Nat) (entry : OpenContainer) : OpenContainer :=
  { entry with container := entry.container.addItems count }

def SameHeader (left right : OpenContainer) : Prop :=
  left.kind = right.kind ∧ left.container.headOffset = right.container.headOffset ∧
    left.container.maxCardinality = right.container.maxCardinality

def patchWith (entry : OpenContainer) (actual : Nat) : Option (Patch UInt8) :=
  if actual = entry.container.maxCardinality then none
  else if actual > entry.container.maxCardinality ∧
      (entry.kind.encode actual).length > entry.width then none
  else if entry.container.maxCardinality < 16 then
    some ⟨entry.container.headOffset, entry.kind.encode actual⟩
  else if entry.container.maxCardinality < 2 ^ 16 then
    some ⟨entry.container.headOffset + 1, bigEndian 2 actual⟩
  else some ⟨entry.container.headOffset + 1, bigEndian 4 actual⟩

/-- What `finalize` stores: nothing when the count is the declared one or the
container cannot be closed. -/
def patch (entry : OpenContainer) : Option (Patch UInt8) :=
  if entry.kind = .map ∧ entry.container.itemsCount.toNat % 2 = 1 then none
  else entry.patchWith (entry.kind.cardinality entry.container.itemsCount.toNat)

/-- `finalize` of this container stores that, for some number of children. -/
def Patches (entry : OpenContainer) (patch : Patch UInt8) : Prop :=
  ∃ actual, entry.patchWith actual = some patch

theorem patch_patches {entry : OpenContainer} {patch : Patch UInt8} (stored : entry.patch = some patch) :
    entry.Patches patch := by
  rw [OpenContainer.patch] at stored
  split at stored
  · cases stored
  · exact ⟨_, stored⟩

theorem SameHeader.patches {left right : OpenContainer} (same : left.SameHeader right)
    {patch : Patch UInt8} (stored : left.Patches patch) : right.Patches patch := by
  obtain ⟨actual, stored⟩ := stored
  refine ⟨actual, ?_⟩
  rw [← stored, patchWith, patchWith, width, width, same.1, same.2.1, same.2.2]

theorem SameHeader.covers {left right : OpenContainer} (same : left.SameHeader right) {index : Nat}
    (covers : left.Covers index) : right.Covers index := by
  rwa [Covers, width, same.1, same.2.1, same.2.2] at covers

theorem SameHeader.symm {left right : OpenContainer} (same : left.SameHeader right) :
    right.SameHeader left := ⟨same.1.symm, same.2.1.symm, same.2.2.symm⟩

theorem SameHeader.trans {left middle right : OpenContainer} (first : left.SameHeader middle)
    (second : middle.SameHeader right) : left.SameHeader right :=
  ⟨first.1.trans second.1, first.2.1.trans second.2.1, first.2.2.trans second.2.2⟩

theorem add_items_same (count : Nat) (entry : OpenContainer) : (entry.addItems count).SameHeader entry :=
  ⟨rfl, rfl, rfl⟩

def place (entry : OpenContainer) : Nat × Nat :=
  if entry.container.maxCardinality < 16 then (entry.container.headOffset, 1)
  else if entry.container.maxCardinality < 2 ^ 16 then (entry.container.headOffset + 1, 2)
  else (entry.container.headOffset + 1, 4)

theorem Patches.place {entry : OpenContainer} {patch : Patch UInt8} (stored : entry.Patches patch) :
    (patch.offset, patch.items.length) = entry.place := by
  obtain ⟨actual, stored⟩ := stored
  rw [patchWith] at stored
  rw [OpenContainer.place]
  split_ifs at stored ⊢ with small same exceeded half
  · cases stored
    -- a count above the declared one fits only when its header is as short
    have short : actual < 16 := by
      by_contra wide
      apply exceeded
      rw [width, Container.encode_length, Container.encode_length, if_pos small, if_neg wide]
      constructor
      · omega
      · split <;> decide
    rw [Container.encode_length, if_pos short]
  · cases stored
    rw [big_endian_length]
  · cases stored
    rw [big_endian_length]

theorem place_inside (entry : OpenContainer) : entry.container.headOffset ≤ entry.place.1 ∧
    entry.place.1 + entry.place.2 ≤ entry.container.headOffset + entry.width := by
  rw [place, width, Container.encode_length]
  split_ifs <;> constructor <;> omega

theorem Patches.covers {entry : OpenContainer} {patch : Patch UInt8} (stored : entry.Patches patch)
    {index : Nat} (covered : patch.Covers index) : entry.Covers index := by
  have inside := entry.place_inside
  rw [← stored.place] at inside
  exact ⟨Nat.le_trans inside.1 covered.1, Nat.lt_of_lt_of_le covered.2 inside.2⟩

theorem Patches.covers_offset {entry : OpenContainer} {patch : Patch UInt8}
    (stored : entry.Patches patch) : patch.Covers patch.offset := by
  have length := (Prod.mk.inj (stored.place.trans (Prod.mk.eta).symm)).2
  refine ⟨Nat.le_refl _, Nat.lt_add_of_pos_right ?_⟩
  rw [length, OpenContainer.place]
  split_ifs <;> exact Nat.succ_pos _

theorem Patches.fits {entry : OpenContainer} {patch : Patch UInt8} (stored : entry.Patches patch)
    {limit : Nat} (ends : entry.container.headOffset + entry.width ≤ limit) : patch.Fits limit := by
  have inside := entry.place_inside.2
  rw [← stored.place] at inside
  exact Nat.le_trans inside ends

theorem width_pos (entry : OpenContainer) : 0 < entry.width := by
  rw [width, Container.encode_length]
  split_ifs <;> decide

theorem covers_head (entry : OpenContainer) : entry.Covers entry.container.headOffset :=
  ⟨Nat.le_refl _, Nat.lt_add_of_pos_right entry.width_pos⟩

def Below : Nat → List OpenContainer → Prop
  | _, [] => True
  | limit, entry :: rest =>
      entry.container.maxCardinality < 2 ^ 32 ∧
        entry.container.headOffset + entry.width ≤ limit ∧ Below entry.container.headOffset rest

theorem Below.mono {limit more : Nat} {entries : List OpenContainer} (below : Below limit entries)
    (longer : limit ≤ more) : Below more entries := by
  cases entries with
  | nil => trivial
  | cons entry rest => exact ⟨below.1, Nat.le_trans below.2.1 longer, below.2.2⟩

theorem Below.member {limit : Nat} {entries : List OpenContainer} (below : Below limit entries)
    {entry : OpenContainer} (member : entry ∈ entries) : entry.container.maxCardinality < 2 ^ 32 ∧
      entry.container.headOffset + entry.width ≤ limit := by
  induction entries generalizing limit with
  | nil => cases member
  | cons first rest ih =>
      rcases List.mem_cons.mp member with rfl | member
      · exact ⟨below.1, below.2.1⟩
      · obtain ⟨bounded, ends⟩ := ih below.2.2 member
        exact ⟨bounded, Nat.le_trans ends (Nat.le_trans (Nat.le_add_right _ _) below.2.1)⟩

theorem Below.within {limit : Nat} {entries : List OpenContainer} (below : Below limit entries)
    {entry : OpenContainer} (member : entry ∈ entries) {index : Nat} (covers : entry.Covers index) :
    index < limit :=
  Nat.lt_of_lt_of_le covers.2 (below.member member).2

theorem Below.unique {limit : Nat} {entries : List OpenContainer} (below : Below limit entries)
    {left right : OpenContainer} (here : left ∈ entries) (there : right ∈ entries) {index : Nat}
    (first : left.Covers index) (second : right.Covers index) : left = right := by
  induction entries generalizing limit with
  | nil => cases here
  | cons top rest ih =>
      have apart : ∀ {entry : OpenContainer}, entry ∈ rest → entry.Covers index → ¬ top.Covers index :=
        fun member covers standing =>
          absurd standing.1 (Nat.not_le_of_lt (below.2.2.within member covers))
      cases here with
      | head =>
          cases there with
          | head => rfl
          | tail _ deeper => exact absurd first (apart deeper second)
      | tail _ inner =>
          cases there with
          | head => exact absurd second (apart inner first)
          | tail _ deeper => exact ih below.2.2 inner deeper

end OpenContainer

/-- `begin_array(uint32_t)`, `begin_map(uint32_t)`. -/
def WriterOp.InRange : WriterOp → Prop
  | .begin _ maxCardinality => maxCardinality < 2 ^ 32
  | .finalize | .scalar _ | .write _ _ => True

structure Ledger where
  size : Nat
  room : Nat
  target : Target
  opened : List OpenContainer

/-- What a call, or a sequence of them, adds to the text and then patches. -/
structure Edit where
  text : Bytes
  patches : List (Patch UInt8)

def Edit.none : Edit := ⟨[], []⟩

def Edit.then (first second : Edit) : Edit :=
  ⟨first.text ++ second.text, first.patches ++ second.patches⟩

def Edit.apply (edit : Edit) (content : Bytes) : Bytes :=
  applyAll edit.patches (content ++ edit.text)

def countTop (items : Nat) : List OpenContainer → List OpenContainer
  | [] => []
  | entry :: rest => entry.addItems items :: rest

namespace Ledger

def append (text : Bytes) (items : Nat) (ledger : Ledger) : Option (Ledger × Edit) :=
  if text.length ≤ ledger.room then
    some ({ ledger with
      size := ledger.size + text.length
      room := ledger.room - text.length
      opened := countTop items ledger.opened }, ⟨text, []⟩)
  else none

section Calls
variable (mp : Msgpuck)

/-- The items `write` finds in the range; an exception leaves it uncounted. -/
def found (bytes : Bytes) : Option Nat :=
  match countItems mp bytes (bytes.length + 1) (MpReader.plain 0 bytes.length) with
  | .returned items _ => some items
  | .thrown _ _ => some 0
  | .undefined => none

/-- One call whose exception is caught. `none` is undefined behaviour. -/
def step (op : WriterOp) (ledger : Ledger) : Option (Ledger × Edit) :=
  match op with
  | .begin kind maxCardinality =>
      let head := kind.encode maxCardinality
      if ledger.opened.length < 16 then
        (ledger.append head 1).map fun (reached, edit) =>
          ({ reached with opened :=
            ⟨kind, ⟨ledger.size, maxCardinality, 0⟩⟩ :: reached.opened }, edit)
      else none
  | .finalize =>
      match ledger.opened with
      | [] => some (ledger, .none)
      | entry :: rest => some ({ ledger with opened := rest }, ⟨[], entry.patch.toList⟩)
  | .scalar value =>
      match scalarBytes mp value with
      | .error _ => some (ledger, .none)
      | .ok text => ledger.append text 1
  | .write bytes cardinality =>
      if ledger.room < bytes.length ∧ ledger.target = .raw false then some (ledger, .none)
      else if cardinality = 0 ∧ ledger.opened ≠ [] then
        (found mp bytes).bind fun items => ledger.append bytes items
      else ledger.append bytes cardinality

def run : List WriterOp → Ledger → Option (Ledger × Edit)
  | [], ledger => some (ledger, .none)
  | op :: ops, ledger => do
      let (middle, first) ← ledger.step mp op
      let (reached, later) ← run ops middle
      return (reached, first.then later)

end Calls

/-- The patches go to headers of the containers that were open or to the text
that was added, never twice to one place. -/
structure Confined (ledger reached : Ledger) (edit : Edit) : Prop where
  size : reached.size = ledger.size + edit.text.length
  room : reached.room + edit.text.length = ledger.room
  target : reached.target = ledger.target
  below : OpenContainer.Below reached.size reached.opened
  fit : AllFit edit.patches reached.size
  inner : ∀ entry ∈ reached.opened,
    (∃ outer ∈ ledger.opened, entry.SameHeader outer) ∨ ledger.size ≤ entry.container.headOffset
  places : ∀ patch ∈ edit.patches,
    (∃ entry ∈ ledger.opened, entry.Patches patch) ∨ ledger.size ≤ patch.offset
  apart : edit.patches.Pairwise Patch.Disjoint
  /-- What was patched is no longer open. -/
  closed : ∀ patch ∈ edit.patches, ∀ entry ∈ reached.opened, ∀ index, patch.Covers index →
    ¬ entry.Covers index

section Confinement
variable {ledger middle reached : Ledger}

theorem Confined.none (below : OpenContainer.Below ledger.size ledger.opened) :
    Confined ledger ledger .none where
  size := rfl
  room := rfl
  target := rfl
  below := below
  fit _ member := by cases member
  inner entry member := .inl ⟨entry, member, rfl, rfl, rfl⟩
  places _ member := by cases member
  apart := List.Pairwise.nil
  closed _ member := by cases member

theorem apart_behind {patch : Patch UInt8} {limit index : Nat} (fits : patch.Fits limit)
    (covered : patch.Covers index) : index < limit := Nat.lt_of_lt_of_le covered.2 fits

theorem Confined.then {first later : Edit} (head : Confined ledger middle first)
    (tail : Confined middle reached later) : Confined ledger reached (first.then later) where
  size := by rw [Edit.then, List.length_append, tail.size, head.size, Nat.add_assoc]
  room := by
    rw [Edit.then, List.length_append, ← head.room, ← tail.room]
    omega
  target := tail.target.trans head.target
  below := tail.below
  fit patch member := by
    rcases List.mem_append.mp member with earlier | last
    · exact (head.fit patch earlier).mono (tail.size ▸ Nat.le_add_right _ _)
    · exact tail.fit patch last
  inner entry member := by
    rcases tail.inner entry member with ⟨outer, kept, same⟩ | behind
    · rcases head.inner outer kept with ⟨outermost, found, alike⟩ | behind
      · exact .inl ⟨outermost, found, same.trans alike⟩
      · exact .inr (same.2.1 ▸ behind)
    · exact .inr (Nat.le_trans (head.size ▸ Nat.le_add_right _ _) behind)
  places patch member := by
    rcases List.mem_append.mp member with earlier | last
    · exact head.places patch earlier
    · rcases tail.places patch last with ⟨entry, kept, stored⟩ | behind
      · rcases head.inner entry kept with ⟨outer, found, same⟩ | behind
        · exact .inl ⟨outer, found, same.patches stored⟩
        · right
          have place := entry.place_inside.1
          rw [← stored.place] at place
          exact Nat.le_trans behind place
      · exact .inr (Nat.le_trans (head.size ▸ Nat.le_add_right _ _) behind)
  apart := by
    refine List.pairwise_append.mpr ⟨head.apart, tail.apart, ?_⟩
    intro patch earlier other last index covered again
    rcases tail.places other last with ⟨entry, kept, stored⟩ | behind
    · exact head.closed patch earlier entry kept index covered (stored.covers again)
    -- a header the later edit opened lies behind everything the first could patch
    · have before := apart_behind (head.fit patch earlier) covered
      exact absurd before (Nat.not_lt_of_le (Nat.le_trans behind again.1))
  closed patch member entry standing index covered := by
    rcases List.mem_append.mp member with earlier | last
    · rcases tail.inner entry standing with ⟨outer, kept, same⟩ | behind
      · intro covers
        exact head.closed patch earlier outer kept index covered (same.covers covers)
      · intro covers
        have before := apart_behind (head.fit patch earlier) covered
        exact absurd before (Nat.not_lt_of_le (Nat.le_trans behind covers.1))
    · exact tail.closed patch last entry standing index covered

theorem count_top_below {limit : Nat} {entries : List OpenContainer} (items : Nat)
    (below : OpenContainer.Below limit entries) : OpenContainer.Below limit (countTop items entries) := by
  cases entries with
  | nil => trivial
  | cons entry rest => exact below

theorem count_top_same (items : Nat) (entries : List OpenContainer) (entry : OpenContainer)
    (member : entry ∈ countTop items entries) : ∃ outer ∈ entries, entry.SameHeader outer := by
  cases entries with
  | nil => cases member
  | cons top rest =>
      cases member with
      | head => exact ⟨top, List.mem_cons_self, OpenContainer.add_items_same items top⟩
      | tail _ deeper => exact ⟨entry, List.mem_cons_of_mem top deeper, rfl, rfl, rfl⟩

theorem append_confined {text : Bytes} {items : Nat} {edit : Edit}
    (below : OpenContainer.Below ledger.size ledger.opened)
    (done : ledger.append text items = some (reached, edit)) : Confined ledger reached edit := by
  rw [append] at done
  split at done
  case isFalse => cases done
  case isTrue room =>
    cases done
    exact {
      size := rfl
      room := Nat.sub_add_cancel room
      target := rfl
      below := count_top_below items (below.mono (Nat.le_add_right _ _))
      fit := fun _ member => by cases member
      inner := fun entry member => .inl (count_top_same items ledger.opened entry member)
      places := fun _ member => by cases member
      apart := List.Pairwise.nil
      closed := fun _ member => by cases member }

theorem open_confined {kind : Container} {declared : Nat} {edit : Edit}
    (bounded : declared < 2 ^ 32) (below : OpenContainer.Below ledger.size ledger.opened)
    (done : ledger.append (kind.encode declared) 1 = some (middle, edit)) :
    Confined ledger { middle with opened := ⟨kind, ⟨ledger.size, declared, 0⟩⟩ :: middle.opened }
      edit := by
  have grown := append_confined below done
  rw [append] at done
  split at done
  case isFalse => cases done
  case isTrue room =>
    cases done
    exact { grown with
      below := ⟨bounded, Nat.le_refl _, count_top_below 1 below⟩
      inner := by
        intro entry member
        cases member with
        | head => exact .inr (Nat.le_refl _)
        | tail _ deeper => exact grown.inner entry deeper
      closed := fun _ member => by cases member }

theorem close_confined {entry : OpenContainer} {rest : List OpenContainer}
    (opened : ledger.opened = entry :: rest)
    (below : OpenContainer.Below ledger.size ledger.opened) :
    Confined ledger { ledger with opened := rest } ⟨[], entry.patch.toList⟩ := by
  have here : entry ∈ ledger.opened := opened ▸ List.mem_cons_self
  have stored : ∀ patch ∈ entry.patch.toList, entry.Patches patch := fun patch member =>
    OpenContainer.patch_patches (Option.mem_toList.mp member)
  exact {
    size := rfl
    room := rfl
    target := rfl
    below := by
      rw [opened] at below
      exact below.2.2.mono (Nat.le_trans (Nat.le_add_right _ _) below.2.1)
    fit := by
      intro patch member
      exact (stored patch member).fits (below.member here).2
    inner := fun other member =>
      .inl ⟨other, opened ▸ List.mem_cons_of_mem entry member, rfl, rfl, rfl⟩
    places := fun patch member => .inl ⟨entry, here, stored patch member⟩
    apart := by
      cases entry.patch with
      | none => exact List.Pairwise.nil
      | some patch => exact List.pairwise_singleton _ patch
    closed := by
      intro patch member other standing index covered covers
      rw [opened] at below
      have before := below.2.2.within standing covers
      exact absurd before (Nat.not_lt_of_le ((stored patch member).covers covered).1) }

theorem step_confined {mp : Msgpuck} {op : WriterOp} {edit : Edit} (ranged : op.InRange)
    (below : OpenContainer.Below ledger.size ledger.opened)
    (done : ledger.step mp op = some (reached, edit)) : Confined ledger reached edit := by
  cases op with
  | begin kind declared =>
      simp only [step] at done
      split at done
      case isFalse => cases done
      case isTrue shallow =>
        simp only [Option.map_eq_some_iff] at done
        obtain ⟨⟨middle, text⟩, appended, same⟩ := done
        cases same
        exact open_confined ranged below appended
  | finalize =>
      simp only [step] at done
      split at done
      case h_1 =>
        cases done
        exact .none below
      case h_2 entry rest opened =>
        cases done
        exact close_confined opened below
  | scalar value =>
      simp only [step] at done
      split at done
      case h_1 =>
        cases done
        exact .none below
      case h_2 => exact append_confined below done
  | write bytes cardinality =>
      simp only [step] at done
      split at done
      case isTrue =>
        cases done
        exact .none below
      case isFalse =>
        split at done
        case isTrue =>
          obtain ⟨items, _, appended⟩ := Option.bind_eq_some_iff.mp done
          exact append_confined below appended
        case isFalse => exact append_confined below done

theorem run_confined {mp : Msgpuck} {ops : List WriterOp} {edit : Edit}
    (ranged : ∀ op ∈ ops, op.InRange) (below : OpenContainer.Below ledger.size ledger.opened)
    (done : ledger.run mp ops = some (reached, edit)) : Confined ledger reached edit := by
  induction ops generalizing ledger edit with
  | nil =>
      cases done
      exact .none below
  | cons op ops ih =>
      simp only [run, Option.bind_eq_bind, Option.bind_eq_some_iff] at done
      obtain ⟨⟨middle, first⟩, stepped, ⟨last, later⟩, rest, same⟩ := done
      cases same
      have head := step_confined (ranged op List.mem_cons_self) below stepped
      have tail := ih (fun other member => ranged other (List.mem_cons_of_mem op member))
        head.below rest
      exact head.then tail

end Confinement
end Ledger

end Cpp2tnt
