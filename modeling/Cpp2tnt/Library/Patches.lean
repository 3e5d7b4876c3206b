import Mathlib.Data.List.Basic

/-!
Texts that are edited in place. A patch replaces as many items as it brings, so
it commutes with what is appended behind it and with any patch of other items.
Two texts that take the same patches agree afterwards exactly on the items that
were patched or agreed before.
-/

namespace Patches

structure Patch (α : Type) where
  offset : Nat
  items : List α

variable {α : Type}

namespace Patch

def apply (patch : Patch α) (text : List α) : List α :=
  text.take patch.offset ++ patch.items ++ text.drop (patch.offset + patch.items.length)

def Fits (patch : Patch α) (length : Nat) : Prop := patch.offset + patch.items.length ≤ length

def Covers (patch : Patch α) (index : Nat) : Prop :=
  patch.offset ≤ index ∧ index < patch.offset + patch.items.length

def found (patch : Patch α) (text : List α) : List α :=
  (text.drop patch.offset).take patch.items.length

def Disjoint (left right : Patch α) : Prop := ∀ index, left.Covers index → ¬ right.Covers index

theorem Fits.mono {patch : Patch α} {length more : Nat} (fits : patch.Fits length)
    (longer : length ≤ more) : patch.Fits more := Nat.le_trans fits longer

theorem apply_length (patch : Patch α) (text : List α) (fits : patch.Fits text.length) :
    (patch.apply text).length = text.length := by
  rw [Fits] at fits
  simp only [apply, List.length_append, List.length_take, List.length_drop]
  omega

theorem apply_append (patch : Patch α) (text rest : List α) (fits : patch.Fits text.length) :
    patch.apply (text ++ rest) = patch.apply text ++ rest := by
  rw [Fits] at fits
  have within : patch.offset ≤ text.length := Nat.le_trans (Nat.le_add_right _ _) fits
  rw [apply, apply, List.take_append_of_le_length within, List.drop_append_of_le_length fits,
    List.append_assoc (text.take patch.offset ++ patch.items)]

theorem apply_covered (patch : Patch α) (text : List α) (fits : patch.Fits text.length)
    (index : Nat) (covered : patch.Covers index) :
    (patch.apply text)[index]? = patch.items[index - patch.offset]? := by
  rw [Fits] at fits
  have front : (text.take patch.offset).length = patch.offset :=
    List.length_take_of_le (Nat.le_trans (Nat.le_add_right _ _) fits)
  have inside : index - patch.offset < patch.items.length :=
    Nat.sub_lt_left_of_lt_add covered.1 covered.2
  rw [apply, List.append_assoc, List.getElem?_append_right (by rw [front]; exact covered.1), front,
    List.getElem?_append_left inside]

theorem apply_uncovered (patch : Patch α) (text : List α) (fits : patch.Fits text.length)
    (index : Nat) (kept : ¬ patch.Covers index) :
    (patch.apply text)[index]? = text[index]? := by
  rw [Fits] at fits
  have front : (text.take patch.offset).length = patch.offset :=
    List.length_take_of_le (Nat.le_trans (Nat.le_add_right _ _) fits)
  rw [apply]
  by_cases before : index < patch.offset
  · rw [List.append_assoc, List.getElem?_append_left (by rwa [front]),
      List.getElem?_take_of_lt before]
  · have behind : patch.offset + patch.items.length ≤ index := by
      rw [Covers] at kept
      omega
    have whole : (text.take patch.offset ++ patch.items).length =
        patch.offset + patch.items.length := by rw [List.length_append, front]
    rw [List.getElem?_append_right (by rwa [whole]), whole, List.getElem?_drop,
      Nat.add_sub_of_le behind]

theorem found_eq_iff (patch : Patch α) (text : List α) (fits : patch.Fits text.length) :
    patch.items = patch.found text ↔
      ∀ index, patch.Covers index → patch.items[index - patch.offset]? = text[index]? := by
  have read : ∀ index, patch.Covers index →
      (patch.found text)[index - patch.offset]? = text[index]? := by
    intro index covered
    rw [found, List.getElem?_take_of_lt (Nat.sub_lt_left_of_lt_add covered.1 covered.2),
      List.getElem?_drop, Nat.add_sub_of_le covered.1]
  constructor
  · intro same index covered
    rw [← read index covered, ← same]
  · intro agree
    have length : (patch.found text).length = patch.items.length := by
      rw [Fits] at fits
      rw [found, List.length_take, List.length_drop]
      omega
    apply List.ext_getElem?
    intro position
    by_cases inside : position < patch.items.length
    · have covered : patch.Covers (patch.offset + position) :=
        ⟨Nat.le_add_right _ _, Nat.add_lt_add_left inside _⟩
      have here := agree _ covered
      rw [← read _ covered, Nat.add_sub_cancel_left] at here
      exact here
    · have outside := Nat.le_of_not_lt inside
      rw [List.getElem?_eq_none outside, List.getElem?_eq_none (by rwa [length])]

end Patch

def applyAll (patches : List (Patch α)) (text : List α) : List α :=
  patches.foldl (fun text patch => patch.apply text) text

def AllFit (patches : List (Patch α)) (length : Nat) : Prop := ∀ patch ∈ patches, patch.Fits length

theorem AllFit.rest {patch : Patch α} {patches : List (Patch α)} {text : List α}
    (fit : AllFit (patch :: patches) text.length) : AllFit patches (patch.apply text).length := by
  rw [patch.apply_length text (fit patch List.mem_cons_self)]
  intro other member
  exact fit other (List.mem_cons_of_mem patch member)

@[simp] theorem apply_all_nil (text : List α) : applyAll [] text = text := rfl

@[simp] theorem apply_all_cons (patch : Patch α) (patches : List (Patch α)) (text : List α) :
    applyAll (patch :: patches) text = applyAll patches (patch.apply text) := rfl

theorem apply_all_append (front back : List (Patch α)) (text : List α) :
    applyAll (front ++ back) text = applyAll back (applyAll front text) :=
  List.foldl_append

theorem apply_all_length (patches : List (Patch α)) (text : List α)
    (fit : AllFit patches text.length) : (applyAll patches text).length = text.length := by
  induction patches generalizing text with
  | nil => rfl
  | cons patch patches ih =>
      rw [apply_all_cons, ih _ fit.rest, patch.apply_length text (fit patch List.mem_cons_self)]

theorem apply_all_behind (patches : List (Patch α)) (text rest : List α)
    (fit : AllFit patches text.length) :
    applyAll patches (text ++ rest) = applyAll patches text ++ rest := by
  induction patches generalizing text with
  | nil => rfl
  | cons patch patches ih =>
      rw [apply_all_cons, apply_all_cons, patch.apply_append text rest (fit patch List.mem_cons_self),
        ih _ fit.rest]

theorem apply_all_uncovered (patches : List (Patch α)) (text : List α)
    (fit : AllFit patches text.length) (index : Nat)
    (kept : ∀ patch ∈ patches, ¬ patch.Covers index) :
    (applyAll patches text)[index]? = text[index]? := by
  induction patches generalizing text with
  | nil => rfl
  | cons patch patches ih =>
      rw [apply_all_cons, ih _ fit.rest fun other member =>
        kept other (List.mem_cons_of_mem patch member)]
      exact patch.apply_uncovered text (fit patch List.mem_cons_self) index
        (kept patch List.mem_cons_self)

theorem apply_all_covered (patches : List (Patch α)) (left right : List α)
    (same : left.length = right.length) (fit : AllFit patches left.length) (index : Nat)
    (covered : ∃ patch ∈ patches, patch.Covers index) :
    (applyAll patches left)[index]? = (applyAll patches right)[index]? := by
  induction patches generalizing left right with
  | nil =>
      obtain ⟨patch, member, _⟩ := covered
      cases member
  | cons patch patches ih =>
      have first := fit patch List.mem_cons_self
      have rest := fit.rest
      have lengths : (patch.apply left).length = (patch.apply right).length := by
        rw [patch.apply_length left first, patch.apply_length right (same ▸ first), same]
      rw [apply_all_cons, apply_all_cons]
      by_cases later : ∃ other ∈ patches, other.Covers index
      · exact ih _ _ lengths rest later
      · have kept : ∀ other ∈ patches, ¬ other.Covers index :=
          fun other member covers => later ⟨other, member, covers⟩
        obtain ⟨other, member, covers⟩ := covered
        have here : patch.Covers index := by
          rcases List.mem_cons.mp member with rfl | member
          · exact covers
          · exact absurd covers (kept other member)
        rw [apply_all_uncovered patches _ rest index kept,
          apply_all_uncovered patches _ (lengths ▸ rest) index kept,
          patch.apply_covered left first index here,
          patch.apply_covered right (same ▸ first) index here]

theorem apply_all_found (patches : List (Patch α)) (text : List α)
    (fit : AllFit patches text.length) (apart : patches.Pairwise Patch.Disjoint)
    (patch : Patch α) (member : patch ∈ patches) (index : Nat) (covered : patch.Covers index) :
    (applyAll patches text)[index]? = patch.items[index - patch.offset]? := by
  induction patches generalizing text with
  | nil => cases member
  | cons first patches ih =>
      rw [List.pairwise_cons] at apart
      rw [apply_all_cons]
      rcases List.mem_cons.mp member with rfl | member
      · rw [apply_all_uncovered patches _ fit.rest index fun other member =>
          apart.1 other member index covered]
        exact patch.apply_covered text (fit patch List.mem_cons_self) index covered
      · exact ih _ fit.rest apart.2 member

theorem apply_all_eq_iff (patches : List (Patch α)) (left right : List α)
    (same : left.length = right.length) (fit : AllFit patches left.length) :
    applyAll patches left = applyAll patches right ↔
      ∀ index, (∃ patch ∈ patches, patch.Covers index) ∨ left[index]? = right[index]? := by
  have agree : ∀ index, (¬ ∃ patch ∈ patches, patch.Covers index) →
      (applyAll patches left)[index]? = left[index]? ∧
        (applyAll patches right)[index]? = right[index]? := by
    intro index none
    have kept : ∀ patch ∈ patches, ¬ patch.Covers index :=
      fun patch member covers => none ⟨patch, member, covers⟩
    exact ⟨apply_all_uncovered patches left fit index kept,
      apply_all_uncovered patches right (same ▸ fit) index kept⟩
  constructor
  · intro equal index
    by_cases covered : ∃ patch ∈ patches, patch.Covers index
    · exact .inl covered
    · right
      rw [← (agree index covered).1, equal, (agree index covered).2]
  · intro each
    apply List.ext_getElem?
    intro index
    by_cases covered : ∃ patch ∈ patches, patch.Covers index
    · exact apply_all_covered patches left right same fit index covered
    · rw [(agree index covered).1, (agree index covered).2]
      exact (each index).resolve_left covered

end Patches
