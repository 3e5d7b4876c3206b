import Mathlib.Data.List.Basic

/-!
A stream absorbed in blocks of one size. Whole blocks are compressed into a
state; what is left behind the last of them waits for the next part of the
stream. How the stream is split into parts makes no difference.
-/

namespace BlockHash

section Blocks
variable {α σ : Type*} (compress : σ → List α → σ) (size : Nat)

def blocks : Nat → σ → List α → σ
  | 0, state, _ => state
  | count + 1, state, input => blocks count (compress state (input.take size)) (input.drop size)

def absorb (state : σ) (input : List α) : σ :=
  blocks compress size (input.length / size) state input

def waiting (input : List α) : List α := input.drop (input.length / size * size)

variable {compress size} {state : σ} {block rest : List α}

theorem blocks_add (first second : Nat) (state : σ) (input : List α) :
    blocks compress size (first + second) state input =
      blocks compress size second (blocks compress size first state input)
        (input.drop (first * size)) := by
  induction first generalizing state input with
  | zero => simp [blocks]
  | succ first ih =>
      rw [Nat.add_right_comm, blocks, blocks, ih, List.drop_drop, Nat.succ_mul, Nat.add_comm size]

theorem blocks_front (count : Nat) (state : σ) (front back : List α)
    (inside : count * size ≤ front.length) :
    blocks compress size count state (front ++ back) = blocks compress size count state front := by
  induction count generalizing state front with
  | zero => rfl
  | succ count ih =>
      rw [Nat.succ_mul] at inside
      have one : size ≤ front.length := Nat.le_trans (Nat.le_add_left _ _) inside
      have later : count * size ≤ (front.drop size).length := by
        rw [List.length_drop]
        omega
      rw [blocks, blocks, List.take_append_of_le_length one, List.drop_append_of_le_length one,
        ih _ _ later]

theorem waiting_length (input : List α) : (waiting size input).length = input.length % size := by
  have split := Nat.div_add_mod' input.length size
  rw [waiting, List.length_drop]
  omega

theorem absorb_short (short : rest.length < size) : absorb compress size state rest = state := by
  rw [absorb, Nat.div_eq_of_lt short, blocks]

theorem waiting_short (short : rest.length < size) : waiting size rest = rest := by
  rw [waiting, Nat.div_eq_of_lt short, Nat.zero_mul, List.drop_zero]

theorem block_count (positive : 0 < size) (whole : block.length = size) :
    (block ++ rest).length / size = rest.length / size + 1 := by
  rw [List.length_append, whole, Nat.add_comm, Nat.add_div_right _ positive]

theorem absorb_block (positive : 0 < size) (whole : block.length = size) :
    absorb compress size state (block ++ rest) = absorb compress size (compress state block) rest := by
  rw [absorb, block_count positive whole, blocks, List.take_left' whole, List.drop_left' whole,
    absorb]

theorem waiting_block (positive : 0 < size) (whole : block.length = size) :
    waiting size (block ++ rest) = waiting size rest := by
  rw [waiting, block_count positive whole, Nat.succ_mul, Nat.add_comm, ← List.drop_drop,
    List.drop_left' whole, waiting]

variable (front back : List α)

theorem part_count (positive : 0 < size) : (front ++ back).length / size =
    front.length / size + (waiting size front ++ back).length / size := by
  have split := Nat.div_add_mod' front.length size
  rw [List.length_append, List.length_append, waiting_length,
    ← Nat.mul_add_div positive, Nat.mul_comm size, ← Nat.add_assoc, split]

theorem part_behind : (front ++ back).drop (front.length / size * size) =
    waiting size front ++ back :=
  List.drop_append_of_le_length (Nat.div_mul_le_self _ _)

theorem absorb_append (positive : 0 < size) :
    absorb compress size state (front ++ back) =
      absorb compress size (absorb compress size state front) (waiting size front ++ back) := by
  rw [absorb, part_count front back positive, blocks_add, part_behind,
    blocks_front _ _ front back (Nat.div_mul_le_self _ _), absorb, absorb]

theorem waiting_append (positive : 0 < size) :
    waiting size (front ++ back) = waiting size (waiting size front ++ back) := by
  change (front ++ back).drop ((front ++ back).length / size * size) = _
  rw [part_count front back positive, Nat.add_mul, ← List.drop_drop, part_behind]
  rfl

end Blocks
end BlockHash
