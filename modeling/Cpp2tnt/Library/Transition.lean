import Mathlib.Logic.Basic

/-!
Runs of a partial step function. `allowed` is the contract of the environment:
which events may arrive in a state. A run is built at its end, so what holds
after every prefix is proved by one case for the last event.
-/

namespace Transition

section Runs
variable {σ : Type} {ε : Type*} (step : ε → σ → Option σ) (allowed : σ → ε → Prop)

inductive Run (start : σ) : List ε → σ → Prop
  | nil : Run start [] start
  | snoc {events : List ε} {before after : σ} {event : ε} (run : Run start events before)
      (admitted : allowed before event) (done : step event before = some after) :
      Run start (events ++ [event]) after

variable {step allowed} {start final : σ} {events : List ε}

theorem Run.invariant {invariant : σ → Prop} (run : Run step allowed start events final)
    (initial : invariant start)
    (kept : ∀ before event after, invariant before → allowed before event →
      step event before = some after → invariant after) : invariant final := by
  induction run with
  | nil => exact initial
  | snoc _ admitted done ih => exact kept _ _ _ ih admitted done

theorem Run.history {property : List ε → σ → Prop} (run : Run step allowed start events final)
    (initial : property [] start)
    (kept : ∀ events before event after, property events before → allowed before event →
      step event before = some after → property (events ++ [event]) after) :
    property events final := by
  induction run with
  | nil => exact initial
  | snoc _ admitted done ih => exact kept _ _ _ _ ih admitted done

theorem Run.cons {next : σ} {event : ε} (admitted : allowed start event)
    (done : step event start = some next) (run : Run step allowed next events final) :
    Run step allowed start (event :: events) final := by
  induction run with
  | nil => exact .snoc .nil admitted done
  | snoc _ later last ih => exact .snoc ih later last

theorem Run.trans {middle : σ} {rest : List ε} (run : Run step allowed start events middle)
    (later : Run step allowed middle rest final) :
    Run step allowed start (events ++ rest) final := by
  induction later with
  | nil => exact (List.append_nil events).symm ▸ run
  | snoc _ admitted done ih =>
      rw [← List.append_assoc]
      exact ih.snoc admitted done

theorem Run.weaken {weaker : σ → ε → Prop} (run : Run step allowed start events final)
    (implied : ∀ before event, allowed before event → weaker before event) :
    Run step weaker start events final := by
  induction run with
  | nil => exact .nil
  | snoc _ admitted done ih => exact .snoc ih (implied _ _ admitted) done

theorem Run.followed {τ : Type} {follow : ε → τ → Option τ} {related : σ → τ → Prop}
    (run : Run step allowed start events final)
    (each : ∀ event before after lower, related before lower → step event before = some after →
      ∃ reached, follow event lower = some reached ∧ related after reached)
    {lower : τ} (initial : related start lower) :
    ∃ reached, Run follow (fun _ _ => True) lower events reached ∧ related final reached := by
  induction run with
  | nil => exact ⟨lower, .nil, initial⟩
  | snoc _ _ done ih =>
      obtain ⟨middle, ran, holds⟩ := ih
      obtain ⟨reached, moved, kept⟩ := each _ _ _ _ holds done
      exact ⟨reached, ran.snoc trivial moved, kept⟩

theorem run_of_fold (done : events.foldlM (fun state event => step event state) start = some final) :
    Run step (fun _ _ => True) start events final := by
  induction events generalizing start with
  | nil =>
      cases done
      exact .nil
  | cons event events ih =>
      obtain ⟨next, first, rest⟩ := Option.bind_eq_some_iff.mp done
      exact (ih rest).cons trivial first

theorem run_of_checked_fold [∀ state event, Decidable (allowed state event)]
    (done : events.foldlM (fun state event =>
      if allowed state event then step event state else none) start = some final) :
    Run step allowed start events final := by
  induction events generalizing start with
  | nil =>
      cases done
      exact .nil
  | cons event events ih =>
      obtain ⟨next, first, rest⟩ := Option.bind_eq_some_iff.mp done
      dsimp only at first
      split at first
      · next admitted => exact (ih rest).cons admitted first
      · cases first

end Runs

/-!
The run of a given list of events stops at the first one that has no successor.
A condition on every step that is started, and what the steps leave behind, are
functions of the start and the list.
-/

section Lists
variable {σ ε α : Type} (step : ε → σ → Option σ)

def Throughout (condition : σ → ε → Prop) : List ε → σ → Prop
  | [], _ => True
  | event :: events, state =>
      condition state event ∧ ∀ next, step event state = some next → Throughout condition events next

def gathered (measure : σ → ε → List α) : List ε → σ → List α
  | [], _ => []
  | event :: events, state =>
      measure state event ++
        match step event state with
        | some next => gathered measure events next
        | none => []

variable {step} {condition allowed : σ → ε → Prop} {measure : σ → ε → List α} {property : α → Prop}

theorem gathered_iff
    (exact : ∀ state event, allowed state event →
      ((∀ item ∈ measure state event, property item) ↔ condition state event))
    (events : List ε) (state : σ) (contract : Throughout step allowed events state) :
    (∀ item ∈ gathered step measure events state, property item) ↔
      Throughout step condition events state := by
  induction events generalizing state with
  | nil => exact iff_of_true (fun _ member => nomatch member) trivial
  | cons event events ih =>
      obtain ⟨admitted, later⟩ := contract
      rw [gathered, Throughout, List.forall_mem_append, exact state event admitted]
      cases done : step event state with
      | none => exact and_congr_right fun _ => iff_of_true (fun _ member => nomatch member) nofun
      | some next =>
          rw [ih next (later next done)]
          apply and_congr_right
          intro _
          constructor
          · rintro holds _ ⟨⟩
            exact holds
          · intro holds
            exact holds next rfl

theorem throughout_iff {invariant : σ → Prop} {other : σ → ε → Prop}
    (kept : ∀ before event after, invariant before → allowed before event →
      step event before = some after → invariant after)
    (exact : ∀ state event, invariant state → allowed state event →
      (condition state event ↔ other state event))
    (events : List ε) (state : σ) (initial : invariant state)
    (contract : Throughout step allowed events state) :
    Throughout step condition events state ↔ Throughout step other events state := by
  induction events generalizing state with
  | nil => exact Iff.rfl
  | cons event events ih =>
      obtain ⟨admitted, later⟩ := contract
      refine and_congr (exact state event initial admitted) ?_
      apply forall_congr'
      intro next
      apply imp_congr_right
      intro done
      exact ih next (kept state event next initial admitted done) (later next done)

theorem throughout_of {invariant : σ → Prop}
    (kept : ∀ before event after, invariant before → allowed before event →
      step event before = some after → invariant after)
    (holds : ∀ state event, invariant state → allowed state event → condition state event)
    (events : List ε) (state : σ) (initial : invariant state)
    (contract : Throughout step allowed events state) : Throughout step condition events state := by
  induction events generalizing state with
  | nil => trivial
  | cons event events ih =>
      obtain ⟨admitted, later⟩ := contract
      refine ⟨holds state event initial admitted, ?_⟩
      intro next done
      exact ih next (kept state event next initial admitted done) (later next done)

variable {start final : σ} {events : List ε}

theorem Run.throughout (run : Run step allowed start events final) {rest : List ε}
    (later : Throughout step allowed rest final) : Throughout step allowed (events ++ rest) start := by
  induction run generalizing rest with
  | nil => exact later
  | snoc _ admitted done ih =>
      rw [List.append_assoc]
      apply ih
      refine ⟨admitted, ?_⟩
      intro next same
      cases done.symm.trans same
      exact later

theorem Run.gathered_behind (run : Run step allowed start events final) {rest : List ε} {item : α}
    (left : item ∈ gathered step measure rest final) :
    item ∈ gathered step measure (events ++ rest) start := by
  induction run generalizing rest with
  | nil => exact left
  | @snoc _ before _ event _ _ done ih =>
      rw [List.append_assoc]
      apply ih
      rw [List.singleton_append, gathered, done]
      exact List.mem_append_right _ left

theorem Run.behind (run : Run step allowed start events final) {rest : List ε}
    (holds : Throughout step condition (events ++ rest) start) :
    Throughout step condition rest final := by
  induction run generalizing rest with
  | nil => exact holds
  | snoc _ _ done ih =>
      rw [List.append_assoc] at holds
      exact (ih holds).2 _ done

end Lists

end Transition
