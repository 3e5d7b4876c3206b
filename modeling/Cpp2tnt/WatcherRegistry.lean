import Mathlib.Data.Finset.Basic
import Cpp2tnt.Library.Transition

/-!
`ev4cpp2tnt`: which object watches which connection. A connection is the address
it lives at, so a new one may get the address of a destroyed one. A hook is the
object it was bound to: all of them call `register_connection` or
`unregister_connection` of that object. The objects outlive the connections.
-/

namespace Cpp2tnt
open Transition

/-- The callbacks of one connection that an `ev4cpp2tnt` sets. -/
structure ConnectionHooks (Ev : Type) where
  onDestruct : Option Ev
  onNotifyRequest : Option Ev
  onSocketWatcherRequest : Option Ev
  deriving DecidableEq

structure Watching (Ev Cn : Type) where
  live : Finset Cn
  hooks : Cn → ConnectionHooks Ev
  onConstructGlobal : Option Ev
  onDestructGlobal : Option Ev
  /-- The keys of `per_connection_watchers`. -/
  perConnectionWatchers : Ev → Finset Cn

inductive WatchOp (Ev Cn : Type) where
  | construct (cn : Cn)
  | destroy (cn : Cn)
  | enableGlobally (ev : Ev)
  | disableGlobally
  | takeCare (ev : Ev) (cn : Cn)

namespace Watching
variable {Ev Cn : Type}

def initial : Watching Ev Cn where
  live := ∅
  hooks _ := ⟨none, none, none⟩
  onConstructGlobal := none
  onDestructGlobal := none
  perConnectionWatchers _ := ∅

variable [DecidableEq Ev] [DecidableEq Cn]

/-- `try_emplace` leaves a connection that is there already as it is. -/
def registerConnection (ev : Ev) (cn : Cn) (state : Watching Ev Cn) : Watching Ev Cn :=
  if cn ∈ state.perConnectionWatchers ev then state
  else { state with
    perConnectionWatchers := Function.update state.perConnectionWatchers ev
      (insert cn (state.perConnectionWatchers ev))
    hooks := Function.update state.hooks cn
      { state.hooks cn with onNotifyRequest := some ev, onSocketWatcherRequest := some ev } }

def unregisterConnection (ev : Ev) (cn : Cn) (state : Watching Ev Cn) : Watching Ev Cn :=
  if cn ∈ state.perConnectionWatchers ev then
    { state with
      perConnectionWatchers := Function.update state.perConnectionWatchers ev
        ((state.perConnectionWatchers ev).erase cn)
      hooks := Function.update state.hooks cn
        { state.hooks cn with onSocketWatcherRequest := none } }
  else state

/-- The constructor of `connection`. -/
def construct (cn : Cn) (state : Watching Ev Cn) : Watching Ev Cn :=
  let made := { state with
    live := insert cn state.live
    hooks := Function.update state.hooks cn ⟨none, none, none⟩ }
  match made.onConstructGlobal with
  | some ev => made.registerConnection ev cn
  | none => made

def hookInForce (cn : Cn) (state : Watching Ev Cn) : Option Ev :=
  (state.hooks cn).onDestruct.or state.onDestructGlobal

def destroy (cn : Cn) (state : Watching Ev Cn) : Watching Ev Cn :=
  let closed := match state.hookInForce cn with
    | some ev => state.unregisterConnection ev cn
    | none => state
  { closed with live := closed.live.erase cn }

def takeCare (ev : Ev) (cn : Cn) (state : Watching Ev Cn) : Watching Ev Cn :=
  let registered := state.registerConnection ev cn
  { registered with
    hooks := Function.update registered.hooks cn
      { registered.hooks cn with onDestruct := some ev } }

/-- A connection is made where there is none and used while it is there. -/
def step : WatchOp Ev Cn → Watching Ev Cn → Option (Watching Ev Cn)
  | .construct cn, state => if cn ∈ state.live then none else some (state.construct cn)
  | .destroy cn, state => if cn ∈ state.live then some (state.destroy cn) else none
  | .enableGlobally ev, state =>
      some { state with onConstructGlobal := some ev, onDestructGlobal := some ev }
  | .disableGlobally, state =>
      some { state with onConstructGlobal := none, onDestructGlobal := none }
  | .takeCare ev cn, state => if cn ∈ state.live then some (state.takeCare ev cn) else none

/-- The connections `timer_cb` goes through, and those the watchers' callbacks
have in their `data`. -/
def touched (ev : Ev) (state : Watching Ev Cn) : Finset Cn := state.perConnectionWatchers ev

/-- Nobody touches a destroyed connection. -/
def TouchesLive (state : Watching Ev Cn) : Prop := ∀ ev, state.touched ev ⊆ state.live

/-- A connection is destroyed when the hook in force belongs to everyone who
watches it. -/
def Released (state : Watching Ev Cn) : WatchOp Ev Cn → Prop
  | .destroy cn => ∀ ev, cn ∈ state.touched ev → state.hookInForce cn = some ev
  | _ => True

section Registries
variable (ev : Ev) (cn : Cn) (state : Watching Ev Cn)

@[simp] theorem register_live : (state.registerConnection ev cn).live = state.live := by
  unfold registerConnection
  split <;> rfl

@[simp] theorem unregister_live : (state.unregisterConnection ev cn).live = state.live := by
  unfold unregisterConnection
  split <;> rfl

theorem register_touched (other : Ev) (one : Cn) :
    one ∈ (state.registerConnection ev cn).touched other ↔
      one ∈ state.touched other ∨ one = cn ∧ other = ev := by
  unfold registerConnection touched
  by_cases there : cn ∈ state.perConnectionWatchers ev
  · rw [if_pos there]
    constructor
    · exact .inl
    · rintro (old | ⟨rfl, rfl⟩)
      · exact old
      · exact there
  · rw [if_neg there]
    by_cases same : other = ev
    · subst same
      simp [or_comm]
    · simp [same]

theorem unregister_touched (other : Ev) (one : Cn) :
    one ∈ (state.unregisterConnection ev cn).touched other ↔
      one ∈ state.touched other ∧ ¬ (one = cn ∧ other = ev) := by
  unfold unregisterConnection touched
  by_cases there : cn ∈ state.perConnectionWatchers ev
  · rw [if_pos there]
    by_cases same : other = ev
    · subst same
      simp [and_comm]
    · simp [same]
  · rw [if_neg there]
    constructor
    · intro old
      refine ⟨old, ?_⟩
      rintro ⟨rfl, rfl⟩
      exact there old
    · exact And.left

theorem destroy_touched (other : Ev) (one : Cn) :
    one ∈ (state.destroy cn).touched other ↔
      one ∈ state.touched other ∧ ¬ (one = cn ∧ state.hookInForce cn = some other) := by
  unfold destroy
  cases state.hookInForce cn with
  | none => simp [touched]
  | some ev =>
      have removed := unregister_touched ev cn state other one
      have swap : ev = other ↔ other = ev := eq_comm
      simp only [touched, Option.some.injEq, swap] at removed ⊢
      exact removed

theorem destroy_live : (state.destroy cn).live = state.live.erase cn := by
  unfold destroy
  cases state.hookInForce cn <;> simp

end Registries

section Steps
variable {state after : Watching Ev Cn} {op : WatchOp Ev Cn}

theorem register_touches (ev : Ev) (cn : Cn) (touches : state.TouchesLive) (there : cn ∈ state.live) :
    (state.registerConnection ev cn).TouchesLive := by
  intro other one member
  rw [register_live]
  rcases (register_touched ev cn state other one).mp member with old | ⟨rfl, _⟩
  · exact touches other old
  · exact there

theorem construct_touches (cn : Cn) (touches : state.TouchesLive) :
    (state.construct cn).TouchesLive := by
  have made : TouchesLive { state with
      live := insert cn state.live
      hooks := Function.update state.hooks cn ⟨none, none, none⟩ } := fun ev _ member =>
    Finset.mem_insert_of_mem (touches ev member)
  unfold construct
  cases state.onConstructGlobal with
  | none => exact made
  | some ev => exact register_touches ev cn made (Finset.mem_insert_self cn state.live)

theorem destroy_touches (cn : Cn) (touches : state.TouchesLive) :
    (state.destroy cn).TouchesLive ↔ Released state (.destroy cn) := by
  constructor
  · intro kept ev member
    -- a hook other than the one in force would leave the destroyed connection there
    by_contra other
    have left : cn ∈ (state.destroy cn).touched ev :=
      (destroy_touched cn state ev cn).mpr ⟨member, fun both => other both.2⟩
    have gone := kept ev left
    rw [destroy_live] at gone
    exact Finset.notMem_erase cn state.live gone
  · intro released ev one member
    obtain ⟨old, kept⟩ := (destroy_touched cn state ev one).mp member
    rw [destroy_live]
    refine Finset.mem_erase.mpr ⟨?_, touches ev old⟩
    rintro rfl
    exact kept ⟨rfl, released ev old⟩

theorem step_touches (touches : state.TouchesLive) (done : step op state = some after) :
    after.TouchesLive ↔ state.Released op := by
  cases op with
  | construct cn =>
      simp only [step, Option.ite_none_left_eq_some, Option.some.injEq] at done
      obtain ⟨_, rfl⟩ := done
      exact iff_of_true (construct_touches cn touches) trivial
  | destroy cn =>
      simp only [step, Option.ite_none_right_eq_some, Option.some.injEq] at done
      obtain ⟨_, rfl⟩ := done
      exact destroy_touches cn touches
  | enableGlobally ev =>
      cases done
      exact iff_of_true touches trivial
  | disableGlobally =>
      cases done
      exact iff_of_true touches trivial
  | takeCare ev cn =>
      simp only [step, Option.ite_none_right_eq_some, Option.some.injEq] at done
      obtain ⟨there, rfl⟩ := done
      exact iff_of_true (register_touches ev cn touches there) trivial

/-- In every run that releases what it destroys, only live connections are
touched; the next step keeps that if and only if it releases, too. -/
theorem registries_live {ops : List (WatchOp Ev Cn)} (run : Run step Released initial ops state) :
    state.TouchesLive ∧
      ∀ op after, step op state = some after → (after.TouchesLive ↔ state.Released op) := by
  have touches : state.TouchesLive := by
    apply run.invariant
    · exact fun _ _ member => absurd member (Finset.notMem_empty _)
    · exact fun _ _ _ touches released done => (step_touches touches done).mpr released
  exact ⟨touches, fun _ _ done => step_touches touches done⟩

end Steps

/-- Made under the global hook of an object and then taken care of by it. -/
theorem registries_live_cared :
    ∃ state : Watching Nat Nat,
      Run step Released initial
        [.enableGlobally 0, .construct 7, .takeCare 0 7, .disableGlobally, .destroy 7] state ∧
      state.TouchesLive ∧
      ∀ op after, step op state = some after → (after.TouchesLive ↔ state.Released op) := by
  let enabled : Watching Nat Nat :=
    { initial with onConstructGlobal := some 0, onDestructGlobal := some 0 }
  let cared := (enabled.construct 7).takeCare 0 7
  let disabled := { cared with onConstructGlobal := none, onDestructGlobal := none }
  have made : Run step Released initial [.enableGlobally 0, .construct 7] (enabled.construct 7) :=
    .snoc (.snoc .nil trivial rfl) trivial rfl
  have owned : Run step Released initial
      ([.enableGlobally 0, .construct 7] ++ [.takeCare 0 7]) cared := .snoc made trivial rfl
  have before : Run step Released initial
      ([.enableGlobally 0, .construct 7, .takeCare 0 7] ++ [.disableGlobally]) disabled :=
    .snoc owned trivial rfl
  have released : disabled.Released (.destroy 7) := by
    intro ev member
    have owner : 7 ∈ (Function.update (fun _ => (∅ : Finset Nat)) 0 {7}) ev := member
    by_cases same : ev = 0
    · subst same
      rfl
    · simp [same] at owner
  have run := Run.snoc before released rfl
  exact ⟨_, run, registries_live run⟩

/-- The global hook that registered the connection is switched off before the
connection is destroyed. -/
theorem destroyed_watched :
    ∃ state : Watching Nat Nat,
      Run step (fun _ _ => True) initial
        [.enableGlobally 0, .construct 7, .disableGlobally, .destroy 7] state ∧
      7 ∈ state.touched 0 ∧ 7 ∉ state.live := by
  have made : Run step (fun _ _ => True) (initial : Watching Nat Nat)
      [.enableGlobally 0, .construct 7] _ := .snoc (.snoc .nil trivial rfl) trivial rfl
  have run : Run step (fun _ _ => True) (initial : Watching Nat Nat)
      [.enableGlobally 0, .construct 7, .disableGlobally, .destroy 7] _ :=
    .snoc (.snoc made trivial rfl) trivial rfl
  exact ⟨_, run, by decide, by decide⟩

end Watching
end Cpp2tnt
