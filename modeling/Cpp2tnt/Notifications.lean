import Cpp2tnt.Library.Transition
import Mathlib.Data.List.Basic
import Mathlib.Tactic.Common

/-!
The notification queue: `push_handler()` and `acquire_notifications()`. A handler
is known by the number of its push. The steps are those that other threads can
come between: a push under the mutex, the swap under the mutex, the call of one
handler, its end, and the end of the loop. What a handler pushes is pushed
between its call and its end.
-/

namespace Cpp2tnt
open Transition

/-- Where the connector's thread is: outside `acquire_notifications()`, before a
round of its loop, or inside the handler of that round. -/
inductive Phase where
  | idle
  | looping (round : Nat)
  | running (round : Nat)
  deriving DecidableEq

structure Notifications where
  notificationHandlers : List Nat
  tmpNotificationHandlers : List Nat
  phase : Phase
  pushed : Nat
  /-- The handlers called, in order. -/
  executed : List Nat
  deriving DecidableEq

inductive Activity where
  | push
  | acquire
  | call
  | returns
  | throws
  | finish
  deriving DecidableEq

namespace Notifications

def empty : Notifications := ⟨[], [], .idle, 0, []⟩

def pushHandler (queue : Notifications) : Notifications :=
  { queue with
    notificationHandlers := queue.notificationHandlers ++ [queue.pushed]
    pushed := queue.pushed + 1 }

/-- The swap at the beginning of `acquire_notifications()`. -/
def acquireNotifications (queue : Notifications) : Notifications :=
  { queue with
    notificationHandlers := queue.tmpNotificationHandlers
    tmpNotificationHandlers := queue.notificationHandlers
    phase := .looping 0 }

def called (round handler : Nat) (queue : Notifications) : Notifications :=
  { queue with phase := .running round, executed := queue.executed ++ [handler] }

def step : Activity → Notifications → Option Notifications
  | .push, queue => some queue.pushHandler
  | .acquire, queue => if queue.phase = .idle then some queue.acquireNotifications else none
  | .call, queue =>
      match queue.phase with
      | .looping round =>
          match queue.tmpNotificationHandlers[round]? with
          | some handler => some (queue.called round handler)
          | none => none
      | _ => none
  | .returns, queue =>
      match queue.phase with
      | .running round => some { queue with phase := .looping (round + 1) }
      | _ => none
  -- the exception leaves the function before its `clear()`
  | .throws, queue =>
      match queue.phase with
      | .running _ => some { queue with phase := .idle }
      | _ => none
  | .finish, queue =>
      match queue.phase with
      | .looping round =>
          if round = queue.tmpNotificationHandlers.length then
            some { queue with phase := .idle, tmpNotificationHandlers := [] }
          else none
      | _ => none

def rest (queue : Notifications) : List Nat :=
  match queue.phase with
  | .idle => []
  | .looping round => queue.tmpNotificationHandlers.drop round
  | .running round => queue.tmpNotificationHandlers.drop (round + 1)

/-- What has been executed of the current call, or of one that an exception left. -/
def begun (queue : Notifications) : List Nat :=
  match queue.phase with
  | .idle => queue.tmpNotificationHandlers.take 1
  | .looping round => queue.tmpNotificationHandlers.take round
  | .running round => queue.tmpNotificationHandlers.take (round + 1)

/-- Executed, being executed, and to be executed follow the order of the pushes. -/
structure InOrder (queue : Notifications) : Prop where
  order : (queue.executed ++ (queue.rest ++ queue.notificationHandlers)).Sublist
    (List.range queue.pushed)
  begun : queue.begun ⊆ queue.executed

/-- `acquire_notifications()` finds nothing left by an earlier call. -/
def AcquiresFresh (queue : Notifications) : Activity → Prop
  | .acquire => queue.tmpNotificationHandlers = []
  | _ => True

theorem push_in_order (queue : Notifications) (ordered : queue.InOrder) :
    queue.pushHandler.InOrder where
  order := by
    change (queue.executed ++ (queue.rest ++ (queue.notificationHandlers ++ [queue.pushed]))).Sublist
      (List.range (queue.pushed + 1))
    rw [List.range_succ, ← List.append_assoc queue.rest, ← List.append_assoc queue.executed]
    exact ordered.order.append (List.Sublist.refl _)
  begun := ordered.begun

theorem acquire_in_order (queue : Notifications) (ordered : queue.InOrder)
    (idle : queue.phase = .idle) (fresh : queue.tmpNotificationHandlers = []) :
    queue.acquireNotifications.InOrder where
  order := by
    have none : queue.rest = [] := by rw [rest, idle]
    have order := ordered.order
    rw [none, List.nil_append] at order
    change (queue.executed ++ (queue.notificationHandlers.drop 0 ++
      queue.tmpNotificationHandlers)).Sublist _
    rw [fresh, List.drop_zero, List.append_nil]
    exact order
  begun := List.nil_subset _

theorem call_in_order (queue : Notifications) (ordered : queue.InOrder) (round handler : Nat)
    (phase : queue.phase = .looping round)
    (next : queue.tmpNotificationHandlers[round]? = some handler) :
    (queue.called round handler).InOrder := by
  obtain ⟨inside, found⟩ := List.getElem?_eq_some_iff.mp next
  have split : queue.tmpNotificationHandlers.drop round =
      handler :: queue.tmpNotificationHandlers.drop (round + 1) := by
    rw [List.drop_eq_getElem_cons inside, found]
  have front : queue.tmpNotificationHandlers.take (round + 1) =
      queue.tmpNotificationHandlers.take round ++ [handler] := by
    rw [List.take_succ_eq_append_getElem inside, found]
  constructor
  · have order := ordered.order
    have ahead : queue.rest = handler :: queue.tmpNotificationHandlers.drop (round + 1) := by
      rw [rest, phase]
      exact split
    rw [ahead] at order
    change (queue.executed ++ [handler] ++ (queue.tmpNotificationHandlers.drop (round + 1) ++
      queue.notificationHandlers)).Sublist _
    rw [List.append_assoc]
    exact order
  · have kept := ordered.begun
    rw [begun, phase] at kept
    change queue.tmpNotificationHandlers.take (round + 1) ⊆ queue.executed ++ [handler]
    rw [front]
    exact List.append_subset.mpr ⟨List.Subset.trans kept (List.subset_append_left _ _),
      List.subset_append_right _ _⟩

theorem throw_in_order (queue : Notifications) (ordered : queue.InOrder) (round : Nat)
    (phase : queue.phase = .running round) : { queue with phase := .idle }.InOrder where
  order := by
    refine List.Sublist.trans ?_ ordered.order
    exact (List.Sublist.refl _).append (List.sublist_append_right _ _)
  begun := by
    have kept := ordered.begun
    rw [begun, phase] at kept
    refine List.Subset.trans ?_ kept
    exact List.take_subset_take_left _ (Nat.le_add_left 1 round)

theorem step_in_order (activity : Activity) (before after : Notifications)
    (ordered : before.InOrder) (fresh : before.AcquiresFresh activity)
    (done : step activity before = some after) : after.InOrder := by
  cases activity with
  | push =>
      cases done
      exact push_in_order before ordered
  | acquire =>
      simp only [step] at done
      split at done
      · rename_i idle
        cases done
        exact acquire_in_order before ordered idle fresh
      · cases done
  | call =>
      simp only [step] at done
      split at done
      · rename_i round phase
        split at done
        · rename_i handler next
          cases done
          exact call_in_order before ordered round handler phase next
        · cases done
      · cases done
  | returns =>
      simp only [step] at done
      split at done
      · rename_i round phase
        cases done
        -- the handler has run: the loop counts it, and what is left is the same
        obtain ⟨order, kept⟩ := ordered
        rw [rest, phase] at order
        rw [begun, phase] at kept
        exact ⟨order, kept⟩
      · cases done
  | throws =>
      simp only [step] at done
      split at done
      · rename_i round phase
        cases done
        exact throw_in_order before ordered round phase
      · cases done
  | finish =>
      simp only [step] at done
      split at done
      · rename_i round phase
        split at done
        · cases done
          refine ⟨List.Sublist.trans ?_ ordered.order, List.nil_subset _⟩
          exact (List.Sublist.refl _).append (List.sublist_append_right _ _)
        · cases done
      · cases done

theorem empty_in_order : empty.InOrder := ⟨List.Sublist.refl _, List.nil_subset _⟩

theorem run_in_order (activities : List Activity) (queue : Notifications)
    (run : Run step AcquiresFresh empty activities queue) : queue.InOrder := by
  apply run.invariant empty_in_order
  intro before activity after ordered fresh done
  exact step_in_order activity before after ordered fresh done

/-- No handler throws. -/
def Returns (_ : Notifications) (activity : Activity) : Prop := activity ≠ .throws

theorem rounds_run (left : List Nat) (round : Nat) (queue : Notifications)
    (phase : queue.phase = .looping round)
    (ahead : queue.tmpNotificationHandlers.drop round = left) :
    ∃ activities, Run step Returns queue activities { queue with
      phase := .looping (round + left.length)
      executed := queue.executed ++ left } := by
  induction left generalizing round queue with
  | nil =>
      refine ⟨[], ?_⟩
      rw [List.append_nil, List.length_nil, Nat.add_zero, ← phase]
      exact .nil
  | cons handler left ih =>
      have next : queue.tmpNotificationHandlers[round]? = some handler := by
        rw [← List.head?_drop, ahead, List.head?_cons]
      have called : step .call queue = some (queue.called round handler) := by
        simp only [step, phase, next]
      let returned := { queue.called round handler with phase := .looping (round + 1) }
      have behind : returned.tmpNotificationHandlers.drop (round + 1) = left := by
        change queue.tmpNotificationHandlers.drop (round + 1) = left
        rw [← List.tail_drop, ahead, List.tail_cons]
      obtain ⟨activities, run⟩ := ih (round + 1) returned rfl behind
      refine ⟨.call :: .returns :: activities, ?_⟩
      have count : round + 1 + left.length = round + (handler :: left).length := by
        rw [List.length_cons]
        omega
      change Run step Returns returned activities { queue with
        phase := .looping (round + 1 + left.length)
        executed := queue.executed ++ [handler] ++ left } at run
      rw [count, List.append_assoc] at run
      exact .cons Activity.noConfusion called (.cons Activity.noConfusion rfl run)

/-- Two further calls of `acquire_notifications()` run what was left from its
beginning, even if every handler returns. -/
theorem left_batch_reruns (queue : Notifications) (ordered : queue.InOrder)
    (idle : queue.phase = .idle) (left : queue.tmpNotificationHandlers ≠ []) :
    ∃ activities later, Run step Returns queue (.acquire :: activities) later ∧
      ¬ later.executed.Nodup := by
  obtain ⟨first, others, batch⟩ := List.exists_cons_of_ne_nil left
  have executed : first ∈ queue.executed := by
    have kept := ordered.begun
    rw [begun, idle, batch] at kept
    exact kept List.mem_cons_self
  have acquired : step .acquire queue = some queue.acquireNotifications := if_pos idle
  -- the first call runs what has been pushed meanwhile
  obtain ⟨activities, run⟩ := rounds_run queue.notificationHandlers 0 queue.acquireNotifications rfl
    rfl
  rw [Nat.zero_add] at run
  let done : Notifications := { queue.acquireNotifications with
    phase := .idle
    tmpNotificationHandlers := []
    executed := queue.executed ++ queue.notificationHandlers }
  have finished : step .finish { queue.acquireNotifications with
      phase := .looping queue.notificationHandlers.length
      executed := queue.executed ++ queue.notificationHandlers } = some done := if_pos rfl
  have called : step .call done.acquireNotifications =
      some (done.acquireNotifications.called 0 first) := by
    have next : done.acquireNotifications.tmpNotificationHandlers[0]? = some first := by
      change queue.tmpNotificationHandlers[0]? = some first
      rw [batch]
      rfl
    simp only [step, show done.acquireNotifications.phase = .looping 0 from rfl, next]
  have returning : ∀ (queue : Notifications) (activity : Activity), activity ≠ .throws →
      queue.Returns activity := fun _ _ other => other
  have through := ((run.snoc (returning _ .finish Activity.noConfusion) finished).snoc
    (returning _ .acquire Activity.noConfusion) (show step .acquire done = some _ from rfl)).snoc
    (returning _ .call Activity.noConfusion) called
  refine ⟨_, _, .cons Activity.noConfusion acquired through, ?_⟩
  -- and the second one the left batch, whose first handler has been executed
  intro once
  have apart := (List.nodup_append.mp once).2.2
  exact apart first (List.mem_append_left _ executed) first List.mem_cons_self rfl

/-- As long as `acquire_notifications()` is not called again after an exception,
every handler is executed at most once and in the order of the pushes; when it is
called again, nothing but further exceptions can prevent a second execution. -/
theorem handlers_in_order (activities : List Activity) (queue : Notifications)
    (run : Run step AcquiresFresh empty activities queue) :
    (queue.executed.Nodup ∧ queue.executed.Pairwise (· < ·) ∧
      ∀ handler ∈ queue.executed, handler < queue.pushed) ∧
    (queue.phase = .idle → ¬ queue.AcquiresFresh .acquire →
      ∃ later final, Run step Returns queue (.acquire :: later) final ∧
        ¬ final.executed.Nodup) := by
  have ordered := run_in_order activities queue run
  have order : queue.executed.Sublist (List.range queue.pushed) :=
    (List.sublist_append_left _ _).trans ordered.order
  refine ⟨⟨order.nodup List.nodup_range, List.pairwise_lt_range.sublist order, ?_⟩, ?_⟩
  · intro handler member
    exact List.mem_range.mp (order.subset member)
  · exact left_batch_reruns queue ordered

/-- Two handlers, the second of them pushed by the first. -/
theorem handlers_in_order_two : ∃ queue, Run step AcquiresFresh empty
    [.push, .acquire, .call, .push, .returns, .finish, .acquire, .call] queue ∧
    queue.executed = [0, 1] ∧ queue.executed.Pairwise (· < ·) := by
  have run : Run step AcquiresFresh empty
      [.push, .acquire, .call, .push, .returns, .finish, .acquire, .call]
      ⟨[], [1], .running 0, 2, [0, 1]⟩ :=
    .cons trivial rfl (.cons rfl rfl (.cons trivial rfl (.cons trivial rfl (.cons trivial rfl
      (.cons trivial rfl (.cons rfl rfl (.cons trivial rfl .nil)))))))
  exact ⟨_, run, rfl, (handlers_in_order _ _ run).1.2.1⟩

/-- A handler that throws is executed again by the second call after it. -/
theorem thrown_handler_reruns : ∃ queue, Run step (fun _ _ => True) empty
    [.push, .acquire, .call, .throws, .acquire, .finish, .acquire, .call] queue ∧
    queue.executed = [0, 0] ∧ ¬ queue.executed.Nodup := by
  have run : Run step (fun _ _ => True) empty
      [.push, .acquire, .call, .throws, .acquire, .finish, .acquire, .call]
      ⟨[], [0], .running 0, 1, [0, 0]⟩ :=
    .cons trivial rfl (.cons trivial rfl (.cons trivial rfl (.cons trivial rfl
      (.cons trivial rfl (.cons trivial rfl (.cons trivial rfl (.cons trivial rfl .nil)))))))
  exact ⟨_, run, rfl, by decide⟩

end Notifications

end Cpp2tnt
