import Cpp2tnt.LegibleReplies
import Cpp2tnt.PrintedExtensions
import Cpp2tnt.SessionCourse

/-!
Who gets a connection opened. `Staged` says what a socket session has gone
through in each of its states. Only `read()` opens a connection, and for a named
user only at the end of all these stages. Every other reply disconnects, unless
an integer read of it is undefined.
-/

namespace Cpp2tnt
open Imperative MessagePack Transition

def openings (notes : List Note) : Nat := (phases notes).count .opened

theorem same_openings {before after : List Note} (phase : phases after = phases before) :
    openings after = openings before := congrArg (List.count Note.opened) phase

namespace Conn

structure Staged (conn : Conn) : Prop where
  begun : conn.state = .connecting → conn.session = []
  greeted : conn.state = .featuresRequest →
    ∃ text, greetingSize ≤ text.length ∧ conn.session = [.greeting text]
  challenged : conn.state = .authentication →
    ∃ text code, greetingSize ≤ text.length ∧ Acceptable .featuresRequest code ∧
      conn.session = [.greeting text, .response .featuresRequest code, .authRequest]

/-- The stages fit the state, and nothing has been opened. -/
structure Stays (before after : Conn) : Prop where
  staged : Staged after
  unopened : after.state = .connected → before.state = .connected
  openings : openings after.notes = openings before.notes

theorem Stays.trans {first second third : Conn} (left : Stays first second)
    (right : Stays second third) : Stays first third where
  staged := right.staged
  unopened := left.unopened ∘ right.unopened
  openings := right.openings.trans left.openings

section Outcomes
variable {before after : Conn}

theorem Staged.same (staged : Staged before) (state : after.state = before.state)
    (session : after.session = before.session) (phase : phases after.notes = phases before.notes) :
    Stays before after where
  staged := by
    constructor
    · rw [state, session]
      exact staged.begun
    · rw [state, session]
      exact staged.greeted
    · rw [state, session]
      exact staged.challenged
  unopened := by
    rw [state]
    exact id
  openings := same_openings phase

/-- What a session has gone through when its last answer opens the connection. -/
structure Opening (before after : Conn) : Prop where
  state : after.state = .connected
  granted : before.Anonymous ∨ before.state = .authentication ∧ ∃ text code,
    greetingSize ≤ text.length ∧ Acceptable .featuresRequest code ∧
    after.session = [.greeting text, .response .featuresRequest code, .authRequest,
      .response .authentication 0, .opened]

theorem Opening.staged (opening : Opening before after) : Staged after := by
  have other : ∀ {state : State}, state ≠ .connected → ¬ after.state = state := by
    rintro _ some rfl
    exact some opening.state
  constructor
  · exact fun connecting => absurd connecting (other State.noConfusion)
  · exact fun features => absurd features (other State.noConfusion)
  · exact fun authentication => absurd authentication (other State.noConfusion)

end Outcomes

section Answers
variable (mp : Msgpuck) (crypto : Crypto)

end Answers

section Runs
variable (mp : Msgpuck) (crypto : Crypto) (parseCs : Bytes → CsParts)

end Runs

end Conn

end Cpp2tnt
