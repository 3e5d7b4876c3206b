import Cpp2tnt.CsParser
import Cpp2tnt.Library.Chain

/-!
What `parse_cs` gives for the documented strings, and when it gives anything at
all: the value of a variable may be a string that refers to a variable again.
-/

namespace Cpp2tnt
open MessagePack

namespace CsParser

/-- A documented connection string and its parts. -/
inductive Documented : Bytes → CsParts → Prop
  | address (address : Address) (simple : address.Simple) (port : PortText address.port) :
      Documented address.text
        ⟨[], Conn.guest, [], orElse address.host localhost, address.port⟩
  | login (login : Login) (named : login.user ≠ []) (plain : login.Simple) (address : Address)
      (simple : address.Simple) (port : PortText address.port) :
      Documented (login.text ++ address.text)
        ⟨[], login.user, login.password.getD [], orElse address.host localhost, address.port⟩
  | port (text : Bytes) (port : PortText text) :
      Documented text ⟨[], Conn.guest, [], localhost, text⟩
  | unix (path : Bytes) (some : path ≠ []) :
      Documented (ascii "unix/:" ++ path) { noParts with unixSocketPath := path }
  | path (path : Bytes) (some : path ≠ []) (other : path.head? ≠ Option.some colon) :
      Documented (slash :: path) { noParts with unixSocketPath := slash :: path }

section Documents
variable {connectionString port : Bytes} {res : CsParts}

theorem port_turn (text : PortText port) :
    turn port port res = .finished { res with port := port } := by
  have taken := (chunk2port_iff port).mpr text
  simp only [turn, get_chunk_all text.free, taken, and_self, if_true]

theorem environment_turn (name : Bytes) (terminated : 0 ∉ name) :
    turn connectionString (ascii "env/:" ++ name) res = .environment name := by
  have free : Free isSeparator (ascii "env") := by decide
  have second : charAt (slash :: colon :: name) 1 = colon := rfl
  have whole : name.takeWhile (· ≠ 0) = name := by
    apply List.takeWhile_eq_self_iff.mpr
    intro char member
    refine decide_eq_true ?_
    rintro rfl
    exact terminated member
  rw [show ascii "env/:" ++ name = ascii "env" ++ slash :: colon :: name from rfl,
    turn_at free (by decide), if_neg (by decide), if_pos rfl, atSlash, if_pos second, if_pos rfl]
  exact congrArg Turn.environment whole

theorem parse_first {text : Bytes} {parsed : Parsed}
    (closed : (turn text text noParts).close = some parsed) : parseText text = parsed := by
  have none : ∀ login ∈ ([] : List Login), login.Simple := List.forall_mem_nil _
  exact parse_at none rfl closed

theorem documented_text {text : Bytes} {parts : CsParts} (documented : Documented text parts) :
    parseText text = .parts parts := by
  cases documented with
  | address address simple port =>
      exact parse_first (congrArg Turn.close (address_turn address simple port))
  | login login named plain address simple port =>
      have logins : ∀ other ∈ [login], other.Simple := List.forall_mem_singleton.mpr plain
      have closed : (turn (login.text ++ address.text) address.text (entered [login] noParts)).close =
          some (.parts (withDefaults { login.enter noParts with
            port := address.port, host := address.host })) :=
        congrArg Turn.close (address_turn address simple port)
      have parsed := parse_at logins (by simp [texts]) closed
      rw [parsed, withDefaults, Login.enter, orElse, if_neg named]
      rfl
  | port text port => exact parse_first (congrArg Turn.close (port_turn port))
  | unix path some => exact parse_first (congrArg Turn.close (unix_turn path rfl))
  | path path some other =>
      obtain ⟨char, rest, rfl⟩ := List.exists_cons_of_ne_nil some
      have first : charAt (char :: rest) 0 ≠ colon := fun same => other (congrArg Option.some same)
      have none : Free isSeparator ([] : Bytes) := fun _ member => by cases member
      exact parse_first (congrArg Turn.close (path_turn (char :: rest) none first rfl))

theorem environment_text (name : Bytes) (terminated : 0 ∉ name) :
    parseText (ascii "env/:" ++ name) = .environment name :=
  parse_first (congrArg Turn.close (environment_turn name terminated))

end Documents

/-- Every documented string parses to its parts, and `env/:` to what the parser
gives for the value of the variable. -/
theorem documented_parses (getenv : Bytes → Option Bytes) (depth : Nat) :
    (∀ text parts, Documented text parts → parseCs getenv (depth + 1) text = some parts) ∧
    (∀ name : Bytes, 0 ∉ name → parseCs getenv (depth + 1) (ascii "env/:" ++ name) =
      match getenv name with
      | none => some noParts
      | some value => parseCs getenv depth value) := by
  constructor
  · intro text parts documented
    simp only [parseCs, documented_text documented]
  · intro name terminated
    have reads := environment_text name terminated
    cases value : getenv name with
    | none => simp only [parseCs, reads, value]
    | some text => simp only [parseCs, reads, value]

theorem documented_parses_plain :
    parseCs (fun _ => some (ascii ":3301")) 2 (ascii "env/:TNT") =
      some ⟨[], Conn.guest, [], localhost, ascii "3301"⟩ := by
  obtain ⟨direct, through⟩ := documented_parses (fun _ => some (ascii ":3301")) 1
  obtain ⟨inner, _⟩ := documented_parses (fun _ => some (ascii ":3301")) 0
  have digits : PortText (ascii "3301") := ⟨by decide, by decide, by decide, by decide⟩
  have plain : (Address.plain [] (ascii "3301")).Simple := fun _ member => by cases member
  exact (through (ascii "TNT") (by decide)).trans
    (inner (ascii ":3301") _ (.address (.plain [] (ascii "3301")) plain digits))

def EndsWithin (connectionString : Bytes) : Nat → Bytes → CsParts → Prop
  | 0, _, _ => False
  | turns + 1, tail, res => ∀ rest after, turn connectionString tail res = .again rest after →
      EndsWithin connectionString turns rest after

theorem loop_ends (connectionString : Bytes) (turns : Nat) (tail : Bytes) (res : CsParts)
    (enough : tail.length < turns) : EndsWithin connectionString turns tail res := by
  induction turns generalizing tail res with
  | zero => exact absurd enough (Nat.not_lt_zero _)
  | succ turns ih =>
      intro rest after again
      have taken : Takes connectionString tail res (turn connectionString tail res) := turn_taken
      rw [again] at taken
      -- only a login goes on, and its sign is consumed with it
      cases taken with
      | login login rest simple shape =>
          apply ih
          have some := login.text_pos
          rw [shape, List.length_append] at enough
          omega

section Environment
variable (environ : List (Bytes × Bytes))

def getenv (name : Bytes) : Option Bytes := environ.lookup name

def referred (name : Bytes) : Option Bytes :=
  match getenv environ name with
  | none => none
  | some value => match parseText value with
    | .environment second => some second
    | .parts _ => none

/-- The string refers to a variable from which the values lead back to one of them. -/
def RunsInCircle (connectionString : Bytes) : Prop :=
  ∃ name, parseText connectionString = .environment name ∧ Chain.Circles (referred environ) name

/-- The parser returns for the value of the variable, if it has one. -/
def Answers (calls : Nat) (name : Bytes) : Prop :=
  ∀ value, getenv environ name = some value → (parseCs (getenv environ) calls value).isSome

variable {environ}

theorem referred_iff {name second : Bytes} : referred environ name = some second ↔
    ∃ value, getenv environ name = some value ∧ parseText value = .environment second := by
  unfold referred
  cases getenv environ name with
  | none => simp
  | some value => cases parsed : parseText value <;> simp [parsed]

theorem parse_some_iff (calls : Nat) (text : Bytes) :
    (parseCs (getenv environ) (calls + 1) text).isSome ↔
      ∀ name, parseText text = .environment name → Answers environ calls name := by
  cases parsed : parseText text with
  | parts parts => simp [parseCs, parsed]
  | environment name =>
      cases found : getenv environ name <;> simp [parseCs, parsed, Answers, found]

theorem ends_answers (calls : Nat) (name : Bytes) (ends : Chain.Ends (referred environ) calls name) :
    Answers environ calls name := by
  induction calls generalizing name with
  | zero => exact ends.elim
  | succ calls ih =>
      intro value found
      rw [parse_some_iff]
      intro second parsed
      exact ih second (ends second (referred_iff.mpr ⟨value, found, parsed⟩))

theorem answers_ends (calls : Nat) (name : Bytes) (answers : Answers environ calls name) :
    Chain.Ends (referred environ) (calls + 1) name := by
  induction calls generalizing name with
  | zero =>
      intro second refers
      obtain ⟨value, found, _⟩ := referred_iff.mp refers
      cases answers value found
  | succ calls ih =>
      intro second refers
      obtain ⟨value, found, parsed⟩ := referred_iff.mp refers
      exact ih second ((parse_some_iff calls value).mp (answers value found) second parsed)

theorem lookup_inside {name value : Bytes} (found : getenv environ name = some value) :
    name ∈ (environ.map Prod.fst).toFinset := by
  obtain ⟨front, back, rfl, _⟩ := List.lookup_eq_some_iff.mp found
  simp

end Environment

/-- Every loop of the parser ends, and it returns after finitely many calls of
itself exactly if the string does not come to variables that refer to each other
in a circle. -/
theorem parse_ends_iff (environ : List (Bytes × Bytes)) (connectionString : Bytes) :
    (∀ text, EndsWithin text (text.length + 1) text noParts) ∧
    ((∃ calls parts, parseCs (getenv environ) calls connectionString = some parts) ↔
      ¬ RunsInCircle environ connectionString) := by
  refine ⟨fun text => loop_ends text _ text noParts (Nat.lt_succ_self _), ?_⟩
  have inside : ∀ name, (referred environ name).isSome → name ∈ (environ.map Prod.fst).toFinset := by
    intro name refers
    obtain ⟨second, refers⟩ := Option.isSome_iff_exists.mp refers
    obtain ⟨value, found, _⟩ := referred_iff.mp refers
    exact lookup_inside found
  -- a call more for the string itself than for the chain of the variables
  constructor
  · rintro ⟨calls, parts, returned⟩ ⟨name, parsed, circles⟩
    cases calls with
    | zero => cases returned
    | succ calls =>
        have some := Option.isSome_of_eq_some returned
        exact Chain.circles_never (calls + 1) circles
          (answers_ends calls name ((parse_some_iff calls _).mp some name parsed))
  · intro straight
    cases parsed : parseText connectionString with
    | parts parts => exact ⟨1, parts, by simp only [parseCs, parsed]⟩
    | environment name =>
        obtain ⟨calls, ends⟩ := (Chain.ends_iff _ inside).mpr
          fun circles => straight ⟨name, parsed, circles⟩
        have returned : (parseCs (getenv environ) (calls + 1) connectionString).isSome := by
          rw [parse_some_iff]
          intro second again
          cases parsed.symm.trans again
          exact ends_answers calls name ends
        obtain ⟨parts, returned⟩ := Option.isSome_iff_exists.mp returned
        exact ⟨calls + 1, parts, returned⟩

def selfReferring : List (Bytes × Bytes) := [(ascii "A", ascii "env/:A")]

theorem self_reference_never_returns :
    ¬ ∃ calls parts, parseCs (getenv selfReferring) calls (ascii "env/:A") = some parts := by
  rintro ⟨calls, parts, returned⟩
  induction calls with
  | zero => cases returned
  | succ calls ih =>
      have parsed : parseText (ascii "env/:A") = .environment (ascii "A") := by decide
      have found : getenv selfReferring (ascii "A") = some (ascii "env/:A") := by decide
      simp only [parseCs, parsed, found] at returned
      exact ih returned

end CsParser
end Cpp2tnt
