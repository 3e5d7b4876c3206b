import Cpp2tnt.CsParser

/-!
The characters `parse_cs` looks at. Here the view is all the parser may read: a
character or a prefix it does not have is not there to be read or removed.
-/

namespace Cpp2tnt
open MessagePack

namespace CsParser

def removePrefix (tail : Bytes) (count : Nat) : Option Bytes :=
  if count ≤ tail.length then some (tail.drop count) else none

def afterColonIn (chunk tail : Bytes) (res : CsParts) : Option Turn := do
  let first ← tail[0]?
  if first = slash then pure (.returned { res with unixSocketPath := tail })
  else
    let chunk2 := (getChunk isSeparator tail).1
    let tail := (getChunk isSeparator tail).2
    if tail = [] then
      if chunk2port chunk2 then pure (.finished { res with port := chunk2, host := chunk })
      else pure (.returned noParts)
    else
      let separator ← tail[0]?
      if separator = atSign then
        let tail ← removePrefix tail 1
        pure (.again tail { res with user := chunk, password := chunk2 })
      else pure (.returned noParts)

def atSlashIn (chunk tail : Bytes) (res : CsParts) : Option Turn := do
  let second ← tail[1]?
  if second = colon then
    let tail ← removePrefix tail 2
    if chunk = ascii "env" then pure (.environment (tail.takeWhile (· ≠ 0)))
    else if chunk ≠ ascii "unix" then pure (.returned noParts)
    else if res.user ≠ [] then pure (.returned noParts)
    else pure (.returned { res with unixSocketPath := tail })
  else if res.user ≠ [] then pure (.returned noParts)
  else pure (.returned { res with unixSocketPath := tail })

def afterBracketIn (chunk tail : Bytes) (res : CsParts) : Option Turn :=
  if chunk ≠ [] then pure (.returned noParts)
  else do
    let tail ← removePrefix tail 1
    let chunk := (getChunk (· == bracketEnd) tail).1
    let tail := (getChunk (· == bracketEnd) tail).2
    if chunk = [] then pure (.returned noParts)
    else
      let closing ← tail[0]?
      if closing ≠ bracketEnd then pure (.returned noParts)
      else
        let tail ← removePrefix tail 1
        if tail = [] then pure (.returned noParts)
        else
          let first ← tail[0]?
          if first ≠ colon then pure (.returned noParts)
          else
            let tail ← removePrefix tail 1
            if chunk2port tail then pure (.finished { res with port := tail, host := chunk })
            else pure (.returned noParts)

section Parsing
variable (connectionString : Bytes)

def turnIn (tail : Bytes) (res : CsParts) : Option Turn := do
  let chunk := (getChunk isSeparator tail).1
  let rest := (getChunk isSeparator tail).2
  if rest = [] then
    if tail.length = connectionString.length ∧ chunk2port chunk then
      pure (.finished { res with port := chunk })
    else pure (.returned noParts)
  else
    let separator ← rest[0]?
    if separator = colon then
      let rest ← removePrefix rest 1
      afterColonIn chunk rest res
    else if separator = slash then atSlashIn chunk rest res
    else if separator = bracket then afterBracketIn chunk rest res
    else
      let rest ← removePrefix rest 1
      pure (.again rest { res with user := chunk })

def loopIn : Nat → Bytes → CsParts → Option Parsed
  | 0, _, _ => some (.parts noParts)
  | fuel + 1, tail, res => match turnIn connectionString tail res with
    | none => none
    | some (.returned parts) => some (.parts parts)
    | some (.finished parts) => some (.parts (withDefaults parts))
    | some (.environment name) => some (.environment name)
    | some (.again tail res) => loopIn fuel tail res

/-- `parseText` inside the view; `none` is a read outside of it. -/
def parseTextIn : Option Parsed :=
  if connectionString = [] then some (.parts noParts)
  else loopIn connectionString (connectionString.length + 1) connectionString noParts

end Parsing

/-- The tail ends where the parser looks at one character more. -/
inductive Overrun : Bytes → Prop
  | colonLast (chunk : Bytes) (free : Free isSeparator chunk) : Overrun (chunk ++ [colon])
  | slashLast (chunk : Bytes) (free : Free isSeparator chunk) : Overrun (chunk ++ [slash])
  | bracketOpen (host : Bytes) (some : host ≠ []) (free : Free (· == bracketEnd) host) :
      Overrun (bracket :: host)

/-- Such a tail is left behind a number of logins. -/
def Overruns (connectionString : Bytes) : Prop :=
  ∃ logins rest, (∀ login ∈ logins, login.Simple) ∧ connectionString = texts logins ++ rest ∧
    Overrun rest

section Turns
variable {connectionString chunk rest tail : Bytes} {res : CsParts}

theorem remove_prefix_cons (char : UInt8) (tail : Bytes) :
    removePrefix (char :: tail) 1 = some tail := by
  simp [removePrefix]

theorem turn_in_at {separator : UInt8} (free : Free isSeparator chunk)
    (stops : isSeparator separator = true) :
    turnIn connectionString (chunk ++ separator :: rest) res =
      if separator = colon then afterColonIn chunk rest res
      else if separator = slash then atSlashIn chunk (separator :: rest) res
      else if separator = bracket then afterBracketIn chunk (separator :: rest) res
      else some (.again rest { res with user := chunk }) := by
  simp [turnIn, get_chunk_at free stops, remove_prefix_cons]

theorem after_colon_inside {char : UInt8} :
    afterColonIn chunk (char :: rest) res = some (afterColon chunk (char :: rest) res) := by
  have first : charAt (char :: rest) 0 = char := rfl
  unfold afterColonIn afterColon
  rw [first]
  by_cases path : char = slash
  · simp [path]
  · generalize getChunk isSeparator (char :: rest) = parts
    obtain ⟨chunk2, tail⟩ := parts
    cases tail with
    | nil => simp [path, apply_ite some]
    | cons separator tail => simp [path, remove_prefix_cons, apply_ite some]

theorem at_slash_inside {char : UInt8} :
    atSlashIn chunk (slash :: char :: rest) res = some (atSlash chunk (slash :: char :: rest) res) := by
  have second : charAt (slash :: char :: rest) 1 = char := rfl
  unfold atSlashIn atSlash
  rw [second]
  by_cases sign : char = colon
  · simp [sign, removePrefix, apply_ite some]
  · simp [sign, apply_ite some]

theorem after_bracket_inside
    (closed : chunk = [] → rest = [] ∨ ¬ Free (· == bracketEnd) rest) :
    afterBracketIn chunk (bracket :: rest) res = some (afterBracket chunk rest res) := by
  unfold afterBracketIn afterBracket
  by_cases front : chunk = []
  · have split := get_chunk_split (· == bracketEnd) rest
    have inner := get_chunk_free (· == bracketEnd) rest
    have stops : ∀ char tail, (getChunk (· == bracketEnd) rest).2 = char :: tail →
        (char == bracketEnd) = true := fun _ _ => get_chunk_stops
    simp only [front, ne_eq, not_true_eq_false, if_false, remove_prefix_cons, Option.bind_eq_bind,
      Option.bind_some]
    generalize getChunk (· == bracketEnd) rest = parts at split inner stops
    obtain ⟨host, tail⟩ := parts
    simp only at split inner stops ⊢
    by_cases none : host = []
    · simp [none]
    · cases tail with
      | nil =>
          -- no closing bracket: the host is the whole tail, and the look behind it is outside
          rw [List.append_nil] at split
          subst split
          exact absurd inner ((closed front).resolve_left none)
      | cons char tail =>
          obtain rfl : char = bracketEnd := by simpa using stops char tail rfl
          cases tail with
          | nil => simp [none, remove_prefix_cons, charAt]
          | cons first port => simp [none, remove_prefix_cons, charAt, apply_ite some]
  · simp [front]

theorem turn_in_inside (inside : ¬ Overrun tail) :
    turnIn connectionString tail res = some (turn connectionString tail res) := by
  have split := get_chunk_split isSeparator tail
  have free := get_chunk_free isSeparator tail
  cases found : (getChunk isSeparator tail).2 with
  | nil => simp [turnIn, turn, found, apply_ite some]
  | cons separator rest =>
      have stops := get_chunk_stops found
      rw [found] at split
      generalize (getChunk isSeparator tail).1 = chunk at split free
      subst split
      rw [turn_in_at free stops, turn_at free stops]
      -- one case a separator; a colon and a slash are followed by a look at the next character
      by_cases first : separator = colon
      · rw [if_pos first, if_pos first]
        cases rest with
        | nil => exact absurd (.colonLast chunk free) (first ▸ inside)
        | cons char rest => exact after_colon_inside
      by_cases second : separator = slash
      · rw [if_neg first, if_pos second, if_neg first, if_pos second]
        subst second
        cases rest with
        | nil => exact absurd (.slashLast chunk free) inside
        | cons char rest => exact at_slash_inside
      by_cases third : separator = bracket
      · rw [if_neg first, if_neg second, if_pos third, if_neg first, if_neg second, if_pos third]
        subst third
        apply after_bracket_inside
        rintro rfl
        by_cases some : rest = []
        · exact .inl some
        · exact .inr fun unclosed => inside (.bracketOpen rest some unclosed)
      · rw [if_neg first, if_neg second, if_neg third, if_neg first, if_neg second, if_neg third]

theorem bracket_front (host : Bytes) : bracket :: host = [] ++ bracket :: host := rfl

theorem turn_in_overrun (overrun : Overrun tail) : turnIn connectionString tail res = none := by
  cases overrun with
  | colonLast chunk free =>
      rw [turn_in_at free (by decide), if_pos rfl]
      rfl
  | slashLast chunk free =>
      rw [turn_in_at free (by decide), if_neg (by decide), if_pos rfl]
      rfl
  | bracketOpen host some free =>
      have none : Free isSeparator ([] : Bytes) := fun _ member => by cases member
      rw [bracket_front, turn_in_at none (by decide), if_neg (by decide), if_neg (by decide),
        if_pos rfl]
      simp [afterBracketIn, remove_prefix_cons, get_chunk_all free, some]

theorem overrun_turn (overrun : Overrun tail) :
    turn connectionString tail res = .returned noParts ∨
      turn connectionString tail res = .returned { res with unixSocketPath := [slash] } := by
  cases overrun with
  | colonLast chunk free =>
      rw [turn_at free (by decide), if_pos rfl]
      exact .inl rfl
  | slashLast chunk free =>
      -- the terminating null is no colon, so the slash is taken for a path
      rw [turn_at free (by decide), if_neg (by decide), if_pos rfl]
      by_cases nobody : res.user = []
      · exact .inr (by simp [atSlash, charAt, nobody, colon])
      · exact .inl (by simp [atSlash, charAt, nobody, colon])
  | bracketOpen host some free =>
      have none : Free isSeparator ([] : Bytes) := fun _ member => by cases member
      rw [bracket_front, turn_at none (by decide), if_neg (by decide), if_neg (by decide),
        if_pos rfl, afterBracket, if_neg (not_not.mpr rfl), get_chunk_all free]
      exact .inl (if_pos (.inr (by decide)))

theorem login_turn_in (login : Login) (simple : login.Simple) :
    turnIn connectionString (login.text ++ rest) res = some (.again rest (login.enter res)) := by
  have again : turn connectionString (login.text ++ rest) res = .again rest (login.enter res) :=
    login_turn login simple
  rw [turn_in_inside, again]
  -- a turn that goes on has not come to an overrun
  intro overrun
  have given : turn connectionString (login.text ++ rest) res = .returned noParts ∨
      turn connectionString (login.text ++ rest) res =
        .returned { res with unixSocketPath := [slash] } := overrun_turn overrun
  rw [again] at given
  rcases given with returned | returned <;> cases returned

end Turns

section Loop
variable {connectionString : Bytes}

theorem loop_in_logins (connectionString : Bytes) (logins : List Login)
    (simple : ∀ login ∈ logins, login.Simple) (fuel : Nat) (rest : Bytes) (res : CsParts) :
    loopIn connectionString (logins.length + fuel) (texts logins ++ rest) res =
      loopIn connectionString fuel rest (entered logins res) := by
  induction logins generalizing res with
  | nil => simp [texts, entered]
  | cons login logins ih =>
      have more : (login :: logins).length + fuel = (logins.length + fuel) + 1 := by
        simp only [List.length_cons]
        omega
      have front : texts (login :: logins) ++ rest = login.text ++ (texts logins ++ rest) := by
        simp [texts]
      rw [more, front, loopIn, login_turn_in login (simple login List.mem_cons_self)]
      exact ih (fun other member => simple other (List.mem_cons_of_mem _ member)) _

theorem parse_text_in {logins : List Login} (simple : ∀ login ∈ logins, login.Simple) {rest : Bytes}
    (split : connectionString = texts logins ++ rest) (some : connectionString ≠ []) :
    ∃ fuel, parseTextIn connectionString =
      loopIn connectionString (fuel + 1) rest (entered logins noParts) := by
  -- a login is a character at least, so the fuel outlasts them
  have short := logins_short logins
  have total : connectionString.length = (texts logins).length + rest.length := by
    rw [split, List.length_append]
  refine ⟨connectionString.length - logins.length, ?_⟩
  have unrolled := loop_in_logins connectionString logins simple
    (connectionString.length - logins.length + 1) rest noParts
  have fuel : logins.length + (connectionString.length - logins.length + 1) =
      connectionString.length + 1 := by omega
  rw [fuel, ← split] at unrolled
  rw [parseTextIn, if_neg some, unrolled]

theorem text_overruns (overruns : Overruns connectionString) :
    parseTextIn connectionString = none := by
  obtain ⟨logins, rest, simple, split, overrun⟩ := overruns
  have some : connectionString ≠ [] := by
    rintro rfl
    obtain ⟨_, rfl⟩ := List.append_eq_nil_iff.mp split.symm
    generalize none : ([] : Bytes) = text at overrun
    cases overrun <;> simp at none
  obtain ⟨fuel, last⟩ := parse_text_in simple split some
  rw [last, loopIn, turn_in_overrun overrun]

theorem text_inside (inside : ¬ Overruns connectionString) :
    parseTextIn connectionString = some (parseText connectionString) := by
  by_cases none : connectionString = []
  · rw [parseTextIn, parseText, if_pos none, if_pos none]
  · obtain ⟨logins, rest, simple, split, closed⟩ := parse_unrolled connectionString
    obtain ⟨fuel, last⟩ := parse_text_in simple split none
    have kept : ¬ Overrun rest := fun overrun => inside ⟨logins, rest, simple, split, overrun⟩
    rw [last, loopIn, turn_in_inside kept]
    generalize turn connectionString rest (entered logins noParts) = turn at closed
    cases turn with
    | returned parts | finished parts | environment name => exact closed
    | again rest res => cases closed

end Loop

section Calls
variable (getenv : Bytes → Option Bytes)

/-- Whether the call and the calls it makes read inside their views. -/
def StaysInside : Nat → Bytes → Prop
  | 0, _ => True
  | depth + 1, connectionString => match parseTextIn connectionString with
    | none => False
    | some (.parts _) => True
    | some (.environment name) => match getenv name with
      | none => True
      | some cs => StaysInside depth cs

/-- The string and the values of the variables it comes to. -/
def viewed : Nat → Bytes → List Bytes
  | 0, _ => []
  | depth + 1, connectionString => connectionString :: match parseText connectionString with
    | .parts _ => []
    | .environment name => match getenv name with
      | none => []
      | some cs => viewed depth cs

end Calls

/-- The parser stays inside its views exactly if none of them overruns. -/
theorem stays_inside_iff (getenv : Bytes → Option Bytes) (depth : Nat) (connectionString : Bytes) :
    StaysInside getenv depth connectionString ↔
      ∀ text ∈ viewed getenv depth connectionString, ¬ Overruns text := by
  induction depth generalizing connectionString with
  | zero => simp [StaysInside, viewed]
  | succ depth ih =>
      rw [StaysInside, viewed]
      by_cases overruns : Overruns connectionString
      · simp [text_overruns overruns, overruns]
      · rw [text_inside overruns]
        cases parseText connectionString with
        | parts parts => simp [overruns]
        | environment name =>
            cases found : getenv name with
            | none => simp [found, overruns]
            | some cs => simp [found, overruns, ih]

theorem colon_last_overruns : ¬ StaysInside (fun _ => none) 1 (ascii "host:") := by
  have outside : parseTextIn (ascii "host:") = none := by decide
  simp [StaysInside, outside]

end CsParser
end Cpp2tnt
