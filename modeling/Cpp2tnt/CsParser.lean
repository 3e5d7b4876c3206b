import Cpp2tnt.Connection
import Mathlib.Data.List.TakeWhile

/-!
`parse_cs`. Its callers pass a whole string, so the one character the parser may
look at behind the end of its view is the terminating null. A turn is one pass
through the loop. The result of an `env/:` string is whatever the variable holds.
-/

namespace Cpp2tnt
open MessagePack

deriving instance DecidableEq for CsParts

namespace CsParser

def colon : UInt8 := 0x3a
def slash : UInt8 := 0x2f
def atSign : UInt8 := 0x40
def bracket : UInt8 := 0x5b
def bracketEnd : UInt8 := 0x5d

def isSeparator (char : UInt8) : Bool :=
  char == colon || char == slash || char == atSign || char == bracket

def getChunk (separates : UInt8 → Bool) (tail : Bytes) : Bytes × Bytes :=
  (tail.takeWhile (!separates ·), tail.dropWhile (!separates ·))

def charAt (tail : Bytes) (ind : Nat) : UInt8 := tail.getD ind 0

/-- Whether `chunk2port` takes the chunk for the port. `from_chars` has to reach
the end of the chunk. -/
def chunk2port (chunk : Bytes) : Bool :=
  if 5 < chunk.length then false
  else match fromChars .uint16 chunk with
    | .parsed _ => chunk.all isDigit
    | _ => false

def noParts : CsParts := ⟨[], [], [], [], []⟩

inductive Turn where
  /-- A `return` inside the loop. -/
  | returned (parts : CsParts)
  /-- The port is there, so the loop ends. -/
  | finished (parts : CsParts)
  | environment (name : Bytes)
  | again (tail : Bytes) (parts : CsParts)

def afterColon (chunk tail : Bytes) (res : CsParts) : Turn :=
  if charAt tail 0 = slash then .returned { res with unixSocketPath := tail }
  else
    let (chunk2, tail) := getChunk isSeparator tail
    match tail with
    | [] =>
        if chunk2port chunk2 then .finished { res with port := chunk2, host := chunk }
        else .returned noParts
    | separator :: tail =>
        if separator = atSign then .again tail { res with user := chunk, password := chunk2 }
        else .returned noParts

def atSlash (chunk tail : Bytes) (res : CsParts) : Turn :=
  if charAt tail 1 = colon then
    let tail := tail.drop 2
    if chunk = ascii "env" then .environment (tail.takeWhile (· ≠ 0))
    else if chunk ≠ ascii "unix" then .returned noParts
    else if res.user ≠ [] then .returned noParts
    else .returned { res with unixSocketPath := tail }
  else if res.user ≠ [] then .returned noParts
  else .returned { res with unixSocketPath := tail }

def afterBracket (chunk tail : Bytes) (res : CsParts) : Turn :=
  if chunk ≠ [] then .returned noParts
  else
    let (chunk, tail) := getChunk (· == bracketEnd) tail
    if chunk = [] ∨ charAt tail 0 ≠ bracketEnd then .returned noParts
    else
      let tail := tail.drop 1
      if tail = [] ∨ charAt tail 0 ≠ colon then .returned noParts
      else
        let tail := tail.drop 1
        if chunk2port tail then .finished { res with port := tail, host := chunk }
        else .returned noParts

section Parsing
variable (connectionString : Bytes)

def turn (tail : Bytes) (res : CsParts) : Turn :=
  let chunk := (getChunk isSeparator tail).1
  match (getChunk isSeparator tail).2 with
  | [] =>
      -- the chunk begins the string when nothing of it has been consumed
      if tail.length = connectionString.length ∧ chunk2port chunk then
        .finished { res with port := chunk }
      else .returned noParts
  | separator :: rest =>
      if separator = colon then afterColon chunk rest res
      else if separator = slash then atSlash chunk (separator :: rest) res
      else if separator = bracket then afterBracket chunk rest res
      else .again rest { res with user := chunk }

def localhost : Bytes := ascii "localhost"

def orElse (text default : Bytes) : Bytes := if text = [] then default else text

def withDefaults (res : CsParts) : CsParts :=
  { res with user := orElse res.user Conn.guest, host := orElse res.host localhost }

inductive Parsed where
  | parts (parts : CsParts)
  | environment (name : Bytes)
  deriving DecidableEq

/-- The loop; every turn but the last one consumes a character. -/
def loop : Nat → Bytes → CsParts → Parsed
  | 0, _, _ => .parts noParts
  | fuel + 1, tail, res => match turn connectionString tail res with
    | .returned parts => .parts parts
    | .finished parts => .parts (withDefaults parts)
    | .environment name => .environment name
    | .again tail res => loop fuel tail res

/-- `parse_cs` without its call of itself. -/
def parseText : Parsed :=
  if connectionString = [] then .parts noParts
  else loop connectionString (connectionString.length + 1) connectionString noParts

end Parsing

/-- `parse_cs`; the first argument says how deep variables may refer to each other. -/
def parseCs (getenv : Bytes → Option Bytes) : Nat → Bytes → Option CsParts
  | 0, _ => none
  | depth + 1, connectionString => match parseText connectionString with
    | .parts parts => some parts
    | .environment name => match getenv name with
      | none => some noParts
      | some cs => parseCs getenv depth cs

/-- Credentials in front of an address. -/
inductive Login where
  | alone (user : Bytes)
  | both (user password : Bytes)

def Login.text : Login → Bytes
  | .alone user => user ++ [atSign]
  | .both user password => user ++ colon :: (password ++ [atSign])

def Login.user : Login → Bytes
  | .alone user | .both user _ => user

def Login.password : Login → Option Bytes
  | .alone _ => none
  | .both _ password => some password

inductive Address where
  | plain (host port : Bytes)
  | bracketed (host port : Bytes)

def Address.text : Address → Bytes
  | .plain host port => host ++ colon :: port
  | .bracketed host port => bracket :: (host ++ bracketEnd :: colon :: port)

def Address.host : Address → Bytes
  | .plain host _ | .bracketed host _ => host

def Address.port : Address → Bytes
  | .plain _ port | .bracketed _ port => port

def decimal (digits : Bytes) : Nat :=
  digits.foldl (fun number char => number * 10 + (char.toNat - 0x30)) 0

/-- One to five digits of value at most 65535. -/
structure PortText (text : Bytes) : Prop where
  some : text ≠ []
  short : text.length ≤ 5
  digits : text.all isDigit = true
  bounded : decimal text ≤ 65535

inductive Spells : Bytes → CsParts → Prop
  | unix (path : Bytes) : Spells (ascii "unix/:" ++ path) { noParts with unixSocketPath := path }
  | path (path : Bytes) : Spells path { noParts with unixSocketPath := path }
  | port (text : Bytes) (port : PortText text) :
      Spells text ⟨[], Conn.guest, [], localhost, text⟩
  | address (address : Address) (port : PortText address.port) :
      Spells address.text ⟨[], Conn.guest, [], orElse address.host localhost, address.port⟩
  | login (login : Login) (address : Address) (port : PortText address.port) :
      Spells (login.text ++ address.text)
        ⟨[], orElse login.user Conn.guest, login.password.getD [], orElse address.host localhost,
          address.port⟩

def Free (separates : UInt8 → Bool) (chunk : Bytes) : Prop := ∀ char ∈ chunk, separates char = false

instance (separates : UInt8 → Bool) (chunk : Bytes) : Decidable (Free separates chunk) :=
  List.decidableBAll (separates · = false) chunk

section Chunks
variable {separates : UInt8 → Bool} {chunk rest tail : Bytes}

theorem get_chunk_free (separates : UInt8 → Bool) (tail : Bytes) :
    Free separates (getChunk separates tail).1 := by
  intro char member
  simpa using List.mem_takeWhile_imp member

theorem get_chunk_split (separates : UInt8 → Bool) (tail : Bytes) :
    tail = (getChunk separates tail).1 ++ (getChunk separates tail).2 :=
  List.takeWhile_append_dropWhile.symm

theorem get_chunk_stops {separator : UInt8}
    (stops : (getChunk separates tail).2 = separator :: rest) : separates separator = true := by
  have first := List.head?_dropWhile_not (!separates ·) tail
  rw [show tail.dropWhile (!separates ·) = separator :: rest from stops] at first
  simpa using first

theorem get_chunk_all (free : Free separates chunk) : getChunk separates chunk = (chunk, []) := by
  have kept : ∀ char ∈ chunk, (!separates char) = true := by simpa [Free] using free
  rw [getChunk, List.takeWhile_eq_self_iff.mpr kept, List.dropWhile_eq_nil_iff.mpr kept]

theorem get_chunk_at (free : Free separates chunk) {separator : UInt8}
    (stops : separates separator = true) :
    getChunk separates (chunk ++ separator :: rest) = (chunk, separator :: rest) := by
  have kept : ∀ char ∈ chunk, (!separates char) = true := by simpa [Free] using free
  rw [getChunk, List.takeWhile_append_of_pos kept, List.dropWhile_append_of_pos kept]
  simp [stops]

end Chunks

theorem from_chars_digits {text : Bytes} (digits : text.all isDigit = true) :
    (∃ value, fromChars .uint16 text = .parsed value) ↔ text ≠ [] ∧ decimal text ≤ 65535 := by
  have whole : text.takeWhile isDigit = text :=
    List.takeWhile_eq_self_iff.mpr (List.all_eq_true.mp digits)
  have bounds : IntType.min .uint16 = 0 ∧ IntType.max .uint16 = 65535 := by decide
  simp only [fromChars, IntType.signed, Bool.false_and, Bool.false_eq_true, if_false, whole,
    bounds.1, bounds.2, List.isEmpty_iff]
  by_cases none : text = []
  · simp [none]
  rw [if_neg none]
  by_cases fits : decimal text ≤ 65535
  · have range : (0 : Int) ≤ (decimal text : Int) ∧ (decimal text : Int) ≤ 65535 := by omega
    exact iff_of_true ⟨_, dif_pos range⟩ ⟨none, fits⟩
  · have range : ¬ ((0 : Int) ≤ (decimal text : Int) ∧ (decimal text : Int) ≤ 65535) := by omega
    refine iff_of_false ?_ fun both => fits both.2
    rintro ⟨value, parsed⟩
    cases (dif_neg range).symm.trans parsed

theorem chunk2port_iff (chunk : Bytes) : chunk2port chunk = true ↔ PortText chunk := by
  have short : 5 < chunk.length ↔ ¬ chunk.length ≤ 5 := Nat.not_le.symm
  unfold chunk2port
  constructor
  · intro taken
    split at taken
    · cases taken
    · split at taken
      · rename_i long _ value parsed
        obtain ⟨some, bounded⟩ := (from_chars_digits taken).mp ⟨value, parsed⟩
        exact ⟨some, Nat.not_lt.mp long, taken, bounded⟩
      · cases taken
  · intro port
    obtain ⟨value, parsed⟩ := (from_chars_digits port.digits).mpr ⟨port.some, port.bounded⟩
    rw [if_neg (Nat.not_lt.mpr port.short), parsed]
    exact port.digits

theorem PortText.free {port : Bytes} (text : PortText port) : Free isSeparator port := by
  intro char member
  have digit := List.all_eq_true.mp text.digits char member
  simp only [isDigit, Bool.and_eq_true, decide_eq_true_eq] at digit
  simp only [isSeparator, colon, slash, atSign, bracket, Bool.or_eq_false_iff, beq_eq_false_iff_ne]
  refine ⟨⟨⟨?_, ?_⟩, ?_⟩, ?_⟩ <;> rintro rfl <;> revert digit <;> decide

def Login.Simple : Login → Prop
  | .alone user => Free isSeparator user
  | .both user password => Free isSeparator user ∧ Free isSeparator password

def Address.Simple : Address → Prop
  | .plain host _ => Free isSeparator host
  | .bracketed host _ => host ≠ [] ∧ Free (· == bracketEnd) host

def Login.enter (login : Login) (res : CsParts) : CsParts :=
  { res with user := login.user, password := login.password.getD res.password }

/-- Everything a turn can do, and on what. -/
inductive Takes (connectionString tail : Bytes) (res : CsParts) : Turn → Prop
  | nothing : Takes connectionString tail res (.returned noParts)
  | environment (name : Bytes) : Takes connectionString tail res (.environment name)
  | login (login : Login) (rest : Bytes) (simple : login.Simple) (shape : tail = login.text ++ rest) :
      Takes connectionString tail res (.again rest (login.enter res))
  | colonPath (chunk path : Bytes) (free : Free isSeparator chunk)
      (shape : tail = chunk ++ colon :: slash :: path) :
      Takes connectionString tail res (.returned { res with unixSocketPath := slash :: path })
  | path (chunk path : Bytes) (free : Free isSeparator chunk) (shape : tail = chunk ++ slash :: path)
      (other : charAt path 0 ≠ colon) (nobody : res.user = []) :
      Takes connectionString tail res (.returned { res with unixSocketPath := slash :: path })
  | unix (path : Bytes) (shape : tail = ascii "unix/:" ++ path) (nobody : res.user = []) :
      Takes connectionString tail res (.returned { res with unixSocketPath := path })
  | address (address : Address) (simple : address.Simple) (port : PortText address.port)
      (shape : tail = address.text) :
      Takes connectionString tail res
        (.finished { res with port := address.port, host := address.host })
  | port (port : PortText tail) (whole : tail.length = connectionString.length) :
      Takes connectionString tail res (.finished { res with port := tail })

section Turns
variable {connectionString chunk rest tail : Bytes} {res : CsParts}

theorem turn_at {separator : UInt8} (free : Free isSeparator chunk)
    (stops : isSeparator separator = true) :
    turn connectionString (chunk ++ separator :: rest) res =
      if separator = colon then afterColon chunk rest res
      else if separator = slash then atSlash chunk (separator :: rest) res
      else if separator = bracket then afterBracket chunk rest res
      else .again rest { res with user := chunk } := by
  simp only [turn, get_chunk_at free stops]

theorem after_colon_taken (free : Free isSeparator chunk) :
    Takes connectionString (chunk ++ colon :: rest) res (afterColon chunk rest res) := by
  unfold afterColon
  split
  · rename_i first
    cases rest with
    | nil => cases first
    | cons char path =>
        obtain rfl : char = slash := first
        exact .colonPath chunk path free rfl
  · have split := get_chunk_split isSeparator rest
    have second := get_chunk_free isSeparator rest
    generalize getChunk isSeparator rest = parts at split second
    obtain ⟨chunk2, tail⟩ := parts
    cases tail with
    | nil =>
        simp only [List.append_nil] at split
        subst split
        dsimp only
        by_cases port : chunk2port rest = true
        · rw [if_pos port]
          exact .address (.plain chunk rest) free ((chunk2port_iff rest).mp port) rfl
        · rw [if_neg port]
          exact .nothing
    | cons separator tail =>
        simp only at split ⊢
        by_cases sign : separator = atSign
        · subst split sign
          rw [if_pos rfl]
          exact .login (.both chunk chunk2) tail ⟨free, second⟩ (by simp [Login.text])
        · rw [if_neg sign]
          exact .nothing

theorem at_slash_taken (free : Free isSeparator chunk) :
    Takes connectionString (chunk ++ slash :: rest) res (atSlash chunk (slash :: rest) res) := by
  have second : charAt (slash :: rest) 1 = charAt rest 0 := rfl
  unfold atSlash
  rw [second]
  split
  · rename_i first
    cases rest with
    | nil => cases first
    | cons char path =>
        obtain rfl : char = colon := first
        dsimp only [List.drop_succ_cons, List.drop_zero]
        split
        · exact .environment _
        · split
          · exact .nothing
          · split
            · exact .nothing
            · rename_i same nobody
              obtain rfl := not_not.mp same
              exact .unix path rfl (not_not.mp nobody)
  · rename_i other
    split
    · exact .nothing
    · rename_i nobody
      exact .path chunk rest free rfl other (not_not.mp nobody)

theorem after_bracket_taken (free : Free isSeparator chunk) :
    Takes connectionString (chunk ++ bracket :: rest) res (afterBracket chunk rest res) := by
  unfold afterBracket
  split
  · exact .nothing
  · rename_i none
    obtain rfl := not_not.mp none
    have split := get_chunk_split (· == bracketEnd) rest
    have inner := get_chunk_free (· == bracketEnd) rest
    generalize getChunk (· == bracketEnd) rest = parts at split inner
    obtain ⟨host, tail⟩ := parts
    simp only at split inner ⊢
    split
    · exact .nothing
    · rename_i some
      rw [not_or, not_not] at some
      cases tail with
      | nil => cases some.2
      | cons char tail =>
          obtain rfl : char = bracketEnd := some.2
          split
          · exact .nothing
          · rename_i more
            rw [not_or, not_not] at more
            cases tail with
            | nil => exact absurd rfl more.1
            | cons char port =>
                obtain rfl : char = colon := more.2
                split
                · rename_i taken
                  subst split
                  exact .address (.bracketed host port) ⟨some.1, inner⟩
                    ((chunk2port_iff port).mp taken) rfl
                · exact .nothing

theorem turn_taken : Takes connectionString tail res (turn connectionString tail res) := by
  have split := get_chunk_split isSeparator tail
  have free := get_chunk_free isSeparator tail
  cases found : (getChunk isSeparator tail).2 with
  | nil =>
      rw [found, List.append_nil] at split
      unfold turn
      rw [found, ← split]
      dsimp only
      split
      · rename_i whole
        exact .port ((chunk2port_iff tail).mp whole.2) whole.1
      · exact .nothing
  | cons separator rest =>
      have stops := get_chunk_stops found
      rw [found] at split
      generalize (getChunk isSeparator tail).1 = chunk at split free
      subst split
      rw [turn_at free stops]
      split
      · rename_i same
        subst same
        exact after_colon_taken free
      · split
        · rename_i same
          subst same
          exact at_slash_taken free
        · split
          · rename_i same
            subst same
            exact after_bracket_taken free
          · rename_i other third fourth
            obtain rfl : separator = atSign := by
              simpa [isSeparator, other, third, fourth] using stops
            exact .login (.alone chunk) rest free (by simp [Login.text])

/-! What the parts of an accepted string do to the parser. -/

theorem first_other (free : Free isSeparator chunk) {next : UInt8} (other : next ≠ slash) :
    charAt (chunk ++ next :: rest) 0 ≠ slash := by
  cases chunk with
  | nil => exact other
  | cons char chunk =>
      have kept := free char List.mem_cons_self
      rintro same
      rw [show char = slash from same] at kept
      cases kept

theorem login_turn (login : Login) (simple : login.Simple) :
    turn connectionString (login.text ++ rest) res = .again rest (login.enter res) := by
  cases login with
  | alone user =>
      rw [Login.text, List.append_assoc, List.singleton_append, turn_at simple (by decide),
        if_neg (by decide), if_neg (by decide), if_neg (by decide)]
      rfl
  | both user password =>
      rw [Login.text, List.append_assoc, List.cons_append, List.append_assoc, List.singleton_append,
        turn_at simple.1 (by decide), if_pos rfl, afterColon,
        if_neg (first_other simple.2 (by decide)), get_chunk_at simple.2 (by decide)]
      rfl

theorem colon_path_turn (path : Bytes) (free : Free isSeparator chunk) :
    turn connectionString (chunk ++ colon :: slash :: path) res =
      .returned { res with unixSocketPath := slash :: path } := by
  have first : charAt (slash :: path) 0 = slash := rfl
  rw [turn_at free (by decide), if_pos rfl, afterColon, if_pos first]

theorem path_turn (path : Bytes) (free : Free isSeparator chunk) (other : charAt path 0 ≠ colon)
    (nobody : res.user = []) : turn connectionString (chunk ++ slash :: path) res =
      .returned { res with unixSocketPath := slash :: path } := by
  have second : charAt (slash :: path) 1 ≠ colon := other
  rw [turn_at free (by decide), if_neg (by decide), if_pos rfl, atSlash, if_neg second,
    if_neg (not_not.mpr nobody)]

theorem unix_turn (path : Bytes) (nobody : res.user = []) :
    turn connectionString (ascii "unix/:" ++ path) res =
      .returned { res with unixSocketPath := path } := by
  have free : Free isSeparator (ascii "unix") := by decide
  have second : charAt (slash :: colon :: path) 1 = colon := rfl
  rw [show ascii "unix/:" ++ path = ascii "unix" ++ slash :: colon :: path from rfl,
    turn_at free (by decide), if_neg (by decide), if_pos rfl, atSlash, if_pos second,
    if_neg (by decide), if_neg (not_not.mpr rfl), if_neg (not_not.mpr nobody)]
  rfl

theorem address_turn (address : Address) (simple : address.Simple) (port : PortText address.port) :
    turn connectionString address.text res =
      .finished { res with port := address.port, host := address.host } := by
  have taken := (chunk2port_iff address.port).mpr port
  cases address with
  | plain host port' =>
      have first : charAt port' 0 ≠ slash := by
        obtain ⟨char, rest, rfl⟩ := List.exists_cons_of_ne_nil port.some
        have kept := port.free char List.mem_cons_self
        intro same
        rw [show char = slash from same] at kept
        cases kept
      have digits : Free isSeparator port' := port.free
      rw [Address.text, turn_at simple (by decide), if_pos rfl, afterColon, if_neg first,
        get_chunk_all digits]
      exact if_pos taken
  | bracketed host port' =>
      have none : Free isSeparator ([] : Bytes) := fun _ member => by cases member
      have some : ¬ (host = [] ∨ charAt (bracketEnd :: colon :: port') 0 ≠ bracketEnd) := by
        rintro (empty | other)
        · exact simple.1 empty
        · exact other rfl
      rw [Address.text, ← List.nil_append (bracket :: _), turn_at none (by decide),
        if_neg (by decide), if_neg (by decide), if_pos rfl, afterBracket, if_neg (not_not.mpr rfl),
        get_chunk_at simple.2 (by decide)]
      dsimp only
      rw [if_neg some]
      exact if_pos taken

end Turns

def Turn.close : Turn → Option Parsed
  | .returned parts => some (.parts parts)
  | .finished parts => some (.parts (withDefaults parts))
  | .environment name => some (.environment name)
  | .again _ _ => none

def texts (logins : List Login) : Bytes := logins.flatMap Login.text

def entered (logins : List Login) (res : CsParts) : CsParts :=
  logins.foldl (fun res login => login.enter res) res

theorem Login.text_pos (login : Login) : 0 < login.text.length := by
  cases login <;> simp [Login.text]

theorem logins_short (logins : List Login) : logins.length ≤ (texts logins).length := by
  induction logins with
  | nil => exact Nat.zero_le _
  | cons login logins ih =>
      have some := login.text_pos
      simp only [texts, List.flatMap_cons, List.length_append, List.length_cons] at ih ⊢
      omega

section Loop
variable {connectionString : Bytes}

theorem loop_logins (connectionString : Bytes) (logins : List Login)
    (simple : ∀ login ∈ logins, login.Simple) (fuel : Nat) (rest : Bytes) (res : CsParts) :
    loop connectionString (logins.length + fuel) (texts logins ++ rest) res =
      loop connectionString fuel rest (entered logins res) := by
  induction logins generalizing res with
  | nil => simp [texts, entered]
  | cons login logins ih =>
      have more : (login :: logins).length + fuel = (logins.length + fuel) + 1 := by
        simp only [List.length_cons]
        omega
      have front : texts (login :: logins) ++ rest = login.text ++ (texts logins ++ rest) := by
        simp [texts]
      rw [more, front, loop, login_turn login (simple login List.mem_cons_self)]
      exact ih (fun other member => simple other (List.mem_cons_of_mem _ member)) _

theorem loop_unrolled (fuel : Nat) (tail : Bytes) (res : CsParts) (enough : tail.length < fuel) :
    ∃ logins rest, (∀ login ∈ logins, login.Simple) ∧ tail = texts logins ++ rest ∧
      (turn connectionString rest (entered logins res)).close =
        some (loop connectionString fuel tail res) := by
  induction fuel generalizing tail res with
  | zero => omega
  | succ fuel ih =>
      have taken : Takes connectionString tail res (turn connectionString tail res) := turn_taken
      cases last : turn connectionString tail res with
      | returned _ | finished _ | environment _ =>
          refine ⟨[], tail, List.forall_mem_nil _, rfl, ?_⟩
          simp [entered, last, loop, Turn.close]
      | again behind after =>
          rw [last] at taken
          cases taken with
          | login login rest simple shape =>
              have some := login.text_pos
              have shorter : behind.length < fuel := by
                rw [shape, List.length_append] at enough
                omega
              obtain ⟨logins, rest, kept, split, closed⟩ := ih behind (login.enter res) shorter
              refine ⟨login :: logins, rest, List.forall_mem_cons.mpr ⟨simple, kept⟩, ?_, ?_⟩
              · rw [shape, split]
                simp [texts]
              · rw [loop, last]
                exact closed

theorem parse_unrolled (connectionString : Bytes) :
    ∃ logins rest, (∀ login ∈ logins, login.Simple) ∧ connectionString = texts logins ++ rest ∧
      (turn connectionString rest (entered logins noParts)).close =
        some (parseText connectionString) := by
  have whole : parseText connectionString =
      loop connectionString (connectionString.length + 1) connectionString noParts := by
    unfold parseText
    split_ifs with none
    · subst none
      rfl
    · rfl
  rw [whole]
  exact loop_unrolled _ connectionString noParts (Nat.lt_succ_self _)

theorem parse_at {logins : List Login} (simple : ∀ login ∈ logins, login.Simple) {rest : Bytes}
    {parsed : Parsed} (split : connectionString = texts logins ++ rest)
    (closed : (turn connectionString rest (entered logins noParts)).close = some parsed) :
    parseText connectionString = parsed := by
  have total : connectionString.length = (texts logins).length + rest.length := by
    rw [split, List.length_append]
  have short := logins_short logins
  have fuel : connectionString.length + 1 =
      logins.length + ((connectionString.length - logins.length) + 1) := by omega
  have last : loop connectionString (connectionString.length + 1) connectionString noParts =
      parsed := by
    have unrolled := loop_logins connectionString logins simple
      (connectionString.length - logins.length + 1) rest noParts
    rw [← fuel, ← split] at unrolled
    rw [unrolled, loop]
    cases found : turn connectionString rest (entered logins noParts) with
    | again _ _ => simp [found, Turn.close] at closed
    | returned _ | finished _ | environment _ =>
        rw [found] at closed
        exact Option.some.inj closed
  unfold parseText
  split_ifs with none
  · subst none
    exact last
  · exact last

end Loop

def lastUser (logins : List Login) : Bytes := logins.foldl (fun _ login => login.user) []

def lastPassword (logins : List Login) : Bytes :=
  logins.foldl (fun last login => login.password.getD last) []

/-- What stands behind the logins makes the parser leave a part of the string out. -/
inductive Dropped (logins : List Login) : Bytes → Prop
  | colonPath (chunk path : Bytes) (free : Free isSeparator chunk) :
      Dropped logins (chunk ++ colon :: slash :: path)
  | path (chunk path : Bytes) (free : Free isSeparator chunk) (other : charAt path 0 ≠ colon)
      (nobody : lastUser logins = []) (before : logins ≠ [] ∨ chunk ≠ []) :
      Dropped logins (chunk ++ slash :: path)
  | unix (path : Bytes) (nobody : lastUser logins = []) (before : logins ≠ [])
      (some : path ≠ [] ∨ lastPassword logins ≠ []) : Dropped logins (ascii "unix/:" ++ path)
  | address (address : Address) (simple : address.Simple) (port : PortText address.port)
      (twice : 2 ≤ logins.length) : Dropped logins address.text

def Drops (connectionString : Bytes) : Prop :=
  ∃ logins rest, (∀ login ∈ logins, login.Simple) ∧ connectionString = texts logins ++ rest ∧
    Dropped logins rest

theorem entered_parts (logins : List Login) :
    entered logins noParts = ⟨[], lastUser logins, lastPassword logins, [], []⟩ := by
  have general : ∀ user password, entered logins ⟨[], user, password, [], []⟩ =
      ⟨[], logins.foldl (fun _ login => login.user) user,
        logins.foldl (fun last login => login.password.getD last) password, [], []⟩ := by
    induction logins with
    | nil => exact fun _ _ => rfl
    | cons login logins ih => exact fun _ password => ih login.user (login.password.getD password)
  exact general [] []

theorem Free.count {chunk : Bytes} (free : Free isSeparator chunk) : chunk.count atSign = 0 := by
  apply List.count_eq_zero.mpr
  intro member
  cases free atSign member

theorem login_count (login : Login) : login.text.count atSign =
    login.user.count atSign + (login.password.getD []).count atSign + 1 := by
  cases login with
  | alone user => simp [Login.text, Login.user, Login.password]
  | both user password =>
      have sign : colon ≠ atSign := by decide
      simp [Login.text, Login.user, Login.password, sign, Nat.add_assoc]

theorem Login.Simple.count {login : Login} (simple : login.Simple) :
    login.text.count atSign = 1 := by
  rw [login_count]
  cases login with
  | alone user => rw [Login.user, Free.count simple]; rfl
  | both user password =>
      rw [Login.user, Login.password, Option.getD_some, Free.count simple.1, Free.count simple.2]

theorem logins_count (logins : List Login) (simple : ∀ login ∈ logins, login.Simple) :
    (texts logins).count atSign = logins.length := by
  induction logins with
  | nil => rfl
  | cons login logins ih =>
      have first := (simple login List.mem_cons_self).count
      have rest := ih fun other member => simple other (List.mem_cons_of_mem _ member)
      rw [texts] at rest ⊢
      rw [List.flatMap_cons, List.count_append, first, rest, List.length_cons, Nat.add_comm]

theorem address_count (address : Address) (port : PortText address.port) :
    address.text.count atSign = address.host.count atSign := by
  have digits := port.free.count
  have signs : colon ≠ atSign ∧ bracket ≠ atSign ∧ bracketEnd ≠ atSign := by decide
  cases address <;>
    simp only [Address.port] at digits <;>
    simp [Address.text, Address.host, digits, signs]

theorem or_else_count {default one other : Bytes} (none : default.count atSign = 0)
    (same : orElse one default = orElse other default) :
    other.count atSign ≤ one.count atSign := by
  unfold orElse at same
  split_ifs at same with first second second
  · simp [second]
  · rw [← same, none]
    exact Nat.zero_le _
  · simp [second]
  · rw [same]

theorem no_slash {logins : List Login} (simple : ∀ login ∈ logins, login.Simple) {chunk : Bytes}
    (free : Free isSeparator chunk) : slash ∉ texts logins ++ chunk := by
  intro member
  rcases List.mem_append.mp member with inside | behind
  · obtain ⟨login, among, found⟩ := List.mem_flatMap.mp inside
    have kept := simple login among
    cases login with
    | alone user =>
        rcases List.mem_append.mp found with early | late
        · cases kept slash early
        · cases List.mem_singleton.mp late
    | both user password =>
        rcases List.mem_append.mp found with early | late
        · cases kept.1 slash early
        · rcases List.mem_cons.mp late with sign | late
          · cases sign
          · rcases List.mem_append.mp late with inner | late
            · cases kept.2 slash inner
            · cases List.mem_singleton.mp late
  · cases free slash behind

section Accepted
variable {connectionString : Bytes} {logins : List Login} {rest : Bytes} {parts : CsParts}

theorem kept_spells (split : connectionString = texts logins ++ rest)
    (closed : (turn connectionString rest (entered logins noParts)).close = some (.parts parts))
    (kept : ¬ Dropped logins rest) : parts = noParts ∨ Spells connectionString parts := by
  have taken : Takes connectionString rest (entered logins noParts)
    (turn connectionString rest (entered logins noParts)) := turn_taken
  rw [entered_parts] at taken closed
  generalize turn connectionString rest _ = last at taken closed
  cases taken with
  | nothing =>
      cases closed
      exact .inl rfl
  | environment _ => cases closed
  | login _ _ _ _ => cases closed
  | colonPath chunk path free shape =>
      subst shape
      exact absurd (.colonPath chunk path free) kept
  | path chunk path free shape other nobody =>
      have nobody : lastUser logins = [] := nobody
      subst shape
      cases closed
      by_cases before : logins ≠ [] ∨ chunk ≠ []
      · exact absurd (.path chunk path free other nobody before) kept
      · rw [not_or, not_not, not_not] at before
        obtain ⟨rfl, rfl⟩ := before
        subst split
        exact .inr (.path (slash :: path))
  | unix path shape nobody =>
      have nobody : lastUser logins = [] := nobody
      subst shape
      cases closed
      by_cases before : logins = []
      · subst before split
        exact .inr (.unix path)
      · by_cases some : path ≠ [] ∨ lastPassword logins ≠ []
        · exact absurd (.unix path nobody before some) kept
        · rw [not_or, not_not, not_not] at some
          rw [nobody, some.1, some.2]
          exact .inl rfl
  | address address simple port shape =>
      subst shape
      cases closed
      -- an address may have one login; a second one overwrites the first
      match logins, split, kept with
      | [], split, _ =>
          subst split
          exact .inr (.address address port)
      | [login], split, _ =>
          have whole : connectionString = login.text ++ address.text := by simp [split, texts]
          subst whole
          exact .inr (.login login address port)
      | first :: second :: others, _, kept =>
          exact absurd (.address address simple port (by simp)) kept
  | port port whole =>
      cases closed
      -- the turn takes the whole string for a port, so there was no login before it
      have short := logins_short logins
      have none : logins = [] := by
        apply List.eq_nil_of_length_eq_zero
        rw [split, List.length_append] at whole
        omega
      have same : connectionString = rest := by rw [split, none, texts, List.flatMap_nil, List.nil_append]
      rw [same, none]
      exact .inr (.port rest port)

/-! No spelling has anything in front of a path. -/

theorem path_not_spelled {front path user password : Bytes} (some : front ≠ [])
    (free : slash ∉ front) :
    ¬ Spells (front ++ slash :: path) ⟨slash :: path, user, password, [], []⟩ := by
  intro spells
  generalize whole : front ++ slash :: path = text at spells
  generalize result : CsParts.mk (slash :: path) user password [] [] = parts at spells
  cases spells with
  | unix other =>
      cases result
      have same : front = ascii "unix/:" := List.append_cancel_right whole
      rw [same] at free
      exact free (by decide)
  | path =>
      cases result
      exact some (List.append_left_eq_self.mp whole)
  | port | address | login => cases result

theorem unix_not_spelled {front path password : Bytes} (some : front ≠ []) :
    ¬ Spells (front ++ (ascii "unix/:" ++ path)) ⟨path, [], password, [], []⟩ := by
  intro spells
  generalize whole : front ++ (ascii "unix/:" ++ path) = text at spells
  generalize result : CsParts.mk path [] password [] [] = parts at spells
  cases spells with
  | unix other =>
      cases result
      exact some (List.append_left_eq_self.mp whole)
  | path =>
      cases result
      have longer := congrArg List.length whole
      simp only [List.length_append] at longer
      have six : (ascii "unix/:").length = 6 := by decide
      omega
  | port text port | address address port | login login address port =>
      exact port.some (congrArg CsParts.port result).symm

theorem address_not_spelled {address : Address} {user password : Bytes}
    (simple : ∀ login ∈ logins, login.Simple) (twice : 2 ≤ logins.length)
    (port : PortText address.port) (named : user.count atSign = 0)
    (hidden : password.count atSign = 0) :
    ¬ Spells (texts logins ++ address.text)
      ⟨[], orElse user Conn.guest, password, orElse address.host localhost, address.port⟩ := by
  intro spells
  have signs : (texts logins ++ address.text).count atSign =
      logins.length + address.host.count atSign := by
    rw [List.count_append, logins_count logins simple, address_count address port]
  generalize texts logins ++ address.text = text at spells signs
  generalize result : CsParts.mk [] _ _ _ _ = parts at spells
  cases spells with
  | unix path | path path => exact port.some (congrArg CsParts.port result)
  | port text digits =>
      have none := digits.free.count
      omega
  | address other digits =>
      have fewer := or_else_count (by decide) (congrArg CsParts.host result)
      have count := address_count other digits
      omega
  | login login other digits =>
      have fewer := or_else_count (by decide) (congrArg CsParts.host result)
      have none := or_else_count (by decide) (congrArg CsParts.user result)
      have same : password = login.password.getD [] := congrArg CsParts.password result
      have first := login_count login
      have second := address_count other digits
      rw [List.count_append, first, second, ← same] at signs
      omega

theorem last_user_count (logins : List Login) (simple : ∀ login ∈ logins, login.Simple) :
    (lastUser logins).count atSign = 0 ∧ (lastPassword logins).count atSign = 0 := by
  have general : ∀ user password : Bytes, user.count atSign = 0 → password.count atSign = 0 →
      (logins.foldl (fun _ login => login.user) user).count atSign = 0 ∧
      (logins.foldl (fun last login => login.password.getD last) password).count atSign = 0 := by
    induction logins with
    | nil => exact fun _ _ user password => ⟨user, password⟩
    | cons login logins ih =>
        intro _ password _ hidden
        have rest := fun other member => simple other (List.mem_cons_of_mem login member)
        have first := simple login List.mem_cons_self
        cases login with
        | alone user => exact ih rest user password (Free.count first) hidden
        | both user secret => exact ih rest user secret (Free.count first.1) (Free.count first.2)
  exact general [] [] rfl rfl

theorem dropped_misses (simple : ∀ login ∈ logins, login.Simple) (dropped : Dropped logins rest) :
    ∃ parts, parseText (texts logins ++ rest) = .parts parts ∧ parts ≠ noParts ∧
      ¬ Spells (texts logins ++ rest) parts := by
  have closing : ∀ parsed, (turn (texts logins ++ rest) rest
      ⟨[], lastUser logins, lastPassword logins, [], []⟩).close = some parsed →
      parseText (texts logins ++ rest) = parsed := by
    intro parsed closed
    rw [← entered_parts] at closed
    exact parse_at simple rfl closed
  -- what the parser returns is read off the last turn; that it is no spelling differs by case
  cases dropped with
  | colonPath chunk path free =>
      refine ⟨_, closing _ (congrArg Turn.close (colon_path_turn path free)), ?_, ?_⟩
      · intro same
        cases congrArg CsParts.unixSocketPath same
      · have front : texts logins ++ (chunk ++ colon :: slash :: path) =
            (texts logins ++ chunk ++ [colon]) ++ slash :: path := by simp
        rw [front]
        apply path_not_spelled (by simp)
        intro member
        rcases List.mem_append.mp member with early | late
        · exact no_slash simple free early
        · cases List.mem_singleton.mp late
  | path chunk path free other nobody before =>
      refine ⟨_, closing _ (congrArg Turn.close (path_turn path free other nobody)), ?_, ?_⟩
      · intro same
        cases congrArg CsParts.unixSocketPath same
      · rw [← List.append_assoc]
        refine path_not_spelled ?_ (no_slash simple free)
        intro none
        obtain ⟨first, second⟩ := List.append_eq_nil_iff.mp none
        have fewer := logins_short logins
        rw [first, List.length_nil, Nat.le_zero] at fewer
        rcases before with some | some
        · exact some (List.eq_nil_of_length_eq_zero fewer)
        · exact some second
  | unix path nobody before some =>
      refine ⟨_, closing _ (congrArg Turn.close (unix_turn path nobody)), ?_, ?_⟩
      · intro same
        rcases some with path | password
        · exact path (congrArg CsParts.unixSocketPath same)
        · exact password (congrArg CsParts.password same)
      · rw [nobody]
        apply unix_not_spelled
        intro none
        have fewer := logins_short logins
        rw [none, List.length_nil, Nat.le_zero] at fewer
        exact before (List.eq_nil_of_length_eq_zero fewer)
  | address address plain port twice =>
      refine ⟨_, closing _ (congrArg Turn.close (address_turn address plain port)), ?_, ?_⟩
      · intro same
        exact port.some (congrArg CsParts.port same)
      · obtain ⟨user, password⟩ := last_user_count logins simple
        exact address_not_spelled simple twice port user password

end Accepted

/-- The string refers to an environment variable. -/
def ThroughEnv (connectionString : Bytes) : Prop :=
  ∃ name, parseText connectionString = .environment name

/-- The parser gives five empty parts, or parts of which the string is a spelling,
if and only if it is not one of the strings of which something is dropped. -/
theorem drops_nothing_iff (getenv : Bytes → Option Bytes) (depth : Nat) (connectionString : Bytes)
    (direct : ¬ ThroughEnv connectionString) :
    (∃ parts, parseCs getenv (depth + 1) connectionString = some parts ∧
      (parts = noParts ∨ Spells connectionString parts)) ↔ ¬ Drops connectionString := by
  obtain ⟨logins, rest, simple, split, closed⟩ := parse_unrolled connectionString
  cases parsed : parseText connectionString with
  | environment name => exact absurd ⟨name, parsed⟩ direct
  | parts parts =>
      rw [parsed] at closed
      constructor
      · rintro ⟨found, returned, spells⟩ ⟨others, behind, plain, shape, dropped⟩
        simp only [parseCs, parsed, Option.some.injEq] at returned
        subst returned
        obtain ⟨same, given, some, misses⟩ := dropped_misses plain dropped
        rw [← shape, parsed] at given
        cases given
        rw [← shape] at misses
        exact spells.elim some misses
      · intro kept
        have nothing : ¬ Dropped logins rest := fun dropped =>
          kept ⟨logins, rest, simple, split, dropped⟩
        exact ⟨parts, by simp only [parseCs, parsed], kept_spells split closed nothing⟩

theorem drops_nothing_plain :
    (∃ parts, parseCs (fun _ => none) 1 (ascii "tnt:secret@[::1]:3301") = some parts ∧
      (parts = noParts ∨ Spells (ascii "tnt:secret@[::1]:3301") parts)) ↔
      ¬ Drops (ascii "tnt:secret@[::1]:3301") := by
  apply drops_nothing_iff
  rintro ⟨name, found⟩
  have parts : parseText (ascii "tnt:secret@[::1]:3301") =
      .parts ⟨[], ascii "tnt", ascii "secret", ascii "::1", ascii "3301"⟩ := by decide
  cases parts.symm.trans found

/-- The host in front of an absolute path is dropped. -/
theorem host_dropped :
    ∃ parts, parseCs (fun _ => none) 1 (ascii "host:/tmp/tnt") = some parts ∧
      parts.unixSocketPath = ascii "/tmp/tnt" ∧ ¬ Spells (ascii "host:/tmp/tnt") parts := by
  have misses : ¬ Spells (ascii "host:" ++ slash :: ascii "tmp/tnt")
      ⟨slash :: ascii "tmp/tnt", [], [], [], []⟩ := path_not_spelled (by decide) (by decide)
  exact ⟨{ noParts with unixSocketPath := ascii "/tmp/tnt" }, by decide, rfl, misses⟩

end CsParser
end Cpp2tnt
