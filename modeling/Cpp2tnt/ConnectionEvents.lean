import Cpp2tnt.ConnectionTurns

/-!
What one event comes to. The calls that compute nothing stand beside the
relations of the earlier functions, so that an invariant of a whole run is one
case distinction.
-/

namespace Cpp2tnt
open Imperative MessagePack

namespace Conn

inductive Turns (parseCs : Bytes → CsParts) : Event × Answers → Conn → Conn → Prop where
  | opens {answers : Answers} {delay : Int} {before after : Conn} :
      Opens parseCs answers delay before after →
      Turns parseCs (.openConnection delay, answers) before after
  | closes {answers : Answers} {handler : Bool} {delay : Int} {before : Conn} {extra : List Note} :
      phases extra = (if before.reports handler then [.closed] else []) →
      Turns parseCs (.close handler delay, answers) before
        { before.closed delay with notes := before.notes ++ extra }
  | rests {event : Event × Answers} {before after : Conn} : Quiet before after →
      Turns parseCs event before after
  | listens {answers : Answers} {callbacks : Callbacks} {timeout : Int} {before : Conn} :
      Turns parseCs (.setCallbacks callbacks timeout, answers) before
        { before with callbacks := callbacks, idleTimeout := timeout }
  | appends {answers : Answers} {bytes : Bytes} {before : Conn} :
      bytes.length ≤ before.outputBuffer.available →
      Turns parseCs (.append bytes, answers) before { before with
        outputBuffer := before.outputBuffer.push (bytes.map fun byte => ⟨byte, .caller⟩) }
  | reserves {answers : Answers} {size : Nat} {before : Conn} :
      Turns parseCs (.reserve size, answers) before
        { before with outputBuffer := before.outputBuffer.reserve size }
  | requests {answers : Answers} {encode : UInt64 → Write Unit} {before : Conn}
      {output : OwnedBuffer OutByte} :
      before.request encode = some { before with
        requestId := before.requestId + 1
        requestsIssued := before.requestsIssued + 1
        outputBuffer := output } →
      Turns parseCs (.request encode, answers) before { before with
        requestId := before.requestId + 1
        requestsIssued := before.requestsIssued + 1
        outputBuffer := output }
  | flushes {answers : Answers} {before after : Conn} : Flushes answers before after →
      Turns parseCs (.flush, answers) before after
  | processes {answers : Answers} {before : Conn} :
      Turns parseCs (.inputProcessed, answers) before (before.inputProcessed answers)
  | ticks {answers : Answers} {before after : Conn} : Ticks parseCs answers before after →
      Turns parseCs (.tick1sec, answers) before after
  | reads {answers : Answers} {before after : Conn} : Reads answers before after →
      Turns parseCs (.read, answers) before after
  | writes {answers : Answers} {before after : Conn} : Writes answers before after →
      Turns parseCs (.write, answers) before after
  | resolves {answers : Answers} {before after : Conn} : before.resolverJoinable = true →
      before.state = .addressResolving →
      Tries answers.attempts { before with resolverJoinable := false } after →
      Turns parseCs (.resolved, answers) before after
  | ignores {answers : Answers} {before : Conn} : before.resolverJoinable = true →
      before.state ≠ .addressResolving →
      Turns parseCs (.resolved, answers) before { before with resolverJoinable := false }
  | lapses {answers : Answers} {message : Bytes} {before : Conn} {notes : List Note} :
      before.resolverJoinable = true → phases notes = phases before.notes →
      Turns parseCs (.resolveFailed message, answers) before { before with
        resolverJoinable := false
        state := .disconnected
        autoreconnectTicksCounter := 0
        notes := notes }

theorem step_turns (mp : Msgpuck) (crypto : Crypto) (parseCs : Bytes → CsParts)
    (event : Event × Answers) (before after : Conn)
    (done : step mp crypto parseCs event before = some after) :
    Turns parseCs event before after := by
  obtain ⟨call, answers⟩ := event
  cases call with
  | openConnection delay => exact .opens (open_opens parseCs answers delay before after done)
  | close handler delay =>
      cases done
      obtain ⟨extra, shape, _, phase⟩ := close_shape answers handler delay before
      rw [shape]
      exact .closes phase
  | setConnectionString cs =>
      cases done
      split
      · exact .rests ⟨_, _, _, _, rfl, rfl⟩
      · exact .rests (.refl before)
  | setRequiredProto proto =>
      cases done
      exact .rests ⟨_, _, _, _, rfl, rfl⟩
  | setCallbacks callbacks timeout =>
      cases done
      exact .listens
  | append bytes =>
      simp only [step, append] at done
      split at done
      · rename_i room
        cases done
        exact .appends room
      · cases done
  | reserve size =>
      cases done
      exact .reserves
  | request encode =>
      have ran : before.request encode = some after := done
      simp only [step, request] at done
      split at done
      · cases done
        exact .requests ran
      · cases done
        exact .requests ran
      · cases done
  | flush =>
      simp only [step, Option.map_eq_some_iff] at done
      obtain ⟨flushed, ran, rfl⟩ := done
      exact .flushes (flush_flushes answers before flushed ran)
  | inputProcessed =>
      cases done
      exact .processes
  | tick1sec => exact .ticks (tick_ticks parseCs answers before after done)
  | read => exact .reads (read_reads mp crypto answers before after done)
  | write => exact .writes (write_writes answers before after done)
  | resolved =>
      simp only [step] at done
      split at done
      · rename_i joinable
        cases done
        -- a result that comes too late is for an `open()` that has been cancelled
        by_cases state : before.state = .addressResolving
        · exact .resolves joinable state (address_resolved_tries answers
            { before with resolverJoinable := false } state)
        · rw [addressResolved, if_pos state]
          exact .ignores joinable state
      · cases done
  | resolveFailed message =>
      simp only [step] at done
      split at done
      · rename_i joinable
        cases done
        exact .lapses joinable (phases_note _ _ rfl)
      · cases done

end Conn

end Cpp2tnt
