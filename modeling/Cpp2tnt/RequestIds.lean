import Cpp2tnt.ConnectionControl
import Cpp2tnt.SessionStart

/-!
SYNC values. `close()` zeroes the counter before it looks for a socket and clears
the buffers only if there is one. `Issued` ties the number of a request to its
SYNC; it lasts as long as no close without a socket leaves a request behind.
-/

namespace Cpp2tnt
open Imperative MessagePack Transition

/-- A byte of the request with this number and this SYNC. -/
def OutByte.Carries (serial : Nat) (sync : UInt64) (byte : OutByte) : Prop :=
  byte.origin = .request serial sync ∨ byte.origin = .handshake serial sync

namespace Conn

def buffered (conn : Conn) : List OutByte :=
  conn.sendBuffer.buffer.content ++ conn.outputBuffer.content

/-- Held in a buffer, or sent on the current socket session. -/
def live (conn : Conn) : List OutByte :=
  (if conn.socket then conn.accepted else []) ++ conn.buffered

def NoRequests (bytes : List OutByte) : Prop :=
  ∀ byte ∈ bytes, ∀ serial sync, ¬ byte.Carries serial sync

def Issued (conn : Conn) : Prop :=
  ∀ byte ∈ conn.live, ∀ serial sync, byte.Carries serial sync →
    sync.toNat < conn.requestId.toNat ∧
      serial + conn.requestId.toNat = conn.requestsIssued + sync.toNat

section Outcomes
variable {before middle after : Conn}

theorem live_open (socket : before.socket = true) : before.live = before.held := by
  rw [live, if_pos socket, held, buffered, List.append_assoc]

theorem live_closed (socket : before.socket = false) : before.live = before.buffered := by
  rw [live, socket]
  rfl

theorem buffered_live (conn : Conn) : conn.buffered ⊆ conn.live := List.subset_append_right _ _

theorem none_issued (none : NoRequests after.live) : Issued after := by
  intro byte member serial sync carries
  exact absurd carries (none byte member serial sync)

structure Keeps (before after : Conn) : Prop where
  id : after.requestId = before.requestId
  issued : after.requestsIssued = before.requestsIssued
  live : after.live ⊆ before.live

theorem Keeps.refl (conn : Conn) : Keeps conn conn := ⟨rfl, rfl, List.Subset.refl _⟩

theorem Keeps.trans (left : Keeps before middle) (right : Keeps middle after) :
    Keeps before after :=
  ⟨right.id.trans left.id, right.issued.trans left.issued, List.Subset.trans right.live left.live⟩

theorem keeps_issued (keeps : Keeps before after) (issued : Issued before) : Issued after := by
  intro byte member
  rw [keeps.id, keeps.issued]
  exact issued byte (keeps.live member)

theorem quiet_keeps (quiet : Quiet before after) : Keeps before after := by
  obtain ⟨_, _, _, _, rfl, _⟩ := quiet
  exact ⟨rfl, rfl, List.Subset.refl _⟩

theorem input_keeps (input : InputOnly before after) : Keeps before after := by
  obtain ⟨_, _, _, _, _, _, rfl, _⟩ := input
  exact ⟨rfl, rfl, List.Subset.refl _⟩

theorem moved_keeps (moved : Moved before after) (socket : before.socket = true) :
    Keeps before after := by
  obtain ⟨id, issued, same⟩ : after.requestId = before.requestId ∧
      after.requestsIssued = before.requestsIssued ∧ after.socket = before.socket := by
    obtain ⟨_, _, _, _, _, _, _, rfl, _⟩ := moved.output
    exact ⟨rfl, rfl, rfl⟩
  refine ⟨id, issued, ?_⟩
  rw [live_open socket, live_open (same.trans socket)]
  exact moved.held

/-- What a close leaves: nothing, or without a socket both buffers. -/
structure Resets (before after : Conn) : Prop where
  left : after.live ⊆ before.buffered
  cleared : before.socket = true → after.live = []

theorem closed_resets (delay ticks : Int) (notes : List Note) (conn : Conn) :
    Resets conn { conn.closed delay with autoreconnectTicksCounter := ticks, notes := notes } := by
  cases socket : conn.socket with
  | true =>
      have cut : conn.closed delay = (conn.reset delay).dropSocket := if_pos socket
      have nothing : ({ conn.closed delay with
          autoreconnectTicksCounter := ticks
          notes := notes } : Conn).live = [] := by
        rw [cut]
        rfl
      refine ⟨?_, fun _ => nothing⟩
      rw [nothing]
      exact List.nil_subset _
  | false =>
      have same : conn.closed delay = conn.reset delay := if_neg (ne_true_of_eq_false socket)
      refine ⟨?_, fun opened => absurd opened (ne_true_of_eq_false socket)⟩
      have left : ({ conn.reset delay with
          autoreconnectTicksCounter := ticks
          notes := notes } : Conn).live = conn.buffered := live_closed socket
      rw [same, left]
      exact List.Subset.refl _

theorem failed_resets {handler : Bool} (failed : FailedBy handler before after) :
    Resets before after := by
  obtain ⟨extra, rfl, _⟩ := failed
  exact closed_resets 0 0 (before.notes ++ extra) before

/-- No id is taken, or the ids start again; `offline` tells when that happens
without a socket. -/
def Settles (offline : Prop) (before after : Conn) : Prop :=
  Keeps before after ∨ Resets before after ∧ (before.socket = false → offline)

theorem settles_issued {offline : Prop} (settles : Settles offline before after)
    (spared : before.socket = false → offline → NoRequests before.buffered)
    (issued : Issued before) : Issued after := by
  rcases settles with keeps | ⟨resets, alone⟩
  · exact keeps_issued keeps issued
  · apply none_issued
    cases socket : before.socket with
    | true =>
        rw [resets.cleared socket]
        exact nofun
    | false =>
        intro byte member
        exact spared socket (alone socket) byte (resets.left member)

theorem Settles.behind {offline : Prop} (settles : Settles offline middle after)
    (keeps : Keeps before middle) (buffers : middle.buffered ⊆ before.buffered)
    (socket : middle.socket = before.socket) : Settles offline before after := by
  rcases settles with kept | ⟨resets, alone⟩
  · exact .inl (keeps.trans kept)
  · refine .inr ⟨⟨List.Subset.trans resets.left buffers, ?_⟩, ?_⟩
    · rw [← socket]
      exact resets.cleared
    · rw [← socket]
      exact alone

theorem Settles.mono {offline other : Prop} (settles : Settles offline before after)
    (implied : before.socket = false → offline → other) : Settles other before after := by
  rcases settles with keeps | ⟨resets, alone⟩
  · exact .inl keeps
  · exact .inr ⟨resets, fun socket => implied socket (alone socket)⟩

theorem issue_issued (issued : Issued before) (id : after.requestId = before.requestId + 1)
    (count : after.requestsIssued = before.requestsIssued + 1)
    (unwrapped : before.requestId.toNat + 1 < 2 ^ 64)
    (live : ∀ byte ∈ after.live, (∃ old ∈ before.live, old.origin = byte.origin) ∨
      byte.origin = .request before.requestsIssued before.requestId ∨
      byte.origin = .handshake before.requestsIssued before.requestId) : Issued after := by
  have next : after.requestId.toNat = before.requestId.toNat + 1 := by
    rw [id, UInt64.toNat_add]
    exact Nat.mod_eq_of_lt unwrapped
  intro byte member serial sync carries
  rw [next, count]
  rcases live byte member with ⟨old, known, same⟩ | own
  · have kept : old.Carries serial sync := by
      rw [OutByte.Carries, same]
      exact carries
    obtain ⟨less, apart⟩ := issued old known serial sync kept
    omega
  · obtain ⟨rfl, rfl⟩ : before.requestsIssued = serial ∧ before.requestId = sync := by
      rcases own with own | own <;> rcases carries with asked | asked <;>
        · rw [own] at asked
          cases asked
          try exact ⟨rfl, rfl⟩
    omega

theorem session_keeps (mode : WatchMode) (conn : Conn) :
    Keeps conn (conn.trying.startSession mode) :=
  ⟨rfl, rfl, conn.buffered_live⟩

theorem refused_settles (answers : Answers) (conn : Conn) :
    Settles True conn (conn.connectTo answers .refused).reconnectSoon := by
  have resets := failed_resets (refused_failed answers conn)
  exact .inr ⟨⟨resets.left, resets.cleared⟩, fun _ => trivial⟩

def Refuses : List Attempt → Prop
  | [] => False
  | .noSocket :: rest => Refuses rest
  | attempt :: _ => attempt = .refused

theorem connect_loop_settles (answers : Answers) (attempts : List Attempt) (conn : Conn) :
    Settles (Refuses attempts) conn (connectLoop answers attempts conn) := by
  -- addresses without a socket are passed over, the first other one decides
  induction attempts generalizing conn with
  | nil => exact .inl ⟨rfl, rfl, List.Subset.refl _⟩
  | cons attempt attempts ih =>
      cases attempt with
      | noSocket =>
          have reported := quiet_keeps (conn.error_quiet [] .system 0)
          exact (ih (conn.handleError [] .system 0)).behind reported (List.Subset.refl _) rfl
      | established => exact .inl (session_keeps .read conn)
      | inProgress => exact .inl ((session_keeps .write conn).trans ⟨rfl, rfl, List.Subset.refl _⟩)
      | refused =>
          have settles : Settles (Refuses (.refused :: attempts)) conn
              (conn.connectTo answers .refused).reconnectSoon :=
            (refused_settles answers conn).mono fun _ _ => rfl
          rw [connect_loop_refused]
          exact settles

/-- `open()` is about to connect to a unix socket. -/
structure OpensUnix (parseCs : Bytes → CsParts) (delay : Int) (conn : Conn) : Prop where
  state : conn.state = .disconnected
  now : delay ≤ 0
  joined : conn.resolverJoinable = false
  host : (parseCs conn.currentCs).host = []
  path : (parseCs conn.currentCs).unixSocketPath ≠ []

theorem open_settles (parseCs : Bytes → CsParts) (answers : Answers) (delay : Int)
    (conn after : Conn) (done : conn.openConnection parseCs answers delay = some after) :
    Settles (conn.OpensUnix parseCs delay ∧ answers.attempts.headD .refused = .refused) conn
      after := by
  have prepared : Keeps conn (conn.prepared parseCs) := ⟨rfl, rfl, List.Subset.refl _⟩
  rcases open_cases done with quiet | ⟨_, _, rfl⟩ |
    ⟨idle, free, now, quiet | rfl | ⟨host, path, attempt, first, made, rfl⟩⟩
  · exact .inl (quiet_keeps quiet)
  · exact .inl ⟨rfl, rfl, List.Subset.refl _⟩
  · exact .inl (prepared.trans (quiet_keeps quiet))
  · exact .inl ⟨rfl, rfl, List.Subset.refl _⟩
  · cases attempt with
    | noSocket => exact absurd rfl made
    | established => exact .inl (prepared.trans (session_keeps .read _))
    | inProgress =>
        exact .inl (prepared.trans ((session_keeps .write _).trans ⟨rfl, rfl, List.Subset.refl _⟩))
    | refused =>
        have unix : conn.OpensUnix parseCs delay := ⟨idle, not_lt.mp now, free, host, path⟩
        have settles := (refused_settles answers (conn.prepared parseCs)).behind prepared
          (List.Subset.refl _) rfl
        exact settles.mono fun _ _ => ⟨unix, first⟩

theorem writes_settles {answers : Answers} (writes : Writes answers before after)
    (socket : before.socket = true) : Settles False before after := by
  have opened : ∀ {offline : Prop}, before.socket = false → offline := by
    intro _ closed
    exact absurd socket (ne_true_of_eq_false closed)
  cases writes with
  | established => exact .inl ⟨rfl, rfl, List.Subset.refl _⟩
  | refused _ _ failed => exact .inr ⟨failed_resets failed, opened⟩
  | @sends middle _ _ moved _ ended =>
      have keeps := moved_keeps moved socket
      have same : middle.socket = before.socket := by
        obtain ⟨_, _, _, _, _, _, _, rfl, _⟩ := moved.output
        rfl
      cases ended with
      | drained | paused => exact .inl (keeps.trans ⟨rfl, rfl, List.Subset.refl _⟩)
      | failed _ _ failed =>
          have nothing := (failed_resets failed).cleared (same.trans socket)
          refine .inr ⟨⟨?_, fun _ => nothing⟩, opened⟩
          rw [nothing]
          exact List.nil_subset _

theorem launched_buffered (conn : Conn) : conn.launched.buffered ⊆ conn.buffered := by
  have moved : conn.launched.buffered = conn.outputBuffer.content := List.append_nil _
  rw [moved]
  exact List.subset_append_right _ _

theorem launched_keeps (conn : Conn) : Keeps conn conn.launched := by
  refine ⟨rfl, rfl, ?_⟩
  intro byte member
  rcases List.mem_append.mp member with sent | queued
  · exact List.mem_append_left _ sent
  · exact List.mem_append_right _ (conn.launched_buffered queued)

theorem flush_refused (answers : Answers) (conn : Conn) (socket : conn.socket = false)
    (state : conn.state ≠ .connecting) (queue : conn.sendBuffer.unsent = [])
    (offers : conn.outputBuffer.size ≠ 0) :
    conn.flush answers = some (true, ({ conn.launched with idleTicksCounter := 0 } : Conn).fail
      answers [] .system true) := by
  obtain ⟨left, offered⟩ := Nat.exists_eq_succ_of_ne_zero offers
  have length : conn.outputBuffer.content.length = left + 1 := offered
  simp [flush, write, startWrite, launched, offers, queue, state, socket, length, sendLoop]

theorem flush_settles (answers : Answers) (conn : Conn) (after : Bool × Conn)
    (idle : conn.socket = false → conn.state ≠ .connecting)
    (done : conn.flush answers = some after) :
    Settles (conn.outputBuffer.content ≠ [] ∧ conn.sendBuffer.unsent = []) conn after.2 := by
  obtain ⟨moved, reached⟩ := after
  cases flush_flushes answers conn (moved, reached) done with
  | nothing => exact .inl (.refl _)
  | marks => exact .inl ⟨rfl, rfl, List.Subset.refl _⟩
  | writes some drained writes =>
      cases socket : conn.socket with
      | true =>
          have settles := (writes_settles writes socket).behind conn.launched_keeps
            conn.launched_buffered rfl
          exact settles.mono fun closed _ => absurd socket (ne_true_of_eq_false closed)
      | false =>
          have offers : conn.outputBuffer.size ≠ 0 := fun none =>
            some (List.eq_nil_of_length_eq_zero none)
          cases done.symm.trans (flush_refused answers conn socket (idle socket) drained offers)
          have resets := failed_resets (fail_failed answers [] .system true
            ({ conn.launched with idleTicksCounter := 0 } : Conn))
          have settles : Settles (conn.outputBuffer.content ≠ [] ∧ conn.sendBuffer.unsent = [])
              conn.launched (({ conn.launched with idleTicksCounter := 0 } : Conn).fail answers []
                .system true) :=
            .inr ⟨⟨resets.left, resets.cleared⟩, fun _ => ⟨some, drained⟩⟩
          exact settles.behind conn.launched_keeps conn.launched_buffered rfl

theorem opened_tick_settles (answers : Answers) (conn after : Conn) (linked : Linked conn)
    (done : conn.openedTick answers = some after) : Settles False conn after := by
  unfold openedTick at done
  split at done
  · cases done
    exact .inl (.refl conn)
  rename_i state
  have opened : conn.socket = true := by
    rw [linked.socket, not_not.mp state]
    rfl
  have online : ∀ {offline : Prop}, conn.socket = false → offline := by
    intro _ closed
    exact absurd opened (ne_true_of_eq_false closed)
  split at done
  · simp only [Option.map_eq_some_iff] at done
    obtain ⟨flushed, ran, rfl⟩ := done
    have jam := quiet_keeps (conn.error_quiet (conn.jamReport "~~~~~ uncorked data is stuck! ~~~~~")
      .uncorkedDataJam 0)
    have flushes := flush_settles answers (conn.handleError
      (conn.jamReport "~~~~~ uncorked data is stuck! ~~~~~") .uncorkedDataJam 0) flushed
      (fun closed => online closed) ran
    have settles := flushes.behind jam (List.Subset.refl _) rfl
    have ticked := quiet_keeps flushed.2.idle_tick_quiet
    rcases settles with keeps | ⟨resets, _⟩
    · exact .inl (keeps.trans ticked)
    · refine .inr ⟨⟨List.Subset.trans ticked.live resets.left, ?_⟩, online⟩
      intro socket
      have nothing := ticked.live
      rw [resets.cleared socket] at nothing
      exact List.subset_nil.mp nothing
  · cases done
    exact .inl (quiet_keeps conn.idle_tick_quiet)

def Due (conn : Conn) : Prop :=
  0 ≤ conn.autoreconnectTicksCounter ∧
    conn.autoreconnectTimeout ≤ conn.autoreconnectTicksCounter + 1

theorem tick_settles (parseCs : Bytes → CsParts) (answers : Answers) (conn after : Conn)
    (linked : Linked conn) (done : conn.tick1sec parseCs answers = some after) :
    Settles (conn.Due ∧ (conn.state = .disconnected →
      conn.OpensUnix parseCs 0 ∧ answers.attempts.headD .refused = .refused)) conn after := by
  unfold tick1sec at done
  by_cases armed : conn.autoreconnectTicksCounter ≥ 0
  · rw [if_pos armed] at done
    simp only at done
    let ticked := { conn with autoreconnectTicksCounter := conn.autoreconnectTicksCounter + 1 }
    have counted : Keeps conn ticked := ⟨rfl, rfl, List.Subset.refl _⟩
    by_cases expired : conn.autoreconnectTicksCounter + 1 ≥ conn.autoreconnectTimeout
    · rw [if_pos expired] at done
      by_cases waiting : conn.state = .disconnected
      · rw [if_pos waiting] at done
        have settles := (open_settles parseCs answers 0 ticked after done).behind counted
          (List.Subset.refl _) rfl
        apply settles.mono
        rintro _ ⟨unix, refused⟩
        exact ⟨⟨armed, expired⟩, fun _ => ⟨⟨waiting, unix.now, unix.joined, unix.host, unix.path⟩,
          refused⟩⟩
      · rw [if_neg waiting] at done
        cases done
        obtain ⟨extra, shape, _⟩ := close_shape answers true 0 ticked
        have resets := closed_resets 0 0 (conn.notes ++ extra ++
          [.error (ascii "timeout expired") .timeout 0]) ticked
        rw [shape]
        exact .inr ⟨⟨resets.left, resets.cleared⟩, fun _ => ⟨⟨armed, expired⟩, fun closed =>
          absurd closed waiting⟩⟩
    · rw [if_neg expired] at done
      have unopened : conn.state ≠ .connected := by
        intro opened
        rw [linked.settled opened] at armed
        exact absurd armed (by decide)
      have settled : Linked ticked := ⟨linked.socket, linked.watched, linked.resolving,
        linked.joined, fun opened => absurd opened unopened⟩
      have settles := (opened_tick_settles answers ticked after settled done).behind counted
        (List.Subset.refl _) rfl
      exact settles.mono fun _ => False.elim
  · rw [if_neg armed] at done
    exact (opened_tick_settles answers conn after linked done).mono fun _ => False.elim

theorem paint_origin (origin : Origin) (old : List OutByte) (bytes : Bytes) :
    ∀ byte ∈ paint origin old bytes,
      (∃ known ∈ old, known.origin = byte.origin) ∨ byte.origin = origin := by
  induction bytes generalizing old with
  | nil =>
      cases old <;> exact nofun
  | cons first bytes ih =>
      cases old with
      | nil =>
          intro byte member
          rcases List.mem_cons.mp member with rfl | later
          · exact .inr rfl
          · exact ih [] byte later
      | cons known old =>
          intro byte member
          rcases List.mem_cons.mp member with rfl | later
          · exact .inl ⟨known, List.mem_cons_self, rfl⟩
          · rcases ih old byte later with ⟨other, inside, same⟩ | fresh
            · exact .inl ⟨other, List.mem_cons_of_mem known inside, same⟩
            · exact .inr fresh

theorem write_into_origin (origin : Origin) (encode : Write Unit) (old : OwnedBuffer OutByte)
    {left : OwnedBuffer OutByte}
    (done : writeInto origin encode old = .returned () left ∨
      ∃ error, writeInto origin encode old = .thrown error left) :
    ∀ byte ∈ left.content,
      (∃ known ∈ old.content, known.origin = byte.origin) ∨ byte.origin = origin := by
  unfold writeInto at done
  simp only at done
  split at done
  · rcases done with returned | ⟨_, thrown⟩
    · cases returned
      exact paint_origin origin _ _
    · cases thrown
  · rcases done with returned | ⟨_, thrown⟩
    · cases returned
    · cases thrown
      exact paint_origin origin _ _
  · rcases done with returned | ⟨_, thrown⟩
    · cases returned
    · cases thrown

theorem request_issued (encode : UInt64 → Write Unit) (issued : Issued before)
    (unwrapped : before.requestId.toNat + 1 < 2 ^ 64) (done : before.request encode = some after) :
    Issued after := by
  obtain ⟨left, rfl, written⟩ : ∃ left, after = { before with
      requestId := before.requestId + 1
      requestsIssued := before.requestsIssued + 1
      outputBuffer := left } ∧
      (writeInto (.request before.requestsIssued before.requestId) (encode before.requestId)
          before.outputBuffer = .returned () left ∨
        ∃ error, writeInto (.request before.requestsIssued before.requestId)
          (encode before.requestId) before.outputBuffer = .thrown error left) := by
    unfold request at done
    simp only at done
    split at done
    · rename_i wrote
      exact ⟨_, (Option.some.inj done).symm, .inl wrote⟩
    · rename_i wrote
      exact ⟨_, (Option.some.inj done).symm, .inr ⟨_, wrote⟩⟩
    · cases done
  have origins := write_into_origin _ _ _ written
  apply issue_issued issued rfl rfl unwrapped
  intro byte member
  rcases List.mem_append.mp member with sent | held
  · exact .inl ⟨byte, List.mem_append_left _ sent, rfl⟩
  rcases List.mem_append.mp held with queued | output
  · exact .inl ⟨byte, before.buffered_live (List.mem_append_left _ queued), rfl⟩
  · rcases origins byte output with ⟨known, inside, same⟩ | own
    · exact .inl ⟨known, before.buffered_live (List.mem_append_right _ inside), same⟩
    · exact .inr (.inl own)

theorem appended_issued (bytes : Bytes) (issued : Issued before) : Issued { before with
    outputBuffer := before.outputBuffer.push (bytes.map fun byte => ⟨byte, .caller⟩) } := by
  intro byte member serial sync carries
  rcases List.mem_append.mp member with sent | held
  · exact issued byte (List.mem_append_left _ sent) serial sync carries
  rcases List.mem_append.mp held with queued | output
  · exact issued byte (before.buffered_live (List.mem_append_left _ queued)) serial sync carries
  rw [OwnedBuffer.push_content] at output
  rcases List.mem_append.mp output with kept | added
  · exact issued byte (before.buffered_live (List.mem_append_right _ kept)) serial sync carries
  · obtain ⟨_, _, rfl⟩ := List.mem_map.mp added
    rcases carries with asked | asked <;> cases asked

theorem asked_issued {send : SendBuffer} (asks : before.Asks send) (issued : Issued before)
    (unwrapped : before.requestId.toNat + 1 < 2 ^ 64)
    (id : after.requestId = before.requestId + 1)
    (count : after.requestsIssued = before.requestsIssued + 1)
    (live : after.live ⊆ before.live ++ send.buffer.content) : Issued after := by
  apply issue_issued issued id count unwrapped
  intro byte member
  rcases List.mem_append.mp (live member) with old | fresh
  · exact .inl ⟨byte, old, rfl⟩
  · exact .inr (.inr (asks.own byte fresh))

theorem replaced_live (send : SendBuffer) (same : after.socket = before.socket)
    (accepted : after.accepted = before.accepted) (queue : after.sendBuffer = send)
    (output : after.outputBuffer = before.outputBuffer) :
    after.live ⊆ before.live ++ send.buffer.content := by
  intro byte member
  rw [live, buffered, same, accepted, queue, output] at member
  rcases List.mem_append.mp member with sent | held
  · exact List.mem_append_left _ (List.mem_append_left _ sent)
  rcases List.mem_append.mp held with queued | inside
  · exact List.mem_append_right _ queued
  · exact List.mem_append_left _ (before.buffered_live (List.mem_append_right _ inside))

theorem open_writes_issued {answers : Answers} (writes : Writes answers before after)
    (socket : before.socket = true) (issued : Issued before) : Issued after :=
  settles_issued (writes_settles writes socket)
    (fun closed => absurd socket (ne_true_of_eq_false closed)) issued

theorem failed_issued {handler : Bool} (failed : FailedBy handler before after)
    (socket : before.socket = true) : Issued after := by
  apply none_issued
  rw [(failed_resets failed).cleared socket]
  exact nofun

theorem handshakes_issued {answers : Answers} (handshakes : Handshakes answers before after)
    (socket : before.socket = true) (issued : Issued before)
    (unwrapped : before.requestId.toNat + 1 < 2 ^ 64) : Issued after := by
  cases handshakes with
  | abandons lapsed failed =>
      obtain ⟨_, _, _, _, _, _, _, rfl, _⟩ := lapsed
      exact failed_issued failed socket
  | @authenticates proto code send _ _ _ _ asks writes =>
      have challenged : Issued (before.challenged proto code send) :=
        asked_issued asks issued unwrapped rfl rfl (replaced_live send rfl rfl rfl rfl)
      exact open_writes_issued writes socket challenged
  | opens => exact keeps_issued ⟨rfl, rfl, List.Subset.refl _⟩ issued

theorem reads_issued {answers : Answers} (reads : Reads answers before after)
    (issued : Issued before) (unwrapped : before.requestId.toNat + 1 < 2 ^ 64) : Issued after := by
  cases reads with
  | nothing => exact issued
  | ended receives _ failed => exact failed_issued failed receives.socket
  | waits => exact keeps_issued ⟨rfl, rfl, List.Subset.refl _⟩ issued
  | @greets buffer bytes send _ receives _ _ asks writes =>
      have greeted : Issued ((before.arrived buffer bytes).greeted send) :=
        asked_issued asks issued unwrapped rfl rfl (replaced_live send rfl rfl rfl rfl)
      exact open_writes_issued writes receives.socket greeted
  | @holds buffer bytes _ _ _ input =>
      have kept : Issued (before.arrived buffer bytes) :=
        keeps_issued ⟨rfl, rfl, List.Subset.refl _⟩ issued
      exact keeps_issued (input_keeps input) kept
  | @handshakes buffer bytes found _ receives _ input _ handshakes =>
      have kept : Issued (before.arrived buffer bytes) :=
        keeps_issued ⟨rfl, rfl, List.Subset.refl _⟩ issued
      have same : found.socket = before.socket ∧ found.requestId = before.requestId := by
        obtain ⟨_, _, _, _, _, _, rfl, _⟩ := input
        exact ⟨rfl, rfl⟩
      apply handshakes_issued handshakes (same.1.trans receives.socket)
        (keeps_issued (input_keeps input) kept)
      rw [same.2]
      exact unwrapped

end Outcomes

def ClosesOffline (parseCs : Bytes → CsParts) (conn : Conn) : Event × Answers → Prop
  | (.close _ _, _) => True
  | (.openConnection delay, answers) =>
      conn.OpensUnix parseCs delay ∧ answers.attempts.headD .refused = .refused
  | (.resolved, answers) => conn.state = .addressResolving ∧ Refuses answers.attempts
  | (.tick1sec, answers) => conn.Due ∧ (conn.state = .disconnected →
      conn.OpensUnix parseCs 0 ∧ answers.attempts.headD .refused = .refused)
  | (.flush, _) => conn.outputBuffer.content ≠ [] ∧ conn.sendBuffer.unsent = []
  | _ => False

def mayAsk : Event → Bool
  | .request _ | .read => true
  | _ => false

/-- No close without a socket while a buffer holds a request, and the counter
does not wrap. -/
structure KeepsIds (parseCs : Bytes → CsParts) (conn : Conn) (event : Event × Answers) :
    Prop where
  polled : conn.Polled event
  spared : conn.socket = false → conn.ClosesOffline parseCs event → NoRequests conn.buffered
  unwrapped : mayAsk event.1 = true → conn.requestId.toNat + 1 < 2 ^ 64

section Runs
variable (mp : Msgpuck) (crypto : Crypto) (parseCs : Bytes → CsParts)

theorem step_issued (event : Event × Answers) (before after : Conn) (linked : Linked before)
    (issued : Issued before) (admitted : before.KeepsIds parseCs event)
    (done : step mp crypto parseCs event before = some after) : Issued after := by
  have spared := admitted.spared
  have unwrapped := admitted.unwrapped
  have same : ∀ {other : Conn}, Keeps before other → Issued other := fun keeps =>
    keeps_issued keeps issued
  -- what may close is settled by its own function: the outcome alone does not say what was refused
  cases step_turns mp crypto parseCs event before after done with
  | @opens answers delay =>
      exact settles_issued (open_settles parseCs answers delay before after done) spared issued
  | @closes _ _ delay _ extra =>
      have resets := closed_resets delay (before.closed delay).autoreconnectTicksCounter
        (before.notes ++ extra) before
      exact settles_issued (.inr ⟨⟨resets.left, resets.cleared⟩, fun _ => trivial⟩) spared issued
  | rests quiet =>
      obtain ⟨_, _, _, _, rfl, _⟩ := quiet
      exact same ⟨rfl, rfl, List.Subset.refl _⟩
  | listens | reserves | ignores | lapses => exact same ⟨rfl, rfl, List.Subset.refl _⟩
  | @appends _ bytes => exact appended_issued bytes issued
  | @requests _ encode => exact request_issued encode issued (unwrapped rfl) done
  | @flushes answers =>
      simp only [step, Option.map_eq_some_iff] at done
      obtain ⟨flushed, ran, rfl⟩ := done
      have idle : before.socket = false → before.state ≠ .connecting := by
        intro closed connecting
        rw [linked.socket, connecting] at closed
        exact absurd closed Bool.noConfusion
      exact settles_issued (flush_settles answers before flushed idle ran) spared issued
  | @processes answers => exact same (input_keeps (input_processed_input answers before))
  | @ticks answers =>
      exact settles_issued (tick_settles parseCs answers before after linked done) spared issued
  | reads received => exact reads_issued received issued (unwrapped rfl)
  | writes wrote => exact open_writes_issued wrote (linked.writable admitted.polled) issued
  | @resolves answers _ _ joinable state =>
      simp only [step, if_pos joinable, addressResolved, if_neg (not_not.mpr state)] at done
      cases done
      have settles : Settles (Refuses answers.attempts) before _ :=
        (connect_loop_settles answers answers.attempts
          { before with resolverJoinable := false }).behind ⟨rfl, rfl, List.Subset.refl _⟩
          (List.Subset.refl _) rfl
      exact settles_issued (settles.mono fun _ refuses => ⟨state, refuses⟩) spared issued

theorem run_issued (cs : Bytes) (callbacks : Callbacks) (conn : Conn)
    (events : List (Event × Answers))
    (run : Run (step mp crypto parseCs) (KeepsIds parseCs) (Conn.initial cs callbacks) events conn) :
    Linked conn ∧ Issued conn := by
  have fresh : Issued (Conn.initial cs callbacks) := nofun
  apply linked_invariant mp crypto parseCs run
  · exact fun _ _ admitted => admitted.polled
  · exact fresh
  · intro before event after
    exact step_issued mp crypto parseCs event before after

/-- Whatever happens in between, two live requests with the same SYNC are the
same request. -/
theorem syncs_distinct (cs : Bytes) (callbacks : Callbacks) (conn : Conn)
    (events : List (Event × Answers))
    (run : Run (step mp crypto parseCs) (KeepsIds parseCs) (Conn.initial cs callbacks) events conn) :
    ∀ first ∈ conn.live, ∀ second ∈ conn.live, ∀ serial other sync,
      first.Carries serial sync → second.Carries other sync → serial = other := by
  obtain ⟨_, issued⟩ := run_issued mp crypto parseCs cs callbacks conn events run
  intro first inside second within serial other sync carries carried
  obtain ⟨_, left⟩ := issued first inside serial sync carries
  obtain ⟨_, right⟩ := issued second within other sync carried
  omega

end Runs

def ping : UInt64 → Write Unit := IprotoWriter.encodePingRequest reference

def pings : Event × Answers := (.request ping, {})

def noCrypto : Crypto := ⟨id, fun _ _ => []⟩

/-- A request at the end of an output buffer that has room for it. -/
structure Pinged (before after : Conn) : Prop where
  same : ∃ output, after = { before with
    requestId := before.requestId + 1
    requestsIssued := before.requestsIssued + 1
    outputBuffer := output }
  kept : before.outputBuffer.content ⊆ after.outputBuffer.content
  asked : ∃ byte ∈ after.outputBuffer.content, byte.Carries before.requestsIssued before.requestId
  room : before.outputBuffer.available ≤ after.outputBuffer.available + 64

theorem ping_queued (conn : Conn) (id : conn.requestId = 0 ∨ conn.requestId = 1)
    (room : 2048 ≤ conn.outputBuffer.available) :
    ∃ after, step reference noCrypto unixPath pings conn = some after ∧ Pinged conn after := by
  have short : (frame (Request.payload reference noCrypto conn.requestId .ping)).length ≤ 64 := by
    rcases id with zero | one
    · rw [zero]
      decide
    · rw [one]
      decide
  have emitted := ping_emitted reference_implements noCrypto conn.requestId
  obtain ⟨output, written, content, capacity⟩ := message_painted reference_implements
    (.request conn.requestsIssued conn.requestId) (ping conn.requestId) _ conn.outputBuffer emitted
    (by omega) (by omega)
  have ran : conn.request ping = some { conn with
      requestId := conn.requestId + 1
      requestsIssued := conn.requestsIssued + 1
      outputBuffer := output } := by
    unfold request
    simp only
    rw [written]
  refine ⟨_, ran, ⟨output, rfl⟩, ?_, ?_, ?_⟩
  · intro byte member
    rw [content]
    exact List.mem_append_left _ member
  · refine ⟨⟨0xce, .request conn.requestsIssued conn.requestId⟩, ?_, .inl rfl⟩
    rw [content]
    exact List.mem_append_right _ List.mem_cons_self
  · have size := congrArg List.length content
    rw [List.length_append, List.length_map] at size
    simp only [OwnedBuffer.capacity, OwnedBuffer.available] at capacity ⊢
    omega

theorem ping_keeps_ids (conn : Conn) (small : conn.requestId.toNat + 1 < 2 ^ 64) :
    conn.KeepsIds unixPath pings :=
  ⟨trivial, fun _ => False.elim, fun _ => small⟩

theorem initial_available : (Conn.initial [] acceptAll).outputBuffer.available = 2 ^ 20 :=
  OwnedBuffer.of_size_available (2 ^ 20)

theorem first_ping : ∃ one, step reference noCrypto unixPath pings (Conn.initial [] acceptAll) =
      some one ∧ one.requestId = 1 ∧ one.requestsIssued = 1 ∧
    (∃ byte ∈ one.outputBuffer.content, byte.Carries 0 0) ∧ 2048 ≤ one.outputBuffer.available ∧
    one.state = .disconnected ∧ one.socket = false ∧ one.resolverJoinable = false := by
  obtain ⟨one, ran, pinged⟩ := ping_queued (Conn.initial [] acceptAll) (.inl rfl)
    (by rw [initial_available]; decide)
  have room := pinged.room
  rw [initial_available] at room
  have asked := pinged.asked
  obtain ⟨output, rfl⟩ := pinged.same
  exact ⟨_, ran, rfl, rfl, asked, Nat.le_of_add_le_add_right (Nat.le_trans (by decide) room), rfl, rfl,
    rfl⟩

theorem syncs_distinct_offline : ∃ conn : Conn,
    (∃ byte ∈ conn.live, byte.Carries 0 0) ∧ (∃ byte ∈ conn.live, byte.Carries 1 1) ∧
    ∀ first ∈ conn.live, ∀ second ∈ conn.live, ∀ serial other sync,
      first.Carries serial sync → second.Carries other sync → serial = other := by
  obtain ⟨one, ran, id, issued, ⟨first, inside, carries⟩, room, _⟩ := first_ping
  obtain ⟨two, again, pinged⟩ := ping_queued one (.inr id) room
  obtain ⟨second, within, carried⟩ := pinged.asked
  rw [id, issued] at carried
  have small : one.requestId.toNat + 1 < 2 ^ 64 := by
    rw [id]
    decide
  have front : Run (step reference noCrypto unixPath) (KeepsIds unixPath) (Conn.initial [] acceptAll)
      [pings] one := .snoc .nil (ping_keeps_ids _ (by decide)) ran
  have run : Run (step reference noCrypto unixPath) (KeepsIds unixPath) (Conn.initial [] acceptAll)
      [pings, pings] two := .snoc front (ping_keeps_ids one small) again
  refine ⟨two, ⟨first, ?_, carries⟩, ⟨second, ?_, carried⟩, syncs_distinct _ _ _ _ _ _ _ run⟩
  · exact two.buffered_live (List.mem_append_right _ (pinged.kept inside))
  · exact two.buffered_live (List.mem_append_right _ within)

def refusedOpen : Event × Answers := (.openConnection 0, { attempts := [.refused] })

theorem unix_refused (conn : Conn) (state : conn.state = .disconnected)
    (socket : conn.socket = false) (joined : conn.resolverJoinable = false) :
    ∃ refused, step reference noCrypto unixPath refusedOpen conn = some refused ∧
      refused.requestId = 0 ∧ refused.requestsIssued = conn.requestsIssued ∧
      refused.outputBuffer = conn.outputBuffer := by
  let tried := (conn.prepared unixPath).connectTo { attempts := [.refused] } .refused
  have ran : step reference noCrypto unixPath refusedOpen conn = some tried.reconnectSoon :=
    unix_opens noCrypto .refused Attempt.noConfusion conn state joined
  obtain ⟨extra, failed, _⟩ := refused_failed { attempts := [.refused] } (conn.prepared unixPath)
  have shut : (conn.prepared unixPath).trying.closed 0 = (conn.prepared unixPath).trying.reset 0 :=
    if_neg (ne_true_of_eq_false socket)
  rw [shut] at failed
  refine ⟨_, ran, ?_⟩
  simp only [tried, failed]
  exact ⟨rfl, rfl, rfl⟩

theorem sync_taken_twice : ∃ conn : Conn,
    Run (step reference noCrypto unixPath) Polled (Conn.initial [] acceptAll)
      [pings, refusedOpen, pings] conn ∧
    ∃ first ∈ conn.live, ∃ second ∈ conn.live, first.Carries 0 0 ∧ second.Carries 1 0 := by
  obtain ⟨one, ran, _, issued, ⟨first, inside, carries⟩, room, state, socket, joined⟩ := first_ping
  obtain ⟨refused, tried, id, count, same⟩ := unix_refused one state socket joined
  obtain ⟨two, again, pinged⟩ := ping_queued refused (.inl id) (by rw [same]; exact room)
  obtain ⟨second, within, carried⟩ := pinged.asked
  rw [id, count, issued] at carried
  rw [← same] at inside
  have run : Run (step reference noCrypto unixPath) Polled (Conn.initial [] acceptAll)
      [pings, refusedOpen, pings] two :=
    .cons trivial ran (.cons trivial tried (.cons trivial again .nil))
  refine ⟨two, run, first, ?_, second, ?_, carries, carried⟩
  · exact two.buffered_live (List.mem_append_right _ (pinged.kept inside))
  · exact two.buffered_live (List.mem_append_right _ within)

end Conn

end Cpp2tnt
