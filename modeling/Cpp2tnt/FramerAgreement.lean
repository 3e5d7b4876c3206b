import Cpp2tnt.StreamEnd

/-!
The two framers. The connection takes any unsigned number for a header and adds
five to it; `iproto_message` wants `0xce` and takes an empty body for the end.
They agree on a batch as long as every message the connection completes is a
frame with a body.
-/

namespace Cpp2tnt
open Imperative MessagePack Transition

def Numbered (number : Nat) (bytes : Bytes) : Prop :=
  ∃ head rest, bytes = head ++ rest ∧ HeadEncodes (.uint number) head

def sizeOf (number : Nat) : Nat := (number + 5) % 2 ^ 64

/-- Each message the connection would complete here is a frame with a body. -/
inductive HeadersAgree (mp : Msgpuck) : Bytes → Prop where
  | short {bytes : Bytes} : bytes.length < 5 → HeadersAgree mp bytes
  | foreign {byte : UInt8} {rest : Bytes} : 5 ≤ (byte :: rest).length →
      mp.mpTypeof byte ≠ .uint → HeadersAgree mp (byte :: rest)
  | waiting {number : Nat} {bytes : Bytes} : 5 ≤ bytes.length → Numbered number bytes →
      (sizeOf number = 0 ∨ bytes.length < sizeOf number) → HeadersAgree mp bytes
  | whole {body rest : Bytes} : Sized body → HeadersAgree mp rest →
      HeadersAgree mp (frame body ++ rest)

section Headers
variable {mp : Msgpuck}

theorem Numbered.decoded (implements : Implements mp) {number : Nat} {bytes : Bytes}
    (numbered : Numbered number bytes) (more : Bytes) :
    (mp.mpDecodeUint (bytes ++ more)).1 = number := by
  obtain ⟨head, rest, rfl, encodes⟩ := numbered
  rw [List.append_assoc, implements.decodeUint _ _ _ encodes]

theorem Numbered.unique (implements : Implements mp) {first second : Nat} {bytes : Bytes}
    (left : Numbered first bytes) (right : Numbered second bytes) : first = second :=
  (left.decoded implements []).symm.trans (right.decoded implements [])

theorem Numbered.append {number : Nat} {bytes : Bytes} (numbered : Numbered number bytes)
    (more : Bytes) : Numbered number (bytes ++ more) := by
  obtain ⟨head, rest, rfl, encodes⟩ := numbered
  exact ⟨head, rest ++ more, List.append_assoc .., encodes⟩

theorem Numbered.first (implements : Implements mp) {number : Nat} {byte : UInt8} {rest : Bytes}
    (numbered : Numbered number (byte :: rest)) : mp.mpTypeof byte = .uint := by
  obtain ⟨head, tail, same, encodes⟩ := numbered
  cases head with
  | nil => exact absurd rfl encodes.ne_nil
  | cons first head =>
      rw [(List.cons.inj same).1]
      exact implements.typeof _ _ _ encodes

theorem frame_numbered (body rest : Bytes) (sized : Sized body) :
    Numbered body.length (frame body ++ rest) := by
  refine ⟨0xce :: bigEndian 4 body.length, body ++ rest, by simp [frame], ?_⟩
  exact wide_uint_head 4 0xce body.length (by simp) (by have := sized.2; omega)

theorem sized_size {body : Bytes} (sized : Sized body) : sizeOf body.length = body.length + 5 := by
  have small := sized.2
  exact Nat.mod_eq_of_lt (by omega)

end Headers

namespace Conn

def KnowsSize (orphaned : Bytes) (size : Nat) : Prop :=
  size = 0 ∨ ∃ number, 5 ≤ orphaned.length ∧ Numbered number orphaned ∧ size = sizeOf number

section Detection
variable {mp : Msgpuck} {conn : Conn} {front orphaned : Bytes}

theorem KnowsSize.append {size : Nat} (knows : KnowsSize orphaned size) (more : Bytes) :
    KnowsSize (orphaned ++ more) size := by
  rcases knows with none | ⟨number, enough, numbered, same⟩
  · exact .inl none
  · refine .inr ⟨number, ?_, numbered.append more, same⟩
    rw [List.length_append]
    exact Nat.le_add_right_of_le enough

theorem detect_numbered (implements : Implements mp) (number : Nat)
    (content : conn.receiveBuffer.content = front ++ orphaned)
    (head : conn.lastReceivedHeadOffset = front.length) (enough : 5 ≤ orphaned.length)
    (numbered : Numbered number orphaned) (knows : KnowsSize orphaned conn.detectedResponseSize) :
    conn.detectSize mp = { conn with detectedResponseSize := sizeOf number } := by
  have size := orphaned_size content head
  have header : conn.headerSize mp = some (sizeOf number) := by
    have decoded := numbered.decoded implements conn.receiveBuffer.spare
    simp only [headerSize, orphaned_storage content head]
    cases orphaned with
    | nil => exact absurd enough (by decide)
    | cons byte rest =>
        rw [List.cons_append] at decoded ⊢
        simp only [numbered.first implements, if_true, decoded, sizeOf]
  by_cases unknown : conn.detectedResponseSize = 0
  · rw [detectSize, if_pos ⟨unknown, by rw [size]; exact enough⟩, header]
  · obtain ⟨same, _, found, known⟩ := knows.resolve_left unknown
    have exact := found.unique implements numbered
    subst exact
    rw [detectSize, if_neg (fun both => unknown both.1), ← known]

theorem detect_stops (size : Nat)
    (found : conn.detectSize mp = { conn with detectedResponseSize := size })
    (content : conn.receiveBuffer.content = front ++ orphaned)
    (head : conn.lastReceivedHeadOffset = front.length)
    (few : size = 0 ∨ orphaned.length < size) :
    conn.detectResponses mp = { conn with detectedResponseSize := size } := by
  have total := orphaned_size content head
  rw [detectResponses]
  simp only [found, total]
  rw [dif_neg]
  rintro ⟨some, whole⟩
  rcases few with none | less
  · exact some none
  · exact absurd whole (Nat.not_le_of_lt less)

theorem detect_agreeing (implements : Implements mp) {bytes : Bytes}
    (agree : HeadersAgree mp bytes) (conn : Conn) (front : Bytes)
    (content : conn.receiveBuffer.content = front ++ bytes)
    (head : conn.lastReceivedHeadOffset = front.length)
    (knows : KnowsSize bytes conn.detectedResponseSize) :
    ∃ fresh kept buffer size extra, conn.detectResponses mp = { conn with
        receiveBuffer := buffer
        lastReceivedHeadOffset := (front ++ frames fresh).length
        detectedResponseSize := size
        notes := conn.notes ++ extra } ∧
      buffer.content = front ++ frames fresh ++ kept ∧ (∀ body ∈ fresh, Sized body) ∧
      KnowsSize kept size ∧ (∀ item ∈ extra, item.isQuiet) := by
  -- on the agreement: each frame that is whole moves the verge by its length
  induction agree generalizing conn front with
  | @short bytes few =>
      have unknown : conn.detectedResponseSize = 0 := by
        rcases knows with none | ⟨_, enough, _⟩
        · exact none
        · exact absurd enough (Nat.not_le_of_lt few)
      have found : conn.detectSize mp = conn := detect_short content head few
      have stops := detect_stops 0 (by rw [found, ← unknown]) content head (.inl rfl)
      refine ⟨[], bytes, conn.receiveBuffer, 0, [], ?_, ?_, by simp, .inl rfl, by simp⟩
      · rw [stops, frames_nil, List.append_nil, List.append_nil, ← head]
      · rw [frames_nil, List.append_nil]
        exact content
  | @foreign byte rest enough type =>
      have unknown : conn.detectedResponseSize = 0 := by
        rcases knows with none | ⟨_, _, numbered, _⟩
        · exact none
        · exact absurd (numbered.first implements) type
      obtain ⟨buffer, extra, found, left, _, quiet⟩ := detect_remainder implements [] 0
        (.foreign enough type) content head (.inl unknown)
      refine ⟨[], [], buffer, 0, extra, ?_, ?_, by simp, .inl rfl, quiet⟩
      · rw [found, frames_nil, List.append_nil, ← head]
      · rw [left, frames_nil, List.append_nil, List.append_nil]
  | @waiting number bytes enough numbered few =>
      have found := detect_numbered implements number content head enough numbered knows
      have stops := detect_stops (sizeOf number) found content head few
      refine ⟨[], bytes, conn.receiveBuffer, sizeOf number, [], ?_, ?_, by simp,
        .inr ⟨number, enough, numbered, rfl⟩, by simp⟩
      · rw [stops, frames_nil, List.append_nil, List.append_nil, ← head]
      · rw [frames_nil, List.append_nil]
        exact content
  | @whole body rest sized agree ih =>
      have known : conn.Knows (frame body ++ rest) := by
        rcases knows with none | ⟨number, _, numbered, same⟩
        · exact .inl none
        · have exact := numbered.unique implements (frame_numbered body rest sized)
          subst exact
          exact .inr ⟨_, frame_headed body rest sized, same.trans (sized_size sized)⟩
      have stepped := detect_whole implements body rest sized content head known
      obtain ⟨fresh, kept, buffer, size, extra, found, left, bodies, later, quiet⟩ := ih
        { conn with
          lastReceivedHeadOffset := (front ++ frame body).length
          detectedResponseSize := 0 }
        (front ++ frame body) (by rw [List.append_assoc]; exact content) rfl (.inl rfl)
      refine ⟨body :: fresh, kept, buffer, size, extra, ?_, ?_, ?_, later, quiet⟩
      · rw [stepped, found, frames_cons, List.append_assoc]
      · rw [left, frames_cons]
        simp only [List.append_assoc]
      · intro other member
        rcases List.mem_cons.mp member with rfl | kept
        · exact sized
        · exact bodies other kept

end Detection

def IsFrames (batch : Bytes) : Prop :=
  ∃ group : List Bytes, (∀ body ∈ group, Sized body) ∧ batch = frames group

/-- The batches so far, and the one that waits, are frames. -/
structure Tiled (pending : List Bytes) (orphaned : Bytes) (conn : Conn) : Prop where
  content : conn.receiveBuffer.content = frames pending ++ orphaned
  head : conn.lastReceivedHeadOffset = (frames pending).length
  sized : ∀ body ∈ pending, Sized body
  knows : KnowsSize orphaned conn.detectedResponseSize
  tiled : ∀ batch ∈ batches conn.notes, IsFrames batch
  callback : conn.callbacks.response = true

section Invariant
variable {before after : Conn} {pending : List Bytes} {orphaned : Bytes}

theorem hushed_batches (hushed : Hushed before after) :
    batches after.notes = batches before.notes := by
  obtain ⟨extra, notes, quiet⟩ := hushed
  rw [notes]
  exact (quiet_same before.notes extra quiet).batches

theorem unanswered_batches (extra : List Note) (none : ∀ item ∈ extra, item.isResponse = false) :
    batches extra = [] := by
  induction extra with
  | nil => rfl
  | cons item extra ih =>
      have first := none item List.mem_cons_self
      have rest := ih fun other kept => none other (List.mem_cons_of_mem item kept)
      cases item <;> simp [Note.isResponse] at first <;> exact rest

theorem pass_tiled (answers : List ResponseAnswer) (tiled : Tiled pending orphaned before) :
    Tiled [] orphaned (before.passResponseToCaller answers) := by
  by_cases none : before.lastReceivedHeadOffset = 0
  · have empty := frames_eq_nil (List.eq_nil_of_length_eq_zero (tiled.head.symm.trans none))
    subst empty
    rw [pass_nothing answers before none]
    exact tiled
  · obtain ⟨idle, extra, passed, unanswered, _⟩ := pass_batch answers before none tiled.callback
    obtain ⟨receive, input, swapped, _⟩ := before.hand_over_swaps
    obtain ⟨batch, rest⟩ := hand_over_contents before _ _ tiled.content tiled.head
    rw [batch] at passed
    rw [swapped] at rest passed
    rw [passed]
    refine ⟨rest, rfl, by simp, tiled.knows, ?_, tiled.callback⟩
    intro given member
    simp only [batches_append, unanswered_batches extra unanswered, List.append_nil, List.mem_append]
      at member
    rcases member with old | new
    · exact tiled.tiled given old
    · exact ⟨pending, tiled.sized, List.mem_singleton.mp new⟩

theorem cut_tiled (tiled : Tiled pending orphaned before) (buffer : OwnedBuffer UInt8)
    (tail : Bytes) (content : buffer.content = frames pending ++ tail)
    (cut : before.CutBehind buffer after) : Tiled pending [] after := by
  refine ⟨?_, ?_, tiled.sized, .inl cut.detected, ?_, cut.callback tiled.callback⟩
  · rw [cut.receive, tiled.head, cut_content buffer _ tail content, List.append_nil]
  · rw [cut.head]
    exact tiled.head
  · rw [hushed_batches cut.hushed]
    exact tiled.tiled

theorem aside_tiled (tiled : Tiled pending orphaned before) (aside : Aside before after)
    (hushed : Hushed before after) : ∃ kept, Tiled pending kept after := by
  cases aside.kept with
  | cut receive detected socket =>
      exact ⟨[], cut_tiled tiled before.receiveBuffer orphaned tiled.content
        (aside.cutBehind hushed receive detected socket)⟩
  | same receive detected _ =>
      refine ⟨orphaned, ?_, ?_, tiled.sized, ?_, ?_, aside.callback tiled.callback⟩
      · rw [receive]
        exact tiled.content
      · rw [aside.head]
        exact tiled.head
      · rw [detected]
        exact tiled.knows
      · rw [hushed_batches hushed]
        exact tiled.tiled

variable {mp : Msgpuck} (crypto : Crypto)

theorem read_tiled (implements : Implements mp) (answers : Answers)
    (tiled : Tiled pending orphaned before) (takes : before.TakesResponses)
    (socket : before.socket = true) (ongoing : before.meetsEnd answers = false)
    (agree : HeadersAgree mp (before.orphaned ++ before.arriving answers))
    (ran : before.read mp crypto answers = some after) :
    ∃ pending' orphaned', Tiled pending' orphaned' after := by
  have left : before.orphaned = orphaned := by
    rw [Conn.orphaned, tiled.content, tiled.head, List.drop_left]
  rw [left] at agree
  obtain ⟨buffer, content, _, shape⟩ := read_goes_on mp crypto answers before takes socket ongoing
  rw [tiled.content, List.append_assoc] at content
  obtain ⟨fresh, kept, last, size, extra, found, rest, sized, knows, quiet⟩ := detect_agreeing
    implements agree ({ before with idleTicksCounter := 0 }.taken buffer (before.arriving answers))
    (frames pending) content tiled.head (tiled.knows.append _)
  have grown : Tiled (pending ++ fresh) kept (({ before with idleTicksCounter := 0 }.taken buffer
      (before.arriving answers)).detectResponses mp) := by
    rw [found]
    refine ⟨?_, ?_, ?_, knows, ?_, tiled.callback⟩
    · rw [frames_append]
      exact rest
    · rw [frames_append]
    · intro body member
      rcases List.mem_append.mp member with old | new
      · exact tiled.sized body old
      · exact sized body new
    · change ∀ batch ∈ batches (before.notes ++ extra), IsFrames batch
      rw [(quiet_same before.notes extra quiet).batches]
      exact tiled.tiled
  cases ran.symm.trans shape
  by_cases idle : before.callerIdle = true
  · rw [if_pos idle]
    exact ⟨_, _, pass_tiled answers.responses grown⟩
  · rw [if_neg idle]
    exact ⟨_, _, grown⟩

theorem processed_tiled (answers : Answers) (tiled : Tiled pending orphaned before) :
    Tiled [] orphaned (before.inputProcessed answers) := by
  have released : Tiled pending orphaned before.releaseInput := by
    refine ⟨tiled.content, tiled.head, tiled.sized, tiled.knows, ?_, tiled.callback⟩
    simp only [releaseInput, note, batches_append]
    exact (List.append_nil (batches before.notes)).symm ▸ tiled.tiled
  exact pass_tiled answers.responses released

end Invariant

/-- In a read that goes on, each message that gets complete is a frame with a body. -/
def ReadsFrames (mp : Msgpuck) (parseCs : Bytes → CsParts) (conn : Conn)
    (event : Event × Answers) : Prop :=
  conn.UntilReopened parseCs event ∧
    (event.1 = .read → conn.socket = true → conn.meetsEnd event.2 = false →
      HeadersAgree mp (conn.orphaned ++ conn.arriving event.2))

section Runs
variable {mp : Msgpuck} (crypto : Crypto) (parseCs : Bytes → CsParts)

theorem step_tiled (implements : Implements mp) (event : Event × Answers) (before after : Conn)
    (takes : before.TakesResponses) (admitted : before.ReadsFrames mp parseCs event)
    (done : step mp crypto parseCs event before = some after)
    (tiled : ∃ pending orphaned, Tiled pending orphaned before) :
    ∃ pending orphaned, Tiled pending orphaned after := by
  obtain ⟨pending, orphaned, tiled⟩ := tiled
  obtain ⟨call, answers⟩ := event
  rcases call.input_cases with rfl | rfl | other
  · cases socket : before.socket with
    | true =>
        cases ended : before.meetsEnd answers with
        | false =>
            exact read_tiled crypto implements answers tiled takes socket ended
              (admitted.2 rfl socket ended) done
        | true =>
            obtain ⟨buffer, content, _, cut, _⟩ := end_cuts mp crypto answers before after socket
              ended done
            rw [tiled.content, List.append_assoc] at content
            exact ⟨pending, [], cut_tiled tiled buffer _ content cut⟩
    | false =>
        cases done.symm.trans (read_closed mp crypto answers before socket)
        exact ⟨pending, orphaned, tiled⟩
  · cases done
    exact ⟨[], orphaned, processed_tiled answers tiled⟩
  · obtain ⟨aside, hushed⟩ := session_step mp crypto parseCs _ before after takes admitted.1 other
      done
    obtain ⟨kept, left⟩ := aside_tiled tiled aside hushed
    exact ⟨pending, kept, left⟩

theorem run_tiled (implements : Implements mp) (start conn : Conn)
    (events : List (Event × Answers)) (listening : start.Listening)
    (run : Run (step mp crypto parseCs) (ReadsFrames mp parseCs) start events conn) :
    ∃ pending orphaned, Tiled pending orphaned conn := by
  induction run with
  | nil =>
      refine ⟨[], [], listening.content, listening.head, by simp, .inl listening.detected, ?_,
        listening.callback⟩
      rw [listening.notes]
      exact nofun
  | snoc run admitted done ih =>
      have takes := run_takes listening.takes (run.weaken fun _ _ => And.left)
      exact step_tiled crypto parseCs implements _ _ _ takes admitted done ih

/-- What is framed once is framed again: the walk over a batch ends at its end,
and the readers it hands out are the bodies of the frames the batch consists of. -/
theorem framers_agree (implements : Implements mp) (start conn : Conn)
    (events : List (Event × Answers)) (listening : start.Listening)
    (run : Run (step mp crypto parseCs) (ReadsFrames mp parseCs) start events conn) :
    ∀ batch ∈ batches conn.notes, ∃ readers reader,
      walkMessages mp batch (batch.length + 1) (MpReader.plain 0 batch.length) =
        .returned readers reader ∧
      reader.currentPos = some batch.length ∧
      batch = frames (readers.map (MpReader.slice batch)) := by
  obtain ⟨_, _, tiled⟩ := run_tiled crypto parseCs implements start conn events listening run
  intro batch member
  obtain ⟨group, sized, rfl⟩ := tiled.tiled batch member
  obtain ⟨readers, walked, slices⟩ := walk_frames implements group sized 0
    ((frames group).length + 1) (MpReader.plain 0 (frames group).length) rfl
    (congrArg some (Nat.zero_add _).symm) List.drop_zero (Nat.lt_succ_of_le (frames_length group))
  refine ⟨readers, _, walked, ?_, ?_⟩
  · exact congrArg some (Nat.zero_add _)
  · exact congrArg frames slices.symm

end Runs

theorem message_passed {mp : Msgpuck} (implements : Implements mp) (crypto : Crypto)
    (chunk : Bytes) (number : Nat) (numbered : Numbered number chunk) (enough : 5 ≤ chunk.length)
    (exact : sizeOf number = chunk.length) (short : chunk.length ≤ 1024) :
    ∃ conn, opened.read mp crypto { recvs := [.bytes chunk] } = some conn ∧
      batches conn.notes = [chunk] := by
  let answers : Answers := { recvs := [.bytes chunk] }
  have some : chunk ≠ [] := by
    rintro rfl
    exact absurd enough (by decide)
  obtain ⟨arrives, going⟩ : opened.arriving answers = chunk ∧ opened.meetsEnd answers = false :=
    opened_takes chunk some short
  obtain ⟨buffer, content, _, shape⟩ := read_goes_on mp crypto answers opened opened_listening.takes
    opened_listening.socket going
  rw [arrives] at content shape
  rw [if_pos opened_listening.idle] at shape
  let taken := { opened with idleTicksCounter := 0 }.taken buffer chunk
  have held : taken.receiveBuffer.content = [] ++ chunk := content
  have sized := detect_numbered implements number held rfl enough numbered (.inl rfl)
  let whole := { taken with lastReceivedHeadOffset := chunk.length, detectedResponseSize := 0 }
  have found : taken.detectResponses mp = whole := by
    have total : taken.receiveBuffer.size - taken.lastReceivedHeadOffset = chunk.length :=
      orphaned_size held rfl
    have all : whole.receiveBuffer.content = chunk ++ [] := content.trans (List.append_nil _).symm
    have searched : whole.detectSize mp = whole := detect_short all rfl (by decide)
    have stops := detect_stops 0 searched all rfl (.inl rfl)
    have moved : taken.lastReceivedHeadOffset + chunk.length = chunk.length := Nat.zero_add _
    rw [detectResponses]
    simp only [sized, exact, total, moved]
    rw [dif_pos ⟨Nat.ne_of_gt (Nat.lt_of_lt_of_le (by decide) enough), Nat.le_refl _⟩]
    exact stops
  rw [found] at shape
  have head : whole.lastReceivedHeadOffset ≠ 0 :=
    Nat.ne_of_gt (Nat.lt_of_lt_of_le (by decide) enough)
  obtain ⟨idle, extra, passed, unanswered, _⟩ := pass_batch answers.responses whole head
    opened_listening.callback
  have batch := (hand_over_contents whole chunk [] (content.trans (List.append_nil _).symm) rfl).1
  rw [batch] at passed
  refine ⟨_, shape, ?_⟩
  rw [passed]
  simp only [batches_append, unanswered_batches extra unanswered, List.append_nil]
  rfl

/-- Three frames in two chunks, cut inside a header; the last two wait for the
caller and come as one batch. -/
theorem framers_agree_chunks : ∃ conn : Conn,
    (batches conn.notes).flatten = frames [[0x80], [0x81, 0, 1], [0x80]] ∧
    ∀ batch ∈ batches conn.notes, ∃ readers reader,
      walkMessages reference batch (batch.length + 1) (MpReader.plain 0 batch.length) =
        .returned readers reader ∧
      reader.currentPos = some batch.length ∧
      batch = frames (readers.map (MpReader.slice batch)) := by
  let crypto : Crypto := ⟨id, fun _ _ => []⟩
  let parseCs : Bytes → CsParts := fun _ => ⟨[], [], [], [], []⟩
  let part : Bytes := [0xce, 0, 0]
  let rest : Bytes := [0, 3, 0x81, 0, 1] ++ frame [0x80]
  let first : Answers := { recvs := [.bytes (frame [0x80] ++ part)] }
  let second : Answers := { recvs := [.bytes rest] }
  have listening := opened_listening
  obtain ⟨arrives, going⟩ : opened.arriving first = frame [0x80] ++ part ∧
      opened.meetsEnd first = false := opened_takes (frame [0x80] ++ part) (by decide) (by decide)
  have split : [] ++ opened.arriving first = frames [[0x80]] ++ part := by
    rw [List.nil_append, arrives]
    rfl
  obtain ⟨busy, done, pending, began, given, flat, _, state, socket, _⟩ :=
    read_inflow reference_implements crypto first [] [] [] opened
      (listening_inflow opened listening) listening.takes listening.socket going
      [[0x80]] (by decide) part part 0 (.unfinished (.short part (by decide))) split
  have wide := read_wide reference crypto first opened busy listening.takes listening.socket
    listening.callback going opened_wide began
  have short : busy.receiveBuffer.content.length ≤ 1024 := by
    have less : (frames pending ++ part).length ≤ (frames ([] ++ [] ++ [[0x80]]) ++ part).length := by
      rw [← flat, frames_append, List.length_append, List.length_append, List.length_append]
      omega
    rw [given.content]
    exact Nat.le_trans less (by decide)
  obtain ⟨comes, goes⟩ : busy.arriving second = rest ∧ busy.meetsEnd second = false :=
    chunk_taken rest busy (by decide) (by decide) wide short
  have joined : part ++ busy.arriving second = frames [[0x81, 0, 1], [0x80]] ++ [] := by
    rw [comes]
    rfl
  obtain ⟨middle, done', pending', went, inflow, whole, _, _, _, _⟩ :=
    read_inflow reference_implements crypto second done pending part busy given (.inl (state.trans listening.state)) socket goes
      [[0x81, 0, 1], [0x80]] (by decide) [] [] 0 (.unfinished (.short [] (by decide))) joined
  have left : busy.orphaned = part := by
    rw [Conn.orphaned, given.content, given.head, List.drop_left]
  have agrees : opened.ReadsFrames reference parseCs (.read, first) := by
    refine ⟨trivial, ?_⟩
    intro _ _ _
    rw [arrives]
    exact .whole (by decide) (.short (by decide))
  have again : busy.ReadsFrames reference parseCs (.read, second) := by
    refine ⟨trivial, ?_⟩
    intro _ _ _
    rw [left, joined]
    exact .whole (by decide) (.whole (by decide) (.short (by decide)))
  let Ran (events : List (Event × Answers)) (conn : Conn) : Prop :=
    Run (step reference crypto parseCs) (ReadsFrames reference parseCs) opened events conn
  have front : Ran [(.read, first)] busy := .snoc .nil agrees began
  have more : Ran [(.read, first), (.read, second)] middle := .snoc front again went
  have run : Ran [(.read, first), (.read, second), (.inputProcessed, {})]
      (middle.inputProcessed {}) := .snoc more ⟨trivial, Event.noConfusion⟩ rfl
  refine ⟨middle.inputProcessed {}, ?_, framers_agree crypto parseCs reference_implements opened _ _
    listening run⟩
  obtain ⟨groups, sent, all, _⟩ := (input_processed_inflow {} done' pending' [] middle inflow).1.delivered
  rw [sent, frames_flatten, all, whole, flat]
  rfl

/-- A header that only the connection accepts. -/
theorem foreign_header_passed : ∃ conn : Conn,
    Run (step reference ⟨id, fun _ _ => []⟩ fun _ => ⟨[], [], [], [], []⟩)
      (UntilReopened fun _ => ⟨[], [], [], [], []⟩) opened
      [(.read, { recvs := [.bytes [0, 0, 0, 0, 0]] })] conn ∧
    batches conn.notes = [[0, 0, 0, 0, 0]] ∧
    walkMessages reference [0, 0, 0, 0, 0] 6 (MpReader.plain 0 5) =
      .thrown ⟨.mpReaderError, "invalid iproto packet"⟩ (MpReader.plain 0 5) := by
  have numbered : Numbered 0 [0, 0, 0, 0, 0] := ⟨[0], [0, 0, 0, 0], rfl, fix_uint_head 0 (by decide)⟩
  obtain ⟨conn, ran, given⟩ := message_passed reference_implements ⟨id, fun _ _ => []⟩
    [0, 0, 0, 0, 0] 0 numbered (by decide) (by decide) (by decide)
  exact ⟨conn, .snoc .nil trivial ran, given, rfl⟩

end Conn

end Cpp2tnt
