import Cpp2tnt.ConnectionControl

/-!
The timeout of a handshake. A connection attempt that is not finished at once
arms the reconnect counter, and nothing disarms it before the handshake is over.
Then silence ends the handshake after as many ticks as the timeout says. An
attempt that succeeds at once leaves the counter disarmed.
-/

namespace Cpp2tnt
open Imperative MessagePack Transition

def State.isHandshake : State → Bool
  | .connecting | .featuresRequest | .authentication => true
  | _ => false

/-- No `connect()` of this event succeeds at once. -/
def NotAtOnce : Event × Answers → Prop
  | (_, answers) => Attempt.established ∉ answers.attempts

namespace Conn

structure Timed (conn : Conn) : Prop where
  armed : conn.state.isHandshake = true → 0 ≤ conn.autoreconnectTicksCounter
  positive : 1 ≤ conn.autoreconnectTimeout

section Outcomes
variable {before after : Conn}

theorem Timed.outside (positive : 1 ≤ after.autoreconnectTimeout)
    (outside : after.state.isHandshake = false) : Timed after :=
  ⟨fun inside => absurd (outside.symm.trans inside) Bool.false_ne_true, positive⟩

theorem quiet_timed (quiet : Quiet before after) (timed : Timed before) : Timed after := by
  obtain ⟨_, _, _, _, rfl, _⟩ := quiet
  exact ⟨timed.armed, timed.positive⟩

theorem input_timed (input : InputOnly before after) (timed : Timed before) : Timed after := by
  obtain ⟨_, _, _, _, _, _, rfl, _⟩ := input
  exact ⟨timed.armed, timed.positive⟩

theorem closed_timed (delay : Int) (positive : 1 ≤ before.autoreconnectTimeout) :
    Timed (before.closed delay) := by
  have kept : 1 ≤ (before.closed delay).autoreconnectTimeout := by
    have set : (before.closed delay).autoreconnectTimeout =
        if delay > 0 then delay else before.autoreconnectTimeout := by
      unfold closed
      split <;> rfl
    rw [set]
    split
    · assumption
    · exact positive
  apply Timed.outside kept
  rw [closed_state]
  rfl

theorem failed_timed {handler : Bool} (failed : FailedBy handler before after)
    (positive : 1 ≤ before.autoreconnectTimeout) : Timed after := by
  obtain ⟨extra, rfl, _⟩ := failed
  apply Timed.outside
  · exact (closed_timed 0 positive).positive
  · change (before.closed 0).state.isHandshake = false
    rw [closed_state]
    rfl

theorem writes_timed {answers : Answers} (writes : Writes answers before after)
    (timed : Timed before) : Timed after := by
  cases writes with
  | established => exact ⟨timed.armed, timed.positive⟩
  | refused _ _ failed => exact failed_timed failed timed.positive
  | sends _ moved _ ended =>
      obtain ⟨_, _, _, _, _, _, _, rfl, _⟩ := moved.output
      cases ended with
      | drained | paused => exact ⟨timed.armed, timed.positive⟩
      | failed _ _ failed => exact failed_timed failed timed.positive

theorem flushes_timed {answers : Answers} (flushes : Flushes answers before after)
    (timed : Timed before) : Timed after := by
  cases flushes with
  | nothing => exact timed
  | marks => exact ⟨timed.armed, timed.positive⟩
  | writes _ _ wrote =>
      have launched : Timed before.launched := ⟨timed.armed, timed.positive⟩
      exact writes_timed wrote launched

theorem tries_timed {attempts : List Attempt} (tries : Tries attempts before after)
    (later : Attempt.established ∉ attempts) (positive : 1 ≤ before.autoreconnectTimeout) :
    Timed after := by
  cases tries with
  | established known => exact absurd known later
  | inProgress quiet =>
      obtain ⟨_, _, _, _, rfl, _⟩ := quiet
      exact ⟨fun _ => Int.le_refl 0, positive⟩
  | refused quiet failed =>
      obtain ⟨_, _, _, _, rfl, _⟩ := quiet
      exact failed_timed failed positive
  | exhausted quiet =>
      obtain ⟨_, _, _, _, rfl, _⟩ := quiet
      exact .outside positive rfl

theorem opens_timed {parseCs : Bytes → CsParts} {answers : Answers} {delay : Int}
    (opens : Opens parseCs answers delay before after)
    (later : Attempt.established ∉ answers.attempts) (timed : Timed before) : Timed after := by
  have general : (1 : Int) ≤ generalTimeout := by decide
  cases opens with
  | rejected quiet => exact quiet_timed quiet timed
  | delayed state positive =>
      apply Timed.outside
      · exact positive
      · change before.state.isHandshake = false
        rw [state]
        rfl
  | prepares state _ quiet =>
      apply quiet_timed quiet
      apply Timed.outside general
      change before.state.isHandshake = false
      rw [state]
      rfl
  | resolves => exact .outside general rfl
  | tries _ _ tried => exact tries_timed tried later general

theorem ticks_timed {parseCs : Bytes → CsParts} {answers : Answers}
    (ticks : Ticks parseCs answers before after)
    (later : Attempt.established ∉ answers.attempts) (timed : Timed before) : Timed after := by
  have counted : ∀ count, before.Counted count →
      Timed { before with autoreconnectTicksCounter := count } := by
    intro count counted
    refine ⟨?_, timed.positive⟩
    intro inside
    have armed := timed.armed inside
    rcases counted with ⟨idle, _⟩ | ⟨_, next, _⟩
    · exact absurd armed (not_le.mpr idle)
    · rw [next]
      exact Int.le_add_one armed
  cases ticks with
  | reopens _ state opens =>
      apply opens_timed opens later
      refine Timed.outside timed.positive ?_
      change before.state.isHandshake = false
      rw [state]
      rfl
  | expires _ _ _ failed => exact failed_timed failed timed.positive
  | counts count quiet => exact quiet_timed quiet (counted _ count)
  | flushes count _ _ reported flushed idle =>
      exact quiet_timed idle (flushes_timed flushed (quiet_timed reported (counted _ count)))

theorem handshakes_timed {answers : Answers} (handshakes : Handshakes answers before after)
    (state : before.state = .featuresRequest ∨ before.state = .authentication)
    (timed : Timed before) : Timed after := by
  have inside : before.state.isHandshake = true := by
    rcases state with features | authentication
    · rw [features]
      rfl
    · rw [authentication]
      rfl
  cases handshakes with
  | abandons lapsed failed =>
      obtain ⟨_, _, _, _, _, _, _, rfl, _⟩ := lapsed
      exact failed_timed failed timed.positive
  | @authenticates proto code send _ _ _ _ _ wrote =>
      have asked : Timed (before.challenged proto code send) :=
        ⟨fun _ => timed.armed inside, timed.positive⟩
      exact writes_timed wrote asked
  | opens => exact .outside timed.positive rfl

theorem reads_timed {answers : Answers} (reads : Reads answers before after)
    (timed : Timed before) : Timed after := by
  have arrived : ∀ buffer bytes, Timed (before.arrived buffer bytes) :=
    fun _ _ => ⟨timed.armed, timed.positive⟩
  cases reads with
  | nothing => exact timed
  | ended _ _ failed => exact failed_timed failed timed.positive
  | waits => exact arrived _ _
  | @greets buffer bytes send _ _ state _ _ wrote =>
      have asked : Timed ((before.arrived buffer bytes).greeted send) := by
        refine ⟨fun _ => timed.armed ?_, timed.positive⟩
        rw [state]
        rfl
      exact writes_timed wrote asked
  | @holds buffer bytes _ _ _ input => exact input_timed input (arrived buffer bytes)
  | @handshakes buffer bytes _ _ _ state input _ shaken =>
      have found := input_timed input (arrived buffer bytes)
      obtain ⟨_, _, _, _, _, _, rfl, _⟩ := input
      exact handshakes_timed shaken state found

end Outcomes

theorem handshake_tick (parseCs : Bytes → CsParts) (answers : Answers) (conn : Conn)
    (inside : conn.state.isHandshake = true) (armed : 0 ≤ conn.autoreconnectTicksCounter) :
    (conn.autoreconnectTicksCounter + 1 < conn.autoreconnectTimeout ∧
      conn.tick1sec parseCs answers = some { conn with
        autoreconnectTicksCounter := conn.autoreconnectTicksCounter + 1 }) ∨
    (conn.autoreconnectTimeout ≤ conn.autoreconnectTicksCounter + 1 ∧
      ∃ after, conn.tick1sec parseCs answers = some after ∧ after.state = .disconnected) := by
  have waiting : conn.state ≠ .disconnected := by
    intro state
    rw [state] at inside
    cases inside
  have unopened : conn.state ≠ .connected := by
    intro state
    rw [state] at inside
    cases inside
  by_cases expired : conn.autoreconnectTicksCounter + 1 ≥ conn.autoreconnectTimeout
  · refine .inr ⟨expired, ?_⟩
    rw [tick1sec, if_pos armed]
    simp only [if_pos expired, if_neg waiting]
    exact ⟨_, rfl, close_state answers true 0 _⟩
  · refine .inl ⟨not_le.mp expired, ?_⟩
    rw [tick1sec, if_pos armed]
    simp only [if_neg expired]
    exact if_pos unopened

theorem silence_ends (mp : Msgpuck) (crypto : Crypto) (parseCs : Bytes → CsParts)
    (silence : List Answers) (conn : Conn) (inside : conn.state.isHandshake = true)
    (armed : 0 ≤ conn.autoreconnectTicksCounter)
    (enough : conn.autoreconnectTimeout ≤ conn.autoreconnectTicksCounter + silence.length)
    (some : silence ≠ []) :
    ∃ front after, front <+: silence ∧ Run (step mp crypto parseCs) (fun _ _ => True) conn
      (front.map fun answers => (.tick1sec, answers)) after ∧ after.state = .disconnected := by
  induction silence generalizing conn with
  | nil => exact absurd rfl some
  | cons answers silence ih =>
      rcases handshake_tick parseCs answers conn inside armed with
        ⟨early, counted⟩ | ⟨_, after, closed, state⟩
      · rw [List.length_cons, Int.natCast_add, Int.natCast_one] at enough
        have more : silence ≠ [] := by
          rintro rfl
          simp only [List.length_nil] at enough
          omega
        obtain ⟨front, after, fits, run, state⟩ := ih
          { conn with autoreconnectTicksCounter := conn.autoreconnectTicksCounter + 1 } inside
          (Int.le_add_one armed) (by simp only; omega) more
        obtain ⟨back, rfl⟩ := fits
        exact ⟨answers :: front, after, ⟨back, rfl⟩, .cons trivial counted run, state⟩
      · exact ⟨[answers], after, ⟨silence, rfl⟩, .snoc .nil trivial closed, state⟩

section Runs
variable (mp : Msgpuck) (crypto : Crypto) (parseCs : Bytes → CsParts)

theorem step_timed (event : Event × Answers) (before after : Conn) (timed : Timed before)
    (later : NotAtOnce event) (done : step mp crypto parseCs event before = some after) :
    Timed after := by
  cases step_turns mp crypto parseCs event before after done with
  | opens opened => exact opens_timed opened later timed
  | @closes _ _ delay =>
      have closed := closed_timed delay timed.positive
      exact ⟨closed.armed, closed.positive⟩
  | rests quiet => exact quiet_timed quiet timed
  | listens | appends | reserves | requests | ignores => exact ⟨timed.armed, timed.positive⟩
  | flushes flushed => exact flushes_timed flushed timed
  | @processes answers => exact input_timed (input_processed_input answers before) timed
  | ticks ticked => exact ticks_timed ticked later timed
  | reads received => exact reads_timed received timed
  | writes wrote => exact writes_timed wrote timed
  | resolves _ _ tried => exact tries_timed tried later timed.positive
  | lapses => exact .outside timed.positive rfl

/-- When no attempt succeeds at once, every handshake is under a timeout, and
silence ends it within that many ticks. -/
theorem handshake_timed (cs : Bytes) (callbacks : Callbacks) (conn : Conn)
    (events : List (Event × Answers))
    (run : Run (step mp crypto parseCs) (fun _ event => NotAtOnce event)
      (Conn.initial cs callbacks) events conn)
    (inside : conn.state = .connecting ∨ conn.state = .featuresRequest ∨
      conn.state = .authentication) :
    0 ≤ conn.autoreconnectTicksCounter ∧
    ∀ silence : List Answers, (silence.length : Int) = conn.autoreconnectTimeout →
      ∃ front after, front <+: silence ∧ Run (step mp crypto parseCs) (fun _ _ => True) conn
        (front.map fun answers => (.tick1sec, answers)) after ∧ after.state = .disconnected := by
  have general : (1 : Int) ≤ generalTimeout := by decide
  have initial : Timed (Conn.initial cs callbacks) := .outside general rfl
  have timed : Timed conn := run.invariant initial fun before event after held later done =>
    step_timed mp crypto parseCs event before after held later done
  have handshake : conn.state.isHandshake = true := by
    rcases inside with state | state | state <;> rw [state] <;> rfl
  have armed := timed.armed handshake
  refine ⟨armed, ?_⟩
  intro silence length
  apply silence_ends mp crypto parseCs silence conn handshake armed
  · rw [length]
    exact Int.le_add_of_nonneg_left armed
  · rintro rfl
    have positive := timed.positive
    rw [← length] at positive
    exact absurd positive (by decide)

end Runs

/-- An attempt that is still going on. -/
theorem handshake_timed_in_progress : ∃ conn : Conn, conn.state = .connecting ∧
    0 ≤ conn.autoreconnectTicksCounter := by
  have run : Run (step reference ⟨id, fun _ _ => []⟩ unixPath) (fun _ event => NotAtOnce event)
      (Conn.initial [] acceptAll) [(.openConnection 0, { attempts := [.inProgress] })]
      (((Conn.initial [] acceptAll).prepared unixPath).trying.startSession .write).reconnectSoon :=
    .snoc .nil (show Attempt.established ∉ [Attempt.inProgress] by decide) rfl
  exact ⟨_, rfl, (handshake_timed _ _ _ _ _ _ _ run (.inl rfl)).1⟩

/-- An attempt that succeeded at once is under no timeout. -/
theorem established_untimed : ∃ conn : Conn,
    Run (step reference ⟨id, fun _ _ => []⟩ unixPath) Driven (Conn.initial [] acceptAll)
      [(.openConnection 0, { attempts := [.established] })] conn ∧
    conn.state = .connecting ∧ ¬ 0 ≤ conn.autoreconnectTicksCounter :=
  ⟨_, .snoc .nil ⟨trivial, trivial⟩ unix_established, rfl, by decide⟩

end Conn

end Cpp2tnt
