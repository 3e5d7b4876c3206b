import Cpp2tnt.MpReader

/-!
Frames: the byte `0xce`, a 32-bit length and a body of that length. Response
handlers walk a buffer with `iproto_message` until it returns an empty reader.
-/

namespace Cpp2tnt
open Imperative MessagePack

/-- A message on the wire. -/
def frame (body : Bytes) : Bytes := 0xce :: bigEndian 4 body.length ++ body

@[simp] theorem frame_length (body : Bytes) : (frame body).length = body.length + 5 := by
  simp [frame]
  omega

theorem frames_length (bodies : List Bytes) :
    bodies.length ≤ (bodies.map frame).flatten.length := by
  induction bodies with
  | nil => exact Nat.zero_le _
  | cons body bodies ih =>
      rw [List.map_cons, List.flatten_cons, List.length_append, frame_length, List.length_cons]
      omega

def frames (bodies : List Bytes) : Bytes := (bodies.map frame).flatten

@[simp] theorem frames_nil : frames [] = [] := rfl

@[simp] theorem frames_cons (body : Bytes) (bodies : List Bytes) :
    frames (body :: bodies) = frame body ++ frames bodies := rfl

@[simp] theorem frames_append (front back : List Bytes) :
    frames (front ++ back) = frames front ++ frames back := by
  simp [frames]

theorem frames_flatten (groups : List (List Bytes)) :
    (groups.map frames).flatten = frames groups.flatten := by
  induction groups with
  | nil => rfl
  | cons group groups ih =>
      rw [List.map_cons, List.flatten_cons, List.flatten_cons, frames_append, ih]

/-- A body whose length a header can announce; an empty one reads as no message. -/
def Sized (body : Bytes) : Prop := 0 < body.length ∧ body.length < 2 ^ 32

instance (body : Bytes) : Decidable (Sized body) := inferInstanceAs (Decidable (_ ∧ _))

def Headed (length : Nat) (bytes : Bytes) : Prop :=
  0 < length ∧ length < 2 ^ 32 ∧ ∃ rest, bytes = 0xce :: bigEndian 4 length ++ rest

/-- Less than a message, with the size of the message when its header is there. -/
inductive Unfinished : Bytes → Nat → Prop where
  | short (bytes : Bytes) : bytes.length < 5 → Unfinished bytes 0
  | waiting (length : Nat) (bytes : Bytes) : Headed length bytes → bytes.length < length + 5 →
      Unfinished bytes (length + 5)

theorem frame_headed (body rest : Bytes) (sized : Sized body) :
    Headed body.length (frame body ++ rest) := by
  refine ⟨sized.1, sized.2, body ++ rest, ?_⟩
  simp [frame]

theorem frames_eq_nil {bodies : List Bytes} (empty : frames bodies = []) : bodies = [] := by
  cases bodies with
  | nil => rfl
  | cons body bodies => simp [frame] at empty

theorem Headed.unique {first second : Nat} {bytes : Bytes} (left : Headed first bytes)
    (right : Headed second bytes) : first = second := by
  obtain ⟨_, small, front, same⟩ := left
  obtain ⟨_, little, back, other⟩ := right
  rw [same, List.cons_append, List.cons_append] at other
  have words := (List.append_inj (List.cons.inj other).2 (by simp)).1
  rw [← of_big_endian 4 first (by omega), words, of_big_endian 4 second (by omega)]

theorem prefix_splits (bodies : List Bytes) (sized : ∀ body ∈ bodies, Sized body) (bytes : Bytes)
    (front : bytes <+: frames bodies) :
    ∃ fresh rest tail size, bodies = fresh ++ rest ∧ bytes = frames fresh ++ tail ∧
      Unfinished tail size ∧ tail <+: frames rest := by
  induction bodies generalizing bytes with
  | nil =>
      have empty : bytes = [] := List.prefix_nil.mp front
      subst empty
      exact ⟨[], [], [], 0, rfl, rfl, .short [] (by decide), List.nil_prefix⟩
  | cons body bodies ih =>
      by_cases whole : (frame body).length ≤ bytes.length
      · obtain ⟨tail, rfl⟩ := List.prefix_of_prefix_length_le (List.prefix_append _ _) front whole
        have later := (List.prefix_append_right_inj _).mp front
        obtain ⟨fresh, rest, last, size, bodies_eq, split, unfinished, kept⟩ := ih
          (fun other kept => sized other (List.mem_cons_of_mem body kept)) tail later
        refine ⟨body :: fresh, rest, last, size, ?_, ?_, unfinished, kept⟩
        · rw [bodies_eq, List.cons_append]
        · rw [split, frames_cons, List.append_assoc]
      · have partly : bytes <+: frame body := List.prefix_of_prefix_length_le front
          (List.prefix_append _ _) (Nat.le_of_not_le whole)
        rw [frame_length] at whole
        by_cases header : bytes.length < 5
        · exact ⟨[], body :: bodies, bytes, 0, rfl, rfl, .short bytes header, front⟩
        · refine ⟨[], body :: bodies, bytes, body.length + 5, rfl, rfl, ?_, front⟩
          apply Unfinished.waiting body.length bytes _ (Nat.lt_of_not_le whole)
          have head : (0xce :: bigEndian 4 body.length : Bytes) <+: bytes :=
            List.prefix_of_prefix_length_le ⟨body, rfl⟩ partly (by simp; omega)
          obtain ⟨rest, same⟩ := head
          exact ⟨(sized body List.mem_cons_self).1, (sized body List.mem_cons_self).2, rest,
            same.symm⟩

theorem frame_first {body other left right : Bytes} (sized : Sized body) (fits : Sized other)
    (same : frame body ++ left = frame other ++ right) : body = other ∧ left = right := by
  have length := (frame_headed body left sized).unique (same ▸ frame_headed other right fits)
  obtain ⟨head, rest⟩ := List.append_inj same (by rw [frame_length, frame_length, length])
  rw [frame, frame, length] at head
  exact ⟨List.append_cancel_left head, rest⟩

theorem frames_split (front requests : List Bytes) (tail : Bytes)
    (sized : ∀ body ∈ front, Sized body) (all : ∀ body ∈ requests, Sized body)
    (same : frames front ++ tail = frames requests) :
    ∃ rest, requests = front ++ rest ∧ tail = frames rest := by
  induction front generalizing requests with
  | nil => exact ⟨requests, rfl, same⟩
  | cons body front ih =>
      obtain ⟨one, others⟩ := List.forall_mem_cons.mp sized
      rw [frames_cons, List.append_assoc] at same
      cases requests with
      | nil => simp [frame] at same
      | cons request requests =>
          obtain ⟨first, later⟩ := List.forall_mem_cons.mp all
          rw [frames_cons] at same
          obtain ⟨rfl, rest⟩ := frame_first one first same
          obtain ⟨fresh, shape, left⟩ := ih requests others later rest
          exact ⟨fresh, by rw [shape, List.cons_append], left⟩

theorem Unfinished.no_frame {bytes : Bytes} {size : Nat} (unfinished : Unfinished bytes size)
    (body rest : Bytes) (sized : Sized body) : bytes ≠ frame body ++ rest := by
  rintro rfl
  cases unfinished with
  | short _ few =>
      rw [List.length_append, frame_length] at few
      omega
  | waiting length _ headed few =>
      have same := headed.unique (frame_headed body rest sized)
      rw [List.length_append, frame_length] at few
      omega

theorem frames_covered (front known : List Bytes) (tail : Bytes) {size : Nat}
    (unfinished : Unfinished tail size) (sized : ∀ body ∈ front, Sized body)
    (all : ∀ body ∈ known, Sized body) (covered : frames front <+: frames known ++ tail) :
    front <+: known := by
  induction front generalizing known with
  | nil => exact List.nil_prefix
  | cons body front ih =>
      obtain ⟨one, others⟩ := List.forall_mem_cons.mp sized
      obtain ⟨rest, same⟩ := covered
      rw [frames_cons, List.append_assoc] at same
      cases known with
      | nil => exact absurd same.symm (unfinished.no_frame body _ one)
      | cons first known =>
          obtain ⟨fits, later⟩ := List.forall_mem_cons.mp all
          rw [frames_cons, List.append_assoc] at same
          obtain ⟨rfl, behind⟩ := frame_first one fits same
          exact (List.prefix_cons_inj _).mpr (ih known others later ⟨rest, behind⟩)

/-- `while (mp_reader r = bunch.iproto_message())`: the readers it hands out. -/
def walkMessages (mp : Msgpuck) (mem : Bytes) : Nat → Read (List MpReader)
  | 0 => Cxx.undefined
  | fuel + 1 => do
      let message ← iprotoMessage mp mem
      if !message.nonempty then return []
      let rest ← walkMessages mp mem fuel
      return message :: rest

/-- The bytes between the bounds of a plain reader. -/
def MpReader.slice (mem : Bytes) (reader : MpReader) : Bytes :=
  (mem.drop (reader.beginPos.getD 0)).take (reader.endPos.getD 0 - reader.beginPos.getD 0)

section Walk
variable {mp : Msgpuck} {mem : Bytes}

theorem message_end (mp : Msgpuck) (mem : Bytes) (pos : Nat) (reader : MpReader)
    (current : reader.currentPos = some pos) (bound : reader.endPos = some pos) :
    iprotoMessage mp mem reader = .returned (MpReader.plain pos pos) reader := by
  simp [iprotoMessage, current, bound]

theorem message_returned (implements : Implements mp) (body rest : Bytes) (pos last : Nat)
    (reader : MpReader) (current : reader.currentPos = some pos)
    (bound : reader.endPos = some last) (found : mem.drop pos = frame body ++ rest)
    (within : pos + (frame body).length ≤ last) (short : body.length < 2 ^ 32) :
    iprotoMessage mp mem reader =
      .returned (MpReader.plain (pos + 5) (pos + 5 + body.length))
        { reader with currentPos := some (pos + (frame body).length) } := by
  rw [frame_length] at within ⊢
  have first : mem[pos]? = some 0xce := by
    rw [← List.head?_drop, found]
    rfl
  have read : deref mem (some pos) reader = .returned 0xce reader := by
    simp [deref, first]
  have decoded : mp.mpDecodeUint (mem.drop pos) = (body.length, 5) := by
    have head := wide_uint_head 4 0xce body.length (by simp) (by omega)
    have exact := implements.decodeUint _ _ (body ++ rest) head
    rw [found, frame, List.append_assoc, exact]
    simp
  have room : ¬ ((last : Int) - pos < 5) := by omega
  have whole : ¬ last - (pos + 5) < body.length := by omega
  simp only [iprotoMessage, Cxx.bind_get, current, bound, if_neg room]
  rw [Cxx.bind_returned read, if_neg (by simp)]
  simp only [decoded, Cxx.bind_put, if_neg whole]
  simp [Nat.add_assoc, Nat.add_comm 5]

theorem walk_frames (implements : Implements mp) (bodies : List Bytes)
    (sized : ∀ body ∈ bodies, 0 < body.length ∧ body.length < 2 ^ 32) (pos fuel : Nat)
    (reader : MpReader) (current : reader.currentPos = some pos)
    (bound : reader.endPos = some (pos + (bodies.map frame).flatten.length))
    (found : mem.drop pos = (bodies.map frame).flatten) (enough : bodies.length < fuel) :
    ∃ readers, walkMessages mp mem fuel reader = .returned readers
        { reader with currentPos := some (pos + (bodies.map frame).flatten.length) } ∧
      readers.map (MpReader.slice mem) = bodies := by
  induction bodies generalizing pos fuel reader with
  | nil =>
      obtain ⟨fuel, rfl⟩ : ∃ less, fuel = less + 1 := ⟨fuel - 1, by omega⟩
      have done := message_end mp mem pos reader current bound
      have empty : (MpReader.plain pos pos).nonempty = false := by
        simp [MpReader.nonempty, MpReader.plain]
      have unmoved : { reader with currentPos := some (pos + ([].map frame).flatten.length) } =
          reader := by
        simp [← current]
      refine ⟨[], ?_, rfl⟩
      rw [walkMessages, Cxx.bind_returned done, empty, unmoved]
      rfl
  | cons body bodies ih =>
      obtain ⟨fuel, rfl⟩ : ∃ less, fuel = less + 1 := ⟨fuel - 1, by omega⟩
      obtain ⟨headed, short⟩ := sized body List.mem_cons_self
      rw [List.map_cons, List.flatten_cons] at found bound
      rw [List.length_append] at bound
      have one := message_returned implements body _ pos _ reader current bound found (by omega)
        short
      have next : mem.drop (pos + (frame body).length) = (bodies.map frame).flatten := by
        rw [← List.drop_drop, found, List.drop_left]
      -- the reader moves past one frame, so the hypothesis is used at its end
      obtain ⟨readers, walked, slices⟩ := ih
        (fun other kept => sized other (List.mem_cons_of_mem body kept))
        (pos + (frame body).length) fuel
        { reader with currentPos := some (pos + (frame body).length) } rfl
        (by rw [bound, Nat.add_assoc]) next (by simpa using enough)
      refine ⟨MpReader.plain (pos + 5) (pos + 5 + body.length) :: readers, ?_, ?_⟩
      · have more : (MpReader.plain (pos + 5) (pos + 5 + body.length)).nonempty = true := by
          simp [MpReader.nonempty, MpReader.plain, headed]
        rw [walkMessages, Cxx.bind_returned one, more]
        simp only [Bool.not_true, Bool.false_eq_true, if_false]
        rw [Cxx.bind_returned walked]
        simp [Nat.add_assoc]
      · have inside : (mem.drop (pos + 5)).take body.length = body := by
          have five : frame body ++ (bodies.map frame).flatten =
              (0xce :: bigEndian 4 body.length) ++ (body ++ (bodies.map frame).flatten) := by
            simp [frame]
          have width : (0xce :: bigEndian 4 body.length : Bytes).length = 5 := by simp
          rw [← List.drop_drop, found, five, ← width, List.drop_left, List.take_left]
        rw [List.map_cons, slices]
        simp [MpReader.slice, MpReader.plain, inside]

end Walk

end Cpp2tnt
