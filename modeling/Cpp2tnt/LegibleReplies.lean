import Cpp2tnt.Connection
import Cpp2tnt.FailedReads

/-!
What the handshake can read. `Legible` tells from the content of the receive buffer
that a reply is handled without undefined behaviour: each item looked at has a byte
in the storage, and an extension read as an integer is printed, and into the
characters there are for it.
-/

namespace Cpp2tnt
open Imperative MessagePack

section Content
variable (mp : Msgpuck) (mem : Bytes)

end Content

section Rules
variable {mp : Msgpuck} {mem : Bytes} {α σ : Type} {reader : MpReader}

def Ahead (mem : Bytes) (rounds : Nat) (reader : MpReader) : Prop :=
  ∀ pos, reader.currentPos = some pos → mem.length < rounds + pos

theorem Ahead.skipped {rounds : Nat} (ahead : Ahead mem rounds reader) :
    Ahead mem rounds (Cpp2tnt.skipped mp mem reader) := by
  intro next behind
  simp only [Cpp2tnt.skipped, MpReader.advance, Option.map_eq_some_iff] at behind
  obtain ⟨pos, current, rfl⟩ := behind
  have left := ahead pos current
  omega

end Rules

end Cpp2tnt
