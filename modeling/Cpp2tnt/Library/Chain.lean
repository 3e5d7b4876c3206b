import Mathlib.Data.Finset.Card
import Mathlib.Logic.Relation

/-!
Chains of a partial function: each element names the next one, or none. A chain
through finitely many elements ends if and only if it does not run in a circle.
-/

namespace Chain
open Relation

section Chains
variable {α : Type*} (next : α → Option α)

def Leads (first second : α) : Prop := next first = some second

def Ends : Nat → α → Prop
  | 0, _ => False
  | count + 1, first => ∀ second, next first = some second → Ends count second

def Circles (first : α) : Prop :=
  ∃ turn, ReflTransGen (Leads next) first turn ∧ TransGen (Leads next) turn turn

variable {next} {first second : α}

theorem Circles.leads (circles : Circles next first) :
    ∃ second, next first = some second ∧ Circles next second := by
  obtain ⟨turn, reached, around⟩ := circles
  cases ReflTransGen.cases_head reached with
  | inl here =>
      subst here
      obtain ⟨second, leads, back⟩ := TransGen.head'_iff.mp around
      exact ⟨second, leads, first, back, around⟩
  | inr further =>
      obtain ⟨second, leads, rest⟩ := further
      exact ⟨second, leads, turn, rest, around⟩

theorem Circles.behind (circles : Circles next second) (leads : next first = some second) :
    Circles next first := by
  obtain ⟨turn, reached, around⟩ := circles
  exact ⟨turn, .head leads reached, around⟩

theorem circles_never (count : Nat) (circles : Circles next first) : ¬ Ends next count first := by
  induction count generalizing first with
  | zero => exact id
  | succ count ih =>
      intro ends
      obtain ⟨second, leads, further⟩ := circles.leads
      exact ih further (ends second leads)

theorem straight_ends [DecidableEq α] (domain : Finset α)
    (inside : ∀ later, ReflTransGen (Leads next) first later → (next later).isSome → later ∈ domain)
    (straight : ¬ Circles next first) : Ends next (domain.card + 1) first := by
  induction domain using Finset.strongInduction generalizing first with
  | H domain ih =>
      intro second leads
      have here : first ∈ domain := inside first .refl (by rw [leads]; rfl)
      have fewer : (domain.erase first).card + 1 = domain.card := Finset.card_erase_add_one here
      rw [← fewer]
      -- the chain behind it never comes back, so the rest of the domain is enough
      apply ih _ (Finset.erase_ssubset here)
      · intro later reached some
        apply Finset.mem_erase.mpr
        refine ⟨?_, inside later (.head leads reached) some⟩
        rintro rfl
        exact straight ⟨later, .refl, .head' leads reached⟩
      · exact fun circles => straight (circles.behind leads)

theorem ends_iff [DecidableEq α] (domain : Finset α)
    (inside : ∀ element, (next element).isSome → element ∈ domain) :
    (∃ count, Ends next count first) ↔ ¬ Circles next first := by
  constructor
  · rintro ⟨count, ends⟩ circles
    exact circles_never count circles ends
  · intro straight
    exact ⟨_, straight_ends domain (fun later _ => inside later) straight⟩

end Chains
end Chain
