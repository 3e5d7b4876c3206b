import Mathlib.Logic.Basic

/-!
Imperative computations with exceptions and undefined behaviour. A computation
takes a state and returns a value, throws, or has no defined result. A thrown
error keeps the state reached when it was thrown: nothing is rolled back.
`Preserves` is the one-state Hoare rule the clients use for frame conditions.
-/

namespace Imperative

inductive Outcome (ε σ α : Type) where
  | returned (value : α) (state : σ)
  | thrown (error : ε) (state : σ)
  | undefined

def Cxx (ε σ α : Type) : Type := σ → Outcome ε σ α

variable {ε σ τ α β : Type}

def Outcome.Leaves (property : σ → Prop) : Outcome ε σ α → Prop
  | .returned _ reached => property reached
  | .thrown _ reached => property reached
  | .undefined => True

namespace Cxx

def run (body : Cxx ε σ α) (state : σ) : Outcome ε σ α := body state

def pure (value : α) : Cxx ε σ α := fun state => .returned value state

def bind (first : Cxx ε σ α) (next : α → Cxx ε σ β) : Cxx ε σ β := fun state =>
  match first state with
  | .returned value reached => next value reached
  | .thrown error reached => .thrown error reached
  | .undefined => .undefined

instance : Monad (Cxx ε σ) where
  pure := pure
  bind := bind

theorem map_identity (body : Cxx ε σ α) : bind body (fun value => pure (id value)) = body := by
  funext state
  unfold bind
  cases body state <;> rfl

theorem bind_associates {γ : Type} (body : Cxx ε σ α) (next : α → Cxx ε σ β)
    (last : β → Cxx ε σ γ) :
    bind (bind body next) last = bind body (fun value => bind (next value) last) := by
  funext state
  unfold bind
  cases body state <;> rfl

instance : LawfulMonad (Cxx ε σ) :=
  LawfulMonad.mk' (Cxx ε σ) map_identity (fun _ _ => rfl) bind_associates

def get : Cxx ε σ σ := fun state => .returned state state

def put (state : σ) : Cxx ε σ Unit := fun _ => .returned () state

def throw (error : ε) : Cxx ε σ α := fun state => .thrown error state

/-- Undefined behaviour: an access outside the storage, a push over a full array. -/
def undefined : Cxx ε σ α := fun _ => .undefined

def onObject (body : Cxx ε τ α) (object : τ) : Cxx ε σ (α × τ) := fun state =>
  match body object with
  | .returned value reached => .returned (value, reached) state
  | .thrown error _ => .thrown error state
  | .undefined => .undefined

def zoom (view : σ → τ) (update : τ → σ → σ) (body : Cxx ε τ α) : Cxx ε σ α := fun state =>
  match body (view state) with
  | .returned value reached => .returned value (update reached state)
  | .thrown error reached => .thrown error (update reached state)
  | .undefined => .undefined

def attempt (body : Cxx ε σ Unit) : Cxx ε σ Unit := fun state =>
  match body state with
  | .returned _ reached => .returned () reached
  | .thrown _ reached => .returned () reached
  | .undefined => .undefined

/-- The loop `for (item : items) body(item)`. -/
def forEach (body : α → Cxx ε σ Unit) : List α → Cxx ε σ Unit
  | [] => Pure.pure ()
  | item :: rest => do
      body item
      forEach body rest

@[simp] theorem pure_run (value : α) (state : σ) :
    (Pure.pure value : Cxx ε σ α) state = .returned value state := rfl

@[simp] theorem get_run (state : σ) : (get : Cxx ε σ σ) state = .returned state state := rfl

@[simp] theorem put_run (state before : σ) :
    (put state : Cxx ε σ Unit) before = .returned () state := rfl

@[simp] theorem throw_run (error : ε) (state : σ) :
    (throw error : Cxx ε σ α) state = .thrown error state := rfl

@[simp] theorem undefined_run (state : σ) :
    (undefined : Cxx ε σ α) state = .undefined := rfl

theorem bind_run (first : Cxx ε σ α) (next : α → Cxx ε σ β) (state : σ) :
    (first >>= next) state = match first state with
      | .returned value reached => next value reached
      | .thrown error reached => .thrown error reached
      | .undefined => .undefined := rfl

theorem bind_returned {first : Cxx ε σ α} {state reached : σ} {value : α}
    (done : first state = .returned value reached) (next : α → Cxx ε σ β) :
    (first >>= next) state = next value reached := by
  rw [bind_run, done]

theorem bind_thrown {first : Cxx ε σ α} {state reached : σ} {error : ε}
    (done : first state = .thrown error reached) (next : α → Cxx ε σ β) :
    (first >>= next) state = .thrown error reached := by
  rw [bind_run, done]

theorem bind_stuck {first : Cxx ε σ α} {state : σ} (stuck : first state = .undefined)
    (next : α → Cxx ε σ β) : (first >>= next) state = .undefined := by
  rw [bind_run, stuck]

@[simp] theorem bind_get (next : σ → Cxx ε σ β) (state : σ) :
    (get >>= next) state = next state state := rfl

@[simp] theorem bind_put (after before : σ) (next : Unit → Cxx ε σ β) :
    (put after >>= next) before = next () after := rfl

@[simp] theorem bind_pure_run (value : α) (next : α → Cxx ε σ β) (state : σ) :
    ((Pure.pure value : Cxx ε σ α) >>= next) state = next value state := rfl

@[simp] theorem bind_throw (error : ε) (next : α → Cxx ε σ β) (state : σ) :
    ((throw error : Cxx ε σ α) >>= next) state = .thrown error state := rfl

@[simp] theorem bind_undefined (next : α → Cxx ε σ β) (state : σ) :
    ((undefined : Cxx ε σ α) >>= next) state = .undefined := rfl

theorem onObject_returned {body : Cxx ε τ α} {object reached : τ} {value : α}
    (done : body object = .returned value reached) (state : σ) :
    (onObject body object : Cxx ε σ (α × τ)) state = .returned (value, reached) state := by
  simp [onObject, done]

theorem zoom_returned {view : σ → τ} {update : τ → σ → σ} {body : Cxx ε τ α} {state : σ}
    {value : α} {reached : τ} (done : body (view state) = .returned value reached) :
    zoom view update body state = .returned value (update reached state) := by
  simp [zoom, done]

theorem zoom_thrown {view : σ → τ} {update : τ → σ → σ} {body : Cxx ε τ α} {state : σ} {error : ε}
    {reached : τ} (failed : body (view state) = .thrown error reached) :
    zoom view update body state = .thrown error (update reached state) := by
  simp [zoom, failed]

theorem zoom_stuck {view : σ → τ} {update : τ → σ → σ} {body : Cxx ε τ α} {state : σ}
    (stuck : body (view state) = .undefined) : zoom view update body state = .undefined := by
  simp [zoom, stuck]

@[simp] theorem forEach_nil (body : α → Cxx ε σ Unit) (state : σ) :
    forEach body [] state = .returned () state := rfl

theorem forEach_cons_returned {body : α → Cxx ε σ Unit} {item : α} {state reached : σ}
    (done : body item state = .returned () reached) (rest : List α) :
    forEach body (item :: rest) state = forEach body rest reached :=
  bind_returned done _

theorem forEach_singleton (body : α → Cxx ε σ Unit) (item : α) :
    forEach body [item] = body item := by
  simp only [forEach]
  exact bind_pure_unit

theorem forEach_append (body : α → Cxx ε σ Unit) (front back : List α) :
    forEach body (front ++ back) = (do forEach body front; forEach body back) := by
  induction front with
  | nil =>
      rfl
  | cons item front ih =>
      simp only [List.cons_append, forEach, ih]
      exact (bind_assoc _ _ _).symm

theorem forEach_append_returned {body : α → Cxx ε σ Unit} {items : List α} {state reached : σ}
    (done : forEach body items state = .returned () reached) (rest : List α) :
    forEach body (items ++ rest) state = forEach body rest reached := by
  induction items generalizing state with
  | nil =>
      cases done
      rfl
  | cons item items ih =>
      simp only [List.cons_append, forEach, bind_run] at done ⊢
      cases first : body item state with
      | returned value middle =>
          simp only [first] at done ⊢
          exact ih done
      | thrown error middle => simp [first] at done
      | undefined => simp [first] at done

theorem attempt_returned {body : Cxx ε σ Unit} {state reached : σ}
    (done : body state = .returned () reached) : attempt body state = .returned () reached := by
  rw [attempt, done]

theorem attempt_thrown {body : Cxx ε σ Unit} {state reached : σ} {error : ε}
    (done : body state = .thrown error reached) : attempt body state = .returned () reached := by
  rw [attempt, done]

theorem attempt_undefined {body : Cxx ε σ Unit} {state : σ} (done : body state = .undefined) :
    attempt body state = .undefined := by
  rw [attempt, done]

theorem attempt_bind {first : Cxx ε σ α} {next : α → Cxx ε σ Unit} {state reached : σ} {value : α}
    (done : first state = .returned value reached) :
    attempt (first >>= next) state = attempt (next value) reached := by
  rw [attempt, bind_returned done, attempt]

theorem forEach_attempt {body : α → Cxx ε σ Unit} {items : List α} {state reached : σ}
    (done : forEach body items state = .returned () reached) :
    forEach (fun item => attempt (body item)) items state = .returned () reached := by
  induction items generalizing state with
  | nil => exact done
  | cons item items ih =>
      rw [forEach, bind_run] at done
      cases first : body item state with
      | returned value middle =>
          rw [first] at done
          rw [forEach, bind_returned (attempt_returned first)]
          exact ih done
      | thrown error middle => simp [first] at done
      | undefined => simp [first] at done

def Preserves (invariant : σ → Prop) (body : Cxx ε σ α) : Prop :=
  ∀ state, invariant state → match body state with
    | .returned _ reached => invariant reached
    | .thrown _ reached => invariant reached
    | .undefined => True

variable {invariant : σ → Prop}

theorem preserves_pure (value : α) :
    Preserves invariant (Pure.pure value : Cxx ε σ α) := fun _ held => held

theorem preserves_throw (error : ε) :
    Preserves invariant (throw error : Cxx ε σ α) := fun _ held => held

theorem preserves_undefined : Preserves invariant (undefined : Cxx ε σ α) :=
  fun _ _ => trivial

theorem preserves_put {state : σ} (held : invariant state) :
    Preserves invariant (put state : Cxx ε σ Unit) := fun _ _ => held

theorem preserves_bind {first : Cxx ε σ α} {next : α → Cxx ε σ β}
    (head : Preserves invariant first) (tail : ∀ value, Preserves invariant (next value)) :
    Preserves invariant (first >>= next) := by
  intro state held
  have step := head state held
  rw [bind_run]
  cases reached : first state with
  | returned value middle =>
      rw [reached] at step
      exact tail value middle step
  | thrown error middle =>
      rw [reached] at step
      exact step
  | undefined => trivial

theorem preserves_get_bind {next : σ → Cxx ε σ β}
    (tail : ∀ state, invariant state → Preserves invariant (next state)) :
    Preserves invariant (get >>= next) := fun state held => tail state held state held

theorem preserves_ite {condition : Prop} [Decidable condition] {left right : Cxx ε σ α}
    (yes : condition → Preserves invariant left) (no : ¬ condition → Preserves invariant right) :
    Preserves invariant (if condition then left else right) := by
  by_cases held : condition
  · rw [if_pos held]
    exact yes held
  · rw [if_neg held]
    exact no held

theorem preserves_zoom {view : σ → τ} {update : τ → σ → σ} {inner : τ → Prop} {body : Cxx ε τ α}
    (kept : Preserves inner body) (into : ∀ state, invariant state → inner (view state))
    (back : ∀ state part, invariant state → inner part → invariant (update part state)) :
    Preserves invariant (zoom view update body) := by
  intro state held
  have step := kept (view state) (into state held)
  unfold zoom
  cases reached : body (view state) with
  | returned value part =>
      rw [reached] at step
      exact back state part held step
  | thrown error part =>
      rw [reached] at step
      exact back state part held step
  | undefined => trivial

theorem preserves_forEach {body : α → Cxx ε σ Unit}
    (each : ∀ item, Preserves invariant (body item)) (items : List α) :
    Preserves invariant (forEach body items) := by
  induction items with
  | nil => exact preserves_pure ()
  | cons item rest ih => exact preserves_bind (each item) fun _ => ih

theorem preserves_onObject {body : Cxx ε τ α} {object : τ} :
    Preserves invariant (onObject body object : Cxx ε σ (α × τ)) := by
  intro state held
  unfold onObject
  cases body object with
  | returned value reached => exact held
  | thrown error reached => exact held
  | undefined => trivial

def Still (body : Cxx ε σ α) : Prop := ∀ state : σ, Preserves (· = state) body

theorem Still.preserves {body : Cxx ε σ α} (still : Still body) : Preserves invariant body := by
  intro state held
  have step := still state state rfl
  cases done : body state with
  | returned value reached =>
      rw [done] at step
      exact step ▸ held
  | thrown error reached =>
      rw [done] at step
      exact step ▸ held
  | undefined => trivial

theorem Still.returned {body : Cxx ε σ α} (still : Still body) {state reached : σ} {value : α}
    (done : body state = .returned value reached) : reached = state := by
  have step := still state state rfl
  rwa [done] at step

theorem Still.thrown {body : Cxx ε σ α} (still : Still body) {state reached : σ} {error : ε}
    (done : body state = .thrown error reached) : reached = state := by
  have step := still state state rfl
  rwa [done] at step

theorem still_pure (value : α) : Still (Pure.pure value : Cxx ε σ α) := fun _ => preserves_pure value

theorem still_throw (error : ε) : Still (throw error : Cxx ε σ α) := fun _ => preserves_throw error

theorem still_undefined : Still (undefined : Cxx ε σ α) := fun _ => preserves_undefined

theorem still_get : Still (get : Cxx ε σ σ) := fun _ _ held => held

theorem still_onObject {body : Cxx ε τ α} {object : τ} :
    Still (onObject body object : Cxx ε σ (α × τ)) := fun _ => preserves_onObject

theorem still_bind {first : Cxx ε σ α} {next : α → Cxx ε σ β} (head : Still first)
    (tail : ∀ value, Still (next value)) : Still (first >>= next) :=
  fun state => preserves_bind (head state) fun value => tail value state

theorem still_ite {condition : Prop} [Decidable condition] {left right : Cxx ε σ α}
    (yes : Still left) (no : Still right) : Still (if condition then left else right) :=
  fun state => preserves_ite (fun _ => yes state) fun _ => no state

theorem still_guard {condition : Prop} [Decidable condition] {error : ε}
    {next : PUnit → Cxx ε σ α} (tail : ∀ done, Still (next done)) :
    Still (if condition then throw error >>= next else next ⟨⟩) :=
  still_ite (still_bind (still_throw error) tail) (tail ⟨⟩)

theorem preserves_guard {condition : Prop} [Decidable condition] {error : ε}
    {next : PUnit → Cxx ε σ α} (tail : ∀ done, Preserves invariant (next done)) :
    Preserves invariant (if condition then throw error >>= next else next ⟨⟩) :=
  preserves_ite (fun _ => preserves_bind (preserves_throw error) tail) fun _ => tail ⟨⟩

def LeavesIn (property : σ → Prop) (body : Cxx ε σ α) : Prop :=
  ∀ state error left, body state = .thrown error left → property left

theorem leavesIn_pure {property : σ → Prop} (value : α) :
    LeavesIn property (Pure.pure value : Cxx ε σ α) := nofun

theorem leavesIn_get {property : σ → Prop} : LeavesIn property (get : Cxx ε σ σ) := nofun

theorem leavesIn_bind {property : σ → Prop} {first : Cxx ε σ α} {next : α → Cxx ε σ β}
    (head : LeavesIn property first) (tail : ∀ value, LeavesIn property (next value)) :
    LeavesIn property (first >>= next) := by
  intro state error left done
  rw [bind_run] at done
  cases ran : first state with
  | returned value middle =>
      rw [ran] at done
      exact tail value middle error left done
  | thrown same middle =>
      rw [ran] at done
      cases done
      exact head state error left ran
  | undefined =>
      rw [ran] at done
      cases done

def Establishes (property : σ → Prop) (body : Cxx ε σ α) : Prop :=
  ∀ state value reached, body state = .returned value reached → property reached

variable {property : σ → Prop}

theorem bind_inversion {first : Cxx ε σ α} {next : α → Cxx ε σ β} {state reached : σ} {result : β}
    (done : (first >>= next) state = .returned result reached) :
    ∃ value middle, first state = .returned value middle ∧
      next value middle = .returned result reached := by
  rw [bind_run] at done
  cases ran : first state with
  | returned value middle =>
      rw [ran] at done
      exact ⟨value, middle, rfl, done⟩
  | thrown error middle =>
      rw [ran] at done
      cases done
  | undefined =>
      rw [ran] at done
      cases done

theorem establishes_last {first : Cxx ε σ α} {next : α → Cxx ε σ β}
    (tail : ∀ value, Establishes property (next value)) : Establishes property (first >>= next) := by
  intro state result reached done
  obtain ⟨value, middle, _, ran⟩ := bind_inversion done
  exact tail value middle result reached ran

theorem establishes_first {first : Cxx ε σ α} {next : α → Cxx ε σ β}
    (head : Establishes property first) (tail : ∀ value, Preserves property (next value)) :
    Establishes property (first >>= next) := by
  intro state result reached done
  obtain ⟨value, middle, ran, rest⟩ := bind_inversion done
  have step := tail value middle (head state value middle ran)
  rw [rest] at step
  exact step

def Leads (before after : σ → Prop) (body : Cxx ε σ α) : Prop :=
  ∀ state value reached, before state → body state = .returned value reached → after reached

theorem leads_bind {before middle after : σ → Prop} {first : Cxx ε σ α} {next : α → Cxx ε σ β}
    (head : Leads before middle first) (tail : ∀ value, Leads middle after (next value)) :
    Leads before after (first >>= next) := by
  intro state result reached held done
  obtain ⟨value, between, ran, rest⟩ := bind_inversion done
  exact tail value between result reached (head state value between held ran) rest

theorem leads_get_bind {before after : σ → Prop} {next : σ → Cxx ε σ β}
    (tail : ∀ state, Leads before after (next state)) : Leads before after (get >>= next) :=
  fun state value reached held done => tail state state value reached held done

theorem leads_ite {before after : σ → Prop} {condition : Prop} [Decidable condition]
    {left right : Cxx ε σ α} (yes : Leads before after left) (no : Leads before after right) :
    Leads before after (if condition then left else right) := by
  by_cases held : condition
  · rwa [if_pos held]
  · rwa [if_neg held]

theorem Preserves.leads {body : Cxx ε σ α} (kept : Preserves invariant body) :
    Leads invariant invariant body := by
  intro state value reached held done
  have step := kept state held
  rwa [done] at step

theorem Preserves.thrown {body : Cxx ε σ α} (kept : Preserves invariant body) {state reached : σ}
    {error : ε} (held : invariant state) (done : body state = .thrown error reached) :
    invariant reached := by
  have step := kept state held
  rwa [done] at step

theorem forEach_thrown {body : α → Cxx ε σ Unit} {front back : List α} {item : α}
    {state middle reached : σ} {error : ε} (before : forEach body front state = .returned () middle)
    (done : body item middle = .thrown error reached) :
    forEach body (front ++ item :: back) state = .thrown error reached := by
  rw [forEach_append_returned before, forEach, bind_run, done]

def ThrowsUnless (condition : Prop) (body : Cxx ε σ α) (state left : σ) : Prop :=
  (condition → ∀ error reached, body state ≠ .thrown error reached) ∧
    (¬ condition → ∃ error, body state = .thrown error left)

variable {condition : Prop} {body : Cxx ε σ α} {state middle left : σ}

theorem throws_never (never : ∀ error reached, body state ≠ .thrown error reached)
    (held : condition) : ThrowsUnless condition body state left :=
  ⟨fun _ => never, fun failed => absurd held failed⟩

theorem throws_always {error : ε} (done : body state = .thrown error left)
    (failed : ¬ condition) : ThrowsUnless condition body state left :=
  ⟨fun held => absurd held failed, fun _ => ⟨error, done⟩⟩

theorem ThrowsUnless.congr {other : Prop} (throws : ThrowsUnless condition body state left)
    (same : condition ↔ other) : ThrowsUnless other body state left :=
  ⟨fun held => throws.1 (same.mpr held), fun failed => throws.2 fun held => failed (same.mp held)⟩

theorem throws_bind {first : Cxx ε σ β} {next : β → Cxx ε σ α} {value : β}
    (done : first state = .returned value middle)
    (throws : ThrowsUnless condition (next value) middle left) :
    ThrowsUnless condition (first >>= next) state left := by
  unfold ThrowsUnless
  rw [bind_returned done]
  exact throws

/-- The weakest condition for a return, if there is an outcome at all: nothing is thrown,
and what is returned and reached satisfies the condition. -/
def Delivers (body : Cxx ε σ α) (state : σ) (post : α → σ → Prop) : Prop :=
  match body state with
  | .returned value reached => post value reached
  | .thrown _ _ => False
  | .undefined => True

abbrev Quiet (body : Cxx ε σ α) (state : σ) : Prop := Delivers body state fun _ _ => True

def InPlace (body : Cxx ε σ α) (state : σ) : Prop :=
  ∀ error left, body state = .thrown error left → left = state

section Delivery
variable {post : α → σ → Prop}

@[simp] theorem delivers_pure (value : α) :
    Delivers (Pure.pure value : Cxx ε σ α) state post ↔ post value state := Iff.rfl

@[simp] theorem delivers_undefined : Delivers (undefined : Cxx ε σ α) state post := trivial

@[simp] theorem not_delivers_throw (error : ε) :
    ¬ Delivers (throw error : Cxx ε σ α) state post := id

@[simp] theorem delivers_get {post : σ → σ → Prop} :
    Delivers (get : Cxx ε σ σ) state post ↔ post state state := Iff.rfl

@[simp] theorem delivers_bind {first : Cxx ε σ α} {next : α → Cxx ε σ β} {post : β → σ → Prop} :
    Delivers (first >>= next) state post ↔
      Delivers first state fun value middle => Delivers (next value) middle post := by
  unfold Delivers
  rw [bind_run]
  cases first state <;> rfl

@[simp] theorem delivers_map {make : α → β} {body : Cxx ε σ α} {post : β → σ → Prop} :
    Delivers (make <$> body) state post ↔ Delivers body state fun value => post (make value) :=
  delivers_bind

theorem delivers_ite {condition : Prop} [Decidable condition] {left right : Cxx ε σ α} :
    Delivers (if condition then left else right) state post ↔
      (condition → Delivers left state post) ∧ (¬ condition → Delivers right state post) := by
  by_cases held : condition <;> simp [held]

@[simp] theorem delivers_guard {condition : Prop} [Decidable condition] {error : ε}
    {next : PUnit → Cxx ε σ α} :
    Delivers (if condition then throw error >>= next else next ⟨⟩) state post ↔
      ¬ condition ∧ Delivers (next ⟨⟩) state post := by
  by_cases held : condition <;> simp [held]

@[simp] theorem delivers_require {condition : Prop} [Decidable condition] {error : ε}
    {body : Cxx ε σ α} : Delivers (if condition then body else throw error) state post ↔
      condition ∧ Delivers body state post := by
  by_cases held : condition <;> simp [held]

@[simp] theorem delivers_onObject {body : Cxx ε τ α} {object : τ} {post : α × τ → σ → Prop} :
    Delivers (onObject body object : Cxx ε σ (α × τ)) state post ↔
      Delivers body object fun value reached => post (value, reached) state := by
  unfold Delivers onObject
  cases body object <;> rfl

theorem Delivers.imp {other : α → σ → Prop} {body : Cxx ε σ α} (delivers : Delivers body state post)
    (weaker : ∀ value reached, post value reached → other value reached) :
    Delivers body state other := by
  unfold Delivers at delivers ⊢
  cases done : body state with
  | returned value reached =>
      rw [done] at delivers
      exact weaker value reached delivers
  | thrown error reached => rwa [done] at delivers
  | undefined => trivial

end Delivery

theorem delivers_returned {body : Cxx ε σ α} {post : α → σ → Prop} {value : α}
    (done : body state = .returned value middle) : Delivers body state post ↔ post value middle := by
  rw [Delivers, done]

theorem not_delivers_thrown {body : Cxx ε σ α} {post : α → σ → Prop} {error : ε}
    (done : body state = .thrown error left) : ¬ Delivers body state post := by
  rw [Delivers, done]
  exact id

theorem delivers_nothing {body : Cxx ε σ α} {post : α → σ → Prop}
    (done : body state = .undefined) : Delivers body state post := by
  rw [Delivers, done]
  trivial

/-- The weakest condition for a defined outcome: what is returned and reached satisfies the
condition; what is thrown is defined, too. -/
def Settles (body : Cxx ε σ α) (state : σ) (post : α → σ → Prop) : Prop :=
  match body state with
  | .returned value reached => post value reached
  | .thrown _ _ => True
  | .undefined => False

section Settling
variable {post : α → σ → Prop}

@[simp] theorem settles_throw (error : ε) : Settles (throw error : Cxx ε σ α) state post := trivial

end Settling

theorem Still.inPlace {body : Cxx ε σ α} (still : Still body) : InPlace body state :=
  fun _ _ done => still.thrown done

theorem Quiet.inPlace {body : Cxx ε σ α} (quiet : Quiet body state) : InPlace body state :=
  fun _ _ done => absurd quiet (not_delivers_thrown done)

theorem inPlace_bind {first : Cxx ε σ α} {next : α → Cxx ε σ β} :
    InPlace (first >>= next) state ↔ InPlace first state ∧
      ∀ value middle, first state = .returned value middle →
        ∀ error left, next value middle = .thrown error left → left = state := by
  unfold InPlace
  rw [bind_run]
  cases done : first state with
  | returned value middle =>
      constructor
      · intro holds
        refine ⟨nofun, ?_⟩
        rintro _ _ ⟨⟩
        exact holds
      · intro holds
        exact holds.2 value middle rfl
  | thrown error middle =>
      constructor
      · intro holds
        exact ⟨fun _ _ same => by cases same; exact holds _ _ rfl, nofun⟩
      · intro holds _ _ same
        cases same
        exact holds.1 _ _ rfl
  | undefined => exact iff_of_true nofun ⟨nofun, nofun⟩

@[simp] theorem inPlace_pure (value : α) : InPlace (Pure.pure value : Cxx ε σ α) state := nofun

@[simp] theorem inPlace_throw (error : ε) : InPlace (throw error : Cxx ε σ α) state :=
  (still_throw error).inPlace

@[simp] theorem inPlace_throw_bind (error : ε) (next : α → Cxx ε σ β) :
    InPlace (throw error >>= next) state := fun _ _ done => by cases done; rfl

@[simp] theorem inPlace_get_bind {next : σ → Cxx ε σ β} :
    InPlace (get >>= next) state ↔ InPlace (next state) state := Iff.rfl

@[simp] theorem inPlace_map {make : α → β} {body : Cxx ε σ α} :
    InPlace (make <$> body) state ↔ InPlace body state := by
  change InPlace (body >>= fun value => Pure.pure (make value)) state ↔ InPlace body state
  rw [inPlace_bind]
  exact and_iff_left fun _ _ _ => nofun

theorem inPlace_ite {condition : Prop} [Decidable condition] {left right : Cxx ε σ α} :
    InPlace (if condition then left else right) state ↔
      (condition → InPlace left state) ∧ (¬ condition → InPlace right state) := by
  by_cases held : condition <;> simp [held]

@[simp] theorem inPlace_guard {condition : Prop} [Decidable condition] {error : ε}
    {next : PUnit → Cxx ε σ α} :
    InPlace (if condition then throw error >>= next else next ⟨⟩) state ↔
      (¬ condition → InPlace (next ⟨⟩) state) := by
  rw [inPlace_ite]
  exact and_iff_right fun _ => inPlace_throw_bind _ _

theorem inPlace_still_bind {first : Cxx ε σ α} {next : α → Cxx ε σ β} (still : Still first) :
    InPlace (first >>= next) state ↔
      ∀ value, first state = .returned value state → InPlace (next value) state := by
  rw [inPlace_bind]
  constructor
  · intro holds value done
    exact holds.2 value state done
  · intro holds
    refine ⟨still.inPlace, ?_⟩
    intro value middle done error left
    obtain rfl := still.returned done
    exact holds value done error left

theorem inPlace_moved_bind {first : Cxx ε σ α} {next : α → Cxx ε σ β} (steady : InPlace first state)
    (moves : ∀ value middle, first state = .returned value middle → middle ≠ state)
    (still : ∀ value, Still (next value)) :
    InPlace (first >>= next) state ↔ (Quiet first state → Quiet (first >>= next) state) := by
  rw [Quiet, Quiet, delivers_bind]
  cases done : first state with
  | returned value middle =>
      rw [delivers_returned done, delivers_returned done, true_implies, inPlace_bind]
      constructor
      · intro holds
        cases ran : next value middle with
        | returned result reached => exact (delivers_returned ran).mpr trivial
        | undefined => exact delivers_nothing ran
        | thrown error reached =>
            have same := (still value).thrown ran
            rw [same] at ran
            exact absurd (holds.2 value middle done error middle ran) (moves value middle done)
      · intro quiet
        refine ⟨steady, ?_⟩
        intro result reached ran error left thrown
        cases done.symm.trans ran
        exact absurd quiet (not_delivers_thrown thrown)
  | thrown error middle =>
      refine iff_of_true ?_ fun quiet => absurd quiet (not_delivers_thrown done)
      rw [inPlace_bind]
      refine ⟨steady, ?_⟩
      intro value reached ran
      cases done.symm.trans ran
  | undefined =>
      refine iff_of_true ?_ fun _ => delivers_nothing done
      rw [inPlace_bind]
      refine ⟨steady, ?_⟩
      intro value reached ran
      cases done.symm.trans ran

def whileLoop (pass : Cxx ε σ Bool) : Nat → σ → Option (Outcome ε σ Unit)
  | 0, _ => none
  | passes + 1, state => match pass state with
    | .returned true reached => whileLoop pass passes reached
    | .returned false reached => some (.returned () reached)
    | .thrown error reached => some (.thrown error reached)
    | .undefined => some .undefined

section Whiles
variable {pass : Cxx ε σ Bool} {outcome other : Outcome ε σ Unit}

theorem while_again (again : pass state = .returned true reached) (passes : Nat) :
    whileLoop pass (passes + 1) state = whileLoop pass passes reached := by
  rw [whileLoop, again]

theorem while_ends (done : pass state = .returned false reached) (passes : Nat) :
    whileLoop pass (passes + 1) state = some (.returned () reached) := by
  rw [whileLoop, done]

theorem while_throws {error : ε} (thrown : pass state = .thrown error reached) (passes : Nat) :
    whileLoop pass (passes + 1) state = some (.thrown error reached) := by
  rw [whileLoop, thrown]

theorem while_undefined (undefined : pass state = .undefined) (passes : Nat) :
    whileLoop pass (passes + 1) state = some .undefined := by
  rw [whileLoop, undefined]

theorem while_more {passes : Nat} (ran : whileLoop pass passes state = some outcome) (more : Nat) :
    whileLoop pass (passes + more) state = some outcome := by
  induction passes generalizing state with
  | zero => cases ran
  | succ passes ih =>
      rw [Nat.add_right_comm]
      rw [whileLoop] at ran ⊢
      cases turned : pass state with
      | returned again reached =>
          rw [turned] at ran
          cases again with
          | true => exact ih ran
          | false => exact ran
      | thrown error reached =>
          rw [turned] at ran
          exact ran
      | undefined =>
          rw [turned] at ran
          exact ran

theorem while_unique {first second : Nat} (one : whileLoop pass first state = some outcome)
    (two : whileLoop pass second state = some other) : outcome = other := by
  have left := while_more one second
  have right := while_more two first
  rw [Nat.add_comm, right] at left
  exact (Option.some.inj left).symm

theorem while_passes (states : Nat → σ) (count : Nat)
    (each : ∀ ind < count, pass (states ind) = .returned true (states (ind + 1))) (passes : Nat) :
    whileLoop pass (count + passes) (states 0) = whileLoop pass passes (states count) := by
  induction count generalizing states with
  | zero => rw [Nat.zero_add]
  | succ count ih =>
      rw [Nat.add_right_comm, while_again (each 0 (Nat.succ_pos _))]
      exact ih (fun ind => states (ind + 1)) fun ind within => each (ind + 1) (Nat.succ_lt_succ within)

theorem while_never (stuck : pass state = .returned true state) (passes : Nat) :
    whileLoop pass passes state = none := by
  induction passes with
  | zero => rfl
  | succ passes ih => rw [while_again stuck, ih]

theorem while_preserves (kept : Preserves invariant pass) {passes : Nat} (held : invariant state)
    (ran : whileLoop pass passes state = some outcome) : outcome.Leaves invariant := by
  induction passes generalizing state with
  | zero => cases ran
  | succ passes ih =>
      have step := kept state held
      rw [whileLoop] at ran
      cases turned : pass state with
      | returned again reached =>
          rw [turned] at ran step
          cases again with
          | true => exact ih step ran
          | false =>
              cases ran
              exact step
      | thrown error reached =>
          rw [turned] at ran step
          cases ran
          exact step
      | undefined =>
          rw [turned] at ran
          cases ran
          trivial

end Whiles

/-! Three conditions: before, behind a return, and behind an exception. -/

def Triple (before after failed : σ → Prop) (body : Cxx ε σ α) : Prop :=
  ∀ state, before state → match body state with
    | .returned _ reached => after reached
    | .thrown _ reached => failed reached
    | .undefined => True

section Triples
variable {before middle after failed : σ → Prop} {first : Cxx ε σ α} {next : α → Cxx ε σ β}

theorem triple_throw (error : ε) (left : ∀ state, before state → failed state) :
    Triple before after failed (throw error : Cxx ε σ α) := left

theorem triple_pure (value : α) (kept : ∀ state, before state → after state) :
    Triple before after failed (Pure.pure value : Cxx ε σ α) := kept

theorem triple_bind (head : Triple before middle failed first)
    (tail : ∀ value, Triple middle after failed (next value)) :
    Triple before after failed (first >>= next) := by
  intro state held
  have step := head state held
  rw [bind_run]
  cases ran : first state with
  | returned value reached =>
      rw [ran] at step
      exact tail value reached step
  | thrown error reached =>
      rw [ran] at step
      exact step
  | undefined => trivial

theorem triple_get_bind {rest : σ → Cxx ε σ β}
    (tail : ∀ state, before state → Triple before after failed (rest state)) :
    Triple before after failed (get >>= rest) := fun state held => tail state held state held

theorem triple_ite {condition : Prop} [Decidable condition] {left right : Cxx ε σ α}
    (yes : condition → Triple before after failed left)
    (no : ¬ condition → Triple before after failed right) :
    Triple before after failed (if condition then left else right) := by
  by_cases held : condition
  · rw [if_pos held]
    exact yes held
  · rw [if_neg held]
    exact no held

theorem triple_zoom {view : σ → τ} {update : τ → σ → σ} {body : Cxx ε τ α}
    (returns : ∀ state part, before state → after (update part state))
    (fails : ∀ state part, before state → failed (update part state)) :
    Triple before after failed (zoom view update body) := by
  intro state held
  unfold zoom
  cases body (view state) with
  | returned value part => exact returns state part held
  | thrown error part => exact fails state part held
  | undefined => trivial

theorem triple_onObject {body : Cxx ε τ α} {object : τ} (kept : ∀ state, before state → after state)
    (left : ∀ state, before state → failed state) :
    Triple before after failed (onObject body object : Cxx ε σ (α × τ)) := by
  intro state held
  unfold onObject
  cases body object with
  | returned value reached => exact kept state held
  | thrown error reached => exact left state held
  | undefined => trivial

theorem triple_leaves {body : Cxx ε σ α} (triple : Triple before after failed body) {state : σ}
    (held : before state) (returned : ∀ reached, after reached → property reached)
    (thrown : ∀ reached, failed reached → property reached) : (body state).Leaves property := by
  have step := triple state held
  cases ran : body state with
  | returned value reached =>
      rw [ran] at step
      exact returned reached step
  | thrown error reached =>
      rw [ran] at step
      exact thrown reached step
  | undefined => trivial

theorem triple_forEach_append {body : α → Cxx ε σ Unit} {front back : List α}
    (head : Triple before middle failed (forEach body front))
    (tail : Triple middle after failed (forEach body back)) :
    Triple before after failed (forEach body (front ++ back)) := by
  rw [forEach_append]
  exact triple_bind head fun _ => tail

end Triples

/-!
A concrete computation does what an abstract one does, on related states. Where
the abstract one is undefined, the concrete one may do anything.
-/

def Follows (related : τ → σ → Prop) : Outcome ε τ α → Outcome ε σ α → Prop
  | .returned value upper, .returned other lower => value = other ∧ related upper lower
  | .thrown error upper, .thrown other lower => error = other ∧ related upper lower
  | .undefined, _ => True
  | _, _ => False

def Simulates (related : τ → σ → Prop) (abstract : Cxx ε τ α) (concrete : Cxx ε σ α) : Prop :=
  ∀ upper lower, related upper lower → Follows related (abstract upper) (concrete lower)

section Simulations
variable {related : τ → σ → Prop} {abstract : Cxx ε τ α} {concrete : Cxx ε σ α}

theorem simulates_pure (value : α) :
    Simulates related (Pure.pure value : Cxx ε τ α) (Pure.pure value) := fun _ _ holds => ⟨rfl, holds⟩

theorem simulates_throw (error : ε) :
    Simulates related (throw error : Cxx ε τ α) (throw error) := fun _ _ holds => ⟨rfl, holds⟩

theorem follows_bind {upper : τ} {lower : σ} (head : Follows related (abstract upper) (concrete lower))
    {next : α → Cxx ε τ β} {behind : α → Cxx ε σ β}
    (tail : ∀ value, Simulates related (next value) (behind value)) :
    Follows related ((abstract >>= next) upper) ((concrete >>= behind) lower) := by
  rw [bind_run, bind_run]
  cases above : abstract upper with
  | undefined => trivial
  | returned value reached =>
      rw [above] at head
      cases below : concrete lower with
      | returned other arrived =>
          rw [below] at head
          obtain ⟨rfl, kept⟩ := head
          exact tail value reached arrived kept
      | thrown _ _ | undefined =>
          rw [below] at head
          exact head.elim
  | thrown error reached =>
      rw [above] at head
      cases below : concrete lower with
      | thrown other arrived =>
          rw [below] at head
          exact head
      | returned _ _ | undefined =>
          rw [below] at head
          exact head.elim

theorem simulates_bind (head : Simulates related abstract concrete) {next : α → Cxx ε τ β}
    {behind : α → Cxx ε σ β} (tail : ∀ value, Simulates related (next value) (behind value)) :
    Simulates related (abstract >>= next) (concrete >>= behind) :=
  fun upper lower holds => follows_bind (head upper lower holds) tail

theorem simulates_get_bind {next : τ → Cxx ε τ β} {behind : σ → Cxx ε σ β}
    (tail : ∀ upper lower, related upper lower → Simulates related (next upper) (behind lower)) :
    Simulates related (get >>= next) (get >>= behind) :=
  fun upper lower holds => tail upper lower holds upper lower holds

theorem simulates_ite {condition other : Prop} [Decidable condition] [Decidable other]
    (same : condition ↔ other) {left right : Cxx ε τ α} {first second : Cxx ε σ α}
    (yes : condition → Simulates related left first)
    (no : ¬ condition → Simulates related right second) :
    Simulates related (if condition then left else right) (if other then first else second) := by
  by_cases held : condition
  · rw [if_pos held, if_pos (same.mp held)]
    exact yes held
  · rw [if_neg held, if_neg fun holds => held (same.mpr holds)]
    exact no held

theorem simulates_zoom {γ : Type} {body : Cxx ε γ α} {view : τ → γ} {update : γ → τ → τ}
    {look : σ → γ} {write : γ → σ → σ}
    (same : ∀ upper lower, related upper lower → look lower = view upper)
    (kept : ∀ upper lower part, related upper lower → related (update part upper) (write part lower)) :
    Simulates related (zoom view update body) (zoom look write body) := by
  intro upper lower holds
  unfold zoom
  rw [same upper lower holds]
  cases body (view upper) with
  | returned value part => exact ⟨rfl, kept upper lower part holds⟩
  | thrown error part => exact ⟨rfl, kept upper lower part holds⟩
  | undefined => trivial

theorem simulates_onObject {γ : Type} {body : Cxx ε γ α} {object : γ} :
    Simulates related (onObject body object : Cxx ε τ (α × γ)) (onObject body object) := by
  intro upper lower holds
  unfold onObject
  cases body object with
  | returned value reached => exact ⟨rfl, holds⟩
  | thrown error reached => exact ⟨rfl, holds⟩
  | undefined => trivial

theorem simulates_forEach {body : β → Cxx ε τ Unit} {turn : β → Cxx ε σ Unit}
    (each : ∀ item, Simulates related (body item) (turn item)) (items : List β) :
    Simulates related (forEach body items) (forEach turn items) := by
  induction items with
  | nil => exact simulates_pure ()
  | cons item items ih => exact simulates_bind (each item) fun _ => ih

theorem simulates_rounds {γ : Type} {body : Cxx ε τ Unit} {turn : Cxx ε σ Unit}
    (each : Simulates related body turn) {items : List β} {others : List γ}
    (length : items.length = others.length) :
    Simulates related (forEach (fun _ => body) items) (forEach (fun _ => turn) others) := by
  induction items generalizing others with
  | nil =>
      obtain rfl := List.eq_nil_of_length_eq_zero length.symm
      exact simulates_pure ()
  | cons item items ih =>
      cases others with
      | nil => cases length
      | cons other others => exact simulates_bind each fun _ => ih (Nat.succ.inj length)

end Simulations

end Cxx

end Imperative
