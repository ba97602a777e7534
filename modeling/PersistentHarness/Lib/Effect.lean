import Mathlib.Tactic.Common

/-! # Computations that fail and keep what they did

A computation reads and writes a state and may fail; what it did to the state before it failed stays done. There are two kinds of
rules: for pre- and postconditions, one for each way to end, and for a relation that every step keeps.
-/

namespace PersistentHarness

universe u

variable {σ ε δ α β : Type u}

/-- A computation over a state, which also a failure leaves behind. -/
def Effect (σ ε α : Type u) : Type u := σ → Except ε α × σ

namespace Effect

instance : Monad (Effect σ ε) where
  pure a := fun s => (.ok a, s)
  bind x f := fun s =>
    match x s with
    | (.ok a, t) => f a t
    | (.error e, t) => (.error e, t)

/-- `throw`. -/
def raise (e : ε) : Effect σ ε α := fun s => (.error e, s)

/-- The failure of a computation becomes its value. -/
def attempt (x : Effect σ ε α) : Effect σ ε (Except ε α) := fun s => (.ok (x s).1, (x s).2)

/-- The value or the failure of an attempt. -/
def settle : Except ε α → Effect σ ε α
  | .ok a => pure a
  | .error e => raise e

/-- A failure is replaced by another one. -/
def rethrow (x : Effect σ ε α) (f : ε → δ) : Effect σ δ α := fun s => ((x s).1.mapError f, (x s).2)

/-- `finally`: the last step is taken however the computation ends, and a failure of it is the failure of the whole. -/
def ensuring (x : Effect σ ε α) (last : Effect σ ε PUnit) : Effect σ ε α := do
  let ended ← attempt x
  last
  settle ended

/-- Fail unless a condition holds. -/
def require (condition : Prop) [Decidable condition] (e : ε) : Effect σ ε PUnit := if condition then pure ⟨⟩ else raise e

def get : Effect σ ε σ := fun s => (.ok s, s)

def modify (f : σ → σ) : Effect σ ε PUnit := fun s => (.ok ⟨⟩, f s)

/-! ## Pre- and postconditions -/

/-- One condition for a value, another one for a failure. -/
def Ends (Q : α → σ → Prop) (E : ε → σ → Prop) : Except ε α × σ → Prop
  | (.ok a, s) => Q a s
  | (.error e, s) => E e s

def Spec (P : σ → Prop) (x : Effect σ ε α) (Q : α → σ → Prop) (E : ε → σ → Prop) : Prop := ∀ s, P s → Ends Q E (x s)

namespace Spec

variable {P : σ → Prop} {Q : α → σ → Prop} {M : β → σ → Prop} {E : ε → σ → Prop} {x : Effect σ ε α}

theorem pure {a : α} (holds : ∀ s, P s → Q a s) : Spec P (Pure.pure a) Q E := holds

theorem raise {e : ε} (holds : ∀ s, P s → E e s) : Spec P (Effect.raise e) Q E := holds

theorem get {Q : σ → σ → Prop} (holds : ∀ s, P s → Q s s) : Spec P Effect.get Q E := holds

theorem modify {Q : PUnit → σ → Prop} {f : σ → σ} (holds : ∀ s, P s → Q ⟨⟩ (f s)) : Spec P (Effect.modify f) Q E := holds

theorem bind {y : Effect σ ε β} {f : β → Effect σ ε α} (first : Spec P y M E) (rest : ∀ b, Spec (M b) (f b) Q E) :
    Spec P (y >>= f) Q E := by
  intro s holds
  have middle := first s holds
  change Ends Q E (match y s with | (.ok b, t) => f b t | (.error e, t) => (.error e, t))
  rcases ended : y s with ⟨_ | b, t⟩
  · rw [ended] at middle
    exact middle
  · rw [ended] at middle
    exact rest b t middle

theorem strengthen {P' : σ → Prop} (holds : Spec P x Q E) (implies : ∀ s, P' s → P s) : Spec P' x Q E :=
  fun s before => holds s (implies s before)

theorem weaken {Q' : α → σ → Prop} {E' : ε → σ → Prop} (holds : Spec P x Q E) (value : ∀ a s, Q a s → Q' a s)
    (failure : ∀ e s, E e s → E' e s) : Spec P x Q' E' := by
  intro s before
  have after := holds s before
  rcases ended : x s with ⟨_ | a, t⟩
  · rw [ended] at after
    exact failure _ t after
  · rw [ended] at after
    exact value a t after

theorem and {P' : σ → Prop} {Q' : α → σ → Prop} {E' : ε → σ → Prop} (first : Spec P x Q E) (second : Spec P' x Q' E') :
    Spec (fun s => P s ∧ P' s) x (fun a s => Q a s ∧ Q' a s) fun e s => E e s ∧ E' e s := by
  rintro s ⟨left, right⟩
  have one := first s left
  have other := second s right
  rcases ended : x s with ⟨_ | a, t⟩
  · rw [ended] at one other
    exact ⟨one, other⟩
  · rw [ended] at one other
    exact ⟨one, other⟩

theorem attempt {Q' : Except ε α → σ → Prop} (holds : Spec P x (fun a => Q' (.ok a)) fun e => Q' (.error e)) :
    Spec P (Effect.attempt x) Q' E := by
  intro s before
  have after := holds s before
  change Q' (x s).1 (x s).2
  rcases ended : x s with ⟨_ | a, t⟩
  · rw [ended] at after
    exact after
  · rw [ended] at after
    exact after

theorem settle {r : Except ε α} (value : ∀ a s, r = .ok a → P s → Q a s) (failure : ∀ e s, r = .error e → P s → E e s) :
    Spec P (Effect.settle r) Q E := by
  intro s before
  cases r with
  | error e => exact failure e s rfl before
  | ok a => exact value a s rfl before

theorem rethrow {f : ε → δ} {F : δ → σ → Prop} (holds : Spec P x Q fun e => F (f e)) :
    Spec P (Effect.rethrow x f) Q F := by
  intro s before
  have after := holds s before
  unfold Effect.rethrow
  rcases ended : x s with ⟨_ | a, t⟩
  · rw [ended] at after
    exact after
  · rw [ended] at after
    exact after

theorem require {Q : PUnit → σ → Prop} {condition : Prop} [Decidable condition] {e : ε}
    (passed : condition → ∀ s, P s → Q ⟨⟩ s) (refused : ¬condition → ∀ s, P s → E e s) :
    Spec P (Effect.require condition e) Q E := by
  intro s before
  unfold Effect.require
  split
  · next holds => exact passed holds s before
  · next fails => exact refused fails s before

end Spec

/-! ## Relations that every step keeps -/

/-- The state that is left is related to the one before, however the computation ends. -/
def Relates (R : σ → σ → Prop) (x : Effect σ ε α) : Prop := ∀ s, R s (x s).2

namespace Relates

variable {R : σ → σ → Prop} {x : Effect σ ε α}

theorem pure (refl : ∀ s, R s s) (a : α) : Relates R (Pure.pure a : Effect σ ε α) := refl

theorem raise (refl : ∀ s, R s s) (e : ε) : Relates R (Effect.raise e : Effect σ ε α) := refl

theorem require (refl : ∀ s, R s s) (condition : Prop) [Decidable condition] (e : ε) :
    Relates R (Effect.require condition e : Effect σ ε PUnit) := by
  intro s
  unfold Effect.require
  split
  · exact refl s
  · exact refl s

theorem bind (trans : ∀ s t u, R s t → R t u → R s u) {y : Effect σ ε β} {f : β → Effect σ ε α} (first : Relates R y)
    (rest : ∀ b, Relates R (f b)) : Relates R (y >>= f) := by
  intro s
  have before := first s
  change R s (match y s with | (.ok b, t) => f b t | (.error e, t) => (.error e, t)).2
  rcases ended : y s with ⟨_ | b, t⟩
  · rw [ended] at before
    exact before
  · rw [ended] at before
    exact trans s t _ before (rest b t)

theorem attempt (keeps : Relates R x) : Relates R (Effect.attempt x) := keeps

theorem settle (refl : ∀ s, R s s) (r : Except ε α) : Relates R (Effect.settle r : Effect σ ε α) := by
  cases r with
  | error e => exact refl
  | ok a => exact refl

theorem ensuring (refl : ∀ s, R s s) (trans : ∀ s t u, R s t → R t u → R s u) (keeps : Relates R x)
    {last : Effect σ ε PUnit} (lastKeeps : Relates R last) : Relates R (Effect.ensuring x last) :=
  bind trans (attempt keeps) fun ended => bind trans lastKeeps fun _ => settle refl ended

/-- What a relation carries forward holds after the computation. -/
theorem spec (keeps : Relates R x) {P Q : σ → Prop} (carries : ∀ s t, R s t → P s → Q t) :
    Spec P x (fun _ => Q) fun _ => Q := by
  intro s before
  have after := carries s _ (keeps s) before
  rcases ended : x s with ⟨_ | a, t⟩
  · rw [ended] at after
    exact after
  · rw [ended] at after
    exact after

end Relates

end Effect

end PersistentHarness
