import PersistentHarness.Lib.Assoc

/-! # Checked computations

Inversion rules for programs that check and then continue: a successful bind passes through both
halves, a successful check holds, and a fold over a list succeeds step by step.
-/

namespace PersistentHarness.Checked

universe u v w

variable {ε : Type v} {α β : Type u}

/-- Fail with `error` unless the condition holds. -/
def require (condition : Prop) [Decidable condition] (error : ε) : Except ε Unit :=
  if condition then .ok () else .error error

@[simp] theorem require_eq_ok {condition : Prop} [Decidable condition] {error : ε} {u : Unit} :
    require condition error = .ok u ↔ condition := by
  unfold require
  split <;> simp_all

theorem require_of {condition : Prop} [Decidable condition] {error : ε} (holds : condition) :
    require condition error = .ok () := if_pos holds

theorem bind_eq_ok {x : Except ε α} {f : α → Except ε β} {b : β} :
    (x >>= f) = .ok b ↔ ∃ a, x = .ok a ∧ f a = .ok b := by
  cases x with
  | error e =>
    constructor
    · rintro ⟨⟩
    · rintro ⟨_, ⟨⟩, _⟩
  | ok a =>
    constructor
    · intro success
      exact ⟨a, rfl, success⟩
    · rintro ⟨b, same, success⟩
      cases same
      exact success

@[simp] theorem ok_bind (a : α) (f : α → Except ε β) : (Except.ok a >>= f) = f a := rfl

@[simp] theorem error_bind (e : ε) (f : α → Except ε β) :
    ((Except.error e : Except ε α) >>= f) = .error e := rfl

@[simp] theorem pure_eq_ok {a b : α} : (pure a : Except ε α) = .ok b ↔ a = b :=
  ⟨fun same => Except.ok.inj same, congrArg Except.ok⟩

/-! ## Postconditions -/

/-- Whatever a successful computation returns satisfies a condition. -/
def Ensures (x : Except ε α) (post : α → Prop) : Prop := ∀ a, x = .ok a → post a

namespace Ensures

theorem ok {post : α → Prop} {a : α} (holds : post a) : Ensures (.ok a : Except ε α) post := by
  rintro _ ⟨⟩
  exact holds

theorem pure {post : α → Prop} {a : α} (holds : post a) : Ensures (Pure.pure a : Except ε α) post := ok holds

theorem error {post : α → Prop} (e : ε) : Ensures (.error e : Except ε α) post := by rintro _ ⟨⟩

theorem any (x : Except ε α) : Ensures x fun _ => True := fun _ _ => trivial

theorem require (condition : Prop) [Decidable condition] (e : ε) : Ensures (Checked.require condition e) fun _ => condition :=
  fun _ success => require_eq_ok.mp success

theorem bind {x : Except ε α} {f : α → Except ε β} {middle : α → Prop} {post : β → Prop} (first : Ensures x middle)
    (rest : ∀ a, middle a → Ensures (f a) post) : Ensures (x >>= f) post := by
  intro b success
  obtain ⟨a, returned, done⟩ := bind_eq_ok.mp success
  exact rest a (first a returned) b done

theorem map {x : Except ε α} {f : α → β} {post : β → Prop} (done : Ensures x fun a => post (f a)) :
    Ensures (x.map f) post := by
  cases x with
  | error e => exact error e
  | ok a => exact ok (done a rfl)

theorem ite {condition : Prop} [Decidable condition] {x y : Except ε α} {post : α → Prop}
    (yes : condition → Ensures x post) (no : ¬condition → Ensures y post) : Ensures (if condition then x else y) post := by
  split
  · next holds => exact yes holds
  · next fails => exact no fails

theorem weaken {x : Except ε α} {post weaker : α → Prop} (done : Ensures x post) (implies : ∀ a, post a → weaker a) :
    Ensures x weaker := fun a success => implies a (done a success)

end Ensures

section Folds

variable {ι : Type w}

theorem foldlM_invariant {step : β → ι → Except ε β} {items : List ι} {init final : β}
    (P : β → Prop) (start : P init)
    (keeps : ∀ state item next, item ∈ items → P state → step state item = .ok next → P next)
    (success : items.foldlM step init = .ok final) : P final := by
  induction items generalizing init with
  | nil =>
    cases success
    exact start
  | cons item rest ih =>
    rw [List.foldlM_cons, bind_eq_ok] at success
    obtain ⟨middle, head, tail⟩ := success
    exact ih (keeps _ _ _ (List.mem_cons_self ..) start head)
      (fun state other next member => keeps state other next (List.mem_cons_of_mem _ member)) tail

/-- A fold that checks each item on its own, extends the state by it and keeps the state fitting
succeeds exactly when every item is valid and the extended state fits. -/
theorem foldlM_eq_ok {step : β → ι → Except ε β} (valid : ι → Prop) (fits : β → Prop) (extend : β → ι → β)
    (shrink : ∀ state item, fits (extend state item) → fits state)
    (spec : ∀ state item next, fits state →
      (step state item = .ok next ↔ valid item ∧ fits (extend state item) ∧ next = extend state item))
    {items : List ι} {init final : β} (start : fits init) :
    items.foldlM step init = .ok final ↔
      (∀ item ∈ items, valid item) ∧ fits (items.foldl extend init) ∧ final = items.foldl extend init := by
  have shrinkAll : ∀ (rest : List ι) (state : β), fits (rest.foldl extend state) → fits state := by
    intro rest
    induction rest with
    | nil => exact fun _ fit => fit
    | cons item rest ih => exact fun state fit => shrink state item (ih _ fit)
  induction items generalizing init with
  | nil =>
    simp only [List.foldlM_nil, pure_eq_ok, List.not_mem_nil, IsEmpty.forall_iff, implies_true,
      List.foldl_nil, true_and, start]
    exact eq_comm
  | cons item rest ih =>
    rw [List.foldlM_cons, bind_eq_ok, List.forall_mem_cons, List.foldl_cons]
    constructor
    · rintro ⟨middle, head, tail⟩
      obtain ⟨first, fit, rfl⟩ := (spec _ _ _ start).mp head
      obtain ⟨later, fitAll, same⟩ := (ih fit).mp tail
      exact ⟨⟨first, later⟩, fitAll, same⟩
    · rintro ⟨⟨first, later⟩, fitAll, same⟩
      have fit := shrinkAll rest _ fitAll
      exact ⟨_, (spec _ _ _ start).mpr ⟨first, fit, rfl⟩, (ih fit).mpr ⟨later, fitAll, same⟩⟩

/-- A check of every element succeeds exactly when each one does. -/
theorem forM_eq_ok {f : ι → Except ε PUnit.{u + 1}} {items : List ι} {done : PUnit} :
    items.forM f = .ok done ↔ ∀ item ∈ items, f item = .ok ⟨⟩ := by
  induction items with
  | nil => exact iff_of_true rfl (fun _ member => by cases member)
  | cons item rest ih =>
    have step : (item :: rest).forM f = f item >>= fun _ => rest.forM f := rfl
    rw [step, bind_eq_ok, List.forall_mem_cons, ih]
    constructor
    · rintro ⟨⟨⟩, head, tail⟩
      exact ⟨head, tail⟩
    · rintro ⟨head, tail⟩
      exact ⟨⟨⟩, head, tail⟩

end Folds

section Fresh

variable {κ ν : Type u} [DecidableEq κ]

/-- Bind a key that is not bound yet. -/
def insertFresh (error : ε) (m : List (κ × ν)) (k : κ) (v : ν) : Except ε (List (κ × ν)) :=
  if Assoc.has m k then .error error else .ok (Assoc.set m k v)

theorem insertFresh_eq_ok {error : ε} {m n : List (κ × ν)} {k : κ} {v : ν} :
    insertFresh error m k v = .ok n ↔ k ∉ Assoc.keys m ∧ n = m ++ [(k, v)] := by
  unfold insertFresh
  by_cases bound : k ∈ Assoc.keys m
  · rw [if_pos (Assoc.has_iff_mem_keys.mpr bound)]
    constructor
    · rintro ⟨⟩
    · rintro ⟨fresh, _⟩
      exact absurd bound fresh
  · rw [if_neg (mt Assoc.has_iff_mem_keys.mp bound),
      Assoc.set_of_lookup_none (Assoc.lookup_eq_none_iff.mpr bound)]
    constructor
    · rintro ⟨⟩
      exact ⟨bound, rfl⟩
    · rintro ⟨_, rfl⟩
      rfl

end Fresh

end PersistentHarness.Checked
