import Mathlib.Data.List.Induction
import Mathlib.Tactic.Common

/-! # Traces of moves

A call that loops over tables is described by the small moves it makes. A move may emit an observation; a
trace collects the observations of its moves in order. An invariant of a state and an observer of what was
emitted holds at the end of a trace when every move keeps it, and every observation of a trace has the
move that made it, with what happened before.
-/

namespace PersistentHarness

variable {σ ε β ι : Type*} {move : σ → Option ε → σ → Prop}

/-- What every round of a loop leaves alone, the loop leaves alone. -/
theorem foldl_keeps {γ δ : Type*} (view : γ → δ) (f : γ → ι → γ) (keeps : ∀ g item, view (f g item) = view g)
    (items : List ι) (g : γ) : view (items.foldl f g) = view g := by
  induction items generalizing g with
  | nil => rfl
  | cons item items ih => rw [List.foldl_cons, ih, keeps]

/-- A preorder that every round of a loop climbs. -/
theorem foldl_relates {γ : Type*} {R : γ → γ → Prop} (refl : ∀ g, R g g) (trans : ∀ g h k, R g h → R h k → R g k)
    (f : γ → ι → γ) (round : ∀ g item, R g (f g item)) (items : List ι) (g : γ) : R g (items.foldl f g) := by
  induction items generalizing g with
  | nil => exact refl g
  | cons item items ih => exact trans _ _ _ (round g item) (ih _)

/-- What a good event keeps and no other does holds all along a history exactly when its events are good. -/
theorem prefixes_iff {P : List ε → Prop} {good : List ε → ε → Prop} {events : List ε} (empty : P [])
    (step : ∀ before event, before ++ [event] <+: events → P before → (P (before ++ [event]) ↔ good before event)) :
    (∀ before, before <+: events → P before) ↔ ∀ before event, before ++ [event] <+: events → good before event := by
  constructor
  · intro holds before event within
    have earlier : before <+: events := (List.prefix_append before [event]).trans within
    exact (step before event within (holds before earlier)).mp (holds _ within)
  · intro good before within
    induction before using List.reverseRecOn with
    | nil => exact empty
    | append_singleton before event ih =>
      have earlier := ih ((List.prefix_append before [event]).trans within)
      exact (step before event within earlier).mpr (good before event within)

/-- A sequence of moves, with all that it emits. -/
inductive Trace (move : σ → Option ε → σ → Prop) : σ → List ε → σ → Prop
  | nil (s : σ) : Trace move s [] s
  | snoc {s t u : σ} {emitted : List ε} {emission : Option ε} (before : Trace move s emitted t) (last : move t emission u) :
      Trace move s (emitted ++ emission.toList) u

namespace Trace

theorem single {s t : σ} {emission : Option ε} (only : move s emission t) : Trace move s emission.toList t := by
  have trace := Trace.snoc (.nil s) only
  rwa [List.nil_append] at trace

theorem emits {s t : σ} {e : ε} (only : move s (some e) t) : Trace move s [e] t := single only

theorem silent {s t : σ} (only : move s none t) : Trace move s [] t := single only

theorem append {s t u : σ} {first second : List ε} (before : Trace move s first t) (after : Trace move t second u) :
    Trace move s (first ++ second) u := by
  induction after with
  | nil => rwa [List.append_nil]
  | snoc _ last ih =>
    rw [← List.append_assoc]
    exact ih.snoc last

theorem silent_append {s t u : σ} {emitted : List ε} (before : Trace move s [] t) (after : Trace move t emitted u) :
    Trace move s emitted u := before.append after

theorem append_silent {s t u : σ} {emitted : List ε} (before : Trace move s emitted t) (after : Trace move t [] u) :
    Trace move s emitted u := by
  have trace := before.append after
  rwa [List.append_nil] at trace

theorem preserves {P : σ → Prop} (keeps : ∀ s emission t, move s emission t → P s → P t) {s t : σ} {emitted : List ε}
    (trace : Trace move s emitted t) (holds : P s) : P t := by
  induction trace with
  | nil => exact holds
  | snoc _ last ih => exact keeps _ _ _ last ih

theorem relates {R : σ → σ → Prop} (refl : ∀ s, R s s) (trans : ∀ s t u, R s t → R t u → R s u)
    (climbs : ∀ s emission t, move s emission t → R s t) {s t : σ} {emitted : List ε} (trace : Trace move s emitted t) :
    R s t := by
  induction trace with
  | nil => exact refl _
  | snoc _ last ih => exact trans _ _ _ ih (climbs _ _ _ last)

theorem silent_before {R : σ → σ → Prop} (before : ∀ s t u, move s none t → R t u → R s u) {s t u : σ} {emitted : List ε}
    (trace : Trace move s emitted t) (quiet : emitted = []) (step : R t u) : R s u := by
  induction trace generalizing u with
  | nil => exact step
  | snoc _ last ih =>
    obtain ⟨first, none⟩ := List.append_eq_nil_iff.mp quiet
    rw [Option.toList_eq_nil_iff] at none
    subst none
    exact ih first (before _ _ _ last step)

/-- A trace with at most one emission takes at most one step, when silent moves around a step do not disturb it. -/
theorem at_most_one_step {R : σ → σ → Prop} (refl : ∀ s, R s s) (before : ∀ s t u, move s none t → R t u → R s u)
    (after : ∀ s t u, R s t → move t none u → R s u) (emits : ∀ s e t, move s (some e) t → R s t) {s t : σ}
    {emitted : List ε} (trace : Trace move s emitted t) (once : emitted.length ≤ 1) : R s t := by
  induction trace with
  | nil => exact refl _
  | snoc first last ih =>
    rw [List.length_append] at once
    rename_i emission
    cases emission with
    | none => exact after _ _ _ (ih (by omega)) last
    | some e =>
      rw [Option.toList_some, List.length_singleton] at once
      exact first.silent_before before (List.length_eq_zero_iff.mp (by omega)) (emits _ _ _ last)

theorem observes {P : σ → β → Prop} {observe : β → ε → β}
    (keeps : ∀ s emission t b, move s emission t → P s b → P t (emission.toList.foldl observe b)) {s t : σ}
    {emitted : List ε} {b : β} (trace : Trace move s emitted t) (holds : P s b) : P t (emitted.foldl observe b) := by
  induction trace with
  | nil => exact holds
  | snoc _ last ih =>
    rw [List.foldl_append]
    exact keeps _ _ _ _ last ih

theorem emission {s t : σ} {emitted : List ε} (trace : Trace move s emitted t) {first later : List ε} {e : ε}
    (split : emitted = first ++ e :: later) : ∃ u v, Trace move s first u ∧ move u (some e) v := by
  induction trace generalizing later with
  | nil => simp at split
  | @snoc t u emitted emission before last ih =>
    cases emission with
    | none =>
      rw [Option.toList_none, List.append_nil] at split
      exact ih split
    | some final =>
      rw [Option.toList_some] at split
      rcases List.eq_nil_or_concat later with rfl | ⟨rest, other, rfl⟩
      · obtain ⟨rfl, same⟩ := List.append_inj' split rfl
        cases same
        exact ⟨t, u, before, last⟩
      · have shorter : emitted ++ [final] = (first ++ e :: rest) ++ [other] := by rw [split]; simp
        exact ih (List.append_inj' shorter rfl).1

/-- A loop whose rounds emit nothing, seen through a projection to the state. -/
theorem foldl_silent {γ : Type*} (state : γ → σ) {f : γ → ι → γ} {items : List ι}
    (round : ∀ g, ∀ item ∈ items, Trace move (state g) [] (state (f g item))) (g : γ) :
    Trace move (state g) [] (state (items.foldl f g)) := by
  induction items generalizing g with
  | nil => exact .nil _
  | cons item items ih =>
    have first := round g item (List.mem_cons_self ..)
    exact first.silent_append (ih (fun g other member => round g other (List.mem_cons_of_mem _ member)) _)

theorem foldl_collect {f : σ × List β → ι → σ × List β} (emit : β → ε) {P : σ → List ι → Prop} {items : List ι}
    {s : σ} (collected : List β) (holds : P s items)
    (round : ∀ s collected item rest, P s (item :: rest) →
      ∃ more, (f (s, collected) item).2 = collected ++ more ∧ Trace move s (more.map emit) (f (s, collected) item).1
        ∧ P (f (s, collected) item).1 rest) :
    ∃ more, (items.foldl f (s, collected)).2 = collected ++ more
      ∧ Trace move s (more.map emit) (items.foldl f (s, collected)).1 ∧ P (items.foldl f (s, collected)).1 [] := by
  induction items generalizing s collected with
  | nil => exact ⟨[], (List.append_nil _).symm, .nil s, holds⟩
  | cons item items ih =>
    obtain ⟨more, collects, first, kept⟩ := round s collected item items holds
    obtain ⟨rest, collects', later, final⟩ := ih (f (s, collected) item).2 kept
    refine ⟨more ++ rest, ?_, ?_, final⟩
    · rw [List.foldl_cons, collects', collects, List.append_assoc]
    · rw [List.map_append]
      exact first.append later

end Trace

end PersistentHarness

/-! ## Courses and histories

A course is a list of events that a step function takes in turn, each permitted in the state that it meets. A history lists
what was observed, the newest entry first; it is in order when each entry is permitted by the entries before it.
-/

namespace PersistentHarness

section Courses

variable {σ ε : Type*} {step : σ → ε → σ} {permitted : σ → ε → Prop}

/-- Every event is permitted in the state that it meets. -/
def Course (step : σ → ε → σ) (permitted : σ → ε → Prop) : σ → List ε → Prop
  | _, [] => True
  | s, event :: rest => permitted s event ∧ Course step permitted (step s event) rest

namespace Course

theorem preserves {P : σ → Prop} (keeps : ∀ s event, P s → permitted s event → P (step s event)) {s : σ} {events : List ε}
    (course : Course step permitted s events) (holds : P s) : P (events.foldl step s) := by
  induction events generalizing s with
  | nil => exact holds
  | cons event rest ih => exact ih course.2 (keeps s event holds course.1)

end Course

end Courses

section Histories

variable {α : Type*} {permitted : List α → α → Prop} {past later : List α} {item : α}

/-- Every entry is permitted by the entries before it. -/
def InOrder (permitted : List α → α → Prop) : List α → Prop
  | [] => True
  | item :: past => permitted past item ∧ InOrder permitted past

end Histories

end PersistentHarness
