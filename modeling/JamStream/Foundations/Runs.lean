import Mathlib

/-! Runs of a machine that takes one input at a time, and the rules every result about
them goes through: an invariant kept by each step, one kept by the steps that meet a
condition, and one kept by the steps of a system with a choice of them. -/

namespace JamStream.Runs
open Relation
variable {σ ι τ : Type*}

def run (step : σ → ι → σ) (s : σ) (is : List ι) : σ := is.foldl step s

@[simp] theorem run_nil (step : σ → ι → σ) (s : σ) : run step s [] = s := rfl

@[simp] theorem run_cons (step : σ → ι → σ) (s : σ) (i : ι) (is : List ι) :
    run step s (i :: is) = run step (step s i) is := rfl

theorem run_append (step : σ → ι → σ) (s : σ) (is js : List ι) :
    run step s (is ++ js) = run step (run step s is) js := List.foldl_append

theorem run_invariant {step : σ → ι → σ} {P : σ → Prop} (hstep : ∀ s i, P s → P (step s i))
    {s : σ} (hs : P s) (is : List ι) : P (run step s is) := by
  induction is generalizing s with
  | nil => exact hs
  | cons i is ih => exact ih (hstep s i hs)

/-- `P` holds in every state of the run, its first and last included. -/
def Throughout (step : σ → ι → σ) (P : σ → Prop) : σ → List ι → Prop
  | s, [] => P s
  | s, i :: is => P s ∧ Throughout step P (step s i) is

def Meets (step : σ → ι → σ) (C : σ → ι → Prop) : σ → List ι → Prop
  | _, [] => True
  | s, i :: is => C s i ∧ Meets step C (step s i) is

instance Meets.decidable (step : σ → ι → σ) (C : σ → ι → Prop) [∀ s i, Decidable (C s i)] :
    ∀ (s : σ) (is : List ι), Decidable (Meets step C s is)
  | _, [] => isTrue trivial
  | s, i :: is => @instDecidableAnd _ _ (inferInstance : Decidable (C s i))
      (Meets.decidable step C (step s i) is)

theorem Throughout.head {step : σ → ι → σ} {P : σ → Prop} {s : σ} {is : List ι}
    (h : Throughout step P s is) : P s := by
  cases is with
  | nil => exact h
  | cons i is => exact h.1

theorem Throughout.last {step : σ → ι → σ} {P : σ → Prop} {s : σ} {is : List ι}
    (h : Throughout step P s is) : P (run step s is) := by
  induction is generalizing s with
  | nil => exact h
  | cons i is ih => exact ih h.2

theorem Throughout.imp {step : σ → ι → σ} {P Q : σ → Prop} (hPQ : ∀ s, P s → Q s) {s : σ}
    {is : List ι} (h : Throughout step P s is) : Throughout step Q s is := by
  induction is generalizing s with
  | nil => exact hPQ s h
  | cons i is ih => exact ⟨hPQ s h.1, ih h.2⟩

theorem throughout_of_meets {step : σ → ι → σ} {C : σ → ι → Prop} {P : σ → Prop}
    (hstep : ∀ s i, P s → C s i → P (step s i)) {s : σ} (hs : P s) {is : List ι}
    (hC : Meets step C s is) : Throughout step P s is := by
  induction is generalizing s with
  | nil => exact hs
  | cons i is ih => exact ⟨hs, ih (hstep s i hs hC.1) hC.2⟩

/-- What each step keeps exactly when its input meets a condition, a run keeps exactly
when all of them do. -/
theorem run_iff_meets {step : σ → ι → σ} {C : σ → ι → Prop} {P : σ → Prop}
    (hstep : ∀ s i, P (step s i) ↔ P s ∧ C s i) {s : σ} {is : List ι} :
    P (run step s is) ↔ P s ∧ Meets step C s is := by
  induction is generalizing s with
  | nil => exact (and_iff_left trivial).symm
  | cons i is ih =>
    refine ih.trans ?_
    rw [hstep, and_assoc]
    rfl

/-- Inputs that meet a condition keep an invariant, and the invariant gives a property that
no other input keeps: a run has the property throughout exactly when all inputs meet it. -/
theorem throughout_iff_meets {step : σ → ι → σ} {C : σ → ι → Prop} {I P : σ → Prop}
    (hI : ∀ s, I s → P s) (hstep : ∀ s i, I s → C s i → I (step s i))
    (honly : ∀ s i, I s → P (step s i) → C s i) {s : σ} (hs : I s) {is : List ι} :
    Throughout step P s is ↔ Meets step C s is := by
  induction is generalizing s with
  | nil => exact iff_of_true (hI s hs) trivial
  | cons i is ih =>
    constructor
    · intro h
      have hC := honly s i hs h.2.head
      exact ⟨hC, (ih (hstep s i hs hC)).mp h.2⟩
    · exact fun h => ⟨hI s hs, (ih (hstep s i hs h.1)).mpr h.2⟩

theorem throughout_iff_meets_within {step : σ → ι → σ} {C D : σ → ι → Prop} {I P : σ → Prop}
    (hI : ∀ s, I s → P s) (hstep : ∀ s i, I s → D s i → C s i → I (step s i))
    (honly : ∀ s i, I s → D s i → P (step s i) → C s i) {s : σ} (hs : I s) {is : List ι}
    (hD : Meets step D s is) : Throughout step P s is ↔ Meets step C s is := by
  induction is generalizing s with
  | nil => exact iff_of_true (hI s hs) trivial
  | cons i is ih =>
    constructor
    · intro h
      have hC := honly s i hs hD.1 h.2.head
      exact ⟨hC, (ih (hstep s i hs hD.1 hC) hD.2).mp h.2⟩
    · exact fun h => ⟨hI s hs, (ih (hstep s i hs hD.1 h.1) hD.2).mpr h.2⟩

theorem Meets.imp {step : σ → ι → σ} {C D : σ → ι → Prop} {P : σ → Prop}
    (hstep : ∀ s i, P s → C s i → P (step s i)) (himp : ∀ s i, P s → C s i → D s i)
    {s : σ} (hs : P s) {is : List ι} (hC : Meets step C s is) : Meets step D s is := by
  induction is generalizing s with
  | nil => trivial
  | cons i is ih => exact ⟨himp s i hs hC.1, ih (hstep s i hs hC.1) hC.2⟩

theorem reflTransGen_invariant {r : τ → τ → Prop} {P : τ → Prop}
    (hstep : ∀ a b, P a → r a b → P b) {a b : τ} (ha : P a) (h : ReflTransGen r a b) : P b := by
  induction h with
  | refl => exact ha
  | tail _ hr ih => exact hstep _ _ ih hr

/-- The states a nondeterministic system reaches from its first state. -/
def Reachable (r : τ → τ → Prop) (init s : τ) : Prop := ReflTransGen r init s

theorem Reachable.bounded_invariant {r : τ → τ → Prop} {n : τ → ℕ} {B : ℕ} {P : τ → Prop}
    (hmono : ∀ a b, r a b → n a ≤ n b) (hstep : ∀ a b, P a → r a b → n b ≤ B → P b)
    {init s : τ} (hinit : P init) (h : Reachable r init s) (hs : n s ≤ B) : P s := by
  induction h with
  | refl => exact hinit
  | tail _ hr ih => exact hstep _ _ (ih (le_trans (hmono _ _ hr) hs)) hr hs

end JamStream.Runs
