import Mathlib

/-! A loop over records that share a state: each record in turn is changed together with
it. Where every record keeps to a part of the state that is its own, what holds of a record
and its part survives the steps of the others, and the records of one kind can be left out
without the rest noticing. -/

namespace JamStream.Foundations.Each
variable {α σ κ : Type*}

def each (f : α → σ → α × σ) : List α → σ → List α × σ
  | [], s => ([], s)
  | a :: as, s => ((f a s).1 :: (each f as (f a s).2).1, (each f as (f a s).2).2)

variable {f : α → σ → α × σ}

@[simp] theorem each_nil (s : σ) : each f [] s = ([], s) := rfl

theorem each_cons (a : α) (as : List α) (s : σ) :
    each f (a :: as) s = ((f a s).1 :: (each f as (f a s).2).1, (each f as (f a s).2).2) := rfl

/-- A step keeps `I` of the shared state and `P` of its record, and changes what belongs to
the record's key and nothing else; `P` of a record does not depend on what belongs to other
keys. -/
structure Owned (f : α → σ → α × σ) (key : α → κ) (I : σ → Prop) (P : α → σ → Prop)
    (R : κ → σ → σ → Prop) : Prop where
  step : ∀ a s, I s → P a s →
    key (f a s).1 = key a ∧ I (f a s).2 ∧ P (f a s).1 (f a s).2 ∧ R (key a) s (f a s).2
  frame : ∀ k a s s', R k s s' → key a ≠ k → P a s → P a s'

variable {key : α → κ} {I : σ → Prop} {P : α → σ → Prop} {R : κ → σ → σ → Prop}

theorem Owned.later (h : Owned f key I P R) {a : α} {as : List α} {s : σ} (hs : I s)
    (hnodup : ((a :: as).map key).Nodup) (has : ∀ b ∈ a :: as, P b s) :
    ∀ b ∈ as, P b (f a s).2 := by
  obtain ⟨-, -, -, hR⟩ := h.step a s hs (has a List.mem_cons_self)
  intro b hb
  refine h.frame _ b s _ hR (fun heq => (List.nodup_cons.mp hnodup).1 ?_)
    (has b (List.mem_cons_of_mem _ hb))
  exact heq ▸ List.mem_map_of_mem hb

theorem Owned.each (h : Owned f key I P R) {as : List α} {s : σ}
    (hnodup : (as.map key).Nodup) (hs : I s) (has : ∀ a ∈ as, P a s) :
    (each f as s).1.map key = as.map key ∧ I (each f as s).2 ∧
      ∀ a ∈ (each f as s).1, P a (each f as s).2 := by
  -- A record that is done keeps its `P` through the rest of the loop.
  suffices hdone : ∀ (done : List α), (∀ a ∈ done, P a s ∧ key a ∉ as.map key) →
      (Each.each f as s).1.map key = as.map key ∧ I (Each.each f as s).2 ∧
        (∀ a ∈ done, P a (Each.each f as s).2) ∧
          ∀ a ∈ (Each.each f as s).1, P a (Each.each f as s).2 by
    obtain ⟨hkeys, hI, _, hP⟩ := hdone [] (by simp)
    exact ⟨hkeys, hI, hP⟩
  induction as generalizing s with
  | nil => exact fun done hdone => ⟨rfl, hs, fun a ha => (hdone a ha).1, by simp⟩
  | cons a as ih =>
    intro done hdone
    obtain ⟨hkey, hI, hP, hR⟩ := h.step a s hs (has a List.mem_cons_self)
    have hlater := h.later hs hnodup has
    obtain ⟨hnotin, hrest⟩ := List.nodup_cons.mp hnodup
    obtain ⟨hkeys, hI', hdone', hrest'⟩ := ih hrest hI hlater ((f a s).1 :: done) (by
      intro b hb
      rcases List.mem_cons.mp hb with rfl | hb
      · exact ⟨hP, by rwa [hkey]⟩
      · obtain ⟨hPb, hb'⟩ := hdone b hb
        rw [List.map_cons, List.mem_cons, not_or] at hb'
        exact ⟨h.frame _ b s _ hR hb'.1 hPb, hb'.2⟩)
    refine ⟨?_, hI', fun b hb => hdone' b (List.mem_cons_of_mem _ hb), fun b hb => ?_⟩
    · rw [each_cons, List.map_cons, List.map_cons, hkey, hkeys]
    · rcases List.mem_cons.mp hb with rfl | hb
      · exact hdone' _ List.mem_cons_self
      · exact hrest' b hb

/-- Records left out of the loop, with what belongs to them hidden from the state, are not
missed by the others. -/
theorem Owned.each_filter (h : Owned f key I P R) {q : κ → Bool} {hide : σ → σ}
    (hkeep : ∀ a s, P a s → q (key a) → f a (hide s) = ((f a s).1, hide (f a s).2))
    (hskip : ∀ k s s', R k s s' → q k = false → hide s' = hide s) {as : List α} {s : σ}
    (hnodup : (as.map key).Nodup) (hs : I s) (has : ∀ a ∈ as, P a s) :
    Each.each f (as.filter fun a => q (key a)) (hide s) =
      ((Each.each f as s).1.filter (fun a => q (key a)), hide (Each.each f as s).2) := by
  induction as generalizing s with
  | nil => rfl
  | cons a as ih =>
    have ha := has a List.mem_cons_self
    obtain ⟨hkey, hI, -, hR⟩ := h.step a s hs ha
    have hrest := ih (List.nodup_cons.mp hnodup).2 hI (h.later hs hnodup has)
    rw [each_cons]
    cases hq : q (key a) with
    | true =>
      simp only [List.filter_cons, hq, hkey, if_true, each_cons, hkeep a s ha hq, hrest]
    | false =>
      simp only [List.filter_cons, hq, hkey, Bool.false_eq_true, if_false, ← hrest,
        hskip _ _ _ hR hq]

end JamStream.Foundations.Each
