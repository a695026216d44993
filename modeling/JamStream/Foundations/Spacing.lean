import Mathlib

/-! How many events fit in a while, from how they follow one another: events that keep a distance,
and events that are numbered and start again at one. The latest comes first. -/

namespace JamStream.Foundations

theorem length_le_of_spaced {gap : ℕ} (hgap : 0 < gap) (from_ : ℕ) :
    ∀ {times : List ℕ} {d : ℕ}, times.Pairwise (fun later earlier => earlier + gap ≤ later) →
      (∀ t ∈ times, from_ ≤ t ∧ t ≤ from_ + d) → times.length ≤ d / gap + 1
  | [], _, _, _ => Nat.zero_le _
  | [_], _, _, _ => Nat.le_add_left 1 _
  | later :: t :: times, d, hspaced, hwithin => by
    obtain ⟨hfirst, hrest⟩ := List.pairwise_cons.mp hspaced
    have hlater := hwithin later List.mem_cons_self
    have ht := hwithin t (List.mem_cons_of_mem _ List.mem_cons_self)
    have hroom := hfirst t List.mem_cons_self
    have hshorter : (t :: times).length ≤ (d - gap) / gap + 1 := by
      refine length_le_of_spaced hgap from_ hrest fun u hu => ?_
      have hu' := hfirst u hu
      have hfrom := (hwithin u (List.mem_cons_of_mem _ hu)).1
      constructor <;> omega
    have hdiv : d / gap = (d - gap) / gap + 1 :=
      Nat.div_eq_sub_div hgap (by omega)
    rw [List.length_cons, hdiv]
    exact Nat.succ_le_succ hshorter

theorem length_le_of_numbered {α : Type*} {number : α → ℕ} {limit : ℕ} {events : List α}
    (hchain : events.IsChain fun later earlier =>
      number later = 1 ∨ number later = number earlier + 1)
    (hnumber : ∀ e ∈ events, 1 ≤ number e ∧ number e ≤ limit) :
    events.length ≤ limit * (events.countP (fun e => number e = 1) + 1) := by
  -- the run that is open counts with its number, every other one with the limit
  have hopen : ∀ e ∈ events.head?, events.length ≤
      number e + limit * events.countP fun e => number e = 1 := by
    induction events with
    | nil => exact fun e he => by cases he
    | cons later events ih =>
      intro e he
      obtain rfl := Option.some.inj he
      cases events with
      | nil =>
        have hpos := (hnumber later List.mem_cons_self).1
        rw [List.length_singleton]
        exact hpos.trans (Nat.le_add_right _ _)
      | cons earlier events =>
        obtain ⟨hnext, htail⟩ := List.isChain_cons_cons.mp hchain
        have hrest := ih htail (fun e he => hnumber e (List.mem_cons_of_mem _ he)) earlier rfl
        have hlimit := (hnumber earlier (List.mem_cons_of_mem _ List.mem_cons_self)).2
        rw [List.length_cons]
        by_cases hone : number later = 1
        · have hcount : (later :: earlier :: events).countP (fun e => number e = 1) =
              (earlier :: events).countP (fun e => number e = 1) + 1 :=
            List.countP_cons_of_pos (decide_eq_true hone)
          rw [hcount, Nat.mul_succ]
          omega
        · have hcount : (later :: earlier :: events).countP (fun e => number e = 1) =
              (earlier :: events).countP (fun e => number e = 1) :=
            List.countP_cons_of_neg fun h => hone (of_decide_eq_true h)
          have hup := hnext.resolve_left hone
          rw [hcount]
          omega
  cases events with
  | nil => exact Nat.zero_le _
  | cons e events =>
    have hlimit := (hnumber e List.mem_cons_self).2
    have h := hopen e rfl
    rw [Nat.mul_succ]
    omega

end JamStream.Foundations
