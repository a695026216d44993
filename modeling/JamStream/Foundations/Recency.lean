import Mathlib

/-! Keys named one after another, and which of two was named longer ago. -/

namespace JamStream.Foundations.Recency
variable {κ : Type*} {names : List κ} {k l : κ} {m n : ℕ}

/-- Where a key was named last, counted from one. -/
def LastNamed (names : List κ) (k : κ) (n : ℕ) : Prop :=
  ∃ before after, names = before ++ k :: after ∧ k ∉ after ∧ n = before.length + 1

/-- Of the two keys, the second has been named since the first was. -/
def Older (names : List κ) (k l : κ) : Prop :=
  ∃ before after, names = before ++ after ∧ k ∉ after ∧ l ∈ after

theorem lastNamed_append_self (names : List κ) (k : κ) :
    LastNamed (names ++ [k]) k (names.length + 1) :=
  ⟨names, [], rfl, List.not_mem_nil, rfl⟩

theorem LastNamed.append (h : LastNamed names k n) (hne : k ≠ l) :
    LastNamed (names ++ [l]) k n := by
  obtain ⟨before, after, rfl, hafter, rfl⟩ := h
  refine ⟨before, after ++ [l], ?_, ?_, rfl⟩
  · rw [List.append_assoc, List.cons_append]
  · rw [List.mem_append, List.mem_singleton, not_or]
    exact ⟨hafter, hne⟩

theorem LastNamed.le_length (h : LastNamed names k n) : n ≤ names.length := by
  obtain ⟨before, after, rfl, -, rfl⟩ := h
  rw [List.length_append, List.length_cons]
  omega

theorem LastNamed.drop (h : LastNamed names k n) : k ∉ names.drop n := by
  obtain ⟨before, after, rfl, hafter, rfl⟩ := h
  rwa [← List.drop_drop, List.drop_left, List.drop_succ_cons, List.drop_zero]

theorem LastNamed.getElem? (h : LastNamed names k n) : names[n - 1]? = some k := by
  obtain ⟨before, after, rfl, -, rfl⟩ := h
  rw [Nat.add_sub_cancel, List.getElem?_append_right (Nat.le_refl _), Nat.sub_self]
  rfl

theorem LastNamed.pos (h : LastNamed names k n) : 0 < n := by
  obtain ⟨before, after, -, -, rfl⟩ := h
  exact Nat.succ_pos _

theorem LastNamed.inj (hk : LastNamed names k n) (hl : LastNamed names l n) : k = l :=
  Option.some.inj (hk.getElem?.symm.trans hl.getElem?)

theorem older_of_lt (hk : LastNamed names k m) (hl : LastNamed names l n) (h : m < n) :
    Older names k l := by
  refine ⟨names.take m, names.drop m, (List.take_append_drop m names).symm, hk.drop, ?_⟩
  have hat : (names.drop m)[n - 1 - m]? = some l := by
    rw [List.getElem?_drop, ← hl.getElem?]
    congr 1
    omega
  exact List.mem_of_getElem? hat

theorem not_older_append_self (names : List κ) (k l : κ) : ¬Older (names ++ [k]) k l := by
  rintro ⟨before, after, hnames, hout, hin⟩
  obtain ⟨front, last, rfl⟩ := List.eq_nil_or_concat' after |>.resolve_left
    (List.ne_nil_of_mem hin)
  rw [← List.append_assoc] at hnames
  have hlast : k = last := (List.append_inj' hnames rfl).2 |> List.singleton_inj.mp
  exact hout (List.mem_append_right _ (List.mem_singleton.mpr hlast))

end JamStream.Foundations.Recency
