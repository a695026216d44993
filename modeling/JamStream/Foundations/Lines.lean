import Mathlib

/-! A text as its lines: what stands between separators, the last one with or without its
own. The whole lines of a text are those that have theirs; what follows is its remainder. -/

namespace JamStream.Foundations.Lines
variable {α : Type} [DecidableEq α] {sep : α}

def lines (sep : α) : List α → List (List α)
  | [] => []
  | c :: rest =>
    if c = sep then [] :: lines sep rest
    else
      match lines sep rest with
      | [] => [[c]]
      | line :: more => (c :: line) :: more

def whole (sep : α) (text : List α) : List α := text.rdropWhile (· ≠ sep)

def remainder (sep : α) (text : List α) : List α := text.rtakeWhile (· ≠ sep)

def Ended (sep : α) (text : List α) : Prop := whole sep text = text

instance (text : List α) : Decidable (Ended sep text) := inferInstanceAs (Decidable (_ = _))

theorem whole_append_remainder (sep : α) (text : List α) :
    whole sep text ++ remainder sep text = text :=
  List.rdropWhile_append_rtakeWhile

theorem ended_whole (sep : α) (text : List α) : Ended sep (whole sep text) :=
  List.rdropWhile_idempotent _ _

theorem ended_concat (text : List α) : Ended sep (text ++ [sep]) :=
  List.rdropWhile_concat_neg _ _ _ (by simp)

theorem sep_notMem_remainder (text : List α) : sep ∉ remainder sep text := by
  intro h
  have hne := List.mem_rtakeWhile_imp (p := fun c => decide (c ≠ sep)) h
  exact of_decide_eq_true hne rfl

theorem ended_iff_remainder {text : List α} : Ended sep text ↔ remainder sep text = [] := by
  constructor
  · intro h
    have hsplit := whole_append_remainder sep text
    rw [h] at hsplit
    exact List.append_right_eq_self.mp hsplit
  · intro h
    have hsplit := whole_append_remainder sep text
    rwa [h, List.append_nil] at hsplit

theorem whole_prefix_append (sep : α) (text more : List α) :
    whole sep text <+: whole sep (text ++ more) := by
  unfold whole List.rdropWhile
  rw [List.reverse_append, List.dropWhile_append]
  split_ifs
  · exact List.prefix_rfl
  · rw [List.reverse_append, List.reverse_reverse]
    exact (List.rdropWhile_prefix _ _).trans (List.prefix_append _ _)

theorem lines_cons_sep (rest : List α) : lines sep (sep :: rest) = [] :: lines sep rest :=
  if_pos rfl

theorem lines_cons {c : α} {rest line : List α} {more : List (List α)} (hc : c ≠ sep)
    (h : lines sep rest = line :: more) : lines sep (c :: rest) = (c :: line) :: more := by
  rw [lines, if_neg hc, h]

theorem exists_lines (sep : α) {text : List α} (h : text ≠ []) :
    ∃ line more, lines sep text = line :: more := by
  obtain ⟨c, rest, rfl⟩ := List.exists_cons_of_ne_nil h
  unfold lines
  split
  · exact ⟨_, _, rfl⟩
  · split <;> exact ⟨_, _, rfl⟩

theorem lines_concat {line : List α} (h : sep ∉ line) : lines sep (line ++ [sep]) = [line] := by
  induction line with
  | nil => exact lines_cons_sep []
  | cons c rest ih =>
    have hc : c ≠ sep := fun heq => h (heq ▸ List.mem_cons_self)
    exact lines_cons hc (ih fun hmem => h (List.mem_cons_of_mem c hmem))

theorem ended_tail {c : α} {rest : List α} (h : Ended sep (c :: rest)) : Ended sep rest := by
  refine List.rdropWhile_eq_self_iff.mpr fun hne => ?_
  have hlast := List.rdropWhile_eq_self_iff.mp h (List.cons_ne_nil c rest)
  rwa [List.getLast_cons hne] at hlast

theorem ended_ne_nil {c : α} {rest : List α} (h : Ended sep (c :: rest)) (hc : c ≠ sep) :
    rest ≠ [] := by
  rintro rfl
  have hlast := List.rdropWhile_eq_self_iff.mp h (List.cons_ne_nil c [])
  exact hlast (decide_eq_true hc)

theorem lines_append {text : List α} (h : Ended sep text) (more : List α) :
    lines sep (text ++ more) = lines sep text ++ lines sep more := by
  induction text with
  | nil => rfl
  | cons c rest ih =>
    have hrest := ih (ended_tail h)
    by_cases hc : c = sep
    · subst hc
      show lines c (c :: (rest ++ more)) = _
      rw [lines_cons_sep, lines_cons_sep, hrest]
      rfl
    · obtain ⟨line, tail, hlines⟩ := exists_lines sep (ended_ne_nil h hc)
      rw [lines_cons hc hlines]
      rw [hlines] at hrest
      exact lines_cons hc hrest

theorem length_lines {text : List α} (h : Ended sep text) :
    (lines sep text).length = text.count sep := by
  induction text with
  | nil => rfl
  | cons c rest ih =>
    have hrest := ih (ended_tail h)
    by_cases hc : c = sep
    · subst hc
      rw [lines_cons_sep, List.length_cons, hrest, List.count_cons_self]
    · obtain ⟨line, tail, hlines⟩ := exists_lines sep (ended_ne_nil h hc)
      rw [lines_cons hc hlines, List.count_cons_of_ne hc, ← hrest, hlines]
      rfl

theorem sep_notMem_lines (text : List α) : ∀ line ∈ lines sep text, sep ∉ line := by
  induction text with
  | nil => exact fun line hline => absurd hline List.not_mem_nil
  | cons c rest ih =>
    intro line hline
    by_cases hc : c = sep
    · subst hc
      rw [lines_cons_sep, List.mem_cons] at hline
      rcases hline with rfl | hin
      · exact List.not_mem_nil
      · exact ih line hin
    · have hne : sep ∉ [c] := fun h => hc (List.mem_singleton.mp h).symm
      rcases hrest : lines sep rest with _ | ⟨first, more⟩
      · rw [lines, if_neg hc, hrest] at hline
        rw [List.mem_singleton.mp hline]
        exact hne
      · rw [lines_cons hc hrest, List.mem_cons] at hline
        rw [hrest] at ih
        rcases hline with rfl | hin
        · rw [List.mem_cons, not_or]
          exact ⟨fun h => hc h.symm, ih first List.mem_cons_self⟩
        · exact ih line (List.mem_cons_of_mem first hin)

theorem ended_append {text more : List α} (h : Ended sep text) (hmore : Ended sep more) :
    Ended sep (text ++ more) := by
  refine List.rdropWhile_eq_self_iff.mpr fun hne => ?_
  by_cases hempty : more = []
  · subst hempty
    simp only [List.append_nil] at hne ⊢
    exact List.rdropWhile_eq_self_iff.mp h hne
  · rw [List.getLast_append_of_ne_nil hne hempty]
    exact List.rdropWhile_eq_self_iff.mp hmore hempty

theorem lines_flatMap (ls : List (List α)) (h : ∀ line ∈ ls, sep ∉ line) :
    Ended sep (ls.flatMap (· ++ [sep])) ∧ lines sep (ls.flatMap (· ++ [sep])) = ls := by
  induction ls with
  | nil => exact ⟨rfl, rfl⟩
  | cons line ls ih =>
    obtain ⟨hended, hlines⟩ := ih fun l hl => h l (List.mem_cons_of_mem line hl)
    rw [List.flatMap_cons]
    refine ⟨ended_append (ended_concat line) hended, ?_⟩
    rw [lines_append (ended_concat line), lines_concat (h line List.mem_cons_self), hlines]
    rfl

end JamStream.Foundations.Lines
