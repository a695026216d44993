import Mathlib

/-! A history cut into stretches by marks that open and close them. One history is within
another when each of its stretches is the other's, or the head of it if it is still open. A
history trails another when it is short of a number of fillers at the end of the open
stretch: what each mark does to the distance is said here, and when it shows. -/

namespace JamStream.Foundations

inductive Mark (α : Type*)
  | opens
  | item (a : α)
  | closes
deriving DecidableEq

def items {α : Type*} (marks : List (Mark α)) : List α :=
  marks.filterMap fun
    | .item a => some a
    | _ => none

structure Stretches (α : Type*) where
  closed : List (List α)
  current : Option (List α)
deriving DecidableEq

variable {α : Type*}

theorem items_append (marks more : List (Mark α)) : items (marks ++ more) = items marks ++ items more :=
  List.filterMap_append

theorem items_map_item (as : List α) : items (as.map Mark.item) = as := by
  induction as with
  | nil => rfl
  | cons a as ih => exact congrArg (a :: ·) ih

namespace Stretches

/-- A mark inside a stretch does not open another, and outside of one closes none. -/
def add (s : Stretches α) : Mark α → Stretches α
  | .opens => if s.current.isSome then s else { s with current := some [] }
  | .item a => { s with current := s.current.map (· ++ [a]) }
  | .closes =>
    match s.current with
    | none => s
    | some cur => { closed := s.closed ++ [cur], current := none }

def addAll (s : Stretches α) (marks : List (Mark α)) : Stretches α := marks.foldl add s

def of (marks : List (Mark α)) : Stretches α := addAll ⟨[], none⟩ marks

def all (s : Stretches α) : List (List α) := s.closed ++ s.current.toList

structure Within (s t : Stretches α) : Prop where
  closed : s.closed <+: t.closed
  current : ∀ cur ∈ s.current, ∃ full, t.all[s.closed.length]? = some full ∧ cur <+: full

variable {s t u : Stretches α}

theorem of_append (marks more : List (Mark α)) : of (marks ++ more) = (of marks).addAll more :=
  List.foldl_append

theorem current_in_all {cur : List α} (h : s.current = some cur) :
    s.all[s.closed.length]? = some cur := by
  rw [all, h]
  exact List.getElem?_concat_length

theorem Within.refl (s : Stretches α) : s.Within s where
  closed := List.prefix_rfl
  current cur hcur := ⟨cur, current_in_all hcur, List.prefix_rfl⟩

theorem Within.all (h : s.Within t) {n : ℕ} {cur : List α} (hcur : s.all[n]? = some cur) :
    ∃ full, t.all[n]? = some full ∧ cur <+: full := by
  by_cases hn : n < s.closed.length
  · obtain ⟨rest, hrest⟩ := h.closed
    rw [Stretches.all, List.getElem?_append_left hn] at hcur
    refine ⟨cur, ?_, List.prefix_rfl⟩
    rw [Stretches.all, ← hrest, List.append_assoc, List.getElem?_append_left hn]
    exact hcur
  · have hlen := (List.getElem?_eq_some_iff.mp hcur).1
    rw [Stretches.all, List.getElem?_append_right (Nat.not_lt.mp hn)] at hcur
    cases hopen : s.current with
    | none =>
      rw [hopen] at hcur
      cases hcur
    | some last =>
      rw [Stretches.all, hopen, List.length_append] at hlen
      have hat : n = s.closed.length := by
        have hone : (some last).toList.length = 1 := rfl
        omega
      rw [hopen, hat, Nat.sub_self] at hcur
      obtain rfl : last = cur := Option.some.inj hcur
      rw [hat]
      exact h.current last hopen

theorem Within.trans (h : s.Within t) (h' : t.Within u) : s.Within u where
  closed := h.closed.trans h'.closed
  current cur hcur := by
    obtain ⟨full, hfull, hle⟩ := h.current cur hcur
    obtain ⟨whole, hwhole, hle'⟩ := h'.all hfull
    exact ⟨whole, hwhole, hle.trans hle'⟩

theorem within_add (s : Stretches α) (m : Mark α) : s.Within (s.add m) := by
  cases m with
  | opens =>
    unfold add
    split_ifs with hopen
    · exact .refl s
    · refine ⟨List.prefix_rfl, fun cur hcur => ?_⟩
      rw [Option.mem_def.mp hcur] at hopen
      exact absurd rfl hopen
  | item a =>
    refine ⟨List.prefix_rfl, fun cur hcur => ⟨cur ++ [a], ?_, List.prefix_append _ _⟩⟩
    apply current_in_all
    rw [add, Option.mem_def.mp hcur]
    rfl
  | closes =>
    unfold add
    cases hopen : s.current with
    | none => exact .refl s
    | some last =>
      refine ⟨List.prefix_append _ _, fun cur hcur => ?_⟩
      obtain rfl : last = cur := Option.some.inj (hopen.symm.trans hcur)
      refine ⟨last, ?_, List.prefix_rfl⟩
      rw [all, Option.toList_none, List.append_nil]
      exact List.getElem?_concat_length

theorem within_addAll (s : Stretches α) (marks : List (Mark α)) : s.Within (s.addAll marks) := by
  induction marks generalizing s with
  | nil => exact .refl s
  | cons m marks ih => exact (within_add s m).trans (ih (s.add m))

theorem addAll_items (s : Stretches α) (items : List α) :
    s.addAll (items.map Mark.item) = { s with current := s.current.map (· ++ items) } := by
  induction items generalizing s with
  | nil =>
    have hsame : (fun cur : List α => cur ++ []) = id := by
      funext cur
      exact List.append_nil cur
    rw [hsame, Option.map_id_fun, id]
    rfl
  | cons a items ih =>
    have hadded := ih (s.add (.item a))
    rw [List.map_cons, addAll, List.foldl_cons]
    refine hadded.trans ?_
    rw [add, Option.map_map]
    have hboth : ((· ++ items) ∘ (· ++ [a]) : List α → List α) = (· ++ a :: items) := by
      funext cur
      simp only [Function.comp_apply, List.append_assoc, List.singleton_append]
    rw [hboth]

structure Trails (x : α) (n : ℕ) (s t : Stretches α) : Prop where
  closed : t.closed = s.closed
  current : t.current = s.current.map (· ++ List.replicate n x)

variable {x a : α} {n g : ℕ}

theorem Trails.refl (x : α) (s : Stretches α) : Trails x 0 s s where
  closed := rfl
  current := by
    cases s.current with
    | none => rfl
    | some cur => exact (congrArg some (List.append_nil cur)).symm

theorem Trails.within (h : Trails x n s t) : s.Within t where
  closed := h.closed ▸ List.prefix_rfl
  current cur hcur := by
    refine ⟨cur ++ List.replicate n x, ?_, List.prefix_append _ _⟩
    have hlong : t.current = some (cur ++ List.replicate n x) := by
      rw [h.current, Option.mem_def.mp hcur]
      rfl
    rw [← h.closed]
    exact current_in_all hlong

theorem Trails.of_none (h : Trails x n s t) (hnone : s.current = none) (m : ℕ) :
    Trails x m s t where
  closed := h.closed
  current := by
    rw [h.current, hnone]
    rfl

theorem Trails.isSome (h : Trails x n s t) : t.current.isSome = s.current.isSome := by
  rw [h.current, Option.isSome_map]

theorem Trails.missed (h : Trails x n s t) : Trails x (n + 1) s (t.add (.item x)) where
  closed := h.closed
  current := by
    have hnext : t.current.map (· ++ [x]) = s.current.map (· ++ List.replicate (n + 1) x) := by
      rw [h.current, Option.map_map, List.replicate_succ']
      congr 1
      funext cur
      simp only [Function.comp_apply, List.append_assoc]
    exact hnext

theorem Trails.opens (h : Trails x n s t) :
    Trails x (if s.current.isSome then n else 0) (s.add .opens) (t.add .opens) := by
  unfold add
  rw [h.isSome]
  split_ifs
  · exact h
  · exact ⟨h.closed, rfl⟩

/-- Fillers and then an item, against the item alone: the fillers make up for the missing
ones exactly if there are as many. -/
theorem Trails.made_up (h : Trails x n s t) (hgap : s.current.isSome → g = n) (a : α) :
    Trails x 0 (s.addAll ((List.replicate g x ++ [a]).map .item)) (t.add (.item a)) := by
  rw [addAll_items]
  refine ⟨h.closed, ?_⟩
  show t.current.map (· ++ [a]) = (s.current.map (· ++ (List.replicate g x ++ [a]))).map (· ++ [])
  cases hopen : s.current with
  | none =>
    rw [h.current, hopen]
    rfl
  | some cur =>
    rw [hopen] at hgap
    rw [h.current, hopen, hgap rfl]
    simp only [Option.map_some, List.append_assoc, List.append_nil]

theorem replicate_prefix (ha : a ≠ x)
    (h : List.replicate g x ++ [a] <+: List.replicate n x ++ [a]) : g = n := by
  induction g generalizing n with
  | zero =>
    cases n with
    | zero => rfl
    | succ n => exact absurd (List.cons_prefix_cons.mp h).1 ha
  | succ g ih =>
    cases n with
    | zero => exact absurd (List.cons_prefix_cons.mp h).1.symm ha
    | succ n => rw [ih (List.cons_prefix_cons.mp h).2]

theorem Trails.of_made_up (h : Trails x n s t) (ha : a ≠ x) (hopen : s.current.isSome)
    (hwithin : (s.addAll ((List.replicate g x ++ [a]).map .item)).Within (t.add (.item a))) :
    g = n := by
  obtain ⟨cur, hcur⟩ := Option.isSome_iff_exists.mp hopen
  rw [addAll_items] at hwithin
  have hshort : s.current.map (· ++ (List.replicate g x ++ [a])) =
      some (cur ++ (List.replicate g x ++ [a])) := by
    rw [hcur]
    rfl
  have hlong : (t.add (.item a)).current = some (cur ++ (List.replicate n x ++ [a])) := by
    rw [add, h.current, hcur]
    simp only [Option.map_some, List.append_assoc]
  obtain ⟨full, hfull, hle⟩ := hwithin.current _ hshort
  have hat : (t.add (.item a)).all[s.closed.length]? =
      some (cur ++ (List.replicate n x ++ [a])) := by
    rw [← h.closed]
    exact current_in_all hlong
  rw [hat] at hfull
  obtain rfl := Option.some.inj hfull
  exact replicate_prefix ha ((List.prefix_append_right_inj cur).mp hle)

theorem Trails.closes (h : Trails x n s t) (hn : s.current.isSome → n = 0) :
    Trails x 0 (s.add .closes) (t.add .closes) := by
  unfold add
  cases hopen : s.current with
  | none =>
    rw [h.current, hopen]
    exact h.of_none hopen 0
  | some cur =>
    rw [hopen] at hn
    rw [h.current, hopen, hn rfl]
    refine ⟨?_, rfl⟩
    show t.closed ++ [cur ++ []] = s.closed ++ [cur]
    rw [h.closed, List.append_nil]

theorem Trails.of_closes (h : Trails x n s t) (hopen : s.current.isSome)
    (hwithin : (s.add .closes).Within (t.add .closes)) : n = 0 := by
  obtain ⟨cur, hcur⟩ := Option.isSome_iff_exists.mp hopen
  have hshort : (s.add .closes).closed = s.closed ++ [cur] := by
    rw [add, hcur]
  have hlong : (t.add .closes).closed = s.closed ++ [cur ++ List.replicate n x] := by
    rw [add, h.current, hcur]
    simp only [Option.map_some]
    rw [h.closed]
  have hle := hwithin.closed
  rw [hshort, hlong, List.prefix_append_right_inj, List.cons_prefix_cons] at hle
  have hlen := congrArg List.length hle.1
  rw [List.length_append, List.length_replicate] at hlen
  omega

end Stretches
end JamStream.Foundations
