import Mathlib

/-! Files laid into directories one after another. The directories above a file are made as they
are needed; a file lands where nothing stands yet, and where no file stands above it. -/

namespace JamStream.Foundations
variable {α : Type*}

def Incomparable (p q : List α) : Prop := ¬p <+: q ∧ ¬q <+: p

theorem Incomparable.symm {p q : List α} (h : Incomparable p q) : Incomparable q p := ⟨h.2, h.1⟩

theorem incomparable_append_iff {front p q : List α} :
    Incomparable (front ++ p) (front ++ q) ↔ Incomparable p q := by
  unfold Incomparable
  rw [List.prefix_append_right_inj, List.prefix_append_right_inj]

theorem map_prefix_iff {β : Type*} {f : α → β} (hf : f.Injective) {p q : List α} :
    p.map f <+: q.map f ↔ p <+: q := by
  refine ⟨fun h => ?_, fun h => h.map f⟩
  rw [List.prefix_iff_eq_take, List.length_map, ← List.map_take] at h
  rw [List.prefix_iff_eq_take]
  exact List.map_injective_iff.mpr hf h

theorem incomparable_map_iff {β : Type*} {f : α → β} (hf : f.Injective) {p q : List α} :
    Incomparable (p.map f) (q.map f) ↔ Incomparable p q := by
  unfold Incomparable
  rw [map_prefix_iff hf, map_prefix_iff hf]

inductive Node
  | dir
  | file
deriving DecidableEq

abbrev FileTree (α : Type*) := List α → Option Node

theorem prefix_dropLast_iff {p path : List α} (hpath : path ≠ []) :
    p <+: path.dropLast ↔ p <+: path ∧ p ≠ path := by
  obtain ⟨front, last, rfl⟩ := List.eq_nil_or_concat' path |>.resolve_left hpath
  rw [List.dropLast_concat]
  constructor
  · intro h
    refine ⟨h.trans (List.prefix_append _ _), ?_⟩
    rintro rfl
    have hlength := h.length_le
    rw [List.length_append, List.length_singleton] at hlength
    omega
  · rintro ⟨h, hne⟩
    exact (List.prefix_concat_iff.mp h).resolve_left hne

namespace FileTree

def empty : FileTree α := fun _ => none

section decidable
variable [DecidableEq α]

/-- The directories down to a path, unless one of them is a file. -/
def createDirAll (t : FileTree α) (path : List α) : Option (FileTree α) :=
  if path.inits.any fun q => t q = some .file then none
  else some fun q => if q <+: path ∧ t q = none then some .dir else t q

def land (t : FileTree α) (path : List α) : Option (FileTree α) :=
  (t.createDirAll path.dropLast).bind fun t =>
    if t path = none then some fun q => if q = path then some .file else t q else none

def landAll (paths : List (List α)) : Option (FileTree α) := paths.foldlM land empty

end decidable

structure Laid (t : FileTree α) (paths : List (List α)) : Prop where
  file : ∀ q, t q = some .file ↔ q ∈ paths
  dir : ∀ q, t q = some .dir ↔ q ∉ paths ∧ ∃ p ∈ paths, q <+: p

variable {t t' : FileTree α} {path : List α} {paths : List (List α)}

theorem laid_empty : (empty : FileTree α).Laid [] where
  file _ := iff_of_false nofun List.not_mem_nil
  dir _ := iff_of_false nofun nofun

theorem Laid.none_iff (h : t.Laid paths) (q : List α) : t q = none ↔ ∀ p ∈ paths, ¬q <+: p := by
  have hfile := h.file q
  have hdir := h.dir q
  constructor
  · intro hnone p hp hq
    by_cases hmem : q ∈ paths
    · rw [hfile.mpr hmem] at hnone
      cases hnone
    · rw [hdir.mpr ⟨hmem, p, hp, hq⟩] at hnone
      cases hnone
  · intro hall
    rcases hnode : t q with _ | _ | _
    · rfl
    · obtain ⟨-, p, hp, hq⟩ := hdir.mp hnode
      exact absurd hq (hall p hp)
    · exact absurd (List.prefix_refl q) (hall q (hfile.mp hnode))

section land
variable [DecidableEq α]

theorem createDirAll_isSome (h : t.Laid paths) :
    (t.createDirAll path).isSome ↔ ∀ p ∈ paths, ¬p <+: path := by
  unfold createDirAll
  have hany : (path.inits.any fun q => t q = some .file) = true ↔ ∃ p ∈ paths, p <+: path := by
    rw [List.any_eq_true]
    constructor
    · rintro ⟨q, hq, hfile⟩
      exact ⟨q, (h.file q).mp (of_decide_eq_true hfile), (List.mem_inits q path).mp hq⟩
    · rintro ⟨p, hp, hbegins⟩
      exact ⟨p, (List.mem_inits p path).mpr hbegins, decide_eq_true ((h.file p).mpr hp)⟩
  split_ifs with hfile
  · obtain ⟨p, hp, hbegins⟩ := hany.mp hfile
    exact iff_of_false Bool.false_ne_true fun hall => hall p hp hbegins
  · exact iff_of_true rfl fun p hp hbegins => hfile (hany.mpr ⟨p, hp, hbegins⟩)

theorem land_none (h : t.createDirAll path.dropLast = none) : t.land path = none := by
  rw [land, h]
  rfl

theorem createDirAll_at {u : FileTree α} (h : t.createDirAll path = some u) (q : List α) :
    (u q = some .file ↔ t q = some .file) ∧
      (u q = some .dir ↔ t q = some .dir ∨ q <+: path ∧ t q = none) ∧
        (¬q <+: path → u q = t q) := by
  unfold createDirAll at h
  split_ifs at h with hfile
  obtain rfl := Option.some.inj h
  dsimp only
  by_cases hnew : q <+: path ∧ t q = none
  · rw [if_pos hnew, hnew.2]
    exact ⟨iff_of_false nofun nofun, iff_of_true rfl (.inr ⟨hnew.1, rfl⟩),
      fun hfar => absurd hnew.1 hfar⟩
  · rw [if_neg hnew]
    exact ⟨Iff.rfl, ⟨.inl, fun h => h.resolve_right hnew⟩, fun _ => rfl⟩

theorem Laid.land (h : t.Laid paths) (hpath : path ≠ []) :
    (∀ p ∈ paths, Incomparable p path) ∧ (∃ t', t.land path = some t' ∧ t'.Laid (paths ++ [path])) ∨
    ¬(∀ p ∈ paths, Incomparable p path) ∧ t.land path = none := by
  rcases hdirs : t.createDirAll path.dropLast with _ | u
  · refine .inr ⟨fun hall => ?_, land_none hdirs⟩
    have hsome := (createDirAll_isSome h).mpr fun p hp hbegins =>
      (hall p hp).1 ((prefix_dropLast_iff hpath).mp hbegins).1
    rw [hdirs] at hsome
    cases hsome
  have hbelow : ∀ p ∈ paths, ¬p <+: path.dropLast :=
    (createDirAll_isSome h).mp (Option.isSome_of_mem hdirs)
  have hself : ¬path <+: path.dropLast := fun hself => ((prefix_dropLast_iff hpath).mp hself).2 rfl
  have hthere : u path = t path := (createDirAll_at hdirs path).2.2 hself
  by_cases hfree : t path = none
  · have habove := (h.none_iff path).mp hfree
    have hapart : ∀ p ∈ paths, Incomparable p path := by
      refine fun p hp => ⟨fun hbegins => ?_, habove p hp⟩
      by_cases heq : p = path
      · exact habove p hp (heq ▸ List.prefix_refl p)
      · exact hbelow p hp ((prefix_dropLast_iff hpath).mpr ⟨hbegins, heq⟩)
    refine .inl ⟨hapart, fun q => if q = path then some .file else u q, ?_, ?_, ?_⟩
    · rw [FileTree.land, hdirs]
      exact if_pos (hthere.trans hfree)
    · intro q
      by_cases hq : q = path
      · rw [if_pos hq]
        exact iff_of_true rfl (List.mem_append_right _ (List.mem_singleton.mpr hq))
      · rw [if_neg hq, (createDirAll_at hdirs q).1, h.file q, List.mem_append, List.mem_singleton,
          or_iff_left hq]
    · intro q
      by_cases hq : q = path
      · rw [if_pos hq]
        refine iff_of_false nofun fun hnot => hnot.1 ?_
        exact List.mem_append_right _ (List.mem_singleton.mpr hq)
      · rw [if_neg hq, (createDirAll_at hdirs q).2.1, h.dir q, h.none_iff q,
          prefix_dropLast_iff hpath, List.mem_append, List.mem_singleton, or_iff_left hq]
        constructor
        · rintro (⟨hnew, p, hp, hbegins⟩ | ⟨⟨hbegins, -⟩, hnone⟩)
          · exact ⟨hnew, p, List.mem_append_left _ hp, hbegins⟩
          · refine ⟨fun hmem => hnone q hmem (List.prefix_refl q), path, ?_, hbegins⟩
            exact List.mem_append_right _ (List.mem_singleton.mpr rfl)
        · rintro ⟨hnew, p, hp, hbegins⟩
          by_cases hold : ∃ p ∈ paths, q <+: p
          · exact .inl ⟨hnew, hold⟩
          · refine .inr ⟨⟨?_, hq⟩, fun p hp hbegins => hold ⟨p, hp, hbegins⟩⟩
            rcases List.mem_append.mp hp with hp | hp
            · exact absurd ⟨p, hp, hbegins⟩ hold
            · rwa [List.mem_singleton.mp hp] at hbegins
  · refine .inr ⟨fun hall => hfree ((h.none_iff path).mpr fun p hp => (hall p hp).2), ?_⟩
    rw [FileTree.land, hdirs]
    exact if_neg fun hnone => hfree (hthere.symm.trans hnone)

theorem foldlM_land_isSome {before : List (List α)} (h : t.Laid before)
    (hpaths : ∀ p ∈ paths, p ≠ []) :
    (paths.foldlM FileTree.land t).isSome ↔
      (∀ p ∈ before, ∀ q ∈ paths, Incomparable p q) ∧ paths.Pairwise Incomparable := by
  induction paths generalizing t before with
  | nil => exact iff_of_true rfl ⟨fun _ _ => nofun, .nil⟩
  | cons path paths ih =>
    obtain ⟨hpath, hrest⟩ := List.forall_mem_cons.mp hpaths
    rw [List.foldlM_cons, List.pairwise_cons]
    rcases h.land hpath with ⟨hapart, u, hland, hlaid⟩ | ⟨hclash, hnone⟩
    · rw [hland]
      refine (ih hlaid hrest).trans ?_
      constructor
      · rintro ⟨hbefore, hpairs⟩
        refine ⟨fun p hp q hq => ?_, ?_, hpairs⟩
        · rcases List.mem_cons.mp hq with rfl | hq
          · exact hapart p hp
          · exact hbefore p (List.mem_append_left _ hp) q hq
        · exact hbefore path (List.mem_append_right _ (List.mem_singleton.mpr rfl))
      · rintro ⟨hbefore, hfirst, hpairs⟩
        refine ⟨fun p hp q hq => ?_, hpairs⟩
        rcases List.mem_append.mp hp with hp | hp
        · exact hbefore p hp q (List.mem_cons_of_mem path hq)
        · exact List.mem_singleton.mp hp ▸ hfirst q hq
    · rw [hnone]
      refine iff_of_false Bool.false_ne_true fun hall => hclash fun p hp => ?_
      exact hall.1 p hp path List.mem_cons_self

theorem landAll_isSome (hpaths : ∀ p ∈ paths, p ≠ []) :
    (landAll paths).isSome ↔ paths.Pairwise Incomparable :=
  (foldlM_land_isSome laid_empty hpaths).trans (and_iff_right nofun)

end land

end FileTree
end JamStream.Foundations
