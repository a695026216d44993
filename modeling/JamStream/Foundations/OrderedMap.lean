import Mathlib

/-! Facts about the standard library's extensional tree maps: lookups with the
key comparison spelled as equality, and sizes compared through the keys. -/

namespace JamStream.Foundations.OrderedMap
open Std (ExtTreeMap TransOrd LawfulEqOrd)
variable {κ ν ν' : Type} [Ord κ] [TransOrd κ]

theorem mem_iff (t : ExtTreeMap κ ν) (k : κ) : k ∈ t ↔ ∃ v, t[k]? = some v := by
  rw [ExtTreeMap.mem_iff_isSome_getElem?, Option.isSome_iff_exists]

theorem mem_of_getElem? {t : ExtTreeMap κ ν} {k : κ} {v : ν} (h : t[k]? = some v) : k ∈ t :=
  (mem_iff t k).mpr ⟨v, h⟩

variable [LawfulEqOrd κ]

theorem getElem?_insert [DecidableEq κ] (t : ExtTreeMap κ ν) (k a : κ) (v : ν) :
    (t.insert k v)[a]? = if k = a then some v else t[a]? := by
  simp only [ExtTreeMap.getElem?_insert, Std.compare_eq_iff_eq]

theorem getElem?_erase [DecidableEq κ] (t : ExtTreeMap κ ν) (k a : κ) :
    (t.erase k)[a]? = if k = a then none else t[a]? := by
  simp only [ExtTreeMap.getElem?_erase, Std.compare_eq_iff_eq]

theorem getElem?_modify [DecidableEq κ] (t : ExtTreeMap κ ν) (k a : κ) (f : ν → ν) :
    (t.modify k f)[a]? = if k = a then t[a]?.map f else t[a]? := by
  rw [ExtTreeMap.getElem?_modify]
  simp only [Std.compare_eq_iff_eq]
  split_ifs with h
  · rw [h]
  · rfl

theorem nodup_keys (t : ExtTreeMap κ ν) : t.keys.Nodup := by
  refine (ExtTreeMap.distinct_keys (t := t)).imp ?_
  intro a b h
  rwa [Std.compare_eq_iff_eq] at h

theorem size_le_card {t : ExtTreeMap κ ν} {f : κ → ℕ} (hf : Function.Injective f) {S : Finset ℕ}
    (h : ∀ k ∈ t, f k ∈ S) : t.size ≤ S.card := by
  have hnodup : (t.keys.map f).Nodup := (nodup_keys t).map hf
  have hsub : (t.keys.map f).toFinset ⊆ S := by
    intro n hn
    obtain ⟨k, hk, rfl⟩ := List.mem_map.mp (List.mem_toFinset.mp hn)
    exact h k (ExtTreeMap.mem_keys.mp hk)
  have hcard := Finset.card_le_card hsub
  rwa [List.toFinset_card_of_nodup hnodup, List.length_map, ExtTreeMap.length_keys] at hcard

theorem countP_toList (t : ExtTreeMap κ ν) (p : κ → ν → Bool) :
    (t.toList.countP fun e => p e.1 e.2) = {k | ∃ v, t[k]? = some v ∧ p k v}.ncard := by
  classical
  have hnodup : ((t.toList.filter fun e => p e.1 e.2).map Prod.fst).Nodup := by
    refine List.Nodup.sublist (List.filter_sublist.map Prod.fst) ?_
    rw [ExtTreeMap.map_fst_toList_eq_keys]
    exact nodup_keys t
  have hset : {k | ∃ v, t[k]? = some v ∧ p k v} =
      (((t.toList.filter fun e => p e.1 e.2).map Prod.fst).toFinset : Set κ) := by
    ext k
    simp only [Set.mem_ofPred_eq, Finset.mem_coe, List.mem_toFinset, List.mem_map, List.mem_filter,
      Prod.exists, exists_and_right, exists_eq_right, ExtTreeMap.mem_toList_iff_getElem?_eq_some]
  rw [hset, Set.ncard_coe_finset, List.toFinset_card_of_nodup hnodup, List.length_map,
    List.countP_eq_length_filter]

theorem nodup_toList (t : ExtTreeMap κ ν) : t.toList.Nodup := by
  refine List.Nodup.of_map Prod.fst ?_
  rw [ExtTreeMap.map_fst_toList_eq_keys]
  exact nodup_keys t

theorem toList_insert_perm [DecidableEq κ] {t : ExtTreeMap κ ν} {k : κ} (h : t[k]? = none) (v : ν) :
    (t.insert k v).toList.Perm ((k, v) :: t.toList) := by
  have hnew : (k, v) ∉ t.toList := fun hmem =>
    Option.some_ne_none v ((ExtTreeMap.mem_toList_iff_getElem?_eq_some.mp hmem).symm.trans h)
  refine (List.perm_ext_iff_of_nodup (nodup_toList _) ((nodup_toList t).cons hnew)).mpr ?_
  rintro ⟨a, w⟩
  rw [ExtTreeMap.mem_toList_iff_getElem?_eq_some, getElem?_insert, List.mem_cons, Prod.mk.injEq,
    ExtTreeMap.mem_toList_iff_getElem?_eq_some]
  by_cases ha : k = a
  · subst ha
    simp [h, eq_comm]
  · simp [ha, Ne.symm ha]

theorem toList_erase_perm [DecidableEq κ] {t : ExtTreeMap κ ν} {k : κ} {v : ν}
    (h : t[k]? = some v) : t.toList.Perm ((k, v) :: (t.erase k).toList) := by
  have hgone : (t.erase k)[k]? = none := by
    rw [getElem?_erase, if_pos rfl]
  have hback : (t.erase k).insert k v = t := by
    refine ExtTreeMap.ext_getElem? fun a => ?_
    rw [getElem?_insert, getElem?_erase]
    split_ifs with ha
    · rw [← ha, h]
    · rfl
  have hperm := toList_insert_perm hgone v
  rwa [hback] at hperm

theorem toList_insert_map [DecidableEq κ] {μ : Type} {t : ExtTreeMap κ ν} {k : κ} {v w : ν}
    (f : ν → μ) (h : t[k]? = some v) (hf : f w = f v) :
    (t.insert k w).toList.map (fun e => f e.2) = t.toList.map fun e => f e.2 := by
  have hread : ∀ u : ExtTreeMap κ ν,
      u.toList.map (fun e => f e.2) = (u.map fun _ x => f x).toList.map Prod.snd := by
    intro u
    rw [ExtTreeMap.toList_map, List.map_map]
    rfl
  rw [hread, hread]
  congr 2
  refine ExtTreeMap.ext_getElem? fun a => ?_
  rw [ExtTreeMap.getElem?_map, ExtTreeMap.getElem?_map, getElem?_insert]
  split_ifs with ha
  · subst ha
    rw [h]
    exact congrArg some hf
  · rfl

theorem toList_modify_map [DecidableEq κ] {μ : Type} (t : ExtTreeMap κ ν) (k : κ) {g : ν → ν}
    {f : ν → μ} (hf : ∀ v, f (g v) = f v) :
    (t.modify k g).toList.map (fun e => f e.2) = t.toList.map fun e => f e.2 := by
  cases hk : t[k]? with
  | none =>
    have hsame : t.modify k g = t := by
      refine ExtTreeMap.ext_getElem? fun a => ?_
      rw [getElem?_modify]
      split_ifs with ha
      · rw [← ha, hk]
        rfl
      · rfl
    rw [hsame]
  | some v =>
    have hinsert : t.modify k g = t.insert k (g v) := by
      refine ExtTreeMap.ext_getElem? fun a => ?_
      rw [getElem?_modify, getElem?_insert]
      split_ifs with ha
      · rw [← ha, hk]
        rfl
      · rfl
    rw [hinsert]
    exact toList_insert_map f hk (hf v)

end JamStream.Foundations.OrderedMap
