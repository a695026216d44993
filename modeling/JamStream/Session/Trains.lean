import JamStream.Session.Avatar

/-! What the picture cache keeps, and the chunks a picture travels as. -/

namespace JamStream.Session
open Protocol Foundations

namespace AvatarCache

theorem contains_iff (c : AvatarCache) (hash : AvatarHash) :
    c.contains hash ↔ ∃ bytes, c.get hash = some bytes := by
  unfold contains get
  rw [Std.ExtTreeMap.contains_iff_mem, OrderedMap.mem_iff]
  constructor
  · rintro ⟨e, he⟩
    exact ⟨e.bytes, congrArg (Option.map CacheEntry.bytes) he⟩
  · rintro ⟨bytes, hbytes⟩
    obtain ⟨e, he, -⟩ := Option.map_eq_some_iff.mp hbytes
    exact ⟨e, he⟩

theorem get_touch (c : AvatarCache) (h hash : AvatarHash) : (c.touch h).get hash = c.get hash := by
  unfold touch get
  simp only
  rw [OrderedMap.getElem?_modify]
  split_ifs
  · rw [Option.map_map]
    rfl
  · rfl

theorem victim_spares {c : AvatarCache} {hash v : AvatarHash} {pinned : List AvatarHash}
    {e : CacheEntry} (h : c.victim hash pinned = some (v, e)) : v ≠ hash ∧ v ∉ pinned := by
  have hmem := (List.mem_filter.mp (List.argmin_mem h)).2
  rw [Bool.and_eq_true, decide_eq_true_eq, Bool.not_eq_true', List.contains_eq_mem,
    decide_eq_false_iff_not] at hmem
  exact hmem

theorem get_evict {hash kept : AvatarHash} {pinned : List AvatarHash}
    (h : kept = hash ∨ kept ∈ pinned) (n : ℕ) (c : AvatarCache) :
    (evict hash pinned n c).get kept = c.get kept := by
  induction n generalizing c with
  | zero => rfl
  | succ n ih =>
    unfold evict
    split
    · rfl
    · split
      · rfl
      · rename_i v e hv
        obtain ⟨hne, hnot⟩ := victim_spares hv
        have hkept : v ≠ kept := by
          rintro rfl
          exact h.elim hne hnot
        rw [ih]
        unfold get
        simp only
        rw [OrderedMap.getElem?_erase, if_neg hkept]

theorem get_insert (c : AvatarCache) {hash kept : AvatarHash} (bytes : Bytes)
    {pinned : List AvatarHash} (h : kept = hash ∨ kept ∈ pinned) :
    (c.insert hash bytes pinned).get kept =
      if kept = hash then some ((c.get hash).getD bytes) else c.get kept := by
  unfold insert
  simp only
  rw [get_evict h]
  split_ifs with hcached hself hself
  · obtain ⟨old, hold⟩ := (contains_iff c hash).mp hcached
    rw [get_touch, hself, hold]
    rfl
  · rw [get_touch]
  · have hnone : c.get hash = none := by
      by_contra hsome
      obtain ⟨old, hold⟩ := Option.ne_none_iff_exists'.mp hsome
      exact hcached ((contains_iff c hash).mpr ⟨old, hold⟩)
    rw [hnone, hself]
    unfold get
    simp only
    rw [OrderedMap.getElem?_insert, if_pos rfl]
    rfl
  · unfold get
    simp only
    rw [OrderedMap.getElem?_insert, if_neg (Ne.symm hself)]

theorem get_insert_kept {c : AvatarCache} {hash kept : AvatarHash} {old : Bytes} (bytes : Bytes)
    {pinned : List AvatarHash} (h : kept = hash ∨ kept ∈ pinned) (hold : c.get kept = some old) :
    (c.insert hash bytes pinned).get kept = some old := by
  rw [get_insert c bytes h]
  split_ifs with hself
  · rw [← hself, hold]
    rfl
  · exact hold

end AvatarCache

def isChunk : ControlMsg → Bool
  | .avatarChunk .. => true
  | _ => false

def chunkAt (hash : AvatarHash) (bytes : Bytes) (i : ℕ) : ControlMsg :=
  .avatarChunk hash (UInt16.ofNat i) (chunkTotal bytes.length)
    ((bytes.drop (i * avatarChunkBytes)).take avatarChunkBytes)

def train (hash : AvatarHash) (bytes : Bytes) : List ControlMsg :=
  (List.range (chunkTotal bytes.length).toNat).map (chunkAt hash bytes)

theorem train_length (hash : AvatarHash) (bytes : Bytes) :
    (train hash bytes).length = (chunkTotal bytes.length).toNat := by
  rw [train, List.length_map, List.length_range]

theorem train_take_succ (hash : AvatarHash) {bytes : Bytes} {n : ℕ}
    (h : n < (chunkTotal bytes.length).toNat) :
    (train hash bytes).take (n + 1) = (train hash bytes).take n ++ [chunkAt hash bytes n] := by
  rw [List.take_add_one, train, List.getElem?_map, List.getElem?_range h]
  rfl

theorem AvatarTx.nextChunk_eq (tx : AvatarTx) (bytes : Bytes) :
    tx.nextChunk bytes = if tx.next < chunkTotal bytes.length then
      ({ tx with next := tx.next + 1 }, some (chunkAt tx.hash bytes tx.next.toNat))
    else (tx, none) := by
  simp only [nextChunk, chunkAt, UInt16.ofNat_toNat]
  by_cases hnext : tx.next < chunkTotal bytes.length
  · rw [if_pos hnext, if_neg (UInt16.not_le.mpr hnext)]
  · rw [if_neg hnext, if_pos (UInt16.not_lt.mp hnext)]

theorem checkLengths_chunkAt (hash : AvatarHash) (bytes : Bytes) (i : ℕ) :
    checkLengths (chunkAt hash bytes i) = .ok () := by
  refine refuseIf_ok.mpr (not_lt.mpr ?_)
  exact List.length_take_le _ _

end JamStream.Session
