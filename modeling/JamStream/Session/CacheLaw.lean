import JamStream.Foundations.Recency
import JamStream.Foundations.Runs
import JamStream.Session.Trains

/-! The picture cache over any sequence of calls: its count of bytes, what an insert evicts and
what it spares. -/

namespace JamStream.Session.AvatarCache
open Protocol Foundations Runs Recency

inductive CacheCall
  | touch (hash : AvatarHash)
  | insert (hash : AvatarHash) (bytes : Bytes) (pinned : List AvatarHash)

def CacheCall.hash : CacheCall → AvatarHash
  | .touch hash | .insert hash _ _ => hash

def step (c : AvatarCache) : CacheCall → AvatarCache
  | .touch hash => c.touch hash
  | .insert hash bytes pinned => c.insert hash bytes pinned

def sizes (c : AvatarCache) : List ℕ := c.entries.toList.map fun e => e.2.bytes.length

def enter (c : AvatarCache) (hash : AvatarHash) (bytes : Bytes) : AvatarCache :=
  if c.contains hash then c.touch hash
  else { c with
    clock := c.clock + 1
    totalBytes := c.totalBytes + bytes.length
    entries := c.entries.insert hash { bytes, lastRef := c.clock + 1 } }

def drop (c : AvatarCache) (v : AvatarHash) (e : CacheEntry) : AvatarCache :=
  { c with totalBytes := c.totalBytes - e.bytes.length, entries := c.entries.erase v }

variable {c : AvatarCache} {hash h v : AvatarHash} {e : CacheEntry} {bytes : Bytes}
  {pinned : List AvatarHash} {names : List AvatarHash}

theorem insert_eq (c : AvatarCache) (hash : AvatarHash) (bytes : Bytes)
    (pinned : List AvatarHash) :
    c.insert hash bytes pinned =
      evict hash pinned (c.enter hash bytes).entries.size (c.enter hash bytes) := rfl

theorem getElem?_of_victim (hv : c.victim hash pinned = some (v, e)) :
    c.entries[v]? = some e :=
  Std.ExtTreeMap.mem_toList_iff_getElem?_eq_some.mp
    (List.mem_filter.mp (List.argmin_mem hv)).1

theorem getElem?_drop (c : AvatarCache) (v h : AvatarHash) (e : CacheEntry) :
    (c.drop v e).entries[h]? = if v = h then none else c.entries[h]? :=
  OrderedMap.getElem?_erase _ _ _

theorem evict_invariant {P : AvatarCache → Prop}
    (hdrop : ∀ c v e, c.victim hash pinned = some (v, e) → P c → P (c.drop v e)) (n : ℕ)
    (hc : P c) : P (evict hash pinned n c) := by
  induction n generalizing c with
  | zero => exact hc
  | succ n ih =>
    unfold evict
    split_ifs
    · exact hc
    · split
      · exact hc
      · rename_i v e hv
        exact ih (hdrop c v e hv hc)

theorem size_drop (hv : c.entries[v]? = some e) :
    (c.drop v e).entries.size + 1 = c.entries.size := by
  have hperm := (OrderedMap.toList_erase_perm hv).length_eq
  rw [List.length_cons, Std.ExtTreeMap.length_toList, Std.ExtTreeMap.length_toList] at hperm
  exact hperm.symm

theorem evict_done (n : ℕ) (hn : c.entries.size ≤ n) :
    (evict hash pinned n c).totalBytes ≤ (evict hash pinned n c).maxBytes ∨
      (evict hash pinned n c).victim hash pinned = none := by
  induction n generalizing c with
  | zero =>
    refine Or.inr ?_
    unfold evict
    cases hv : c.victim hash pinned with
    | none => rfl
    | some found =>
      have hsize := size_drop (getElem?_of_victim (v := found.1) (e := found.2) hv)
      omega
  | succ n ih =>
    unfold evict
    split_ifs with hfits
    · exact Or.inl hfits
    · cases hv : c.victim hash pinned with
      | none => exact Or.inr hv
      | some found =>
        have hsize := size_drop (getElem?_of_victim (v := found.1) (e := found.2) hv)
        refine ih (c := c.drop found.1 found.2) ?_
        omega

theorem pinned_of_victim_none (hnone : c.victim hash pinned = none) (hh : c.contains h)
    (hne : h ≠ hash) : h ∈ pinned := by
  obtain ⟨e, he⟩ := (OrderedMap.mem_iff _ _).mp (Std.ExtTreeMap.contains_iff_mem.mp hh)
  have hempty := List.argmin_eq_none.mp hnone
  by_contra hout
  have hmem : (h, e) ∈ c.entries.toList.filter fun e => e.1 ≠ hash && !pinned.contains e.1 := by
    refine List.mem_filter.mpr ⟨Std.ExtTreeMap.mem_toList_iff_getElem?_eq_some.mpr he, ?_⟩
    rw [Bool.and_eq_true, decide_eq_true_eq, Bool.not_eq_true', List.contains_eq_mem,
      decide_eq_false_iff_not]
    exact ⟨hne, hout⟩
  rw [hempty] at hmem
  exact List.not_mem_nil hmem

/-- The count of bytes is right. -/
def Counted (c : AvatarCache) : Prop := c.totalBytes = c.sizes.sum

theorem Counted.drop (hc : c.Counted) (hv : c.entries[v]? = some e) : (c.drop v e).Counted := by
  have hperm := ((OrderedMap.toList_erase_perm hv).map fun e => e.2.bytes.length).sum_eq
  rw [List.map_cons, List.sum_cons] at hperm
  have hsum : c.sizes.sum = e.bytes.length + (c.drop v e).sizes.sum := hperm
  unfold Counted at hc ⊢
  show c.totalBytes - e.bytes.length = _
  rw [hc, hsum, Nat.add_sub_cancel_left]

theorem Counted.touch (hc : c.Counted) (hash : AvatarHash) : (c.touch hash).Counted := by
  have hsizes : (c.touch hash).sizes = c.sizes :=
    OrderedMap.toList_modify_map c.entries hash (f := fun e => e.bytes.length) fun _ => rfl
  unfold Counted at hc ⊢
  rw [hsizes]
  exact hc

theorem getElem?_none (hout : ¬c.contains hash) : c.entries[hash]? = none := by
  by_contra hsome
  obtain ⟨e, he⟩ := Option.ne_none_iff_exists'.mp hsome
  exact hout (Std.ExtTreeMap.contains_iff_mem.mpr (OrderedMap.mem_of_getElem? he))

theorem Counted.enter (hc : c.Counted) (hash : AvatarHash) (bytes : Bytes) :
    (c.enter hash bytes).Counted := by
  unfold AvatarCache.enter
  split_ifs with hcached
  · exact hc.touch hash
  · have hsum := ((OrderedMap.toList_insert_perm (getElem?_none hcached)
      (CacheEntry.mk bytes (c.clock + 1))).map fun e => e.2.bytes.length).sum_eq
    rw [List.map_cons, List.sum_cons] at hsum
    unfold Counted at hc ⊢
    show c.totalBytes + bytes.length = _
    rw [hc, Nat.add_comm]
    exact hsum.symm

theorem Counted.insert (hc : c.Counted) (hash : AvatarHash) (bytes : Bytes)
    (pinned : List AvatarHash) : (c.insert hash bytes pinned).Counted :=
  evict_invariant (fun _ _ _ hv hc => hc.drop (getElem?_of_victim hv)) _ (hc.enter hash bytes)

/-- Each picture bears the number of the call that last named it, as the clock counts them. -/
structure Stamped (names : List AvatarHash) (c : AvatarCache) : Prop where
  clock : c.clock = UInt64.ofNat names.length
  stamps : ∀ h e, c.entries[h]? = some e →
    ∃ n, LastNamed names h n ∧ e.lastRef = UInt64.ofNat n

theorem ofNat_succ (n : ℕ) : UInt64.ofNat n + 1 = UInt64.ofNat (n + 1) :=
  UInt64.ofNat_add n 1 |>.symm

theorem Stamped.evict (hc : c.Stamped names) (hash : AvatarHash) (pinned : List AvatarHash)
    (n : ℕ) : (evict hash pinned n c).Stamped names := by
  refine evict_invariant (P := Stamped names) (fun c v e hv hc => ⟨hc.clock, ?_⟩) n hc
  intro h e' he'
  rw [getElem?_drop] at he'
  split_ifs at he'
  exact hc.stamps h e' he'

theorem Stamped.touch (hc : c.Stamped names) (hash : AvatarHash) :
    (c.touch hash).Stamped (names ++ [hash]) := by
  have hclock : c.clock + 1 = UInt64.ofNat (names.length + 1) := by
    rw [hc.clock, ofNat_succ]
  refine ⟨?_, ?_⟩
  · rw [List.length_append, List.length_singleton]
    exact hclock
  · intro h e he
    have hmodify : (c.entries.modify hash fun e => { e with lastRef := c.clock + 1 })[h]? = some e :=
      he
    rw [OrderedMap.getElem?_modify] at hmodify
    by_cases hself : hash = h
    · rw [if_pos hself] at hmodify
      obtain ⟨old, -, rfl⟩ := Option.map_eq_some_iff.mp hmodify
      exact ⟨_, hself ▸ lastNamed_append_self names hash, hclock⟩
    · rw [if_neg hself] at hmodify
      obtain ⟨n, hn, hstamp⟩ := hc.stamps h e hmodify
      exact ⟨n, hn.append (Ne.symm hself), hstamp⟩

theorem Stamped.enter (hc : c.Stamped names) (hash : AvatarHash) (bytes : Bytes) :
    (c.enter hash bytes).Stamped (names ++ [hash]) := by
  have hclock : c.clock + 1 = UInt64.ofNat (names.length + 1) := by
    rw [hc.clock, ofNat_succ]
  unfold AvatarCache.enter
  split_ifs with hcached
  · exact hc.touch hash
  · refine ⟨?_, ?_⟩
    · rw [List.length_append, List.length_singleton]
      exact hclock
    · intro h e he
      have hinsert : (c.entries.insert hash { bytes, lastRef := c.clock + 1 })[h]? = some e := he
      rw [OrderedMap.getElem?_insert] at hinsert
      by_cases hself : hash = h
      · rw [if_pos hself] at hinsert
        obtain rfl := Option.some.inj hinsert
        exact ⟨_, hself ▸ lastNamed_append_self names hash, hclock⟩
      · rw [if_neg hself] at hinsert
        obtain ⟨n, hn, hstamp⟩ := hc.stamps h e hinsert
        exact ⟨n, hn.append (Ne.symm hself), hstamp⟩

theorem Stamped.insert (hc : c.Stamped names) (hash : AvatarHash) (bytes : Bytes)
    (pinned : List AvatarHash) : (c.insert hash bytes pinned).Stamped (names ++ [hash]) :=
  (hc.enter hash bytes).evict hash pinned _

/-- What has been evicted so far bears an earlier stamp than anything left that may go. -/
structure Oldest (hash : AvatarHash) (pinned : List AvatarHash) (c₀ c : AvatarCache) : Prop where
  kept : ∀ (h : AvatarHash) (e : CacheEntry), c.entries[h]? = some e → c₀.entries[h]? = some e
  oldest : ∀ (v : AvatarHash) (e : CacheEntry), c₀.entries[v]? = some e →
    c.entries[v]? = none → ∀ (h : AvatarHash) (e' : CacheEntry), c.entries[h]? = some e' →
      h ≠ hash → h ∉ pinned → e.lastRef.toNat ≤ e'.lastRef.toNat

theorem lastRef_le_of_victim {e' : CacheEntry} (hv : c.victim hash pinned = some (v, e))
    (he' : c.entries[h]? = some e') (hne : h ≠ hash) (hout : h ∉ pinned) :
    e.lastRef.toNat ≤ e'.lastRef.toNat := by
  refine List.le_of_mem_argmin (a := (h, e')) (List.mem_filter.mpr ⟨?_, ?_⟩) hv
  · exact Std.ExtTreeMap.mem_toList_iff_getElem?_eq_some.mpr he'
  · rw [Bool.and_eq_true, decide_eq_true_eq, Bool.not_eq_true', List.contains_eq_mem,
      decide_eq_false_iff_not]
    exact ⟨hne, hout⟩

theorem Oldest.drop {c₀ : AvatarCache} (hc : Oldest hash pinned c₀ c)
    (hv : c.victim hash pinned = some (v, e)) : Oldest hash pinned c₀ (c.drop v e) := by
  have hleft : ∀ (h : AvatarHash) (e' : CacheEntry), (c.drop v e).entries[h]? = some e' →
      c.entries[h]? = some e' := by
    intro h e' he'
    rw [getElem?_drop] at he'
    split_ifs at he'
    exact he'
  refine ⟨fun h e' he' => hc.kept h e' (hleft h e' he'), ?_⟩
  intro u eu heu hgone h e' he' hne hout
  by_cases hself : v = u
  · -- the one that goes now
    subst hself
    have hsame := (hc.kept v e (getElem?_of_victim hv)).symm.trans heu
    obtain rfl := Option.some.inj hsame
    exact lastRef_le_of_victim hv (hleft h e' he') hne hout
  · rw [getElem?_drop, if_neg hself] at hgone
    exact hc.oldest u eu heu hgone h e' (hleft h e' he') hne hout

theorem evict_oldest (hash : AvatarHash) (pinned : List AvatarHash) (c : AvatarCache) (n : ℕ) :
    Oldest hash pinned c (evict hash pinned n c) := by
  refine evict_invariant (P := Oldest hash pinned c) (fun _ _ _ hv hc => hc.drop hv) n ?_
  refine ⟨fun _ _ he => he, ?_⟩
  intro v e he hgone
  rw [he] at hgone
  cases hgone

theorem contains_iff_entry (c : AvatarCache) (h : AvatarHash) :
    c.contains h ↔ ∃ e, c.entries[h]? = some e :=
  Std.ExtTreeMap.contains_iff_mem.trans (OrderedMap.mem_iff _ _)

theorem toNat_stamp {n k : ℕ} (hn : n ≤ k) (hk : k < 2 ^ 64) : (UInt64.ofNat n).toNat = n := by
  rw [UInt64.toNat_ofNat']
  exact Nat.mod_eq_of_lt (hn.trans_lt hk)

theorem getElem?_enter_of_ne (c : AvatarCache) (bytes : Bytes) (hne : h ≠ hash) :
    (c.enter hash bytes).entries[h]? = c.entries[h]? := by
  unfold enter
  split_ifs
  · show (c.entries.modify hash _)[h]? = _
    rw [OrderedMap.getElem?_modify, if_neg (Ne.symm hne)]
  · show (c.entries.insert hash _)[h]? = _
    rw [OrderedMap.getElem?_insert, if_neg (Ne.symm hne)]

theorem contains_insert_self (c : AvatarCache) (hash : AvatarHash) (bytes : Bytes)
    (pinned : List AvatarHash) : (c.insert hash bytes pinned).contains hash := by
  refine (contains_iff _ _).mpr ⟨(c.get hash).getD bytes, ?_⟩
  rw [get_insert c bytes (Or.inl rfl), if_pos rfl]

theorem Stamped.older_of_evicted (hc : c.Stamped names) (hfew : names.length < 2 ^ 64)
    (hv : c.contains v) (hgone : ¬(c.insert hash bytes pinned).contains v)
    (hh : (c.insert hash bytes pinned).contains h) (hne : h ≠ hash) (hout : h ∉ pinned) :
    Older names v h := by
  have hvictim : v ≠ hash := by
    rintro rfl
    exact hgone (contains_insert_self c v bytes pinned)
  have hdiffer : v ≠ h := by
    rintro rfl
    exact hgone hh
  obtain ⟨e, he⟩ := (contains_iff_entry c v).mp hv
  obtain ⟨e', he'⟩ := (contains_iff_entry _ h).mp hh
  have horder := evict_oldest hash pinned (c.enter hash bytes) (c.enter hash bytes).entries.size
  have hentered : (c.enter hash bytes).entries[v]? = some e :=
    (getElem?_enter_of_ne c bytes hvictim).trans he
  have hle := horder.oldest v e hentered (getElem?_none hgone) h e' he' hne hout
  have hold : c.entries[h]? = some e' :=
    (getElem?_enter_of_ne c bytes hne).symm.trans (horder.kept h e' he')
  -- the two were stamped in the order they were named in
  obtain ⟨m, hm, hstamp⟩ := hc.stamps v e he
  obtain ⟨n, hn, hstamp'⟩ := hc.stamps h e' hold
  rw [hstamp, hstamp', toNat_stamp hm.le_length hfew, toNat_stamp hn.le_length hfew] at hle
  refine older_of_lt hm hn (lt_of_le_of_ne hle ?_)
  rintro rfl
  exact hdiffer (hm.inj hn)

theorem maxBytes_enter (c : AvatarCache) (hash : AvatarHash) (bytes : Bytes) :
    (c.enter hash bytes).maxBytes = c.maxBytes := by
  unfold enter
  split_ifs
  · rfl
  · rfl

theorem maxBytes_insert (c : AvatarCache) (hash : AvatarHash) (bytes : Bytes)
    (pinned : List AvatarHash) : (c.insert hash bytes pinned).maxBytes = c.maxBytes :=
  evict_invariant (P := fun d : AvatarCache => d.maxBytes = c.maxBytes) (fun _ _ _ _ hd => hd) _
    (maxBytes_enter c hash bytes)

theorem fits_or_pinned (c : AvatarCache) (hash : AvatarHash) (bytes : Bytes)
    (pinned : List AvatarHash) :
    (c.insert hash bytes pinned).totalBytes ≤ c.maxBytes ∨
      ∀ h, (c.insert hash bytes pinned).contains h → h ≠ hash → h ∈ pinned := by
  have hdone : (evict hash pinned (c.enter hash bytes).entries.size _).totalBytes ≤ _ ∨ _ :=
    evict_done _ (Nat.le_refl _)
  rw [← insert_eq, maxBytes_insert] at hdone
  refine hdone.imp_right fun hnone h hh hne => ?_
  exact pinned_of_victim_none hnone hh hne

def after (maxBytes : ℕ) (calls : List CacheCall) : AvatarCache := run step (new maxBytes) calls

theorem new_counted (maxBytes : ℕ) : (new maxBytes).Counted := rfl

theorem after_counted (maxBytes : ℕ) (calls : List CacheCall) : (after maxBytes calls).Counted := by
  refine run_invariant (fun c call hc => ?_) (new_counted maxBytes) calls
  cases call with
  | touch hash => exact hc.touch hash
  | insert hash bytes pinned => exact hc.insert hash bytes pinned

theorem maxBytes_after (maxBytes : ℕ) (calls : List CacheCall) :
    (after maxBytes calls).maxBytes = maxBytes := by
  refine run_invariant (P := fun c : AvatarCache => c.maxBytes = maxBytes) (fun c call hc => ?_) rfl calls
  cases call with
  | touch hash => exact hc
  | insert hash bytes pinned => exact (maxBytes_insert c hash bytes pinned).trans hc

theorem new_stamped (maxBytes : ℕ) : (new maxBytes).Stamped [] := by
  refine ⟨rfl, fun h e he => ?_⟩
  have hnone : (∅ : Std.ExtTreeMap AvatarHash CacheEntry)[h]? = none :=
    Std.ExtTreeMap.getElem?_empty
  exact absurd (hnone.symm.trans he) (Option.some_ne_none e).symm

theorem after_stamped (maxBytes : ℕ) (calls : List CacheCall) :
    (after maxBytes calls).Stamped (calls.map CacheCall.hash) := by
  induction calls using List.reverseRecOn with
  | nil => exact new_stamped maxBytes
  | append_singleton calls call ih =>
    unfold after at ih ⊢
    rw [run_append, List.map_append]
    cases call with
    | touch hash => exact ih.touch hash
    | insert hash bytes pinned => exact ih.insert hash bytes pinned

/-- The count of bytes is that of the pictures there are. An insert gets it down to the budget,
or to what is pinned and the picture inserted; it loses neither, and of the others it evicts
those named longest ago. -/
theorem picture_cache_law (maxBytes : ℕ) (calls : List CacheCall) (hash : AvatarHash)
    (bytes : Bytes) (pinned : List AvatarHash) :
    (after maxBytes calls).totalBytes = (after maxBytes calls).sizes.sum ∧
      (((after maxBytes calls).insert hash bytes pinned).totalBytes ≤ maxBytes ∨
        ∀ h, ((after maxBytes calls).insert hash bytes pinned).contains h → h ≠ hash →
          h ∈ pinned) ∧
      ((after maxBytes calls).insert hash bytes pinned).contains hash ∧
      (∀ h picture, h = hash ∨ h ∈ pinned → (after maxBytes calls).get h = some picture →
        ((after maxBytes calls).insert hash bytes pinned).get h = some picture) ∧
      (calls.length < 2 ^ 64 → ∀ v h, (after maxBytes calls).contains v →
        ¬((after maxBytes calls).insert hash bytes pinned).contains v →
        ((after maxBytes calls).insert hash bytes pinned).contains h → h ≠ hash → h ∉ pinned →
          Older (calls.map CacheCall.hash) v h) := by
  refine ⟨after_counted maxBytes calls, ?_, contains_insert_self _ hash bytes pinned,
    fun h picture hkept hold => get_insert_kept bytes hkept hold, ?_⟩
  · have hfits := fits_or_pinned (after maxBytes calls) hash bytes pinned
    rwa [maxBytes_after] at hfits
  · intro hfew v h hv hgone hh hne hout
    -- stamps are told apart as long as the clock has not come round
    have hstamped := after_stamped maxBytes calls
    exact hstamped.older_of_evicted (by rwa [List.length_map]) hv hgone hh hne hout

theorem picture_cache_law_two :
    Older ([.insert 1 [0] [], .insert 2 [0] [3], .touch 3, .touch 1].map CacheCall.hash) 2 1 :=
  (picture_cache_law 2 [.insert 1 [0] [], .insert 2 [0] [3], .touch 3, .touch 1] 4 [0] []).2.2.2.2
    (by decide) 2 1 (by decide +kernel) (by decide +kernel) (by decide +kernel) (by decide)
    List.not_mem_nil

theorem touch_absent (hout : ¬c.contains hash) : c.touch hash = { c with clock := c.clock + 1 } := by
  have hsame : c.entries.modify hash (fun e => { e with lastRef := c.clock + 1 }) = c.entries := by
    refine Std.ExtTreeMap.ext_getElem? fun a => ?_
    rw [OrderedMap.getElem?_modify]
    split_ifs with ha
    · rw [← ha, getElem?_none hout]
      rfl
    · rfl
  unfold touch
  rw [hsame]

theorem run_touch_absent (hout : ¬c.contains hash) (n : ℕ) :
    run step c (List.replicate n (.touch hash)) = { c with clock := c.clock + UInt64.ofNat n } := by
  induction n generalizing c with
  | zero =>
    show c = { c with clock := c.clock + 0 }
    rw [UInt64.add_zero]
  | succ n ih =>
    have hout' : ¬{ c with clock := c.clock + 1 }.contains hash := hout
    rw [List.replicate_succ, run_cons]
    show run step (c.touch hash) _ = _
    rw [touch_absent hout, ih hout', ← ofNat_succ, UInt64.add_assoc, UInt64.add_comm 1]

def apart (n : ℕ) : List CacheCall :=
  .insert 1 [0] [] :: List.replicate n (.touch 3) ++ [.insert 2 [0] []]

theorem after_apart (n : ℕ) :
    after 2 (apart n) =
      { (new 2).insert 1 [0] [] with clock := 1 + UInt64.ofNat n }.insert 2 [0] [] := by
  have hout : ¬((new 2).insert 1 [0] []).contains 3 := by decide +kernel
  have hclock : ((new 2).insert 1 [0] []).clock = 1 := by decide +kernel
  unfold after apart
  rw [run_append]
  show step (run step ((new 2).insert 1 [0] []) _) (.insert 2 [0] []) = _
  rw [run_touch_absent hout, hclock]
  rfl

/-- Once the clock has come round, the picture named last is the first to go. -/
theorem latest_evicted :
    ¬∀ (maxBytes : ℕ) (calls : List CacheCall) (hash : AvatarHash) (bytes : Bytes)
      (pinned : List AvatarHash) (v h : AvatarHash), (after maxBytes calls).contains v →
        ¬((after maxBytes calls).insert hash bytes pinned).contains v →
        ((after maxBytes calls).insert hash bytes pinned).contains h → h ≠ hash → h ∉ pinned →
          Older (calls.map CacheCall.hash) v h := by
  intro hall
  obtain ⟨n, hn⟩ : ∃ n, 1 + UInt64.ofNat n = 0xFFFFFFFFFFFFFFFF := ⟨2 ^ 64 - 2, by decide⟩
  have holder := hall 2 (apart n) 4 [0] [] 2 1
  have hnames : (apart n).map CacheCall.hash =
      (CacheCall.insert 1 [0] [] :: List.replicate n (.touch 3)).map CacheCall.hash ++ [2] :=
    List.map_append
  rw [after_apart, hn, hnames] at holder
  exact not_older_append_self _ 2 1 (holder (by decide +kernel) (by decide +kernel)
    (by decide +kernel) (by decide) List.not_mem_nil)

end JamStream.Session.AvatarCache
