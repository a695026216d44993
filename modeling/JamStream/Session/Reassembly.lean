import JamStream.Session.Trains

/-! A chunk train on its way from the cursor that sends it to the buffer that puts it together. -/

namespace JamStream.Session
open Protocol

structure Chunk where
  index : UInt16
  total : UInt16
  data : Bytes
deriving DecidableEq

def Chunk.msg (hash : AvatarHash) (chunk : Chunk) : ControlMsg :=
  .avatarChunk hash chunk.index chunk.total chunk.data

def sliceAt (bytes : Bytes) (i : ℕ) : Bytes :=
  (bytes.drop (i * avatarChunkBytes)).take avatarChunkBytes

def Chunk.of (bytes : Bytes) (i : ℕ) : Chunk :=
  { index := UInt16.ofNat i, total := chunkTotal bytes.length, data := sliceAt bytes i }

/-- The one train of a picture: full slices in order, and the rest. -/
def canonical (bytes : Bytes) : List Chunk :=
  (List.range (chunkTotal bytes.length).toNat).map (Chunk.of bytes)

theorem train_eq (hash : AvatarHash) (bytes : Bytes) :
    train hash bytes = (canonical bytes).map (Chunk.msg hash) := by
  rw [canonical, List.map_map]
  rfl

namespace AvatarTx

def sent (bytes : Bytes) : ℕ → AvatarTx → List ControlMsg
  | 0, _ => []
  | n + 1, tx => (tx.nextChunk bytes).2.toList ++ sent bytes n (tx.nextChunk bytes).1

theorem sent_eq (bytes : Bytes) (hash : AvatarHash) (n : ℕ) :
    ∀ k, k ≤ (chunkTotal bytes.length).toNat →
      sent bytes n { hash, next := UInt16.ofNat k } = ((train hash bytes).drop k).take n := by
  induction n with
  | zero =>
    intro k _
    exact List.take_zero.symm
  | succ n ih =>
    intro k hk
    have hsmall : k < UInt16.size := hk.trans_lt (chunkTotal bytes.length).toNat_lt
    have hback : (UInt16.ofNat k).toNat = k := UInt16.toNat_ofNat_of_lt hsmall
    rw [sent, nextChunk_eq]
    by_cases hlt : k < (chunkTotal bytes.length).toNat
    · rw [if_pos (UInt16.lt_iff_toNat_lt.mpr (hback.trans_lt hlt))]
      have hsucc : UInt16.ofNat k + 1 = UInt16.ofNat (k + 1) := UInt16.ofNat_add k 1 |>.symm
      dsimp only
      rw [hsucc, ih (k + 1) hlt, hback]
      have hget : (train hash bytes)[k]? = some (chunkAt hash bytes k) := by
        rw [train, List.getElem?_map, List.getElem?_range hlt]
        rfl
      have hhead := List.drop_eq_getElem?_toList_append (l := train hash bytes) (i := k)
      rw [hget] at hhead
      rw [hhead]
      rfl
    · have hend : k = (chunkTotal bytes.length).toNat := le_antisymm hk (not_lt.mp hlt)
      have hnot : ¬UInt16.ofNat k < chunkTotal bytes.length := by
        rw [UInt16.lt_iff_toNat_lt, hback]
        exact hlt
      rw [if_neg hnot]
      dsimp only
      rw [ih k hk]
      have hnil : (train hash bytes).drop k = [] := by
        rw [List.drop_eq_nil_iff, train_length]
        exact hend.ge
      rw [hnil]
      simp

end AvatarTx

namespace AvatarRx

def More : Except String RxStep → Bool
  | .ok .more => true
  | _ => false

/-- Chunks as both cores take them: any answer but `more` ends the train. -/
def feed (avatarHash : Bytes → AvatarHash) :
    AvatarRx → List Chunk → AvatarRx × List (Except String RxStep)
  | rx, [] => (rx, [])
  | rx, chunk :: chunks =>
    let pushed := rx.push avatarHash chunk.index chunk.total chunk.data
    if More pushed.2 then
      let rest := feed avatarHash pushed.1 chunks
      (rest.1, pushed.2 :: rest.2)
    else (pushed.1, [pushed.2])

/-- A chunk that is the next one of its train, whatever it carries. -/
structure Fits (rx : AvatarRx) (chunk : Chunk) : Prop where
  nonzero : chunk.total ≠ 0
  capped : chunk.total ≤ chunkTotal maxAvatarBytes
  declared : ∀ len, rx.expectedLen = some len → chunk.total = chunkTotal len.toNat
  same : ∀ t, rx.total = some t → t = chunk.total
  next : chunk.index = rx.next

def grown (rx : AvatarRx) (chunk : Chunk) : AvatarRx :=
  { rx with total := some chunk.total, buf := rx.buf ++ chunk.data, next := rx.next + 1 }

inductive Pushed (avatarHash : Bytes → AvatarHash) (rx : AvatarRx) (chunk : Chunk) :
    AvatarRx × Except String RxStep → Prop
  | refused (rx' : AvatarRx) (e : String) (hbuf : rx'.buf = rx.buf) :
    Pushed avatarHash rx chunk (rx', .error e)
  | more (hfits : rx.Fits chunk) (hlast : chunk.index + 1 ≠ chunk.total)
    (hfull : chunk.data.length = avatarChunkBytes) :
    Pushed avatarHash rx chunk (rx.grown chunk, .ok .more)
  | wrong (hfits : rx.Fits chunk) (hsize : chunk.data.length ≤ avatarChunkBytes) (e : String) :
    Pushed avatarHash rx chunk (rx.grown chunk, .error e)
  | done (hfits : rx.Fits chunk) (hlast : chunk.index + 1 = chunk.total)
    (hsome : 1 ≤ chunk.data.length) (hsize : chunk.data.length ≤ avatarChunkBytes)
    (hlen : ∀ len, rx.expectedLen = some len → (rx.buf ++ chunk.data).length = len.toNat)
    (hhash : avatarHash (rx.buf ++ chunk.data) = rx.hash) :
    Pushed avatarHash rx chunk
      ({ rx.grown chunk with buf := [] }, .ok (.done (rx.buf ++ chunk.data)))

theorem pushed (avatarHash : Bytes → AvatarHash) (rx : AvatarRx) (chunk : Chunk) :
    Pushed avatarHash rx chunk (rx.push avatarHash chunk.index chunk.total chunk.data) := by
  have hall : ∀ {α : Type} {o : Option α} {p : α → Bool}, ¬o.any p = true →
      ∀ a, o = some a → p a = false := by
    rintro α o p hnot a rfl
    simpa using hnot
  simp only [push]
  split
  · exact .refused _ _ rfl
  next hrange =>
    split
    · exact .refused _ _ rfl
    next hdeclared =>
      split
      · exact .refused _ _ rfl
      next hsame =>
        split
        · exact .refused _ _ rfl
        next hnext =>
          push Not at hrange
          have hfits : rx.Fits chunk := by
            refine ⟨hrange.1, UInt16.not_lt.mp hrange.2, fun len hlen => ?_, fun t ht => ?_,
              not_not.mp hnext⟩
            · simpa using hall hdeclared len hlen
            · simpa using hall hsame t ht
          by_cases hlast : chunk.index + 1 = chunk.total
          · simp only [hlast, if_true, not_true_eq_false, if_false]
            split
            · exact .refused _ _ rfl
            next hsized =>
              rw [not_not] at hsized
              split
              · exact .wrong hfits hsized.2 _
              next hlen =>
                split
                · exact .wrong hfits hsized.2 _
                next hhash =>
                  refine .done hfits hlast hsized.1 hsized.2 (fun len hl => ?_) (not_not.mp hhash)
                  simpa using hall hlen len hl
          · simp only [hlast, if_false, not_false_eq_true, if_true]
            split
            · exact .refused _ _ rfl
            next hsized => exact .more hfits hlast (not_not.mp hsized)

structure Partway (rx : AvatarRx) (k : ℕ) : Prop where
  next : rx.next.toNat = k
  length : rx.buf.length = k * avatarChunkBytes
  short : k = 0 ∨ ∃ t, rx.total = some t ∧ k < t.toNat

theorem partway_new (hash : AvatarHash) (expectedLen : Option UInt32) :
    (new hash expectedLen).Partway 0 := ⟨rfl, by simp [new], .inl rfl⟩

variable {avatarHash : Bytes → AvatarHash} {rx : AvatarRx} {chunk : Chunk} {k : ℕ}

theorem chunkTotal_max : chunkTotal maxAvatarBytes = 256 := by decide

theorem Partway.lt (h : rx.Partway k) (hfits : rx.Fits chunk) :
    k < chunk.total.toNat ∧ chunk.total.toNat ≤ 256 := by
  have hcap := UInt16.le_iff_toNat_le.mp hfits.capped
  rw [chunkTotal_max] at hcap
  refine ⟨?_, hcap⟩
  rcases h.short with rfl | ⟨t, ht, hlt⟩
  · exact Nat.pos_of_ne_zero fun hzero => hfits.nonzero (UInt16.toNat_inj.mp hzero)
  · rw [← hfits.same t ht]
    exact hlt

theorem Partway.grown (h : rx.Partway k) (hfits : rx.Fits chunk)
    (hlast : chunk.index + 1 ≠ chunk.total) (hfull : chunk.data.length = avatarChunkBytes) :
    (rx.grown chunk).Partway (k + 1) := by
  obtain ⟨hlt, hcap⟩ := h.lt hfits
  have hnext : (rx.next + 1).toNat = k + 1 := by
    rw [UInt16.toNat_add, h.next]
    exact Nat.mod_eq_of_lt (by change k + 1 < 65536; omega)
  refine ⟨hnext, ?_, .inr ⟨_, rfl, ?_⟩⟩
  · rw [AvatarRx.grown, List.length_append, h.length, hfull, Nat.succ_mul]
  · refine lt_of_le_of_ne hlt fun heq => hlast ?_
    rw [hfits.next]
    exact UInt16.toNat_inj.mp (hnext.trans heq)

theorem Partway.buffered (h : rx.Partway k) (hfits : rx.Fits chunk)
    (hsize : chunk.data.length ≤ avatarChunkBytes) :
    (rx.grown chunk).buf.length ≤ maxAvatarBytes := by
  obtain ⟨hlt, hcap⟩ := h.lt hfits
  have hsum : (rx.grown chunk).buf.length ≤ (k + 1) * avatarChunkBytes := by
    rw [AvatarRx.grown, List.length_append, h.length, Nat.succ_mul]
    exact Nat.add_le_add_left hsize _
  have hmost : (k + 1) * avatarChunkBytes ≤ 256 * avatarChunkBytes :=
    Nat.mul_le_mul_right _ (by omega)
  exact hsum.trans (hmost.trans (by decide))

theorem Partway.feed_le (h : rx.Partway k) (hheld : rx.buf.length ≤ maxAvatarBytes)
    (chunks : List Chunk) : (feed avatarHash rx chunks).1.buf.length ≤ maxAvatarBytes := by
  induction chunks generalizing rx k with
  | nil => exact hheld
  | cons chunk chunks ih =>
    have hpushed := pushed avatarHash rx chunk
    rw [feed]
    generalize rx.push avatarHash chunk.index chunk.total chunk.data = r at hpushed
    cases hpushed with
    | refused rx' e hbuf => exact hbuf ▸ hheld
    | more hfits hlast hfull =>
      exact ih (h.grown hfits hlast hfull) (h.buffered hfits hfull.le)
    | wrong hfits hsize e => exact h.buffered hfits hsize
    | done hfits hlast hsome hsize hlen hhash => exact Nat.zero_le _

/-! The train that is taken to its end. -/

theorem chunkTotal_of_last {len : ℕ} (hlow : k * avatarChunkBytes < len)
    (hhigh : len ≤ (k + 1) * avatarChunkBytes) (hk : k < 256) :
    (chunkTotal len).toNat = k + 1 := by
  have hdiv : (len + avatarChunkBytes - 1) / avatarChunkBytes = k + 1 := by
    rw [Nat.div_eq_iff (by decide)]
    have hunit : avatarChunkBytes = 1024 := rfl
    rw [hunit] at hlow hhigh ⊢
    omega
  rw [chunkTotal, hdiv]
  exact UInt16.toNat_ofNat_of_lt (by change k + 1 < 65536; omega)

theorem canonical_drop {bytes : Bytes} (hk : k < (chunkTotal bytes.length).toNat) :
    (canonical bytes).drop k = Chunk.of bytes k :: (canonical bytes).drop (k + 1) := by
  have hget : (canonical bytes)[k]? = some (Chunk.of bytes k) := by
    rw [canonical, List.getElem?_map, List.getElem?_range hk]
    rfl
  rw [List.drop_eq_getElem?_toList_append, hget]
  rfl

theorem sliceAt_append {held data rest : Bytes} (hheld : held.length = k * avatarChunkBytes)
    (hdata : data.length = avatarChunkBytes) : sliceAt (held ++ data ++ rest) k = data := by
  rw [sliceAt, List.append_assoc, ← hheld, List.drop_left, ← hdata, List.take_left]

/-- A train that a receiver with some chunks of it takes to its end. -/
structure Completes (avatarHash : Bytes → AvatarHash) (rx : AvatarRx) (k : ℕ)
    (taken : List Chunk) (bytes : Bytes) : Prop where
  begins : rx.buf <+: bytes
  total : ∀ t, rx.total = some t → t = chunkTotal bytes.length
  more : k < (chunkTotal bytes.length).toNat
  taken : taken = (canonical bytes).drop k
  nonempty : 1 ≤ bytes.length
  capped : bytes.length ≤ maxAvatarBytes
  declared : ∀ len, rx.expectedLen = some len → bytes.length = len.toNat
  hash : avatarHash bytes = rx.hash

theorem Partway.index (h : rx.Partway k) (hfits : rx.Fits chunk) :
    chunk.index = UInt16.ofNat k := by
  rw [hfits.next, ← h.next]
  exact (UInt16.ofNat_toNat).symm

theorem Partway.finish (h : rx.Partway k) (hfits : rx.Fits chunk)
    (hlast : chunk.index + 1 = chunk.total) (hsome : 1 ≤ chunk.data.length)
    (hsize : chunk.data.length ≤ avatarChunkBytes)
    (hlen : ∀ len, rx.expectedLen = some len → (rx.buf ++ chunk.data).length = len.toNat)
    (hhash : avatarHash (rx.buf ++ chunk.data) = rx.hash) :
    rx.Completes avatarHash k [chunk] (rx.buf ++ chunk.data) := by
  obtain ⟨hlt, hcap⟩ := h.lt hfits
  have hlength : (rx.buf ++ chunk.data).length = k * avatarChunkBytes + chunk.data.length := by
    rw [List.length_append, h.length]
  have hends : chunk.total.toNat = k + 1 := by
    rw [← hlast, hfits.next, UInt16.toNat_add, h.next]
    exact Nat.mod_eq_of_lt (by change k + 1 < 65536; omega)
  have htotal : (chunkTotal (rx.buf ++ chunk.data).length).toNat = k + 1 := by
    refine chunkTotal_of_last ?_ ?_ (by omega)
    · rw [hlength]
      omega
    · rw [hlength, Nat.succ_mul]
      omega
  have hsame : chunk.total = chunkTotal (rx.buf ++ chunk.data).length :=
    UInt16.toNat_inj.mp (hends.trans htotal.symm)
  have hslice : sliceAt (rx.buf ++ chunk.data) k = chunk.data := by
    rw [sliceAt, ← h.length, List.drop_left]
    exact List.take_of_length_le hsize
  refine ⟨List.prefix_append _ _, fun t ht => (hfits.same t ht).trans hsame, by omega, ?_, ?_,
    h.buffered hfits hsize, hlen, hhash⟩
  · have hnil : (canonical (rx.buf ++ chunk.data)).drop (k + 1) = [] := by
      rw [List.drop_eq_nil_iff, canonical, List.length_map, List.length_range, htotal]
    rw [canonical_drop (by omega), hnil, Chunk.of, hslice, ← hsame, ← h.index hfits]
  · rw [hlength]
    omega

theorem Completes.cons {taken : List Chunk} {bytes : Bytes} (h : rx.Partway k)
    (hfits : rx.Fits chunk) (hfull : chunk.data.length = avatarChunkBytes)
    (hrest : (rx.grown chunk).Completes avatarHash (k + 1) taken bytes) :
    rx.Completes avatarHash k (chunk :: taken) bytes := by
  have hsame : chunk.total = chunkTotal bytes.length := hrest.total _ rfl
  have hk : k < (chunkTotal bytes.length).toNat := (Nat.lt_succ_self k).trans hrest.more
  refine ⟨(List.prefix_append _ _).trans hrest.begins,
    fun t ht => (hfits.same t ht).trans hsame, hk, ?_, hrest.nonempty, hrest.capped, hrest.declared,
    hrest.hash⟩
  obtain ⟨tail, htail⟩ := hrest.begins
  have hslice : sliceAt bytes k = chunk.data := by
    rw [← htail]
    exact sliceAt_append h.length hfull
  rw [canonical_drop hk, Chunk.of, hslice, ← hsame, ← h.index hfits, hrest.taken]

theorem Partway.completes (h : rx.Partway k) {chunks : List Chunk} {bytes : Bytes}
    (hdone : .ok (.done bytes) ∈ (feed avatarHash rx chunks).2) :
    rx.Completes avatarHash k (chunks.take (feed avatarHash rx chunks).2.length) bytes := by
  induction chunks generalizing rx k with
  | nil => cases hdone
  | cons chunk chunks ih =>
    have hpushed := pushed avatarHash rx chunk
    rw [feed] at hdone ⊢
    generalize rx.push avatarHash chunk.index chunk.total chunk.data = r at hpushed hdone ⊢
    cases hpushed with
    | refused rx' e hbuf =>
      cases List.mem_singleton.mp hdone
    | more hfits hlast hfull =>
      have hlater : .ok (.done bytes) ∈ (feed avatarHash (rx.grown chunk) chunks).2 := by
        rcases List.mem_cons.mp hdone with hnow | hlater
        · cases hnow
        · exact hlater
      exact Completes.cons h hfits hfull (ih (h.grown hfits hlast hfull) hlater)
    | wrong hfits hsize e =>
      cases List.mem_singleton.mp hdone
    | done hfits hlast hsome hsize hlen hhash =>
      have hsame := List.mem_singleton.mp hdone
      cases hsame
      exact h.finish hfits hlast hsome hsize hlen hhash

/-! A picture that is sent whole. -/

/-- A receiver that has the first chunks of a picture. -/
structure Reading (avatarHash : Bytes → AvatarHash) (rx : AvatarRx) (bytes : Bytes) (k : ℕ) :
    Prop where
  next : rx.next = UInt16.ofNat k
  buf : rx.buf = bytes.take (k * avatarChunkBytes)
  total : ∀ t, rx.total = some t → t = chunkTotal bytes.length
  declared : ∀ len, rx.expectedLen = some len → len.toNat = bytes.length
  hash : avatarHash bytes = rx.hash

theorem any_eq_false {α : Type} {o : Option α} {p : α → Bool} (h : ∀ a, o = some a → p a = false) :
    ¬o.any p = true := by
  cases o with
  | none => exact Bool.false_ne_true
  | some a =>
    rw [Option.any_some, h a rfl]
    exact Bool.false_ne_true

variable {bytes : Bytes}

theorem chunkTotal_bounds (hsome : 1 ≤ bytes.length) (hcap : bytes.length ≤ maxAvatarBytes) :
    ((chunkTotal bytes.length).toNat - 1) * avatarChunkBytes < bytes.length ∧
      bytes.length ≤ (chunkTotal bytes.length).toNat * avatarChunkBytes ∧
      1 ≤ (chunkTotal bytes.length).toNat ∧ (chunkTotal bytes.length).toNat ≤ 256 := by
  have hunit : avatarChunkBytes = 1024 := rfl
  have hmax : maxAvatarBytes = 262144 := rfl
  rw [hmax] at hcap
  have hnat : (chunkTotal bytes.length).toNat = (bytes.length + 1023) / 1024 := by
    rw [chunkTotal, hunit]
    exact UInt16.toNat_ofNat_of_lt (by change (bytes.length + 1023) / 1024 < 65536; omega)
  rw [hnat, hunit]
  omega

theorem Reading.grown (h : rx.Reading avatarHash bytes k) :
    (rx.grown (Chunk.of bytes k)).Reading avatarHash bytes (k + 1) := by
  refine ⟨?_, ?_, fun t ht => (Option.some.inj ht).symm, h.declared, h.hash⟩
  · change rx.next + 1 = _
    rw [h.next]
    exact (UInt16.ofNat_add k 1).symm
  · change rx.buf ++ sliceAt bytes k = _
    rw [h.buf, sliceAt, Nat.succ_mul]
    exact List.take_add.symm

theorem Reading.push (h : rx.Reading avatarHash bytes k) (hsome : 1 ≤ bytes.length)
    (hcap : bytes.length ≤ maxAvatarBytes) (hk : k < (chunkTotal bytes.length).toNat) :
    ∃ rx', rx.push avatarHash (UInt16.ofNat k) (chunkTotal bytes.length) (sliceAt bytes k) =
      (rx', if k + 1 = (chunkTotal bytes.length).toNat then .ok (.done bytes) else .ok .more) ∧
      (k + 1 < (chunkTotal bytes.length).toNat → rx'.Reading avatarHash bytes (k + 1)) := by
  obtain ⟨hlow, hhigh, hone, hmost⟩ := chunkTotal_bounds hsome hcap
  have hgrown := h.grown
  have hrange : ¬(chunkTotal bytes.length = 0 ∨
      chunkTotal maxAvatarBytes < chunkTotal bytes.length) := by
    rintro (hzero | hover)
    · rw [hzero] at hone
      exact absurd hone (by decide)
    · rw [chunkTotal_max] at hover
      exact absurd (UInt16.lt_iff_toNat_lt.mp hover) (not_lt.mpr hmost)
  have hdeclared : ¬(rx.expectedLen.any fun len =>
      decide (chunkTotal bytes.length ≠ chunkTotal len.toNat)) = true :=
    any_eq_false fun len hlen => by simp [h.declared len hlen]
  have hsame : ¬(rx.total.any fun t => decide (t ≠ chunkTotal bytes.length)) = true :=
    any_eq_false fun t ht => by simp [h.total t ht]
  have hnext : ¬UInt16.ofNat k ≠ rx.next := not_not.mpr h.next.symm
  have hlength : (sliceAt bytes k).length =
      min avatarChunkBytes (bytes.length - k * avatarChunkBytes) := by
    rw [sliceAt, List.length_take, List.length_drop]
  have hunit : avatarChunkBytes = 1024 := rfl
  have hlast : UInt16.ofNat k + 1 = chunkTotal bytes.length ↔
      k + 1 = (chunkTotal bytes.length).toNat := by
    have hback : (UInt16.ofNat k + 1).toNat = k + 1 := by
      have hsucc : UInt16.ofNat k + 1 = UInt16.ofNat (k + 1) := (UInt16.ofNat_add k 1).symm
      rw [hsucc]
      exact UInt16.toNat_ofNat_of_lt (by change k + 1 < 65536; omega)
    rw [← UInt16.toNat_inj, hback]
  simp only [AvatarRx.push, if_neg hrange, if_neg hdeclared, if_neg hsame, if_neg hnext]
  by_cases hend : k + 1 = (chunkTotal bytes.length).toNat
  · have hwhole : rx.buf ++ sliceAt bytes k = bytes := by
      have hbuf := hgrown.buf
      rw [List.take_of_length_le (by rw [hend]; exact hhigh)] at hbuf
      exact hbuf
    have hsize : 1 ≤ (sliceAt bytes k).length ∧ (sliceAt bytes k).length ≤ avatarChunkBytes := by
      rw [hlength]
      rw [← hend, Nat.add_sub_cancel] at hlow
      rw [hunit] at hlow ⊢
      omega
    have hlen : ¬(rx.expectedLen.any fun len => decide (bytes.length ≠ len.toNat)) = true :=
      any_eq_false fun len hlen => by simp [h.declared len hlen]
    simp only [hlast.mpr hend, if_true, hsize.1, hsize.2, and_self, not_true_eq_false, if_false,
      hwhole, if_neg hlen, h.hash, ne_eq, if_pos hend]
    exact ⟨_, rfl, fun hmore => absurd hend hmore.ne⟩
  · have hmore : k + 1 < (chunkTotal bytes.length).toNat := lt_of_le_of_ne hk hend
    have hfull : (sliceAt bytes k).length = avatarChunkBytes := by
      rw [hlength]
      rw [hunit] at hlow ⊢
      omega
    have hnot : ¬UInt16.ofNat k + 1 = chunkTotal bytes.length := fun heq => hend (hlast.mp heq)
    simp only [hnot, if_false, hfull, not_true_eq_false, not_false_eq_true, if_true, if_neg hend]
    exact ⟨_, rfl, fun _ => hgrown⟩

theorem feed_more {rx' : AvatarRx} {chunks : List Chunk}
    (h : rx.push avatarHash chunk.index chunk.total chunk.data = (rx', .ok .more)) :
    (feed avatarHash rx (chunk :: chunks)).2 = .ok .more :: (feed avatarHash rx' chunks).2 := by
  rw [AvatarRx.feed, h]
  rfl

theorem feed_done {rx' : AvatarRx} {chunks : List Chunk}
    (h : rx.push avatarHash chunk.index chunk.total chunk.data = (rx', .ok (.done bytes))) :
    (feed avatarHash rx (chunk :: chunks)).2 = [.ok (.done bytes)] := by
  rw [AvatarRx.feed, h]
  rfl

theorem Reading.feed (hsome : 1 ≤ bytes.length) (hcap : bytes.length ≤ maxAvatarBytes) (m : ℕ) :
    ∀ {rx : AvatarRx} {k : ℕ}, rx.Reading avatarHash bytes k →
      k + m + 1 = (chunkTotal bytes.length).toNat →
      (AvatarRx.feed avatarHash rx ((canonical bytes).drop k)).2 =
        List.replicate m (.ok .more) ++ [.ok (.done bytes)] := by
  induction m with
  | zero =>
    intro rx k h hk
    obtain ⟨rx', hpush, -⟩ := h.push hsome hcap (by omega)
    rw [if_pos (by omega)] at hpush
    have hlast : rx.push avatarHash (Chunk.of bytes k).index (Chunk.of bytes k).total
        (Chunk.of bytes k).data = _ := hpush
    rw [canonical_drop (by omega), feed_done hlast]
    rfl
  | succ m ih =>
    intro rx k h hk
    obtain ⟨rx', hpush, hnext⟩ := h.push hsome hcap (by omega)
    have hrest := ih (hnext (by omega)) (by omega)
    rw [if_neg (by omega)] at hpush
    have hnow : rx.push avatarHash (Chunk.of bytes k).index (Chunk.of bytes k).total
        (Chunk.of bytes k).data = _ := hpush
    rw [canonical_drop (by omega), feed_more hnow, hrest]
    rfl

/-- What a sender's cursor gives is put together again, and nothing but the train of a picture of
the announced hash and length is taken to its end; the buffer never outgrows the largest picture. -/
theorem trains_reassemble_exactly (avatarHash : Bytes → AvatarHash) :
    (∀ bytes : Bytes, 1 ≤ bytes.length → bytes.length ≤ maxAvatarBytes →
      (∀ polls, (canonical bytes).length ≤ polls →
        AvatarTx.sent bytes polls (.new (avatarHash bytes)) =
          (canonical bytes).map (Chunk.msg (avatarHash bytes))) ∧
      ∀ expectedLen : Option UInt32, (∀ len, expectedLen = some len → len.toNat = bytes.length) →
        (feed avatarHash (new (avatarHash bytes) expectedLen) (canonical bytes)).2 =
          List.replicate ((canonical bytes).length - 1) (.ok .more) ++ [.ok (.done bytes)]) ∧
    ∀ (hash : AvatarHash) (expectedLen : Option UInt32) (chunks : List Chunk),
      (feed avatarHash (new hash expectedLen) chunks).1.buf.length ≤ maxAvatarBytes ∧
      ∀ bytes, .ok (.done bytes) ∈ (feed avatarHash (new hash expectedLen) chunks).2 →
        chunks.take (feed avatarHash (new hash expectedLen) chunks).2.length = canonical bytes ∧
        avatarHash bytes = hash ∧ (∀ len, expectedLen = some len → bytes.length = len.toNat) ∧
        1 ≤ bytes.length ∧ bytes.length ≤ maxAvatarBytes := by
  refine ⟨fun bytes hsome hcap => ⟨fun polls hpolls => ?_, fun expectedLen hlen => ?_⟩,
    fun hash expectedLen chunks => ⟨?_, fun bytes hdone => ?_⟩⟩
  · -- the sender cuts the canonical train, from its first chunk
    have hsent := AvatarTx.sent_eq bytes (avatarHash bytes) polls 0 (Nat.zero_le _)
    rw [← train_eq]
    refine hsent.trans ?_
    rw [List.drop_zero]
    refine List.take_of_length_le ?_
    rw [train_eq, List.length_map]
    exact hpolls
  · have hone := (chunkTotal_bounds hsome hcap).2.2.1
    have hcount : (canonical bytes).length = (chunkTotal bytes.length).toNat := by
      rw [canonical, List.length_map, List.length_range]
    -- a new receiver has read the first none of it
    have hstart : (new (avatarHash bytes) expectedLen).Reading avatarHash bytes 0 := by
      refine ⟨rfl, by simp [new], fun t ht => ?_, hlen, rfl⟩
      cases ht
    rw [hcount]
    exact hstart.feed hsome hcap _ (by omega)
  · exact (partway_new hash expectedLen).feed_le (Nat.zero_le _) chunks
  · have h := (partway_new hash expectedLen).completes hdone
    exact ⟨h.taken, h.hash, h.declared, h.nonempty, h.capped⟩

theorem trains_reassemble_exactly_two :
    let bytes := List.replicate (avatarChunkBytes + 1) (7 : UInt8)
    (feed (fun bytes => BitVec.ofNat 256 bytes.length)
      (new (BitVec.ofNat 256 bytes.length) (some 1025)) (canonical bytes)).2 =
      [.ok .more, .ok (.done bytes)] := by
  intro bytes
  have h := trains_reassemble_exactly fun bytes => BitVec.ofNat 256 bytes.length
  have hlength : bytes.length = 1025 := List.length_replicate
  have hchunks : (canonical bytes).length = 2 := by
    rw [canonical, List.length_map, List.length_range, hlength]
    decide
  have hfed := (h.1 bytes (by omega) (by rw [hlength]; decide)).2 (some 1025) fun len hlen => by
    cases hlen
    exact hlength.symm
  rwa [hchunks] at hfed

/-- A receiver that is not thrown away when a train ends. -/
def pushAll (avatarHash : Bytes → AvatarHash) (rx : AvatarRx) (chunks : List Chunk) : AvatarRx :=
  chunks.foldl (fun rx chunk => (rx.push avatarHash chunk.index chunk.total chunk.data).1) rx

def fullChunk (i : ℕ) : Chunk :=
  { index := UInt16.ofNat i, total := 256, data := List.replicate avatarChunkBytes 0 }

/-- A receiver that has taken a number of full chunks of a longest train, its end included. -/
structure Overrun (rx : AvatarRx) (k : ℕ) : Prop where
  next : rx.next = UInt16.ofNat k
  buf : rx.buf.length = k * avatarChunkBytes
  total : rx.total = none ∨ rx.total = some 256
  undeclared : rx.expectedLen = none

theorem push_full {index total : UInt16} {data : Bytes} (hindex : index = rx.next)
    (hlong : total = 256) (hfull : data.length = avatarChunkBytes)
    (hsame : rx.total = none ∨ rx.total = some 256) (hlen : rx.expectedLen = none)
    (hwrong : ∀ bytes, avatarHash bytes ≠ rx.hash) :
    (rx.push avatarHash index total data).1 = rx.grown { index, total, data } := by
  have hrange : ¬(total = 0 ∨ chunkTotal maxAvatarBytes < total) := by
    rw [hlong]
    decide
  have hany : (rx.total.any fun t => decide (t ≠ total)) = false := by
    rw [hlong]
    rcases hsame with htotal | htotal
    · rw [htotal]
      rfl
    · rw [htotal]
      rfl
  have hnot : ¬index ≠ rx.next := not_not.mpr hindex
  have hwithin : 1 ≤ avatarChunkBytes ∧ avatarChunkBytes ≤ avatarChunkBytes := by decide
  simp only [push, if_neg hrange, hlen, Option.any_none, Bool.false_eq_true, if_false, hany,
    if_neg hnot, hfull]
  by_cases hlast : index + 1 = total
  · simp only [hlast, if_true, hwithin, not_true_eq_false, if_false, and_self, ne_eq, hwrong,
      not_false_eq_true, grown, hlen]
  · simp only [hlast, if_false, not_true_eq_false, not_false_eq_true, if_true, grown, hlen]

theorem Overrun.push (h : rx.Overrun k) (hwrong : ∀ bytes, avatarHash bytes ≠ rx.hash) :
    (rx.push avatarHash (fullChunk k).index (fullChunk k).total (fullChunk k).data).1 =
      rx.grown (fullChunk k) :=
  push_full h.next.symm rfl List.length_replicate h.total h.undeclared hwrong

theorem Overrun.grown (h : rx.Overrun k) : (rx.grown (fullChunk k)).Overrun (k + 1) := by
  refine ⟨?_, ?_, .inr rfl, h.undeclared⟩
  · change rx.next + 1 = _
    rw [h.next]
    exact (UInt16.ofNat_add k 1).symm
  · change (rx.buf ++ List.replicate avatarChunkBytes (0 : UInt8)).length = _
    rw [List.length_append, h.buf, List.length_replicate, Nat.succ_mul]

theorem overrun_pushAll (avatarHash : Bytes → AvatarHash) {hash : AvatarHash}
    (hwrong : ∀ bytes, avatarHash bytes ≠ hash) (k : ℕ) :
    (pushAll avatarHash (new hash none) ((List.range k).map fullChunk)).Overrun k ∧
      (pushAll avatarHash (new hash none) ((List.range k).map fullChunk)).hash = hash := by
  induction k with
  | zero => exact ⟨⟨rfl, by simp [pushAll, new], .inl rfl, rfl⟩, rfl⟩
  | succ k ih =>
    obtain ⟨h, hhash⟩ := ih
    have hpush := h.push fun bytes => hhash ▸ hwrong bytes
    have hgrown := h.grown
    have hstep : pushAll avatarHash (new hash none) ((List.range (k + 1)).map fullChunk) =
        (pushAll avatarHash (new hash none) ((List.range k).map fullChunk)).grown
          (fullChunk k) := by
      rw [← hpush, List.range_succ, List.map_append, pushAll, List.foldl_append]
      rfl
    rw [hstep]
    exact ⟨hgrown, hhash⟩

/-- A receiver that is kept after the hash of a whole train was wrong takes one chunk more. -/
theorem kept_receiver_overruns :
    maxAvatarBytes < (pushAll (fun _ => 0) (new 1 none)
      ((List.range 257).map fullChunk)).buf.length := by
  have hwrong : (0 : AvatarHash) ≠ 1 := by decide
  obtain ⟨h, -⟩ := overrun_pushAll (fun _ => 0) (fun _ => hwrong) 257
  rw [h.buf]
  decide

end AvatarRx
end JamStream.Session
