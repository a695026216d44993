import JamStream.Engine.Jitter
import JamStream.Foundations.Runs

/-! What every state of the jitter buffer keeps while its position stays below the last number. -/

namespace JamStream.Engine
open Protocol Foundations Runs
open Std (ExtTreeMap)

/-! Maps from sequence numbers. -/

section maps
variable {frames : Frames} {k n : UInt32}

theorem mem_splitOff : k ∈ splitOff frames n ↔ k ∈ frames ∧ n ≤ k := by
  rw [splitOff, ExtTreeMap.mem_filter]
  constructor
  · rintro ⟨hmem, hle⟩
    rw [ExtTreeMap.getKey_eq hmem] at hle
    exact ⟨hmem, of_decide_eq_true hle⟩
  · rintro ⟨hmem, hle⟩
    refine ⟨hmem, ?_⟩
    rw [ExtTreeMap.getKey_eq hmem]
    exact decide_eq_true hle

theorem getElem?_splitOff (frames : Frames) (n k : UInt32) :
    (splitOff frames n)[k]? = if n ≤ k then frames[k]? else none := by
  rw [splitOff, ExtTreeMap.getElem?_filter']
  cases frames[k]? with
  | none => split <;> rfl
  | some bytes =>
    by_cases h : n ≤ k
    · rw [if_pos h]
      exact Option.filter_some_pos (decide_eq_true h)
    · rw [if_neg h]
      exact Option.filter_some_neg (by simpa using h)

theorem size_splitOff_le (frames : Frames) (n : UInt32) : (splitOff frames n).size ≤ frames.size :=
  ExtTreeMap.size_filter_le_size

theorem mem_remove : k ∈ remove frames n ↔ k ∈ frames ∧ k ≠ n := by
  rw [remove, ExtTreeMap.mem_filter]
  constructor
  · rintro ⟨hmem, hne⟩
    rw [ExtTreeMap.getKey_eq hmem] at hne
    exact ⟨hmem, of_decide_eq_true hne⟩
  · rintro ⟨hmem, hne⟩
    refine ⟨hmem, ?_⟩
    rw [ExtTreeMap.getKey_eq hmem]
    exact decide_eq_true hne

theorem getElem?_remove (frames : Frames) (n k : UInt32) :
    (remove frames n)[k]? = if k = n then none else frames[k]? := by
  rw [remove, ExtTreeMap.getElem?_filter']
  cases frames[k]? with
  | none => split <;> rfl
  | some bytes =>
    by_cases h : k = n
    · rw [if_pos h]
      exact Option.filter_some_neg (by simpa using h)
    · rw [if_neg h]
      exact Option.filter_some_pos (decide_eq_true h)

theorem size_remove_le (frames : Frames) (n : UInt32) : (remove frames n).size ≤ frames.size :=
  ExtTreeMap.size_filter_le_size

theorem mem_insert (bytes : Bytes) : k ∈ frames.insert n bytes ↔ k = n ∨ k ∈ frames := by
  rw [ExtTreeMap.mem_insert, Std.compare_eq_iff_eq]
  exact or_congr_left eq_comm

theorem mem_insertIfNew (bytes : Bytes) : k ∈ frames.insertIfNew n bytes ↔ k = n ∨ k ∈ frames := by
  rw [ExtTreeMap.mem_insertIfNew, Std.compare_eq_iff_eq]
  exact or_congr_left eq_comm

theorem getElem?_insertIfNew (frames : Frames) (n k : UInt32) (bytes : Bytes) :
    (frames.insertIfNew n bytes)[k]? = if n = k ∧ n ∉ frames then some bytes else frames[k]? := by
  simp only [ExtTreeMap.getElem?_insertIfNew, Std.compare_eq_iff_eq]

theorem firstSeq_eq_some : firstSeq frames = some n ↔ n ∈ frames ∧ ∀ k ∈ frames, n ≤ k := by
  rw [firstSeq, ExtTreeMap.head?_keys, ExtTreeMap.minKey?_eq_some_iff_mem_and_forall]
  refine and_congr_right fun _ => forall₂_congr fun k _ => ?_
  rw [Std.isLE_compare]

theorem exists_firstSeq (h : frames.isEmpty = false) : ∃ n, firstSeq frames = some n := by
  rw [← Option.isSome_iff_exists, firstSeq, ExtTreeMap.head?_keys,
    ExtTreeMap.isSome_minKey?_eq_not_isEmpty, h]
  rfl

end maps

def lastSeq : UInt32 := 4294967295

theorem lt_succ {n : UInt32} (h : n ≠ lastSeq) : n < n + 1 := by
  rw [UInt32.lt_iff_toNat_lt, UInt32.toNat_add]
  have hn := n.toNat_lt
  have hne : n.toNat ≠ 4294967295 := fun heq => h (UInt32.toNat_inj.mp heq)
  have hone : (1 : UInt32).toNat = 1 := rfl
  omega

theorem toNat_succ {n : UInt32} (h : n ≠ lastSeq) : (n + 1).toNat = n.toNat + 1 := by
  rw [UInt32.toNat_add]
  have hn := n.toNat_lt
  have hne : n.toNat ≠ 4294967295 := fun heq => h (UInt32.toNat_inj.mp heq)
  have hone : (1 : UInt32).toNat = 1 := rfl
  omega

theorem succ_le_iff {n k : UInt32} (h : n ≠ lastSeq) : n + 1 ≤ k ↔ n < k := by
  rw [UInt32.le_iff_toNat_le, UInt32.lt_iff_toNat_lt, toNat_succ h]
  exact Nat.succ_le_iff

namespace JitterBuffer
variable {K : Estimate} {b : JitterBuffer K} {packet : MediaPacket}

inductive Move
  | push (packet : MediaPacket)
  | pull

def step (b : JitterBuffer K) : Move → JitterBuffer K
  | .push packet => b.push packet
  | .pull => b.pull.1

/-- A pull takes or skips the last number that there is. -/
def Overflows (b : JitterBuffer K) : Prop :=
  b.ready.running = true ∧ b.ready.holds = false ∧
    (b.ready.drops = true ∧ b.ready.next = lastSeq ∨ b.ready.shrunk.next = lastSeq)

def HasRoom (b : JitterBuffer K) : Move → Prop
  | .push _ => True
  | .pull => ¬b.Overflows

instance (b : JitterBuffer K) : Decidable b.Overflows := inferInstanceAs (Decidable (_ ∧ _ ∧ (_ ∨ _)))

instance (b : JitterBuffer K) : ∀ move, Decidable (b.HasRoom move)
  | .push _ => isTrue trivial
  | .pull => inferInstanceAs (Decidable ¬b.Overflows)

/-- While it runs, no frame is stored behind the position; a copy from the position on stands
beside the frame that brought it; and the number that was concealed last is the one before. -/
structure Stored (b : JitterBuffer K) : Prop where
  running : b.running = b.nextSeq.isSome
  ahead : b.running = true → ∀ k ∈ b.frames, b.next ≤ k
  copied : ∀ k ∈ b.redundant, (b.running = true → b.next ≤ k) → k = lastSeq ∨ k + 1 ∈ b.frames
  concealed : ∀ c, b.concealed = some c → b.nextSeq = some (c + 1) ∧ c ≠ lastSeq

structure Sound (b : JitterBuffer K) : Prop extends b.Stored where
  copiesAhead : b.running = true → ∀ k ∈ b.redundant, b.next ≤ k

theorem next_of_some {n : UInt32} (h : b.nextSeq = some n) : b.next = n := by
  rw [next, h]
  rfl

theorem Stored.nextSeq (h : b.Stored) (hrunning : b.running = true) : b.nextSeq = some b.next := by
  rw [h.running] at hrunning
  obtain ⟨n, hn⟩ := Option.isSome_iff_exists.mp hrunning
  rw [next_of_some hn, hn]

theorem Stored.idle (h : b.Stored) (hidle : b.running = false) : b.nextSeq = none := by
  rw [h.running] at hidle
  exact Option.isNone_iff_eq_none.mp (by simpa using hidle)

theorem sound_reset (b : JitterBuffer K) : b.reset.Sound where
  running := rfl
  ahead h := nomatch h
  copied _ hk := absurd hk ExtTreeMap.not_mem_empty
  concealed _ hc := nomatch hc
  copiesAhead h := nomatch h

theorem sound_reanchor (b : JitterBuffer K) : b.reanchor.Sound :=
  ⟨⟨rfl, fun h => (nomatch h), fun _ hk => absurd hk ExtTreeMap.not_mem_empty,
    fun _ hc => (nomatch hc)⟩, fun h => (nomatch h)⟩

theorem sound_new : (new : JitterBuffer K).Sound :=
  ⟨⟨rfl, fun h => (nomatch h), fun _ hk => absurd hk ExtTreeMap.not_mem_empty,
    fun _ hc => (nomatch hc)⟩, fun h => (nomatch h)⟩

theorem Sound.noteArrival (h : b.Sound) (seq : UInt32) : (b.noteArrival seq).Sound :=
  ⟨⟨h.running, h.ahead, h.copied, h.concealed⟩, h.copiesAhead⟩

theorem Sound.dropLate (h : b.Sound) : b.dropLate.Sound :=
  ⟨⟨h.running, h.ahead, h.copied, h.concealed⟩, h.copiesAhead⟩

theorem Sound.resurrect (h : b.Sound) (hnext : b.nextSeq = some (packet.seq + 1))
    (hroom : packet.seq ≠ lastSeq) : (b.resurrect packet).Sound := by
  have hrunning : b.running = true := by
    rw [h.running, hnext]
    rfl
  have hposition := next_of_some hnext
  have hbehind : packet.seq ≤ packet.seq + 1 := UInt32.le_of_lt (lt_succ hroom)
  refine ⟨⟨?_, fun _ k hk => ?_, fun k hk _ => ?_, fun _ hc => nomatch hc⟩, fun _ k hk => ?_⟩
  · exact hrunning
  · change packet.seq ≤ k
    rcases (mem_insert packet.payload).mp hk with rfl | hold
    · exact UInt32.le_refl _
    · have hahead := h.ahead hrunning k hold
      rw [hposition] at hahead
      exact UInt32.le_trans hbehind hahead
  · rcases h.copied k hk (fun _ => h.copiesAhead hrunning k hk) with hlast | hstored
    · exact .inl hlast
    · exact .inr ((mem_insert packet.payload).mpr (.inr hstored))
  · have hahead := h.copiesAhead hrunning k hk
    rw [hposition] at hahead
    exact UInt32.le_trans hbehind hahead

theorem mem_storeRedundant {k : UInt32} (hk : k ∈ b.storeRedundant packet) :
    k ∈ b.redundant ∨ k = packet.seq - 1 ∧ packet.redundant.isSome = true ∧
      ∀ n, b.nextSeq = some n → n ≤ k := by
  rw [storeRedundant] at hk
  split at hk
  · exact .inl hk
  next red hred =>
    split at hk
    next hall =>
      rcases (mem_insertIfNew red).mp hk with rfl | hold
      · refine .inr ⟨rfl, by rw [hred]; rfl, fun n hn => ?_⟩
        rw [hn] at hall
        exact of_decide_eq_true hall
      · exact .inl hold
    · exact .inl hk

theorem Sound.insert (h : b.Sound) (hnext : ∀ n, b.nextSeq = some n → n ≤ packet.seq) :
    { b with
      redundant := b.storeRedundant packet
      frames := b.frames.insertIfNew packet.seq packet.payload }.Sound := by
  have hposition : b.running = true → b.nextSeq = some b.next := h.nextSeq
  refine ⟨⟨h.running, fun hrunning k hk => ?_, fun k hk hahead => ?_, h.concealed⟩,
    fun hrunning k hk => ?_⟩
  · rcases (mem_insertIfNew packet.payload).mp hk with rfl | hold
    · exact hnext _ (hposition hrunning)
    · exact h.ahead hrunning k hold
  · rcases mem_storeRedundant hk with hold | ⟨rfl, -, -⟩
    · rcases h.copied k hold hahead with hlast | hstored
      · exact .inl hlast
      · exact .inr ((mem_insertIfNew packet.payload).mpr (.inr hstored))
    · right
      have hback : packet.seq - 1 + 1 = packet.seq := UInt32.sub_add_cancel _ _
      rw [hback]
      exact (mem_insertIfNew packet.payload).mpr (.inl rfl)
  · rcases mem_storeRedundant hk with hold | ⟨-, -, hle⟩
    · exact h.copiesAhead hrunning k hold
    · exact hle _ (hposition hrunning)

theorem Sound.store (h : b.Sound) (hnext : ∀ n, b.nextSeq = some n → n ≤ packet.seq) :
    (b.store packet).Sound := by
  rw [JitterBuffer.store]
  dsimp only
  split
  · exact sound_reanchor _
  · exact h.insert hnext

theorem Sound.accept (h : b.Sound) : (b.accept packet).Sound := by
  rw [JitterBuffer.accept]
  split
  · split
    next hback =>
      exact h.resurrect hback.2 (h.concealed _ hback.1).2
    · exact h.dropLate
  next hnot =>
    refine h.store fun n hn => ?_
    rw [hn] at hnot
    exact UInt32.not_lt.mp (by simpa using hnot)

theorem Sound.push (h : b.Sound) (packet : MediaPacket) : (b.push packet).Sound := by
  rw [JitterBuffer.push]
  split
  · exact ((sound_reset b).noteArrival _).accept
  · exact (h.noteArrival _).accept

/-! A pull. -/

theorem started_or (b : JitterBuffer K) : b.started = b ∨
    b.running = false ∧ b.targetFrames ≤ b.frames.size ∧
      ∃ n, firstSeq b.frames = some n ∧ b.started = { b with nextSeq := some n, running := true } := by
  rw [started]
  split
  next h =>
    obtain ⟨n, hn⟩ := exists_firstSeq h.2.2
    rw [hn]
    exact .inr ⟨h.1, h.2.1, n, rfl, rfl⟩
  · exact .inl rfl

theorem Sound.ready (h : b.Sound) : b.ready.Stored ∧
    (b.ready.running = true → b.ready.holds = true → b.ready.Sound) ∧
    (b.ready.running = false → b.ready.Sound) := by
  have hticked : { b with tick := b.tick + 1 }.Sound :=
    ⟨⟨h.running, h.ahead, h.copied, h.concealed⟩, h.copiesAhead⟩
  rw [JitterBuffer.ready]
  rcases started_or { b with tick := b.tick + 1 } with hsame | ⟨hidle, hdeep, n, hfirst, hstarted⟩
  · rw [hsame]
    exact ⟨hticked.toStored, fun _ _ => hticked, fun _ => hticked⟩
  · obtain ⟨hmem, hmin⟩ := firstSeq_eq_some.mp hfirst
    rw [hstarted]
    refine ⟨⟨rfl, fun _ => hmin, fun k hk hahead => ?_, fun c hc => ?_⟩, fun _ hholds => ?_,
      fun hnot => nomatch hnot⟩
    · exact h.copied k hk fun hrunning => absurd (hidle.symm.trans hrunning) Bool.false_ne_true
    · have hnone := h.idle hidle
      rw [(h.concealed c hc).1] at hnone
      cases hnone
    · -- a buffer that has just started is deep enough not to hold
      rw [holds, Bool.and_eq_true, Bool.and_eq_true] at hholds
      have hshallow := of_decide_eq_true hholds.1.1
      exact absurd hdeep (Nat.not_le.mpr hshallow)

theorem Stored.shrunk (h : b.Stored) (hrunning : b.running = true)
    (hroom : b.drops = true → b.next ≠ lastSeq) : b.shrunk.Stored ∧ b.shrunk.running = true := by
  rw [JitterBuffer.shrunk]
  split
  next hdrops =>
    have hlast := hroom hdrops
    refine ⟨⟨hrunning, fun _ k hk => ?_, fun k hk hahead => ?_, fun _ hc => nomatch hc⟩, hrunning⟩
    · obtain ⟨hmem, hne⟩ := mem_remove.mp hk
      refine (succ_le_iff hlast).mpr ?_
      exact UInt32.lt_of_le_of_ne (h.ahead hrunning k hmem) (Ne.symm hne)
    · obtain ⟨hmem, hne⟩ := mem_remove.mp hk
      have habove : b.next < k := (succ_le_iff hlast).mp (hahead hrunning)
      by_cases hk' : k = lastSeq
      · exact .inl hk'
      rcases h.copied k hmem (fun _ => UInt32.le_of_lt habove) with heq | hstored
      · exact .inl heq
      · refine .inr (mem_remove.mpr ⟨hstored, ?_⟩)
        exact (UInt32.ne_of_lt (UInt32.lt_trans habove (lt_succ hk'))).symm
  · exact ⟨⟨h.running, h.ahead, h.copied, h.concealed⟩, hrunning⟩

/-- The three answers of a pull that takes a number, and what each leaves before the position
moves on. -/
theorem deliver_cases (b : JitterBuffer K) :
    (∃ payload, b.frames[b.next]? = some payload ∧ b.deliver =
      ({ b with frames := remove b.frames b.next, concealed := none }.noteLoss false,
        .frame payload)) ∨
    (∃ copy, b.frames[b.next]? = none ∧ b.redundant[b.next]? = some copy ∧ b.deliver =
      ({ b with
          redundant := remove b.redundant b.next, concealed := none, recovered := b.recovered + 1
        }.noteLoss true, .recovered copy)) ∨
    (b.frames[b.next]? = none ∧ b.redundant[b.next]? = none ∧ b.deliver =
      ({ b with concealed := some b.next, lost := b.lost + 1 }.noteLoss true, .missing)) := by
  rw [deliver]
  cases hframe : b.frames[b.next]? with
  | some payload => exact .inl ⟨payload, rfl, rfl⟩
  | none =>
    right
    cases hcopy : b.redundant[b.next]? with
    | some copy => exact .inl ⟨copy, rfl, rfl, rfl⟩
    | none => exact .inr ⟨rfl, rfl, rfl⟩

/-- Nothing is stored that was not, and the position stays. -/
structure Fewer (b c : JitterBuffer K) : Prop where
  running : c.running = b.running
  nextSeq : c.nextSeq = b.nextSeq
  frames : ∀ k, k ∈ c.frames ↔ k ∈ b.frames ∧ (k = b.next → k ∈ c.frames)
  redundant : ∀ k ∈ c.redundant, k ∈ b.redundant
  concealed : ∀ n, c.concealed = some n → n = b.next

theorem fewer_deliver (b : JitterBuffer K) : Fewer b b.deliver.1 := by
  rcases deliver_cases b with ⟨payload, -, h⟩ | ⟨copy, -, -, h⟩ | ⟨-, -, h⟩
  · rw [h]
    refine ⟨rfl, rfl, fun k => ?_, fun k hk => hk, fun _ hc => nomatch hc⟩
    change k ∈ remove b.frames b.next ↔ _ ∧ (_ → k ∈ remove b.frames b.next)
    rw [mem_remove]
    constructor
    · rintro ⟨hmem, hne⟩
      exact ⟨hmem, fun _ => ⟨hmem, hne⟩⟩
    · rintro ⟨hmem, hcase⟩
      by_cases heq : k = b.next
      · exact hcase heq
      · exact ⟨hmem, heq⟩
  · rw [h]
    exact ⟨rfl, rfl, fun k => ⟨fun hk => ⟨hk, fun _ => hk⟩, fun hk => hk.1⟩,
      fun k hk => (mem_remove.mp hk).1, fun _ hc => nomatch hc⟩
  · rw [h]
    exact ⟨rfl, rfl, fun k => ⟨fun hk => ⟨hk, fun _ => hk⟩, fun hk => hk.1⟩, fun k hk => hk,
      fun n hn => (Option.some.inj hn).symm⟩

theorem Fewer.next {c : JitterBuffer K} (h : Fewer b c) : c.next = b.next := by
  rw [JitterBuffer.next, JitterBuffer.next, h.nextSeq]

theorem Stored.advance {c : JitterBuffer K} (h : b.Stored) (hrunning : b.running = true)
    (hlast : b.next ≠ lastSeq) (hf : Fewer b c) :
    c.advance.Sound ∧ c.advance.running = true ∧ c.advance.next = b.next + 1 := by
  have hnext : c.advance.next = b.next + 1 := congrArg (· + 1) hf.next
  have hstays : c.advance.running = true := hf.running.trans hrunning
  refine ⟨⟨⟨hstays, fun _ k hk => ?_, fun k hk _ => ?_, fun n hn => ?_⟩, fun _ k hk => ?_⟩,
    hstays, hnext⟩
  · exact (mem_splitOff.mp hk).2
  · obtain ⟨hmem, hle⟩ := mem_splitOff.mp hk
    rw [hf.next] at hle
    have habove : b.next < k := (succ_le_iff hlast).mp hle
    by_cases hk' : k = lastSeq
    · exact .inl hk'
    rcases h.copied k (hf.redundant k hmem) (fun _ => UInt32.le_of_lt habove) with heq | hstored
    · exact .inl heq
    · have hbeyond : b.next < k + 1 := UInt32.lt_trans habove (lt_succ hk')
      right
      refine mem_splitOff.mpr ⟨(hf.frames _).mpr ⟨hstored, fun heq => ?_⟩, ?_⟩
      · exact absurd heq (UInt32.ne_of_lt hbeyond).symm
      · rw [hf.next]
        exact (succ_le_iff hlast).mpr hbeyond
  · have hn' := hf.concealed n hn
    refine ⟨?_, hn'.trans_ne hlast⟩
    change some (c.next + 1) = some (n + 1)
    rw [hf.next, hn']
  · exact (mem_splitOff.mp hk).2

theorem noteDepth_cases (b : JitterBuffer K) (target : ℕ) :
    ∃ ticks pending, b.noteDepth target = { b with overTicks := ticks, dropPending := pending } := by
  rw [noteDepth]
  split
  · split
    · exact ⟨_, _, rfl⟩
    · exact ⟨_, _, rfl⟩
  · exact ⟨_, _, rfl⟩

theorem watch_cases (b : JitterBuffer K) (result : Pull) :
    result = .missing ∧ b.droppedSincePull = true ∧ reanchorPatience ≤ b.stuckTicks + 1 ∧
        b.watch result = b.reanchor ∨
    ∃ dropped stuck, b.watch result = { b with droppedSincePull := dropped, stuckTicks := stuck } := by
  rw [watch]
  split
  next hstuck =>
    split
    next hlong => exact .inl ⟨hstuck.1, hstuck.2, hlong, rfl⟩
    · exact .inr ⟨_, _, rfl⟩
  · split
    · exact .inr ⟨_, _, rfl⟩
    · exact .inr ⟨_, _, rfl⟩

theorem Sound.noteDepth (h : b.Sound) (target : ℕ) : (b.noteDepth target).Sound := by
  obtain ⟨ticks, pending, heq⟩ := noteDepth_cases b target
  rw [heq]
  exact ⟨⟨h.running, h.ahead, h.copied, h.concealed⟩, h.copiesAhead⟩

theorem Sound.watch (h : b.Sound) (result : Pull) : (b.watch result).Sound := by
  rcases watch_cases b result with ⟨-, -, -, heq⟩ | ⟨dropped, stuck, heq⟩
  · rw [heq]
    exact sound_reanchor b
  · rw [heq]
    exact ⟨⟨h.running, h.ahead, h.copied, h.concealed⟩, h.copiesAhead⟩

theorem Stored.play (h : b.Stored) (hrunning : b.running = true)
    (hdrop : b.drops = true → b.next ≠ lastSeq) (hlast : b.shrunk.next ≠ lastSeq) :
    b.play.1.Sound := by
  obtain ⟨hshrunk, hstays⟩ := h.shrunk hrunning hdrop
  have hmoved := (hshrunk.advance hstays hlast (fewer_deliver b.shrunk)).1
  exact (hmoved.noteDepth _).watch _

theorem pull_cases (b : JitterBuffer K) :
    (b.ready.running = false ∧
      b.pull = ({ b.ready with waiting := b.ready.waiting + 1 }, .waiting)) ∨
    (b.ready.running = true ∧ b.ready.holds = true ∧
      b.pull = ({ b.ready with heldLast := true }, .missing)) ∨
    (b.ready.running = true ∧ b.ready.holds = false ∧ b.pull = b.ready.play) := by
  rw [pull]
  split
  next hidle => exact .inl ⟨hidle, rfl⟩
  next hrunning =>
    have hruns : b.ready.running = true := by simpa using hrunning
    split
    next hholds => exact .inr (.inl ⟨hruns, hholds, rfl⟩)
    next hnot => exact .inr (.inr ⟨hruns, by simpa using hnot, rfl⟩)

theorem Sound.pull (h : b.Sound) (hroom : ¬b.Overflows) : b.pull.1.Sound := by
  obtain ⟨hstored, hheld, hidle⟩ := h.ready
  rcases pull_cases b with ⟨hnot, heq⟩ | ⟨hruns, hholds, heq⟩ | ⟨hruns, hholds, heq⟩
  · have hsound := hidle hnot
    rw [heq]
    exact ⟨⟨hsound.running, hsound.ahead, hsound.copied, hsound.concealed⟩, hsound.copiesAhead⟩
  · have hsound := hheld hruns hholds
    rw [heq]
    exact ⟨⟨hsound.running, hsound.ahead, hsound.copied, hsound.concealed⟩, hsound.copiesAhead⟩
  · rw [heq]
    refine hstored.play hruns (fun hdrops hlast => ?_) (fun hlast => ?_)
    · exact hroom ⟨hruns, hholds, .inl ⟨hdrops, hlast⟩⟩
    · exact hroom ⟨hruns, hholds, .inr hlast⟩

theorem Sound.step (h : b.Sound) {move : Move} (hroom : b.HasRoom move) : (b.step move).Sound := by
  cases move with
  | push packet => exact h.push packet
  | pull => exact h.pull hroom

end JitterBuffer
end JamStream.Engine
