import JamStream.Engine.JitterState

/-! How much the jitter buffer holds, and what it counts. -/

namespace JamStream.Engine
open Protocol Foundations Runs
open Std (ExtTreeMap)

namespace JitterBuffer
variable {K : Estimate} {b c : JitterBuffer K} {packet : MediaPacket}

def InBounds (b : JitterBuffer K) : Prop :=
  b.frames.size ≤ maxBuffered ∧ b.redundant.size ≤ maxBuffered + 1

def Spared (b : JitterBuffer K) : Move → Prop
  | .push packet => b.concealed = some packet.seq → b.frames.size < maxBuffered
  | .pull => True

theorem mem_erase {frames : Frames} {k n : UInt32} : k ∈ frames.erase n ↔ k ∈ frames ∧ k ≠ n := by
  rw [ExtTreeMap.mem_erase, ne_eq, Std.compare_eq_iff_eq, and_comm]
  exact and_congr_right fun _ => not_congr eq_comm

instance (b : JitterBuffer K) : ∀ move, Decidable (b.Spared move)
  | .push packet =>
    inferInstanceAs (Decidable (b.concealed = some packet.seq → b.frames.size < maxBuffered))
  | .pull => isTrue trivial

theorem Sound.redundant_size (h : b.Sound) : b.redundant.size ≤ b.frames.size + 1 := by
  have hinjective : Function.Injective fun k : UInt32 => (k + 1).toNat := by
    intro j k hjk
    exact UInt32.add_left_inj 1 |>.mp (UInt32.toNat_inj.mp hjk)
  have hothers : (b.redundant.erase lastSeq).size ≤ b.frames.size := by
    have hkeys : ∀ k ∈ b.redundant.erase lastSeq,
        (k + 1).toNat ∈ (b.frames.keys.map UInt32.toNat).toFinset := by
      intro k hk
      obtain ⟨hmem, hne⟩ := mem_erase.mp hk
      have hstored := (h.copied k hmem fun hrunning => h.copiesAhead hrunning k hmem).resolve_left hne
      exact List.mem_toFinset.mpr
        (List.mem_map.mpr ⟨k + 1, ExtTreeMap.mem_keys.mpr hstored, rfl⟩)
    refine (OrderedMap.size_le_card hinjective hkeys).trans ?_
    refine (List.toFinset_card_le _).trans ?_
    rw [List.length_map, ExtTreeMap.length_keys]
  exact ExtTreeMap.size_le_size_erase.trans (Nat.add_le_add_right hothers 1)

theorem InBounds.of_frames (h : b.Sound) (hframes : b.frames.size ≤ maxBuffered) : b.InBounds :=
  ⟨hframes, h.redundant_size.trans (Nat.add_le_add_right hframes 1)⟩

theorem size_reset (b : JitterBuffer K) : b.reset.frames.size = 0 := ExtTreeMap.size_empty

theorem size_store (b : JitterBuffer K) (packet : MediaPacket) :
    (b.store packet).frames.size ≤ maxBuffered := by
  rw [store]
  dsimp only
  split
  · exact ExtTreeMap.size_empty.trans_le (Nat.zero_le maxBuffered)
  next hfits => exact Nat.not_lt.mp hfits

theorem size_accept (h : b.frames.size ≤ maxBuffered)
    (hspared : b.concealed = some packet.seq → b.frames.size < maxBuffered) :
    (b.accept packet).frames.size ≤ maxBuffered := by
  rw [accept]
  split
  · split
    next hback =>
      have hone : (b.resurrect packet).frames.size ≤ b.frames.size + 1 :=
        ExtTreeMap.size_insert_le
      exact hone.trans (hspared hback.1)
    · exact h
  · exact size_store b packet

theorem size_push (h : b.frames.size ≤ maxBuffered) (hspared : b.Spared (.push packet)) :
    (b.push packet).frames.size ≤ maxBuffered := by
  rw [push]
  split
  · refine size_accept ((size_reset b).trans_le (Nat.zero_le _)) fun hback => ?_
    cases hback
  · exact size_accept h hspared

theorem ready_frames (b : JitterBuffer K) : b.ready.frames = b.frames := by
  rw [ready]
  rcases started_or { b with tick := b.tick + 1 } with heq | ⟨-, -, n, -, heq⟩
  · rw [heq]
  · rw [heq]

theorem size_shrunk (b : JitterBuffer K) : b.shrunk.frames.size ≤ b.frames.size := by
  rw [shrunk]
  split
  · exact size_remove_le _ _
  · exact le_rfl

theorem size_deliver (b : JitterBuffer K) : b.deliver.1.frames.size ≤ b.frames.size := by
  rcases deliver_cases b with ⟨payload, -, heq⟩ | ⟨copy, -, -, heq⟩ | ⟨-, -, heq⟩
  · rw [heq]
    exact size_remove_le _ _
  · rw [heq]
    exact le_rfl
  · rw [heq]
    exact le_rfl

theorem size_watch (b : JitterBuffer K) (result : Pull) :
    (b.watch result).frames.size ≤ b.frames.size := by
  rcases watch_cases b result with ⟨-, -, -, heq⟩ | ⟨dropped, stuck, heq⟩
  · rw [heq]
    exact (size_reset b).trans_le (Nat.zero_le _)
  · rw [heq]

theorem noteDepth_frames (b : JitterBuffer K) (target : ℕ) :
    (b.noteDepth target).frames = b.frames := by
  obtain ⟨ticks, pending, heq⟩ := noteDepth_cases b target
  rw [heq]

theorem size_play (b : JitterBuffer K) : b.play.1.frames.size ≤ b.frames.size := by
  have hadvance : b.shrunk.deliver.1.advance.frames.size ≤ b.frames.size :=
    (size_splitOff_le _ _).trans ((size_deliver _).trans (size_shrunk b))
  refine (size_watch _ _).trans ?_
  rw [noteDepth_frames]
  exact hadvance

theorem size_pull (b : JitterBuffer K) : b.pull.1.frames.size ≤ b.frames.size := by
  rcases pull_cases b with ⟨-, heq⟩ | ⟨-, -, heq⟩ | ⟨-, -, heq⟩
  · rw [heq]
    exact (congrArg ExtTreeMap.size (ready_frames b)).le
  · rw [heq]
    exact (congrArg ExtTreeMap.size (ready_frames b)).le
  · rw [heq, ← ready_frames b]
    exact size_play _

/-- The frame that was concealed last is not stored, so it comes on top of a full buffer. -/
theorem Sound.spared (h : b.Sound) {move : Move} (hnext : (b.step move).InBounds) :
    b.Spared move := by
  cases move with
  | pull => trivial
  | push packet =>
    intro hback
    obtain ⟨hposition, hlast⟩ := h.concealed _ hback
    have hrunning : b.running = true := by
      rw [h.running, hposition]
      rfl
    have hbehind : packet.seq < packet.seq + 1 := lt_succ hlast
    have hjump : b.jumps packet.seq = false := by
      rw [jumps, anchor, hposition]
      refine decide_eq_false ?_
      rw [toNat_succ hlast, resetJump]
      omega
    have hpushed : b.push packet = (b.noteArrival packet.seq).resurrect packet := by
      have hlate : ((b.noteArrival packet.seq).nextSeq.any fun next => packet.seq < next) = true := by
        change (b.nextSeq.any _) = true
        rw [hposition]
        exact decide_eq_true hbehind
      rw [JitterBuffer.push, hjump, if_neg Bool.false_ne_true, JitterBuffer.accept, if_pos hlate]
      exact if_pos ⟨hback, hposition⟩
    have hnew : packet.seq ∉ b.frames := by
      intro hmem
      have hahead := h.ahead hrunning _ hmem
      rw [next_of_some hposition] at hahead
      exact absurd hbehind (UInt32.not_lt.mpr hahead)
    have hsize : (b.push packet).frames.size = b.frames.size + 1 := by
      rw [hpushed]
      change (b.frames.insert packet.seq packet.payload).size = _
      rw [ExtTreeMap.size_insert, if_neg (by simpa using hnew)]
    have hbound := hnext.1
    change (b.push packet).frames.size ≤ maxBuffered at hbound
    rw [hsize] at hbound
    exact hbound

theorem Sound.inBounds_step (h : b.Sound) (hb : b.InBounds) {move : Move} (hroom : b.HasRoom move)
    (hspared : b.Spared move) : (b.step move).InBounds := by
  have hnext := h.step hroom
  cases move with
  | push packet => exact .of_frames hnext (size_push hb.1 hspared)
  | pull => exact .of_frames hnext ((size_pull b).trans hb.1)

/-! Every pull is counted once. -/

inductive Counted (b c : JitterBuffer K) : Pull → Prop
  | waiting (hwaiting : c.waiting = b.waiting + 1) (hpulled : c.pulled = b.pulled)
      (hlost : c.lost = b.lost) (hrecovered : c.recovered = b.recovered) : Counted b c .waiting
  | held (hwaiting : c.waiting = b.waiting) (hpulled : c.pulled = b.pulled)
      (hlost : c.lost = b.lost) (hrecovered : c.recovered = b.recovered) : Counted b c .missing
  | frame (payload : Bytes) (hwaiting : c.waiting = b.waiting) (hpulled : c.pulled = b.pulled + 1)
      (hlost : c.lost = b.lost) (hrecovered : c.recovered = b.recovered) :
      Counted b c (.frame payload)
  | recovered (copy : Bytes) (hwaiting : c.waiting = b.waiting) (hpulled : c.pulled = b.pulled + 1)
      (hlost : c.lost = b.lost) (hrecovered : c.recovered = b.recovered + 1) :
      Counted b c (.recovered copy)
  | lost (hwaiting : c.waiting = b.waiting) (hpulled : c.pulled = b.pulled + 1)
      (hlost : c.lost = b.lost + 1) (hrecovered : c.recovered = b.recovered) : Counted b c .missing

structure SameCounts (b c : JitterBuffer K) : Prop where
  waiting : c.waiting = b.waiting
  pulled : c.pulled = b.pulled
  lost : c.lost = b.lost
  recovered : c.recovered = b.recovered

theorem SameCounts.trans {d : JitterBuffer K} (h : SameCounts b c) (hc : SameCounts c d) :
    SameCounts b d :=
  ⟨hc.waiting.trans h.waiting, hc.pulled.trans h.pulled, hc.lost.trans h.lost,
    hc.recovered.trans h.recovered⟩

theorem sameCounts_ready (b : JitterBuffer K) : SameCounts b b.ready := by
  rw [ready]
  rcases started_or { b with tick := b.tick + 1 } with heq | ⟨-, -, n, -, heq⟩
  · rw [heq]
    exact ⟨rfl, rfl, rfl, rfl⟩
  · rw [heq]
    exact ⟨rfl, rfl, rfl, rfl⟩

theorem sameCounts_shrunk (b : JitterBuffer K) : SameCounts b b.shrunk := by
  rw [shrunk]
  split <;> exact ⟨rfl, rfl, rfl, rfl⟩

theorem sameCounts_settle (b : JitterBuffer K) (target : ℕ) (result : Pull) :
    SameCounts b ((b.advance.noteDepth target).watch result) := by
  have hdepth : SameCounts b (b.advance.noteDepth target) := by
    obtain ⟨ticks, pending, heq⟩ := noteDepth_cases b.advance target
    rw [heq]
    exact ⟨rfl, rfl, rfl, rfl⟩
  refine hdepth.trans ?_
  rcases watch_cases (b.advance.noteDepth target) result with ⟨-, -, -, heq⟩ | ⟨dropped, stuck, heq⟩
  · rw [heq]
    exact ⟨rfl, rfl, rfl, rfl⟩
  · rw [heq]
    exact ⟨rfl, rfl, rfl, rfl⟩

theorem Counted.of_same {d : JitterBuffer K} {result : Pull} (h : SameCounts b c)
    (hcounted : Counted c d result) : Counted b d result := by
  obtain ⟨hwaiting, hpulled, hlost, hrecovered⟩ := h
  cases hcounted with
  | waiting h1 h2 h3 h4 =>
    rw [hwaiting] at h1
    exact .waiting h1 (h2.trans hpulled) (h3.trans hlost) (h4.trans hrecovered)
  | held h1 h2 h3 h4 =>
    exact .held (h1.trans hwaiting) (h2.trans hpulled) (h3.trans hlost) (h4.trans hrecovered)
  | frame payload h1 h2 h3 h4 =>
    rw [hpulled] at h2
    exact .frame payload (h1.trans hwaiting) h2 (h3.trans hlost) (h4.trans hrecovered)
  | recovered copy h1 h2 h3 h4 =>
    rw [hpulled] at h2
    rw [hrecovered] at h4
    exact .recovered copy (h1.trans hwaiting) h2 (h3.trans hlost) h4
  | lost h1 h2 h3 h4 =>
    rw [hpulled] at h2
    rw [hlost] at h3
    exact .lost (h1.trans hwaiting) h2 h3 (h4.trans hrecovered)

theorem Counted.then_same {d : JitterBuffer K} {result : Pull} (hcounted : Counted b c result)
    (h : SameCounts c d) : Counted b d result := by
  obtain ⟨hwaiting, hpulled, hlost, hrecovered⟩ := h
  cases hcounted with
  | waiting h1 h2 h3 h4 =>
    exact .waiting (hwaiting.trans h1) (hpulled.trans h2) (hlost.trans h3) (hrecovered.trans h4)
  | held h1 h2 h3 h4 =>
    exact .held (hwaiting.trans h1) (hpulled.trans h2) (hlost.trans h3) (hrecovered.trans h4)
  | frame payload h1 h2 h3 h4 =>
    exact .frame payload (hwaiting.trans h1) (hpulled.trans h2) (hlost.trans h3)
      (hrecovered.trans h4)
  | recovered copy h1 h2 h3 h4 =>
    exact .recovered copy (hwaiting.trans h1) (hpulled.trans h2) (hlost.trans h3)
      (hrecovered.trans h4)
  | lost h1 h2 h3 h4 =>
    exact .lost (hwaiting.trans h1) (hpulled.trans h2) (hlost.trans h3) (hrecovered.trans h4)

theorem counted_deliver (b : JitterBuffer K) : Counted b b.deliver.1 b.deliver.2 := by
  rcases deliver_cases b with ⟨payload, -, heq⟩ | ⟨copy, -, -, heq⟩ | ⟨-, -, heq⟩
  · rw [heq]
    exact .frame payload rfl rfl rfl rfl
  · rw [heq]
    exact .recovered copy rfl rfl rfl rfl
  · rw [heq]
    exact .lost rfl rfl rfl rfl

theorem counted_pull (b : JitterBuffer K) : Counted b b.pull.1 b.pull.2 := by
  have hready := sameCounts_ready b
  rcases pull_cases b with ⟨-, heq⟩ | ⟨-, -, heq⟩ | ⟨-, -, heq⟩
  · rw [heq]
    exact .of_same hready (.waiting rfl rfl rfl rfl)
  · rw [heq]
    exact .of_same hready (.held rfl rfl rfl rfl)
  · rw [heq]
    have hdelivered := (counted_deliver b.ready.shrunk).then_same
      (sameCounts_settle b.ready.shrunk.deliver.1 b.ready.targetFrames b.ready.shrunk.deliver.2)
    exact .of_same (hready.trans (sameCounts_shrunk b.ready)) hdelivered

theorem sameCounts_push (b : JitterBuffer K) (packet : MediaPacket) :
    SameCounts b (b.push packet) := by
  have haccept : ∀ c : JitterBuffer K, SameCounts c (c.accept packet) := by
    intro c
    rw [accept]
    split
    · split <;> exact ⟨rfl, rfl, rfl, rfl⟩
    · rw [store]
      dsimp only
      split <;> exact ⟨rfl, rfl, rfl, rfl⟩
  have hnoted : SameCounts b ((if b.jumps packet.seq then b.reset else b).noteArrival packet.seq) := by
    split <;> exact ⟨rfl, rfl, rfl, rfl⟩
  exact hnoted.trans (haccept _)

structure CountsOn (b c : JitterBuffer K) : Prop where
  pulled : b.pulled ≤ c.pulled
  lost : b.lost ≤ c.lost
  recovered : b.recovered ≤ c.recovered
  owed : c.lost + c.recovered + b.pulled ≤ b.lost + b.recovered + c.pulled

theorem CountsOn.trans {d : JitterBuffer K} (h : CountsOn b c) (hc : CountsOn c d) :
    CountsOn b d where
  pulled := h.pulled.trans hc.pulled
  lost := h.lost.trans hc.lost
  recovered := h.recovered.trans hc.recovered
  owed := by
    have hfirst := h.owed
    have hsecond := hc.owed
    omega

theorem Counted.countsOn {result : Pull} (h : Counted b c result) : CountsOn b c := by
  cases h with
  | waiting _ hpulled hlost hrecovered => constructor <;> omega
  | held _ hpulled hlost hrecovered => constructor <;> omega
  | frame _ _ hpulled hlost hrecovered => constructor <;> omega
  | recovered _ _ hpulled hlost hrecovered => constructor <;> omega
  | lost _ hpulled hlost hrecovered => constructor <;> omega

theorem countsOn_step (b : JitterBuffer K) (move : Move) : CountsOn b (b.step move) := by
  cases move with
  | push packet =>
    obtain ⟨-, hpulled, hlost, hrecovered⟩ := sameCounts_push b packet
    refine ⟨hpulled.ge, hlost.ge, hrecovered.ge, ?_⟩
    change (b.push packet).lost + (b.push packet).recovered + b.pulled ≤ _
    rw [hlost, hrecovered]
    exact Nat.add_le_add_left hpulled.ge _
  | pull => exact (counted_pull b).countsOn

theorem countsOn_run (b : JitterBuffer K) (moves : List Move) :
    CountsOn b (run JitterBuffer.step b moves) :=
  run_invariant (P := CountsOn b) (fun c move h => h.trans (countsOn_step c move))
    ⟨le_rfl, le_rfl, le_rfl, le_rfl⟩ moves

theorem CountsOn.between (h : CountsOn b c) : ∃ w, Window.between b.stats c.stats = some w ∧
    w.lost + w.recovered ≤ w.pulled := by
  have hsub : ∀ {m n : ℕ}, m ≤ n → checkedSub n m = some (n - m) := fun hle => if_pos hle
  refine ⟨⟨c.pulled - b.pulled, c.lost - b.lost, c.recovered - b.recovered⟩, ?_, ?_⟩
  · change (checkedSub c.pulled b.pulled).bind _ = _
    rw [hsub h.pulled]
    change (checkedSub c.lost b.lost).bind _ = _
    rw [hsub h.lost]
    change (checkedSub c.recovered b.recovered).bind _ = _
    rw [hsub h.recovered]
    rfl
  · have hpulled := h.pulled
    have hlost := h.lost
    have hrecovered := h.recovered
    have howed := h.owed
    change c.lost - b.lost + (c.recovered - b.recovered) ≤ c.pulled - b.pulled
    omega

/-- While the position stays below the last number, the buffer keeps its bounds exactly when no
packet is brought back into a full one. Any pull is counted once, and any two samples make a
window that has lost and recovered no more than it pulled. -/
theorem bounded_and_counted {moves : List Move}
    (hroom : Meets JitterBuffer.step HasRoom (new : JitterBuffer K) moves) :
    (Throughout JitterBuffer.step InBounds (new : JitterBuffer K) moves ↔
      Meets JitterBuffer.step Spared (new : JitterBuffer K) moves) ∧
    (∀ b : JitterBuffer K, Counted b b.pull.1 b.pull.2) ∧
    ∀ (b : JitterBuffer K) (later : List Move), ∃ w,
      Window.between b.stats (run JitterBuffer.step b later).stats = some w ∧
        w.lost + w.recovered ≤ w.pulled := by
  refine ⟨?_, counted_pull, fun b later => (countsOn_run b later).between⟩
  refine throughout_iff_meets_within (I := fun b => b.Sound ∧ b.InBounds) (fun _ h => h.2)
    (fun b move h hmove hspared => ?_) (fun b move h _ hnext => h.1.spared hnext)
    ⟨sound_new, .of_frames sound_new (ExtTreeMap.size_empty.trans_le (Nat.zero_le _))⟩ hroom
  exact ⟨h.1.step hmove, h.1.inBounds_step h.2 hmove hspared⟩

/-- A sixteenth of the difference at each arrival, and three means for the depth. -/
def smoothed : Estimate :=
  { Mean := ℚ, zero := 0, note := fun m d => m + (d - m) / 16
    derived := fun m => (m * 3 + 1 / 2).floor.toNat }

def plain (seq : UInt32) : Move :=
  .push { seq, timestamp := 0, payload := [], redundant := none }

/-- Frame 1 is concealed while 64 frames wait behind it, and comes a tick late. -/
def overfilled : List Move :=
  [plain 0, .pull] ++ (List.range 64).map (fun i => plain (UInt32.ofNat (i + 2))) ++ [.pull, plain 1]

theorem bounded_and_counted_resurrected :
    Throughout JitterBuffer.step InBounds (new : JitterBuffer smoothed)
      [plain 0, .pull, .pull, plain 1] := by
  have hroom : Meets JitterBuffer.step HasRoom (new : JitterBuffer smoothed)
      [plain 0, .pull, .pull, plain 1] := by decide +kernel
  have hspared : Meets JitterBuffer.step Spared (new : JitterBuffer smoothed)
      [plain 0, .pull, .pull, plain 1] := by decide +kernel
  exact (bounded_and_counted hroom).1.mpr hspared

theorem overfilled_holds_65 :
    (run JitterBuffer.step (new : JitterBuffer smoothed) overfilled).frames.size = 65 ∧
    ¬Throughout JitterBuffer.step InBounds (new : JitterBuffer smoothed) overfilled := by
  have hsize : (run JitterBuffer.step (new : JitterBuffer smoothed) overfilled).frames.size = 65 := by
    decide +kernel
  refine ⟨hsize, fun h => ?_⟩
  have hbound := h.last.1
  rw [hsize] at hbound
  exact absurd hbound (by decide)

end JitterBuffer
end JamStream.Engine
