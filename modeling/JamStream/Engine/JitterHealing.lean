import JamStream.Engine.JitterMemory

/-! A playout position that ran ahead of the sender, and how the buffer comes back to them. -/

namespace JamStream.Engine
open Protocol Foundations Runs
open Std (ExtTreeMap)

namespace JitterBuffer
variable {K : Estimate} {b : JitterBuffer K} {packet : MediaPacket} {n q k t : ℕ}

def rounds : ℕ → (ℕ → MediaPacket) → JitterBuffer K → JitterBuffer K
  | 0, _, b => b
  | n + 1, packets, b => rounds n (fun i => packets (i + 1)) (b.pull.1.push (packets 0))

def Consecutive (q n : ℕ) (packets : ℕ → MediaPacket) : Prop :=
  ∀ i < n, (packets i).seq.toNat = q + i

def numbered (seq : ℕ) : MediaPacket :=
  { seq := UInt32.ofNat seq, timestamp := 0, payload := [], redundant := none }

theorem consecutive_numbered (q : ℕ) (h : q + n ≤ 4294967296) :
    Consecutive q n fun i => numbered (q + i) := fun i hi =>
  UInt32.toNat_ofNat_of_lt' (by simp only [UInt32.size]; omega)

theorem Consecutive.tail {packets : ℕ → MediaPacket} (h : Consecutive q (n + 1) packets) :
    Consecutive (q + 1) n fun i => packets (i + 1) := by
  intro i hi
  rw [h (i + 1) (Nat.succ_lt_succ hi)]
  omega

/-- A playout position with nothing stored before it or at it. -/
structure Stranded (b : JitterBuffer K) (position : ℕ) : Prop where
  running : b.running = true
  empty : b.frames = ∅
  position : ∃ next, b.nextSeq = some next ∧ next.toNat = position
  copies : ∀ k ∈ b.redundant, k = lastSeq

def Counting (b : JitterBuffer K) (t : ℕ) (counts : Bool) : Prop :=
  b.stuckTicks = t ∧ b.droppedSincePull = counts

/-- Without an anchor, with that many frames of a stream that goes on with number `q`. -/
structure Refilling (b : JitterBuffer K) (q k : ℕ) : Prop where
  idle : b.running = false
  unanchored : b.nextSeq = none
  calm : b.dropPending = false
  size : b.frames.size = k
  behind : ∀ seq ∈ b.frames, seq.toNat < q
  follows : ∀ prev, b.lastArrival = some prev → prev.2.toNat + 1 = q

theorem refilling_reanchor (b : JitterBuffer K) (q : ℕ) : b.reanchor.Refilling q 0 where
  idle := rfl
  unanchored := rfl
  calm := rfl
  size := ExtTreeMap.size_empty
  behind _ hmem := absurd hmem ExtTreeMap.not_mem_empty
  follows _ hprev := by cases hprev

theorem targetFrames_bounds (b : JitterBuffer K) : 1 ≤ b.targetFrames ∧ b.targetFrames ≤ 24 := by
  have hone : minTarget = 1 := rfl
  have hmost : maxTarget = 24 := rfl
  rw [targetFrames, hone, hmost]
  omega

/-! The refill. -/

theorem Refilling.push (h : b.Refilling q k) (hseq : packet.seq.toNat = q) (hk : k < maxBuffered) :
    (b.push packet).Refilling (q + 1) (k + 1) ∧ (b.push packet).reanchors = b.reanchors := by
  have hjump : b.jumps packet.seq = false := by
    rw [jumps, anchor, h.unanchored, Option.none_or]
    cases hlast : b.lastArrival with
    | none => rfl
    | some prev =>
      have hprev := h.follows prev hlast
      refine decide_eq_false ?_
      rw [hseq, ← hprev, resetJump]
      omega
  have hnew : packet.seq ∉ b.frames := fun hmem => by
    have hlt := h.behind _ hmem
    omega
  have hsize : (b.frames.insertIfNew packet.seq packet.payload).size = k + 1 := by
    rw [ExtTreeMap.size_insertIfNew, if_neg hnew, h.size]
  have hbehind : (b.nextSeq.any fun next => packet.seq < next) = false := by
    rw [h.unanchored]
    rfl
  have hstored : b.push packet = { b.noteArrival packet.seq with
      redundant := (b.noteArrival packet.seq).storeRedundant packet
      frames := b.frames.insertIfNew packet.seq packet.payload } := by
    rw [JitterBuffer.push, hjump, if_neg Bool.false_ne_true, accept]
    change (if b.nextSeq.any (fun next => packet.seq < next) = true then _ else _) = _
    rw [hbehind, if_neg Bool.false_ne_true, store]
    dsimp only
    refine if_neg ?_
    change ¬maxBuffered < (b.frames.insertIfNew packet.seq packet.payload).size
    rw [hsize]
    omega
  rw [hstored]
  refine ⟨⟨h.idle, h.unanchored, h.calm, hsize, fun seq hmem => ?_, fun prev hprev => ?_⟩, rfl⟩
  · rcases (mem_insertIfNew packet.payload).mp hmem with rfl | hold
    · omega
    · exact (h.behind seq hold).trans (Nat.lt_succ_self q)
  · obtain rfl := Option.some.inj hprev
    exact congrArg Nat.succ hseq

theorem ready_reanchors (b : JitterBuffer K) : b.ready.reanchors = b.reanchors := by
  rw [ready]
  rcases started_or { b with tick := b.tick + 1 } with heq | ⟨-, -, n, -, heq⟩
  · rw [heq]
  · rw [heq]

theorem shrunk_of_not_drops (h : b.drops = false) : b.shrunk = { b with heldLast := false } := by
  rw [shrunk, h]
  rfl

theorem watch_played {result : Pull} (h : Played result = true) (hmissing : result ≠ .missing) :
    b.watch result = { b with droppedSincePull := false, stuckTicks := 0 } := by
  rw [watch, if_neg fun hboth => hmissing hboth.1, if_pos h]

theorem noteDepth_reanchors (b : JitterBuffer K) (target : ℕ) :
    (b.noteDepth target).reanchors = b.reanchors := by
  obtain ⟨ticks, pending, heq⟩ := noteDepth_cases b target
  rw [heq]

theorem pull_frame {payload : Bytes} (hruns : b.ready.running = true)
    (hholds : b.ready.holds = false) (hdrops : b.ready.drops = false)
    (hframe : b.ready.frames[b.ready.next]? = some payload) :
    b.pull.2 = .frame payload ∧ b.pull.1.reanchors = b.reanchors := by
  have hpull : b.pull = b.ready.play := by
    rw [JitterBuffer.pull, hruns, hholds]
    rfl
  have hshrunk := shrunk_of_not_drops hdrops
  have hstored : b.ready.shrunk.frames[b.ready.shrunk.next]? = some payload := by
    rw [hshrunk]
    exact hframe
  have hdelivered : b.ready.shrunk.deliver =
      ({ b.ready.shrunk with
          frames := remove b.ready.shrunk.frames b.ready.shrunk.next
          concealed := none }.noteLoss false, .frame payload) := by
    rcases deliver_cases b.ready.shrunk with ⟨p, hp, heq⟩ | ⟨-, hnone, -⟩ | ⟨hnone, -⟩
    · obtain rfl := Option.some.inj (hstored.symm.trans hp)
      exact heq
    · cases hstored.symm.trans hnone
    · cases hstored.symm.trans hnone
  have hplayed : b.ready.play.2 = .frame payload := by
    rw [play, hdelivered]
  rw [hpull]
  refine ⟨hplayed, ?_⟩
  rw [play, hdelivered]
  dsimp only
  rw [watch_played rfl (fun h => by cases h)]
  dsimp only
  rw [noteDepth_reanchors, hshrunk]
  exact ready_reanchors b

theorem Refilling.pull (h : b.Refilling q k) :
    (k < b.targetFrames ∧ b.pull.1.Refilling q k ∧ b.pull.1.reanchors = b.reanchors) ∨
    ∃ payload, b.pull.2 = .frame payload ∧ b.pull.1.reanchors = b.reanchors := by
  have htarget := targetFrames_bounds b
  by_cases hdeep : b.targetFrames ≤ k
  · right
    have hsome : b.frames.isEmpty = false := by
      rw [Bool.eq_false_iff]
      intro hempty
      have hzero : b.frames.size = 0 := by
        rw [ExtTreeMap.isEmpty_eq_size_beq_zero] at hempty
        exact eq_of_beq hempty
      have hsize := h.size
      omega
    obtain ⟨n, hfirst⟩ := exists_firstSeq hsome
    have hready : b.ready =
        { b with tick := b.tick + 1, nextSeq := some n, running := true } := by
      rw [ready, started]
      have hcond : b.running = false ∧ b.targetFrames ≤ b.frames.size ∧
          b.frames.isEmpty = false := ⟨h.idle, h.size ▸ hdeep, hsome⟩
      refine (if_pos hcond).trans ?_
      change { b with tick := b.tick + 1, nextSeq := firstSeq b.frames, running := true } = _
      rw [hfirst]
    have hmem : n ∈ b.frames := (firstSeq_eq_some.mp hfirst).1
    obtain ⟨payload, hframe⟩ := (OrderedMap.mem_iff _ _).mp hmem
    refine ⟨payload, pull_frame ?_ ?_ ?_ ?_⟩
    · rw [hready]
    · rw [hready, holds, decide_eq_false]
      · rfl
      · exact Nat.not_lt.mpr (h.size ▸ hdeep)
    · rw [hready, drops]
      change (b.dropPending && _) = false
      rw [h.calm]
      rfl
    · rw [hready]
      exact hframe
  · left
    have hshallow : k < b.targetFrames := not_le.mp hdeep
    have hready : b.ready = { b with tick := b.tick + 1 } := by
      rw [ready, started]
      refine if_neg fun hcond => ?_
      have hsize : b.targetFrames ≤ b.frames.size := hcond.2.1
      rw [h.size] at hsize
      exact hdeep hsize
    have hpull : b.pull = ({ b.ready with waiting := b.ready.waiting + 1 }, .waiting) := by
      rw [JitterBuffer.pull]
      refine if_pos ?_
      rw [hready]
      exact h.idle
    rw [hpull, hready]
    exact ⟨hshallow, ⟨h.idle, h.unanchored, h.calm, h.size, h.behind, h.follows⟩, rfl⟩

theorem Refilling.heals (m : ℕ) : ∀ {b : JitterBuffer K} {q k : ℕ} {packets : ℕ → MediaPacket},
    b.Refilling q k → 24 ≤ k + m → Consecutive q m packets →
    ∃ n ≤ m, ∃ payload, (rounds n packets b).pull.2 = .frame payload ∧
      (rounds n packets b).pull.1.reanchors = b.reanchors := by
  induction m with
  | zero =>
    intro b q k packets h hk _
    have htarget := targetFrames_bounds b
    rcases h.pull with ⟨hshallow, -⟩ | hplayed
    · omega
    · exact ⟨0, le_rfl, hplayed⟩
  | succ m ih =>
    intro b q k packets h hk hpackets
    have htarget := targetFrames_bounds b
    rcases h.pull with ⟨hshallow, hwaits, hsame⟩ | hplayed
    · have hseq : (packets 0).seq.toNat = q := hpackets 0 (Nat.succ_pos m)
      have hroom : k < maxBuffered := by
        have hmax : maxBuffered = 64 := rfl
        omega
      obtain ⟨hpushed, hkept⟩ := hwaits.push hseq hroom
      obtain ⟨n, hn, payload, hframe, hanchors⟩ := ih hpushed (by omega) hpackets.tail
      exact ⟨n + 1, Nat.succ_le_succ hn, payload, hframe, hanchors.trans (hkept.trans hsame)⟩
    · exact ⟨0, Nat.zero_le _, hplayed⟩

/-! The position that ran ahead. -/

/-- What a pull leaves that found nothing, before the watchdog looks at it. -/
def concealing (b : JitterBuffer K) : JitterBuffer K :=
  ({ b with tick := b.tick + 1, heldLast := false, concealed := some b.next, lost := b.lost + 1 :
    JitterBuffer K }.noteLoss true).advance

variable {position : ℕ} {counts : Bool}

theorem Stranded.next (h : b.Stranded position) : b.next.toNat = position := by
  obtain ⟨next, hnext, hposition⟩ := h.position
  rw [next_of_some hnext]
  exact hposition

theorem ne_lastSeq {seq : UInt32} (h : seq.toNat < 4294967295) : seq ≠ lastSeq := by
  rintro rfl
  exact absurd h (by decide)

theorem Stranded.pull (h : b.Stranded position) (hroom : position < 4294967295) :
    ∃ target, b.pull = ((b.concealing.noteDepth target).watch .missing, .missing) := by
  have hlast := ne_lastSeq (h.next.trans_lt hroom)
  have hnone : ∀ seq : UInt32, b.frames[seq]? = none := by
    intro seq
    rw [h.empty]
    exact ExtTreeMap.getElem?_empty
  have habsent : ∀ seq : UInt32, b.frames.contains seq = false := by
    intro seq
    rw [h.empty]
    exact ExtTreeMap.contains_empty
  have hcopy : b.redundant[b.next]? = none := by
    by_contra hsome
    obtain ⟨bytes, hbytes⟩ := Option.ne_none_iff_exists'.mp hsome
    exact hlast (h.copies _ (OrderedMap.mem_of_getElem? hbytes))
  have hready : b.ready = { b with tick := b.tick + 1 } := by
    rw [ready, started]
    refine if_neg fun hcond => ?_
    exact Bool.false_ne_true (hcond.1.symm.trans h.running)
  have hholds : b.ready.holds = false := by
    rw [hready, holds]
    change (_ && b.frames.contains _ && _) = false
    rw [habsent, Bool.and_false, Bool.false_and]
  have hdrops : b.ready.drops = false := by
    rw [hready, drops]
    change (_ && b.frames.contains _) = false
    rw [habsent, Bool.and_false]
  have hshrunk := shrunk_of_not_drops hdrops
  have hdelivered : b.ready.shrunk.deliver =
      ({ b with tick := b.tick + 1, heldLast := false, concealed := some b.next
                lost := b.lost + 1 : JitterBuffer K }.noteLoss true, .missing) := by
    rw [hshrunk, hready]
    rcases deliver_cases { b with tick := b.tick + 1, heldLast := false } with
      ⟨p, hp, -⟩ | ⟨p, -, hp, -⟩ | ⟨-, -, heq⟩
    · cases (hnone _).symm.trans hp
    · cases hcopy.symm.trans hp
    · exact heq
  refine ⟨b.ready.targetFrames, ?_⟩
  rw [JitterBuffer.pull, hholds, if_neg, if_neg Bool.false_ne_true, play, hdelivered]
  · rfl
  · rw [hready]
    exact fun hidle => Bool.false_ne_true (hidle.symm.trans h.running)

theorem stranded_concealing (h : b.Stranded position) (hroom : position < 4294967295) :
    b.concealing.Stranded (position + 1) := by
  have hlast := ne_lastSeq (h.next.trans_lt hroom)
  refine ⟨h.running, ?_, ⟨b.next + 1, rfl, ?_⟩, fun k hk => ?_⟩
  · change splitOff b.frames _ = ∅
    rw [h.empty]
    refine ExtTreeMap.ext_getElem? fun k => ?_
    rw [getElem?_splitOff, ExtTreeMap.getElem?_empty, ite_self]
  · rw [toNat_succ hlast, h.next]
  · exact h.copies k (mem_splitOff.mp hk).1

theorem Stranded.pulled (h : b.Stranded position) (hroom : position < 4294967295)
    (hcount : b.Counting t counts) :
    (counts = true ∧ reanchorPatience ≤ t + 1 ∧ (∀ q, b.pull.1.Refilling q 0) ∧
      b.pull.1.reanchors = b.reanchors + 1) ∨
    (¬(counts = true ∧ reanchorPatience ≤ t + 1) ∧ b.pull.1.Stranded (position + 1) ∧
      b.pull.1.Counting (if counts then t + 1 else t) counts ∧
      b.pull.1.reanchors = b.reanchors) := by
  obtain ⟨target, hpull⟩ := h.pull hroom
  have hmoved := stranded_concealing h hroom
  obtain ⟨ticks, pending, hdepth⟩ := noteDepth_cases b.concealing target
  have hdropped : b.concealing.droppedSincePull = counts := hcount.2
  have hstuck : b.concealing.stuckTicks = t := hcount.1
  rw [hpull, hdepth, watch]
  dsimp only
  rw [hdropped, hstuck]
  cases counts with
  | false =>
    right
    have hmissing : ¬Played .missing = true := by decide
    rw [if_neg fun hboth => Bool.false_ne_true hboth.2, if_neg hmissing]
    refine ⟨fun hboth => Bool.false_ne_true hboth.1, ?_, ⟨rfl, rfl⟩, rfl⟩
    exact ⟨hmoved.running, hmoved.empty, hmoved.position, hmoved.copies⟩
  | true =>
    rw [if_pos ⟨rfl, rfl⟩]
    by_cases hlong : reanchorPatience ≤ t + 1
    · left
      rw [if_pos hlong]
      exact ⟨rfl, hlong, fun q => refilling_reanchor _ q, rfl⟩
    · right
      rw [if_neg hlong]
      refine ⟨fun hboth => hlong hboth.2, ?_, ⟨rfl, rfl⟩, rfl⟩
      exact ⟨hmoved.running, hmoved.empty, hmoved.position, hmoved.copies⟩

theorem Stranded.push (h : b.Stranded position) (hcount : b.Counting t counts) {d : ℕ}
    (hseq : packet.seq.toNat + d = position) (hlow : 2 ≤ d) (hhigh : d ≤ resetJump) :
    (b.push packet).Stranded position ∧ (b.push packet).Counting t true ∧
      (b.push packet).reanchors = b.reanchors := by
  obtain ⟨next, hnext, hposition⟩ := h.position
  have hjump : b.jumps packet.seq = false := by
    rw [jumps, anchor, hnext]
    refine decide_eq_false ?_
    omega
  have hbehind : (b.nextSeq.any fun next => packet.seq < next) = true := by
    rw [hnext]
    refine decide_eq_true ?_
    rw [UInt32.lt_iff_toNat_lt]
    omega
  have hfar : ¬(b.concealed = some packet.seq ∧ b.nextSeq = some (packet.seq + 1)) := by
    rintro ⟨-, hback⟩
    have hsame := congrArg UInt32.toNat (Option.some.inj (hnext.symm.trans hback))
    have hsmall := next.toNat_lt
    rw [toNat_succ (ne_lastSeq (by omega))] at hsame
    omega
  have hlate : b.push packet = (b.noteArrival packet.seq).dropLate := by
    rw [JitterBuffer.push, hjump, if_neg Bool.false_ne_true, accept]
    change (if b.nextSeq.any (fun next => packet.seq < next) = true then _ else _) = _
    rw [hbehind, if_pos rfl]
    exact if_neg hfar
  rw [hlate]
  exact ⟨⟨h.running, h.empty, h.position, h.copies⟩, ⟨hcount.1, rfl⟩, rfl⟩

theorem Stranded.heals {d : ℕ} (hlow : 2 ≤ d) (hhigh : d ≤ resetJump) (m : ℕ) :
    ∀ {b : JitterBuffer K} {position q t : ℕ} {packets : ℕ → MediaPacket},
      b.Stranded position → b.Counting t true → reanchorPatience ≤ t + (m + 1) →
      q + d = position + 1 → position + m < 4294967295 → Consecutive q (m + 24) packets →
      ∃ n ≤ m + 24, ∃ payload, (rounds n packets b).pull.2 = .frame payload ∧
        (rounds n packets b).pull.1.reanchors = b.reanchors + 1 := by
  induction m with
  | zero =>
    intro b position q t packets h hcount hlong hq hroom hpackets
    rcases h.pulled hroom hcount with ⟨-, -, hfresh, hanchors⟩ | ⟨hnot, -⟩
    · have hseq : (packets 0).seq.toNat = q := hpackets 0 (by omega)
      obtain ⟨hpushed, hkept⟩ := (hfresh q).push hseq (by decide)
      obtain ⟨n, hn, payload, hframe, hsame⟩ := hpushed.heals 23 (by omega) hpackets.tail
      refine ⟨n + 1, by omega, payload, hframe, hsame.trans (hkept.trans hanchors)⟩
    · exact absurd ⟨rfl, hlong⟩ hnot
  | succ m ih =>
    intro b position q t packets h hcount hlong hq hroom hpackets
    have hseq : (packets 0).seq.toNat = q := hpackets 0 (by omega)
    rcases h.pulled (by omega) hcount with ⟨-, -, hfresh, hanchors⟩ | ⟨-, hmoved, hcounted, hsame⟩
    · obtain ⟨hpushed, hkept⟩ := (hfresh q).push hseq (by decide)
      have hlater : Consecutive (q + 1) 23 fun i => packets (i + 1) := fun i hi =>
        hpackets.tail i (by omega)
      obtain ⟨n, hn, payload, hframe, hlast⟩ := hpushed.heals 23 (by omega) hlater
      exact ⟨n + 1, by omega, payload, hframe, hlast.trans (hkept.trans hanchors)⟩
    · have hbehind : (packets 0).seq.toNat + d = position + 1 := hseq ▸ hq
      rw [if_pos rfl] at hcounted
      obtain ⟨hlate, hstill, hkept⟩ := hmoved.push hcounted hbehind hlow hhigh
      obtain ⟨n, hn, payload, hframe, hlast⟩ := ih hlate hstill (by omega) (by omega) (by omega)
        hpackets.tail
      refine ⟨n + 1, by omega, payload, hframe, hlast.trans ?_⟩
      rw [hkept, hsame]

theorem Sound.stranded (h : b.Sound) (hempty : b.frames = ∅) {next : UInt32}
    (hnext : b.nextSeq = some next) : b.Stranded next.toNat := by
  have hrunning : b.running = true := by
    rw [h.running, hnext]
    rfl
  refine ⟨hrunning, hempty, ⟨next, hnext, rfl⟩, fun k hk => ?_⟩
  rcases h.copied k hk fun _ => h.copiesAhead hrunning k hk with hlast | hstored
  · exact hlast
  · rw [hempty] at hstored
    exact absurd hstored ExtTreeMap.not_mem_empty

theorem Sound.run (h : b.Sound) {moves : List Move}
    (hroom : Meets JitterBuffer.step HasRoom b moves) :
    (Runs.run JitterBuffer.step b moves).Sound :=
  (throughout_of_meets (P := Sound) (fun _ _ h hmove => h.step hmove) h hroom).last

theorem Stranded.recovers {d : ℕ} {packets : ℕ → MediaPacket} (h : b.Stranded position)
    (hlow : 2 ≤ d) (hhigh : d ≤ resetJump) (hahead : d ≤ position)
    (hshort : position + healTicks < 4294967295)
    (hpackets : Consecutive (position + 1 - d) healTicks packets) :
    ∃ n ≤ healTicks, ∃ payload, (rounds n packets b).pull.2 = .frame payload ∧
      (rounds n packets b).pull.1.reanchors = b.reanchors + 1 := by
  have hheal : healTicks = 84 := rfl
  have hpatience : reanchorPatience = 60 := rfl
  rw [hheal] at hshort hpackets ⊢
  cases hcount : b.droppedSincePull with
  | true =>
    have hcounting : b.Counting b.stuckTicks true := ⟨rfl, hcount⟩
    have hfirst : Consecutive (position + 1 - d) (59 + 24) packets := fun i hi =>
      hpackets i (by omega)
    obtain ⟨n, hn, hplays⟩ := h.heals hlow hhigh 59 hcounting (by omega) (by omega) (by omega)
      hfirst
    exact ⟨n, by omega, hplays⟩
  | false =>
    have hidle : b.Counting b.stuckTicks false := ⟨rfl, hcount⟩
    rcases h.pulled (by omega) hidle with ⟨hnever, -⟩ | ⟨-, hmoved, hcounted, hsame⟩
    · cases hnever
    · have hseq : (packets 0).seq.toNat + d = position + 1 := by
        rw [hpackets 0 (by omega)]
        omega
      obtain ⟨hlate, hcounting, hkept⟩ := hmoved.push hcounted hseq hlow hhigh
      obtain ⟨n, hn, payload, hframe, hanchors⟩ := hlate.heals hlow hhigh 59 hcounting (by omega)
        (by omega) (by omega) (Consecutive.tail (n := 83) hpackets)
      refine ⟨n + 1, by omega, payload, hframe, hanchors.trans ?_⟩
      rw [hkept, hsame]

/-- A position with nothing stored, two to `resetJump` numbers ahead of a sender that goes on, is
given up once, and a frame is played `healTicks` pulls after the first late packet at the latest. -/
theorem late_stream_heals {moves : List Move} {next : UInt32} {d : ℕ} {packets : ℕ → MediaPacket}
    (hroom : Meets step HasRoom b.reset moves)
    (hempty : (Runs.run step b.reset moves).frames = ∅)
    (hnext : (Runs.run step b.reset moves).nextSeq = some next)
    (hlow : 2 ≤ d) (hhigh : d ≤ resetJump) (hahead : d ≤ next.toNat)
    (hshort : next.toNat + healTicks < 4294967295)
    (hpackets : Consecutive (next.toNat + 1 - d) healTicks packets) :
    ∃ n ≤ healTicks, ∃ payload,
      (rounds n packets (Runs.run step b.reset moves)).pull.2 = .frame payload ∧
      (rounds n packets (Runs.run step b.reset moves)).pull.1.reanchors =
        (Runs.run step b.reset moves).reanchors + 1 :=
  (((sound_reset b).run hroom).stranded hempty hnext).recovers hlow hhigh hahead hshort hpackets

/-- Two frames and four pulls: the position is at 4, and the sender at 1. -/
def starved : List Move := [plain 0, plain 1, .pull, .pull, .pull, .pull]

theorem late_stream_heals_starved : ∃ n ≤ healTicks, ∃ payload,
    (rounds n (fun i => numbered (2 + i)) (Runs.run step (new : JitterBuffer smoothed).reset starved)
      ).pull.2 = .frame payload ∧
    (rounds n (fun i => numbered (2 + i)) (Runs.run step (new : JitterBuffer smoothed).reset starved)
      ).pull.1.reanchors =
        (Runs.run step (new : JitterBuffer smoothed).reset starved).reanchors + 1 :=
  late_stream_heals (d := 3) (show Meets step HasRoom _ starved by decide +kernel)
    (ExtTreeMap.isEmpty_iff.mp (by decide +kernel))
    (show (Runs.run step (new : JitterBuffer smoothed).reset starved).nextSeq = some 4 by
      decide +kernel)
    (by decide) (by decide) (by decide) (by decide) (consecutive_numbered 2 (by decide))

def waited (b : JitterBuffer K) (n : ℕ) : JitterBuffer K :=
  { b with tick := b.tick + n, waiting := b.waiting + n }

theorem run_waiting (hidle : b.running = false) (hshallow : b.frames.size < b.targetFrames) (n : ℕ) :
    Runs.run step b (List.replicate n .pull) = b.waited n := by
  induction n generalizing b with
  | zero => rfl
  | succ n ih =>
    have hready : b.ready = { b with tick := b.tick + 1 } := by
      rw [ready, started]
      exact if_neg fun hcond => hshallow.not_ge hcond.2.1
    have hpull : b.pull.1 = b.waited 1 := by
      rw [JitterBuffer.pull, hready, if_pos hidle]
      rfl
    rw [List.replicate_succ, run_cons, step, hpull,
      ih (b := b.waited 1) hidle hshallow, waited, waited, waited]
    dsimp only
    rw [Nat.add_assoc, Nat.add_assoc, Nat.add_comm 1 n]

def filling : List Move := [plain 0, plain 8]

def emptying : List Move :=
  (List.range' 9 22).map (fun seq => plain (UInt32.ofNat seq)) ++ List.replicate 55 .pull

/-- Frames 0 and 8 wait while time passes, more follow and are played, and one pull finds nothing:
the position is at 32, and the sender at 30. -/
def delayed : List Move := filling ++ List.replicate 200000 .pull ++ emptying

theorem run_delayed : Runs.run step (new : JitterBuffer smoothed) delayed =
    Runs.run step ((Runs.run step (new : JitterBuffer smoothed) filling).waited 200000) emptying := by
  rw [delayed, run_append, run_append, run_waiting (by decide +kernel) (by decide +kernel)]

/-- The pull before the first late packet does not count, so that the last of `healTicks` pulls
still waits for its frame. -/
theorem delayed_waits : (Runs.run step (new : JitterBuffer smoothed) delayed).frames = ∅ ∧
    (Runs.run step (new : JitterBuffer smoothed) delayed).nextSeq = some (30 + 2) ∧
    (Runs.run step (new : JitterBuffer smoothed) delayed).lastArrival.map Prod.snd = some 30 ∧
    Consecutive 31 healTicks (fun i => numbered (31 + i)) ∧
    ∀ n < healTicks, Played (rounds n (fun i => numbered (31 + i))
      (Runs.run step (new : JitterBuffer smoothed) delayed)).pull.2 = false := by
  rw [run_delayed]
  refine ⟨ExtTreeMap.isEmpty_iff.mp ?_, ?_, ?_, consecutive_numbered 31 (by decide), ?_⟩
  · decide +kernel
  · decide +kernel
  · decide +kernel
  · decide +kernel

end JitterBuffer
end JamStream.Engine
