import JamStream.Engine.JitterMemory

/-! What the jitter buffer plays, beside what was pushed into it. -/

namespace JamStream.Engine
open Protocol Foundations Runs
open Std (ExtTreeMap)

namespace JitterBuffer
variable {K : Estimate} {b : JitterBuffer K} {packet : MediaPacket} {k : UInt32} {bytes : Bytes}

def position (b : JitterBuffer K) : UInt32 := b.ready.shrunk.next

/-! Nothing is stored but what was pushed. -/

theorem storeRedundant_lookup (h : (b.storeRedundant packet)[k]? = some bytes) :
    b.redundant[k]? = some bytes ∨ packet.seq - 1 = k ∧ packet.redundant = some bytes := by
  rw [storeRedundant] at h
  split at h
  · exact .inl h
  next red hred =>
    split at h
    · rw [getElem?_insertIfNew] at h
      split at h
      next hnew => exact .inr ⟨hnew.1, hred.trans h⟩
      · exact .inl h
    · exact .inl h

theorem accept_lookup (b : JitterBuffer K) (packet : MediaPacket) :
    (∀ (k : UInt32) (bytes : Bytes), (b.accept packet).frames[k]? = some bytes →
      b.frames[k]? = some bytes ∨ packet.seq = k ∧ packet.payload = bytes) ∧
    ∀ (k : UInt32) (bytes : Bytes), (b.accept packet).redundant[k]? = some bytes →
      b.redundant[k]? = some bytes ∨ packet.seq - 1 = k ∧ packet.redundant = some bytes := by
  have hempty : ∀ {k : UInt32} {bytes : Bytes} {P : Prop}, (∅ : Frames)[k]? = some bytes → P := by
    intro k bytes P h
    rw [ExtTreeMap.getElem?_empty] at h
    cases h
  rw [accept]
  split
  · split
    · refine ⟨fun k bytes h => ?_, fun _ _ h => .inl h⟩
      change (b.frames.insert packet.seq packet.payload)[k]? = _ at h
      rw [OrderedMap.getElem?_insert] at h
      split at h
      next hsame => exact .inr ⟨hsame, Option.some.inj h⟩
      · exact .inl h
    · exact ⟨fun _ _ h => .inl h, fun _ _ h => .inl h⟩
  · rw [store]
    dsimp only
    split
    · exact ⟨fun _ _ h => hempty h, fun _ _ h => hempty h⟩
    · refine ⟨fun k bytes h => ?_, fun _ _ h => storeRedundant_lookup h⟩
      rw [getElem?_insertIfNew] at h
      split at h
      next hnew => exact .inr ⟨hnew.1, Option.some.inj h⟩
      · exact .inl h

theorem push_lookup (b : JitterBuffer K) (packet : MediaPacket) :
    (∀ (k : UInt32) (bytes : Bytes), (b.push packet).frames[k]? = some bytes →
      b.frames[k]? = some bytes ∨ packet.seq = k ∧ packet.payload = bytes) ∧
    ∀ (k : UInt32) (bytes : Bytes), (b.push packet).redundant[k]? = some bytes →
      b.redundant[k]? = some bytes ∨ packet.seq - 1 = k ∧ packet.redundant = some bytes := by
  rw [push]
  split
  · obtain ⟨hframes, hcopies⟩ := accept_lookup (b.reset.noteArrival packet.seq) packet
    refine ⟨fun k bytes h => (hframes k bytes h).imp_left fun hold => ?_,
      fun k bytes h => (hcopies k bytes h).imp_left fun hold => ?_⟩
    · change (∅ : Frames)[k]? = _ at hold
      rw [ExtTreeMap.getElem?_empty] at hold
      cases hold
    · change (∅ : Frames)[k]? = _ at hold
      rw [ExtTreeMap.getElem?_empty] at hold
      cases hold
  · exact accept_lookup (b.noteArrival packet.seq) packet

structure Within (b c : JitterBuffer K) : Prop where
  frames : ∀ (k : UInt32) (bytes : Bytes), c.frames[k]? = some bytes → b.frames[k]? = some bytes
  redundant : ∀ (k : UInt32) (bytes : Bytes),
    c.redundant[k]? = some bytes → b.redundant[k]? = some bytes

theorem Within.refl (b : JitterBuffer K) : Within b b := ⟨fun _ _ h => h, fun _ _ h => h⟩

theorem Within.trans {c d : JitterBuffer K} (h : Within b c) (hd : Within c d) : Within b d :=
  ⟨fun k bytes hk => h.frames k bytes (hd.frames k bytes hk),
    fun k bytes hk => h.redundant k bytes (hd.redundant k bytes hk)⟩

theorem remove_lookup {frames : Frames} {n : UInt32} (h : (remove frames n)[k]? = some bytes) :
    frames[k]? = some bytes := by
  rw [getElem?_remove] at h
  split at h
  · cases h
  · exact h

theorem splitOff_lookup {frames : Frames} {n : UInt32} (h : (splitOff frames n)[k]? = some bytes) :
    frames[k]? = some bytes := by
  rw [getElem?_splitOff] at h
  split at h
  · exact h
  · cases h

theorem within_ready (b : JitterBuffer K) : Within b b.ready := by
  rw [ready]
  rcases started_or { b with tick := b.tick + 1 } with heq | ⟨-, -, n, -, heq⟩
  · rw [heq]
    exact ⟨fun _ _ h => h, fun _ _ h => h⟩
  · rw [heq]
    exact ⟨fun _ _ h => h, fun _ _ h => h⟩

theorem within_shrunk (b : JitterBuffer K) : Within b b.shrunk := by
  rw [shrunk]
  split
  · exact ⟨fun _ _ h => remove_lookup h, fun _ _ h => remove_lookup h⟩
  · exact ⟨fun _ _ h => h, fun _ _ h => h⟩

theorem within_deliver (b : JitterBuffer K) : Within b b.deliver.1 := by
  rcases deliver_cases b with ⟨payload, -, heq⟩ | ⟨copy, -, -, heq⟩ | ⟨-, -, heq⟩
  · rw [heq]
    exact ⟨fun _ _ h => remove_lookup h, fun _ _ h => h⟩
  · rw [heq]
    exact ⟨fun _ _ h => h, fun _ _ h => remove_lookup h⟩
  · rw [heq]
    exact ⟨fun _ _ h => h, fun _ _ h => h⟩

theorem within_settle (b : JitterBuffer K) (target : ℕ) (result : Pull) :
    Within b ((b.advance.noteDepth target).watch result) := by
  have hdepth : Within b (b.advance.noteDepth target) := by
    obtain ⟨ticks, pending, heq⟩ := noteDepth_cases b.advance target
    rw [heq]
    exact ⟨fun _ _ h => splitOff_lookup h, fun _ _ h => splitOff_lookup h⟩
  refine hdepth.trans ?_
  rcases watch_cases (b.advance.noteDepth target) result with ⟨-, -, -, heq⟩ | ⟨dropped, stuck, heq⟩
  · rw [heq]
    refine ⟨fun k bytes h => ?_, fun k bytes h => ?_⟩
    · change (∅ : Frames)[k]? = _ at h
      rw [ExtTreeMap.getElem?_empty] at h
      cases h
    · change (∅ : Frames)[k]? = _ at h
      rw [ExtTreeMap.getElem?_empty] at h
      cases h
  · rw [heq]
    exact ⟨fun _ _ h => h, fun _ _ h => h⟩

theorem within_pull (b : JitterBuffer K) : Within b b.pull.1 := by
  have hready := within_ready b
  rcases pull_cases b with ⟨-, heq⟩ | ⟨-, -, heq⟩ | ⟨-, -, heq⟩
  · rw [heq]
    exact hready.trans ⟨fun _ _ h => h, fun _ _ h => h⟩
  · rw [heq]
    exact hready.trans ⟨fun _ _ h => h, fun _ _ h => h⟩
  · rw [heq]
    have hshrunk := hready.trans (within_shrunk b.ready)
    have hdelivered := hshrunk.trans (within_deliver b.ready.shrunk)
    exact hdelivered.trans (within_settle b.ready.shrunk.deliver.1 _ _)

/-! Where the position goes. -/

/-- A push leaves the position where it is, or takes it back to the number that was concealed. -/
theorem push_position (hruns : (b.push packet).running = true) :
    b.running = true ∧
    ((b.push packet).next = b.next ∧ (b.push packet).concealed = b.concealed ∨
      b.concealed = some (b.push packet).next ∧ (b.push packet).concealed = none) := by
  rw [push] at hruns ⊢
  by_cases hjump : b.jumps packet.seq = true
  · rw [if_pos hjump] at hruns
    have hidle : (((b.reset.noteArrival packet.seq).accept packet).running = true) → False := by
      rw [accept]
      split
      next hbehind => exact absurd hbehind (by simp [noteArrival, reset])
      · rw [store]
        dsimp only
        split
        · intro hr
          cases hr
        · intro hr
          cases hr
    exact absurd hruns hidle
  · rw [if_neg hjump] at hruns ⊢
    rw [accept] at hruns ⊢
    split at hruns
    next hbehind =>
      rw [if_pos hbehind]
      split at hruns
      next hback =>
        rw [if_pos hback]
        refine ⟨hruns, .inr ⟨?_, rfl⟩⟩
        exact hback.1
      next hnot =>
        rw [if_neg hnot]
        exact ⟨hruns, .inl ⟨rfl, rfl⟩⟩
    next hbehind =>
      rw [if_neg hbehind]
      rw [store] at hruns ⊢
      dsimp only at hruns ⊢
      split at hruns
      · cases hruns
      next hfits =>
        rw [if_neg hfits]
        exact ⟨hruns, .inl ⟨rfl, rfl⟩⟩

theorem ready_of_running (h : b.running = true) : b.ready = { b with tick := b.tick + 1 } := by
  rw [ready]
  rcases started_or { b with tick := b.tick + 1 } with heq | ⟨hidle, -⟩
  · exact heq
  · exact absurd (hidle.symm.trans h) Bool.false_ne_true

theorem running_of_holds (hruns : b.ready.running = true) (h : b.ready.holds = true) :
    b.running = true := by
  rw [ready] at h hruns
  rcases started_or { b with tick := b.tick + 1 } with heq | ⟨-, hdeep, n, -, heq⟩
  · rw [heq] at hruns
    exact hruns
  · rw [heq, holds, Bool.and_eq_true, Bool.and_eq_true] at h
    have hshallow := of_decide_eq_true h.1.1
    exact absurd hdeep (Nat.not_le.mpr hshallow)

theorem le_shrunk_next (hroom : b.drops = true → b.next ≠ lastSeq) : b.next ≤ b.shrunk.next := by
  rw [shrunk]
  split
  next hdrops => exact UInt32.le_of_lt (lt_succ (hroom hdrops))
  · exact UInt32.le_refl _

theorem deliver_played (b : JitterBuffer K) (h : Played b.deliver.2 = true) :
    b.deliver.1.concealed = none := by
  rcases deliver_cases b with ⟨payload, -, heq⟩ | ⟨copy, -, -, heq⟩ | ⟨-, -, heq⟩
  · rw [heq]
    rfl
  · rw [heq]
    rfl
  · rw [heq] at h
    cases h

theorem play_position (h : b.Stored) (hrunning : b.running = true)
    (hdrop : b.drops = true → b.next ≠ lastSeq) (hlast : b.shrunk.next ≠ lastSeq)
    (hruns : b.play.1.running = true) :
    b.play.1.next = b.shrunk.next + 1 ∧
      ∀ c, b.play.1.concealed = some c → c = b.shrunk.next ∧ Played b.play.2 = false := by
  obtain ⟨hshrunk, hstays⟩ := h.shrunk hrunning hdrop
  have hfewer := fewer_deliver b.shrunk
  obtain ⟨-, -, hnext⟩ := hshrunk.advance hstays hlast hfewer
  rw [play] at hruns ⊢
  dsimp only at hruns ⊢
  obtain ⟨ticks, pending, hdepth⟩ := noteDepth_cases b.shrunk.deliver.1.advance b.targetFrames
  rw [hdepth] at hruns ⊢
  rcases watch_cases { b.shrunk.deliver.1.advance with overTicks := ticks, dropPending := pending }
    b.shrunk.deliver.2 with ⟨-, -, -, heq⟩ | ⟨dropped, stuck, heq⟩
  · rw [heq] at hruns
    cases hruns
  · rw [heq]
    refine ⟨hnext, fun c hc => ⟨hfewer.concealed c hc, ?_⟩⟩
    by_contra hplayed
    have hnone := deliver_played b.shrunk (by simpa using hplayed)
    cases hnone.symm.trans hc

theorem play_result (b : JitterBuffer K) :
    (∃ payload, b.shrunk.frames[b.shrunk.next]? = some payload ∧ b.play.2 = .frame payload) ∨
    (∃ copy, b.shrunk.redundant[b.shrunk.next]? = some copy ∧ b.play.2 = .recovered copy) ∨
    b.play.2 = .missing := by
  rcases deliver_cases b.shrunk with ⟨payload, hframe, heq⟩ | ⟨copy, -, hcopy, heq⟩ | ⟨-, -, heq⟩
  · exact .inl ⟨payload, hframe, congrArg Prod.snd heq⟩
  · exact .inr (.inl ⟨copy, hcopy, congrArg Prod.snd heq⟩)
  · exact .inr (.inr (congrArg Prod.snd heq))

end JitterBuffer

open JitterBuffer (Played)

/-- A buffer, all that was pushed into it, and what it has played since it was last without an
anchor, the newest first. -/
structure Playing (K : Estimate) where
  buffer : JitterBuffer K
  pushed : List MediaPacket
  played : List (UInt32 × Pull)

namespace Playing
variable {K : Estimate} {t : Playing K}

def start : Playing K := { buffer := .new, pushed := [], played := [] }

def step (t : Playing K) : JitterBuffer.Move → Playing K
  | .push packet =>
    { buffer := t.buffer.push packet
      pushed := packet :: t.pushed
      played := if (t.buffer.push packet).running then t.played else [] }
  | .pull =>
    { t with
      buffer := t.buffer.pull.1
      played :=
        if t.buffer.pull.1.running then
          if Played t.buffer.pull.2 then (t.buffer.position, t.buffer.pull.2) :: t.played
          else t.played
        else [] }

/-- The payload of a packet of that number, or the copy that the next one brought. -/
def Carried (pushed : List MediaPacket) (seq : UInt32) : Pull → Prop
  | .frame payload => ∃ p ∈ pushed, p.seq = seq ∧ p.payload = payload
  | .recovered copy => ∃ p ∈ pushed, p.seq = seq + 1 ∧ p.redundant = some copy
  | _ => False

/-- No number is played twice or after a later one, and each is played as it was sent. -/
def PlaysOnce (t : Playing K) : Prop :=
  t.played.Pairwise (fun newer older => older.1 < newer.1) ∧
    ∀ e ∈ t.played, Carried t.pushed e.1 e.2

def HasRoom (t : Playing K) (move : JitterBuffer.Move) : Prop := t.buffer.HasRoom move

instance (t : Playing K) (move : JitterBuffer.Move) : Decidable (t.HasRoom move) :=
  inferInstanceAs (Decidable (t.buffer.HasRoom move))

/-- What has been played lies behind the position, and behind a number that may come back. -/
structure Right (t : Playing K) : Prop where
  sound : t.buffer.Sound
  frames : ∀ (k : UInt32) (bytes : Bytes),
    t.buffer.frames[k]? = some bytes → Carried t.pushed k (.frame bytes)
  copies : ∀ (k : UInt32) (bytes : Bytes),
    t.buffer.redundant[k]? = some bytes → Carried t.pushed k (.recovered bytes)
  idle : t.buffer.running = false → t.played = []
  behind : ∀ e ∈ t.played, e.1 < t.buffer.next ∧ ∀ c, t.buffer.concealed = some c → e.1 < c
  once : t.PlaysOnce

theorem Carried.push {pushed : List MediaPacket} {seq : UInt32} {result : Pull}
    (h : Carried pushed seq result) (packet : MediaPacket) :
    Carried (packet :: pushed) seq result := by
  cases result with
  | frame payload =>
    obtain ⟨p, hp, hrest⟩ := h
    exact ⟨p, List.mem_cons_of_mem _ hp, hrest⟩
  | recovered copy =>
    obtain ⟨p, hp, hrest⟩ := h
    exact ⟨p, List.mem_cons_of_mem _ hp, hrest⟩
  | missing => exact h
  | waiting => exact h

theorem right_start : (start : Playing K).Right where
  sound := JitterBuffer.sound_new
  frames _ _ h := by
    change (∅ : Frames)[_]? = _ at h
    rw [ExtTreeMap.getElem?_empty] at h
    cases h
  copies _ _ h := by
    change (∅ : Frames)[_]? = _ at h
    rw [ExtTreeMap.getElem?_empty] at h
    cases h
  idle _ := rfl
  behind _ he := absurd he List.not_mem_nil
  once := ⟨List.Pairwise.nil, fun _ he => absurd he List.not_mem_nil⟩

theorem Right.push (h : t.Right) (packet : MediaPacket) : (t.step (.push packet)).Right := by
  obtain ⟨hframes, hcopies⟩ := JitterBuffer.push_lookup t.buffer packet
  have hplayed : ∀ e, e ∈ (t.step (.push packet)).played →
      (t.buffer.push packet).running = true ∧ e ∈ t.played := by
    intro e he
    change e ∈ (if (t.buffer.push packet).running then t.played else []) at he
    split at he
    next hruns => exact ⟨hruns, he⟩
    · cases he
  refine ⟨h.sound.push packet, fun k bytes hk => ?_, fun k bytes hk => ?_, fun hidle => ?_,
    fun e he => ?_, ?_, fun e he => ?_⟩
  · rcases hframes k bytes hk with hold | hnew
    · exact (h.frames k bytes hold).push packet
    · exact ⟨packet, List.mem_cons_self, hnew⟩
  · rcases hcopies k bytes hk with hold | ⟨hseq, hred⟩
    · exact (h.copies k bytes hold).push packet
    · refine ⟨packet, List.mem_cons_self, ?_, hred⟩
      rw [← hseq]
      exact (UInt32.sub_add_cancel _ _).symm
  · exact if_neg (by rw [show (t.buffer.push packet).running = false from hidle]; decide)
  · obtain ⟨hruns, hold⟩ := hplayed e he
    obtain ⟨hbehind, hconcealed⟩ := h.behind e hold
    obtain ⟨-, ⟨hnext, hsame⟩ | ⟨hback, hnone⟩⟩ := JitterBuffer.push_position hruns
    · refine ⟨?_, fun c hc => ?_⟩
      · change e.1 < (t.buffer.push packet).next
        rw [hnext]
        exact hbehind
      · exact hconcealed c (hsame.symm.trans hc)
    · refine ⟨hconcealed _ hback, fun c hc => ?_⟩
      cases hnone.symm.trans hc
  · change (if (t.buffer.push packet).running then t.played else []).Pairwise _
    split
    · exact h.once.1
    · exact List.Pairwise.nil
  · exact (h.once.2 e (hplayed e he).2).push packet

theorem Right.play (h : t.Right) (hroom : ¬t.buffer.Overflows)
    (hruns : t.buffer.ready.running = true) (hholds : t.buffer.ready.holds = false)
    (heq : t.buffer.pull = t.buffer.ready.play) : (t.step .pull).Right := by
  have hdrop : t.buffer.ready.drops = true → t.buffer.ready.next ≠ lastSeq :=
    fun hdrops hlast => hroom ⟨hruns, hholds, .inl ⟨hdrops, hlast⟩⟩
  have hlast : t.buffer.ready.shrunk.next ≠ lastSeq :=
    fun hlast => hroom ⟨hruns, hholds, .inr hlast⟩
  have hwithin := JitterBuffer.within_pull t.buffer
  have hbefore : ∀ e ∈ t.played, e.1 < t.buffer.position := by
    intro e he
    have hrunning : t.buffer.running = true := by
      by_contra hidle
      rw [h.idle (by simpa using hidle)] at he
      cases he
    have hready := JitterBuffer.ready_of_running hrunning
    have hle := JitterBuffer.le_shrunk_next hdrop
    have hsame : t.buffer.ready.next = t.buffer.next := by
      rw [hready]
      rfl
    rw [hsame] at hle
    exact UInt32.lt_of_lt_of_le (h.behind e he).1 hle
  have hplayed : t.buffer.pull.1.running = true →
      t.buffer.pull.1.next = t.buffer.position + 1 ∧
        ∀ c, t.buffer.pull.1.concealed = some c →
          c = t.buffer.position ∧ Played t.buffer.pull.2 = false := by
    rw [heq]
    exact JitterBuffer.play_position h.sound.ready.1 hruns hdrop hlast
  have hcarried : Played t.buffer.pull.2 = true →
      Carried t.pushed t.buffer.position t.buffer.pull.2 := by
    have hstored := (JitterBuffer.within_ready t.buffer).trans
      (JitterBuffer.within_shrunk t.buffer.ready)
    rw [heq]
    intro hresult
    rcases JitterBuffer.play_result t.buffer.ready with
      ⟨payload, hframe, hp⟩ | ⟨copy, hcopy, hp⟩ | hp
    · rw [hp]
      exact h.frames _ _ (hstored.frames _ _ hframe)
    · rw [hp]
      exact h.copies _ _ (hstored.redundant _ _ hcopy)
    · rw [hp] at hresult
      cases hresult
  have hmem : ∀ e ∈ (t.step .pull).played, t.buffer.pull.1.running = true ∧
      (e ∈ t.played ∨
        e = (t.buffer.position, t.buffer.pull.2) ∧ Played t.buffer.pull.2 = true) := by
    intro e he
    change e ∈ (if t.buffer.pull.1.running then
      if Played t.buffer.pull.2 then (t.buffer.position, t.buffer.pull.2) :: t.played
      else t.played else []) at he
    split at he
    next hrunning =>
      refine ⟨hrunning, ?_⟩
      split at he
      next hresult =>
        rcases List.mem_cons.mp he with rfl | hold
        · exact .inr ⟨rfl, hresult⟩
        · exact .inl hold
      · exact .inl he
    · cases he
  refine ⟨h.sound.pull hroom, fun k bytes hk => h.frames k bytes (hwithin.frames k bytes hk),
    fun k bytes hk => h.copies k bytes (hwithin.redundant k bytes hk), fun hidle => ?_,
    fun e he => ?_, ?_, fun e he => ?_⟩
  · exact if_neg (by rw [show t.buffer.pull.1.running = false from hidle]; decide)
  · obtain ⟨hrunning, hcase⟩ := hmem e he
    obtain ⟨hnext, hconcealed⟩ := hplayed hrunning
    change e.1 < t.buffer.pull.1.next ∧ ∀ c, t.buffer.pull.1.concealed = some c → e.1 < c
    rw [hnext]
    rcases hcase with hold | ⟨rfl, hresult⟩
    · have hbehind := hbefore e hold
      refine ⟨UInt32.lt_trans hbehind (lt_succ hlast), fun c hc => ?_⟩
      rw [(hconcealed c hc).1]
      exact hbehind
    · -- what was played is not concealed
      refine ⟨lt_succ hlast, fun c hc => ?_⟩
      cases hresult.symm.trans (hconcealed c hc).2
  · change (if t.buffer.pull.1.running then
      if Played t.buffer.pull.2 then (t.buffer.position, t.buffer.pull.2) :: t.played
      else t.played else []).Pairwise _
    split
    · split
      · exact List.pairwise_cons.mpr ⟨fun e he => hbefore e he, h.once.1⟩
      · exact h.once.1
    · exact List.Pairwise.nil
  · obtain ⟨-, hold | ⟨rfl, hresult⟩⟩ := hmem e he
    · exact h.once.2 e hold
    · exact hcarried hresult

theorem Right.rest (h : t.Right) (hroom : ¬t.buffer.Overflows)
    (hresult : Played t.buffer.pull.2 = false)
    (hbehind : t.buffer.pull.1.running = true → t.buffer.running = true ∧
      t.buffer.pull.1.next = t.buffer.next ∧ t.buffer.pull.1.concealed = t.buffer.concealed) :
    (t.step .pull).Right := by
  have hwithin := JitterBuffer.within_pull t.buffer
  have hsame : (t.step .pull).played = if t.buffer.pull.1.running then t.played else [] := by
    change (if t.buffer.pull.1.running then
      if Played t.buffer.pull.2 then (t.buffer.position, t.buffer.pull.2) :: t.played
      else t.played else []) = _
    rw [hresult]
    rfl
  have hmem : ∀ e ∈ (t.step .pull).played, t.buffer.pull.1.running = true ∧ e ∈ t.played := by
    intro e he
    rw [hsame] at he
    split at he
    next hrunning => exact ⟨hrunning, he⟩
    · cases he
  refine ⟨h.sound.pull hroom, fun k bytes hk => h.frames k bytes (hwithin.frames k bytes hk),
    fun k bytes hk => h.copies k bytes (hwithin.redundant k bytes hk), fun hidle => ?_,
    fun e he => ?_, ?_, fun e he => h.once.2 e (hmem e he).2⟩
  · rw [hsame]
    exact if_neg (by rw [show t.buffer.pull.1.running = false from hidle]; decide)
  · obtain ⟨hrunning, hold⟩ := hmem e he
    obtain ⟨-, hnext, hconcealed⟩ := hbehind hrunning
    change e.1 < t.buffer.pull.1.next ∧ ∀ c, t.buffer.pull.1.concealed = some c → e.1 < c
    rw [hnext, hconcealed]
    exact h.behind e hold
  · rw [hsame]
    split
    · exact h.once.1
    · exact List.Pairwise.nil

theorem Right.pull (h : t.Right) (hroom : ¬t.buffer.Overflows) : (t.step .pull).Right := by
  rcases JitterBuffer.pull_cases t.buffer with ⟨hidle, heq⟩ | ⟨hruns, hholds, heq⟩ |
    ⟨hruns, hholds, heq⟩
  · refine h.rest hroom (by rw [heq]; rfl) fun hrunning => ?_
    rw [heq] at hrunning
    cases hidle.symm.trans hrunning
  · refine h.rest hroom (by rw [heq]; rfl) fun _ => ?_
    -- a buffer that starts with this pull is deep enough and is not held
    have hrunning : t.buffer.running = true := JitterBuffer.running_of_holds hruns hholds
    rw [heq, JitterBuffer.ready_of_running hrunning]
    exact ⟨hrunning, rfl, rfl⟩
  · exact h.play hroom hruns hholds heq

/-- What is played between two times that the anchor is given up: each number once and in order,
with what a packet carried for it, until a pull takes the last number that there is. -/
theorem plays_once_in_order {moves : List JitterBuffer.Move}
    (hroom : Meets step HasRoom (start : Playing K) moves) :
    Throughout step PlaysOnce (start : Playing K) moves := by
  have hright : Throughout step Right (start : Playing K) moves := by
    refine throughout_of_meets (fun t move h hmove => ?_) right_start hroom
    cases move with
    | push packet => exact h.push packet
    | pull => exact h.pull hmove
  exact hright.imp fun _ h => h.once

open JitterBuffer (smoothed plain)

theorem plays_once_in_order_resurrected :
    Throughout step PlaysOnce (start : Playing smoothed)
      [plain 0, .pull, plain 2, .pull, plain 1, .pull, .pull] := by
  have hroom : Meets step HasRoom (start : Playing smoothed)
      [plain 0, .pull, plain 2, .pull, plain 1, .pull, .pull] := by decide +kernel
  exact plays_once_in_order hroom

def wrapping : List JitterBuffer.Move := [plain lastSeq, .pull, plain 0, .pull, .pull]

/-- With arithmetic that wraps, the number 0 is played after the last one with no reset between: the
arrival looks so late that the pull behind it is held back, and the next one plays it. -/
theorem wrapped_plays_backwards :
    (run step (start : Playing smoothed) wrapping).played =
      [(0, .frame []), (lastSeq, .frame [])] ∧
    (run step (start : Playing smoothed) wrapping).buffer.reanchors = 0 ∧
    ¬Throughout step PlaysOnce (start : Playing smoothed) wrapping := by
  have hplayed : (run step (start : Playing smoothed) wrapping).played =
      [(0, .frame []), (lastSeq, .frame [])] := by decide +kernel
  refine ⟨hplayed, by decide +kernel, fun h => ?_⟩
  have honce := h.last.1
  rw [hplayed] at honce
  exact absurd honce (by decide)

end Playing
end JamStream.Engine
