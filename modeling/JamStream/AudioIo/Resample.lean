import JamStream.Foundations.Slices

/-! Device callbacks of any size over a resampler that works in chunks of its own: a backlog in
front of it on the way in, a staging buffer behind it on the way out. -/

namespace JamStream.AudioIo
open Foundations
variable {α : Type}

def maxChunkFrames : ℕ := 4096

def chunkFrames : ℕ := 120

/-- A resampler with a fixed output, which says how many frames its next chunk takes. One that
takes none for now does so only so many times over. -/
structure FixedOutput (α : Type) where
  State : Type
  channels : ℕ
  channels_pos : 0 < channels
  inputFramesNext : State → ℕ
  inputFramesMax : ℕ
  next_le : ∀ s, inputFramesNext s ≤ inputFramesMax
  /-- One chunk, over what the output buffer held before. -/
  processIntoBuffer : State → List α → List α → State × List α
  patience : State → ℕ
  patience_falls : ∀ s output, inputFramesNext s = 0 →
    patience (processIntoBuffer s [] output).1 < patience s

namespace FixedOutput
variable (m : FixedOutput α)

/-- What the next chunk takes, in interleaved samples. -/
def need (s : m.State) : ℕ := m.inputFramesNext s * m.channels

def after (s : m.State × List α) : List (List α) → m.State × List α
  | [] => s
  | input :: inputs => after (m.processIntoBuffer s.1 input s.2) inputs

def given (s : m.State × List α) : List (List α) → List (List α)
  | [] => []
  | input :: inputs =>
    (m.processIntoBuffer s.1 input s.2).2 :: given (m.processIntoBuffer s.1 input s.2) inputs

def Asked (s : m.State × List α) : List (List α) → Prop
  | [] => True
  | input :: inputs =>
    input.length = m.need s.1 ∧ Asked (m.processIntoBuffer s.1 input s.2) inputs

variable {m}

/-- The frame nearest below each instant: `inRate` frames of input to `outRate` of output, the
last frame of the input before in front. -/
def nearest [Zero α] (inRate outRate channels : ℕ) (hin : 0 < inRate) (hout : 0 < outRate)
    (hchannels : 0 < channels) : FixedOutput α where
  State := Fin outRate × List α
  channels
  channels_pos := hchannels
  inputFramesNext s := (s.1 + chunkFrames * inRate) / outRate
  inputFramesMax := (outRate + chunkFrames * inRate) / outRate
  next_le s := Nat.div_le_div_right (Nat.add_le_add_right s.1.isLt.le _)
  processIntoBuffer s input output :=
    let frames := s.2 ++ input
    let at_ := s.1 + chunkFrames * inRate
    ((⟨at_ % outRate, Nat.mod_lt _ hout⟩, (frames.drop (at_ / outRate * channels)).take channels),
      output.mapIdx fun k _ =>
        frames.getD ((s.1 + k / channels * inRate) / outRate * channels + k % channels) 0)
  patience s := outRate - s.1
  patience_falls s output hnone := by
    have hlt : s.1 + chunkFrames * inRate < outRate :=
      (Nat.div_eq_zero_iff.mp hnone).resolve_left hout.ne'
    have hmoves : 0 < chunkFrames * inRate := Nat.mul_pos (by decide) hin
    show outRate - (s.1 + chunkFrames * inRate) % outRate < outRate - s.1
    rw [Nat.mod_eq_of_lt hlt]
    omega

theorem after_concat (s : m.State × List α) (inputs : List (List α)) (input : List α) :
    m.after s (inputs ++ [input]) =
      m.processIntoBuffer (m.after s inputs).1 input (m.after s inputs).2 := by
  induction inputs generalizing s with
  | nil => rfl
  | cons first inputs ih => exact ih _

theorem given_concat (s : m.State × List α) (inputs : List (List α)) (input : List α) :
    m.given s (inputs ++ [input]) = m.given s inputs ++ [(m.after s (inputs ++ [input])).2] := by
  induction inputs generalizing s with
  | nil => rfl
  | cons first inputs ih => exact congrArg _ (ih _)

theorem asked_concat {s : m.State × List α} {inputs : List (List α)} {input : List α}
    (h : m.Asked s inputs) (hlen : input.length = m.need (m.after s inputs).1) :
    m.Asked s (inputs ++ [input]) := by
  induction inputs generalizing s with
  | nil => exact ⟨hlen, trivial⟩
  | cons first inputs ih => exact ⟨h.1, ih h.2 hlen⟩

theorem asked_unique {s : m.State × List α} {inputs others : List (List α)} {rest more : List α}
    (hinputs : m.Asked s inputs) (hothers : m.Asked s others)
    (hsame : inputs.flatten ++ rest = others.flatten ++ more)
    (hrest : rest.length < m.need (m.after s inputs).1)
    (hmore : more.length < m.need (m.after s others).1) : inputs = others ∧ rest = more := by
  induction inputs generalizing s others with
  | nil =>
    cases others with
    | nil => exact ⟨rfl, hsame⟩
    | cons other others =>
      have hlen := congrArg List.length hsame
      have hasked := hothers.1
      simp only [List.flatten_nil, List.nil_append, List.flatten_cons, List.length_append] at hlen
      rw [after] at hrest
      omega
  | cons input inputs ih =>
    cases others with
    | nil =>
      have hlen := congrArg List.length hsame
      have hasked := hinputs.1
      simp only [List.flatten_nil, List.nil_append, List.flatten_cons, List.length_append] at hlen
      rw [after] at hmore
      omega
    | cons other others =>
      have hlen : input.length = other.length := hinputs.1.trans hothers.1.symm
      simp only [List.flatten_cons, List.append_assoc] at hsame
      obtain ⟨rfl, htail⟩ := List.append_inj hsame hlen
      obtain ⟨rfl, hleft⟩ := ih hinputs.2 hothers.2 htail hrest hmore
      exact ⟨rfl, hleft⟩

end FixedOutput

/-- The capture wrapper, with what it fed the resampler and handed to `inner` so far. -/
structure Capture (m : FixedOutput α) where
  resampler : m.State
  backlog : List α
  chunk : List α
  fed : List (List α)
  heard : List (List α)
  /-- The most the backlog ever held. -/
  deepest : ℕ

namespace Capture
variable {m : FixedOutput α}

def capacity (m : FixedOutput α) : ℕ := (maxChunkFrames + m.inputFramesMax) * m.channels

def need (c : Capture m) : ℕ := m.need c.resampler

def extend (c : Capture m) (piece : List α) : Capture m :=
  { c with
    backlog := c.backlog ++ piece
    deepest := max c.deepest (c.backlog.length + piece.length) }

/-- The front of the backlog through the resampler, and the chunk to `inner`. -/
def convert (c : Capture m) : Capture m :=
  let result := m.processIntoBuffer c.resampler (c.backlog.take c.need) c.chunk
  { c with
    resampler := result.1
    chunk := result.2
    backlog := c.backlog.drop c.need
    fed := c.fed ++ [c.backlog.take c.need]
    heard := c.heard ++ [result.2] }

theorem convert_shrinks {c : Capture m} (h : ¬c.backlog.length < c.need) :
    Prod.Lex (· < ·) (· < ·) (c.convert.backlog.length, m.patience c.convert.resampler)
      (c.backlog.length, m.patience c.resampler) := by
  have hlen : c.convert.backlog.length = c.backlog.length - c.need := List.length_drop
  rcases Nat.eq_zero_or_pos (m.inputFramesNext c.resampler) with hzero | hpos
  · have hneed : c.need = 0 := by
      rw [need, FixedOutput.need, hzero, Nat.zero_mul]
    have hfalls := m.patience_falls c.resampler c.chunk hzero
    rw [hlen, hneed, Nat.sub_zero]
    refine .right _ ?_
    rw [convert, hneed, List.take_zero]
    exact hfalls
  · have hneed : 0 < c.need := Nat.mul_pos hpos m.channels_pos
    rw [hlen]
    exact .left _ _ (by omega)

def drain (c : Capture m) : Capture m :=
  if c.backlog.length < c.need then c else drain c.convert
termination_by (c.backlog.length, m.patience c.resampler)
decreasing_by exact convert_shrinks ‹_›

def capture (c : Capture m) (samples : List α) : Capture m :=
  (slices (maxChunkFrames * m.channels) samples).foldl (fun c piece => (c.extend piece).drain) c

variable [Zero α]

def new (m : FixedOutput α) (resampler : m.State) : Capture m :=
  { resampler
    backlog := []
    chunk := List.replicate (chunkFrames * m.channels) 0
    fed := []
    heard := []
    deepest := 0 }

/-- The whole of what was delivered is fed or still held, in order, and every chunk is the
resampler's on what it was fed. -/
structure InOrder (start : m.State) (delivered : List α) (c : Capture m) : Prop where
  order : c.fed.flatten ++ c.backlog = delivered
  asked : m.Asked (start, (new m start).chunk) c.fed
  now : m.after (start, (new m start).chunk) c.fed = (c.resampler, c.chunk)
  heard : c.heard = m.given (start, (new m start).chunk) c.fed

theorem new_inOrder (start : m.State) : InOrder start [] (new m start) :=
  ⟨rfl, trivial, rfl, rfl⟩

theorem InOrder.extend {start : m.State} {delivered : List α} {c : Capture m}
    (hc : InOrder start delivered c) (piece : List α) :
    InOrder start (delivered ++ piece) (c.extend piece) where
  order := by
    have horder := hc.order
    change c.fed.flatten ++ (c.backlog ++ piece) = delivered ++ piece
    rw [← List.append_assoc, horder]
  asked := hc.asked
  now := hc.now
  heard := hc.heard

theorem InOrder.convert {start : m.State} {delivered : List α} {c : Capture m}
    (hc : InOrder start delivered c) (hready : c.need ≤ c.backlog.length) :
    InOrder start delivered c.convert := by
  have hnow : m.after (start, (new m start).chunk) (c.fed ++ [c.backlog.take c.need]) =
      m.processIntoBuffer c.resampler (c.backlog.take c.need) c.chunk := by
    rw [FixedOutput.after_concat, hc.now]
  have hlen : (c.backlog.take c.need).length = m.need c.resampler :=
    List.length_take_of_le hready
  refine ⟨?_, ?_, hnow, ?_⟩
  · change (c.fed ++ [c.backlog.take c.need]).flatten ++ c.backlog.drop c.need = delivered
    rw [List.flatten_append, List.flatten_singleton, List.append_assoc, List.take_append_drop]
    exact hc.order
  · refine FixedOutput.asked_concat hc.asked ?_
    rw [hc.now]
    exact hlen
  · change c.heard ++ [_] = m.given _ (c.fed ++ [c.backlog.take c.need])
    rw [FixedOutput.given_concat, hnow, hc.heard]

/-- What a pass of the loop leaves: nothing is lost, no whole chunk stays behind, and the backlog
never held more than it did at the start. -/
theorem drain_spec {start : m.State} {delivered : List α} (c : Capture m)
    (hc : InOrder start delivered c) : InOrder start delivered c.drain ∧
      c.drain.backlog.length < c.drain.need ∧ c.drain.deepest = c.deepest := by
  rw [drain]
  split
  next hshort => exact ⟨hc, hshort, rfl⟩
  next hready =>
    have hnext := hc.convert (Nat.le_of_not_lt hready)
    obtain ⟨horder, hshort, hdeepest⟩ := drain_spec c.convert hnext
    exact ⟨horder, hshort, hdeepest⟩
termination_by (c.backlog.length, m.patience c.resampler)
decreasing_by exact convert_shrinks ‹_›

/-- Between callbacks the backlog is short of a chunk, unless nothing was ever delivered. -/
structure Between (start : m.State) (delivered : List α) (c : Capture m) : Prop where
  inOrder : InOrder start delivered c
  short : delivered ≠ [] → c.backlog.length < c.need
  untouched : delivered = [] → c = new m start
  deepest : c.deepest ≤ capacity m

theorem Between.backlog_le {start : m.State} {delivered : List α} {c : Capture m}
    (hc : Between start delivered c) : c.backlog.length ≤ m.inputFramesMax * m.channels := by
  by_cases hnone : delivered = []
  · rw [hc.untouched hnone]
    exact Nat.zero_le _
  · have hshort := hc.short hnone
    have hmax : c.need ≤ m.inputFramesMax * m.channels :=
      Nat.mul_le_mul_right m.channels (m.next_le c.resampler)
    exact hshort.le.trans hmax

theorem Between.piece {start : m.State} (before : List α) (c : Capture m) (piece : List α)
    (hlen : piece.length ≤ maxChunkFrames * m.channels) (hsome : piece ≠ [])
    (hc : Between start before c) :
    Between start (before ++ piece) (c.extend piece).drain := by
  obtain ⟨horder, hshort, hdeepest⟩ := drain_spec _ (hc.inOrder.extend piece)
  have hboth : before ++ piece ≠ [] := List.append_ne_nil_of_right_ne_nil _ hsome
  refine ⟨horder, fun _ => hshort, fun hnil => absurd hnil hboth, ?_⟩
  have hroom : c.backlog.length + piece.length ≤ capacity m := by
    have hbacklog := hc.backlog_le
    rw [capacity, Nat.add_mul]
    omega
  rw [hdeepest]
  exact max_le hc.deepest hroom

theorem Between.capture {start : m.State} {before : List α} {c : Capture m}
    (hc : Between start before c) (samples : List α) :
    Between start (before ++ samples) (c.capture samples) := by
  have hsize : 0 < maxChunkFrames * m.channels := Nat.mul_pos (by decide) m.channels_pos
  exact slices_foldl hsize Between.piece samples before c hc

def run (m : FixedOutput α) (start : m.State) (callbacks : List (List α)) : Capture m :=
  callbacks.foldl capture (new m start)

theorem foldl_between {start : m.State} (callbacks : List (List α)) {before : List α}
    {c : Capture m} (hc : Between start before c) :
    Between start (before ++ callbacks.flatten) (callbacks.foldl capture c) := by
  induction callbacks generalizing before c with
  | nil =>
    rw [List.flatten_nil, List.append_nil]
    exact hc
  | cons samples callbacks ih =>
    rw [List.flatten_cons, ← List.append_assoc]
    exact ih (hc.capture samples)

theorem run_between (start : m.State) (callbacks : List (List α)) :
    Between start callbacks.flatten (run m start callbacks) := by
  have hnew : Between start [] (new m start) :=
    ⟨new_inOrder start, fun h => absurd rfl h, fun _ => rfl, Nat.zero_le _⟩
  have hrun := foldl_between callbacks hnew
  rw [List.nil_append] at hrun
  exact hrun

theorem heard_of_delivered {start : m.State} {delivered : List α} {c d : Capture m}
    (hc : Between start delivered c) (hd : Between start delivered d) : c.heard = d.heard := by
  by_cases hnone : delivered = []
  · rw [hc.untouched hnone, hd.untouched hnone]
  · have hcshort := hc.short hnone
    have hdshort := hd.short hnone
    have hsame := hc.inOrder.order.trans hd.inOrder.order.symm
    have hcnow := congrArg Prod.fst hc.inOrder.now
    have hdnow := congrArg Prod.fst hd.inOrder.now
    dsimp only at hcnow hdnow
    rw [need, ← hcnow] at hcshort
    rw [need, ← hdnow] at hdshort
    have hfed :=
      (FixedOutput.asked_unique hc.inOrder.asked hd.inOrder.asked hsame hcshort hdshort).1
    rw [hc.inOrder.heard, hd.inOrder.heard, hfed]

end Capture

/-- A resampler with a fixed input, which says how many frames its next chunk makes at most. One
that makes none for now does so only so many times over. -/
structure FixedInput (α : Type) where
  State : Type
  channels : ℕ
  channels_pos : 0 < channels
  outputFramesNext : State → ℕ
  outputFramesMax : ℕ
  next_le : ∀ s, outputFramesNext s ≤ outputFramesMax
  /-- One chunk into the output buffer, and the frames of it that are output. -/
  processIntoBuffer : State → List α → List α → State × List α × ℕ
  length_output : ∀ s input output, (processIntoBuffer s input output).2.1.length = output.length
  produced_le : ∀ s input output, (processIntoBuffer s input output).2.2 ≤ outputFramesNext s
  patience : State → ℕ
  patience_falls : ∀ s input output, (processIntoBuffer s input output).2.2 = 0 →
    patience (processIntoBuffer s input output).1 < patience s

namespace FixedInput

/-- The frame nearest below each instant of the output that falls inside the chunk. -/
def nearest [Zero α] (inRate outRate channels : ℕ) (hin : 0 < inRate) (hout : 0 < outRate)
    (hchannels : 0 < channels) : FixedInput α where
  State := Fin inRate
  channels
  channels_pos := hchannels
  outputFramesNext s := (s + chunkFrames * outRate) / inRate
  outputFramesMax := (inRate + chunkFrames * outRate) / inRate
  next_le s := Nat.div_le_div_right (Nat.add_le_add_right s.isLt.le _)
  processIntoBuffer s input output :=
    let frames := (s + chunkFrames * outRate) / inRate
    (⟨(s + chunkFrames * outRate) % inRate, Nat.mod_lt _ hin⟩,
      output.mapIdx fun k old =>
        if k < frames * channels then
          input.getD (((k / channels + 1) * inRate - s - 1) / outRate * channels + k % channels) 0
        else old,
      frames)
  length_output _ _ _ := List.length_mapIdx
  produced_le _ _ _ := Nat.le_refl _
  patience s := inRate - s
  patience_falls s input output hnone := by
    have hlt : s + chunkFrames * outRate < inRate :=
      (Nat.div_eq_zero_iff.mp hnone).resolve_left hin.ne'
    have hmoves : 0 < chunkFrames * outRate := Nat.mul_pos (by decide) hout
    show inRate - (s + chunkFrames * outRate) % inRate < inRate - s
    rw [Nat.mod_eq_of_lt hlt]
    omega

variable {σ : Type} [Zero α] (m : FixedInput α) (inner : σ → List α → σ × List α)

def room (s : m.State) : ℕ := m.outputFramesNext s * m.channels

/-- One chunk of silence for `inner` to fill, and the resampler on what it made of it. -/
def turn (s : σ × m.State) : (σ × m.State) × List α :=
  let pulled := inner s.1 (List.replicate (chunkFrames * m.channels) 0)
  let result := m.processIntoBuffer s.2 pulled.2 (List.replicate (m.room s.2) 0)
  ((pulled.1, result.1), result.2.1.take (result.2.2 * m.channels))

def after (s : σ × m.State) : ℕ → σ × m.State
  | 0 => s
  | n + 1 => (m.turn inner (after s n)).1

/-- The output of the first `n` chunks, back to back. -/
def output (s : σ × m.State) : ℕ → List α
  | 0 => []
  | n + 1 => output s n ++ (m.turn inner (m.after inner s n)).2

variable {m inner}

theorem turn_length_le (s : σ × m.State) : (m.turn inner s).2.length ≤ m.room s.2 := by
  refine (List.length_take_le' _ _).trans ?_
  rw [m.length_output, List.length_replicate]

theorem turn_stalls {s : σ × m.State} (h : (m.turn inner s).2 = []) :
    m.patience (m.turn inner s).1.2 < m.patience s.2 := by
  refine m.patience_falls _ _ _ ?_
  rcases List.take_eq_nil_iff.mp h with hnone | hempty
  · exact (Nat.mul_eq_zero.mp hnone).resolve_right m.channels_pos.ne'
  · have hlen := congrArg List.length hempty
    rw [m.length_output, List.length_replicate] at hlen
    have hnext := (Nat.mul_eq_zero.mp hlen).resolve_right m.channels_pos.ne'
    exact Nat.le_zero.mp ((m.produced_le _ _ _).trans hnext.le)

end FixedInput

structure Playback (σ : Type) (m : FixedInput α) where
  inner : σ
  resampler : m.State
  staging : List α
  /-- The chunks pulled from `inner` so far. -/
  pulled : ℕ
  /-- The most the staging buffer ever held. -/
  deepest : ℕ

namespace Playback
variable {σ : Type} {m : FixedInput α}

def capacity (m : FixedInput α) : ℕ := (maxChunkFrames + m.outputFramesMax) * m.channels

def new (start : σ × m.State) : Playback σ m :=
  { inner := start.1, resampler := start.2, staging := [], pulled := 0, deepest := 0 }

variable [Zero α] (inner : σ → List α → σ × List α)

/-- The staging buffer with room for a chunk, and then with what the chunk came to. -/
def stage (p : Playback σ m) : Playback σ m :=
  let turn := m.turn inner (p.inner, p.resampler)
  { inner := turn.1.1
    resampler := turn.1.2
    staging := p.staging ++ turn.2
    pulled := p.pulled + 1
    deepest := max p.deepest (p.staging.length + m.room p.resampler) }

variable {inner} in
theorem stage_shrinks {p : Playback σ m} {wanted : ℕ} (h : p.staging.length < wanted) :
    Prod.Lex (· < ·) (· < ·)
      (wanted - (p.stage inner).staging.length, m.patience (p.stage inner).resampler)
      (wanted - p.staging.length, m.patience p.resampler) := by
  have hlen : (p.stage inner).staging.length =
      p.staging.length + (m.turn inner (p.inner, p.resampler)).2.length := List.length_append
  by_cases hnone : (m.turn inner (p.inner, p.resampler)).2 = []
  · rw [hlen, hnone, List.length_nil, Nat.add_zero]
    exact .right _ (FixedInput.turn_stalls hnone)
  · have hsome := List.length_pos_of_ne_nil hnone
    rw [hlen]
    exact .left _ _ (by omega)

/-- Chunks until as much is staged as is wanted. -/
def fill (p : Playback σ m) (wanted : ℕ) : Playback σ m :=
  if p.staging.length < wanted then fill (p.stage inner) wanted else p
termination_by (wanted - p.staging.length, m.patience p.resampler)
decreasing_by exact stage_shrinks ‹_›

/-- One slice of a request out of the front of the staging buffer, behind what the request has
already. -/
def serve (p : Playback σ m × List α) (piece : List α) : Playback σ m × List α :=
  let filled := p.1.fill inner piece.length
  ({ filled with staging := filled.staging.drop piece.length },
    p.2 ++ filled.staging.take piece.length)

def playback (p : Playback σ m) (out : List α) : Playback σ m × List α :=
  (slices (maxChunkFrames * m.channels) out).foldl (serve inner) (p, [])

/-- What was served and what is staged are the output of the chunks pulled so far. -/
structure InOrder (start : σ × m.State) (served : List α) (p : Playback σ m) : Prop where
  now : m.after inner start p.pulled = (p.inner, p.resampler)
  order : served ++ p.staging = m.output inner start p.pulled

variable {inner} {start : σ × m.State} {served : List α}

theorem InOrder.stage {p : Playback σ m} (hp : InOrder inner start served p) :
    InOrder inner start served (p.stage inner) where
  now := by
    change (m.turn inner (m.after inner start p.pulled)).1 = _
    rw [hp.now]
    rfl
  order := by
    change served ++ (p.staging ++ _) =
      m.output inner start p.pulled ++ (m.turn inner (m.after inner start p.pulled)).2
    rw [hp.now, ← List.append_assoc, hp.order]

/-- A filled buffer holds what is wanted, and no more than a chunk beyond it unless it did before. -/
theorem fill_spec {wanted : ℕ} (p : Playback σ m) (hp : InOrder inner start served p)
    (hroom : p.staging.length ≤ wanted + m.outputFramesMax * m.channels) :
    InOrder inner start served (p.fill inner wanted) ∧
      wanted ≤ (p.fill inner wanted).staging.length ∧
      (p.fill inner wanted).staging.length ≤ wanted + m.outputFramesMax * m.channels ∧
      (p.fill inner wanted).deepest ≤
        max p.deepest (wanted + m.outputFramesMax * m.channels) := by
  rw [fill]
  split
  next hshort =>
    have hmax : m.room p.resampler ≤ m.outputFramesMax * m.channels :=
      Nat.mul_le_mul_right m.channels (m.next_le p.resampler)
    have hgrown : (p.stage inner).staging.length ≤ wanted + m.outputFramesMax * m.channels := by
      have hlen : (p.stage inner).staging.length =
          p.staging.length + (m.turn inner (p.inner, p.resampler)).2.length := List.length_append
      have hturn : (m.turn inner (p.inner, p.resampler)).2.length ≤ m.room p.resampler :=
        FixedInput.turn_length_le _
      rw [hlen]
      exact Nat.add_le_add hshort.le (hturn.trans hmax)
    obtain ⟨horder, henough, hleft, hdeepest⟩ := fill_spec (p.stage inner) hp.stage hgrown
    refine ⟨horder, henough, hleft, hdeepest.trans ?_⟩
    have hheld : p.staging.length + m.room p.resampler ≤
        wanted + m.outputFramesMax * m.channels := Nat.add_le_add hshort.le hmax
    exact max_le (max_le (le_max_left _ _) (hheld.trans (le_max_right _ _))) (le_max_right _ _)
  next henough =>
    exact ⟨hp, Nat.le_of_not_lt henough, hroom, le_max_left _ _⟩
termination_by (wanted - p.staging.length, m.patience p.resampler)
decreasing_by exact stage_shrinks ‹_›

variable (inner) in
/-- Between requests at most one chunk's output is staged, and the buffer never outgrew its start. -/
structure Between (start : σ × m.State) (served : List α) (p : Playback σ m) : Prop where
  inOrder : InOrder inner start served p
  staged : p.staging.length ≤ m.outputFramesMax * m.channels
  deepest : p.deepest ≤ capacity m

theorem Between.serve {p : Playback σ m} {done : List α}
    (hp : Between inner start (served ++ done) p) {piece : List α}
    (hlen : piece.length ≤ maxChunkFrames * m.channels) :
    Between inner start (served ++ (Playback.serve inner (p, done) piece).2)
        (Playback.serve inner (p, done) piece).1 ∧
      (Playback.serve inner (p, done) piece).2.length = done.length + piece.length := by
  have hroom : p.staging.length ≤ piece.length + m.outputFramesMax * m.channels :=
    hp.staged.trans (Nat.le_add_left _ _)
  obtain ⟨horder, henough, hleft, hdeepest⟩ := fill_spec p hp.inOrder hroom
  refine ⟨⟨⟨horder.now, ?_⟩, ?_, ?_⟩, ?_⟩
  · change (served ++ (done ++ (p.fill inner piece.length).staging.take piece.length)) ++
      (p.fill inner piece.length).staging.drop piece.length =
        m.output inner start (p.fill inner piece.length).pulled
    rw [← horder.order]
    simp only [List.append_assoc, List.take_append_drop]
  · change ((p.fill inner piece.length).staging.drop piece.length).length ≤ _
    rw [List.length_drop]
    omega
  · have hcapacity : piece.length + m.outputFramesMax * m.channels ≤ capacity m := by
      rw [capacity, Nat.add_mul]
      exact Nat.add_le_add_right hlen _
    exact hdeepest.trans (max_le hp.deepest hcapacity)
  · change (done ++ (p.fill inner piece.length).staging.take piece.length).length = _
    rw [List.length_append, List.length_take_of_le henough]

theorem Between.playback {p : Playback σ m} (hp : Between inner start served p) (out : List α) :
    Between inner start (served ++ (p.playback inner out).2) (p.playback inner out).1 ∧
      (p.playback inner out).2.length = out.length := by
  have hsize : 0 < maxChunkFrames * m.channels := Nat.mul_pos (by decide) m.channels_pos
  have hstart : Between inner start (served ++ []) p := by
    rw [List.append_nil]
    exact hp
  have hpiece : ∀ (before : List α) (q : Playback σ m × List α) (piece : List α),
      piece.length ≤ maxChunkFrames * m.channels → piece ≠ [] →
      Between inner start (served ++ q.2) q.1 ∧ q.2.length = before.length →
      Between inner start (served ++ (Playback.serve inner q piece).2)
          (Playback.serve inner q piece).1 ∧
        (Playback.serve inner q piece).2.length = (before ++ piece).length := by
    intro before q piece hlen _ hq
    obtain ⟨hnext, hgrown⟩ := hq.1.serve hlen
    refine ⟨hnext, hgrown.trans ?_⟩
    rw [List.length_append, hq.2]
  exact slices_foldl (P := fun before (q : Playback σ m × List α) =>
    Between inner start (served ++ q.2) q.1 ∧ q.2.length = before.length) hsize hpiece out []
    (p, []) ⟨hstart, rfl⟩

variable (inner) in
def run (start : σ × m.State) (requests : List (List α)) : Playback σ m × List (List α) :=
  requests.foldl
    (fun r out => ((r.1.playback inner out).1, r.2 ++ [(r.1.playback inner out).2])) (new start, [])

theorem foldl_between (requests : List (List α)) {p : Playback σ m} {before : List (List α)}
    (hp : Between inner start before.flatten p) (r : Playback σ m × List (List α))
    (hr : r = requests.foldl (fun r out =>
      ((r.1.playback inner out).1, r.2 ++ [(r.1.playback inner out).2])) (p, before)) :
    Between inner start r.2.flatten r.1 ∧
      r.2.map List.length = before.map List.length ++ requests.map List.length := by
  induction requests generalizing p before with
  | nil =>
    subst hr
    exact ⟨hp, (List.append_nil _).symm⟩
  | cons out requests ih =>
    obtain ⟨hnext, hlen⟩ := hp.playback out
    have hflat : (before ++ [(p.playback inner out).2]).flatten =
        before.flatten ++ (p.playback inner out).2 := by
      rw [List.flatten_append, List.flatten_singleton]
    rw [← hflat] at hnext
    obtain ⟨hbetween, hlengths⟩ := ih hnext hr
    refine ⟨hbetween, hlengths.trans ?_⟩
    rw [List.map_append, List.append_assoc, List.map_singleton, hlen]
    rfl

theorem run_between (start : σ × m.State) (requests : List (List α)) :
    Between inner start (run inner start requests).2.flatten (run inner start requests).1 ∧
      (run inner start requests).2.map List.length = requests.map List.length := by
  have hnew : Between inner start ([] : List (List α)).flatten (new start) :=
    ⟨⟨rfl, rfl⟩, Nat.zero_le _, Nat.zero_le _⟩
  exact foldl_between requests hnew _ rfl

theorem output_mono {n k : ℕ} (h : n ≤ k) :
    m.output inner start n <+: m.output inner start k := by
  induction k, h using Nat.le_induction with
  | base => exact List.prefix_rfl
  | succ k _ ih => exact ih.trans (List.prefix_append _ _)

theorem served_of_length {other : List α} {p q : Playback σ m}
    (hp : Between inner start served p) (hq : Between inner start other q)
    (hlen : served.length = other.length) : served = other := by
  have hserved : served <+: m.output inner start p.pulled := ⟨p.staging, hp.inOrder.order⟩
  have hother : other <+: m.output inner start q.pulled := ⟨q.staging, hq.inOrder.order⟩
  have hone := hserved.trans (output_mono (Nat.le_max_left p.pulled q.pulled))
  have htwo := hother.trans (output_mono (Nat.le_max_right p.pulled q.pulled))
  exact (List.prefix_of_prefix_length_le hone htwo hlen.le).eq_of_length hlen

end Playback

/-- However the device cuts its callbacks, `inner` hears the chunks of all that was delivered and
the device the output of all that was pulled, out of buffers that never outgrow their start. -/
theorem conversion_ignores_callbacks {σ : Type} [Zero α] (i : FixedOutput α) (start : i.State)
    (o : FixedInput α) (inner : σ → List α → σ × List α) (source : σ × o.State) :
    (∀ callbacks, Capture.Between start callbacks.flatten (Capture.run i start callbacks)) ∧
    (∀ callbacks others : List (List α), callbacks.flatten = others.flatten →
      (Capture.run i start callbacks).heard = (Capture.run i start others).heard) ∧
    (∀ requests, Playback.Between inner source (Playback.run inner source requests).2.flatten
        (Playback.run inner source requests).1 ∧
      (Playback.run inner source requests).2.map List.length = requests.map List.length) ∧
    ∀ requests others : List (List α), requests.flatten.length = others.flatten.length →
      (Playback.run inner source requests).2.flatten =
        (Playback.run inner source others).2.flatten := by
  refine ⟨Capture.run_between start, fun callbacks others hsame => ?_,
    Playback.run_between source, fun requests others hsame => ?_⟩
  · have hothers := Capture.run_between start others
    rw [← hsame] at hothers
    exact Capture.heard_of_delivered (Capture.run_between start callbacks) hothers
  · obtain ⟨hone, hlengths⟩ := Playback.run_between source requests
    obtain ⟨htwo, hmore⟩ := Playback.run_between source others
    refine Playback.served_of_length hone htwo ?_
    rw [List.length_flatten, hlengths, List.length_flatten, hmore, ← List.length_flatten,
      ← List.length_flatten]
    exact hsame

def counting (n : ℤ) (buffer : List ℤ) : ℤ × List ℤ :=
  (n + buffer.length, buffer.mapIdx fun k _ => n + k)

/-- Ten milliseconds of a device at 44.1 kHz, all in one callback and a frame at a time. -/
theorem conversion_ignores_callbacks_441 :
    let ramp := (List.range 441).map fun n : ℕ => (n : ℤ)
    let frames := ramp.map fun sample => [sample]
    let i := FixedOutput.nearest 441 480 1 (by decide) (by decide) (by decide)
    let o := FixedInput.nearest 480 441 1 (by decide) (by decide) (by decide)
    let source : ℤ × o.State := (0, (⟨0, by decide⟩ : Fin 480))
    (Capture.run i (0, [0]) frames).heard = (Capture.run i (0, [0]) [ramp]).heard ∧
    330 ≤ (Capture.run i (0, [0]) frames).fed.flatten.length ∧
    (Playback.run counting source frames).2.flatten =
      (Playback.run counting source [ramp]).2.flatten ∧
    (Playback.run counting source frames).2.flatten.length = 441 := by
  intro ramp frames i o source
  have hflat : frames.flatten = ramp := List.flatMap_singleton' ramp
  have hone : frames.flatten = [ramp].flatten := by
    rw [hflat, List.flatten_singleton]
  have hramp : ramp.length = 441 := by
    rw [List.length_map, List.length_range]
  obtain ⟨hbetween, hheard, hserved, hsame⟩ :=
    conversion_ignores_callbacks i (0, [0]) o counting source
  refine ⟨hheard _ _ hone, ?_, hsame _ _ (congrArg List.length hone), ?_⟩
  · have horder := congrArg List.length (hbetween frames).inOrder.order
    have hheld := (hbetween frames).backlog_le
    have hmost : i.inputFramesMax * i.channels = 111 := by decide
    rw [hflat, List.length_append, hramp] at horder
    omega
  · rw [List.length_flatten, (hserved frames).2, ← List.length_flatten, hflat, hramp]

end JamStream.AudioIo
