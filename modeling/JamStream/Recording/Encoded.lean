import JamStream.Foundations.Blocks
import JamStream.Recording.Recorder

/-! What an encoder has made of the samples it was fed: it depends on the samples alone, not
on how they were split, and an encoder resumed behind a silent head is one that was fed the
silence. -/

namespace JamStream.Recording
open Protocol Engine Foundations Blocks
variable {X : Encoding}

/-- Frames as the encoder takes them, one channel after the other. -/
def samples (X : Encoding) (pcm : Stereo X.toAudio) : List ℤ :=
  pcm.flatMap fun s => [X.toI16 s.1, X.toI16 s.2]

def FlacEncoder.pushAll (X : Encoding) :
    List (Stereo X.toAudio) → FlacEncoder → FlacEncoder × Except String Bytes
  | [], enc => (enc, .ok [])
  | pcm :: rest, enc =>
    match enc.push X pcm with
    | (enc, .error e) => (enc, .error e)
    | (enc, .ok out) =>
      let r := pushAll X rest enc
      (r.1, r.2.map fun more => out ++ more)

/-- What the encoder library is relied on for: silence stays silence, and a frame has a
header. -/
structure Encoding.Sound (X : Encoding) : Prop where
  silent : X.toI16 X.zero = 0
  framed : ∀ n block frame, X.encodeBlock n block = .ok frame → frame ≠ []

def frames (X : Encoding) (n : ℕ) (xs : List ℤ) : Except String Bytes :=
  coded blockInterleaved X.encodeBlock n xs

/-- An encoder on its way through the samples, some blocks of which are out. -/
structure Taken (X : Encoding) (xs : List ℤ) (enc : FlacEncoder) (out : Bytes) : Prop where
  pending : enc.pending = xs.drop (enc.frames * blockInterleaved)
  reached : enc.frames * blockInterleaved ≤ xs.length
  coded : frames X enc.frames xs = .ok out

structure Fed (X : Encoding) (xs : List ℤ) (enc : FlacEncoder) (out : Bytes) : Prop
    extends Taken X xs enc out where
  short : enc.pending.length < blockInterleaved

variable {xs ys : List ℤ} {enc enc' : FlacEncoder} {out out' more : Bytes}

theorem Taken.length (h : Taken X xs enc out) :
    enc.frames * blockInterleaved + enc.pending.length = xs.length := by
  have hreached := h.reached
  rw [h.pending, List.length_drop]
  omega

theorem Fed.frames_eq (h : Fed X xs enc out) : enc.frames = xs.length / blockInterleaved := by
  have hlength := h.length
  have hshort := h.short
  refine (Nat.div_eq_of_lt_le ?_ ?_).symm
  · omega
  · rw [Nat.succ_mul]
    omega

theorem Fed.unique (h : Fed X xs enc out) (h' : Fed X xs enc' out') : enc = enc' ∧ out = out' := by
  have hframes : enc.frames = enc'.frames := h.frames_eq.trans h'.frames_eq.symm
  have hpending : enc.pending = enc'.pending := by rw [h.pending, h'.pending, hframes]
  have hcoded := h.coded
  rw [hframes, h'.coded] at hcoded
  obtain ⟨pending, count⟩ := enc
  obtain ⟨pending', count'⟩ := enc'
  exact ⟨by rw [show pending = pending' from hpending, show count = count' from hframes],
    (Except.ok.inj hcoded).symm⟩

theorem fed_new : Fed X [] .new [] := ⟨⟨rfl, Nat.le_refl _, rfl⟩, by decide⟩

theorem Taken.grow (h : Taken X xs enc out) (ys : List ℤ) :
    Taken X (xs ++ ys) { enc with pending := enc.pending ++ ys } out where
  pending := by
    rw [List.drop_append_of_le_length h.reached, ← h.pending]
  reached := by
    have hreached := h.reached
    rw [List.length_append]
    exact hreached.trans (Nat.le_add_right _ _)
  coded := (coded_append h.reached ys).trans h.coded

theorem Taken.block (h : Taken X xs enc out) (hfull : blockInterleaved ≤ enc.pending.length)
    {frame : Bytes}
    (hframe : X.encodeBlock enc.frames (enc.pending.take blockInterleaved) = .ok frame) :
    Taken X xs { pending := enc.pending.drop blockInterleaved, frames := enc.frames + 1 }
      (out ++ frame) := by
  have hlength := h.length
  refine ⟨?_, ?_, coded_ok h.coded ?_⟩
  · rw [h.pending, List.drop_drop, Nat.succ_mul]
  · rw [Nat.succ_mul]
    omega
  · rwa [← h.pending]

theorem Taken.encodeBlocks {n : ℕ} (h : Taken X xs enc out) (hn : enc.pending.length ≤ n) :
    match FlacEncoder.encodeBlocks X n enc with
    | (enc', .ok more) => Fed X xs enc' (out ++ more)
    | (_, .error e) => frames X (xs.length / blockInterleaved) xs = .error e := by
  induction n generalizing enc out with
  | zero =>
    rw [FlacEncoder.encodeBlocks]
    simp only
    rw [List.append_nil]
    exact ⟨h, hn.trans_lt (by decide)⟩
  | succ n ih =>
    rw [FlacEncoder.encodeBlocks]
    split_ifs with hfull
    · cases hframe : X.encodeBlock enc.frames (enc.pending.take blockInterleaved) with
      | error e =>
        simp only
        refine coded_error_mono (coded_error h.coded ?_) ?_
        · rwa [← h.pending]
        · have hlength := h.length
          rw [Nat.le_div_iff_mul_le (by decide), Nat.succ_mul]
          omega
      | ok frame =>
        have hrest : (enc.pending.drop blockInterleaved).length ≤ n := by
          rw [List.length_drop]
          have hpos : 0 < blockInterleaved := by decide
          omega
        have hlater := ih (h.block hfull hframe) hrest
        simp only
        split at hlater
        · rename_i more heq
          rw [heq]
          rw [List.append_assoc] at hlater
          exact hlater
        · rename_i heq
          rw [heq]
          exact hlater
    · simp only
      rw [List.append_nil]
      exact ⟨h, not_le.mp hfull⟩

theorem Fed.push_spec (h : Fed X xs enc out) (pcm : Stereo X.toAudio) :
    match enc.push X pcm with
    | (enc', .ok more) => Fed X (xs ++ samples X pcm) enc' (out ++ more)
    | (_, .error e) => frames X ((xs ++ samples X pcm).length / blockInterleaved)
        (xs ++ samples X pcm) = .error e :=
  (h.toTaken.grow (samples X pcm)).encodeBlocks (le_refl _)

theorem Fed.push (h : Fed X xs enc out) {pcm : Stereo X.toAudio}
    (hpush : enc.push X pcm = (enc', .ok more)) :
    Fed X (xs ++ samples X pcm) enc' (out ++ more) := by
  have hspec := h.push_spec pcm
  rwa [hpush] at hspec

theorem Fed.pushAll (h : Fed X xs enc out) (pushes : List (Stereo X.toAudio)) {enc' : FlacEncoder}
    {all : Bytes} (hall : Fed X (xs ++ pushes.flatMap (samples X)) enc' all) :
    ∃ more, enc.pushAll X pushes = (enc', .ok more) ∧ out ++ more = all := by
  induction pushes generalizing xs enc out with
  | nil =>
    rw [List.flatMap_nil, List.append_nil] at hall
    obtain ⟨rfl, rfl⟩ := h.unique hall
    exact ⟨[], rfl, List.append_nil _⟩
  | cons pcm rest ih =>
    rw [List.flatMap_cons, ← List.append_assoc] at hall
    have hspec := h.push_spec pcm
    rw [FlacEncoder.pushAll]
    rcases hpush : enc.push X pcm with ⟨enc₁, result⟩
    rw [hpush] at hspec
    cases result with
    | error e =>
      -- the block that failed is one of those that came out whole
      have hle : (xs ++ samples X pcm).length / blockInterleaved ≤ enc'.frames := by
        rw [hall.frames_eq]
        refine Nat.div_le_div_right ?_
        exact (List.prefix_append _ _).length_le
      have hcut : frames X ((xs ++ samples X pcm).length / blockInterleaved)
          (xs ++ samples X pcm ++ rest.flatMap (samples X)) =
          frames X ((xs ++ samples X pcm).length / blockInterleaved) (xs ++ samples X pcm) :=
        coded_append (Nat.div_mul_le_self _ blockInterleaved) (rest.flatMap (samples X))
      have hfails := coded_error_mono (hcut.trans hspec) hle
      exact absurd (hfails.symm.trans hall.coded) (by simp)
    | ok more =>
      obtain ⟨later, hrest, hout⟩ := ih hspec hall
      refine ⟨more ++ later, ?_, ?_⟩
      · simp only
        rw [hrest]
        rfl
      · rw [← List.append_assoc]
        exact hout

def silent (n : ℕ) : List ℤ := List.replicate n 0

theorem samples_silence (hX : X.Sound) (n : ℕ) :
    samples X (silence X.toAudio n) = silent (n * channels) := by
  induction n with
  | zero => rfl
  | succ n ih =>
    rw [silence, List.replicate_succ, samples, List.flatMap_cons]
    rw [silence, samples] at ih
    rw [ih, silent, silent, hX.silent, Nat.succ_mul, Nat.add_comm, List.replicate_add]
    rfl

theorem samples_silentTick (hX : X.Sound) : samples X (silentTick X) = silent tickStereoSamples :=
  samples_silence hX _

theorem silent_append (m n : ℕ) : silent m ++ silent n = silent (m + n) :=
  List.replicate_append_replicate

theorem Fed.resumeSilent {n : ℕ} (h : Fed X (silent n) enc out) :
    Fed X (silent n)
      (.resumeSilent (n / blockInterleaved) (n % blockInterleaved)) out := by
  have hframes := h.frames_eq
  have hpending := h.pending
  rw [silent, List.length_replicate] at hframes
  rw [silent, List.drop_replicate, hframes] at hpending
  have hmod : n - n / blockInterleaved * blockInterleaved = n % blockInterleaved := by
    have hdiv := Nat.div_add_mod' n blockInterleaved
    omega
  rw [hmod] at hpending
  have heq : enc = .resumeSilent (n / blockInterleaved) (n % blockInterleaved) := by
    obtain ⟨pending, count⟩ := enc
    simp only [FlacEncoder.resumeSilent]
    rw [show pending = _ from hpending, show count = _ from hframes]
  exact heq ▸ h

structure Grown (X : Encoding) (h : SilentHead) (ticks : ℕ) : Prop where
  fed : Fed X (silent (ticks * tickStereoSamples)) h.enc h.bytes
  count : h.frameEnds.length = h.enc.frames
  last : h.enc.frames ≠ 0 → h.frameEnds.getLast? = some h.bytes.length

theorem grown_new : Grown X .new 0 := ⟨by rw [Nat.zero_mul]; exact fed_new, rfl, fun h => absurd rfl h⟩

theorem encodeBlocks_short {n : ℕ} (h : enc.pending.length < blockInterleaved) :
    FlacEncoder.encodeBlocks X n enc = (enc, .ok []) := by
  cases n with
  | zero => rfl
  | succ n => rw [FlacEncoder.encodeBlocks, if_neg (not_le.mpr h)]

theorem Fed.push_tick (hX : X.Sound) (h : Fed X xs enc out) {pcm : Stereo X.toAudio}
    (hpcm : (samples X pcm).length = tickStereoSamples)
    (hpush : enc.push X pcm = (enc', .ok more)) :
    more = [] ∧ enc'.frames = enc.frames ∨ more ≠ [] ∧ enc'.frames = enc.frames + 1 := by
  have hshort := h.short
  have hblock : tickStereoSamples ≤ blockInterleaved := by decide
  have hlength : (enc.pending ++ samples X pcm).length < blockInterleaved + blockInterleaved := by
    rw [List.length_append, hpcm]
    omega
  change FlacEncoder.encodeBlocks X (enc.pending ++ samples X pcm).length
    { enc with pending := enc.pending ++ samples X pcm } = _ at hpush
  by_cases hfull : blockInterleaved ≤ (enc.pending ++ samples X pcm).length
  · obtain ⟨n, hn⟩ : ∃ n, (enc.pending ++ samples X pcm).length = n + 1 :=
      Nat.exists_eq_succ_of_ne_zero (Nat.pos_iff_ne_zero.mp (Nat.lt_of_lt_of_le (by decide) hfull))
    rw [hn, FlacEncoder.encodeBlocks, if_pos hfull] at hpush
    simp only at hpush
    cases hframe : X.encodeBlock enc.frames
        ((enc.pending ++ samples X pcm).take blockInterleaved) with
    | error e =>
      rw [hframe] at hpush
      exact absurd (congrArg Prod.snd hpush) (by simp)
    | ok frame =>
      rw [hframe] at hpush
      have hrest : ((enc.pending ++ samples X pcm).drop blockInterleaved).length <
          blockInterleaved := by
        rw [List.length_drop]
        omega
      simp only at hpush
      rw [encodeBlocks_short hrest] at hpush
      obtain ⟨rfl, hmore⟩ := Prod.mk.inj hpush
      have hmore : frame ++ [] = more := Except.ok.inj hmore
      rw [List.append_nil] at hmore
      exact .inr ⟨hmore ▸ hX.framed _ _ _ hframe, rfl⟩
  · rw [encodeBlocks_short (not_le.mp hfull)] at hpush
    obtain ⟨rfl, hmore⟩ := Prod.mk.inj hpush
    exact .inl ⟨(Except.ok.inj hmore).symm, rfl⟩

theorem Grown.advance (hX : X.Sound) {h : SilentHead} {ticks : ℕ} (hgrown : Grown X h ticks)
    {h' : SilentHead} (hadvance : h.advance X = (h', .ok ())) : Grown X h' (ticks + 1) := by
  have hsilent : silent (ticks * tickStereoSamples) ++ samples X (silentTick X) =
      silent ((ticks + 1) * tickStereoSamples) := by
    rw [samples_silentTick hX, silent_append, Nat.succ_mul]
  have hlength : (samples X (silentTick X)).length = tickStereoSamples := by
    rw [samples_silentTick hX, silent, List.length_replicate]
  unfold SilentHead.advance at hadvance
  rcases hpush : h.enc.push X (silentTick X) with ⟨enc, result⟩
  rw [hpush] at hadvance
  cases result with
  | error e => exact absurd (congrArg Prod.snd hadvance) (by simp)
  | ok frame =>
    have hfed := hgrown.fed.push hpush
    rw [hsilent] at hfed
    rcases hgrown.fed.push_tick hX hlength hpush with ⟨rfl, hframes⟩ | ⟨hne, hframes⟩
    · obtain rfl := (Prod.mk.inj hadvance).1
      rw [List.append_nil] at hfed
      refine ⟨hfed, hgrown.count.trans hframes.symm, fun hne => hgrown.last ?_⟩
      rwa [← hframes]
    · cases frame with
      | nil => exact absurd rfl hne
      | cons b bs =>
        obtain rfl := (Prod.mk.inj hadvance).1
        refine ⟨hfed, ?_, fun _ => ?_⟩
        · rw [List.length_append, hgrown.count, hframes]
          rfl
        · rw [List.getLast?_concat, List.length_append]

theorem Grown.split {h : SilentHead} {ticks : ℕ} (hgrown : Grown X h ticks) :
    h.split ticks = some (h.bytes, ticks * tickStereoSamples / blockInterleaved,
      ticks * tickStereoSamples % blockInterleaved) := by
  have hframes := hgrown.fed.frames_eq
  rw [silent, List.length_replicate] at hframes
  unfold SilentHead.split
  simp only
  rw [← hframes]
  split_ifs with hzero
  · have hcoded := hgrown.fed.coded
    rw [hzero] at hcoded
    have hnil : h.bytes = [] := (Except.ok.inj hcoded).symm
    rw [Option.map_some, hnil]
    rfl
  · have hlast := hgrown.last hzero
    rw [List.getLast?_eq_getElem?, hgrown.count] at hlast
    rw [hlast, Option.map_some, List.take_length]

end JamStream.Recording
