import JamStream.Engine.Engine

/-! The click on the absolute sample clock: which beat a sample falls in, and where that beat
began. -/

namespace JamStream.Engine

def clickSamples : ℕ := 192

def samplesPerMinute : ℕ := 60 * 48000

namespace Metronome

def beat (m : Metronome) (sample : UInt64) : ℕ :=
  sample.toNat * m.bpm.toNat / samplesPerMinute

def start (m : Metronome) (beat : ℕ) : ℕ := (beat * samplesPerMinute) ⌈/⌉ m.bpm.toNat

/-- How far into its beat a sample is, and whether the beat is accented; nothing past the click. -/
def clickAt (m : Metronome) (sample : UInt64) : Option (ℕ × Bool) :=
  let offset := sample.toNat - m.start (m.beat sample)
  if clickSamples ≤ offset then none
  else some (offset, decide (m.beat sample % (max m.beatsPerBar 1).toNat = 0))

def render {Sample : Type} (m : Metronome) (zero : Sample) (shape : ℕ × Bool → Sample)
    (sampleClock : UInt64) (frames : ℕ) : List Sample :=
  if m.bpm = 0 then List.replicate frames zero
  else (List.range frames).map fun i =>
    ((m.clickAt (sampleClock + .ofNat i)).map shape).getD zero

theorem within_128_bits (m : Metronome) (hbpm : 0 < m.bpm) (sample : UInt64) :
    sample.toNat * m.bpm.toNat < 2 ^ 128 ∧ m.beat sample * samplesPerMinute < 2 ^ 128 := by
  have hsample : sample.toNat < 2 ^ 64 := sample.toNat_lt
  have htempo : m.bpm.toNat < 2 ^ 16 := m.bpm.toNat_lt
  have hpos : 0 < m.bpm.toNat := UInt16.lt_iff_toNat_lt.mp hbpm
  have hproduct : sample.toNat * m.bpm.toNat < 2 ^ 64 * 2 ^ 16 :=
    Nat.mul_lt_mul'' hsample htempo
  have hfloor : m.beat sample * samplesPerMinute ≤ sample.toNat * m.bpm.toNat :=
    Nat.div_mul_le_self _ _
  have hwide : 2 ^ 64 * 2 ^ 16 < 2 ^ 128 := by decide
  exact ⟨hproduct.trans hwide, hfloor.trans_lt (hproduct.trans hwide)⟩

section Grid
variable {m : Metronome} (hbpm : 0 < m.bpm)
include hbpm

theorem bpm_pos : 0 < m.bpm.toNat := UInt16.lt_iff_toNat_lt.mp hbpm

theorem start_le_iff (beat sample : ℕ) :
    m.start beat ≤ sample ↔ beat * samplesPerMinute ≤ sample * m.bpm.toNat := by
  rw [start, ceilDiv_le_iff_le_smul (bpm_pos hbpm), smul_eq_mul, Nat.mul_comm m.bpm.toNat]

theorem le_beat_iff (beat : ℕ) (sample : UInt64) :
    beat ≤ m.beat sample ↔ m.start beat ≤ sample.toNat := by
  have hspm : 0 < samplesPerMinute := by decide
  rw [start_le_iff hbpm, Metronome.beat, Nat.le_div_iff_mul_le hspm]

theorem start_beat_le (sample : UInt64) : m.start (m.beat sample) ≤ sample.toNat :=
  (le_beat_iff hbpm _ sample).mp le_rfl

theorem beat_eq_iff (beat : ℕ) (sample : UInt64) :
    m.beat sample = beat ↔ m.start beat ≤ sample.toNat ∧ sample.toNat < m.start (beat + 1) := by
  have hlow := le_beat_iff hbpm beat sample
  have hhigh := le_beat_iff hbpm (beat + 1) sample
  rw [← hlow, ← Nat.not_le, ← hhigh]
  omega

theorem start_exact (beat : ℕ) : beat * samplesPerMinute ≤ m.start beat * m.bpm.toNat ∧
    m.start beat * m.bpm.toNat < beat * samplesPerMinute + m.bpm.toNat := by
  have hpos := bpm_pos hbpm
  refine ⟨(start_le_iff hbpm beat _).mp le_rfl, ?_⟩
  rcases Nat.eq_zero_or_pos (m.start beat) with hzero | hstart
  · rw [hzero, Nat.zero_mul]
    exact Nat.lt_add_left _ hpos
  · have hbefore : ¬m.start beat ≤ m.start beat - 1 :=
      Nat.not_le_of_lt (Nat.sub_lt hstart Nat.one_pos)
    rw [start_le_iff hbpm, Nat.not_le, Nat.sub_mul, Nat.one_mul] at hbefore
    omega

theorem start_lt_start (beat : ℕ) : m.start beat < m.start (beat + 1) := by
  have htempo : m.bpm.toNat < 2 ^ 16 := m.bpm.toNat_lt
  have hnow := (start_exact hbpm beat).2
  have hnext := (start_exact hbpm (beat + 1)).1
  have hlong : m.bpm.toNat < samplesPerMinute := htempo.trans (by decide)
  have hgrow : m.start beat * m.bpm.toNat < m.start (beat + 1) * m.bpm.toNat := by
    rw [Nat.add_mul, Nat.one_mul] at hnext
    omega
  exact Nat.lt_of_mul_lt_mul_right hgrow

end Grid

structure ExactGrid (m : Metronome) : Prop where
  starts_before : ∀ sample, m.start (m.beat sample) ≤ sample.toNat
  covers : ∀ (beat : ℕ) (sample : UInt64), m.beat sample = beat ↔
    (beat * samplesPerMinute) ⌈/⌉ m.bpm.toNat ≤ sample.toNat ∧
      sample.toNat < ((beat + 1) * samplesPerMinute) ⌈/⌉ m.bpm.toNat
  first : m.start 0 = 0
  tiles : ∀ beat, m.start beat < m.start (beat + 1)
  exact : ∀ beat, beat * samplesPerMinute ≤ m.start beat * m.bpm.toNat ∧
    m.start beat * m.bpm.toNat < beat * samplesPerMinute + m.bpm.toNat

theorem metronome_exact {m : Metronome} (hbpm : 1 ≤ m.bpm) : ExactGrid m where
  starts_before := start_beat_le hbpm
  covers := beat_eq_iff hbpm
  first := by
    rw [start, Nat.zero_mul]
    exact zero_ceilDiv _
  tiles := start_lt_start hbpm
  exact := start_exact hbpm

theorem metronome_exact_133 : 1 ≤ (⟨133, 4⟩ : Metronome).bpm ∧ ExactGrid ⟨133, 4⟩ :=
  ⟨by decide, metronome_exact (m := ⟨133, 4⟩) (by decide)⟩

end Metronome
end JamStream.Engine
