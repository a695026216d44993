import JamStream.Foundations.Ring
import JamStream.Foundations.Runs

/-! The two rings between a device and the engine. A render callback measures what is banked for
it and then drains it, and the engine may feed the ring between the two. -/

namespace JamStream.AudioIo
open Foundations Runs

structure CallbackBridge (α : Type) (captureCapacity playoutCapacity : ℕ) where
  capture : Ring α captureCapacity
  playout : Ring α playoutCapacity
  underruns : ℕ
  overruns : ℕ
  /-- The least fill that a callback has found since the figure was last taken. -/
  playoutLowWater : Option ℕ

namespace CallbackBridge
variable {α : Type} {captureCapacity playoutCapacity : ℕ}

def new : CallbackBridge α captureCapacity playoutCapacity :=
  { capture := .empty, playout := .empty, underruns := 0, overruns := 0, playoutLowWater := none }

variable (b : CallbackBridge α captureCapacity playoutCapacity)

/-- A full ring drops the tail, and each callback that loses one is counted. -/
def pushCapture (samples : List α) : CallbackBridge α captureCapacity playoutCapacity :=
  { b with
    capture := b.capture.push samples
    overruns := if samples.length ≤ b.capture.free then b.overruns else b.overruns + 1 }

def lowered (low : Option ℕ) (fill : ℕ) : ℕ := low.elim fill fun low => min low fill

/-- The first half of a render callback: the fill before the drain. -/
def measure : CallbackBridge α captureCapacity playoutCapacity :=
  { b with playoutLowWater := some (lowered b.playoutLowWater b.playout.items.length) }

/-- The second: what is there, and silence for the rest. -/
def drain (silence : α) (n : ℕ) : CallbackBridge α captureCapacity playoutCapacity × List α :=
  let got := b.playout.items.take n
  ({ b with
      playout := b.playout.pop n
      underruns := if got.length = n then b.underruns else b.underruns + 1 },
    got ++ List.replicate (n - got.length) silence)

def pullCaptured (n : ℕ) : CallbackBridge α captureCapacity playoutCapacity × List α :=
  ({ b with capture := b.capture.pop n }, b.capture.items.take n)

def pushPlayout (samples : List α) : CallbackBridge α captureCapacity playoutCapacity × ℕ :=
  ({ b with playout := b.playout.push samples }, (samples.take b.playout.free).length)

def playoutDepth : ℕ := playoutCapacity - b.playout.free

theorem playoutDepth_eq : b.playoutDepth = b.playout.items.length := by
  have hbounded := b.playout.bounded
  rw [playoutDepth, Ring.free]
  omega

def takePlayoutLowWater : CallbackBridge α captureCapacity playoutCapacity × Option ℕ :=
  ({ b with playoutLowWater := none }, b.playoutLowWater)

end CallbackBridge

/-- A render callback that is over: what it asked for, what it found banked, how much of that it
got, and what it gave to the device. -/
structure Rendered (α : Type) where
  asked : ℕ
  found : ℕ
  got : List α
  out : List α

structure Rendered.Right (silence : α) (c : Rendered α) : Prop where
  out : c.out = c.got ++ List.replicate (c.asked - c.got.length) silence
  most : c.got.length ≤ c.asked
  found : min c.asked c.found ≤ c.got.length

def Rendered.dry (c : Rendered α) : Bool := c.got.length < c.asked

/-- A capture callback: what the device brought, and what of it went in. -/
structure Captured (α : Type) where
  offered : List α
  kept : List α

def Captured.cut (c : Captured α) : Bool := c.kept.length < c.offered.length

/-- Both threads at the bridge (the lists are history, and `fills` what has been measured since
the low water mark was last taken). -/
structure Duplex (α : Type) (captureCapacity playoutCapacity : ℕ) where
  bridge : CallbackBridge α captureCapacity playoutCapacity
  /-- The render callback that has measured and not drained: what it asks for and what it found. -/
  rendering : Option (ℕ × ℕ)
  fills : List ℕ
  rendered : List (Rendered α)
  fed : List α
  captured : List (Captured α)
  pulled : List α

namespace Duplex
variable {α : Type} {captureCapacity playoutCapacity : ℕ}

inductive Move (α : Type)
  | capture (samples : List α)
  | measure (n : ℕ)
  | drain
  | pullCaptured (n : ℕ)
  | pushPlayout (samples : List α)
  | takeLowWater

def new : Duplex α captureCapacity playoutCapacity :=
  { bridge := .new, rendering := none, fills := [], rendered := [], fed := [], captured := []
    pulled := [] }

variable (d : Duplex α captureCapacity playoutCapacity)

def drained (silence : α) (n found : ℕ) : Duplex α captureCapacity playoutCapacity :=
  { d with
    bridge := (d.bridge.drain silence n).1
    rendering := none
    rendered := d.rendered ++ [{
      asked := n, found, got := d.bridge.playout.items.take n
      out := (d.bridge.drain silence n).2 }] }

/-- One render callback runs at a time. -/
def step (silence : α) (d : Duplex α captureCapacity playoutCapacity) :
    Move α → Duplex α captureCapacity playoutCapacity
  | .capture samples =>
    { d with
      bridge := d.bridge.pushCapture samples
      captured := d.captured ++
        [{ offered := samples, kept := samples.take d.bridge.capture.free }] }
  | .measure n =>
    if d.rendering.isSome then d
    else { d with
      bridge := d.bridge.measure
      rendering := some (n, d.bridge.playout.items.length)
      fills := d.fills ++ [d.bridge.playout.items.length] }
  | .drain => d.rendering.elim d fun asked => d.drained silence asked.1 asked.2
  | .pullCaptured n =>
    { d with
      bridge := (d.bridge.pullCaptured n).1
      pulled := d.pulled ++ (d.bridge.pullCaptured n).2 }
  | .pushPlayout samples =>
    { d with
      bridge := (d.bridge.pushPlayout samples).1
      fed := d.fed ++ samples.take (d.bridge.pushPlayout samples).2 }
  | .takeLowWater => { d with bridge := d.bridge.takePlayoutLowWater.1, fills := [] }

/-- What each thread has done so far, accounted for. -/
structure Faithful (silence : α) (d : Duplex α captureCapacity playoutCapacity) : Prop where
  playout : d.bridge.playout.Accounts d.fed (d.rendered.flatMap Rendered.got)
  capture : d.bridge.capture.Accounts (d.captured.flatMap Captured.kept) d.pulled
  rendered : ∀ c ∈ d.rendered, c.Right silence
  kept : ∀ c ∈ d.captured, c.kept <+: c.offered
  underruns : d.bridge.underruns = d.rendered.countP Rendered.dry
  overruns : d.bridge.overruns = d.captured.countP Captured.cut
  lowWater : d.bridge.playoutLowWater = d.fills.min?
  rendering : ∀ asked ∈ d.rendering, asked.2 ≤ d.bridge.playout.items.length

variable {silence : α} {d : Duplex α captureCapacity playoutCapacity}

theorem lowered_min? (fills : List ℕ) (fill : ℕ) :
    some (CallbackBridge.lowered fills.min? fill) = (fills ++ [fill]).min? := by
  cases fills with
  | nil => rfl
  | cons first fills =>
    rw [List.cons_append, List.min?_cons', List.min?_cons', List.foldl_append]
    rfl

theorem counted {β : Type} {P : β → Bool} {xs : List β} {x : β} {n : ℕ} {fits : Prop}
    [Decidable fits] (hn : n = xs.countP P) (hx : P x = true ↔ ¬fits) :
    (if fits then n else n + 1) = (xs ++ [x]).countP P := by
  rw [List.countP_append, List.countP_singleton, ← hn]
  by_cases hfits : fits
  · rw [if_pos hfits, if_neg fun h => hx.mp h hfits, Nat.add_zero]
  · rw [if_neg hfits, if_pos (hx.mpr hfits)]

theorem Faithful.capture_step (h : d.Faithful silence) (samples : List α) :
    (d.step silence (.capture samples)).Faithful silence := by
  have hcut : Captured.cut ⟨samples, samples.take d.bridge.capture.free⟩ = true ↔
      ¬samples.length ≤ d.bridge.capture.free := by
    rw [Captured.cut, decide_eq_true_eq, List.length_take]
    dsimp only
    omega
  refine ⟨h.playout, ?_, h.rendered, fun c hc => ?_, h.underruns, counted h.overruns hcut,
    h.lowWater, h.rendering⟩
  · change (d.bridge.capture.push samples).Accounts ((d.captured ++ [_]).flatMap Captured.kept) _
    rw [List.flatMap_append, List.flatMap_singleton]
    exact h.capture.push
  · rcases List.mem_append.mp hc with hold | hnew
    · exact h.kept c hold
    · rw [List.mem_singleton.mp hnew]
      exact List.take_prefix _ _

theorem Faithful.measure_step (h : d.Faithful silence) (n : ℕ) :
    (d.step silence (.measure n)).Faithful silence := by
  rw [step]
  split
  · exact h
  · refine ⟨h.playout, h.capture, h.rendered, h.kept, h.underruns, h.overruns, ?_, ?_⟩
    · exact (congrArg some (congrArg (CallbackBridge.lowered · _) h.lowWater)).trans
        (lowered_min? _ _)
    · intro asked hasked
      obtain rfl := Option.some.inj hasked
      exact le_rfl

theorem Faithful.drain_step (h : d.Faithful silence) : (d.step silence .drain).Faithful silence := by
  cases hrendering : d.rendering with
  | none =>
    have hsame : d.step silence .drain = d := by
      rw [step, hrendering]
      rfl
    rw [hsame]
    exact h
  | some asked =>
    obtain ⟨n, found⟩ := asked
    have hdrained : d.step silence .drain = d.drained silence n found := by
      rw [step, hrendering]
      rfl
    have hfound : found ≤ d.bridge.playout.items.length := h.rendering (n, found) hrendering
    have hlength : (d.bridge.playout.items.take n).length = min n d.bridge.playout.items.length :=
      List.length_take
    rw [hdrained]
    refine ⟨?_, h.capture, fun c hc => ?_, h.kept, ?_, h.overruns, h.lowWater, fun _ hnone => ?_⟩
    · change (d.bridge.playout.pop n).Accounts _ ((d.rendered ++ [_]).flatMap Rendered.got)
      rw [List.flatMap_append, List.flatMap_singleton]
      exact h.playout.pop
    · rcases List.mem_append.mp hc with hold | hnew
      · exact h.rendered c hold
      · rw [List.mem_singleton.mp hnew]
        refine ⟨rfl, ?_, ?_⟩
        · exact hlength.trans_le (min_le_left _ _)
        · exact (min_le_min_left n hfound).trans hlength.ge
    · refine counted h.underruns ?_
      rw [Rendered.dry, decide_eq_true_eq]
      dsimp only
      omega
    · cases hnone

theorem Faithful.step (h : d.Faithful silence) (move : Move α) :
    (d.step silence move).Faithful silence := by
  cases move with
  | capture samples => exact h.capture_step samples
  | measure n => exact h.measure_step n
  | drain => exact h.drain_step
  | pullCaptured n =>
    exact ⟨h.playout, h.capture.pop, h.rendered, h.kept, h.underruns, h.overruns, h.lowWater,
      h.rendering⟩
  | pushPlayout samples =>
    have htaken : samples.take (samples.take d.bridge.playout.free).length =
        samples.take d.bridge.playout.free := by
      rw [List.length_take, ← List.take_eq_take_min]
    refine ⟨?_, h.capture, h.rendered, h.kept, h.underruns, h.overruns, h.lowWater, ?_⟩
    · change (d.bridge.playout.push samples).Accounts (d.fed ++ samples.take _) _
      rw [CallbackBridge.pushPlayout]
      dsimp only
      rw [htaken]
      exact h.playout.push
    · exact fun asked hasked => (h.rendering asked hasked).trans (Ring.length_push_ge _ _)
  | takeLowWater =>
    exact ⟨h.playout, h.capture, h.rendered, h.kept, h.underruns, h.overruns, rfl, h.rendering⟩

end Duplex
end JamStream.AudioIo
