import JamStream.Foundations.Runs

/-! How a stream reaches the session's rate on a device of any other: the device's own
configurations, the host's word, or the converter at the boundary; and which devices are never
asked again, because a stream died of asking. -/

namespace JamStream.AudioIo
open Runs

inductive Direction
  | capture
  | playback
deriving DecidableEq

inductive FormFactor
  | speakers
  | headphones
  | headset
  | microphone
  | lineLevel
  | bluetooth
  | hdmi
  | unknown
deriving DecidableEq

inductive AudioError
  | deviceGone
  | unsupported (msg : String)
  | backend (msg : String)
deriving DecidableEq

def AudioError.detail : AudioError → String
  | .deviceGone => "audio device is gone or was never present"
  | .unsupported msg | .backend msg => msg

inductive SampleFormat
  | f32
  | other (name : String)
deriving DecidableEq

inductive SupportedBufferSize
  | range (min max : ℕ)
  | unknown
deriving DecidableEq

structure SupportedConfig where
  channels : ℕ
  sampleRate : ℕ
  bufferSize : SupportedBufferSize
  format : SampleFormat
deriving DecidableEq

structure SupportedRange where
  channels : ℕ
  minRate : ℕ
  maxRate : ℕ
  bufferSize : SupportedBufferSize
  format : SampleFormat

def SupportedRange.tryWithSampleRate (r : SupportedRange) (rate : ℕ) : Option SupportedConfig :=
  if r.minRate ≤ rate ∧ rate ≤ r.maxRate then
    some
      { channels := r.channels
        sampleRate := rate
        bufferSize := r.bufferSize
        format := r.format }
  else none

/-- Whether a host says so when it cannot open a stream at the rate it was asked for. -/
def ratePolicy : String → Option Bool
  | "PipeWire" => some true
  | "CoreAudio" => some true
  | "WASAPI" => some true
  | "ALSA" => some false
  | _ => none

def verifiesNegotiatedRate (host : String) : Bool := (ratePolicy host).getD false

structure RateContext where
  rate : ℕ
  host : String

inductive RateOutcome (φ : Type)
  | native
  | clockSet (was : ℕ)
  | osConverted (device : ℕ)
  | resampled (device : ℕ) (addedMs : φ)

def RateOutcome.isClockSet {φ : Type} : RateOutcome φ → Bool
  | .clockSet _ => true
  | _ => false

/-- What a rate other than the session's means, on a host that bridged it. -/
def bridged {φ : Type} (host : String) (nativeRate : ℕ) : RateOutcome φ :=
  match host with
  | "CoreAudio" => .clockSet nativeRate
  | "WASAPI" => .osConverted nativeRate
  | "PipeWire" => .osConverted nativeRate
  | _ => .native

def rateOutcome {φ : Type} (rates : RateContext) (nativeRate openedRate : ℕ) (added : Option φ) :
    RateOutcome φ :=
  match added with
  | some addedMs => .resampled openedRate addedMs
  | none => if nativeRate = rates.rate then .native else bridged rates.host nativeRate

structure DirectionPlan where
  opens : SupportedConfig
  /-- The device never advertised it. -/
  attempted : Bool
  convert : Bool

/-- Samples as the streams are built with them, then the device's own layout, then the widest. -/
def preference (native c : SupportedConfig) : Bool ×ₗ Bool ×ₗ ℕ :=
  toLex (c.format = .f32, toLex (c.channels = native.channels, c.channels))

def configAtRate (native : SupportedConfig) (supported : List SupportedRange) (rate : ℕ) :
    Option SupportedConfig :=
  if native.sampleRate = rate then some native
  else (supported.filterMap fun r => r.tryWithSampleRate rate).reverse.argmax (preference native)

def isTelephonyRate (rate : ℕ) : Bool := rate = 8000 || rate = 16000

def telephonyMic (direction : Direction) (nativeRate : ℕ) (form : FormFactor) : Bool :=
  direction = .capture && (isTelephonyRate nativeRate || form = .bluetooth || form = .headset)

def rateRemedy (host : String) (rate : ℕ) : String :=
  match host with
  | "WASAPI" =>
    s!"set that device to {rate} Hz: run mmsys.cpl (Settings > System > " ++
      "Sound > More sound settings), Recording or Playback, the device's " ++
      "Properties, Advanced, Default Format"
  | "CoreAudio" =>
    s!"check Audio MIDI Setup, Format, for a {rate} Hz entry on that " ++
      "device, and use another device if there is none"
  | "PipeWire" =>
    "PipeWire converts sample rates, so its graph rate is not the " ++
      s!"problem; this device has no {rate} Hz mode, so use another one"
  | "ALSA" =>
    "ALSA is driving the card directly and converts nothing; start " ++
      s!"PipeWire, or use a device with a {rate} Hz mode"
  | _ => s!"run that device at {rate} Hz"

namespace RateContext

def refused (rates : RateContext) (direction : Direction) (native : SupportedConfig)
    (form : FormFactor) (refusal : Option AudioError) : AudioError :=
  let side := match direction with
    | .capture => "capture"
    | .playback => "playback"
  let rate := rates.rate
  let detail := match refusal with
    | some err => " (" ++ err.detail ++ ")"
    | none => ""
  let remedy :=
    if telephonyMic direction native.sampleRate form then
      s!"that is a Bluetooth or headset microphone with no {rate} Hz " ++
        "mode, so use another capture device"
    else rateRemedy rates.host rate
  .unsupported (s!"{side} device runs at " ++ toString native.sampleRate ++
    s!" Hz and will not open at {rate} Hz{detail}; {remedy}")

end RateContext

/-- The ladder for one direction. A device that was demoted is not asked for another rate again. -/
def planDirection (rates : RateContext) (direction : Direction) (native : SupportedConfig)
    (supported : List SupportedRange) (hostConverts : Bool) (form : FormFactor) (demoted : Bool) :
    Except AudioError DirectionPlan :=
  if demoted && native.sampleRate != rates.rate then
    .ok { opens := native, attempted := false, convert := true }
  else match configAtRate native supported rates.rate with
    | some opens => .ok { opens, attempted := false, convert := false }
    | none =>
      if telephonyMic direction native.sampleRate form then
        .error (rates.refused direction native form none)
      else if hostConverts then
        .ok
          { opens := { native with sampleRate := rates.rate }
            attempted := true
            convert := false }
      else .ok { opens := native, attempted := false, convert := true }

/-- A device's end of one open: what it is and how it answers, at the planned configuration and, if
the handler can be taken back from a build that failed, at its own. -/
structure Side where
  id : Option String
  native : SupportedConfig
  supported : Except AudioError (List SupportedRange)
  form : FormFactor
  build : Except AudioError Unit
  recovered : Bool
  rebuild : Except AudioError Unit

/-- The rate a stream was built at, and what the converter adds where there is one. -/
structure Opened (φ : Type) where
  rate : ℕ
  added : Option φ

section ladder
variable {φ : Type} (addedMs : Direction → ℕ → ℕ → φ)

def openConverted (rates : RateContext) (direction : Direction) (side : Side) (deviceRate : ℕ)
    (build : Except AudioError Unit) : Except AudioError (Opened φ) :=
  match build with
  | .ok _ => .ok { rate := deviceRate, added := some (addedMs direction rates.rate deviceRate) }
  | .error e => .error (rates.refused direction side.native side.form (some e))

/-- Both directions open in one way; an attempt that fails falls back to the device's own rate. -/
def openSide (rates : RateContext) (direction : Direction) (side : Side) (plan : DirectionPlan) :
    Except AudioError (Opened φ) :=
  if plan.convert then
    openConverted addedMs rates direction side plan.opens.sampleRate side.build
  else match side.build with
    | .ok _ => .ok { rate := plan.opens.sampleRate, added := none }
    | .error e =>
      if !plan.attempted then .error e
      else if !side.recovered then .error (rates.refused direction side.native side.form (some e))
      else openConverted addedMs rates direction side side.native.sampleRate side.rebuild

structure OpenSide (φ : Type) where
  side : Side
  plan : DirectionPlan
  opened : Opened φ
  outcome : RateOutcome φ

def openDirection (rates : RateContext) (direction : Direction) (side : Side)
    (plan : DirectionPlan) : Except AudioError (OpenSide φ) :=
  (openSide addedMs rates direction side plan).map fun opened =>
    { side, plan, opened
      outcome := rateOutcome rates side.native.sampleRate opened.rate opened.added }

end ladder

def OpenSide.clockSet {φ : Type} (s : OpenSide φ) : Option String :=
  if s.outcome.isClockSet then s.side.id else none

/-- The device this direction runs at a rate it never advertised. -/
def OpenSide.attempted {φ : Type} (s : OpenSide φ) : Option String :=
  if s.plan.attempted && s.opened.added.isNone then s.side.id else none

/-- An open stream, with the session's rate and the devices demoted when it opened (history). -/
structure CpalStreamHandle (φ : Type) where
  capture : OpenSide φ
  playback : OpenSide φ
  clockSet : List String
  attempted : List String
  errored : Bool
  rateRefused : Bool
  demotionNoted : Bool
  rate : ℕ

inductive ErrorKind
  | deviceChanged
  | realtimeDenied
  | unsupportedConfig
  | other
deriving DecidableEq

structure CpalBackend (φ : Type) where
  demoted : List String
  streams : List (CpalStreamHandle φ)

/-- What an open asks for, and what it finds: the devices, if both can be found and asked, and
whether the streams start. -/
structure OpenRequest where
  sampleRate : ℕ
  channels : ℕ
  devices : Except AudioError (Side × Side)
  plays : Except AudioError Unit

inductive CpalMove
  | openDuplex (request : OpenRequest)
  | callback (stream : ℕ) (kind : ErrorKind)
  | poll (stream : ℕ)

namespace CpalStreamHandle
variable {φ : Type}

def onError (h : CpalStreamHandle φ) (kind : ErrorKind) : CpalStreamHandle φ :=
  if kind = .deviceChanged ∨ kind = .realtimeDenied then h
  else { h with rateRefused := h.rateRefused || kind = .unsupportedConfig, errored := true }

def notes (h : CpalStreamHandle φ) : Bool :=
  h.errored && !(h.clockSet.isEmpty && h.attempted.isEmpty) && !h.demotionNoted

def note (h : CpalStreamHandle φ) : CpalStreamHandle φ := { h with demotionNoted := true }

def demotes (h : CpalStreamHandle φ) : List String :=
  h.clockSet ++ if h.rateRefused then h.attempted else []

end CpalStreamHandle

namespace CpalBackend
variable {φ : Type} (host : String) (addedMs : Direction → ℕ → ℕ → φ)

def new : CpalBackend φ := { demoted := [], streams := [] }

def deviceDemoted (s : CpalBackend φ) (side : Side) : Bool :=
  side.id.any fun id => s.demoted.contains id

def demote (demoted : List String) (ids : List String) : List String :=
  ids.foldl (fun demoted id => demoted.insert id) demoted

def planSide (s : CpalBackend φ) (rates : RateContext) (direction : Direction) (side : Side) :
    Except AudioError DirectionPlan := do
  let supported ← side.supported
  planDirection rates direction side.native supported (verifiesNegotiatedRate host) side.form
    (s.deviceDemoted side)

/-- The streams start last, with nothing left to do but hand them over. -/
def openSides (s : CpalBackend φ) (request : OpenRequest) (inSide outSide : Side) :
    Except AudioError (CpalStreamHandle φ) := do
  let rates : RateContext := { rate := request.sampleRate, host }
  let inPlan ← s.planSide host rates .capture inSide
  let outPlan ← s.planSide host rates .playback outSide
  let capture ← openDirection addedMs rates .capture inSide inPlan
  let playback ← openDirection addedMs rates .playback outSide outPlan
  request.plays
  return {
    capture
    playback
    clockSet := capture.clockSet.toList ++ playback.clockSet.toList
    attempted := capture.attempted.toList ++ playback.attempted.toList
    errored := false
    rateRefused := false
    demotionNoted := false
    rate := request.sampleRate }

def openDuplex (s : CpalBackend φ) (request : OpenRequest) :
    Except AudioError (CpalStreamHandle φ) :=
  if request.channels = 0 then .error (.unsupported "zero channels")
  else request.devices >>= fun sides => s.openSides host addedMs request sides.1 sides.2

def poll (s : CpalBackend φ) (stream : ℕ) : CpalBackend φ :=
  match s.streams[stream]? with
  | none => s
  | some h =>
    if h.notes then
      { demoted := demote s.demoted h.demotes
        streams := s.streams.modify stream fun h => h.note }
    else s

def step (s : CpalBackend φ) : CpalMove → CpalBackend φ
  | .openDuplex request =>
    match s.openDuplex host addedMs request with
    | .ok h => { s with streams := s.streams ++ [h] }
    | .error _ => s
  | .callback stream kind => { s with streams := s.streams.modify stream fun h => h.onError kind }
  | .poll stream => s.poll stream

end CpalBackend

theorem exists_ok_of_bind {ε α β : Type} {x : Except ε α} {f : α → Except ε β} {b : β}
    (h : x >>= f = .ok b) : ∃ a, x = .ok a ∧ f a = .ok b := by
  cases x with
  | error e => cases h
  | ok a => exact ⟨a, rfl, h⟩

def Advertised (ranges : List SupportedRange) (rate : ℕ) : Prop :=
  ∃ r ∈ ranges, r.minRate ≤ rate ∧ rate ≤ r.maxRate

inductive Planned (rates : RateContext) (native : SupportedConfig) (supported : List SupportedRange)
    (hostConverts demoted : Bool) : DirectionPlan → Prop
  | own (same : native.sampleRate = rates.rate) :
    Planned rates native supported hostConverts demoted ⟨native, false, false⟩
  | advertised (c : SupportedConfig) (rate : c.sampleRate = rates.rate)
    (covers : Advertised supported rates.rate) (trusted : demoted = false) :
    Planned rates native supported hostConverts demoted ⟨c, false, false⟩
  | attempt (host : hostConverts = true) (trusted : demoted = false) :
    Planned rates native supported hostConverts demoted
      ⟨{ native with sampleRate := rates.rate }, true, false⟩
  | convert (off : native.sampleRate ≠ rates.rate) :
    Planned rates native supported hostConverts demoted ⟨native, false, true⟩

theorem tryWithSampleRate_eq {r : SupportedRange} {rate : ℕ} {c : SupportedConfig}
    (h : r.tryWithSampleRate rate = some c) :
    (r.minRate ≤ rate ∧ rate ≤ r.maxRate) ∧ c.sampleRate = rate := by
  rw [SupportedRange.tryWithSampleRate] at h
  split at h
  next hin =>
    obtain rfl := Option.some.inj h
    exact ⟨hin, rfl⟩
  next => cases h

theorem configAtRate_eq {native c : SupportedConfig} {supported : List SupportedRange} {rate : ℕ}
    (hoff : native.sampleRate ≠ rate) (h : configAtRate native supported rate = some c) :
    c.sampleRate = rate ∧ Advertised supported rate := by
  rw [configAtRate, if_neg hoff] at h
  obtain ⟨r, hr, htry⟩ := List.mem_filterMap.mp (List.mem_reverse.mp (List.argmax_mem h))
  obtain ⟨hin, hrate⟩ := tryWithSampleRate_eq htry
  exact ⟨hrate, r, hr, hin⟩

theorem planned_of_ok {rates : RateContext} {direction : Direction} {native : SupportedConfig}
    {supported : List SupportedRange} {hostConverts demoted : Bool} {form : FormFactor}
    {plan : DirectionPlan}
    (h : planDirection rates direction native supported hostConverts form demoted = .ok plan) :
    Planned rates native supported hostConverts demoted plan := by
  rw [planDirection] at h
  split at h
  next hdemoted =>
    obtain rfl := Except.ok.inj h
    exact .convert (bne_iff_ne.mp (Bool.and_eq_true_iff.mp hdemoted).2)
  next hdemoted =>
    by_cases hsame : native.sampleRate = rates.rate
    · have hconfig : configAtRate native supported rates.rate = some native := if_pos hsame
      rw [hconfig] at h
      obtain rfl := Except.ok.inj h
      exact .own hsame
    · have htrusted : demoted = false := by
        cases demoted with
        | false => rfl
        | true => exact absurd (Bool.and_eq_true_iff.mpr ⟨rfl, bne_iff_ne.mpr hsame⟩) hdemoted
      cases hconfig : configAtRate native supported rates.rate with
      | some c =>
        rw [hconfig] at h
        obtain rfl := Except.ok.inj h
        obtain ⟨hrate, hcovers⟩ := configAtRate_eq hsame hconfig
        exact .advertised c hrate hcovers htrusted
      | none =>
        rw [hconfig] at h
        dsimp only at h
        split at h
        · cases h
        split at h
        next hhost =>
          obtain rfl := Except.ok.inj h
          exact .attempt hhost htrusted
        next =>
          obtain rfl := Except.ok.inj h
          exact .convert hsame

section sides
variable {φ : Type} {addedMs : Direction → ℕ → ℕ → φ} {rates : RateContext} {direction : Direction}
  {side : Side} {plan : DirectionPlan} {opened : Opened φ}

theorem openConverted_ok {deviceRate : ℕ} {build : Except AudioError Unit}
    (h : openConverted addedMs rates direction side deviceRate build = .ok opened) :
    opened = ⟨deviceRate, some (addedMs direction rates.rate deviceRate)⟩ := by
  cases build with
  | error e => cases h
  | ok _ => exact (Except.ok.inj h).symm

/-- A stream runs at its plan's rate, through the converter if it planned to, or at the device's own
through the converter behind an attempt that failed. -/
theorem openSide_ok (h : openSide addedMs rates direction side plan = .ok opened) :
    (plan.convert = true ∧ opened = ⟨plan.opens.sampleRate,
      some (addedMs direction rates.rate plan.opens.sampleRate)⟩) ∨
    (plan.convert = false ∧ opened = ⟨plan.opens.sampleRate, none⟩) ∨
    (plan.attempted = true ∧ opened = ⟨side.native.sampleRate,
      some (addedMs direction rates.rate side.native.sampleRate)⟩) := by
  rw [openSide] at h
  split at h
  next hconvert => exact .inl ⟨hconvert, openConverted_ok h⟩
  next hplain =>
    cases hbuild : side.build with
    | ok _ =>
      rw [hbuild] at h
      exact .inr (.inl ⟨Bool.eq_false_of_not_eq_true hplain, (Except.ok.inj h).symm⟩)
    | error e =>
      rw [hbuild] at h
      dsimp only at h
      split at h
      · cases h
      next hattempted =>
        split at h
        · cases h
        · refine .inr (.inr ⟨?_, openConverted_ok h⟩)
          rwa [Bool.not_eq_true', Bool.not_eq_false] at hattempted

end sides

/-- The session hears and is heard at its own rate: the device runs at it because it can, says it
can or sits on a host that would say otherwise, or the converter carries the difference. And a stream
that is shown as native is on a device that has the rate. -/
structure OpenSide.Right {φ : Type} (addedMs : Direction → ℕ → ℕ → φ) (rates : RateContext)
    (direction : Direction) (s : OpenSide φ) : Prop where
  speed :
    (s.opened.added = none ∧ s.opened.rate = rates.rate ∧
      (s.side.native.sampleRate = rates.rate ∨
        (∃ ranges, s.side.supported = .ok ranges ∧ Advertised ranges rates.rate) ∨
        verifiesNegotiatedRate rates.host = true)) ∨
    (s.opened.added = some (addedMs direction rates.rate s.opened.rate) ∧
      s.opened.rate = s.side.native.sampleRate)
  disclosed : s.outcome = .native → s.side.native.sampleRate = rates.rate ∨
    ∃ ranges, s.side.supported = .ok ranges ∧ Advertised ranges rates.rate

theorem bridged_ne_native {φ : Type} {host : String} (h : verifiesNegotiatedRate host = true)
    (nativeRate : ℕ) : (bridged host nativeRate : RateOutcome φ) ≠ .native := by
  rw [verifiesNegotiatedRate, ratePolicy.eq_def] at h
  rw [bridged.eq_def]
  split at h
  · exact fun heq => by cases heq
  · exact fun heq => by cases heq
  · exact fun heq => by cases heq
  · exact absurd h (by decide)
  · exact absurd h (by decide)

section directions
variable {φ : Type} {addedMs : Direction → ℕ → ℕ → φ} {rates : RateContext} {direction : Direction}
  {side : Side} {plan : DirectionPlan} {ranges : List SupportedRange} {demoted : Bool}
  {s : OpenSide φ}

theorem openDirection_ok (h : openDirection addedMs rates direction side plan = .ok s) :
    s.side = side ∧ s.plan = plan ∧ openSide addedMs rates direction side plan = .ok s.opened ∧
      s.outcome = rateOutcome rates side.native.sampleRate s.opened.rate s.opened.added := by
  rw [openDirection] at h
  cases hopened : openSide addedMs rates direction side plan with
  | error e =>
    rw [hopened] at h
    cases h
  | ok opened =>
    rw [hopened] at h
    obtain rfl := Except.ok.inj h
    exact ⟨rfl, rfl, rfl, rfl⟩

theorem right_of_opened (hplan : Planned rates side.native ranges
      (verifiesNegotiatedRate rates.host) demoted plan) (hranges : side.supported = .ok ranges)
    (h : openDirection addedMs rates direction side plan = .ok s) :
    s.Right addedMs rates direction := by
  obtain ⟨rfl, -, hopened, houtcome⟩ := openDirection_ok h
  -- what the converter carries is never called native
  have hconverted : ∀ rate addedMs', s.opened = ⟨rate, some addedMs'⟩ → s.outcome ≠ .native := by
    intro rate addedMs' heq hnative
    rw [houtcome, heq] at hnative
    cases hnative
  -- nor is what a trusted host carries, at another rate
  have htrusted : s.opened.added = none → verifiesNegotiatedRate rates.host = true →
      s.outcome = .native → s.side.native.sampleRate = rates.rate := by
    intro hadded hhost hnative
    rw [houtcome, hadded, rateOutcome] at hnative
    by_contra hoff
    rw [if_neg hoff] at hnative
    exact bridged_ne_native hhost _ hnative
  rcases openSide_ok hopened with ⟨hconvert, heq⟩ | ⟨hplain, heq⟩ | ⟨hattempted, heq⟩
  · refine ⟨.inr ?_, fun hnative => absurd hnative (hconverted _ _ heq)⟩
    have hrate : plan.opens.sampleRate = s.side.native.sampleRate := by
      cases hplan with
      | own => rfl
      | advertised => cases hconvert
      | attempt => cases hconvert
      | convert => rfl
    rw [heq]
    exact ⟨rfl, hrate⟩
  · have hadded : s.opened.added = none := by rw [heq]
    have hrate : s.opened.rate = plan.opens.sampleRate := by rw [heq]
    cases hplan with
    | own same => exact ⟨.inl ⟨hadded, hrate.trans same, .inl same⟩, fun _ => .inl same⟩
    | advertised c rate covers =>
      exact ⟨.inl ⟨hadded, hrate.trans rate, .inr (.inl ⟨ranges, hranges, covers⟩)⟩,
        fun _ => .inr ⟨ranges, hranges, covers⟩⟩
    | attempt host =>
      exact ⟨.inl ⟨hadded, hrate, .inr (.inr host)⟩, fun h => .inl (htrusted hadded host h)⟩
    | convert => cases hplain
  · refine ⟨.inr ?_, fun hnative => absurd hnative (hconverted _ _ heq)⟩
    rw [heq]
    exact ⟨rfl, rfl⟩

theorem demoted_left_alone (hplan : Planned rates side.native ranges
      (verifiesNegotiatedRate rates.host) true plan)
    (h : openDirection addedMs rates direction side plan = .ok s) :
    s.clockSet = none ∧ s.plan.attempted = false ∧
      s.opened.rate = s.side.native.sampleRate := by
  obtain ⟨rfl, hsplan, hopened, houtcome⟩ := openDirection_ok h
  have hunattempted : plan.attempted = false := by
    cases hplan with
    | own => rfl
    | advertised => rfl
    | attempt _ trusted => cases trusted
    | convert => rfl
  have hrate : plan.opens.sampleRate = s.side.native.sampleRate := by
    cases hplan with
    | own => rfl
    | advertised _ _ _ trusted => cases trusted
    | attempt _ trusted => cases trusted
    | convert => rfl
  rw [hsplan]
  refine ⟨?_, hunattempted, ?_⟩
  · rw [OpenSide.clockSet, houtcome]
    rcases openSide_ok hopened with ⟨-, heq⟩ | ⟨hplain, heq⟩ | ⟨hattempted, -⟩
    · rw [heq]
      rfl
    · rw [heq]
      cases hplan with
      | own same =>
        rw [rateOutcome, if_pos same]
        rfl
      | advertised _ _ _ trusted => cases trusted
      | attempt _ trusted => cases trusted
      | convert => cases hplain
    · cases hunattempted.symm.trans hattempted
  · rcases openSide_ok hopened with ⟨-, heq⟩ | ⟨-, heq⟩ | ⟨-, heq⟩
    · rw [heq]
      exact hrate
    · rw [heq]
      exact hrate
    · rw [heq]

theorem attempted_none (h : s.plan.attempted = false) : s.attempted = none := by
  rw [OpenSide.attempted, h]
  rfl

end directions

namespace CpalBackend
variable {φ : Type} {host : String} {addedMs : Direction → ℕ → ℕ → φ} {s : CpalBackend φ}
  {rates : RateContext} {direction : Direction} {side : Side} {plan : DirectionPlan}

theorem planSide_ok (h : s.planSide host rates direction side = .ok plan) :
    ∃ ranges, side.supported = .ok ranges ∧ Planned rates side.native ranges
      (verifiesNegotiatedRate host) (s.deviceDemoted side) plan := by
  obtain ⟨ranges, hranges, hplan⟩ := exists_ok_of_bind h
  exact ⟨ranges, hranges, planned_of_ok hplan⟩

/-- The stream neither moves the clock of a device nor asks it for a rate, and opens it at the
device's own. -/
structure LeavesAlone (h : CpalStreamHandle φ) (id : String) : Prop where
  clockSet : id ∉ h.clockSet
  attempted : id ∉ h.attempted
  own : ∀ t, t = h.capture ∨ t = h.playback → t.side.id = some id →
    t.plan.attempted = false ∧ t.opened.rate = t.side.native.sampleRate

/-- What an open leaves: two directions that are right, and what is demoted left alone. -/
structure Handled (addedMs : Direction → ℕ → ℕ → φ) (host : String) (demoted : List String)
    (h : CpalStreamHandle φ) : Prop where
  capture : h.capture.Right addedMs ⟨h.rate, host⟩ .capture
  playback : h.playback.Right addedMs ⟨h.rate, host⟩ .playback
  demoted : ∀ id ∈ demoted, LeavesAlone h id
  alive : h.demotionNoted = false

theorem id_of_clockSet {t : OpenSide φ} {id : String} (h : id ∈ t.clockSet) :
    t.side.id = some id := by
  rw [OpenSide.clockSet] at h
  split at h
  · exact h
  · cases h

theorem id_of_attempted {t : OpenSide φ} {id : String} (h : id ∈ t.attempted) :
    t.side.id = some id := by
  rw [OpenSide.attempted] at h
  split at h
  · exact h
  · cases h

theorem direction_ok {t : OpenSide φ} {rate : ℕ}
    (hplan : s.planSide host ⟨rate, host⟩ direction side = .ok plan)
    (h : openDirection addedMs ⟨rate, host⟩ direction side plan = .ok t) :
    t.Right addedMs ⟨rate, host⟩ direction ∧
      ∀ id ∈ s.demoted, t.side.id = some id → t.clockSet = none ∧
        t.plan.attempted = false ∧ t.opened.rate = t.side.native.sampleRate := by
  obtain ⟨ranges, hranges, hplanned⟩ := planSide_ok hplan
  refine ⟨right_of_opened hplanned hranges h, fun id hdemoted hid => ?_⟩
  have hcontains : s.deviceDemoted side = true := by
    rw [(openDirection_ok h).1] at hid
    rw [deviceDemoted, hid]
    exact List.contains_iff_mem.mpr hdemoted
  rw [hcontains] at hplanned
  exact demoted_left_alone hplanned h

theorem handled_of_ok {request : OpenRequest} {h : CpalStreamHandle φ}
    (hopen : s.openDuplex host addedMs request = .ok h) : Handled addedMs host s.demoted h := by
  rw [openDuplex] at hopen
  split at hopen
  · cases hopen
  obtain ⟨sides, -, hopen⟩ := exists_ok_of_bind hopen
  obtain ⟨inPlan, hin, hopen⟩ := exists_ok_of_bind hopen
  obtain ⟨outPlan, hout, hopen⟩ := exists_ok_of_bind hopen
  obtain ⟨capture, hcapture, hopen⟩ := exists_ok_of_bind hopen
  obtain ⟨playback, hplayback, hopen⟩ := exists_ok_of_bind hopen
  obtain ⟨_, -, hopen⟩ := exists_ok_of_bind hopen
  obtain rfl := Except.ok.inj hopen
  obtain ⟨hright, halone⟩ := direction_ok hin hcapture
  obtain ⟨hright', halone'⟩ := direction_ok hout hplayback
  refine ⟨hright, hright', fun id hid => ⟨fun hclock => ?_, fun hasked => ?_, ?_⟩, rfl⟩
  · rcases List.mem_append.mp hclock with hclock | hclock
    · rw [(halone id hid (id_of_clockSet (Option.mem_toList.mp hclock))).1] at hclock
      cases hclock
    · rw [(halone' id hid (id_of_clockSet (Option.mem_toList.mp hclock))).1] at hclock
      cases hclock
  · rcases List.mem_append.mp hasked with hasked | hasked
    · have hown := halone id hid (id_of_attempted (Option.mem_toList.mp hasked))
      rw [attempted_none hown.2.1] at hasked
      cases hasked
    · have hown := halone' id hid (id_of_attempted (Option.mem_toList.mp hasked))
      rw [attempted_none hown.2.1] at hasked
      cases hasked
  · rintro t (rfl | rfl) hside
    · exact (halone id hid hside).2
    · exact (halone' id hid hside).2

theorem mem_demote {demoted ids : List String} {id : String} :
    id ∈ demote demoted ids ↔ id ∈ demoted ∨ id ∈ ids := by
  induction ids generalizing demoted with
  | nil => exact (or_iff_left List.not_mem_nil).symm
  | cons i ids ih =>
    refine ih.trans ?_
    rw [List.mem_insert_iff, List.mem_cons]
    tauto

/-- Every device that is demoted was: a stream that moved its clock died, or the host refused the
rate that a stream of it was opened at. -/
structure Sound (addedMs : Direction → ℕ → ℕ → φ) (host : String) (s : CpalBackend φ) : Prop where
  right : ∀ h ∈ s.streams, h.capture.Right addedMs ⟨h.rate, host⟩ .capture ∧
    h.playback.Right addedMs ⟨h.rate, host⟩ .playback
  cause : ∀ id ∈ s.demoted, ∃ h ∈ s.streams, h.errored = true ∧ h.demotionNoted = true ∧
    (id ∈ h.clockSet ∨ h.rateRefused = true ∧ id ∈ h.attempted)
  noted : ∀ h ∈ s.streams, h.demotionNoted = true → ∀ id ∈ h.clockSet, id ∈ s.demoted

/-- Every stream from the `n`th on leaves the devices alone. -/
def Spares (n : ℕ) (ids : List String) (s : CpalBackend φ) : Prop :=
  ∀ j h, n ≤ j → s.streams[j]? = some h → ∀ id ∈ ids, LeavesAlone h id

/-- What happens to a stream that is open changes neither its directions nor its devices. -/
structure Same (h h' : CpalStreamHandle φ) : Prop where
  capture : h'.capture = h.capture
  playback : h'.playback = h.playback
  rate : h'.rate = h.rate
  clockSet : h'.clockSet = h.clockSet
  attempted : h'.attempted = h.attempted

theorem same_onError (h : CpalStreamHandle φ) (kind : ErrorKind) : Same h (h.onError kind) := by
  rw [CpalStreamHandle.onError]
  split
  · exact ⟨rfl, rfl, rfl, rfl, rfl⟩
  · exact ⟨rfl, rfl, rfl, rfl, rfl⟩

theorem same_note (h : CpalStreamHandle φ) : Same h h.note := ⟨rfl, rfl, rfl, rfl, rfl⟩

theorem LeavesAlone.same {h h' : CpalStreamHandle φ} {id : String} (halone : LeavesAlone h id)
    (hsame : Same h h') : LeavesAlone h' id where
  clockSet := hsame.clockSet ▸ halone.clockSet
  attempted := hsame.attempted ▸ halone.attempted
  own := by
    rw [hsame.capture, hsame.playback]
    exact halone.own

theorem exists_of_mem_modify {α : Type} {f : α → α} {i : ℕ} {l : List α} {a : α}
    (h : a ∈ l.modify i f) : a ∈ l ∨ ∃ b, l[i]? = some b ∧ a = f b := by
  obtain ⟨j, hj⟩ := List.mem_iff_getElem?.mp h
  rw [List.getElem?_modify] at hj
  obtain ⟨b, hb, rfl⟩ := Option.map_eq_some_iff.mp hj
  by_cases hij : i = j
  · subst hij
    exact .inr ⟨b, hb, if_pos rfl⟩
  · rw [if_neg hij]
    exact .inl (List.mem_of_getElem? hb)

theorem mem_modify_of_mem {α : Type} {f : α → α} {l : List α} {a : α} (h : a ∈ l) (i : ℕ) :
    a ∈ l.modify i f ∨ f a ∈ l.modify i f := by
  obtain ⟨j, hj⟩ := List.mem_iff_getElem?.mp h
  have hnew : (l.modify i f)[j]? = some (if i = j then f a else a) := by
    rw [List.getElem?_modify, hj]
    rfl
  split at hnew
  · exact .inr (List.mem_of_getElem? hnew)
  · exact .inl (List.mem_of_getElem? hnew)

theorem Sound.right_modify (h : Sound addedMs host s) {f : CpalStreamHandle φ → CpalStreamHandle φ}
    (hsame : ∀ b, Same b (f b)) (i : ℕ) {g : CpalStreamHandle φ} (hg : g ∈ s.streams.modify i f) :
    g.capture.Right addedMs ⟨g.rate, host⟩ .capture ∧
      g.playback.Right addedMs ⟨g.rate, host⟩ .playback := by
  rcases exists_of_mem_modify hg with hold | ⟨b, hb, rfl⟩
  · exact h.right g hold
  · obtain ⟨hcapture, hplayback, hrate, -, -⟩ := hsame b
    rw [hcapture, hplayback, hrate]
    exact h.right b (List.mem_of_getElem? hb)

theorem Sound.callback (h : Sound addedMs host s) (i : ℕ) (kind : ErrorKind) :
    Sound addedMs host { s with streams := s.streams.modify i fun h => h.onError kind } where
  right g hg := h.right_modify (fun b => same_onError b kind) i hg
  cause id hid := by
    obtain ⟨w, hw, herrored, hnoted, hcause⟩ := h.cause id hid
    rcases mem_modify_of_mem hw i with hin | hin
    · exact ⟨w, hin, herrored, hnoted, hcause⟩
    · refine ⟨w.onError kind, hin, ?_⟩
      rw [CpalStreamHandle.onError]
      split
      · exact ⟨herrored, hnoted, hcause⟩
      · refine ⟨rfl, hnoted, hcause.imp (fun hin => hin) fun hrefused => ⟨?_, hrefused.2⟩⟩
        rw [hrefused.1, Bool.true_or]
  noted g hg hnoted id hid := by
    rcases exists_of_mem_modify hg with hold | ⟨b, hb, rfl⟩
    · exact h.noted g hold hnoted id hid
    · rw [(same_onError b kind).clockSet] at hid
      refine h.noted b (List.mem_of_getElem? hb) ?_ id hid
      rw [CpalStreamHandle.onError] at hnoted
      split at hnoted
      · exact hnoted
      · exact hnoted

theorem Sound.poll (h : Sound addedMs host s) (i : ℕ) : Sound addedMs host (s.poll i) := by
  rw [CpalBackend.poll]
  cases hstream : s.streams[i]? with
  | none => exact h
  | some g =>
    dsimp only
    split
    next hnotes =>
      rw [CpalStreamHandle.notes, Bool.and_eq_true, Bool.and_eq_true] at hnotes
      refine ⟨fun g hg => h.right_modify same_note i hg,
        fun id hid => ?_, fun k hk hnoted id hid => mem_demote.mpr ?_⟩
      · rcases mem_demote.mp hid with hold | hnew
        · obtain ⟨w, hw, herrored, hnoted, hcause⟩ := h.cause id hold
          rcases mem_modify_of_mem hw i with hin | hin
          · exact ⟨w, hin, herrored, hnoted, hcause⟩
          · exact ⟨_, hin, herrored, rfl, hcause⟩
        · -- what this poll demotes is demoted for the stream it found dead
          have hin : (s.streams.modify i fun h => h.note)[i]? = some g.note := by
            rw [List.getElem?_modify_eq, hstream]
            rfl
          refine ⟨_, List.mem_of_getElem? hin, hnotes.1.1, rfl, ?_⟩
          rcases List.mem_append.mp hnew with hclock | hattempt
          · exact .inl hclock
          · split at hattempt
            next hrefused => exact .inr ⟨hrefused, hattempt⟩
            next => cases hattempt
      · rcases exists_of_mem_modify hk with hold | ⟨b, hb, rfl⟩
        · exact .inl (h.noted k hold hnoted id hid)
        · obtain rfl := Option.some.inj (hstream.symm.trans hb)
          exact .inr (List.mem_append_left _ hid)
    next => exact h

theorem Sound.step (h : Sound addedMs host s) (move : CpalMove) :
    Sound addedMs host (s.step host addedMs move) := by
  cases move with
  | openDuplex request =>
    rw [CpalBackend.step]
    cases hopen : s.openDuplex host addedMs request with
    | error e => exact h
    | ok g =>
      have hg := handled_of_ok hopen
      refine ⟨fun k hk => ?_, fun id hid => ?_, fun k hk hnoted => ?_⟩
      · rcases List.mem_append.mp hk with hold | hnew
        · exact h.right k hold
        · rw [List.mem_singleton.mp hnew]
          exact ⟨hg.capture, hg.playback⟩
      · obtain ⟨w, hw, hcause⟩ := h.cause id hid
        exact ⟨w, List.mem_append_left _ hw, hcause⟩
      · rcases List.mem_append.mp hk with hold | hnew
        · exact h.noted k hold hnoted
        · rw [List.mem_singleton.mp hnew] at hnoted
          cases hg.alive.symm.trans hnoted
  | callback stream kind => exact h.callback stream kind
  | poll stream => exact h.poll stream

structure Spared (n : ℕ) (ids : List String) (s : CpalBackend φ) : Prop where
  spares : Spares n ids s
  demoted : ∀ id ∈ ids, id ∈ s.demoted

theorem Spares.modify {n i : ℕ} {ids : List String} (h : Spares n ids s)
    {f : CpalStreamHandle φ → CpalStreamHandle φ} (hsame : ∀ b, Same b (f b))
    (demoted : List String) :
    Spares n ids { demoted, streams := s.streams.modify i f } := by
  intro j g hj hg
  change (s.streams.modify i f)[j]? = some g at hg
  rw [List.getElem?_modify] at hg
  obtain ⟨b, hb, rfl⟩ := Option.map_eq_some_iff.mp hg
  have hold := h j b hj hb
  split
  · exact fun id hid => (hold id hid).same (hsame b)
  · exact hold

theorem Spared.step {n : ℕ} {ids : List String} (h : Spared n ids s) (move : CpalMove) :
    Spared n ids (s.step host addedMs move) := by
  cases move with
  | openDuplex request =>
    rw [CpalBackend.step]
    cases hopen : s.openDuplex host addedMs request with
    | error e => exact h
    | ok g =>
      have hg := handled_of_ok hopen
      refine ⟨fun j k hj hk id hid => ?_, h.demoted⟩
      change (s.streams ++ [g])[j]? = some k at hk
      by_cases hlt : j < s.streams.length
      · rw [List.getElem?_append_left hlt] at hk
        exact h.spares j k hj hk id hid
      · rw [List.getElem?_append_right (Nat.le_of_not_lt hlt)] at hk
        obtain rfl := List.mem_singleton.mp (List.mem_of_getElem? hk)
        exact hg.demoted id (h.demoted id hid)
  | callback stream kind =>
    exact ⟨h.spares.modify (fun b => same_onError b kind) s.demoted, h.demoted⟩
  | poll stream =>
    rw [CpalBackend.step, CpalBackend.poll]
    cases hstream : s.streams[stream]? with
    | none => exact h
    | some g =>
      dsimp only
      split
      · exact ⟨h.spares.modify same_note _,
          fun id hid => mem_demote.mpr (.inl (h.demoted id hid))⟩
      · exact h

theorem length_poll (s : CpalBackend φ) (i : ℕ) : (s.poll i).streams.length = s.streams.length := by
  rw [poll]
  cases s.streams[i]? with
  | none => rfl
  | some h =>
    dsimp only
    split
    · exact List.length_modify ..
    · rfl

/-- A poll that finds a stream dead leaves the devices of its clocks demoted, and those it had asked
for a rate, if the host refused it. -/
theorem demoted_poll (h : Sound addedMs host s) {i : ℕ} {g : CpalStreamHandle φ}
    (hg : s.streams[i]? = some g) (hdead : g.errored = true) :
    (∀ id ∈ g.clockSet, id ∈ (s.poll i).demoted) ∧
    (g.rateRefused = true → g.demotionNoted = false →
      ∀ id ∈ g.attempted, id ∈ (s.poll i).demoted) := by
  have hpoll : s.poll i = if g.notes then
      { demoted := demote s.demoted g.demotes
        streams := s.streams.modify i fun h => h.note } else s := by
    rw [poll, hg]
  rw [hpoll]
  split
  next hnotes =>
    refine ⟨fun id hid => mem_demote.mpr (.inr (List.mem_append_left _ hid)),
      fun hrefused _ id hid => mem_demote.mpr (.inr (List.mem_append_right _ ?_))⟩
    rwa [if_pos hrefused]
  next hnotes =>
    -- a dead stream that is not noted now was noted before, or has no device to demote
    rw [CpalStreamHandle.notes, hdead, Bool.true_and, Bool.and_eq_true, not_and_or] at hnotes
    constructor
    · intro id hid
      cases hnoted : g.demotionNoted with
      | true => exact h.noted g (List.mem_of_getElem? hg) hnoted id hid
      | false =>
        rw [hnoted] at hnotes
        have hempty := hnotes.resolve_right fun hne => hne rfl
        rw [Bool.not_eq_true', Bool.not_eq_false, Bool.and_eq_true] at hempty
        rw [List.isEmpty_iff.mp hempty.1] at hid
        cases hid
    · intro _ hnoted id hid
      rw [hnoted] at hnotes
      have hempty := hnotes.resolve_right fun hne => hne rfl
      rw [Bool.not_eq_true', Bool.not_eq_false, Bool.and_eq_true] at hempty
      rw [List.isEmpty_iff.mp hempty.2] at hid
      cases hid

/-- Over every run of opens, errors and polls, each direction of a stream runs at the session's rate
or is converted from its device's own, what is demoted is demoted for cause, and once a dead stream
has been polled, no later one moves the clocks it had moved, or asks again for what was refused by
the first poll of its death. -/
theorem dead_clocks_left_alone (moves later : List CpalMove) (i : ℕ) :
    Sound addedMs host (run (step host addedMs) new moves) ∧
    ∀ h, (run (step host addedMs) new moves).streams[i]? = some h → h.errored = true →
      ∀ j g, (run (step host addedMs) new moves).streams.length ≤ j →
        (run (step host addedMs) new (moves ++ .poll i :: later)).streams[j]? = some g →
        (∀ id ∈ h.clockSet, LeavesAlone g id) ∧
        (h.rateRefused = true → h.demotionNoted = false → ∀ id ∈ h.attempted, LeavesAlone g id) := by
  have hsound : Sound addedMs host (run (step host addedMs) new moves) :=
    run_invariant (P := Sound addedMs host) (fun _ move h => h.step move)
      ⟨fun _ h => (by cases h), fun _ h => (by cases h), fun _ h => (by cases h)⟩ moves
  refine ⟨hsound, fun h hh hdead j g hj hg => ?_⟩
  rw [run_append, run_cons] at hg
  -- from the poll on, whatever it left demoted is spared by every stream that opens
  have hspared : ∀ ids : List String,
      (∀ id ∈ ids, id ∈ ((run (step host addedMs) new moves).poll i).demoted) →
      ∀ id ∈ ids, LeavesAlone g id := by
    intro ids hids
    have hstart : Spared (run (step host addedMs) new moves).streams.length ids
        ((run (step host addedMs) new moves).poll i) := by
      refine ⟨fun k w hk hw => ?_, hids⟩
      have hlength := (List.getElem?_eq_some_iff.mp hw).1
      rw [length_poll] at hlength
      omega
    exact (run_invariant (P := Spared _ ids) (fun _ move h => h.step move) hstart later).spares
      j g hj hg
  obtain ⟨hclock, hattempt⟩ := demoted_poll hsound hh hdead
  exact ⟨hspared _ hclock, fun hrefused hnoted => hspared _ (hattempt hrefused hnoted)⟩

/-- A device of its own rate, which lists no other. -/
def only (id : String) (rate : ℕ) : Side where
  id := some id
  native := { channels := 1, sampleRate := rate, bufferSize := .unknown, format := .f32 }
  supported := .ok []
  form := .unknown
  build := .ok ()
  recovered := true
  rebuild := .ok ()

def desk : CpalMove :=
  .openDuplex
    { sampleRate := 48000
      channels := 1
      devices := .ok (only "usb" 44100, only "desk" 48000)
      plays := .ok () }

/-- A microphone is opened at 48 kHz on the host's word, which is taken back; the next stream runs
it at its own rate. -/
theorem dead_clocks_left_alone_refused :
    ∃ g : CpalStreamHandle ℕ, (run (step "PipeWire" fun _ _ _ => 0) new
        [desk, .callback 0 .unsupportedConfig, .poll 0, desk]).streams[1]? = some g ∧
      LeavesAlone g "usb" ∧ g.capture.opened.rate = 44100 := by
  let dead : CpalBackend ℕ :=
    run (step "PipeWire" fun _ _ _ => 0) new [desk, .callback 0 .unsupportedConfig]
  let again : CpalBackend ℕ := run (step "PipeWire" fun _ _ _ => 0) new
    [desk, .callback 0 .unsupportedConfig, .poll 0, desk]
  let h : CpalStreamHandle ℕ := dead.streams.head (by decide)
  let g : CpalStreamHandle ℕ := again.streams.getLast (by decide)
  have halone := (@dead_clocks_left_alone ℕ "PipeWire" (fun _ _ _ => 0)
    [desk, .callback 0 .unsupportedConfig] [desk] 0).2 h rfl rfl 1 g le_rfl rfl
  have husb := halone.2 rfl rfl "usb" (by decide)
  exact ⟨g, rfl, husb, (husb.own g.capture (.inl rfl) rfl).2⟩

end CpalBackend
end JamStream.AudioIo
