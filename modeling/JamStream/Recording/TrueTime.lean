import JamStream.Recording.Worker

/-! A take's mix against the ticks that were submitted for it. Each message accounts for
the ticks since the one before, except those it says are owed; a take that was owed
nothing has one tick in its mix for each that was submitted, in its place. -/

namespace JamStream.Recording
open Protocol Engine Runs
variable {X : Encoding}

def Accords (call pcm : Stereo X.toAudio) : Prop := pcm = call ∨ pcm = silentTick X

def encoded (X : Encoding) (pcms : List (Stereo X.toAudio)) : FlacEncoder :=
  pcms.foldl (fun enc pcm => (enc.push X pcm).1) .new

structure Holds (t : Take) (pcms : List (Stereo X.toAudio)) : Prop where
  enc : t.mix.enc = encoded X pcms
  ticks : t.ticks = pcms.length

/-- Ticks of a mix that stand for the ticks submitted, but for some that are owed. -/
structure Covers (calls pcms : List (Stereo X.toAudio)) (owed : ℕ) : Prop where
  length : pcms.length + owed = calls.length
  heard : owed = 0 → List.Forall₂ Accords calls pcms

namespace Covers
variable {calls calls' pcms pcms' : List (Stereo X.toAudio)} {owed owed' : ℕ}

theorem nil : Covers ([] : List (Stereo X.toAudio)) [] 0 := ⟨rfl, fun _ => .nil⟩

theorem append (h : Covers calls pcms owed) (h' : Covers calls' pcms' owed') :
    Covers (calls ++ calls') (pcms ++ pcms') (owed + owed') := by
  refine ⟨?_, fun hnone => ?_⟩
  · have hl := h.length
    have hl' := h'.length
    rw [List.length_append, List.length_append]
    omega
  · obtain ⟨h0, h0'⟩ := Nat.add_eq_zero_iff.mp hnone
    exact List.rel_append (h.heard h0) (h'.heard h0')

theorem unpaid (calls : List (Stereo X.toAudio)) : Covers calls [] calls.length := by
  refine ⟨Nat.zero_add _, fun h => ?_⟩
  rw [List.length_eq_zero_iff.mp h]
  exact .nil

theorem silent (calls : List (Stereo X.toAudio)) :
    Covers calls (List.replicate calls.length (silentTick X)) 0 := by
  refine ⟨List.length_replicate, fun _ => ?_⟩
  induction calls with
  | nil => exact .nil
  | cons call calls ih => exact .cons (.inr rfl) ih

theorem played (call : Stereo X.toAudio) : Covers [call] [call] 0 :=
  ⟨rfl, fun _ => .cons (.inl rfl) .nil⟩

end Covers

section Slices
variable {α : Type*}

theorem slice_append (l : List α) {a b c : ℕ} (hab : a ≤ b) (hbc : b ≤ c) (hb : b ≤ l.length) :
    (l.take c).drop a = (l.take b).drop a ++ (l.take c).drop b := by
  have hsplit : l.take c = l.take b ++ (l.take c).drop b := by
    conv_lhs => rw [← List.take_append_drop b (l.take c), List.take_take, min_eq_left hbc]
  conv_lhs => rw [hsplit]
  refine List.drop_append_of_le_length ?_
  rw [List.length_take, min_eq_left hb]
  exact hab

theorem slice_length (l : List α) {b c : ℕ} (hc : c ≤ l.length) :
    ((l.take c).drop b).length = c - b := by
  rw [List.length_drop, List.length_take, min_eq_left hc]

theorem slice_one (l : List α) {k : ℕ} {x : α} (h : l[k]? = some x) :
    (l.take (k + 1)).drop k = [x] := by
  obtain ⟨hlt, rfl⟩ := List.getElem?_eq_some_iff.mp h
  rw [List.take_add_one, h, List.drop_append_of_le_length (by rw [List.length_take]; omega),
    List.drop_of_length_le (by rw [List.length_take]; omega)]
  rfl

end Slices

def Queued.next (m : Queued X) (p : ℕ) : ℕ :=
  match m.msg with
  | .start _ _ => m.calls
  | .tick _ _ => m.calls + 1
  | .stop | .shutdown => p

/-- A message takes up where the ones before it left off. -/
def Accounts (calls : List (Stereo X.toAudio)) (p : ℕ) (m : Queued X) : Prop :=
  match m.msg with
  | .tick gap payload => p + m.owed + gap.toNat = m.calls ∧ calls[m.calls]? = some payload.mix
  | _ => p + m.owed = m.calls ∧ m.calls ≤ calls.length

/-- A queue accounts for the ticks from one to another. -/
def Follows (calls : List (Stereo X.toAudio)) : ℕ → List (Queued X) → ℕ → Prop
  | p, [], p' => p = p'
  | p, m :: rest, p' => Accounts calls p m ∧ Follows calls (m.next p) rest p'

variable {calls : List (Stereo X.toAudio)} {p p' : ℕ}

theorem Accounts.le {m : Queued X} (h : Accounts calls p m) : p ≤ m.next p := by
  unfold Accounts at h
  unfold Queued.next
  split at h
  · rename_i heq
    simp only [heq]
    omega
  · split
    · omega
    · omega
    · exact le_rfl
    · exact le_rfl

theorem Accounts.grow {m : Queued X} (h : Accounts calls p m) (call : Stereo X.toAudio) :
    Accounts (calls ++ [call]) p m := by
  unfold Accounts at h ⊢
  split at h
  · obtain ⟨hcount, hcall⟩ := h
    have hlt := (List.getElem?_eq_some_iff.mp hcall).1
    exact ⟨hcount, (List.getElem?_append_left hlt).trans hcall⟩
  · refine ⟨h.1, h.2.trans ?_⟩
    rw [List.length_append]
    exact Nat.le_add_right _ _

theorem Follows.le {queue : List (Queued X)} (h : Follows calls p queue p') : p ≤ p' := by
  induction queue generalizing p with
  | nil => exact le_of_eq h
  | cons m rest ih => exact h.1.le.trans (ih h.2)

theorem Follows.grow {queue : List (Queued X)} (h : Follows calls p queue p')
    (call : Stereo X.toAudio) : Follows (calls ++ [call]) p queue p' := by
  induction queue generalizing p with
  | nil => exact h
  | cons m rest ih => exact ⟨h.1.grow call, ih h.2⟩

theorem Follows.append {queue : List (Queued X)} {m : Queued X} (h : Follows calls p queue p')
    (hm : Accounts calls p' m) : Follows calls p (queue ++ [m]) (m.next p') := by
  induction queue generalizing p with
  | nil =>
    obtain rfl : p = p' := h
    exact ⟨hm, rfl⟩
  | cons m' rest ih => exact ⟨h.1, ih h.2⟩

namespace Recorder

theorem encoded_append (pcms : List (Stereo X.toAudio)) (pcm : Stereo X.toAudio) :
    encoded X (pcms ++ [pcm]) = ((encoded X pcms).push X pcm).1 := by
  unfold encoded
  rw [List.foldl_append]
  rfl

theorem tick_holds {r : Recorder} {payload : RecordPayload X} {t' : Take}
    (h : (r.tick payload).take = some t') :
    ∃ t, r.take = some t ∧
      ∀ pcms : List (Stereo X.toAudio), Holds t pcms → Holds t' (pcms ++ [payload.mix]) := by
  unfold tick at h
  split at h
  · rename_i hnone
    exact absurd (hnone.symm.trans h) (Option.some_ne_none t').symm
  · rename_i t htake
    refine ⟨t, htake, fun pcms hpcms => ?_⟩
    split at h
    · rename_i hfed
      obtain rfl := Option.some.inj h
      obtain ⟨henc, hticks⟩ := Take.feed_ok hfed
      refine ⟨?_, ?_⟩
      · rw [henc, hpcms.enc, encoded_append]
      · rw [hticks, hpcms.ticks, List.length_append, List.length_singleton]
    · exact absurd h (Option.some_ne_none t').symm

theorem tickSilence_holds {n : ℕ} {r : Recorder} {t' : Take}
    (h : (Worker.tickSilence X n r).take = some t') :
    ∃ t, r.take = some t ∧ ∀ pcms : List (Stereo X.toAudio), Holds t pcms →
      Holds t' (pcms ++ List.replicate n (silentTick X)) := by
  induction n generalizing r with
  | zero =>
    refine ⟨t', h, fun pcms hpcms => ?_⟩
    rw [List.replicate_zero, List.append_nil]
    exact hpcms
  | succ n ih =>
    obtain ⟨t₁, htake₁, hrest⟩ := ih h
    obtain ⟨t, htake, hfirst⟩ := tick_holds htake₁
    refine ⟨t, htake, fun pcms hpcms => ?_⟩
    rw [List.replicate_succ, List.append_cons]
    exact hrest _ (hfirst pcms hpcms)

theorem start_holds {r : Recorder} (hnone : r.take = none) {unixSecs : UInt64}
    {stems : Option (List (MemberId × String))} {t : Take}
    (h : (r.start X unixSecs stems).take = some t) : Holds t ([] : List (Stereo X.toAudio)) := by
  unfold start at h
  rw [hnone] at h
  simp only at h
  split at h
  · exact absurd h (Option.some_ne_none t).symm
  · rename_i mix hmix
    have henc : mix.enc = .new := by
      unfold Track.openTrack at hmix
      split at hmix
      · simp at hmix
      · simp only at hmix
        split at hmix
        · simp at hmix
        · exact congrArg Track.enc (Except.ok.inj (congrArg Prod.snd hmix)).symm
    obtain rfl := Option.some.inj h
    exact ⟨henc, rfl⟩

end Recorder

def Stopped.Settled (e : Stopped X) : Prop := ∃ pcms, Holds e.take pcms ∧ Covers e.calls pcms e.owed

/-- The mix of a stopped take has one tick for each that was submitted, in its place. -/
def Stopped.TrueTime (e : Stopped X) : Prop :=
  ∃ pcms, Holds e.take pcms ∧ List.Forall₂ Accords e.calls pcms

theorem Stopped.Settled.trueTime_iff {e : Stopped X} (h : e.Settled) :
    e.TrueTime ↔ e.owed = 0 := by
  obtain ⟨pcms, hpcms, hcovers⟩ := h
  constructor
  · rintro ⟨pcms', hpcms', hheard⟩
    have hticks : pcms'.length = pcms.length := hpcms'.ticks.symm.trans hpcms.ticks
    have hlength := hcovers.length
    rw [← hticks, hheard.length_eq] at hlength
    omega
  · intro hnone
    exact ⟨pcms, hpcms, hcovers.heard hnone⟩

namespace Worker

/-- The thread has dealt with the ticks up to `p`, and its take with those since the start. -/
structure Timed (w : Worker X) (p : ℕ) : Prop where
  running : ∀ t, w.recorder.take = some t → w.startedAt ≤ p ∧
    ∃ pcms, Holds t pcms ∧ Covers ((w.calls.take p).drop w.startedAt) pcms w.owed
  stopped : ∀ e ∈ w.stopped, e.Settled

/-- All but `debt` of the ticks are dealt with, or accounted for in the queue. -/
def Debt (w : Worker X) (debt : ℕ) : Prop :=
  ∃ p p', w.Timed p ∧ Follows w.calls p w.queue p' ∧ p' + debt = w.calls.length

variable {w : Worker X} {m : Queued X}

theorem Covers.owing {pcms : List (Stereo X.toAudio)} {a owed : ℕ} (hstart : a ≤ p) (hp : p ≤ p')
    (hp' : p' ≤ calls.length) (h : Covers ((calls.take p).drop a) pcms owed) :
    Covers ((calls.take p').drop a) pcms (owed + (p' - p)) := by
  have hrest := Covers.unpaid ((calls.take p').drop p)
  rw [slice_length calls hp'] at hrest
  rw [slice_append calls hstart hp (hp.trans hp'), ← List.append_nil pcms]
  exact h.append hrest

theorem Timed.start (h : w.Timed p) {unixSecs : UInt64}
    {stems : Option (List (MemberId × String))} (hm : m.msg = .start unixSecs stems)
    (hcount : p + m.owed = m.calls) (hlast : m.calls ≤ w.calls.length) :
    (w.handle m).Timed m.calls := by
  unfold handle
  rw [hm]
  simp only
  split
  · rename_i hnone
    refine ⟨fun t ht => ⟨le_rfl, [], Recorder.start_holds hnone ht, ?_⟩, h.stopped⟩
    show Covers ((w.calls.take m.calls).drop m.calls) [] 0
    rw [List.drop_of_length_le (List.length_take_le _ _)]
    exact .nil
  · rename_i t₀ hrunning
    have hsame : w.recorder.start X unixSecs stems = w.recorder := by
      unfold Recorder.start
      rw [hrunning]
    rw [hsame]
    refine ⟨fun t ht => ?_, h.stopped⟩
    obtain ⟨hstart, pcms, hpcms, hcovers⟩ := h.running t ht
    have howing := Covers.owing hstart (by omega : p ≤ m.calls) hlast hcovers
    rw [show m.calls - p = m.owed from by omega] at howing
    exact ⟨hstart.trans (by omega), pcms, hpcms, howing⟩

theorem Timed.tick (h : w.Timed p) {gap : UInt32} {payload : RecordPayload X}
    (hm : m.msg = .tick gap payload) (hcount : p + m.owed + gap.toNat = m.calls)
    (hcall : w.calls[m.calls]? = some payload.mix) : (w.handle m).Timed (m.calls + 1) := by
  unfold handle
  rw [hm]
  refine ⟨fun t ht => ?_, h.stopped⟩
  obtain ⟨t₁, htake₁, hplayed⟩ := Recorder.tick_holds ht
  obtain ⟨t₀, htake₀, hsilent⟩ := Recorder.tickSilence_holds htake₁
  obtain ⟨hstart, pcms, hpcms, hcovers⟩ := h.running t₀ htake₀
  have hlt := (List.getElem?_eq_some_iff.mp hcall).1
  refine ⟨hstart.trans (by omega), _, hplayed _ (hsilent pcms hpcms), ?_⟩
  -- first what is owed, then what the gap makes up for, then the tick itself
  have howing := Covers.owing hstart (by omega : p ≤ p + m.owed) (by omega) hcovers
  have hgap := Covers.silent ((w.calls.take m.calls).drop (p + m.owed))
  rw [slice_length _ hlt.le, show m.calls - (p + m.owed) = gap.toNat from by omega] at hgap
  have hmade := howing.append hgap
  rw [← slice_append w.calls (by omega) (by omega) (by omega)] at hmade
  have hlast : Covers ((w.calls.take (m.calls + 1)).drop m.calls) [payload.mix] 0 := by
    rw [slice_one w.calls hcall]
    exact .played payload.mix
  have hall := hmade.append hlast
  rw [← slice_append w.calls (by omega) (by omega) hlt.le,
    show p + m.owed - p = m.owed from by omega] at hall
  exact hall

theorem Timed.stop (h : w.Timed p) (hcount : p + m.owed = m.calls)
    (hlast : m.calls ≤ w.calls.length) : (w.stopTake m).Timed p := by
  have hnone : (w.recorder.stop X).take = none := (Recorder.stop_opens X "" w.recorder).2
  refine ⟨fun t ht => absurd (hnone.symm.trans ht) (Option.some_ne_none t).symm, fun e he => ?_⟩
  unfold stopTake at he
  simp only at he
  split at he
  · exact h.stopped e he
  · rename_i t htake
    rcases List.mem_append.mp he with he | he
    · exact h.stopped e he
    · obtain rfl := List.mem_singleton.mp he
      obtain ⟨hstart, pcms, hpcms, hcovers⟩ := h.running t htake
      have howing := Covers.owing hstart (by omega : p ≤ m.calls) hlast hcovers
      rw [show m.calls - p = m.owed from by omega] at howing
      exact ⟨pcms, hpcms, howing⟩

theorem Timed.handle (h : w.Timed p) (hm : Accounts w.calls p m) :
    (w.handle m).Timed (m.next p) := by
  unfold Accounts at hm
  unfold Queued.next
  cases hmsg : m.msg with
  | start unixSecs stems =>
    rw [hmsg] at hm
    exact h.start hmsg hm.1 hm.2
  | tick gap payload =>
    rw [hmsg] at hm
    exact h.tick hmsg hm.1 hm.2
  | stop =>
    rw [hmsg] at hm
    unfold Worker.handle
    rw [hmsg]
    exact h.stop hm.1 hm.2
  | shutdown =>
    rw [hmsg] at hm
    unfold Worker.handle
    rw [hmsg]
    exact h.stop hm.1 hm.2

structure Untouched (w w' : Worker X) : Prop where
  calls : w'.calls = w.calls
  gap : w'.gap = w.gap
  cut : w'.cut = w.cut

theorem handle_untouched (w : Worker X) (m : Queued X) :
    Untouched w (w.handle m) ∧ (w.handle m).queue = w.queue := by
  unfold Worker.handle
  split
  · simp only
    split
    · exact ⟨⟨rfl, rfl, rfl⟩, rfl⟩
    · exact ⟨⟨rfl, rfl, rfl⟩, rfl⟩
  · exact ⟨⟨rfl, rfl, rfl⟩, rfl⟩
  · exact ⟨⟨rfl, rfl, rfl⟩, rfl⟩
  · exact ⟨⟨rfl, rfl, rfl⟩, rfl⟩

theorem Debt.published {debt : ℕ} (h : w.Debt debt) (state : RecordingState) (recording : Bool) :
    Debt { w with state, recording } debt := by
  obtain ⟨p, p', htimed, hfollows, hdebt⟩ := h
  exact ⟨p, p', ⟨htimed.running, htimed.stopped⟩, hfollows, hdebt⟩

theorem takeOne_cons {m : Queued X} {queue : List (Queued X)} (hqueue : w.queue = m :: queue) :
    ∃ state recording, w.takeOne = { { w with queue }.handle m with state, recording } := by
  rw [Worker.takeOne, hqueue]
  dsimp only
  split_ifs
  · exact ⟨_, _, rfl⟩
  · exact ⟨_, _, rfl⟩

theorem takeOne_nil (hqueue : w.queue = []) : w.takeOne = w := by rw [Worker.takeOne, hqueue]

theorem takeOne_untouched (w : Worker X) : Untouched w w.takeOne := by
  rcases hqueue : w.queue with _ | ⟨m, queue⟩
  · rw [takeOne_nil hqueue]
    exact ⟨rfl, rfl, rfl⟩
  · obtain ⟨state, recording, htaken⟩ := takeOne_cons hqueue
    obtain ⟨h, -⟩ := handle_untouched { w with queue } m
    rw [htaken]
    exact ⟨h.calls, h.gap, h.cut⟩

theorem publish_takeOne_untouched (w : Worker X) : Untouched w w.publish.takeOne := by
  have h := takeOne_untouched w.publish
  exact ⟨h.calls, h.gap, h.cut⟩

theorem work_untouched (w : Worker X) : Untouched w w.work := by
  unfold Worker.work
  split_ifs
  · exact ⟨rfl, rfl, rfl⟩
  · exact takeOne_untouched w

theorem send_untouched (w : Worker X) (m : Queued X) : Untouched w (w.send m) := by
  unfold Worker.send
  split_ifs
  · exact ⟨rfl, rfl, rfl⟩
  · have h := publish_takeOne_untouched w
    exact ⟨h.calls, h.gap, h.cut⟩
  · have h := takeOne_untouched w
    exact ⟨h.calls, h.gap, h.cut⟩

theorem Debt.takeOne {debt : ℕ} (h : w.Debt debt) : w.takeOne.Debt debt := by
  rcases hqueue : w.queue with _ | ⟨m, queue⟩
  · rw [takeOne_nil hqueue]
    exact h
  · obtain ⟨p, p', htimed, hfollows, hdebt⟩ := h
    obtain ⟨state, recording, htaken⟩ := takeOne_cons hqueue
    rw [hqueue] at hfollows
    obtain ⟨⟨hcalls, -, -⟩, hrest⟩ := handle_untouched { w with queue } m
    have hhandled : ({ w with queue }.handle m).Timed (m.next p) :=
      Timed.handle ⟨htimed.running, htimed.stopped⟩ hfollows.1
    rw [htaken]
    refine Debt.published ⟨m.next p, p', hhandled, ?_, ?_⟩ state recording
    · rw [hcalls, hrest]
      exact hfollows.2
    · rw [hcalls]
      exact hdebt

theorem Debt.work {debt : ℕ} (h : w.Debt debt) : w.work.Debt debt := by
  unfold Worker.work
  split_ifs
  · exact h.published _ _
  · exact h.takeOne

theorem Debt.queue {debt debt' : ℕ} (h : w.Debt debt)
    (hm : ∀ p', p' + debt = w.calls.length → Accounts w.calls p' m)
    (hnext : ∀ p', p' + debt = w.calls.length → m.next p' + debt' = w.calls.length) :
    Debt { w with queue := w.queue ++ [m] } debt' := by
  obtain ⟨p, p', htimed, hfollows, hdebt⟩ := h
  exact ⟨p, m.next p', ⟨htimed.running, htimed.stopped⟩, hfollows.append (hm p' hdebt),
    hnext p' hdebt⟩

theorem Debt.send {debt debt' : ℕ} (h : w.Debt debt)
    (hm : ∀ p', p' + debt = w.calls.length → Accounts w.calls p' m)
    (hnext : ∀ p', p' + debt = w.calls.length → m.next p' + debt' = w.calls.length) :
    (w.send m).Debt debt' := by
  unfold Worker.send
  split_ifs
  · exact h.queue hm hnext
  · have htaken : w.publish.takeOne.Debt debt := Debt.takeOne (h.published _ _)
    refine htaken.queue ?_ ?_
    · rw [(publish_takeOne_untouched w).calls]
      exact hm
    · rw [(publish_takeOne_untouched w).calls]
      exact hnext
  · refine h.takeOne.queue ?_ ?_
    · rw [(takeOne_untouched w).calls]
      exact hm
    · rw [(takeOne_untouched w).calls]
      exact hnext

def Balanced (w : Worker X) : Prop := w.Debt (w.gap.toNat + w.cut)

theorem Balanced.start (h : w.Balanced) (unixSecs : UInt64)
    (stems : Option (List (MemberId × String))) : (w.start unixSecs stems).Balanced := by
  unfold Balanced Worker.start
  have hsent := send_untouched { w with gap := 0, cut := 0 }
    { msg := .start unixSecs stems, calls := w.calls.length, owed := w.gap.toNat + w.cut }
  rw [hsent.gap, hsent.cut]
  obtain ⟨p, p', htimed, hfollows, hdebt⟩ := h
  have hreset : Worker.Debt { w with gap := 0, cut := 0 } (w.gap.toNat + w.cut) :=
    ⟨p, p', ⟨htimed.running, htimed.stopped⟩, hfollows, hdebt⟩
  refine Debt.send hreset ?_ ?_
  · intro p' hp'
    exact ⟨hp', le_rfl⟩
  · intro p' _
    rfl

theorem Balanced.ending (h : w.Balanced) {msg : Msg X} (hmsg : msg = .stop ∨ msg = .shutdown) :
    (w.send { msg, calls := w.calls.length, owed := w.gap.toNat + w.cut }).Balanced := by
  unfold Balanced
  have hsent := send_untouched w { msg, calls := w.calls.length, owed := w.gap.toNat + w.cut }
  rw [hsent.gap, hsent.cut]
  refine Debt.send h ?_ ?_
  · intro p' hp'
    rcases hmsg with rfl | rfl
    · exact ⟨hp', le_rfl⟩
    · exact ⟨hp', le_rfl⟩
  · intro p' hp'
    rcases hmsg with rfl | rfl
    · exact hp'
    · exact hp'

theorem Balanced.submitTick (h : w.Balanced) (payload : RecordPayload X) :
    (w.submitTick payload).Balanced := by
  obtain ⟨p, p', htimed, hfollows, hdebt⟩ := h
  have hp : p ≤ w.calls.length := hfollows.le.trans (by omega)
  -- one more tick was submitted, which no take has yet
  have htimed' : ∀ gap cut queue,
      Timed { w with gap, cut, queue, calls := w.calls ++ [payload.mix] } p := by
    intro gap cut queue
    refine ⟨fun t ht => ?_, htimed.stopped⟩
    show _ ∧ ∃ pcms, _ ∧ Covers (((w.calls ++ [payload.mix]).take p).drop w.startedAt) pcms w.owed
    rw [List.take_append_of_le_length hp]
    exact htimed.running t ht
  have hgap : w.gap.toUInt32.toNat ≤ w.gap.toNat := by
    rw [UInt64.toNat_toUInt32]
    exact Nat.mod_le _ _
  unfold Worker.submitTick
  simp only
  split_ifs with hroom
  · refine ⟨p, w.calls.length + 1, htimed' _ _ _, ?_, ?_⟩
    · refine (hfollows.grow payload.mix).append ⟨?_, ?_⟩
      · show p' + (w.cut + (w.gap.toNat - w.gap.toUInt32.toNat)) + w.gap.toUInt32.toNat =
          w.calls.length
        omega
      · exact List.getElem?_concat_length
    · show _ = (w.calls ++ [payload.mix]).length
      rw [List.length_append]
      rfl
  · refine ⟨p, p', htimed' _ _ _, hfollows.grow payload.mix, ?_⟩
    show p' + ((w.gap.toUInt32.toUInt64 + 1).toNat + (w.cut + (w.gap.toNat - w.gap.toUInt32.toNat))) =
      (w.calls ++ [payload.mix]).length
    have hone : (w.gap.toUInt32.toUInt64 + 1).toNat = w.gap.toUInt32.toNat + 1 := by
      have hlt := w.gap.toUInt32.toNat_lt
      rw [UInt64.toNat_add, UInt32.toNat_toUInt64, UInt64.toNat_one]
      omega
    rw [hone, List.length_append, List.length_singleton]
    omega

theorem Balanced.step (h : w.Balanced) (a : Action X) : (w.step a).Balanced := by
  unfold Worker.step
  cases a with
  | work =>
    have hwork := work_untouched w
    unfold Balanced
    rw [hwork.gap, hwork.cut]
    exact Debt.work h
  | start unixSecs stems =>
    simp only
    split_ifs
    · exact h
    · exact h.start unixSecs stems
  | submitTick payload =>
    simp only
    split_ifs
    · exact h
    · exact h.submitTick payload
  | stop =>
    simp only
    split_ifs
    · exact h
    · exact h.ending (.inl rfl)
  | drop =>
    simp only
    split_ifs
    · exact h
    · obtain ⟨p, p', htimed, hfollows, hdebt⟩ := h.ending (.inr rfl)
      exact ⟨p, p', ⟨htimed.running, htimed.stopped⟩, hfollows, hdebt⟩

theorem spawn_balanced (X : Encoding) (fails : ℕ → Option String) (uploads : Bool) :
    (spawn X fails uploads).Balanced :=
  ⟨0, 0, ⟨fun t ht => absurd ht (Option.some_ne_none t).symm, fun _ he => absurd he List.not_mem_nil⟩,
    rfl, rfl⟩

theorem settled_run (X : Encoding) (fails : ℕ → Option String) (uploads : Bool)
    (actions : List (Action X)) :
    ∀ e ∈ (run step (spawn X fails uploads) actions).stopped, e.Settled := by
  have hrun : (run step (spawn X fails uploads) actions).Balanced :=
    run_invariant (P := Balanced) (fun _ a h => h.step a) (spawn_balanced X fails uploads) actions
  obtain ⟨p, p', htimed, -, -⟩ := hrun
  exact htimed.stopped

/-- A take that was stopped kept true time exactly if it was owed nothing: every start and
every stop that reached it was given with the gap at zero, and no gap outgrew its message. -/
theorem true_time (X : Encoding) (fails : ℕ → Option String) (uploads : Bool)
    (actions : List (Action X)) :
    (∀ e ∈ (run step (spawn X fails uploads) actions).stopped, e.TrueTime) ↔
      ∀ e ∈ (run step (spawn X fails uploads) actions).stopped, e.owed = 0 :=
  forall₂_congr fun e he => (settled_run X fails uploads actions e he).trueTime_iff

theorem not_trueTime_of_owed {w : Worker X} (hsettled : ∀ e ∈ w.stopped, e.Settled)
    (howed : w.stopped.map Stopped.owed = [1]) : ¬∀ e ∈ w.stopped, e.TrueTime := by
  obtain ⟨e, hstopped, hone⟩ := List.map_eq_singleton_iff.mp howed
  intro h
  rw [hstopped] at h hsettled
  have hnone := (hsettled e (List.mem_singleton_self e)).trueTime_iff.mp
    (h e (List.mem_singleton_self e))
  exact absurd (hone.symm.trans hnone) Nat.one_ne_zero

theorem run_starts {w : Worker X} (hgap : w.gap = 0) (hcut : w.cut = 0)
    (hdropped : w.dropped = false) (n : ℕ) (hroom : w.queue.length + n ≤ queueTicks)
    (unixSecs : UInt64) (stems : Option (List (MemberId × String))) :
    run step w (List.replicate n (.start unixSecs stems)) =
      { w with queue := w.queue ++ List.replicate n {
          msg := .start unixSecs stems, calls := w.calls.length, owed := 0 } } := by
  induction n generalizing w with
  | zero =>
    rw [List.replicate_zero, List.replicate_zero, List.append_nil]
    rfl
  | succ n ih =>
    have hstep : w.step (.start unixSecs stems) = { w with queue := w.queue ++
        [{ msg := .start unixSecs stems, calls := w.calls.length, owed := 0 }] } := by
      have hshort : w.queue.length < queueTicks := by omega
      have howed : w.gap.toNat + w.cut = 0 := by rw [hgap, hcut]; rfl
      rw [Worker.step, if_neg (Bool.eq_false_iff.mp hdropped), Worker.start, Worker.send, howed]
      simp only
      rw [if_pos hshort, ← hgap, ← hcut]
    have hlength : (w.queue ++ [({ msg := .start unixSecs stems, calls := w.calls.length, owed := 0 } :
        Queued X)]).length + n ≤ queueTicks := by
      rw [List.length_append, List.length_singleton]
      omega
    have hrest := ih (w := { w with queue := w.queue ++ [{
      msg := .start unixSecs stems, calls := w.calls.length, owed := 0 }] }) hgap hcut hdropped hlength
    rw [List.replicate_succ, run_cons, hstep, hrest]
    simp only [List.append_assoc, List.singleton_append, ← List.replicate_succ]

/-- The queue is full when a tick is submitted, and the take is stopped before another one is. -/
theorem true_time_full :
    ¬∀ e ∈ (run step (spawn Recorder.mute (fun _ => none) false)
        (List.replicate 400 (.start 0 none) ++ [.submitTick (.default Recorder.mute), .stop] ++
          List.replicate 400 .work)).stopped, e.TrueTime := by
  have howed : (run step (spawn Recorder.mute (fun _ => none) false)
      (List.replicate 400 (.start 0 none) ++ [.submitTick (.default Recorder.mute), .stop] ++
        List.replicate 400 .work)).stopped.map Stopped.owed = [1] := by
    rw [run_append, run_append, run_starts rfl rfl rfl 400 le_rfl]
    decide +kernel
  exact not_trueTime_of_owed (settled_run Recorder.mute (fun _ => none) false _) howed

end Worker
end JamStream.Recording
