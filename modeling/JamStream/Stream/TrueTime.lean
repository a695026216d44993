import JamStream.Stream.Worker

/-! Whether the broadcast keeps true time. What is in the queue is as good as heard, so the
history of what the pipeline got is taken with the queue behind it; against it stands the
history of what was submitted, and the one trails the other by the ticks that are owed. -/

namespace JamStream.Stream.StreamWorker
open Protocol Foundations
open Runs hiding run
variable {A : Type*} {rates : Rates} {w : StreamWorker A}

/-- What the pipeline will have got once the queue is empty. -/
def ahead (w : StreamWorker A) : List (Mark (Option A)) := w.heard ++ w.queue.flatMap Msg.marks

/-- Each stream the pipeline got is the stream submitted, tick for tick, or its head while it
goes on; and over all no tick is left out of the count. So it is now, and however far the
thread gets with what is in the queue. -/
def KeepsTime (rates : Rates) (w : StreamWorker A) : Prop :=
  ∀ answers : List Answers, let v := answers.foldl (work rates) w
    (Stretches.of v.heard).Within (Stretches.of v.calls) ∧ items v.heard <+: items v.calls

/-- What spares the time. A tick that fits makes up for every tick refused since the last
one that did, and for none that was not of its stream. A stop leaves nothing owed. -/
def Spared (w : StreamWorker A) : Action A → Prop
  | .submitTick _ _ => w.dropped = false → w.queue.length < queueTicks →
      w.gap.toUInt32.toNat = w.refused ∧
        ((Stretches.of w.calls).current.isSome → w.refused = w.lost)
  | .apply _ .stop => w.dropped = false → w.queue.length < queueTicks →
      (Stretches.of w.calls).current.isSome → w.lost = 0
  | _ => True

/-- What was submitted is ahead of what will be heard by the ticks that are owed. -/
structure Balanced (w : StreamWorker A) : Prop where
  stream : Stretches.Trails none w.lost (Stretches.of w.ahead) (Stretches.of w.calls)
  ticks : items w.calls = items w.ahead ++ List.replicate w.refused none

theorem handle_history (w : StreamWorker A) (e : Answers) (m : Msg A) :
    (w.handle e m).heard = w.heard ++ m.marks ∧ (w.handle e m).queue = w.queue ∧
      (w.handle e m).calls = w.calls := by
  cases m with
  | tick nowMs gap audio => exact ⟨rfl, rfl, rfl⟩
  | op nowMs op => exact ⟨rfl, rfl, rfl⟩
  | _ => exact ⟨(List.append_nil _).symm, rfl, rfl⟩

theorem work_history (rates : Rates) (w : StreamWorker A) (e : Answers) :
    (w.work rates e).ahead = w.ahead ∧ (w.work rates e).calls = w.calls ∧
      (w.work rates e).queue = w.queue.tail := by
  unfold ahead
  cases hqueue : w.queue with
  | nil =>
    have hidle : w.work rates e = w := by
      unfold work
      rw [hqueue]
    rw [hidle, hqueue]
    exact ⟨rfl, rfl, rfl⟩
  | cons m queue =>
    obtain ⟨hheard, htail, hcalls⟩ := handle_history { w with queue } e m
    have hwork : (w.work rates e).heard = ({ w with queue }.handle e m).heard ∧
        (w.work rates e).queue = ({ w with queue }.handle e m).queue ∧
        (w.work rates e).calls = ({ w with queue }.handle e m).calls := by
      unfold work
      rw [hqueue]
      cases m <;> exact ⟨rfl, rfl, rfl⟩
    rw [hwork.1, hwork.2.1, hwork.2.2, hheard, htail, hcalls, List.flatMap_cons,
      List.append_assoc]
    exact ⟨rfl, rfl, rfl⟩

theorem works_history (rates : Rates) (answers : List Answers) (w : StreamWorker A) :
    (answers.foldl (work rates) w).ahead = w.ahead ∧
      (answers.foldl (work rates) w).calls = w.calls ∧
      (answers.foldl (work rates) w).queue = w.queue.drop answers.length := by
  induction answers generalizing w with
  | nil => exact ⟨rfl, rfl, rfl⟩
  | cons e answers ih =>
    obtain ⟨hahead, hcalls, hqueue⟩ := work_history rates w e
    obtain ⟨hahead', hcalls', hqueue'⟩ := ih (w.work rates e)
    refine ⟨hahead'.trans hahead, hcalls'.trans hcalls, ?_⟩
    rw [List.foldl_cons, hqueue', hqueue, List.drop_tail]
    rfl

def willing : Answers where
  conditions :=
    { encoder := none, installed := false, onStop := fun _ => none, clear := fun _ => none
      stage := fun _ => none, pusher := fun _ => none, trims := fun _ => false }
  writes _ := { audio := none, frame := fun _ => .ok .queued }

theorem keepsTime_iff : w.KeepsTime rates ↔
    (Stretches.of w.ahead).Within (Stretches.of w.calls) ∧ items w.ahead <+: items w.calls := by
  constructor
  · intro h
    obtain ⟨hahead, hcalls, hqueue⟩ :=
      works_history rates (List.replicate w.queue.length willing) w
    have hdone := h (List.replicate w.queue.length willing)
    rw [List.length_replicate, List.drop_length] at hqueue
    rw [ahead, hqueue, List.flatMap_nil, List.append_nil] at hahead
    simp only at hdone
    rwa [hahead, hcalls] at hdone
  · rintro ⟨hwithin, hitems⟩ answers
    obtain ⟨hahead, hcalls, -⟩ := works_history rates answers w
    simp only
    rw [hcalls]
    rw [← hahead] at hwithin hitems
    refine ⟨?_, ?_⟩
    · refine Stretches.Within.trans ?_ hwithin
      rw [ahead, Stretches.of_append]
      exact Stretches.within_addAll _ _
    · refine List.IsPrefix.trans ?_ hitems
      rw [ahead, items_append]
      exact List.prefix_append _ _

theorem Balanced.keepsTime (h : w.Balanced) : w.KeepsTime rates := by
  refine keepsTime_iff.mpr ⟨h.stream.within, ?_⟩
  rw [h.ticks]
  exact List.prefix_append _ _

theorem balanced_spawn (A : Type*) (cfg : StreamConfig) : (spawn A cfg).Balanced where
  stream := .refl none _
  ticks := rfl

theorem Balanced.work (h : w.Balanced) (e : Answers) : (w.work rates e).Balanced := by
  have hcounts : (w.work rates e).lost = w.lost ∧ (w.work rates e).refused = w.refused := by
    unfold StreamWorker.work
    cases w.queue with
    | nil => exact ⟨rfl, rfl⟩
    | cons m queue => cases m <;> exact ⟨rfl, rfl⟩
  obtain ⟨hahead, hcalls, -⟩ := work_history rates w e
  constructor
  · rw [hahead, hcalls, hcounts.1]
    exact h.stream
  · rw [hahead, hcalls, hcounts.2]
    exact h.ticks

theorem Balanced.send (h : w.Balanced) {m : Msg A} (hm : m.marks = []) : (w.send m []).Balanced := by
  unfold StreamWorker.send
  split_ifs
  · have hmarks : (w.queue ++ [m]).flatMap Msg.marks = w.queue.flatMap Msg.marks := by
      rw [List.flatMap_append, List.flatMap_singleton, hm, List.append_nil]
    constructor
    · show Stretches.Trails none w.lost (Stretches.of (w.heard ++ (w.queue ++ [m]).flatMap _))
        (Stretches.of (w.calls ++ []))
      rw [hmarks, List.append_nil]
      exact h.stream
    · show items (w.calls ++ []) = items (w.heard ++ (w.queue ++ [m]).flatMap _) ++
        List.replicate w.refused none
      rw [hmarks, List.append_nil]
      exact h.ticks
  · exact h

theorem Balanced.drop (h : w.Balanced) : w.drop.Balanced := by
  have hsent : (w.send .shutdown []).Balanced := h.send rfl
  unfold StreamWorker.drop
  split_ifs
  · exact ⟨hsent.stream, hsent.ticks⟩
  · exact h

theorem Balanced.refuse (h : w.Balanced) (nowMs : UInt64) (audio : A)
    (hfull : ¬w.queue.length < queueTicks) : (w.submitTick nowMs audio).Balanced := by
  unfold submitTick
  simp only
  rw [if_neg hfull]
  constructor
  · show Stretches.Trails none (w.lost + 1) (Stretches.of w.ahead)
      (Stretches.of (w.calls ++ [.item none]))
    rw [Stretches.of_append]
    exact h.stream.missed
  · show items (w.calls ++ [.item none]) = items w.ahead ++ List.replicate (w.refused + 1) none
    rw [items_append, h.ticks, List.append_assoc, List.replicate_succ']
    rfl

theorem submitTick_fits (nowMs : UInt64) (audio : A) (hroom : w.queue.length < queueTicks) :
    (w.submitTick nowMs audio).ahead = w.ahead ++
        (List.replicate w.gap.toUInt32.toNat none ++ [some audio]).map .item ∧
      (w.submitTick nowMs audio).calls = w.calls ++ [.item (some audio)] ∧
      (w.submitTick nowMs audio).lost = 0 ∧ (w.submitTick nowMs audio).refused = 0 := by
  unfold submitTick
  simp only
  rw [if_pos hroom]
  refine ⟨?_, rfl, rfl, rfl⟩
  rw [ahead, ahead, List.flatMap_append, List.flatMap_singleton, List.append_assoc]
  rfl

theorem Balanced.fit (h : w.Balanced) (nowMs : UInt64) (audio : A)
    (hroom : w.queue.length < queueTicks) (hcount : w.gap.toUInt32.toNat = w.refused)
    (hstream : (Stretches.of w.calls).current.isSome → w.refused = w.lost) :
    (w.submitTick nowMs audio).Balanced := by
  obtain ⟨hahead, hcalls, hlost, hrefused⟩ := submitTick_fits nowMs audio hroom
  constructor
  · rw [hahead, hcalls, hlost, Stretches.of_append, Stretches.of_append]
    refine h.stream.made_up (fun hopen => ?_) (some audio)
    rw [← h.stream.isSome] at hopen
    exact hcount.trans (hstream hopen)
  · rw [hahead, hcalls, hrefused, items_append, items_append, items_map_item, h.ticks, hcount,
      List.replicate_zero, List.append_nil, List.append_assoc]
    rfl

theorem Balanced.of_fit (h : w.Balanced) (nowMs : UInt64) (audio : A)
    (hroom : w.queue.length < queueTicks) (hkeeps : (w.submitTick nowMs audio).KeepsTime rates) :
    w.gap.toUInt32.toNat = w.refused ∧
      ((Stretches.of w.calls).current.isSome → w.refused = w.lost) := by
  obtain ⟨hahead, hcalls, -⟩ := submitTick_fits nowMs audio hroom
  obtain ⟨hwithin, hitems⟩ := keepsTime_iff.mp hkeeps
  have hne : some audio ≠ none := Option.some_ne_none audio
  have hcount : w.gap.toUInt32.toNat = w.refused := by
    rw [hahead, hcalls, items_append, items_append, items_map_item, h.ticks,
      List.append_assoc, List.prefix_append_right_inj] at hitems
    exact Stretches.replicate_prefix hne hitems
  refine ⟨hcount, fun hopen => ?_⟩
  rw [h.stream.isSome] at hopen
  rw [hahead, hcalls, Stretches.of_append, Stretches.of_append] at hwithin
  exact hcount.symm.trans (h.stream.of_made_up hne hopen hwithin)

theorem apply_fits (nowMs : UInt64) (op : StreamOp) (hroom : w.queue.length < queueTicks) :
    (w.apply nowMs op).ahead = w.ahead ++ opMarks op ∧
      (w.apply nowMs op).calls = w.calls ++ opMarks op ∧
      (w.apply nowMs op).refused = w.refused ∧
      (w.apply nowMs op).lost =
        if op = .start ∧ (Stretches.of w.calls).current = none then 0 else w.lost := by
  have hsent : w.send (.op nowMs op) (opMarks op) =
      { w with queue := w.queue ++ [.op nowMs op], calls := w.calls ++ opMarks op } := if_pos hroom
  unfold StreamWorker.apply
  simp only
  rw [if_pos hroom, hsent]
  refine ⟨?_, rfl, rfl, rfl⟩
  rw [ahead, ahead, List.flatMap_append, List.flatMap_singleton, List.append_assoc]
  rfl

theorem items_opMarks (op : StreamOp) : items (opMarks op : List (Mark (Option A))) = [] := by
  cases op <;> rfl

theorem Balanced.apply (h : w.Balanced) (nowMs : UInt64) (op : StreamOp)
    (hroom : w.queue.length < queueTicks)
    (hstop : op = .stop → (Stretches.of w.calls).current.isSome → w.lost = 0) :
    (w.apply nowMs op).Balanced := by
  obtain ⟨hahead, hcalls, hrefused, hlost⟩ := apply_fits nowMs op hroom
  have hitems : items (w.apply nowMs op).calls =
      items (w.apply nowMs op).ahead ++ List.replicate (w.apply nowMs op).refused none := by
    rw [hahead, hcalls, hrefused, items_append, items_append, items_opMarks, List.append_nil,
      List.append_nil, h.ticks]
  refine ⟨?_, hitems⟩
  rw [hahead, hcalls, hlost, Stretches.of_append, Stretches.of_append]
  cases op with
  | start =>
    have hopened := h.stream.opens
    have hsame : (if StreamOp.start = .start ∧ (Stretches.of w.calls).current = none then 0
        else w.lost) = if (Stretches.of w.ahead).current.isSome then w.lost else 0 := by
      rw [← h.stream.isSome]
      cases (Stretches.of w.calls).current <;> rfl
    rw [hsame]
    exact hopened
  | stop =>
    have hclosed : Stretches.Trails none 0 ((Stretches.of w.ahead).add .closes)
        ((Stretches.of w.calls).add .closes) := by
      refine h.stream.closes fun hopen => hstop rfl ?_
      rwa [h.stream.isSome]
    have hnone : ((Stretches.of w.ahead).add .closes).current = none := by
      unfold Stretches.add
      cases hcur : (Stretches.of w.ahead).current with
      | none => exact hcur
      | some cur => rfl
    exact hclosed.of_none hnone _
  | addDestination id platform key => exact h.stream
  | removeDestination id => exact h.stream

theorem Balanced.of_stop (h : w.Balanced) (nowMs : UInt64) (hroom : w.queue.length < queueTicks)
    (hopen : (Stretches.of w.calls).current.isSome)
    (hkeeps : (w.apply nowMs .stop).KeepsTime rates) : w.lost = 0 := by
  obtain ⟨hahead, hcalls, -⟩ := apply_fits nowMs .stop hroom
  have hwithin := (keepsTime_iff.mp hkeeps).1
  rw [hahead, hcalls, Stretches.of_append, Stretches.of_append] at hwithin
  rw [h.stream.isSome] at hopen
  exact h.stream.of_closes hopen hwithin

theorem Balanced.step (h : w.Balanced) {act : Action A} (hspared : w.Spared act) :
    (w.step rates act).Balanced := by
  have halive : ∀ v : StreamWorker A, (w.dropped = false → v.Balanced) →
      (if w.dropped then w else v).Balanced := by
    intro v hv
    split_ifs with hgone
    · exact h
    · exact hv (Bool.eq_false_iff.mpr hgone)
  cases act with
  | work e => exact h.work e
  | submitTick nowMs audio =>
    refine halive _ fun hdropped => ?_
    by_cases hroom : w.queue.length < queueTicks
    · obtain ⟨hcount, hstream⟩ := hspared hdropped hroom
      exact h.fit nowMs audio hroom hcount hstream
    · exact h.refuse nowMs audio hroom
  | apply nowMs op =>
    refine halive _ fun hdropped => ?_
    by_cases hroom : w.queue.length < queueTicks
    · refine h.apply nowMs op hroom ?_
      rintro rfl
      exact hspared hdropped hroom
    · have hwaits : w.apply nowMs op = w := if_neg hroom
      rw [hwaits]
      exact h
  | submitRoster => exact halive _ fun _ => h.send rfl
  | beat nowMs => exact halive _ fun _ => h.send rfl
  | drop => exact halive _ fun _ => h.drop

theorem Balanced.spared (h : w.Balanced) {act : Action A}
    (hkeeps : (w.step rates act).KeepsTime rates) : w.Spared act := by
  cases act with
  | submitTick nowMs audio =>
    intro hdropped hroom
    have hstep : w.step rates (.submitTick nowMs audio) = w.submitTick nowMs audio := by
      rw [StreamWorker.step, hdropped]
      rfl
    rw [hstep] at hkeeps
    exact h.of_fit nowMs audio hroom hkeeps
  | apply nowMs op =>
    cases op with
    | stop =>
      intro hdropped hroom hopen
      have hstep : w.step rates (.apply nowMs .stop) = w.apply nowMs .stop := by
        rw [StreamWorker.step, hdropped]
        rfl
      rw [hstep] at hkeeps
      exact h.of_stop nowMs hroom hopen hkeeps
    | _ => trivial
  | _ => trivial

/-- The broadcast keeps true time in every state of a run exactly when every step of the run
spares it. -/
theorem true_time_iff (A : Type*) (cfg : StreamConfig) (rates : Rates) (acts : List (Action A)) :
    Throughout (step rates) (KeepsTime rates) (spawn A cfg) acts ↔
      Meets (step rates) Spared (spawn A cfg) acts :=
  throughout_iff_meets (I := Balanced) (fun _ h => h.keepsTime) (fun _ _ h => h.step)
    (fun _ _ h => h.spared) (balanced_spawn A cfg)

/-- The queue is full when the tick of a stream is submitted, and the stream is stopped before
another one is. The tick of the next stream comes with the gap. -/
def stalled : List (Action Unit) :=
  .apply 0 .start :: List.replicate 199 (.beat 0) ++ [.submitTick 0 (), .work willing,
    .apply 0 .stop, .work willing, .apply 0 .start, .work willing, .submitTick 0 ()]

/-- The first stream ends a tick short, and the second begins with a silence for it. -/
theorem true_time_stalled :
    ¬∀ (A : Type) (cfg : StreamConfig) (rates : Rates) (acts : List (Action A)),
      Throughout (step rates) (KeepsTime rates) (spawn A cfg) acts := by
  intro h
  have hkeeps := (h Unit { catalog := .bundled, fps := 30, ffmpeg := "ffmpeg" } ⟨0, 0⟩ stalled).last
  exact absurd (keepsTime_iff.mp hkeeps).1.closed (by decide +kernel)

end JamStream.Stream.StreamWorker
