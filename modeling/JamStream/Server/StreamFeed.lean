import JamStream.Stream.TrueTime

/-! The server's loop as the broadcast's thread sees it: each turn of the loop makes its calls
on the thread's handle in order, and a call that finds the queue full waits for the thread, all
but the one that hands over a tick. -/

namespace JamStream.Server
open Protocol JamStream.Stream
open Runs
variable {A : Type*}

/-- One turn of the loop. With each request of the host goes whether a thread could be started
for it. -/
inductive Iteration (A : Type*)
  | tick (nowMs rosterEpoch : UInt64) (audio : A) (requests : List (StreamOp × Bool))
  | heartbeat (nowMs : UInt64)
  | datagram (nowMs : UInt64) (requests : List (StreamOp × Bool))

def Iteration.requests : Iteration A → List (StreamOp × Bool)
  | tick _ _ _ requests => requests
  | heartbeat _ => []
  | datagram _ requests => requests

inductive StreamCall (A : Type*)
  | roster (rosterEpoch : UInt64)
  | tick (nowMs : UInt64) (audio : A)
  | apply (nowMs : UInt64) (op : StreamOp) (spawns : Bool)
  | beat (nowMs : UInt64)

structure StreamLoop (A : Type*) where
  stream : Option (StreamWorker A)
  streamRosterEpoch : UInt64
  /-- What the turn going on still has to call. -/
  pending : List (StreamCall A)

namespace StreamCall

def isTick : StreamCall A → Bool
  | tick .. => true
  | _ => false

/-- A send into a full queue waits for the thread; the try that a tick makes does not. -/
def waits (stream : Option (StreamWorker A)) (c : StreamCall A) : Bool :=
  !c.isTick && stream.any fun w => decide (queueTicks ≤ w.queue.length)

def effect (cfg : StreamConfig) (stream : Option (StreamWorker A)) :
    StreamCall A → Option (StreamWorker A)
  | roster _ => stream.map (·.send .roster [])
  | tick nowMs audio => stream.map (·.submitTick nowMs audio)
  | apply nowMs op spawns =>
    (stream.or (if spawns then some (.spawn A cfg) else none)).map (·.apply nowMs op)
  | beat nowMs => stream.map (·.send (.beat nowMs) [])

end StreamCall

namespace StreamLoop

def new (A : Type*) : StreamLoop A := { stream := none, streamRosterEpoch := 0, pending := [] }

/-- A tick only while the host wants a stream, and before it the roster if it has changed. -/
def feedStream (l : StreamLoop A) (nowMs rosterEpoch : UInt64) (audio : A) : List (StreamCall A) :=
  match l.stream with
  | none => []
  | some w =>
    if w.started then
      (if rosterEpoch ≠ l.streamRosterEpoch then [.roster rosterEpoch] else []) ++
        [.tick nowMs audio]
    else []

def beatStream (l : StreamLoop A) (nowMs : UInt64) : List (StreamCall A) :=
  match l.stream with
  | none => []
  | some _ => [.beat nowMs]

def drainEvents (nowMs : UInt64) (requests : List (StreamOp × Bool)) : List (StreamCall A) :=
  requests.map fun request => .apply nowMs request.1 request.2

def calls (l : StreamLoop A) : Iteration A → List (StreamCall A)
  | .tick nowMs rosterEpoch audio requests =>
    l.feedStream nowMs rosterEpoch audio ++ drainEvents nowMs requests
  | .heartbeat nowMs => l.beatStream nowMs
  | .datagram nowMs requests => drainEvents nowMs requests

def perform (cfg : StreamConfig) (l : StreamLoop A) (c : StreamCall A) : StreamLoop A :=
  { l with
    stream := c.effect cfg l.stream
    streamRosterEpoch := match c with
      | .roster rosterEpoch => rosterEpoch
      | _ => l.streamRosterEpoch }

/-- The calls all complete with the thread taking no step. -/
def Completes (cfg : StreamConfig) : Option (StreamWorker A) → List (StreamCall A) → Prop
  | _, [] => True
  | stream, c :: rest => c.waits stream = false ∧ Completes cfg (c.effect cfg stream) rest

instance Completes.decidable (cfg : StreamConfig) :
    ∀ (stream : Option (StreamWorker A)) (cs : List (StreamCall A)),
      Decidable (Completes cfg stream cs)
  | _, [] => isTrue trivial
  | stream, c :: rest => @instDecidableAnd _ _ inferInstance
      (Completes.decidable cfg (c.effect cfg stream) rest)

def NeverWaits (cfg : StreamConfig) (l : StreamLoop A) : Prop := Completes cfg l.stream l.pending

end StreamLoop

/-- The loop begins a turn or makes its next call; the thread works whenever it likes. -/
inductive LoopMove (A : Type*)
  | iterate (i : Iteration A)
  | call
  | work (e : Answers)

namespace StreamLoop

def step (cfg : StreamConfig) (rates : Rates) (l : StreamLoop A) : LoopMove A → StreamLoop A
  | .iterate i =>
    match l.pending with
    | [] => { l with pending := l.calls i }
    | _ :: _ => l
  | .call =>
    match l.pending with
    | [] => l
    | c :: rest => if c.waits l.stream then l else { l with pending := rest }.perform cfg c
  | .work e => { l with stream := l.stream.map (·.work rates e) }

/-- How many messages the calls send, through the last of them that may wait. -/
def needs : List (StreamCall A) → ℕ
  | [] => 0
  | c :: rest => if c.isTick ∧ needs rest = 0 then 0 else needs rest + 1

/-- The queue takes all that the turn may have to wait for. Without a thread the first request
that can start one finds its queue empty. -/
def Room (l : StreamLoop A) (i : Iteration A) : Prop :=
  match l.stream with
  | none => (i.requests.dropWhile fun request => !request.2).length ≤ queueTicks
  | some w => needs (l.calls i) = 0 ∨ w.queue.length + needs (l.calls i) ≤ queueTicks

def Roomy (l : StreamLoop A) : LoopMove A → Prop
  | .iterate i => l.pending = [] → l.Room i
  | _ => True

section
variable {cfg : StreamConfig} {w : StreamWorker A} {c : StreamCall A}

theorem length_send (w : StreamWorker A) (m : Msg A) (hroom : w.queue.length < queueTicks) :
    (w.send m []).queue.length = w.queue.length + 1 := by
  rw [StreamWorker.send, if_pos hroom]
  exact List.length_append

theorem length_submitTick (w : StreamWorker A) (nowMs : UInt64) (audio : A) :
    (w.submitTick nowMs audio).queue.length =
      if w.queue.length < queueTicks then w.queue.length + 1 else w.queue.length := by
  unfold StreamWorker.submitTick
  split_ifs with hroom
  · exact List.length_append
  · rfl

theorem length_apply (w : StreamWorker A) (nowMs : UInt64) (op : StreamOp)
    (hroom : w.queue.length < queueTicks) :
    (w.apply nowMs op).queue.length = w.queue.length + 1 := by
  have hsent : (w.send (.op nowMs op) (opMarks op)).queue = w.queue ++ [.op nowMs op] := by
    rw [StreamWorker.send, if_pos hroom]
  have hqueue : (w.apply nowMs op).queue = (w.send (.op nowMs op) (opMarks op)).queue := by
    unfold StreamWorker.apply
    simp only
    rw [if_pos hroom]
  rw [hqueue, hsent]
  exact List.length_append

theorem length_work (rates : Rates) (w : StreamWorker A) (e : Answers) :
    (w.work rates e).queue.length ≤ w.queue.length := by
  unfold StreamWorker.work
  rcases hqueue : w.queue with _ | ⟨m, queue⟩
  · rw [hqueue]
  · cases m with
    | tick nowMs gap audio => exact Nat.le_succ _
    | roster => exact Nat.le_succ _
    | op nowMs op => exact Nat.le_succ _
    | beat nowMs => exact Nat.le_succ _
    | shutdown => exact Nat.le_succ _

theorem effect_waits (cfg : StreamConfig) (hcall : c.isTick = false)
    (hroom : w.queue.length < queueTicks) :
    ∃ w', c.effect cfg (some w) = some w' ∧ w'.queue.length = w.queue.length + 1 := by
  cases c with
  | tick nowMs audio => exact nomatch hcall
  | roster rosterEpoch => exact ⟨_, rfl, length_send w _ hroom⟩
  | apply nowMs op spawns => exact ⟨_, rfl, length_apply w nowMs op hroom⟩
  | beat nowMs => exact ⟨_, rfl, length_send w _ hroom⟩

theorem waits_some (hcall : c.isTick = false) :
    c.waits (some w) = false ↔ w.queue.length < queueTicks := by
  rw [StreamCall.waits, hcall]
  simp

theorem completes_some (cs : List (StreamCall A)) :
    Completes cfg (some w) cs ↔ needs cs = 0 ∨ w.queue.length + needs cs ≤ queueTicks := by
  induction cs generalizing w with
  | nil => exact iff_of_true trivial (.inl rfl)
  | cons c rest ih =>
    rcases hcall : c.isTick with _ | _
    · have hneeds : needs (c :: rest) = needs rest + 1 := by
        rw [needs, hcall, if_neg (fun h => Bool.false_ne_true h.1)]
      rw [Completes, waits_some hcall, hneeds]
      constructor
      · rintro ⟨hroom, hrest⟩
        obtain ⟨w', heffect, hlength⟩ := effect_waits cfg hcall hroom
        rw [heffect, ih, hlength] at hrest
        omega
      · intro h
        have hroom : w.queue.length < queueTicks := by omega
        obtain ⟨w', heffect, hlength⟩ := effect_waits cfg hcall hroom
        rw [heffect, ih, hlength]
        exact ⟨hroom, by omega⟩
    · cases c with
      | roster => exact nomatch hcall
      | apply => exact nomatch hcall
      | beat => exact nomatch hcall
      | tick nowMs audio =>
        have hrest : Completes cfg (some w) (.tick nowMs audio :: rest) ↔
            needs rest = 0 ∨ (w.submitTick nowMs audio).queue.length + needs rest ≤ queueTicks :=
          (and_iff_right rfl).trans ih
        have hlength := length_submitTick w nowMs audio
        rw [hrest, needs]
        by_cases hnone : needs rest = 0
        · exact iff_of_true (.inl hnone) (.inl (if_pos ⟨hcall, hnone⟩))
        · rw [if_neg (fun h : _ ∧ _ => hnone h.2)]
          by_cases hroom : w.queue.length < queueTicks
          · rw [if_pos hroom] at hlength
            omega
          · rw [if_neg hroom] at hlength
            omega

theorem needs_drainEvents (nowMs : UInt64) (requests : List (StreamOp × Bool)) :
    needs (drainEvents nowMs requests : List (StreamCall A)) = requests.length := by
  induction requests with
  | nil => rfl
  | cons request rest ih =>
    show (if _ then 0 else needs (drainEvents nowMs rest : List (StreamCall A)) + 1) = _
    rw [if_neg (fun h => Bool.false_ne_true h.1), ih]
    rfl

theorem completes_none (nowMs : UInt64) (requests : List (StreamOp × Bool)) :
    Completes (A := A) cfg none (drainEvents nowMs requests) ↔
      (requests.dropWhile fun request => !request.2).length ≤ queueTicks := by
  induction requests with
  | nil => exact iff_of_true trivial (Nat.zero_le _)
  | cons request rest ih =>
    rcases request with ⟨op, _ | _⟩
    · exact (and_iff_right rfl).trans ih
    · have hempty : ((StreamWorker.spawn A cfg).apply nowMs op).queue.length = 1 :=
        length_apply (.spawn A cfg) nowMs op (show 0 < 200 by decide)
      have hrest : Completes (A := A) cfg none (drainEvents nowMs ((op, true) :: rest)) ↔
          Completes cfg (some ((StreamWorker.spawn A cfg).apply nowMs op))
            (drainEvents nowMs rest) := and_iff_right rfl
      rw [hrest, completes_some, needs_drainEvents, hempty]
      show _ ↔ rest.length + 1 ≤ queueTicks
      have hone : 0 < queueTicks := by decide
      omega

theorem calls_none {l : StreamLoop A} (h : l.stream = none) (i : Iteration A) :
    ∃ nowMs, l.calls i = drainEvents nowMs i.requests := by
  cases i with
  | tick nowMs rosterEpoch audio requests =>
    refine ⟨nowMs, ?_⟩
    rw [calls, feedStream, h]
    rfl
  | heartbeat nowMs =>
    refine ⟨nowMs, ?_⟩
    rw [calls, beatStream, h]
    rfl
  | datagram nowMs requests => exact ⟨nowMs, rfl⟩

theorem completes_iff_room (l : StreamLoop A) (i : Iteration A) :
    Completes cfg l.stream (l.calls i) ↔ l.Room i := by
  unfold Room
  rcases hstream : l.stream with _ | w
  · obtain ⟨nowMs, hcalls⟩ := calls_none hstream i
    rw [hcalls]
    exact completes_none nowMs i.requests
  · exact completes_some _

theorem Completes.work (rates : Rates) (e : Answers) {stream : Option (StreamWorker A)}
    {cs : List (StreamCall A)} (h : Completes cfg stream cs) :
    Completes cfg (stream.map (·.work rates e)) cs := by
  rcases stream with _ | w
  · exact h
  · have hlength := length_work rates w e
    rw [Option.map_some, completes_some]
    rw [completes_some] at h
    omega

variable {rates : Rates} {l : StreamLoop A}

theorem NeverWaits.step (h : l.NeverWaits cfg) {m : LoopMove A} (hroomy : l.Roomy m) :
    (l.step cfg rates m).NeverWaits cfg := by
  cases m with
  | iterate i =>
    rcases hpending : l.pending with _ | ⟨c, rest⟩
    · have hstep : l.step cfg rates (.iterate i) = { l with pending := l.calls i } := by
        rw [StreamLoop.step, hpending]
      rw [hstep]
      exact (completes_iff_room l i).mpr (hroomy hpending)
    · have hstep : l.step cfg rates (.iterate i) = l := by
        rw [StreamLoop.step, hpending]
      rw [hstep]
      exact h
  | call =>
    rcases hpending : l.pending with _ | ⟨c, rest⟩
    · have hstep : l.step cfg rates .call = l := by
        rw [StreamLoop.step, hpending]
      rw [hstep]
      exact h
    · have hrest : Completes cfg l.stream (c :: rest) := hpending ▸ h
      have hstep : l.step cfg rates .call = { l with pending := rest }.perform cfg c := by
        rw [StreamLoop.step, hpending]
        exact if_neg (ne_true_of_eq_false hrest.1)
      rw [hstep]
      exact hrest.2
  | work e => exact Completes.work rates e h

theorem Roomy.of_neverWaits {m : LoopMove A} (h : (l.step cfg rates m).NeverWaits cfg) :
    l.Roomy m := by
  cases m with
  | iterate i =>
    intro hpending
    have hstep : l.step cfg rates (.iterate i) = { l with pending := l.calls i } := by
      rw [StreamLoop.step, hpending]
    rw [hstep] at h
    exact (completes_iff_room l i).mp h
  | call => trivial
  | work e => trivial

end

/-- The loop waits for the broadcast in no state of a run exactly when every turn begins with
room in the queue for what it sends, through the last message it would wait with. -/
theorem never_waits_iff (A : Type*) (cfg : StreamConfig) (rates : Rates)
    (moves : List (LoopMove A)) :
    Throughout (step cfg rates) (NeverWaits cfg) (new A) moves ↔
      Meets (step cfg rates) Roomy (new A) moves :=
  throughout_iff_meets (I := NeverWaits cfg) (fun _ h => h) (fun _ _ h => h.step)
    (fun _ _ _ h => .of_neverWaits h) (s := new A) trivial

/-- The host starts the stream, the encoder stalls, the roster of the host alone and the ticks
fill the queue, and a member joins. -/
def joining : List (LoopMove Unit) :=
  [.iterate (.datagram 0 [(.start, true)]), .call, .work StreamWorker.willing] ++
    [.iterate (.tick 0 1 () []), .call, .call] ++
      (List.replicate 198 [.iterate (.tick 0 1 () []), .call]).flatten ++
        [.iterate (.tick 0 2 () [])]

def bundled : StreamConfig := { catalog := .bundled, fps := 30, ffmpeg := "ffmpeg" }

def joined : StreamLoop Unit :=
  run (step bundled ⟨0, 0⟩) (new Unit) joining

theorem not_neverWaits {cfg : StreamConfig} {l : StreamLoop A}
    (h : l.pending.head?.any (·.waits l.stream) = true) : ¬l.NeverWaits cfg := by
  intro hnever
  rcases hpending : l.pending with _ | ⟨c, rest⟩
  · rw [hpending] at h
    exact nomatch h
  · rw [hpending] at h
    rw [NeverWaits, hpending] at hnever
    exact Bool.false_ne_true (hnever.1.symm.trans h)

theorem never_waits_joining :
    ¬∀ (A : Type) (cfg : StreamConfig) (rates : Rates) (moves : List (LoopMove A)),
      Throughout (step cfg rates) (NeverWaits cfg) (new A) moves := by
  intro h
  apply not_neverWaits (l := joined) (by decide +kernel)
  -- the run itself is left to the kernel
  unfold joined
  generalize joining = moves
  exact (h Unit bundled ⟨0, 0⟩ moves).last

end StreamLoop
end JamStream.Server
