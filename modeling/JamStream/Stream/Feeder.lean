import JamStream.Foundations.Runs
import JamStream.Stream.Pipeline

/-! A child's pipe, its backlog, and the thread that drains the backlog into it. The host
submits in two turns at the lock, the copy between them; the thread takes one item a turn and
writes it with the lock free. What either side does in one turn is a move. -/

namespace JamStream.Stream
open Protocol Runs

inductive Overflow
  | discard
  | keep
deriving DecidableEq

structure Queue where
  budget : ℕ
  overflow : Overflow
  label : String

structure QueueState where
  items : List Bytes
  bytes : ℕ
  closed : Bool
  error : Option String
  overSince : Option ℕ
  spare : List Bytes
deriving DecidableEq

inductive Refusal
  | brokenPipe (error : String)
  | timedOut (label : String) (bytes waited : ℕ)
deriving DecidableEq

/-- Five seconds, in nanoseconds. -/
def stall : ℕ := 5000000000

namespace QueueState

def empty : QueueState :=
  { items := [], bytes := 0, closed := false, error := none, overSince := none, spare := [] }

def popSpare (s : QueueState) : QueueState × Bytes :=
  ({ s with spare := s.spare.dropLast }, s.spare.getLast?.getD [])

/-- The first turn of a submission: a buffer to copy into, or the answer. The clock is read
once to mark the queue as over its cap, and once for how long it has been so. -/
def claim (q : Queue) (s : QueueState) (now later len : ℕ) :
    QueueState × (Bytes ⊕ Except Refusal Feed) :=
  match s.error with
  | some err => (s, .inr (.error (.brokenPipe err)))
  | none =>
    if s.items.isEmpty || s.bytes + len ≤ q.budget then
      let r := { s with overSince := none }.popSpare
      (r.1, .inl r.2)
    else
      let since := s.overSince.getD now
      let s := { s with overSince := some since }
      if stall ≤ later - since then
        (s, .inr (.error (.timedOut q.label s.bytes (later - since))))
      else if q.overflow = .discard then (s, .inr (.ok .dropped))
      else
        let r := s.popSpare
        (r.1, .inl r.2)

/-- The second turn. -/
def push (s : QueueState) (item : Bytes) : QueueState :=
  { s with bytes := s.bytes + item.length, items := s.items ++ [item] }

/-- The bytes are given back as the item is taken, not as it is written. -/
def pop (s : QueueState) : Option (Bytes × QueueState) :=
  match s.items with
  | [] => none
  | item :: items => some (item, { s with items, bytes := s.bytes - item.length })

end QueueState

/-- The one thread that may submit. It owns the process: once it closed the queue it has given
the process up, and submits no more. -/
inductive Host
  | idle
  | copying (buffer buf : Bytes)
  | gone
deriving DecidableEq

inductive Writer
  | waiting
  | writing (written rest : Bytes)
  | finished
deriving DecidableEq

structure Feeder where
  queue : QueueState
  host : Host
  writer : Writer
  /-- What the process was handed. -/
  handed : Bytes
  /-- Every submission that was answered, with the answer. -/
  answers : List (Bytes × Except Refusal Feed)

namespace Feeder

def start : Feeder :=
  { queue := .empty, host := .idle, writer := .waiting, handed := [], answers := [] }

inductive Move
  | submit (now later : ℕ) (buf : Bytes)
  | copied
  | close
  | take
  | write (n : ℕ)
  | wrote
  | fails (error : String)

/-- What the thread does while the pipe takes its bytes. -/
def Move.delivers : Move → Bool
  | .take | .write _ | .wrote => true
  | _ => false

def submit (q : Queue) (f : Feeder) (now later : ℕ) (buf : Bytes) : Feeder :=
  match f.queue.claim q now later buf.length with
  | (queue, .inl buffer) => { f with queue, host := .copying buffer buf }
  | (queue, .inr answer) => { f with queue, answers := f.answers ++ [(buf, answer)] }

def copied (f : Feeder) (buffer buf : Bytes) : Feeder :=
  { f with
    queue := f.queue.push (buffer.take 0 ++ buf)
    host := .idle
    answers := f.answers ++ [(buf, .ok .queued)] }

def close (f : Feeder) : Feeder :=
  { f with queue := { f.queue with closed := true }, host := .gone }

/-- The writer waits on an empty queue, and is done with one that is closed too. -/
def take (f : Feeder) : Feeder :=
  match f.queue.pop with
  | some (item, queue) => { f with queue, writer := .writing [] item }
  | none => if f.queue.closed then { f with writer := .finished } else f

/-- The pipe took `n` more bytes. -/
def write (f : Feeder) (written rest : Bytes) (n : ℕ) : Feeder :=
  { f with
    writer := .writing (written ++ rest.take n) (rest.drop n)
    handed := f.handed ++ rest.take n }

def wrote (f : Feeder) (written : Bytes) : Feeder :=
  { f with queue := { f.queue with spare := f.queue.spare ++ [written] }, writer := .waiting }

def fails (q : Queue) (f : Feeder) (item : Bytes) (error : String) : Feeder :=
  { f with
    queue := { f.queue with
      spare := f.queue.spare ++ [item]
      error := some (q.label ++ ": " ++ error) }
    writer := .finished }

/-- A move that is not the next one of its side changes nothing. -/
def step (q : Queue) (f : Feeder) : Move → Feeder
  | .submit now later buf => if f.host = .idle then f.submit q now later buf else f
  | .copied =>
    match f.host with
    | .copying buffer buf => f.copied buffer buf
    | _ => f
  | .close => if f.host = .idle then f.close else f
  | .take => if f.writer = .waiting then f.take else f
  | .write n =>
    match f.writer with
    | .writing written rest => f.write written rest n
    | _ => f
  | .wrote =>
    match f.writer with
    | .writing written [] => f.wrote written
    | _ => f
  | .fails error =>
    match f.writer with
    | .writing written (c :: rest) => f.fails q (written ++ c :: rest) error
    | _ => f

end Feeder

def queued : List (Bytes × Except Refusal Feed) → List Bytes
  | [] => []
  | (buf, .ok .queued) :: answers => buf :: queued answers
  | (_, _) :: answers => queued answers

def Writer.item : Writer → List Bytes
  | .writing written rest => [written ++ rest]
  | _ => []

def Writer.written : Writer → Bytes
  | .writing written _ => written
  | _ => []

def QueueState.SameBacklog (s s' : QueueState) : Prop :=
  s.items = s'.items ∧ s.bytes = s'.bytes ∧ s.closed = s'.closed ∧ s.error = s'.error

namespace Feeder

/-- The accepted submissions are those written whole, then the one being written, then those
that wait; the pipe took the first ones and a part of the next. -/
def InOrder (f : Feeder) : Prop :=
  ∃ whole, queued f.answers = whole ++ f.writer.item ++ f.queue.items ∧
    f.handed = whole.flatten ++ f.writer.written

structure Inv (q : Queue) (f : Feeder) : Prop where
  bytes : f.queue.bytes = (f.queue.items.map List.length).sum
  order : f.queue.error = none → f.InOrder
  failed : f.queue.error ≠ none →
    f.writer = .finished ∧ f.handed <+: (queued f.answers).flatten
  closed : f.queue.closed = true → f.host = .gone
  done : f.writer = .finished → f.queue.error = none → f.queue.closed = true ∧ f.queue.items = []
  kept : q.overflow = .keep → ∀ a ∈ f.answers, a.2 ≠ .ok .dropped

variable {q : Queue} {f : Feeder} {buf buffer written rest : Bytes}

theorem queued_append (answers more : List (Bytes × Except Refusal Feed)) :
    queued (answers ++ more) = queued answers ++ queued more := by
  induction answers with
  | nil => rfl
  | cons a answers ih =>
    obtain ⟨b, _ | _ | _⟩ := a
    · exact ih
    · exact congrArg (b :: ·) ih
    · exact ih

theorem queued_concat (answers : List (Bytes × Except Refusal Feed)) (buf : Bytes) :
    queued (answers ++ [(buf, .ok .queued)]) = queued answers ++ [buf] := queued_append _ _

theorem queued_other (answers : List (Bytes × Except Refusal Feed)) (buf : Bytes)
    {answer : Except Refusal Feed} (h : answer ≠ .ok .queued) :
    queued (answers ++ [(buf, answer)]) = queued answers := by
  have hnone : queued [(buf, answer)] = [] := by
    rcases answer with refusal | _ | _
    · rfl
    · exact absurd rfl h
    · rfl
  rw [queued_append, hnone, List.append_nil]

theorem claim_spec (q : Queue) (s : QueueState) (now later len : ℕ) :
    (s.claim q now later len).1.SameBacklog s ∧
    (s.claim q now later len).2 ≠ .inr (.ok .queued) ∧
    (q.overflow = .keep → (s.claim q now later len).2 ≠ .inr (.ok .dropped)) := by
  obtain ⟨items, bytes, closed, error, overSince, spare⟩ := s
  cases error with
  | some err => exact ⟨⟨rfl, rfl, rfl, rfl⟩, nofun, fun _ => nofun⟩
  | none =>
    simp only [QueueState.claim]
    split_ifs with hroom hlong hover
    · exact ⟨⟨rfl, rfl, rfl, rfl⟩, nofun, fun _ => nofun⟩
    · exact ⟨⟨rfl, rfl, rfl, rfl⟩, nofun, fun _ => nofun⟩
    · refine ⟨⟨rfl, rfl, rfl, rfl⟩, nofun, fun hkeep => ?_⟩
      rw [hkeep] at hover
      cases hover
    · exact ⟨⟨rfl, rfl, rfl, rfl⟩, nofun, fun _ => nofun⟩

theorem inv_start (q : Queue) : Inv q start where
  bytes := rfl
  order _ := ⟨[], rfl, rfl⟩
  failed h := absurd rfl h
  closed h := Bool.noConfusion h
  done h := Writer.noConfusion h
  kept _ _ ha := absurd ha List.not_mem_nil

theorem Inv.answer {answer : Except Refusal Feed} {queue : QueueState}
    (h : Inv q f) (hsame : queue.SameBacklog f.queue) (hqueued : answer ≠ .ok .queued)
    (hkept : q.overflow = .keep → answer ≠ .ok .dropped) :
    Inv q { f with queue, answers := f.answers ++ [(buf, answer)] } := by
  obtain ⟨hitems, hbytes, hclosed, herror⟩ := hsame
  have hanswers := queued_other f.answers buf hqueued
  constructor
  · exact hbytes.trans (hitems ▸ h.bytes)
  · intro hnone
    obtain ⟨whole, hwhole, hhanded⟩ := h.order (herror ▸ hnone)
    refine ⟨whole, ?_, hhanded⟩
    rw [hanswers, hwhole, hitems]
  · intro hsome
    rw [hanswers]
    exact h.failed (herror ▸ hsome)
  · exact fun hc => h.closed (hclosed ▸ hc)
  · intro hdone hnone
    have hempty := h.done hdone (herror ▸ hnone)
    exact ⟨hclosed.trans hempty.1, hitems.trans hempty.2⟩
  · intro hkeep a ha
    rcases List.mem_append.mp ha with hin | hnew
    · exact h.kept hkeep a hin
    · rw [List.mem_singleton.mp hnew]
      exact hkept hkeep

theorem Inv.submit (h : Inv q f) (hidle : f.host = .idle) (now later : ℕ) (buf : Bytes) :
    Inv q (f.submit q now later buf) := by
  obtain ⟨hsame, hqueued, hkept⟩ := claim_spec q f.queue now later buf.length
  unfold Feeder.submit
  rcases hclaim : f.queue.claim q now later buf.length with ⟨queue, buffer | answer⟩
  · rw [hclaim] at hsame
    obtain ⟨hitems, hbytes, hclosed, herror⟩ := hsame
    constructor
    · exact hbytes.trans (hitems ▸ h.bytes)
    · intro hnone
      obtain ⟨whole, hwhole, hhanded⟩ := h.order (herror ▸ hnone)
      refine ⟨whole, ?_, hhanded⟩
      rw [hwhole, hitems]
    · exact fun hsome => h.failed (herror ▸ hsome)
    · intro hc
      have hgone := h.closed (hclosed ▸ hc)
      rw [hidle] at hgone
      cases hgone
    · intro hdone hnone
      have hempty := h.done hdone (herror ▸ hnone)
      exact ⟨hclosed.trans hempty.1, hitems.trans hempty.2⟩
    · exact h.kept
  · rw [hclaim] at hsame hqueued hkept
    exact h.answer hsame (fun heq => hqueued (congrArg Sum.inr heq))
      fun hkeep heq => hkept hkeep (congrArg Sum.inr heq)

theorem Inv.copied (h : Inv q f) (hhost : f.host = .copying buffer buf) :
    Inv q (f.copied buffer buf) := by
  have hopen : f.queue.closed = false := by
    rw [Bool.eq_false_iff]
    intro hc
    have hgone := h.closed hc
    rw [hhost] at hgone
    cases hgone
  have hitem : buffer.take 0 ++ buf = buf := rfl
  constructor
  · show f.queue.bytes + _ = ((f.queue.items ++ [buffer.take 0 ++ buf]).map List.length).sum
    rw [h.bytes, List.map_append, List.sum_append]
    rfl
  · intro hnone
    obtain ⟨whole, hwhole, hhanded⟩ := h.order hnone
    refine ⟨whole, ?_, hhanded⟩
    show queued (f.answers ++ [(buf, .ok .queued)]) = _ ++ _ ++ (f.queue.items ++ [_])
    rw [queued_concat, hwhole, hitem, List.append_assoc _ f.queue.items]
    rfl
  · intro hsome
    obtain ⟨hdone, hbegins⟩ := h.failed hsome
    refine ⟨hdone, ?_⟩
    show f.handed <+: (queued (f.answers ++ [(buf, .ok .queued)])).flatten
    rw [queued_concat, List.flatten_append]
    exact hbegins.trans (List.prefix_append _ _)
  · intro hc
    rw [show f.queue.closed = true from hc] at hopen
    cases hopen
  · intro hdone hnone
    rw [(h.done hdone hnone).1] at hopen
    cases hopen
  · intro hkeep a ha
    rcases List.mem_append.mp ha with hin | hnew
    · exact h.kept hkeep a hin
    · rw [List.mem_singleton.mp hnew]
      exact nofun

theorem Inv.close (h : Inv q f) : Inv q f.close where
  bytes := h.bytes
  order := h.order
  failed := h.failed
  closed _ := rfl
  done hdone hnone := ⟨rfl, (h.done hdone hnone).2⟩
  kept := h.kept

theorem Inv.take (h : Inv q f) (hwriter : f.writer = .waiting) : Inv q f.take := by
  have hfree : f.writer ≠ .finished := by
    rw [hwriter]
    exact nofun
  have hnone : f.queue.error = none := by
    by_contra hsome
    exact hfree (h.failed hsome).1
  have hidle : f.writer.item = [] ∧ f.writer.written = [] := by
    rw [hwriter]
    exact ⟨rfl, rfl⟩
  obtain ⟨whole, hwhole, hhanded⟩ := h.order hnone
  rw [hidle.1, List.append_nil] at hwhole
  rw [hidle.2, List.append_nil] at hhanded
  unfold Feeder.take QueueState.pop
  rcases hitems : f.queue.items with _ | ⟨item, items⟩
  · rw [hitems] at hwhole
    dsimp only
    split_ifs with hclosed
    · constructor
      · exact h.bytes
      · intro _
        refine ⟨whole, ?_, ?_⟩
        · show queued f.answers = whole ++ [] ++ f.queue.items
          rw [hwhole, hitems, List.append_nil, List.append_nil]
        · show f.handed = whole.flatten ++ []
          rw [hhanded, List.append_nil]
      · exact fun hsome => absurd hnone hsome
      · exact h.closed
      · exact fun _ _ => ⟨hclosed, hitems⟩
      · exact h.kept
    · exact h
  · rw [hitems] at hwhole
    constructor
    · show f.queue.bytes - item.length = (items.map List.length).sum
      rw [h.bytes, hitems, List.map_cons, List.sum_cons, Nat.add_sub_cancel_left]
    · intro _
      refine ⟨whole, ?_, ?_⟩
      · show queued f.answers = whole ++ [[] ++ item] ++ items
        rw [hwhole, List.append_assoc]
        rfl
      · show f.handed = whole.flatten ++ []
        rw [hhanded, List.append_nil]
    · exact fun hsome => absurd hnone hsome
    · exact h.closed
    · exact nofun
    · exact h.kept

theorem Inv.write (h : Inv q f) (hwriter : f.writer = .writing written rest) (n : ℕ) :
    Inv q (f.write written rest n) := by
  have hbusy : f.writer ≠ .finished := by
    rw [hwriter]
    exact nofun
  constructor
  · exact h.bytes
  · intro hnone
    obtain ⟨whole, hwhole, hhanded⟩ := h.order hnone
    rw [hwriter] at hwhole hhanded
    refine ⟨whole, ?_, ?_⟩
    · show queued f.answers = whole ++ [written ++ rest.take n ++ rest.drop n] ++ f.queue.items
      rw [List.append_assoc written, List.take_append_drop]
      exact hwhole
    · show f.handed ++ rest.take n = whole.flatten ++ (written ++ rest.take n)
      rw [hhanded, List.append_assoc]
      rfl
  · exact fun hsome => absurd (h.failed hsome).1 hbusy
  · exact h.closed
  · exact nofun
  · exact h.kept

theorem Inv.wrote (h : Inv q f) (hwriter : f.writer = .writing written []) :
    Inv q (f.wrote written) := by
  have hbusy : f.writer ≠ .finished := by
    rw [hwriter]
    exact nofun
  constructor
  · exact h.bytes
  · intro hnone
    obtain ⟨whole, hwhole, hhanded⟩ := h.order hnone
    rw [hwriter] at hwhole hhanded
    refine ⟨whole ++ [written], ?_, ?_⟩
    · show queued f.answers = whole ++ [written] ++ [] ++ f.queue.items
      rw [hwhole, List.append_nil]
      show whole ++ [written ++ []] ++ f.queue.items = _
      rw [List.append_nil]
    · show f.handed = (whole ++ [written]).flatten ++ []
      rw [hhanded, List.flatten_append, List.append_nil]
      show _ = whole.flatten ++ (written ++ [])
      rw [List.append_nil]
      rfl
  · exact fun hsome => absurd (h.failed hsome).1 hbusy
  · exact h.closed
  · exact nofun
  · exact h.kept

theorem Inv.fails (h : Inv q f) (hwriter : f.writer = .writing written rest) (error : String) :
    Inv q (f.fails q (written ++ rest) error) := by
  have hbusy : f.writer ≠ .finished := by
    rw [hwriter]
    exact nofun
  have hnone : f.queue.error = none := by
    by_contra hsome
    exact hbusy (h.failed hsome).1
  obtain ⟨whole, hwhole, hhanded⟩ := h.order hnone
  rw [hwriter] at hwhole hhanded
  constructor
  · exact h.bytes
  · exact nofun
  · refine fun _ => ⟨rfl, ?_⟩
    show f.handed <+: (queued f.answers).flatten
    rw [hhanded, hwhole, List.append_assoc, List.flatten_append]
    refine (List.prefix_append_right_inj _).mpr ?_
    show written <+: (written ++ rest) ++ f.queue.items.flatten
    rw [List.append_assoc]
    exact List.prefix_append _ _
  · exact h.closed
  · exact fun _ => nofun
  · exact h.kept

theorem Inv.step (h : Inv q f) (move : Move) : Inv q (f.step q move) := by
  cases move with
  | submit now later buf =>
    show Inv q (if f.host = .idle then _ else f)
    split_ifs with hidle
    · exact h.submit hidle now later buf
    · exact h
  | copied =>
    rw [Feeder.step]
    rcases hhost : f.host with _ | ⟨buffer, buf⟩ | _
    · exact h
    · exact h.copied hhost
    · exact h
  | close =>
    show Inv q (if f.host = .idle then _ else f)
    split_ifs
    · exact h.close
    · exact h
  | take =>
    show Inv q (if f.writer = .waiting then _ else f)
    split_ifs with hwaiting
    · exact h.take hwaiting
    · exact h
  | write n =>
    rw [Feeder.step]
    rcases hwriter : f.writer with _ | ⟨written, rest⟩ | _
    · exact h
    · exact h.write hwriter n
    · exact h
  | wrote =>
    rw [Feeder.step]
    rcases hwriter : f.writer with _ | ⟨written, _ | ⟨c, rest⟩⟩ | _
    · exact h
    · exact h.wrote hwriter
    · exact h
    · exact h
  | fails error =>
    rw [Feeder.step]
    rcases hwriter : f.writer with _ | ⟨written, _ | ⟨c, rest⟩⟩ | _
    · exact h
    · exact h
    · exact h.fails hwriter error
    · exact h

def after (q : Queue) (moves : List Move) : Feeder := run (step q) start moves

theorem inv_after (q : Queue) (moves : List Move) : Inv q (after q moves) :=
  run_invariant (fun _ move h => h.step move) (inv_start q) moves

theorem step_wrote (hwriter : f.writer = .writing written []) :
    f.step q .wrote = f.wrote written := by
  rw [Feeder.step, hwriter]

theorem step_take (hwaiting : f.writer = .waiting) : f.step q .take = f.take := if_pos hwaiting

theorem writes_rest (hwriter : f.writer = .writing written rest) :
    run (step q) f [.write rest.length, .wrote] =
      (f.write written rest rest.length).wrote (written ++ rest) := by
  have hwrite : f.step q (.write rest.length) = f.write written rest rest.length := by
    rw [Feeder.step, hwriter]
  rw [run_cons, run_cons, run_nil, hwrite]
  refine step_wrote ?_
  show Writer.writing (written ++ rest.take rest.length) (rest.drop rest.length) = _
  rw [List.take_length, List.drop_length]

theorem drains_waiting (items : List Bytes) (hitems : f.queue.items = items)
    (hclosed : f.queue.closed = true) (hnone : f.queue.error = none)
    (hwaiting : f.writer = .waiting) :
    ∃ moves, (∀ move ∈ moves, move.delivers) ∧ (run (step q) f moves).writer = .finished ∧
      (run (step q) f moves).queue.error = none := by
  induction items generalizing f with
  | nil =>
    refine ⟨[.take], List.forall_mem_singleton.mpr rfl, ?_⟩
    rw [run_cons, run_nil, step_take hwaiting, Feeder.take, QueueState.pop, hitems]
    dsimp only
    rw [if_pos hclosed]
    exact ⟨rfl, hnone⟩
  | cons item items ih =>
    have htake : f.step q .take = { f with
        queue := { f.queue with items, bytes := f.queue.bytes - item.length }
        writer := .writing [] item } := by
      rw [step_take hwaiting, Feeder.take, QueueState.pop, hitems]
    have hwriting : (f.step q .take).writer = .writing [] item := by rw [htake]
    obtain ⟨moves, hmoves, hdone⟩ :=
      ih (f := ((f.step q .take).write [] item item.length).wrote ([] ++ item))
        (by rw [htake]; rfl) (by rw [htake]; exact hclosed) (by rw [htake]; exact hnone) rfl
    refine ⟨.take :: [.write item.length, .wrote] ++ moves, ?_, ?_⟩
    · rw [List.forall_mem_append]
      exact ⟨List.forall_mem_cons.mpr ⟨rfl, List.forall_mem_cons.mpr
        ⟨rfl, List.forall_mem_singleton.mpr rfl⟩⟩, hmoves⟩
    · rw [List.cons_append, run_cons, run_append, writes_rest hwriting]
      exact hdone

theorem drains (hclosed : f.queue.closed = true) (hnone : f.queue.error = none) :
    ∃ moves, (∀ move ∈ moves, move.delivers) ∧ (run (step q) f moves).writer = .finished ∧
      (run (step q) f moves).queue.error = none := by
  rcases hwriter : f.writer with _ | ⟨written, rest⟩ | _
  · exact drains_waiting f.queue.items rfl hclosed hnone hwriter
  · obtain ⟨moves, hmoves, hdone⟩ :=
      drains_waiting (q := q) (f := (f.write written rest rest.length).wrote (written ++ rest))
        f.queue.items rfl hclosed hnone rfl
    refine ⟨[.write rest.length, .wrote] ++ moves, ?_, ?_⟩
    · rw [List.forall_mem_append]
      exact ⟨List.forall_mem_cons.mpr ⟨rfl, List.forall_mem_singleton.mpr rfl⟩, hmoves⟩
    · rw [run_append, writes_rest hwriter]
      exact hdone
  · exact ⟨[], List.forall_mem_nil _, hwriter, hnone⟩

/-- The pipe was handed the accepted submissions, whole and in order, up to where the writer
is; all of them once it is done, which it comes to on its own once the queue is closed. -/
theorem accepted_handed_over (q : Queue) (moves : List Move) :
    ((after q moves).queue.error = none → (after q moves).InOrder) ∧
    ((after q moves).queue.error = none → (after q moves).writer = .finished →
      (after q moves).handed = (queued (after q moves).answers).flatten) ∧
    (after q moves).handed <+: (queued (after q moves).answers).flatten ∧
    (after q moves).queue.bytes = ((after q moves).queue.items.map List.length).sum ∧
    (q.overflow = .keep → ∀ a ∈ (after q moves).answers, a.2 ≠ .ok .dropped) ∧
    ((after q moves).queue.closed = true → (after q moves).queue.error = none →
      ∃ rest, (∀ move ∈ rest, move.delivers) ∧
        (after q (moves ++ rest)).writer = .finished ∧
        (after q (moves ++ rest)).queue.error = none) := by
  have h := inv_after q moves
  refine ⟨h.order, ?_, ?_, h.bytes, h.kept, ?_⟩
  · intro hnone hdone
    obtain ⟨whole, hwhole, hhanded⟩ := h.order hnone
    rw [hdone, (h.done hdone hnone).2] at hwhole
    rw [hdone] at hhanded
    rw [hhanded, hwhole]
    show whole.flatten ++ [] = (whole ++ [] ++ []).flatten
    rw [List.append_nil, List.append_nil, List.append_nil]
  · by_cases hnone : (after q moves).queue.error = none
    · obtain ⟨whole, hwhole, hhanded⟩ := h.order hnone
      rw [hhanded, hwhole, List.append_assoc, List.flatten_append]
      refine (List.prefix_append_right_inj _).mpr ?_
      rcases (after q moves).writer with _ | ⟨written, rest⟩ | _
      · exact List.nil_prefix
      · show written <+: (written ++ rest) ++ _
        rw [List.append_assoc]
        exact List.prefix_append _ _
      · exact List.nil_prefix
    · exact (h.failed hnone).2
  · intro hclosed hnone
    obtain ⟨rest, hrest, hdone, hnone'⟩ := drains hclosed hnone
    refine ⟨rest, hrest, ?_⟩
    unfold after
    rw [run_append]
    exact ⟨hdone, hnone'⟩

end Feeder
end JamStream.Stream
