import JamStream.Cloud.Upload
import JamStream.Foundations.Runs

/-! An upload ends in one of two ways: the whole body is committed, in one piece or in
parts, or nothing is, and what was begun is aborted. The driver's state says which part
of the body it has taken and which calls it has made. -/

namespace JamStream.Cloud
open Protocol Runs

/-- The calls that send these parts, the last one flagged. -/
def partCalls : ℕ → ℕ → List Bytes → List BackendCall
  | _, _, [] => []
  | number, offset, part :: rest =>
    .sendPart number offset rest.isEmpty part :: partCalls (number + 1) (offset + part.length) rest

/-- The calls that send these parts, with more to come. -/
def fullCalls : ℕ → ℕ → List Bytes → List BackendCall
  | _, _, [] => []
  | number, offset, part :: rest =>
    .sendPart number offset false part :: fullCalls (number + 1) (offset + part.length) rest

theorem fullCalls_concat (number offset : ℕ) (full : List Bytes) (part : Bytes) :
    fullCalls number offset (full ++ [part]) = fullCalls number offset full ++
      [.sendPart (number + full.length) (offset + full.flatten.length) false part] := by
  induction full generalizing number offset with
  | nil => rfl
  | cons b full ih =>
    simp only [List.cons_append, fullCalls, ih, List.length_cons, List.flatten_cons,
      List.length_append]
    rw [Nat.add_right_comm number, Nat.add_assoc number, Nat.add_assoc offset]

theorem partCalls_concat (number offset : ℕ) (full : List Bytes) (part : Bytes) :
    partCalls number offset (full ++ [part]) = fullCalls number offset full ++
      [.sendPart (number + full.length) (offset + full.flatten.length) true part] := by
  induction full generalizing number offset with
  | nil => rfl
  | cons b full ih =>
    have hmore : (full ++ [part]).isEmpty = false := by
      rw [List.isEmpty_eq_false_iff]
      exact List.append_ne_nil_of_right_ne_nil _ (List.cons_ne_nil _ _)
    simp only [List.cons_append, partCalls, fullCalls, ih, hmore, List.length_cons,
      List.flatten_cons, List.length_append]
    rw [Nat.add_right_comm number, Nat.add_assoc number, Nat.add_assoc offset]

def allOk (calls : List BackendCall) : List (BackendCall × Option String) :=
  calls.map fun c => (c, none)

def Committed (log : List (BackendCall × Option String)) : Prop :=
  (∃ body, (.putSingle body, none) ∈ log) ∨ (.finish, none) ∈ log

/-- At least two parts, all but the last of the part size, and the last no longer. -/
structure Parts (partSize : ℕ) (parts : List Bytes) : Prop where
  many : 2 ≤ parts.length
  full : ∀ part ∈ parts.dropLast, part.length = partSize
  last : ∀ part ∈ parts.getLast?, part ≠ [] ∧ part.length ≤ partSize

def Msg.bytes : Msg → Bytes
  | .chunk data => data
  | .finish => []

/-- Begun, and not to be committed, for a reason. -/
structure Failing (partSize length : ℕ) (handle : Handle)
    (log : List (BackendCall × Option String)) : Prop where
  begun : ∃ more, log = (.begin, none) :: more ∧ ∀ e ∈ more,
    (∃ number offset last part, e.1 = .sendPart number offset last part) ∨
      e.1 = .finish ∧ e.2 ≠ none
  long : partSize < length
  reason : (∃ e ∈ log, e.2 ≠ none) ∨ handle = .gone ∨ maxParts * partSize < length

/-- The parts sent so far, all of them full. -/
structure Sent (partSize : ℕ) (log : List (BackendCall × Option String)) (full : List Bytes) :
    Prop where
  calls : log = allOk (.begin :: fullCalls 1 0 full)
  full : ∀ part ∈ full, part.length = partSize

theorem fullCalls_sends (number offset : ℕ) (full : List Bytes) :
    ∀ c ∈ fullCalls number offset full, ∃ number offset last part,
      c = .sendPart number offset last part := by
  induction full generalizing number offset with
  | nil =>
    intro c hc
    exact absurd hc List.not_mem_nil
  | cons b full ih =>
    intro c hc
    rcases List.mem_cons.mp hc with rfl | hc
    · exact ⟨_, _, _, _, rfl⟩
    · exact ih _ _ c hc

theorem partCalls_sends (number offset : ℕ) (parts : List Bytes) :
    ∀ c ∈ partCalls number offset parts, ∃ number offset last part,
      c = .sendPart number offset last part := by
  induction parts generalizing number offset with
  | nil =>
    intro c hc
    exact absurd hc List.not_mem_nil
  | cons b parts ih =>
    intro c hc
    rcases List.mem_cons.mp hc with rfl | hc
    · exact ⟨_, _, _, _, rfl⟩
    · exact ih _ _ c hc

theorem failing_of_calls {calls : List BackendCall}
    (hsends : ∀ c ∈ calls, ∃ number offset last part, c = .sendPart number offset last part)
    {more : List (BackendCall × Option String)}
    (hmore : ∀ e ∈ more, (∃ number offset last part, e.1 = .sendPart number offset last part) ∨
      e.1 = .finish ∧ e.2 ≠ none)
    {partSize length : ℕ} {handle : Handle} (hlong : partSize < length)
    (hreason : (∃ e ∈ more, e.2 ≠ none) ∨ handle = .gone ∨ maxParts * partSize < length) :
    Failing partSize length handle (allOk (.begin :: calls) ++ more) := by
  refine ⟨⟨allOk calls ++ more, rfl, fun e he => ?_⟩, hlong, ?_⟩
  · rcases List.mem_append.mp he with he | he
    · obtain ⟨c, hc, rfl⟩ := List.mem_map.mp he
      exact .inl (hsends c hc)
    · exact hmore e he
  · rcases hreason with ⟨e, he, hfailed⟩ | h
    · exact .inl ⟨e, List.mem_append_right _ he, hfailed⟩
    · exact .inr h

theorem flatten_length_of_full {partSize : ℕ} {full : List Bytes}
    (h : ∀ part ∈ full, part.length = partSize) : full.flatten.length = full.length * partSize := by
  rw [List.length_flatten, List.map_congr_left h, List.map_const', List.sum_replicate, smul_eq_mul]

theorem Parts.concat {partSize : ℕ} {full : List Bytes} {last : Bytes} (hfull : full ≠ [])
    (hparts : ∀ part ∈ full, part.length = partSize) (hlast : last ≠ [])
    (hshort : last.length ≤ partSize) : Parts partSize (full ++ [last]) := by
  refine ⟨?_, ?_, fun part hpart => ?_⟩
  · have hpos := List.length_pos_iff.mpr hfull
    rw [List.length_append, List.length_singleton]
    omega
  · rw [List.dropLast_concat]
    exact hparts
  · rw [List.getLast?_concat] at hpart
    obtain rfl := Option.some.inj hpart
    exact ⟨hlast, hshort⟩

theorem long_of_full {partSize : ℕ} {full : List Bytes} (hfull : full ≠ [])
    (hparts : ∀ part ∈ full, part.length = partSize) {last : Bytes} (hlast : last ≠ []) :
    partSize < (full.flatten ++ last).length := by
  have hpos := List.length_pos_iff.mpr hfull
  have hlastpos := List.length_pos_iff.mpr hlast
  have hmul := Nat.le_mul_of_pos_left partSize hpos
  rw [List.length_append, flatten_length_of_full hparts]
  omega

theorem Parts.long {partSize : ℕ} {parts : List Bytes} (h : Parts partSize parts) :
    partSize < parts.flatten.length := by
  have hne : parts ≠ [] := List.length_pos_iff.mp (Nat.lt_of_lt_of_le Nat.two_pos h.many)
  have hlast := h.last (parts.getLast hne) (List.getLast?_eq_some_getLast hne)
  have hfull : parts.dropLast ≠ [] := by
    have hmany := h.many
    refine List.length_pos_iff.mp ?_
    rw [List.length_dropLast]
    omega
  rw [← List.dropLast_append_getLast hne, List.flatten_append, List.flatten_singleton]
  exact long_of_full hfull h.full hlast.1

theorem Failing.not_committed {partSize length : ℕ} {handle : Handle}
    {log : List (BackendCall × Option String)} (h : Failing partSize length handle log)
    (err : Option String) : ¬Committed (log ++ [(.abort, err)]) := by
  obtain ⟨⟨more, rfl, hmore⟩, -, -⟩ := h
  have hnot : ∀ e ∈ (BackendCall.begin, none) :: more ++ [(.abort, err)],
      (∀ body, e ≠ (.putSingle body, none)) ∧ e ≠ (.finish, none) := by
    intro e he
    rcases List.mem_append.mp he with he | he
    · rcases List.mem_cons.mp he with rfl | he
      · exact ⟨fun _ h => by simp at h, fun h => by simp at h⟩
      · rcases hmore e he with ⟨number, offset, last, part, hsend⟩ | ⟨hfinish, hfailed⟩
        · exact ⟨fun _ h => by simp [h] at hsend, fun h => by simp [h] at hsend⟩
        · exact ⟨fun _ h => by simp [h] at hfinish, fun h => hfailed (congrArg Prod.snd h)⟩
    · rw [List.mem_singleton.mp he]
      exact ⟨fun _ h => by simp at h, fun h => by simp at h⟩
  rintro (⟨body, hin⟩ | hin)
  · exact (hnot _ hin).1 body rfl
  · exact (hnot _ hin).2 rfl

theorem Parts.length_le {partSize : ℕ} {parts : List Bytes} (h : Parts partSize parts) :
    parts.flatten.length ≤ parts.length * partSize := by
  have hall : ∀ part ∈ parts, part.length ≤ partSize := by
    intro part hpart
    have hne := List.ne_nil_of_mem hpart
    rw [← List.dropLast_append_getLast hne, List.mem_append] at hpart
    rcases hpart with hpart | hpart
    · exact (h.full part hpart).le
    · rw [List.mem_singleton.mp hpart]
      exact (h.last _ (List.getLast?_eq_some_getLast hne)).2
  rw [List.length_flatten, ← smul_eq_mul, ← List.length_map (f := List.length)]
  refine List.sum_le_card_nsmul _ _ fun n hn => ?_
  obtain ⟨part, hpart, rfl⟩ := List.mem_map.mp hn
  exact hall part hpart

namespace ObjectSink

def body (s : ObjectSink) : Bytes := s.pushed.flatten

def waiting (s : ObjectSink) : Bytes := (s.queue.map Msg.bytes).flatten

def Exhausted (s : ObjectSink) : Prop :=
  s.handle = .finished ∧ s.finished = true ∧ s.queue = [] ∧ s.buf = []

def Fed (s : ObjectSink) : Prop :=
  match s.handle with
  | .finished => s.finished = true ∧ s.queue = [] ∨
      s.finished = false ∧ (∃ chunks : List Bytes, s.queue = chunks.map Msg.chunk ++ [.finish]) ∨ s.stopped
  | _ => s.finished = false ∧ ∃ chunks : List Bytes, s.queue = chunks.map Msg.chunk

/-- A part is full unless it is the input's last. -/
def Part (s : ObjectSink) (part : Bytes) : Prop :=
  part.length = s.partSize ∨ part.length < s.partSize ∧ s.Exhausted

def Stage (s : ObjectSink) (taken : Bytes) : Prop :=
  match s.driver with
  | .first => s.log = [] ∧ taken = []
  | .second first => s.log = [] ∧ taken = first ∧ s.Part first
  | .putSingle body => s.log = [] ∧ taken = body ∧ body.length ≤ s.partSize ∧ s.Exhausted
  | .begin first second => s.log = [] ∧ taken = first ++ second ∧
      first.length = s.partSize ∧ second ≠ [] ∧ s.Part second
  | .sendPart number offset current next => ∃ full, Sent s.partSize s.log full ∧ number = full.length + 1 ∧
      offset = full.flatten.length ∧ taken = full.flatten ++ current ++ next ∧ current ≠ [] ∧
      (next = [] → full ≠ [] ∧ current.length ≤ s.partSize ∧ s.Exhausted) ∧
      (next ≠ [] → current.length = s.partSize ∧ s.Part next)
  | .lookahead number offset current => ∃ full, Sent s.partSize s.log full ∧ full ≠ [] ∧
      number = full.length + 1 ∧ offset = full.flatten.length ∧
      taken = full.flatten ++ current ∧ current ≠ [] ∧ s.Part current
  | .finish => ∃ parts, s.log = allOk (.begin :: partCalls 1 0 parts) ∧ Parts s.partSize parts ∧
      parts.length ≤ maxParts ∧ taken = parts.flatten ∧ s.Exhausted
  | .abort _ => Failing s.partSize s.body.length s.handle s.log
  | .done (.ok ()) => s.Exhausted ∧ (s.log = allOk [.putSingle taken] ∧ taken.length ≤ s.partSize ∨
      ∃ parts, s.log = allOk (.begin :: partCalls 1 0 parts ++ [.finish]) ∧
        Parts s.partSize parts ∧ parts.length ≤ maxParts ∧ taken = parts.flatten)
  | .done (.error _) => s.log = [] ∧ s.handle = .gone ∨
      (∃ e, s.log = [(.putSingle taken, some e)] ∧ s.Exhausted) ∨
      (∃ e, s.log = [(.begin, some e)] ∧ s.partSize < s.body.length) ∨
      ∃ log err, s.log = log ++ [(.abort, err)] ∧
        Failing s.partSize s.body.length s.handle log

structure Under (s : ObjectSink) (taken : Bytes) : Prop where
  size : 1 ≤ s.partSize
  bytes : taken ++ s.buf ++ s.waiting = s.body
  fed : s.Fed
  stage : s.Stage taken

variable {s : ObjectSink} {taken : Bytes}

theorem opened_under (fails : ℕ → Option String) (partSize : ℕ) :
    (opened fails partSize).Under [] :=
  ⟨le_max_right _ _, rfl, ⟨rfl, [], rfl⟩, rfl, rfl⟩

theorem Stage.keep (h : s.Stage taken) (hnot : ¬s.Exhausted) {s' : ObjectSink}
    (hdriver : s'.driver = s.driver) (hlog : s'.log = s.log) (hsize : s'.partSize = s.partSize)
    (hgrow : s.body.length ≤ s'.body.length) (hgone : s.handle = .gone → s'.handle = .gone) :
    s'.Stage taken := by
  have hpart : ∀ part, s.Part part → s'.Part part :=
    fun part hp => .inl ((hp.resolve_right fun h => hnot h.2).trans hsize.symm)
  have hfailing : ∀ log, Failing s.partSize s.body.length s.handle log →
      Failing s.partSize s'.body.length s'.handle log := by
    intro log hf
    refine ⟨hf.begun, hf.long.trans_le hgrow, ?_⟩
    rcases hf.reason with h | h | h
    · exact .inl h
    · exact .inr (.inl (hgone h))
    · exact .inr (.inr (h.trans_le hgrow))
  unfold Stage at h ⊢
  rw [hdriver, hlog, hsize]
  split at h
  · exact h
  · exact ⟨h.1, h.2.1, hpart _ h.2.2⟩
  · exact absurd h.2.2.2 hnot
  · obtain ⟨hnil, htaken, hfirst, hsecond, hp⟩ := h
    exact ⟨hnil, htaken, hfirst, hsecond, hpart _ hp⟩
  · obtain ⟨full, hs, hnumber, hoffset, htaken, hcurrent, hlast, hmore⟩ := h
    exact ⟨full, hs, hnumber, hoffset, htaken, hcurrent,
      fun hnil => absurd (hlast hnil).2.2 hnot, fun hne => ⟨(hmore hne).1, hpart _ (hmore hne).2⟩⟩
  · obtain ⟨full, hs, hfull, hnumber, hoffset, htaken, hcurrent, hp⟩ := h
    exact ⟨full, hs, hfull, hnumber, hoffset, htaken, hcurrent, hpart _ hp⟩
  · obtain ⟨parts, -, -, -, -, hex⟩ := h
    exact absurd hex hnot
  · exact hfailing _ h
  · exact absurd h.1 hnot
  · rcases h with h | ⟨e, -, hex⟩ | ⟨e, hbegin, hl⟩ | ⟨log, err, habort, hf⟩
    · exact .inl ⟨h.1, hgone h.2⟩
    · exact absurd hex hnot
    · exact .inr (.inr (.inl ⟨e, hbegin, hl.trans_le hgrow⟩))
    · exact .inr (.inr (.inr ⟨log, err, habort, hfailing _ hf⟩))

theorem not_exhausted_of_held (h : s.handle = .held) : ¬s.Exhausted :=
  fun he => Handle.noConfusion (h.symm.trans he.1)

theorem Under.write (h : s.Under taken) (chunk : Bytes) : (s.write chunk).Under taken := by
  unfold ObjectSink.write
  split_ifs with hgo
  · obtain ⟨hheld, -, -, -⟩ := hgo
    have hbody : (s.pushed ++ [chunk]).flatten = s.body ++ chunk := by
      rw [List.flatten_append, List.flatten_singleton]
      rfl
    refine ⟨h.size, ?_, ?_, h.stage.keep (not_exhausted_of_held hheld) rfl rfl rfl ?_ id⟩
    · show taken ++ s.buf ++ ((s.queue ++ [Msg.chunk chunk]).map Msg.bytes).flatten =
        (s.pushed ++ [chunk]).flatten
      rw [List.map_append, List.flatten_append, ← List.append_assoc, hbody, ← h.bytes]
      exact congrArg _ (List.append_nil chunk)
    · have hfed := h.fed
      unfold Fed at hfed ⊢
      simp only [hheld] at hfed ⊢
      obtain ⟨hopen, chunks, hqueue⟩ := hfed
      refine ⟨hopen, chunks ++ [chunk], ?_⟩
      rw [hqueue, List.map_append]
      rfl
    · show _ ≤ (s.pushed ++ [chunk]).flatten.length
      rw [hbody, List.length_append]
      exact Nat.le_add_right _ _
  · exact h

theorem Under.finish (h : s.Under taken) : s.finish.Under taken := by
  unfold ObjectSink.finish
  split_ifs with hheld hstopped hroom
  · have hgone : s.handle = .gone → Handle.finished = .gone :=
      fun h => Handle.noConfusion (hheld.symm.trans h)
    exact ⟨h.size, h.bytes, .inr (.inr hstopped),
      h.stage.keep (not_exhausted_of_held hheld) rfl rfl rfl le_rfl hgone⟩
  · have hgone : s.handle = .gone → Handle.finished = .gone :=
      fun h => Handle.noConfusion (hheld.symm.trans h)
    refine ⟨h.size, ?_, ?_, h.stage.keep (not_exhausted_of_held hheld) rfl rfl rfl le_rfl hgone⟩
    · show taken ++ s.buf ++ ((s.queue ++ [Msg.finish]).map Msg.bytes).flatten = s.body
      rw [List.map_append, List.flatten_append, ← h.bytes]
      exact congrArg (taken ++ s.buf ++ ·) (List.append_nil s.waiting)
    · have hfed := h.fed
      unfold Fed at hfed ⊢
      simp only [hheld] at hfed ⊢
      obtain ⟨hopen, chunks, hqueue⟩ := hfed
      exact .inr (.inl ⟨hopen, chunks, by rw [hqueue]⟩)
  · exact h
  · exact h

theorem Under.abort (h : s.Under taken) : s.abort.Under taken := by
  unfold ObjectSink.abort
  split_ifs with hheld
  · refine ⟨h.size, h.bytes, ?_,
      h.stage.keep (not_exhausted_of_held hheld) rfl rfl rfl le_rfl fun _ => rfl⟩
    have hfed := h.fed
    unfold Fed at hfed ⊢
    simp only [hheld] at hfed ⊢
    exact hfed
  · exact h

/-- What comes of asking the source for a part: the wait goes on, the input is cut off, or
the part is there. -/
theorem Under.nextPart (h : s.Under taken) (hrun : s.stopped = false)
    (ready : Bytes → Driver) (failed : String → Driver) :
    (∃ queue buf finished, s.nextPart ready failed = { s with queue, buf, finished } ∧
      s.finished = false ∧ taken ++ buf ++ (queue.map Msg.bytes).flatten = s.body ∧
      Fed { s with queue, buf, finished }) ∨
    (s.handle = .gone ∧ ∃ e, s.nextPart ready failed = { s with driver := failed e }) ∨
    ∃ part buf, s.nextPart ready failed = { s with buf, driver := ready part } ∧
      part ++ buf = s.buf ∧ Part { s with buf } part ∧ (part = [] → Exhausted { s with buf }) ∧
      (s.Exhausted → part = []) := by
  have hbytes := h.bytes
  have hfed := h.fed
  unfold ObjectSink.nextPart
  by_cases hmore : (!s.finished && decide (s.buf.length < s.partSize)) = true
  · rw [if_pos hmore]
    rw [Bool.and_eq_true, Bool.not_eq_true', decide_eq_true_eq] at hmore
    obtain ⟨hopen, -⟩ := hmore
    unfold Fed at hfed
    split
    · rename_i chunk queue hqueue
      refine .inl ⟨queue, s.buf ++ chunk, s.finished, rfl, hopen, ?_, ?_⟩
      · rw [← hbytes]
        unfold waiting
        rw [hqueue, List.map_cons, List.flatten_cons]
        simp only [List.append_assoc, Msg.bytes]
      · unfold Fed
        simp only
        split at hfed
        · rename_i hhandle
          rw [hhandle]
          rcases hfed with ⟨hclosed, -⟩ | ⟨-, chunks, hchunks⟩ | hstopped
          · exact absurd (hopen.symm.trans hclosed) Bool.false_ne_true
          · rw [hqueue] at hchunks
            cases chunks with
            | nil => exact Msg.noConfusion (List.head_eq_of_cons_eq hchunks)
            | cons c chunks => exact .inr (.inl ⟨hopen, chunks, List.tail_eq_of_cons_eq hchunks⟩)
          · exact absurd (hrun.symm.trans hstopped) Bool.false_ne_true
        · obtain ⟨-, chunks, hchunks⟩ := hfed
          rw [hqueue] at hchunks
          cases chunks with
          | nil => exact absurd hchunks (List.cons_ne_nil _ _)
          | cons c chunks =>
            exact ⟨hopen, chunks, List.tail_eq_of_cons_eq hchunks⟩
    · rename_i queue hqueue
      refine .inl ⟨queue, s.buf, true, rfl, hopen, ?_, ?_⟩
      · rw [← hbytes]
        unfold waiting
        rw [hqueue, List.map_cons, List.flatten_cons]
        rfl
      · unfold Fed
        simp only
        split at hfed
        · rename_i hhandle
          rw [hhandle]
          rcases hfed with ⟨hclosed, -⟩ | ⟨-, chunks, hchunks⟩ | hstopped
          · exact absurd (hopen.symm.trans hclosed) Bool.false_ne_true
          · rw [hqueue] at hchunks
            cases chunks with
            | nil => exact .inl ⟨trivial, List.tail_eq_of_cons_eq hchunks⟩
            | cons c chunks => exact Msg.noConfusion (List.head_eq_of_cons_eq hchunks)
          · exact absurd (hrun.symm.trans hstopped) Bool.false_ne_true
        · obtain ⟨-, chunks, hchunks⟩ := hfed
          rw [hqueue] at hchunks
          cases chunks with
          | nil => exact absurd hchunks (List.cons_ne_nil _ _)
          | cons c chunks => exact Msg.noConfusion (List.head_eq_of_cons_eq hchunks)
    · rename_i hqueue
      split_ifs with hheld
      · exact .inl ⟨s.queue, s.buf, s.finished, rfl, hopen, hbytes, h.fed⟩
      · refine .inr (.inl ⟨?_, _, rfl⟩)
        cases hhandle : s.handle with
        | held => exact absurd hhandle hheld
        | gone => rfl
        | finished =>
          rw [hhandle] at hfed
          rcases hfed with ⟨hclosed, -⟩ | ⟨-, chunks, hchunks⟩ | hstopped
          · exact absurd (hopen.symm.trans hclosed) Bool.false_ne_true
          · rw [hqueue] at hchunks
            exact absurd hchunks.symm (List.append_ne_nil_of_right_ne_nil _ (List.cons_ne_nil _ _))
          · exact absurd (hrun.symm.trans hstopped) Bool.false_ne_true
  · rw [if_neg hmore]
    -- a part that is short means that the finish was seen, with nothing queued behind it
    have hshort : s.buf.length < s.partSize → Exhausted { s with buf := s.buf.drop s.partSize } := by
      intro hlt
      have hclosed : s.finished = true := by
        by_contra hopen
        rw [Bool.not_eq_true] at hopen
        rw [hopen, decide_eq_true hlt] at hmore
        exact hmore rfl
      unfold Fed at hfed
      split at hfed
      · rename_i hhandle
        rcases hfed with ⟨-, hqueue⟩ | ⟨hopen, -⟩ | hstopped
        · exact ⟨hhandle, hclosed, hqueue, List.drop_eq_nil_of_le hlt.le⟩
        · exact absurd (hopen.symm.trans hclosed) Bool.false_ne_true
        · exact absurd (hrun.symm.trans hstopped) Bool.false_ne_true
      · exact absurd (hfed.1.symm.trans hclosed) Bool.false_ne_true
    refine .inr (.inr ⟨_, _, rfl, List.take_append_drop _ _, ?_, fun hnil => ?_, fun hex => ?_⟩)
    · rcases Nat.lt_or_ge s.buf.length s.partSize with hlt | hge
      · refine .inr ⟨?_, hshort hlt⟩
        rw [List.length_take, min_eq_right hlt.le]
        exact hlt
      · exact .inl (by rw [List.length_take, min_eq_left hge])
    · refine hshort ?_
      rcases List.take_eq_nil_iff.mp hnil with hzero | hbuf
      · exact absurd hzero (Nat.one_le_iff_ne_zero.mp h.size)
      · rw [hbuf]
        exact h.size
    · rw [hex.2.2.2, List.take_nil]

theorem Fed.goOn (h : s.Fed) (hrun : s.stopped = false) {buf : Bytes} {driver : Driver}
    {log : List (BackendCall × Option String)} : Fed { s with buf, driver, log } := by
  unfold Fed at h ⊢
  simp only
  split at h
  · rename_i hhandle
    rw [hhandle]
    rcases h with h | h | hstopped
    · exact .inl h
    · exact .inr (.inl h)
    · exact absurd (hrun.symm.trans hstopped) Bool.false_ne_true
  · exact h

theorem Under.await (h : s.Under taken) (hrun : s.stopped = false) {ready : Bytes → Driver}
    {failed : String → Driver}
    (hfailed : s.handle = .gone → ∀ e, Stage { s with driver := failed e } taken)
    (hready : ∀ part buf, Part { s with buf } part → (part = [] → Exhausted { s with buf }) →
      (s.Exhausted → part = []) → Stage { s with buf, driver := ready part } (taken ++ part)) :
    ∃ taken', (s.nextPart ready failed).Under taken' := by
  rcases h.nextPart hrun ready failed with ⟨queue, buf, finished, heq, hopen, hbytes, hfed⟩ |
    ⟨hgone, e, heq⟩ | ⟨part, buf, heq, hbuf, hpart, hend, hnone⟩
  · rw [heq]
    refine ⟨taken, h.size, hbytes, hfed, ?_⟩
    exact h.stage.keep (fun he => Bool.false_ne_true (hopen.symm.trans he.2.1)) rfl rfl rfl
      le_rfl id
  · rw [heq]
    exact ⟨taken, h.size, h.bytes, h.fed.goOn hrun, hfailed hgone e⟩
  · rw [heq]
    refine ⟨taken ++ part, h.size, ?_, h.fed.goOn hrun, hready part buf hpart hend hnone⟩
    show taken ++ part ++ buf ++ s.waiting = s.body
    rw [List.append_assoc taken, hbuf]
    exact h.bytes

theorem Under.call (h : s.Under taken) (hrun : s.stopped = false) {c : BackendCall}
    {next : Except String Unit → Driver}
    (hok : Stage { s with log := s.log ++ [(c, none)], driver := next (.ok ()) } taken)
    (herror : ∀ e, Stage { s with log := s.log ++ [(c, some e)], driver := next (.error e) } taken) :
    (s.call c next).Under taken := by
  unfold ObjectSink.call
  cases s.fails s.log.length with
  | none => exact ⟨h.size, h.bytes, h.fed.goOn hrun, hok⟩
  | some e => exact ⟨h.size, h.bytes, h.fed.goOn hrun, herror e⟩

theorem Under.taken_le (h : s.Under taken) : taken.length ≤ s.body.length := by
  rw [← h.bytes, List.append_assoc, List.length_append]
  exact Nat.le_add_right _ _

section Turns
variable {number offset : ℕ} {current next : Bytes}

theorem Under.long (h : s.Under taken) (hdriver : s.driver = .sendPart number offset current next) :
    s.partSize < s.body.length := by
  have hstage := h.stage
  have htotal := h.taken_le
  unfold Stage at hstage
  rw [hdriver] at hstage
  obtain ⟨full, hsent, -, -, rfl, hcurrent, hlast, hmore⟩ := hstage
  refine lt_of_lt_of_le ?_ htotal
  by_cases hnext : next = []
  · rw [hnext, List.append_nil]
    exact long_of_full (hlast hnext).1 hsent.full hcurrent
  · have hpos := List.length_pos_iff.mpr hnext
    rw [List.length_append, List.length_append, (hmore hnext).1]
    omega

theorem Under.cap (h : s.Under taken) (hdriver : s.driver = .sendPart number offset current next)
    (hcap : maxParts < number) (err : String) : Under { s with driver := .abort err } taken := by
  have hrun : s.stopped = false := by
    unfold stopped
    rw [hdriver]
  refine ⟨h.size, h.bytes, h.fed.goOn hrun, ?_⟩
  have hlong := h.long hdriver
  have hstage := h.stage
  have htotal := h.taken_le
  unfold Stage at hstage
  rw [hdriver] at hstage
  obtain ⟨full, hsent, rfl, -, rfl, hcurrent, -, -⟩ := hstage
  have hpos := List.length_pos_iff.mpr hcurrent
  have hmul := Nat.mul_le_mul_right s.partSize (Nat.le_of_lt_succ hcap)
  rw [List.length_append, List.length_append, flatten_length_of_full hsent.full] at htotal
  have hfailing : Failing s.partSize s.body.length s.handle
      (allOk (.begin :: fullCalls 1 0 full) ++ []) :=
    failing_of_calls (fullCalls_sends 1 0 full) (fun _ he => absurd he List.not_mem_nil) hlong
      (.inr (.inr (by omega)))
  rw [List.append_nil, ← hsent.calls] at hfailing
  exact hfailing

theorem Under.sent (h : s.Under taken) (hdriver : s.driver = .sendPart number offset current next)
    (hcap : number ≤ maxParts) :
    Stage { s with
      log := s.log ++ [(.sendPart number offset next.isEmpty current, none)]
      driver := if next.isEmpty then .finish
        else .lookahead (number + 1) (offset + current.length) next } taken := by
  have hstage := h.stage
  unfold Stage at hstage
  rw [hdriver] at hstage
  obtain ⟨full, hsent, rfl, rfl, rfl, hcurrent, hlast, hmore⟩ := hstage
  have hone : full.length + 1 = 1 + full.length := Nat.add_comm _ _
  cases next with
  | nil =>
    obtain ⟨hfull, hshort, hex⟩ := hlast rfl
    refine ⟨full ++ [current], ?_, Parts.concat hfull hsent.full hcurrent hshort, ?_, ?_, hex⟩
    · show s.log ++ _ = _
      rw [hsent.calls, partCalls_concat, hone, Nat.zero_add]
      unfold allOk
      rw [← List.cons_append, List.map_append]
      rfl
    · rw [List.length_append]
      exact hcap
    · rw [List.append_nil, List.flatten_append, List.flatten_singleton]
  | cons b next =>
    obtain ⟨hsize, hpart⟩ := hmore (List.cons_ne_nil b next)
    refine ⟨full ++ [current], ⟨?_, fun part hp => ?_⟩, ?_, ?_, ?_, ?_, List.cons_ne_nil b next,
      hpart⟩
    · show s.log ++ _ = _
      rw [hsent.calls, fullCalls_concat, hone, Nat.zero_add]
      unfold allOk
      rw [← List.cons_append, List.map_append]
      rfl
    · rcases List.mem_append.mp hp with hp | hp
      · exact hsent.full part hp
      · rw [List.mem_singleton.mp hp]
        exact hsize
    · exact List.append_ne_nil_of_right_ne_nil _ (List.cons_ne_nil _ _)
    · rw [List.length_append]
      rfl
    · rw [List.flatten_append, List.flatten_singleton, List.length_append]
    · rw [List.flatten_append, List.flatten_singleton]

theorem Under.unsent (h : s.Under taken) (hdriver : s.driver = .sendPart number offset current next)
    (e : String) :
    Stage { s with
      log := s.log ++ [(.sendPart number offset next.isEmpty current, some e)]
      driver := .abort e } taken := by
  have hlong := h.long hdriver
  have hstage := h.stage
  unfold Stage at hstage
  rw [hdriver] at hstage
  obtain ⟨full, hsent, -⟩ := hstage
  show Failing s.partSize s.body.length s.handle (s.log ++ _)
  rw [hsent.calls]
  refine failing_of_calls (fullCalls_sends 1 0 full) (fun e he => ?_) hlong
    (.inl ⟨_, List.mem_singleton_self _, Option.some_ne_none e⟩)
  rw [List.mem_singleton.mp he]
  exact .inl ⟨_, _, _, _, rfl⟩

end Turns

theorem Under.drive (h : s.Under taken) : ∃ taken', s.drive.Under taken' := by
  have hstage := h.stage
  have htotal := h.taken_le
  unfold ObjectSink.drive
  unfold Stage at hstage
  split
  · rename_i hdriver
    rw [hdriver] at hstage
    obtain ⟨hlog, rfl⟩ := hstage
    refine h.await (by unfold stopped; rw [hdriver]) ?_ ?_
    · intro hgone e
      exact .inl ⟨hlog, hgone⟩
    · intro part buf hpart hend hnone
      exact ⟨hlog, rfl, hpart⟩
  · rename_i first hdriver
    rw [hdriver] at hstage
    obtain ⟨hlog, rfl, hfirst⟩ := hstage
    refine h.await (by unfold stopped; rw [hdriver]) ?_ ?_
    · intro hgone e
      exact .inl ⟨hlog, hgone⟩
    · intro part buf hpart hend hnone
      cases part with
      | nil =>
        rw [List.append_nil]
        refine ⟨hlog, rfl, ?_, hend rfl⟩
        exact hfirst.elim le_of_eq fun h => h.1.le
      | cons b part =>
        refine ⟨hlog, rfl, ?_, List.cons_ne_nil b part, hpart⟩
        exact hfirst.resolve_right fun h => List.cons_ne_nil b part (hnone h.2)
  · rename_i body hdriver
    rw [hdriver] at hstage
    obtain ⟨hlog, rfl, hshort, hex⟩ := hstage
    refine ⟨_, h.call (by unfold stopped; rw [hdriver]) ?_ ?_⟩
    · exact ⟨hex, .inl ⟨by rw [hlog]; rfl, hshort⟩⟩
    · intro e
      exact .inr (.inl ⟨e, by rw [hlog]; rfl, hex⟩)
  · rename_i first second hdriver
    rw [hdriver] at hstage
    obtain ⟨hlog, rfl, hfirst, hmore, hsecond⟩ := hstage
    have hpos := List.length_pos_iff.mpr hmore
    refine ⟨_, h.call (by unfold stopped; rw [hdriver]) ?_ ?_⟩
    · refine ⟨[], ⟨by rw [hlog]; rfl, fun _ hp => absurd hp List.not_mem_nil⟩, rfl, rfl, rfl, ?_,
        fun hnil => absurd hnil hmore, fun _ => ⟨hfirst, hsecond⟩⟩
      exact List.length_pos_iff.mp (hfirst ▸ h.size)
    · intro e
      refine .inr (.inr (.inl ⟨e, by rw [hlog]; rfl, ?_⟩))
      rw [List.length_append] at htotal
      show s.partSize < s.body.length
      omega
  · rename_i number offset current next hdriver
    by_cases hcap : maxParts < number
    · rw [if_pos hcap]
      exact ⟨taken, h.cap hdriver hcap _⟩
    · rw [if_neg hcap]
      exact ⟨taken, h.call (by unfold stopped; rw [hdriver]) (h.sent hdriver (not_lt.mp hcap))
        (h.unsent hdriver)⟩
  · rename_i number offset current hdriver
    rw [hdriver] at hstage
    obtain ⟨full, hsent, hfull, rfl, rfl, rfl, hcurrent, hpart⟩ := hstage
    refine h.await (by unfold stopped; rw [hdriver]) ?_ ?_
    · intro hgone e
      have hfailing : Failing s.partSize s.body.length s.handle
          (allOk (.begin :: fullCalls 1 0 full) ++ []) :=
        failing_of_calls (fullCalls_sends 1 0 full) (fun _ he => absurd he List.not_mem_nil)
          ((long_of_full hfull hsent.full hcurrent).trans_le htotal) (.inr (.inl hgone))
      rw [List.append_nil, ← hsent.calls] at hfailing
      exact hfailing
    · intro part buf hnext hend hnone
      refine ⟨full, hsent, rfl, rfl, rfl, hcurrent, fun hnil => ⟨hfull, ?_, hend hnil⟩,
        fun hne => ⟨?_, hnext⟩⟩
      · exact hpart.elim le_of_eq fun h => h.1.le
      · exact hpart.resolve_right fun h => hne (hnone h.2)
  · rename_i hdriver
    rw [hdriver] at hstage
    obtain ⟨parts, hlog, hparts, hmany, rfl, hex⟩ := hstage
    refine ⟨_, h.call (by unfold stopped; rw [hdriver]) ?_ ?_⟩
    · refine ⟨hex, .inr ⟨parts, ?_, hparts, hmany, rfl⟩⟩
      show s.log ++ _ = _
      rw [hlog]
      unfold allOk
      rw [List.map_append]
      rfl
    · intro e
      show Failing s.partSize s.body.length s.handle (s.log ++ _)
      rw [hlog]
      refine failing_of_calls (partCalls_sends 1 0 parts) (fun e he => ?_)
        (hparts.long.trans_le htotal) (.inl ⟨_, List.mem_singleton_self _, Option.some_ne_none e⟩)
      rw [List.mem_singleton.mp he]
      exact .inr ⟨rfl, Option.some_ne_none _⟩
  · rename_i err hdriver
    rw [hdriver] at hstage
    refine ⟨_, h.call (by unfold stopped; rw [hdriver]) ?_ ?_⟩
    · exact .inr (.inr (.inr ⟨s.log, none, rfl, hstage⟩))
    · intro e
      exact .inr (.inr (.inr ⟨s.log, some e, rfl, hstage⟩))
  · exact ⟨taken, h⟩

theorem Under.step (h : s.Under taken) (ev : Event) : ∃ taken', (s.step ev).Under taken' := by
  cases ev with
  | write chunk => exact ⟨taken, h.write chunk⟩
  | finish => exact ⟨taken, h.finish⟩
  | abort => exact ⟨taken, h.abort⟩
  | drive => exact h.drive

theorem under_run (fails : ℕ → Option String) (partSize : ℕ) (evs : List Event) :
    ∃ taken, (run step (opened fails partSize) evs).Under taken :=
  run_invariant (P := fun s : ObjectSink => ∃ taken, s.Under taken)
    (fun _ ev h => h.elim fun _ h => h.step ev) ⟨[], opened_under fails partSize⟩ evs

section Progress

def Driver.rank : Driver → ℕ
  | .first => 9
  | .second _ => 8
  | .begin _ _ => 7
  | .sendPart _ _ _ next => if next.isEmpty then 4 else 6
  | .lookahead _ _ _ => 5
  | .finish => 3
  | .putSingle _ => 1
  | .abort _ => 1
  | .done _ => 0

theorem Driver.rank_sendPart (number offset : ℕ) (current next : Bytes) :
    4 ≤ Driver.rank (.sendPart number offset current next) ∧
      Driver.rank (.sendPart number offset current next) ≤ 6 := by
  unfold Driver.rank
  cases next with
  | nil => exact ⟨le_rfl, Nat.le_add_right 4 2⟩
  | cons b next => exact ⟨Nat.le_add_right 4 2, le_rfl⟩

/-- What is left to do, once the sender is gone. -/
def left (s : ObjectSink) : ℕ :=
  4 * (s.buf.length + s.waiting.length) + s.queue.length + Driver.rank s.driver

theorem nextPart_left (hlet : s.handle ≠ .held) {ready : Bytes → Driver}
    {failed : String → Driver} (hfailed : ∀ e, Driver.rank (failed e) < Driver.rank s.driver)
    (hnil : Driver.rank (ready []) < Driver.rank s.driver)
    (hready : ∀ part, Driver.rank (ready part) < Driver.rank s.driver + 4) :
    (s.nextPart ready failed).left < s.left := by
  unfold nextPart left waiting
  by_cases hmore : (!s.finished && decide (s.buf.length < s.partSize)) = true
  · rw [if_pos hmore]
    split
    · rename_i chunk queue hqueue
      rw [hqueue]
      simp only [List.map_cons, List.flatten_cons, List.length_append, List.length_cons, Msg.bytes]
      omega
    · rename_i queue hqueue
      rw [hqueue]
      simp only [List.map_cons, List.flatten_cons, List.length_append, List.length_cons, Msg.bytes]
      omega
    · rename_i hqueue
      rw [if_neg hlet]
      exact Nat.add_lt_add_left (hfailed _) _
  · rw [if_neg hmore]
    simp only
    have hsplit := congrArg List.length (List.take_append_drop s.partSize s.buf)
    rw [List.length_append] at hsplit
    have hpart := hready (s.buf.take s.partSize)
    cases htake : s.buf.take s.partSize with
    | nil =>
      rw [htake, List.length_nil] at hsplit
      omega
    | cons b part =>
      rw [htake] at hpart hsplit
      rw [List.length_cons] at hsplit
      omega

theorem drive_left (hlet : s.handle ≠ .held) (hrun : s.stopped = false) :
    s.drive.left < s.left := by
  have hcall : ∀ (c : BackendCall) (next : Except String Unit → Driver),
      Driver.rank (next (.ok ())) < Driver.rank s.driver →
      (∀ e, Driver.rank (next (.error e)) < Driver.rank s.driver) → (s.call c next).left < s.left := by
    intro c next hok herror
    unfold call left
    cases s.fails s.log.length with
    | none => exact Nat.add_lt_add_left hok _
    | some e => exact Nat.add_lt_add_left (herror e) _
  unfold drive
  split
  · rename_i hdriver
    refine nextPart_left hlet (fun e => ?_) ?_ fun part => ?_
    all_goals
      rw [hdriver]
      simp [Driver.rank]
  · rename_i first hdriver
    refine nextPart_left hlet (fun e => ?_) ?_ fun part => ?_
    all_goals rw [hdriver]
    · simp [Driver.rank]
    · simp [Driver.rank]
    · split_ifs
      · simp [Driver.rank]
      · simp [Driver.rank]
  · rename_i body hdriver
    refine hcall _ _ ?_ fun e => ?_
    all_goals
      rw [hdriver]
      simp [Driver.rank]
  · rename_i first second hdriver
    refine hcall _ _ ?_ fun e => ?_
    all_goals rw [hdriver]
    · exact Nat.lt_succ_of_le (Driver.rank_sendPart 1 0 first second).2
    · simp [Driver.rank]
  · rename_i number offset current next hdriver
    have hrank := (Driver.rank_sendPart number offset current next).1
    rw [← hdriver] at hrank
    by_cases hcap : maxParts < number
    · rw [if_pos hcap]
      exact Nat.add_lt_add_left (Nat.lt_of_lt_of_le (by simp [Driver.rank]) hrank) _
    · rw [if_neg hcap]
      refine hcall _ _ ?_ fun e => ?_
      · cases next with
        | nil =>
          rw [hdriver]
          simp [Driver.rank]
        | cons b next =>
          rw [hdriver]
          simp [Driver.rank]
      · exact Nat.lt_of_lt_of_le (by simp [Driver.rank]) hrank
  · rename_i number offset current hdriver
    refine nextPart_left hlet (fun e => ?_) ?_ fun part => ?_
    all_goals rw [hdriver]
    · simp [Driver.rank]
    · simp [Driver.rank]
    · exact Nat.lt_of_le_of_lt (Driver.rank_sendPart number offset current part).2
        (by simp [Driver.rank])
  · rename_i hdriver
    refine hcall _ _ ?_ fun e => ?_
    all_goals
      rw [hdriver]
      simp [Driver.rank]
  · rename_i err hdriver
    refine hcall _ _ ?_ fun e => ?_
    all_goals
      rw [hdriver]
      simp [Driver.rank]
  · rename_i outcome hdriver
    unfold stopped at hrun
    rw [hdriver] at hrun
    exact Bool.noConfusion hrun

structure Driven (s s' : ObjectSink) : Prop where
  handle : s'.handle = s.handle
  pushed : s'.pushed = s.pushed
  fails : s'.fails = s.fails
  partSize : s'.partSize = s.partSize
  log : s'.log = s.log ∨ ∃ c, s'.log = s.log ++ [(c, s.fails s.log.length)]

theorem driven (s : ObjectSink) : Driven s s.drive := by
  have hnext : ∀ ready failed, Driven s (s.nextPart ready failed) := by
    intro ready failed
    unfold nextPart
    by_cases hmore : (!s.finished && decide (s.buf.length < s.partSize)) = true
    · rw [if_pos hmore]
      split
      · exact ⟨rfl, rfl, rfl, rfl, .inl rfl⟩
      · exact ⟨rfl, rfl, rfl, rfl, .inl rfl⟩
      · split_ifs
        · exact ⟨rfl, rfl, rfl, rfl, .inl rfl⟩
        · exact ⟨rfl, rfl, rfl, rfl, .inl rfl⟩
    · rw [if_neg hmore]
      exact ⟨rfl, rfl, rfl, rfl, .inl rfl⟩
  have hcall : ∀ c next, Driven s (s.call c next) :=
    fun c next => ⟨rfl, rfl, rfl, rfl, .inr ⟨c, rfl⟩⟩
  unfold drive
  split
  · exact hnext _ _
  · exact hnext _ _
  · exact hcall _ _
  · exact hcall _ _
  · rename_i number _ _ _ _
    by_cases hcap : maxParts < number
    · rw [if_pos hcap]
      exact ⟨rfl, rfl, rfl, rfl, .inl rfl⟩
    · rw [if_neg hcap]
      exact hcall _ _
  · exact hnext _ _
  · exact hcall _ _
  · exact hcall _ _
  · exact ⟨rfl, rfl, rfl, rfl, .inl rfl⟩

theorem drive_stops (hlet : s.handle ≠ .held) :
    ∃ n outcome, (run step s (List.replicate n .drive)).driver = .done outcome := by
  generalize hleft : s.left = n
  induction n using Nat.strongRecOn generalizing s with
  | ind n ih =>
    cases hstopped : s.stopped with
    | true =>
      unfold stopped at hstopped
      split at hstopped
      · rename_i outcome hdriver
        exact ⟨0, outcome, hdriver⟩
      · exact Bool.noConfusion hstopped
    | false =>
      have hless := drive_left hlet hstopped
      rw [hleft] at hless
      obtain ⟨m, outcome, hm⟩ := ih _ hless ((driven s).handle.trans_ne hlet) rfl
      exact ⟨m + 1, outcome, hm⟩

end Progress

structure Settled (s : ObjectSink) (outcome : Except String Unit) : Prop where
  committed_iff : Committed s.log ↔
    s.handle = .finished ∧ (∀ e ∈ s.log, e.2 = none) ∧ s.body.length ≤ maxParts * s.partSize
  reported : outcome = .ok () ↔ Committed s.log
  whole : Committed s.log → s.log = allOk [.putSingle s.body] ∨
    ∃ parts, s.log = allOk (.begin :: partCalls 1 0 parts ++ [.finish]) ∧
      Parts s.partSize parts ∧ parts.flatten = s.body
  single : s.handle = .finished → s.body.length ≤ s.partSize →
    s.log.map Prod.fst = [.putSingle s.body]
  aborted : (.begin, none) ∈ s.log → ¬Committed s.log →
    s.log.countP (fun e => e.1 = .abort) = 1

theorem Under.body_eq (h : s.Under taken) (hex : s.Exhausted) : taken = s.body := by
  obtain ⟨-, -, hqueue, hbuf⟩ := hex
  have hbytes := h.bytes
  unfold waiting at hbytes
  rw [hqueue, hbuf, List.append_nil] at hbytes
  exact (List.append_nil taken).symm.trans hbytes

theorem Under.settled_ok (h : s.Under taken) (hdone : s.driver = .done (.ok ())) :
    s.Settled (.ok ()) := by
  have hstage := h.stage
  unfold Stage at hstage
  rw [hdone] at hstage
  obtain ⟨hex, hlog⟩ := hstage
  obtain rfl := h.body_eq hex
  have hlarge : s.partSize ≤ maxParts * s.partSize := Nat.le_mul_of_pos_left _ (by decide)
  have hclean : ∀ calls, ∀ e ∈ allOk calls, e.2 = none := by
    intro calls e he
    obtain ⟨c, -, rfl⟩ := List.mem_map.mp he
    rfl
  rcases hlog with ⟨hlog, hshort⟩ | ⟨parts, hlog, hparts, hmany, hbody⟩
  · have hcommitted : Committed s.log := by
      rw [hlog]
      exact .inl ⟨s.body, List.mem_singleton_self _⟩
    refine ⟨⟨fun _ => ⟨hex.1, ?_, hshort.trans hlarge⟩, fun _ => hcommitted⟩,
      ⟨fun _ => hcommitted, fun _ => rfl⟩, fun _ => .inl hlog, fun _ _ => ?_,
      fun _ hnot => absurd hcommitted hnot⟩
    · rw [hlog]
      exact hclean _
    · rw [hlog]
      rfl
  · have hcommitted : Committed s.log := by
      rw [hlog]
      refine .inr (List.mem_map.mpr ⟨.finish, ?_, rfl⟩)
      exact List.mem_append_right _ (List.mem_singleton_self _)
    refine ⟨⟨fun _ => ⟨hex.1, ?_, ?_⟩, fun _ => hcommitted⟩,
      ⟨fun _ => hcommitted, fun _ => rfl⟩, fun _ => .inr ⟨parts, hlog, hparts, hbody.symm⟩,
      fun _ hshort => ?_, fun _ hnot => absurd hcommitted hnot⟩
    · rw [hlog]
      exact hclean _
    · rw [hbody]
      exact hparts.length_le.trans (Nat.mul_le_mul_right _ hmany)
    · rw [hbody] at hshort
      exact absurd hparts.long (not_lt.mpr hshort)

theorem settled_error {e : String} (hnot : ¬Committed s.log)
    (hreason : (∃ e ∈ s.log, e.2 ≠ none) ∨ s.handle = .gone ∨
      maxParts * s.partSize < s.body.length)
    (hsingle : s.handle = .finished → s.body.length ≤ s.partSize →
      s.log.map Prod.fst = [.putSingle s.body])
    (haborted : (.begin, none) ∈ s.log → s.log.countP (fun e => e.1 = .abort) = 1) :
    s.Settled (.error e) := by
  refine ⟨⟨fun h => absurd h hnot, ?_⟩, ⟨fun h => by simp at h, fun h => absurd h hnot⟩,
    fun h => absurd h hnot, hsingle, fun h _ => haborted h⟩
  rintro ⟨hhandle, hclean, hfits⟩
  rcases hreason with ⟨e, he, hfailed⟩ | hgone | hlarge
  · exact absurd (hclean e he) hfailed
  · exact Handle.noConfusion (hhandle.symm.trans hgone)
  · exact absurd hfits (not_le.mpr hlarge)

theorem Under.settled (h : s.Under taken) {outcome : Except String Unit}
    (hdone : s.driver = .done outcome) : s.Settled outcome := by
  cases outcome with
  | ok _ => exact h.settled_ok hdone
  | error err =>
    have hstage := h.stage
    unfold Stage at hstage
    rw [hdone] at hstage
    rcases hstage with ⟨hlog, hgone⟩ | ⟨e, hlog, hex⟩ | ⟨e, hlog, hlong⟩ | ⟨log, e, hlog, hf⟩
    · refine settled_error ?_ (.inr (.inl hgone))
        (fun hhandle => Handle.noConfusion (hgone.symm.trans hhandle)) fun hin => ?_
      · rw [hlog]
        rintro (⟨body, hin⟩ | hin)
        · exact List.not_mem_nil hin
        · exact List.not_mem_nil hin
      · rw [hlog] at hin
        exact absurd hin List.not_mem_nil
    · obtain rfl := h.body_eq hex
      refine settled_error ?_ (.inl ?_) (fun _ _ => ?_) fun hin => ?_
      · rw [hlog]
        rintro (⟨body, hin⟩ | hin)
        · simp at hin
        · simp at hin
      · rw [hlog]
        exact ⟨_, List.mem_singleton_self _, Option.some_ne_none e⟩
      · rw [hlog]
        rfl
      · rw [hlog] at hin
        simp at hin
    · refine settled_error ?_ (.inl ?_) (fun _ hshort => absurd hlong (not_lt.mpr hshort))
        fun hin => ?_
      · rw [hlog]
        rintro (⟨body, hin⟩ | hin)
        · simp at hin
        · simp at hin
      · rw [hlog]
        exact ⟨_, List.mem_singleton_self _, Option.some_ne_none e⟩
      · rw [hlog] at hin
        simp at hin
    · refine settled_error ?_ ?_ (fun _ hshort => absurd hf.long (not_lt.mpr hshort)) fun _ => ?_
      · rw [hlog]
        exact hf.not_committed e
      · rw [hlog]
        exact hf.reason.imp_left fun ⟨f, hin, hfailed⟩ => ⟨f, List.mem_append_left _ hin, hfailed⟩
      · obtain ⟨more, rfl, hmore⟩ := hf.begun
        have hnone : ((BackendCall.begin, (none : Option String)) :: more).countP
            (fun e => e.1 = .abort) = 0 := by
          refine List.countP_eq_zero.mpr fun f hin => ?_
          rcases List.mem_cons.mp hin with rfl | hin
          · simp
          · rcases hmore f hin with ⟨number, offset, last, part, hsend⟩ | ⟨hfinish, -⟩
            · simp [hsend]
            · simp [hfinish]
        rw [hlog, List.countP_append, hnone]
        rfl

/-- An upload whose sender was let go of comes to its end; and one that has ended has
committed the whole body, or nothing of it. -/
theorem commit_once (fails : ℕ → Option String) (partSize : ℕ) (evs : List Event) :
    ((run step (opened fails partSize) evs).handle ≠ .held → ∃ n outcome,
      (run step (opened fails partSize) (evs ++ List.replicate n .drive)).driver = .done outcome) ∧
    ∀ outcome, (run step (opened fails partSize) evs).driver = .done outcome →
      (run step (opened fails partSize) evs).Settled outcome := by
  constructor
  · intro hlet
    obtain ⟨n, outcome, hn⟩ := drive_stops hlet
    refine ⟨n, outcome, ?_⟩
    rw [run_append]
    exact hn
  · intro outcome hdone
    obtain ⟨taken, hunder⟩ := under_run fails partSize evs
    exact hunder.settled hdone

/-- A sink that was given one chunk and finished, some turns of its task later. -/
structure OneChunk (chunk : Bytes) (partSize : ℕ) (s : ObjectSink) : Prop where
  handle : s.handle = .finished
  pushed : s.pushed = [chunk]
  fails : s.fails = fun _ => none
  partSize : s.partSize = max partSize 1
  clean : ∀ e ∈ s.log, e.2 = none

theorem oneChunk_run {chunk : Bytes} (hchunk : chunk ≠ []) (partSize n : ℕ) :
    OneChunk chunk partSize (run step (opened (fun _ => none) partSize)
      ([.write chunk, .finish] ++ List.replicate n .drive)) := by
  rw [run_append]
  have hstart : OneChunk chunk partSize
      (run step (opened (fun _ => none) partSize) [.write chunk, .finish]) := by
    cases chunk with
    | nil => exact absurd rfl hchunk
    | cons b chunk => exact ⟨rfl, rfl, rfl, rfl, fun _ he => absurd he List.not_mem_nil⟩
  generalize run step (opened (fun _ => none) partSize) [.write chunk, .finish] = s at hstart ⊢
  induction n generalizing s with
  | zero => exact hstart
  | succ n ih =>
    have hd := driven s
    refine ih s.drive ⟨hd.handle.trans hstart.handle, hd.pushed.trans hstart.pushed,
      hd.fails.trans hstart.fails, hd.partSize.trans hstart.partSize, fun e he => ?_⟩
    rcases hd.log with hlog | ⟨c, hlog⟩
    · rw [hlog] at he
      exact hstart.clean e he
    · rw [hlog, hstart.fails] at he
      rcases List.mem_append.mp he with he | he
      · exact hstart.clean e he
      · rw [List.mem_singleton.mp he]

/-- Parts of one byte, and a byte too many: no call fails, and nothing is committed. -/
theorem commit_once_capped :
    ¬∀ n outcome, (run step (opened (fun _ => none) 1)
        ([.write (List.replicate (maxParts + 1) 0), .finish] ++ List.replicate n .drive)).driver =
          .done outcome →
      (Committed (run step (opened (fun _ => none) 1)
          ([.write (List.replicate (maxParts + 1) 0), .finish] ++ List.replicate n .drive)).log ↔
        (run step (opened (fun _ => none) 1)
          ([.write (List.replicate (maxParts + 1) 0), .finish] ++ List.replicate n .drive)).handle =
            .finished ∧
        ∀ e ∈ (run step (opened (fun _ => none) 1)
          ([.write (List.replicate (maxParts + 1) 0), .finish] ++ List.replicate n .drive)).log,
            e.2 = none) := by
  intro h
  have hchunk : List.replicate (maxParts + 1) (0 : UInt8) ≠ [] := List.cons_ne_nil _ _
  have hbody : [List.replicate (maxParts + 1) (0 : UInt8)].flatten.length = maxParts + 1 := by
    rw [List.flatten_singleton, List.length_replicate]
  generalize List.replicate (maxParts + 1) (0 : UInt8) = chunk at h hchunk hbody
  have hend := oneChunk_run hchunk 1
  have hlet : (run step (opened (fun _ => none) 1) [.write chunk, .finish]).handle ≠ .held := by
    have hzero := (hend 0).handle
    rw [List.replicate_zero, List.append_nil] at hzero
    rw [hzero]
    exact Handle.noConfusion
  obtain ⟨n, outcome, hdone⟩ := drive_stops hlet
  rw [← run_append] at hdone
  obtain ⟨taken, hunder⟩ := under_run (fun _ => none) 1
    ([.write chunk, .finish] ++ List.replicate n .drive)
  have hsettled := hunder.settled hdone
  have hcommitted := (h n outcome hdone).mpr ⟨(hend n).handle, (hend n).clean⟩
  have hfits := (hsettled.committed_iff.mp hcommitted).2.2
  unfold body at hfits
  rw [(hend n).pushed, (hend n).partSize, hbody, max_self, mul_one] at hfits
  exact absurd hfits (Nat.not_succ_le_self maxParts)

end ObjectSink
end JamStream.Cloud
