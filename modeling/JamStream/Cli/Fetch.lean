import JamStream.Cli.State

/-! One take, streamed from its bucket to a file. What the store, the disk and the progress
report answer is given ahead; the file is followed through every way out. -/

namespace JamStream.Cli
open Foundations Cloud

structure Take where
  key : String
  name : String
  size : ℕ
deriving DecidableEq

/-- The body of an object as it arrives: the length its header promises, and how it ends behind
its chunks. -/
structure Body where
  contentLength : Option ℕ
  chunks : List (List UInt8)
  ending : Except String Unit

/-- What becomes of a write: so many bytes reach the file, and of the rest, where the write fails,
so many stay in the buffer. -/
structure WriteFate where
  moved : ℕ
  kept : ℕ
  result : Except String Unit

/-- What one download is answered. A removal takes the file away or does not. -/
structure FetchAnswers where
  create : Except String Unit
  started : Except CliError Unit
  reply : Except ProviderError Body
  write : ℕ → WriteFate
  advanced : ℕ → Except CliError Unit
  flush : WriteFate
  sync : Except String Unit
  finished : Except CliError Unit
  removed : Bool

/-- The file at the path, and what has not reached it. -/
structure TakeSink where
  file : Option (List UInt8)
  buffered : List UInt8
  written : ℕ
  writes : ℕ

namespace TakeSink

/-- Bytes behind those in the buffer, and what becomes of them. -/
def push (s : TakeSink) (chunk : List UInt8) (fate : WriteFate) : TakeSink :=
  let pending := s.buffered ++ chunk
  let left := pending.drop fate.moved
  { s with
    file := s.file.map (· ++ pending.take fate.moved)
    buffered := if fate.result.isOk then left else left.take fate.kept }

end TakeSink

section fetch
variable (a : FetchAnswers) (path : String)

def writeChunk (chunk : List UInt8) : Command TakeSink ProviderError Unit := do
  let s ← get
  set { s.push chunk (a.write s.writes) with writes := s.writes + 1 }
  Command.answer ((a.write s.writes).result.mapError fun e =>
    .other ("writing " ++ path ++ ": " ++ e))
  modify fun s => { s with written := s.written + chunk.length }
  Command.answer ((a.advanced s.writes).mapError fun e =>
    .other ("reporting progress: " ++ e.display))

def checkDelivered (expected : Option ℕ) (delivered : ℕ) (key : String) :
    Except ProviderError Unit :=
  match expected with
  | some expected =>
    if expected ≠ delivered then .error (.other ("download of " ++ key ++
      " is truncated: content-length promised " ++ toString expected ++ " bytes, " ++
      toString delivered ++ " arrived"))
    else .ok ()
  | none => .ok ()

def drainBody (key : String) (body : Body) : Command TakeSink ProviderError Unit := do
  body.chunks.forM (writeChunk a path)
  Command.answer (body.ending.mapError fun e => .other ("downloading " ++ key ++ " failed after " ++
    toString body.chunks.flatten.length ++ " bytes: " ++ e))
  Command.answer (checkDelivered body.contentLength body.chunks.flatten.length key)

def storeGet (key : String) : Command TakeSink ProviderError Unit := do
  let body ← Command.answer a.reply
  drainBody a path key body

def flushed (s : TakeSink) : TakeSink :=
  if a.flush.result.isOk then s.push [] { a.flush with moved := s.buffered.length }
  else s.push [] a.flush

/-- A buffer that could not be flushed is dropped, and the file stays. -/
def finish : Command TakeSink CliError ℕ := do
  modify (flushed a)
  Command.answer (a.flush.result.mapError .io)
  Command.answer (a.sync.mapError .io)
  Command.answer a.finished
  let s ← get
  pure s.written

def removeFile : Command TakeSink CliError Unit :=
  modify fun s => if a.removed then { s with file := none } else s

def truncated (take : Take) (written : ℕ) : CliError :=
  .failed (take.name ++ " is truncated: the bucket lists " ++ toString take.size ++ " bytes and " ++
    toString written ++ " arrived, so the partial file was removed")

/-- A take that came up short must not be left looking like a recording. -/
def conclude (take : Take) (outcome : Except CliError Unit) (written : ℕ) :
    Command TakeSink CliError ℕ :=
  match outcome with
  | .ok () =>
    if written ≠ take.size then do
      removeFile a
      throw (truncated take written)
    else pure written
  | .error e => do
    removeFile a
    throw e

def fetchOne (take : Take) : Command TakeSink CliError ℕ := do
  Command.answer (a.create.mapError .io)
  modify fun s => { s with file := some [] }
  Command.answer a.started
  let outcome ← Command.attempt (ExceptT.adapt CliError.provider (storeGet a path take.key))
  let written ← finish a
  conclude a take outcome written

def beforeFetch (file : Option (List UInt8)) : TakeSink :=
  { file, buffered := [], written := 0, writes := 0 }

end fetch

section chunks
variable {a : FetchAnswers} {path : String} {s t : TakeSink} {bytes chunk : List UInt8}

/-- The file and the buffer behind it hold these bytes, and they are counted. -/
structure TakeSink.Holds (s : TakeSink) (bytes : List UInt8) : Prop where
  file : s.file.map (· ++ s.buffered) = some bytes
  written : s.written = bytes.length

def FetchAnswers.takesChunk (a : FetchAnswers) (i : ℕ) : Prop :=
  (a.write i).result = .ok () ∧ a.advanced i = .ok ()

theorem push_isSome (s : TakeSink) (chunk : List UInt8) (fate : WriteFate) :
    (s.push chunk fate).file.isSome = s.file.isSome := Option.isSome_map

theorem TakeSink.Holds.push (h : s.Holds bytes) {fate : WriteFate} (hok : fate.result = .ok ()) :
    (s.push chunk fate).file.map (· ++ (s.push chunk fate).buffered) = some (bytes ++ chunk) := by
  obtain ⟨file, hfile, hall⟩ := Option.map_eq_some_iff.mp h.file
  have hkeeps : fate.result.isOk = true := by
    rw [hok]
    rfl
  simp only [TakeSink.push, hfile, Option.map_some, hkeeps, if_true]
  rw [List.append_assoc, List.take_append_drop, ← List.append_assoc, hall]

theorem ends_writeChunk (a : FetchAnswers) (path : String) (chunk : List UInt8) (s : TakeSink) :
    (writeChunk a path chunk).ends s =
      (((a.write s.writes).result.mapError fun e => .other ("writing " ++ path ++ ": " ++ e)).bind
        fun _ => (a.advanced s.writes).mapError fun e =>
          .other ("reporting progress: " ++ e.display),
      { s.push chunk (a.write s.writes) with
        writes := s.writes + 1
        written := if (a.write s.writes).result.isOk then s.written + chunk.length
          else s.written }) := by
  unfold writeChunk
  rw [Command.ends_bind_ok (rfl : (get : Command TakeSink ProviderError TakeSink).ends s = _)]
  rcases (a.write s.writes).result with e | _
  · rfl
  · rfl

theorem writeChunk_isSome (a : FetchAnswers) (path : String) (chunk : List UInt8) :
    Command.Keeps (fun s : TakeSink => s.file.isSome) (writeChunk a path chunk) := by
  intro s
  rw [ends_writeChunk]
  exact push_isSome s chunk _

theorem writeChunk_ok (h : (writeChunk a path chunk).ends s = (.ok (), t)) :
    a.takesChunk s.writes ∧ t.writes = s.writes + 1 ∧
      ∀ bytes, s.Holds bytes → t.Holds (bytes ++ chunk) := by
  rw [ends_writeChunk] at h
  obtain ⟨hends, rfl⟩ := Prod.mk.inj h
  rcases hwrite : (a.write s.writes).result with e | _
  · rw [hwrite] at hends
    cases hends
  · rcases hreport : a.advanced s.writes with e | _
    · rw [hwrite, hreport] at hends
      cases hends
    · refine ⟨⟨hwrite, hreport⟩, rfl, fun bytes hheld => ⟨hheld.push hwrite, ?_⟩⟩
      show s.written + chunk.length = _
      rw [hheld.written, List.length_append]

theorem writeChunk_of_takes (h : a.takesChunk s.writes) :
    ∃ t, (writeChunk a path chunk).ends s = (.ok (), t) := by
  rw [ends_writeChunk, h.1, h.2]
  exact ⟨_, rfl⟩

theorem writeChunks_ok {chunks : List (List UInt8)}
    (h : (chunks.forM (writeChunk a path)).ends s = (.ok (), t)) :
    (∀ i < chunks.length, a.takesChunk (s.writes + i)) ∧
      ∀ bytes, s.Holds bytes → t.Holds (bytes ++ chunks.flatten) := by
  induction chunks generalizing s with
  | nil =>
    obtain ⟨-, rfl⟩ := Prod.mk.inj h
    refine ⟨nofun, fun bytes hheld => ?_⟩
    rwa [List.flatten_nil, List.append_nil]
  | cons chunk chunks ih =>
    change (writeChunk a path chunk >>= fun _ => chunks.forM (writeChunk a path)).ends s = _ at h
    obtain ⟨_, u, hfirst, hrest⟩ := Command.ends_bind_iff.mp h
    obtain ⟨htaken, hcount, hheld⟩ := writeChunk_ok hfirst
    obtain ⟨htakenRest, hheldRest⟩ := ih hrest
    refine ⟨fun i hi => ?_, fun bytes hbytes => ?_⟩
    · rcases i with _ | i
      · exact htaken
      · have hnext := htakenRest i (Nat.lt_of_succ_lt_succ hi)
        rwa [hcount, Nat.add_right_comm, Nat.add_assoc] at hnext
    · rw [List.flatten_cons, ← List.append_assoc]
      exact hheldRest _ (hheld bytes hbytes)

theorem writeChunks_of_takes {chunks : List (List UInt8)}
    (h : ∀ i < chunks.length, a.takesChunk (s.writes + i)) :
    ∃ t, (chunks.forM (writeChunk a path)).ends s = (.ok (), t) := by
  induction chunks generalizing s with
  | nil => exact ⟨s, rfl⟩
  | cons chunk chunks ih =>
    have hstep : ∃ u, (writeChunk a path chunk).ends s = (.ok (), u) :=
      writeChunk_of_takes (h 0 (Nat.zero_lt_succ _))
    obtain ⟨u, hfirst⟩ := hstep
    obtain ⟨-, hcount, -⟩ := writeChunk_ok hfirst
    change ∃ t, (writeChunk a path chunk >>= fun _ => chunks.forM (writeChunk a path)).ends s = _
    rw [Command.ends_bind_ok hfirst]
    refine ih fun i hi => ?_
    rw [hcount, Nat.add_right_comm, Nat.add_assoc]
    exact h (i + 1) (Nat.succ_lt_succ hi)

end chunks

section download
variable {a : FetchAnswers} {path : String} {take : Take} {s t : TakeSink} {bytes : List UInt8}

/-- The store delivers a body without a fault, and every chunk of it is taken. -/
structure FetchAnswers.Delivers (a : FetchAnswers) (body : Body) : Prop where
  reply : a.reply = .ok body
  taken : ∀ i < body.chunks.length, a.takesChunk i
  ending : body.ending = .ok ()
  promised : ∀ n ∈ body.contentLength, n = body.chunks.flatten.length

theorem checkDelivered_iff {expected : Option ℕ} {delivered : ℕ} {key : String} :
    checkDelivered expected delivered key = .ok () ↔ ∀ n ∈ expected, n = delivered := by
  unfold checkDelivered
  rcases expected with _ | n
  · exact iff_of_true rfl nofun
  · by_cases hn : n = delivered
    · subst hn
      refine iff_of_true (if_neg (not_not.mpr rfl)) fun m hm => ?_
      exact (Option.some.inj hm).symm
    · refine iff_of_false (fun h => ?_) fun h => hn (h n rfl)
      dsimp only at h
      rw [if_pos hn] at h
      cases h

theorem storeGet_isSome (a : FetchAnswers) (path key : String) :
    Command.Keeps (fun s : TakeSink => s.file.isSome) (storeGet a path key) := by
  refine Command.keeps_bind (Command.keeps_answer _) fun body => ?_
  refine Command.keeps_bind (Command.keeps_forM (writeChunk_isSome a path) _) fun _ => ?_
  exact Command.keeps_bind (Command.keeps_answer _) fun _ => Command.keeps_answer _

theorem mapError_eq_ok {ε ε' α : Type} {r : Except ε α} {f : ε → ε'} {x : α} :
    r.mapError f = .ok x ↔ r = .ok x := by
  rcases r with e | y
  · exact iff_of_false nofun nofun
  · exact ⟨fun h => congrArg _ (Except.ok.inj h), fun h => congrArg _ (Except.ok.inj h)⟩

theorem storeGet_ok {key : String} (hfirst : s.writes = 0)
    (h : (storeGet a path key).ends s = (.ok (), t)) :
    ∃ body, a.Delivers body ∧
      ∀ bytes, s.Holds bytes → t.Holds (bytes ++ body.chunks.flatten) := by
  obtain ⟨body, hreply, hdrain⟩ := Command.ends_answer_bind_iff.mp h
  obtain ⟨_, u, hchunks, hrest⟩ := Command.ends_bind_iff.mp hdrain
  obtain ⟨_, hending, hlast⟩ := Command.ends_answer_bind_iff.mp hrest
  obtain ⟨hpromised, rfl⟩ := Prod.mk.inj hlast
  obtain ⟨htaken, hheld⟩ := writeChunks_ok hchunks
  refine ⟨body, ⟨hreply, fun i hi => ?_, mapError_eq_ok.mp hending, ?_⟩, hheld⟩
  · have htake := htaken i hi
    rwa [hfirst, Nat.zero_add] at htake
  · exact checkDelivered_iff.mp hpromised

theorem storeGet_of_delivers {body : Body} {key : String} (hfirst : s.writes = 0)
    (h : a.Delivers body) : ∃ t, (storeGet a path key).ends s = (.ok (), t) := by
  have hchunks : ∃ t, (body.chunks.forM (writeChunk a path)).ends s = (.ok (), t) := by
    refine writeChunks_of_takes fun i hi => ?_
    rw [hfirst, Nat.zero_add]
    exact h.taken i hi
  obtain ⟨t, ht⟩ := hchunks
  refine ⟨t, ?_⟩
  rw [storeGet, Command.ends_answer_bind_ok h.reply, drainBody, Command.ends_bind_ok ht,
    Command.ends_answer_bind_ok (mapError_eq_ok.mpr h.ending), Command.ends_answer,
    checkDelivered_iff.mpr h.promised]

/-- The buffer is flushed, the file is on the disk, and the report of it works. -/
structure FetchAnswers.Finishes (a : FetchAnswers) : Prop where
  flush : a.flush.result = .ok ()
  sync : a.sync = .ok ()
  finished : a.finished = .ok ()

theorem flushed_isSome (a : FetchAnswers) (s : TakeSink) :
    (flushed a s).file.isSome = s.file.isSome := by
  unfold flushed
  split_ifs
  · exact push_isSome s [] _
  · exact push_isSome s [] _

theorem finish_isSome (a : FetchAnswers) :
    Command.Keeps (fun s : TakeSink => s.file.isSome) (finish a) := by
  refine Command.keeps_bind (flushed_isSome a) fun _ => ?_
  refine Command.keeps_bind (Command.keeps_answer _) fun _ => ?_
  refine Command.keeps_bind (Command.keeps_answer _) fun _ => ?_
  exact Command.keeps_bind (Command.keeps_answer _) fun _ => fun s => rfl

theorem finish_ok {n : ℕ} (h : (finish a).ends s = (.ok n, t)) :
    a.Finishes ∧ n = s.written ∧ ∀ bytes, s.Holds bytes → t.file = some bytes := by
  obtain ⟨_, u, hpush, h⟩ := Command.ends_bind_iff.mp h
  obtain ⟨-, rfl⟩ := Prod.mk.inj hpush
  obtain ⟨_, hflush, h⟩ := Command.ends_answer_bind_iff.mp h
  obtain ⟨_, hsync, h⟩ := Command.ends_answer_bind_iff.mp h
  obtain ⟨_, hfinished, h⟩ := Command.ends_answer_bind_iff.mp h
  obtain ⟨hn, rfl⟩ := Prod.mk.inj h
  have hok := mapError_eq_ok.mp hflush
  have hkeeps : a.flush.result.isOk = true := by
    rw [hok]
    rfl
  have hflushed : flushed a s = s.push [] { a.flush with moved := s.buffered.length } :=
    if_pos hkeeps
  rw [hflushed] at hn ⊢
  refine ⟨⟨hok, mapError_eq_ok.mp hsync, hfinished⟩, (Except.ok.inj hn).symm, ?_⟩
  intro bytes hheld
  obtain ⟨file, hfile, hall⟩ := Option.map_eq_some_iff.mp hheld.file
  simp only [TakeSink.push, hfile, Option.map_some, List.append_nil, List.take_length, hall]

theorem finish_of_finishes (s : TakeSink) (h : a.Finishes) :
    (finish a).ends s = (.ok (flushed a s).written, flushed a s) := by
  have hstart : (modify (flushed a) : Command TakeSink CliError Unit).ends s =
      (.ok (), flushed a s) := rfl
  rw [finish, Command.ends_bind_ok hstart,
    Command.ends_answer_bind_ok (mapError_eq_ok.mpr h.flush),
    Command.ends_answer_bind_ok (mapError_eq_ok.mpr h.sync),
    Command.ends_answer_bind_ok h.finished]
  rfl

/-- The body comes whole: without a fault, and of the size the bucket lists. -/
def FetchAnswers.DeliversWhole (a : FetchAnswers) (take : Take) : Prop :=
  ∃ body, a.Delivers body ∧ body.chunks.flatten.length = take.size

def TakeSink.empty : TakeSink := { beforeFetch none with file := some [] }

theorem TakeSink.empty_holds : TakeSink.empty.Holds [] := ⟨rfl, rfl⟩

theorem fetchOne_rest (path : String) (take : Take) (hcreate : a.create = .ok ())
    (hstarted : a.started = .ok ()) (before : Option (List UInt8)) :
    (fetchOne a path take).ends (beforeFetch before) =
      (finish a >>= conclude a take
        (((storeGet a path take.key).ends .empty).1.mapError CliError.provider)).ends
          ((storeGet a path take.key).ends .empty).2 := by
  rw [fetchOne, Command.ends_answer_bind_ok (mapError_eq_ok.mpr hcreate)]
  rw [Command.ends_bind_ok (rfl : (modify _ : Command TakeSink CliError Unit).ends _ = _)]
  rw [Command.ends_answer_bind_ok hstarted]
  rfl

theorem conclude_error (a : FetchAnswers) (s : TakeSink) {outcome : Except CliError Unit} {n : ℕ}
    (h : outcome = .ok () → n ≠ take.size) :
    ∃ e, (conclude a take outcome n).ends s =
      (.error e, if a.removed then { s with file := none } else s) := by
  rcases outcome with e | _
  · exact ⟨e, rfl⟩
  · have hshort : n ≠ take.size := h rfl
    rw [conclude, if_pos hshort]
    exact ⟨_, rfl⟩

theorem conclude_ok (a : FetchAnswers) (s : TakeSink) (n : ℕ) (h : n = take.size) :
    (conclude a take (.ok ()) n).ends s = (.ok n, s) := by
  rw [conclude, if_neg (not_not.mpr h)]
  rfl

theorem fetchOne_cases (hcreate : a.create = .ok ()) (before : Option (List UInt8)) :
    (¬(a.started = .ok () ∧ a.Finishes) ∧ ∃ e t,
      (fetchOne a path take).ends (beforeFetch before) = (.error e, t) ∧ t.file.isSome) ∨
    ((a.started = .ok () ∧ a.Finishes) ∧ ¬a.DeliversWhole take ∧ ∃ e t,
      (fetchOne a path take).ends (beforeFetch before) = (.error e, t) ∧
        (t.file = none ↔ a.removed = true)) ∨
    ((a.started = .ok () ∧ a.Finishes) ∧ ∃ body t, a.Delivers body ∧
      body.chunks.flatten.length = take.size ∧ t.file = some body.chunks.flatten ∧
        (fetchOne a path take).ends (beforeFetch before) = (.ok take.size, t)) := by
  rcases hstarted : a.started with error | _
  · refine .inl ⟨fun h => absurd h.1 nofun, error, .empty, ?_, rfl⟩
    rw [fetchOne, Command.ends_answer_bind_ok (mapError_eq_ok.mpr hcreate)]
    rw [Command.ends_bind_ok (rfl : (modify _ : Command TakeSink CliError Unit).ends _ = _)]
    refine Command.ends_bind_error ?_
    rw [Command.ends_answer, hstarted]
    rfl
  have hrest := fetchOne_rest path take hcreate hstarted before
  have hthere := storeGet_isSome a path take.key .empty
  rcases hget : (storeGet a path take.key).ends .empty with ⟨outcome, u⟩
  rw [hget] at hrest hthere
  by_cases hfinishes : a.Finishes
  · have hend := finish_of_finishes u hfinishes
    rw [Command.ends_bind_ok hend] at hrest
    have hkept : (flushed a u).file.isSome := (flushed_isSome a u).trans hthere
    have hremoved : (if a.removed then { flushed a u with file := none } else flushed a u).file =
        none ↔ a.removed = true := by
      by_cases hr : a.removed = true
      · rw [if_pos hr]
        exact iff_of_true rfl hr
      · rw [if_neg hr]
        refine iff_of_false (fun hnone => ?_) hr
        rw [hnone] at hkept
        cases hkept
    rcases outcome with error | _
    · have hrefused : ∃ e, (conclude a take (.error (.provider error)) (flushed a u).written).ends
          (flushed a u) = (.error e, _) := conclude_error a (flushed a u) nofun
      obtain ⟨e, he⟩ := hrefused
      refine .inr (.inl ⟨⟨rfl, hfinishes⟩, ?_, e, _, hrest.trans he, hremoved⟩)
      rintro ⟨body, hdelivers, -⟩
      have hworks : ∃ t, (storeGet a path take.key).ends .empty = (.ok (), t) :=
        storeGet_of_delivers rfl hdelivers
      obtain ⟨t, ht⟩ := hworks
      rw [hget] at ht
      cases ht
    · obtain ⟨body, hdelivers, hheld⟩ := storeGet_ok rfl hget
      obtain ⟨-, hcount, hfile⟩ := finish_ok hend
      have hall := hheld [] TakeSink.empty_holds
      rw [List.nil_append] at hall
      have hlength : (flushed a u).written = body.chunks.flatten.length :=
        hcount.trans hall.written
      by_cases hsize : body.chunks.flatten.length = take.size
      · refine .inr (.inr ⟨⟨rfl, hfinishes⟩, body, flushed a u, hdelivers, hsize, hfile _ hall, ?_⟩)
        rw [hrest]
        have hwhole := conclude_ok a (flushed a u) _ (hlength.trans hsize)
        rw [hlength, hsize] at hwhole ⊢
        exact hwhole
      · have hshort : (flushed a u).written ≠ take.size := hlength ▸ hsize
        have hrefused : ∃ e, (conclude a take (.ok ()) _).ends _ = (.error e, _) :=
          conclude_error a (flushed a u) fun _ => hshort
        obtain ⟨e, he⟩ := hrefused
        refine .inr (.inl ⟨⟨rfl, hfinishes⟩, ?_, e, _, hrest.trans he, hremoved⟩)
        rintro ⟨body', hdelivers', hsize'⟩
        have hsame := Except.ok.inj (hdelivers.reply.symm.trans hdelivers'.reply)
        exact hsize (hsame ▸ hsize')
  · rcases hend : (finish a).ends u with ⟨error | n, t⟩
    · refine .inl ⟨fun h => hfinishes h.2, error, t, ?_, ?_⟩
      · rw [hrest, Command.ends_bind_error hend]
      · have hkept := finish_isSome a u
        rw [hend] at hkept
        exact hkept.trans hthere
    · exact absurd (finish_ok hend).1 hfinishes

/-- A download is whole or absent: it returns with the file, which holds the body, or there is
none. -/
structure WholeOrAbsent (a : FetchAnswers) (take : Take) (ends : Except CliError ℕ × TakeSink) :
    Prop where
  whole : ∀ n, ends.1 = .ok n → n = take.size ∧ ∃ body, a.reply = .ok body ∧
    ends.2.file = some body.chunks.flatten ∧ body.chunks.flatten.length = take.size
  absent : ∀ e, ends.1 = .error e → ends.2.file = none

/-- Nothing fails behind the file's creation but what the store is asked for: the report starts,
and what came is flushed, synced and reported; and a file that is to go can be removed. -/
structure CleanEnds (a : FetchAnswers) (take : Take) (before : Option (List UInt8)) : Prop where
  refused : a.create ≠ .ok () → before = none
  finishes : a.create = .ok () → a.started = .ok () ∧ a.Finishes
  removed : a.create = .ok () → ¬a.DeliversWhole take → a.removed = true

/-- When a download is whole or absent. -/
theorem wholeOrAbsent_iff (a : FetchAnswers) (path : String) (take : Take)
    (before : Option (List UInt8)) :
    WholeOrAbsent a take ((fetchOne a path take).ends (beforeFetch before)) ↔
      CleanEnds a take before := by
  rcases hcreate : a.create with error | _
  · have hends : (fetchOne a path take).ends (beforeFetch before) =
        (.error (.io error), beforeFetch before) := by
      rw [fetchOne]
      refine Command.ends_bind_error ?_
      rw [Command.ends_answer, hcreate]
      rfl
    rw [hends]
    constructor
    · intro h
      have habsent : before = none := h.absent _ rfl
      exact ⟨fun _ => habsent, fun h => absurd (hcreate.symm.trans h) nofun,
        fun h => absurd (hcreate.symm.trans h) nofun⟩
    · exact fun h => ⟨nofun, fun _ _ => h.refused (hcreate ▸ nofun)⟩
  · rcases fetchOne_cases hcreate before with ⟨hno, e, t, hends, hthere⟩ |
      ⟨hyes, hpart, e, t, hends, hgone⟩ | ⟨hyes, body, t, hdelivers, hsize, hfile, hends⟩
    · rw [hends]
      refine iff_of_false (fun h => ?_) fun h => hno (h.finishes hcreate)
      rw [h.absent e rfl] at hthere
      cases hthere
    · rw [hends]
      constructor
      · exact fun h => ⟨fun hfail => absurd hcreate hfail, fun _ => hyes,
          fun _ _ => hgone.mp (h.absent e rfl)⟩
      · exact fun h => ⟨nofun, fun _ _ => hgone.mpr (h.removed hcreate hpart)⟩
    · rw [hends]
      refine iff_of_true ⟨fun n hn => ?_, nofun⟩ ?_
      · exact ⟨(Except.ok.inj hn).symm, body, hdelivers.reply, hfile, hsize⟩
      · exact ⟨fun hfail => absurd hcreate hfail, fun _ => hyes,
          fun _ hpart => absurd ⟨body, hdelivers, hsize⟩ hpart⟩

/-- Every step works, but for the report at the start. -/
def unreported : FetchAnswers where
  create := .ok ()
  started := .error (.io "broken pipe")
  reply := .ok ⟨none, [[7]], .ok ()⟩
  write _ := ⟨0, 0, .ok ()⟩
  advanced _ := .ok ()
  flush := ⟨0, 0, .ok ()⟩
  sync := .ok ()
  finished := .ok ()
  removed := true

/-- Every step works, but for the flush: of two bytes one reaches the file. -/
def fullDisk : FetchAnswers where
  create := .ok ()
  started := .ok ()
  reply := .ok ⟨none, [[7, 8]], .ok ()⟩
  write _ := ⟨0, 0, .ok ()⟩
  advanced _ := .ok ()
  flush := ⟨1, 1, .error "no space left"⟩
  sync := .ok ()
  finished := .ok ()
  removed := true

theorem takes_left_behind :
    ((fetchOne unreported "mix.flac" ⟨"k", "mix.flac", 1⟩).ends (beforeFetch none)).1 =
      .error (.io "broken pipe") ∧
    ((fetchOne unreported "mix.flac" ⟨"k", "mix.flac", 1⟩).ends (beforeFetch none)).2.file =
      some [] ∧
    ((fetchOne fullDisk "mix.flac" ⟨"k", "mix.flac", 2⟩).ends (beforeFetch none)).1 =
      .error (.io "no space left") ∧
    ((fetchOne fullDisk "mix.flac" ⟨"k", "mix.flac", 2⟩).ends (beforeFetch none)).2.file =
      some [7] ∧
    ¬WholeOrAbsent fullDisk ⟨"k", "mix.flac", 2⟩
      ((fetchOne fullDisk "mix.flac" ⟨"k", "mix.flac", 2⟩).ends (beforeFetch none)) := by
  refine ⟨rfl, rfl, rfl, rfl, fun h => ?_⟩
  have hleft : (some [7] : Option (List UInt8)) = none := h.absent (.io "no space left") rfl
  cases hleft

end download
end JamStream.Cli
