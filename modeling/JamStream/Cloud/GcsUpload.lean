import JamStream.Cloud.Commit

/-! The upload driver over a resumable session. A request may be executed and its answer lost, and
is then sent again; what the bucket ends up with is the whole body or nothing. -/

namespace JamStream.Cloud
open Protocol Runs

inductive GcsRequest
  | media (body : Bytes)
  | resumable
  /-- With the size of the whole object, once that is known. -/
  | chunk (start : ℕ) (total : Option ℕ) (body : Bytes)
  | cancel

/-- Only the last chunk knows the total, and nothing is sent to finish. -/
def BackendCall.request? : BackendCall → Option GcsRequest
  | .putSingle body => some (.media body)
  | .begin => some .resumable
  | .sendPart _ offset last body =>
    some (.chunk offset (if last then some (offset + body.length) else none) body)
  | .finish => none
  | .abort => some .cancel

/-- The far end of one upload: what a request makes of it, the bytes an open session has
received, and the object once there is one. -/
structure GcsService where
  State : Type
  start : State
  execute : GcsRequest → State → State
  received : State → Option Bytes
  object : State → Option Bytes

structure GcsService.Documented (g : GcsService) : Prop where
  absent : g.object g.start = none
  media : ∀ body o, g.object (g.execute (.media body) o) = some body
  opens : ∀ o, g.received (g.execute .resumable o) = some []
  opens_beside : ∀ o, g.object (g.execute .resumable o) = g.object o
  /-- A chunk goes behind what was received. -/
  appends : ∀ o sent body, g.received o = some sent →
    g.received (g.execute (.chunk sent.length none body) o) = some (sent ++ body)
  /-- Bytes that were received before are ignored. -/
  ignores : ∀ o sent start body, g.received o = some sent → start + body.length ≤ sent.length →
    g.received (g.execute (.chunk start none body) o) = some sent
  /-- There is no object before the last chunk. -/
  waits : ∀ o sent start body, g.received o = some sent →
    g.object (g.execute (.chunk start none body) o) = g.object o
  /-- The session is over when the bytes are as many as the total. -/
  commits : ∀ o sent body, g.received o = some sent →
    g.object (g.execute (.chunk sent.length (some (sent ++ body).length) body) o) =
      some (sent ++ body)
  closes : ∀ o sent body, g.received o = some sent →
    g.received (g.execute (.chunk sent.length (some (sent ++ body).length) body) o) = none
  ended : ∀ o start total body, g.received o = none →
    g.received (g.execute (.chunk start total body) o) = none ∧
      g.object (g.execute (.chunk start total body) o) = g.object o
  cancel : ∀ o, g.object (g.execute .cancel o) = g.object o

namespace GcsService
variable (g : GcsService)

/-- The request of a call, executed. -/
def perform (call : BackendCall) (o : g.State) : g.State :=
  call.request?.elim o fun request => g.execute request o

def serveOne (executed : ℕ → ℕ) (s : ℕ × g.State) (entry : BackendCall × Option String) :
    ℕ × g.State :=
  (s.1 + 1, (g.perform entry.1)^[executed s.1] s.2)

def serve (executed : ℕ → ℕ) (log : List (BackendCall × Option String)) : ℕ × g.State :=
  log.foldl (g.serveOne executed) (0, g.start)

def served (executed : ℕ → ℕ) (log : List (BackendCall × Option String)) : g.State :=
  (g.serve executed log).2

variable {g} {executed : ℕ → ℕ} {log : List (BackendCall × Option String)} {o : g.State}
  {sent : Bytes}

theorem serve_length (executed : ℕ → ℕ) (log : List (BackendCall × Option String)) :
    (g.serve executed log).1 = log.length := by
  induction log using List.reverseRecOn with
  | nil => rfl
  | append_singleton log entry ih =>
    rw [serve, List.foldl_append, List.length_append]
    exact congrArg (· + 1) ih

theorem served_concat (entry : BackendCall × Option String) :
    g.served executed (log ++ [entry]) =
      (g.perform entry.1)^[executed log.length] (g.served executed log) := by
  rw [served, serve, List.foldl_append]
  change (g.perform entry.1)^[executed (g.serve executed log).1] (g.serve executed log).2 = _
  rw [serve_length]
  rfl

theorem iterate_keeps {P : g.State → Prop} (call : BackendCall)
    (hstep : ∀ o, P o → P (g.perform call o)) (ho : P o) (n : ℕ) :
    P ((g.perform call)^[n] o) := by
  induction n generalizing o with
  | zero => exact ho
  | succ n ih =>
    rw [Function.iterate_succ_apply]
    exact ih (hstep o ho)

namespace Documented
variable (hg : g.Documented)
include hg

theorem perform_more (number n : ℕ) (current : Bytes) (hreceived : g.received o = some sent)
    (hobject : g.object o = none) :
    g.received ((g.perform (.sendPart number sent.length false current))^[n + 1] o) =
        some (sent ++ current) ∧
      g.object ((g.perform (.sendPart number sent.length false current))^[n + 1] o) = none := by
  rw [Function.iterate_succ_apply]
  refine iterate_keeps (P := fun o => g.received o = some (sent ++ current) ∧ g.object o = none)
    _ ?_ ⟨hg.appends o sent current hreceived, ?_⟩ n
  · rintro o ⟨hhas, hnone⟩
    have hbefore : sent.length + current.length ≤ (sent ++ current).length :=
      List.length_append.ge
    exact ⟨hg.ignores o _ _ _ hhas hbefore, (hg.waits o _ _ _ hhas).trans hnone⟩
  · exact (hg.waits o sent _ current hreceived).trans hobject

theorem perform_last (number n : ℕ) (current : Bytes) (hreceived : g.received o = some sent) :
    g.object ((g.perform (.sendPart number sent.length true current))^[n + 1] o) =
      some (sent ++ current) := by
  have hfirst : g.perform (.sendPart number sent.length true current) o =
      g.execute (.chunk sent.length (some (sent ++ current).length) current) o := by
    rw [List.length_append]
    rfl
  rw [Function.iterate_succ_apply, hfirst]
  have hkept := iterate_keeps (P := fun o => g.received o = none ∧ g.object o = some (sent ++ current))
    (.sendPart number sent.length true current) ?_
    ⟨hg.closes o sent current hreceived, hg.commits o sent current hreceived⟩ n
  · exact hkept.2
  · rintro o ⟨hover, hwhole⟩
    obtain ⟨hclosed, hsame⟩ := hg.ended o sent.length (some (sent.length + current.length))
      current hover
    exact ⟨hclosed, hsame.trans hwhole⟩

theorem perform_putSingle (body : Bytes) (n : ℕ) :
    g.object ((g.perform (.putSingle body))^[n + 1] o) = some body := by
  rw [Function.iterate_succ_apply']
  exact hg.media body _

theorem perform_begin (n : ℕ) : g.received ((g.perform .begin)^[n + 1] o) = some [] := by
  rw [Function.iterate_succ_apply']
  exact hg.opens _

theorem perform_object (call : BackendCall)
    (hcall : call = .begin ∨ call = .finish ∨ call = .abort) (n : ℕ) :
    g.object ((g.perform call)^[n] o) = g.object o := by
  refine iterate_keeps (P := fun o' => g.object o' = g.object o) call (fun o' ho' => ?_) rfl n
  rcases hcall with rfl | rfl | rfl
  · exact (hg.opens_beside o').trans ho'
  · exact ho'
  · exact (hg.cancel o').trans ho'

end Documented

/-- A service of one session: what of a chunk was received before is left out. -/
def put (o : Option Bytes × Option Bytes) (start : ℕ) (total : Option ℕ) (body : Bytes) :
    Option Bytes × Option Bytes :=
  match o.1 with
  | none => o
  | some received =>
    if received.length < start then o
    else if total = some (received ++ body.drop (received.length - start)).length then
      (none, some (received ++ body.drop (received.length - start)))
    else (some (received ++ body.drop (received.length - start)), o.2)

def oneSession : GcsService where
  State := Option Bytes × Option Bytes
  start := (none, none)
  execute
    | .media body, o => (o.1, some body)
    | .resumable, o => (some [], o.2)
    | .chunk start total body, o => put o start total body
    | .cancel, o => (none, o.2)
  received := Prod.fst
  object := Prod.snd

theorem put_next {current : Bytes} (total : Option ℕ) (object : Option Bytes) :
    put (some sent, object) sent.length total current =
      if total = some (sent ++ current).length then (none, some (sent ++ current))
      else (some (sent ++ current), object) := by
  rw [put]
  dsimp only
  rw [if_neg (lt_irrefl _), Nat.sub_self, List.drop_zero]

theorem put_before {start : ℕ} {current : Bytes} (object : Option Bytes)
    (hbefore : start + current.length ≤ sent.length) :
    put (some sent, object) start none current = (some sent, object) := by
  have hdrop : current.drop (sent.length - start) = [] := by
    rw [List.drop_eq_nil_iff]
    omega
  rw [put]
  dsimp only
  rw [hdrop, List.append_nil, if_neg (by omega), if_neg (Option.some_ne_none _).symm]

theorem put_waits (o : Option Bytes × Option Bytes) (start : ℕ) (body : Bytes) :
    (put o start none body).2 = o.2 := by
  rw [put]
  split
  · rfl
  · split_ifs with hgap htotal
    · rfl
    · exact htotal.elim
    · rfl

theorem oneSession_documented : oneSession.Documented where
  absent := rfl
  media _ _ := rfl
  opens _ := rfl
  opens_beside _ := rfl
  appends := by
    rintro ⟨received, object⟩ sent body rfl
    show (put (some sent, object) sent.length none body).1 = _
    rw [put_next, if_neg (Option.some_ne_none _).symm]
  ignores := by
    rintro ⟨received, object⟩ sent start body rfl hbefore
    exact congrArg Prod.fst (put_before object hbefore)
  waits o _ start body _ := put_waits o start body
  commits := by
    rintro ⟨received, object⟩ sent body rfl
    show (put (some sent, object) sent.length _ body).2 = _
    rw [put_next, if_pos rfl]
  closes := by
    rintro ⟨received, object⟩ sent body rfl
    show (put (some sent, object) sent.length _ body).1 = _
    rw [put_next, if_pos rfl]
  ended := by
    rintro ⟨received, object⟩ start total body rfl
    exact ⟨rfl, rfl⟩
  cancel _ := rfl

end GcsService

namespace ObjectSink
open GcsService

def Mirrors {g : GcsService} (s : ObjectSink) (o : g.State) : Prop :=
  match s.driver with
  | .sendPart _ offset _ _ | .lookahead _ offset _ =>
    ∃ sent, (g.received o = some sent ∧ g.object o = none) ∧ sent.length = offset ∧ sent <+: s.body
  | .finish | .done (.ok _) => s.handle = .finished ∧ g.object o = some s.body
  | .abort _ | .done (.error _) =>
    ∀ object, g.object o = some object → s.handle = .finished ∧ object = s.body
  | _ => g.object o = none

variable {g : GcsService} {s : ObjectSink} {o : g.State} {taken : Bytes} {executed : ℕ → ℕ}

/-- What leaves the driver where it is: more body while the sender is held, and none after. -/
structure Beside (s s' : ObjectSink) : Prop where
  driver : s'.driver = s.driver
  body : s.body <+: s'.body
  finished : s.handle = .finished → s'.handle = .finished ∧ s'.body = s.body

theorem Beside.rfl : Beside s s := ⟨.refl _, List.prefix_rfl, fun h => ⟨h, .refl _⟩⟩

theorem beside_write (s : ObjectSink) (chunk : Bytes) : Beside s (s.write chunk) := by
  rw [ObjectSink.write]
  split_ifs with hgo
  · refine ⟨Eq.refl _, ?_, fun h => Handle.noConfusion (hgo.1.symm.trans h)⟩
    change _ <+: (s.pushed ++ [chunk]).flatten
    rw [List.flatten_append]
    exact List.prefix_append _ _
  · exact .rfl

theorem beside_finish (s : ObjectSink) : Beside s s.finish := by
  rw [ObjectSink.finish]
  split_ifs with hheld hstopped hroom
  · exact ⟨Eq.refl _, List.prefix_rfl, fun _ => ⟨Eq.refl _, Eq.refl _⟩⟩
  · exact ⟨Eq.refl _, List.prefix_rfl, fun _ => ⟨Eq.refl _, Eq.refl _⟩⟩
  · exact .rfl
  · exact .rfl

theorem beside_abort (s : ObjectSink) : Beside s s.abort := by
  rw [ObjectSink.abort]
  split_ifs with hheld
  · exact ⟨Eq.refl _, List.prefix_rfl,
      fun h => Handle.noConfusion (hheld.symm.trans h)⟩
  · exact .rfl

theorem log_nextPart (s : ObjectSink) (ready : Bytes → Driver) (failed : String → Driver) :
    (s.nextPart ready failed).log = s.log := by
  rw [nextPart]
  split
  · split
    · rfl
    · rfl
    · split
      · rfl
      · rfl
  · rfl

theorem write_other (s : ObjectSink) (chunk : Bytes) :
    (s.write chunk).log = s.log ∧ (s.write chunk).fails = s.fails := by
  rw [ObjectSink.write]
  split_ifs
  · exact ⟨rfl, rfl⟩
  · exact ⟨rfl, rfl⟩

theorem finish_other (s : ObjectSink) : s.finish.log = s.log ∧ s.finish.fails = s.fails := by
  rw [ObjectSink.finish]
  split_ifs
  · exact ⟨rfl, rfl⟩
  · exact ⟨rfl, rfl⟩
  · exact ⟨rfl, rfl⟩
  · exact ⟨rfl, rfl⟩

theorem abort_other (s : ObjectSink) : s.abort.log = s.log ∧ s.abort.fails = s.fails := by
  rw [ObjectSink.abort]
  split_ifs
  · exact ⟨rfl, rfl⟩
  · exact ⟨rfl, rfl⟩

theorem Mirrors.beside (h : s.Mirrors o) {s' : ObjectSink} (hs : Beside s s') : s'.Mirrors o := by
  unfold Mirrors at h ⊢
  rw [hs.driver]
  cases hdriver : s.driver with
  | first =>
    rw [hdriver] at h
    exact h
  | second first =>
    rw [hdriver] at h
    exact h
  | putSingle body =>
    rw [hdriver] at h
    exact h
  | begin first second =>
    rw [hdriver] at h
    exact h
  | sendPart number offset current next =>
    rw [hdriver] at h
    obtain ⟨sent, ho, hlength, hbegun⟩ := h
    exact ⟨sent, ho, hlength, hbegun.trans hs.body⟩
  | lookahead number offset current =>
    rw [hdriver] at h
    obtain ⟨sent, ho, hlength, hbegun⟩ := h
    exact ⟨sent, ho, hlength, hbegun.trans hs.body⟩
  | finish =>
    rw [hdriver] at h
    obtain ⟨hfinished, hbody⟩ := hs.finished h.1
    exact ⟨hfinished, hbody ▸ h.2⟩
  | abort err =>
    rw [hdriver] at h
    intro object hobject
    obtain ⟨hhandle, rfl⟩ := h object hobject
    obtain ⟨hfinished, hbody⟩ := hs.finished hhandle
    exact ⟨hfinished, hbody.symm⟩
  | done outcome =>
    rw [hdriver] at h
    cases outcome with
    | ok done =>
      obtain ⟨hfinished, hbody⟩ := hs.finished h.1
      exact ⟨hfinished, hbody ▸ h.2⟩
    | error err =>
      intro object hobject
      obtain ⟨hhandle, rfl⟩ := h object hobject
      obtain ⟨hfinished, hbody⟩ := hs.finished hhandle
      exact ⟨hfinished, hbody.symm⟩

theorem nextPart_beside (s : ObjectSink) (ready : Bytes → Driver) (failed : String → Driver) :
    ∃ driver, (driver = s.driver ∨ (∃ part, driver = ready part) ∨ ∃ e, driver = failed e) ∧
      Beside { s with driver } (s.nextPart ready failed) := by
  rw [nextPart]
  split
  · split
    · exact ⟨_, .inl rfl, ⟨rfl, List.prefix_rfl, fun h => ⟨h, rfl⟩⟩⟩
    · exact ⟨_, .inl rfl, ⟨rfl, List.prefix_rfl, fun h => ⟨h, rfl⟩⟩⟩
    · split
      · exact ⟨_, .inl rfl, ⟨rfl, List.prefix_rfl, fun h => ⟨h, rfl⟩⟩⟩
      · exact ⟨_, .inr (.inr ⟨_, rfl⟩), ⟨rfl, List.prefix_rfl, fun h => ⟨h, rfl⟩⟩⟩
  · exact ⟨_, .inr (.inl ⟨_, rfl⟩), ⟨rfl, List.prefix_rfl, fun h => ⟨h, rfl⟩⟩⟩

theorem Mirrors.await (h : s.Mirrors o) {ready : Bytes → Driver} {failed : String → Driver}
    (hready : ∀ part, Mirrors { s with driver := ready part } o)
    (hfailed : ∀ e, Mirrors { s with driver := failed e } o) : (s.nextPart ready failed).Mirrors o := by
  obtain ⟨driver, hdriver, hbeside⟩ := nextPart_beside s ready failed
  rcases hdriver with rfl | ⟨part, rfl⟩ | ⟨e, rfl⟩
  · exact h.beside hbeside
  · exact (hready part).beside hbeside
  · exact (hfailed e).beside hbeside

theorem mirrors_call {c : BackendCall} {next : Except String Unit → Driver}
    (hanswered : ∀ n, s.fails n = none → executed n ≠ 0)
    (hok : ∀ n, Mirrors { s with driver := next (.ok ()) } ((g.perform c)^[n + 1] o))
    (herror : ∀ n e, Mirrors { s with driver := next (.error e) } ((g.perform c)^[n] o))
    (ho : o = g.served executed s.log) :
    (s.call c next).Mirrors (g.served executed (s.call c next).log) := by
  rw [call]
  dsimp only
  rw [served_concat, ← ho]
  cases herr : s.fails s.log.length with
  | none =>
    obtain ⟨n, hn⟩ := Nat.exists_eq_succ_of_ne_zero (hanswered _ herr)
    rw [hn]
    exact (hok n).beside ⟨rfl, List.prefix_rfl, fun h => ⟨h, rfl⟩⟩
  | some e =>
    exact (herror _ e).beside ⟨rfl, List.prefix_rfl, fun h => ⟨h, rfl⟩⟩

theorem Under.sent_eq (h : s.Under taken) {number offset : ℕ} {current next sent : Bytes}
    (hdriver : s.driver = .sendPart number offset current next) (hlength : sent.length = offset)
    (hbegun : sent <+: s.body) :
    sent ++ current <+: s.body ∧ (next = [] → s.handle = .finished ∧ sent ++ current = s.body) := by
  have hstage := h.stage
  unfold Stage at hstage
  rw [hdriver] at hstage
  obtain ⟨full, -, -, hoffset, rfl, -, hlast, -⟩ := hstage
  have hfull : full.flatten <+: s.body := by
    rw [← h.bytes, List.append_assoc, List.append_assoc, List.append_assoc]
    exact List.prefix_append _ _
  have hsame : sent = full.flatten :=
    (List.prefix_of_prefix_length_le hbegun hfull (hlength.trans hoffset).le).eq_of_length
      (hlength.trans hoffset)
  constructor
  · rw [hsame, ← h.bytes, List.append_assoc (full.flatten ++ current),
      List.append_assoc (full.flatten ++ current)]
    exact List.prefix_append _ _
  · rintro rfl
    obtain ⟨-, -, hex⟩ := hlast rfl
    refine ⟨hex.1, ?_⟩
    rw [hsame, ← h.body_eq hex, List.append_nil]

theorem mirrors_sendPart (hg : g.Documented) (h : s.Under taken) {number offset : ℕ}
    {current next : Bytes} (hdriver : s.driver = .sendPart number offset current next)
    (hmirrors : s.Mirrors o) (hanswered : ∀ n, s.fails n = none → executed n ≠ 0)
    (ho : o = g.served executed s.log) : s.drive.Mirrors (g.served executed s.drive.log) := by
  unfold Mirrors at hmirrors
  rw [hdriver] at hmirrors
  obtain ⟨sent, ⟨hreceived, hnone⟩, rfl, hbegun⟩ := hmirrors
  obtain ⟨hmore, hlast⟩ := h.sent_eq hdriver rfl hbegun
  rw [drive, hdriver]
  dsimp only
  split
  · rw [← ho]
    intro object hobject
    rw [hnone] at hobject
    cases hobject
  · refine mirrors_call hanswered (fun n => ?_) (fun n e => ?_) ho
    · cases next with
      | nil =>
        have hwhole := hg.perform_last number n current hreceived
        exact ⟨(hlast rfl).1, hwhole.trans (congrArg some (hlast rfl).2)⟩
      | cons b next =>
        have hgrown := hg.perform_more number n current hreceived hnone
        exact ⟨sent ++ current, hgrown, List.length_append, hmore⟩
    · intro object hobject
      cases n with
      | zero => exact nomatch hnone.symm.trans hobject
      | succ n =>
        cases next with
        | nil =>
          have hwhole := hg.perform_last number n current hreceived
          have hsame := Option.some.inj (hobject.symm.trans hwhole)
          exact ⟨(hlast rfl).1, hsame.trans (hlast rfl).2⟩
        | cons b next =>
          have hgrown := hg.perform_more number n current hreceived hnone
          exact nomatch hgrown.2.symm.trans hobject

theorem mirrors_absent (habsent : g.object o = none) (e : String) :
    Mirrors { s with driver := .done (.error e) } o :=
  fun _ hobject => nomatch habsent.symm.trans hobject

theorem mirrors_drive (hg : g.Documented) (h : s.Under taken) (hmirrors : s.Mirrors o)
    (hanswered : ∀ n, s.fails n = none → executed n ≠ 0) (ho : o = g.served executed s.log) :
    s.drive.Mirrors (g.served executed s.drive.log) := by
  have hstage := h.stage
  have hnow := hmirrors
  unfold Stage at hstage
  unfold Mirrors at hnow
  cases hdriver : s.driver with
  | sendPart number offset current next =>
    exact mirrors_sendPart hg h hdriver hmirrors hanswered ho
  | first =>
    rw [hdriver] at hnow
    rw [drive, hdriver]
    dsimp only
    rw [log_nextPart, ← ho]
    exact hmirrors.await (fun part => hnow) (mirrors_absent hnow)
  | second first =>
    rw [hdriver] at hnow
    rw [drive, hdriver]
    dsimp only
    rw [log_nextPart, ← ho]
    refine hmirrors.await (fun part => ?_) (mirrors_absent hnow)
    cases part with
    | nil => exact hnow
    | cons b part => exact hnow
  | putSingle body =>
    rw [hdriver] at hstage hnow
    obtain ⟨-, rfl, -, hex⟩ := hstage
    rw [drive, hdriver]
    refine mirrors_call hanswered (fun n => ?_) (fun n e => ?_) ho
    · exact ⟨hex.1, (hg.perform_putSingle _ n).trans (congrArg some (h.body_eq hex))⟩
    · cases n with
      | zero => exact mirrors_absent hnow e
      | succ n =>
        intro object hobject
        have hsame := Option.some.inj (hobject.symm.trans (hg.perform_putSingle _ n))
        exact ⟨hex.1, hsame.trans (h.body_eq hex)⟩
  | begin first second =>
    rw [hdriver] at hnow
    rw [drive, hdriver]
    have hkept : ∀ n, g.object ((g.perform .begin)^[n] o) = none := fun n =>
      (hg.perform_object .begin (.inl rfl) n).trans hnow
    refine mirrors_call hanswered (fun n => ?_) (fun n e => ?_) ho
    · exact ⟨[], ⟨hg.perform_begin n, hkept (n + 1)⟩, rfl, List.nil_prefix⟩
    · exact mirrors_absent (hkept n) e
  | lookahead number offset current =>
    rw [hdriver] at hnow
    rw [drive, hdriver]
    dsimp only
    rw [log_nextPart, ← ho]
    refine hmirrors.await (fun part => hnow) fun e object hobject => ?_
    obtain ⟨sent, ⟨-, hnone⟩, -, -⟩ := hnow
    exact nomatch hnone.symm.trans hobject
  | finish =>
    rw [hdriver] at hnow
    rw [drive, hdriver]
    have hkept : ∀ n, g.object ((g.perform .finish)^[n] o) = some s.body := fun n =>
      (hg.perform_object .finish (.inr (.inl rfl)) n).trans hnow.2
    refine mirrors_call hanswered (fun n => ?_) (fun n e => ?_) ho
    · exact ⟨hnow.1, hkept (n + 1)⟩
    · intro object hobject
      exact ⟨hnow.1, Option.some.inj (hobject.symm.trans (hkept n))⟩
  | abort err =>
    rw [hdriver] at hnow
    rw [drive, hdriver]
    refine mirrors_call hanswered (fun n object hobject => ?_) (fun n e object hobject => ?_) ho
    · rw [hg.perform_object .abort (.inr (.inr rfl))] at hobject
      exact hnow object hobject
    · rw [hg.perform_object .abort (.inr (.inr rfl))] at hobject
      exact hnow object hobject
  | done outcome =>
    have hsame : s.drive = s := by rw [drive, hdriver]
    rw [hsame, ← ho]
    exact hmirrors

theorem Mirrors.whole (h : s.Mirrors o) {object : Bytes} (hobject : g.object o = some object) :
    s.handle = .finished ∧ object = s.body := by
  unfold Mirrors at h
  have hnone : g.object o = none → s.handle = .finished ∧ object = s.body :=
    fun habsent => nomatch habsent.symm.trans hobject
  cases hdriver : s.driver with
  | first =>
    rw [hdriver] at h
    exact hnone h
  | second first =>
    rw [hdriver] at h
    exact hnone h
  | putSingle body =>
    rw [hdriver] at h
    exact hnone h
  | begin first second =>
    rw [hdriver] at h
    exact hnone h
  | sendPart number offset current next =>
    rw [hdriver] at h
    obtain ⟨sent, ⟨-, habsent⟩, -, -⟩ := h
    exact hnone habsent
  | lookahead number offset current =>
    rw [hdriver] at h
    obtain ⟨sent, ⟨-, habsent⟩, -, -⟩ := h
    exact hnone habsent
  | finish =>
    rw [hdriver] at h
    exact ⟨h.1, Option.some.inj (hobject.symm.trans h.2)⟩
  | abort err =>
    rw [hdriver] at h
    exact h object hobject
  | done outcome =>
    rw [hdriver] at h
    cases outcome with
    | ok done => exact ⟨h.1, Option.some.inj (hobject.symm.trans h.2)⟩
    | error err => exact h object hobject

/-- The upload and the bucket it goes to, as far as they have come. -/
structure Stored (g : GcsService) (fails : ℕ → Option String) (executed : ℕ → ℕ)
    (s : ObjectSink) : Prop where
  under : ∃ taken, s.Under taken
  fails : s.fails = fails
  mirrors : s.Mirrors (g.served executed s.log)

theorem stored_step (hg : g.Documented) {fails : ℕ → Option String}
    (hanswered : ∀ n, fails n = none → executed n ≠ 0) (h : Stored g fails executed s)
    (ev : Event) : Stored g fails executed (s.step ev) := by
  obtain ⟨taken, hunder⟩ := h.under
  refine ⟨hunder.step ev, ?_, ?_⟩
  · cases ev with
    | write chunk => exact (write_other s chunk).2.trans h.fails
    | finish => exact (finish_other s).2.trans h.fails
    | abort => exact (abort_other s).2.trans h.fails
    | drive => exact (driven s).fails.trans h.fails
  · cases ev with
    | write chunk =>
      change (s.write chunk).Mirrors (g.served executed (s.write chunk).log)
      rw [(write_other s chunk).1]
      exact h.mirrors.beside (beside_write s chunk)
    | finish =>
      change s.finish.Mirrors (g.served executed s.finish.log)
      rw [(finish_other s).1]
      exact h.mirrors.beside (beside_finish s)
    | abort =>
      change s.abort.Mirrors (g.served executed s.abort.log)
      rw [(abort_other s).1]
      exact h.mirrors.beside (beside_abort s)
    | drive => exact mirrors_drive hg hunder h.mirrors (h.fails ▸ hanswered) rfl

/-- At no moment of any upload to a service that keeps to its documentation, however often each
request was executed and whichever answers were lost, does the bucket hold an object that is not
the whole body of a sink that was finished; and an upload that ended well left one. -/
theorem bucket_holds_whole_body (hg : g.Documented) {fails : ℕ → Option String}
    (hanswered : ∀ n, fails n = none → executed n ≠ 0) (partSize : ℕ) (evs : List Event) :
    (∀ object, g.object (g.served executed (run step (opened fails partSize) evs).log) =
        some object →
      (run step (opened fails partSize) evs).handle = .finished ∧
        object = (run step (opened fails partSize) evs).body) ∧
    ((run step (opened fails partSize) evs).driver = .done (.ok ()) →
      g.object (g.served executed (run step (opened fails partSize) evs).log) =
        some (run step (opened fails partSize) evs).body) := by
  have hstart : Stored g fails executed (opened fails partSize) :=
    ⟨⟨[], opened_under fails partSize⟩, rfl, hg.absent⟩
  have h : Stored g fails executed (run step (opened fails partSize) evs) :=
    run_invariant (P := Stored g fails executed) (fun _ ev h => stored_step hg hanswered h ev)
      hstart evs
  generalize run step (opened fails partSize) evs = s at h
  -- the driver's state says what the service holds, whatever was executed how often
  refine ⟨fun object hobject => h.mirrors.whole hobject, fun hdone => ?_⟩
  have hmirrors := h.mirrors
  unfold Mirrors at hmirrors
  rw [hdone] at hmirrors
  exact hmirrors.2

/-- Two parts, each executed twice; the answer to the last is lost. -/
def lostAnswer (n : ℕ) : Option String := if n = 2 then some "lost" else none

def threeBytes : List Event := [.write [1, 2, 3], .finish] ++ List.replicate 8 .drive

theorem bucket_holds_whole_body_unanswered :
    let stored := oneSession.object
      (oneSession.served (fun _ => 2) (run step (opened lostAnswer 2) threeBytes).log)
    (∀ object, stored = some object →
      (run step (opened lostAnswer 2) threeBytes).handle = .finished ∧
        object = (run step (opened lostAnswer 2) threeBytes).body) ∧
    stored = some [1, 2, 3] :=
  ⟨(bucket_holds_whole_body oneSession_documented (fun _ _ => two_ne_zero) 2 threeBytes).1,
    by decide +kernel⟩

end ObjectSink
end JamStream.Cloud
