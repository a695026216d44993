import JamStream.Cli.State

/-! From the launch of a session's machine to the record of it, from the command line and from
the app. Times are in milliseconds. -/

namespace JamStream.Cli
open Foundations Cloud

/-- What a run has settled before it launches: `json` keeps it from printing on the way, and
`report` is what it prints at its end. -/
structure Plan where
  provider : String
  region : RegionId
  sessionHex : String
  createdUnix : ℕ
  issuerKey : String
  json : Bool
  isMock : Bool
  recording : Bool
  report : List String

def Plan.spec (p : Plan) : LaunchSpec := ⟨p.region, [(sessionTagKey, p.sessionHex)]⟩

def Plan.record (p : Plan) (i : Instance) : SessionState :=
  ⟨p.sessionHex, p.provider, p.region, i.id, p.createdUnix, p.issuerKey, .running, none⟩

def ipWaitCap : ℕ := 180000
def ipPollPeriod : ℕ := 2000

structure Poll where
  took : ℕ
  listing : Except ProviderError Listing

/-- Polls until the instance reports an address; one that is not listed is waited for. -/
def waitForIp (polls : ℕ → Poll) (k elapsed : ℕ) (i : Instance) : Except CliError Instance :=
  if i.publicIp.isSome then .ok i
  else if ipWaitCap ≤ elapsed then
    .error (.failed ("instance " ++ i.id ++ " did not report an ip within 180 s"))
  else match (polls k).listing with
    | .error e => .error (.provider e)
    | .ok listed => waitForIp polls (k + 1) (elapsed + ipPollPeriod + (polls k).took)
        ((listed.instances.find? fun found => found.id = i.id).getD i)
termination_by ipWaitCap - elapsed
decreasing_by
  rw [ipPollPeriod]
  omega

/-- What the provider, the network, the output and the disk answer to one run. -/
structure Outcomes where
  launch : LaunchSpec → Except ProviderError Instance
  polls : ℕ → Poll
  reachable : Except CliError Unit
  prints : ℕ → Except CliError Unit
  saves : Except CliError Unit
  savesRecording : Except CliError Unit

structure Yard where
  desk : Desk
  live : List Instance

section
variable {ε α : Type}

def atDesk (m : Command Desk ε α) : Command Yard ε α := ExceptT.mk fun y =>
  ((m.ends y.desk).1, { y with desk := (m.ends y.desk).2 })

def launched (refuse : ProviderError → ε) (o : Outcomes) (spec : LaunchSpec) :
    Command Yard ε Instance := ExceptT.mk fun y =>
  match o.launch spec with
  | .ok i => (.ok i, { y with live := y.live ++ [i] })
  | .error e => (.error (refuse e), y)

def saveRecording (p : Plan) (saves : Except ε Unit) : Command Yard ε Unit :=
  if p.recording then Command.answer saves else pure ()

end

namespace Host

/-- The mock launches no server, so there is nothing to reach. -/
def reachability (o : Outcomes) (p : Plan) : Command Yard CliError Unit :=
  if p.isMock then
    if p.json then pure ()
    else atDesk (writeln o.prints
      "Reachability check skipped: the mock provider launches no real server.")
  else Command.answer o.reachable

def arrival (o : Outcomes) (p : Plan) (i : Instance) : Command Yard CliError Instance := do
  let i ← Command.answer (waitForIp o.polls 0 0 i)
  reachability o p
  pure i

def rest (o : Outcomes) (p : Plan) : Command Yard CliError Unit := do
  saveRecording p o.savesRecording
  p.report.forM fun line => atDesk (writeln o.prints line)

def run (o : Outcomes) (p : Plan) : Command Yard CliError Unit := do
  let i ← launched .provider o p.spec
  let i ← arrival o p i
  atDesk (writeTo o.saves (p.record i))
  rest o p

end Host

namespace App

def addressOf (i : Instance) : Except String Unit :=
  if i.publicIp.isSome then .ok () else .error "instance reported no public ip"

def arrival (explain : CliError → String) (o : Outcomes) (i : Instance) :
    Command Yard String Instance := do
  let i ← Command.answer ((waitForIp o.polls 0 0 i).mapError explain)
  Command.answer (addressOf i)
  Command.answer (o.reachable.mapError CliError.display)
  pure i

/-- The app's launch of a session, with the sentence it makes of an error. -/
def launchSession (explain : CliError → String) (o : Outcomes) (p : Plan) :
    Command Yard String Unit := do
  let i ← launched (fun e => explain (.provider e)) o p.spec
  let i ← arrival explain o i
  atDesk (writeTo (o.saves.mapError CliError.display) (p.record i))
  saveRecording p (o.savesRecording.mapError CliError.display)

end App

/-! ## What a run leaves -/

theorem waitForIp_ok {polls : ℕ → Poll} {k elapsed : ℕ} {i j : Instance}
    (h : waitForIp polls k elapsed i = .ok j) : j.id = i.id ∧ j.publicIp.isSome := by
  fun_induction waitForIp polls k elapsed i with
  | case1 k elapsed i hip =>
    obtain rfl := Except.ok.inj h
    exact ⟨rfl, hip⟩
  | case2 => exact nomatch h
  | case3 => exact nomatch h
  | case4 k elapsed i hip hcap listed hlisting ih =>
    obtain ⟨hid, hj⟩ := ih h
    have hfound : ∀ found ∈ listed.instances.find? (fun found => found.id = i.id),
        found.id = i.id := fun found hfind => by simpa using List.find?_some hfind
    refine ⟨hid.trans ?_, hj⟩
    cases hfind : listed.instances.find? (fun found => found.id = i.id) with
    | none => rw [Option.getD_none]
    | some found =>
      rw [Option.getD_some]
      exact hfound found hfind

def Aside {ε α : Type} (m : Command Yard ε α) : Prop :=
  Command.Keeps (fun y => (y.desk.written, y.live)) m

section
variable {ε α : Type}

theorem aside_writeln (prints : ℕ → Except ε Unit) (line : String) :
    Aside (atDesk (writeln prints line)) := by
  intro y
  exact Prod.ext (keeps_writeln y.desk) rfl

theorem aside_saveRecording (p : Plan) (saves : Except ε Unit) :
    Aside (saveRecording p saves) := by
  unfold saveRecording
  split_ifs
  · exact Command.keeps_answer saves
  · exact Command.keeps_pure ()

theorem yard_eq {refuse : ProviderError → ε} {o : Outcomes} {p : Plan} {i : Instance}
    {arrival : Instance → Command Yard ε Instance} {saves : Except ε Unit}
    {after : Command Yard ε α} {P : Prop} (hlaunch : o.launch p.spec = .ok i)
    (hsame : ∀ y j t, (arrival i).ends y = (.ok j, t) → j.id = i.id)
    (harrival : Aside (arrival i)) (hafter : Aside after) {y : Yard}
    (harrives : (∃ j t, (arrival i).ends { y with live := y.live ++ [i] } = (.ok j, t)) ↔ P) :
    let t := ((launched refuse o p.spec >>= fun i => arrival i >>= fun j =>
      atDesk (writeTo saves (p.record j)) >>= fun _ => after).ends y).2
    t.live = y.live ++ [i] ∧
      (P ∧ saves.isOk → t.desk.written = y.desk.written ++ [p.record i]) ∧
        (¬(P ∧ saves.isOk) → t.desk.written = y.desk.written) := by
  intro t
  have hstart : (launched refuse o p.spec).ends y = (.ok i, { y with live := y.live ++ [i] }) := by
    unfold Command.ends launched
    simp only [hlaunch]
    rfl
  have ht : t = ((arrival i >>= fun j => atDesk (writeTo saves (p.record j)) >>=
      fun _ => after).ends { y with live := y.live ++ [i] }).2 :=
    congrArg Prod.snd (Command.ends_bind_ok hstart)
  have hstate := harrival { y with live := y.live ++ [i] }
  rcases hends : (arrival i).ends { y with live := y.live ++ [i] } with ⟨e | j, u⟩
  · have hfails : ¬P := by
      rw [← harrives]
      rintro ⟨j, u', h⟩
      exact nomatch congrArg Prod.fst (hends.symm.trans h)
    rw [hends] at hstate
    rw [ht, Command.ends_bind_error hends]
    exact ⟨congrArg Prod.snd hstate, fun h => absurd h.1 hfails, fun _ => congrArg Prod.fst hstate⟩
  · have hP : P := harrives.mp ⟨j, u, hends⟩
    have hrecord : p.record j = p.record i := by rw [Plan.record, Plan.record, hsame _ j u hends]
    rw [hends] at hstate
    have hwritten : u.desk.written = y.desk.written := congrArg Prod.fst hstate
    have hlive : u.live = y.live ++ [i] := congrArg Prod.snd hstate
    rw [ht, Command.ends_bind_ok hends]
    rcases saves with e | _
    · have hsave : (atDesk (writeTo (.error e) (p.record j))).ends u = (.error e, u) := rfl
      have hstopped : ¬(P ∧ (Except.error e : Except ε Unit).isOk) := fun h => nomatch h.2
      rw [Command.ends_bind_error hsave]
      exact ⟨hlive, fun h => absurd h hstopped, fun _ => hwritten⟩
    · have hsave : (atDesk (writeTo (.ok () : Except ε Unit) (p.record j))).ends u = (.ok (),
          { u with desk := { u.desk with written := u.desk.written ++ [p.record j] } }) := rfl
      have hsaved : P ∧ (Except.ok () : Except ε Unit).isOk := ⟨hP, rfl⟩
      rw [Command.ends_bind_ok hsave, ← hrecord, ← hwritten, ← hlive]
      have hkept := hafter
        { u with desk := { u.desk with written := u.desk.written ++ [p.record j] } }
      exact ⟨congrArg Prod.snd hkept, fun _ => congrArg Prod.fst hkept, fun h => absurd hsaved h⟩

end

/-! ## Both surfaces -/

def HasAddress (o : Outcomes) (i : Instance) : Prop := ∃ j, waitForIp o.polls 0 0 i = .ok j

theorem ends_ip_iff {ε : Type} {explain : CliError → ε} {o : Outcomes} {i j : Instance}
    {y t : Yard} :
    (Command.answer ((waitForIp o.polls 0 0 i).mapError explain)).ends y = (.ok j, t) ↔
      waitForIp o.polls 0 0 i = .ok j ∧ t = y := by
  rw [Command.ends_answer, Prod.mk.injEq]
  apply and_congr _ eq_comm
  rcases waitForIp o.polls 0 0 i with e | found
  · exact iff_of_false (fun h => nomatch h) fun h => nomatch h
  · exact ⟨fun h => congrArg Except.ok (Except.ok.inj h), fun h =>
      congrArg Except.ok (Except.ok.inj h)⟩

namespace Host
variable {o : Outcomes} {p : Plan} {i : Instance}

/-- The check of the command line: the line it prints instead goes out, or the server is
reached. -/
def Checked (o : Outcomes) (p : Plan) (printed : ℕ) : Prop :=
  if p.isMock then p.json ∨ o.prints printed = .ok () else o.reachable = .ok ()

theorem reachability_iff (y : Yard) :
    (∃ t, (reachability o p).ends y = (.ok (), t)) ↔ Checked o p y.desk.out.length := by
  unfold reachability Checked
  split_ifs with hmock hjson
  · exact iff_of_true ⟨y, rfl⟩ (.inl hjson)
  · rw [or_iff_right hjson]
    constructor
    · rintro ⟨t, h⟩
      exact congrArg Prod.fst h
    · intro h
      refine ⟨_, Prod.ext ?_ rfl⟩
      exact h
  · constructor
    · rintro ⟨t, h⟩
      exact congrArg Prod.fst h
    · exact fun h => ⟨y, Prod.ext h rfl⟩

theorem aside_reachability : Aside (reachability o p) := by
  unfold reachability
  split_ifs
  · exact Command.keeps_pure ()
  · exact aside_writeln _ _
  · exact Command.keeps_answer _

theorem arrival_iff (y : Yard) :
    (∃ j t, (arrival o p i).ends y = (.ok j, t)) ↔
      HasAddress o i ∧ Checked o p y.desk.out.length := by
  unfold arrival
  constructor
  · rintro ⟨j, t, h⟩
    obtain ⟨found, y', hanswer, hrest⟩ := Command.ends_bind_iff.mp h
    obtain ⟨hip, rfl⟩ := Prod.mk.inj hanswer
    obtain ⟨_, u, hcheck, -⟩ := Command.ends_bind_iff.mp hrest
    exact ⟨⟨found, hip⟩, (reachability_iff _).mp ⟨u, hcheck⟩⟩
  · rintro ⟨⟨j, hip⟩, hchecked⟩
    obtain ⟨u, hcheck⟩ := (reachability_iff y).mpr hchecked
    refine ⟨j, u, Command.ends_bind_iff.mpr ⟨j, y, Prod.ext hip rfl, ?_⟩⟩
    exact Command.ends_bind_iff.mpr ⟨(), u, hcheck, rfl⟩

theorem arrival_id {y t : Yard} {j : Instance} (h : (arrival o p i).ends y = (.ok j, t)) :
    j.id = i.id := by
  obtain ⟨found, y', hip, hrest⟩ := Command.ends_bind_iff.mp h
  obtain ⟨_, u, -, hpure⟩ := Command.ends_bind_iff.mp hrest
  obtain rfl := Except.ok.inj (congrArg Prod.fst hpure)
  exact (waitForIp_ok (congrArg Prod.fst hip)).1

theorem aside_arrival : Aside (arrival o p i) :=
  Command.keeps_bind (Command.keeps_answer _) fun _ =>
    Command.keeps_bind aside_reachability fun _ => Command.keeps_pure _

theorem aside_rest : Aside (rest o p) := by
  apply Command.keeps_bind (aside_saveRecording p _)
  intro _
  induction p.report with
  | nil => exact Command.keeps_pure ()
  | cons line lines ih => exact Command.keeps_bind (aside_writeln _ _) fun _ => ih

end Host

namespace App
variable {o : Outcomes} {p : Plan} {i : Instance} {explain : CliError → String}

theorem ends_reachable_iff {y t : Yard} :
    (Command.answer (o.reachable.mapError CliError.display)).ends y = (.ok (), t) ↔
      o.reachable = .ok () ∧ t = y := by
  rw [Command.ends_answer, Prod.mk.injEq]
  apply and_congr _ eq_comm
  rcases o.reachable with e | _
  · exact iff_of_false (fun h => nomatch h) fun h => nomatch h
  · exact iff_of_true rfl rfl

theorem arrival_iff (y : Yard) :
    (∃ j t, (arrival explain o i).ends y = (.ok j, t)) ↔
      HasAddress o i ∧ o.reachable = .ok () := by
  unfold arrival
  constructor
  · rintro ⟨j, t, h⟩
    obtain ⟨found, y', hanswer, hrest⟩ := Command.ends_bind_iff.mp h
    obtain ⟨hip, rfl⟩ := ends_ip_iff.mp hanswer
    obtain ⟨_, u, -, hrest⟩ := Command.ends_bind_iff.mp hrest
    obtain ⟨_, v, hreached, -⟩ := Command.ends_bind_iff.mp hrest
    exact ⟨⟨found, hip⟩, (ends_reachable_iff.mp hreached).1⟩
  · rintro ⟨⟨j, hip⟩, hreached⟩
    refine ⟨j, y, Command.ends_bind_iff.mpr ⟨j, y, ends_ip_iff.mpr ⟨hip, rfl⟩, ?_⟩⟩
    have haddress : addressOf j = .ok () := if_pos (waitForIp_ok hip).2
    refine Command.ends_bind_iff.mpr ⟨(), y, Prod.ext haddress rfl, ?_⟩
    exact Command.ends_bind_iff.mpr ⟨(), y, ends_reachable_iff.mpr ⟨hreached, rfl⟩, rfl⟩

theorem arrival_id {y t : Yard} {j : Instance} (h : (arrival explain o i).ends y = (.ok j, t)) :
    j.id = i.id := by
  obtain ⟨found, y', hip, hrest⟩ := Command.ends_bind_iff.mp h
  obtain ⟨_, u, -, hrest⟩ := Command.ends_bind_iff.mp hrest
  obtain ⟨_, v, -, hpure⟩ := Command.ends_bind_iff.mp hrest
  obtain rfl := Except.ok.inj (congrArg Prod.fst hpure)
  exact (waitForIp_ok (ends_ip_iff.mp hip).1).1

theorem aside_arrival : Aside (arrival explain o i) := by
  apply Command.keeps_bind (Command.keeps_answer _)
  intro j
  apply Command.keeps_bind (Command.keeps_answer _)
  exact fun _ => Command.keeps_bind (Command.keeps_answer _) fun _ => Command.keeps_pure _

end App

/-- Everything between the launch and the record of it goes well on the command line. -/
def RecordedByHost (o : Outcomes) (p : Plan) (i : Instance) (printed : ℕ) : Prop :=
  (HasAddress o i ∧ Host.Checked o p printed) ∧ o.saves.isOk

def RecordedByApp (o : Outcomes) (i : Instance) : Prop :=
  (HasAddress o i ∧ o.reachable = .ok ()) ∧ o.saves.isOk

section
variable {explain : CliError → String} {o : Outcomes} {p : Plan} {i : Instance} {y : Yard}

theorem yard_run (hlaunch : o.launch p.spec = .ok i) :
    let t := ((Host.run o p).ends y).2
    t.live = y.live ++ [i] ∧
      (RecordedByHost o p i y.desk.out.length →
        t.desk.written = y.desk.written ++ [p.record i]) ∧
      (¬RecordedByHost o p i y.desk.out.length → t.desk.written = y.desk.written) := by
  have harrives := @Host.arrival_iff o p i { y with live := y.live ++ [i] }
  exact yard_eq hlaunch (fun _ _ _ => Host.arrival_id) Host.aside_arrival Host.aside_rest harrives

theorem yard_launchSession (hlaunch : o.launch p.spec = .ok i) :
    let t := ((App.launchSession explain o p).ends y).2
    t.live = y.live ++ [i] ∧
      (RecordedByApp o i → t.desk.written = y.desk.written ++ [p.record i]) ∧
      (¬RecordedByApp o i → t.desk.written = y.desk.written) := by
  have hsaves : (o.saves.mapError CliError.display).isOk = o.saves.isOk := by
    rcases o.saves with _ | _ <;> rfl
  have harrives := @App.arrival_iff o i explain { y with live := y.live ++ [i] }
  unfold RecordedByApp
  rw [← hsaves]
  exact yard_eq hlaunch (fun _ _ _ => App.arrival_id) App.aside_arrival
    (aside_saveRecording p _) harrives

end

def Recorded (p : Plan) (i : Instance) (y : Yard) : Prop :=
  ∃ r ∈ y.desk.written, r.sessionIdHex = p.sessionHex ∧ r.instanceId = i.id ∧ r.status = .running

/-- The machine is up, where whoever looks for its session's tag finds it. -/
def Tagged (p : Plan) (i : Instance) (y : Yard) : Prop :=
  ∃ j ∈ y.live, j.id = i.id ∧ j.sessionId = some p.sessionHex

theorem launched_left (explain : CliError → String) (o : Outcomes) (p : Plan) (i : Instance)
    (out : List String) (live : List Instance) (hlaunch : o.launch p.spec = .ok i)
    (htags : i.sessionId = sessionIdFromTags p.spec.tags) :
    let host := ((Host.run o p).ends ⟨⟨out, []⟩, live⟩).2
    let app := ((App.launchSession explain o p).ends ⟨⟨out, []⟩, live⟩).2
    (Recorded p i host ↔ RecordedByHost o p i out.length) ∧
      (Recorded p i app ↔ RecordedByApp o i) ∧
      (host.live = live ++ [i] ∧ Tagged p i host) ∧ app.live = live ++ [i] ∧ Tagged p i app := by
  intro host app
  have htagged : ∀ {y : Yard}, y.live = live ++ [i] → Tagged p i y := by
    intro y hlive
    refine ⟨i, hlive ▸ List.mem_append_right _ (List.mem_singleton.mpr rfl), rfl, ?_⟩
    rw [htags]
    rfl
  have hrecorded : ∀ {y : Yard} {P : Prop}, (P → y.desk.written = [] ++ [p.record i]) →
      (¬P → y.desk.written = []) → (Recorded p i y ↔ P) := by
    intro y P hwritten hnone
    constructor
    · rintro ⟨r, hr, -⟩
      by_contra hP
      exact List.not_mem_nil (hnone hP ▸ hr)
    · intro hP
      exact ⟨p.record i, hwritten hP ▸ List.mem_singleton.mpr rfl, rfl, rfl, rfl⟩
  obtain ⟨hhost, hhostWritten, hhostNot⟩ := @yard_run o p i ⟨⟨out, []⟩, live⟩ hlaunch
  obtain ⟨happ, happWritten, happNot⟩ :=
    @yard_launchSession explain o p i ⟨⟨out, []⟩, live⟩ hlaunch
  exact ⟨hrecorded hhostWritten hhostNot, hrecorded happWritten happNot, ⟨hhost, htagged hhost⟩,
    happ, htagged happ⟩

/-- An instance launched on AWS for a session, with an address from the start. -/
def awsInstance : Instance :=
  ⟨.aws, "us-east-1", "i-1", some (.v4 0xCB007107), [(sessionTagKey, "5e55101d")]⟩

def awsPlan : Plan := ⟨"aws", "us-east-1", "5e55101d", 0, "key", false, false, false, []⟩

/-- All goes well, but for what the check of the server comes to. -/
def awsOutcomes (reachable : Except CliError Unit) : Outcomes where
  launch _ := .ok awsInstance
  polls _ := ⟨0, .ok ⟨[awsInstance], []⟩⟩
  reachable := reachable
  prints _ := .ok ()
  saves := .ok ()
  savesRecording := .ok ()

theorem launched_left_aws :
    let o := awsOutcomes (.ok ())
    let host := ((Host.run o awsPlan).ends ⟨⟨[], []⟩, []⟩).2
    let app := ((App.launchSession CliError.display o awsPlan).ends ⟨⟨[], []⟩, []⟩).2
    (Recorded awsPlan awsInstance host ↔ RecordedByHost o awsPlan awsInstance 0) ∧
      (Recorded awsPlan awsInstance app ↔ RecordedByApp o awsInstance) ∧
      (host.live = [awsInstance] ∧ Tagged awsPlan awsInstance host) ∧
        app.live = [awsInstance] ∧ Tagged awsPlan awsInstance app :=
  launched_left CliError.display (awsOutcomes (.ok ())) awsPlan awsInstance [] [] rfl rfl

def AccountedFor (p : Plan) (i : Instance) (y : Yard) : Prop :=
  Recorded p i y ∨ ∀ j ∈ y.live, j.id ≠ i.id

/-- A server that does not answer leaves its machine up and unrecorded. -/
theorem launched_unreachable :
    let o := awsOutcomes (.error (.failed "server did not complete a handshake within 60 s"))
    ¬AccountedFor awsPlan awsInstance ((Host.run o awsPlan).ends ⟨⟨[], []⟩, []⟩).2 ∧
      ¬AccountedFor awsPlan awsInstance
        ((App.launchSession CliError.display o awsPlan).ends ⟨⟨[], []⟩, []⟩).2 := by
  intro o
  have hleft : ∀ y : Yard, y.desk.written = [] → y.live = [awsInstance] →
      ¬AccountedFor awsPlan awsInstance y := by
    rintro y hwritten hlive (⟨r, hr, -⟩ | hgone)
    · exact List.not_mem_nil (hwritten ▸ hr)
    · exact hgone awsInstance (hlive ▸ List.mem_singleton.mpr rfl) rfl
  have hhost : ¬RecordedByHost o awsPlan awsInstance 0 := fun h => nomatch h.1.2
  have happ : ¬RecordedByApp o awsInstance := fun h => nomatch h.1.2
  constructor
  · obtain ⟨hlive, -, hwritten⟩ := @yard_run o awsPlan awsInstance ⟨⟨[], []⟩, []⟩ rfl
    exact hleft _ (hwritten hhost) hlive
  · obtain ⟨hlive, -, hwritten⟩ :=
      @yard_launchSession CliError.display o awsPlan awsInstance ⟨⟨[], []⟩, []⟩ rfl
    exact hleft _ (hwritten happ) hlive

end JamStream.Cli
