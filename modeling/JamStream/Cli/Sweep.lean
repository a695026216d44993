import JamStream.Cli.State
import JamStream.Cloud.Sweeper
import JamStream.Foundations.Runs
import JamStream.Session.Control

/-! A sweep of every provider and the closing of records after it, while hosts go on launching
machines and recording them. -/

namespace JamStream.Cli
open Foundations Cloud Runs

def resolve (name : String) : Option Source :=
  let trimmed := (Session.trim name).toList
  if trimmed = "mock".toList then some .mock
  else ([.localHost, .digitalOcean, .aws, .gcp].find? fun kind : ProviderKind =>
    kind.asStr.toList = trimmed.map Char.toLower).map .real

/-- A machine a host has launched, where it runs. -/
structure Machine where
  source : Source
  body : Instance
  kind_eq : body.provider = source.kind
deriving DecidableEq

def Machine.key (m : Machine) : ProviderKind × String := (m.body.provider, m.body.id)

def Of (session : SessionState) (m : Machine) : Prop :=
  resolve session.provider = some m.source ∧ session.instanceId = m.body.id

instance (session : SessionState) (m : Machine) : Decidable (Of session m) :=
  inferInstanceAs (Decidable (_ ∧ _))

def reconciled (report : SweepReport) (now : ℕ) (session : SessionState) :
    Option SessionState :=
  if session.status ≠ .running then none
  else match report.searchFor session.provider with
    | none => none
    | some search =>
      let ours (i : Instance) : Bool := i.id = session.instanceId && i.provider = search.kind
      if report.destroyed.any ours then some (session.markEnded now)
      else if search.isComplete && !report.found.any ours then
        some (session.markEndedUnlisted now)
      else none

inductive Phase
  | listing
  | destroying (source : Source) (left : List Instance)
  | judging (loaded : List SessionState)

def Phase.left : Phase → List Instance
  | .destroying _ left => left
  | _ => []

def Phase.loaded : Phase → List SessionState
  | .judging loaded => loaded
  | _ => []

/-- The machines that exist, the records on disk, and how far one sweep has come. What was
ever launched, what was there when each provider was listed, and the records the sweep has
closed are kept for the statements. -/
structure Fleet where
  live : List Machine
  pending : List Machine
  records : List SessionState
  todo : List Source
  phase : Phase
  report : SweepReport
  launched : List Machine
  listed : List (ProviderSearch × List Machine)
  closed : List SessionState

namespace Fleet

inductive Input
  | launch (m : Machine)
  | save (m : Machine) (session : SessionState)
  | vanish (m : Machine)
  | list (answer : Except ProviderError (List RegionId))
  | destroy (answer : Except ProviderError Unit) (gone : Bool)
  | firewalls (answer : Except ProviderError (List String))
  | load (readable : SessionState → Bool)
  | judge (now : ℕ) (write : Except CliError Unit)

def launch (s : Fleet) (m : Machine) : Fleet :=
  if m.key ∈ s.launched.map Machine.key then s
  else { s with
    live := s.live ++ [m]
    pending := s.pending ++ [m]
    launched := s.launched ++ [m] }

def save (s : Fleet) (m : Machine) (session : SessionState) : Fleet :=
  if m ∈ s.pending ∧ Of session m then
    { s with
      pending := s.pending.erase m
      records := (s.records.filter fun r => r.sessionIdHex ≠ session.sessionIdHex) ++ [session] }
  else s

/-- The next provider lists what is there, except in the regions it could not search. -/
def list (s : Fleet) (answer : Except ProviderError (List RegionId)) : Fleet :=
  match s.phase, s.todo with
  | .listing, source :: todo =>
    match answer with
    | .error error =>
      { s with
        todo := todo
        report := s.report.unlisted source error }
    | .ok unsearched =>
      let there := s.live.filter fun m => m.source = source
      let search := ⟨source.name, source.kind, unsearched⟩
      { s with
        todo := todo
        phase := .destroying source
          ((there.filter fun m => !unsearched.contains m.body.region).map Machine.body)
        report := s.report.searched search
        listed := s.listed ++ [(search, there)] }
  | _, _ => s

/-- A destroy that answers took the machine down; one that fails may have done so, too. -/
def destroy (s : Fleet) (answer : Except ProviderError Unit) (gone : Bool) : Fleet :=
  match s.phase with
  | .destroying source (i :: left) =>
    { s with
      live := if answer.isOk || gone then
          s.live.filter fun m => !(m.source = source && m.body.id = i.id)
        else s.live
      phase := .destroying source left
      report := s.report.swept i answer }
  | _ => s

def firewalls (s : Fleet) (answer : Except ProviderError (List String)) : Fleet :=
  match s.phase with
  | .destroying _ [] =>
    { s with
      phase := .listing
      report := s.report.cleaned answer }
  | _ => s

def load (s : Fleet) (readable : SessionState → Bool) : Fleet :=
  match s.phase, s.todo with
  | .listing, [] =>
    { s with phase := .judging ((s.records.filter readable).mergeSort fun a b =>
        a.createdUnix ≤ b.createdUnix) }
  | _, _ => s

def judge (s : Fleet) (now : ℕ) (write : Except CliError Unit) : Fleet :=
  match s.phase with
  | .judging (session :: rest) =>
    match reconciled s.report now session, write with
    | some ended, .ok () =>
      { s with
        records := s.records.map fun r =>
          if r.sessionIdHex = session.sessionIdHex then ended else r
        phase := .judging rest
        closed := s.closed ++ [ended] }
    | _, _ => { s with phase := .judging rest }
  | _ => s

def step (s : Fleet) : Input → Fleet
  | .launch m => s.launch m
  | .save m session => s.save m session
  | .vanish m => { s with live := s.live.filter (· ≠ m) }
  | .list answer => s.list answer
  | .destroy answer gone => s.destroy answer gone
  | .firewalls answer => s.firewalls answer
  | .load readable => s.load readable
  | .judge now write => s.judge now write

def Exists (s : Fleet) (session : SessionState) : Prop := ∃ m ∈ s.live, Of session m

def NoneLive (s : Fleet) : Prop := ∀ session ∈ s.closed, ¬s.Exists session

def WasThere (s : Fleet) (session : SessionState) : Prop :=
  ∃ e ∈ s.listed, e.1.provider = session.provider ∧ ∃ m ∈ e.2, Of session m

/-- A record about to be judged and written, running and of a machine that exists: if its
provider searched all of itself, the machine was there then. -/
def Vouched (s : Fleet) : Input → Prop
  | .judge _ (.ok ()) => ∀ session rest, s.phase = .judging (session :: rest) →
      session.status = .running → s.Exists session →
        ∀ search, s.report.searchFor session.provider = some search → search.isComplete →
          s.WasThere session
  | _ => True

/-! ## What the sweep knows -/

/-- Every machine was launched once, and every record is of one that was. -/
structure Known (s : Fleet) : Prop where
  keys : (s.launched.map Machine.key).Nodup
  live : ∀ m ∈ s.live, m ∈ s.launched
  pending : ∀ m ∈ s.pending, m ∈ s.launched
  records : ∀ r ∈ s.records, ∃ m ∈ s.launched, Of r m
  loaded : ∀ r ∈ s.phase.loaded, ∃ m ∈ s.launched, Of r m
  closed : ∀ r ∈ s.closed, ∃ m ∈ s.launched, Of r m

/-- The report has what its listings showed, and what it took down is gone. -/
structure Told (s : Fleet) : Prop where
  names : (s.listed.map (fun e => e.1.provider) ++ s.todo.map Source.name).Nodup
  searches : s.report.searches = s.listed.map Prod.fst
  sources : ∀ e ∈ s.listed, ∃ source : Source, e.1.provider = source.name ∧
    e.1.kind = source.kind ∧ ∀ m ∈ e.2, m ∈ s.launched ∧ m.source = source
  covered : ∀ e ∈ s.listed, e.1.isComplete → ∀ m ∈ e.2,
    m.body ∈ s.report.found ++ s.phase.left
  sound : ∀ i ∈ s.report.found ++ s.phase.left, ∃ e ∈ s.listed, ∃ m ∈ e.2, m.body = i
  here : ∀ source left, s.phase = .destroying source left → ∀ i ∈ left,
    ∃ m ∈ s.launched, m.source = source ∧ m.body = i
  gone : ∀ i ∈ s.report.destroyed, (∃ m ∈ s.launched, m.body = i) ∧ ∀ m ∈ s.live, m.body ≠ i

variable {s : Fleet} {session : SessionState}

theorem Known.eq_of_key (h : s.Known) {a b : Machine} (ha : a ∈ s.launched)
    (hb : b ∈ s.launched) (hkey : a.key = b.key) : a = b :=
  List.inj_on_of_nodup_map h.keys ha hb hkey

theorem key_eq_of_of {a b : Machine} (ha : Of session a) (hb : Of session b) :
    a.key = b.key := by
  have hsource : a.source = b.source := Option.some.inj (ha.1.symm.trans hb.1)
  have hkind : a.body.provider = b.body.provider := by rw [a.kind_eq, b.kind_eq, hsource]
  exact Prod.ext hkind (ha.2.symm.trans hb.2)

theorem resolve_name (source : Source) : resolve source.name = some source := by
  rcases source with kind | _
  · cases kind <;> decide
  · decide

theorem Told.search (h : s.Told) {search : ProviderSearch} {m : Machine} (hm : Of session m)
    (hsearch : s.report.searchFor session.provider = some search) :
    ∃ e ∈ s.listed, e.1 = search ∧ search.provider = session.provider ∧
      search.provider = m.source.name ∧ search.kind = m.source.kind := by
  have hname : search.provider = session.provider := by
    simpa using List.find?_some hsearch
  have hmem : search ∈ s.listed.map Prod.fst := h.searches ▸ List.mem_of_find?_eq_some hsearch
  obtain ⟨e, he, rfl⟩ := List.mem_map.mp hmem
  obtain ⟨source, hsource, hkind, -⟩ := h.sources e he
  have hresolved : resolve session.provider = some source := by
    rw [← hname, hsource, resolve_name]
  have hsame : m.source = source := Option.some.inj (hm.1.symm.trans hresolved)
  rw [hsame]
  exact ⟨e, he, rfl, hname, hsource, hkind⟩

/-- A record of a machine that exists is closed exactly if its provider searched all of itself
and the machine was not there then. -/
theorem reconciled_isSome_iff (hk : s.Known) (ht : s.Told) {rest : List SessionState}
    (hphase : s.phase = .judging (session :: rest)) (hexists : s.Exists session) (now : ℕ) :
    (reconciled s.report now session).isSome ↔ session.status = .running ∧
      ∃ search, s.report.searchFor session.provider = some search ∧ search.isComplete ∧
        ¬s.WasThere session := by
  obtain ⟨m₀, hlive, hof⟩ := hexists
  have hlaunched := hk.live m₀ hlive
  have hleft : s.phase.left = [] := by rw [hphase]; rfl
  unfold reconciled
  by_cases hrunning : session.status = .running
  swap
  · rw [if_pos hrunning]
    exact iff_of_false Bool.false_ne_true fun h => hrunning h.1
  rw [if_neg (not_not.mpr hrunning)]
  rcases hsearch : s.report.searchFor session.provider with _ | search
  · apply iff_of_false Bool.false_ne_true
    rintro ⟨-, search, h, -⟩
    exact nomatch h
  obtain ⟨e, he, rfl, hname, hsource, hkind⟩ := ht.search hof hsearch
  have hours : ∀ i : Instance, i.id = session.instanceId → i.provider = e.1.kind →
      (i.provider, i.id) = m₀.key := by
    intro i hid hprovider
    rw [hid, hprovider, hkind, ← m₀.kind_eq, hof.2]
    rfl
  have hstands : s.report.destroyed.any (fun i => decide (i.id = session.instanceId) &&
      decide (i.provider = e.1.kind)) = false := by
    rw [List.any_eq_false]
    intro i hi hmatch
    rw [Bool.and_eq_true, decide_eq_true_eq, decide_eq_true_eq] at hmatch
    obtain ⟨⟨m, hm, rfl⟩, hgone⟩ := ht.gone i hi
    have hsame := hk.eq_of_key hm hlaunched (hours m.body hmatch.1 hmatch.2)
    exact hgone m₀ hlive (congrArg Machine.body hsame.symm)
  have hfound : e.1.isComplete → (s.report.found.any (fun i =>
      decide (i.id = session.instanceId) && decide (i.provider = e.1.kind)) ↔
        s.WasThere session) := by
    intro hcomplete
    rw [List.any_eq_true]
    constructor
    · rintro ⟨i, hi, hmatch⟩
      rw [Bool.and_eq_true, decide_eq_true_eq, decide_eq_true_eq] at hmatch
      obtain ⟨e', he', m, hm, rfl⟩ := ht.sound i (List.mem_append_left _ hi)
      obtain ⟨source, hsource', -, hall⟩ := ht.sources e' he'
      have hsame := hk.eq_of_key (hall m hm).1 hlaunched (hours m.body hmatch.1 hmatch.2)
      refine ⟨e', he', ?_, m, hm, hsame ▸ hof⟩
      rw [hsource', ← (hall m hm).2, hsame, ← hsource, hname]
    · rintro ⟨e', he', hprovider, m, hm, hofm⟩
      have hnames : (s.listed.map fun e => e.1.provider).Nodup :=
        (List.nodup_append.mp ht.names).1
      obtain rfl := List.inj_on_of_nodup_map hnames he' he (hprovider.trans hname.symm)
      have hbody := ht.covered e' he' hcomplete m hm
      rw [hleft, List.append_nil] at hbody
      refine ⟨m.body, hbody, ?_⟩
      have hsame : m.source = m₀.source := Option.some.inj (hofm.1.symm.trans hof.1)
      rw [Bool.and_eq_true, decide_eq_true_eq, decide_eq_true_eq]
      exact ⟨hofm.2.symm, by rw [m.kind_eq, hsame, hkind]⟩
  show (if s.report.destroyed.any (fun i => decide (i.id = session.instanceId) &&
      decide (i.provider = e.1.kind)) then some (session.markEnded now)
    else if e.1.isComplete && !s.report.found.any (fun i =>
      decide (i.id = session.instanceId) && decide (i.provider = e.1.kind)) then
      some (session.markEndedUnlisted now) else none).isSome = true ↔ _
  rw [hstands, if_neg Bool.false_ne_true]
  constructor
  · intro h
    refine ⟨hrunning, e.1, rfl, ?_⟩
    split_ifs at h with hcloses
    · rw [Bool.and_eq_true, Bool.not_eq_true', Bool.eq_false_iff] at hcloses
      exact ⟨hcloses.1, mt (hfound hcloses.1).mpr hcloses.2⟩
    · exact absurd h Bool.false_ne_true
  · rintro ⟨-, search, hsome, hcomplete, hnot⟩
    obtain rfl := Option.some.inj hsome
    rw [if_pos]
    · rfl
    · rw [Bool.and_eq_true, Bool.not_eq_true', Bool.eq_false_iff]
      exact ⟨hcomplete, mt (hfound hcomplete).mp hnot⟩

/-! ## Steps -/

theorem Known.same {t : Fleet} (h : s.Known) (hlaunched : t.launched = s.launched)
    (hlive : ∀ m ∈ t.live, m ∈ s.live) (hpending : t.pending = s.pending)
    (hrecords : t.records = s.records) (hclosed : t.closed = s.closed)
    (hloaded : ∀ r ∈ t.phase.loaded, r ∈ s.phase.loaded ∨ r ∈ s.records) : t.Known where
  keys := hlaunched ▸ h.keys
  live m hm := hlaunched ▸ h.live m (hlive m hm)
  pending m hm := hlaunched ▸ h.pending m (hpending ▸ hm)
  records r hr := hlaunched ▸ h.records r (hrecords ▸ hr)
  loaded r hr := hlaunched ▸ (hloaded r hr).elim (h.loaded r) (h.records r)
  closed r hr := hlaunched ▸ h.closed r (hclosed ▸ hr)

theorem known_launch (h : s.Known) (m : Machine) : (s.launch m).Known := by
  unfold launch
  split_ifs with hused
  · exact h
  have hkept : ∀ r : SessionState, (∃ n ∈ s.launched, Of r n) →
      ∃ n ∈ s.launched ++ [m], Of r n := fun r ⟨n, hn, hof⟩ =>
    ⟨n, List.mem_append_left _ hn, hof⟩
  have hgrows : ∀ ns : List Machine, (∀ n ∈ ns, n ∈ s.launched) →
      ∀ n ∈ ns ++ [m], n ∈ s.launched ++ [m] := fun ns hns n hn =>
    (List.mem_append.mp hn).elim (fun hn => List.mem_append_left _ (hns n hn))
      (List.mem_append_right _)
  constructor
  · show ((s.launched ++ [m]).map Machine.key).Nodup
    rw [List.map_append, List.map_singleton, ← List.concat_eq_append, List.nodup_concat]
    exact ⟨hused, h.keys⟩
  · exact hgrows s.live h.live
  · exact hgrows s.pending h.pending
  · exact fun r hr => hkept r (h.records r hr)
  · exact fun r hr => hkept r (h.loaded r hr)
  · exact fun r hr => hkept r (h.closed r hr)

theorem known_save (h : s.Known) (m : Machine) (session : SessionState) :
    (s.save m session).Known := by
  unfold save
  split_ifs with hmine
  · refine ⟨h.keys, h.live, ?_, ?_, h.loaded, h.closed⟩
    · exact fun n hn => h.pending n (List.mem_of_mem_erase hn)
    · intro r hr
      rcases List.mem_append.mp hr with hr | hr
      · exact h.records r (List.mem_of_mem_filter hr)
      · rw [List.mem_singleton.mp hr]
        exact ⟨m, h.pending m hmine.1, hmine.2⟩
  · exact h

theorem reconciled_some {report : SweepReport} {now : ℕ} {session ended : SessionState}
    (h : reconciled report now session = some ended) :
    ended.provider = session.provider ∧ ended.instanceId = session.instanceId := by
  unfold reconciled at h
  split_ifs at h
  · rcases hsearch : report.searchFor session.provider with _ | search
    · rw [hsearch] at h
      exact nomatch h
    · rw [hsearch] at h
      simp only at h
      split_ifs at h
      · exact Option.some.inj h ▸ ⟨rfl, rfl⟩
      · exact Option.some.inj h ▸ ⟨rfl, rfl⟩

theorem of_reconciled {report : SweepReport} {now : ℕ} {session ended : SessionState}
    (h : reconciled report now session = some ended) (m : Machine) :
    Of ended m ↔ Of session m := by
  obtain ⟨hprovider, hinstance⟩ := reconciled_some h
  unfold Of
  rw [hprovider, hinstance]

theorem judge_closes {rest : List SessionState} {ended : SessionState} {now : ℕ}
    (hphase : s.phase = .judging (session :: rest))
    (hended : reconciled s.report now session = some ended) :
    s.judge now (.ok ()) = { s with
      records := s.records.map fun r =>
        if r.sessionIdHex = session.sessionIdHex then ended else r
      phase := .judging rest
      closed := s.closed ++ [ended] } := by
  unfold judge
  simp only [hphase, hended]

theorem judge_passes {now : ℕ} {write : Except CliError Unit}
    (h : ∀ session rest, s.phase = .judging (session :: rest) → write = .ok () →
      reconciled s.report now session = none) :
    s.judge now write = s ∨ ∃ session rest, s.phase = .judging (session :: rest) ∧
      s.judge now write = { s with phase := .judging rest } := by
  unfold judge
  split
  · rename_i session rest hphase
    refine .inr ⟨session, rest, hphase, ?_⟩
    split
    · rename_i hended
      exact nomatch (h session rest hphase rfl).symm.trans hended
    · rfl
  · exact .inl rfl

theorem judge_cases (s : Fleet) (now : ℕ) (write : Except CliError Unit) :
    (∃ session rest ended, s.phase = .judging (session :: rest) ∧ write = .ok () ∧
        reconciled s.report now session = some ended) ∨
      ∀ session rest, s.phase = .judging (session :: rest) → write = .ok () →
        reconciled s.report now session = none := by
  by_contra hcases
  rw [not_or] at hcases
  obtain ⟨hnone, hsome⟩ := hcases
  push Not at hnone hsome
  obtain ⟨session, rest, hphase, hwrite, hended⟩ := hsome
  obtain ⟨ended, hended⟩ := Option.ne_none_iff_exists'.mp hended
  exact hnone session rest ended hphase hwrite hended

theorem known_judge (h : s.Known) (now : ℕ) (write : Except CliError Unit) :
    (s.judge now write).Known := by
  rcases judge_cases s now write with ⟨session, rest, ended, hphase, rfl, hended⟩ | hpasses
  · rw [judge_closes hphase hended]
    have hloaded : ∀ r ∈ session :: rest, ∃ m ∈ s.launched, Of r m := by
      intro r hr
      apply h.loaded
      rw [hphase]
      exact hr
    have hof : ∃ m ∈ s.launched, Of ended m := by
      obtain ⟨m, hm, hof⟩ := hloaded session List.mem_cons_self
      exact ⟨m, hm, (of_reconciled hended m).mpr hof⟩
    refine ⟨h.keys, h.live, h.pending, ?_, ?_, ?_⟩
    · intro r hr
      obtain ⟨r₀, hr₀, rfl⟩ := List.mem_map.mp hr
      split_ifs
      · exact hof
      · exact h.records r₀ hr₀
    · exact fun r hr => hloaded r (List.mem_cons_of_mem _ hr)
    · exact List.forall_mem_append.mpr ⟨h.closed, List.forall_mem_singleton.mpr hof⟩
  · rcases judge_passes hpasses with heq | ⟨session, rest, hphase, heq⟩
    · rw [heq]
      exact h
    · rw [heq]
      refine h.same rfl (fun _ hn => hn) rfl rfl rfl fun r hr => .inl ?_
      rw [hphase]
      exact List.mem_cons_of_mem _ hr

theorem known_step (h : s.Known) (i : Input) : (s.step i).Known := by
  cases i with
  | launch m => exact known_launch h m
  | save m session => exact known_save h m session
  | vanish m =>
    exact h.same rfl (fun n hn => List.mem_of_mem_filter hn) rfl rfl rfl fun r hr => .inl hr
  | list answer =>
    show (s.list answer).Known
    unfold list
    split
    · rcases answer with error | unsearched
      · exact h.same rfl (fun _ hn => hn) rfl rfl rfl fun r hr => .inl hr
      · exact h.same rfl (fun _ hn => hn) rfl rfl rfl fun r hr => absurd hr List.not_mem_nil
    · exact h
  | destroy answer gone =>
    show (s.destroy answer gone).Known
    unfold destroy
    split
    · refine h.same rfl (fun m hm => ?_) rfl rfl rfl fun r hr => absurd hr List.not_mem_nil
      simp only at hm
      split_ifs at hm
      · exact List.mem_of_mem_filter hm
      · exact hm
    · exact h
  | firewalls answer =>
    show (s.firewalls answer).Known
    unfold firewalls
    split
    · exact h.same rfl (fun _ hn => hn) rfl rfl rfl fun r hr => absurd hr List.not_mem_nil
    · exact h
  | load readable =>
    show (s.load readable).Known
    unfold load
    split
    · refine h.same rfl (fun _ hn => hn) rfl rfl rfl fun r hr => .inr ?_
      exact List.mem_of_mem_filter ((List.mergeSort_perm _ _).mem_iff.mp hr)
    · exact h
  | judge now write => exact known_judge h now write

theorem Told.same {t : Fleet} (h : s.Told) (hreport : t.report = s.report)
    (htodo : t.todo = s.todo) (hlisted : t.listed = s.listed)
    (hphase : ∀ source left, t.phase = .destroying source left → s.phase = t.phase)
    (hleft : t.phase.left = s.phase.left) (hlaunched : ∀ m ∈ s.launched, m ∈ t.launched)
    (hlive : ∀ m ∈ t.live, m ∈ s.live ∨ ∀ n ∈ s.launched, n.body ≠ m.body) : t.Told where
  names := by
    rw [hlisted, htodo]
    exact h.names
  searches := by
    rw [hreport, hlisted]
    exact h.searches
  sources e he := by
    obtain ⟨source, hname, hkind, hall⟩ := h.sources e (hlisted ▸ he)
    exact ⟨source, hname, hkind, fun m hm => ⟨hlaunched m (hall m hm).1, (hall m hm).2⟩⟩
  covered e he hcomplete m hm := by
    rw [hreport, hleft]
    exact h.covered e (hlisted ▸ he) hcomplete m hm
  sound i hi := by
    rw [hreport, hleft] at hi
    rw [hlisted]
    exact h.sound i hi
  here source left hdestroying i hi := by
    obtain ⟨m, hm, hbody⟩ := h.here source left ((hphase source left hdestroying).trans
      hdestroying) i hi
    exact ⟨m, hlaunched m hm, hbody⟩
  gone i hi := by
    obtain ⟨⟨m, hm, hbody⟩, hgone⟩ := h.gone i (hreport ▸ hi)
    refine ⟨⟨m, hlaunched m hm, hbody⟩, fun n hn => ?_⟩
    rcases hlive n hn with hn | hn
    · exact hgone n hn
    · exact fun heq => hn m hm (hbody.trans heq.symm)

theorem told_launch (h : s.Told) (m : Machine) : (s.launch m).Told := by
  unfold launch
  split_ifs with hused
  · exact h
  refine h.same rfl rfl rfl (fun _ _ _ => rfl) rfl ?_ ?_
  · exact fun n hn => List.mem_append_left _ hn
  · intro n hn
    rcases List.mem_append.mp hn with hn | hn
    · exact .inl hn
    · refine .inr fun k hk heq => hused (List.mem_map.mpr ⟨k, hk, ?_⟩)
      rw [Machine.key, heq, List.mem_singleton.mp hn]
      rfl

theorem told_list (hk : s.Known) (h : s.Told) (answer : Except ProviderError (List RegionId)) :
    (s.list answer).Told := by
  unfold list
  split
  swap
  · exact h
  rename_i source todo hphase htodo
  have hleft : s.phase.left = [] := by rw [hphase]; rfl
  have hnames := h.names
  rw [htodo, List.map_cons] at hnames
  rcases answer with error | unsearched
  · refine ⟨?_, h.searches, h.sources, h.covered, h.sound, h.here, h.gone⟩
    exact hnames.sublist (List.Sublist.append_left (List.sublist_cons_self _ _) _)
  -- Nothing is left of the listing before, and all the new one shows is still to be swept.
  have hfound : s.report.found ++ s.phase.left = s.report.found := by
    rw [hleft, List.append_nil]
  have hthere : ∀ m ∈ s.live.filter (fun m => m.source = source),
      m ∈ s.launched ∧ m.source = source := fun m hm =>
    ⟨hk.live m (List.mem_of_mem_filter hm), by simpa using List.of_mem_filter hm⟩
  refine ⟨?_, ?_, ?_, ?_, ?_, ?_, h.gone⟩
  · rw [List.map_append, List.append_assoc]
    exact hnames
  · show s.report.searches ++ [_] = _
    rw [h.searches, List.map_append]
    rfl
  · refine List.forall_mem_append.mpr ⟨h.sources, List.forall_mem_singleton.mpr ?_⟩
    exact ⟨source, rfl, rfl, hthere⟩
  · refine List.forall_mem_append.mpr ⟨fun e he hcomplete m hm => ?_,
      List.forall_mem_singleton.mpr fun hcomplete m hm => ?_⟩
    · exact List.mem_append_left _ (hfound ▸ h.covered e he hcomplete m hm)
    · refine List.mem_append_right _ (List.mem_map.mpr ⟨m, List.mem_filter.mpr ⟨hm, ?_⟩, rfl⟩)
      have hempty : unsearched = [] := List.isEmpty_iff.mp hcomplete
      rw [hempty]
      rfl
  · intro i hi
    rcases List.mem_append.mp hi with hi | hi
    · obtain ⟨e, he, hm⟩ := h.sound i (List.mem_append_left _ hi)
      exact ⟨e, List.mem_append_left _ he, hm⟩
    · obtain ⟨m, hm, rfl⟩ := List.mem_map.mp hi
      exact ⟨_, List.mem_append_right _ (List.mem_singleton.mpr rfl), m,
        List.mem_of_mem_filter hm, rfl⟩
  · intro source' left hdestroying i hi
    obtain ⟨rfl, rfl⟩ := Phase.destroying.inj hdestroying
    obtain ⟨m, hm, rfl⟩ := List.mem_map.mp hi
    obtain ⟨hlaunched, hsource⟩ := hthere m (List.mem_of_mem_filter hm)
    exact ⟨m, hlaunched, hsource, rfl⟩

theorem told_destroy (hk : s.Known) (h : s.Told) (answer : Except ProviderError Unit)
    (gone : Bool) : (s.destroy answer gone).Told := by
  unfold destroy
  split
  swap
  · exact h
  rename_i source i left hphase
  have hleft : s.phase.left = i :: left := by rw [hphase]; rfl
  have hshown : (s.report.swept i answer).found ++ left = s.report.found ++ s.phase.left := by
    rw [SweepReport.found_swept, hleft, List.append_assoc]
    rfl
  have hkept : ∀ m, m ∈ (if answer.isOk || gone then
      s.live.filter fun m => !(m.source = source && m.body.id = i.id) else s.live) →
        m ∈ s.live := by
    intro m hm
    split_ifs at hm
    · exact List.mem_of_mem_filter hm
    · exact hm
  refine ⟨h.names, ?_, h.sources, ?_, ?_, ?_, ?_⟩
  · rw [SweepReport.searches_swept]
    exact h.searches
  · intro e he hcomplete m hm
    show m.body ∈ (s.report.swept i answer).found ++ left
    rw [hshown]
    exact h.covered e he hcomplete m hm
  · intro j hj
    have hold : j ∈ s.report.found ++ s.phase.left := hshown ▸ hj
    exact h.sound j hold
  · intro source' left' hdestroying j hj
    obtain ⟨rfl, rfl⟩ := Phase.destroying.inj hdestroying
    exact h.here source (i :: left) hphase j (List.mem_cons_of_mem _ hj)
  · intro j hj
    rw [SweepReport.destroyed_swept] at hj
    rcases List.mem_append.mp hj with hj | hj
    · exact ⟨(h.gone j hj).1, fun m hm => (h.gone j hj).2 m (hkept m hm)⟩
    · split_ifs at hj with hok
      · rw [List.mem_singleton.mp hj]
        obtain ⟨m, hm, hsource, hbody⟩ := h.here source (i :: left) hphase i List.mem_cons_self
        refine ⟨⟨m, hm, hbody⟩, fun n hn heq => ?_⟩
        -- A machine with this body is the one the provider was asked to destroy.
        have hsame : n = m := hk.eq_of_key (hk.live n (hkept n hn)) hm (by
          rw [Machine.key, Machine.key, heq, hbody])
        have htaken : (answer.isOk || gone) = true := by rw [hok]; rfl
        simp only [htaken, if_true] at hn
        have hspared := List.of_mem_filter hn
        rw [hsame, hsource, hbody] at hspared
        simp at hspared
      · exact absurd hj List.not_mem_nil

theorem told_judge (h : s.Told) (now : ℕ) (write : Except CliError Unit) :
    (s.judge now write).Told := by
  have hpassed : ∀ {session : SessionState} {rest : List SessionState} {t : Fleet},
      s.phase = .judging (session :: rest) → t.phase = .judging rest →
        t.report = s.report → t.todo = s.todo → t.listed = s.listed → t.launched = s.launched →
          t.live = s.live → t.Told := by
    intro session rest t hphase hrest hreport htodo hlisted hlaunched hlive
    refine h.same hreport htodo hlisted ?_ ?_ ?_ ?_
    · intro source left hdestroying
      exact nomatch hrest.symm.trans hdestroying
    · rw [hrest, hphase]
      rfl
    · exact fun m hm => hlaunched ▸ hm
    · exact fun m hm => .inl (hlive ▸ hm)
  rcases judge_cases s now write with ⟨session, rest, ended, hphase, rfl, hended⟩ | hpasses
  · rw [judge_closes hphase hended]
    exact hpassed hphase rfl rfl rfl rfl rfl rfl
  · rcases judge_passes hpasses with heq | ⟨session, rest, hphase, heq⟩
    · rw [heq]
      exact h
    · rw [heq]
      exact hpassed hphase rfl rfl rfl rfl rfl rfl

theorem told_firewalls (h : s.Told) (answer : Except ProviderError (List String)) :
    (s.firewalls answer).Told := by
  unfold firewalls
  split
  swap
  · exact h
  rename_i source hphase
  have hleft : s.phase.left = [] := by rw [hphase]; rfl
  have hfound : (s.report.cleaned answer).found ++ [] = s.report.found ++ s.phase.left := by
    rw [SweepReport.found_cleaned, hleft]
  refine ⟨h.names, ?_, h.sources, ?_, ?_, (fun _ _ hdestroying => nomatch hdestroying), ?_⟩
  · rw [SweepReport.searches_cleaned]
    exact h.searches
  · intro e he hcomplete m hm
    have hold := h.covered e he hcomplete m hm
    exact hfound ▸ hold
  · intro i hi
    have hold : i ∈ s.report.found ++ s.phase.left := hfound ▸ hi
    exact h.sound i hold
  · rw [SweepReport.destroyed_cleaned]
    exact h.gone

theorem told_step (hk : s.Known) (h : s.Told) (i : Input) : (s.step i).Told := by
  cases i with
  | launch m => exact told_launch h m
  | save m session =>
    show (s.save m session).Told
    unfold save
    split_ifs
    · exact h.same rfl rfl rfl (fun _ _ _ => rfl) rfl (fun _ hm => hm) fun _ hm => .inl hm
    · exact h
  | vanish m =>
    exact h.same rfl rfl rfl (fun _ _ _ => rfl) rfl (fun _ hm => hm) fun _ hm =>
      .inl (List.mem_of_mem_filter hm)
  | list answer => exact told_list hk h answer
  | destroy answer gone => exact told_destroy hk h answer gone
  | firewalls answer => exact told_firewalls h answer
  | load readable =>
    show (s.load readable).Told
    unfold load
    split
    · rename_i hphase htodo
      refine h.same rfl rfl rfl (fun _ _ h => nomatch h) ?_ (fun _ hm => hm) fun _ hm => .inl hm
      rw [hphase]
      rfl
    · exact h
  | judge now write => exact told_judge h now write

theorem NoneLive.same {t : Fleet} (hn : s.NoneLive) (hclosed : t.closed = s.closed)
    (hlive : ∀ m ∈ t.live, m ∈ s.live) : t.NoneLive := by
  intro r hr
  rintro ⟨m, hm, hof⟩
  exact hn r (hclosed ▸ hr) ⟨m, hlive m hm, hof⟩

theorem noneLive_launch (hk : s.Known) (hn : s.NoneLive) (m : Machine) :
    (s.launch m).NoneLive := by
  unfold launch
  split_ifs with hused
  · exact hn
  intro r hr
  rintro ⟨n, hlive, hof⟩
  rcases List.mem_append.mp hlive with hold | hnew
  · exact hn r hr ⟨n, hold, hof⟩
  · obtain ⟨k, hk, hofk⟩ := hk.closed r hr
    rw [List.mem_singleton.mp hnew] at hof
    exact hused (List.mem_map.mpr ⟨k, hk, key_eq_of_of hofk hof⟩)

theorem noneLive_step (hk : s.Known) (hn : s.NoneLive) {i : Input}
    (hi : ∀ now write, i ≠ .judge now write) : (s.step i).NoneLive := by
  cases i with
  | launch m => exact noneLive_launch hk hn m
  | save m session =>
    show (s.save m session).NoneLive
    unfold save
    split_ifs
    · exact hn.same rfl fun _ hm => hm
    · exact hn
  | vanish m => exact hn.same rfl fun _ hm => List.mem_of_mem_filter hm
  | list answer =>
    show (s.list answer).NoneLive
    unfold list
    split
    · rcases answer with error | unsearched
      · exact hn.same rfl fun _ hm => hm
      · exact hn.same rfl fun _ hm => hm
    · exact hn
  | destroy answer gone =>
    show (s.destroy answer gone).NoneLive
    unfold destroy
    split
    · refine hn.same rfl fun m hm => ?_
      simp only at hm
      split_ifs at hm
      · exact List.mem_of_mem_filter hm
      · exact hm
    · exact hn
  | firewalls answer =>
    show (s.firewalls answer).NoneLive
    unfold firewalls
    split
    · exact hn.same rfl fun _ hm => hm
    · exact hn
  | load readable =>
    show (s.load readable).NoneLive
    unfold load
    split
    · exact hn.same rfl fun _ hm => hm
    · exact hn
  | judge now write => exact absurd rfl (hi now write)

theorem noneLive_judge_iff (hk : s.Known) (ht : s.Told) (hn : s.NoneLive) (now : ℕ)
    (write : Except CliError Unit) :
    (s.judge now write).NoneLive ↔ s.Vouched (.judge now write) := by
  rcases judge_cases s now write with ⟨session, rest, ended, hphase, rfl, hended⟩ | hpasses
  · have hcloses : (s.judge now (.ok ())).NoneLive ↔ ¬s.Exists session := by
      have hsame : s.Exists ended ↔ s.Exists session :=
        exists_congr fun m => and_congr_right fun _ => of_reconciled hended m
      rw [judge_closes hphase hended, ← hsame]
      constructor
      · exact fun h => h ended (List.mem_append_right _ (List.mem_singleton.mpr rfl))
      · exact fun h => List.forall_mem_append.mpr ⟨hn, List.forall_mem_singleton.mpr h⟩
    rw [hcloses]
    constructor
    · intro hgone session' rest' hphase' _ hexists
      obtain ⟨rfl, rfl⟩ := List.cons.inj (Phase.judging.inj (hphase.symm.trans hphase'))
      exact absurd hexists hgone
    · intro hvouched hexists
      have hsome : (reconciled s.report now session).isSome := hended ▸ rfl
      obtain ⟨hrunning, search, hsearch, hcomplete, hnot⟩ :=
        (reconciled_isSome_iff hk ht hphase hexists now).mp hsome
      exact hnot (hvouched session rest hphase hrunning hexists search hsearch hcomplete)
  · have hkept : (s.judge now write).NoneLive := by
      rcases judge_passes hpasses with heq | ⟨session, rest, hphase, heq⟩
      · rw [heq]
        exact hn
      · rw [heq]
        exact hn.same rfl fun _ hm => hm
    apply iff_of_true hkept
    rcases write with error | _
    · trivial
    · intro session rest hphase hrunning hexists search hsearch hcomplete
      by_contra hnot
      have hsome := (reconciled_isSome_iff hk ht hphase hexists now).mpr
        ⟨hrunning, search, hsearch, hcomplete, hnot⟩
      rw [hpasses session rest hphase rfl] at hsome
      exact absurd hsome Bool.false_ne_true

/-- Where a sweep starts: machines launched before, some of them gone by now, records of
them, and the providers it is given, each once. -/
structure Opening where
  launched : List Machine
  keys : (launched.map Machine.key).Nodup
  gone : List Machine
  unrecorded : List Machine
  records : List {session : SessionState // ∃ m ∈ launched, Of session m}
  providers : List Source
  once : providers.Nodup

def Opening.start (o : Opening) : Fleet where
  live := o.launched.filter fun m => m ∉ o.gone
  pending := o.launched.filter fun m => m ∈ o.unrecorded
  records := o.records.map Subtype.val
  todo := o.providers
  phase := .listing
  report := .empty
  launched := o.launched
  listed := []
  closed := []

theorem Opening.known (o : Opening) : o.start.Known where
  keys := o.keys
  live m hm := List.mem_of_mem_filter hm
  pending m hm := List.mem_of_mem_filter hm
  records r hr := by
    obtain ⟨session, -, rfl⟩ := List.mem_map.mp hr
    exact session.2
  loaded r hr := absurd hr List.not_mem_nil
  closed r hr := absurd hr List.not_mem_nil

theorem Opening.told (o : Opening) : o.start.Told where
  names := o.once.map Source.name_injective
  searches := rfl
  sources e he := absurd he List.not_mem_nil
  covered e he := absurd he List.not_mem_nil
  sound i hi := absurd hi List.not_mem_nil
  here source left h := nomatch h
  gone i hi := absurd hi List.not_mem_nil

/-- No record of a machine that exists is ever closed exactly when each record judged is of a
machine its provider was asked about. -/
theorem noneLive_iff (o : Opening) (inputs : List Input) :
    Throughout step NoneLive o.start inputs ↔ Meets step Vouched o.start inputs := by
  have hjudge : ∀ (s : Fleet) (i : Input), (s.Known ∧ s.Told) ∧ s.NoneLive →
      ((s.step i).NoneLive ↔ s.Vouched i) := by
    rintro s i ⟨⟨hk, ht⟩, hn⟩
    cases i with
    -- only the judgement of a listing closes records; every other step leaves the live ones be
    | judge now write => exact noneLive_judge_iff hk ht hn now write
    | _ => exact iff_of_true (noneLive_step hk hn fun _ _ h => nomatch h) trivial
  apply throughout_iff_meets (I := fun s => (s.Known ∧ s.Told) ∧ s.NoneLive)
  · exact fun s h => h.2
  · exact fun s i h hc => ⟨⟨known_step h.1.1 i, told_step h.1.1 h.1.2 i⟩, (hjudge s i h).mpr hc⟩
  · exact fun s i h hn => (hjudge s i h).mp hn
  · exact ⟨⟨o.known, o.told⟩, fun r hr => absurd hr List.not_mem_nil⟩

section late

def lateMachine : Machine := ⟨.real .aws, ⟨.aws, "us-east-1", "i-1", none, []⟩, rfl⟩

def lateSession : SessionState :=
  ⟨"5e55101d", "aws", "us-east-1", "i-1", 0, "key", .running, none⟩

def lateOpening : Opening :=
  ⟨[], List.nodup_nil, [], [], [], [.real .aws], List.nodup_singleton _⟩

/-- AWS lists nothing, then a host launches a machine and records it, and the sweep goes on to
the records. -/
def lateInputs : List Input :=
  [.list (.ok []), .launch lateMachine, .save lateMachine lateSession, .firewalls (.ok []),
    .load fun _ => true, .judge 60 (.ok ())]

theorem run_late : run step lateOpening.start lateInputs =
    { live := [lateMachine]
      pending := []
      records := [lateSession.markEndedUnlisted 60]
      todo := []
      phase := .judging []
      report := ⟨[], [], [], [], [⟨"aws", .aws, []⟩], []⟩
      launched := [lateMachine]
      listed := [(⟨"aws", .aws, []⟩, [])]
      closed := [lateSession.markEndedUnlisted 60] } := by
  have hof : Of lateSession lateMachine := ⟨resolve_name (.real .aws), rfl⟩
  have hended : reconciled ⟨[], [], [], [], [⟨"aws", .aws, []⟩], []⟩ 60 lateSession =
      some (lateSession.markEndedUnlisted 60) := by decide +kernel
  simp only [lateInputs, run_cons, run_nil, step]
  have hlaunch : (lateOpening.start.list (.ok [])).launch lateMachine =
      { live := [lateMachine]
        pending := [lateMachine]
        records := []
        todo := []
        phase := .destroying (.real .aws) []
        report := ⟨[], [], [], [], [⟨"aws", .aws, []⟩], []⟩
        launched := [lateMachine]
        listed := [(⟨"aws", .aws, []⟩, [])]
        closed := [] } := if_neg List.not_mem_nil
  rw [hlaunch, save, if_pos ⟨List.mem_singleton.mpr rfl, hof⟩]
  simp only [firewalls, load, List.erase_cons_head, List.filter_nil, List.nil_append,
    List.filter_cons_of_pos, List.mergeSort_singleton, SweepReport.cleaned]
  rw [judge_closes rfl hended]
  rfl

theorem noneLive_late : ¬Throughout step NoneLive lateOpening.start lateInputs := by
  intro h
  have hnone := h.last
  rw [run_late] at hnone
  refine hnone (lateSession.markEndedUnlisted 60) (List.mem_singleton.mpr rfl)
    ⟨lateMachine, List.mem_singleton.mpr rfl, ?_⟩
  exact ⟨resolve_name (.real .aws), rfl⟩

end late

end Fleet
end JamStream.Cli
