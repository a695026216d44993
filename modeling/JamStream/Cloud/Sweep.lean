import JamStream.Cloud.Ingress
import JamStream.Cloud.Sweeper

/-! A sweep over any providers, whatever they answer: which machines it takes down, and what its
report may be trusted with. Then the closing of a session's firewall, for any provider. -/

namespace JamStream.Cloud

inductive SweepFilter
  | all
  | session (id : String)
  | excluding (id : String)

def SweepFilter.matches (filter : SweepFilter) (i : Instance) : Bool :=
  match filter with
  | .all => true
  | .session id => i.sessionId = some id
  | .excluding id => i.sessionId ≠ some id

/-- A provider, and what it answers while it is swept: its listing, each destroy in turn, and
the deletion of firewalls with no machine behind them. -/
structure Visit where
  name : String
  kind : ProviderKind
  listing : Except ProviderError Listing
  destroy : ℕ → Except ProviderError Unit
  firewalls : Except ProviderError (List String)

inductive SweepCall
  | destroy (provider : String) (i : Instance)
  | destroyOrphanFirewalls (provider : String)
deriving DecidableEq

namespace SweepReport

def spotted (report : SweepReport) (i : Instance) : SweepReport :=
  { report with found := report.found ++ [i] }

def isClean (report : SweepReport) : Bool :=
  report.failed.isEmpty && report.unswept.isEmpty && report.searches.all ProviderSearch.isComplete

end SweepReport

namespace Visit

def sweepInstances (v : Visit) (dryRun : Bool) :
    ℕ → List Instance → SweepReport → List SweepCall × SweepReport
  | _, [], report => ([], report)
  | n, i :: rest, report =>
    if dryRun then v.sweepInstances dryRun n rest (report.spotted i)
    else
      let swept := v.sweepInstances dryRun (n + 1) rest (report.swept i (v.destroy n))
      (.destroy v.name i :: swept.1, swept.2)

def sweep (v : Visit) (filter : SweepFilter) (dryRun : Bool) (report : SweepReport) :
    List SweepCall × SweepReport :=
  match v.listing with
  | .error error => ([], { report with unswept := report.unswept ++ [(v.name, error)] })
  | .ok listing =>
    let swept := v.sweepInstances dryRun 0 (listing.instances.filter filter.matches)
      (report.searched ⟨v.name, v.kind, listing.unsearched⟩)
    if dryRun then swept
    else (swept.1 ++ [.destroyOrphanFirewalls v.name], swept.2.cleaned v.firewalls)

def matching (v : Visit) (filter : SweepFilter) : List Instance :=
  match v.listing with
  | .error _ => []
  | .ok listing => listing.instances.filter filter.matches

/-- The instances, and the answers to their destroys from the `n`th on. -/
def answered (v : Visit) : ℕ → List Instance → List (Instance × Except ProviderError Unit)
  | _, [] => []
  | n, i :: is => (i, v.destroy n) :: v.answered (n + 1) is

def outcomes (v : Visit) (filter : SweepFilter) : List (Instance × Except ProviderError Unit) :=
  v.answered 0 (v.matching filter)

/-- What a sweep asks of it: a destroy for each matching instance, and then the firewalls. -/
def asked (v : Visit) (filter : SweepFilter) : List SweepCall :=
  match v.listing with
  | .error _ => []
  | .ok _ => (v.matching filter).map (.destroy v.name) ++ [.destroyOrphanFirewalls v.name]

def Listed (v : Visit) : Prop := ∃ listing, v.listing = .ok listing ∧ listing.isComplete

end Visit

def sweepAll (filter : SweepFilter) (dryRun : Bool) :
    List Visit → SweepReport → List SweepCall × SweepReport
  | [], report => ([], report)
  | v :: visits, report =>
    let swept := v.sweep filter dryRun report
    let rest := sweepAll filter dryRun visits swept.2
    (swept.1 ++ rest.1, rest.2)

def sweep (visits : List Visit) (filter : SweepFilter) (dryRun : Bool) :
    List SweepCall × SweepReport :=
  sweepAll filter dryRun visits .empty

def matching (filter : SweepFilter) (visits : List Visit) : List Instance :=
  visits.flatMap fun v => v.matching filter

def outcomes (filter : SweepFilter) (visits : List Visit) :
    List (Instance × Except ProviderError Unit) :=
  visits.flatMap fun v => v.outcomes filter

/-- The instance of a destroy that was answered `Ok`, and the error of one that was not. -/
def gone : Instance × Except ProviderError Unit → Option Instance
  | (i, .ok _) => some i
  | (_, .error _) => none

def refusal : Instance × Except ProviderError Unit → Option (Instance × ProviderError)
  | (_, .ok _) => none
  | (i, .error error) => some (i, error)

theorem map_answered (v : Visit) (n : ℕ) (is : List Instance) :
    (v.answered n is).map Prod.fst = is := by
  induction is generalizing n with
  | nil => rfl
  | cons i is ih => exact congrArg (i :: ·) (ih (n + 1))

theorem map_outcomes (filter : SweepFilter) (visits : List Visit) :
    (outcomes filter visits).map Prod.fst = matching filter visits := by
  rw [outcomes, List.map_flatMap]
  exact congrArg (visits.flatMap ·) (funext fun v => map_answered v 0 (v.matching filter))

theorem parted (os : List (Instance × Except ProviderError Unit)) :
    (os.filterMap gone ++ (os.filterMap refusal).map Prod.fst).Perm (os.map Prod.fst) := by
  induction os with
  | nil => exact .nil
  | cons o os ih =>
    rcases o with ⟨i, error | _⟩
    · exact List.perm_middle.trans (ih.cons i)
    · exact ih.cons i

theorem filterMap_refusal_eq_nil (os : List (Instance × Except ProviderError Unit)) :
    os.filterMap refusal = [] ↔ ∀ o ∈ os, o.2 = .ok () := by
  rw [List.filterMap_eq_nil_iff]
  refine forall₂_congr fun o _ => ?_
  rcases o with ⟨i, error | _⟩
  · exact iff_of_false (Option.some_ne_none _) fun h => nomatch h
  · exact iff_of_true rfl rfl

/-! ## What a report has more than before -/

/-- The report has these instances more, with what their destroys came to, and these listings more
that failed or were made. -/
structure Adds (report report' : SweepReport) (os : List (Instance × Except ProviderError Unit))
    (unswept : ℕ) (complete : Prop) : Prop where
  found : report'.found = report.found ++ os.map Prod.fst
  destroyed : report'.destroyed = report.destroyed ++ os.filterMap gone
  failed : report'.failed = report.failed ++ os.filterMap refusal
  unlisted : report'.unswept.length = report.unswept.length + unswept
  searches : report'.searches.all ProviderSearch.isComplete ↔
    report.searches.all ProviderSearch.isComplete ∧ complete

variable {report report' report'' : SweepReport}
  {os os' : List (Instance × Except ProviderError Unit)} {unswept unswept' : ℕ}
  {complete complete' : Prop} {filter : SweepFilter}

theorem listed_ok_iff (listing : Listing) :
    (∃ l, (.ok listing : Except ProviderError Listing) = .ok l ∧ l.isComplete) ↔
      listing.isComplete := by
  constructor
  · rintro ⟨_, hsame, hcomplete⟩
    obtain rfl := Except.ok.inj hsame
    exact hcomplete
  · exact fun hcomplete => ⟨listing, rfl, hcomplete⟩

theorem not_listed_error (error : ProviderError) :
    ¬∃ l, (.error error : Except ProviderError Listing) = .ok l ∧ l.isComplete := by
  rintro ⟨l, hlisting, -⟩
  cases hlisting

namespace Adds

theorem refl (report : SweepReport) : Adds report report [] 0 True where
  found := (List.append_nil _).symm
  destroyed := (List.append_nil _).symm
  failed := (List.append_nil _).symm
  unlisted := rfl
  searches := (and_iff_left trivial).symm

theorem trans (h : Adds report report' os unswept complete)
    (h' : Adds report' report'' os' unswept' complete') :
    Adds report report'' (os ++ os') (unswept + unswept') (complete ∧ complete') where
  found := by rw [h'.found, h.found, List.map_append, List.append_assoc]
  destroyed := by rw [h'.destroyed, h.destroyed, List.filterMap_append, List.append_assoc]
  failed := by rw [h'.failed, h.failed, List.filterMap_append, List.append_assoc]
  unlisted := by rw [h'.unlisted, h.unlisted, Nat.add_assoc]
  searches := by rw [h'.searches, h.searches, and_assoc]

theorem swept (report : SweepReport) (i : Instance) (answer : Except ProviderError Unit) :
    Adds report (report.swept i answer) [(i, answer)] 0 True := by
  rcases answer with error | _
  · exact ⟨rfl, (List.append_nil _).symm, rfl, rfl, (and_iff_left trivial).symm⟩
  · exact ⟨rfl, rfl, (List.append_nil _).symm, rfl, (and_iff_left trivial).symm⟩

theorem cleaned (h : Adds report report' os unswept complete)
    (answer : Except ProviderError (List String)) :
    Adds report (report'.cleaned answer) os unswept complete := by
  rcases answer with error | names
  · exact h
  · exact ⟨h.found, h.destroyed, h.failed, h.unlisted, h.searches⟩

theorem sweepInstances (v : Visit) (n : ℕ) (is : List Instance) (report : SweepReport) :
    Adds report (v.sweepInstances false n is report).2 (v.answered n is) 0 True := by
  induction is generalizing n report with
  | nil => exact refl report
  | cons i is ih =>
    have hboth := (swept report i (v.destroy n)).trans (ih (n + 1) _)
    rw [and_true] at hboth
    exact hboth

theorem searched (report : SweepReport) (search : ProviderSearch) :
    Adds report (report.searched search) [] 0 search.isComplete := by
  refine ⟨(List.append_nil _).symm, (List.append_nil _).symm, (List.append_nil _).symm, rfl, ?_⟩
  show (report.searches ++ [search]).all _ = true ↔ _
  rw [List.all_append, Bool.and_eq_true, List.all_cons, List.all_nil, Bool.and_true]

theorem sweep (v : Visit) (filter : SweepFilter) (report : SweepReport) :
    ∃ unswept complete, Adds report (v.sweep filter false report).2 (v.outcomes filter) unswept
      complete ∧ (unswept = 0 ∧ complete ↔ v.Listed) := by
  unfold Visit.sweep Visit.outcomes Visit.matching Visit.Listed
  cases v.listing with
  | error error =>
    refine ⟨1, True, ⟨(List.append_nil _).symm, (List.append_nil _).symm,
      (List.append_nil _).symm, ?_, (and_iff_left trivial).symm⟩, ?_⟩
    · exact List.length_append
    · exact iff_of_false (fun h => absurd h.1 Nat.one_ne_zero) (not_listed_error error)
  | ok listing =>
    refine ⟨0, listing.isComplete, ?_, ?_⟩
    · have hboth := (searched report ⟨v.name, v.kind, listing.unsearched⟩).trans
        (sweepInstances v 0 (listing.instances.filter filter.matches) _)
      rw [and_true] at hboth
      exact hboth.cleaned v.firewalls
    · exact (and_iff_right rfl).trans (listed_ok_iff listing).symm

theorem sweepAll (filter : SweepFilter) (visits : List Visit) (report : SweepReport) :
    ∃ unswept complete, Adds report (Cloud.sweepAll filter false visits report).2
      (Cloud.outcomes filter visits) unswept complete ∧
        (unswept = 0 ∧ complete ↔ ∀ v ∈ visits, v.Listed) := by
  induction visits generalizing report with
  | nil =>
    exact ⟨0, True, refl report, iff_of_true ⟨rfl, trivial⟩ fun _ h => absurd h List.not_mem_nil⟩
  | cons v visits ih =>
    obtain ⟨unswept, complete, hfirst, hlisted⟩ := sweep v filter report
    obtain ⟨unswept', complete', hrest, hlisted'⟩ := ih (v.sweep filter false report).2
    refine ⟨_, _, hfirst.trans hrest, ?_⟩
    rw [List.forall_mem_cons, ← hlisted, ← hlisted', Nat.add_eq_zero_iff]
    exact and_and_and_comm

end Adds

theorem sweep_adds (visits : List Visit) (filter : SweepFilter) :
    ∃ unswept complete, Adds .empty (sweep visits filter false).2 (outcomes filter visits) unswept
      complete ∧ (unswept = 0 ∧ complete ↔ ∀ v ∈ visits, v.Listed) :=
  Adds.sweepAll filter visits .empty

theorem reported (visits : List Visit) (filter : SweepFilter) :
    (sweep visits filter false).2.found = matching filter visits ∧
    (sweep visits filter false).2.destroyed = (outcomes filter visits).filterMap gone ∧
    (sweep visits filter false).2.failed = (outcomes filter visits).filterMap refusal := by
  obtain ⟨unswept, complete, hadds, -⟩ := sweep_adds visits filter
  exact ⟨hadds.found.trans (map_outcomes filter visits), hadds.destroyed, hadds.failed⟩

theorem reported_once (visits : List Visit) (filter : SweepFilter) :
    ((sweep visits filter false).2.destroyed ++
      (sweep visits filter false).2.failed.map Prod.fst).Perm (matching filter visits) := by
  obtain ⟨-, hdestroyed, hfailed⟩ := reported visits filter
  rw [hdestroyed, hfailed, ← map_outcomes]
  exact parted _

theorem isClean_iff_real (visits : List Visit) (filter : SweepFilter) :
    (sweep visits filter false).2.isClean ↔ (∀ v ∈ visits, v.Listed) ∧
      ∀ o ∈ outcomes filter visits, o.2 = .ok () := by
  obtain ⟨unswept, complete, hadds, hlisted⟩ := sweep_adds visits filter
  have hunswept : (sweep visits filter false).2.unswept = [] ↔ unswept = 0 := by
    rw [← List.length_eq_zero_iff, hadds.unlisted]
    exact Iff.of_eq (congrArg (· = 0) (Nat.zero_add unswept))
  have hsearched : (sweep visits filter false).2.searches.all ProviderSearch.isComplete ↔
      complete := hadds.searches.trans (and_iff_right rfl)
  have hnone : (sweep visits filter false).2.failed = [] ↔
      ∀ o ∈ outcomes filter visits, o.2 = .ok () := by
    rw [(reported visits filter).2.2, filterMap_refusal_eq_nil]
  unfold SweepReport.isClean
  rw [Bool.and_eq_true, Bool.and_eq_true, List.isEmpty_iff, List.isEmpty_iff, hsearched, hnone,
    hunswept, ← hlisted]
  exact ⟨fun ⟨⟨hall, hzero⟩, hcomplete⟩ => ⟨⟨hzero, hcomplete⟩, hall⟩,
    fun ⟨⟨hzero, hcomplete⟩, hall⟩ => ⟨⟨hall, hzero⟩, hcomplete⟩⟩

/-! ## What a sweep asks for -/

theorem matches_of_mem_matching {i : Instance} {visits : List Visit}
    (h : i ∈ matching filter visits) : filter.matches i := by
  obtain ⟨v, -, hi⟩ := List.mem_flatMap.mp h
  unfold Visit.matching at hi
  cases hlisting : v.listing with
  | error error =>
    rw [hlisting] at hi
    exact absurd hi List.not_mem_nil
  | ok listing =>
    rw [hlisting] at hi
    exact (List.mem_filter.mp hi).2

theorem calls_sweepInstances (v : Visit) (n : ℕ) (is : List Instance) (report : SweepReport) :
    (v.sweepInstances false n is report).1 = is.map (.destroy v.name) := by
  induction is generalizing n report with
  | nil => rfl
  | cons i is ih => exact congrArg (SweepCall.destroy v.name i :: ·) (ih _ _)

theorem calls_sweep (v : Visit) (filter : SweepFilter) (report : SweepReport) :
    (v.sweep filter false report).1 = v.asked filter := by
  unfold Visit.sweep Visit.asked Visit.matching
  cases v.listing with
  | error error => rfl
  | ok listing => exact congrArg (· ++ _) (calls_sweepInstances v 0 _ _)

theorem calls_sweepAll (filter : SweepFilter) (visits : List Visit) (report : SweepReport) :
    (sweepAll filter false visits report).1 = visits.flatMap fun v => v.asked filter := by
  induction visits generalizing report with
  | nil => rfl
  | cons v visits ih => exact congrArg₂ (· ++ ·) (calls_sweep v filter report) (ih _)

theorem mem_matching_of_asked {visits : List Visit} {provider : String} {i : Instance}
    (h : .destroy provider i ∈ visits.flatMap fun v => v.asked filter) :
    i ∈ matching filter visits := by
  obtain ⟨v, hv, hi⟩ := List.mem_flatMap.mp h
  refine List.mem_flatMap.mpr ⟨v, hv, ?_⟩
  unfold Visit.asked at hi
  split at hi
  · exact absurd hi List.not_mem_nil
  · rcases List.mem_append.mp hi with hi | hi
    · obtain ⟨j, hj, heq⟩ := List.mem_map.mp hi
      rw [(SweepCall.destroy.inj heq).2] at hj
      exact hj
    · cases List.mem_singleton.mp hi

/-! ## A dry run -/

structure LooksOnly (report report' : SweepReport) (unswept : ℕ) (complete : Prop)
    (calls : List SweepCall) : Prop where
  calls : calls = []
  destroyed : report'.destroyed = report.destroyed
  failed : report'.failed = report.failed
  firewalls : report'.firewallsRemoved = report.firewallsRemoved
  unlisted : report'.unswept.length = report.unswept.length + unswept
  searches : report'.searches.all ProviderSearch.isComplete ↔
    report.searches.all ProviderSearch.isComplete ∧ complete

namespace LooksOnly
variable {calls calls' : List SweepCall}

theorem trans (h : LooksOnly report report' unswept complete calls)
    (h' : LooksOnly report' report'' unswept' complete' calls') :
    LooksOnly report report'' (unswept + unswept') (complete ∧ complete') (calls ++ calls') where
  calls := by rw [h.calls, h'.calls, List.append_nil]
  destroyed := h'.destroyed.trans h.destroyed
  failed := h'.failed.trans h.failed
  firewalls := h'.firewalls.trans h.firewalls
  unlisted := by rw [h'.unlisted, h.unlisted, Nat.add_assoc]
  searches := by rw [h'.searches, h.searches, and_assoc]

theorem sweepInstances (v : Visit) (n : ℕ) (is : List Instance) (report : SweepReport) :
    LooksOnly report (v.sweepInstances true n is report).2 0 True
      (v.sweepInstances true n is report).1 := by
  induction is generalizing report with
  | nil => exact ⟨rfl, rfl, rfl, rfl, rfl, (and_iff_left trivial).symm⟩
  | cons i is ih =>
    have hrest := ih (report.spotted i)
    exact ⟨hrest.calls, hrest.destroyed, hrest.failed, hrest.firewalls, hrest.unlisted,
      hrest.searches⟩

theorem sweep (v : Visit) (filter : SweepFilter) (report : SweepReport) :
    ∃ unswept complete, LooksOnly report (v.sweep filter true report).2 unswept complete
      (v.sweep filter true report).1 ∧ (unswept = 0 ∧ complete ↔ v.Listed) := by
  unfold Visit.sweep Visit.Listed
  cases v.listing with
  | error error =>
    refine ⟨1, True, ⟨rfl, rfl, rfl, rfl, List.length_append, (and_iff_left trivial).symm⟩, ?_⟩
    exact iff_of_false (fun h => absurd h.1 Nat.one_ne_zero) (not_listed_error error)
  | ok listing =>
    have hsearched := (Adds.searched report ⟨v.name, v.kind, listing.unsearched⟩).searches
    have hrest := sweepInstances v 0 (listing.instances.filter filter.matches)
      (report.searched ⟨v.name, v.kind, listing.unsearched⟩)
    refine ⟨0, listing.isComplete, ⟨hrest.calls, hrest.destroyed, hrest.failed, hrest.firewalls,
      hrest.unlisted, hrest.searches.trans ?_⟩, ?_⟩
    · exact (and_iff_left trivial).trans hsearched
    · exact (and_iff_right rfl).trans (listed_ok_iff listing).symm

theorem sweepAll (filter : SweepFilter) (visits : List Visit) (report : SweepReport) :
    ∃ unswept complete, LooksOnly report (Cloud.sweepAll filter true visits report).2 unswept
      complete (Cloud.sweepAll filter true visits report).1 ∧
        (unswept = 0 ∧ complete ↔ ∀ v ∈ visits, v.Listed) := by
  induction visits generalizing report with
  | nil =>
    exact ⟨0, True, ⟨rfl, rfl, rfl, rfl, rfl, (and_iff_left trivial).symm⟩,
      iff_of_true ⟨rfl, trivial⟩ fun _ h => absurd h List.not_mem_nil⟩
  | cons v visits ih =>
    obtain ⟨unswept, complete, hfirst, hlisted⟩ := sweep v filter report
    obtain ⟨unswept', complete', hrest, hlisted'⟩ := ih (v.sweep filter true report).2
    refine ⟨_, _, hfirst.trans hrest, ?_⟩
    rw [List.forall_mem_cons, ← hlisted, ← hlisted', Nat.add_eq_zero_iff]
    exact and_and_and_comm

end LooksOnly

theorem isClean_iff_dry (visits : List Visit) (filter : SweepFilter) :
    (sweep visits filter true).2.isClean ↔ ∀ v ∈ visits, v.Listed := by
  obtain ⟨unswept, complete, hlooks, hlisted⟩ := LooksOnly.sweepAll filter visits .empty
  have hfailed : (sweep visits filter true).2.failed = [] := hlooks.failed
  have hunswept : (sweep visits filter true).2.unswept = [] ↔ unswept = 0 := by
    rw [← List.length_eq_zero_iff]
    exact Iff.of_eq (congrArg (· = 0) (hlooks.unlisted.trans (Nat.zero_add unswept)))
  have hsearched : (sweep visits filter true).2.searches.all ProviderSearch.isComplete ↔
      complete := hlooks.searches.trans (and_iff_right rfl)
  unfold SweepReport.isClean
  rw [Bool.and_eq_true, Bool.and_eq_true, List.isEmpty_iff, List.isEmpty_iff, hsearched, hfailed,
    hunswept, ← hlisted, and_iff_right rfl]

/-! ## The closing of a session's firewall -/

/-- What one round of a teardown hears, from any provider. -/
structure Heard where
  orphans : Except ProviderError (List String)
  ingress : Except ProviderError (List IngressRule)

/-- The loop over its rounds: how long it slept each time, and what it returns. -/
def watch (opts : WaitOpts) (session : String) :
    Closing → List Heard → List ℕ × Option (Except ProviderError (List String))
  | _, [] => ([], none)
  | c, heard :: later =>
    let c := (c.cleaned heard.orphans).refused heard.ingress
    if heard.ingress = .ok [] then ([], some (.ok c.removed))
    else if c.elapsed + c.backoff > opts.totalTimeout then
      ([], some (.error (c.refusal.getD (.transient ("session " ++ session ++
        " still has ingress open after " ++ debugDuration opts.totalTimeout)))))
    else
      let rest := watch opts session (c.slept opts) later
      (c.backoff :: rest.1, rest.2)

def watchFirewall (session : String) (opts : WaitOpts) (heard : List Heard) :
    List ℕ × Option (Except ProviderError (List String)) :=
  watch opts session ⟨opts.initialBackoff, 0, [], none⟩ heard

def Round.heard (round : Round) : Heard := ⟨round.orphans, sessionIngress round.tasks⟩

def counted (watched : List ℕ × Option (Except ProviderError (List String))) :
    Option (ℕ × Except ProviderError (List String)) :=
  watched.2.map fun result => (watched.1.length, result)

theorem close_eq_watch (opts : WaitOpts) (session : String) (c : Closing) (rounds : List Round) :
    Closing.close opts session c rounds =
      counted (watch opts session c (rounds.map Round.heard)) := by
  induction rounds generalizing c with
  | nil => rfl
  | cons round rounds ih =>
    rw [List.map_cons]
    by_cases hclosed : sessionIngress round.tasks = .ok []
    · have hwatch : watch opts session c (round.heard :: rounds.map Round.heard) =
          ([], some (.ok (c.after round).removed)) := if_pos hclosed
      rw [hwatch]
      exact if_pos hclosed
    by_cases hspent : (c.after round).elapsed + (c.after round).backoff > opts.totalTimeout
    · have hwatch : watch opts session c (round.heard :: rounds.map Round.heard) = ([],
          some (.error ((c.after round).refusal.getD (.transient ("session " ++ session ++
            " still has ingress open after " ++ debugDuration opts.totalTimeout))))) :=
        (if_neg hclosed).trans (if_pos hspent)
      rw [hwatch]
      exact (if_neg hclosed).trans (if_pos hspent)
    · have hwatch : watch opts session c (round.heard :: rounds.map Round.heard) =
          ((c.after round).backoff ::
            (watch opts session ((c.after round).slept opts) (rounds.map Round.heard)).1,
            (watch opts session ((c.after round).slept opts) (rounds.map Round.heard)).2) :=
        (if_neg hclosed).trans (if_neg hspent)
      have hclose : Closing.close opts session c (round :: rounds) =
          (Closing.close opts session ((c.after round).slept opts) rounds).map
            fun r => (r.1 + 1, r.2) := (if_neg hclosed).trans (if_neg hspent)
      rw [hwatch, hclose, ih]
      unfold counted
      rw [Option.map_map]
      rfl

section
variable {opts : WaitOpts} {session : String} {c : Closing} {heard : List Heard}

theorem elapsed_heard (c : Closing) (heard : Heard) :
    ((c.cleaned heard.orphans).refused heard.ingress).elapsed = c.elapsed ∧
      ((c.cleaned heard.orphans).refused heard.ingress).backoff = c.backoff := by
  rcases heard with ⟨_ | _, _ | _⟩
  · exact ⟨rfl, rfl⟩
  · exact ⟨rfl, rfl⟩
  · exact ⟨rfl, rfl⟩
  · exact ⟨rfl, rfl⟩

theorem sum_watch_le (h : c.elapsed ≤ opts.totalTimeout) :
    c.elapsed + (watch opts session c heard).1.sum ≤ opts.totalTimeout := by
  induction heard generalizing c with
  | nil => exact h
  | cons first heard ih =>
    obtain ⟨helapsed, hbackoff⟩ := elapsed_heard c first
    unfold watch
    simp only
    generalize (c.cleaned first.orphans).refused first.ingress = c' at helapsed hbackoff ⊢
    split_ifs with hclosed hspent
    · exact h
    · exact h
    · have hroom : (c'.slept opts).elapsed ≤ opts.totalTimeout := not_lt.mp hspent
      have hrest := ih hroom
      have hslept : (c'.slept opts).elapsed = c'.elapsed + c'.backoff := rfl
      rw [hslept] at hrest
      rw [List.sum_cons]
      omega

/-- It returns `Ok` behind as many sleeps as there were rounds that heard of ingress, in the
first one that did not. -/
theorem watch_ok {removed : List String}
    (h : (watch opts session c heard).2 = some (.ok removed)) :
    ∃ last, heard[(watch opts session c heard).1.length]? = some last ∧ last.ingress = .ok [] ∧
      ∀ earlier ∈ heard.take (watch opts session c heard).1.length, earlier.ingress ≠ .ok [] := by
  induction heard generalizing c with
  | nil => cases h
  | cons first heard ih =>
    unfold watch at h ⊢
    simp only at h ⊢
    generalize (c.cleaned first.orphans).refused first.ingress = c' at h ⊢
    split_ifs at h ⊢ with hclosed hspent
    · exact ⟨first, rfl, hclosed, fun _ hin => absurd hin List.not_mem_nil⟩
    · cases h
    · obtain ⟨last, hlast, hempty, hearlier⟩ := ih h
      refine ⟨last, hlast, hempty, ?_⟩
      exact List.forall_mem_cons.mpr ⟨hclosed, hearlier⟩

end

/-- A sweep destroys no instance of the session it excludes, and a dry run destroys nothing.
Otherwise it asks for the destroy of each matching instance once, in order, and reports it as
destroyed if that was answered `Ok` and as failed with its error if not; the report is clean if all
was searched and every destroy went well; a dry run's, if all was searched. A teardown that returns
`Ok` has seen no ingress last, and slept no longer than its budget. -/
theorem sweep_accounted :
    (∀ visits session dryRun provider i,
      .destroy provider i ∈ (sweep visits (.excluding session) dryRun).1 →
        i.sessionId ≠ some session) ∧
    (∀ visits filter, (sweep visits filter true).1 = [] ∧
      (sweep visits filter true).2.destroyed = []) ∧
    (∀ visits filter,
      (sweep visits filter false).1 = visits.flatMap (fun v => v.asked filter) ∧
      (sweep visits filter false).2.found = matching filter visits ∧
      (outcomes filter visits).map Prod.fst = matching filter visits ∧
      (sweep visits filter false).2.destroyed = (outcomes filter visits).filterMap gone ∧
      (sweep visits filter false).2.failed = (outcomes filter visits).filterMap refusal ∧
      ((sweep visits filter false).2.destroyed ++
        (sweep visits filter false).2.failed.map Prod.fst).Perm (matching filter visits)) ∧
    (∀ visits filter, (sweep visits filter false).2.isClean ↔ (∀ v ∈ visits, v.Listed) ∧
      ∀ o ∈ outcomes filter visits, o.2 = .ok ()) ∧
    (∀ visits filter, (sweep visits filter true).2.isClean ↔ ∀ v ∈ visits, v.Listed) ∧
    ∀ session opts heard,
      (∀ removed, (watchFirewall session opts heard).2 = some (.ok removed) →
        ∃ last, heard[(watchFirewall session opts heard).1.length]? = some last ∧
          last.ingress = .ok []) ∧
      (watchFirewall session opts heard).1.sum ≤ opts.totalTimeout := by
  refine ⟨fun visits session dryRun provider i h => ?_, fun visits filter => ?_,
    fun visits filter => ?_, isClean_iff_real, isClean_iff_dry,
    fun session opts heard => ⟨fun removed h => ?_, ?_⟩⟩
  · cases dryRun with
    | true =>
      obtain ⟨_, _, hlooks, -⟩ := LooksOnly.sweepAll (.excluding session) visits .empty
      rw [show (sweep visits (.excluding session) true).1 = [] from hlooks.calls] at h
      exact absurd h List.not_mem_nil
    | false =>
      have hasked : .destroy provider i ∈ visits.flatMap fun v => v.asked (.excluding session) := by
        rw [← calls_sweepAll _ _ .empty]
        exact h
      have hmatches := matches_of_mem_matching (mem_matching_of_asked hasked)
      exact of_decide_eq_true hmatches
  · obtain ⟨_, _, hlooks, -⟩ := LooksOnly.sweepAll filter visits .empty
    exact ⟨hlooks.calls, hlooks.destroyed⟩
  · obtain ⟨hfound, hdestroyed, hfailed⟩ := reported visits filter
    exact ⟨calls_sweepAll filter visits .empty, hfound, map_outcomes filter visits, hdestroyed,
      hfailed, reported_once visits filter⟩
  · -- the watch over the firewall: Ok only behind an answer with nothing in it
    obtain ⟨last, hlast, hempty, -⟩ := watch_ok h
    exact ⟨last, hlast, hempty⟩
  · refine le_trans (Nat.le_of_eq (Nat.zero_add _).symm) ?_
    exact sum_watch_le (c := ⟨opts.initialBackoff, 0, [], none⟩) (Nat.zero_le _)

def strayOf (session : String) : Instance :=
  ⟨.aws, "us-east-1", "i-" ++ session, none, [(sessionTagKey, session)]⟩

def strays : Visit where
  name := "aws"
  kind := .aws
  listing := .ok ⟨[strayOf "live", strayOf "lost"], []⟩
  destroy _ := .ok ()
  firewalls := .ok []

theorem sweep_accounted_spared : (strayOf "lost").sessionId ≠ some "live" :=
  sweep_accounted.1 [strays] "live" false "aws" (strayOf "lost") (by decide +kernel)

/-- A dry run is clean and leaves every machine running. -/
theorem clean_and_running :
    ¬∀ visits filter dryRun, (sweep visits filter dryRun).2.isClean ↔ (∀ v ∈ visits, v.Listed) ∧
      (sweep visits filter dryRun).2.destroyed = matching filter visits := by
  intro h
  have hclean : (sweep [strays] .all true).2.isClean := by decide +kernel
  have hnone : (sweep [strays] .all true).2.destroyed ≠ matching .all [strays] := by
    decide +kernel
  exact hnone ((h [strays] .all true).mp hclean).2

end JamStream.Cloud
