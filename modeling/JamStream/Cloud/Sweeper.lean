import JamStream.Cloud.Provider

/-! What a sweep reports of the providers it was given. -/

namespace JamStream.Cloud

/-- A provider as a session record names it: the mock answers to a name of its own, and its
instances borrow a kind. -/
inductive Source
  | real (kind : ProviderKind)
  | mock
deriving DecidableEq

namespace Source

def kind : Source → ProviderKind
  | real kind => kind
  | mock => .aws

def name : Source → String
  | real kind => kind.asStr
  | mock => "mock"

theorem name_injective : Function.Injective name := by
  intro a b h
  rcases a with a | _ <;> rcases b with b | _
  · cases a <;> cases b <;> first | rfl | exact absurd h (by decide)
  · cases a <;> exact absurd h (by decide)
  · cases b <;> exact absurd h (by decide)
  · rfl

end Source

structure ProviderSearch where
  provider : String
  kind : ProviderKind
  unsearched : List RegionId
deriving DecidableEq

def ProviderSearch.isComplete (search : ProviderSearch) : Bool := search.unsearched.isEmpty

structure SweepReport where
  found : List Instance
  destroyed : List Instance
  failed : List (Instance × ProviderError)
  unswept : List (String × ProviderError)
  searches : List ProviderSearch
  firewallsRemoved : List String
deriving DecidableEq

namespace SweepReport

def empty : SweepReport := ⟨[], [], [], [], [], []⟩

def unlisted (report : SweepReport) (source : Source) (error : ProviderError) : SweepReport :=
  { report with unswept := report.unswept ++ [(source.name, error)] }

def searched (report : SweepReport) (search : ProviderSearch) : SweepReport :=
  { report with searches := report.searches ++ [search] }

def swept (report : SweepReport) (i : Instance) : Except ProviderError Unit → SweepReport
  | .ok () =>
    { report with
      found := report.found ++ [i]
      destroyed := report.destroyed ++ [i] }
  | .error error =>
    { report with
      found := report.found ++ [i]
      failed := report.failed ++ [(i, error)] }

def cleaned (report : SweepReport) : Except ProviderError (List String) → SweepReport
  | .ok names => { report with firewallsRemoved := report.firewallsRemoved ++ names }
  | .error _ => report

def searchFor (report : SweepReport) (provider : String) : Option ProviderSearch :=
  report.searches.find? fun search => search.provider = provider

section
variable (report : SweepReport) (i : Instance) (answer : Except ProviderError Unit)

@[simp] theorem found_swept : (report.swept i answer).found = report.found ++ [i] := by
  rcases answer with _ | _ <;> rfl

@[simp] theorem searches_swept : (report.swept i answer).searches = report.searches := by
  rcases answer with _ | _ <;> rfl

@[simp] theorem destroyed_swept : (report.swept i answer).destroyed =
    report.destroyed ++ if answer.isOk then [i] else [] := by
  rcases answer with _ | _
  · exact (List.append_nil _).symm
  · rfl

end

section
variable (report : SweepReport) (answer : Except ProviderError (List String))

@[simp] theorem found_cleaned : (report.cleaned answer).found = report.found := by
  rcases answer with _ | _ <;> rfl

@[simp] theorem searches_cleaned : (report.cleaned answer).searches = report.searches := by
  rcases answer with _ | _ <;> rfl

@[simp] theorem destroyed_cleaned : (report.cleaned answer).destroyed = report.destroyed := by
  rcases answer with _ | _ <;> rfl

end

end SweepReport
end JamStream.Cloud
