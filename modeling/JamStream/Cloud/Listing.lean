import JamStream.Cloud.Provider

/-! A listing of AWS, merged from the answers of its regions. -/

namespace JamStream.Cloud

/-- How the task that lists one region ends: with the region and its answer, or in a panic. -/
abbrev Listed := Except String (RegionId × Except ProviderError (List Instance))

namespace Listed

def strikeOff (unsearched : List RegionId) : Listed → List RegionId
  | .ok (region, .ok _) => unsearched.filter (· ≠ region)
  | _ => unsearched

def found : Listed → List Instance
  | .ok (_, .ok parsed) => parsed
  | _ => []

def error? : Listed → Option ProviderError
  | .ok (_, .ok _) => none
  | .ok (_, .error error) => some error
  | .error panic => some (.other panic)

end Listed

/-- The listing of a catalog of regions, from their tasks in the order they end. Where no
region answers there is nothing to report. -/
def listTagged (regions : List RegionId) (joined : List Listed) : Except ProviderError Listing :=
  let unsearched := joined.foldl Listed.strikeOff regions
  let instances := (joined.flatMap Listed.found).mergeSort fun a b =>
    ((compare a.region b.region).then (compare a.id b.id)).isLE
  match joined.findSome? Listed.error?, decide (unsearched.length = regions.length) with
  | some error, true => .error error
  | _, _ => .ok ⟨instances, unsearched.mergeSort⟩

variable {regions : List RegionId} {joined : List Listed} {listing : Listing}

theorem listTagged_ok (h : listTagged regions joined = .ok listing) :
    listing.instances.Perm (joined.flatMap Listed.found) ∧
      listing.unsearched.Perm (joined.foldl Listed.strikeOff regions) := by
  unfold listTagged at h
  extract_lets unsearched instances at h
  have hlisting : ⟨instances, unsearched.mergeSort⟩ = listing := by
    split at h
    · exact nomatch h
    · exact Except.ok.inj h
  rw [← hlisting]
  exact ⟨List.mergeSort_perm _ _, List.mergeSort_perm _ _⟩

theorem mem_strikeOff {joined : List Listed} {regions : List RegionId} {region : RegionId} :
    region ∈ joined.foldl Listed.strikeOff regions ↔
      region ∈ regions ∧ ∀ parsed, .ok (region, .ok parsed) ∉ joined := by
  induction joined generalizing regions with
  | nil => simp
  | cons task joined ih =>
    rw [List.foldl_cons, ih]
    rcases task with panic | ⟨other, error | parsed⟩
    · simp [Listed.strikeOff]
    · simp [Listed.strikeOff]
    · have hstruck : region ∈ Listed.strikeOff regions (.ok (other, .ok parsed)) ↔
          region ∈ regions ∧ region ≠ other := by
        rw [Listed.strikeOff, List.mem_filter, decide_eq_true_eq]
      rw [hstruck, and_assoc]
      simp only [List.mem_cons, not_or, Except.ok.injEq, Prod.mk.injEq, not_and]
      constructor
      · rintro ⟨hregion, hother, hnone⟩
        exact ⟨hregion, fun p => ⟨fun h => absurd h hother, hnone p⟩⟩
      · rintro ⟨hregion, hnone⟩
        exact ⟨hregion, fun h => (hnone parsed).1 h rfl, fun p => (hnone p).2⟩

theorem isComplete_iff (h : listTagged regions joined = .ok listing) :
    listing.isComplete ↔ ∀ region ∈ regions, ∃ parsed, .ok (region, .ok parsed) ∈ joined := by
  have hunsearched : ∀ region, region ∈ listing.unsearched ↔
      region ∈ regions ∧ ∀ parsed, .ok (region, .ok parsed) ∉ joined := fun region =>
    ((listTagged_ok h).2.mem_iff).trans mem_strikeOff
  rw [Listing.isComplete, List.isEmpty_iff, List.eq_nil_iff_forall_not_mem]
  simp only [hunsearched, not_and, not_forall, not_not]

theorem mem_instances_iff (h : listTagged regions joined = .ok listing) {i : Instance} :
    i ∈ listing.instances ↔ ∃ region parsed, .ok (region, .ok parsed) ∈ joined ∧ i ∈ parsed := by
  rw [(listTagged_ok h).1.mem_iff, List.mem_flatMap]
  constructor
  · rintro ⟨task, htask, hi⟩
    rcases task with panic | ⟨region, error | parsed⟩
    · exact absurd hi List.not_mem_nil
    · exact absurd hi List.not_mem_nil
    · exact ⟨region, parsed, htask, hi⟩
  · rintro ⟨region, parsed, htask, hi⟩
    exact ⟨_, htask, hi⟩

end JamStream.Cloud
