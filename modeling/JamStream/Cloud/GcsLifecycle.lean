import JamStream.Cloud.Retention
import JamStream.Foundations.Json

/-! The lifecycle rules of a Cloud Storage bucket. They have no id, so JamStream's are told
by their shape, and that shape lets in rules of the host. -/

namespace JamStream.Cloud
open Foundations Foundations.Evict

namespace GcsLifecycle

def gcsRuleIsOurs (rule : Json) : Bool :=
  (rule.index "action" |>.index "type").asStr == some "Delete" &&
    match (rule.index "condition" |>.index "matchesPrefix").asArray with
    | none => false
    | some prefixes => !prefixes.isEmpty &&
        prefixes.all fun p => p.asStr.any fun p => startsWith p recordingPrefix

def gcsRuleMatchesPrefix (rule : Json) (pre : String) : Bool :=
  gcsRuleIsOurs rule &&
    match (rule.index "condition" |>.index "matchesPrefix").asArray with
    | none => false
    | some prefixes => prefixes.all fun p => p.asStr == some pre

/-- The rules of a bucket, none when it has no list of them. -/
def existing (bucket : Json) : List Json :=
  (((bucket.get "lifecycle").bind fun l => l.get "rule").bind Json.asArray).getD []

def mine (pre : String) (days : ℕ) : Json :=
  .object [("action", .object [("type", .string "Delete")]),
    ("condition", .object [("age", .number days), ("matchesPrefix", .array [.string pre])])]

def patch (rules : List Json) : Json :=
  .object [("lifecycle", .object [("rule", .array rules)])]

def mergeGcsLifecycle (bucket : Json) (pre : String) (retention : Retention) (maxRules : ℕ) :
    Option Json :=
  let kept := (existing bucket).filter fun rule => !gcsRuleMatchesPrefix rule pre
  match retention.days with
  | none => some (patch kept)
  | some days =>
    (makeRoom gcsRuleIsOurs maxRules kept).map fun kept => patch (kept ++ [mine pre days])

/-! ## What JamStream writes -/

/-- A deletion whose conditions are an age and one prefix in the recordings folder. -/
def written (rule : Json) : Bool :=
  (rule.index "action" |>.index "type").asStr == some "Delete" &&
    (rule.index "condition").size = 2 && (rule.index "condition" |>.index "age").isNumber &&
    match (rule.index "condition" |>.index "matchesPrefix").asArray with
    | some [p] => p.asStr.any fun p => startsWith p (recordingPrefix ++ "/")
    | _ => false

def writtenFor (pre : String) (rule : Json) : Bool :=
  written rule && (rule.index "condition" |>.index "matchesPrefix").asArray.any fun prefixes =>
    prefixes.all fun p => p.asStr == some pre

/-- The host's rules are all there, as they were and in their order, and with them exactly
one rule of JamStream's for the prefix. -/
def Preserves (pre : String) (before after : List Json) : Prop :=
  (after.filter fun rule => !written rule) = before.filter (fun rule => !written rule) ∧
    after.countP (writtenFor pre) = 1

/-- No rule of the host's is taken for JamStream's, neither for the prefix nor among those
that have to make room, if there are enough of them. -/
def Spares (pre : String) (maxRules : ℕ) (rules : List Json) : Prop :=
  let kept := rules.filter fun rule => !gcsRuleMatchesPrefix rule pre
  let evicted := kept.length + 1 - maxRules
  evicted ≤ (kept.filter gcsRuleIsOurs).length →
    (∀ rule ∈ rules, gcsRuleMatchesPrefix rule pre → written rule) ∧
      ∀ rule ∈ (kept.filter gcsRuleIsOurs).take evicted, written rule

theorem startsWith_sessionPrefix (sessionId : String) :
    startsWith (sessionPrefix sessionId) (recordingPrefix ++ "/") := by
  unfold startsWith sessionPrefix
  rw [List.isPrefixOf_iff_prefix]
  refine ⟨(sanitizeComponent sessionId).toList ++ "/".toList, ?_⟩
  simp only [String.toList_append, List.append_assoc]

theorem writtenFor_mine (sessionId : String) (days : ℕ) :
    writtenFor (sessionPrefix sessionId) (mine (sessionPrefix sessionId) days) := by
  have hunder := startsWith_sessionPrefix sessionId
  generalize sessionPrefix sessionId = pre at hunder ⊢
  have hwritten : written (mine pre days) = startsWith pre (recordingPrefix ++ "/") := rfl
  have hself : writtenFor pre (mine pre days) =
      (written (mine pre days) && ((some pre == some pre) && true)) := rfl
  rw [hself, hwritten, hunder, beq_self_eq_true]
  rfl

theorem written_of_writtenFor {pre : String} {rule : Json} (h : writtenFor pre rule) :
    written rule := (Bool.and_eq_true _ _).mp h |>.1

theorem startsWith_recordingPrefix {p : String} (h : startsWith p (recordingPrefix ++ "/")) :
    startsWith p recordingPrefix := by
  unfold startsWith at h ⊢
  rw [List.isPrefixOf_iff_prefix] at h ⊢
  rw [String.toList_append] at h
  exact (List.prefix_append _ _).trans h

theorem gcsRuleIsOurs_of_written {rule : Json} (h : written rule) : gcsRuleIsOurs rule := by
  unfold written at h
  unfold gcsRuleIsOurs
  simp only [Bool.and_eq_true] at h ⊢
  obtain ⟨⟨⟨hdelete, -⟩, -⟩, hone⟩ := h
  refine ⟨hdelete, ?_⟩
  generalize (rule.index "condition" |>.index "matchesPrefix").asArray = prefixes at hone ⊢
  match prefixes with
  | none => cases hone
  | some [] => cases hone
  | some (_ :: _ :: _) => cases hone
  | some [p] =>
    obtain ⟨q, hq, hunder⟩ := (Option.any_eq_true _ _).mp hone
    show (true && (p.asStr.any (fun p => startsWith p recordingPrefix) && true)) = true
    rw [Bool.true_and, Bool.and_true, hq]
    exact startsWith_recordingPrefix hunder

theorem gcsRuleMatchesPrefix_of_writtenFor {pre : String} {rule : Json}
    (h : writtenFor pre rule) : gcsRuleMatchesPrefix rule pre := by
  have hours := gcsRuleIsOurs_of_written (written_of_writtenFor h)
  have hfor := ((Bool.and_eq_true _ _).mp h).2
  unfold gcsRuleMatchesPrefix
  rw [hours, Bool.true_and]
  generalize (rule.index "condition" |>.index "matchesPrefix").asArray = prefixes at hfor ⊢
  match prefixes with
  | none => cases hfor
  | some prefixes => exact hfor

theorem existing_patch (rules : List Json) : existing (patch rules) = rules := rfl

theorem mergeGcsLifecycle_eq (bucket : Json) (pre : String) {retention : Retention} {days : ℕ}
    (hdays : retention.days = some days) (maxRules : ℕ) :
    let kept := (existing bucket).filter fun rule => !gcsRuleMatchesPrefix rule pre
    let evicted := kept.length + 1 - maxRules
    mergeGcsLifecycle bucket pre retention maxRules =
      if evicted ≤ (kept.filter gcsRuleIsOurs).length then
        some (patch (dropFirst gcsRuleIsOurs evicted kept ++ [mine pre days]))
      else none := by
  intro kept evicted
  simp only [mergeGcsLifecycle, hdays, makeRoom]
  rw [makeRoom_eq le_rfl]
  split_ifs <;> rfl

theorem countP_writtenFor (sessionId : String) (days k : ℕ) (rules : List Json) :
    (dropFirst gcsRuleIsOurs k (rules.filter fun rule =>
      !gcsRuleMatchesPrefix rule (sessionPrefix sessionId)) ++
        [mine (sessionPrefix sessionId) days]).countP (writtenFor (sessionPrefix sessionId)) =
      1 := by
  rw [List.countP_append, List.countP_singleton, if_pos (writtenFor_mine sessionId days)]
  refine Nat.add_eq_right.mpr (List.countP_eq_zero.mpr fun rule hrule hfor => ?_)
  have hkept := (List.mem_filter.mp ((dropFirst_sublist _ _).subset hrule)).2
  rw [gcsRuleMatchesPrefix_of_writtenFor hfor] at hkept
  cases hkept

/-- Nothing of the host's is lost exactly when neither the replaced nor the evicted rules
include any of it. -/
theorem filter_host_eq_iff (pre : String) (k : ℕ) (rules : List Json) :
    let kept := rules.filter fun rule => !gcsRuleMatchesPrefix rule pre
    (dropFirst gcsRuleIsOurs k kept).filter (fun rule => !written rule) =
        rules.filter (fun rule => !written rule) ↔
      (∀ rule ∈ rules, gcsRuleMatchesPrefix rule pre → written rule) ∧
        ∀ rule ∈ (kept.filter gcsRuleIsOurs).take k, written rule := by
  intro kept
  have hsub : ((dropFirst gcsRuleIsOurs k kept).filter fun rule => !written rule).Sublist
      (rules.filter fun rule => !written rule) :=
    ((dropFirst_sublist k kept).trans List.filter_sublist).filter _
  have hsplit := List.countP_eq_countP_filter_add rules (fun rule => !written rule)
    (fun rule => gcsRuleMatchesPrefix rule pre)
  change _ = _ + kept.countP (fun rule => !written rule) at hsplit
  have hevict := countP_dropFirst (p := gcsRuleIsOurs) (fun rule => !written rule) k kept
  have hnone : ∀ xs : List Json,
      xs.countP (fun rule => !written rule) = 0 ↔ ∀ rule ∈ xs, written rule := by
    intro xs
    rw [List.countP_eq_zero]
    exact forall₂_congr fun rule _ => by simp
  have hreplaced : (∀ rule ∈ rules, gcsRuleMatchesPrefix rule pre → written rule) ↔
      ∀ rule ∈ rules.filter (fun rule => gcsRuleMatchesPrefix rule pre), written rule := by
    refine ⟨fun h rule hrule => ?_, fun h rule hrule hmatch => ?_⟩
    · exact h rule (List.mem_filter.mp hrule).1 (List.mem_filter.mp hrule).2
    · exact h rule (List.mem_filter.mpr ⟨hrule, hmatch⟩)
  rw [hreplaced, ← hnone, ← hnone]
  rw [List.countP_eq_length_filter] at hsplit
  rw [List.countP_eq_length_filter (l := dropFirst _ _ _)] at hevict
  constructor
  · intro heq
    have hlength := congrArg List.length heq
    omega
  · rintro ⟨hmatched, hevicted⟩
    exact hsub.eq_of_length (by omega)

/-- Merging keeps the host's rules, each time there is a result, exactly when none of them is
taken for one of JamStream's. -/
theorem merge_gcs_iff (bucket : Json) (sessionId : String) (retention : Retention) (maxRules : ℕ)
    (hdays : retention.days.isSome) :
    (∀ out ∈ mergeGcsLifecycle bucket (sessionPrefix sessionId) retention maxRules,
      Preserves (sessionPrefix sessionId) (existing bucket) (existing out)) ↔
      Spares (sessionPrefix sessionId) maxRules (existing bucket) := by
  obtain ⟨days, hdays⟩ := Option.isSome_iff_exists.mp hdays
  have hmine : written (mine (sessionPrefix sessionId) days) :=
    written_of_writtenFor (writtenFor_mine sessionId days)
  have hlost := fun k => filter_host_eq_iff (sessionPrefix sessionId) k (existing bucket)
  simp only at hlost
  unfold Spares
  rw [mergeGcsLifecycle_eq bucket _ hdays]
  simp only [← hlost]
  split_ifs with hroom
  · have hfilter : ∀ rules : List Json,
        (rules ++ [mine (sessionPrefix sessionId) days]).filter (fun rule => !written rule) =
          rules.filter fun rule => !written rule := by
      intro rules
      rw [List.filter_append, List.filter_cons_of_neg (by simp [hmine])]
      exact List.append_nil _
    -- the rule that is added is JamStream's own, so the host's rules are those of the survivors
    constructor
    · intro h _
      have hhosts := (h _ rfl).1
      rwa [existing_patch, hfilter] at hhosts
    · rintro h out hout
      obtain rfl := Option.some.inj hout
      refine ⟨?_, countP_writtenFor sessionId days _ _⟩
      rw [existing_patch, hfilter]
      exact h hroom
  · exact iff_of_true (fun out hout => absurd hout.symm (Option.some_ne_none out))
      fun h => absurd h hroom

def photos : Json :=
  .object [("action", .object [("type", .string "Delete")]),
    ("condition", .object [("age", .number 365), ("matchesPrefix", .array [.string "photos/"])])]

theorem merge_gcs_iff_cap :
    let merged := mergeGcsLifecycle (patch [photos, mine (sessionPrefix "s0") 30])
      (sessionPrefix "s1") .days30 2
    (merged.map fun out => (existing out).length) = some 2 ∧
    ∀ out ∈ merged, Preserves (sessionPrefix "s1")
      (existing (patch [photos, mine (sessionPrefix "s0") 30])) (existing out) := by
  intro merged
  have hspares : Spares (sessionPrefix "s1") 2
      (existing (patch [photos, mine (sessionPrefix "s0") 30])) := by
    unfold Spares
    decide +kernel
  have hlength : (merged.map fun out => (existing out).length) = some 2 := by decide +kernel
  exact ⟨hlength, (merge_gcs_iff _ "s1" .days30 2 rfl).mpr hspares⟩

def hostRule : Json :=
  .object [("action", .object [("type", .string "Delete")]),
    ("condition", .object [("age", .number 1), ("isLive", .bool false),
      ("matchesPrefix", .array [.string (sessionPrefix "s1")])])]

/-- It is not JamStream's, and gone after the merge. -/
theorem merge_gcs_replaces :
    let merged := mergeGcsLifecycle (patch [hostRule]) (sessionPrefix "s1") .days30
      gcsMaxLifecycleRules
    written hostRule = false ∧ (merged.map fun out => (existing out).countP written) = some 1 ∧
      (merged.map fun out => (existing out).length) = some 1 ∧
      ¬∀ out ∈ merged, Preserves (sessionPrefix "s1") (existing (patch [hostRule]))
        (existing out) := by
  intro merged
  have hruns : written hostRule = false ∧
      (merged.map fun out => (existing out).countP written) = some 1 ∧
      (merged.map fun out => (existing out).length) = some 1 ∧ merged.isSome ∧
      (merged.map fun out =>
        ((existing out).filter fun rule => !written rule).length) = some 0 ∧
      ((existing (patch [hostRule])).filter fun rule => !written rule).length = 1 := by
    decide +kernel
  obtain ⟨hforeign, hone, hlength, hsome, hlost, hhost⟩ := hruns
  refine ⟨hforeign, hone, hlength, fun h => ?_⟩
  obtain ⟨out, hout⟩ := Option.isSome_iff_exists.mp hsome
  rw [hout] at hlost
  have hzero : ((existing out).filter fun rule => !written rule).length = 0 :=
    Option.some.inj hlost
  rw [← (h out hout).1, hzero] at hhost
  exact absurd hhost (by decide)

end GcsLifecycle
end JamStream.Cloud
