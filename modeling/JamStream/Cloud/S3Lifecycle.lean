import JamStream.Cloud.Retention
import JamStream.Cloud.Xml

/-! The lifecycle rules of an S3 bucket, cut out of the provider's document, filtered and put
together again with JamStream's own. -/

namespace JamStream.Cloud
open Foundations Foundations.Markup Foundations.Evict

inductive LifecycleDialect
  | s3v2
  | spacesV1
deriving DecidableEq

/-- The id of JamStream's rule for a prefix, the bare one for all recordings. -/
def ruleId (pre : String) : String :=
  let stripped := (pre.toList.dropPrefix? recordingPrefix.toList).getD pre.toList
  let tail := (stripped.dropWhile fun c => c = '/').rdropWhile fun c => c = '/'
  if tail = [] then ruleIdBase else ruleIdBase ++ "-" ++ sanitizeComponent (String.ofList tail)

def isOurs (id : Option (List Char)) : Bool :=
  id.any fun id => id = ruleIdBase.toList || (ruleIdBase ++ "-").toList.isPrefixOf id

def xmlElement (tag : String) (content : List Char) : List Char :=
  '<' :: (tag.toList ++ ['>']) ++ (content ++ '<' :: '/' :: (tag.toList ++ ['>']))

def s3Rule (pre : String) (retention : Retention) (dialect : LifecycleDialect) : List Char :=
  let filter := match dialect with
    | .s3v2 => xmlElement "Filter" (xmlElement "Prefix" (xmlEscape pre.toList))
    | .spacesV1 => xmlElement "Prefix" (xmlEscape pre.toList)
  let expiration := match retention.days with
    | some days => xmlElement "Expiration" (xmlElement "Days" (toString days).toList)
    | none => []
  xmlElement "Rule" (xmlElement "ID" (xmlEscape (ruleId pre).toList) ++ filter ++
    xmlElement "Status" "Enabled".toList ++ expiration ++
    xmlElement "AbortIncompleteMultipartUpload"
      (xmlElement "DaysAfterInitiation" (toString abortIncompleteDays).toList))

def cutRules (xml : List Char) : List (List Char) :=
  match _h : takeTag xml "Rule".toList with
  | none => []
  | some (rule, rest) => rule :: cutRules rest
termination_by xml.length
decreasing_by exact length_of_takeTag _h

def ruleIsOurs (rule : List Char) : Bool :=
  isOurs ((xmlValue rule "ID".toList).map xmlUnescape)

/-- The rule for this prefix, by its id, or by the prefix where the id is JamStream's. -/
def replaced (pre : String) (rule : List Char) : Bool :=
  (xmlValue rule "ID".toList).map xmlUnescape = some (ruleId pre).toList ||
    (ruleIsOurs rule && (xmlValue rule "Prefix".toList).map xmlUnescape = some pre.toList)

def mergeS3Lifecycle (existing : List Char) (pre : String) (retention : Retention)
    (dialect : LifecycleDialect) (maxRules : ℕ) : Option (List Char) :=
  let kept := (cutRules existing).filter fun rule => !replaced pre rule
  (makeRoom ruleIsOurs maxRules kept).map fun kept =>
    "<?xml version=\"1.0\" encoding=\"UTF-8\"?><LifecycleConfiguration>".toList ++
      kept.flatMap (fun rule => "<Rule>".toList ++ rule ++ "</Rule>".toList) ++
      s3Rule pre retention dialect ++ "</LifecycleConfiguration>".toList

namespace S3Lifecycle

/-! ## Documents of rules -/

/-- A rule as the provider has it: its id stands directly in it, and there is no rule inside
a rule and no prefix inside a prefix. -/
structure Rule where
  children : List Xml
  wf : WfAll children
  flat : firstOf "Rule".toList children = none
  direct : ∀ x ∈ children, x.first "ID".toList = none ∨
    ∃ content, x = .element "ID".toList content ∧ firstOf "ID".toList content = none
  single : ∀ content, firstOf "Prefix".toList children = some content →
    firstOf "Prefix".toList content = none

namespace Rule

def body (r : Rule) : List Char := render (piecesOf r.children)

def idText : Xml → Option (List Char)
  | .element name content => if name = "ID".toList then some (render (piecesOf content)) else none
  | _ => none

def id (r : Rule) : Option (List Char) := (r.children.findSome? idText).map xmlUnescape

def prefixText (r : Rule) : Option (List Char) :=
  (firstOf "Prefix".toList r.children).map fun content => xmlUnescape (render (piecesOf content))

def ours (r : Rule) : Bool := isOurs r.id

def isFor (pre : String) (r : Rule) : Bool := r.prefixText = some pre.toList

def replaces (pre : String) (r : Rule) : Bool :=
  r.id = some (ruleId pre).toList || (r.ours && r.isFor pre)

end Rule

structure Document where
  head : List Piece
  entries : List (Rule × List Piece)
  wf_head : ∀ p ∈ head, p.Wf ∧ p ≠ .tag "Rule".toList
  wf_entries : ∀ e ∈ entries, ∀ p ∈ e.2, p.Wf ∧ p ≠ .tag "Rule".toList

namespace Document

def rules (d : Document) : List Rule := d.entries.map Prod.fst

def entryText (e : Rule × List Piece) : List Char :=
  xmlElement "Rule" e.1.body ++ render e.2

def text (d : Document) : List Char := render d.head ++ d.entries.flatMap entryText

def hosts (d : Document) : List Rule := d.rules.filter fun r => !r.ours

end Document

/-! ## Reading them -/

theorem isName_rule : IsName "Rule".toList := ⟨by decide, by decide, by decide, by decide⟩
theorem isName_id : IsName "ID".toList := ⟨by decide, by decide, by decide, by decide⟩
theorem isName_prefix : IsName "Prefix".toList := ⟨by decide, by decide, by decide, by decide⟩

theorem xmlElement_eq (tag : String) (content : List Char) :
    xmlElement tag content = (Piece.tag tag.toList).render ++
      (content ++ (Piece.tag ('/' :: tag.toList)).render) := rfl

theorem render_element (tag : String) (children : List Xml) :
    render (Xml.element tag.toList children).pieces =
      xmlElement tag (render (piecesOf children)) := by
  rw [Xml.pieces, render_cons, render_append, xmlElement_eq]
  congr 2
  exact List.append_nil _

theorem firstOf_id {xs : List Xml}
    (h : ∀ x ∈ xs, x.first "ID".toList = none ∨
      ∃ content, x = .element "ID".toList content ∧ firstOf "ID".toList content = none) :
    ((firstOf "ID".toList xs).map fun content => render (piecesOf content)) =
        xs.findSome? Rule.idText ∧
      ∀ content, firstOf "ID".toList xs = some content → firstOf "ID".toList content = none := by
  induction xs with
  | nil => exact ⟨rfl, fun _ h => absurd h.symm (Option.some_ne_none _)⟩
  | cons x xs ih =>
    obtain ⟨hx, hxs⟩ := List.forall_mem_cons.mp h
    rw [firstOf, List.findSome?_cons]
    obtain hnone | ⟨content, rfl, hflat⟩ := hx
    · have htext : Rule.idText x = none := by
        cases x with
        | text raw => rfl
        | empty name => rfl
        | element name content =>
          rw [Xml.first] at hnone
          split_ifs at hnone with hname
          exact if_neg hname
      rw [hnone, htext, Option.none_or]
      exact ih hxs
    · rw [Xml.first, if_pos rfl, Option.some_or, Rule.idText, if_pos rfl]
      exact ⟨rfl, fun _ h => Option.some.inj h ▸ hflat⟩

theorem xmlValue_id (r : Rule) : (xmlValue r.body "ID".toList).map xmlUnescape = r.id := by
  obtain ⟨hfirst, hnest⟩ := firstOf_id r.direct
  rw [Rule.body, xmlValue_piecesOf isName_id r.wf hnest, hfirst]
  rfl

theorem xmlValue_prefix (r : Rule) :
    (xmlValue r.body "Prefix".toList).map xmlUnescape = r.prefixText := by
  rw [Rule.body, xmlValue_piecesOf isName_prefix r.wf r.single, Option.map_map]
  rfl

theorem ruleIsOurs_body (r : Rule) : ruleIsOurs r.body = r.ours := by
  rw [ruleIsOurs, xmlValue_id]
  rfl

theorem replaced_body (pre : String) (r : Rule) : replaced pre r.body = r.replaces pre := by
  rw [replaced, ruleIsOurs_body, xmlValue_id, xmlValue_prefix]
  rfl

theorem cutRules_none {xml : List Char} (h : takeTag xml "Rule".toList = none) :
    cutRules xml = [] := by
  rw [cutRules]
  split
  · rfl
  · rename_i rule rest hsome
    rw [h] at hsome
    cases hsome

theorem cutRules_some {xml rule rest : List Char}
    (h : takeTag xml "Rule".toList = some (rule, rest)) :
    cutRules xml = rule :: cutRules rest := by
  rw [cutRules]
  split
  · rename_i hnone
    rw [h] at hnone
    cases hnone
  · rename_i rule' rest' hsome
    rw [h] at hsome
    obtain ⟨rfl, rfl⟩ := Prod.mk.inj (Option.some.inj hsome)
    rfl

theorem cutRules_entries {head : List Piece} {entries : List (Rule × List Piece)}
    (hhead : ∀ p ∈ head, p.Wf ∧ p ≠ .tag "Rule".toList)
    (hentries : ∀ e ∈ entries, ∀ p ∈ e.2, p.Wf ∧ p ≠ .tag "Rule".toList) :
    cutRules (render head ++ entries.flatMap Document.entryText) =
      entries.map fun e => e.1.body := by
  induction entries generalizing head with
  | nil =>
    rw [List.flatMap_nil, List.append_nil]
    exact cutRules_none (takeTag_none isName_rule (fun p hp => (hhead p hp).1)
      fun hmem => (hhead _ hmem).2 rfl)
  | cons e entries ih =>
    obtain ⟨he, hrest⟩ := List.forall_mem_cons.mp hentries
    have hclose := (not_mem_piecesOf isName_rule e.1.wf e.1.flat).2
    have htake := takeTag_element isName_rule (fun p hp => (hhead p hp).1)
      (piecesOf_wf e.1.wf) (fun hmem => (hhead _ hmem).2 rfl) hclose
      (render e.2 ++ entries.flatMap Document.entryText)
    have htext : Document.entryText e ++ entries.flatMap Document.entryText =
        (Piece.tag "Rule".toList).render ++ (render (piecesOf e.1.children) ++
          ((Piece.tag ('/' :: "Rule".toList)).render ++
            (render e.2 ++ entries.flatMap Document.entryText))) := by
      rw [Document.entryText, xmlElement_eq, Rule.body]
      simp only [List.append_assoc]
    rw [List.flatMap_cons, htext, cutRules_some htake, ih he hrest]
    rfl

theorem cutRules_text (d : Document) : cutRules d.text = d.rules.map Rule.body := by
  rw [Document.text, cutRules_entries d.wf_head d.wf_entries, Document.rules, List.map_map]
  rfl

/-! ## JamStream's own -/

def textElement (tag : String) (raw : List Char) : Xml := .element tag.toList [.text raw]

def scope (pre : String) : LifecycleDialect → Xml
  | .s3v2 => .element "Filter".toList [textElement "Prefix" (xmlEscape pre.toList)]
  | .spacesV1 => textElement "Prefix" (xmlEscape pre.toList)

def expiry (retention : Retention) : List Xml :=
  match retention.days with
  | some days => [.element "Expiration".toList [textElement "Days" (toString days).toList]]
  | none => []

def mineChildren (pre : String) (retention : Retention) (dialect : LifecycleDialect) : List Xml :=
  textElement "ID" (xmlEscape (ruleId pre).toList) :: scope pre dialect ::
    textElement "Status" "Enabled".toList :: (expiry retention ++
      [.element "AbortIncompleteMultipartUpload".toList
        [textElement "DaysAfterInitiation" (toString abortIncompleteDays).toList]])

theorem wf_textElement {tag : String} {raw : List Char} (htag : IsName tag.toList)
    (hraw : '<' ∉ raw) : (textElement tag raw).Wf := ⟨htag, hraw, trivial⟩

theorem wfAll_append {xs ys : List Xml} (hx : WfAll xs) (hy : WfAll ys) : WfAll (xs ++ ys) := by
  induction xs with
  | nil => exact hy
  | cons x xs ih => exact ⟨hx.1, ih hx.2⟩

theorem wf_scope (pre : String) (dialect : LifecycleDialect) : (scope pre dialect).Wf := by
  have hbegins := wf_textElement isName_prefix (not_mem_xmlEscape pre.toList)
  cases dialect with
  | s3v2 => exact ⟨⟨by decide, by decide, by decide, by decide⟩, hbegins, trivial⟩
  | spacesV1 => exact hbegins

theorem wf_expiry (retention : Retention) : WfAll (expiry retention) := by
  have hone : ∀ days ∈ retention.days, '<' ∉ (toString days).toList := by
    cases retention <;> decide
  unfold expiry
  split
  · rename_i days hdays
    exact ⟨⟨⟨by decide, by decide, by decide, by decide⟩, wf_textElement
      ⟨by decide, by decide, by decide, by decide⟩ (hone days hdays), trivial⟩, trivial⟩
  · trivial

theorem wf_mineChildren (pre : String) (retention : Retention) (dialect : LifecycleDialect) :
    WfAll (mineChildren pre retention dialect) := by
  refine ⟨wf_textElement isName_id (not_mem_xmlEscape _), wf_scope pre dialect,
    wf_textElement ⟨by decide, by decide, by decide, by decide⟩ (by decide),
    wfAll_append (wf_expiry retention) ⟨⟨⟨by decide, by decide, by decide, by decide⟩,
      wf_textElement ⟨by decide, by decide, by decide, by decide⟩ (by decide), trivial⟩, trivial⟩⟩

theorem first_of_firstOf {name : List Char} {xs : List Xml} (h : firstOf name xs = none) :
    ∀ x ∈ xs, x.first name = none := by
  induction xs with
  | nil => exact fun x hx => absurd hx List.not_mem_nil
  | cons x xs ih =>
    rw [firstOf, Option.or_eq_none_iff] at h
    exact List.forall_mem_cons.mpr ⟨h.1, ih h.2⟩

theorem firstOf_prefix_mine (pre : String) (retention : Retention) (dialect : LifecycleDialect) :
    firstOf "Prefix".toList (mineChildren pre retention dialect) =
      some [.text (xmlEscape pre.toList)] := by
  cases dialect <;> rfl

def mine (pre : String) (retention : Retention) (dialect : LifecycleDialect) : Rule where
  children := mineChildren pre retention dialect
  wf := wf_mineChildren pre retention dialect
  flat := by cases retention <;> cases dialect <;> rfl
  direct := by
    refine List.forall_mem_cons.mpr ⟨.inr ⟨_, rfl, rfl⟩, fun x hx => .inl ?_⟩
    refine first_of_firstOf ?_ x hx
    cases retention <;> cases dialect <;> rfl
  single := by
    intro content h
    rw [firstOf_prefix_mine] at h
    obtain rfl := Option.some.inj h
    rfl

theorem render_text (raw : List Char) : render (piecesOf [.text raw]) = raw := List.append_nil raw

theorem mine_id (pre : String) (retention : Retention) (dialect : LifecycleDialect) :
    (mine pre retention dialect).id = some (ruleId pre).toList := by
  have htext : (mineChildren pre retention dialect).findSome? Rule.idText =
      some (render (piecesOf [.text (xmlEscape (ruleId pre).toList)])) := rfl
  show ((mineChildren pre retention dialect).findSome? Rule.idText).map xmlUnescape = _
  rw [htext, render_text, Option.map_some, xmlUnescape_xmlEscape]

theorem mine_isFor (pre : String) (retention : Retention) (dialect : LifecycleDialect) :
    (mine pre retention dialect).isFor pre := by
  have hbegins : (mine pre retention dialect).prefixText = some pre.toList := by
    show (firstOf "Prefix".toList (mineChildren pre retention dialect)).map _ = _
    rw [firstOf_prefix_mine, Option.map_some, render_text, xmlUnescape_xmlEscape]
  exact decide_eq_true hbegins

theorem isOurs_ruleId (pre : String) : isOurs (some (ruleId pre).toList) := by
  unfold isOurs ruleId
  rw [Option.any_some]
  simp only
  split_ifs
  · rw [decide_eq_true rfl, Bool.true_or]
  · rw [Bool.or_eq_true, List.isPrefixOf_iff_prefix, String.toList_append]
    exact .inr (List.prefix_append _ _)

theorem mine_ours (pre : String) (retention : Retention) (dialect : LifecycleDialect) :
    (mine pre retention dialect).ours := by
  rw [Rule.ours, mine_id]
  exact isOurs_ruleId pre

theorem ours_of_replaces {pre : String} {r : Rule} (h : r.replaces pre) : r.ours := by
  obtain h | h := (Bool.or_eq_true _ _).mp h
  · rw [Rule.ours, of_decide_eq_true h]
    exact isOurs_ruleId pre
  · exact ((Bool.and_eq_true _ _).mp h).1

theorem mine_replaces (pre : String) (retention : Retention) (dialect : LifecycleDialect) :
    (mine pre retention dialect).replaces pre := by
  rw [Rule.replaces, mine_id, decide_eq_true rfl, Bool.true_or]

theorem render_piecesOf_cons (x : Xml) (xs : List Xml) :
    render (piecesOf (x :: xs)) = render x.pieces ++ render (piecesOf xs) := render_append _ _

theorem render_textElement (tag : String) (raw : List Char) :
    render (textElement tag raw).pieces = xmlElement tag raw := by
  rw [textElement, render_element, render_text]

theorem s3Rule_eq (pre : String) (retention : Retention) (dialect : LifecycleDialect) :
    s3Rule pre retention dialect = xmlElement "Rule" (mine pre retention dialect).body := by
  have hnil : render (piecesOf []) = [] := rfl
  have hscope : render (scope pre dialect).pieces =
      match dialect with
      | .s3v2 => xmlElement "Filter" (xmlElement "Prefix" (xmlEscape pre.toList))
      | .spacesV1 => xmlElement "Prefix" (xmlEscape pre.toList) := by
    cases dialect with
    | s3v2 =>
      rw [scope, render_element, render_piecesOf_cons, render_textElement, hnil, List.append_nil]
    | spacesV1 => exact render_textElement _ _
  have hexpiry : ∀ xs : List Xml, render (piecesOf (expiry retention ++ xs)) =
      (match retention.days with
        | some days => xmlElement "Expiration" (xmlElement "Days" (toString days).toList)
        | none => []) ++ render (piecesOf xs) := by
    intro xs
    unfold expiry
    split
    · rw [List.singleton_append, render_piecesOf_cons, render_element, render_piecesOf_cons,
        render_textElement, hnil, List.append_nil]
    · rfl
  rw [Rule.body]
  show _ = xmlElement "Rule" (render (piecesOf (mineChildren pre retention dialect)))
  rw [mineChildren, render_piecesOf_cons, render_piecesOf_cons, render_piecesOf_cons, hexpiry,
    render_textElement, render_textElement, hscope, render_piecesOf_cons, render_element,
    render_piecesOf_cons, render_textElement, hnil, List.append_nil, List.append_nil]
  simp only [s3Rule, List.append_assoc]

/-! ## The merge -/

def assembled (rules : List Rule) (last : Rule) : Document where
  head := [.tag "?xml version=\"1.0\" encoding=\"UTF-8\"?".toList,
    .tag "LifecycleConfiguration".toList]
  entries := rules.map (fun r => (r, [])) ++ [(last, [.tag "/LifecycleConfiguration".toList])]
  wf_head := by
    refine List.forall_mem_cons.mpr ⟨⟨⟨by decide, by decide⟩, ?_⟩, fun p hp => ?_⟩
    · exact fun h => absurd (Piece.tag.inj h) (by decide)
    · rw [List.mem_singleton.mp hp]
      exact ⟨⟨by decide, by decide⟩, fun h => absurd (Piece.tag.inj h) (by decide)⟩
  wf_entries := by
    intro e he p hp
    obtain he | he := List.mem_append.mp he
    · obtain ⟨r, -, rfl⟩ := List.mem_map.mp he
      exact absurd hp List.not_mem_nil
    · rw [List.mem_singleton.mp he] at hp
      rw [List.mem_singleton.mp hp]
      exact ⟨⟨by decide, by decide⟩, fun h => absurd (Piece.tag.inj h) (by decide)⟩

theorem rules_assembled (rules : List Rule) (last : Rule) :
    (assembled rules last).rules = rules ++ [last] := by
  rw [Document.rules, assembled, List.map_append, List.map_map]
  congr 1
  exact List.map_id'' (fun _ => rfl) rules

theorem text_assembled (rules : List Rule) (last : Rule) :
    (assembled rules last).text =
      "<?xml version=\"1.0\" encoding=\"UTF-8\"?><LifecycleConfiguration>".toList ++
        (rules.map Rule.body).flatMap
          (fun rule => "<Rule>".toList ++ rule ++ "</Rule>".toList) ++
        xmlElement "Rule" last.body ++ "</LifecycleConfiguration>".toList := by
  have hhead : render [.tag "?xml version=\"1.0\" encoding=\"UTF-8\"?".toList,
      .tag "LifecycleConfiguration".toList] =
      "<?xml version=\"1.0\" encoding=\"UTF-8\"?><LifecycleConfiguration>".toList := by
    decide +kernel
  have hopen : (Piece.tag "Rule".toList).render = "<Rule>".toList := by decide
  have hclose : (Piece.tag ('/' :: "Rule".toList)).render = "</Rule>".toList := by decide
  have hend : render [.tag "/LifecycleConfiguration".toList] =
      "</LifecycleConfiguration>".toList := by decide +kernel
  have hentry : ∀ r : Rule, Document.entryText (r, []) =
      "<Rule>".toList ++ r.body ++ "</Rule>".toList := by
    intro r
    rw [Document.entryText, xmlElement_eq, hopen, hclose]
    show "<Rule>".toList ++ (r.body ++ "</Rule>".toList) ++ [] = _
    rw [List.append_nil, List.append_assoc]
  rw [Document.text, assembled, hhead, List.flatMap_append, List.flatMap_map, List.flatMap_map,
    List.flatMap_singleton, Document.entryText, hend, funext hentry]
  simp only [List.append_assoc]

/-- The rules of the bucket that stay where there is room for them. -/
def kept (d : Document) (pre : String) : List Rule := d.rules.filter fun r => !r.replaces pre

theorem mergeS3Lifecycle_eq (d : Document) (pre : String) (retention : Retention)
    (dialect : LifecycleDialect) (maxRules : ℕ) :
    mergeS3Lifecycle d.text pre retention dialect maxRules =
      if (kept d pre).length + 1 - maxRules ≤ ((kept d pre).filter Rule.ours).length then
        some (assembled (dropFirst Rule.ours ((kept d pre).length + 1 - maxRules) (kept d pre))
          (mine pre retention dialect)).text
      else none := by
  have hkept : ((cutRules d.text).filter fun rule => !replaced pre rule) =
      (kept d pre).map Rule.body := by
    rw [cutRules_text, List.filter_map, kept]
    exact congrArg (List.map _)
      (List.filter_congr fun r _ => congrArg not (replaced_body pre r))
  have hours : ∀ rules : List Rule,
      ((rules.map Rule.body).filter ruleIsOurs).length = (rules.filter Rule.ours).length := by
    intro rules
    rw [List.filter_map, List.length_map]
    exact congrArg List.length (List.filter_congr fun r _ => ruleIsOurs_body r)
  have hdrop : ∀ k, dropFirst ruleIsOurs k ((kept d pre).map Rule.body) =
      (dropFirst Rule.ours k (kept d pre)).map Rule.body := by
    intro k
    rw [dropFirst_map, funext ruleIsOurs_body]
  simp only [mergeS3Lifecycle, makeRoom]
  rw [makeRoom_eq le_rfl, hkept, hours, hdrop, List.length_map]
  split_ifs
  · rw [Option.map_some, text_assembled, s3Rule_eq]
  · rfl

theorem hosts_kept (d : Document) (pre : String) :
    (kept d pre).filter (fun r => !r.ours) = d.hosts := by
  rw [kept, Document.hosts, List.filter_filter]
  refine List.filter_congr fun r _ => ?_
  cases hours : r.ours with
  | true => rfl
  | false =>
    cases hreplaces : r.replaces pre with
    | true => exact absurd (ours_of_replaces hreplaces) (hours ▸ Bool.false_ne_true)
    | false => rfl

theorem isFor_kept {d : Document} {pre : String} {r : Rule} (hr : r ∈ kept d pre)
    (hfor : r.isFor pre) : r.ours = false := by
  have hkeeps := (List.mem_filter.mp hr).2
  rw [Bool.not_eq_true', Rule.replaces, Bool.or_eq_false_iff, hfor, Bool.and_true] at hkeeps
  exact hkeeps.2

/-- For every document of rules, every prefix and every choice. No result exactly when the
host's rules leave no room. Otherwise the result is a document of rules again: JamStream's
own are dropped the oldest first and only as many as it takes, the host's stay as they were,
one rule of JamStream's is for the prefix, and merging again changes nothing. -/
theorem merge_s3_lifecycle (d : Document) (pre : String) (retention : Retention)
    (dialect : LifecycleDialect) (maxRules : ℕ) :
    (mergeS3Lifecycle d.text pre retention dialect maxRules = none ↔
      maxRules ≤ d.hosts.length) ∧
    ∀ out ∈ mergeS3Lifecycle d.text pre retention dialect maxRules, ∃ d' : Document,
      out = d'.text ∧
      d'.rules = dropFirst Rule.ours ((kept d pre).length + 1 - maxRules) (kept d pre) ++
        [mine pre retention dialect] ∧
      d'.hosts = d.hosts ∧
      d'.rules.filter (Rule.isFor pre) =
        d.hosts.filter (Rule.isFor pre) ++ [mine pre retention dialect] ∧
      mergeS3Lifecycle out pre retention dialect maxRules = some out := by
  have hcount : (kept d pre).length = ((kept d pre).filter Rule.ours).length + d.hosts.length := by
    rw [← hosts_kept d pre, ← List.countP_eq_length_filter, ← List.countP_eq_length_filter,
      List.length_eq_countP_add_countP Rule.ours]
    simp only [Bool.not_eq_true, Bool.decide_eq_false]
  rw [mergeS3Lifecycle_eq]
  split_ifs with hroom
  · refine ⟨iff_of_false False.elim (by omega), fun out hout => ?_⟩
    obtain rfl := Option.some.inj hout
    have hlength := length_dropFirst hroom
    have hhosts := filter_not_dropFirst (p := Rule.ours) ((kept d pre).length + 1 - maxRules)
      (kept d pre)
    rw [hosts_kept] at hhosts
    have hstays : ∀ r ∈ dropFirst Rule.ours ((kept d pre).length + 1 - maxRules) (kept d pre),
        r ∈ kept d pre := fun r hr => (dropFirst_sublist _ _).subset hr
    -- from here on only what is known of the survivors counts, not how they were chosen
    generalize dropFirst Rule.ours ((kept d pre).length + 1 - maxRules) (kept d pre) =
      survivors at hlength hhosts hstays ⊢
    have hlast := mine_ours pre retention dialect
    refine ⟨assembled survivors (mine pre retention dialect), rfl, rules_assembled _ _, ?_, ?_, ?_⟩
    · rw [Document.hosts, rules_assembled, List.filter_append, hhosts,
        List.filter_cons_of_neg (by simp [hlast])]
      exact List.append_nil _
    · rw [rules_assembled, List.filter_append, List.filter_cons_of_pos (mine_isFor _ _ _),
        ← hhosts, List.filter_filter]
      refine congrArg (· ++ _) (List.filter_congr fun r hr => ?_)
      cases hfor : r.isFor pre with
      | false => rfl
      | true =>
        rw [isFor_kept (hstays r hr) hfor]
        rfl
    · have hkept : kept (assembled survivors (mine pre retention dialect)) pre = survivors := by
        rw [kept, rules_assembled, List.filter_append,
          List.filter_cons_of_neg (by simp [mine_replaces]), List.filter_nil, List.append_nil]
        exact List.filter_eq_self.mpr fun r hr => (List.mem_filter.mp (hstays r hr)).2
      -- merged again, nothing has to go
      have hfits : survivors.length + 1 - maxRules = 0 := by omega
      rw [mergeS3Lifecycle_eq, hkept, hfits, if_pos (Nat.zero_le _), dropFirst_zero]
  · exact ⟨iff_of_true rfl (by omega), fun out hout => absurd hout.symm (Option.some_ne_none _)⟩

end S3Lifecycle
end JamStream.Cloud
