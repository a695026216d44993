import JamStream.Foundations.Markup

/-! The provider's documents, read by looking for tags. -/

namespace JamStream.Cloud
open Foundations Foundations.Markup

/-- The text of the first element of a name, and what comes after it. -/
def takeTag (xml tag : List Char) : Option (List Char × List Char) :=
  (splitFirst ('<' :: (tag ++ ['>'])) xml).bind fun opened =>
    splitFirst ('<' :: '/' :: (tag ++ ['>'])) opened.2

def xmlValue (xml tag : List Char) : Option (List Char) := (takeTag xml tag).map Prod.fst

theorem length_of_splitFirst {pat xs a b : List Char} (h : splitFirst pat xs = some (a, b)) :
    pat.length + b.length ≤ xs.length := by
  rw [splitFirst_sound h, List.length_append, List.length_append]
  omega

theorem length_of_takeTag {xml tag rule after : List Char}
    (h : takeTag xml tag = some (rule, after)) : after.length < xml.length := by
  obtain ⟨⟨before, opened⟩, hopen, hclose⟩ := Option.bind_eq_some_iff.mp h
  have hopened := length_of_splitFirst hopen
  have hclosed := length_of_splitFirst hclose
  simp only [List.length_cons] at hopened hclosed
  omega

/-- Ampersands come last, so what they spell is not read again. -/
def xmlUnescape (s : List Char) : List Char :=
  replace "&amp;".toList ['&'] (replace "&apos;".toList ['\''] (replace "&quot;".toList ['"']
    (replace "&gt;".toList ['>'] (replace "&lt;".toList ['<'] s))))

def xmlEscapeChar : Char → List Char
  | '&' => "&amp;".toList
  | '<' => "&lt;".toList
  | '>' => "&gt;".toList
  | '"' => "&quot;".toList
  | '\'' => "&apos;".toList
  | other => [other]

def xmlEscape (s : List Char) : List Char := s.flatMap xmlEscapeChar

/-! ## Entities -/

def entities : List (Char × List Char) :=
  [('<', "lt".toList), ('>', "gt".toList), ('"', "quot".toList), ('\'', "apos".toList),
    ('&', "amp".toList)]

def reference (name : List Char) : List Char := '&' :: (name ++ [';'])

def escapeChar (pending : List (Char × List Char)) (c : Char) : List Char :=
  ((pending.find? fun e => e.1 = c).map fun e => reference e.2).getD [c]

theorem xmlEscapeChar_eq (c : Char) : xmlEscapeChar c = escapeChar entities c := by
  unfold xmlEscapeChar
  split
  · decide
  · decide
  · decide
  · decide
  · decide
  · rename_i hamp hlt hgt hquot hapos
    have hnone : (entities.find? fun e => e.1 = c) = none := by
      rw [List.find?_eq_none]
      simp only [entities, List.forall_mem_cons, decide_eq_true_eq]
      exact ⟨Ne.symm hlt, Ne.symm hgt, Ne.symm hquot, Ne.symm hapos, Ne.symm hamp,
        fun e he => absurd he List.not_mem_nil⟩
    rw [escapeChar, hnone]
    rfl

theorem replace_reference {d : Char} {n : List Char} {pending : List (Char × List Char)}
    (hmarks : ∀ x ∈ (d, n) :: pending, ';' ∉ x.2 ∧ '&' ∉ x.2)
    (hother : ∀ x ∈ pending, x.1 ≠ d ∧ n ≠ x.2) (hamp : ∃ x ∈ (d, n) :: pending, x.1 = '&')
    (s : List Char) :
    replace (reference n) [d] (s.flatMap (escapeChar ((d, n) :: pending))) =
      s.flatMap (escapeChar pending) := by
  induction s with
  | nil => rfl
  | cons c s ih =>
    rw [List.flatMap_cons, List.flatMap_cons, ← ih]
    by_cases hc : d = c
    · have hhere : escapeChar ((d, n) :: pending) c = reference n := by
        rw [escapeChar, List.find?_cons_of_pos (by simpa using hc)]
        rfl
      have hplain : escapeChar pending c = [d] := by
        have hnone : (pending.find? fun x => x.1 = c) = none :=
          List.find?_eq_none.mpr fun x hx => by simpa [← hc] using (hother x hx).1
        rw [escapeChar, hnone, hc]
        rfl
      have hreference : reference n ≠ [] := List.cons_ne_nil _ _
      rw [hhere, hplain, replace_here hreference]
    · have hsame : escapeChar ((d, n) :: pending) c = escapeChar pending c := by
        rw [escapeChar, List.find?_cons_of_neg (by simpa using hc)]
        rfl
      rw [hsame]
      cases hfind : pending.find? fun x => x.1 = c with
      | some x =>
        have hx := List.mem_of_find?_eq_some hfind
        have hescaped : escapeChar pending c = '&' :: (x.2 ++ [';']) := by
          rw [escapeChar, hfind]
          rfl
        rw [hescaped]
        refine replace_block (List.not_mem_append ?_ (by decide)) ?_
        · exact (hmarks x (List.mem_cons_of_mem _ hx)).2
        · exact not_prefix_of_mark (hmarks (d, n) List.mem_cons_self).1
            (hmarks x (List.mem_cons_of_mem _ hx)).1 (hother x hx).2
      | none =>
        have hplain : escapeChar pending c = [c] := by
          rw [escapeChar, hfind]
          rfl
        have hmark : '&' ∉ [c] := by
          rw [List.mem_singleton]
          rintro rfl
          obtain ⟨x, hx, hamp⟩ := hamp
          obtain rfl | hx := List.mem_cons.mp hx
          · exact hc hamp
          · exact absurd (by simpa using hamp) (List.find?_eq_none.mp hfind x hx)
        rw [hplain]
        exact replace_skip hmark

theorem xmlUnescape_xmlEscape (s : List Char) : xmlUnescape (xmlEscape s) = s := by
  have hescape : xmlEscape s = s.flatMap (escapeChar entities) := by
    rw [xmlEscape, funext xmlEscapeChar_eq]
  have hplain : escapeChar [] = fun c => [c] := rfl
  rw [hescape, xmlUnescape]
  rw [show "&lt;".toList = reference "lt".toList by decide,
    show "&gt;".toList = reference "gt".toList by decide,
    show "&quot;".toList = reference "quot".toList by decide,
    show "&apos;".toList = reference "apos".toList by decide,
    show "&amp;".toList = reference "amp".toList by decide]
  rw [entities, replace_reference (by decide) (by decide) (by decide),
    replace_reference (by decide) (by decide) (by decide),
    replace_reference (by decide) (by decide) (by decide),
    replace_reference (by decide) (by decide) (by decide),
    replace_reference (by decide) (by decide) (by decide), hplain, List.flatMap_singleton']

theorem not_mem_xmlEscape (s : List Char) : '<' ∉ xmlEscape s := by
  unfold xmlEscape
  rw [List.mem_flatMap]
  rintro ⟨c, -, hc⟩
  unfold xmlEscapeChar at hc
  split at hc
  all_goals try exact absurd hc (by decide)
  rename_i hlt _ _ _
  exact hlt (List.mem_singleton.mp hc).symm

/-! ## Elements -/

variable {name : List Char}

theorem takeTag_element (hname : IsName name) {before body : List Piece}
    (hbefore : ∀ p ∈ before, p.Wf) (hbody : ∀ p ∈ body, p.Wf) (hno : .tag name ∉ before)
    (hclose : .tag ('/' :: name) ∉ body) (rest : List Char) :
    takeTag (render before ++ ((Piece.tag name).render ++ (render body ++
      ((Piece.tag ('/' :: name)).render ++ rest)))) name = some (render body, rest) := by
  have hslash : '>' ∉ '/' :: name := List.not_mem_cons_of_ne_of_not_mem (by decide) hname.closes
  have hopened := splitFirst_tag hname.closes hbefore hno (render body ++
    ((Piece.tag ('/' :: name)).render ++ rest))
  have hclosed := splitFirst_tag hslash hbody hclose rest
  unfold takeTag
  change (splitFirst (Piece.tag name).render _).bind _ = _
  rw [hopened]
  exact hclosed

theorem takeTag_none (hname : IsName name) {ps : List Piece} (hps : ∀ p ∈ ps, p.Wf)
    (hno : .tag name ∉ ps) : takeTag (render ps) name = none := by
  have hopened := splitFirst_no_tag hname.closes hps hno
  unfold takeTag
  change (splitFirst (Piece.tag name).render _).bind _ = _
  rw [hopened]
  rfl

/-- The value of a name is the content of its first element, if no other is inside it. -/
theorem xmlValue_piecesOf (hname : IsName name) {xs : List Xml} (hxs : WfAll xs)
    (hnest : ∀ content, firstOf name xs = some content → firstOf name content = none) :
    xmlValue (render (piecesOf xs)) name =
      (firstOf name xs).map fun content => render (piecesOf content) := by
  unfold xmlValue
  cases hfirst : firstOf name xs with
  | none =>
    rw [takeTag_none hname (piecesOf_wf hxs) (not_mem_piecesOf hname hxs hfirst).1]
    rfl
  | some content =>
    obtain ⟨hcontent, before, after, heq, hno⟩ := pieces_of_firstOf hxs hname hfirst
    have hbefore : ∀ p ∈ before, p.Wf := fun p hp =>
      piecesOf_wf hxs p (heq ▸ List.mem_append_left _ hp)
    rw [heq, render_append, render_cons, render_append, render_cons,
      takeTag_element hname hbefore (piecesOf_wf hcontent) hno
        (not_mem_piecesOf hname hcontent (hnest content hfirst)).2]
    rfl

end JamStream.Cloud
