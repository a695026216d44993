import JamStream.Foundations.Search

/-! Marked-up text: tags in angle brackets with text between them. Looking for the text of a
tag finds the tag itself, and a tree of elements is a sequence of tags and texts. -/

namespace JamStream.Foundations.Markup

inductive Piece
  | text (raw : List Char)
  | tag (inside : List Char)

namespace Piece

def render : Piece → List Char
  | text raw => raw
  | tag inside => '<' :: (inside ++ ['>'])

/-- No angle bracket opens inside, and a tag ends with the first that closes. -/
def Wf : Piece → Prop
  | text raw => '<' ∉ raw
  | tag inside => '<' ∉ inside ∧ '>' ∉ inside

end Piece

def render (ps : List Piece) : List Char := ps.flatMap Piece.render

theorem render_append (ps qs : List Piece) : render (ps ++ qs) = render ps ++ render qs :=
  List.flatMap_append

theorem render_cons (p : Piece) (ps : List Piece) : render (p :: ps) = p.render ++ render ps :=
  List.flatMap_cons

theorem splitFirst_skip_pieces {inside : List Char} (hin : '>' ∉ inside) {ps : List Piece}
    (hps : ∀ p ∈ ps, p.Wf) (hno : .tag inside ∉ ps) (rest : List Char) :
    splitFirst (Piece.tag inside).render (render ps ++ rest) =
      (splitFirst (Piece.tag inside).render rest).map fun r => (render ps ++ r.1, r.2) := by
  induction ps with
  | nil => exact Option.map_id'.symm
  | cons p ps ih =>
    obtain ⟨hp, hrest⟩ := List.forall_mem_cons.mp hps
    rw [List.mem_cons, not_or] at hno
    have hstep : splitFirst (Piece.tag inside).render (p.render ++ (render ps ++ rest)) =
        (splitFirst (Piece.tag inside).render (render ps ++ rest)).map fun r =>
          (p.render ++ r.1, r.2) := by
      cases p with
      | text raw => exact splitFirst_skip hp
      | tag other =>
        refine splitFirst_pass (t := other ++ ['>']) ?_ ?_
        · rw [List.mem_append, List.mem_singleton, not_or]
          exact ⟨hp.1, by decide⟩
        · exact not_prefix_of_mark hin hp.2 fun heq => hno.1 (congrArg Piece.tag heq)
    rw [render_cons, List.append_assoc, hstep, ih hrest hno.2, Option.map_map]
    congr 1
    funext r
    simp only [Function.comp, List.append_assoc]

theorem splitFirst_tag {inside : List Char} (hin : '>' ∉ inside) {ps : List Piece}
    (hps : ∀ p ∈ ps, p.Wf) (hno : .tag inside ∉ ps) (rest : List Char) :
    splitFirst (Piece.tag inside).render (render ps ++ ((Piece.tag inside).render ++ rest)) =
      some (render ps, rest) := by
  have htag : (Piece.tag inside).render ≠ [] := List.cons_ne_nil _ _
  rw [splitFirst_skip_pieces hin hps hno, splitFirst_here htag, Option.map_some, List.append_nil]

theorem splitFirst_no_tag {inside : List Char} (hin : '>' ∉ inside) {ps : List Piece}
    (hps : ∀ p ∈ ps, p.Wf) (hno : .tag inside ∉ ps) :
    splitFirst (Piece.tag inside).render (render ps) = none := by
  have h := splitFirst_skip_pieces hin hps hno []
  rw [List.append_nil] at h
  rw [h]
  rfl

/-! ## Trees -/

/-- An element with its content, an empty element, or text as it stands in the document. -/
inductive Xml
  | text (raw : List Char)
  | empty (name : List Char)
  | element (name : List Char) (children : List Xml)

structure IsName (name : List Char) : Prop where
  nonempty : name ≠ []
  opens : '<' ∉ name
  closes : '>' ∉ name
  slash : '/' ∉ name

mutual

def Xml.pieces : Xml → List Piece
  | .text raw => [.text raw]
  | .empty name => [.tag (name ++ ['/'])]
  | .element name children => .tag name :: (piecesOf children ++ [.tag ('/' :: name)])

def piecesOf : List Xml → List Piece
  | [] => []
  | x :: xs => x.pieces ++ piecesOf xs

end

mutual

def Xml.Wf : Xml → Prop
  | .text raw => '<' ∉ raw
  | .empty name => IsName name
  | .element name children => IsName name ∧ WfAll children

def WfAll : List Xml → Prop
  | [] => True
  | x :: xs => x.Wf ∧ WfAll xs

end

mutual

/-- The content of the first element of a name, in the order of their start tags. -/
def Xml.first (name : List Char) : Xml → Option (List Xml)
  | .text _ => none
  | .empty _ => none
  | .element other children => if other = name then some children else firstOf name children

def firstOf (name : List Char) : List Xml → Option (List Xml)
  | [] => none
  | x :: xs => (x.first name).or (firstOf name xs)

end

variable {name : List Char}

mutual

theorem Xml.pieces_wf : ∀ {x : Xml}, x.Wf → ∀ p ∈ x.pieces, p.Wf
  | .text raw, h, p, hp => by
    rw [List.mem_singleton.mp hp]
    exact h
  | .empty other, h, p, hp => by
    rw [List.mem_singleton.mp hp]
    refine ⟨?_, ?_⟩
    · exact List.not_mem_append h.opens (by decide)
    · exact List.not_mem_append h.closes (by decide)
  | .element other children, h, p, hp => by
    rw [Xml.pieces, List.mem_cons, List.mem_append, List.mem_singleton] at hp
    obtain rfl | hp | rfl := hp
    · exact ⟨h.1.opens, h.1.closes⟩
    · exact piecesOf_wf h.2 p hp
    · exact ⟨List.not_mem_cons_of_ne_of_not_mem (by decide) h.1.opens,
        List.not_mem_cons_of_ne_of_not_mem (by decide) h.1.closes⟩

theorem piecesOf_wf : ∀ {xs : List Xml}, WfAll xs → ∀ p ∈ piecesOf xs, p.Wf
  | [], _, p, hp => absurd hp List.not_mem_nil
  | x :: xs, h, p, hp => by
    rw [piecesOf, List.mem_append] at hp
    exact hp.elim (Xml.pieces_wf h.1 p) (piecesOf_wf h.2 p)

end

mutual

theorem Xml.not_mem_pieces (hname : IsName name) :
    ∀ {x : Xml}, x.Wf → x.first name = none →
      .tag name ∉ x.pieces ∧ .tag ('/' :: name) ∉ x.pieces
  | .text raw, _, _ => by
    rw [Xml.pieces]
    exact ⟨fun h => (nomatch List.mem_singleton.mp h), fun h => (nomatch List.mem_singleton.mp h)⟩
  | .empty other, hwf, _ => by
    rw [Xml.pieces, List.mem_singleton, List.mem_singleton, Piece.tag.injEq, Piece.tag.injEq]
    refine ⟨fun h => hname.slash (h ▸ List.mem_append_right _ List.mem_cons_self), fun h => ?_⟩
    cases other with
    | nil => exact hwf.nonempty rfl
    | cons c other => exact hwf.slash ((List.cons.inj h).1 ▸ List.mem_cons_self)
  | .element other children, hwf, hnone => by
    rw [Xml.first] at hnone
    split_ifs at hnone with hother
    obtain ⟨hopen, hclose⟩ := not_mem_piecesOf hname hwf.2 hnone
    rw [Xml.pieces]
    rw [List.mem_cons, List.mem_append, List.mem_singleton, List.mem_cons, List.mem_append,
      List.mem_singleton, Piece.tag.injEq, Piece.tag.injEq, Piece.tag.injEq, Piece.tag.injEq]
    refine ⟨?_, ?_⟩
    · rintro (h | h | h)
      · exact hother h.symm
      · exact hopen h
      · exact hname.slash (h ▸ List.mem_cons_self)
    · rintro (h | h | h)
      · exact hwf.1.slash (h ▸ List.mem_cons_self)
      · exact hclose h
      · exact hother (List.cons.inj h).2.symm

theorem not_mem_piecesOf (hname : IsName name) :
    ∀ {xs : List Xml}, WfAll xs → firstOf name xs = none →
      .tag name ∉ piecesOf xs ∧ .tag ('/' :: name) ∉ piecesOf xs
  | [], _, _ => ⟨List.not_mem_nil, List.not_mem_nil⟩
  | x :: xs, hwf, hnone => by
    rw [firstOf, Option.or_eq_none_iff] at hnone
    obtain ⟨hopen, hclose⟩ := Xml.not_mem_pieces hname hwf.1 hnone.1
    obtain ⟨hopen', hclose'⟩ := not_mem_piecesOf hname hwf.2 hnone.2
    rw [piecesOf]
    exact ⟨List.not_mem_append hopen hopen', List.not_mem_append hclose hclose'⟩

end

mutual

/-- Where an element of a name is, its start tag is the first, and its content comes next. -/
theorem Xml.pieces_of_first : ∀ {x : Xml} {content : List Xml}, x.Wf →
    IsName name → x.first name = some content → WfAll content ∧
      ∃ before after, x.pieces =
        before ++ .tag name :: (piecesOf content ++ .tag ('/' :: name) :: after) ∧
          .tag name ∉ before
  | .text raw, _, _, _, h => absurd h.symm (Option.some_ne_none _)
  | .empty other, _, _, _, h => absurd h.symm (Option.some_ne_none _)
  | .element other children, content, hwf, hname, h => by
    rw [Xml.first] at h
    split_ifs at h with hother
    · obtain rfl := Option.some.inj h
      refine ⟨hwf.2, [], [], ?_, List.not_mem_nil⟩
      rw [Xml.pieces, hother]
      rfl
    · obtain ⟨hcontent, before, after, heq, hno⟩ := pieces_of_firstOf hwf.2 hname h
      refine ⟨hcontent, .tag other :: before, after ++ [.tag ('/' :: other)], ?_, ?_⟩
      · rw [Xml.pieces, heq]
        simp only [List.cons_append, List.append_assoc]
      · rw [List.mem_cons, not_or, Piece.tag.injEq]
        exact ⟨fun h => hother h.symm, hno⟩

theorem pieces_of_firstOf : ∀ {xs content : List Xml}, WfAll xs → IsName name →
    firstOf name xs = some content → WfAll content ∧
      ∃ before after, piecesOf xs =
        before ++ .tag name :: (piecesOf content ++ .tag ('/' :: name) :: after) ∧
          .tag name ∉ before
  | [], _, _, _, h => absurd h.symm (Option.some_ne_none _)
  | x :: xs, content, hwf, hname, h => by
    rw [firstOf] at h
    cases hx : x.first name with
    | some found =>
      rw [hx] at h
      obtain rfl := Option.some.inj h
      obtain ⟨hcontent, before, after, heq, hno⟩ := Xml.pieces_of_first hwf.1 hname hx
      refine ⟨hcontent, before, after ++ piecesOf xs, ?_, hno⟩
      rw [piecesOf, heq]
      simp only [List.cons_append, List.append_assoc]
    | none =>
      rw [hx, Option.none_or] at h
      obtain ⟨hcontent, before, after, heq, hno⟩ := pieces_of_firstOf hwf.2 hname h
      refine ⟨hcontent, x.pieces ++ before, after, ?_, ?_⟩
      · rw [piecesOf, heq, List.append_assoc]
      · exact List.not_mem_append (Xml.not_mem_pieces hname hwf.1 hx).1 hno

end

end JamStream.Foundations.Markup
