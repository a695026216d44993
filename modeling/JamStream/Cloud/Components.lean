import JamStream.Cloud.Storage
import JamStream.Foundations.Chars

/-! What a sanitized component is like: safe as a file name on any system, and unchanged when it
is sanitized again. -/

namespace JamStream.Cloud
open Foundations

def isControl (c : Char) : Bool := c.toNat < 0x20 || (0x7F ≤ c.toNat && c.toNat ≤ 0x9F)

def reservedChars : List Char := ['<', '>', ':', '"', '|', '?', '*', '\\']

def windowsHazard (component : String) : Option String :=
  if component.toList.any fun c => reservedChars.contains c || isControl c then
    some "contains a character Windows reserves"
  else if component.toList.getLast? = some '.' || component.toList.getLast? = some ' ' then
    some "ends with a dot or a space, which Windows strips"
  else if reservedDeviceName component.toList then some "is a DOS device name"
  else none

def Allowed (c : Char) : Prop := c.isAlphanum ∨ c = '-' ∨ c = '_' ∨ c = '.'

structure Spaced (out : List Char) : Prop where
  leading : out.head? ≠ some '.'
  single : ¬['.', '.'] <:+: out

/-- A name that no file system and no shell reads as anything but a name. -/
structure SafeName (ok : Char → Prop) (name : String) : Prop where
  nonempty : name ≠ ""
  allowed : ∀ c ∈ name.toList, ok c
  spaced : Spaced name.toList
  trailing : name.toList.getLast? ≠ some '.'
  hazard : windowsHazard name = none

variable {out : List Char} {c : Char}

theorem infix_append_singleton {a b : Char} (hfar : ¬[a, b] <:+: out)
    (hnear : out.getLast? ≠ some a ∨ c ≠ b) : ¬[a, b] <:+: out ++ [c] := by
  rintro ⟨before, after, heq⟩
  rcases List.eq_nil_or_concat' after with rfl | ⟨front, last, rfl⟩
  · rw [List.append_nil, show before ++ [a, b] = (before ++ [a]) ++ [b] by simp] at heq
    obtain ⟨hout, hlast⟩ := List.append_inj' heq rfl
    rcases hnear with hnear | hnear
    · refine hnear ?_
      rw [← hout, List.getLast?_append_cons]
      rfl
    · exact hnear (List.singleton_inj.mp hlast).symm
  · rw [← List.append_assoc] at heq
    exact hfar ⟨before, front, (List.append_inj' heq rfl).1⟩

theorem Spaced.append (h : Spaced out) (hc : c = '.' → out ≠ [] ∧ out.getLast? ≠ some '.') :
    Spaced (out ++ [c]) := by
  constructor
  · cases out with
    | nil =>
      intro hlead
      exact (hc (Option.some.inj hlead)).1 rfl
    | cons a out => exact h.leading
  · refine infix_append_singleton h.single ?_
    by_cases hdot : c = '.'
    · exact Or.inl (hc hdot).2
    · exact Or.inr hdot

theorem sanitizeChar_spaced (h : Spaced out) (c : Char) : Spaced (sanitizeChar out c) := by
  unfold sanitizeChar
  split_ifs with hdot hroom hkept
  · rw [Bool.and_eq_true, Bool.not_eq_true', List.isEmpty_eq_false_iff, decide_eq_true_eq] at hroom
    exact h.append fun _ => hroom
  · exact h
  · exact h.append fun hc => absurd hc hdot
  · exact h.append fun hc => absurd hc (by decide)

theorem sanitizeChar_allowed (h : ∀ c ∈ out, Allowed c) (c : Char) :
    ∀ d ∈ sanitizeChar out c, Allowed d := by
  have hsnoc : ∀ e, Allowed e → ∀ d ∈ out ++ [e], Allowed d := by
    intro e he d hd
    rcases List.mem_append.mp hd with hd | hd
    · exact h d hd
    · exact List.mem_singleton.mp hd ▸ he
  unfold sanitizeChar
  split_ifs with hdot hroom hkept
  · exact hsnoc '.' (by unfold Allowed; exact Or.inr (Or.inr (Or.inr rfl)))
  · exact h
  · refine hsnoc c ?_
    rw [Bool.or_eq_true, Bool.or_eq_true, decide_eq_true_eq, decide_eq_true_eq] at hkept
    rcases hkept with (halnum | hdash) | hscore
    · exact Or.inl halnum
    · exact Or.inr (Or.inl hdash)
    · exact Or.inr (Or.inr (Or.inl hscore))
  · exact hsnoc '-' (Or.inr (Or.inl rfl))

theorem foldl_sanitizeChar (raw : List Char) :
    Spaced (raw.foldl sanitizeChar []) ∧ ∀ c ∈ raw.foldl sanitizeChar [], Allowed c := by
  induction raw using List.reverseRecOn with
  | nil =>
    refine ⟨⟨(Option.some_ne_none _).symm, fun h => ?_⟩, fun c hc => absurd hc List.not_mem_nil⟩
    exact absurd h.length_le (by decide)
  | append_singleton raw c ih =>
    rw [List.foldl_append]
    exact ⟨sanitizeChar_spaced ih.1 c, sanitizeChar_allowed ih.2 c⟩

theorem Spaced.of_append {last : Char} (h : Spaced (out ++ [last])) : Spaced out := by
  constructor
  · cases out with
    | nil => exact (Option.some_ne_none _).symm
    | cons a out => exact h.leading
  · exact fun hin => h.single (hin.trans (List.prefix_append out [last]).isInfix)

theorem dropDot_spaced (h : Spaced out) (hallowed : ∀ c ∈ out, Allowed c) :
    Spaced (if out.getLast? = some '.' then out.dropLast else out) ∧
      (∀ c ∈ (if out.getLast? = some '.' then out.dropLast else out), Allowed c) ∧
      (if out.getLast? = some '.' then out.dropLast else out).getLast? ≠ some '.' := by
  split_ifs with hdot
  · obtain ⟨front, rfl⟩ := List.getLast?_eq_some_iff.mp hdot
    rw [List.dropLast_concat]
    refine ⟨h.of_append, fun c hc => hallowed c (List.mem_append_left _ hc), fun hdouble => ?_⟩
    obtain ⟨rest, rfl⟩ := List.getLast?_eq_some_iff.mp hdouble
    refine h.single ⟨rest, [], ?_⟩
    rw [List.append_nil, List.append_assoc]
    rfl
  · exact ⟨h, hallowed, hdot⟩

theorem not_reserved_of_isAlphanum (h : c.isAlphanum) : c ∉ reservedChars := by
  intro hin
  have hnone : reservedChars.all (fun d => !d.isAlphanum) = true := by decide
  have hout := List.all_eq_true.mp hnone c hin
  rw [h] at hout
  exact Bool.false_ne_true hout

def Plain (c : Char) : Prop := c ∉ reservedChars ∧ isControl c = false ∧ c ≠ ' '

theorem Allowed.plain (h : Allowed c) : Plain c := by
  rcases h with h | rfl | rfl | rfl
  · have hrange := toNat_of_isAlphanum h
    refine ⟨not_reserved_of_isAlphanum h, ?_, ?_⟩
    · unfold isControl
      rw [Bool.or_eq_false_iff, Bool.and_eq_false_iff, decide_eq_false_iff_not,
        decide_eq_false_iff_not]
      exact ⟨by omega, Or.inl (by omega)⟩
    · rintro rfl
      exact absurd h (by decide)
  · unfold Plain
    decide
  · unfold Plain
    decide
  · unfold Plain
    decide

theorem windowsHazard_eq_none {name : String} (hplain : ∀ c ∈ name.toList, Plain c)
    (htrailing : name.toList.getLast? ≠ some '.')
    (hdevice : reservedDeviceName name.toList = false) : windowsHazard name = none := by
  unfold windowsHazard
  rw [if_neg, if_neg, if_neg]
  · rw [hdevice]
    exact Bool.false_ne_true
  · rw [Bool.or_eq_true, decide_eq_true_eq, decide_eq_true_eq, not_or]
    refine ⟨htrailing, fun hspace => ?_⟩
    exact (hplain ' ' (List.mem_of_getLast? hspace)).2.2 rfl
  · rw [List.any_eq_true]
    rintro ⟨c, hc, hbad⟩
    rw [Bool.or_eq_true, List.contains_iff_mem] at hbad
    rcases hbad with hbad | hbad
    · exact (hplain c hc).1 hbad
    · rw [(hplain c hc).2.1] at hbad
      exact Bool.false_ne_true hbad

theorem reservedDeviceName_cons_dash (out : List Char) :
    reservedDeviceName ('-' :: out) = false := by
  have hstem : (('-' :: out).takeWhile (· ≠ '.')).map Char.toLower =
      '-' :: (out.takeWhile (· ≠ '.')).map Char.toLower := by
    rw [List.takeWhile_cons_of_pos (by decide), List.map_cons]
    rfl
  unfold reservedDeviceName
  simp only [hstem]
  generalize (out.takeWhile (· ≠ '.')).map Char.toLower = rest
  rcases rest with _ | ⟨b, _ | ⟨c, _ | ⟨d, _ | ⟨e, rest⟩⟩⟩⟩
  · decide
  · simp
  · simp
  · simp
  · simp

theorem reservedDeviceName_long {name : List Char}
    (h : 5 ≤ (name.takeWhile (· ≠ '.')).length) : reservedDeviceName name = false := by
  have hlength : 5 ≤ ((name.takeWhile (· ≠ '.')).map Char.toLower).length := by
    rwa [List.length_map]
  unfold reservedDeviceName
  simp only
  generalize (name.takeWhile (· ≠ '.')).map Char.toLower = stem at hlength ⊢
  rcases stem with _ | ⟨a, _ | ⟨b, _ | ⟨c, _ | ⟨d, _ | ⟨e, stem⟩⟩⟩⟩⟩
  · simp at hlength
  · simp at hlength
  · simp at hlength
  · simp at hlength
  · simp at hlength
  · simp

def Spoken (out : List Char) : Prop :=
  (out.all fun c => c = '-' || c = '.' || c = '_') = false

theorem spoken_cons_dash (h : Spoken out) : Spoken ('-' :: out) := by
  unfold Spoken at h ⊢
  rw [List.all_cons, h, Bool.and_false]

theorem ne_nil_of_spoken (h : Spoken out) : out ≠ [] := by
  rintro rfl
  exact absurd h (by unfold Spoken; decide)

theorem ofList_safe (hspaced : Spaced out) (hallowed : ∀ c ∈ out, Allowed c)
    (htrailing : out.getLast? ≠ some '.') (hdevice : reservedDeviceName out = false)
    (hspoken : Spoken out) : SafeName Allowed (String.ofList out) := by
  have hlist : (String.ofList out).toList = out := String.toList_ofList
  refine ⟨fun hempty => ne_nil_of_spoken hspoken ?_, ?_, ?_, ?_, windowsHazard_eq_none ?_ ?_ ?_⟩
  · rw [← hlist, hempty]
    rfl
  · rwa [hlist]
  · rwa [hlist]
  · rwa [hlist]
  · rw [hlist]
    exact fun c hc => (hallowed c hc).plain
  · rwa [hlist]
  · rwa [hlist]

theorem Spaced.cons_dash (h : Spaced out) : Spaced ('-' :: out) := by
  refine ⟨fun hlead => absurd (Option.some.inj hlead) (by decide), fun hin => ?_⟩
  rcases List.infix_cons_iff.mp hin with hbegins | hinfix
  · exact absurd (List.cons_prefix_cons.mp hbegins).1 (by decide)
  · exact h.single hinfix

theorem sanitizeComponent_safe (raw : String) :
    SafeName Allowed (sanitizeComponent raw) ∧ Spoken (sanitizeComponent raw).toList ∧
      reservedDeviceName (sanitizeComponent raw).toList = false := by
  obtain ⟨hspaced, hallowed⟩ := foldl_sanitizeChar raw.toList
  obtain ⟨hspaced, hallowed, htrailing⟩ := dropDot_spaced hspaced hallowed
  simp only [sanitizeComponent]
  generalize (if (raw.toList.foldl sanitizeChar []).getLast? = some '.' then
    (raw.toList.foldl sanitizeChar []).dropLast else raw.toList.foldl sanitizeChar []) = out at *
  split_ifs with hsilent hdevice
  · have hspoken : Spoken "unnamed".toList := by
      unfold Spoken
      decide
    have hspaced : Spaced "unnamed".toList := ⟨by decide, by decide⟩
    have hall : ['u', 'n', 'n', 'a', 'm', 'e', 'd'].all Char.isAlphanum = true := by decide
    refine ⟨ofList_safe hspaced ?_ (by decide) (by decide) hspoken, hspoken, by decide⟩
    exact fun c hc => Or.inl (List.all_eq_true.mp hall c hc)
  · rw [Bool.not_eq_true] at hsilent
    rw [String.toList_ofList]
    have hdash := reservedDeviceName_cons_dash out
    refine ⟨ofList_safe hspaced.cons_dash ?_ ?_ hdash (spoken_cons_dash hsilent),
      spoken_cons_dash hsilent, hdash⟩
    · exact List.forall_mem_cons.mpr ⟨Or.inr (Or.inl rfl), hallowed⟩
    · rwa [List.getLast?_cons_of_ne_nil (ne_nil_of_spoken hsilent)]
  · rw [Bool.not_eq_true] at hsilent hdevice
    rw [String.toList_ofList]
    exact ⟨ofList_safe hspaced hallowed htrailing hdevice hsilent, hsilent, hdevice⟩

theorem foldl_sanitizeChar_of_spaced (hspaced : Spaced out) (hallowed : ∀ c ∈ out, Allowed c) :
    out.foldl sanitizeChar [] = out := by
  induction out using List.reverseRecOn with
  | nil => rfl
  | append_singleton out c ih =>
    rw [List.foldl_append, ih hspaced.of_append fun d hd =>
      hallowed d (List.mem_append_left _ hd), List.foldl_cons, List.foldl_nil]
    unfold sanitizeChar
    split_ifs with hdot hroom hkept
    · rw [hdot]
    · -- the dot would lead, or follow another one
      refine absurd ?_ hroom
      rw [Bool.and_eq_true, Bool.not_eq_true', List.isEmpty_eq_false_iff, decide_eq_true_eq]
      refine ⟨?_, fun hlast => ?_⟩
      · rintro rfl
        exact hspaced.leading (congrArg some hdot)
      · obtain ⟨front, rfl⟩ := List.getLast?_eq_some_iff.mp hlast
        refine hspaced.single ⟨front, [], ?_⟩
        rw [List.append_nil, hdot, List.append_assoc]
        rfl
    · rfl
    · refine absurd ?_ hkept
      rw [Bool.or_eq_true, Bool.or_eq_true, decide_eq_true_eq, decide_eq_true_eq]
      rcases hallowed c (List.mem_append_right _ (List.mem_singleton.mpr rfl)) with
        halnum | hdash | hscore | hperiod
      · exact Or.inl (Or.inl halnum)
      · exact Or.inl (Or.inr hdash)
      · exact Or.inr hscore
      · exact absurd hperiod hdot

theorem sanitizeComponent_of_safe {name : String} (h : SafeName Allowed name)
    (hspoken : Spoken name.toList) (hdevice : reservedDeviceName name.toList = false) :
    sanitizeComponent name = name := by
  simp only [sanitizeComponent]
  rw [foldl_sanitizeChar_of_spaced h.spaced h.allowed, if_neg h.trailing, if_neg, if_neg]
  · exact String.ofList_toList
  · rw [hdevice]
    exact Bool.false_ne_true
  · rw [show _ = false from hspoken]
    exact Bool.false_ne_true

theorem sanitizeComponent_idem (raw : String) :
    sanitizeComponent (sanitizeComponent raw) = sanitizeComponent raw := by
  obtain ⟨hsafe, hspoken, hdevice⟩ := sanitizeComponent_safe raw
  exact sanitizeComponent_of_safe hsafe hspoken hdevice

end JamStream.Cloud
