import JamStream.Foundations.Chars
import JamStream.Foundations.Lines
import JamStream.Foundations.Search
import JamStream.Session.Blanks

/-! The flat key = value format, one assignment a line. A line may be indented; a blank one and
one that starts with '#' assign nothing. -/

namespace JamStream.Cloud
open Foundations Foundations.Lines Session

abbrev Text := List Char

def dropReturn (line : Text) : Text :=
  if line.getLast? = some '\r' then line.dropLast else line

def textLines (text : Text) : List Text :=
  (lines '\n' (whole '\n' text)).map dropReturn ++ lines '\n' (remainder '\n' text)

def trimmed (text : Text) : Text := trimBy isWhitespace text

def splitOnceAt (mark : Char) (text : Text) : Option (Text × Text) := splitFirst [mark] text

def assignment (line : Text) : Option (Text × Text) :=
  let line := trimmed line
  if line.isEmpty || line.head? = some '#' then none
  else (splitOnceAt '=' line).map fun kv => (trimmed kv.1, trimmed kv.2)

def flatConfigValue (text key : Text) : Option Text :=
  (textLines text).findSome? fun line =>
    (assignment line).bind fun kv => if kv.1 = key then some kv.2 else none

def indent (text : Text) (spaces : ℕ) : Text :=
  (textLines text).flatMap fun line =>
    (if line.isEmpty then [] else List.replicate spaces ' ' ++ line) ++ ['\n']

def keyLine (key value : Text) : Text := key ++ " = ".toList ++ value ++ ['\n']

def Key (key : Text) : Prop := key ≠ [] ∧ key.all (fun c => c.isAlphanum || c == '_') = true

def Clean (value : Text) : Prop := trimmed value = value ∧ '\n' ∉ value

variable {text line pad key value : Text}

theorem assignment_congr {line' : Text} (h : trimmed line = trimmed line') :
    assignment line = assignment line' := by
  unfold assignment
  rw [h]

theorem assignment_pad (h : ∀ c ∈ pad, isWhitespace c = true) :
    assignment (pad ++ line) = assignment line :=
  assignment_congr (trimBy_pad h)

theorem trimmed_dropReturn (line : Text) : trimmed (dropReturn line) = trimmed line := by
  unfold dropReturn
  split_ifs with hlast
  · obtain ⟨rest, rfl⟩ := List.getLast?_eq_some_iff.mp hlast
    rw [List.dropLast_concat]
    exact (trimBy_concat (by decide)).symm
  · rfl

theorem assignment_dropReturn (line : Text) : assignment (dropReturn line) = assignment line :=
  assignment_congr (trimmed_dropReturn line)

def assignments (text : Text) : List (Text × Text) := (lines '\n' text).filterMap assignment

theorem filterMap_textLines (text : Text) :
    (textLines text).filterMap assignment = assignments text := by
  have hsplit := lines_append (ended_whole '\n' text) (remainder '\n' text)
  rw [whole_append_remainder] at hsplit
  rw [assignments, hsplit, textLines, List.filterMap_append, List.filterMap_append,
    List.filterMap_map]
  exact congrArg (· ++ _) (List.filterMap_congr fun line _ => assignment_dropReturn line)

theorem findSome?_filterMap {α β γ : Type} (f : α → Option β) (g : β → Option γ) (xs : List α) :
    (xs.filterMap f).findSome? g = xs.findSome? fun x => (f x).bind g := by
  induction xs with
  | nil => rfl
  | cons x xs ih =>
    rw [List.filterMap_cons, List.findSome?_cons]
    rcases f x with _ | y
    · exact ih
    · rw [List.findSome?_cons, ih]
      rfl

theorem flatConfigValue_eq (text key : Text) :
    flatConfigValue text key =
      (assignments text).findSome? fun kv => if kv.1 = key then some kv.2 else none := by
  rw [← filterMap_textLines, findSome?_filterMap]
  rfl

theorem assignments_append {more : Text} (h : Ended '\n' text) :
    assignments (text ++ more) = assignments text ++ assignments more := by
  rw [assignments, lines_append h, List.filterMap_append]
  rfl

theorem newline_notMem_textLines (text : Text) : ∀ line ∈ textLines text, '\n' ∉ line := by
  intro line hline
  rcases List.mem_append.mp hline with hwhole | hlast
  · obtain ⟨before, hbefore, rfl⟩ := List.mem_map.mp hwhole
    have hnone := sep_notMem_lines _ before hbefore
    unfold dropReturn
    split_ifs
    · exact fun h => hnone (List.dropLast_subset before h)
    · exact hnone
  · exact sep_notMem_lines _ line hlast

theorem indent_spec (text : Text) (spaces : ℕ) :
    Ended '\n' (indent text spaces) ∧ assignments (indent text spaces) = assignments text := by
  have hpad : ∀ c ∈ List.replicate spaces ' ', isWhitespace c = true := by
    intro c hc
    rw [(List.mem_replicate.mp hc).2]
    decide
  have hlines : ∀ line ∈ (textLines text).map fun line =>
      if line.isEmpty then [] else List.replicate spaces ' ' ++ line, '\n' ∉ line := by
    intro line hline
    obtain ⟨before, hbefore, rfl⟩ := List.mem_map.mp hline
    have hnone := newline_notMem_textLines text before hbefore
    split_ifs
    · exact List.not_mem_nil
    · rw [List.mem_append, not_or]
      refine ⟨fun h => ?_, hnone⟩
      have hblank := (List.mem_replicate.mp h).2
      exact absurd hblank (by decide)
  obtain ⟨hended, hread⟩ := lines_flatMap _ hlines
  rw [List.flatMap_map] at hended hread
  refine ⟨hended, ?_⟩
  rw [assignments, indent, hread, List.filterMap_map, ← filterMap_textLines]
  refine List.filterMap_congr fun line _ => ?_
  by_cases hline : line.isEmpty = true
  · rw [Function.comp, if_pos hline, List.isEmpty_iff.mp hline]
  · rw [Function.comp, if_neg hline]
    exact assignment_pad hpad

theorem Key.inRange (h : Key key) {c : Char} (hc : c ∈ key) :
    48 ≤ c.toNat ∧ c.toNat ≤ 122 ∧ c ≠ '=' := by
  have hword := List.all_eq_true.mp h.2 c hc
  rcases Bool.or_eq_true_iff.mp hword with hletter | hunder
  · have hrange := toNat_of_isAlphanum hletter
    refine ⟨hrange.1, hrange.2, ?_⟩
    rintro rfl
    exact absurd hletter (by decide)
  · rw [beq_iff_eq.mp hunder]
    exact ⟨by decide, by decide, by decide⟩

theorem Key.notBlank (h : Key key) : ∀ c ∈ key, isWhitespace c = false := by
  intro c hc
  obtain ⟨hlow, hhigh, -⟩ := h.inRange hc
  exact isWhitespace_of_range (by omega) hhigh

theorem trimmed_keyLine (hkey : Key key) (hvalue : trimmed value = value) :
    ∃ rest, trimmed (key ++ " = ".toList ++ value) = key ++ ' ' :: '=' :: rest ∧
      trimmed rest = value := by
  obtain ⟨first, word, rfl⟩ := List.exists_cons_of_ne_nil hkey.1
  have hfirst : isWhitespace first = false := hkey.notBlank first List.mem_cons_self
  have hseparator : " = ".toList = [' ', '=', ' '] := by decide
  by_cases hempty : value = []
  · subst hempty
    refine ⟨[], ?_, rfl⟩
    have hline : first :: word ++ " = ".toList ++ [] = (first :: word ++ [' ', '=']) ++ [' '] := by
      rw [List.append_nil, hseparator, List.append_assoc]
      rfl
    rw [hline, trimmed, trimBy_concat (by decide)]
    refine trimBy_self ?_ ?_
    · intro c hc
      obtain rfl : first = c := Option.some.inj hc
      exact hfirst
    · intro c hc
      rw [List.getLast?_append] at hc
      obtain rfl : '=' = c := Option.some.inj hc
      decide
  · refine ⟨' ' :: value, ?_, ?_⟩
    · rw [hseparator, List.append_assoc]
      refine trimBy_self ?_ ?_
      · intro c hc
        obtain rfl : first = c := Option.some.inj hc
        exact hfirst
      · intro c hc
        have hlast : c ∈ value.getLast? := by
          rw [List.getLast?_append, List.getLast?_append] at hc
          rcases hvalueLast : value.getLast? with _ | d
          · exact absurd (List.getLast?_eq_none_iff.mp hvalueLast) hempty
          · rw [hvalueLast] at hc
            exact hc
        exact getLast?_of_trimBy hvalue c hlast
    · have hpad : ∀ c ∈ [' '], isWhitespace c = true := by
        intro c hc
        rw [List.mem_singleton.mp hc]
        decide
      exact (trimBy_pad hpad).trans hvalue

theorem split_keyLine (hkey : Key key) (hvalue : trimmed value = value) :
    (trimmed (key ++ " = ".toList ++ value)).isEmpty = false ∧
    (trimmed (key ++ " = ".toList ++ value)).head? ≠ some '#' ∧
    ∃ kv, splitOnceAt '=' (trimmed (key ++ " = ".toList ++ value)) = some kv ∧
      trimmed kv.1 = key ∧ trimmed kv.2 = value := by
  obtain ⟨rest, hline, hrest⟩ := trimmed_keyLine hkey hvalue
  obtain ⟨first, word, rfl⟩ := List.exists_cons_of_ne_nil hkey.1
  rw [hline]
  refine ⟨rfl, ?_, ?_⟩
  · intro hsharp
    obtain rfl : first = '#' := Option.some.inj hsharp
    exact absurd (hkey.inRange List.mem_cons_self).1 (by decide)
  · have hnone : '=' ∉ first :: word ++ [' '] := by
      intro hin
      rcases List.mem_append.mp hin with hword | hspace
      · exact (hkey.inRange hword).2.2 rfl
      · exact absurd hspace (by decide)
    have hsplit : splitOnceAt '=' (first :: word ++ ' ' :: '=' :: rest) =
        some (first :: word ++ [' '], rest) := by
      have hskip : splitFirst ['='] ((first :: word ++ [' ']) ++ (['='] ++ rest)) = _ :=
        splitFirst_skip hnone
      rw [splitFirst_here (by decide), List.append_assoc] at hskip
      rw [splitOnceAt]
      exact hskip.trans (congrArg some (Prod.ext (List.append_nil _) rfl))
    refine ⟨_, hsplit, ?_, hrest⟩
    show trimBy isWhitespace (first :: word ++ [' ']) = _
    rw [trimBy_concat (by decide)]
    exact trimBy_of_forall hkey.notBlank

theorem assignment_keyLine (hkey : Key key) (hvalue : trimmed value = value) :
    assignment (key ++ " = ".toList ++ value) = some (key, value) := by
  obtain ⟨hsome, hsharp, kv, hsplit, hk, hv⟩ := split_keyLine hkey hvalue
  simp only [assignment, hsome, hsplit, Option.map_some, hk, hv, Bool.false_or,
    decide_eq_true_eq, if_neg hsharp]

theorem keyLine_spec (hkey : Key key) (hvalue : Clean value) :
    Ended '\n' (keyLine key value) ∧ lines '\n' (keyLine key value) = [key ++ " = ".toList ++ value] ∧
    assignments (keyLine key value) = [(key, value)] := by
  have hnone : '\n' ∉ key ++ " = ".toList ++ value := by
    intro hin
    rcases List.mem_append.mp hin with hleft | hright
    · rcases List.mem_append.mp hleft with hword | hmark
      · exact absurd (hkey.inRange hword).1 (by decide)
      · exact absurd hmark (by decide)
    · exact hvalue.2 hright
  have hlines := lines_concat hnone
  refine ⟨ended_concat _, hlines, ?_⟩
  rw [assignments, keyLine, hlines, List.filterMap_cons, assignment_keyLine hkey hvalue.1]
  rfl

def flatFile (kvs : List (Text × Text)) : Text := kvs.flatMap fun kv => keyLine kv.1 kv.2

theorem flatFile_spec {kvs : List (Text × Text)} (h : ∀ kv ∈ kvs, Key kv.1 ∧ Clean kv.2) :
    Ended '\n' (flatFile kvs) ∧
    lines '\n' (flatFile kvs) = kvs.map (fun kv => kv.1 ++ " = ".toList ++ kv.2) ∧
    assignments (flatFile kvs) = kvs := by
  induction kvs with
  | nil => exact ⟨rfl, rfl, rfl⟩
  | cons kv kvs ih =>
    obtain ⟨hended, hlines, hread⟩ := ih fun e he => h e (List.mem_cons_of_mem kv he)
    obtain ⟨hkey, hvalue⟩ := h kv List.mem_cons_self
    obtain ⟨hfirst, hline, hassign⟩ := keyLine_spec hkey hvalue
    rw [flatFile, List.flatMap_cons]
    refine ⟨ended_append hfirst hended, ?_, ?_⟩
    · rw [lines_append hfirst, hline]
      exact congrArg (_ :: ·) hlines
    · rw [assignments_append hfirst, hassign]
      exact congrArg (_ :: ·) hread

theorem findSome?_value {kvs : List (Text × Text)} (hkeys : (kvs.map Prod.fst).Nodup)
    (h : (key, value) ∈ kvs) :
    (kvs.findSome? fun kv => if kv.1 = key then some kv.2 else none) = some value := by
  induction kvs with
  | nil => exact absurd h List.not_mem_nil
  | cons kv kvs ih =>
    obtain ⟨hfirst, hkeys⟩ := List.nodup_cons.mp hkeys
    rw [List.findSome?_cons]
    by_cases hkey : kv.1 = key
    · rw [if_pos hkey]
      rcases List.mem_cons.mp h with heq | hin
      · rw [← heq]
      · refine absurd ?_ hfirst
        rw [hkey]
        exact List.mem_map_of_mem (f := Prod.fst) hin
    · rw [if_neg hkey]
      rcases List.mem_cons.mp h with heq | hin
      · exact absurd (congrArg Prod.fst heq).symm hkey
      · exact ih hkeys hin

theorem flatConfigValue_flatFile {kvs : List (Text × Text)}
    (hclean : ∀ kv ∈ kvs, Key kv.1 ∧ Clean kv.2) (hkeys : (kvs.map Prod.fst).Nodup)
    (h : (key, value) ∈ kvs) : flatConfigValue (flatFile kvs) key = some value := by
  rw [flatConfigValue_eq, (flatFile_spec hclean).2.2]
  exact findSome?_value hkeys h

theorem flatConfigValue_skip {more : Text} (hended : Ended '\n' text)
    (hnone : flatConfigValue text key = none) :
    flatConfigValue (text ++ more) key = flatConfigValue more key := by
  rw [flatConfigValue_eq] at hnone
  rw [flatConfigValue_eq, flatConfigValue_eq, assignments_append hended, List.findSome?_append,
    hnone]
  rfl

theorem flatConfigValue_indent (text key : Text) (spaces : ℕ) :
    flatConfigValue (indent text spaces) key = flatConfigValue text key := by
  rw [flatConfigValue_eq, flatConfigValue_eq, (indent_spec text spaces).2]

theorem flatConfigValue_embedded {file more : Text} (spaces : ℕ) (hended : Ended '\n' text)
    (hnone : flatConfigValue text key = none) (h : flatConfigValue file key = some value) :
    flatConfigValue (text ++ indent file spaces ++ more) key = some value := by
  rw [List.append_assoc, flatConfigValue_skip hended hnone, flatConfigValue_eq,
    assignments_append (indent_spec file spaces).1, List.findSome?_append, ← flatConfigValue_eq,
    flatConfigValue_indent, h]
  rfl

def embedded (files : List (Text × ℕ)) : Text := files.flatMap fun f => indent f.1 f.2

theorem embedded_spec {files : List (Text × ℕ)} (h : ∀ f ∈ files, flatConfigValue f.1 key = none) :
    Ended '\n' (embedded files) ∧ flatConfigValue (embedded files) key = none := by
  induction files with
  | nil => exact ⟨rfl, rfl⟩
  | cons f files ih =>
    obtain ⟨hended, hnone⟩ := ih fun g hg => h g (List.mem_cons_of_mem f hg)
    have hfirst := (indent_spec f.1 f.2).1
    rw [embedded, List.flatMap_cons]
    refine ⟨ended_append hfirst hended, ?_⟩
    rw [flatConfigValue_skip hfirst]
    · exact hnone
    · rw [flatConfigValue_indent]
      exact h f List.mem_cons_self

end JamStream.Cloud
