import JamStream.Session.LogTail

/-! Cutting a text to so many bytes. The source walks an index back from the cap until it
stands between two characters and slices there; what that leaves is the longest prefix of
whole characters that fits. -/

namespace JamStream.Session
open Protocol

def utf8Len (text : List Char) : ℕ := (text.map Char.utf8Size).sum

@[simp] theorem utf8Len_nil : utf8Len [] = 0 := rfl

@[simp] theorem utf8Len_cons (c : Char) (cs : List Char) :
    utf8Len (c :: cs) = c.utf8Size + utf8Len cs := rfl

theorem utf8ByteSize_ofList (text : List Char) :
    (String.ofList text).utf8ByteSize = utf8Len text := by
  induction text with
  | nil => rfl
  | cons c cs ih =>
    rw [String.ofList_cons, String.utf8ByteSize_append, String.utf8ByteSize_singleton, ih,
      utf8Len_cons]

theorem fitHead_prefix (cap : ℕ) (text : List Char) : fitHead cap text <+: text := by
  induction text generalizing cap with
  | nil => exact List.nil_prefix
  | cons c cs ih =>
    unfold fitHead
    split_ifs
    · exact List.cons_prefix_cons.mpr ⟨rfl, ih _⟩
    · exact List.nil_prefix

theorem utf8Len_fitHead_le (cap : ℕ) (text : List Char) : utf8Len (fitHead cap text) ≤ cap := by
  induction text generalizing cap with
  | nil => exact Nat.zero_le _
  | cons c cs ih =>
    unfold fitHead
    split_ifs with hc
    · have htail := ih (cap - c.utf8Size)
      rw [utf8Len_cons]
      omega
    · exact Nat.zero_le _

theorem fitHead_eq_self {cap : ℕ} {text : List Char} (h : utf8Len text ≤ cap) :
    fitHead cap text = text := by
  induction text generalizing cap with
  | nil => rfl
  | cons c cs ih =>
    rw [utf8Len_cons] at h
    rw [fitHead, if_pos (by omega), ih (by omega)]

theorem utf8ByteSize_fitServerLogLine (line : String) :
    (fitServerLogLine line).utf8ByteSize ≤ maxServerLogLine := by
  rw [fitServerLogLine, utf8ByteSize_ofList]
  exact utf8Len_fitHead_le _ _

/-- The head of a text up to a byte index, if the index stands between two characters. -/
def sliceTo : ℕ → List Char → Option (List Char)
  | 0, _ => some []
  | _ + 1, [] => none
  | n + 1, c :: cs =>
    if c.utf8Size ≤ n + 1 then (sliceTo (n + 1 - c.utf8Size) cs).map (c :: ·) else none

def isCharBoundary (text : List Char) (index : ℕ) : Bool := (sliceTo index text).isSome

/-- The index walks back to a boundary; at zero there always is one. -/
def boundaryBelow (text : List Char) : ℕ → ℕ
  | 0 => 0
  | n + 1 => if isCharBoundary text (n + 1) then n + 1 else boundaryBelow text n

/-- The cut as the source makes it. A slice off a boundary would be a fault. -/
def cutHead (text : List Char) (cap : ℕ) : Option (List Char) :=
  if utf8Len text ≤ cap then some text else sliceTo (boundaryBelow text cap) text

theorem sliceTo_zero (text : List Char) : sliceTo 0 text = some [] := by
  cases text <;> rfl

theorem sliceTo_pos {n : ℕ} (hn : 0 < n) (c : Char) (cs : List Char) :
    sliceTo n (c :: cs) =
      if c.utf8Size ≤ n then (sliceTo (n - c.utf8Size) cs).map (c :: ·) else none := by
  obtain ⟨m, rfl⟩ := Nat.exists_eq_succ_of_ne_zero hn.ne'
  rfl

theorem isCharBoundary_zero (text : List Char) : isCharBoundary text 0 = true := by
  rw [isCharBoundary, sliceTo_zero]
  rfl

theorem isCharBoundary_cons_add (c : Char) (cs : List Char) (n : ℕ) :
    isCharBoundary (c :: cs) (c.utf8Size + n) = isCharBoundary cs n := by
  have hpos : 0 < c.utf8Size + n := Nat.add_pos_left c.utf8Size_pos n
  have hle : c.utf8Size ≤ c.utf8Size + n := Nat.le_add_right _ _
  rw [isCharBoundary, sliceTo_pos hpos, if_pos hle, Nat.add_sub_cancel_left, Option.isSome_map]
  rfl

theorem isCharBoundary_cons_lt {c : Char} {n : ℕ} (hpos : 0 < n) (hn : n < c.utf8Size)
    (cs : List Char) : isCharBoundary (c :: cs) n = false := by
  rw [isCharBoundary, sliceTo_pos hpos, if_neg (Nat.not_le.mpr hn)]
  rfl

theorem boundaryBelow_cons_lt {c : Char} {n : ℕ} (hn : n < c.utf8Size) (cs : List Char) :
    boundaryBelow (c :: cs) n = 0 := by
  induction n with
  | zero => rfl
  | succ n ih =>
    have hinside := isCharBoundary_cons_lt n.succ_pos hn cs
    rw [boundaryBelow, hinside, if_neg Bool.false_ne_true, ih (by omega)]

theorem boundaryBelow_cons_add (c : Char) (cs : List Char) (n : ℕ) :
    boundaryBelow (c :: cs) (c.utf8Size + n) = c.utf8Size + boundaryBelow cs n := by
  induction n with
  | zero =>
    have hend := isCharBoundary_cons_add c cs 0
    rw [isCharBoundary_zero] at hend
    obtain ⟨m, hm⟩ := Nat.exists_eq_add_one_of_ne_zero c.utf8Size_pos.ne'
    rw [Nat.add_zero, hm] at hend ⊢
    exact if_pos hend
  | succ n ih =>
    have hstep := isCharBoundary_cons_add c cs (n + 1)
    rw [← Nat.add_assoc, boundaryBelow, boundaryBelow, Nat.add_assoc, hstep]
    split_ifs
    · rfl
    · exact ih

theorem cutHead_eq (text : List Char) (cap : ℕ) : cutHead text cap = some (fitHead cap text) := by
  unfold cutHead
  split_ifs with hfits
  · rw [fitHead_eq_self hfits]
  · induction text generalizing cap with
    | nil => exact absurd (Nat.zero_le cap) hfits
    | cons c cs ih =>
      rw [utf8Len_cons] at hfits
      unfold fitHead
      split_ifs with hc
      · obtain ⟨n, rfl⟩ := Nat.exists_eq_add_of_le hc
        have hrest := ih n (by omega)
        have hpos : 0 < c.utf8Size + boundaryBelow cs n := Nat.add_pos_left c.utf8Size_pos _
        rw [boundaryBelow_cons_add, sliceTo_pos hpos, if_pos (Nat.le_add_right _ _),
          Nat.add_sub_cancel_left, Nat.add_sub_cancel_left, hrest]
        rfl
      · rw [boundaryBelow_cons_lt (Nat.not_le.mp hc), sliceTo_zero]

end JamStream.Session
