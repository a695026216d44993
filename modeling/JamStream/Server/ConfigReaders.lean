import JamStream.Server.BootRoundTrip

/-! The two readers of one file. The server's goes by the last assignment of a key, a flat
lookup by the first; and a hex value is cut into pairs of bytes before anyone asks whether they
are characters. When that makes no difference is said of the text alone. -/

namespace JamStream.Server
open Protocol Foundations Foundations.Lines Session Cloud

namespace Config

def knownKeys : List Text :=
  ["session_id_hex".toList, "port".toList, "server_private_key_b64".toList,
    "issuer_public_key_b64".toList, "idle_shutdown_min".toList, "max_duration_min".toList]

def Fields.value (f : Fields) (key : Text) : Option Text :=
  if key = "session_id_hex".toList then f.sessionIdHex
  else if key = "port".toList then f.port
  else if key = "server_private_key_b64".toList then f.serverPrivate
  else if key = "issuer_public_key_b64".toList then f.issuerPublic
  else if key = "idle_shutdown_min".toList then f.idle
  else if key = "max_duration_min".toList then f.maxDur
  else none

def LineOk (line : Text) : Prop :=
  (trimmed line).isEmpty = true ∨ (trimmed line).head? = some '#' ∨
    ∃ kv, assignment line = some kv ∧ kv.1 ∈ knownKeys

def Lined (text : Text) : Prop := ∀ line ∈ lines '\n' text, LineOk line

def lastOf (kvs : List (Text × Text)) (key : Text) : Option Text :=
  kvs.reverse.findSome? fun kv => if kv.1 = key then some kv.2 else none

def firstOf (kvs : List (Text × Text)) (key : Text) : Option Text :=
  kvs.findSome? fun kv => if kv.1 = key then some kv.2 else none

/-- The first assignment of a key, and the last. -/
def firstValue (text key : Text) : Option Text := firstOf (assignments text) key

def lastValue (text key : Text) : Option Text := lastOf (assignments text) key

variable {f g : Fields} {key value line text : Text} {ls : List Text}

/-- An assignment changes what is held for its own key. That the keys differ is all it takes, so
they are made variables first. -/
theorem assign_known (f : Fields) (hkey : key ∈ knownKeys) (value : Text) :
    ∃ g, f.assign key value = .ok g ∧
      ∀ k ∈ knownKeys, g.value k = if k = key then some value else f.value k := by
  have hdistinct : knownKeys.Nodup := by decide
  unfold Fields.assign Fields.value
  unfold knownKeys at *
  generalize "session_id_hex".toList = a at *
  generalize "port".toList = b at *
  generalize "server_private_key_b64".toList = c at *
  generalize "issuer_public_key_b64".toList = d at *
  generalize "idle_shutdown_min".toList = e at *
  generalize "max_duration_min".toList = m at *
  simp only [List.nodup_cons, List.mem_cons, List.not_mem_nil, or_false, not_or,
    not_false_eq_true, List.nodup_nil, and_true] at hdistinct
  obtain ⟨⟨hab, hac, had, hae, ham⟩, ⟨hbc, hbd, hbe, hbm⟩, ⟨hcd, hce, hcm⟩, ⟨hde, hdm⟩, hem⟩ :=
    hdistinct
  simp only [List.mem_cons, List.not_mem_nil, or_false] at hkey
  rcases hkey with rfl | rfl | rfl | rfl | rfl | rfl
  · refine ⟨{ f with sessionIdHex := some value }, ?_, ?_⟩ <;> grind
  · refine ⟨{ f with port := some value }, ?_, ?_⟩ <;> grind
  · refine ⟨{ f with serverPrivate := some value }, ?_, ?_⟩ <;> grind
  · refine ⟨{ f with issuerPublic := some value }, ?_, ?_⟩ <;> grind
  · refine ⟨{ f with idle := some value }, ?_, ?_⟩ <;> grind
  · refine ⟨{ f with maxDur := some value }, ?_, ?_⟩ <;> grind

theorem assign_unknown (f : Fields) (hkey : key ∉ knownKeys) (value : Text) :
    f.assign key value = .error (.refused (.unknownKey (String.ofList key))) := by
  simp only [knownKeys, List.mem_cons, List.not_mem_nil, or_false, not_or] at hkey
  obtain ⟨h1, h2, h3, h4, h5, h6⟩ := hkey
  rw [Fields.assign, if_neg h1, if_neg h2, if_neg h3, if_neg h4, if_neg h5, if_neg h6]

theorem readLines_cons_ok (hline : LineOk line) (i : ℕ) (ls : List Text) (f : Fields) :
    ∃ g, readLines i (line :: ls) f = readLines (i + 1) ls g ∧
      ∀ k ∈ knownKeys, g.value k =
        ((assignment line).bind fun kv => if kv.1 = k then some kv.2 else none).or (f.value k) := by
  by_cases hblank : ((trimmed line).isEmpty || (trimmed line).head? = some '#') = true
  · have hnone : assignment line = none := by
      rw [assignment]
      exact if_pos hblank
    refine ⟨f, ?_, fun k _ => ?_⟩
    · rw [readLines, if_pos hblank]
    · rw [hnone]
      rfl
  · obtain ⟨kv, hkv, hknown⟩ : ∃ kv, assignment line = some kv ∧ kv.1 ∈ knownKeys := by
      rcases hline with hempty | hsharp | hassign
      · rw [hempty] at hblank
        exact absurd rfl hblank
      · rw [hsharp, decide_eq_true rfl, Bool.or_true] at hblank
        exact absurd rfl hblank
      · exact hassign
    have hassign : (splitOnceAt '=' (trimmed line)).map
        (fun kv => (trimmed kv.1, trimmed kv.2)) = some kv := by
      rw [← hkv, assignment]
      exact (if_neg hblank).symm
    obtain ⟨parts, hparts, rfl⟩ := Option.map_eq_some_iff.mp hassign
    obtain ⟨g, hg, hvalues⟩ := assign_known f hknown (trimmed parts.2)
    refine ⟨g, ?_, fun k hk => ?_⟩
    · rw [readLines, if_neg hblank, hparts]
      show (f.assign (trimmed parts.1) (trimmed parts.2)).bind _ = _
      rw [hg]
      rfl
    · rw [hvalues k hk, hkv, Option.bind_some]
      by_cases heq : k = trimmed parts.1
      · rw [if_pos heq, if_pos heq.symm]
        rfl
      · rw [if_neg heq, if_neg fun h => heq h.symm]
        rfl

theorem readLines_cons_refused (hline : ¬LineOk line) (i : ℕ) (ls : List Text) (f : Fields) :
    ∃ e, readLines i (line :: ls) f = .error (.refused e) := by
  have hblank : ¬((trimmed line).isEmpty || (trimmed line).head? = some '#') = true := by
    intro h
    rcases Bool.or_eq_true_iff.mp h with hempty | hsharp
    · exact hline (.inl hempty)
    · exact hline (.inr (.inl (of_decide_eq_true hsharp)))
  rw [readLines, if_neg hblank]
  rcases hparts : splitOnceAt '=' (trimmed line) with _ | parts
  · exact ⟨_, rfl⟩
  · have hassign : assignment line = some (trimmed parts.1, trimmed parts.2) := by
      rw [assignment]
      refine (if_neg hblank).trans ?_
      rw [hparts]
      rfl
    have hunknown : trimmed parts.1 ∉ knownKeys :=
      fun hknown => hline (.inr (.inr ⟨_, hassign, hknown⟩))
    refine ⟨.unknownKey (String.ofList (trimmed parts.1)), ?_⟩
    show (f.assign (trimmed parts.1) (trimmed parts.2)).bind _ = _
    rw [assign_unknown f hunknown]
    rfl

theorem lastOf_cons (kv : Text × Text) (kvs : List (Text × Text)) (key : Text) :
    lastOf (kv :: kvs) key = (lastOf kvs key).or (if kv.1 = key then some kv.2 else none) := by
  rw [lastOf, List.reverse_cons, List.findSome?_append, List.findSome?_singleton]
  rfl

theorem readLines_ok (h : ∀ line ∈ ls, LineOk line) (i : ℕ) (f : Fields) :
    ∃ g, readLines i ls f = .ok g ∧
      ∀ k ∈ knownKeys, g.value k = (lastOf (ls.filterMap assignment) k).or (f.value k) := by
  induction ls generalizing i f with
  | nil => exact ⟨f, rfl, fun k _ => rfl⟩
  | cons line ls ih =>
    obtain ⟨g, hread, hstep⟩ := readLines_cons_ok (h line List.mem_cons_self) i ls f
    obtain ⟨g', hrest, hvalues⟩ := ih (fun l hl => h l (List.mem_cons_of_mem line hl)) (i + 1) g
    refine ⟨g', hread.trans hrest, fun k hk => ?_⟩
    rw [hvalues k hk, hstep k hk]
    rcases hassign : assignment line with _ | kv
    · rw [List.filterMap_cons_none hassign]
      rfl
    · rw [List.filterMap_cons_some hassign, lastOf_cons, Option.or_assoc]
      rfl

theorem readLines_refused (h : ¬∀ line ∈ ls, LineOk line) (i : ℕ) (f : Fields) :
    ∃ e, readLines i ls f = .error (.refused e) := by
  induction ls generalizing i f with
  | nil => exact absurd (fun line hline => absurd hline List.not_mem_nil) h
  | cons line ls ih =>
    by_cases hline : LineOk line
    · have hrest : ¬∀ l ∈ ls, LineOk l :=
        fun hall => h (List.forall_mem_cons.mpr ⟨hline, hall⟩)
      obtain ⟨g, hread, -⟩ := readLines_cons_ok hline i ls f
      rw [hread]
      exact ih hrest (i + 1) g
    · exact readLines_cons_refused hline i ls f

/-- What is held of a text that is not refused: the last assignment of every key. -/
def lastFields (text : Text) : Fields where
  sessionIdHex := lastValue text "session_id_hex".toList
  port := lastValue text "port".toList
  serverPrivate := lastValue text "server_private_key_b64".toList
  issuerPublic := lastValue text "issuer_public_key_b64".toList
  idle := lastValue text "idle_shutdown_min".toList
  maxDur := lastValue text "max_duration_min".toList

theorem map_value (f : Fields) :
    knownKeys.map f.value =
      [f.sessionIdHex, f.port, f.serverPrivate, f.issuerPublic, f.idle, f.maxDur] := by
  have hdistinct : knownKeys.Nodup := by decide
  have heach : ∀ k, f.value k = _ := fun k => Fields.value.eq_1 f k
  unfold knownKeys at *
  generalize "session_id_hex".toList = a at *
  generalize "port".toList = b at *
  generalize "server_private_key_b64".toList = c at *
  generalize "issuer_public_key_b64".toList = d at *
  generalize "idle_shutdown_min".toList = e at *
  generalize "max_duration_min".toList = m at *
  simp only [List.nodup_cons, List.mem_cons, List.not_mem_nil, or_false, not_or,
    not_false_eq_true, List.nodup_nil, and_true] at hdistinct
  simp only [List.map_cons, List.map_nil, heach]
  grind

theorem value_lastFields (text : Text) (hkey : key ∈ knownKeys) :
    (lastFields text).value key = lastValue text key := by
  have hmap : knownKeys.map (lastFields text).value = knownKeys.map (lastValue text) := map_value _
  exact List.map_inj_left.mp hmap key hkey

theorem fields_ext (h : ∀ k ∈ knownKeys, f.value k = g.value k) : f = g := by
  have hmap := List.map_congr_left h
  rw [map_value, map_value] at hmap
  cases f
  cases g
  simp only [List.cons.injEq, and_true] at hmap
  obtain ⟨rfl, rfl, rfl, rfl, rfl, rfl⟩ := hmap
  rfl

theorem value_empty (hkey : key ∈ knownKeys) : Fields.empty.value key = none := by
  have hmap : knownKeys.map Fields.empty.value = knownKeys.map fun _ => none := map_value _
  exact List.map_inj_left.mp hmap key hkey

theorem readLines_text (h : Lined text) :
    readLines 0 (textLines text) .empty = .ok (lastFields text) := by
  obtain ⟨g, hread, hvalues⟩ := readLines_ok h 0 .empty
  rw [readLines_textLines, hread]
  refine congrArg _ (fields_ext fun k hk => ?_)
  rw [hvalues k hk, value_lastFields text hk, value_empty hk, Option.or_none]
  rfl

/-- Pairs of bytes that are read as numbers in base 16. -/
def Paired : Text → Prop
  | [] => True
  | a :: b :: rest => (fromStrRadix a b).isSome ∧ Paired rest
  | [_] => False

/-- Behind some pairs that are read, the next two bytes end inside a character. -/
def Cut (s : Text) : Prop :=
  ∃ front a rest, s = front ++ a :: rest ∧ Paired front ∧
    (2 < a.utf8Size ∨ a.utf8Size = 1 ∧ ∃ b more, rest = b :: more ∧ 1 < b.utf8Size)

theorem digit_of_fromStrRadix {a b : Char} (h : (fromStrRadix a b).isSome) :
    (a = '+' ∨ IsHexDigit a) ∧ IsHexDigit b := by
  unfold fromStrRadix at h
  split_ifs at h with hplus
  · rw [Option.isSome_map] at h
    exact ⟨.inl hplus, h⟩
  · obtain ⟨byte, hbyte⟩ := Option.isSome_iff_exists.mp h
    obtain ⟨x, hx, hrest⟩ := Option.bind_eq_some_iff.mp hbyte
    obtain ⟨y, hy, -⟩ := Option.map_eq_some_iff.mp hrest
    exact ⟨.inr (Option.isSome_of_mem hx), Option.isSome_of_mem hy⟩

theorem ascii_of_hexDigit {c : Char} (h : c = '+' ∨ IsHexDigit c) : c.toNat < 128 := by
  rcases h with rfl | hdigit
  · decide
  · obtain ⟨x, hx⟩ := Option.isSome_iff_exists.mp hdigit
    exact (digit_spec hx).2.2.1

theorem utf8Size_pos_cases (c : Char) : c.utf8Size = 1 ∨ c.utf8Size = 2 ∨ 2 < c.utf8Size := by
  have hpos := c.utf8Size_pos
  omega

theorem not_cut_nil : ¬Cut [] := by
  rintro ⟨front, a, rest, h, -⟩
  exact absurd h.symm (List.append_ne_nil_of_right_ne_nil front (List.cons_ne_nil a rest))

theorem cut_cons_iff {a b : Char} {rest : Text} (h : (fromStrRadix a b).isSome) :
    Cut (a :: b :: rest) ↔ Cut rest := by
  obtain ⟨ha, hb⟩ := digit_of_fromStrRadix h
  have hsizeA := utf8Size_of_ascii (ascii_of_hexDigit ha)
  have hsizeB := utf8Size_of_ascii (ascii_of_hexDigit (.inr hb))
  constructor
  · rintro ⟨front, c, more, hsplit, hpaired, hcut⟩
    rcases front with _ | ⟨x, _ | ⟨y, front⟩⟩
    · obtain ⟨rfl, rfl⟩ := List.cons.inj hsplit
      rcases hcut with hlong | ⟨-, d, tail, hrest, hlong⟩
      · omega
      · obtain ⟨rfl, -⟩ := List.cons.inj hrest
        omega
    · exact hpaired.elim
    · obtain ⟨-, htail⟩ := List.cons.inj hsplit
      obtain ⟨-, htail⟩ := List.cons.inj htail
      exact ⟨front, c, more, htail, hpaired.2, hcut⟩
  · rintro ⟨front, c, more, rfl, hpaired, hcut⟩
    exact ⟨a :: b :: front, c, more, rfl, ⟨h, hpaired⟩, hcut⟩

theorem not_cut_of_front {a : Char} {rest : Text} (hshort : ¬2 < a.utf8Size)
    (hnext : a.utf8Size = 1 → ∀ b more, rest = b :: more → ¬1 < b.utf8Size)
    (hpair : ∀ b more, rest = b :: more → fromStrRadix a b = none) : ¬Cut (a :: rest) := by
  rintro ⟨front, c, more, hsplit, hpaired, hcut⟩
  rcases front with _ | ⟨x, _ | ⟨y, front⟩⟩
  · obtain ⟨rfl, rfl⟩ := List.cons.inj hsplit
    rcases hcut with hlong | ⟨hone, d, tail, hrest, hlong⟩
    · exact hshort hlong
    · exact hnext hone d tail hrest hlong
  · exact hpaired.elim
  · obtain ⟨rfl, htail⟩ := List.cons.inj hsplit
    have hread := hpaired.1
    rw [hpair y _ htail] at hread
    cases hread

theorem hexPairs_cases (n : ℕ) : ∀ s : Text, s.length ≤ n →
    (Paired s ∧ ¬Cut s ∧ ∃ bytes, hexPairs s = .ok (some bytes) ∧ 2 * bytes.length = s.length) ∨
    (¬Paired s ∧ Cut s ∧ hexPairs s = .error .panicked) ∨
    (¬Paired s ∧ ¬Cut s ∧ hexPairs s = .ok none) := by
  induction n with
  | zero =>
    intro s hs
    obtain rfl := List.length_eq_zero_iff.mp (Nat.le_zero.mp hs)
    exact .inl ⟨trivial, not_cut_nil, [], rfl, rfl⟩
  | succ n ih =>
    intro s hs
    rcases s with _ | ⟨a, rest⟩
    · exact .inl ⟨trivial, not_cut_nil, [], rfl, rfl⟩
    have hunpaired : ∀ b more, rest = b :: more → fromStrRadix a b = none →
        ¬Paired (a :: rest) := by
      rintro b more rfl hnone hpaired
      have hread := hpaired.1
      rw [hnone] at hread
      cases hread
    have hlone : rest = [] → ¬Paired (a :: rest) := by
      rintro rfl hpaired
      exact hpaired
    have hwide : ∀ b, a.utf8Size ≠ 1 ∨ b.utf8Size ≠ 1 → fromStrRadix a b = none := by
      intro b hwide
      by_contra hsome
      obtain ⟨ha, hb⟩ := digit_of_fromStrRadix (Option.isSome_iff_ne_none.mpr hsome)
      exact hwide.elim (· (utf8Size_of_ascii (ascii_of_hexDigit ha)))
        (· (utf8Size_of_ascii (ascii_of_hexDigit (.inr hb))))
    rcases utf8Size_pos_cases a with hone | htwo | hlong
    · rcases rest with _ | ⟨b, rest⟩
      · refine .inr (.inr ⟨id, not_cut_of_front (by omega) nofun nofun, ?_⟩)
        rw [hexPairs, if_neg (by omega), if_neg (by omega)]
      · by_cases hnext : 1 < b.utf8Size
        · refine .inr (.inl ⟨?_, ⟨[], a, b :: rest, rfl, trivial, .inr ⟨hone, b, rest, rfl, hnext⟩⟩, ?_⟩)
          · exact hunpaired b rest rfl (hwide b (.inr (by omega)))
          · rw [hexPairs, if_neg (by omega), if_neg (by omega)]
            exact if_pos hnext
        · rcases hread : fromStrRadix a b with _ | byte
          · refine .inr (.inr ⟨hunpaired b rest rfl hread, not_cut_of_front (by omega) ?_ ?_, ?_⟩)
            · rintro - c more hrest
              obtain ⟨rfl, -⟩ := List.cons.inj hrest
              exact hnext
            · rintro c more hrest
              obtain ⟨rfl, -⟩ := List.cons.inj hrest
              exact hread
            · rw [hexPairs, if_neg (by omega), if_neg (by omega)]
              refine (if_neg hnext).trans ?_
              rw [hread]
          · have hsome : (fromStrRadix a b).isSome := Option.isSome_of_mem hread
            have hstep : hexPairs (a :: b :: rest) =
                (hexPairs rest).map fun bytes => bytes.map fun bytes => byte :: bytes := by
              rw [hexPairs, if_neg (by omega), if_neg (by omega)]
              refine (if_neg hnext).trans ?_
              rw [hread]
            have hpaired : Paired (a :: b :: rest) ↔ Paired rest := and_iff_right hsome
            rw [List.length_cons, List.length_cons] at hs
            rw [hstep, hpaired, cut_cons_iff hsome]
            rcases ih rest (by omega) with ⟨hp, hc, bytes, hok, hlen⟩ | ⟨hp, hc, herr⟩ | ⟨hp, hc, hok⟩
            · refine .inl ⟨hp, hc, byte :: bytes, ?_, ?_⟩
              · rw [hok]
                rfl
              · rw [List.length_cons, List.length_cons, List.length_cons]
                omega
            · refine .inr (.inl ⟨hp, hc, ?_⟩)
              rw [herr]
              rfl
            · refine .inr (.inr ⟨hp, hc, ?_⟩)
              rw [hok]
              rfl
    · have hnot : ¬Paired (a :: rest) := by
        rcases rest with _ | ⟨b, rest⟩
        · exact hlone rfl
        · exact hunpaired b rest rfl (hwide b (.inl (by omega)))
      refine .inr (.inr ⟨hnot, not_cut_of_front (by omega) (by omega) ?_, ?_⟩)
      · exact fun b more _ => hwide b (.inl (by omega))
      · rw [hexPairs.eq_def]
        exact (if_neg (by omega)).trans (if_pos htwo)
    · have hnot : ¬Paired (a :: rest) := by
        rcases rest with _ | ⟨b, rest⟩
        · exact hlone rfl
        · exact hunpaired b rest rfl (hwide b (.inl (by omega)))
      refine .inr (.inl ⟨hnot, ⟨[], a, rest, rfl, trivial, .inl hlong⟩, ?_⟩)
      rw [hexPairs.eq_def]
      exact if_pos hlong

theorem even_of_paired (n : ℕ) : ∀ s : Text, s.length ≤ n → Paired s →
    (String.ofList s).utf8ByteSize % 2 = 0 ∧ ∀ c ∈ s, c = '+' ∨ IsHexDigit c := by
  have heach : ∀ n, ∀ s : Text, s.length ≤ n → Paired s →
      s.length % 2 = 0 ∧ ∀ c ∈ s, c = '+' ∨ IsHexDigit c := by
    intro n
    induction n with
    | zero =>
      intro s hs _
      obtain rfl := List.length_eq_zero_iff.mp (Nat.le_zero.mp hs)
      exact ⟨rfl, nofun⟩
    | succ n ih =>
      intro s hs hpaired
      rcases s with _ | ⟨a, _ | ⟨b, rest⟩⟩
      · exact ⟨rfl, nofun⟩
      · exact hpaired.elim
      · obtain ⟨ha, hb⟩ := digit_of_fromStrRadix hpaired.1
        rw [List.length_cons, List.length_cons] at hs ⊢
        obtain ⟨heven, hrest⟩ := ih rest (by omega) hpaired.2
        refine ⟨by omega, ?_⟩
        exact List.forall_mem_cons.mpr ⟨ha, List.forall_mem_cons.mpr ⟨.inr hb, hrest⟩⟩
  intro s hs hpaired
  obtain ⟨heven, hdigits⟩ := heach n s hs hpaired
  rw [utf8ByteSize_of_ascii fun c hc => ascii_of_hexDigit (hdigits c hc)]
  exact ⟨heven, hdigits⟩

/-- The bytes are of even number, and a slice of two ends inside a character. -/
def TornHex (hex : Text) : Prop := (String.ofList hex).utf8ByteSize % 2 = 0 ∧ Cut hex

theorem hexDecode_cases (s : Text) :
    (Paired s ∧ ¬TornHex s ∧ ∃ bytes, hexDecode s = .ok (some bytes) ∧
      2 * bytes.length = s.length) ∨
    (¬Paired s ∧ TornHex s ∧ hexDecode s = .error .panicked) ∨
    (¬Paired s ∧ ¬TornHex s ∧ hexDecode s = .ok none) := by
  by_cases heven : (String.ofList s).utf8ByteSize % 2 = 0
  · have htorn : TornHex s ↔ Cut s := and_iff_right heven
    rw [hexDecode, if_neg (not_not.mpr heven), htorn]
    exact hexPairs_cases s.length s le_rfl
  · have hnot : ¬Paired s := fun h => heven (even_of_paired s.length s le_rfl h).1
    rw [hexDecode, if_pos heven]
    exact .inr (.inr ⟨hnot, fun h => heven h.1, rfl⟩)

structure Complete (f : Fields) : Prop where
  session : ∃ hex ∈ f.sessionIdHex, Paired hex ∧ hex.length = 32
  port : ((f.port).bind parseU16).isSome
  server : ((f.serverPrivate).bind PaddedBase64.decode).isSome
  issuer : ∃ t ∈ f.issuerPublic, ∃ bytes ∈ PaddedBase64.decode t, bytes.length = 32
  idle : ((f.idle).bind parseU32).isSome
  maxDur : ((f.maxDur).bind parseU32).isSome

def Torn (f : Fields) : Prop := ∃ hex ∈ f.sessionIdHex, TornHex hex

theorem read_some {α β : Type} {field : Option Text} {p : Text → Option α} {v : α} {k : String}
    (h : field.bind p = some v) (next : α → Except Fault β) :
    (((want field k).bind fun t => good (p t) k).bind next) = next v := by
  obtain ⟨t, rfl, ht⟩ := Option.bind_eq_some_iff.mp h
  show ((good (p t) k).bind next) = _
  rw [ht]
  rfl

theorem read_none {α β : Type} {field : Option Text} {p : Text → Option α} {k : String}
    (h : field.bind p = none) (next : α → Except Fault β) :
    ∃ e, (((want field k).bind fun t => good (p t) k).bind next) = .error (.refused e) := by
  rcases field with _ | t
  · exact ⟨_, rfl⟩
  · have ht : p t = none := h
    refine ⟨.badValue k, ?_⟩
    show ((good (p t) k).bind next) = _
    rw [ht]
    rfl

theorem good_some {α β : Type} (v : α) (k : String) (next : α → Except Fault β) :
    (good (some v) k).bind next = next v := rfl

def ofOthers (f : Fields) (sessionId : FixedBytes 16) : Except Fault Config :=
  ((want f.port "port").bind fun t => good (parseU16 t) "port").bind fun port =>
  ((want f.serverPrivate "server_private_key_b64").bind fun t =>
    good (PaddedBase64.decode t) "server_private_key_b64").bind fun serverPrivateKey =>
  ((want f.issuerPublic "issuer_public_key_b64").bind fun t =>
    good (PaddedBase64.decode t) "issuer_public_key_b64").bind fun issuerBytes =>
  (good (tryInto 32 issuerBytes) "issuer_public_key_b64").bind fun issuerPublicKey =>
  ((want f.idle "idle_shutdown_min").bind fun t =>
    good (parseU32 t) "idle_shutdown_min").bind fun idleShutdownMin =>
  ((want f.maxDur "max_duration_min").bind fun t =>
    good (parseU32 t) "max_duration_min").bind fun maxDurationMin =>
  .ok { sessionId, port, serverPrivateKey, issuerPublicKey, idleShutdownMin, maxDurationMin }

theorem ofFields_eq (f : Fields) :
    ofFields f = (want f.sessionIdHex "session_id_hex").bind fun hex =>
      ((hexDecode hex).bind (good · "session_id_hex")).bind fun bytes =>
        (good (tryInto 16 bytes) "session_id_hex").bind (ofOthers f) := rfl

theorem tryInto_some {n : ℕ} {bytes : Bytes} (h : bytes.length = n) :
    ∃ a, tryInto n bytes = some a := ⟨⟨bytes, h⟩, dif_pos h⟩

theorem tryInto_none {n : ℕ} {bytes : Bytes} (h : bytes.length ≠ n) : tryInto n bytes = none :=
  dif_neg h

theorem ofOthers_cases (f : Fields) (sessionId : FixedBytes 16)
    (hsession : ∃ hex ∈ f.sessionIdHex, Paired hex ∧ hex.length = 32) :
    (Complete f ∧ ∃ cfg, ofOthers f sessionId = .ok cfg) ∨
    (¬Complete f ∧ ∃ e, ofOthers f sessionId = .error (.refused e)) := by
  have hmissing : ∀ {α : Type} {x : Option α}, x = none → ¬x.isSome := by
    rintro α x rfl h
    cases h
  rcases hport : (f.port).bind parseU16 with _ | port
  · exact .inr ⟨fun h => hmissing hport h.port, read_none hport _⟩
  rcases hserver : (f.serverPrivate).bind PaddedBase64.decode with _ | key
  · refine .inr ⟨fun h => hmissing hserver h.server, ?_⟩
    rw [ofOthers, read_some hport]
    exact read_none hserver _
  rcases hissuer : (f.issuerPublic).bind PaddedBase64.decode with _ | bytes
  · refine .inr ⟨fun h => ?_, ?_⟩
    · obtain ⟨t, ht, bytes, hbytes, -⟩ := h.issuer
      have hsome := Option.bind_eq_some_iff.mpr ⟨t, ht, hbytes⟩
      rw [hissuer] at hsome
      cases hsome
    · rw [ofOthers, read_some hport, read_some hserver]
      exact read_none hissuer _
  obtain ⟨text, htext, hbytes⟩ := Option.bind_eq_some_iff.mp hissuer
  by_cases hlength : bytes.length = 32
  · obtain ⟨array, harray⟩ := tryInto_some hlength
    rcases hidle : (f.idle).bind parseU32 with _ | idle
    · refine .inr ⟨fun h => hmissing hidle h.idle, ?_⟩
      rw [ofOthers, read_some hport, read_some hserver, read_some hissuer, harray,
        good_some]
      exact read_none hidle _
    rcases hmax : (f.maxDur).bind parseU32 with _ | maxDur
    · refine .inr ⟨fun h => hmissing hmax h.maxDur, ?_⟩
      rw [ofOthers, read_some hport, read_some hserver, read_some hissuer, harray,
        good_some, read_some hidle]
      exact read_none hmax _
    · refine .inl ⟨⟨hsession, ?_, ?_, ⟨text, htext, bytes, hbytes, hlength⟩, ?_, ?_⟩, ?_⟩
      · exact Option.isSome_of_mem hport
      · exact Option.isSome_of_mem hserver
      · exact Option.isSome_of_mem hidle
      · exact Option.isSome_of_mem hmax
      · rw [ofOthers, read_some hport, read_some hserver, read_some hissuer, harray,
          good_some, read_some hidle, read_some hmax]
        exact ⟨_, rfl⟩
  · refine .inr ⟨fun h => ?_, ?_⟩
    · obtain ⟨t, ht, bytes', hbytes', hlen⟩ := h.issuer
      obtain rfl := Option.mem_unique ht htext
      obtain rfl := Option.mem_unique hbytes' hbytes
      exact hlength hlen
    · rw [ofOthers, read_some hport, read_some hserver, read_some hissuer, tryInto_none hlength]
      exact ⟨_, rfl⟩

theorem ofFields_cases (f : Fields) :
    (Complete f ∧ ¬Torn f ∧ ∃ cfg, ofFields f = .ok cfg) ∨
    (¬Complete f ∧ Torn f ∧ ofFields f = .error .panicked) ∨
    (¬Complete f ∧ ¬Torn f ∧ ∃ e, ofFields f = .error (.refused e)) := by
  rcases hheld : f.sessionIdHex with _ | hex
  · refine .inr (.inr ⟨?_, ?_, .missingKey "session_id_hex", ?_⟩)
    · intro h
      obtain ⟨hex, hhex, -⟩ := h.session
      rw [hheld] at hhex
      cases hhex
    · rintro ⟨hex, hhex, -⟩
      rw [hheld] at hhex
      cases hhex
    · rw [ofFields_eq, hheld]
      rfl
  have hstart : ofFields f = ((hexDecode hex).bind (good · "session_id_hex")).bind fun bytes =>
      (good (tryInto 16 bytes) "session_id_hex").bind (ofOthers f) := by
    rw [ofFields_eq, hheld]
    rfl
  have honly : ∀ hex' ∈ f.sessionIdHex, hex' = hex := fun hex' h => Option.mem_unique h hheld
  have htorn : Torn f ↔ TornHex hex := by
    refine ⟨?_, fun h => ⟨hex, hheld, h⟩⟩
    rintro ⟨hex', hmem, h⟩
    rwa [honly hex' hmem] at h
  have hpaired : Complete f → Paired hex ∧ hex.length = 32 := by
    intro h
    obtain ⟨hex', hmem, hp⟩ := h.session
    rwa [honly hex' hmem] at hp
  rw [htorn, hstart]
  rcases hexDecode_cases hex with ⟨hp, ht, bytes, hok, hcount⟩ | ⟨hp, ht, hpanic⟩ | ⟨hp, ht, hnone⟩
  · rw [hok]
    show (_ ∧ _ ∧ ∃ cfg, (good (tryInto 16 bytes) "session_id_hex").bind (ofOthers f) = _) ∨ _ ∨
      _ ∧ _ ∧ ∃ e, (good (tryInto 16 bytes) "session_id_hex").bind (ofOthers f) = _
    by_cases hlength : bytes.length = 16
    · obtain ⟨array, harray⟩ := tryInto_some hlength
      rw [harray, good_some]
      have hsession : Paired hex ∧ hex.length = 32 := ⟨hp, by omega⟩
      rcases ofOthers_cases f array ⟨hex, hheld, hsession⟩ with hgood | hbad
      · exact .inl ⟨hgood.1, ht, hgood.2⟩
      · exact .inr (.inr ⟨hbad.1, ht, hbad.2⟩)
    · refine .inr (.inr ⟨fun h => ?_, ht, ?_⟩)
      · have hsession := (hpaired h).2
        omega
      · rw [tryInto_none hlength]
        exact ⟨_, rfl⟩
  · rw [hpanic]
    exact .inr (.inl ⟨fun h => hp (hpaired h).1, ht, rfl⟩)
  · rw [hnone]
    exact .inr (.inr ⟨fun h => hp (hpaired h).1, ht, _, rfl⟩)

theorem parse_lined (h : Lined text) : parse text = ofFields (lastFields text) := by
  rw [parse, readLines_text h]
  rfl

theorem parse_refused (h : ¬Lined text) : ∃ e, parse text = .error (.refused e) := by
  obtain ⟨e, he⟩ := readLines_refused h 0 .empty
  refine ⟨e, ?_⟩
  rw [parse, readLines_textLines, he]
  rfl

theorem lined_of_read (h : readLines 0 (textLines text) .empty = .ok f) : Lined text := by
  by_contra hnot
  obtain ⟨e, he⟩ := readLines_refused hnot 0 .empty
  rw [readLines_textLines, he] at h
  cases h

/-- Both readers of a text agree, and neither panics: a configuration comes of an id of thirty-two
digits, and each value it was made from is the one a lookup of its key finds. -/
def Agrees (text : Text) : Prop :=
  parse text ≠ .error .panicked ∧
    ∀ f cfg, readLines 0 (textLines text) .empty = .ok f → ofFields f = .ok cfg →
      (∃ hex ∈ f.sessionIdHex, hex.length = 32 ∧ ∀ c ∈ hex, IsHexDigit c) ∧
        ∀ key ∈ knownKeys, f.value key = flatConfigValue text key

/-- The session id assigned last is not torn; and where a configuration comes of the text, there
is no plus in it, and a key that is assigned twice has one value. -/
def Plain (text : Text) : Prop :=
  Lined text → ¬Torn (lastFields text) ∧
    (Complete (lastFields text) →
      (∀ hex ∈ lastValue text "session_id_hex".toList, '+' ∉ hex) ∧
        ∀ key ∈ knownKeys, firstValue text key = lastValue text key)

theorem not_hexDigit_plus : ¬IsHexDigit '+' := by
  show ¬(digit '+').isSome = true
  decide

theorem digits_iff_no_plus (h : Paired key) : (∀ c ∈ key, IsHexDigit c) ↔ '+' ∉ key := by
  constructor
  · intro hdigits hplus
    exact not_hexDigit_plus (hdigits '+' hplus)
  · intro hplus c hc
    rcases (even_of_paired key.length key le_rfl h).2 c hc with rfl | hdigit
    · exact absurd hc hplus
    · exact hdigit

/-- When the two readers agree. -/
theorem agrees_iff_plain (text : Text) : Agrees text ↔ Plain text := by
  constructor
  · rintro ⟨hpanic, hread⟩ hlined
    rcases ofFields_cases (lastFields text) with ⟨hall, htorn, cfg, hok⟩ | ⟨hall, htorn, hbad⟩ | hno
    · refine ⟨htorn, fun _ => ?_⟩
      obtain ⟨⟨hex, hhex, -, hdigits⟩, hvalues⟩ := hread _ cfg (readLines_text hlined) hok
      refine ⟨fun hex' hhex' => ?_, fun key hkey => ?_⟩
      · obtain rfl := Option.mem_unique hhex' hhex
        intro hplus
        exact not_hexDigit_plus (hdigits '+' hplus)
      · rw [← value_lastFields text hkey, hvalues key hkey, flatConfigValue_eq]
        rfl
    · -- a torn id is where the parser panics
      exact absurd ((parse_lined hlined).trans hbad) hpanic
    · exact ⟨hno.2.1, fun h => absurd h hno.1⟩
  · intro hplain
    refine ⟨fun hpanic => ?_, fun f cfg hread hok => ?_⟩
    · by_cases hlined : Lined text
      · rw [parse_lined hlined] at hpanic
        rcases ofFields_cases (lastFields text) with ⟨-, -, cfg, hok⟩ | ⟨-, htorn, -⟩ | ⟨-, -, e, he⟩
        · rw [hok] at hpanic
          cases hpanic
        · exact (hplain hlined).1 htorn
        · rw [he] at hpanic
          cases hpanic
      · -- refused before any field is looked at
        obtain ⟨e, he⟩ := parse_refused hlined
        rw [he] at hpanic
        cases hpanic
    · -- both readers have the text, and each key's last line decides
      have hlined := lined_of_read hread
      rw [readLines_text hlined] at hread
      obtain rfl := Except.ok.inj hread
      have hall : Complete (lastFields text) := by
        rcases ofFields_cases (lastFields text) with ⟨hall, -⟩ | ⟨-, -, hbad⟩ | ⟨-, -, e, he⟩
        · exact hall
        · rw [hbad] at hok
          cases hok
        · rw [he] at hok
          cases hok
      obtain ⟨hplus, hsame⟩ := (hplain hlined).2 hall
      obtain ⟨hex, hhex, hpaired, hlength⟩ := hall.session
      refine ⟨⟨hex, hhex, hlength, (digits_iff_no_plus hpaired).mpr (hplus hex hhex)⟩, ?_⟩
      intro key hkey
      rw [value_lastFields text hkey, flatConfigValue_eq]
      exact (hsame key hkey).symm

theorem accepted_of_isOk (text : Text)
    (h : ((readLines 0 (textLines text) .empty).bind ofFields).isOk = true) :
    ∃ f cfg, readLines 0 (textLines text) .empty = .ok f ∧ ofFields f = .ok cfg := by
  rcases hread : readLines 0 (textLines text) .empty with fault | f
  · rw [hread] at h
    cases h
  · rw [hread] at h
    rcases hfields : ofFields f with fault | cfg
    · have hbad : (ofFields f).isOk = true := h
      rw [hfields] at hbad
      cases hbad
    · exact ⟨f, cfg, rfl, hfields⟩

/-- A file that boots, but for its id and its port. -/
def sample (head : String) : Text :=
  head.toList ++ "server_private_key_b64 = AAAA\n".toList ++
    "issuer_public_key_b64 = AAAAAAAAAAAAAAAAAAAAAAAAAAAAAAAAAAAAAAAAAAA=\n".toList ++
    "idle_shutdown_min = 1\nmax_duration_min = 1\n".toList

def plusText : Text := sample "session_id_hex = +0+0+0+0+0+0+0+0+0+0+0+0+0+0+0+0\nport = 1\n"

def twiceText : Text :=
  sample "session_id_hex = 00000000000000000000000000000000\nport = 1\nport = 2\n"

theorem readers_disagree :
    ¬Agrees "session_id_hex = €x".toList ∧ ¬Agrees plusText ∧ ¬Agrees twiceText := by
  refine ⟨fun h => h.1 ?_, fun h => ?_, fun h => ?_⟩
  · have hpanic : (parse "session_id_hex = €x".toList).map (fun _ => ()) = .error .panicked := by
      decide +kernel
    rcases hparse : parse "session_id_hex = €x".toList with fault | cfg
    · rw [hparse] at hpanic
      exact congrArg _ (Except.error.inj hpanic)
    · rw [hparse] at hpanic
      cases hpanic
  · obtain ⟨f, cfg, hread, hok⟩ := accepted_of_isOk plusText (by decide +kernel)
    obtain ⟨⟨hex, hhex, -, hdigits⟩, -⟩ := h.2 f cfg hread hok
    have hheld : (readLines 0 (textLines plusText) .empty).map Fields.sessionIdHex =
        .ok (some "+0+0+0+0+0+0+0+0+0+0+0+0+0+0+0+0".toList) := by decide +kernel
    rw [hread] at hheld
    obtain rfl := Option.mem_unique hhex (Except.ok.inj hheld)
    exact not_hexDigit_plus (hdigits '+' (by decide))
  · obtain ⟨f, cfg, hread, hok⟩ := accepted_of_isOk twiceText (by decide +kernel)
    have hsame := (h.2 f cfg hread hok).2 "port".toList (by decide)
    have hlast : (readLines 0 (textLines twiceText) .empty).map (·.value "port".toList) =
        .ok (some "2".toList) := by decide +kernel
    have hfirst : flatConfigValue twiceText "port".toList = some "1".toList := by decide +kernel
    rw [hread] at hlast
    have hvalue : f.value "port".toList = some "2".toList := Except.ok.inj hlast
    rw [hfirst, hvalue] at hsame
    exact absurd hsame (by decide)

end Config
end JamStream.Server
