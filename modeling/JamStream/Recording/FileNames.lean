import JamStream.Cloud.Components
import JamStream.Recording.StemNames

/-! The recorder's file names are safe on any system, whatever its musicians are called. They
keep the letters of any script, which a component of an object key does not. -/

namespace JamStream.Recording
open Protocol Session Cloud Runs Foundations

/-- What letters and digits are known to be, of whatever script. -/
structure Alphanumerics (X : Encoding) : Prop where
  ascii : ∀ c : Char, c.toNat < 128 → X.isAlphanumeric c = c.isAlphanum
  control : ∀ c : Char, isControl c → X.isAlphanumeric c = false

/-- What a file's name is made of before its extension. -/
def Lettered (X : Encoding) (c : Char) : Prop := X.isAlphanumeric c ∨ c = '-' ∨ c = '_'

variable {X : Encoding}

theorem Alphanumerics.of_isAlphanum (hX : Alphanumerics X) {c : Char} (h : c.isAlphanum) :
    X.isAlphanumeric c := by
  have hrange := toNat_of_isAlphanum h
  rw [hX.ascii c (by omega)]
  exact h

theorem Alphanumerics.ne_of_ascii (hX : Alphanumerics X) {c d : Char} (h : X.isAlphanumeric c)
    (hd : d.toNat < 128) (hout : d.isAlphanum = false) : c ≠ d := by
  rintro rfl
  rw [hX.ascii c hd, hout] at h
  exact Bool.false_ne_true h

theorem Lettered.plain (hX : Alphanumerics X) {c : Char} (h : Lettered X c) :
    Plain c ∧ c ≠ '.' := by
  rcases h with h | rfl | rfl
  · refine ⟨⟨fun hin => ?_, ?_, hX.ne_of_ascii h (by decide) (by decide)⟩,
      hX.ne_of_ascii h (by decide) (by decide)⟩
    · have hascii : reservedChars.all (fun d => d.toNat < 128 && !d.isAlphanum) = true := by decide
      have hreserved := List.all_eq_true.mp hascii c hin
      rw [Bool.and_eq_true, decide_eq_true_eq, Bool.not_eq_true'] at hreserved
      exact hX.ne_of_ascii h hreserved.1 hreserved.2 rfl
    · rw [← Bool.not_eq_true]
      intro hcontrol
      rw [hX.control c hcontrol] at h
      exact Bool.false_ne_true h
  · exact ⟨Allowed.plain (Or.inr (Or.inl rfl)), by decide⟩
  · exact ⟨Allowed.plain (Or.inr (Or.inr (Or.inl rfl))), by decide⟩

theorem lettered_sanitize (X : Encoding) (name : String) :
    ∀ c ∈ (sanitize X name).toList, Lettered X c := by
  intro c hc
  unfold sanitize at hc
  rw [String.toList_ofList] at hc
  obtain ⟨d, -, hd⟩ := List.mem_filterMap.mp hc
  split_ifs at hd with hkept hblank
  · obtain rfl := Option.some.inj hd
    rw [Bool.or_eq_true, Bool.or_eq_true, beq_iff_eq, beq_iff_eq] at hkept
    exact or_assoc.mp hkept
  · exact Or.inr (Or.inl (Option.some.inj hd).symm)

theorem sanitize_of_lettered {name : String} (h : ∀ c ∈ name.toList, Lettered X c) :
    sanitize X name = name := by
  have hkept : name.toList.filterMap (fun c =>
      if X.isAlphanumeric c || c == '-' || c == '_' then some c
      else if isWhitespace c then some '-'
      else none) = name.toList.filterMap some := by
    refine List.filterMap_congr fun c hc => if_pos ?_
    rw [Bool.or_eq_true, Bool.or_eq_true, beq_iff_eq, beq_iff_eq]
    exact or_assoc.mpr (h c hc)
  unfold sanitize
  rw [hkept, List.filterMap_some, String.ofList_toList]

theorem isAlphanum_of_mem_padded {width n : ℕ} {c : Char} (h : c ∈ padded width n) :
    c.isAlphanum := by
  rcases List.mem_append.mp h with h | h
  · rw [List.eq_of_mem_replicate h]
    decide
  · have hdigit := Nat.isDigit_of_mem_toDigits (by decide) (by decide) h
    unfold Char.isAlphanum
    rw [hdigit, Bool.or_true]

theorem lettered_toString (hX : Alphanumerics X) (n : ℕ) :
    ∀ c ∈ (toString n).toList, Lettered X c := by
  intro c hc
  rw [toList_toString] at hc
  exact Or.inl (hX.of_isAlphanum (isAlphanum_of_mem_padded hc))

theorem lettered_append {a b : List Char} (ha : ∀ c ∈ a, Lettered X c)
    (hb : ∀ c ∈ b, Lettered X c) : ∀ c ∈ a ++ b, Lettered X c := fun c hc =>
  (List.mem_append.mp hc).elim (ha c) (hb c)

theorem lettered_ascii (hX : Alphanumerics X) {chars : List Char}
    (h : chars.all (fun c => c.isAlphanum || c = '-') = true) : ∀ c ∈ chars, Lettered X c := by
  intro c hc
  have hone := List.all_eq_true.mp h c hc
  rw [Bool.or_eq_true, decide_eq_true_eq] at hone
  exact hone.imp hX.of_isAlphanum Or.inl

theorem lettered_ownName (hX : Alphanumerics X) (roster : List (MemberId × String))
    (id : MemberId) : ∀ c ∈ (ownName X roster id).toList, Lettered X c := by
  unfold ownName
  cases hgiven : ((roster.find? fun e => e.1 = id).map fun e => sanitize X e.2).filter
      fun name => !name.isEmpty with
  | none =>
    rw [Option.getD_none, String.toList_append]
    exact lettered_append (lettered_ascii hX (by decide)) (lettered_toString hX _)
  | some name =>
    rw [Option.getD_some]
    obtain ⟨e, -, rfl⟩ := Option.map_eq_some_iff.mp (Option.eq_some_of_filter_eq_some hgiven)
    exact lettered_sanitize X e.2

theorem lettered_stemName (hX : Alphanumerics X) (roster : List (MemberId × String))
    (used : List String) (id : MemberId) :
    ∀ c ∈ (stemName X roster used id).toList, Lettered X c := by
  rw [stemName_eq]
  split_ifs
  · rw [toList_numbered]
    refine lettered_append (lettered_ownName hX roster id) ?_
    exact List.forall_mem_cons.mpr ⟨Or.inr (Or.inl rfl), lettered_toString hX _⟩
  · exact lettered_ownName hX roster id

theorem lettered_partNames (hX : Alphanumerics X) (roster : List (MemberId × String))
    (order : List MemberId) :
    ∀ part ∈ partNames X roster order, ∀ c ∈ part.toList, Lettered X c := by
  induction order using List.reverseRecOn with
  | nil =>
    intro part hpart
    rw [List.mem_singleton.mp hpart]
    exact lettered_ascii hX (by decide)
  | append_singleton order id ih =>
    intro part hpart
    rw [partNames_append, List.mem_append, List.mem_singleton] at hpart
    rcases hpart with hbefore | rfl
    · exact ih part hbefore
    · exact lettered_stemName hX roster _ id

theorem regroup_base {α : Type*} (c : α) (p y m d hh mm : List α) :
    p ++ y ++ c :: m ++ c :: d ++ c :: hh ++ mm =
      p ++ (y ++ (c :: m ++ (c :: d ++ (c :: hh ++ mm)))) := by
  simp only [List.append_assoc, List.cons_append]

theorem lettered_takeBase (hX : Alphanumerics X) (unixSecs : UInt64) :
    ∃ rest, (takeBase unixSecs).toList = "jamstream-".toList ++ rest ∧
      ∀ c ∈ rest, Lettered X c := by
  have hpadded : ∀ width n, ∀ c ∈ padded width n, Lettered X c := fun width n c hc =>
    Or.inl (hX.of_isAlphanum (isAlphanum_of_mem_padded hc))
  have hdash : ∀ {rest : List Char}, (∀ c ∈ rest, Lettered X c) →
      ∀ c ∈ '-' :: rest, Lettered X c := fun h =>
    List.forall_mem_cons.mpr ⟨Or.inr (Or.inl rfl), h⟩
  unfold takeBase
  generalize civilFromDays _ = date
  generalize unixSecs.toNat % 86400 = secs
  refine ⟨padded 4 date.1.toNat ++ ('-' :: padded 2 date.2.1 ++ ('-' :: padded 2 date.2.2 ++
    ('-' :: padded 2 (secs / 3600) ++ padded 2 (secs % 3600 / 60)))), ?_, ?_⟩
  · rw [String.toList_ofList]
    exact regroup_base '-' _ _ _ _ _ _
  · exact lettered_append (hpadded _ _) (lettered_append (hdash (hpadded _ _))
      (lettered_append (hdash (hpadded _ _)) (lettered_append (hdash (hpadded _ _))
        (hpadded _ _))))

theorem toList_objectName_lettered (hX : Alphanumerics X) (unixSecs : UInt64) {part : String}
    (hpart : ∀ c ∈ part.toList, Lettered X c) :
    ∃ stem, (objectName (takeBase unixSecs) part).toList =
        "jamstream-".toList ++ stem ++ '.' :: "flac".toList ∧ ∀ c ∈ stem, Lettered X c := by
  obtain ⟨rest, hbase, hrest⟩ := lettered_takeBase hX unixSecs
  refine ⟨rest ++ '-' :: part.toList, ?_, lettered_append hrest
    (List.forall_mem_cons.mpr ⟨Or.inr (Or.inl rfl), hpart⟩)⟩
  have hextension : ".flac".toList = '.' :: "flac".toList := by decide
  rw [toList_objectName, hbase, String.toList_append, hextension]
  simp only [List.append_assoc, List.cons_append]

theorem safe_of_stem (hX : Alphanumerics X) {file : String} {stem : List Char}
    (hfile : file.toList = "jamstream-".toList ++ stem ++ '.' :: "flac".toList)
    (hstem : ∀ c ∈ stem, Lettered X c) :
    SafeName (fun c => Lettered X c ∨ c = '.') file ∧ Spoken file.toList ∧
      reservedDeviceName file.toList = false := by
  have hletters : ∀ c ∈ "jamstream-".toList ++ stem, Lettered X c :=
    lettered_append (lettered_ascii hX (by decide)) hstem
  have hextension : ∀ c ∈ "flac".toList, Lettered X c := lettered_ascii hX (by decide)
  have hten : 5 ≤ ("jamstream-".toList ++ stem).length := by
    rw [List.length_append]
    exact le_trans (by decide) (Nat.le_add_right _ _)
  have hlead : file.toList.head? = some 'j' := by
    rw [hfile]
    rfl
  have hlast : file.toList.getLast? = some 'c' := by
    rw [hfile, List.getLast?_append_cons]
    decide
  generalize "jamstream-".toList ++ stem = front at hfile hletters hten
  generalize "flac".toList = extension at hfile hextension
  have hnodot : '.' ∉ front := fun hin => ((hletters '.' hin).plain hX).2 rfl
  have hnodot' : '.' ∉ extension := fun hin => ((hextension '.' hin).plain hX).2 rfl
  have hchars : ∀ c ∈ file.toList, Lettered X c ∨ c = '.' := by
    rw [hfile]
    intro c hc
    rcases List.mem_append.mp hc with hc | hc
    · exact Or.inl (hletters c hc)
    · rcases List.mem_cons.mp hc with rfl | hc
      · exact Or.inr rfl
      · exact Or.inl (hextension c hc)
  have hplain : ∀ c ∈ file.toList, Plain c := by
    intro c hc
    rcases hchars c hc with hletter | rfl
    · exact (hletter.plain hX).1
    · exact Allowed.plain (Or.inr (Or.inr (Or.inr rfl)))
  have hdevice : reservedDeviceName file.toList = false := by
    refine reservedDeviceName_long ?_
    have hstem : file.toList.takeWhile (· ≠ '.') = front := by
      rw [hfile, List.takeWhile_append_of_pos, List.takeWhile_cons_of_neg (by decide),
        List.append_nil]
      exact fun c hc => decide_eq_true ((hletters c hc).plain hX).2
    rwa [hstem]
  have hsingle : ¬['.', '.'] <:+: file.toList := by
    intro hin
    have hcount := hin.sublist.count_le '.'
    have hone : (front ++ '.' :: extension).count '.' = 1 := by
      rw [List.count_append, List.count_cons_self, List.count_eq_zero_of_not_mem hnodot,
        List.count_eq_zero_of_not_mem hnodot']
    rw [hfile, hone] at hcount
    exact absurd hcount (by decide)
  have hspoken : Spoken file.toList := by
    refine List.all_eq_false.mpr ⟨'j', List.mem_of_head? hlead, ?_⟩
    decide
  have htrailing : file.toList.getLast? ≠ some '.' := by
    rw [hlast]
    decide
  have hleading : file.toList.head? ≠ some '.' := by
    rw [hlead]
    decide
  have hnonempty : file ≠ "" := by
    rintro rfl
    exact absurd hlead (by decide)
  exact ⟨⟨hnonempty, hchars, ⟨hleading, hsingle⟩, htrailing,
    windowsHazard_eq_none hplain htrailing hdevice⟩, hspoken, hdevice⟩

theorem sanitizeComponent_of_ascii (hX : Alphanumerics X) {file : String}
    (h : SafeName (fun c => Lettered X c ∨ c = '.') file ∧ Spoken file.toList ∧
      reservedDeviceName file.toList = false) (hascii : ∀ c ∈ file.toList, c.toNat < 128) :
    sanitizeComponent file = file := by
  obtain ⟨hsafe, hspoken, hdevice⟩ := h
  refine sanitizeComponent_of_safe ⟨hsafe.nonempty, fun c hc => ?_, hsafe.spaced,
    hsafe.trailing, hsafe.hazard⟩ hspoken hdevice
  rcases hsafe.allowed c hc with (halnum | hdash | hscore) | hdot
  · refine Or.inl ?_
    rwa [hX.ascii c (hascii c hc)] at halnum
  · exact Or.inr (Or.inl hdash)
  · exact Or.inr (Or.inr (Or.inl hscore))
  · exact Or.inr (Or.inr (Or.inr hdot))

namespace Book

theorem file_safe (hX : Alphanumerics X) (fails : ℕ → Option String) (uploads : Bool)
    (commands : List (Command X)) :
    ∀ e ∈ (run step ⟨Recorder.onSink fails uploads, []⟩ commands).takes, ∀ file ∈ e.2,
      SafeName (fun c => Lettered X c ∨ c = '.') file ∧ Spoken file.toList ∧
        reservedDeviceName file.toList = false := by
  intro e he file hfile
  obtain ⟨roster, order, -, hnames⟩ := (listed_run X fails uploads commands).named e he
  rw [hnames] at hfile
  obtain ⟨part, hpart, rfl⟩ := List.mem_map.mp hfile
  obtain ⟨stem, hstem, hletters⟩ := toList_objectName_lettered hX e.1
    (lettered_partNames hX roster order part hpart)
  exact safe_of_stem hX hstem hletters

end Book

theorem notMem_slash (hX : Alphanumerics X) {file : String}
    (h : SafeName (fun c => Lettered X c ∨ c = '.') file) : '/' ∉ file.toList := by
  intro hin
  rcases h.allowed '/' hin with (halnum | hdash | hscore) | hdot
  · exact hX.ne_of_ascii halnum (d := '/') (by decide) (by decide) rfl
  · exact absurd hdash (by decide)
  · exact absurd hscore (by decide)
  · exact absurd hdot (by decide)

/-- A component is safe and stays as it is. So is a recorder's file name, but for the letters of
other scripts that it keeps. -/
theorem components_safe (hX : Alphanumerics X) :
    (∀ raw, SafeName Allowed (sanitizeComponent raw) ∧
      sanitizeComponent (sanitizeComponent raw) = sanitizeComponent raw) ∧
    (∀ name, sanitize X (sanitize X name) = sanitize X name) ∧
    ∀ (fails : ℕ → Option String) (uploads : Bool) (commands : List (Command X)),
      ∀ e ∈ (run Book.step ⟨Recorder.onSink fails uploads, []⟩ commands).takes, ∀ file ∈ e.2,
        SafeName (fun c => Lettered X c ∨ c = '.') file ∧
          ((∀ c ∈ file.toList, c.toNat < 128) → sanitizeComponent file = file) := by
  refine ⟨fun raw => ⟨(sanitizeComponent_safe raw).1, sanitizeComponent_idem raw⟩,
    fun name => sanitize_of_lettered (lettered_sanitize X name), ?_⟩
  intro fails uploads commands e he file hfile
  have hsafe := Book.file_safe hX fails uploads commands e he file hfile
  exact ⟨hsafe.1, sanitizeComponent_of_ascii hX hsafe⟩

theorem mute_alphanumerics : Alphanumerics Recorder.mute where
  ascii c _ := rfl
  control c hcontrol := by
    rw [← Bool.not_eq_true]
    intro halnum
    have hplain := (Allowed.plain (c := c) (Or.inl halnum)).2.1
    rw [hcontrol] at hplain
    exact Bool.false_ne_true hplain.symm

theorem components_safe_device : sanitizeComponent (sanitizeComponent "..aux.") = "-aux" := by
  rw [((components_safe mute_alphanumerics).1 "..aux.").2]
  decide +kernel

def accented : Encoding :=
  { Recorder.mute with isAlphanumeric := fun c => c.isAlphanum || c = 'é' }

theorem accented_alphanumerics : Alphanumerics accented where
  ascii c hc := by
    have hne : c ≠ 'é' := by
      rintro rfl
      exact absurd hc (by decide)
    show (c.isAlphanum || decide (c = 'é')) = c.isAlphanum
    rw [decide_eq_false hne, Bool.or_false]
  control c hcontrol := by
    have hne : c ≠ 'é' := by
      rintro rfl
      exact absurd hcontrol (by decide)
    show (c.isAlphanum || decide (c = 'é')) = false
    rw [decide_eq_false hne, Bool.or_false]
    exact mute_alphanumerics.control c hcontrol

def renePlays : List (Command accented) :=
  [.start 0 (some [(1, "René")]),
    .tick { mix := silentTick _, stems := [{ id := 1, fader := .unity, pcm := silentTick _ }] }]

/-- A musician keeps a letter that no component has. -/
theorem accent_kept :
    ¬∀ (X : Encoding), Alphanumerics X → ∀ (fails : ℕ → Option String) (uploads : Bool)
      (commands : List (Command X)),
      ∀ e ∈ (run Book.step ⟨Recorder.onSink fails uploads, []⟩ commands).takes, ∀ file ∈ e.2,
        SafeName Allowed file := by
  intro h
  have hall := h accented accented_alphanumerics (fun _ => none) false renePlays
  have hkept : ∃ e ∈ (run Book.step ⟨Recorder.onSink (fun _ => none) false, []⟩ renePlays).takes,
      ∃ file ∈ e.2, 'é' ∈ file.toList := by
    decide +kernel
  obtain ⟨e, he, file, hfile, hin⟩ := hkept
  have hallowed := (hall e he file hfile).allowed 'é' hin
  revert hallowed
  unfold Allowed
  decide

end JamStream.Recording
