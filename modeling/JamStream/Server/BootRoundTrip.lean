import JamStream.Server.Config

/-! What the host writes for a machine to boot with is what the machine reads, and what a
provider finds of it in the document around it. -/

namespace JamStream.Server
open Protocol Foundations Foundations.Lines Session Cloud

namespace Config

theorem readLines_textLines (i : ℕ) (text : Text) (f : Fields) :
    readLines i (textLines text) f = readLines i (lines '\n' text) f := by
  have hsplit := lines_append (ended_whole '\n' text) (remainder '\n' text)
  rw [whole_append_remainder] at hsplit
  have hbegins : ∀ (ls more : List Text) (i : ℕ) (f : Fields),
      readLines i (ls.map dropReturn ++ more) f = readLines i (ls ++ more) f := by
    intro ls more
    induction ls with
    | nil => exact fun i f => rfl
    | cons line ls ih =>
      intro i f
      have hrest : readLines (i + 1) (ls.map dropReturn ++ more) = readLines (i + 1) (ls ++ more) :=
        funext fun g => ih (i + 1) g
      rw [List.map_cons, List.cons_append, List.cons_append, readLines, readLines,
        trimmed_dropReturn, hrest]
  rw [textLines, hbegins, ← hsplit]

theorem readLines_keyLine {key value : Text} (hkey : Key key) (hvalue : trimmed value = value)
    (i : ℕ) (rest : List Text) (f : Fields) :
    readLines i ((key ++ " = ".toList ++ value) :: rest) f =
      (f.assign key value).bind (readLines (i + 1) rest) := by
  obtain ⟨hsome, hsharp, kv, hsplit, hk, hv⟩ := split_keyLine hkey hvalue
  have hread : ¬((trimmed (key ++ " = ".toList ++ value)).isEmpty ||
      (trimmed (key ++ " = ".toList ++ value)).head? = some '#') = true := by
    rw [hsome, Bool.false_or, decide_eq_true_eq]
    exact hsharp
  rw [readLines, if_neg hread, hsplit]
  dsimp only
  rw [hk, hv]

end Config

theorem digit_spec {c : Char} {x : ℕ} (h : digit c = some x) :
    x < 16 ∧ hexDigit x = c.toLower ∧ c.toNat < 128 ∧ c ≠ '+' := by
  have hascii : c.toNat < 128 := by
    have hle : ∀ d : Char, c ≤ d → c.toNat ≤ d.toNat := fun d hd => UInt32.le_iff_toNat_le.mp hd
    unfold digit at h
    split_ifs at h with hdigit hlower hupper
    · exact (hle '9' hdigit.2).trans_lt (by decide)
    · exact (hle 'f' hlower.2).trans_lt (by decide)
    · exact (hle 'F' hupper.2).trans_lt (by decide)
  have hall : ∀ n < 128, ∀ x ∈ digit (Char.ofNat n),
      x < 16 ∧ hexDigit x = (Char.ofNat n).toLower ∧ Char.ofNat n ≠ '+' := by decide +kernel
  have hback : Char.ofNat c.toNat = c := Char.ofNat_toNat c
  rw [← hback] at h
  obtain ⟨hx, hlower, hplus⟩ := hall c.toNat hascii x h
  rw [hback] at hlower hplus
  exact ⟨hx, hlower, hascii, hplus⟩

def IsHexDigit (c : Char) : Prop := (digit c).isSome

theorem fromStrRadix_digits {a b : Char} {x y : ℕ} (ha : digit a = some x) (hb : digit b = some y) :
    ∃ byte, fromStrRadix a b = some byte ∧ hexByte byte = [a.toLower, b.toLower] := by
  obtain ⟨hx, hlowerA, -, hplus⟩ := digit_spec ha
  obtain ⟨hy, hlowerB, -, -⟩ := digit_spec hb
  have hlt : 16 * x + y < 256 := by omega
  have hdiv : (16 * x + y) / 16 = x := by omega
  have hmod : (16 * x + y) % 16 = y := by omega
  refine ⟨UInt8.ofNat (16 * x + y), ?_, ?_⟩
  · rw [fromStrRadix, if_neg hplus, ha, hb]
    rfl
  · rw [hexByte, UInt8.toNat_ofNat', Nat.mod_eq_of_lt hlt, hdiv, hmod, hlowerA, hlowerB]

theorem hexPairs_of_digits (n : ℕ) {s : Text} (hlength : s.length = 2 * n)
    (h : ∀ c ∈ s, IsHexDigit c) :
    ∃ bytes, Config.hexPairs s = .ok (some bytes) ∧ bytes.length = n ∧
      bytes.flatMap hexByte = s.map Char.toLower := by
  induction n generalizing s with
  | zero =>
    obtain rfl := List.length_eq_zero_iff.mp hlength
    exact ⟨[], rfl, rfl, rfl⟩
  | succ n ih =>
    rcases s with _ | ⟨a, _ | ⟨b, rest⟩⟩
    · cases hlength
    · rw [List.length_singleton] at hlength
      omega
    · obtain ⟨x, ha⟩ := Option.isSome_iff_exists.mp (h a (by simp))
      obtain ⟨y, hb⟩ := Option.isSome_iff_exists.mp (h b (by simp))
      have hsizeA := utf8Size_of_ascii (digit_spec ha).2.2.1
      have hsizeB := utf8Size_of_ascii (digit_spec hb).2.2.1
      have hrest : rest.length = 2 * n := by
        rw [List.length_cons, List.length_cons] at hlength
        omega
      obtain ⟨bytes, hread, hcount, hback⟩ :=
        ih hrest fun c hc => h c (List.mem_cons_of_mem a (List.mem_cons_of_mem b hc))
      obtain ⟨byte, hbyte, hspelt⟩ := fromStrRadix_digits ha hb
      refine ⟨byte :: bytes, ?_, ?_, ?_⟩
      · rw [Config.hexPairs, hsizeA, if_neg (by decide), if_neg (by decide)]
        rw [hsizeB, if_neg (by decide), hbyte, hread]
        rfl
      · rw [List.length_cons, hcount]
      · rw [List.flatMap_cons, hspelt, hback]
        rfl

theorem hexDecode_of_digits {s : Text} (hlength : s.length = 32) (h : ∀ c ∈ s, IsHexDigit c) :
    ∃ bytes, Config.hexDecode s = .ok (some bytes) ∧ bytes.length = 16 ∧
      bytes.flatMap hexByte = s.map Char.toLower := by
  have hascii : ∀ c ∈ s, c.toNat < 128 := by
    intro c hc
    obtain ⟨x, hx⟩ := Option.isSome_iff_exists.mp (h c hc)
    exact (digit_spec hx).2.2.1
  have heven : ¬(String.ofList s).utf8ByteSize % 2 ≠ 0 := by
    rw [utf8ByteSize_of_ascii hascii, hlength]
    decide
  rw [Config.hexDecode, if_neg heven]
  exact hexPairs_of_digits 16 hlength h

theorem clean_of_digits {s : Text} (h : ∀ c ∈ s, IsHexDigit c) : Clean s := by
  refine clean_of_range fun c hc => ?_
  obtain ⟨x, hx⟩ := Option.isSome_iff_exists.mp (h c hc)
  have hlow : 48 ≤ c.toNat ∧ c.toNat ≤ 102 := by
    have hle : ∀ d e : Char, d ≤ c → c ≤ e → d.toNat ≤ c.toNat ∧ c.toNat ≤ e.toNat :=
      fun d e hd he => ⟨UInt32.le_iff_toNat_le.mp hd, UInt32.le_iff_toNat_le.mp he⟩
    unfold digit at hx
    split_ifs at hx with hdigit hlower hupper
    · have hrange := hle '0' '9' hdigit.1 hdigit.2
      exact ⟨hrange.1, hrange.2.trans (by decide)⟩
    · have hrange := hle 'a' 'f' hlower.1 hlower.2
      exact ⟨le_trans (by decide) hrange.1, hrange.2⟩
    · have hrange := hle 'A' 'F' hupper.1 hupper.2
      exact ⟨le_trans (by decide) hrange.1, hrange.2.trans (by decide)⟩
  omega

/-- A session id of 32 digits, and keys that are base64, the issuer's of 32 bytes. -/
structure Bootable (cfg : BootConfig) (server issuer : Bytes) : Prop where
  length : cfg.sessionIdHex.toList.length = 32
  digits : ∀ c ∈ cfg.sessionIdHex.toList, IsHexDigit c
  serverKey : PaddedBase64.decode cfg.serverPrivateKeyB64.toList = some server
  issuerKey : PaddedBase64.decode cfg.issuerPublicKeyB64.toList = some issuer
  issuerLength : issuer.length = 32

variable {cfg : BootConfig} {server issuer : Bytes}

theorem Bootable.writable (h : Bootable cfg server issuer) : cfg.Writable where
  session := clean_of_digits h.digits
  server := clean_of_range (PaddedBase64.inRange_of_decode h.serverKey)
  issuer := clean_of_range (PaddedBase64.inRange_of_decode h.issuerKey)

namespace Config

theorem readLines_flatEntries (h : cfg.Writable) :
    readLines 0 (textLines cfg.renderFlatConfig) .empty = .ok
      { sessionIdHex := some cfg.sessionIdHex.toList
        port := some (decimal cfg.port.toNat)
        serverPrivate := some cfg.serverPrivateKeyB64.toList
        issuerPublic := some cfg.issuerPublicKeyB64.toList
        idle := some (decimal cfg.idleShutdownMin.toNat)
        maxDur := some (decimal cfg.maxDurationMin.toNat) } := by
  have hlines := (flatFile_spec h.entries).2.1
  have hkey : ∀ kv ∈ cfg.flatEntries, Key kv.1 ∧ trimmed kv.2 = kv.2 :=
    fun kv hkv => ⟨(h.entries kv hkv).1, (h.entries kv hkv).2.1⟩
  have hsteps : ∀ (kvs : List (Text × Text)) (i : ℕ) (f : Fields),
      (∀ kv ∈ kvs, Key kv.1 ∧ trimmed kv.2 = kv.2) →
      readLines i (kvs.map fun kv => kv.1 ++ " = ".toList ++ kv.2) f =
        kvs.foldlM (fun f kv => f.assign kv.1 kv.2) f := by
    intro kvs
    induction kvs with
    | nil => exact fun i f _ => rfl
    | cons kv kvs ih =>
      intro i f hkvs
      obtain ⟨hk, hv⟩ := hkvs kv List.mem_cons_self
      rw [List.map_cons, readLines_keyLine hk hv, List.foldlM_cons]
      refine congrArg _ (funext fun g => ?_)
      exact ih (i + 1) g fun e he => hkvs e (List.mem_cons_of_mem kv he)
  rw [readLines_textLines, BootConfig.renderFlatConfig, hlines, hsteps _ 0 .empty hkey]
  rfl

theorem parse_render (h : Bootable cfg server issuer) :
    ∃ c, parse cfg.renderFlatConfig = .ok c ∧
      c.sessionId.1.flatMap hexByte = cfg.sessionIdHex.toList.map Char.toLower ∧
      c.port = cfg.port ∧ c.serverPrivateKey = server ∧ c.issuerPublicKey.1 = issuer ∧
      c.idleShutdownMin = cfg.idleShutdownMin ∧ c.maxDurationMin = cfg.maxDurationMin := by
  obtain ⟨id, hid, hcount, hback⟩ := hexDecode_of_digits h.length h.digits
  have hport : parseU16 (decimal cfg.port.toNat) = some cfg.port := by
    rw [parseU16, decimal, parseUnsigned_toDigits cfg.port.toNat_lt, Option.map_some,
      UInt16.ofNat_toNat]
  have hminutes : ∀ n : UInt32, parseU32 (decimal n.toNat) = some n := by
    intro n
    rw [parseU32, decimal, parseUnsigned_toDigits n.toNat_lt, Option.map_some, UInt32.ofNat_toNat]
  refine ⟨⟨⟨id, hcount⟩, cfg.port, server, ⟨issuer, h.issuerLength⟩, cfg.idleShutdownMin,
    cfg.maxDurationMin⟩, ?_, hback, rfl, rfl, rfl, rfl, rfl⟩
  rw [parse, readLines_flatEntries h.writable]
  simp only [ofFields, want, good, bind, Except.bind, pure, Except.pure, hid, tryInto,
    dif_pos hcount, hport, h.serverKey, h.issuerKey, dif_pos h.issuerLength, hminutes]

end Config

/-- What is written is read back, by the server, by a recorder and by a provider. -/
theorem boot_round_trip (cfg : BootConfig) (server issuer : Bytes)
    (h : Bootable cfg server issuer) :
    (∃ c, Config.parse cfg.renderFlatConfig = .ok c ∧
      c.sessionId.1.flatMap hexByte = cfg.sessionIdHex.toList.map Char.toLower ∧
      c.port = cfg.port ∧ c.serverPrivateKey = server ∧ c.issuerPublicKey.1 = issuer ∧
      c.idleShutdownMin = cfg.idleShutdownMin ∧ c.maxDurationMin = cfg.maxDurationMin) ∧
    (∀ (debug : Text → String) (r : RecordingStorage), r.Writable →
      r.provider.hasObjectStorage = true →
      RecordingStorage.parseFlatConfig debug r.renderFlatConfig = .ok r) ∧
    (∀ (text more : Text) (spaces : ℕ), Ended '\n' text →
      flatConfigValue text "max_duration_min".toList = none →
      flatConfigValue (text ++ indent cfg.renderFlatConfig spaces ++ more)
          "max_duration_min".toList = some (decimal cfg.maxDurationMin.toNat) ∧
      sessionMaxRunSeconds (text ++ indent cfg.renderFlatConfig spaces ++ more) =
        if cfg.maxDurationMin = 0 then none
        else some (UInt64.ofNat (cfg.maxDurationMin.toNat * 60))) ∧
    ∀ (before after : List (Text × ℕ)) (spaces : ℕ),
      (∀ f ∈ before ++ after, flatConfigValue f.1 "max_duration_min".toList = none) →
      flatConfigValue (embedded (before ++ (cfg.renderFlatConfig, spaces) :: after))
        "max_duration_min".toList = some (decimal cfg.maxDurationMin.toNat) := by
  have hown : flatConfigValue cfg.renderFlatConfig "max_duration_min".toList =
      some (decimal cfg.maxDurationMin.toNat) :=
    h.writable.read (by simp [BootConfig.flatEntries])
  refine ⟨Config.parse_render h, fun debug r => RecordingStorage.parse_render debug, ?_, ?_⟩
  · intro text more spaces hended hnone
    have hfound : flatConfigValue (text ++ indent cfg.renderFlatConfig spaces ++ more)
        "max_duration_min".toList = some (decimal cfg.maxDurationMin.toNat) :=
      flatConfigValue_embedded spaces hended hnone hown
    exact ⟨hfound, sessionMaxRunSeconds_of hfound⟩
  · intro before after spaces hfiles
    obtain ⟨hended, hnone⟩ := embedded_spec fun f hf => hfiles f (List.mem_append_left after hf)
    have hdocument : embedded (before ++ (cfg.renderFlatConfig, spaces) :: after) =
        embedded before ++ indent cfg.renderFlatConfig spaces ++ embedded after := by
      rw [embedded, List.flatMap_append, List.flatMap_cons, List.append_assoc]
      rfl
    rw [hdocument]
    exact flatConfigValue_embedded spaces hended hnone hown

def deskBoot : BootConfig :=
  { serverPrivateKeyB64 := "c2VydmVyLXByaXZhdGUta2V5"
    issuerPublicKeyB64 := "BwcHBwcHBwcHBwcHBwcHBwcHBwcHBwcHBwcHBwcHBwc="
    sessionIdHex := "00112233445566778899AABBccddeeff"
    port := 43210
    idleShutdownMin := 10
    maxDurationMin := 720 }

theorem bootable_desk : Bootable deskBoot "server-private-key".toUTF8.toList (List.replicate 32 7) where
  length := by decide
  digits := by
    have hall : deskBoot.sessionIdHex.toList.all (fun c => (digit c).isSome) = true := by decide
    exact List.all_eq_true.mp hall
  serverKey := by decide +kernel
  issuerKey := by decide +kernel
  issuerLength := by decide

def deskStorage : RecordingStorage :=
  { provider := .aws
    bucket := "jam-takes"
    region := "us-east-1"
    retention := .days30
    credential := { accessKeyId := "AKIA7", secretAccessKey := "s3cret/+key" }
    stems := true }

theorem writable_desk : deskStorage.Writable where
  bucket := RecordingStorage.clean_of_all (by decide)
  region := RecordingStorage.clean_of_all (by decide)
  accessKeyId := RecordingStorage.clean_of_all (by decide)

theorem boot_round_trip_desk :
    (∃ c, Config.parse deskBoot.renderFlatConfig = .ok c ∧ c.port = 43210) ∧
    RecordingStorage.parseFlatConfig String.ofList deskStorage.renderFlatConfig =
      .ok deskStorage ∧
    sessionMaxRunSeconds ("#cloud-config\n".toList ++ indent deskBoot.renderFlatConfig 4 ++ []) =
      some 43200 := by
  obtain ⟨⟨c, hparse, -, hport, -⟩, hstorage, hembedded, -⟩ :=
    boot_round_trip deskBoot _ _ bootable_desk
  refine ⟨⟨c, hparse, hport⟩, hstorage String.ofList deskStorage writable_desk rfl, ?_⟩
  exact (hembedded "#cloud-config\n".toList [] 4 (by decide) (by decide)).2

end JamStream.Server
