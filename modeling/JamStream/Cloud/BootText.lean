import JamStream.Cloud.CloudInit
import JamStream.Cloud.FlatConfig

/-! The boot configuration as text, and the cap that a provider reads back out of the document
it stands in. -/

namespace JamStream.Cloud
open Foundations Foundations.Lines Session

def decimal (n : ℕ) : Text := Nat.toDigits 10 n

namespace BootConfig

def flatEntries (cfg : BootConfig) : List (Text × Text) :=
  [("session_id_hex".toList, cfg.sessionIdHex.toList),
    ("port".toList, decimal cfg.port.toNat),
    ("server_private_key_b64".toList, cfg.serverPrivateKeyB64.toList),
    ("issuer_public_key_b64".toList, cfg.issuerPublicKeyB64.toList),
    ("idle_shutdown_min".toList, decimal cfg.idleShutdownMin.toNat),
    ("max_duration_min".toList, decimal cfg.maxDurationMin.toNat)]

def renderFlatConfig (cfg : BootConfig) : Text := flatFile cfg.flatEntries

end BootConfig

def parseU64 (text : Text) : Option UInt64 := (parseUnsigned (2 ^ 64) text).map UInt64.ofNat

/-- Nothing when the payload names no cap, or none above zero. -/
def sessionMaxRunSeconds (userData : Text) : Option UInt64 :=
  (((flatConfigValue userData "max_duration_min".toList).bind parseU64).filter (0 < ·)).map (· * 60)

theorem clean_of_range {text : Text} (h : ∀ c ∈ text, 43 ≤ c.toNat ∧ c.toNat ≤ 122) : Clean text := by
  constructor
  · exact trimBy_of_forall fun c hc => isWhitespace_of_range (h c hc).1 (h c hc).2
  · intro hin
    exact absurd (h '\n' hin).1 (by decide)

theorem clean_decimal (n : ℕ) : Clean (decimal n) := by
  refine clean_of_range fun c hc => ?_
  have hrange := toNat_of_isAlphanum (c := c) ?_
  · omega
  · rw [Char.isAlphanum, isDigit_of_mem_toDigits hc, Bool.or_true]

structure BootConfig.Writable (cfg : BootConfig) : Prop where
  session : Clean cfg.sessionIdHex.toList
  server : Clean cfg.serverPrivateKeyB64.toList
  issuer : Clean cfg.issuerPublicKeyB64.toList

variable {cfg : BootConfig}

theorem BootConfig.Writable.entries (h : cfg.Writable) :
    ∀ kv ∈ cfg.flatEntries, Key kv.1 ∧ Clean kv.2 := by
  have hkeys : ∀ key ∈ cfg.flatEntries.map Prod.fst, Key key := by
    have hall : (cfg.flatEntries.map Prod.fst).all (fun key =>
        !key.isEmpty && key.all fun c => c.isAlphanum || c == '_') = true := by
      show (["session_id_hex".toList, "port".toList, "server_private_key_b64".toList,
        "issuer_public_key_b64".toList, "idle_shutdown_min".toList,
        "max_duration_min".toList].all _) = true
      decide
    intro key hkey
    obtain ⟨hne, hword⟩ := Bool.and_eq_true_iff.mp (List.all_eq_true.mp hall key hkey)
    refine ⟨?_, hword⟩
    rintro rfl
    cases hne
  have hvalues : ∀ kv ∈ cfg.flatEntries, Clean kv.2 := by
    intro kv hkv
    simp only [flatEntries, List.mem_cons, List.not_mem_nil, or_false] at hkv
    rcases hkv with rfl | rfl | rfl | rfl | rfl | rfl
    · exact h.session
    · exact clean_decimal _
    · exact h.server
    · exact h.issuer
    · exact clean_decimal _
    · exact clean_decimal _
  exact fun kv hkv => ⟨hkeys kv.1 (List.mem_map_of_mem hkv), hvalues kv hkv⟩

theorem BootConfig.keys_nodup (cfg : BootConfig) : (cfg.flatEntries.map Prod.fst).Nodup := by
  show (["session_id_hex".toList, "port".toList, "server_private_key_b64".toList,
    "issuer_public_key_b64".toList, "idle_shutdown_min".toList,
    "max_duration_min".toList]).Nodup
  decide

theorem BootConfig.Writable.read (h : cfg.Writable) {key value : Text}
    (hin : (key, value) ∈ cfg.flatEntries) :
    flatConfigValue cfg.renderFlatConfig key = some value :=
  flatConfigValue_flatFile h.entries cfg.keys_nodup hin

theorem sessionMaxRunSeconds_of {userData : Text} {cap : UInt32}
    (h : flatConfigValue userData "max_duration_min".toList = some (decimal cap.toNat)) :
    sessionMaxRunSeconds userData =
      if cap = 0 then none else some (UInt64.ofNat (cap.toNat * 60)) := by
  have hlt : cap.toNat < 2 ^ 64 := cap.toNat_lt.trans (by decide)
  have hparse : parseU64 (decimal cap.toNat) = some (UInt64.ofNat cap.toNat) := by
    rw [parseU64, decimal, parseUnsigned_toDigits hlt]
    rfl
  rw [sessionMaxRunSeconds, h, Option.bind_some, hparse]
  by_cases hzero : cap = 0
  · rw [if_pos hzero, hzero]
    rfl
  · have hpos : 0 < UInt64.ofNat cap.toNat := by
      have hne : cap.toNat ≠ 0 := fun h0 => hzero (UInt32.toNat_inj.mp h0)
      rw [UInt64.lt_iff_toNat_lt, UInt64.toNat_ofNat', Nat.mod_eq_of_lt hlt]
      exact Nat.pos_of_ne_zero hne
    rw [if_neg hzero, Option.filter_some, if_pos (decide_eq_true hpos), UInt64.ofNat_mul]
    rfl

end JamStream.Cloud
