import Mathlib

/-! What a host sends a machine to boot with. -/

namespace JamStream.Cloud

structure BootConfig where
  serverPrivateKeyB64 : String
  issuerPublicKeyB64 : String
  sessionIdHex : String
  port : UInt16
  idleShutdownMin : UInt32
  maxDurationMin : UInt32
deriving DecidableEq

namespace BootConfig

def idleSecs (cfg : BootConfig) : ℕ := cfg.idleShutdownMin.toNat * 60

def maxSecs (cfg : BootConfig) : ℕ := cfg.maxDurationMin.toNat * 60

end BootConfig
end JamStream.Cloud
