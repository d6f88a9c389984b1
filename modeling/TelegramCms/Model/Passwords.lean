import TelegramCms.Lib.Base64
import TelegramCms.Lib.PyStr
import TelegramCms.Lib.Scanf

/-!
# Password hashes of the Go API

`apigo/auth_argon2.go`. The key derivation itself is another package's, so it is a
parameter here, with what it does when it is handed costs it cannot work with, or costs the
process has no memory for.
-/

namespace TelegramCms

/-- The KiB that Argon2 works in at these costs: whole segments of the memory cost, four to a
lane, and at least two blocks of 1 KiB to a segment. -/
def Argon2.blocks (memory : UInt32) (threads : UInt8) : Nat :=
  max (memory.toNat / (4 * threads.toNat) * (4 * threads.toNat)) (2 * (4 * threads.toNat))

namespace Passwords

def argonTime : UInt32 := 3
def argonMemory : UInt32 := 65536
def argonThreads : UInt8 := 4
def argonKeyLen : UInt32 := 32
abbrev argonSaltLen : Nat := 16

end Passwords

/-- `argon2.IDKey` of `golang.org/x/crypto`; `none` is a panic, or the end of the process. -/
structure Argon2 where
  idKey (password salt : List UInt8) (time memory : UInt32) (threads : UInt8) (keyLen : UInt32) :
    Option (List UInt8)
  /-- The KiB that the process can be given; at an allocation beyond them the runtime ends it. -/
  available : Nat
  /-- It is enough for the hashes of this service. -/
  own : Argon2.blocks Passwords.argonMemory Passwords.argonThreads ≤ available
  few : ∀ {password salt time memory threads keyLen}, time < 1 ∨ threads < 1 →
    idKey password salt time memory threads keyLen = none
  /-- The key is a BLAKE2b digest, and there is none of no bytes. -/
  short : ∀ {password salt time memory threads},
    idKey password salt time memory threads 0 = none
  exhausts : ∀ {password salt time memory threads keyLen},
    available < Argon2.blocks memory threads →
    idKey password salt time memory threads keyLen = none
  derives : ∀ {password salt time memory threads keyLen}, 1 ≤ time → 1 ≤ threads → 1 ≤ keyLen →
    Argon2.blocks memory threads ≤ available →
    ∃ key, idKey password salt time memory threads keyLen = some key ∧ key.length = keyLen.toNat

namespace Passwords

/-- `argon2.Version` -/
def version : Nat := 19

/-- `[]byte(s)` -/
def utf8 (s : Text) : List UInt8 := s.flatMap String.utf8EncodeChar

def decimal (n : Nat) : Text := Nat.toDigits 10 n

def argon2id : Text := "argon2id".toList

def versionKey : Text := "v=".toList

def memoryKey : Text := "m=".toList

def timeKey : Text := ",t=".toList

def parallelismKey : Text := ",p=".toList

/-- `$argon2id$v=%d$m=%d,t=%d,p=%d$%s$%s` -/
def format (version memory time parallelism : Nat) (salt hash : Text) : Text :=
  '$' :: argon2id ++ '$' :: (versionKey ++ decimal version) ++ '$' ::
    (memoryKey ++ decimal memory ++ timeKey ++ decimal time
      ++ parallelismKey ++ decimal parallelism)
    ++ '$' :: salt ++ '$' :: hash

/-- `hashPassword`, with the salt that `rand.Read` gave. -/
def hashPassword (A : Argon2) (salt : Vector UInt8 argonSaltLen) (password : Text) :
    Option Text := do
  let hash ← A.idKey (utf8 password) salt.toList argonTime argonMemory argonThreads argonKeyLen
  return format version argonMemory.toNat argonTime.toNat argonThreads.toNat
    (Base64.encode salt.toList) (Base64.encode hash)

/-- The variables that the two calls of `Sscanf` and of the decoder fill. -/
structure Stored where
  memory : UInt32
  timeCost : UInt32
  parallelism : UInt8
  salt : List UInt8
  want : List UInt8
deriving DecidableEq, Repr

/-- `Sscanf(s, "v=%d", …)` -/
def scanVersion (s : Text) : Option Int := do
  let s ← Scanf.literal versionKey s
  let (version, _) ← Scanf.scanInt s
  return version

/-- `Sscanf(s, "m=%d,t=%d,p=%d", …)` -/
def scanCosts (s : Text) : Option (UInt32 × UInt32 × UInt8) := do
  let s ← Scanf.literal memoryKey s
  let (memory, s) ← Scanf.scanUint 32 s
  let s ← Scanf.literal timeKey s
  let (time, s) ← Scanf.scanUint 32 s
  let s ← Scanf.literal parallelismKey s
  let (parallelism, _) ← Scanf.scanUint 8 s
  return (.ofNat memory, .ofNat time, .ofNat parallelism)

/-- `verifyPassword` up to the call of `argon2.IDKey`; `none` where it returns false. -/
def readHash (encoded : Text) : Option Stored :=
  match encoded.splitOn '$' with
  | [_, name, version, costs, salt, hash] =>
    if name ≠ argon2id then none
    else do
      let _ ← scanVersion version
      let (memory, timeCost, parallelism) ← scanCosts costs
      let salt ← Base64.decode salt
      let want ← Base64.decode hash
      return ⟨memory, timeCost, parallelism, salt, want⟩
  | _ => none

/-- The key that `verifyPassword` compares with the hash that is stored. -/
def recompute (A : Argon2) (password : Text) (h : Stored) : Option (List UInt8) :=
  A.idKey (utf8 password) h.salt h.timeCost h.memory h.parallelism (.ofNat h.want.length)

/-- `none` is a panic, or the end of the process. -/
def verifyPassword (A : Argon2) (password encoded : Text) : Option Bool :=
  match readHash encoded with
  | none => some false
  | some h => (recompute A password h).map (fun got => decide (got = h.want))

end Passwords

end TelegramCms
