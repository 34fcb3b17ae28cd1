import EspushW60x.Fal
import EspushW60x.Crc32

/-!
# `ef_env.c` and `ef_fal_port.c`: the environment variables

EasyFlash in its power fail safeguard mode. The variables are kept in `env_cache`, a
block of 2048 bytes: three words (where the data ends in flash, how often the block was
saved, a checksum), then the strings `key=value`, each padded to whole words. The block
is saved to two areas in turn.

A string is the list of its characters. A pointer into `env_cache` is an offset.
-/

namespace EspushW60x

open Lib

/-- A string without its NUL. -/
structure CStr where
  bytes : Bytes
  ne_zero : ∀ b ∈ bytes, b ≠ 0
deriving DecidableEq

/-- `EfErrCode` -/
inductive EfErrCode
  | noErr
  | eraseErr
  | readErr
  | writeErr
  | envNameErr
  | envNameExist
  | envFull
  | envInitFailed
deriving DecidableEq, Repr

/-- `ENV_USER_SETTING_SIZE` -/
def envUserSettingSize : Nat := 2048

/-- `EF_ERASE_MIN_SIZE` -/
def efEraseMinSize : Nat := 4096

/-- `ENV_AREA_SIZE` -/
def envAreaSize : Nat := 2 * efEraseMinSize

/-- `EF_START_ADDR` -/
def efStartAddr : Nat := 0

/-- `ENV_PARAM_BYTE_SIZE` -/
def envParamByteSize : Nat := 12

/-- `ENV_PARAM_INDEX_END_ADDR`, `ENV_PARAM_INDEX_SAVED_COUNT`, `ENV_PARAM_INDEX_DATA_CRC` -/
def envParamIndexEndAddr : Nat := 0
def envParamIndexSavedCount : Nat := 1
def envParamIndexDataCrc : Nat := 2

def bootTimes : CStr := ⟨ascii "boot_times", ne_zero_of_all (by decide)⟩

def zeroText : CStr := ⟨ascii "0", ne_zero_of_all (by decide)⟩

def defaultEnvSet : List (CStr × CStr) := [(bootTimes, zeroText)]

/-- The static variables of `ef_env.c`, and the chip. -/
structure Ef where
  envCache : Bytes
  envCacheChanged : Bool
  initOk : Bool
  curLoadAreaAddr : Nat
  nextSaveAreaAddr : Nat
  chip : Chip

/-- After power on. -/
def Ef.boot (chip : Chip) : Ef := ⟨List.replicate envUserSettingSize 0, false, false, 0, 0, chip⟩

/-- The word of `env_cache` with number `i`. -/
def Ef.word (s : Ef) (i : Nat) : Nat := ofLe32 (s.envCache.drop (4 * i))

def Ef.setWord (s : Ef) (i n : Nat) : Ef := { s with envCache := patch s.envCache (4 * i) (le32 n) }

/-! ## Sizes -/

def getEnvSystemAddr (s : Ef) : Nat := s.curLoadAreaAddr

def getEnvDataAddr (s : Ef) : Nat := getEnvSystemAddr s + envParamByteSize

def getEnvEndAddr (s : Ef) : Nat := s.word envParamIndexEndAddr

def setEnvEndAddr (s : Ef) (endAddr : Nat) : Ef := s.setWord envParamIndexEndAddr endAddr

def getEnvDataSize (s : Ef) : Nat :=
  if getEnvEndAddr s > getEnvDataAddr s then getEnvEndAddr s - getEnvDataAddr s else 0

def getEnvUserUsedSize (s : Ef) : Nat :=
  if getEnvEndAddr s > getEnvSystemAddr s then getEnvEndAddr s - getEnvSystemAddr s else 0

/-- A size rounded up to whole words. -/
def wordAlign (n : Nat) : Nat := if n % 4 ≠ 0 then (n / 4 + 1) * 4 else n

/-- A difference of two 32-bit numbers in 32 bits. -/
def sub32 (a b : Nat) : Nat := (a + 0x100000000 - b) % 0x100000000

/-! ## The table in memory -/

/-- The loop of `find_env` from the pointer `env` on. The first argument bounds the
number of iterations; each goes on by at least a word. -/
def findEnvFrom (cache key : Bytes) (envEnd : Nat) : Nat → Nat → Option Nat
  | 0, _ => none
  | n + 1, env =>
    if env < envEnd then
      if (cache.drop env).take key.length = key ∧
          byteAt cache (env + key.length) = '='.toUInt8 then some env
      else findEnvFrom cache key envEnd n (env + wordAlign ((cString (cache.drop env)).length + 1))
    else none

def findEnv (s : Ef) (key : CStr) : Option Nat :=
  if key.bytes = [] then none
  else
    let envStart := envParamByteSize
    let envEnd := getEnvUserUsedSize s
    if envStart = envEnd then none
    else findEnvFrom s.envCache key.bytes envEnd envEnd envStart

/-- Where the value begins in the string `key=value` at `env`: `strchr(env, '=') + 1`.
What `find_env` returns has an equal sign. -/
def envValue (cache : Bytes) (env : Nat) : Nat :=
  env + (cString (cache.drop env)).idxOf '='.toUInt8 + 1

def writeEnv (key value : CStr) : Prog Ef EfErrCode := do
  let used ← Prog.read getEnvUserUsedSize
  let keyLen := key.bytes.length
  let valueLen := value.bytes.length
  let envStrLen := wordAlign (keyLen + valueLen + 2)
  if envStrLen + used ≥ envUserSettingSize then return .envFull
  let store (at_ : Nat) (bs : Bytes) : Prog Ef Unit :=
    Prog.modify fun s => { s with envCache := patch s.envCache at_ bs }
  store used key.bytes
  store (used + keyLen) ['='.toUInt8]
  store (used + keyLen + 1) value.bytes
  store (used + keyLen + 1 + valueLen) [0]
  store (used + keyLen + 1 + valueLen + 1)
    (List.replicate (envStrLen - (keyLen + valueLen + 2)) 0)
  Prog.modify fun s => setEnvEndAddr s (getEnvEndAddr s + envStrLen)
  Prog.modify fun s => { s with envCacheChanged := true }
  return .noErr

def createEnv (key value : CStr) : Prog Ef EfErrCode := do
  if key.bytes = [] then return .envNameErr
  if '='.toUInt8 ∈ key.bytes then return .envNameErr
  let env ← Prog.read fun s => findEnv s key
  if env.isSome then return .envNameExist
  writeEnv key value

/-- The regions of the `memcpy` overlap; it copies upwards. -/
def delEnv (key : CStr) : Prog Ef EfErrCode := do
  if key.bytes = [] then return .envNameErr
  if '='.toUInt8 ∈ key.bytes then return .envNameErr
  let found ← Prog.read fun s => findEnv s key
  match found with
  | none => return .envNameErr
  | some env =>
    let s ← Prog.read id
    let delEnvLength := wordAlign ((cString (s.envCache.drop env)).length + 1)
    let remainEnvLength := sub32 (getEnvDataSize s) (sub32 (env + delEnvLength) envParamByteSize)
    Prog.modify fun s => { s with
      envCache := patch s.envCache env ((s.envCache.drop (env + delEnvLength)).take remainEnvLength) }
    Prog.modify fun s => setEnvEndAddr s (sub32 (getEnvEndAddr s) delEnvLength)
    Prog.modify fun s => { s with envCacheChanged := true }
    return .noErr

/-- `value` is `none` for NULL. -/
def efSetEnv (key : CStr) (value : Option CStr) : Prog Ef EfErrCode := do
  let initOk ← Prog.read Ef.initOk
  if initOk = false then return .envInitFailed
  match value with
  | none => delEnv key
  | some value =>
    let s ← Prog.read id
    match findEnv s key with
    | some oldEnv =>
      if cString (s.envCache.drop (envValue s.envCache oldEnv)) ≠ value.bytes then
        let result ← delEnv key
        if result = .noErr then createEnv key value else return result
      else return .noErr
    | none => createEnv key value

def efDelEnv (key : CStr) : Prog Ef EfErrCode := do
  let initOk ← Prog.read Ef.initOk
  if initOk = false then return .envInitFailed
  delEnv key

/-- The pointer to the value. -/
def efGetEnv (s : Ef) (key : CStr) : Option Nat :=
  if s.initOk = false then none
  else (findEnv s key).map (envValue s.envCache)

/-! ## The checksum -/

def calcEnvCrc (s : Ef) : BitVec 32 :=
  let crc32 := efCalcCrc32 0 (s.envCache.take 4)
  let crc32 := efCalcCrc32 crc32 ((s.envCache.drop 4).take 4)
  efCalcCrc32 crc32 ((s.envCache.drop envParamByteSize).take (getEnvDataSize s))

def envCrcIsOk (s : Ef) : Bool := (calcEnvCrc s).toNat = s.word envParamIndexDataCrc

/-! ## `ef_fal_port.c` -/

section Port

variable (e : FlashEnv) (part : FalPartition)

instance : MonadLift (Powered Chip) (Powered Ef) where
  monadLift := Powered.zoom Ef.chip fun c s => { s with chip := c }

/-- The buffer after the read. Errors are not looked at. -/
def efPortRead (s : Ef) (addr : Nat) (buf : Bytes) (size : Nat) : Bytes :=
  (falPartitionRead e part s.chip addr buf size).2

/-- `EF_ASSERT` loops forever. -/
def efPortErase (addr size : Nat) : Powered Ef EfErrCode := do
  if addr % efEraseMinSize ≠ 0 then Powered.stop
  else
    let rc ← falPartitionErase e part addr size
    if rc < 0 then return .eraseErr else return .noErr

def efPortWrite (addr : Nat) (buf : Bytes) : Powered Ef EfErrCode := do
  let rc ← falPartitionWrite e part addr buf
  if rc < 0 then return .writeErr else return .noErr

/-! ## Saving and loading -/

def efSaveEnv : Powered Ef EfErrCode := do
  let changed ← Powered.read Ef.envCacheChanged
  if changed = false then return .noErr
  let writeAddr ← Powered.read Ef.nextSaveAreaAddr
  let writeSize ← Powered.read getEnvUserUsedSize
  Powered.modify fun s => { s with nextSaveAreaAddr := s.curLoadAreaAddr, curLoadAreaAddr := writeAddr }
  Powered.modify fun s => setEnvEndAddr s (writeAddr + writeSize)
  Powered.modify fun s => s.setWord envParamIndexSavedCount (s.word envParamIndexSavedCount + 1)
  Powered.modify fun s => s.setWord envParamIndexDataCrc (calcEnvCrc s).toNat
  let result ← efPortErase e part writeAddr writeSize
  if result = .eraseErr then return result
  let cache ← Powered.read Ef.envCache
  let result ← efPortWrite e part writeAddr (cache.take writeSize)
  Powered.modify fun s => { s with envCacheChanged := false }
  return result

/-- The loop of `ef_env_set_default`. -/
def createDefaults : List (CStr × CStr) → Prog Ef Unit
  | [] => return ()
  | (key, value) :: rest => do
    let _ ← createEnv key value
    createDefaults rest

def efEnvSetDefault : Powered Ef EfErrCode := do
  Powered.modify fun s => setEnvEndAddr s (getEnvDataAddr s)
  Powered.modify fun s => s.setWord envParamIndexSavedCount 0
  createDefaults defaultEnvSet
  let result ← efSaveEnv e part
  if result = .noErr then
    Powered.modify fun s => { s with envCacheChanged := true }
    efSaveEnv e part
  else return result

/-- The word of an area in flash with number `i`. -/
def areaWord (s : Ef) (areaStartAddress i : Nat) : Nat :=
  ofLe32 (efPortRead e part s (areaStartAddress + i * 4) e.stale 4)

/-- The data of the area ends inside of it. -/
def areaEndOk (areaStartAddress areaEndAddr : Nat) : Bool :=
  !(areaEndAddr = 0xFFFFFFFF ∨ areaEndAddr < areaStartAddress ∨
    areaEndAddr > areaStartAddress + envUserSettingSize)

/-- Read an area into the cache. -/
def readArea (areaStartAddress areaEndAddr : Nat) : Prog Ef Unit :=
  Prog.modify fun s => { s with
    envCache := efPortRead e part s areaStartAddress s.envCache (areaEndAddr - areaStartAddress) }

/-- The check of one area in `ef_load_env`, once it is known where its data ends. -/
def checkArea (areaStartAddress areaEndAddr : Nat) : Prog Ef Bool := do
  if areaEndOk areaStartAddress areaEndAddr then
    readArea e part areaStartAddress areaEndAddr
    Prog.modify fun s => { s with curLoadAreaAddr := areaStartAddress }
    Prog.read envCrcIsOk
  else return false

/-- `area0` is the newer one of two areas that pass their checks. -/
def newerArea0 (area0SavedCount area1SavedCount : Nat) : Bool :=
  area0SavedCount > area1SavedCount ∨ (area0SavedCount = 0 ∧ area1SavedCount = 0xFFFFFFFF)

def efLoadEnv : Powered Ef EfErrCode := do
  let area0StartAddress := efStartAddr
  let area1StartAddress := efStartAddr + envAreaSize / 2
  let area0EndAddr ← Powered.read fun s => areaWord e part s area0StartAddress envParamIndexEndAddr
  let area1EndAddr ← Powered.read fun s => areaWord e part s area1StartAddress envParamIndexEndAddr
  let area0IsValid ← checkArea e part area0StartAddress area0EndAddr
  let area1IsValid ← checkArea e part area1StartAddress area1EndAddr
  let newer0 ← Powered.read fun s => newerArea0
    (areaWord e part s area0StartAddress envParamIndexSavedCount)
    (areaWord e part s area1StartAddress envParamIndexSavedCount)
  let bothValid := area0IsValid && area1IsValid
  let area1IsValid := if bothValid && newer0 then false else area1IsValid
  let area0IsValid := if bothValid && !newer0 then false else area0IsValid
  if area0IsValid then
    Powered.modify fun s => { s with
      curLoadAreaAddr := area0StartAddress, nextSaveAreaAddr := area1StartAddress }
    readArea e part area0StartAddress area0EndAddr
    return .noErr
  else if area1IsValid then
    Powered.modify fun s => { s with nextSaveAreaAddr := area0StartAddress }
    return .noErr
  else
    Powered.modify fun s => { s with
      curLoadAreaAddr := area1StartAddress, nextSaveAreaAddr := area0StartAddress }
    efEnvSetDefault e part

def efEnvInit : Powered Ef EfErrCode := do
  let result ← efLoadEnv e part
  if result = .noErr then
    Powered.modify fun s => { s with initOk := true }
    return result
  else return result

end Port

end EspushW60x
