import Sable.Substrings
import Sable.TpmCommands

/-!
# The boot flow of `sable.c`

Sealing a passphrase to the platform state, unsealing and showing it, measuring
the modules, and the order of these steps after the late launch.  The release
build for Intel platforms without `USE_TPM_SEALX` is modelled.
-/

namespace Sable

open ByteMemory BigEndian HaltingProgram

def khSRK : UInt32 := 0x40000000
def etKeyhandle : UInt16 := 0x0001
def tagPcrInfoLong : UInt16 := 0x0006
def locTwo : UInt8 := 0x04

def passphraseStrSize : UInt32 := 128
def authdataStrSize : Nat := 64

section Passphrase

variable {σ : Type} (device : TisDevice σ)

/-- The buffer `auth_str` is uninitialised; only bytes stored by `get_string`
are read from it.  The terminator of a line that fills it is stored behind it. -/
def getAuthdata : Boot σ (Result (Block 20)) := do
  let (authStr, res) ← getString (fun _ => 0) authdataStrSize false
  if authdataStrSize ≤ res then Prog.halt .overrun
  else if 0 < res then
    sha1InitLocal
    let exception ← sha1Local (read authStr 0 res)
    if exception ≠ .none then return .error exception default
    sha1FinishLocal
    let hash ← sctxHash
    return .ok hash
  else return .ok (Block.zero 20)

def getNonce : Boot σ (Result (Block 20)) := do
  let getRandomRes ← tpmGetRandom device (List.replicate 20 0) 20
  let value := Block.ofList 20 getRandomRes.value
  if getRandomRes.exception ≠ .none then
    return .error getRandomRes.exception value
  return .ok value

/-- The record returned with an exception of `get_pcr_info`. -/
def emptyPcrInfo : TpmPcrInfoLong :=
  ⟨0, 0, 0, ⟨0, 0⟩, ⟨0, 0⟩, Block.zero 20, Block.zero 20⟩

def getPcrInfo : Boot σ (Result TpmPcrInfoLong) := do
  let pcrValues ← allocHeap (2 * 20)
  let pcrSelectBytes ← allocHeap 3
  storeBytes pcrSelectBytes 0 [0x00]
  storeBytes pcrSelectBytes 1 [0x00]
  storeBytes pcrSelectBytes 2 [0x0c]
  let pcrSelect : TpmPcrSelection := ⟨3, pcrSelectBytes⟩
  let pcr18 ← tpmPCRRead device 18
  if pcr18.exception ≠ .none then return .error pcr18.exception emptyPcrInfo
  storeBytes pcrValues 0 pcr18.value.bytes
  let pcr19 ← tpmPCRRead device 19
  if pcr19.exception ≠ .none then return .error pcr19.exception emptyPcrInfo
  storeBytes pcrValues 20 pcr19.value.bytes
  let compositeHash ← getTpmCompositeHash ⟨pcrSelect, 2 * 20, pcrValues⟩
  return .ok ⟨tagPcrInfoLong, locTwo, locTwo, pcrSelect, pcrSelect, compositeHash,
    compositeHash⟩

/-- `sharedSecret_gen` on the nonces of the OSAP session in slot zero. -/
def sessionSecret (srkAuth : Block 20) : Boot σ (Block 20) := do
  let s ← getSlot .zero
  let session ← loadSession s
  let osap ← loadOsap session.osap
  return sharedSecretGen srkAuth osap.nonceEvenOSAP osap.nonceOddOSAP

/-- Set the fields of a session that the caller has to fill in. -/
def setNonceOdd (slot : SessionSlot) (nonceOdd : Block 20) : Boot σ Unit := do
  let s ← getSlot slot
  updateSession s fun session => { session with nonceOdd := nonceOdd }

def endAfterCommand (slot : SessionSlot) : Boot σ Unit := do
  let s ← getSlot slot
  updateSession s fun session => { session with continueAuthSession := 0 }

def sealPassphrase (srkAuth ppAuth : Block 20) (passphrase lenPassphrase : UInt32) :
    Boot σ (Result TpmStoredData12) := do
  let nonceOddOSAP ← getNonce device
  if nonceOddOSAP.exception ≠ .none then
    return .error nonceOddOSAP.exception emptyStoredData12
  let osapRet ← tpmOSAP device etKeyhandle khSRK nonceOddOSAP.value .zero
  if osapRet.exception ≠ .none then
    return .error osapRet.exception emptyStoredData12
  let nonceOdd ← getNonce device
  if nonceOdd.exception ≠ .none then
    return .error nonceOdd.exception emptyStoredData12
  setNonceOdd .zero nonceOdd.value
  endAfterCommand .zero
  let sharedSecret ← sessionSecret srkAuth
  let s ← getSlot .zero
  let session ← loadSession s
  let encAuth := encAuthGen ppAuth sharedSecret session.nonceEven
  let pcrInfo ← getPcrInfo device
  if pcrInfo.exception ≠ .none then
    return .error pcrInfo.exception emptyStoredData12
  tpmSeal device khSRK encAuth pcrInfo.value passphrase lenPassphrase .zero sharedSecret

def writePassphrase (nvAuth : Block 20) (sealedData : TpmStoredData12)
    (index size : UInt32) : Boot σ (Result Unit) := do
  let oiapRet ← tpmOIAP device .zero
  if oiapRet.exception ≠ .none then return .error oiapRet.exception ()
  let nonceOdd ← getNonce device
  if nonceOdd.exception ≠ .none then return .error nonceOdd.exception ()
  setNonceOdd .zero nonceOdd.value
  endAfterCommand .zero
  let x ← extractStoredData12 sealedData
  tpmNvWriteValueAuth device x.1 size index 0 nvAuth .zero

def configure (index size : UInt32) : Boot σ (Result Unit) := do
  let passphrase ← allocHeap passphraseStrSize
  outString (text "Please enter the passphrase (128 char max): ")
  let length ← getStringAt passphrase 127 true
  let lenPassphrase := UInt32.ofNat length + 1
  outString (text "Please enter the passPhraseAuthData (64 char max): ")
  let ppAuth ← getAuthdata
  if ppAuth.exception ≠ .none then return .error ppAuth.exception ()
  outString (text "Please enter the srkAuthData (64 char max): ")
  let srkAuth ← getAuthdata
  if srkAuth.exception ≠ .none then return .error srkAuth.exception ()
  let sealedData ← sealPassphrase device srkAuth.value ppAuth.value passphrase
    lenPassphrase
  if sealedData.exception ≠ .none then return .error sealedData.exception ()
  outString (text "Please enter the nvAuthData (64 char max): ")
  let nvAuth ← getAuthdata
  if nvAuth.exception ≠ .none then return .error nvAuth.exception ()
  writePassphrase device nvAuth.value sealedData.value index size

def readPassphrase (index size : UInt32) : Boot σ (Result TpmStoredData12) := do
  let val ← tpmNvReadValue device index 0 size none none
  if val.exception ≠ .none then return .error val.exception emptyStoredData12
  let value ← unpackStoredData12 val.value.data val.value.dataSize
  return .ok value

/-- The result of the first `get_nonce` is used without looking at its
exception, and the OSAP session gets no odd nonce. -/
def unsealPassphrase (srkAuth ppAuth : Block 20) (sealedPp : TpmStoredData12) :
    Boot σ (Result UInt32) := do
  let nonceOdd ← getNonce device
  let srkOsapRet ← tpmOSAP device etKeyhandle khSRK nonceOdd.value .zero
  if srkOsapRet.exception ≠ .none then return .error srkOsapRet.exception 0
  endAfterCommand .zero
  let sharedSecret ← sessionSecret srkAuth
  let ppOiapRet ← tpmOIAP device .one
  if ppOiapRet.exception ≠ .none then return .error ppOiapRet.exception 0
  let nonceOdd ← getNonce device
  if nonceOdd.exception ≠ .none then return .error nonceOdd.exception 0
  setNonceOdd .one nonceOdd.value
  endAfterCommand .one
  let unsealRet ← tpmUnseal device sealedPp khSRK sharedSecret .zero ppAuth .one
  if unsealRet.exception ≠ .none then return .error unsealRet.exception 0
  return .ok unsealRet.value.data

/-- Show the passphrase and go on only if the user confirms it. -/
def confirmPassphrase (passphrase : UInt32) : Boot σ Unit := do
  outString (text "Please confirm that the passphrase is correct:\n\n")
  let shown ← loadString passphrase
  outString shown
  outString (text "\n\nIf this is correct, please type YES in all capitals: ")
  let yesString ← allocHeap 4
  let _ ← getStringAt yesString 4 true
  let m ← Prog.get
  if read m.mem yesString.toNat 3 ≠ text "YES" then Prog.halt .reboot
  else emit .confirmed

def trustedBoot (index size : UInt32) : Boot σ (Result Unit) := do
  let sealedPp ← readPassphrase device index size
  if sealedPp.exception ≠ .none then return .error sealedPp.exception ()
  outString (text "Please enter the passPhraseAuthData (64 char max): ")
  let ppAuth ← getAuthdata
  if ppAuth.exception ≠ .none then return .error ppAuth.exception ()
  outString (text "Please enter the srkAuthData (64 char max): ")
  let srkAuth ← getAuthdata
  if srkAuth.exception ≠ .none then return .error srkAuth.exception ()
  let passphrase ← unsealPassphrase device srkAuth.value ppAuth.value sealedPp.value
  if passphrase.exception ≠ .none then return .error passphrase.exception ()
  confirmPassphrase passphrase.value
  return .ok ()

end Passphrase

section Measurement

variable {σ : Type} (device : TisDevice σ)

/-- Hash a byte string and extend PCR 19 with the digest, without looking at
the result of `sha1`. -/
def extendDigest (bytes : List UInt8) : Boot σ (Result (Block 20)) := do
  sha1InitLocal
  let _ ← sha1Local bytes
  sha1FinishLocal
  let hash ← sctxHash
  tpmExtend device 19 hash

/-- The loop body of `mbi_calc_hash` for the `struct module` at `entry`. -/
def hashModule (entry : UInt32) : Boot σ (Result Unit) := do
  sha1InitLocal
  let m ← Prog.get
  let modStart := load32 m.mem entry.toNat
  let modEnd := load32 m.mem (entry.toNat + 4)
  if modEnd < modStart then return .error .badModule ()
  let sha1Ret ← sha1Local (read m.mem modStart.toNat (modEnd - modStart).toNat)
  if sha1Ret ≠ .none then return .error sha1Ret ()
  sha1FinishLocal
  let hash ← sctxHash
  let extendRet ← tpmExtend device 19 hash
  if extendRet.exception ≠ .none then return .error extendRet.exception ()
  let m ← Prog.get
  let string ← loadString (load32 m.mem (entry.toNat + 8))
  if string.length = 0 then return .ok ()
  let extendRet ← extendDigest device string
  if extendRet.exception ≠ .none then return .error extendRet.exception ()
  return .ok ()

def hashModules : Nat → UInt32 → Boot σ (Result Unit)
  | 0, _ => pure (.ok ())
  | count + 1, entry => do
      let ret ← hashModule device entry
      if ret.exception ≠ .none then return ret
      hashModules count (entry + 16)

def mbiFlagCmdline : UInt32 := 0x4
def mbiFlagMods : UInt32 := 0x8

/-- Hash SABLE's command line if the multiboot information has one. -/
def hashCmdline (mbi : UInt32) : Boot σ (Result Unit) := do
  let m ← Prog.get
  if load32 m.mem mbi.toNat &&& mbiFlagCmdline = 0 then return .ok ()
  let cmdline ← loadString (load32 m.mem (mbi.toNat + 16))
  let extendRet ← extendDigest device cmdline
  if extendRet.exception ≠ .none then return .error extendRet.exception ()
  return .ok ()

/-- Hash all multiboot modules. -/
def mbiCalcHash (mbi : UInt32) : Boot σ (Result Unit) := do
  let ret ← hashCmdline device mbi
  if ret.exception ≠ .none then return ret
  let m ← Prog.get
  let modsCount := load32 m.mem (mbi.toNat + 20)
  if load32 m.mem mbi.toNat &&& mbiFlagMods = 0 then return .error .badModule ()
  if modsCount = 0 then return .error .noModule ()
  outDescription "Hashing modules count" modsCount
  hashModules device modsCount.toNat (load32 m.mem (mbi.toNat + 24))

end Measurement

section Launch

/-- The digits are read as signed characters. -/
def aToIFrom (mem : Mem) : Nat → Nat → UInt32 → Option UInt32
  | 0, _, _ => none
  | fuel + 1, addr, ret =>
      if mem addr ≠ 0 ∧ mem addr ≠ 0x20 then
        aToIFrom mem fuel (addr + 1)
          (ret * 10 + (UInt32.ofNat (mem addr).toNat +
            (if 128 ≤ mem addr then 0xffffff00 else 0) - 0x30))
      else some ret

/-- The code of the architecture and the module starter, which is not modelled
here.  It may change the hardware and the memory. -/
structure Platform (σ : Type) where
  device : TisDevice σ
  copyE820Map : Prog Halt (σ × Mem) Unit
  intelPostLaunch : Prog Halt (σ × Mem) Unit
  launchKernel : Prog Halt (σ × Mem) Unit
  startModule : UInt32 → Prog Halt (σ × Mem) (Result Unit)

variable {σ : Type} (platform : Platform σ)

def onPlatform {α : Type} (program : Prog Halt (σ × Mem) α) : Boot σ α := fun m =>
  match program (m.world, m.mem) with
  | .ok value (world, mem) => .ok value { m with world := world, mem := mem }
  | .halt reason (world, mem) => .halt reason { m with world := world, mem := mem }

/-- `cmdlineArgVal` followed by `aToI`.  The record of the characters that are looked at is
left out here. -/
def cmdlineNumber (cmdline : UInt32) (argument : String) : Boot σ UInt32 := do
  let m ← Prog.get
  match cmdlineArgVal (fun i => m.mem (cmdline.toNat + i))
      (fun j => (text argument).getD j 0) (2 ^ 32) [] with
  | .halt reason _ => Prog.halt reason
  | .ok index _ =>
      match aToIFrom m.mem (2 ^ 32) (cmdline.toNat + index.toNat) 0 with
      | none => Prog.halt .spin
      | some number => pure number

/-- `init_heap` on the heap array. -/
def initHeapArray : Boot σ Unit := fun m =>
  match initHeap m.heap 8192 m.mem with
  | .ok _ mem => .ok () { m with mem := mem }
  | .halt reason mem => .halt reason { m with mem := mem }

/-- The steps of `post_launch` before the TPM is looked for; the result is the
index and the size of the NV area. -/
def postLaunchStart (mbi : UInt32) : Boot σ (UInt32 × UInt32) := do
  initHeapArray
  onPlatform platform.copyE820Map
  onPlatform platform.intelPostLaunch
  let m ← Prog.get
  let nvIndex ← cmdlineNumber (load32 m.mem (mbi.toNat + 16)) "--nv-index="
  let nvSize ← cmdlineNumber (load32 m.mem (mbi.toNat + 16)) "--nv-size="
  return (nvIndex, nvSize)

/-- The branch of `post_launch` that uses the TPM. -/
def measuredBoot (mbi nvIndex nvSize : UInt32) : Boot σ (Result Unit) := do
  let tisAccessRet ← tisAccess platform.device tisLocality2 false
  if tisAccessRet.exception ≠ .none then return tisAccessRet
  let mbiCalcHashRet ← mbiCalcHash platform.device mbi
  emit (.hashed mbiCalcHashRet.exception)
  if mbiCalcHashRet.exception ≠ .none then return mbiCalcHashRet
  let pcr18 ← tpmPCRRead platform.device 18
  if pcr18.exception ≠ .none then return .error pcr18.exception ()
  showHash "PCR[18]: " pcr18.value
  let pcr19 ← tpmPCRRead platform.device 19
  if pcr19.exception ≠ .none then return .error pcr19.exception ()
  showHash "PCR[19]: " pcr19.value
  outString (text "Configure now? [y/n]: ")
  let (configStr, _) ← getString (fun _ => 0) 1 true
  if configStr 0 = 0x79 then
    let configureRet ← configure platform.device nvIndex nvSize
    if configureRet.exception ≠ .none then return configureRet
    let tisDeactiv ← tisDeactivateAll platform.device
    if tisDeactiv.exception ≠ .none then return tisDeactiv
    outString (text "\nConfiguration complete. Rebooting now...\n")
    Prog.halt .reboot
  else
    let trustedBootRet ← trustedBoot platform.device nvIndex nvSize
    emit (.booted trustedBootRet.exception)
    if trustedBootRet.exception ≠ .none then return trustedBootRet
    tisDeactivateAll platform.device

/-- The end of `post_launch`. -/
def launch (mbi : UInt32) : Boot σ (Result Unit) := do
  outString (text "Launching Linux Kernel now..")
  emit .launchKernel
  onPlatform platform.launchKernel
  emit .startModule
  onPlatform (platform.startModule mbi)

/-- What follows the vendor probe in `post_launch`. -/
def bootAs (vendor : TisTpmVendor) (mbi nvIndex nvSize : UInt32) :
    Boot σ (Result Unit) := do
  if vendor = .noTpm then launch platform mbi
  else
    let ret ← measuredBoot platform mbi nvIndex nvSize
    if ret.exception ≠ .none then return ret
    launch platform mbi

/-- The code that is executed after the late launch. -/
def postLaunch (mbi : UInt32) : Boot σ (Result Unit) := do
  let (nvIndex, nvSize) ← postLaunchStart platform mbi
  if mbi = 0 then return .error .noMbi ()
  let vendor ← tisInit platform.device
  bootAs platform vendor mbi nvIndex nvSize

end Launch

end Sable
