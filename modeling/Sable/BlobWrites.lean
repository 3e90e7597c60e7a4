import Sable.ResponseDelivery
import Sable.StoredDataCodec

/-!
# Writing a sealed blob to the NV area

The command line gives the number of bytes to write, and the sealed blob has a
size of its own.  Only the first of the two is passed to the TPM command.
-/

namespace Sable

open ByteMemory BigEndian HaltingProgram

section Arguments

variable {σ : Type} (device : TisDevice σ)

/-- What `write_passphrase` does before it calls `TPM_NV_WriteValueAuth`; the result is
the extracted blob. -/
def prepareWrite (sealedData : TpmStoredData12) : Boot σ (Result (UInt32 × UInt32)) := do
  let oiapRet ← tpmOIAP device .zero
  if oiapRet.exception ≠ .none then return .error oiapRet.exception (0, 0)
  let nonceOdd ← getNonce device
  if nonceOdd.exception ≠ .none then return .error nonceOdd.exception (0, 0)
  setNonceOdd .zero nonceOdd.value
  endAfterCommand .zero
  let x ← extractStoredData12 sealedData
  return .ok x

theorem writePassphrase_eq (nvAuth : Block 20) (sealedData : TpmStoredData12)
    (index size : UInt32) :
    writePassphrase device nvAuth sealedData index size = (do
      let x ← prepareWrite device sealedData
      if x.exception ≠ .none then return .error x.exception ()
      tpmNvWriteValueAuth device x.value.1 size index 0 nvAuth .zero) := by
  funext m
  rw [writePassphrase, prepareWrite]
  simp only [bind_assoc]
  refine congrFun (bind_congr fun oiapRet => ?_) m
  by_cases opened : oiapRet.exception = .none
  swap
  · simp [opened]
  simp only [opened, ne_eq, not_true_eq_false, if_false, bind_assoc]
  refine bind_congr fun nonceOdd => ?_
  by_cases random : nonceOdd.exception = .none
  swap
  · simp [random]
  simp [random]

/-- The command gets bytes of the extracted blob only. -/
def OnlyBlob (x : UInt32 × UInt32) (dataSize : UInt32) (m : Machine σ) : Prop :=
  dataSize ≤ x.2 ∧
    read m.mem x.1.toNat dataSize.toNat <+: read m.mem x.1.toNat x.2.toNat

variable {device}

/-- The size that comes with an extracted blob. -/
theorem extractStoredData12_size {sealedData : TpmStoredData12} {m reached : Machine σ}
    {x : UInt32 × UInt32} (run : extractStoredData12 sealedData m = .ok x reached) :
    x.2 = sizeofStoredData12 sealedData := by
  rw [extractStoredData12] at run
  obtain ⟨data, between, -, run⟩ := Prog.bind_eq_ok.mp run
  obtain ⟨count, last, -, run⟩ := Prog.bind_eq_ok.mp run
  cases run
  rfl

theorem prepareWrite_size {sealedData : TpmStoredData12} {m reached : Machine σ}
    {x : UInt32 × UInt32} (run : prepareWrite device sealedData m = .ok (.ok x) reached) :
    x.2 = sizeofStoredData12 sealedData := by
  rw [prepareWrite] at run
  obtain ⟨oiapRet, opened, -, run⟩ := Prog.bind_eq_ok.mp run
  split at run
  · rename_i failed
    injection run with same
    exact absurd (congrArg Result.exception same) failed
  obtain ⟨nonceOdd, drawn, -, run⟩ := Prog.bind_eq_ok.mp run
  split at run
  · rename_i failed
    injection run with same
    exact absurd (congrArg Result.exception same) failed
  obtain ⟨-, set, -, run⟩ := Prog.bind_eq_ok.mp run
  obtain ⟨-, ended, -, run⟩ := Prog.bind_eq_ok.mp run
  obtain ⟨blob, last, extracts, run⟩ := Prog.bind_eq_ok.mp run
  cases run
  exact extractStoredData12_size extracts

theorem onlyBlob_iff {x : UInt32 × UInt32} {size : UInt32} {m : Machine σ} :
    OnlyBlob x size m ↔ size ≤ x.2 := by
  constructor
  · exact And.left
  · intro within
    refine ⟨within, ?_⟩
    rw [← take_read m.mem x.1.toNat x.2.toNat size.toNat (UInt32.le_iff_toNat_le.mp within)]
    exact List.take_prefix _ _

/-- When `write_passphrase` calls `TPM_NV_WriteValueAuth`, the bytes it passes are those of
the extracted blob exactly if the size from the command line is at most its size. -/
theorem writePassphrase_onlyBlob_iff (device : TisDevice σ) (nvAuth : Block 20)
    (sealedData : TpmStoredData12) (index size : UInt32) (m reached : Machine σ)
    (x : UInt32 × UInt32) (calls : prepareWrite device sealedData m = .ok (.ok x) reached) :
    writePassphrase device nvAuth sealedData index size m =
        tpmNvWriteValueAuth device x.1 size index 0 nvAuth .zero reached ∧
      (OnlyBlob x size reached ↔ size ≤ sizeofStoredData12 sealedData) := by
  constructor
  · rw [writePassphrase_eq, Prog.bind_ok calls]
    rfl
  · rw [onlyBlob_iff, prepareWrite_size calls]

/-- The responses to `TPM_OIAP` and `TPM_GetRandom`. -/
def oiapResponse : List UInt8 :=
  [0, 0xc4, 0, 0, 0, 34, 0, 0, 0, 0, 0, 0, 0, 1] ++ List.replicate 20 7

def randomResponse : List UInt8 :=
  [0, 0xc4, 0, 0, 0, 34, 0, 0, 0, 0, 0, 0, 0, 20] ++ List.replicate 20 9

/-- A machine with a small heap in front of a TPM that opens a session. -/
def writingMachine : Machine (List UInt8 × List (List UInt8)) :=
  { Machine.blank ([], [oiapResponse, randomResponse]) with
    heap := 4096
    mem := MemNode.store (fun _ => 0) 4096 ⟨63, 0⟩ }

/-- The calls of the command for a blob of twenty bytes. -/
theorem prepareWrite_small :
    ∃ reached, prepareWrite scriptedDevice ⟨0x16, 0, 3, 0x200, 5, 0x300⟩ writingMachine =
      .ok (.ok (4168, 20)) reached :=
  Outcome.eq_ok_of_value? (by decide +kernel)

/-- A blob of twenty bytes in an NV area of the same size. -/
theorem writePassphrase_onlyBlob_small :
    ∃ x reached, prepareWrite scriptedDevice ⟨0x16, 0, 3, 0x200, 5, 0x300⟩ writingMachine =
        .ok (.ok x) reached ∧ OnlyBlob x 20 reached := by
  obtain ⟨reached, calls⟩ := prepareWrite_small
  exact ⟨_, reached, calls, (writePassphrase_onlyBlob_iff scriptedDevice (Block.zero 20) _ 4 20
    _ _ _ calls).2.mpr (by decide)⟩

/-- The same blob in an NV area of the recommended size. -/
theorem writePassphrase_beyond_blob :
    ∃ x reached, prepareWrite scriptedDevice ⟨0x16, 0, 3, 0x200, 5, 0x300⟩ writingMachine =
        .ok (.ok x) reached ∧ ¬ OnlyBlob x 384 reached := by
  obtain ⟨reached, calls⟩ := prepareWrite_small
  refine ⟨_, reached, calls, ?_⟩
  rw [onlyBlob_iff]
  decide

end Arguments

end Sable
