import Sable.DeviceFrames
import Sable.UnsealedPassphrase

/-!
# The passphrase over many power cycles

A passphrase that `configure` has stored stays in the NV area while `trusted_boot` is run in
later power cycles, whatever is typed there, and while further attempts to store another
one fail.  In each of these cycles `trusted_boot` shows it under the same conditions.
-/

namespace Sable

open ByteMemory BigEndian HaltingProgram

section Commands

variable {chip : SealingChip} {core : SealingState} {request : TpmWire.Request}

/-- The secret of the storage root key and the areas are the same. -/
structure Lasts (before after : SealingState) : Prop where
  srkAuth : after.srkAuth = before.srkAuth
  spaces : after.spaces = before.spaces

theorem Lasts.refl (core : SealingState) : Lasts core core :=
  ⟨rfl, rfl⟩

theorem Lasts.trans {first second third : SealingState} (lasts : Lasts first second)
    (further : Lasts second third) : Lasts first third :=
  ⟨further.srkAuth.trans lasts.srkAuth, further.spaces.trans lasts.spaces⟩

theorem Undisturbed.lasts {before after : SealingState} (undisturbed : Undisturbed before after) :
    Lasts before after :=
  ⟨undisturbed.srkAuth, undisturbed.spaces⟩

theorem Restarted.lasts {before after : SealingState} (restarted : Restarted before after) :
    Lasts before after :=
  ⟨restarted.srkAuth, restarted.spaces⟩

theorem checkedFor_lasts (session : OpenSession) (trailer : TpmWire.RequestTrailer) :
    Lasts core (core.checkedFor request session trailer) :=
  ⟨rfl, rfl⟩

theorem unsealFor_lasts (parent entity : TpmWire.RequestTrailer)
    (parentSession dataSession : OpenSession) :
    Lasts core (unsealFor chip core request parent entity parentSession dataSession).2 := by
  unfold unsealFor
  dsimp only
  split
  · exact .refl core
  · split
    · split
      · split <;> exact ⟨rfl, rfl⟩
      · exact ⟨rfl, rfl⟩
    · exact .refl core

theorem answerUnseal_lasts : Lasts core (answerUnseal chip core request).2 := by
  unfold answerUnseal
  split
  · split
    · split
      · exact (checkedFor_lasts _ _).trans (unsealFor_lasts _ _ _ _)
      · exact checkedFor_lasts _ _
    · exact .refl core
  · exact .refl core

end Commands

section Unsealing

variable {σ α : Type} {device : TisDevice σ} {mmap : UInt32}
  {tpm : FifoTpm device mmap SealingState} {chip : SealingChip} {area : HeapArea}
  {core : SealingState} {used : Nat} {contents : UInt32 → Option (List UInt8)}
  {store : Store} {m : Machine σ} {sealInfo encData : List UInt8} {blob : TpmStoredData12}

/-- Whatever a command returns, the TPM has answered its request. -/
theorem AuthorisedCommand.run_executes (command : AuthorisedCommand α)
    (fits : command.frameSize ≤ 1024) (nonNull : ∀ ptr ∈ command.pointers m, ptr ≠ 0)
    (reliable : tpm.Reliable) (linked : Linked tpm area core used contents store m) :
    tpm.view (command.run device m).state.world =
      FifoView.idle (tpm.exec core (command.request m).encode).2 := by
  obtain ⟨answered, replied, -, run⟩ := run_replied command fits nonNull reliable linked
  have kept : KeepsDevice (do
      let ret ← command.responsePart m
      emit (.finished command.ordinal ret.exception)
      return ret : Boot σ (Result α)) :=
    (command.responsePart_keepsDevice m).bind fun _ =>
      Prog.Preserves.bind (fun _ => rfl) fun _ _ => rfl
  rw [run, kept answered, replied.idle]

theorem finishUnseal_keepsDevice (unsealRet : Result HeapData) :
    KeepsDevice (finishUnseal unsealRet : Boot σ (Result UInt32)) :=
  Prog.Preserves.ite (fun _ => rfl) fun _ => rfl

/-- However `unseal_passphrase` ends, the blob can be unsealed again. -/
theorem unsealPassphrase_lasts (reliable : tpm.Reliable) (follows : tpm.Follows chip)
    (linked : Linked tpm area core used contents store m)
    (fresh : core.sessions = fun _ => none)
    (blobTracked : BlobTracked contents sealInfo encData blob)
    (sealLength : sealInfo.length = 54) (encLength : encData.length = 256)
    (room : used + 23 ≤ area.units) (srkAuth ppAuth : Block 20) :
    ∃ next, tpm.view (unsealPassphrase device srkAuth ppAuth blob m).state.world =
      FifoView.idle next ∧ Lasts core next := by
  obtain ⟨parentSession, dataSession, opened, blocks, after, prepared, prepares, done,
    preparedLinked⟩ := unsealPassphrase_prepares reliable follows linked fresh room srkAuth ppAuth
      blob
  obtain ⟨parent, entity, asked⟩ := unsealBlob_asks preparedLinked (blobTracked.keeps done.keeps)
    sealLength encLength done.parent done.data done.plain srkAuth ppAuth
  have executes := AuthorisedCommand.run_executes (.unsealBlob blob khSRK
    (parentSession.secret srkAuth) .zero ppAuth .one) asked.unsealable.fits
    asked.unsealable.pointers reliable preparedLinked
  rw [asked.request, follows opened _ asked.wellFormed, answer_unseal] at executes
  have world : (unsealPassphrase device srkAuth ppAuth blob m).state.world =
      (tpmUnseal device blob khSRK (parentSession.secret srkAuth) .zero ppAuth .one
        prepared).state.world := by
    rw [prepares, KeepsDevice.world_bind finishUnseal_keepsDevice]
  rw [world]
  exact ⟨_, executes, done.undisturbed.lasts.trans answerUnseal_lasts⟩

theorem confirmPassphrase_keepsDevice (passphrase : UInt32) :
    KeepsDevice (confirmPassphrase passphrase : Boot σ Unit) := by
  have load : KeepsDevice (loadString passphrase : Boot σ (List UInt8)) := by
    intro m
    unfold loadString
    rw [Prog.bind_get]
    cases cstring m.mem passphrase <;> rfl
  rw [confirmPassphrase_eq]
  exact Prog.Preserves.bind (fun _ => rfl) fun _ => load.bind fun _ =>
    Prog.Preserves.bind (fun _ => rfl) fun _ => Prog.Preserves.bind (fun _ => rfl) fun _ =>
      awaitYes_preserves

/-- However `trusted_boot` ends, the blob and the secret of the storage root key are kept. -/
theorem trustedBoot_lasts (reliable : tpm.Reliable) (follows : tpm.Follows chip)
    (linked : Linked tpm area core used contents store m)
    (fresh : core.sessions = fun _ => none) {ppLine srkLine : List UInt8}
    (typed : typedLines [authdataStrSize, authdataStrSize] store.keys = some [ppLine, srkLine])
    (ppShort : ppLine.length < authdataStrSize) (srkShort : srkLine.length < authdataStrSize)
    {index size : UInt32} (sealLength : sealInfo.length = 54) (encLength : encData.length = 256)
    (holds : HoldsBlob sealInfo encData size.toNat (core.spaces index).bytes)
    (short : 67 + size.toNat ≤ 1024) (room : used + 256 ≤ area.units) :
    ∃ next, tpm.view (trustedBoot device index size m).state.world = FifoView.idle next ∧
      Lasts core next := by
  obtain ⟨blob, more, blocks, after, asked, asks, -, bound, blobTracked, askedLinked⟩ :=
    trustedBoot_asks reliable follows linked typed ppShort srkShort sealLength encLength holds
      short (by omega)
  have rest (passphrase : Result UInt32) : KeepsDevice (do
      if passphrase.exception ≠ .none then return .error passphrase.exception ()
      confirmPassphrase passphrase.value
      return .ok () : Boot σ (Result Unit)) :=
    Prog.Preserves.ite (fun _ => rfl) ((confirmPassphrase_keepsDevice _).bind fun _ _ => rfl)
  rw [asks, finishBoot, KeepsDevice.world_bind rest]
  exact unsealPassphrase_lasts reliable follows askedLinked fresh blobTracked sealLength encLength
    (by omega) _ _

end Unsealing

section Cycles

variable {σ : Type} {device : TisDevice σ} {mmap : UInt32}

/-- A power cycle in which `trusted_boot` runs, with any registers and any strings typed that
leave room for their terminators. -/
structure BootCycle (tpm : FifoTpm device mmap SealingState) (index size : UInt32)
    (before after : SealingState) : Prop where
  boots : ∃ later area used contents store m ppLine srkLine, Restarted before later ∧
    Linked tpm area later used contents store m ∧ used + 256 ≤ area.units ∧
    typedLines [authdataStrSize, authdataStrSize] m.keys = some [ppLine, srkLine] ∧
    ppLine.length < authdataStrSize ∧ srkLine.length < authdataStrSize ∧
    tpm.view (trustedBoot device index size m).state.world = FifoView.idle after

variable {tpm : FifoTpm device mmap SealingState} {chip : SealingChip} {area space : HeapArea}
  {core next before after later : SealingState} {used held : Nat}
  {contents blocks : UInt32 → Option (List UInt8)} {store objects : Store}
  {m configured reader : Machine σ} {index size : UInt32} {sealed : SealedData}
  {passphrase ppLine srkLine ppAgain srkAgain sealInfo encData : List UInt8}

theorem BootCycle.lasts (reliable : tpm.Reliable) (follows : tpm.Follows chip)
    (cycle : BootCycle tpm index size before after) (sealLength : sealInfo.length = 54)
    (encLength : encData.length = 256)
    (holds : HoldsBlob sealInfo encData size.toNat (before.spaces index).bytes)
    (short : 67 + size.toNat ≤ 1024) : Lasts before after := by
  obtain ⟨later, area, used, contents, store, m, ppLine, srkLine, restarted, linked, room, typed,
    ppShort, srkShort, ends⟩ := cycle.boots
  have keys : m.keys = store.keys := congrArg Store.keys linked.store_eq
  rw [keys] at typed
  rw [← restarted.spaces] at holds
  obtain ⟨next, idle, lasts⟩ := trustedBoot_lasts reliable follows linked restarted.sessions typed
    ppShort srkShort sealLength encLength holds short room
  rw [ends] at idle
  have same : after = next := congrArg FifoView.core idle
  rw [same]
  exact restarted.lasts.trans lasts

/-- The blob is still there after any number of power cycles. -/
theorem bootCycles_last (reliable : tpm.Reliable) (follows : tpm.Follows chip)
    (cycles : Relation.ReflTransGen (BootCycle tpm index size) before after)
    (sealLength : sealInfo.length = 54) (encLength : encData.length = 256)
    (holds : HoldsBlob sealInfo encData size.toNat (before.spaces index).bytes)
    (short : 67 + size.toNat ≤ 1024) : Lasts before after := by
  induction cycles with
  | refl => exact .refl before
  | tail _ cycle lasts =>
      rw [← lasts.spaces] at holds
      exact lasts.trans (cycle.lasts reliable follows sealLength encLength holds short)

/-- What `configure` has left behind is there in a later power cycle. -/
theorem Configured.survives (reliable : tpm.Reliable) (follows : tpm.Follows chip)
    (done : Configured chip core next index size passphrase ppLine srkLine sealed encData)
    (short : 67 + size.toNat ≤ 1024)
    (cycles : Relation.ReflTransGen (BootCycle tpm index size) next before)
    (restarted : Restarted before later) : Lasts next later :=
  (bootCycles_last reliable follows cycles (length_bootPcrInfoBytes core.pcrs) done.length
    done.holds short).trans restarted.lasts

/-- After a successful `configure` and any number of power cycles in which `trusted_boot` was
run, `trusted_boot` shows exactly the passphrase that was typed if the registers and the
authorisation strings are the same; otherwise it shows nothing but its prompts. -/
theorem trustedBoot_cycles (reliable : tpm.Reliable) (follows : tpm.Follows chip)
    (linked : Linked tpm area core used contents store m) (room : used + 256 ≤ area.units)
    (typed : typedLines [127, authdataStrSize, authdataStrSize] m.keys =
      some [passphrase, ppLine, srkLine])
    (whole : 322 ≤ size.toNat) (short : 67 + size.toNat ≤ 1024)
    (configures : configure device index size m = .ok (.ok ()) configured)
    (cycles : Relation.ReflTransGen (BootCycle tpm index size) (tpm.view configured.world).core
      before)
    (restarted : Restarted before later)
    (laterLinked : Linked tpm space later held blocks objects reader)
    (laterRoom : held + 256 ≤ space.units)
    (laterTyped : typedLines [authdataStrSize, authdataStrSize] reader.keys =
      some [ppAgain, srkAgain])
    (ppShort : ppAgain.length < authdataStrSize) (srkShort : srkAgain.length < authdataStrSize)
    (collisionFree : CollisionFree core (tpm.view configured.world).core later
      (tpm.view (trustedBoot device index size reader).state.world).core ppLine srkLine ppAgain
      srkAgain) :
    (SameSecrets core later ppLine srkLine ppAgain srkAgain →
      ShowsPassphrase reader passphrase (trustedBoot device index size reader)) ∧
    (¬ SameSecrets core later ppLine srkLine ppAgain srkAgain →
      RefusesPassphrase reader (trustedBoot device index size reader)) := by
  have keys : m.keys = store.keys := congrArg Store.keys linked.store_eq
  have laterKeys : reader.keys = objects.keys := congrArg Store.keys laterLinked.store_eq
  rw [keys] at typed
  rw [laterKeys] at laterTyped
  obtain ⟨next, sealed, encData, idle, done⟩ :=
    configure_seals reliable follows linked typed room whole short configures
  obtain ⟨_, rest, _, line, -, same⟩ := typedLines_cons typed
  cases same
  rw [idle] at cycles collisionFree
  dsimp only [FifoView.idle] at cycles collisionFree
  have lasts := done.survives reliable follows short cycles restarted
  exact done.guards reliable follows lasts.srkAuth lasts.spaces restarted.sessions
    (zero_notMem_typedLine line) (length_typedLine line) short laterLinked laterRoom laterTyped
    ppShort srkShort collisionFree

/-- With the secrets of the storage root key and of the area, `configure` stores a passphrase
that `trusted_boot` shows in every later power cycle in which the same strings are typed while
the registers have the same values. -/
theorem configure_recoverable (reliable : tpm.Reliable) (follows : tpm.Follows chip)
    (linked : Linked tpm area core used contents store m) (room : used + 256 ≤ area.units)
    {nvLine : List UInt8}
    (typed : typedLines [127, authdataStrSize, authdataStrSize, authdataStrSize] m.keys =
      some [passphrase, ppLine, srkLine, nvLine])
    (shortLines : ∀ line ∈ [ppLine, srkLine, nvLine], line.length < authdataStrSize)
    (whole : 322 ≤ size.toNat) (short : 67 + size.toNat ≤ 1024)
    (fresh : core.sessions = fun _ => none)
    (wraps : ∀ seed sealed, sealed.data.length ≤ 128 → (chip.wrap seed sealed).isSome)
    (srkAuth : authOf srkLine = core.srkAuth) (nvAuth : authOf nvLine = (core.spaces index).auth)
    (inside : size.toNat ≤ (core.spaces index).bytes.length) :
    ∃ configured, configure device index size m = .ok (.ok ()) configured ∧
      ∀ before later space held blocks objects reader,
        Relation.ReflTransGen (BootCycle tpm index size) (tpm.view configured.world).core before →
        Restarted before later → Linked tpm space later held blocks objects reader →
        held + 256 ≤ space.units →
        typedLines [authdataStrSize, authdataStrSize] reader.keys = some [ppLine, srkLine] →
        later.pcrs 18 = core.pcrs 18 → later.pcrs 19 = core.pcrs 19 →
        ShowsPassphrase reader passphrase (trustedBoot device index size reader) := by
  have keys : m.keys = store.keys := congrArg Store.keys linked.store_eq
  rw [keys] at typed
  obtain ⟨configured, configures⟩ := configure_succeeds reliable follows linked typed shortLines
    room short fresh wraps srkAuth nvAuth inside
  have first : typedLines [127, authdataStrSize, authdataStrSize] store.keys =
      some [passphrase, ppLine, srkLine] :=
    typedLines_take typed 3
  obtain ⟨next, sealed, encData, idle, done⟩ :=
    configure_seals reliable follows linked first room whole short configures
  obtain ⟨_, rest, _, line, -, same⟩ := typedLines_cons first
  cases same
  refine ⟨configured, configures, fun before later space held blocks objects reader cycles
    restarted laterLinked laterRoom laterTyped eighteen nineteen => ?_⟩
  have laterKeys : reader.keys = objects.keys := congrArg Store.keys laterLinked.store_eq
  rw [laterKeys] at laterTyped
  rw [idle] at cycles
  have lasts := done.survives reliable follows short cycles restarted
  have kept := lasts.srkAuth.trans done.kept
  have holds := done.holds
  rw [← lasts.spaces] at holds
  simp only [List.forall_mem_cons] at shortLines
  obtain ⟨ppShort, srkShort, -⟩ := shortLines
  rcases trustedBoot_unseals reliable follows laterLinked restarted.sessions laterTyped ppShort
    srkShort done.made done.length holds done.data (zero_notMem_typedLine line)
    (length_typedLine line) short laterRoom with ⟨shows, -⟩ | ⟨-, locked⟩
  · exact shows
  · exact (locked ⟨srkAuth.trans kept.symm, (done.auth srkAuth).symm,
      compositeDigest_boot eighteen nineteen⟩).elim

end Cycles

section Example

/-- Empty authorisation strings, without a line for the passphrase. -/
theorem emptyStrings_typed :
    typedLines [authdataStrSize, authdataStrSize] [0, 0x0D, 0, 0x0D] = some [[], []] := by
  decide

/-- Somebody types `a` for the first authorisation string. -/
theorem plain_bootCycle {before : SealingState} {sealInfo encData : List UInt8}
    (sealLength : sealInfo.length = 54) (encLength : encData.length = 256)
    (holds : HoldsBlob sealInfo encData (400 : UInt32).toNat (before.spaces 1).bytes) :
    ∃ after, BootCycle (sealingTpm plainChip) 1 400 before after ∧ Lasts before after := by
  have linked := plainMachine_linked (restartedState before) [0, 0x61, 0x0D, 0, 0x0D]
  have restarted : Restarted before (restartedState before) := ⟨rfl, rfl, rfl, rfl, rfl⟩
  have typed : typedLines [authdataStrSize, authdataStrSize] [0, 0x61, 0x0D, 0, 0x0D] =
      some [[0x61], []] := by decide
  have room : 0 + 256 ≤ startedArea.units := by decide
  obtain ⟨after, idle, lasts⟩ := trustedBoot_lasts (sealingTpm_reliable plainChip)
    (sealingTpm_follows plainChip) linked rfl typed (by decide) (by decide) sealLength encLength
    holds (by decide) room
  exact ⟨after, ⟨_, _, _, _, _, _, _, _, restarted, linked, room, typed, by decide, by decide,
    idle⟩, restarted.lasts.trans lasts⟩

/-- The passphrase `go` is shown after a power cycle in which a wrong string was typed. -/
theorem trustedBoot_cycles_go :
    ∃ configured after,
      configure (steadyDevice (sealingExec plainChip)) 1 400 (plainMachine plainState plainKeys) =
        .ok (.ok ()) configured ∧
      BootCycle (sealingTpm plainChip) 1 400 configured.world.core after ∧
      ShowsPassphrase (plainMachine (restartedState after) [0, 0x0D, 0, 0x0D]) [0x67, 0x6F]
        (trustedBoot (steadyDevice (sealingExec plainChip)) 1 400
          (plainMachine (restartedState after) [0, 0x0D, 0, 0x0D])) := by
  obtain ⟨configured, next, sealed, encData, configures, world, done⟩ := plain_configures
  obtain ⟨after, cycle, lasts⟩ := @plain_bootCycle next _ _
    (length_bootPcrInfoBytes plainState.pcrs) done.length done.holds
  have kept : authOf [] = after.srkAuth := (lasts.srkAuth.trans done.kept).symm
  have cycled : BootCycle (sealingTpm plainChip) 1 400 configured.world.core after := by
    rw [world]
    exact cycle
  have restarted : Restarted after (restartedState after) := ⟨rfl, rfl, rfl, rfl, rfl⟩
  have laterLinked := plainMachine_linked (restartedState after) [0, 0x0D, 0, 0x0D]
  have room : 0 + 256 ≤ startedArea.units := by decide
  exact ⟨configured, after, configures, cycled, (trustedBoot_cycles (sealingTpm_reliable plainChip)
    (sealingTpm_follows plainChip) (plainMachine_linked plainState plainKeys) room
    (typedLines_take goLines_typed 3) (by decide) (by decide) configures (.single cycled) restarted
    laterLinked room emptyStrings_typed (by decide) (by decide) ⟨fun _ _ _ => rfl,
      fun _ _ _ => kept, fun _ _ _ => rfl, fun _ => rfl, fun _ => rfl,
      fun _ => rfl⟩).1 ⟨⟨rfl, rfl⟩, rfl, rfl⟩⟩

theorem configure_recoverable_go :
    ∃ configured,
      configure (steadyDevice (sealingExec plainChip)) 1 400 (plainMachine plainState plainKeys) =
        .ok (.ok ()) configured ∧
      ShowsPassphrase (plainMachine (restartedState configured.world.core) [0, 0x0D, 0, 0x0D])
        [0x67, 0x6F] (trustedBoot (steadyDevice (sealingExec plainChip)) 1 400
          (plainMachine (restartedState configured.world.core) [0, 0x0D, 0, 0x0D])) := by
  have room : 0 + 256 ≤ startedArea.units := by decide
  obtain ⟨configured, configures, shows⟩ := configure_recoverable (sealingTpm_reliable plainChip)
    (sealingTpm_follows plainChip) (plainMachine_linked plainState plainKeys) room goLines_typed
    (by decide) (by decide) (by decide) rfl plainChip_wraps rfl rfl plainState_inside
  have restarted : Restarted configured.world.core (restartedState configured.world.core) :=
    ⟨rfl, rfl, rfl, rfl, rfl⟩
  exact ⟨configured, configures, shows _ _ _ _ _ _ _ .refl restarted
    (plainMachine_linked (restartedState configured.world.core) [0, 0x0D, 0, 0x0D]) room
    emptyStrings_typed rfl rfl⟩

end Example

end Sable
