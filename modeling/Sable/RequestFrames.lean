import Sable.HashContexts
import Sable.TpmCommands
import Sable.TpmWire

/-!
# Packing a request

While a command packs its request, the input buffer holds the bytes packed so
far, the SHA-1 context has absorbed the parameters among them, and later the
HMAC context has absorbed the values that authorise the command.  The rules
below say how every marshalling call extends these byte strings.
-/

namespace Sable

open ByteMemory BigEndian HaltingProgram

section Rules

variable {σ : Type} {base : Machine σ} {frame bytes params message : List UInt8}

/-- The command has packed the bytes `frame` and changed nothing but the input
buffer and its own contexts since the state `base`. -/
structure Packing (base : Machine σ) (frame : List UInt8) (m : Machine σ) :
    Prop where
  rest : { m with tisIn := base.tisIn, locals := base.locals } = base
  context : m.locals.pctx = ⟨.tisIn, UInt32.ofNat frame.length, 1024⟩
  buffer : read m.tisIn 0 frame.length = frame
  fits : frame.length ≤ 1024

instance : HashFree (Packing base frame) where
  withHashes := fun _ _ _ ⟨rest, context, buffer, fits⟩ => ⟨rest, context, buffer, fits⟩

/-- A packing state whose hash contexts satisfy `contexts`. -/
abbrev PackingWith (base : Machine σ) (frame : List UInt8)
    (contexts : Sha1Context → HmacContext → Prop) : Machine σ → Prop :=
  Holding (Packing base frame) contexts

theorem toNat_ofNat_of_le {n : Nat} (small : n ≤ 1024) :
    (UInt32.ofNat n).toNat = n :=
  UInt32.toNat_ofNat_of_lt' (by simp only [UInt32.size]; omega)

theorem packBytes_packs {contexts : Sha1Context → HmacContext → Prop}
    (room : frame.length + bytes.length ≤ 1024) :
    Prog.Returns (PackingWith base frame contexts) (packBytes bytes)
      (fun _ => PackingWith base (frame ++ bytes) contexts) := by
  rintro m ⟨⟨rest, context, buffer, fits⟩, holds⟩
  have sum : UInt32.ofNat frame.length + UInt32.ofNat bytes.length =
      UInt32.ofNat (frame ++ bytes).length := by
    rw [List.length_append, UInt32.ofNat_add]
  have inside : UInt32.ofNat (frame ++ bytes).length ≤ 1024 := by
    rw [UInt32.le_iff_toNat_le, toNat_ofNat_of_le (by simpa using room)]
    simpa using room
  have start := toNat_ofNat_of_le fits
  have extended : read (write m.tisIn frame.length bytes) 0 (frame ++ bytes).length =
      frame ++ bytes := by
    rw [List.length_append, read_add, Nat.zero_add, read_write_self,
      read_write_disjoint _ (by omega), buffer]
  let reached : Machine σ := { m with
    tisIn := write m.tisIn frame.length bytes
    locals := { m.locals with
      pctx := ⟨.tisIn, UInt32.ofNat (frame ++ bytes).length, 1024⟩ } }
  have run : packBytes bytes m = .ok () reached := by
    rw [packBytes, Prog.bind_get]
    simp only [context, sum, if_pos inside, start]
    rw [if_neg (by simp), Prog.modify_apply]
    rfl
  exact ⟨(), reached, run, ⟨rest, rfl, extended, by simpa using room⟩, holds⟩

theorem marshalBytes_given {contexts : Sha1Context → HmacContext → Prop}
    (room : frame.length + bytes.length ≤ 1024) :
    Prog.Returns (PackingWith base frame contexts) (marshalBytes bytes .given .null)
      (fun _ => PackingWith base (frame ++ bytes) contexts) := by
  rw [marshalBytes, hashBytes_null_eq]
  exact Prog.Returns.bind (Prog.Returns.ret fun _ holds => holds) fun _ =>
    packBytes_packs room

theorem marshalBytes_plain (room : frame.length + bytes.length ≤ 1024)
    (bounded : params.length + bytes.length < 2 ^ 29) :
    Prog.Returns (PackingWith base frame fun sctx _ => Absorbed sctx params)
      (marshalBytes bytes .given .plain)
      (fun _ => PackingWith base (frame ++ bytes) fun sctx _ =>
        Absorbed sctx (params ++ bytes)) :=
  Prog.Returns.bind (hashBytes_plain bounded) fun _ => packBytes_packs room

theorem marshalBytes_keyed {plain : Sha1Context → Prop} {key : List UInt8}
    (room : frame.length + bytes.length ≤ 1024)
    (bounded : message.length + bytes.length + 64 < 2 ^ 29) :
    Prog.Returns
      (PackingWith base frame fun sctx hctx => plain sctx ∧ HmacAbsorbed hctx key message)
      (marshalBytes bytes .given .keyed)
      (fun _ => PackingWith base (frame ++ bytes) fun sctx hctx =>
        plain sctx ∧ HmacAbsorbed hctx key (message ++ bytes)) :=
  Prog.Returns.bind (hashBytes_keyed bounded) fun _ => packBytes_packs room

theorem marshalBytes_hidden {plain : Sha1Context → Prop} {key : List UInt8}
    (bounded : message.length + bytes.length + 64 < 2 ^ 29) :
    Prog.Returns
      (PackingWith base frame fun sctx hctx => plain sctx ∧ HmacAbsorbed hctx key message)
      (marshalBytes bytes .null .keyed)
      (fun _ => PackingWith base frame fun sctx hctx =>
        plain sctx ∧ HmacAbsorbed hctx key (message ++ bytes)) :=
  Prog.Returns.bind (hashBytes_keyed bounded) fun _ =>
    Prog.Returns.ret fun _ holds => holds

theorem Packing.mem_eq {m : Machine σ} (packing : Packing base frame m) :
    m.mem = base.mem := by
  have same := congrArg Machine.mem packing.rest
  exact same

theorem Packing.sessionAt_eq {m : Machine σ} (packing : Packing base frame m) :
    m.sessionAt = base.sessionAt := by
  have same := congrArg Machine.sessionAt packing.rest
  exact same

/-- Marshalling the bytes behind a pointer is marshalling what the memory held
when packing began. -/
theorem marshalArray_plain {data size : UInt32}
    (nonNull : data ≠ 0) (room : frame.length + size.toNat ≤ 1024)
    (bounded : params.length + size.toNat < 2 ^ 29) :
    Prog.Returns (PackingWith base frame fun sctx _ => Absorbed sctx params)
      (marshalArray data size .given .plain)
      (fun _ => PackingWith base (frame ++ read base.mem data.toNat size.toNat)
        fun sctx _ => Absorbed sctx (params ++ read base.mem data.toNat size.toNat)) := by
  intro m holds
  rw [marshalArray, assert, if_pos nonNull, Prog.bind_pure_apply, Prog.bind_get,
    holds.1.mem_eq]
  exact marshalBytes_plain (by simpa using room) (by simpa using bounded) m holds

/-- The command has changed nothing but its own contexts and the input buffer
and is about to initialise the pack context. -/
def Starting (base : Machine σ) (plain : Sha1Context → Prop) (m : Machine σ) : Prop :=
  { m with tisIn := base.tisIn, locals := base.locals } = base ∧ plain m.locals.sctx

theorem sha1InitLocal_starts :
    Prog.Returns (fun m => m = base) sha1InitLocal
      (fun _ => Starting base fun sctx => Absorbed sctx []) := by
  rintro m rfl
  exact ⟨(), _, rfl, rfl, Absorbed.init m.locals.sctx⟩

theorem marshalHeader_packs {plain : Sha1Context → Prop} (tag : UInt16)
    (paramSize : UInt32) :
    Prog.Returns (Starting base plain) (marshalHeader tag paramSize)
      (fun _ => PackingWith base (be16 tag ++ be32 paramSize)
        fun sctx _ => plain sctx) := by
  have start : Prog.Returns (Starting base plain) (packInit .tisIn 1024)
      (fun _ => PackingWith base [] fun sctx _ => plain sctx) := by
    apply Prog.Returns.modify
    rintro m ⟨rest, holds⟩
    exact ⟨⟨rest, rfl, rfl, by simp⟩, holds⟩
  refine Prog.Returns.bind start fun _ => ?_
  refine Prog.Returns.bind (marshalBytes_given (by simp)) fun _ => ?_
  exact marshalBytes_given (by simp)

/-- The trailer with which a session authorises a request. -/
def requestTrailer (secret digest : Block 20) (session : TpmSession) :
    TpmWire.RequestTrailer :=
  { handle := session.authHandle
    nonceOdd := session.nonceOdd
    continueAuthSession := session.continueAuthSession
    auth := SecureHash.hmac secret.bytes
      (digest.bytes ++ session.nonceEven.bytes ++ session.nonceOdd.bytes ++
        [session.continueAuthSession]) }

theorem loadSession_eq {s : UInt32} (nonNull : s ≠ 0) (m : Machine σ) :
    loadSession s m = .ok (m.sessionAt s) m := by
  rw [loadSession, if_neg nonNull, Prog.bind_get, Prog.pure_apply]

theorem marshalAuth_packs {digest secret : Block 20} {s : UInt32}
    (nonNull : s ≠ 0) (room : frame.length + 45 ≤ 1024) :
    Prog.Returns (PackingWith base frame fun sctx _ => sctx.hash = digest)
      (marshalAuth secret s)
      (fun _ => PackingWith base
        (frame ++ (requestTrailer secret digest (base.sessionAt s)).encode)
        fun sctx _ => sctx.hash = digest) := by
  set session := base.sessionAt s with sessionEq
  refine Prog.Returns.bind (hmacInitLocal_holds secret) fun _ => ?_
  refine Prog.Returns.bind_read digest ?_ ?_
  · rintro m ⟨-, hash, -⟩
    rw [← hash]
    rfl
  refine Prog.Returns.bind (marshalBytes_hidden (by simp)) fun _ => ?_
  refine Prog.Returns.bind_read session ?_ ?_
  · rintro m ⟨packing, -⟩
    rw [loadSession_eq nonNull, packing.sessionAt_eq]
  refine Prog.Returns.bind (marshalBytes_given (by simp; omega)) fun _ => ?_
  refine Prog.Returns.bind (marshalBytes_hidden (by simp)) fun _ => ?_
  refine Prog.Returns.bind (marshalBytes_keyed (by simp; omega) (by simp)) fun _ => ?_
  refine Prog.Returns.bind (marshalBytes_keyed (by simp; omega) (by simp)) fun _ => ?_
  refine Prog.Returns.bind (hmacFinishLocal_holds (by simp)) fun _ => ?_
  refine Prog.Returns.bind_read (requestTrailer secret digest session).auth ?_ ?_
  · rintro m ⟨-, -, mac⟩
    have value : hctxHash m = .ok m.locals.hctx.sctx.hash m := rfl
    rw [value, mac]
    simp [requestTrailer]
  refine Prog.Returns.mono (marshalBytes_given (by simp; omega))
    (fun _ holds => holds) ?_
  rintro - m ⟨packing, hash, -⟩
  refine ⟨?_, hash⟩
  simpa [requestTrailer, TpmWire.RequestTrailer.encode] using packing

/-- Handing a packed frame to the driver records it in the log. -/
theorem transmit_packed (device : TisDevice σ) {m : Machine σ}
    {ordinal paramSize : UInt32} {uses : List (UInt32 × Block 20)}
    (packing : Packing base frame m) (size : paramSize.toNat = frame.length) :
    transmit device ordinal paramSize uses m =
      tisTransmit device { m with log := base.log ++ [.sent ordinal uses frame] } := by
  have packed : UInt32.ofNat frame.length = paramSize := by
    rw [← size, UInt32.ofNat_toNat]
  have log : m.log = base.log := by
    have same := congrArg Machine.log packing.rest
    exact same
  have finish : packFinish m = .ok paramSize m := by
    rw [packFinish, Prog.bind_get, packing.context, packed]
    rfl
  rw [transmit, Prog.bind_ok finish, assert, if_pos rfl, Prog.bind_pure_apply,
    Prog.bind_get, size, packing.buffer, emit, Prog.bind_modify, log]

end Rules

section Requests

variable {σ : Type} (device : TisDevice σ) (base : Machine σ)

/-- The serialised parameters of the commands, read from the memory in which
the command starts. -/
def nvWriteParams (dataIn dataSizeIn nvIndexIn offsetIn : UInt32) : List UInt8 :=
  be32 nvIndexIn ++ be32 offsetIn ++ be32 dataSizeIn ++
    read base.mem dataIn.toNat dataSizeIn.toNat

def nvReadParams (nvIndexIn offsetIn dataSizeIn : UInt32) : List UInt8 :=
  be32 nvIndexIn ++ be32 offsetIn ++ be32 dataSizeIn

def storedData12Bytes (data : TpmStoredData12) : List UInt8 :=
  be16 data.tag ++ be16 data.et ++ be32 data.sealInfoSize ++
    read base.mem data.sealInfo.toNat data.sealInfoSize.toNat ++
    be32 data.encDataSize ++
    read base.mem data.encData.toNat data.encDataSize.toNat

def pcrSelectionBytes (select : TpmPcrSelection) : List UInt8 :=
  be16 select.sizeOfSelect ++
    read base.mem select.pcrSelect.toNat select.sizeOfSelect.toNat

def pcrInfoLongBytes (pcrInfo : TpmPcrInfoLong) : List UInt8 :=
  be16 pcrInfo.tag ++ [pcrInfo.localityAtCreation] ++ [pcrInfo.localityAtRelease] ++
    pcrSelectionBytes base pcrInfo.creationPCRSelection ++
    pcrSelectionBytes base pcrInfo.releasePCRSelection ++
    pcrInfo.digestAtCreation.bytes ++ pcrInfo.digestAtRelease.bytes

def sealParams (encAuthIn : Block 20) (pcrInfoIn : TpmPcrInfoLong)
    (inDataIn inDataSizeIn : UInt32) : List UInt8 :=
  encAuthIn.bytes ++ be32 (sizeofPcrInfoLong pcrInfoIn) ++
    pcrInfoLongBytes base pcrInfoIn ++ be32 inDataSizeIn ++
    read base.mem inDataIn.toNat inDataSizeIn.toNat

/-- The request that authorises `params` with the given secrets and sessions. -/
def authorisedRequest (tag : UInt16) (ordinal : UInt32) (handles params : List UInt8)
    (credentials : List (Block 20 × UInt32)) : TpmWire.Request :=
  { tag := tag
    ordinal := ordinal
    handles := handles
    params := params
    trailers := credentials.map fun credential =>
      requestTrailer credential.1 (SecureHash.sha1 (be32 ordinal ++ params))
        (base.sessionAt credential.2) }

/-- The sessions and nonces that a request uses. -/
def authUses (credentials : List (Block 20 × UInt32)) : List (UInt32 × Block 20) :=
  credentials.map fun credential =>
    (credential.2, (base.sessionAt credential.2).nonceOdd)

/-- The run of a request program comes to hand the frame of the request to the
driver. -/
def Submits (program : Boot σ (Result Unit)) (request : TpmWire.Request)
    (uses : List (UInt32 × Block 20)) : Prop :=
  Prog.Leads (fun m => m = base) program (Packing base request.encode)
    (transmit device request.ordinal (UInt32.ofNat request.size) uses)

theorem authUse_eq {s : UInt32} {frame : List UInt8} {m : Machine σ}
    (nonNull : s ≠ 0) (packing : Packing base frame m) :
    authUse s m = .ok (s, (base.sessionAt s).nonceOdd) m := by
  rw [authUse, Prog.bind_ok (loadSession_eq nonNull m), packing.sessionAt_eq]
  rfl

variable {device base} {tag : UInt16} {ordinal paramSize s : UInt32}
  {handles params : List UInt8} {secret : Block 20}

/-- The rest of a request with one session, once its parameters are packed. -/
theorem submit_one
    (size : paramSize.toNat = 10 + handles.length + params.length + 45)
    (nonNull : s ≠ 0) (fits : 10 + handles.length + params.length + 45 ≤ 1024) :
    Prog.Leads
      (PackingWith base
        (be16 tag ++ be32 paramSize ++ be32 ordinal ++ handles ++ params)
        fun sctx _ => Absorbed sctx (be32 ordinal ++ params))
      (do
        sha1FinishLocal
        marshalAuth secret s
        let used ← authUse s
        transmit device ordinal paramSize [used])
      (Packing base
        (authorisedRequest base tag ordinal handles params [(secret, s)]).encode)
      (transmit device ordinal
        (UInt32.ofNat (authorisedRequest base tag ordinal handles params
          [(secret, s)]).size)
        (authUses base [(secret, s)])) := by
  have sizeEq : UInt32.ofNat (authorisedRequest base tag ordinal handles params
      [(secret, s)]).size = paramSize := by
    rw [← UInt32.ofNat_toNat (x := paramSize), size]
    rfl
  refine Prog.Leads.bind (sha1FinishLocal_holds (by simp; omega)) fun _ => ?_
  refine Prog.Leads.bind (marshalAuth_packs nonNull (by simp; omega)) fun _ => ?_
  refine Prog.Leads.bind_read _ (fun m holds => authUse_eq base nonNull holds.1) ?_
  rw [sizeEq]
  refine Prog.Leads.last.weaken fun m holds => ?_
  rw [TpmWire.Request.encode, sizeEq]
  simpa [authorisedRequest] using holds.1

/-- The rest of a request with two sessions. -/
theorem submit_two {other : UInt32} {otherSecret : Block 20}
    (size : paramSize.toNat = 10 + handles.length + params.length + 90)
    (nonNull : s ≠ 0) (otherNonNull : other ≠ 0)
    (fits : 10 + handles.length + params.length + 90 ≤ 1024) :
    Prog.Leads
      (PackingWith base
        (be16 tag ++ be32 paramSize ++ be32 ordinal ++ handles ++ params)
        fun sctx _ => Absorbed sctx (be32 ordinal ++ params))
      (do
        sha1FinishLocal
        marshalAuth secret s
        marshalAuth otherSecret other
        let used ← authUse s
        let otherUsed ← authUse other
        transmit device ordinal paramSize [used, otherUsed])
      (Packing base
        (authorisedRequest base tag ordinal handles params
          [(secret, s), (otherSecret, other)]).encode)
      (transmit device ordinal
        (UInt32.ofNat (authorisedRequest base tag ordinal handles params
          [(secret, s), (otherSecret, other)]).size)
        (authUses base [(secret, s), (otherSecret, other)])) := by
  have sizeEq : UInt32.ofNat (authorisedRequest base tag ordinal handles params
      [(secret, s), (otherSecret, other)]).size = paramSize := by
    rw [← UInt32.ofNat_toNat (x := paramSize), size]
    rfl
  refine Prog.Leads.bind (sha1FinishLocal_holds (by simp; omega)) fun _ => ?_
  refine Prog.Leads.bind (marshalAuth_packs nonNull (by simp; omega)) fun _ => ?_
  refine Prog.Leads.bind (marshalAuth_packs otherNonNull (by simp; omega)) fun _ => ?_
  refine Prog.Leads.bind_read _ (fun m holds => authUse_eq base nonNull holds.1) ?_
  refine Prog.Leads.bind_read _ (fun m holds => authUse_eq base otherNonNull holds.1) ?_
  rw [sizeEq]
  refine Prog.Leads.last.weaken fun m holds => ?_
  rw [TpmWire.Request.encode, sizeEq]
  simpa [authorisedRequest] using holds.1

theorem nvWriteRequest_submits {dataIn dataSizeIn nvIndexIn offsetIn : UInt32}
    {nvAuth : Block 20} (sessionNonNull : s ≠ 0) (dataNonNull : dataIn ≠ 0)
    (fits : 67 + dataSizeIn.toNat ≤ 1024) :
    Submits device base
      (nvWriteRequest device dataIn dataSizeIn nvIndexIn offsetIn nvAuth s)
      (authorisedRequest base tagRquAuth1Command ordNvWriteValueAuth []
        (nvWriteParams base dataIn dataSizeIn nvIndexIn offsetIn) [(nvAuth, s)])
      (authUses base [(nvAuth, s)]) := by
  refine Prog.Leads.bind sha1InitLocal_starts fun _ => ?_
  refine Prog.Leads.bind (marshalHeader_packs _ _) fun _ => ?_
  refine Prog.Leads.bind (marshalBytes_plain (by simp) (by simp)) fun _ => ?_
  refine Prog.Leads.bind (marshalBytes_plain (by simp) (by simp)) fun _ => ?_
  refine Prog.Leads.bind (marshalBytes_plain (by simp) (by simp)) fun _ => ?_
  refine Prog.Leads.bind (marshalBytes_plain (by simp) (by simp)) fun _ => ?_
  refine Prog.Leads.bind (marshalArray_plain dataNonNull (by simp; omega)
    (by simp; omega)) fun _ => ?_
  refine Prog.Leads.weaken (submit_one ?_ sessionNonNull ?_) fun m holds => ?_
  · simp [nvWriteParams, UInt32.toNat_add]
    omega
  · simp [nvWriteParams]
    omega
  · simpa [nvWriteParams] using holds

theorem nvReadRequest_submits {nvIndexIn offsetIn dataSizeIn : UInt32}
    {ownerAuth : Block 20} (sessionNonNull : s ≠ 0) :
    Submits device base
      (nvReadRequest device nvIndexIn offsetIn dataSizeIn ownerAuth s)
      (authorisedRequest base tagRquAuth1Command ordNvReadValue []
        (nvReadParams nvIndexIn offsetIn dataSizeIn) [(ownerAuth, s)])
      (authUses base [(ownerAuth, s)]) := by
  unfold Submits nvReadRequest
  simp only [if_neg sessionNonNull, if_pos sessionNonNull]
  refine Prog.Leads.bind sha1InitLocal_starts fun _ => ?_
  refine Prog.Leads.bind (marshalHeader_packs _ _) fun _ => ?_
  refine Prog.Leads.bind (marshalBytes_plain (by simp) (by simp)) fun _ => ?_
  refine Prog.Leads.bind (marshalBytes_plain (by simp) (by simp)) fun _ => ?_
  refine Prog.Leads.bind (marshalBytes_plain (by simp) (by simp)) fun _ => ?_
  refine Prog.Leads.bind (marshalBytes_plain (by simp) (by simp)) fun _ => ?_
  refine Prog.Leads.weaken (submit_one ?_ sessionNonNull ?_) fun m holds => ?_
  · simp [nvReadParams]
  · simp [nvReadParams]
  · simpa [nvReadParams] using holds

theorem marshalStoredData12_packs {frame : List UInt8} {data : TpmStoredData12}
    (sealInfoNonNull : data.sealInfo ≠ 0) (encDataNonNull : data.encData ≠ 0)
    (room : frame.length + (storedData12Bytes base data).length ≤ 1024)
    (bounded : params.length + (storedData12Bytes base data).length < 2 ^ 29) :
    Prog.Returns (PackingWith base frame fun sctx _ => Absorbed sctx params)
      (marshalStoredData12 data .given .plain)
      (fun _ => PackingWith base (frame ++ storedData12Bytes base data)
        fun sctx _ => Absorbed sctx (params ++ storedData12Bytes base data)) := by
  simp [storedData12Bytes] at room bounded
  refine Prog.Returns.bind
    (marshalBytes_plain (by simp; omega) (by simp; omega)) fun _ => ?_
  refine Prog.Returns.bind
    (marshalBytes_plain (by simp; omega) (by simp; omega)) fun _ => ?_
  refine Prog.Returns.bind
    (marshalBytes_plain (by simp; omega) (by simp; omega)) fun _ => ?_
  refine Prog.Returns.bind
    (marshalArray_plain sealInfoNonNull (by simp; omega) (by simp; omega)) fun _ => ?_
  refine Prog.Returns.bind
    (marshalBytes_plain (by simp; omega) (by simp; omega)) fun _ => ?_
  refine Prog.Returns.mono
    (marshalArray_plain encDataNonNull (by simp; omega) (by simp; omega))
    (fun _ holds => holds) fun _ m holds => ?_
  simpa [storedData12Bytes] using holds

theorem unsealRequest_submits {inDataIn : TpmStoredData12} {parentHandleIn : UInt32}
    {parentAuth dataAuth : Block 20} {parentS dataS : UInt32}
    (parentNonNull : parentS ≠ 0) (dataNonNull : dataS ≠ 0)
    (sealInfoNonNull : inDataIn.sealInfo ≠ 0) (encDataNonNull : inDataIn.encData ≠ 0)
    (fits : 116 + inDataIn.sealInfoSize.toNat + inDataIn.encDataSize.toNat ≤ 1024) :
    Submits device base
      (unsealRequest device inDataIn parentHandleIn parentAuth parentS dataAuth dataS)
      (authorisedRequest base tagRquAuth2Command ordUnseal (be32 parentHandleIn)
        (storedData12Bytes base inDataIn) [(parentAuth, parentS), (dataAuth, dataS)])
      (authUses base [(parentAuth, parentS), (dataAuth, dataS)]) := by
  have length : (storedData12Bytes base inDataIn).length =
      12 + inDataIn.sealInfoSize.toNat + inDataIn.encDataSize.toNat := by
    simp [storedData12Bytes]
    omega
  refine Prog.Leads.bind sha1InitLocal_starts fun _ => ?_
  refine Prog.Leads.bind (marshalHeader_packs _ _) fun _ => ?_
  refine Prog.Leads.bind (marshalBytes_plain (by simp) (by simp)) fun _ => ?_
  refine Prog.Leads.bind (marshalBytes_given (by simp)) fun _ => ?_
  refine Prog.Leads.bind (marshalStoredData12_packs sealInfoNonNull encDataNonNull
    (by simp; omega) (by simp; omega)) fun _ => ?_
  refine Prog.Leads.weaken
    (submit_two ?_ parentNonNull dataNonNull ?_) fun m holds => ?_
  · rw [length]
    simp [sizeofStoredData12, UInt32.toNat_add]
    omega
  · rw [length]
    simp
    omega
  · simpa using holds

theorem marshalPcrSelection_packs {frame : List UInt8} {select : TpmPcrSelection}
    (nonNull : select.pcrSelect ≠ 0)
    (room : frame.length + (pcrSelectionBytes base select).length ≤ 1024)
    (bounded : params.length + (pcrSelectionBytes base select).length < 2 ^ 29) :
    Prog.Returns (PackingWith base frame fun sctx _ => Absorbed sctx params)
      (marshalPcrSelection select .given .plain)
      (fun _ => PackingWith base (frame ++ pcrSelectionBytes base select)
        fun sctx _ => Absorbed sctx (params ++ pcrSelectionBytes base select)) := by
  simp [pcrSelectionBytes] at room bounded
  refine Prog.Returns.bind
    (marshalBytes_plain (by simp; omega) (by simp; omega)) fun _ => ?_
  refine Prog.Returns.mono
    (marshalArray_plain nonNull (by simp; omega) (by simp; omega))
    (fun _ holds => holds) fun _ m holds => ?_
  simpa [pcrSelectionBytes] using holds

theorem marshalPcrInfoLong_packs {frame : List UInt8} {pcrInfo : TpmPcrInfoLong}
    (creationNonNull : pcrInfo.creationPCRSelection.pcrSelect ≠ 0)
    (releaseNonNull : pcrInfo.releasePCRSelection.pcrSelect ≠ 0)
    (room : frame.length + (pcrInfoLongBytes base pcrInfo).length ≤ 1024)
    (bounded : params.length + (pcrInfoLongBytes base pcrInfo).length < 2 ^ 29) :
    Prog.Returns (PackingWith base frame fun sctx _ => Absorbed sctx params)
      (marshalPcrInfoLong pcrInfo .given .plain)
      (fun _ => PackingWith base (frame ++ pcrInfoLongBytes base pcrInfo)
        fun sctx _ => Absorbed sctx (params ++ pcrInfoLongBytes base pcrInfo)) := by
  simp [pcrInfoLongBytes] at room bounded
  refine Prog.Returns.bind
    (marshalBytes_plain (by simp; omega) (by simp; omega)) fun _ => ?_
  refine Prog.Returns.bind
    (marshalBytes_plain (by simp; omega) (by simp; omega)) fun _ => ?_
  refine Prog.Returns.bind
    (marshalBytes_plain (by simp; omega) (by simp; omega)) fun _ => ?_
  refine Prog.Returns.bind
    (marshalPcrSelection_packs creationNonNull (by simp; omega) (by simp; omega))
    fun _ => ?_
  refine Prog.Returns.bind
    (marshalPcrSelection_packs releaseNonNull (by simp; omega) (by simp; omega))
    fun _ => ?_
  refine Prog.Returns.bind
    (marshalBytes_plain (by simp; omega) (by simp; omega)) fun _ => ?_
  refine Prog.Returns.mono
    (marshalBytes_plain (by simp; omega) (by simp; omega))
    (fun _ holds => holds) fun _ m holds => ?_
  simpa [pcrInfoLongBytes] using holds

theorem length_pcrInfoLongBytes (pcrInfo : TpmPcrInfoLong) :
    (pcrInfoLongBytes base pcrInfo).length =
      48 + pcrInfo.creationPCRSelection.sizeOfSelect.toNat +
        pcrInfo.releasePCRSelection.sizeOfSelect.toNat := by
  simp [pcrInfoLongBytes, pcrSelectionBytes]
  omega

theorem toNat_sizeofPcrInfoLong (pcrInfo : TpmPcrInfoLong) :
    (sizeofPcrInfoLong pcrInfo).toNat =
      48 + pcrInfo.creationPCRSelection.sizeOfSelect.toNat +
        pcrInfo.releasePCRSelection.sizeOfSelect.toNat := by
  have creation := pcrInfo.creationPCRSelection.sizeOfSelect.toNat_lt
  have release := pcrInfo.releasePCRSelection.sizeOfSelect.toNat_lt
  simp [sizeofPcrInfoLong, sizeofPcrSelection, UInt32.toNat_add]
  omega

theorem sealRequest_submits {keyHandleIn : UInt32} {encAuthIn : Block 20}
    {pcrInfoIn : TpmPcrInfoLong} {inDataIn inDataSizeIn : UInt32}
    {sharedSecret : Block 20} (sessionNonNull : s ≠ 0) (dataNonNull : inDataIn ≠ 0)
    (creationNonNull : pcrInfoIn.creationPCRSelection.pcrSelect ≠ 0)
    (releaseNonNull : pcrInfoIn.releasePCRSelection.pcrSelect ≠ 0)
    (fits : 87 + (sizeofPcrInfoLong pcrInfoIn).toNat + inDataSizeIn.toNat ≤ 1024) :
    Submits device base
      (sealRequest device keyHandleIn encAuthIn pcrInfoIn inDataIn inDataSizeIn s
        sharedSecret)
      (authorisedRequest base tagRquAuth1Command ordSeal (be32 keyHandleIn)
        (sealParams base encAuthIn pcrInfoIn inDataIn inDataSizeIn)
        [(sharedSecret, s)])
      (authUses base [(sharedSecret, s)]) := by
  have length : (pcrInfoLongBytes base pcrInfoIn).length =
      (sizeofPcrInfoLong pcrInfoIn).toNat := by
    rw [length_pcrInfoLongBytes, toNat_sizeofPcrInfoLong]
  refine Prog.Leads.bind sha1InitLocal_starts fun _ => ?_
  refine Prog.Leads.bind (marshalHeader_packs _ _) fun _ => ?_
  refine Prog.Leads.bind (marshalBytes_plain (by simp) (by simp)) fun _ => ?_
  refine Prog.Leads.bind (marshalBytes_given (by simp)) fun _ => ?_
  refine Prog.Leads.bind (marshalBytes_plain (by simp) (by simp)) fun _ => ?_
  refine Prog.Leads.bind (marshalBytes_plain (by simp) (by simp)) fun _ => ?_
  refine Prog.Leads.bind (marshalPcrInfoLong_packs creationNonNull releaseNonNull
    (by simp [length]; omega) (by simp [length]; omega)) fun _ => ?_
  refine Prog.Leads.bind
    (marshalBytes_plain (by simp [length]; omega) (by simp [length]; omega)) fun _ => ?_
  refine Prog.Leads.bind (marshalArray_plain dataNonNull (by simp [length]; omega)
    (by simp [length]; omega)) fun _ => ?_
  refine Prog.Leads.weaken (submit_one ?_ sessionNonNull ?_) fun m holds => ?_
  · simp [sealParams, length, UInt32.toNat_add]
    omega
  · simp [sealParams, length]
    omega
  · simpa [sealParams] using holds

end Requests

end Sable
