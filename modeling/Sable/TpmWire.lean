import Mathlib.Data.List.Forall2
import Sable.SecureHashStandard

/-!
# The wire format of TPM 1.2 commands

A request has a tag, its size, an ordinal, key handles, parameters and one
authorisation trailer for each session; a response has a tag, its size, a
result, parameters and trailers.  Each trailer carries a keyed hash over the
digest of the parameters and the rolling nonces.  This file gives the format
and the checks that a TPM makes on a request and a caller on a response.
-/

namespace TpmWire

open BigEndian

/-- The number of authorisation trailers that a tag announces. -/
def trailerCount (tag : UInt16) : Nat :=
  if tag = 0xc2 ∨ tag = 0xc5 then 1
  else if tag = 0xc3 ∨ tag = 0xc6 then 2
  else 0

/-- The bytes of key handles that follow an ordinal: `Seal` and `Unseal` name a
parent key, the other commands used here have no handles. -/
def handleBytes (ordinal : UInt32) : Nat :=
  if ordinal = 0x17 ∨ ordinal = 0x18 then 4 else 0

/-- Cut a list into pieces of equal width. -/
def chunks (width : Nat) : Nat → List UInt8 → List (List UInt8)
  | 0, _ => []
  | count + 1, bytes => bytes.take width :: chunks width count (bytes.drop width)

theorem chunks_flatten {width : Nat} {pieces : List (List UInt8)}
    (exact : ∀ piece ∈ pieces, piece.length = width) :
    chunks width pieces.length pieces.flatten = pieces := by
  induction pieces with
  | nil => rfl
  | cons piece pieces ih =>
      have size := exact piece List.mem_cons_self
      rw [List.flatten_cons, List.length_cons, chunks, List.take_left' size,
        List.drop_left' size,
        ih fun other member => exact other (List.mem_cons_of_mem _ member)]

theorem length_flatten_of_width {width : Nat} {pieces : List (List UInt8)}
    (exact : ∀ piece ∈ pieces, piece.length = width) :
    pieces.flatten.length = width * pieces.length := by
  induction pieces with
  | nil => rfl
  | cons piece pieces ih =>
      have size := exact piece List.mem_cons_self
      have rest := ih fun other member => exact other (List.mem_cons_of_mem _ member)
      rw [List.flatten_cons, List.length_append, List.length_cons, Nat.mul_succ]
      omega

/-- The trailer of a request. -/
structure RequestTrailer where
  handle : UInt32
  nonceOdd : Block 20
  continueAuthSession : UInt8
  auth : Block 20
  deriving DecidableEq

namespace RequestTrailer

def encode (trailer : RequestTrailer) : List UInt8 :=
  be32 trailer.handle ++ trailer.nonceOdd.bytes ++
    [trailer.continueAuthSession] ++ trailer.auth.bytes

def decode (bytes : List UInt8) : RequestTrailer :=
  let afterHandle := bytes.drop 4
  let afterNonce := afterHandle.drop 20
  ⟨ofBe32 (bytes.take 4), Block.ofList 20 (afterHandle.take 20),
    afterNonce.headD 0, Block.ofList 20 (afterNonce.drop 1)⟩

@[simp]
theorem length_encode (trailer : RequestTrailer) : trailer.encode.length = 45 := by
  simp [encode]

@[simp]
theorem decode_encode (trailer : RequestTrailer) : decode trailer.encode = trailer := by
  obtain ⟨handle, nonceOdd, continueAuthSession, auth⟩ := trailer
  simp only [decode, encode, List.append_assoc]
  rw [List.take_left' (length_be32 handle), List.drop_left' (length_be32 handle),
    List.take_left' nonceOdd.length_eq, List.drop_left' nonceOdd.length_eq,
    ofBe32_be32, Block.ofList_bytes]
  simp

/-- What the keyed hash of a request covers. -/
def message (digest nonceEven : Block 20) (trailer : RequestTrailer) : List UInt8 :=
  digest.bytes ++ nonceEven.bytes ++ trailer.nonceOdd.bytes ++
    [trailer.continueAuthSession]

end RequestTrailer

structure Request where
  tag : UInt16
  ordinal : UInt32
  handles : List UInt8
  params : List UInt8
  trailers : List RequestTrailer
  deriving DecidableEq

namespace Request

/-- The size of a request. -/
def size (request : Request) : Nat :=
  10 + request.handles.length + request.params.length + 45 * request.trailers.length

def encode (request : Request) : List UInt8 :=
  be16 request.tag ++ be32 (UInt32.ofNat request.size) ++ be32 request.ordinal ++
    request.handles ++ request.params ++
    (request.trailers.map RequestTrailer.encode).flatten

theorem length_trailers (trailers : List RequestTrailer) :
    (trailers.map RequestTrailer.encode).flatten.length = 45 * trailers.length := by
  rw [length_flatten_of_width, List.length_map]
  intro piece member
  obtain ⟨trailer, -, rfl⟩ := List.mem_map.mp member
  exact trailer.length_encode

theorem length_encode (request : Request) : request.encode.length = request.size := by
  simp only [encode, size, List.length_append, length_trailers, length_be16, length_be32]

/-- Parse a request.  Its size field must be the number of bytes received, and
there must be room for the handles and the trailers. -/
def decode (frame : List UInt8) : Option Request :=
  let afterTag := frame.drop 2
  let afterSize := afterTag.drop 4
  let body := afterSize.drop 4
  let tag := ofBe16 (frame.take 2)
  let ordinal := ofBe32 (afterSize.take 4)
  let rest := body.drop (handleBytes ordinal)
  let paramsLength := rest.length - 45 * trailerCount tag
  if frame.length = (ofBe32 (afterTag.take 4)).toNat ∧
      10 + handleBytes ordinal + 45 * trailerCount tag ≤ frame.length then
    some
      { tag := tag
        ordinal := ordinal
        handles := body.take (handleBytes ordinal)
        params := rest.take paramsLength
        trailers := (chunks 45 (trailerCount tag) (rest.drop paramsLength)).map
          RequestTrailer.decode }
  else none

/-- Requests that carry the handles and trailers their ordinal and tag
announce. -/
structure WellFormed (request : Request) : Prop where
  handles_eq : request.handles.length = handleBytes request.ordinal
  trailers_eq : request.trailers.length = trailerCount request.tag
  small : request.size < 2 ^ 32

theorem chunks_trailers (trailers : List RequestTrailer) :
    (chunks 45 trailers.length (trailers.map RequestTrailer.encode).flatten).map
      RequestTrailer.decode = trailers := by
  have exact : ∀ piece ∈ trailers.map RequestTrailer.encode, piece.length = 45 := by
    intro piece member
    obtain ⟨trailer, -, rfl⟩ := List.mem_map.mp member
    exact trailer.length_encode
  have cut := chunks_flatten exact
  rw [List.length_map] at cut
  rw [cut, List.map_map]
  simp [Function.comp_def]

theorem decode_encode {request : Request} (wellFormed : request.WellFormed) :
    decode request.encode = some request := by
  obtain ⟨handlesEq, trailersEq, small⟩ := wellFormed
  have length := length_encode request
  have size : (UInt32.ofNat request.size).toNat = request.size :=
    UInt32.toNat_ofNat_of_lt' small
  have trailersLength := length_trailers request.trailers
  have cut := chunks_trailers request.trailers
  have total : 10 + handleBytes request.ordinal + 45 * trailerCount request.tag ≤
      request.size := by
    rw [Request.size, handlesEq, trailersEq]
    omega
  have front : (request.params ++
      (request.trailers.map RequestTrailer.encode).flatten).length -
        45 * trailerCount request.tag = request.params.length := by
    rw [List.length_append, trailersLength, trailersEq]
    omega
  rw [decode, length]
  simp only [encode, List.append_assoc]
  simp only [List.take_left' (length_be16 _), List.drop_left' (length_be16 _),
    List.take_left' (length_be32 _), List.drop_left' (length_be32 _),
    ofBe16_be16, ofBe32_be32, size, true_and, if_pos total]
  rw [List.take_left' handlesEq, List.drop_left' handlesEq, front, List.take_left,
    List.drop_left, ← trailersEq, cut]

/-- The digest of the ordinal and the parameters, without the handles. -/
def digest (request : Request) : Block 20 :=
  SecureHash.sha1 (be32 request.ordinal ++ request.params)

/-- The check of a TPM on one trailer: it names the session and its keyed hash
is the one computed with the secret and the session's even nonce. -/
def Authorises (request : Request) (trailer : RequestTrailer) (handle : UInt32)
    (nonceEven secret : Block 20) : Prop :=
  trailer.handle = handle ∧
    trailer.auth = SecureHash.hmac secret.bytes
      (trailer.message request.digest nonceEven)

instance (request : Request) (trailer : RequestTrailer) (handle : UInt32)
    (nonceEven secret : Block 20) :
    Decidable (request.Authorises trailer handle nonceEven secret) :=
  inferInstanceAs (Decidable (_ ∧ _))

end Request

/-- The trailer of a response. -/
structure ResponseTrailer where
  nonceEven : Block 20
  continueAuthSession : UInt8
  auth : Block 20
  deriving DecidableEq

namespace ResponseTrailer

def encode (trailer : ResponseTrailer) : List UInt8 :=
  trailer.nonceEven.bytes ++ [trailer.continueAuthSession] ++ trailer.auth.bytes

def decode (bytes : List UInt8) : ResponseTrailer :=
  let afterNonce := bytes.drop 20
  ⟨Block.ofList 20 (bytes.take 20), afterNonce.headD 0,
    Block.ofList 20 (afterNonce.drop 1)⟩

@[simp]
theorem length_encode (trailer : ResponseTrailer) : trailer.encode.length = 41 := by
  simp [encode]

@[simp]
theorem decode_encode (trailer : ResponseTrailer) :
    decode trailer.encode = trailer := by
  obtain ⟨nonceEven, continueAuthSession, auth⟩ := trailer
  simp only [decode, encode, List.append_assoc]
  rw [List.take_left' nonceEven.length_eq, List.drop_left' nonceEven.length_eq,
    Block.ofList_bytes]
  simp

/-- What the keyed hash of a response covers. -/
def message (digest nonceOdd : Block 20) (trailer : ResponseTrailer) : List UInt8 :=
  digest.bytes ++ trailer.nonceEven.bytes ++ nonceOdd.bytes ++
    [trailer.continueAuthSession]

end ResponseTrailer

structure Response where
  tag : UInt16
  result : UInt32
  params : List UInt8
  trailers : List ResponseTrailer
  deriving DecidableEq

namespace Response

def size (response : Response) : Nat :=
  10 + response.params.length + 41 * response.trailers.length

def encode (response : Response) : List UInt8 :=
  be16 response.tag ++ be32 (UInt32.ofNat response.size) ++ be32 response.result ++
    response.params ++ (response.trailers.map ResponseTrailer.encode).flatten

theorem length_trailers (trailers : List ResponseTrailer) :
    (trailers.map ResponseTrailer.encode).flatten.length = 41 * trailers.length := by
  rw [length_flatten_of_width, List.length_map]
  intro piece member
  obtain ⟨trailer, -, rfl⟩ := List.mem_map.mp member
  exact trailer.length_encode

theorem length_encode (response : Response) :
    response.encode.length = response.size := by
  simp only [encode, size, List.length_append, length_trailers, length_be16, length_be32]

/-- Parse a response whose size field is the number of bytes received. -/
def decode (frame : List UInt8) : Option Response :=
  let afterTag := frame.drop 2
  let afterSize := afterTag.drop 4
  let rest := afterSize.drop 4
  let tag := ofBe16 (frame.take 2)
  let paramsLength := rest.length - 41 * trailerCount tag
  if frame.length = (ofBe32 (afterTag.take 4)).toNat ∧
      10 + 41 * trailerCount tag ≤ frame.length then
    some
      { tag := tag
        result := ofBe32 (afterSize.take 4)
        params := rest.take paramsLength
        trailers := (chunks 41 (trailerCount tag) (rest.drop paramsLength)).map
          ResponseTrailer.decode }
  else none

structure WellFormed (response : Response) : Prop where
  trailers_eq : response.trailers.length = trailerCount response.tag
  small : response.size < 2 ^ 32

theorem chunks_trailers (trailers : List ResponseTrailer) :
    (chunks 41 trailers.length (trailers.map ResponseTrailer.encode).flatten).map
      ResponseTrailer.decode = trailers := by
  have exact : ∀ piece ∈ trailers.map ResponseTrailer.encode, piece.length = 41 := by
    intro piece member
    obtain ⟨trailer, -, rfl⟩ := List.mem_map.mp member
    exact trailer.length_encode
  have cut := chunks_flatten exact
  rw [List.length_map] at cut
  rw [cut, List.map_map]
  simp [Function.comp_def]

theorem decode_encode {response : Response} (wellFormed : response.WellFormed) :
    decode response.encode = some response := by
  obtain ⟨trailersEq, small⟩ := wellFormed
  have length := length_encode response
  have size : (UInt32.ofNat response.size).toNat = response.size :=
    UInt32.toNat_ofNat_of_lt' small
  have trailersLength := length_trailers response.trailers
  have cut := chunks_trailers response.trailers
  have total : 10 + 41 * trailerCount response.tag ≤ response.size := by
    rw [Response.size, trailersEq]
    omega
  have front : (response.params ++
      (response.trailers.map ResponseTrailer.encode).flatten).length -
        41 * trailerCount response.tag = response.params.length := by
    rw [List.length_append, trailersLength, trailersEq]
    omega
  rw [decode, length]
  simp only [encode, List.append_assoc]
  simp only [List.take_left' (length_be16 _), List.drop_left' (length_be16 _),
    List.take_left' (length_be32 _), List.drop_left' (length_be32 _),
    ofBe16_be16, ofBe32_be32, size, true_and, if_pos total]
  rw [front, List.take_left, List.drop_left, ← trailersEq, cut]

/-- The digest of the result, the ordinal and the parameters. -/
def digest (response : Response) (ordinal : UInt32) : Block 20 :=
  SecureHash.sha1 (be32 response.result ++ be32 ordinal ++ response.params)

/-- The check of a caller on one trailer. -/
def Authentic (response : Response) (ordinal : UInt32) (trailer : ResponseTrailer)
    (nonceOdd secret : Block 20) : Prop :=
  trailer.auth = SecureHash.hmac secret.bytes
    (trailer.message (response.digest ordinal) nonceOdd)

/-- What a trailer is made from: the secret and the nonces of a session and
whether it goes on. -/
structure Grant where
  secret : Block 20
  nonceEven : Block 20
  nonceOdd : Block 20
  continueAuthSession : UInt8

/-- A successful response with an authentic trailer for each grant. -/
def granted (tag : UInt16) (ordinal : UInt32) (params : List UInt8)
    (grants : List Grant) : Response :=
  { tag := tag
    result := 0
    params := params
    trailers := grants.map fun grant =>
      { nonceEven := grant.nonceEven
        continueAuthSession := grant.continueAuthSession
        auth := SecureHash.hmac grant.secret.bytes
          ((SecureHash.sha1 (be32 0 ++ be32 ordinal ++ params)).bytes ++
            grant.nonceEven.bytes ++ grant.nonceOdd.bytes ++
            [grant.continueAuthSession]) } }

theorem granted_authentic (tag : UInt16) (ordinal : UInt32) (params : List UInt8)
    (grants : List Grant) :
    List.Forall₂ (fun trailer check =>
        (granted tag ordinal params grants).Authentic ordinal trailer check.2 check.1)
      (granted tag ordinal params grants).trailers
      (grants.map fun grant => (grant.secret, grant.nonceOdd)) := by
  rw [granted, List.forall₂_map_left_iff, List.forall₂_map_right_iff,
    List.forall₂_same]
  intro grant _
  rfl

end Response

end TpmWire
