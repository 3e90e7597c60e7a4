import Sable.TpmStruct

/-!
# The hash contexts of a command

A command hashes values as it packs or unpacks them.  The rules here say what
the two contexts have absorbed, next to any property of the machine that does
not depend on them.
-/

namespace Sable

open ByteMemory BigEndian HaltingProgram

variable {σ : Type} {part : Machine σ → Prop} {bytes params message : List UInt8}

/-- Replace the contents of the hash contexts. -/
def Machine.withHashes (m : Machine σ) (sctx : Sha1Context) (hctx : HmacContext) :
    Machine σ :=
  { m with locals := { m.locals with sctx := sctx, hctx := hctx } }

/-- Properties of a machine that do not depend on the hash contexts. -/
class HashFree (part : Machine σ → Prop) : Prop where
  withHashes : ∀ m sctx hctx, part m → part (m.withHashes sctx hctx)

/-- The machine has the property `part` and its hash contexts satisfy
`contexts`. -/
def Holding (part : Machine σ → Prop) (contexts : Sha1Context → HmacContext → Prop)
    (m : Machine σ) : Prop :=
  part m ∧ contexts m.locals.sctx m.locals.hctx

section Rules

variable [HashFree part]

theorem sha1InitLocal_holds :
    Prog.Returns part sha1InitLocal
      (fun _ => Holding part fun sctx _ => Absorbed sctx []) := by
  apply Prog.Returns.modify
  intro m holds
  exact ⟨HashFree.withHashes m _ m.locals.hctx holds, Absorbed.init _⟩

theorem hashBytes_plain (bounded : params.length + bytes.length < 2 ^ 29) :
    Prog.Returns (Holding part fun sctx _ => Absorbed sctx params)
      (hashBytes bytes .plain)
      (fun _ => Holding part fun sctx _ => Absorbed sctx (params ++ bytes)) := by
  rintro m ⟨holds, absorbed⟩
  have small := absorbed.index_lt
  have room : HashPtr.plain.Room bytes m.locals :=
    (HashPtr.room_plain bytes m.locals).mpr ⟨small, by omega⟩
  refine ⟨(), _, (hashBytes_eq bytes .plain m).trans (if_pos room), ?_⟩
  have value : (sha1 m.locals.sctx bytes).value = absorb m.locals.sctx bytes := by
    rw [absorbed.sha1_eq bounded, Result.value_ok]
  refine ⟨HashFree.withHashes m _ m.locals.hctx holds, ?_⟩
  change Absorbed (sha1 m.locals.sctx bytes).value _
  rw [value]
  exact absorbed.absorb bytes

theorem hashBytes_keyed {plain : Sha1Context → Prop} {key : List UInt8}
    (bounded : message.length + bytes.length + 64 < 2 ^ 29) :
    Prog.Returns
      (Holding part fun sctx hctx => plain sctx ∧ HmacAbsorbed hctx key message)
      (hashBytes bytes .keyed)
      (fun _ => Holding part fun sctx hctx =>
        plain sctx ∧ HmacAbsorbed hctx key (message ++ bytes)) := by
  rintro m ⟨holds, digest, absorbed⟩
  have inner : Absorbed m.locals.hctx.sctx (padKey 0x36 m.locals.hctx.key ++ message) :=
    absorbed.inner
  have small := inner.index_lt
  have room : HashPtr.keyed.Room bytes m.locals :=
    (HashPtr.room_keyed bytes m.locals).mpr ⟨small, by omega⟩
  refine ⟨(), _, (hashBytes_eq bytes .keyed m).trans (if_pos room), ?_⟩
  have value : (sha1 m.locals.hctx.sctx bytes).value = absorb m.locals.hctx.sctx bytes := by
    rw [inner.sha1_eq (by simp; omega), Result.value_ok]
  refine ⟨HashFree.withHashes m m.locals.sctx _ holds, digest, absorbed.key_eq, ?_⟩
  change Absorbed (sha1 m.locals.hctx.sctx bytes).value (padKey 0x36 m.locals.hctx.key ++ _)
  rw [value, ← List.append_assoc]
  exact inner.absorb bytes

/-- Hashing one byte string, which fails exactly from the size limit on. -/
theorem sha1Local_holds (short : bytes.length < 2 ^ 32) :
    Prog.Returns (Holding part fun sctx _ => Absorbed sctx []) (sha1Local bytes)
      (fun exception m => (exception = .none ↔ bytes.length < 2 ^ 29) ∧
        Holding part (fun sctx _ => bytes.length < 2 ^ 29 → Absorbed sctx bytes) m) := by
  rintro m ⟨holds, absorbed⟩
  have value : bytes.length < 2 ^ 29 →
      sha1 m.locals.sctx bytes = .ok (absorb m.locals.sctx bytes) := by
    intro bounded
    exact absorbed.sha1_eq (by simpa using bounded)
  have success : (sha1 m.locals.sctx bytes).exception = .none ↔ bytes.length < 2 ^ 29 := by
    constructor
    · intro success
      by_contra large
      exact absorbed.sha1_large (by omega) short success
    · intro bounded
      rw [value bounded, Result.exception_ok]
  have hashed : bytes.length < 2 ^ 29 →
      Absorbed (sha1 m.locals.sctx bytes).value bytes := by
    intro bounded
    rw [value bounded]
    exact absorbed.absorb bytes
  exact ⟨_, _, rfl, success, HashFree.withHashes m _ m.locals.hctx holds, hashed⟩

theorem sha1FinishLocal_holds (bounded : params.length < 2 ^ 29) :
    Prog.Returns (Holding part fun sctx _ => Absorbed sctx params)
      sha1FinishLocal
      (fun _ => Holding part fun sctx _ => sctx.hash = SecureHash.sha1 params) := by
  apply Prog.Returns.modify
  rintro m ⟨holds, absorbed⟩
  exact ⟨HashFree.withHashes m _ m.locals.hctx holds, absorbed.finish bounded⟩

theorem hmacInitLocal_holds {plain : Sha1Context → Prop} (secret : Block 20) :
    Prog.Returns (Holding part fun sctx _ => plain sctx)
      (hmacInitLocal secret.bytes)
      (fun _ => Holding part fun sctx hctx =>
        plain sctx ∧ HmacAbsorbed hctx secret.bytes []) := by
  apply Prog.Returns.modify
  rintro m ⟨holds, digest⟩
  obtain ⟨reached, run, absorbed⟩ := hmacInit_absorbed m.locals.hctx
    (by simp : secret.bytes.length < 2 ^ 29)
  rw [run]
  exact ⟨HashFree.withHashes m m.locals.sctx reached holds, digest, absorbed⟩

theorem hmacFinishLocal_holds {plain : Sha1Context → Prop} {secret : Block 20}
    (bounded : message.length + 64 < 2 ^ 29) :
    Prog.Returns
      (Holding part fun sctx hctx =>
        plain sctx ∧ HmacAbsorbed hctx secret.bytes message)
      hmacFinishLocal
      (fun _ => Holding part fun sctx hctx =>
        plain sctx ∧ hctx.sctx.hash = SecureHash.hmac secret.bytes message) := by
  apply Prog.Returns.modify
  rintro m ⟨holds, digest, absorbed⟩
  obtain ⟨reached, run, mac⟩ := absorbed.finish bounded
  rw [run]
  exact ⟨HashFree.withHashes m m.locals.sctx reached holds, digest, mac⟩

end Rules

theorem sctxHash_runs {stuck : Prop} {digest : Block 20} :
    Prog.Runs stuck (Holding part fun sctx _ => sctx.hash = digest) sctxHash
      (fun value m => value = digest ∧ part m) := by
  rintro m ⟨holds, hash⟩
  exact ⟨hash, holds⟩

end Sable
