import Sable.BootFrames
import Sable.ResponseDelivery

/-!
# Fresh nonces

Every odd nonce that a command carries should come from a `TPM_GetRandom` of its own, and
the nonce of a session from one that succeeded after the session was opened.  All runs of
`configure` keep to this.  `unseal_passphrase` draws no nonce for the session of the
storage root key, so that `trusted_boot` keeps to it only if it does not come to send
`TPM_Unseal`.
-/

namespace Sable

open BigEndian HaltingProgram

/-- The commands that sessions authorise. -/
def authorisedOrdinals : List UInt32 :=
  [ordSeal, ordUnseal, ordNvWriteValueAuth]

/-- The nonce at a place: the position of a sent command among the events and the number of
the nonce in it, with the ordinal of the command and the session. -/
def useAt (events : List Event) (place : Nat × Nat) : Option (UInt32 × UInt32 × Block 20) :=
  match events[place.1]? with
  | some (.sent ordinal uses _) => uses[place.2]?.map fun use => (ordinal, use)
  | _ => none

/-- The session has been opened at `position` and not again before `stop`. -/
def OpenedAt (events : List Event) (s : UInt32) (position stop : Nat) : Prop :=
  (∃ nonceOddOSAP, events[position]? = some (.opened s nonceOddOSAP)) ∧
    ∀ later nonceOddOSAP, position < later → later < stop →
      events[later]? ≠ some (.opened s nonceOddOSAP)

/-- The `TPM_GetRandom` at `position` has returned the nonce that the command at `stop`
carries for a session; for an authorised command it has succeeded, and after the session was
opened. -/
structure DrawnAt (events : List Event) (stop : Nat) (ordinal s : UInt32) (nonce : Block 20)
    (position : Nat) : Prop where
  before : position < stop
  returned : ∃ exception bytes, events[position]? = some (.random exception bytes) ∧
    Block.ofList 20 bytes = nonce ∧
    (ordinal ∈ authorisedOrdinals → exception = .none ∧
      ∃ opening < position, OpenedAt events s opening stop)

/-- Every nonce comes from the `TPM_GetRandom` that `source` names, and no two from the same
one. -/
structure DrawnFrom (source : Nat × Nat → Nat) (events : List Event) : Prop where
  drawn : ∀ place ordinal s nonce, useAt events place = some (ordinal, s, nonce) →
    DrawnAt events place.1 ordinal s nonce (source place)
  own : ∀ first second, (useAt events first).isSome → (useAt events second).isSome →
    source first = source second → first = second

/-- Every nonce in the events has been drawn for its own use. -/
def NonceFresh (events : List Event) : Prop :=
  ∃ source, DrawnFrom source events

/-- The event hands a command of the given ordinal to the TPM. -/
def Event.sends (ordinal : UInt32) : Event → Bool
  | .sent sentOrdinal _ _ => sentOrdinal == ordinal
  | _ => false

/-- Nothing is drawn, opened or authorised. -/
def Event.Quiet : Event → Prop
  | .sent ordinal uses _ => uses = [] ∧ ordinal ≠ ordUnseal
  | .random _ _ => False
  | .opened _ _ => False
  | _ => True

section Events

variable {events more : List Event} {source : Nat × Nat → Nat}

theorem useAt_append_left {place : Nat × Nat} (inside : place.1 < events.length) :
    useAt (events ++ more) place = useAt events place := by
  rw [useAt, useAt, List.getElem?_append_left inside]

theorem lt_length_of_useAt {place : Nat × Nat} (used : (useAt events place).isSome) :
    place.1 < events.length := by
  by_contra beyond
  rw [useAt, List.getElem?_eq_none (by omega)] at used
  cases used

theorem OpenedAt.append {s : UInt32} {position stop : Nat} (inside : stop ≤ events.length)
    (early : position < stop) :
    OpenedAt (events ++ more) s position stop ↔ OpenedAt events s position stop := by
  have same {later : Nat} (bound : later < stop) : (events ++ more)[later]? = events[later]? :=
    List.getElem?_append_left (by omega)
  rw [OpenedAt, OpenedAt, same early]
  refine and_congr_right fun _ => forall_congr' fun later => forall_congr' fun nonce =>
    forall_congr' fun _ => ?_
  constructor
  · intro apart bound
    rw [← same bound]
    exact apart bound
  · intro apart bound
    rw [same bound]
    exact apart bound

theorem drawnAt_append {stop position : Nat} {ordinal s : UInt32} {nonce : Block 20}
    (inside : stop ≤ events.length) :
    DrawnAt (events ++ more) stop ordinal s nonce position ↔
      DrawnAt events stop ordinal s nonce position := by
  constructor
  · rintro ⟨before, exception, bytes, found, value, authorised⟩
    rw [List.getElem?_append_left (by omega)] at found
    refine ⟨before, exception, bytes, found, value, fun member => ?_⟩
    obtain ⟨success, opening, early, opened⟩ := authorised member
    exact ⟨success, opening, early, (OpenedAt.append inside (by omega)).mp opened⟩
  · rintro ⟨before, exception, bytes, found, value, authorised⟩
    rw [← @List.getElem?_append_left _ events more position (by omega)] at found
    refine ⟨before, exception, bytes, found, value, fun member => ?_⟩
    obtain ⟨success, opening, early, opened⟩ := authorised member
    exact ⟨success, opening, early, (OpenedAt.append inside (by omega)).mpr opened⟩

/-- The nonces so far do not depend on what follows. -/
theorem DrawnFrom.of_append (drawn : DrawnFrom source (events ++ more)) :
    DrawnFrom source events := by
  constructor
  · intro place ordinal s nonce used
    have inside := lt_length_of_useAt (Option.isSome_of_eq_some used)
    rw [← useAt_append_left inside] at used
    exact (drawnAt_append (by omega)).mp (drawn.drawn place ordinal s nonce used)
  · intro first second firstUsed secondUsed same
    refine drawn.own first second ?_ ?_ same
    · rw [useAt_append_left (lt_length_of_useAt firstUsed)]
      exact firstUsed
    · rw [useAt_append_left (lt_length_of_useAt secondUsed)]
      exact secondUsed

theorem NonceFresh.of_append (fresh : NonceFresh (events ++ more)) : NonceFresh events := by
  obtain ⟨source, drawn⟩ := fresh
  exact ⟨source, drawn.of_append⟩

/-- The event carries no nonce. -/
def Event.Bare : Event → Prop
  | .sent _ uses _ => uses = []
  | _ => True

theorem Event.Quiet.bare {event : Event} (quiet : event.Quiet) : event.Bare := by
  cases event with
  | sent ordinal uses frame => exact quiet.1
  | _ => trivial

theorem useAt_append_bare (bare : ∀ event ∈ more, event.Bare) (place : Nat × Nat) :
    useAt (events ++ more) place = useAt events place := by
  by_cases inside : place.1 < events.length
  · exact useAt_append_left inside
  · have absent : useAt events place = none := by
      rw [useAt, List.getElem?_eq_none (by omega)]
    rw [absent, useAt, List.getElem?_append_right (by omega)]
    cases found : more[place.1 - events.length]? with
    | none => rfl
    | some event =>
        have known := bare event (List.mem_of_getElem? found)
        cases event with
        | sent ordinal uses frame =>
            rw [show uses = [] from known]
            rfl
        | _ => rfl

theorem DrawnFrom.append_bare (drawn : DrawnFrom source events)
    (bare : ∀ event ∈ more, event.Bare) : DrawnFrom source (events ++ more) := by
  constructor
  · intro place ordinal s nonce used
    rw [useAt_append_bare bare] at used
    have inside := lt_length_of_useAt (Option.isSome_of_eq_some used)
    exact (drawnAt_append (by omega)).mpr (drawn.drawn place ordinal s nonce used)
  · intro first second firstUsed secondUsed same
    rw [useAt_append_bare bare] at firstUsed secondUsed
    exact drawn.own first second firstUsed secondUsed same

theorem NonceFresh.append_bare (fresh : NonceFresh events)
    (bare : ∀ event ∈ more, event.Bare) : NonceFresh (events ++ more) := by
  obtain ⟨source, drawn⟩ := fresh
  exact ⟨source, drawn.append_bare bare⟩

/-- The `TPM_GetRandom` at the position is not the source of a nonce yet. -/
def Spare (source : Nat × Nat → Nat) (events : List Event) (position : Nat) : Prop :=
  ∀ place, (useAt events place).isSome → source place ≠ position

theorem useAt_append_sent (ordinal : UInt32) (use : UInt32 × Block 20) (frame : List UInt8)
    (place : Nat × Nat) :
    useAt (events ++ [.sent ordinal [use] frame]) place =
      if place = (events.length, 0) then some (ordinal, use) else useAt events place := by
  by_cases inside : place.1 < events.length
  · rw [useAt_append_left inside, if_neg]
    rintro rfl
    exact Nat.lt_irrefl _ inside
  · have absent : useAt events place = none := by
      rw [useAt, List.getElem?_eq_none (by omega)]
    rw [absent, useAt, List.getElem?_append_right (by omega)]
    obtain ⟨position, number⟩ := place
    dsimp only at inside ⊢
    by_cases last : position = events.length
    · subst last
      rw [Nat.sub_self]
      cases number with
      | zero => simp
      | succ number => simp
    · rw [List.getElem?_eq_none (by simp only [List.length_singleton]; omega), if_neg]
      rintro same
      exact last (congrArg Prod.fst same)

/-- A command uses a nonce that was drawn for it. -/
theorem DrawnFrom.append_sent (drawn : DrawnFrom source events) {position : Nat}
    (spare : Spare source events position) {ordinal s : UInt32} {nonce : Block 20}
    (returned : DrawnAt events events.length ordinal s nonce position) (frame : List UInt8) :
    DrawnFrom (Function.update source (events.length, 0) position)
      (events ++ [.sent ordinal [(s, nonce)] frame]) := by
  constructor
  · intro place placeOrdinal placeSession placeNonce used
    rw [useAt_append_sent] at used
    by_cases new : place = (events.length, 0)
    · rw [if_pos new] at used
      cases used
      subst new
      rw [Function.update_self]
      exact (drawnAt_append (Nat.le_refl _)).mpr returned
    · rw [if_neg new] at used
      rw [Function.update_of_ne new]
      have inside := lt_length_of_useAt (Option.isSome_of_eq_some used)
      exact (drawnAt_append (by omega)).mpr (drawn.drawn place _ _ _ used)
  · intro first second firstUsed secondUsed same
    rw [useAt_append_sent] at firstUsed secondUsed
    by_cases firstNew : first = (events.length, 0)
    · by_cases secondNew : second = (events.length, 0)
      · rw [firstNew, secondNew]
      · rw [if_neg secondNew] at secondUsed
        rw [firstNew, Function.update_self, Function.update_of_ne secondNew] at same
        exact (spare second secondUsed same.symm).elim
    · rw [if_neg firstNew] at firstUsed
      rw [Function.update_of_ne firstNew] at same
      by_cases secondNew : second = (events.length, 0)
      · rw [secondNew, Function.update_self] at same
        exact (spare first firstUsed same).elim
      · rw [if_neg secondNew] at secondUsed
        rw [Function.update_of_ne secondNew] at same
        exact drawn.own first second firstUsed secondUsed same

/-- A nonce has been drawn that the next command of the given ordinal may carry. -/
def Available (ordinal s : UInt32) (nonce : Block 20) (events : List Event) : Prop :=
  ∃ source position, DrawnFrom source events ∧ Spare source events position ∧
    DrawnAt events events.length ordinal s nonce position

/-- The session is open. -/
def Opened (s : UInt32) (events : List Event) : Prop :=
  NonceFresh events ∧ ∃ position, OpenedAt events s position events.length

variable {ordinal s : UInt32} {nonce : Block 20}

theorem NonceFresh.nil : NonceFresh [] := by
  refine ⟨fun _ => 0, fun place ordinal s nonce used => ?_, fun first second used => ?_⟩
  · cases lt_length_of_useAt (Option.isSome_of_eq_some used)
  · cases lt_length_of_useAt used

theorem Available.fresh (available : Available ordinal s nonce events) : NonceFresh events := by
  obtain ⟨source, position, drawn, -, -⟩ := available
  exact ⟨source, drawn⟩

theorem Available.append_sent (available : Available ordinal s nonce events)
    (frame : List UInt8) : NonceFresh (events ++ [.sent ordinal [(s, nonce)] frame]) := by
  obtain ⟨source, position, drawn, spare, returned⟩ := available
  exact ⟨_, drawn.append_sent spare returned frame⟩

theorem NonceFresh.append_opened (fresh : NonceFresh events) (s : UInt32)
    (nonceOddOSAP : Option (Block 20)) : Opened s (events ++ [.opened s nonceOddOSAP]) := by
  refine ⟨fresh.append_bare (by simp [Event.Bare]), events.length, ⟨nonceOddOSAP, by simp⟩, ?_⟩
  intro later nonce after bound
  simp only [List.length_append, List.length_singleton] at bound
  omega

theorem OpenedAt.extend {position : Nat} (opened : OpenedAt events s position events.length)
    (others : ∀ event ∈ more, ∀ nonceOddOSAP, event ≠ .opened s nonceOddOSAP) :
    OpenedAt (events ++ more) s position (events ++ more).length := by
  obtain ⟨⟨nonceOddOSAP, found⟩, last⟩ := opened
  have early : position < events.length := (List.getElem?_eq_some_iff.mp found).1
  refine ⟨⟨nonceOddOSAP, ?_⟩, ?_⟩
  · rw [List.getElem?_append_left early, found]
  · intro later nonce after bound reopened
    by_cases inside : later < events.length
    · rw [List.getElem?_append_left inside] at reopened
      exact last later nonce after inside reopened
    · rw [List.getElem?_append_right (by omega)] at reopened
      exact others _ (List.mem_of_getElem? reopened) nonce rfl

/-- The events behind a `TPM_GetRandom` that open no session. -/
theorem DrawnAt.extend {position : Nat}
    (returned : DrawnAt events events.length ordinal s nonce position)
    (others : ∀ event ∈ more, ∀ nonceOddOSAP, event ≠ .opened s nonceOddOSAP) :
    DrawnAt (events ++ more) (events ++ more).length ordinal s nonce position := by
  obtain ⟨before, exception, bytes, found, value, authorised⟩ := returned
  refine ⟨?_, exception, bytes, ?_, value, fun member => ?_⟩
  · rw [List.length_append]
    omega
  · rw [List.getElem?_append_left before, found]
  · obtain ⟨success, opening, early, opened⟩ := authorised member
    exact ⟨success, opening, early, opened.extend others⟩

theorem Event.Quiet.not_opened {event : Event} (quiet : event.Quiet) (s : UInt32)
    (nonceOddOSAP : Option (Block 20)) : event ≠ .opened s nonceOddOSAP := by
  rintro rfl
  exact quiet

theorem NonceFresh.append_quiet (fresh : NonceFresh events)
    (quiet : ∀ event ∈ more, event.Quiet) : NonceFresh (events ++ more) :=
  fresh.append_bare fun event member => (quiet event member).bare

theorem Opened.append_quiet (opened : Opened s events)
    (quiet : ∀ event ∈ more, event.Quiet) : Opened s (events ++ more) := by
  obtain ⟨fresh, position, known⟩ := opened
  exact ⟨fresh.append_quiet quiet, position,
    known.extend fun event member => (quiet event member).not_opened s⟩

theorem Available.append_quiet (available : Available ordinal s nonce events)
    (quiet : ∀ event ∈ more, event.Quiet) : Available ordinal s nonce (events ++ more) := by
  obtain ⟨source, position, drawn, spare, returned⟩ := available
  have bare : ∀ event ∈ more, event.Bare := fun event member => (quiet event member).bare
  refine ⟨source, position, drawn.append_bare bare, ?_,
    returned.extend fun event member => (quiet event member).not_opened s⟩
  intro place used
  rw [useAt_append_bare bare] at used
  exact spare place used

/-- The position behind the events is not the source of one of their nonces. -/
theorem DrawnFrom.spare_length (drawn : DrawnFrom source events) {exception : Error}
    {bytes : List UInt8} :
    Spare source (events ++ [.random exception bytes]) events.length := by
  intro place used
  rw [useAt_append_bare (by simp [Event.Bare])] at used
  obtain ⟨⟨ordinal, s, nonce⟩, found⟩ := Option.isSome_iff_exists.mp used
  have before := (drawn.drawn place ordinal s nonce found).before
  have inside := lt_length_of_useAt used
  omega

/-- A nonce for a command without sessions. -/
theorem NonceFresh.append_random (fresh : NonceFresh events)
    (plain : ordinal ∉ authorisedOrdinals) (exception : Error) (bytes : List UInt8) :
    Available ordinal s (Block.ofList 20 bytes) (events ++ [.random exception bytes]) := by
  obtain ⟨source, drawn⟩ := fresh
  refine ⟨source, events.length, drawn.append_bare (by simp [Event.Bare]), drawn.spare_length,
    ?_, exception, bytes, by simp, rfl, fun authorised => (plain authorised).elim⟩
  simp

/-- A nonce for an open session. -/
theorem Opened.append_random (opened : Opened s events) (bytes : List UInt8) :
    Available ordinal s (Block.ofList 20 bytes) (events ++ [.random .none bytes]) := by
  obtain ⟨⟨source, drawn⟩, position, known⟩ := opened
  have early : position < events.length :=
    known.1.elim fun _ found => (List.getElem?_eq_some_iff.mp found).1
  refine ⟨source, events.length, drawn.append_bare (by simp [Event.Bare]), drawn.spare_length,
    ?_, .none, bytes, by simp, rfl, fun _ => ⟨rfl, position, early, ?_⟩⟩
  · simp
  · exact known.extend (by simp)

end Events

section Rules

variable {σ α : Type} {device : TisDevice σ} {start : List Event}
  {keep still : Prop} {allowed : Event → Prop} {pre mid post stop : List Event → Prop}

/-- A property of the events that quiet ones do not change. -/
def Settled (holds : List Event → Prop) : Prop :=
  ∀ events more, holds events → (∀ event ∈ more, event.Quiet) → holds (events ++ more)

theorem Recorded.weaken {m : Machine σ} (recorded : Recorded start pre m)
    (weaker : ∀ events, pre events → post events) : Recorded start post m := by
  obtain ⟨events, log, known⟩ := recorded
  exact ⟨events, log, weaker events known⟩

theorem quiet_ends {program : Boot σ α} (settled : Settled pre)
    (weaker : ∀ events, pre events → stop events)
    (respects : Respects False False Event.Quiet program) :
    Prog.Ends (Recorded start pre) program (fun _ => Recorded start pre)
      (Recorded start stop) :=
  Prog.Ends.mono (respects.recorded settled) (fun _ known => known) (fun _ _ known => known)
    fun _ known => known.weaken weaker

theorem transmit_respects_sent {ordinalIn paramSizeIn : UInt32}
    {uses : List (UInt32 × Block 20)} (sent : ∀ frame, allowed (.sent ordinalIn uses frame)) :
    Respects keep still allowed (transmit device ordinalIn paramSizeIn uses) := by
  refine packFinish_respects.bind fun _ => assert_respects.bind fun _ => ?_
  refine Respects.get.bind fun m => (emit_respects (sent _)).bind fun _ => ?_
  exact tisTransmit_respects

theorem plainCommand_respects_sent {ordinalIn paramSizeIn : UInt32}
    {uses : List (UInt32 × Block 20)} {request : Boot σ Unit} {initial : α}
    {response : Boot σ (Result α)} (sent : ∀ frame, allowed (.sent ordinalIn uses frame))
    (requestRespects : Respects keep still allowed request)
    (responseRespects : Respects keep still allowed response) :
    Respects keep still allowed
      (plainCommand device ordinalIn paramSizeIn uses request initial response) := by
  refine Respects.bind ?_ fun ret => Respects.ite (Respects.ret _)
    (plainResponse_respects responseRespects)
  refine (marshalHeader_respects _ _).bind fun _ => (marshalBytes_respects _ _ _).bind fun _ => ?_
  exact requestRespects.bind fun _ => transmit_respects_sent sent

/-- The log entries around the body of a command are quiet. -/
theorem command_quiet {ordinal : UInt32} {body : Boot σ (Result α)}
    (respects : Respects keep still Event.Quiet body) :
    Respects keep still Event.Quiet (command ordinal body) :=
  (emit_respects trivial).bind fun _ => respects.bind fun _ =>
    (emit_respects trivial).bind fun _ => Respects.ret _

theorem tpmPCRRead_quiet (pcrIndexIn : UInt32) :
    Respects keep still Event.Quiet (tpmPCRRead device pcrIndexIn) := by
  refine command_quiet (plainCommand_respects_sent (fun _ => ⟨rfl, by decide⟩)
    (marshalBytes_respects _ _ _) ?_)
  exact (unmarshalObject_respects _ _ _).bind fun _ => Respects.ret _

/-- The part of `TPM_GetRandom` in front of its last log entry. -/
theorem randomCommand_quiet (buffer : List UInt8) (bytesRequestedIn : UInt32) :
    Respects keep still Event.Quiet (command ordGetRandom <|
      plainCommand device ordGetRandom (2 + 4 + 4 + 4) []
        (marshalUINT32 bytesRequestedIn .given .null) buffer
        (do
          let randomBytesSizeOut ← unmarshalUINT32 0 .given .null
          if bytesRequestedIn ≠ randomBytesSizeOut then
            return .error .tpmBadOutputParam buffer
          let bytes ← unmarshalArray (some buffer) randomBytesSizeOut .given .null
          return .ok (bytes.getD []))) := by
  refine command_quiet (plainCommand_respects_sent (fun _ => ⟨rfl, by decide⟩)
    (marshalBytes_respects _ _ _) ?_)
  refine (unmarshalUINT32_respects _ _ _).bind fun _ => Respects.ite (Respects.ret _) ?_
  exact (unmarshalArray_respects _ _ _ _).bind fun _ => Respects.ret _

theorem nvRead_quiet (nvIndexIn offsetIn dataSizeIn : UInt32) :
    Respects False False Event.Quiet
      (tpmNvReadValue device nvIndexIn offsetIn dataSizeIn none none) := by
  have request (ownerAuth : Block 20) : Respects False False Event.Quiet
      (nvReadRequest device nvIndexIn offsetIn dataSizeIn ownerAuth 0) := by
    refine sha1InitLocal_respects.bind fun _ => (marshalHeader_respects _ _).bind fun _ => ?_
    refine (marshalBytes_respects _ _ _).bind fun _ => (marshalBytes_respects _ _ _).bind
      fun _ => (marshalBytes_respects _ _ _).bind fun _ => ?_
    refine (marshalBytes_respects _ _ _).bind fun _ => sha1FinishLocal_respects.bind fun _ => ?_
    rw [if_pos rfl]
    exact transmit_respects_sent fun _ => ⟨rfl, by decide⟩
  have response (ownerAuth : Block 20) : Respects False False Event.Quiet
      (nvReadResponse ownerAuth none 0 : Boot σ (Result HeapData)) :=
    nvReadResponse_respects _ _ _
  rw [tpmNvReadValue, show (optionalSession none : Boot σ UInt32) = pure 0 from rfl, pure_bind]
  refine command_quiet (assert_respects.bind fun _ => (request _).bind fun ret => ?_)
  exact Respects.ite (Respects.ret _) (response _)

/-- The session objects and the slots with pointers to them. -/
abbrev Sessions :=
  (UInt32 → TpmSession) × (SessionSlot → UInt32)

def Machine.allSessions (m : Machine σ) : Sessions :=
  (m.sessionAt, m.sessions)

/-- A property of the events recorded so far that refers to the sessions. -/
def Ledger (start : List Event) (holds : Sessions → List Event → Prop) (m : Machine σ) : Prop :=
  Recorded start (holds m.allSessions) m

variable {before after : Sessions → List Event → Prop}

theorem kept_ends {program : Boot σ α} (settled : ∀ sessions, Settled (before sessions))
    (weaker : ∀ sessions events, before sessions events → stop events)
    (respects : Respects True False Event.Quiet program) :
    Prog.Ends (Ledger start before) program (fun _ => Ledger start before)
      (Recorded start stop) := by
  have kept : Prog.Ends (Ledger start before) program (fun _ => Ledger start before)
      (Ledger start before) := by
    refine Prog.Steps.ends respects ?_
    rintro m reached ⟨events, log, known⟩ evolves
    obtain ⟨more, appended, quiet⟩ := evolves.log
    obtain ⟨objects, slots⟩ := evolves.sessions trivial
    have same : reached.allSessions = m.allSessions := Prod.ext objects slots
    refine ⟨events ++ more, ?_, ?_⟩
    · rw [appended, log, List.append_assoc]
    · rw [same]
      exact settled _ events more known quiet
  exact Prog.Ends.mono kept (fun _ known => known) (fun _ _ known => known)
    fun _ known => Recorded.weaken known (weaker _)

/-- A nonce is drawn and recorded; a failed `TPM_GetRandom` gives one as well. -/
theorem getNonce_ends {drawn : Error → Block 20 → Sessions → List Event → Prop}
    (settled : ∀ sessions, Settled (before sessions))
    (weaker : ∀ sessions events, before sessions events → stop events)
    (random : ∀ sessions events exception bytes, before sessions events →
      drawn exception (Block.ofList 20 bytes) sessions (events ++ [.random exception bytes])) :
    Prog.Ends (Ledger start before) (getNonce device)
      (fun ret => Ledger start (drawn ret.exception ret.value)) (Recorded start stop) := by
  have draw : Prog.Ends (Ledger start before) (tpmGetRandom device (List.replicate 20 0) 20)
      (fun ret => Ledger start (drawn ret.exception (Block.ofList 20 ret.value)))
      (Recorded start stop) := by
    refine Prog.Ends.bind (kept_ends settled weaker (randomCommand_quiet _ _)) fun ret => ?_
    have recorded : Prog.Ends (Ledger start before)
        (emit (.random ret.exception ret.value) : Boot σ Unit)
        (fun _ => Ledger start (drawn ret.exception (Block.ofList 20 ret.value)))
        (Recorded start stop) := by
      rintro m ⟨events, log, known⟩
      refine ⟨events ++ [.random ret.exception ret.value], ?_, random _ events _ _ known⟩
      change m.log ++ [_] = _
      rw [log, List.append_assoc]
    exact recorded.bind fun _ => Prog.Ends.ret fun _ known => known
  refine draw.bind fun ret => Prog.Ends.ite (fun _ => ?_) fun success => ?_
  · exact Prog.Ends.ret fun _ known => known
  · refine Prog.Ends.ret fun _ known => ?_
    rw [Decidable.of_not_not success] at known
    exact known

theorem emit_ledger {event : Event}
    (appended : ∀ sessions events, before sessions events →
      after sessions (events ++ [event])) :
    Prog.Ends (Ledger start before) (emit event : Boot σ Unit) (fun _ => Ledger start after)
      (Recorded start stop) := by
  rintro m ⟨events, log, known⟩
  refine ⟨events ++ [event], ?_, appended _ events known⟩
  change m.log ++ [event] = _
  rw [log, List.append_assoc]

/-- A frame that is handed to the TPM is recorded. -/
theorem transmit_ends {ordinalIn paramSizeIn : UInt32} {uses : List (UInt32 × Block 20)}
    (settled : Settled pre) (settledNext : Settled mid)
    (weaker : ∀ events, pre events → stop events) (weakerNext : ∀ events, mid events → stop events)
    (sent : ∀ events frame, pre events → mid (events ++ [.sent ordinalIn uses frame])) :
    Prog.Ends (Recorded start pre) (transmit device ordinalIn paramSizeIn uses)
      (fun _ => Recorded start mid) (Recorded start stop) := by
  refine Prog.Ends.bind (quiet_ends settled weaker packFinish_respects) fun _ => ?_
  refine Prog.Ends.bind (quiet_ends settled weaker assert_respects) fun _ => ?_
  refine Prog.Ends.bind (quiet_ends settled weaker Respects.get) fun m => ?_
  refine Prog.Ends.bind (emit_recorded fun events known => sent events _ known) fun _ => ?_
  exact quiet_ends settledNext weakerNext tisTransmit_respects

section Opening

variable {slot : SessionSlot} {opened : UInt32 → List Event → Prop}

/-- What a command that opens a session leaves behind; the pointer to the new session is in
the slot. -/
def Opens (start : List Event) (slot : SessionSlot) (opened : UInt32 → List Event → Prop)
    (stop : List Event → Prop) (ret : Result α) (m : Machine σ) : Prop :=
  (ret.exception = .none → Ledger start (fun sessions => opened (sessions.2 slot)) m) ∧
    Recorded start stop m

theorem updateSession_ledger (s : UInt32) (update : TpmSession → TpmSession)
    (weaker : ∀ s events, opened s events → stop events) :
    Prog.Ends (Ledger start fun sessions => opened (sessions.2 slot))
      (updateSession s update : Boot σ Unit)
      (fun _ => Ledger start fun sessions => opened (sessions.2 slot)) (Recorded start stop) :=
  Prog.Ends.ite (fun _ _ known => Recorded.weaken known (weaker _)) fun _ _ known => known

variable (settled : Settled pre) (settledOpened : ∀ s, Settled (opened s))
  (settledStop : Settled stop) (weaker : ∀ events, pre events → stop events)
  (weakerOpened : ∀ s events, opened s events → stop events)

include settled weaker in
theorem openSession_ends {nonceOddOSAP : Option (Block 20)} {next : UInt32 → Boot σ α}
    {final : α → Machine σ → Prop}
    (opens : ∀ s events, pre events → opened s (events ++ [.opened s nonceOddOSAP]))
    (rest : ∀ s, Prog.Ends (Ledger start fun sessions => opened (sessions.2 slot)) (next s)
      final (Recorded start stop)) :
    Prog.Ends (Recorded start pre)
      (do
        let s ← allocSession
        setSlot slot s
        emit (.opened s nonceOddOSAP)
        next s) final (Recorded start stop) := by
  refine Prog.Ends.bind (quiet_ends settled weaker allocSession_respects) fun s => ?_
  have stored : Prog.Ends (Recorded start pre) (setSlot slot s : Boot σ Unit)
      (fun _ => Ledger start fun sessions events => sessions.2 slot = s ∧ pre events)
      (Recorded start stop) := by
    rintro m ⟨events, log, known⟩
    exact ⟨events, log, Function.update_self .., known⟩
  refine stored.bind fun _ => Prog.Ends.bind (emit_ledger ?_) fun _ => rest s
  rintro sessions events ⟨same, known⟩
  rw [same]
  exact opens s events known

include settledOpened weakerOpened in
theorem slot_ends {program : Boot σ α} (respects : Respects True False Event.Quiet program) :
    Prog.Ends (Ledger start fun sessions => opened (sessions.2 slot)) program
      (fun _ => Ledger start fun sessions => opened (sessions.2 slot)) (Recorded start stop) :=
  kept_ends (fun sessions => settledOpened (sessions.2 slot))
    (fun sessions => weakerOpened (sessions.2 slot)) respects

include settled settledOpened weaker weakerOpened

theorem unmarshalOIAP_opens
    (opens : ∀ s events, pre events → opened s (events ++ [.opened s none])) :
    Prog.Ends (Recorded start pre) (unmarshalOIAP slot : Boot σ (Result Unit))
      (fun _ => Ledger start fun sessions => opened (sessions.2 slot)) (Recorded start stop) := by
  refine openSession_ends settled weaker opens fun s => ?_
  refine Prog.Ends.bind (slot_ends settledOpened weakerOpened assert_respects) fun _ => ?_
  refine Prog.Ends.bind (slot_ends settledOpened weakerOpened
    (unmarshalUINT32_respects _ _ _)) fun _ => ?_
  refine Prog.Ends.bind (slot_ends settledOpened weakerOpened
    (unmarshalObject_respects _ _ _)) fun _ => ?_
  refine Prog.Ends.bind (updateSession_ledger _ _ weakerOpened) fun _ => ?_
  exact Prog.Ends.ret fun _ known => known

theorem unmarshalOSAP_opens {nonceOddOSAP : Block 20}
    (opens : ∀ s events, pre events → opened s (events ++ [.opened s (some nonceOddOSAP)])) :
    Prog.Ends (Recorded start pre) (unmarshalOSAP nonceOddOSAP slot : Boot σ (Result UInt32))
      (fun _ => Ledger start fun sessions => opened (sessions.2 slot)) (Recorded start stop) := by
  refine openSession_ends settled weaker opens fun s => ?_
  refine Prog.Ends.bind (slot_ends settledOpened weakerOpened allocOsap_respects) fun osap => ?_
  refine Prog.Ends.bind (updateSession_ledger _ _ weakerOpened) fun _ => ?_
  refine Prog.Ends.bind (slot_ends settledOpened weakerOpened
    (unmarshalUINT32_respects _ _ _)) fun _ => ?_
  refine Prog.Ends.bind (slot_ends settledOpened weakerOpened
    (unmarshalObject_respects _ _ _)) fun _ => ?_
  refine Prog.Ends.bind (updateSession_ledger _ _ weakerOpened) fun _ => ?_
  refine slot_ends settledOpened weakerOpened (Respects.ite ?_ ?_)
  · exact (unmarshalArray_respects _ _ _ _).bind fun _ => Respects.ret _
  · exact (unmarshalObject_respects _ _ _).bind fun _ => (updateOsap_respects _ _).bind
      fun _ => Respects.ret _

/-- A command without authorisation whose response opens a session. -/
theorem plainCommand_opens {ordinalIn paramSizeIn : UInt32} {uses : List (UInt32 × Block 20)}
    {request : Boot σ Unit} {initial : α} {response : Boot σ (Result α)}
    (settledMid : Settled mid) (weakerMid : ∀ events, mid events → stop events)
    (sent : ∀ events frame, pre events → mid (events ++ [.sent ordinalIn uses frame]))
    (respects : Respects False False Event.Quiet request)
    (opens : Prog.Ends (Recorded start mid) response
      (fun _ => Ledger start fun sessions => opened (sessions.2 slot)) (Recorded start stop)) :
    Prog.Ends (Recorded start pre)
      (plainCommand device ordinalIn paramSizeIn uses request initial response)
      (Opens start slot opened stop) (Recorded start stop) := by
  have requested : Prog.Ends (Recorded start pre)
      (plainRequest device ordinalIn paramSizeIn uses request) (fun _ => Recorded start mid)
      (Recorded start stop) := by
    refine Prog.Ends.bind (quiet_ends settled weaker (marshalHeader_respects _ _)) fun _ => ?_
    refine Prog.Ends.bind (quiet_ends settled weaker (marshalBytes_respects _ _ _)) fun _ => ?_
    refine Prog.Ends.bind (quiet_ends settled weaker respects) fun _ => ?_
    exact transmit_ends settled settledMid weaker weakerMid sent
  refine requested.bind fun ret => Prog.Ends.ite (fun failed => ?_) fun _ => ?_
  · exact Prog.Ends.ret fun _ known =>
      ⟨fun success => (failed success).elim, known.weaken weakerMid⟩
  refine Prog.Ends.bind (quiet_ends settledMid weakerMid (unmarshalHeader_respects _))
    fun header => Prog.Ends.ite (fun _ => ?_) fun _ => opens.bind fun ret => ?_
  · exact Prog.Ends.ret fun _ known => ⟨nofun, known.weaken weakerMid⟩
  have done (result : Result α) (m : Machine σ)
      (known : Ledger start (fun sessions => opened (sessions.2 slot)) m) :
      Opens start slot opened stop result m :=
    ⟨fun _ => known, Recorded.weaken known (weakerOpened _)⟩
  refine Prog.Ends.ite (fun _ => Prog.Ends.ret (done ret)) fun _ => ?_
  refine Prog.Ends.bind (slot_ends settledOpened weakerOpened unpackFinish_respects) fun _ => ?_
  refine Prog.Ends.ite (fun _ => Prog.Ends.ret (done _)) fun _ => ?_
  exact Prog.Ends.ite (fun _ => Prog.Ends.ret (done _)) fun _ => Prog.Ends.ret (done _)

include settledStop

omit weakerOpened in
theorem command_opens {ordinal : UInt32} {body : Boot σ (Result α)}
    (opens : Prog.Ends (Recorded start pre) body (Opens start slot opened stop)
      (Recorded start stop)) :
    Prog.Ends (Recorded start pre) (command ordinal body) (Opens start slot opened stop)
      (Recorded start stop) := by
  have issued : Respects False False Event.Quiet (emit (.issued ordinal) : Boot σ Unit) :=
    emit_respects trivial
  refine Prog.Ends.bind (quiet_ends settled weaker issued) fun _ => opens.bind fun ret => ?_
  have finished : Prog.Ends (Opens start slot opened stop ret)
      (emit (.finished ordinal ret.exception) : Boot σ Unit)
      (fun _ => Opens start slot opened stop ret) (Recorded start stop) := by
    rintro m ⟨open_, events, log, known⟩
    have quiet : ∀ event ∈ [Event.finished ordinal ret.exception], event.Quiet := by
      simp [Event.Quiet]
    refine ⟨fun success => ?_, events ++ [_], ?_, settledStop events _ known quiet⟩
    · obtain ⟨openEvents, openLog, openKnown⟩ := open_ success
      refine ⟨openEvents ++ [_], ?_, settledOpened _ openEvents _ openKnown quiet⟩
      change m.log ++ [_] = _
      rw [openLog, List.append_assoc]
    · change m.log ++ [_] = _
      rw [log, List.append_assoc]
  exact finished.bind fun _ => Prog.Ends.ret fun _ known => known

theorem tpmOIAP_opens (opens : ∀ s events, pre events → opened s (events ++ [.opened s none])) :
    Prog.Ends (Recorded start pre) (tpmOIAP device slot) (Opens start slot opened stop)
      (Recorded start stop) := by
  refine command_opens settled settledOpened settledStop weaker ?_
  refine plainCommand_opens settled settledOpened weaker weakerOpened settled weaker ?_
    (Respects.ret _) (unmarshalOIAP_opens settled settledOpened weaker weakerOpened opens)
  exact fun events frame known => settled events _ known (by simp [Event.Quiet]; decide)

theorem tpmOSAP_opens {entityTypeIn : UInt16} {entityValueIn : UInt32} {nonceOddOSAP : Block 20}
    (settledMid : Settled mid) (weakerMid : ∀ events, mid events → stop events)
    (sent : ∀ events frame, pre events →
      mid (events ++ [.sent ordOSAP [(0, nonceOddOSAP)] frame]))
    (opens : ∀ s events, mid events → opened s (events ++ [.opened s (some nonceOddOSAP)])) :
    Prog.Ends (Recorded start pre)
      (tpmOSAP device entityTypeIn entityValueIn nonceOddOSAP slot)
      (Opens start slot opened stop) (Recorded start stop) := by
  refine command_opens settled settledOpened settledStop weaker ?_
  refine Prog.Ends.bind (plainCommand_opens settled settledOpened weaker weakerOpened settledMid
    weakerMid sent ?_ (unmarshalOSAP_opens settledMid settledOpened weakerMid weakerOpened
      opens)) fun ret => ?_
  · exact (marshalBytes_respects _ _ _).bind fun _ => (marshalBytes_respects _ _ _).bind
      fun _ => marshalBytes_respects _ _ _
  · refine Prog.Ends.ite (fun failed => ?_) fun success => ?_
    · exact Prog.Ends.ret fun _ known => ⟨fun success => (failed success).elim, known.2⟩
    · have known := Decidable.of_not_not success
      refine Prog.Ends.bind (Prog.Ends.mono (slot_ends settledOpened weakerOpened
        (updateOsap_respects _ _)) (fun _ holds => holds.1 known) (fun _ _ holds => holds)
        fun _ holds => holds) fun _ => Prog.Ends.ret fun _ holds => ?_
      exact ⟨fun _ => holds, Recorded.weaken holds (weakerOpened _)⟩

end Opening

end Rules

section Configuration

variable {σ α : Type} {device : TisDevice σ} {start : List Event}

theorem nonceFresh_settled : Settled NonceFresh :=
  fun _ _ fresh quiet => fresh.append_quiet quiet

theorem opened_settled (s : UInt32) : Settled (Opened s) :=
  fun _ _ opened quiet => opened.append_quiet quiet

theorem available_settled (ordinal s : UInt32) (nonce : Block 20) :
    Settled (Available ordinal s nonce) :=
  fun _ _ available quiet => available.append_quiet quiet

/-- The session object behind the pointer holds a nonce for the next command. -/
def Armed (ordinal s : UInt32) (sessions : Sessions) : List Event → Prop :=
  Available ordinal s (sessions.1 s).nonceOdd

/-- A program that opens no session and draws and uses no nonce. -/
theorem fresh_ends {program : Boot σ α} (respects : Respects False False Event.Quiet program) :
    Prog.Ends (Recorded start NonceFresh) program (fun _ => Recorded start NonceFresh)
      (Recorded start NonceFresh) :=
  quiet_ends nonceFresh_settled (fun _ fresh => fresh) respects

theorem armed_ends {ordinal : UInt32} {pointer : Sessions → UInt32} {program : Boot σ α}
    (respects : Respects True False Event.Quiet program) :
    Prog.Ends (Ledger start fun sessions => Armed ordinal (pointer sessions) sessions) program
      (fun _ => Ledger start fun sessions => Armed ordinal (pointer sessions) sessions)
      (Recorded start NonceFresh) :=
  kept_ends (fun _ => available_settled _ _ _) (fun _ _ armed => armed.fresh) respects

/-- The end of an authorised request. -/
theorem authorise_ends {ordinal paramSizeIn s : UInt32} :
    Prog.Ends (Ledger start (Armed ordinal s))
      (do
        let used ← authUse s
        transmit device ordinal paramSizeIn [used])
      (fun _ => Recorded start NonceFresh) (Recorded start NonceFresh) := by
  have use : Prog.Ends (Ledger start (Armed ordinal s)) (authUse s : Boot σ _)
      (fun used => Recorded start (Available ordinal used.1 used.2))
      (Recorded start NonceFresh) := by
    refine Prog.Ends.bind ?_ fun session => Prog.Ends.ret fun _ known => known
    refine Prog.Ends.ite (fun _ _ known => ?_) fun _ _ known => known
    exact Recorded.weaken known fun _ armed => armed.fresh
  refine use.bind fun used => ?_
  exact transmit_ends (available_settled _ _ _) nonceFresh_settled
    (fun _ available => available.fresh) (fun _ fresh => fresh)
    fun events frame available => available.append_sent frame

theorem sealRequest_fresh (keyHandleIn : UInt32) (encAuthIn : Block 20)
    (pcrInfoIn : TpmPcrInfoLong) (inDataIn inDataSizeIn s : UInt32) (sharedSecret : Block 20) :
    Prog.Ends (Ledger start (Armed ordSeal s))
      (sealRequest device keyHandleIn encAuthIn pcrInfoIn inDataIn inDataSizeIn s sharedSecret)
      (fun _ => Recorded start NonceFresh) (Recorded start NonceFresh) := by
  refine Prog.Ends.bind (armed_ends sha1InitLocal_respects) fun _ => ?_
  refine Prog.Ends.bind (armed_ends (marshalHeader_respects _ _)) fun _ => ?_
  refine Prog.Ends.bind (armed_ends (marshalBytes_respects _ _ _)) fun _ => ?_
  refine Prog.Ends.bind (armed_ends (marshalBytes_respects _ _ _)) fun _ => ?_
  refine Prog.Ends.bind (armed_ends (marshalBytes_respects _ _ _)) fun _ => ?_
  refine Prog.Ends.bind (armed_ends (marshalBytes_respects _ _ _)) fun _ => ?_
  refine Prog.Ends.bind (armed_ends (marshalPcrInfoLong_respects _ _ _)) fun _ => ?_
  refine Prog.Ends.bind (armed_ends (marshalBytes_respects _ _ _)) fun _ => ?_
  refine Prog.Ends.bind (armed_ends (marshalArray_respects _ _ _ _)) fun _ => ?_
  refine Prog.Ends.bind (armed_ends sha1FinishLocal_respects) fun _ => ?_
  refine Prog.Ends.bind (armed_ends (marshalAuth_respects _ _)) fun _ => ?_
  exact authorise_ends

theorem nvWriteRequest_fresh (dataIn dataSizeIn nvIndexIn offsetIn : UInt32)
    (nvAuth : Block 20) (s : UInt32) :
    Prog.Ends (Ledger start (Armed ordNvWriteValueAuth s))
      (nvWriteRequest device dataIn dataSizeIn nvIndexIn offsetIn nvAuth s)
      (fun _ => Recorded start NonceFresh) (Recorded start NonceFresh) := by
  refine Prog.Ends.bind (armed_ends sha1InitLocal_respects) fun _ => ?_
  refine Prog.Ends.bind (armed_ends (marshalHeader_respects _ _)) fun _ => ?_
  refine Prog.Ends.bind (armed_ends (marshalBytes_respects _ _ _)) fun _ => ?_
  refine Prog.Ends.bind (armed_ends (marshalBytes_respects _ _ _)) fun _ => ?_
  refine Prog.Ends.bind (armed_ends (marshalBytes_respects _ _ _)) fun _ => ?_
  refine Prog.Ends.bind (armed_ends (marshalBytes_respects _ _ _)) fun _ => ?_
  refine Prog.Ends.bind (armed_ends (marshalArray_respects _ _ _ _)) fun _ => ?_
  refine Prog.Ends.bind (armed_ends sha1FinishLocal_respects) fun _ => ?_
  refine Prog.Ends.bind (armed_ends (marshalAuth_respects _ _)) fun _ => ?_
  exact authorise_ends

/-- The session of an authorised command is the one in its slot. -/
theorem getSlot_armed {ordinal : UInt32} (slot : SessionSlot) :
    Prog.Ends (Ledger start fun sessions => Armed ordinal (sessions.2 slot) sessions)
      (getSlot slot : Boot σ UInt32) (fun s => Ledger start (Armed ordinal s))
      (Recorded start NonceFresh) :=
  fun _ known => known

/-- The log entries around an authorised command. -/
theorem command_fresh {ordinal : UInt32} {slot : SessionSlot} {body : Boot σ (Result α)}
    (fresh : Prog.Ends
      (Ledger start fun sessions => Armed ordinal (sessions.2 slot) sessions) body
      (fun _ => Recorded start NonceFresh) (Recorded start NonceFresh)) :
    Prog.Ends (Ledger start fun sessions => Armed ordinal (sessions.2 slot) sessions)
      (command ordinal body) (fun _ => Recorded start NonceFresh)
      (Recorded start NonceFresh) := by
  have issued : Respects True False Event.Quiet (emit (.issued ordinal) : Boot σ Unit) :=
    emit_respects trivial
  refine Prog.Ends.bind (armed_ends issued) fun _ => fresh.bind fun ret => ?_
  exact fresh_ends ((emit_respects trivial).bind fun _ => Respects.ret _)

theorem tpmSeal_fresh (keyHandleIn : UInt32) (encAuthIn : Block 20)
    (pcrInfoIn : TpmPcrInfoLong) (inDataIn inDataSizeIn : UInt32) (slot : SessionSlot)
    (sharedSecret : Block 20) :
    Prog.Ends (Ledger start fun sessions => Armed ordSeal (sessions.2 slot) sessions)
      (tpmSeal device keyHandleIn encAuthIn pcrInfoIn inDataIn inDataSizeIn slot sharedSecret)
      (fun _ => Recorded start NonceFresh) (Recorded start NonceFresh) := by
  refine command_fresh (Prog.Ends.bind (getSlot_armed slot) fun s => ?_)
  refine Prog.Ends.bind (sealRequest_fresh _ _ _ _ _ _ _) fun ret => ?_
  exact fresh_ends (Respects.ite (Respects.ret _) (sealResponse_respects _ _ _))

theorem tpmNvWriteValueAuth_fresh (dataIn dataSizeIn nvIndexIn offsetIn : UInt32)
    (nvAuth : Block 20) (slot : SessionSlot) :
    Prog.Ends
      (Ledger start fun sessions => Armed ordNvWriteValueAuth (sessions.2 slot) sessions)
      (tpmNvWriteValueAuth device dataIn dataSizeIn nvIndexIn offsetIn nvAuth slot)
      (fun _ => Recorded start NonceFresh) (Recorded start NonceFresh) := by
  refine command_fresh (Prog.Ends.bind (getSlot_armed slot) fun s => ?_)
  refine Prog.Ends.bind (nvWriteRequest_fresh _ _ _ _ _ _) fun ret => ?_
  exact fresh_ends (Respects.ite (Respects.ret _) (nvWriteResponse_respects _ _ _))

/-- An update of the session in a slot. -/
theorem updateSlot_ends {before after : Sessions → List Event → Prop} {slot : SessionSlot}
    {update : TpmSession → TpmSession}
    (weaker : ∀ sessions events, before sessions events → NonceFresh events)
    (updated : ∀ sessions s events, sessions.2 slot = s → before sessions events →
      after (Function.update sessions.1 s (update (sessions.1 s)), sessions.2) events) :
    Prog.Ends (Ledger start before) (getSlot slot >>= fun s => updateSession s update : Boot σ Unit)
      (fun _ => Ledger start after) (Recorded start NonceFresh) := by
  have slotRead : Prog.Ends (Ledger start before) (getSlot slot : Boot σ UInt32)
      (fun s => Ledger start fun sessions events => sessions.2 slot = s ∧ before sessions events)
      (Recorded start NonceFresh) := by
    rintro m ⟨events, log, known⟩
    exact ⟨events, log, rfl, known⟩
  refine slotRead.bind fun s => Prog.Ends.ite (fun _ m known => ?_) fun _ m known => ?_
  · exact Recorded.weaken known fun events holds => weaker _ events holds.2
  · obtain ⟨events, log, same, holds⟩ := known
    exact ⟨events, log, updated m.allSessions s events same holds⟩

/-- A session that was just opened gets its nonce and is to end after the command. -/
theorem armSession_ends (ordinal : UInt32) {slot : SessionSlot} {next : Boot σ (Result α)}
    {failed : Result (Block 20) → Result α}
    (rest : Prog.Ends (Ledger start fun sessions => Armed ordinal (sessions.2 slot) sessions)
      next (fun _ => Recorded start NonceFresh) (Recorded start NonceFresh)) :
    Prog.Ends (Ledger start fun sessions => Opened (sessions.2 slot))
      (do
        let nonceOdd ← getNonce device
        if nonceOdd.exception ≠ .none then return failed nonceOdd
        setNonceOdd slot nonceOdd.value
        endAfterCommand slot
        next)
      (fun _ => Recorded start NonceFresh) (Recorded start NonceFresh) := by
  have nonce : Prog.Ends (Ledger start fun sessions => Opened (sessions.2 slot))
      (getNonce device)
      (fun ret => Ledger start fun sessions events => NonceFresh events ∧
        (ret.exception = .none → Available ordinal (sessions.2 slot) ret.value events))
      (Recorded start NonceFresh) := by
    refine @getNonce_ends σ device start NonceFresh (fun sessions => Opened (sessions.2 slot))
      (fun exception nonce sessions events => NonceFresh events ∧
        (exception = .none → Available ordinal (sessions.2 slot) nonce events))
      (fun _ => opened_settled _) (fun _ _ opened => opened.1) ?_
    intro sessions events exception bytes opened
    refine ⟨opened.1.append_bare (by simp [Event.Bare]), ?_⟩
    rintro rfl
    exact opened.append_random bytes
  refine nonce.bind fun ret => Prog.Ends.ite (fun _ => ?_) fun success => ?_
  · exact Prog.Ends.ret fun _ known => Recorded.weaken known fun _ holds => holds.1
  have success := Decidable.of_not_not success
  have set : Prog.Ends
      (Ledger start fun sessions => Available ordinal (sessions.2 slot) ret.value)
      (setNonceOdd slot ret.value : Boot σ Unit)
      (fun _ => Ledger start fun sessions => Armed ordinal (sessions.2 slot) sessions)
      (Recorded start NonceFresh) := by
    refine updateSlot_ends (fun _ _ available => available.fresh) ?_
    intro sessions s events same available
    rw [Armed, same]
    dsimp only
    rw [Function.update_self, ← same]
    exact available
  have ending : Prog.Ends
      (Ledger start fun sessions => Armed ordinal (sessions.2 slot) sessions)
      (endAfterCommand slot : Boot σ Unit)
      (fun _ => Ledger start fun sessions => Armed ordinal (sessions.2 slot) sessions)
      (Recorded start NonceFresh) := by
    refine updateSlot_ends (fun _ _ armed => armed.fresh) ?_
    intro sessions s events same armed
    rw [Armed, same]
    dsimp only
    rw [Function.update_self, ← same]
    exact armed
  refine Prog.Ends.mono (set.bind fun _ => ending.bind fun _ => rest) ?_
    (fun _ _ known => known) fun _ known => known
  exact fun _ known => Recorded.weaken known fun _ holds => holds.2 success

theorem getPcrInfo_quiet : Respects True False Event.Quiet (getPcrInfo device) := by
  refine (allocHeap_respects _).bind fun _ => (allocHeap_respects _).bind fun _ => ?_
  refine (storeBytes_respects _ _ _).bind fun _ => (storeBytes_respects _ _ _).bind fun _ => ?_
  refine (storeBytes_respects _ _ _).bind fun _ => (tpmPCRRead_quiet 18).bind fun _ => ?_
  refine Respects.ite (Respects.ret _) ((storeBytes_respects _ _ _).bind fun _ => ?_)
  refine (tpmPCRRead_quiet 19).bind fun _ => Respects.ite (Respects.ret _) ?_
  refine (storeBytes_respects _ _ _).bind fun _ => ?_
  exact (getTpmCompositeHash_respects _).bind fun _ => Respects.ret _

theorem sealPassphrase_fresh (srkAuth ppAuth : Block 20) (passphrase lenPassphrase : UInt32) :
    Prog.Ends (Recorded start NonceFresh)
      (sealPassphrase device srkAuth ppAuth passphrase lenPassphrase)
      (fun _ => Recorded start NonceFresh) (Recorded start NonceFresh) := by
  have nonce : Prog.Ends (Recorded start NonceFresh) (getNonce device)
      (fun ret => Recorded start (Available ordOSAP 0 ret.value)) (Recorded start NonceFresh) :=
    @getNonce_ends σ device start NonceFresh (fun _ => NonceFresh)
      (fun _ nonce _ => Available ordOSAP 0 nonce) (fun _ => nonceFresh_settled)
      (fun _ _ fresh => fresh) fun _ _ exception bytes fresh =>
        fresh.append_random (by decide) exception bytes
  refine nonce.bind fun nonceOddOSAP => Prog.Ends.ite (fun _ => ?_) fun _ => ?_
  · exact Prog.Ends.ret fun _ known => known.weaken fun _ available => available.fresh
  refine Prog.Ends.bind (tpmOSAP_opens (available_settled _ _ _) opened_settled
    nonceFresh_settled (fun _ available => available.fresh) (fun _ _ opened => opened.1)
    nonceFresh_settled (fun _ fresh => fresh)
    (fun _ frame available => available.append_sent frame)
    fun s _ fresh => fresh.append_opened s _) fun osapRet => ?_
  refine Prog.Ends.ite (fun _ => Prog.Ends.ret fun _ known => known.2) fun success => ?_
  refine Prog.Ends.mono (armSession_ends ordSeal ?_)
    (fun _ known => known.1 (Decidable.of_not_not success)) (fun _ _ known => known)
    fun _ known => known
  refine Prog.Ends.bind (armed_ends (sessionSecret_respects _)) fun sharedSecret => ?_
  refine Prog.Ends.bind (armed_ends (getSlot_respects _)) fun s => ?_
  refine Prog.Ends.bind (armed_ends (loadSession_respects _)) fun session => ?_
  refine Prog.Ends.bind (armed_ends getPcrInfo_quiet) fun pcrInfo => ?_
  refine Prog.Ends.ite (fun _ => Prog.Ends.ret fun _ known => ?_) fun _ => ?_
  · exact Recorded.weaken known fun _ armed => armed.fresh
  · exact tpmSeal_fresh _ _ _ _ _ _ _

theorem writePassphrase_fresh (nvAuth : Block 20) (sealedData : TpmStoredData12)
    (index size : UInt32) :
    Prog.Ends (Recorded start NonceFresh) (writePassphrase device nvAuth sealedData index size)
      (fun _ => Recorded start NonceFresh) (Recorded start NonceFresh) := by
  refine Prog.Ends.bind (tpmOIAP_opens nonceFresh_settled opened_settled nonceFresh_settled
    (fun _ fresh => fresh) (fun _ _ opened => opened.1)
    fun s _ fresh => fresh.append_opened s none) fun oiapRet => ?_
  refine Prog.Ends.ite (fun _ => Prog.Ends.ret fun _ known => known.2) fun success => ?_
  refine Prog.Ends.mono (armSession_ends ordNvWriteValueAuth ?_)
    (fun _ known => known.1 (Decidable.of_not_not success)) (fun _ _ known => known)
    fun _ known => known
  refine Prog.Ends.bind (armed_ends (extractStoredData12_respects _)) fun x => ?_
  exact tpmNvWriteValueAuth_fresh _ _ _ _ _ _

theorem configure_fresh (index size : UInt32) :
    Prog.Ends (Recorded start NonceFresh) (configure device index size)
      (fun _ => Recorded start NonceFresh) (Recorded start NonceFresh) := by
  have output (bytes : List UInt8) : Event.Quiet (.output bytes) := trivial
  refine Prog.Ends.bind (fresh_ends (allocHeap_respects _)) fun _ => ?_
  refine Prog.Ends.bind (fresh_ends (outString_respects output _)) fun _ => ?_
  refine Prog.Ends.bind (fresh_ends (getStringAt_respects output _ _ _)) fun _ => ?_
  refine Prog.Ends.bind (fresh_ends (outString_respects output _)) fun _ => ?_
  refine Prog.Ends.bind (fresh_ends (getAuthdata_respects output)) fun ppAuth => ?_
  refine Prog.Ends.ite (fun _ => Prog.Ends.ret fun _ known => known) fun _ => ?_
  refine Prog.Ends.bind (fresh_ends (outString_respects output _)) fun _ => ?_
  refine Prog.Ends.bind (fresh_ends (getAuthdata_respects output)) fun srkAuth => ?_
  refine Prog.Ends.ite (fun _ => Prog.Ends.ret fun _ known => known) fun _ => ?_
  refine Prog.Ends.bind (sealPassphrase_fresh _ _ _ _) fun sealedData => ?_
  refine Prog.Ends.ite (fun _ => Prog.Ends.ret fun _ known => known) fun _ => ?_
  refine Prog.Ends.bind (fresh_ends (outString_respects output _)) fun _ => ?_
  refine Prog.Ends.bind (fresh_ends (getAuthdata_respects output)) fun nvAuth => ?_
  refine Prog.Ends.ite (fun _ => Prog.Ends.ret fun _ known => known) fun _ => ?_
  exact writePassphrase_fresh _ _ _ _

end Configuration

section Boot

variable {events more : List Event}

/-- No `TPM_Unseal` has been sent. -/
def NoUnseal (events : List Event) : Prop :=
  ∀ event ∈ events, event.sends ordUnseal = false

/-- A `TPM_GetRandom` after a session was opened. -/
def LateDraw (events : List Event) (position : Nat) : Prop :=
  (∃ exception bytes, events[position]? = some (.random exception bytes)) ∧
    ∃ opening < position, ∃ s nonceOddOSAP, events[opening]? = some (.opened s nonceOddOSAP)

theorem DrawnAt.lateDraw {stop position : Nat} {ordinal s : UInt32} {nonce : Block 20}
    (returned : DrawnAt events stop ordinal s nonce position)
    (authorised : ordinal ∈ authorisedOrdinals) : LateDraw events position := by
  obtain ⟨before, exception, bytes, found, -, session⟩ := returned
  obtain ⟨-, opening, early, ⟨nonceOddOSAP, opened⟩, -⟩ := session authorised
  exact ⟨⟨exception, bytes, found⟩, opening, early, s, nonceOddOSAP, opened⟩

theorem LateDraw.of_append {position : Nat} (late : LateDraw (events ++ more) position)
    (inside : position < events.length) : LateDraw events position := by
  obtain ⟨⟨exception, bytes, found⟩, opening, early, s, nonce, opened⟩ := late
  rw [List.getElem?_append_left inside] at found
  rw [List.getElem?_append_left (early.trans inside)] at opened
  exact ⟨⟨exception, bytes, found⟩, opening, early, s, nonce, opened⟩

theorem LateDraw.of_append_other {position : Nat} (late : LateDraw (events ++ more) position)
    (others : ∀ event ∈ more, ∀ exception bytes, event ≠ .random exception bytes) :
    LateDraw events position := by
  refine late.of_append ?_
  by_contra beyond
  obtain ⟨⟨exception, bytes, found⟩, -⟩ := late
  rw [List.getElem?_append_right (by omega)] at found
  exact others _ (List.mem_of_getElem? found) exception bytes rfl

theorem NoUnseal.append (first : NoUnseal events) (second : NoUnseal more) :
    NoUnseal (events ++ more) := by
  intro event member
  rcases List.mem_append.mp member with early | late
  · exact first event early
  · exact second event late

theorem noUnseal_of_quiet (quiet : ∀ event ∈ more, event.Quiet) : NoUnseal more := by
  intro event member
  have known := quiet event member
  cases event with
  | sent ordinal uses frame => exact beq_false_of_ne known.2
  | _ => rfl

theorem Event.Quiet.not_random {event : Event} (quiet : event.Quiet) (exception : Error)
    (bytes : List UInt8) : event ≠ .random exception bytes := by
  rintro rfl
  exact quiet

/-- The nonces are fresh exactly if no `TPM_Unseal` has been sent. -/
def FreshUnlessUnseal (events : List Event) : Prop :=
  NonceFresh events ↔ NoUnseal events

theorem freshUnlessUnseal_settled : Settled FreshUnlessUnseal := by
  intro events more holds quiet
  constructor
  · exact fun fresh => (holds.mp fresh.of_append).append (noUnseal_of_quiet quiet)
  · intro absent
    refine (holds.mpr fun event member => ?_).append_quiet quiet
    exact absent event (List.mem_append_left more member)

/-- Before the first session is opened. -/
structure BeforeSessions (fresh : List Event → Prop) (events : List Event) : Prop where
  fresh : fresh events
  noUnseal : NoUnseal events
  unopened : ∀ s nonceOddOSAP, .opened s nonceOddOSAP ∉ events

theorem beforeSessions_settled {fresh : List Event → Prop} (settled : Settled fresh) :
    Settled (BeforeSessions fresh) := by
  intro events more before quiet
  refine ⟨settled events more before.fresh quiet,
    before.noUnseal.append (noUnseal_of_quiet quiet), fun s nonceOddOSAP member => ?_⟩
  rcases List.mem_append.mp member with early | late
  · exact before.unopened s nonceOddOSAP early
  · exact quiet _ late

/-- Sessions may be open, and not more than one nonce, or none at all, has been drawn since
the first one was opened. -/
structure WithSessions (drawn : Prop) (events : List Event) : Prop where
  fresh : NonceFresh events
  noUnseal : NoUnseal events
  none : ¬ drawn → ∀ position, ¬ LateDraw events position
  one : ∀ first second, LateDraw events first → LateDraw events second → first = second

variable {drawn : Prop}

theorem WithSessions.append_other (sessions : WithSessions drawn events)
    (bare : ∀ event ∈ more, event.Bare) (noUnseal : NoUnseal more)
    (others : ∀ event ∈ more, ∀ exception bytes, event ≠ .random exception bytes) :
    WithSessions drawn (events ++ more) where
  fresh := sessions.fresh.append_bare bare
  noUnseal := sessions.noUnseal.append noUnseal
  none := fun empty position late => sessions.none empty position (late.of_append_other others)
  one := fun first second firstLate secondLate => sessions.one first second
    (firstLate.of_append_other others) (secondLate.of_append_other others)

theorem withSessions_settled (drawn : Prop) : Settled (WithSessions drawn) :=
  fun _ _ sessions quiet => sessions.append_other
    (fun event member => (quiet event member).bare) (noUnseal_of_quiet quiet)
    fun event member => (quiet event member).not_random

theorem BeforeSessions.append_sent {nonce : Block 20}
    (before : BeforeSessions (Available ordOSAP 0 nonce) events) (frame : List UInt8) :
    WithSessions False (events ++ [.sent ordOSAP [(0, nonce)] frame]) := by
  have noLate (position : Nat) :
      ¬ LateDraw (events ++ [.sent ordOSAP [(0, nonce)] frame]) position := by
    rintro ⟨-, opening, -, s, nonceOddOSAP, opened⟩
    rcases List.mem_append.mp (List.mem_of_getElem? opened) with early | late
    · exact before.unopened s nonceOddOSAP early
    · simp at late
  refine ⟨before.fresh.append_sent frame, before.noUnseal.append ?_, fun _ => noLate,
    fun first _ firstLate => (noLate first firstLate).elim⟩
  intro event member
  rw [List.mem_singleton] at member
  rw [member]
  rfl

theorem WithSessions.append_opened (sessions : WithSessions drawn events) (s : UInt32)
    (nonceOddOSAP : Option (Block 20)) :
    WithSessions drawn (events ++ [.opened s nonceOddOSAP]) :=
  sessions.append_other (by simp [Event.Bare]) (by simp [NoUnseal, Event.sends]) (by simp)

/-- The first nonce drawn while sessions are open. -/
theorem WithSessions.append_random (sessions : WithSessions False events) (exception : Error)
    (bytes : List UInt8) : WithSessions True (events ++ [.random exception bytes]) := by
  have last (position : Nat)
      (late : LateDraw (events ++ [.random exception bytes]) position) :
      position = events.length := by
    by_contra other
    have found := late.1
    obtain ⟨_, _, found⟩ := found
    have inside := (List.getElem?_eq_some_iff.mp found).1
    simp only [List.length_append, List.length_singleton] at inside
    exact sessions.none id position (late.of_append (by omega))
  refine ⟨sessions.fresh.append_bare (by simp [Event.Bare]),
    sessions.noUnseal.append (by simp [NoUnseal, Event.sends]), fun no => (no trivial).elim, ?_⟩
  intro first second firstLate secondLate
  rw [last first firstLate, last second secondLate]

/-- Two sessions and one nonce. -/
theorem WithSessions.not_fresh_unseal (sessions : WithSessions True events)
    (first second : UInt32 × Block 20) (frame : List UInt8) :
    ¬ NonceFresh (events ++ [.sent ordUnseal [first, second] frame]) := by
  rintro ⟨source, sources⟩
  have use (number : Nat) (use : UInt32 × Block 20) (found : [first, second][number]? = some use) :
      useAt (events ++ [.sent ordUnseal [first, second] frame]) (events.length, number) =
        some (ordUnseal, use) := by
    rw [useAt]
    dsimp only
    rw [List.getElem?_append_right (Nat.le_refl _), Nat.sub_self]
    dsimp only [List.getElem?_cons_zero]
    rw [found]
    rfl
  have late (number : Nat) (used : UInt32 × Block 20)
      (found : [first, second][number]? = some used) :
      LateDraw events (source (events.length, number)) := by
    have returned := sources.drawn _ _ _ _ (use number used found)
    exact (returned.lateDraw (by decide)).of_append returned.before
  have same := sources.own (events.length, 0) (events.length, 1)
    (Option.isSome_of_eq_some (use 0 first rfl)) (Option.isSome_of_eq_some (use 1 second rfl))
    (sessions.one _ _ (late 0 first rfl) (late 1 second rfl))
  cases same

theorem WithSessions.append_unseal (sessions : WithSessions True events)
    (first second : UInt32 × Block 20) (frame : List UInt8) :
    FreshUnlessUnseal (events ++ [.sent ordUnseal [first, second] frame]) := by
  refine iff_of_false (sessions.not_fresh_unseal first second frame) fun absent => ?_
  have sends := absent (.sent ordUnseal [first, second] frame) (by simp)
  simp [Event.sends] at sends

theorem BeforeSessions.freshUnlessUnseal (before : BeforeSessions NonceFresh events) :
    FreshUnlessUnseal events :=
  iff_of_true before.fresh before.noUnseal

theorem WithSessions.freshUnlessUnseal (sessions : WithSessions drawn events) :
    FreshUnlessUnseal events :=
  iff_of_true sessions.fresh sessions.noUnseal

variable {σ : Type} {device : TisDevice σ} {start : List Event}

theorem unsealRequest_ends (inDataIn : TpmStoredData12) (parentHandleIn : UInt32)
    (parentAuth : Block 20) (parentS : UInt32) (dataAuth : Block 20) (dataS : UInt32) :
    Prog.Ends (Recorded start (WithSessions True))
      (unsealRequest device inDataIn parentHandleIn parentAuth parentS dataAuth dataS)
      (fun _ => Recorded start FreshUnlessUnseal) (Recorded start FreshUnlessUnseal) := by
  have packed {α : Type} {program : Boot σ α}
      (respects : Respects False False Event.Quiet program) :
      Prog.Ends (Recorded start (WithSessions True)) program
        (fun _ => Recorded start (WithSessions True)) (Recorded start FreshUnlessUnseal) :=
    quiet_ends (withSessions_settled True) (fun _ sessions => sessions.freshUnlessUnseal) respects
  refine Prog.Ends.bind (packed sha1InitLocal_respects) fun _ => ?_
  refine Prog.Ends.bind (packed (marshalHeader_respects _ _)) fun _ => ?_
  refine Prog.Ends.bind (packed (marshalBytes_respects _ _ _)) fun _ => ?_
  refine Prog.Ends.bind (packed (marshalBytes_respects _ _ _)) fun _ => ?_
  refine Prog.Ends.bind (packed (marshalStoredData12_respects _ _ _)) fun _ => ?_
  refine Prog.Ends.bind (packed sha1FinishLocal_respects) fun _ => ?_
  refine Prog.Ends.bind (packed (marshalAuth_respects _ _)) fun _ => ?_
  refine Prog.Ends.bind (packed (marshalAuth_respects _ _)) fun _ => ?_
  refine Prog.Ends.bind (packed (authUse_respects _)) fun parentUse => ?_
  refine Prog.Ends.bind (packed (authUse_respects _)) fun dataUse => ?_
  exact transmit_ends (withSessions_settled True) freshUnlessUnseal_settled
    (fun _ sessions => sessions.freshUnlessUnseal) (fun _ known => known)
    fun _ frame sessions => sessions.append_unseal parentUse dataUse frame

theorem known_ends {α : Type} {program : Boot σ α}
    (respects : Respects False False Event.Quiet program) :
    Prog.Ends (Recorded start FreshUnlessUnseal) program
      (fun _ => Recorded start FreshUnlessUnseal) (Recorded start FreshUnlessUnseal) :=
  quiet_ends freshUnlessUnseal_settled (fun _ known => known) respects

theorem tpmUnseal_ends (inDataIn : TpmStoredData12) (parentHandleIn : UInt32)
    (parentAuth : Block 20) (parentSession : SessionSlot) (dataAuth : Block 20)
    (dataSession : SessionSlot) :
    Prog.Ends (Recorded start (WithSessions True))
      (tpmUnseal device inDataIn parentHandleIn parentAuth parentSession dataAuth dataSession)
      (fun _ => Recorded start FreshUnlessUnseal) (Recorded start FreshUnlessUnseal) := by
  have quiet {α : Type} {program : Boot σ α}
      (respects : Respects False False Event.Quiet program) :
      Prog.Ends (Recorded start (WithSessions True)) program
        (fun _ => Recorded start (WithSessions True)) (Recorded start FreshUnlessUnseal) :=
    quiet_ends (withSessions_settled True) (fun _ sessions => sessions.freshUnlessUnseal) respects
  have issued : Respects False False Event.Quiet (emit (.issued ordUnseal) : Boot σ Unit) :=
    emit_respects trivial
  refine Prog.Ends.bind (quiet issued) fun _ => Prog.Ends.bind ?_ fun ret =>
    known_ends ((emit_respects trivial).bind fun _ => Respects.ret _)
  refine Prog.Ends.bind (quiet (getSlot_respects _)) fun parentS => ?_
  refine Prog.Ends.bind (quiet (getSlot_respects _)) fun dataS => ?_
  refine Prog.Ends.bind (unsealRequest_ends _ _ _ _ _ _) fun ret => ?_
  exact known_ends (Respects.ite (Respects.ret _) (unsealResponse_respects _ _ _ _ _ _))

theorem unsealPassphrase_ends (srkAuth ppAuth : Block 20) (sealedPp : TpmStoredData12) :
    Prog.Ends (Recorded start (BeforeSessions NonceFresh))
      (unsealPassphrase device srkAuth ppAuth sealedPp)
      (fun _ => Recorded start FreshUnlessUnseal) (Recorded start FreshUnlessUnseal) := by
  have quiet {α : Type} {drawn : Prop} {program : Boot σ α}
      (respects : Respects False False Event.Quiet program) :
      Prog.Ends (Recorded start (WithSessions drawn)) program
        (fun _ => Recorded start (WithSessions drawn)) (Recorded start FreshUnlessUnseal) :=
    quiet_ends (withSessions_settled drawn) (fun _ sessions => sessions.freshUnlessUnseal) respects
  have first : Prog.Ends (Recorded start (BeforeSessions NonceFresh)) (getNonce device)
      (fun ret => Recorded start (BeforeSessions (Available ordOSAP 0 ret.value)))
      (Recorded start FreshUnlessUnseal) := by
    refine @getNonce_ends σ device start FreshUnlessUnseal (fun _ => BeforeSessions NonceFresh)
      (fun _ nonce _ => BeforeSessions (Available ordOSAP 0 nonce))
      (fun _ => beforeSessions_settled nonceFresh_settled)
      (fun _ _ before => before.freshUnlessUnseal) ?_
    intro _ events exception bytes before
    refine ⟨before.fresh.append_random (by decide) exception bytes,
      before.noUnseal.append (by simp [NoUnseal, Event.sends]), fun s nonceOddOSAP member => ?_⟩
    rcases List.mem_append.mp member with early | late
    · exact before.unopened s nonceOddOSAP early
    · simp at late
  refine first.bind fun nonceOdd => ?_
  refine Prog.Ends.bind (tpmOSAP_opens (beforeSessions_settled (available_settled _ _ _))
    (fun _ => withSessions_settled False) freshUnlessUnseal_settled
    (fun _ before => iff_of_true before.fresh.fresh before.noUnseal)
    (fun _ _ sessions => sessions.freshUnlessUnseal) (withSessions_settled False)
    (fun _ sessions => sessions.freshUnlessUnseal)
    (fun _ frame before => before.append_sent frame)
    fun s _ sessions => sessions.append_opened s _) fun srkOsapRet => ?_
  refine Prog.Ends.ite (fun _ => Prog.Ends.ret fun _ known => known.2) fun success => ?_
  have success := Decidable.of_not_not success
  refine Prog.Ends.bind (Prog.Ends.mono (quiet (endAfterCommand_respects _))
    (fun _ known => known.1 success) (fun _ _ known => known) fun _ known => known) fun _ => ?_
  refine Prog.Ends.bind (quiet (sessionSecret_respects _)) fun sharedSecret => ?_
  refine Prog.Ends.bind (tpmOIAP_opens (withSessions_settled False)
    (fun _ => withSessions_settled False) freshUnlessUnseal_settled
    (fun _ sessions => sessions.freshUnlessUnseal)
    (fun _ _ sessions => sessions.freshUnlessUnseal)
    fun s _ sessions => sessions.append_opened s none) fun ppOiapRet => ?_
  refine Prog.Ends.ite (fun _ => Prog.Ends.ret fun _ known => known.2) fun success => ?_
  have success := Decidable.of_not_not success
  have second : Prog.Ends (Recorded start (WithSessions False)) (getNonce device)
      (fun _ => Recorded start (WithSessions True)) (Recorded start FreshUnlessUnseal) :=
    @getNonce_ends σ device start FreshUnlessUnseal (fun _ => WithSessions False)
      (fun _ _ _ => WithSessions True) (fun _ => withSessions_settled False)
      (fun _ _ sessions => sessions.freshUnlessUnseal)
      fun _ _ exception bytes sessions => sessions.append_random exception bytes
  refine Prog.Ends.bind (Prog.Ends.mono second (fun _ known => known.1 success)
    (fun _ _ known => known) fun _ known => known) fun nonceOdd => ?_
  refine Prog.Ends.ite (fun _ => Prog.Ends.ret fun _ known =>
    known.weaken fun _ sessions => sessions.freshUnlessUnseal) fun _ => ?_
  refine Prog.Ends.bind (quiet (setNonceOdd_respects _ _)) fun _ => ?_
  refine Prog.Ends.bind (quiet (endAfterCommand_respects _)) fun _ => ?_
  refine Prog.Ends.bind (tpmUnseal_ends _ _ _ _ _ _) fun unsealRet => ?_
  exact known_ends (Respects.ite (Respects.ret _) (Respects.ret _))

theorem trustedBoot_ends (index size : UInt32) :
    Prog.Ends (Recorded start (BeforeSessions NonceFresh)) (trustedBoot device index size)
      (fun _ => Recorded start FreshUnlessUnseal) (Recorded start FreshUnlessUnseal) := by
  have output (bytes : List UInt8) : Event.Quiet (.output bytes) := trivial
  have quiet {α : Type} {program : Boot σ α}
      (respects : Respects False False Event.Quiet program) :
      Prog.Ends (Recorded start (BeforeSessions NonceFresh)) program
        (fun _ => Recorded start (BeforeSessions NonceFresh))
        (Recorded start FreshUnlessUnseal) :=
    quiet_ends (beforeSessions_settled nonceFresh_settled)
      (fun _ before => before.freshUnlessUnseal) respects
  have stopped {value : Result Unit} : Prog.Ends
      (Recorded start (BeforeSessions NonceFresh)) (pure value : Boot σ (Result Unit))
      (fun _ => Recorded start FreshUnlessUnseal) (Recorded start FreshUnlessUnseal) :=
    Prog.Ends.ret fun _ known => known.weaken fun _ before => before.freshUnlessUnseal
  have read : Respects False False Event.Quiet (readPassphrase device index size) :=
    (nvRead_quiet _ _ _).bind fun _ => Respects.ite (Respects.ret _)
      ((unpackStoredData12_respects _ _).bind fun _ => Respects.ret _)
  refine Prog.Ends.bind (quiet read) fun sealedPp => Prog.Ends.ite (fun _ => stopped) fun _ => ?_
  refine Prog.Ends.bind (quiet (outString_respects output _)) fun _ => ?_
  refine Prog.Ends.bind (quiet (getAuthdata_respects output)) fun ppAuth => ?_
  refine Prog.Ends.ite (fun _ => stopped) fun _ => ?_
  refine Prog.Ends.bind (quiet (outString_respects output _)) fun _ => ?_
  refine Prog.Ends.bind (quiet (getAuthdata_respects output)) fun srkAuth => ?_
  refine Prog.Ends.ite (fun _ => stopped) fun _ => ?_
  refine Prog.Ends.bind (unsealPassphrase_ends _ _ _) fun passphrase => known_ends ?_
  refine Respects.ite (Respects.ret _) ?_
  exact (confirmPassphrase_respects output trivial _).bind fun _ => Respects.ret _

theorem trustedBoot_freshUnlessUnseal (device : TisDevice σ) (index size : UInt32)
    (m : Machine σ) : FreshUnlessUnseal (eventsOf (trustedBoot device index size) m) := by
  apply Recorded.eventsOf
  refine (trustedBoot_ends index size).state ⟨[], (List.append_nil _).symm, ?_⟩
  exact ⟨NonceFresh.nil, by simp [NoUnseal], by simp⟩

/-- The responses in a boot that comes to `TPM_Unseal`: the NV area with a small blob, random
bytes, the two sessions, random bytes, and an error. -/
def unsealResponses : List (List UInt8) :=
  let random (byte : UInt8) : List UInt8 :=
    [0, 0xc4, 0, 0, 0, 34, 0, 0, 0, 0, 0, 0, 0, 20] ++ List.replicate 20 byte
  [[0, 0xc4, 0, 0, 0, 28, 0, 0, 0, 0, 0, 0, 0, 14, 0, 0x16, 0, 0, 0, 0, 0, 1, 7, 0, 0, 0, 1, 9],
    random 1,
    [0, 0xc4, 0, 0, 0, 54, 0, 0, 0, 0, 0, 0, 0, 2] ++ List.replicate 40 3,
    [0, 0xc4, 0, 0, 0, 34, 0, 0, 0, 0, 0, 0, 0, 4] ++ List.replicate 20 5,
    random 6, [0, 0xc4, 0, 0, 0, 10, 0, 0, 0, 3]]

/-- A machine whose user leaves both authorisation strings empty. -/
def unsealMachine : Machine (List UInt8 × List (List UInt8)) :=
  { Machine.blank ([], unsealResponses) with
    heap := 4096
    mem := MemNode.store (fun _ => 0) 4096 ⟨1023, 0⟩
    keys := [13, 13, 13, 13] }

end Boot

end Sable
