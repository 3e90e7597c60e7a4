import Sable.ResponseFrames
import Sable.Tis

/-!
# The bytes received in an exchange

A device can be given a record of the bytes that were taken from its FIFO since
the last command was started.  The driver stores these bytes at the start of the
output buffer.  How many they are is up to the device: the two receive loops end
as soon as the status register shows no data, and nobody compares the number of
bytes with the size that the response announces.
-/

namespace Sable

open ByteMemory BigEndian HaltingProgram

variable {σ : Type}

/-- The same device, which also remembers what was read from its FIFO since the
last `TIS_STS_TPM_GO`. -/
def TisDevice.recorded (device : TisDevice σ) : TisDevice (σ × List UInt8) where
  readAccess := fun mmap world =>
    let (value, next) := device.readAccess mmap world.1
    (value, next, world.2)
  writeAccess := fun mmap value world =>
    (device.writeAccess mmap value world.1, world.2)
  readIntfCapability := fun mmap world =>
    let (value, next) := device.readIntfCapability mmap world.1
    (value, next, world.2)
  readSts := fun mmap world =>
    let (value, next) := device.readSts mmap world.1
    (value, next, world.2)
  writeSts := fun mmap value world =>
    (device.writeSts mmap value world.1, if value = tisStsTpmGo then [] else world.2)
  readFifo := fun mmap world =>
    let (value, next) := device.readFifo mmap world.1
    (value, next, world.2 ++ [value])
  writeFifo := fun mmap value world =>
    (device.writeFifo mmap value world.1, world.2)
  readDidVid := fun world =>
    let (value, next) := device.readDidVid world.1
    (value, next, world.2)
  readRid := fun world =>
    let (value, next) := device.readRid world.1
    (value, next, world.2)

/-- The bytes that were received since the last command was started. -/
def Machine.received (m : Machine (σ × List UInt8)) : List UInt8 :=
  m.world.2

/-- A response of which a header was received and then exactly as many bytes as
the header announces. -/
def WholeResponse (received : List UInt8) : Prop :=
  6 ≤ received.length ∧
    ofBe32 ((received.drop 2).take 4) = UInt32.ofNat received.length ∧
    received.length ≤ 1024

section Stream

variable (device : TisDevice σ) (mmap : UInt32)

/-- Up to `count` bytes that the device delivers while its status register shows
data, and its state behind them. -/
def deliver : Nat → σ → List UInt8 × σ
  | 0, world => ([], world)
  | count + 1, world =>
      let (sts, world) := device.readSts mmap world
      if sts &&& tisStsDataAvail = 0 then ([], world)
      else
        let (byte, world) := device.readFifo mmap world
        let (bytes, world) := deliver count world
        (byte :: bytes, world)

/-- The device goes on showing data until it has delivered the number of bytes
that the header among them announces. -/
def DeliversWhole (world : σ) : Prop :=
  ∃ count, WholeResponse (deliver device mmap count world).1 ∧
    (deliver device mmap count world).1.length = count

variable {device mmap}

theorem deliver_succ (count : Nat) (world : σ) :
    deliver device mmap (count + 1) world =
      if (device.readSts mmap world).1 &&& tisStsDataAvail = 0 then
        ([], (device.readSts mmap world).2)
      else
        ((device.readFifo mmap (device.readSts mmap world).2).1 ::
            (deliver device mmap count
              (device.readFifo mmap (device.readSts mmap world).2).2).1,
          (deliver device mmap count
            (device.readFifo mmap (device.readSts mmap world).2).2).2) :=
  rfl

theorem length_deliver_le (count : Nat) (world : σ) :
    (deliver device mmap count world).1.length ≤ count := by
  induction count generalizing world with
  | zero => exact Nat.le_refl 0
  | succ count ih =>
      simp only [deliver]
      split
      · exact Nat.zero_le _
      · exact Nat.succ_le_succ (ih _)

/-- A delivery that is not cut short can be taken in two parts. -/
theorem deliver_add {first second : Nat} {world : σ}
    (whole : (deliver device mmap (first + second) world).1.length = first + second) :
    (deliver device mmap first world).1.length = first ∧
      deliver device mmap (first + second) world =
        ((deliver device mmap first world).1 ++
            (deliver device mmap second (deliver device mmap first world).2).1,
          (deliver device mmap second (deliver device mmap first world).2).2) := by
  induction first generalizing world with
  | zero => simp [deliver]
  | succ first ih =>
      rw [Nat.succ_add] at whole ⊢
      simp only [deliver] at whole ⊢
      split at whole
      · cases whole
      · rename_i available
        rw [if_neg available, if_neg available]
        have shorter := Nat.succ.inj whole
        obtain ⟨length, same⟩ := ih shorter
        exact ⟨congrArg Nat.succ length, by rw [same]; rfl⟩

/-- The receive loop stores what the device delivers, as long as it fits the buffer. -/
theorem readFifoLoop_eq {count value : Nat} {m : Machine σ}
    (fits : value + (deliver device mmap count m.world).1.length ≤ tisBufferSize) :
    readFifoLoop device mmap count value m =
      .ok (value + (deliver device mmap count m.world).1.length)
        { m with
          world := (deliver device mmap count m.world).2
          tisOut := write m.tisOut value (deliver device mmap count m.world).1 } := by
  induction count generalizing value m with
  | zero => simp [readFifoLoop, deliver]
  | succ count ih =>
      rw [readFifoLoop, readReg, Prog.bind_step]
      rw [deliver_succ] at fits ⊢
      split at fits
      · rename_i empty
        simp [if_pos empty]
      · rename_i available
        have append (byte : UInt8) (bytes : List UInt8) :
            write (write m.tisOut value [byte]) (value + 1) bytes =
              write m.tisOut value (byte :: bytes) :=
          write_write_append m.tisOut value [byte] bytes
        rw [List.length_cons] at fits
        have room : value < tisBufferSize := by omega
        have rest : value + 1 + (deliver device mmap count
            (device.readFifo mmap (device.readSts mmap m.world).2).2).1.length ≤
              tisBufferSize := by omega
        rw [if_neg available, if_neg available, readReg, Prog.bind_step, if_pos room,
          Prog.bind_modify, ih rest]
        simp only [append, List.length_cons]
        rw [Nat.add_right_comm value 1]
        rfl

/-- A byte more than fits is taken from the device and cannot be stored. -/
theorem readFifoLoop_overrun {count value : Nat} {m : Machine σ}
    (inside : value ≤ tisBufferSize)
    (more : tisBufferSize < value + (deliver device mmap count m.world).1.length) :
    ∃ out, readFifoLoop device mmap count value m = .halt .overrun
      { m with
        world := (deliver device mmap (tisBufferSize + 1 - value) m.world).2
        tisOut := out } := by
  induction count generalizing value m with
  | zero =>
      rw [deliver, List.length_nil] at more
      omega
  | succ count ih =>
      obtain ⟨room, same⟩ : ∃ room, tisBufferSize + 1 - value = room + 1 :=
        ⟨tisBufferSize - value, by omega⟩
      rw [readFifoLoop, readReg, Prog.bind_step, same]
      rw [deliver_succ] at more ⊢
      split at more
      · rw [List.length_nil] at more
        omega
      · rename_i available
        rw [List.length_cons] at more
        rw [if_neg available, if_neg available, readReg, Prog.bind_step]
        by_cases last : value = tisBufferSize
        · obtain rfl : room = 0 := by omega
          rw [if_neg (by omega)]
          exact ⟨m.tisOut, rfl⟩
        · have rest : tisBufferSize < value + 1 + (deliver device mmap count
              (device.readFifo mmap (device.readSts mmap m.world).2).2).1.length := by omega
          rw [if_pos (by omega), Prog.bind_modify]
          obtain ⟨out, run⟩ := @ih (value + 1)
            { m with
              world := (device.readFifo mmap (device.readSts mmap m.world).2).2
              tisOut := write m.tisOut value
                [(device.readFifo mmap (device.readSts mmap m.world).2).1] }
            (by omega) rest
          have left : tisBufferSize + 1 - (value + 1) = room := by omega
          rw [left] at run
          exact ⟨out, run⟩

/-- The record grows by what is delivered. -/
theorem record_deliver (device : TisDevice σ) (mmap : UInt32) (count : Nat)
    (world : σ × List UInt8) :
    (deliver device.recorded mmap count world).2.2 =
      world.2 ++ (deliver device.recorded mmap count world).1 := by
  induction count generalizing world with
  | zero => simp [deliver]
  | succ count ih =>
      simp only [deliver]
      split
      · simp [TisDevice.recorded]
      · rw [ih]
        simp [TisDevice.recorded]

end Stream

section Exchange

variable (device : TisDevice σ)

/-- The part of `tis_transmit` before the response is read; the result is the
address of the registers. -/
def tisAwait : Boot σ (Result UInt32) := do
  let res ← tisWrite device
  if res.exception ≠ .none then
    return .error res.exception 0
  let m ← Prog.get
  let mmap := m.tisLocality
  waitState device mmap (tisStsValid ||| tisStsDataAvail) 4000
  let sts ← readReg (device.readSts mmap)
  if sts &&& tisStsValid = 0 then
    return .error .tisTransmit 0
  return .ok mmap

/-- The part of `tis_transmit` that reads the response. -/
def tisReceive (mmap : UInt32) : Boot σ (Result Unit) := do
  let value ← readFifoLoop device mmap 6 0
  let m ← Prog.get
  let size := signedBound (ofBe32 (read m.tisOut 2 4))
  let _ ← readFifoLoop device mmap (size - value) value
  let sts ← readReg (device.readSts mmap)
  if sts &&& tisStsDataAvail ≠ 0 then
    return .error .tisTransmit ()
  writeReg (device.writeSts mmap tisStsCmdReady)
  return .ok ()

/-- In the exchange that starts in the state `m`, the device delivers the whole
response, unless the driver gives up before it reads the first byte. -/
def Delivers (m : Machine σ) : Prop :=
  ∀ mmap reached, tisAwait device m = .ok (.ok mmap) reached →
    DeliversWhole device mmap reached.world

variable {device}

theorem tisTransmit_eq : tisTransmit device = (do
    let res ← tisAwait device
    if res.exception ≠ .none then return .error res.exception ()
    tisReceive device res.value) := by
  rw [tisTransmit, tisAwait, bind_assoc]
  refine bind_congr fun res => ?_
  by_cases failed : res.exception = .none
  · simp only [failed, ne_eq, not_true_eq_false, if_false, tisRead, tisReceive, bind_assoc]
    refine bind_congr fun m => bind_congr fun _ => bind_congr fun sts => ?_
    by_cases invalid : sts &&& tisStsValid = 0
    · simp [invalid]
    · simp only [invalid, if_false, pure_bind, Result.exception_ok, not_true_eq_false,
        Result.value_ok, bind_assoc]
      refine bind_congr fun value => bind_congr fun m => bind_congr fun _ =>
        bind_congr fun sts => ?_
      by_cases pending : sts &&& tisStsDataAvail = 0
      · simp [pending]
      · simp [pending]
  · simp [failed]

/-- A successful exchange waits for the response and then reads it. -/
theorem tisTransmit_ok {m reached : Machine σ} {ret : Result Unit}
    (run : tisTransmit device m = .ok ret reached) (success : ret.exception = .none) :
    ∃ mmap between, tisAwait device m = .ok (.ok mmap) between ∧
      tisReceive device mmap between = .ok ret reached := by
  rw [tisTransmit_eq, Prog.bind_eq_ok] at run
  obtain ⟨res, between, awaits, run⟩ := run
  split at run
  · cases run
    contradiction
  · rename_i answered
    have answered : res.exception = .none := Decidable.of_not_not answered
    exact ⟨res.value, between, by rw [awaits, Result.eq_ok answered]; rfl, run⟩

/-- The end of an exchange: no data may be left, and the TPM is made ready. -/
def tisSettle (device : TisDevice σ) (mmap : UInt32) : Boot σ (Result Unit) := do
  let sts ← readReg (device.readSts mmap)
  if sts &&& tisStsDataAvail ≠ 0 then
    return .error .tisTransmit ()
  writeReg (device.writeSts mmap tisStsCmdReady)
  return .ok ()

/-- The number of bytes that the second loop is meant to count up to: the size field
of the output buffer behind the first loop. -/
def announced (out : Mem) (header : List UInt8) : Nat :=
  signedBound (ofBe32 (read (write out 0 header) 2 4))

/-- The first loop. -/
theorem readFifoLoop_header {mmap : UInt32} {m : Machine σ} {first : List UInt8 × σ}
    (firstEq : deliver device mmap 6 m.world = first) :
    readFifoLoop device mmap 6 0 m = .ok first.1.length
      { m with world := first.2, tisOut := write m.tisOut 0 first.1 } := by
  have header : (deliver device mmap 6 m.world).1.length ≤ 6 := length_deliver_le 6 m.world
  rw [readFifoLoop_eq (by rw [tisBufferSize]; omega), Nat.zero_add, firstEq]

/-- The two loops store all they receive one byte after the other. -/
theorem tisReceive_stores {mmap : UInt32} {m : Machine σ} {first second : List UInt8 × σ}
    (firstEq : deliver device mmap 6 m.world = first)
    (secondEq : deliver device mmap (announced m.tisOut first.1 - first.1.length) first.2 =
      second) (fits : first.1.length + second.1.length ≤ tisBufferSize) :
    tisReceive device mmap m = tisSettle device mmap { m with
      world := second.2
      tisOut := write m.tisOut 0 (first.1 ++ second.1) } := by
  have one := readFifoLoop_header firstEq
  have two : ∃ value, readFifoLoop device mmap
      (announced m.tisOut first.1 - first.1.length) first.1.length
      { m with world := first.2, tisOut := write m.tisOut 0 first.1 } =
        .ok value { m with
          world := second.2
          tisOut := write m.tisOut 0 (first.1 ++ second.1) } := by
    have append := write_write_append m.tisOut 0 first.1 second.1
    rw [Nat.zero_add] at append
    rw [readFifoLoop_eq (by dsimp only; rw [secondEq]; exact fits), ← append]
    simp only [secondEq]
    exact ⟨_, rfl⟩
  obtain ⟨value, loop⟩ := two
  rw [tisReceive, Prog.bind_ok one, Prog.bind_get]
  change (readFifoLoop device mmap (announced m.tisOut first.1 - first.1.length)
    first.1.length >>= _) _ = _
  rw [Prog.bind_ok loop]
  rfl

/-- A response that is delivered as a whole is stored as a whole. -/
theorem tisReceive_eq {mmap : UInt32} {m : Machine σ} {count : Nat}
    (whole : WholeResponse (deliver device mmap count m.world).1)
    (length : (deliver device mmap count m.world).1.length = count) :
    tisReceive device mmap m = tisSettle device mmap { m with
      world := (deliver device mmap count m.world).2
      tisOut := write m.tisOut 0 (deliver device mmap count m.world).1 } := by
  obtain ⟨long, size, short⟩ := whole
  rw [length] at long size short
  obtain ⟨rest, rfl⟩ := Nat.exists_eq_add_of_le long
  obtain ⟨header, parts⟩ := deliver_add length
  rw [parts] at size ⊢
  set first := deliver device mmap 6 m.world
  set second := deliver device mmap rest first.2
  have sizeField : read (write m.tisOut 0 first.1) 2 4 = (first.1.drop 2).take 4 := by
    have stored : read (write m.tisOut 0 first.1) 0 first.1.length = first.1 :=
      read_write_self _ _ _
    have tail := drop_read (write m.tisOut 0 first.1) 0 first.1.length 2 (by omega)
    rw [stored, header] at tail
    rw [tail, take_read _ _ _ _ (by omega)]
  have count : announced m.tisOut first.1 = 6 + rest := by
    have head : ((first.1 ++ second.1).drop 2).take 4 = (first.1.drop 2).take 4 := by
      rw [List.drop_append_of_le_length (by omega),
        List.take_append_of_le_length (by rw [List.length_drop]; omega)]
    rw [announced, sizeField, ← head, size, signedBound, toNat_ofNat_small (by omega),
      if_pos (by omega)]
  have remaining : announced m.tisOut first.1 - first.1.length = rest := by
    rw [count, header, Nat.add_sub_cancel_left]
  have second_eq : deliver device mmap (announced m.tisOut first.1 - first.1.length)
      first.2 = second := by
    rw [remaining]
  have first_eq : deliver device mmap 6 m.world = first := rfl
  have total := congrArg (fun delivered => delivered.1.length) parts
  rw [length, List.length_append] at total
  rw [tisReceive_stores first_eq second_eq (by rw [tisBufferSize]; omega)]

end Exchange

section Record

theorem waitState_keeps {device : TisDevice σ} {fact : σ → Prop}
    (poll : ∀ mmap world, fact world → fact (device.readSts mmap world).2) (mmap : UInt32)
    (state : UInt8) (polls : Nat) :
    Prog.Runs True (fun m => fact m.world) (waitState device mmap state polls)
      (fun _ m => fact m.world) := by
  induction polls with
  | zero => exact Prog.Runs.ret fun _ holds => holds
  | succ polls ih =>
      have read : Prog.Runs True (fun m => fact m.world) (readReg (device.readSts mmap))
          (fun _ m => fact m.world) :=
        fun m holds => poll mmap m.world holds
      refine Prog.Runs.bind read fun sts => ?_
      exact Prog.Runs.ite (fun _ => Prog.Runs.ret fun _ holds => holds) fun _ => ih

/-- What holds of the device when a command is started and is not changed by polling
holds when the first byte of the response is read. -/
theorem tisAwait_started {device : TisDevice σ} {fact : σ → Prop}
    (go : ∀ mmap world, fact (device.writeSts mmap tisStsTpmGo world))
    (poll : ∀ mmap world, fact world → fact (device.readSts mmap world).2) :
    Prog.Runs True (fun _ => True) (tisAwait device)
      (fun ret m => ret.exception = .none → fact m.world) := by
  have writes : Prog.Runs True (fun _ => True) (tisWrite device)
      (fun ret m => ret.exception = .none → fact m.world) := by
    refine Prog.Runs.bind Prog.Runs.any fun start => ?_
    refine Prog.Runs.bind Prog.Runs.any fun _ => ?_
    refine Prog.Runs.bind Prog.Runs.any fun sts => ?_
    refine Prog.Runs.ite (fun _ => Prog.Runs.ret (by simp)) fun _ => ?_
    refine Prog.Runs.bind Prog.Runs.any fun _ => ?_
    refine Prog.Runs.bind Prog.Runs.any fun _ => ?_
    refine Prog.Runs.bind Prog.Runs.any fun sts => ?_
    refine Prog.Runs.ite (fun _ => Prog.Runs.ret (by simp)) fun _ => ?_
    have started : Prog.Runs True (fun _ => True)
        (writeReg (device.writeSts start.tisLocality tisStsTpmGo))
        (fun _ m => fact m.world) :=
      Prog.Runs.modify fun _ _ => go _ _
    exact Prog.Runs.bind started fun _ => Prog.Runs.ret fun _ holds _ => holds
  refine Prog.Runs.bind writes fun res => ?_
  refine Prog.Runs.ite (fun failed => ?_) fun answered => ?_
  · exact Prog.Runs.ret fun _ _ none => (failed none).elim
  have answered : res.exception = .none := Decidable.of_not_not answered
  refine Prog.Runs.mono ?_ (fun m started => started answered) fun _ _ holds => holds
  intro m started
  rw [Prog.bind_get]
  refine Prog.Runs.bind (waitState_keeps poll m.tisLocality _ _) (fun _ => ?_) m started
  have read : Prog.Runs True (fun m => fact m.world)
      (readReg (device.readSts m.tisLocality)) (fun _ m => fact m.world) :=
    fun m holds => poll _ m.world holds
  refine Prog.Runs.bind read fun sts => ?_
  refine Prog.Runs.ite (fun _ => Prog.Runs.ret (by simp)) fun _ => ?_
  exact Prog.Runs.ret fun _ holds _ => holds

variable (device : TisDevice σ) {m reached : Machine (σ × List UInt8)} {mmap : UInt32}

/-- No byte of the response has been received before the first receive loop. -/
theorem tisAwait_received :
    Prog.Runs True (fun _ => True) (tisAwait device.recorded)
      (fun ret m => ret.exception = .none → m.received = []) := by
  have started := @tisAwait_started _ device.recorded (fun world => world.2 = [])
    (fun _ _ => rfl) fun _ _ empty => empty
  exact started

/-- What the driver has received and stored when an exchange succeeds. -/
theorem tisReceive_whole {ret : Result Unit} (fresh : m.received = [])
    (whole : DeliversWhole device.recorded mmap m.world)
    (run : tisReceive device.recorded mmap m = .ok ret reached) :
    WholeResponse reached.received ∧
      read reached.tisOut 0 reached.received.length = reached.received := by
  obtain ⟨count, response, length⟩ := whole
  have record := record_deliver device mmap count m.world
  have fresh : m.world.2 = [] := fresh
  rw [fresh, List.nil_append] at record
  rw [tisReceive_eq response length, tisSettle, Prog.bind_eq_ok] at run
  obtain ⟨sts, between, polls, run⟩ := run
  cases polls
  have stored : read (write m.tisOut 0 (deliver device.recorded mmap count m.world).1) 0
      (deliver device.recorded mmap count m.world).1.length =
        (deliver device.recorded mmap count m.world).1 :=
    read_write_self _ _ _
  have result : reached.received = (deliver device.recorded mmap count m.world).1 ∧
      reached.tisOut = write m.tisOut 0 (deliver device.recorded mmap count m.world).1 := by
    split at run
    · cases run
      exact ⟨record, rfl⟩
    · cases run
      exact ⟨record, rfl⟩
  rw [result.1, result.2]
  exact ⟨response, stored⟩

/-- In an exchange in which the device delivers the whole response, exactly the
announced bytes are received, and the output buffer starts with them. -/
theorem tisTransmit_whole {ret : Result Unit} (delivers : Delivers device.recorded m)
    (run : tisTransmit device.recorded m = .ok ret reached)
    (success : ret.exception = .none) :
    WholeResponse reached.received ∧
      read reached.tisOut 0 reached.received.length = reached.received := by
  obtain ⟨mmap, between, awaits, receives⟩ := tisTransmit_ok run success
  have fresh := (tisAwait_received device).of_ok trivial awaits rfl
  exact tisReceive_whole device fresh (delivers mmap between awaits) receives

end Record

section Bounds

/-- The part of `tis_read` before the first loop; the result is the address of the
registers. -/
def tisPoll (device : TisDevice σ) : Boot σ (Result UInt32) := do
  let m ← Prog.get
  let mmap := m.tisLocality
  waitState device mmap (tisStsValid ||| tisStsDataAvail) 4000
  let sts ← readReg (device.readSts mmap)
  if sts &&& tisStsValid = 0 then
    return .error .tisTransmit 0
  return .ok mmap

theorem tisRead_eq (device : TisDevice σ) : tisRead device = (do
    let res ← tisPoll device
    if res.exception ≠ .none then return .error res.exception ()
    tisReceive device res.value) := by
  rw [tisRead, tisPoll, bind_assoc]
  refine bind_congr fun m => ?_
  simp only [bind_assoc]
  refine bind_congr fun _ => bind_congr fun sts => ?_
  by_cases invalid : sts &&& tisStsValid = 0
  · simp [invalid]
  · simp only [invalid, if_false, pure_bind, Result.exception_ok, ne_eq, not_true_eq_false,
      Result.value_ok, tisReceive]

/-- The response announces more than 1024 bytes, and the device goes on to show data
until 1025 bytes have been received. -/
def Overruns (device : TisDevice σ) (m : Machine σ) : Prop :=
  ∃ mmap reached, tisPoll device m = .ok (.ok mmap) reached ∧
    1024 < announced reached.tisOut (deliver device mmap 6 reached.world).1 ∧
    (deliver device mmap (1025 - (deliver device mmap 6 reached.world).1.length)
      (deliver device mmap 6 reached.world).2).1.length =
        1025 - (deliver device mmap 6 reached.world).1.length

/-- All bytes that `tis_read` stores, which are those it takes from the FIFO, lie in
the 1024 bytes of `tis_buffers.out`. -/
def StoresInBuffer (device : TisDevice σ) (m : Machine (σ × List UInt8)) : Prop :=
  ∃ bytes, (tisRead device.recorded m).state.received = m.received ++ bytes ∧
    (tisRead device.recorded m).state.tisOut = write m.tisOut 0 bytes ∧
    bytes.length ≤ 1024

/-- A shorter delivery is cut short at the same byte. -/
theorem length_deliver_min {device : TisDevice σ} {mmap : UInt32} {shorter longer : Nat}
    (le : shorter ≤ longer) (world : σ) :
    (deliver device mmap shorter world).1.length =
      min shorter (deliver device mmap longer world).1.length := by
  induction shorter generalizing longer world with
  | zero => simp [deliver]
  | succ shorter ih =>
      obtain ⟨longer, rfl⟩ := Nat.exists_eq_succ_of_ne_zero (by omega : longer ≠ 0)
      simp only [deliver]
      split
      · rfl
      · simp only [List.length_cons]
        rw [ih (Nat.le_of_succ_le_succ le)]
        omega

/-- Polling neither receives nor stores a byte. -/
theorem tisPoll_keeps (device : TisDevice σ) :
    Prog.Preserves (fun m : Machine (σ × List UInt8) => (m.received, m.tisOut))
      (tisPoll device.recorded) := by
  have read (mmap : UInt32) :
      Prog.Preserves (fun m : Machine (σ × List UInt8) => (m.received, m.tisOut))
        (readReg (device.recorded.readSts mmap)) :=
    fun _ => rfl
  have waits (mmap : UInt32) (state : UInt8) (polls : Nat) :
      Prog.Preserves (fun m : Machine (σ × List UInt8) => (m.received, m.tisOut))
        (waitState device.recorded mmap state polls) := by
    induction polls with
    | zero => exact fun _ => rfl
    | succ polls ih =>
        exact (read mmap).bind fun _ => Prog.Preserves.ite (fun _ => rfl) ih
  refine Prog.Preserves.bind (fun _ => rfl) fun m => ?_
  refine (waits _ _ _).bind fun _ => (read _).bind fun sts => ?_
  exact Prog.Preserves.ite (fun _ => rfl) fun _ => rfl

/-- The end of an exchange keeps what was received. -/
theorem tisSettle_keeps (device : TisDevice σ) (mmap : UInt32) :
    Prog.Preserves (fun m : Machine (σ × List UInt8) => (m.received, m.tisOut))
      (tisSettle device.recorded mmap) := by
  refine Prog.Preserves.bind (fun _ => rfl) fun sts => ?_
  exact Prog.Preserves.ite (fun _ => rfl) (Prog.Preserves.bind (fun _ => rfl) fun _ _ => rfl)

/-- What the two loops receive and store.  A byte behind the buffer is received and not
stored. -/
theorem tisReceive_state (device : TisDevice σ) (mmap : UInt32)
    (m : Machine (σ × List UInt8)) :
    ∃ first second, deliver device.recorded mmap 6 m.world = first ∧
      deliver device.recorded mmap (announced m.tisOut first.1 - first.1.length) first.2 =
        second ∧
      (first.1.length + second.1.length ≤ tisBufferSize →
        (tisReceive device.recorded mmap m).state.received =
          m.received ++ (first.1 ++ second.1) ∧
        (tisReceive device.recorded mmap m).state.tisOut =
          write m.tisOut 0 (first.1 ++ second.1)) ∧
      (tisBufferSize < first.1.length + second.1.length → ∃ more,
        (tisReceive device.recorded mmap m).state.received = m.received ++ more ∧
        tisBufferSize < more.length) := by
  refine ⟨_, _, rfl, rfl, ?_⟩
  set first := deliver device.recorded mmap 6 m.world with firstEq
  set second := deliver device.recorded mmap
    (announced m.tisOut first.1 - first.1.length) first.2 with secondEq
  have recordFirst := record_deliver device mmap 6 m.world
  rw [← firstEq] at recordFirst
  have header : first.1.length ≤ 6 := length_deliver_le 6 m.world
  refine ⟨fun fits => ?_, fun excess => ?_⟩
  · have recordSecond := record_deliver device mmap
      (announced m.tisOut first.1 - first.1.length) first.2
    rw [← secondEq, recordFirst, List.append_assoc] at recordSecond
    have kept := tisSettle_keeps device mmap { m with
      world := second.2
      tisOut := write m.tisOut 0 (first.1 ++ second.1) }
    rw [tisReceive_stores firstEq.symm secondEq.symm fits]
    obtain ⟨received, stored⟩ := Prod.mk.inj kept
    exact ⟨received.trans recordSecond, stored⟩
  · obtain ⟨out, run⟩ := @readFifoLoop_overrun _ device.recorded mmap
      (announced m.tisOut first.1 - first.1.length) first.1.length
      { m with world := first.2, tisOut := write m.tisOut 0 first.1 }
      (by rw [tisBufferSize]; omega) (by rw [← secondEq]; exact excess)
    have recordRest := record_deliver device mmap (tisBufferSize + 1 - first.1.length) first.2
    rw [recordFirst, List.append_assoc] at recordRest
    have cut := @length_deliver_min _ device.recorded mmap
      (tisBufferSize + 1 - first.1.length) (announced m.tisOut first.1 - first.1.length)
      (by
        have body : second.1.length ≤ announced m.tisOut first.1 - first.1.length :=
          length_deliver_le _ _
        omega) first.2
    rw [← secondEq] at cut
    refine ⟨first.1 ++ (deliver device.recorded mmap (tisBufferSize + 1 - first.1.length)
      first.2).1, ?_, ?_⟩
    · rw [tisReceive, Prog.bind_ok (readFifoLoop_header firstEq.symm), Prog.bind_get]
      change ((readFifoLoop device.recorded mmap (announced m.tisOut first.1 - first.1.length)
        first.1.length >>= _) _).state.received = _
      rw [Prog.bind_halt run]
      exact recordRest
    · rw [List.length_append, cut]
      omega

theorem tisPoll_halts (device : TisDevice σ) : Prog.Halts (fun _ => False) (tisPoll device) := by
  have waits (mmap : UInt32) (state : UInt8) (polls : Nat) :
      Prog.Halts (fun _ => False) (waitState device mmap state polls) := by
    induction polls with
    | zero => exact Prog.Halts.ret ()
    | succ polls ih =>
        exact Prog.Halts.step.bind fun _ => Prog.Halts.ite (Prog.Halts.ret ()) ih
  refine Prog.Halts.get.bind fun m => (waits _ _ _).bind fun _ => Prog.Halts.step.bind fun sts => ?_
  exact Prog.Halts.ite (Prog.Halts.ret _) (Prog.Halts.ret _)

theorem tisSettle_halts (device : TisDevice σ) (mmap : UInt32) :
    Prog.Halts (fun _ => False) (tisSettle device mmap) :=
  Prog.Halts.step.bind fun _ => Prog.Halts.ite (Prog.Halts.ret _)
    (Prog.Halts.modify.bind fun _ => Prog.Halts.ret _)

/-- The device overruns the buffer exactly if the two loops together take more than it holds. -/
theorem overruns_iff {m reached : Machine σ} {device : TisDevice σ} {mmap : UInt32}
    {first second : List UInt8 × σ} (poll : tisPoll device m = .ok (.ok mmap) reached)
    (firstEq : deliver device mmap 6 reached.world = first)
    (secondEq : deliver device mmap (announced reached.tisOut first.1 - first.1.length) first.2 =
      second) :
    Overruns device m ↔ tisBufferSize < first.1.length + second.1.length := by
  have size : tisBufferSize = 1024 := rfl
  have header : first.1.length ≤ 6 := by
    rw [← firstEq]
    exact length_deliver_le 6 _
  have body : second.1.length ≤ announced reached.tisOut first.1 - first.1.length := by
    rw [← secondEq]
    exact length_deliver_le _ _
  -- Where more bytes are announced, the second loop is cut short at the byte behind the buffer.
  have cut (more : 1024 < announced reached.tisOut first.1) :
      (deliver device mmap (1025 - first.1.length) first.2).1.length =
        min (1025 - first.1.length) second.1.length := by
    rw [@length_deliver_min _ device mmap (1025 - first.1.length)
      (announced reached.tisOut first.1 - first.1.length) (by omega) first.2, secondEq]
  constructor
  · rintro ⟨other, after, run, more, full⟩
    rw [poll] at run
    cases run
    rw [firstEq] at more full
    rw [cut more] at full
    omega
  · intro excess
    have more : 1024 < announced reached.tisOut first.1 := by omega
    refine ⟨mmap, reached, poll, ?_, ?_⟩
    · rw [firstEq]
      exact more
    · rw [firstEq, cut more]
      omega

/-- A run of `tis_read` ends with an overrun exactly if the device delivers more than 1024 bytes
of a response that announces them. -/
theorem tisRead_inBounds_iff (device : TisDevice σ) (m : Machine σ) :
    InBounds (tisRead device) m ↔ ¬ Overruns device m := by
  rw [tisRead_eq]
  constructor
  · rintro inBounds ⟨mmap, reached, poll, overrun⟩
    obtain ⟨first, firstEq⟩ : ∃ first, deliver device mmap 6 reached.world = first := ⟨_, rfl⟩
    obtain ⟨second, secondEq⟩ : ∃ second, deliver device mmap
      (announced reached.tisOut first.1 - first.1.length) first.2 = second := ⟨_, rfl⟩
    have excess := (overruns_iff poll firstEq secondEq).mp ⟨mmap, reached, poll, overrun⟩
    have header : first.1.length ≤ 6 := by
      rw [← firstEq]
      exact length_deliver_le 6 _
    obtain ⟨out, overruns⟩ := @readFifoLoop_overrun _ device mmap
      (announced reached.tisOut first.1 - first.1.length) first.1.length
      { reached with world := first.2, tisOut := write reached.tisOut 0 first.1 }
      (by rw [tisBufferSize]; omega) (by rw [secondEq]; exact excess)
    have receives : ∃ stopped, tisReceive device mmap reached = .halt .overrun stopped := by
      rw [tisReceive, Prog.bind_ok (readFifoLoop_header firstEq), Prog.bind_get]
      exact ⟨_, Prog.bind_halt overruns _⟩
    obtain ⟨stopped, receives⟩ := receives
    refine inBounds stopped ?_
    rw [Prog.bind_ok poll, if_neg (by simp), Result.value_ok]
    exact receives
  · intro fits stopped run
    cases poll : tisPoll device m with
    | halt reason reached => exact tisPoll_halts device m reason reached poll
    | ok res reached =>
        rw [Prog.bind_ok poll] at run
        split at run
        · cases run
        rename_i success
        have found : tisPoll device m = .ok (.ok res.value) reached := by
          rw [poll, ← Result.eq_ok (Decidable.of_not_not success)]
        obtain ⟨first, firstEq⟩ : ∃ first, deliver device res.value 6 reached.world = first :=
          ⟨_, rfl⟩
        obtain ⟨second, secondEq⟩ : ∃ second, deliver device res.value
          (announced reached.tisOut first.1 - first.1.length) first.2 = second := ⟨_, rfl⟩
        rw [overruns_iff found firstEq secondEq, Nat.not_lt] at fits
        rw [tisReceive_stores firstEq secondEq fits] at run
        exact tisSettle_halts device _ _ _ _ run

/-- `tis_read` stays inside the output buffer exactly if the device does not deliver
more than 1024 bytes of a response that announces them. -/
theorem tisRead_inBuffer_iff (device : TisDevice σ) (m : Machine (σ × List UInt8)) :
    StoresInBuffer device m ↔ ¬ Overruns device.recorded m := by
  have kept := tisPoll_keeps device m
  have nothing {outcome : Outcome Halt (Machine (σ × List UInt8)) (Result Unit)}
      (same : (outcome.state.received, outcome.state.tisOut) = (m.received, m.tisOut)) :
      ∃ bytes, outcome.state.received = m.received ++ bytes ∧
        outcome.state.tisOut = write m.tisOut 0 bytes ∧ bytes.length ≤ 1024 := by
    obtain ⟨received, stored⟩ := Prod.mk.inj same
    exact ⟨[], by rw [received, List.append_nil], by rw [stored, write_nil], by simp⟩
  rw [StoresInBuffer, tisRead_eq, Prog.bind_apply]
  cases poll : tisPoll device.recorded m with
  | halt reason reached =>
      rw [poll] at kept
      refine iff_of_true (nothing kept) ?_
      rintro ⟨mmap, other, run, -⟩
      rw [poll] at run
      cases run
  | ok res reached =>
      rw [poll] at kept
      by_cases failed : res.exception = .none
      swap
      · simp only [ne_eq, failed, not_false_eq_true, if_true]
        refine iff_of_true (nothing kept) ?_
        rintro ⟨mmap, other, run, -⟩
        rw [poll] at run
        cases run
        exact failed rfl
      simp only [failed, ne_eq, not_true_eq_false, if_false]
      have found : tisPoll device.recorded m = .ok (.ok res.value) reached := by
        rw [poll, ← Result.eq_ok failed]
      obtain ⟨first, second, firstEq, secondEq, fitting, overrunning⟩ :=
        tisReceive_state device res.value reached
      obtain ⟨sameReceived, sameOut⟩ := Prod.mk.inj kept
      have sameReceived : reached.received = m.received := sameReceived
      have sameOut : reached.tisOut = m.tisOut := sameOut
      rw [overruns_iff found firstEq secondEq, Nat.not_lt, ← sameReceived, ← sameOut]
      constructor
      · rintro ⟨bytes, same, -, short⟩
        by_contra excess
        obtain ⟨more, received, long⟩ := overrunning (Nat.lt_of_not_le excess)
        rw [received] at same
        rw [← List.append_cancel_left same] at short
        exact Nat.not_le.mpr long short
      · intro short
        obtain ⟨received, stored⟩ := fitting short
        exact ⟨_, received, stored, by rw [List.length_append]; exact short⟩

/-- A device that announces 1025 bytes and never runs out of data; its state is the
number of bytes delivered. -/
def floodingDevice : TisDevice Nat where
  readAccess := fun _ world => (tisAccessValid, world)
  writeAccess := fun _ _ world => world
  readIntfCapability := fun _ world => (0, world)
  readSts := fun _ world => (tisStsValid ||| tisStsDataAvail, world)
  writeSts := fun _ _ world => world
  readFifo := fun _ world => ([0, 0xc4, 0, 0, 4, 1].getD world 0, world + 1)
  writeFifo := fun _ _ world => world
  readDidVid := fun world => (0x10001, world)
  readRid := fun world => (0, world)

theorem length_deliver_flooding (mmap : UInt32) (count : Nat) (world : Nat × List UInt8) :
    (deliver floodingDevice.recorded mmap count world).1.length = count := by
  induction count generalizing world with
  | zero => rfl
  | succ count ih =>
      have available : (floodingDevice.recorded.readSts mmap world).1 &&& tisStsDataAvail ≠
          0 := by
        change (tisStsValid ||| tisStsDataAvail) &&& tisStsDataAvail ≠ 0
        decide
      simp only [deliver, if_neg available, List.length_cons, ih]

theorem tisRead_leaves_buffer :
    ¬ StoresInBuffer floodingDevice (Machine.blank (0, [])) := by
  rintro ⟨bytes, received, -, short⟩
  have poll : tisPoll floodingDevice.recorded (Machine.blank (0, [])) =
      .ok (.ok 0) (Machine.blank (0, [])) := rfl
  obtain ⟨first, second, firstEq, secondEq, -, overrunning⟩ :=
    tisReceive_state floodingDevice 0 (Machine.blank (0, []))
  have header : first.1 = [0, 0xc4, 0, 0, 4, 1] := by
    rw [← firstEq]
    rfl
  have size : announced (Machine.blank (0, ([] : List UInt8))).tisOut first.1 = 1025 := by
    rw [header]
    decide
  have body : second.1.length = 1019 := by
    rw [← secondEq, length_deliver_flooding, size, header]
    rfl
  rw [tisRead_eq, Prog.bind_ok poll, if_neg (by decide), Result.value_ok] at received
  obtain ⟨more, receives, long⟩ := overrunning (by rw [header, body]; decide)
  rw [← List.append_cancel_left (receives.symm.trans received)] at short
  exact Nat.not_le.mpr long short

end Bounds

end Sable
