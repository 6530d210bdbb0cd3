import SidFirmware.Gateway.Forwarding

/-! Which frames fit the write buffer they are built in. The builder does not know its
size, so it is up to the payload lengths that the handlers let through. -/
namespace SidFirmware.Gateway
open Memory EsProtocol EsInterfaces EsQueue FrameReceiver SidStorage EsCommands DropOldest

/-- Every byte that `ESP_BuildCommand` stores for the frame lies in the write buffer of its
interface, and the length in its header is the one it has. -/
def InBuffer (m : Nat → UInt8) (f : SendFrame) : Prop :=
  (∀ k ∈ buildOffsets f.payload.length, k < f.itf.maxFrameSize) ∧
    (buildCommand m f.expdt f.recpt f.opCode f.payload).2 = f.payload.length + 8

/-- The frame that an event makes a handler send, if any, is built inside its write buffer. -/
def Fits (g : State) (e : Event) : Prop :=
  ∀ f, sends g e = some f → InBuffer (g.itf f.itf).outbox.bufferWrite f

/-- A payload length that the slave handler can pass on: at most what fits the frame for
the CC430 or, for the client, at most 246 bytes, or so many that two bytes are sent instead. -/
def Passable (c : HandlerCall) : Prop :=
  (c.recpt = esHostCC430 → OpCode.ofByte c.opCode ≠ some .acknowledge → c.len ≤ 247) ∧
    (c.recpt = esMaster → c.len ≤ 246 ∨ 254 ≤ c.len)

def Admissible (g : State) (e : Event) : Prop := ∀ c, called g e = some c → Passable c

/-- A frame that fits its buffer also fits the sixteen bits of its length. -/
theorem inBuffer_iff (m : Nat → UInt8) (f : SendFrame) :
    InBuffer m f ↔ f.payload.length + 8 ≤ f.itf.maxFrameSize := by
  have hmax := f.itf.maxFrameSize_le
  have hhs : headerSize = 7 := rfl
  rw [InBuffer, buildOffsets_lt_iff]
  constructor
  · rintro ⟨h, _⟩
    omega
  · intro h
    refine ⟨by omega, ?_⟩
    rw [(buildCommand_eq m f.expdt f.recpt f.opCode (by omega)).1]
    omega

theorem frameCfgGet_ack {d : Device} {a : AckCode × List UInt8} (h : (frameCfgGet d).ack = some a) :
    a.2.length ≤ 26 := by
  rw [frameCfgGet] at h
  split at h
  · rw [← Option.some.inj h]
    have hmin : (frameConfigRead d.storage).2.1.length ⊓
        (if (UInt8.ofNat (frameConfigRead d.storage).2.1.length).toNat > frameInMemorySize + 1
          then frameInMemorySize + 1
          else (UInt8.ofNat (frameConfigRead d.storage).2.1.length).toNat) ≤ 26 := by
      unfold frameInMemorySize
      split <;> omega
    rw [List.length_take, min_comm]
    exact hmin
  · rw [← Option.some.inj h]
    exact Nat.zero_le _

/-- No reply carries more than the 26 bytes kept of a frame configuration. -/
theorem commandSwitch_ack {d : Device} {opCode : Option OpCode} {data : Nat → UInt8} {len : Nat}
    {answer : MemoryErrCode} {h : Handled} (hs : commandSwitch d opCode data len answer = some h)
    {a : AckCode × List UInt8} (ha : h.ack = some a) : a.2.length ≤ 26 := by
  have hfixed : ∀ {device : Device} {ack : Option (AckCode × List UInt8)},
      (∀ a, ack = some a → a.2.length ≤ 26) → some (Handled.mk device ack) = some h → a.2.length ≤ 26 := by
    intro device ack hall he
    rw [← Option.some.inj he] at ha
    exact hall a ha
  have hnil : ∀ code : AckCode, ∀ a, some (code, ([] : List UInt8)) = some a → a.2.length ≤ 26 := by
    rintro code a he
    rw [← Option.some.inj he]
    exact Nat.zero_le _
  unfold commandSwitch at hs
  split at hs
  · exact hfixed (fun a he => by rw [← Option.some.inj he]; decide) hs
  · exact hfixed (fun a he => by rw [← Option.some.inj he]; decide) hs
  · exact hfixed (fun a he => by rw [← Option.some.inj he]; decide) hs
  · exact hfixed (hnil _) hs
  · exact hfixed (hnil _) hs
  · rw [← Option.some.inj hs] at ha
    exact frameCfgGet_ack ha
  · obtain ⟨r, _, he⟩ := Option.map_eq_some_iff.mp hs
    split at he
    · exact hfixed (hnil _) (congrArg some he)
    · exact hfixed (hnil _) (congrArg some he)
  all_goals first
    | exact hfixed (hnil _) hs
    | exact hfixed (fun a he => absurd he.symm (Option.some_ne_none a)) hs

theorem replySendCommand_length (opCode acknowledge expt : UInt8) (data : List UInt8) :
    (replySendCommand opCode acknowledge expt data).payload.length ≤ data.length + 2 := by
  simp only [replySendCommand]
  split
  · exact le_refl _
  · exact Nat.le_add_left _ _

/-- A reply of the command handler fits the BLE write buffer. -/
theorem reply_fits {d : Device} {c : HandlerCall} {answer : MemoryErrCode} {device : Device} {f : SendFrame}
    (hrecpt : c.recpt = esHostNrf) (h : commandHandler d c answer = some (device, some f)) :
    f.payload.length + 8 ≤ f.itf.maxFrameSize := by
  rw [commandHandler, if_pos hrecpt] at h
  obtain ⟨handled, hs, he⟩ := Option.map_eq_some_iff.mp h
  obtain ⟨_, hsent⟩ := Prod.mk.inj he
  obtain ⟨a, ha, rfl⟩ := Option.map_eq_some_iff.mp hsent
  have hack := commandSwitch_ack hs ha
  have hlen := replySendCommand_length c.opCode a.1.value esHostNrf.toUInt8 a.2
  have hitf : (replySendCommand c.opCode a.1.value esHostNrf.toUInt8 a.2).itf = .bth := by
    simp only [replySendCommand]
    split <;> rfl
  rw [hitf]
  change _ ≤ 254
  omega

/-- What the slave handler sends fits exactly if the length it was called with is passable. -/
theorem slave_fits_iff (c : HandlerCall) :
    (∀ f, slaveCommandHandler c = some f → f.payload.length + 8 ≤ f.itf.maxFrameSize) ↔ Passable c := by
  rw [slaveCommandHandler, Passable]
  by_cases hcc : c.recpt = esHostCC430
  · have hmaster : c.recpt ≠ esMaster := by
      rw [hcc]
      decide
    rw [if_pos hcc]
    simp only [hcc, forall_const, hcc ▸ hmaster, false_imp_iff, and_true]
    split
    · rename_i hop
      simp [hop]
    · rename_i hop
      have hne : OpCode.ofByte c.opCode ≠ some .acknowledge := fun h => hop h
      simp only [Option.some.injEq, forall_eq', cells_length, ne_eq, hne, not_false_eq_true, forall_const]
      change c.len + 8 ≤ 255 ↔ _
      omega
  · rw [if_neg hcc]
    by_cases hmaster : c.recpt = esMaster
    · rw [if_pos hmaster]
      have hne : ¬ esMaster = esHostCC430 := by decide
      simp only [hmaster, hne, false_imp_iff, true_and, forall_const, Option.some.injEq, forall_eq']
      unfold replyFromSlave replySize ackSize
      by_cases hlen : c.len < 256 - 2 ∧ 0 < c.len
      · rw [if_pos hlen]
        change (cells c.payload 0 c.len).length + 8 ≤ 254 ↔ _
        rw [cells_length]
        omega
      · rw [if_neg hlen]
        change 2 + 8 ≤ 254 ↔ _
        omega
    · simp [hcc, hmaster]

/-- One event: the frame is built in its buffer exactly if the lengths are passable. -/
theorem fits_iff (g : State) (e : Event) : Fits g e ↔ Admissible g e := by
  cases e with
  | received l chunk => simp [Fits, Admissible, sends, called]
  | idleOutbox l => simp [Fits, Admissible, sends, called]
  | idleInbox l answer =>
    simp only [Fits, Admissible, sends, inBuffer_iff]
    cases called g (.idleInbox l answer) with
    | none => simp
    | some c =>
      simp only [Option.bind_some, Option.some.injEq, forall_eq']
      cases l with
      | cc430 => exact slave_fits_iff c
      | bth =>
        by_cases hnrf : c.recpt = esHostNrf
        · have hpass : Passable c := by
            refine ⟨fun h => ?_, fun h => ?_⟩
            · exact absurd (hnrf.symm.trans h) (by decide)
            · exact absurd (hnrf.symm.trans h) (by decide)
          refine ⟨fun _ => hpass, fun _ f hf => ?_⟩
          obtain ⟨⟨device, sent⟩, hh, rfl⟩ := Option.bind_eq_some_iff.mp hf
          exact reply_fits hnrf hh
        · rw [handle, commandHandler, if_neg hnrf]
          exact slave_fits_iff c

/-- In every run, all frames that the handlers send are built inside their write buffers
exactly as long as the handlers are called with passable lengths. -/
theorem capacity_iff (behindIn behindRead : Link → Nat → UInt8) (device : Device) (events : List Event) :
    Runs.Along step Fits (init behindIn behindRead device) events ↔
      Runs.Along step Admissible (init behindIn behindRead device) events :=
  Runs.along_congr (I := fun _ => True) (fun _ _ _ _ _ => trivial) (fun g e _ => fits_iff g e) trivial events

/-- A frame of up to 255 bytes that states its own length is passable, but for the longest
answers of the CC430. -/
theorem passable_of_handsOver {f : List UInt8} {c : HandlerCall} (h : HandsOver f c)
    (hlen : f.length ≤ 255) (hanswer : (f.getD 3 0).toUInt32 = esMaster → f.length ≤ 254) : Passable c := by
  have hhs : headerSize = 7 := rfl
  refine ⟨fun _ _ => ?_, fun hmaster => Or.inl ?_⟩
  · rw [h.len]
    omega
  · have hle := hanswer (h.recpt.symm.trans hmaster)
    rw [h.len]
    omega

/-- The longest answer of the CC430 makes a frame of 255 bytes in the 254 of the BLE side. -/
theorem longest_answer_overflows :
    let f := builtFrame 0x02 0x00 0xF0 (List.replicate 247 0)
    WellFormed f ∧ ¬ Runs.Along step Fits (init (fun _ _ => 0) (fun _ _ => 0) atRest)
      [.received .cc430 f, .idleInbox .cc430 .none] := by
  intro f
  have hpay : (List.replicate 247 (0 : UInt8)).length = 247 := List.length_replicate
  have hlen : f.length = 255 := by
    rw [builtFrame_length, hpay]
    rfl
  have hwf : WellFormed f := builtFrame_wellFormed _ _ _ (by rw [hpay]; decide)
  obtain ⟨hacc, hne⟩ := accept_wellFormed hwf
  obtain ⟨g, hrun, hread, hready, _⟩ :=
    received_frame (fun _ _ => 0) (fun _ _ => 0) atRest .cc430 hacc hne (le_of_eq hlen)
  obtain ⟨c, hcall, hc⟩ := called_frame hread hready hwf.len_eq hwf.minimum (by omega) .none
  refine ⟨hwf, fun h => ?_⟩
  have hlast : Runs.Along step Fits (init (fun _ _ => 0) (fun _ _ => 0) atRest)
    ([.received .cc430 f] ++ [.idleInbox .cc430 .none]) := h
  have hpass := (fits_iff g (.idleInbox .cc430 .none)).mp (hlast.last hrun) c hcall
  have hmaster : c.recpt = esMaster := hc.recpt.trans rfl
  have hshort := hpass.2 hmaster
  rw [hc.len, hlen] at hshort
  exact absurd hshort (by decide)

end SidFirmware.Gateway
