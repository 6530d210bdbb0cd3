import SidFirmware.Gateway.System

/-! Frames that pass through: a command for the CC430 leaves on the other side as it came,
and an answer of the CC430 is built anew for the BLE client. -/
namespace SidFirmware.Gateway
open Memory EsProtocol EsInterfaces EsQueue FrameReceiver SidStorage EsCommands DropOldest

def payloadOf (f : List UInt8) : List UInt8 := (f.drop headerSize).take (f.length - (headerSize + 1))

structure HandsOver (f : List UInt8) (c : HandlerCall) : Prop where
  opCode : c.opCode = f.getD 6 0
  expdt : c.expdt = (f.getD 2 0).toUInt32
  recpt : c.recpt = (f.getD 3 0).toUInt32
  len : c.len = f.length - (headerSize + 1)
  payload : cells c.payload 0 c.len = payloadOf f

theorem payloadOf_length {f : List UInt8} (h : headerSize + 1 ≤ f.length) :
    (payloadOf f).length = f.length - (headerSize + 1) := by
  rw [payloadOf, List.length_take, List.length_drop]
  omega

/-- A frame that covers header and check byte and states its own length. -/
theorem handlerCall_handsOver (m : Nat → UInt8) {f : List UInt8} (hlen : lenField f = f.length)
    (hmin : headerSize + 1 ≤ f.length) (hlt : f.length < 65536) :
    HandsOver f (handlerCall (copyIn m 0 f)) := by
  have hh : headerSize = 7 := rfl
  have hpay : getPayloadLength (copyIn m 0 f) 0 = f.length - (headerSize + 1) := by
    have hsum := payloadLength_frame m hlen hmin hlt
    omega
  refine ⟨copyIn_frame m (by omega), ?_, ?_, hpay, ?_⟩
  · exact congrArg UInt8.toUInt32 (copyIn_frame m (by omega))
  · exact congrArg UInt8.toUInt32 (copyIn_frame m (by omega))
  · change cells (fun k => copyIn m 0 f (getPayload 0 + k)) 0 (getPayloadLength (copyIn m 0 f) 0) = _
    rw [hpay, payloadOf, payload_frame m (by omega)]

/-- Reading a whole frame runs the handler on it. -/
theorem processIncoming_frame {g : State} {l : Link} {f : List UInt8}
    (hread : (EsQueue.read (g.itf l).receiver.inbox.queue).data = f) (hlen : lenField f = f.length)
    (hmin : headerSize + 1 ≤ f.length) (hlt : f.length < 65536) (answer : MemoryErrCode) :
    ∃ inbox c, HandsOver f c ∧ processIncoming g l answer = dispatch (g.withInbox l inbox) l c answer := by
  have hpos : 0 < (EsQueue.read (g.itf l).receiver.inbox.queue).data.length := by
    rw [hread]
    omega
  rw [processIncoming, processIncomingFrame_read hpos, hread]
  exact ⟨_, _, handlerCall_handsOver (g.itf l).receiver.inbox.bufferRead hlen hmin hlt, rfl⟩

/-- The idle task calls the handler on a whole frame. -/
theorem called_frame {g : State} {l : Link} {f : List UInt8}
    (hread : (EsQueue.read (g.itf l).receiver.inbox.queue).data = f)
    (hready : (g.itf l).receiver.inbox.ready = true) (hlen : lenField f = f.length)
    (hmin : headerSize + 1 ≤ f.length) (hlt : f.length < 65536) (answer : MemoryErrCode) :
    ∃ c, called g (.idleInbox l answer) = some c ∧ HandsOver f c := by
  have hpos : 0 < (EsQueue.read (g.itf l).receiver.inbox.queue).data.length := by
    rw [hread]
    omega
  refine ⟨_, ?_, handlerCall_handsOver (g.itf l).receiver.inbox.bufferRead hlen hmin hlt⟩
  rw [called, idleInbox, if_pos hready, processIncomingFrame_read hpos, hread]
  rfl

/-- The outbox of `l` holds what it held in `g`, less what had to make room, and `f`. -/
def Appends (g g' : State) (l : Link) (f : List UInt8) : Prop :=
  ∃ content rest, Represents (g.itf l).outbox.queue content ∧
    LongestFit recordSize (l.bufferSize - 1) (recordSize f) content rest ∧
    Represents (g'.itf l).outbox.queue (rest ++ [f])

/-- A frame that fits is appended to its own outbox; all else stays. -/
theorem sendFrame_appends {g : State} (h : Sound g) {f : SendFrame}
    (hfit : headerSize + 1 + f.payload.length ≤ f.itf.maxFrameSize) :
    ∃ g', sendFrame g f = some g' ∧
      Appends g g' f.itf (builtFrame f.expdt.toUInt8 f.recpt.toUInt8 f.opCode f.payload) ∧
      (∀ k, k ≠ f.itf → g'.itf k = g.itf k) ∧ g'.device = g.device := by
  obtain ⟨content, hc⟩ := h f.itf
  obtain ⟨outbox, hs, hcarries⟩ := sendFrame_fits hc hfit
  have hring := f.itf.le_bufferSize
  refine ⟨_, hs, ⟨content, _, hc.represents, evict_longestFit ?_ content, ?_⟩, ?_, rfl⟩
  · rw [recordSize, builtFrame_length]
    omega
  · rw [withOutbox_same]
    exact hcarries.represents
  · intro k hk
    exact withOutbox_other g outbox hk

/-- Two frames appended by the same step are the same frame. -/
theorem Appends.unique {g g' : State} {l : Link} {f f' : List UInt8} (h : Appends g g' l f)
    (h' : Appends g g' l f') : f = f' := by
  obtain ⟨_, rest, _, _, hr⟩ := h
  obtain ⟨_, rest', _, _, hr'⟩ := h'
  have hlast := congrArg List.getLast? (hr.unique hr')
  simpa using hlast

theorem OpCode.value_of_ofByte {byte : UInt8} {c : OpCode} (h : OpCode.ofByte byte = some c) :
    c.value = byte := by
  have hfound := List.find?_some h
  simpa using hfound

/-- The slave handler passes a command for the CC430 on as it was read. -/
theorem slave_forwards {f : List UInt8} {c : HandlerCall} (hc : HandsOver f c)
    (hrecpt : (f.getD 3 0).toUInt32 = esHostCC430) (hop : f.getD 6 0 ≠ OpCode.acknowledge.value) :
    slaveCommandHandler c =
      some ⟨.cc430, f.getD 6 0, (f.getD 2 0).toUInt32, (f.getD 3 0).toUInt32, payloadOf f⟩ := by
  have hack : OpCode.ofByte c.opCode ≠ some .acknowledge := by
    intro h
    exact hop (hc.opCode.symm.trans (OpCode.value_of_ofByte h).symm)
  rw [slaveCommandHandler, if_pos (hc.recpt.trans hrecpt)]
  split
  · rename_i h
    exact absurd h hack
  · rw [hc.opCode, hc.expdt, hc.recpt, hc.payload]

/-- The frame that the slave handler sends for an answer `f`: what the CC430 sent, if that is
neither empty nor too long, and two zero bytes else. -/
def answerFrame (f : List UInt8) : SendFrame :=
  ⟨.bth, OpCode.acknowledge.value, esHostCC430, esMaster,
    if f.length < 262 ∧ 8 < f.length then payloadOf f else [0, 0]⟩

theorem slave_relays {f : List UInt8} {c : HandlerCall} (hc : HandsOver f c)
    (hmin : headerSize + 1 ≤ f.length) (hrecpt : (f.getD 3 0).toUInt32 = esMaster) :
    slaveCommandHandler c = some (answerFrame f) := by
  have hmaster : c.recpt = esMaster := hc.recpt.trans hrecpt
  have hne : ¬ c.recpt = esHostCC430 := by
    rw [hmaster]
    decide
  have hsize : c.len < replySize - ackSize ∧ 0 < c.len ↔ f.length < 262 ∧ 8 < f.length := by
    rw [hc.len]
    unfold headerSize at hmin ⊢
    unfold replySize ackSize
    omega
  rw [slaveCommandHandler, if_neg hne, if_pos hmaster, replyFromSlave, hc.payload, answerFrame]
  by_cases h : f.length < 262 ∧ 8 < f.length
  · rw [if_pos h, if_pos (hsize.mpr h)]
    rfl
  · rw [if_neg h, if_neg (fun hs => h (hsize.mp hs))]
    rfl

theorem bth_to_slave {device : Device} {c : HandlerCall} (h : c.recpt ≠ esHostNrf)
    (answer : MemoryErrCode) : handle .bth device c answer = some (device, slaveCommandHandler c) := by
  rw [handle, commandHandler, if_neg h]

/-- Over any run, a whole frame for the CC430 that comes from the BLE inbox, other than an
acknowledgement, is appended to the CC430's outbox byte for byte. -/
theorem forwarding_transparent (behindIn behindRead : Link → Nat → UInt8) (device : Device)
    (events : List Event) {g : State}
    (hrun : Runs.run step (init behindIn behindRead device) events = some g) {f : List UInt8}
    (hread : (EsQueue.read (g.itf .bth).receiver.inbox.queue).data = f) (hwf : WellFormed f)
    (hlen : f.length ≤ 254) (hrecpt : (f.getD 3 0).toUInt32 = esHostCC430)
    (hop : f.getD 6 0 ≠ OpCode.acknowledge.value) (answer : MemoryErrCode) :
    ∃ g', processIncoming g .bth answer = some g' ∧ Appends g g' .cc430 f ∧
      (g'.itf .bth).outbox = (g.itf .bth).outbox ∧ g'.device = g.device := by
  have hsound := run_sound (init_sound behindIn behindRead device) hrun
  obtain ⟨inbox, c, hc, hproc⟩ :=
    processIncoming_frame hread hwf.len_eq hwf.minimum (by omega) answer
  have hslave := slave_forwards hc hrecpt hop
  have hnrf : c.recpt ≠ esHostNrf := by
    rw [hc.recpt, hrecpt]
    decide
  have hpay := payloadOf_length hwf.minimum
  obtain ⟨g', hsend, happ, hother, hdev⟩ := sendFrame_appends (hsound.withInbox .bth inbox)
    (f := ⟨.cc430, f.getD 6 0, (f.getD 2 0).toUInt32, (f.getD 3 0).toUInt32, payloadOf f⟩) (by
      have hmin := hwf.minimum
      change headerSize + 1 + (payloadOf f).length ≤ 255
      omega)
  refine ⟨g', ?_, ?_, ?_, hdev⟩
  · rw [hproc, dispatch, withInbox_device, bth_to_slave hnrf, hslave]
    exact hsend
  · have hsame : builtFrame (f.getD 2 0).toUInt32.toUInt8 (f.getD 3 0).toUInt32.toUInt8 (f.getD 6 0)
        (payloadOf f) = f := by
      rw [UInt8.toUInt8_toUInt32, UInt8.toUInt8_toUInt32]
      exact hwf.rebuild
    simp only [hsame, Appends, withInbox_outbox] at happ
    exact happ
  · rw [hother .bth Link.noConfusion, withInbox_outbox]

/-- What the relay of an answer `f` is to leave: one more frame for the BLE client, an
acknowledgement in the name of the CC430 that carries the payload of `f`. -/
structure Relays (g g' : State) (f reply : List UInt8) : Prop where
  appends : Appends g g' .bth reply
  wellFormed : WellFormed reply
  opCode : reply.getD 6 0 = OpCode.acknowledge.value
  expdt : (reply.getD 2 0).toUInt32 = esHostCC430
  recpt : (reply.getD 3 0).toUInt32 = esMaster
  payload : payloadOf reply = payloadOf f

private theorem relay_sends {g : State} {f : List UInt8}
    (hread : (EsQueue.read (g.itf .cc430).receiver.inbox.queue).data = f) (hwf : WellFormed f)
    (hlen : f.length ≤ 255) (hrecpt : (f.getD 3 0).toUInt32 = esMaster) (answer : MemoryErrCode) :
    ∃ inbox, processIncoming g .cc430 answer = sendFrame (g.withInbox .cc430 inbox) (answerFrame f) := by
  obtain ⟨inbox, c, hc, hproc⟩ :=
    processIncoming_frame hread hwf.len_eq hwf.minimum (by omega) answer
  refine ⟨inbox, ?_⟩
  rw [hproc, dispatch, handle, slave_relays hc hwf.minimum hrecpt]
  rfl

/-- An answer frame that fits the write buffer is the one frame appended for the client. -/
theorem answer_appends {g : State} (hsound : Sound g) (l : Link) (inbox : Inbox) {f : List UInt8}
    (hfit : headerSize + 1 + (answerFrame f).payload.length ≤ 254) :
    ∃ g', sendFrame (g.withInbox l inbox) (answerFrame f) = some g' ∧
      Appends g g' .bth (builtFrame esHostCC430.toUInt8 esMaster.toUInt8 OpCode.acknowledge.value
        (answerFrame f).payload) := by
  obtain ⟨g', hs, happ, _⟩ := sendFrame_appends (hsound.withInbox l inbox) (f := answerFrame f) hfit
  simp only [Appends, withInbox_outbox] at happ
  exact ⟨g', hs, happ⟩

/-- What the client makes of an answer frame. -/
private theorem relays_answer {g g' : State} {f : List UInt8} {payload : List UInt8}
    (happ : Appends g g' .bth (builtFrame esHostCC430.toUInt8 esMaster.toUInt8
      OpCode.acknowledge.value payload)) (hlt : headerSize + 1 + payload.length < 2 ^ 16) :
    (∃ reply, Relays g g' f reply) ↔ payload = payloadOf f := by
  constructor
  · rintro ⟨reply, hr⟩
    rw [← hr.payload, hr.appends.unique happ]
    exact (builtFrame_payload _ _ _ _).symm
  · intro hp
    exact ⟨_, happ, builtFrame_wellFormed _ _ _ hlt, rfl, rfl, rfl, (builtFrame_payload _ _ _ _).trans hp⟩

/-- An answer is relayed unless it is empty, or its frame is longer than the write buffer. -/
private theorem relays_iff {g : State} (hsound : Sound g) {f : List UInt8}
    (hread : (EsQueue.read (g.itf .cc430).receiver.inbox.queue).data = f) (hwf : WellFormed f)
    (hlen : f.length ≤ 255) (hrecpt : (f.getD 3 0).toUInt32 = esMaster) (answer : MemoryErrCode) :
    (∃ g' reply, processIncoming g .cc430 answer = some g' ∧ Relays g g' f reply) ↔
      9 ≤ f.length ∧ f.length ≤ 254 := by
  have hmin := hwf.minimum
  have hpay := payloadOf_length hmin
  have hhs : headerSize = 7 := rfl
  obtain ⟨inbox, hsend⟩ := relay_sends hread hwf hlen hrecpt answer
  rw [hsend]
  by_cases hfit : headerSize + 1 + (answerFrame f).payload.length ≤ 254
  · obtain ⟨g', hs, happ⟩ := answer_appends hsound .cc430 inbox hfit
    have hiff := relays_answer (f := f) happ (by omega)
    have hgoal : (∃ g'' reply, sendFrame (g.withInbox .cc430 inbox) (answerFrame f) = some g'' ∧
        Relays g g'' f reply) ↔ (answerFrame f).payload = payloadOf f := by
      rw [← hiff]
      constructor
      · rintro ⟨g'', reply, hs', hr⟩
        rw [Option.some.inj (hs.symm.trans hs')]
        exact ⟨reply, hr⟩
      · rintro ⟨reply, hr⟩
        exact ⟨g', reply, hs, hr⟩
    rw [hgoal]
    unfold answerFrame at hfit ⊢
    dsimp only at hfit ⊢
    split_ifs at hfit ⊢ with hsize
    · simp only [true_iff]
      omega
    · have hne : [0, 0] ≠ payloadOf f := by
        intro h
        have hl := congrArg List.length h
        rw [hpay] at hl
        simp only [List.length_cons, List.length_nil] at hl
        omega
      simp only [hne, false_iff]
      omega
  · rw [sendFrame_eq_none.mpr (not_le.mp hfit)]
    unfold answerFrame at hfit
    dsimp only at hfit
    split_ifs at hfit with hsize
    · simp only [reduceCtorEq, false_and, exists_false, false_iff]
      omega
    · exact absurd (by decide) hfit

/-- Over any run, an answer of the CC430 for the master is relayed to the BLE client, and
within the write buffer, exactly when its frame has at least 9 and at most 254 bytes. -/
theorem relay_faithful_iff (behindIn behindRead : Link → Nat → UInt8) (device : Device)
    (events : List Event) {g : State}
    (hrun : Runs.run step (init behindIn behindRead device) events = some g) {f : List UInt8}
    (hread : (EsQueue.read (g.itf .cc430).receiver.inbox.queue).data = f) (hwf : WellFormed f)
    (hlen : f.length ≤ 255) (hrecpt : (f.getD 3 0).toUInt32 = esMaster) (answer : MemoryErrCode) :
    (∃ g' reply, processIncoming g .cc430 answer = some g' ∧ Relays g g' f reply) ↔
      9 ≤ f.length ∧ f.length ≤ 254 :=
  relays_iff (run_sound (init_sound behindIn behindRead device) hrun) hread hwf hlen hrecpt answer

/-- A whole frame that arrives at an empty interface is the one its inbox holds. -/
theorem receives_frame {g : State} {l : Link} (h : Receives l (g.itf l).receiver [] [])
    {f : List UInt8} (hacc : accept f = some f) (hne : f ≠ []) (hfit : f.length ≤ l.maxFrameSize) :
    ∃ g', step g (.received l f) = some g' ∧ Receives l (g'.itf l).receiver [] [f] ∧
      (g'.itf l).receiver.inbox.ready = true ∧
      (g'.itf l).receiver.inbox.bufferRead = (g.itf l).receiver.inbox.bufferRead ∧ g'.device = g.device := by
  have hmax := l.maxFrameSize_le
  have hring := l.le_bufferSize
  have hfill : Assembler.fill l.maxFrameSize [] f = f := by
    rw [Assembler.fill_eq hfit, List.nil_append]
  have hfull : Assembler.fill l.maxFrameSize [] f ≠ [] := by rwa [hfill]
  obtain ⟨r, hd, hr, hinbox⟩ := dataReceived_receives l h hfull
  rw [hfill, hacc] at hd hr hinbox
  have hcall : l.call (g.itf l).receiver f = some r := by
    rw [Link.call, hd]
    rfl
  have hstore : store l [] f = [f] := by
    have hroom : total recordSize [] + recordSize f ≤ l.bufferSize - 1 := by
      change 0 + (f.length + 2) ≤ l.bufferSize - 1
      omega
    rw [store, if_neg hne]
    exact push_of_fits hroom
  have hleft : leftover f = [] := leftover_of_some hacc
  rw [hleft] at hr
  refine ⟨{ g with itf := Function.update g.itf l { g.itf l with receiver := r } }, ?_, ?_, ?_, ?_, rfl⟩
  · rw [step, hcall]
    rfl
  · simpa [hstore] using hr
  · simp [hinbox, deliver]
  · simp [hinbox, deliver]

/-- The idle task reads the oldest frame over what the read buffer held. -/
theorem idle_frame {g : State} {l : Link} {bs f : List UInt8} {fs : List (List UInt8)}
    (h : Receives l (g.itf l).receiver bs (f :: fs)) (hne : f ≠ [])
    (hready : (g.itf l).receiver.inbox.ready = true) (answer : MemoryErrCode) :
    ∃ inbox, step g (.idleInbox l answer) = dispatch (g.withInbox l inbox) l
        (handlerCall (copyIn (g.itf l).receiver.inbox.bufferRead 0 f)) answer ∧
      Receives l ((g.withInbox l inbox).itf l).receiver bs fs ∧
      inbox.bufferRead = copyIn (g.itf l).receiver.inbox.bufferRead 0 f := by
  obtain ⟨inbox, hp, hq, hsize, hbuffer⟩ := process_read h.represents hne
  refine ⟨inbox, ?_, ?_, hbuffer⟩
  · rw [step, idleInbox, if_pos hready, hp]
    rfl
  · rw [withInbox_receiver]
    exact ⟨⟨h.holds.size_eq, h.holds.fits, h.holds.bytes⟩, hq, hsize.trans h.size_eq⟩

/-- A whole frame that arrives first is the one its inbox hands over. -/
theorem received_frame (behindIn behindRead : Link → Nat → UInt8) (device : Device) (l : Link)
    {f : List UInt8} (hacc : accept f = some f) (hne : f ≠ []) (hfit : f.length ≤ l.maxFrameSize) :
    ∃ g, Runs.run step (init behindIn behindRead device) [.received l f] = some g ∧
      (EsQueue.read (g.itf l).receiver.inbox.queue).data = f ∧
      (g.itf l).receiver.inbox.ready = true ∧ g.device = device := by
  have hstart : Receives l ((init behindIn behindRead device).itf l).receiver [] [] :=
    init_tracks l (behindIn l) (behindRead l)
  obtain ⟨g, hstep, hr, hready, _, hdevice⟩ := receives_frame hstart hacc hne hfit
  obtain ⟨_, _, _, hq, _⟩ := read_refines hr.represents
  refine ⟨g, ?_, ?_, hready, hdevice⟩
  · rw [Runs.run, hstep]
    rfl
  · rw [hq]

/-- What a well-formed frame looks like to the validator on its own. -/
theorem accept_wellFormed {f : List UInt8} (h : WellFormed f) : accept f = some f ∧ f ≠ [] := by
  have hmin := h.minimum
  refine ⟨by simpa using accept_append h [], List.ne_nil_of_length_pos (by omega)⟩

def atRest : Device := ⟨EsCommands.fresh, MainStateMachine.powerOn, none, []⟩

/-- A reset command for the CC430. -/
theorem forwarding_transparent_reset :
    let f := [0xAA, 0x55, 0x00, 0x02, 0x08, 0x00, 0x01, 0xF4]
    ∃ g g', Runs.run step (init (fun _ _ => 0) (fun _ _ => 0) atRest) [.received .bth f] = some g ∧
      processIncoming g .bth .none = some g' ∧ Appends g g' .cc430 f ∧
      (g'.itf .bth).outbox = (g.itf .bth).outbox ∧ g'.device = g.device := by
  intro f
  obtain ⟨g, hrun, hread, _⟩ :=
    received_frame (fun _ _ => 0) (fun _ _ => 0) atRest .bth (f := f) (by decide) (by decide) (by decide)
  obtain ⟨g', h⟩ := forwarding_transparent (fun _ _ => 0) (fun _ _ => 0) atRest [.received .bth f] hrun
    hread (by decide) (by decide) (by decide) (by decide) .none
  exact ⟨g, g', hrun, h⟩

/-- An answer with one payload byte. -/
theorem relay_faithful_iff_one_byte :
    let f := [0xAA, 0x55, 0x02, 0x00, 0x09, 0x00, 0xF0, 0x01, 0x05]
    ∃ g g' reply, Runs.run step (init (fun _ _ => 0) (fun _ _ => 0) atRest) [.received .cc430 f] = some g ∧
      processIncoming g .cc430 .none = some g' ∧ Relays g g' f reply := by
  intro f
  obtain ⟨g, hrun, hread, _⟩ :=
    received_frame (fun _ _ => 0) (fun _ _ => 0) atRest .cc430 (f := f) (by decide) (by decide) (by decide)
  obtain ⟨g', reply, h⟩ := (relay_faithful_iff (fun _ _ => 0) (fun _ _ => 0) atRest [.received .cc430 f]
    hrun hread (by decide) (by decide) (by decide) .none).mpr (by decide)
  exact ⟨g, g', reply, hrun, h⟩

/-- The empty answer is not relayed as such. -/
theorem empty_answer_altered :
    let f := [0xAA, 0x55, 0x02, 0x00, 0x08, 0x00, 0xF0, 0x05]
    WellFormed f ∧ ∃ g, Runs.run step (init (fun _ _ => 0) (fun _ _ => 0) atRest)
        [.received .cc430 f] = some g ∧
      (EsQueue.read (g.itf .cc430).receiver.inbox.queue).data = f ∧
      ¬ ∃ g' reply, processIncoming g .cc430 .none = some g' ∧ Relays g g' f reply := by
  intro f
  obtain ⟨g, hrun, hread, _⟩ :=
    received_frame (fun _ _ => 0) (fun _ _ => 0) atRest .cc430 (f := f) (by decide) (by decide) (by decide)
  refine ⟨by decide, g, hrun, hread, fun h => ?_⟩
  have hiff := relays_iff (run_sound (init_sound _ _ _) hrun) hread (by decide) (by decide) (by decide) .none
  exact absurd (hiff.mp h) (by decide)

end SidFirmware.Gateway
