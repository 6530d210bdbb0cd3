import SidFirmware.Gateway.Forwarding

/-! Who can make the device speak to the BLE client in the name of the CC430. Both links
funnel into the slave handler, which goes by the recipient in the frame alone. -/
namespace SidFirmware.Gateway
open Memory EsProtocol EsInterfaces EsQueue FrameReceiver SidStorage EsCommands DropOldest

/-- A run with every frame that it passed to the queue of the BLE outbox, each with the link
on which the frame had arrived that made the handler send it. -/
structure Trace where
  gateway : State
  enqueued : List (Link × List UInt8)

def lastBuilt (g : State) (l : Link) : List UInt8 :=
  cells (g.itf l).outbox.bufferWrite 0 (g.itf l).outbox.bufferWriteLen

/-- What an event that leads from `g` to `g'` passes to the queue of the BLE outbox. -/
def enqueues (g g' : State) : Event → List (Link × List UInt8)
  | .idleInbox l answer =>
    match sends g (.idleInbox l answer) with
    | some f => if f.itf = .bth then [(l, lastBuilt g' .bth)] else []
    | none => []
  | .received _ _ => []
  | .idleOutbox _ => []

def Trace.step (t : Trace) (e : Event) : Option Trace :=
  (Gateway.step t.gateway e).map fun g => ⟨g, t.enqueued ++ enqueues t.gateway g e⟩

def expeditor (f : List UInt8) : UInt32 := (f.getD 2 0).toUInt32

def Attributed (t : Trace) : Prop := ∀ p ∈ t.enqueued, expeditor p.2 = esHostCC430 → p.1 = .cc430

def NoAnswerOverBle (t : Trace) : Event → Prop
  | .idleInbox .bth answer => ∀ c, called t.gateway (.idleInbox .bth answer) = some c → c.recpt ≠ esMaster
  | .idleInbox .cc430 _ => True
  | .received _ _ => True
  | .idleOutbox _ => True

theorem expeditor_builtFrame (expdt recpt : UInt32) (opCode : UInt8) (payload : List UInt8)
    (h : expdt.toNat < 256) : expeditor (builtFrame expdt.toUInt8 recpt.toUInt8 opCode payload) = expdt := by
  rw [builtFrame_cons]
  change expdt.toUInt8.toUInt32 = expdt
  apply UInt32.toNat_inj.mp
  rw [UInt8.toNat_toUInt32, UInt32.toNat_toUInt8, Nat.mod_eq_of_lt h]

/-- A frame that was queued is the one in the write buffer. -/
theorem sendFrame_built {g g' : State} {f : SendFrame} (h : sendFrame g f = some g') :
    lastBuilt g' f.itf = builtFrame f.expdt.toUInt8 f.recpt.toUInt8 f.opCode f.payload := by
  obtain ⟨⟨outbox, ret⟩, hnew, rfl⟩ := Option.map_eq_some_iff.mp h
  have hmax := f.itf.maxFrameSize_le
  rw [lastBuilt, withOutbox_same]
  exact newOutgoingFrame_written (by omega) hnew

/-- A pass over an inbox that makes the handler send a frame has queued that frame. -/
theorem step_built {g g' : State} {l : Link} {answer : MemoryErrCode} {f : SendFrame}
    (hs : step g (.idleInbox l answer) = some g') (hf : sends g (.idleInbox l answer) = some f) :
    lastBuilt g' f.itf = builtFrame f.expdt.toUInt8 f.recpt.toUInt8 f.opCode f.payload := by
  obtain ⟨c, hc, hsent⟩ := Option.bind_eq_some_iff.mp hf
  obtain ⟨⟨device, sent⟩, hh, rfl⟩ := Option.bind_eq_some_iff.mp hsent
  rw [step] at hs
  change (idleInbox (g.itf l).receiver.inbox).2 = some c at hc
  rw [hc] at hs
  obtain ⟨device', sent', hh', hcase⟩ := dispatch_eq_some hs
  rw [withInbox_device, hh] at hh'
  obtain ⟨rfl, rfl⟩ := Prod.mk.inj (Option.some.inj hh')
  rcases hcase with ⟨hnone, _⟩ | ⟨f', hsame, hsend⟩
  · exact absurd hnone (Option.some_ne_none f)
  · rw [Option.some.inj hsame]
    exact sendFrame_built hsend

/-- What the handler of the BLE link sends to the client is a reply of its own, or an answer
in the name of the CC430 to a frame that was addressed to the master. -/
theorem bth_sends {d d' : Device} {c : HandlerCall} {answer : MemoryErrCode} {f : SendFrame}
    (h : handle .bth d c answer = some (d', some f)) (hitf : f.itf = .bth) :
    (f.expdt = esHostNrf ∧ c.recpt = esHostNrf) ∨ (f.expdt = esHostCC430 ∧ c.recpt = esMaster) := by
  rw [handle, commandHandler] at h
  by_cases hnrf : c.recpt = esHostNrf
  · rw [if_pos hnrf] at h
    obtain ⟨handled, _, he⟩ := Option.map_eq_some_iff.mp h
    obtain ⟨a, _, rfl⟩ := Option.map_eq_some_iff.mp (Prod.mk.inj he).2
    refine Or.inl ⟨?_, hnrf⟩
    simp only [replySendCommand]
    split <;> rfl
  · rw [if_neg hnrf] at h
    have hs := (Prod.mk.inj (Option.some.inj h)).2
    rw [slaveCommandHandler] at hs
    split at hs
    · split at hs
      · exact absurd hs.symm (Option.some_ne_none f)
      · rw [← Option.some.inj hs] at hitf
        exact Link.noConfusion hitf
    · split at hs
      · rename_i hmaster
        rw [← Option.some.inj hs]
        refine Or.inr ⟨?_, hmaster⟩
        simp only [replyFromSlave]
        split <;> rfl
      · exact absurd hs.symm (Option.some_ne_none f)

/-- A frame for the master that came over BLE is answered in the name of the CC430. -/
theorem bth_answers_master (d : Device) {c : HandlerCall} (answer : MemoryErrCode)
    (h : c.recpt = esMaster) :
    ∃ f, handle .bth d c answer = some (d, some f) ∧ f.itf = .bth ∧ f.expdt = esHostCC430 := by
  have hnrf : ¬ c.recpt = esHostNrf := by
    rw [h]
    decide
  have hcc : ¬ c.recpt = esHostCC430 := by
    rw [h]
    decide
  refine ⟨replyFromSlave esHostCC430.toUInt8 c.payload c.len, ?_, ?_, ?_⟩
  · rw [handle, commandHandler, if_neg hnrf, slaveCommandHandler, if_neg hcc, if_pos h]
  · simp only [replyFromSlave]
    split <;> rfl
  · simp only [replyFromSlave]
    split <;> rfl

private theorem bth_enqueues {t : Trace} {g : State} {answer : MemoryErrCode}
    (hs : step t.gateway (.idleInbox .bth answer) = some g) :
    (∀ p ∈ enqueues t.gateway g (.idleInbox .bth answer), expeditor p.2 = esHostCC430 → p.1 = .cc430) ↔
      NoAnswerOverBle t (.idleInbox .bth answer) := by
  simp only [enqueues, NoAnswerOverBle]
  constructor
  · intro hall c hc hmaster
    obtain ⟨f, hf, hitf, hexpdt⟩ := bth_answers_master t.gateway.device answer hmaster
    have hsend : sends t.gateway (.idleInbox .bth answer) = some f := by
      rw [sends, hc, Option.bind_some, hf]
      rfl
    have hbuilt := step_built hs hsend
    rw [hitf] at hbuilt
    simp only [hsend, hitf, if_true, List.mem_singleton, forall_eq, hbuilt] at hall
    have hcc : expeditor (builtFrame f.expdt.toUInt8 f.recpt.toUInt8 f.opCode f.payload) = esHostCC430 := by
      rw [hexpdt]
      exact expeditor_builtFrame _ _ _ _ (by decide)
    exact Link.noConfusion (hall hcc)
  · intro hno
    cases hsend : sends t.gateway (.idleInbox .bth answer) with
    | none =>
      intro p hp
      exact absurd hp List.not_mem_nil
    | some f =>
      dsimp only
      split
      · rename_i hitf
        have hbuilt := step_built hs hsend
        rw [hitf] at hbuilt
        obtain ⟨c, hc, hsent⟩ := Option.bind_eq_some_iff.mp hsend
        obtain ⟨⟨d', sent⟩, hh, rfl⟩ := Option.bind_eq_some_iff.mp hsent
        obtain ⟨hexpdt, _⟩ | ⟨_, hmaster⟩ := bth_sends hh hitf
        · simp only [List.mem_singleton, forall_eq, hbuilt, hexpdt]
          rw [expeditor_builtFrame _ _ _ _ (by decide)]
          intro h
          exact absurd h (by decide)
        · exact absurd hmaster (hno c hc)
      · intro p hp
        exact absurd hp List.not_mem_nil

/-- One event keeps the attribution exactly if it is no answer over BLE. -/
theorem attributed_step {t t' : Trace} {e : Event} (hs : t.step e = some t') :
    Attributed t' ↔ Attributed t ∧ NoAnswerOverBle t e := by
  obtain ⟨g, hg, rfl⟩ := Option.map_eq_some_iff.mp hs
  have hnew : Attributed ⟨g, t.enqueued ++ enqueues t.gateway g e⟩ ↔ Attributed t ∧
      ∀ p ∈ enqueues t.gateway g e, expeditor p.2 = esHostCC430 → p.1 = .cc430 := by
    simp only [Attributed, List.forall_mem_append]
  rw [hnew]
  refine and_congr_right fun _ => ?_
  cases e with
  | received l chunk => simp [enqueues, NoAnswerOverBle]
  | idleOutbox l => simp [enqueues, NoAnswerOverBle]
  | idleInbox l answer =>
    cases l with
    | bth => exact bth_enqueues hg
    | cc430 =>
      simp only [enqueues, NoAnswerOverBle, iff_true]
      intro p hp _
      split at hp
      · split at hp
        · rw [List.mem_singleton.mp hp]
        · exact absurd hp List.not_mem_nil
      · exact absurd hp List.not_mem_nil

/-- In every run, all frames for the client in the name of the CC430 have come from it
exactly if the handler of the BLE link was never given a frame for the master. -/
theorem provenance_iff (behindIn behindRead : Link → Nat → UInt8) (device : Device) (events : List Event)
    {t : Trace} (hrun : Runs.run Trace.step ⟨init behindIn behindRead device, []⟩ events = some t) :
    Attributed t ↔ Runs.Along Trace.step NoAnswerOverBle ⟨init behindIn behindRead device, []⟩ events := by
  have hstart : Attributed ⟨init behindIn behindRead device, []⟩ := fun p hp => absurd hp List.not_mem_nil
  rw [Runs.run_iff (I := fun _ => True) (fun _ _ _ _ _ => trivial) (fun _ _ _ _ h => attributed_step h)
    trivial hrun]
  exact and_iff_right hstart

/-- A whole frame for the master is answered to the client, whichever link it is read from. -/
theorem step_answers {g : State} (hsound : Sound g) {l : Link} {f : List UInt8}
    (hread : (EsQueue.read (g.itf l).receiver.inbox.queue).data = f)
    (hready : (g.itf l).receiver.inbox.ready = true) (hwf : WellFormed f) (hlen : f.length ≤ 254)
    (hrecpt : (f.getD 3 0).toUInt32 = esMaster) (answer : MemoryErrCode) :
    ∃ g', step g (.idleInbox l answer) = some g' := by
  have hmin := hwf.minimum
  obtain ⟨c, hcall, hc⟩ := called_frame hread hready hwf.len_eq hmin (by omega) answer
  have hmaster : c.recpt = esMaster := hc.recpt.trans hrecpt
  have hhandle : handle l g.device c answer = some (g.device, some (answerFrame f)) := by
    rw [← slave_relays hc hmin hrecpt]
    cases l with
    | bth => exact bth_to_slave (by rw [hmaster]; decide) answer
    | cc430 => rfl
  have hfit : headerSize + 1 + (answerFrame f).payload.length ≤ 254 := by
    have hpay := payloadOf_length hmin
    rw [answerFrame]
    dsimp only
    split
    · omega
    · decide
  obtain ⟨g', hs, _⟩ := answer_appends hsound l (idleInbox (g.itf l).receiver.inbox).1 hfit
  refine ⟨g', ?_⟩
  have hinbox : (idleInbox (g.itf l).receiver.inbox).2 = some c := hcall
  simp only [step, handOver, hinbox, dispatch, withInbox_device, hhandle, Option.bind_some]
  exact hs

/-- A run of the interfaces, with its account. -/
private theorem trace_run (t : Trace) (events : List Event) {g : State}
    (hr : Runs.run step t.gateway events = some g) :
    ∃ t', Runs.run Trace.step t events = some t' ∧ t'.gateway = g := by
  induction events generalizing t with
  | nil => exact ⟨t, rfl, Option.some.inj hr⟩
  | cons e events ih =>
    obtain ⟨mid, hs, hr⟩ := Option.bind_eq_some_iff.mp hr
    rw [Runs.run, Trace.step, hs]
    exact ih ⟨mid, t.enqueued ++ enqueues t.gateway mid e⟩ hr

/-- A frame for the master arrives whole on a link and is handed over. -/
private theorem answered_run (l : Link) {f : List UInt8} (hwf : WellFormed f) (hlen : f.length ≤ 254)
    (hrecpt : (f.getD 3 0).toUInt32 = esMaster) :
    ∃ mid t, Runs.run Trace.step ⟨init (fun _ _ => 0) (fun _ _ => 0) atRest, []⟩ [.received l f] = some mid ∧
      mid.step (.idleInbox l .none) = some t ∧
      ∃ c, called mid.gateway (.idleInbox l .none) = some c ∧ c.recpt = esMaster := by
  obtain ⟨hacc, hne⟩ := accept_wellFormed hwf
  obtain ⟨g, hrun, hread, hready, _⟩ :=
    received_frame (fun _ _ => 0) (fun _ _ => 0) atRest l hacc hne (hlen.trans l.le_maxFrameSize)
  have hsound := run_sound (init_sound _ _ _) hrun
  obtain ⟨g', hs⟩ := step_answers hsound hread hready hwf hlen hrecpt .none
  obtain ⟨mid, hmid, rfl⟩ := trace_run ⟨init (fun _ _ => 0) (fun _ _ => 0) atRest, []⟩ _ hrun
  obtain ⟨c, hcall, hc⟩ := called_frame hread hready hwf.len_eq hwf.minimum (by omega) .none
  have hstep : mid.step (.idleInbox l .none) =
      some ⟨g', mid.enqueued ++ enqueues mid.gateway g' (.idleInbox l .none)⟩ := by
    rw [Trace.step, hs]
    rfl
  exact ⟨mid, _, hmid, hstep, c, hcall, hc.recpt.trans hrecpt⟩

/-- An answer that arrives from the CC430. -/
theorem provenance_iff_answer :
    let f := [0xAA, 0x55, 0x02, 0x00, 0x09, 0x00, 0xF0, 0x01, 0x05]
    ∃ t, Runs.run Trace.step ⟨init (fun _ _ => 0) (fun _ _ => 0) atRest, []⟩
      [.received .cc430 f, .idleInbox .cc430 .none] = some t ∧ Attributed t := by
  intro f
  obtain ⟨mid, t, hmid, hs, _⟩ := answered_run .cc430 (f := f) (by decide) (by decide) (by decide)
  have hrun : Runs.run Trace.step ⟨init (fun _ _ => 0) (fun _ _ => 0) atRest, []⟩
      ([.received .cc430 f] ++ [.idleInbox .cc430 .none]) = some t := by
    rw [Runs.run_concat, hmid]
    exact hs
  exact ⟨t, hrun, (provenance_iff _ _ atRest _ hrun).mpr ⟨trivial, fun _ _ => ⟨trivial, fun _ _ => trivial⟩⟩⟩

/-- The same bytes written over BLE are answered as if the CC430 had spoken. -/
theorem answer_forged_over_ble :
    let f := [0xAA, 0x55, 0x02, 0x00, 0x09, 0x00, 0xF0, 0x01, 0x05]
    ∃ t, Runs.run Trace.step ⟨init (fun _ _ => 0) (fun _ _ => 0) atRest, []⟩
      [.received .bth f, .idleInbox .bth .none] = some t ∧ ¬ Attributed t := by
  intro f
  obtain ⟨mid, t, hmid, hs, c, hcall, hmaster⟩ :=
    answered_run .bth (f := f) (by decide) (by decide) (by decide)
  refine ⟨t, ?_, fun hattr => ?_⟩
  · change Runs.run Trace.step _ ([.received .bth f] ++ [.idleInbox .bth .none]) = some t
    rw [Runs.run_concat, hmid]
    exact hs
  · exact ((attributed_step hs).mp hattr).2 c hcall hmaster

end SidFirmware.Gateway
