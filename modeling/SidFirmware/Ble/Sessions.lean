import SidFirmware.Ble.Uart
import SidFirmware.Interfaces.Prospect
import SidFirmware.Libraries.BuiltFrames

/-! One connection after another: the events of `vBleUart_onBleEvtHandler` over the state
of `BLE/BLE_Uart.c` and of the inbox of `BLE/BT_Interface.c`. A disconnection resets the
sender; what `vBT_ITF_DataReceived` has collected outlives it. -/
namespace SidFirmware.BleSession
open Memory EsProtocol EsInterfaces FrameReceiver

structure State where
  uart : BleUart.Uart
  receiver : Receiver

/-- The BLE events that concern a connection or its reception, and a pass of the inbox half of
`vBT_ITF_IdleTask`. A write to the characteristic may carry any bytes, or none. -/
inductive Event where
  | connected
  | disconnected
  | gapTimeout
  | cccd (enabled : Bool)
  | written (chunk : List UInt8)
  | idleInbox

/-- After the static initialisers and `vBT_ITF_Init`, before anything is connected. -/
def init (storage behindIn behindRead : Nat → UInt8) : State where
  uart := { BleUart.session BleUart.defaultMtuSegBufferSize storage with
    connected := false, notificationEnabled := false }
  receiver := Link.bth.init behindIn behindRead

/-- `vBleUart_onBleEvtHandler` and the idle task. -/
def step (s : State) : Event → Option State
  | .connected => some { s with uart := BleUart.onConnect s.uart }
  | .disconnected => some { s with uart := BleUart.reset s.uart }
  | .gapTimeout => some { s with uart := BleUart.reset s.uart }
  | .cccd enabled => some { s with uart := BleUart.onWriteCccd s.uart enabled }
  | .written chunk => (btItfDataReceived s.receiver chunk).map fun d => { s with receiver := d.receiver }
  | .idleInbox => some { s with receiver := { s.receiver with inbox := (idleInbox s.receiver.inbox).1 } }

def enqueues (s : State) : Event → Option (List UInt8)
  | .written chunk =>
    ((btItfDataReceived s.receiver chunk).bind Received.written).filter fun f =>
      (EsQueue.write s.receiver.inbox.queue f).2 ≠ EsQueue.failed
  | _ => none

/-- A state and the frames enqueued since the trace was started. -/
structure Trace where
  state : State
  enqueued : List (List UInt8)

def Trace.step (t : Trace) (e : Event) : Option Trace :=
  (BleSession.step t.state e).map fun s => ⟨s, t.enqueued ++ (enqueues t.state e).toList⟩

/-- The frames that the events enqueue, if every one of them is handled to its end. -/
def parsed (s : State) (events : List Event) : Option (List (List UInt8)) :=
  (Runs.run Trace.step ⟨s, []⟩ events).map Trace.enqueued

def Isolated (s t : State) : Prop := ∀ events, parsed s events = parsed t events

/-- The bytes that were received and neither recognised nor dropped. -/
def collected (s : State) : List UInt8 := cells s.receiver.inBuffer 0 s.receiver.inBufferSize

/-- What of a connection the next one is parsed by. -/
def State.prospect (s : State) : Prospect := FrameReceiver.prospect Link.bth.maxFrameSize (collected s)

/-- Frames are enqueued as they are recognised, but for empty ones. -/
theorem enqueues_written (s : State) (chunk : List UInt8) :
    enqueues s (.written chunk) =
      ((btItfDataReceived s.receiver chunk).bind Received.written).filter (· ≠ []) := by
  rw [enqueues]
  congr 1
  funext f
  simp only [Ne, EsQueue.write_eq_failed_iff]

/-- The memory behind the collected bytes is as the last clearing left it. -/
def Cleared (behindIn : Nat → UInt8) (r : Receiver) : Prop :=
  r.inBufferSize ≤ Link.bth.maxFrameSize ∧ ∀ k, r.inBufferSize ≤ k →
    r.inBuffer k = copyIn behindIn 0 (List.replicate Link.bth.maxFrameSize 0) k

/-- Between two calls the buffer holds bytes that were not recognised. -/
structure Rests (behindIn : Nat → UInt8) (r : Receiver) (bs : List UInt8) : Prop where
  holds : Holds Link.bth.maxFrameSize r bs
  cleared : Cleared behindIn r
  silent : accept bs = none

theorem init_rests (behindIn behindRead : Nat → UInt8) : Rests behindIn (Link.bth.init behindIn behindRead) [] :=
  ⟨init_holds .bth behindIn behindRead, ⟨Nat.zero_le _, fun _ _ => rfl⟩, rfl⟩

theorem Rests.inbox {behindIn : Nat → UInt8} {r : Receiver} {bs : List UInt8} (h : Rests behindIn r bs)
    (inbox : Inbox) : Rests behindIn { r with inbox } bs :=
  ⟨⟨h.holds.size_eq, h.holds.fits, h.holds.bytes⟩, h.cleared, h.silent⟩

section Receiving
variable {behindIn : Nat → UInt8} {r : Receiver}

private theorem appendByte_cleared (h : Cleared behindIn r) (b : UInt8) :
    Cleared behindIn (appendByte Link.bth.maxFrameSize r b) := by
  have hmax : Link.bth.maxFrameSize = 254 := rfl
  unfold appendByte
  by_cases hlt : r.inBufferSize < Link.bth.maxFrameSize
  · rw [if_pos hlt]
    have hsize : (r.inBufferSize + 1) % 2 ^ 8 = r.inBufferSize + 1 := Nat.mod_eq_of_lt (by omega)
    refine ⟨by simp only [hsize]; omega, fun k hk => ?_⟩
    simp only [hsize] at hk
    exact (Function.update_of_ne (by omega) _ _).trans (h.2 k (by omega))
  · rw [if_neg hlt]
    exact h

private theorem append_cleared (h : Cleared behindIn r) (chunk : List UInt8) :
    Cleared behindIn (chunk.foldl (appendByte Link.bth.maxFrameSize) r) := by
  induction chunk generalizing r with
  | nil => exact h
  | cons b chunk ih => exact ih (appendByte_cleared h b)

private theorem clear_cleared (h : Cleared behindIn r) (inbox : Inbox) :
    Cleared behindIn ⟨copyIn r.inBuffer 0 (List.replicate Link.bth.maxFrameSize 0), 0, inbox⟩ := by
  refine ⟨Nat.zero_le _, fun k _ => ?_⟩
  by_cases hk : k < Link.bth.maxFrameSize
  · have hzeros : k - 0 < (List.replicate Link.bth.maxFrameSize (0 : UInt8)).length := by simpa using hk
    rw [copyIn_inside behindIn _ _ _ (Nat.zero_le k) hzeros]
    exact copyIn_inside r.inBuffer _ _ _ (Nat.zero_le k) hzeros
  · have hrest := h.2 k (by have := h.1; omega)
    simp only [copyIn, Nat.zero_le, if_true, Nat.sub_zero] at hrest ⊢
    rw [List.getElem?_eq_none (by simpa using hk)] at hrest ⊢
    exact hrest

theorem received_cleared (h : Cleared behindIn r) {chunk : List UInt8} {d : Received}
    (hd : btItfDataReceived r chunk = some d) : Cleared behindIn d.receiver := by
  have happ := append_cleared h chunk
  rw [btItfDataReceived, receive] at hd
  split at hd
  · exact absurd hd.symm (Option.some_ne_none d)
  · split at hd
    · rw [← Option.some.inj hd]
      exact clear_cleared happ _
    · rw [← Option.some.inj hd]
      exact happ

/-- One call that offers a byte or more to the validator. -/
theorem received_rests {bs chunk : List UInt8} (h : Rests behindIn r bs)
    (hne : Assembler.fill Link.bth.maxFrameSize bs chunk ≠ []) :
    ∃ r', btItfDataReceived r chunk = some ⟨r', accept (Assembler.fill Link.bth.maxFrameSize bs chunk)⟩ ∧
      Rests behindIn r' (leftover (Assembler.fill Link.bth.maxFrameSize bs chunk)) ∧
      r'.inbox = deliver r.inbox (accept (Assembler.fill Link.bth.maxFrameSize bs chunk)) := by
  obtain ⟨r', hd, hholds, hinbox⟩ := dataReceived_spec .bth h.holds hne
  refine ⟨r', hd, ⟨hholds, received_cleared h.cleared hd, ?_⟩, hinbox⟩
  cases ha : accept (Assembler.fill Link.bth.maxFrameSize bs chunk) with
  | none => rwa [leftover_of_none ha]
  | some f =>
    rw [leftover_of_some ha]
    rfl

/-- A call that offers nothing searches the memory behind an empty buffer. -/
private theorem received_nothing_written (h : r.inBufferSize = 0) :
    (btItfDataReceived r []).map Received.written =
      (checkForValidFrame r.inBuffer 0).map fun a =>
        if a.1 = .validFrame then some (cells r.inBuffer a.2 (getFrameLen r.inBuffer a.2)) else none := by
  rw [btItfDataReceived, receive, List.foldl_nil, newIncomingFrame, h]
  cases checkForValidFrame r.inBuffer 0 with
  | none => rfl
  | some a =>
    obtain ⟨code, p⟩ := a
    cases code with
    | receiving => rfl
    | validFrame => rfl
    | failed => rfl

theorem received_nothing_rests {d : Received} (h : Rests behindIn r [])
    (hd : btItfDataReceived r [] = some d) : Rests behindIn d.receiver [] :=
  ⟨dataReceived_empty .bth h.holds rfl hd, received_cleared h.cleared hd, rfl⟩

theorem received_total_rests {bs chunk : List UInt8} {d : Received} (h : Rests behindIn r bs)
    (hd : btItfDataReceived r chunk = some d) : ∃ bs', Rests behindIn d.receiver bs' := by
  by_cases hne : Assembler.fill Link.bth.maxFrameSize bs chunk = []
  · exact ⟨[], dataReceived_empty .bth h.holds hne hd, received_cleared h.cleared hd, rfl⟩
  · obtain ⟨r', hd', hrests, _⟩ := received_rests h hne
    obtain rfl := Option.some.inj (hd'.symm.trans hd)
    exact ⟨_, hrests⟩

end Receiving

section Pairs
variable {behindIn : Nat → UInt8}

def Paired (behindIn : Nat → UInt8) (r r' : Receiver) : Prop :=
  ∃ bs cs, Rests behindIn r bs ∧ Rests behindIn r' cs ∧ Assembler.Alike Link.bth.rules bs cs ∧
    (bs = [] ↔ cs = [])

theorem Rests.paired {r r' : Receiver} {bs : List UInt8} (h : Rests behindIn r bs) (h' : Rests behindIn r' bs) :
    Paired behindIn r r' :=
  ⟨bs, bs, h, h', fun _ _ => rfl, Iff.rfl⟩

/-- A call on nothing, from two empty buffers. -/
private theorem received_nothing_paired {r r' : Receiver} (h : Rests behindIn r []) (h' : Rests behindIn r' []) :
    Option.Rel (fun d d' => d.written = d'.written ∧ Paired behindIn d.receiver d'.receiver)
      (btItfDataReceived r []) (btItfDataReceived r' []) := by
  have hsize : r.inBufferSize = 0 := h.holds.size_eq
  have hsize' : r'.inBufferSize = 0 := h'.holds.size_eq
  have hbuffer : r.inBuffer = r'.inBuffer := by
    funext k
    rw [h.cleared.2 k (by omega), h'.cleared.2 k (by omega)]
  have hwritten : (btItfDataReceived r []).map Received.written =
      (btItfDataReceived r' []).map Received.written := by
    rw [received_nothing_written hsize, received_nothing_written hsize', hbuffer]
  cases hd : btItfDataReceived r [] with
  | none =>
    rw [hd, Option.map_none, eq_comm, Option.map_eq_none_iff] at hwritten
    rw [hwritten]
    exact .none
  | some d =>
    rw [hd, Option.map_some, eq_comm, Option.map_eq_some_iff] at hwritten
    obtain ⟨d', hd', heq⟩ := hwritten
    rw [hd']
    exact .some ⟨heq.symm, (received_nothing_rests h hd).paired (received_nothing_rests h' hd')⟩

/-- Any call keeps a pair and is answered alike. -/
theorem received_paired {r r' : Receiver} (h : Paired behindIn r r') (chunk : List UInt8) :
    Option.Rel (fun d d' => d.written = d'.written ∧ Paired behindIn d.receiver d'.receiver)
      (btItfDataReceived r chunk) (btItfDataReceived r' chunk) := by
  obtain ⟨bs, cs, hr, hr', halike, hempty⟩ := h
  by_cases hne : Assembler.fill Link.bth.maxFrameSize bs chunk = []
  · obtain ⟨rfl, rfl⟩ := (Assembler.fill_eq_nil_iff (by decide)).mp hne
    obtain rfl := hempty.mp rfl
    exact received_nothing_paired hr hr'
  · have hne' : Assembler.fill Link.bth.maxFrameSize cs chunk ≠ [] := by
      rw [Ne, Assembler.fill_eq_nil_iff (by decide), ← hempty]
      exact fun he => hne ((Assembler.fill_eq_nil_iff (by decide)).mpr he)
    have hacc : accept (Assembler.fill Link.bth.maxFrameSize bs chunk) =
        accept (Assembler.fill Link.bth.maxFrameSize cs chunk) := by
      by_cases hc : chunk = []
      · rw [hc, Assembler.fill_nil hr.holds.fits, Assembler.fill_nil hr'.holds.fits, hr.silent, hr'.silent]
      · exact halike chunk hc
    obtain ⟨d, hd, hrests, _⟩ := received_rests hr hne
    obtain ⟨d', hd', hrests', _⟩ := received_rests hr' hne'
    rw [hd, hd']
    refine .some ⟨hacc, _, _, hrests, hrests', ?_⟩
    cases ha : accept (Assembler.fill Link.bth.maxFrameSize bs chunk) with
    | none =>
      rw [leftover_of_none ha, leftover_of_none (hacc.symm.trans ha)]
      exact ⟨halike.fill chunk, iff_of_false hne hne'⟩
    | some f =>
      rw [leftover_of_some ha, leftover_of_some (hacc.symm.trans ha)]
      exact ⟨fun _ _ => rfl, Iff.rfl⟩

/-- The step of two traces that parse alike. -/
private theorem trace_paired {t u : Trace} (h : Paired behindIn t.state.receiver u.state.receiver)
    (hlog : t.enqueued = u.enqueued) (e : Event) :
    Option.Rel (fun t u => Paired behindIn t.state.receiver u.state.receiver ∧ t.enqueued = u.enqueued)
      (t.step e) (u.step e) := by
  cases e with
  | connected => exact .some ⟨h, congrArg (· ++ []) hlog⟩
  | disconnected => exact .some ⟨h, congrArg (· ++ []) hlog⟩
  | gapTimeout => exact .some ⟨h, congrArg (· ++ []) hlog⟩
  | cccd enabled => exact .some ⟨h, congrArg (· ++ []) hlog⟩
  | idleInbox =>
    obtain ⟨bs, cs, hr, hr', halike⟩ := h
    exact .some ⟨⟨bs, cs, hr.inbox _, hr'.inbox _, halike⟩, congrArg (· ++ []) hlog⟩
  | written chunk =>
    have hrel := received_paired h chunk
    simp only [Trace.step, step, enqueues_written]
    revert hrel
    generalize btItfDataReceived t.state.receiver chunk = received
    generalize btItfDataReceived u.state.receiver chunk = received'
    rintro (⟨hwritten, hpaired⟩ | _)
    · refine .some ⟨hpaired, ?_⟩
      simp only [Option.bind_some, hlog, hwritten]
    · exact .none

theorem Paired.isolated {s t : State} (h : Paired behindIn s.receiver t.receiver) : Isolated s t := by
  intro events
  have hrel := Runs.run_rel (R := fun t u : Trace => Paired behindIn t.state.receiver u.state.receiver ∧
    t.enqueued = u.enqueued) (fun _ _ e h => trace_paired h.1 h.2 e) (s := ⟨s, []⟩) (t := ⟨t, []⟩) ⟨h, rfl⟩ events
  unfold parsed
  revert hrel
  generalize Runs.run Trace.step ⟨s, []⟩ events = last
  generalize Runs.run Trace.step ⟨t, []⟩ events = last'
  rintro (⟨_, hlog⟩ | _)
  · exact congrArg some hlog
  · rfl

end Pairs

section Telling
variable {behindIn : Nat → UInt8}

private theorem run_enqueued (s : State) (fs : List (List UInt8)) (events : List Event) :
    (Runs.run Trace.step ⟨s, fs⟩ events).map Trace.enqueued = (parsed s events).map (fs ++ ·) := by
  unfold parsed
  induction events generalizing s fs with
  | nil => simp [Runs.run]
  | cons e events ih =>
    simp only [Runs.run, Trace.step]
    cases step s e with
    | none => rfl
    | some s' =>
      simp only [Option.map_some, Option.bind_some, List.nil_append]
      rw [ih s' (fs ++ _), ih s' (enqueues s e).toList]
      cases Runs.run Trace.step ⟨s', []⟩ events with
      | none => rfl
      | some t => simp

theorem parsed_cons (s : State) (e : Event) (events : List Event) :
    parsed s (e :: events) =
      (step s e).bind fun s' => (parsed s' events).map ((enqueues s e).toList ++ ·) := by
  rw [parsed, Runs.run, Trace.step]
  cases step s e with
  | none => rfl
  | some s' => exact run_enqueued s' _ events

/-- States that parse alike enqueue the same frame, and go on to parse alike. -/
theorem Isolated.step {s t s' t' : State} (h : Isolated s t) {e : Event} (hs : BleSession.step s e = some s')
    (ht : BleSession.step t e = some t') : enqueues s e = enqueues t e ∧ Isolated s' t' := by
  have hparsed : ∀ events, (parsed s' events).map ((enqueues s e).toList ++ ·) =
      (parsed t' events).map ((enqueues t e).toList ++ ·) := by
    intro events
    have hcons := h (e :: events)
    rwa [parsed_cons, parsed_cons, hs, ht] at hcons
  have hsame : enqueues s e = enqueues t e := by
    have hnil : (enqueues s e).toList = (enqueues t e).toList := by
      simpa [parsed, Runs.run] using hparsed []
    rw [← Option.head?_toList (o := enqueues s e), hnil, Option.head?_toList]
  refine ⟨hsame, fun events => ?_⟩
  have hevents := hparsed events
  rw [hsame] at hevents
  exact Option.map_injective (List.append_right_injective _) hevents

/-- A write of one byte or more to a buffer that rests. -/
theorem written_rests {s : State} {bs chunk : List UInt8} (h : Rests behindIn s.receiver bs) (hc : chunk ≠ []) :
    ∃ s', step s (.written chunk) = some s' ∧
      Rests behindIn s'.receiver (leftover (Assembler.fill Link.bth.maxFrameSize bs chunk)) ∧
      enqueues s (.written chunk) =
        (accept (Assembler.fill Link.bth.maxFrameSize bs chunk)).filter (· ≠ []) := by
  obtain ⟨r', hd, hrests, _⟩ := received_rests h fun he => hc ((Assembler.fill_eq_nil_iff (by decide)).mp he).2
  refine ⟨{ s with receiver := r' }, ?_, hrests, ?_⟩
  · rw [step, hd]
    rfl
  · rw [enqueues_written, hd]
    rfl

def longest : List UInt8 := builtFrame 0 0 0 (List.replicate 246 0)

theorem longest_wellFormed : WellFormed longest :=
  builtFrame_wellFormed 0 0 0 (by rw [List.length_replicate]; decide)

theorem longest_length : longest.length = Link.bth.maxFrameSize := by
  rw [longest, builtFrame_length, List.length_replicate]
  rfl

/-- Its first byte occurs only there. -/
private theorem longest_tail : commandHeaderLSB ∉ longest.tail := by
  have hcheck : xorAll (frameBody 0 0 0 (List.replicate 246 0)) = 0x01 := by
    simp only [frameBody]
    rw [xorAll_append, xorAll_replicate, List.length_replicate]
    rfl
  rw [longest, builtFrame_cons, hcheck, List.length_replicate]
  simp only [List.tail_cons, List.mem_cons, List.mem_append, List.mem_replicate, List.not_mem_nil]
  decide

/-- Only an empty buffer recognises the longest frame. -/
theorem accept_fill_longest {bs : List UInt8} (hfit : bs.length ≤ Link.bth.maxFrameSize) (hnone : accept bs = none)
    (h : accept (Assembler.fill Link.bth.maxFrameSize bs longest) = some longest) : bs = [] := by
  have hinf : longest <:+: Assembler.fill Link.bth.maxFrameSize bs longest := rules_sound .bth _ _ h
  have hle : (Assembler.fill Link.bth.maxFrameSize bs longest).length ≤ longest.length := by
    rw [longest_length, Assembler.fill, List.length_take]
    exact Nat.min_le_left _ _
  have heq := hinf.eq_of_length (le_antisymm hinf.length_le hle)
  by_contra hne
  by_cases hfull : bs.length = Link.bth.maxFrameSize
  · rw [Assembler.fill, List.take_append_of_le_length (le_of_eq hfull.symm), List.take_of_length_le hfit,
      hnone] at h
    exact absurd h.symm (Option.some_ne_none _)
  · -- otherwise its first byte stands again behind the bytes that were there
    obtain ⟨k, hk⟩ : ∃ k, Link.bth.maxFrameSize - bs.length = k + 1 :=
      ⟨Link.bth.maxFrameSize - bs.length - 1, by omega⟩
    obtain ⟨b, bs, rfl⟩ := List.exists_cons_of_ne_nil hne
    have hhead : ∃ rest, longest.take (k + 1) = commandHeaderLSB :: rest := ⟨_, rfl⟩
    obtain ⟨rest, hrest⟩ := hhead
    have htail := congrArg List.tail heq
    rw [Assembler.fill, List.take_append, List.take_of_length_le hfit, hk, hrest] at htail
    apply longest_tail
    rw [htail]
    simp

theorem Isolated.symm {s t : State} (h : Isolated s t) : Isolated t s := fun events => (h events).symm

/-- The longest frame tells an empty buffer from one that is not. -/
private theorem not_isolated_of_nil {s t : State} {bs : List UInt8} (hs : Rests behindIn s.receiver bs)
    (hne : bs ≠ []) (ht : Rests behindIn t.receiver []) : ¬ Isolated s t := by
  intro h
  have hlong : longest ≠ [] := List.ne_nil_of_length_pos (by rw [longest_length]; decide)
  obtain ⟨s', hs', _, hes⟩ := written_rests hs hlong
  obtain ⟨t', ht', _, het⟩ := written_rests ht hlong
  have hempty : Assembler.fill Link.bth.maxFrameSize [] longest = longest := by
    rw [Assembler.fill_eq (by rw [List.nil_append, longest_length]), List.nil_append]
  have hacc := accept_append longest_wellFormed []
  rw [List.append_nil] at hacc
  have hsame := (h.step hs' ht').1
  rw [hes, het, hempty, hacc, Option.filter_some, if_pos (by simpa using hlong),
    Option.filter_eq_some_iff] at hsame
  exact hne (accept_fill_longest hs.holds.fits hs.silent hsame.1)

private theorem eq_of_filter {f g : List UInt8}
    (h : (some f).filter (· ≠ []) = (some g).filter (· ≠ [])) : f = g := by
  rw [Option.filter_some, Option.filter_some] at h
  by_cases hf : f = []
  · by_cases hg : g = []
    · rw [hf, hg]
    · simp [hf, hg] at h
  · by_cases hg : g = []
    · simp [hf, hg] at h
    · simpa [hf, hg] using h

/-- Where nothing that follows is parsed differently, the buffers are alike. -/
theorem Isolated.alike {s t : State} {bs cs : List UInt8} (h : Isolated s t) (hs : Rests behindIn s.receiver bs)
    (ht : Rests behindIn t.receiver cs) : Assembler.Alike Link.bth.rules bs cs := by
  intro c hc
  obtain ⟨s', hs', hrs, hes⟩ := written_rests hs hc
  obtain ⟨t', ht', hrt, het⟩ := written_rests ht hc
  obtain ⟨hsame, hnext⟩ := h.step hs' ht'
  have hfull : ∀ ds, Assembler.fill Link.bth.maxFrameSize ds c ≠ [] :=
    fun ds he => hc ((Assembler.fill_eq_nil_iff (by decide)).mp he).2
  rw [hes, het] at hsame
  change accept (Assembler.fill Link.bth.maxFrameSize bs c) = accept (Assembler.fill Link.bth.maxFrameSize cs c)
  -- an empty frame enqueues nothing, but it empties the buffer
  cases ha : accept (Assembler.fill Link.bth.maxFrameSize bs c) with
  | none =>
    cases hb : accept (Assembler.fill Link.bth.maxFrameSize cs c) with
    | none => rfl
    | some g =>
      rw [leftover_of_none ha] at hrs
      rw [leftover_of_some hb] at hrt
      exact absurd hnext (not_isolated_of_nil hrs (hfull bs) hrt)
  | some f =>
    cases hb : accept (Assembler.fill Link.bth.maxFrameSize cs c) with
    | none =>
      rw [leftover_of_some ha] at hrs
      rw [leftover_of_none hb] at hrt
      exact absurd hnext.symm (not_isolated_of_nil hrt (hfull cs) hrs)
    | some g =>
      rw [ha, hb] at hsame
      exact congrArg some (eq_of_filter hsame)

end Telling

theorem Rests.collected {behindIn : Nat → UInt8} {s : State} {bs : List UInt8}
    (h : Rests behindIn s.receiver bs) : collected s = bs := by
  rw [BleSession.collected, h.holds.size_eq]
  exact h.holds.bytes

/-- Two states parse alike exactly if their buffers have one prospect. -/
theorem isolated_iff {behindIn : Nat → UInt8} {s t : State} {bs cs : List UInt8}
    (hs : Rests behindIn s.receiver bs) (ht : Rests behindIn t.receiver cs) :
    Isolated s t ↔ s.prospect = t.prospect := by
  have hprospects := alike_iff_prospect .bth hs.holds.fits ht.holds.fits hs.silent ht.silent
  rw [State.prospect, State.prospect, hs.collected, ht.collected, ← hprospects]
  refine ⟨fun h => h.alike hs ht, fun h => ?_⟩
  have hempty : bs = [] ↔ cs = [] := by
    rw [← prospect_eq_nil (by decide) hs.holds.fits, hprospects.mp h, prospect_eq_nil (by decide) ht.holds.fits]
  exact Paired.isolated ⟨bs, cs, hs, ht, h, hempty⟩

theorem step_rests {behindIn : Nat → UInt8} {s s' : State} {e : Event} (h : ∃ bs, Rests behindIn s.receiver bs)
    (hs : step s e = some s') : ∃ bs, Rests behindIn s'.receiver bs := by
  obtain ⟨bs, hrests⟩ := h
  cases e with
  | connected => exact ⟨bs, Option.some.inj hs ▸ hrests⟩
  | disconnected => exact ⟨bs, Option.some.inj hs ▸ hrests⟩
  | gapTimeout => exact ⟨bs, Option.some.inj hs ▸ hrests⟩
  | cccd enabled => exact ⟨bs, Option.some.inj hs ▸ hrests⟩
  | idleInbox => exact ⟨bs, Option.some.inj hs ▸ hrests.inbox _⟩
  | written chunk =>
    obtain ⟨d, hd, rfl⟩ := Option.map_eq_some_iff.mp hs
    exact received_total_rests hrests hd

theorem run_rests {storage behindIn behindRead : Nat → UInt8} {events : List Event} {s : State}
    (hs : Runs.run step (init storage behindIn behindRead) events = some s) :
    ∃ bs, Rests behindIn s.receiver bs :=
  Runs.run_invariant (I := fun s : State => ∃ bs, Rests behindIn s.receiver bs) (c := fun _ => True)
    (fun _ _ _ h _ hstep => step_rests h hstep) ⟨[], init_rests behindIn behindRead⟩ (fun _ _ => trivial) hs

/-- After any two histories that end with a disconnection, drained or not, everything that
follows is parsed alike exactly if the bytes left in the buffer have one prospect. -/
theorem session_isolated_iff (storage behindIn behindRead : Nat → UInt8) (before before' : List Event) {s t : State}
    (hs : Runs.run step (init storage behindIn behindRead) (before ++ [.disconnected]) = some s)
    (ht : Runs.run step (init storage behindIn behindRead) (before' ++ [.disconnected]) = some t) :
    Isolated s t ↔ s.prospect = t.prospect := by
  obtain ⟨bs, hbs⟩ := run_rests hs
  obtain ⟨cs, hcs⟩ := run_rests ht
  exact isolated_iff hbs hcs

def visit (chunk : List UInt8) : List Event := [.connected, .written chunk, .idleInbox]

/-- If it is not recognised, it stays behind, and the inbox is drained. -/
private theorem run_visit (chunk : List UInt8) (hfit : chunk.length ≤ Link.bth.maxFrameSize)
    (hc : chunk ≠ []) (hnone : accept chunk = none) :
    ∃ s, Runs.run step (init (fun _ => 0) (fun _ => 0) fun _ => 0) (visit chunk ++ [.disconnected]) = some s ∧
      Rests (fun _ => 0) s.receiver chunk ∧ (EsQueue.read s.receiver.inbox.queue).data = [] := by
  have hfill : Assembler.fill Link.bth.maxFrameSize [] chunk = chunk := Assembler.fill_eq hfit
  have hfull : Assembler.fill Link.bth.maxFrameSize [] chunk ≠ [] := by rwa [hfill]
  obtain ⟨r', hd, hrests, hinbox⟩ := received_rests (init_rests (fun _ => 0) fun _ => 0) hfull
  rw [hfill, hnone] at hinbox
  rw [hfill, leftover_of_none hnone] at hrests
  refine ⟨⟨BleUart.reset (BleUart.onConnect (init (fun _ => 0) (fun _ => 0) fun _ => 0).uart),
    { r' with inbox := (idleInbox r'.inbox).1 }⟩, ?_, hrests.inbox _, ?_⟩
  · have hstep : btItfDataReceived (init (fun _ => 0) (fun _ => 0) fun _ => 0).receiver chunk =
        some ⟨r', accept (Assembler.fill Link.bth.maxFrameSize [] chunk)⟩ := hd
    simp only [visit, List.cons_append, List.nil_append, Runs.run, step, Option.bind_some, hstep, Option.map_some]
  · rw [hinbox]
    rfl

/-- Bytes before any header only take room. -/
theorem session_isolated_iff_noise :
    ∃ s t, Runs.run step (init (fun _ => 0) (fun _ => 0) fun _ => 0)
        (visit [0x01] ++ [.disconnected]) = some s ∧
      Runs.run step (init (fun _ => 0) (fun _ => 0) fun _ => 0)
        (visit [0x02] ++ [.disconnected]) = some t ∧ Isolated s t := by
  obtain ⟨s, hs, hrs, _⟩ := run_visit [0x01] (by decide) (by decide) (by decide)
  obtain ⟨t, ht, hrt, _⟩ := run_visit [0x02] (by decide) (by decide) (by decide)
  refine ⟨s, t, hs, ht, (session_isolated_iff (fun _ => 0) (fun _ => 0) (fun _ => 0) _ _ hs ht).mpr ?_⟩
  rw [State.prospect, State.prospect, hrs.collected, hrt.collected]
  decide

/-- The beginning of a frame swallows the whole frame of the next connection. -/
theorem half_frame_outlives_connection :
    let f := [0xAA, 0x55, 0x00, 0x01, 0x08, 0x00, 0x03, 0xF5]
    ∃ s t, Runs.run step (init (fun _ => 0) (fun _ => 0) fun _ => 0)
        (visit [0xAA, 0x55, 0x00, 0x01, 0x20, 0x00] ++ [.disconnected]) = some s ∧
      Runs.run step (init (fun _ => 0) (fun _ => 0) fun _ => 0)
        (visit [0x00, 0x00, 0x00, 0x00, 0x00, 0x00] ++ [.disconnected]) = some t ∧
      (EsQueue.read s.receiver.inbox.queue).data = [] ∧ (EsQueue.read t.receiver.inbox.queue).data = [] ∧
      parsed s [.connected, .written f] = some [] ∧ parsed t [.connected, .written f] = some [f] := by
  intro f
  obtain ⟨s, hs, hrs, hqs⟩ := run_visit [0xAA, 0x55, 0x00, 0x01, 0x20, 0x00]
    (by decide) (by decide) (by decide)
  obtain ⟨t, ht, hrt, hqt⟩ := run_visit [0x00, 0x00, 0x00, 0x00, 0x00, 0x00]
    (by decide) (by decide) (by decide)
  have hf : f ≠ [] := by decide
  obtain ⟨s', hs', _, hes⟩ := written_rests (s := { s with uart := BleUart.onConnect s.uart }) hrs hf
  obtain ⟨t', ht', _, het⟩ := written_rests (s := { t with uart := BleUart.onConnect t.uart }) hrt hf
  have hswallowed : accept (Assembler.fill Link.bth.maxFrameSize [0xAA, 0x55, 0x00, 0x01, 0x20, 0x00] f) = none := by
    decide
  have hfound : accept (Assembler.fill Link.bth.maxFrameSize [0x00, 0x00, 0x00, 0x00, 0x00, 0x00] f) = some f := by
    decide
  refine ⟨s, t, hs, ht, hqs, hqt, ?_, ?_⟩
  · rw [parsed_cons, step, Option.bind_some, parsed_cons, hs', hes, hswallowed]
    rfl
  · rw [parsed_cons, step, Option.bind_some, parsed_cons, ht', het, hfound]
    rfl

end SidFirmware.BleSession
