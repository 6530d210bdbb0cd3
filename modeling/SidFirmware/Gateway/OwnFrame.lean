import SidFirmware.Application.PayloadReads
import SidFirmware.Gateway.Forwarding

/-! What a command owes to the frames before it. The read buffer is reused, so whatever a
frame does not cover still holds bytes of an earlier one. -/
namespace SidFirmware.Gateway
open Memory EsProtocol EsInterfaces EsQueue FrameReceiver SidStorage EsCommands DropOldest
open ModeManagement FrameBuilder

/-- What the handler of the BLE inbox makes of the next frame: the application state and the
frame it sends. -/
def handleNext (d : Device) (inbox : Inbox) (answer : MemoryErrCode) :
    Option (Device × Option SendFrame) :=
  match (processIncomingFrame inbox).2.2 with
  | some c => handle .bth d c answer
  | none => some (d, none)

/-- Every inbox whose next frame is `f` leads to one and the same result, whatever else it
holds. -/
def NonInterfering (d : Device) (f : List UInt8) (answer : MemoryErrCode) : Prop :=
  ∃ r, ∀ inbox : Inbox, (EsQueue.read inbox.queue).data = f → handleNext d inbox answer = some r

/-- The frame covers its header; a subscription covers its five bytes and no byte before them
is refused; a name is not one of 65535 bytes. -/
structure OwnBytes (d : Device) (f : List UInt8) : Prop where
  header : headerSize ≤ f.length
  subscription : OpCode.ofByte (f.getD 6 0) = some .sensorCycDataSub →
    headerSize + 1 ≤ f.length ∧ (f.length ≤ headerSize + 4 → cmdMax < f.getD 7 0)
  name : OpCode.ofByte (f.getD 6 0) = some .bleName →
    headerSize + 1 ≤ f.length ∨ d.storage.isMemInitialized = false

theorem handleNext_frame {inbox : Inbox} {f : List UInt8} (hread : (EsQueue.read inbox.queue).data = f)
    (hne : f ≠ []) (d : Device) (answer : MemoryErrCode) :
    handleNext d inbox answer = handle .bth d (handlerCall (copyIn inbox.bufferRead 0 f)) answer := by
  have hpos : 0 < (EsQueue.read inbox.queue).data.length := by
    rw [hread]
    exact List.length_pos_of_ne_nil hne
  rw [handleNext, processIncomingFrame_read hpos, hread]

/-- Any bytes may wait in the read buffer behind any frame. -/
theorem exists_inbox {f : List UInt8} (hne : f ≠ []) (hlen : f.length ≤ 254) (buffer : Nat → UInt8) :
    ∃ inbox : Inbox, (EsQueue.read inbox.queue).data = f ∧ inbox.bufferRead = buffer := by
  have hempty : Represents (EsQueue.init 1016 fun _ => 0) [] :=
    init_represents (by decide) (by decide) _
  have hpos := List.length_pos_of_ne_nil hne
  obtain ⟨hr, _⟩ := write_refines hempty hpos (by change f.length + 3 ≤ 1016; omega)
  have hone : push recordSize ((EsQueue.init 1016 fun _ => 0).size - 1) f [] = [f] := by
    apply push_of_fits
    change 0 + (f.length + 2) ≤ 1016 - 1
    omega
  rw [hone] at hr
  obtain ⟨_, _, _, hq, _⟩ := read_refines hr
  exact ⟨⟨(EsQueue.write (EsQueue.init 1016 fun _ => 0) f).1, true, buffer, 0⟩, by rw [hq], rfl⟩

theorem nonInterfering_iff {f : List UInt8} (hne : f ≠ []) (hlen : f.length ≤ 254) (d : Device)
    (answer : MemoryErrCode) :
    NonInterfering d f answer ↔
      ∃ r, ∀ buffer, handle .bth d (handlerCall (copyIn buffer 0 f)) answer = some r := by
  constructor
  · rintro ⟨r, h⟩
    refine ⟨r, fun buffer => ?_⟩
    obtain ⟨inbox, hread, rfl⟩ := exists_inbox hne hlen buffer
    rw [← handleNext_frame hread hne]
    exact h inbox hread
  · rintro ⟨r, h⟩
    refine ⟨r, fun inbox hread => ?_⟩
    rw [handleNext_frame hread hne]
    exact h inbox.bufferRead

/-- A frame that reaches its length bytes states its own length. -/
theorem accept_lenField {bs f : List UInt8} (h : accept bs = some f) (h6 : 6 ≤ f.length) :
    lenField f = f.length := by
  obtain ⟨s, hv, rfl⟩ := accept_eq_some h
  obtain ⟨_, _, hl, _⟩ := verdict_validFrame_iff.mp hv
  have hlen : ((bs.drop s).take (lenField (bs.drop s))).length = lenField (bs.drop s) := by
    rw [List.length_take, List.length_drop]
    omega
  have hfield := lenField_append _ h6 ((bs.drop s).drop (lenField (bs.drop s)))
  rw [List.take_append_drop] at hfield
  rw [hlen]
  exact hfield.symm

/-- A frame for this node reaches its recipient byte. -/
theorem length_of_recipient {f : List UInt8} (h : (f.getD 3 0).toUInt32 = esHostNrf) : 4 ≤ f.length := by
  by_contra hshort
  rw [List.getD_eq_getElem?_getD, List.getElem?_eq_none (by omega)] at h
  exact absurd h (by decide)

section Calls
variable {f : List UInt8} (m : Nat → UInt8)

theorem handlerCall_recpt (h : 4 ≤ f.length) :
    (handlerCall (copyIn m 0 f)).recpt = (f.getD 3 0).toUInt32 :=
  congrArg UInt8.toUInt32 (copyIn_frame m (by omega))

theorem handlerCall_opCode (h : headerSize ≤ f.length) :
    (handlerCall (copyIn m 0 f)).opCode = f.getD 6 0 :=
  copyIn_frame m (by unfold headerSize at h; omega)

theorem handlerCall_len (hlen : lenField f = f.length) (h : 6 ≤ f.length) :
    (handlerCall (copyIn m 0 f)).len = (f.length + 2 ^ 16 - (headerSize + 1)) % 2 ^ 16 := by
  have hframe : getFrameLen (copyIn m 0 f) 0 = f.length := by
    rw [← lenField_cells _ 0 h, cells_copyIn, hlen]
  change getPayloadLength (copyIn m 0 f) 0 = _
  rw [getPayloadLength, hframe]

/-- Payload bytes inside the frame are its own. -/
theorem handlerCall_payload {k : Nat} (h : headerSize + k < f.length) :
    (handlerCall (copyIn m 0 f)).payload k = f.getD (headerSize + k) 0 := by
  have hb := copyIn_frame m h
  rw [← hb]
  change copyIn m 0 f (getPayload 0 + k) = _
  rw [getPayload, Nat.zero_add]

/-- Payload bytes beyond the frame are what was there before. -/
theorem handlerCall_stale {k : Nat} (h : f.length ≤ headerSize + k) :
    (handlerCall (copyIn m 0 f)).payload k = m (headerSize + k) := by
  change copyIn m 0 f (getPayload 0 + k) = _
  rw [getPayload, Nat.zero_add, copyIn, if_pos (Nat.zero_le _), Nat.sub_zero,
    List.getElem?_eq_none h]
  rfl

end Calls

def stale (k : Nat) (b : UInt8) : Nat → UInt8 := Function.update (fun _ => 0) k b

section OneFrame
variable {d : Device} {f : List UInt8} {answer : MemoryErrCode}

/-- A frame that ends before its opcode is a reset behind one buffer and an unknown command
behind another. -/
theorem header_of_nonInterfering (hrecpt : (f.getD 3 0).toUInt32 = esHostNrf)
    (h : ∃ r, ∀ buffer, handle .bth d (handlerCall (copyIn buffer 0 f)) answer = some r) :
    headerSize ≤ f.length := by
  have h4 := length_of_recipient hrecpt
  by_contra hshort
  obtain ⟨r, hr⟩ := h
  have hop : ∀ b, (handlerCall (copyIn (stale 6 b) 0 f)).opCode = b := by
    intro b
    unfold headerSize at hshort
    have hbyte : copyIn (stale 6 b) 0 f (0 + 6) = stale 6 b (0 + 6) := by
      rw [copyIn, if_pos (Nat.zero_le _), List.getElem?_eq_none (by omega)]
      rfl
    exact hbyte
  have hcall : ∀ b, commandHandler d (handlerCall (copyIn (stale 6 b) 0 f)) answer = some r :=
    fun b => hr (stale 6 b)
  have hreset : commandHandler d (handlerCall (copyIn (stale 6 0x01) 0 f)) answer = some (d, none) := by
    rw [commandHandler, if_pos ((handlerCall_recpt _ h4).trans hrecpt), hop]
    rfl
  obtain ⟨reply, hunknown⟩ : ∃ reply,
      commandHandler d (handlerCall (copyIn (stale 6 0x00) 0 f)) answer = some (d, some reply) := by
    rw [commandHandler, if_pos ((handlerCall_recpt _ h4).trans hrecpt), hop]
    exact ⟨_, rfl⟩
  have hsame := (hreset.symm.trans (hcall 0x01)).trans ((hcall 0x00).symm.trans hunknown)
  simp at hsame

/-- A subscription that does not cover its five bytes takes them from an earlier frame. -/
theorem subscription_of_nonInterfering (hrecpt : (f.getD 3 0).toUInt32 = esHostNrf)
    (hlong : headerSize ≤ f.length) (hop : OpCode.ofByte (f.getD 6 0) = some .sensorCycDataSub)
    (h : ∃ r, ∀ buffer, handle .bth d (handlerCall (copyIn buffer 0 f)) answer = some r) :
    headerSize + 1 ≤ f.length ∧ (f.length ≤ headerSize + 4 → cmdMax < f.getD 7 0) := by
  have h4 := length_of_recipient hrecpt
  obtain ⟨r, hr⟩ := h
  have hsame : ∀ m m', subscribed d (handlerCall (copyIn m 0 f)).payload =
      subscribed d (handlerCall (copyIn m' 0 f)).payload := by
    intro m m'
    have hrecptCall := fun m => (handlerCall_recpt m h4).trans hrecpt
    have hopCall := fun m => handlerCall_opCode m hlong
    exact subscribed_of_handled _ (hrecptCall m) (by rw [hopCall m]; exact hop)
      ((hrecptCall m').trans (hrecptCall m).symm) ((hopCall m').trans (hopCall m).symm)
      ((hr m).trans (hr m').symm)
  have hcover : headerSize + 1 ≤ f.length := by
    by_contra hshort
    have hfirst : ∀ b, (handlerCall (copyIn (stale 7 b) 0 f)).payload 0 = b :=
      fun b => handlerCall_stale (stale 7 b) (by omega)
    refine subscribed_ne_of_command ?_ ?_ (hsame (stale 7 0) (stale 7 255))
    · rw [hfirst]
      decide
    · rw [hfirst]
      decide
  refine ⟨hcover, fun hshort => ?_⟩
  by_contra hcmd
  have hfirst : ∀ m, (handlerCall (copyIn m 0 f)).payload 0 = f.getD 7 0 :=
    fun m => handlerCall_payload m (k := 0) (by omega)
  have hlast : ∀ b, (handlerCall (copyIn (stale 11 b) 0 f)).payload 4 = b :=
    fun b => handlerCall_stale (stale 11 b) (by omega)
  refine subscribed_ne_of_period ?_ ?_ ?_ (hsame (stale 11 0) (stale 11 1))
  · rw [hfirst]
    exact hcmd
  · intro k hk
    by_cases hin : headerSize + k < f.length
    · rw [handlerCall_payload _ hin, handlerCall_payload _ hin]
    · rw [handlerCall_stale _ (by omega), handlerCall_stale _ (by omega)]
      have hne : headerSize + k ≠ 11 := by unfold headerSize; omega
      rw [stale, stale, Function.update_of_ne hne, Function.update_of_ne hne]
  · rw [hlast, hlast]
    decide

/-- A name frame of 7 bytes states a payload of 65535; copying its low byte's worth overruns
the local name. -/
theorem name_of_nonInterfering (hrecpt : (f.getD 3 0).toUInt32 = esHostNrf)
    (hlong : headerSize ≤ f.length) (hlenf : lenField f = f.length)
    (hop : OpCode.ofByte (f.getD 6 0) = some .bleName)
    (h : ∃ r, ∀ buffer, handle .bth d (handlerCall (copyIn buffer 0 f)) answer = some r) :
    headerSize + 1 ≤ f.length ∨ d.storage.isMemInitialized = false := by
  have h4 := length_of_recipient hrecpt
  have hhs : headerSize = 7 := rfl
  by_contra hno
  obtain ⟨hshort, hinit⟩ := not_or.mp hno
  obtain ⟨r, hr⟩ := h
  have hlen : (handlerCall (copyIn (fun _ => 0) 0 f)).len = 65535 := by
    rw [handlerCall_len _ hlenf (by omega), hhs]
    omega
  have hcall : commandHandler d (handlerCall (copyIn (fun _ => 0) 0 f)) answer = some r :=
    hr (fun _ => 0)
  have hover : commandHandler d (handlerCall (copyIn (fun _ => 0) 0 f)) answer = none := by
    rw [commandHandler, if_pos ((handlerCall_recpt _ h4).trans hrecpt), handlerCall_opCode _ hlong, hop,
      hlen]
    simp only [commandSwitch, deviceNameWrite, if_pos (Bool.not_eq_false _ ▸ hinit)]
    rfl
  exact absurd (hover.symm.trans hcall) (Option.some_ne_none r).symm

/-- The local name takes whatever is not 255 bytes long. -/
theorem deviceNameWrite_returns (name : Nat → UInt8) {size : UInt8}
    (h : size.toNat ≠ 255 ∨ d.storage.isMemInitialized = false) :
    ∃ r, deviceNameWrite d name size answer = some r := by
  rcases h with hsize | hinit
  · have hlow : (size + 1).toNat < nameSize → ¬ nameSize < size.toNat := by
      unfold nameSize
      rw [UInt8.toNat_add]
      have hone : (1 : UInt8).toNat = 1 := rfl
      have hlt := size.toNat_lt
      omega
    by_cases hinit : d.storage.isMemInitialized = true
    · by_cases hfit : (size + 1).toNat < nameSize
      · simp only [deviceNameWrite, if_pos hinit, if_pos hfit, if_neg (hlow hfit)]
        split_ifs
        · exact ⟨_, rfl⟩
        · exact ⟨_, rfl⟩
      · simp only [deviceNameWrite, if_pos hinit, if_neg hfit]
        exact ⟨_, rfl⟩
    · simp only [deviceNameWrite, if_neg hinit]
      exact ⟨_, rfl⟩
  · simp only [deviceNameWrite, hinit]
    exact ⟨_, rfl⟩

/-- Every call returns but that of a name of 255 bytes, counted in eight bits. -/
theorem commandSwitch_returns (opCode : Option OpCode) (data : Nat → UInt8) {len : Nat}
    (h : opCode = some .bleName → len % 256 ≠ 255 ∨ d.storage.isMemInitialized = false) :
    ∃ r, commandSwitch d opCode data len answer = some r := by
  cases opCode with
  | none => exact ⟨_, rfl⟩
  | some c =>
    cases c with
    | bleName =>
      have hname := h rfl
      rw [← UInt8.toNat_ofNat'] at hname
      obtain ⟨r, hr⟩ : ∃ r, deviceNameWrite d data (UInt8.ofNat len) answer = some r :=
        deviceNameWrite_returns data hname
      simp only [commandSwitch, hr]
      exact ⟨_, rfl⟩
    | _ => exact ⟨_, rfl⟩

/-- Of a payload of 65535 bytes nothing is looked at. -/
theorem commandSwitch_longest (opCode : Option OpCode) (data data' : Nat → UInt8)
    (hsub : opCode ≠ some .sensorCycDataSub)
    (hname : opCode = some .bleName → d.storage.isMemInitialized = false) :
    commandSwitch d opCode data 65535 answer = commandSwitch d opCode data' 65535 answer := by
  cases opCode with
  | none => rfl
  | some c =>
    cases c with
    | sensorCycDataSub => exact absurd rfl hsub
    | frameCfgSet =>
      have hsize : (UInt16.ofNat 65535).toUInt8 - 1 = 254 := by decide
      have htable : ∀ data, bleFrameCfg d.modeMngt.cfgFrame data 254 = (d.modeMngt.cfgFrame, 0) :=
        fun data => rfl
      simp only [commandSwitch, frameCfgSet, hsize, htable]
      rfl
    | bleName =>
      simp only [commandSwitch, deviceNameWrite, hname rfl]
      rfl
    | _ => rfl

/-- A frame that keeps to its own bytes has one outcome behind every buffer. -/
theorem nonInterfering_of_ownBytes (hrecpt : (f.getD 3 0).toUInt32 = esHostNrf)
    (hlenf : lenField f = f.length) (hlen : f.length ≤ 254) (h : OwnBytes d f) :
    ∃ r, ∀ buffer, handle .bth d (handlerCall (copyIn buffer 0 f)) answer = some r := by
  have h4 := length_of_recipient hrecpt
  have hhs : headerSize = 7 := rfl
  have hlong := h.header
  have hcall : ∀ m, (handlerCall (copyIn m 0 f)).len = (f.length + 65536 - 8) % 65536 :=
    fun m => handlerCall_len m hlenf (by omega)
  have hhandle : ∀ m, handle .bth d (handlerCall (copyIn m 0 f)) answer =
      (commandSwitch d (OpCode.ofByte (f.getD 6 0)) (handlerCall (copyIn m 0 f)).payload
        ((f.length + 65536 - 8) % 65536) answer).map fun x =>
        (x.device, x.ack.map fun a => replySendCommand (f.getD 6 0) a.1.value esHostNrf.toUInt8 a.2) := by
    intro m
    rw [handle, commandHandler, if_pos ((handlerCall_recpt m h4).trans hrecpt),
      handlerCall_opCode m hlong, hcall]
  have hsame : ∀ m, commandSwitch d (OpCode.ofByte (f.getD 6 0)) (handlerCall (copyIn m 0 f)).payload
      ((f.length + 65536 - 8) % 65536) answer =
      commandSwitch d (OpCode.ofByte (f.getD 6 0)) (handlerCall (copyIn (fun _ => 0) 0 f)).payload
      ((f.length + 65536 - 8) % 65536) answer := by
    intro m
    have hin : ∀ k, headerSize + k < f.length → (handlerCall (copyIn m 0 f)).payload k =
        (handlerCall (copyIn (fun _ => 0) 0 f)).payload k := by
      intro k hk
      rw [handlerCall_payload _ hk, handlerCall_payload _ hk]
    by_cases hcover : headerSize + 1 ≤ f.length
    · apply commandSwitch_congr d
      · intro k hk
        exact hin k (by omega)
      · intro hop
        by_cases hshort : f.length ≤ headerSize + 4
        · have hbad := (h.subscription hop).2 hshort
          have hfirst : ∀ m, (handlerCall (copyIn m 0 f)).payload 0 = f.getD 7 0 :=
            fun m => handlerCall_payload m (k := 0) (by omega)
          rw [subscribed_rejected (by rw [hfirst]; exact hbad),
            subscribed_rejected (by rw [hfirst]; exact hbad)]
        · exact subscribed_congr d (fun k hk => hin k (by omega))
    · rw [show (f.length + 65536 - 8) % 65536 = 65535 by omega]
      apply commandSwitch_longest
      · exact fun hop => hcover (h.subscription hop).1
      · exact fun hop => (h.name hop).resolve_left hcover
  obtain ⟨r, hr⟩ : ∃ r, commandSwitch d (OpCode.ofByte (f.getD 6 0))
      (handlerCall (copyIn (fun _ => 0) 0 f)).payload ((f.length + 65536 - 8) % 65536) answer = some r := by
    apply commandSwitch_returns
    intro hop
    rcases h.name hop with hcover | hinit
    · exact Or.inl (by omega)
    · exact Or.inr hinit
  exact ⟨_, fun m => by rw [hhandle, hsame, hr, Option.map_some]⟩

end OneFrame

/-- A frame for this node is handled in one way, whatever earlier frames left behind, exactly
when it keeps to its own bytes; and a call depends on no byte beyond its payload exactly when
it is no subscription that the payload does not cover. -/
theorem own_frame_iff (d : Device) {bs f : List UInt8} (hacc : accept bs = some f)
    (hlen : f.length ≤ 254) (hrecpt : (f.getD 3 0).toUInt32 = esHostNrf) (answer : MemoryErrCode) :
    (NonInterfering d f answer ↔ OwnBytes d f) ∧
      ∀ c : HandlerCall, c.recpt = esHostNrf → (ReadsOnlyPayload d c answer ↔ SubscriptionCovered c) := by
  have h4 := length_of_recipient hrecpt
  have hhs : headerSize = 7 := rfl
  refine ⟨?_, fun c hc => readsOnlyPayload_iff d hc answer⟩
  rw [nonInterfering_iff (List.ne_nil_of_length_pos (by omega)) hlen]
  constructor
  · intro h
    have hlong := header_of_nonInterfering hrecpt h
    have hlenf := accept_lenField hacc (by omega)
    exact ⟨hlong, fun hop => subscription_of_nonInterfering hrecpt hlong hop h,
      fun hop => name_of_nonInterfering hrecpt hlong hlenf hop h⟩
  · intro h
    have hlong := h.header
    exact nonInterfering_of_ownBytes hrecpt (accept_lenField hacc (by omega)) hlen h

/-- A request for the firmware version. -/
theorem own_frame_iff_version :
    NonInterfering atRest [0xAA, 0x55, 0x00, 0x01, 0x08, 0x00, 0x03, 0xF5] .none := by
  have hacc : accept [0xAA, 0x55, 0x00, 0x01, 0x08, 0x00, 0x03, 0xF5] =
      some [0xAA, 0x55, 0x00, 0x01, 0x08, 0x00, 0x03, 0xF5] := by decide
  exact (own_frame_iff atRest hacc (by decide) (by decide) .none).1.mpr ⟨by decide, by decide, by decide⟩

/-- A reset frame with four payload bytes does nothing but leave itself in the read buffer. -/
private theorem reset_first :
    let reset := [0xAA, 0x55, 0x00, 0x01, 0x0C, 0x00, 0x01, 0x00, 0x00, 0x00, 0x00, 0xF3]
    let f := [0xAA, 0x55, 0x00, 0x01, 0x09, 0x00, 0x20, 0x00, 0xD7]
    ∃ g, Runs.run step (init (fun _ _ => 0) (fun _ _ => 0) atRest)
        [.received .bth reset, .idleInbox .bth .none, .received .bth f] = some g ∧
      (EsQueue.read (g.itf .bth).receiver.inbox.queue).data = f ∧ g.device = atRest ∧
      (g.itf .bth).receiver.inbox.bufferRead = copyIn
        ((init (fun _ _ => 0) (fun _ _ => 0) atRest).itf .bth).receiver.inbox.bufferRead 0 reset := by
  intro reset f
  have hstart : Receives .bth ((init (fun _ _ => 0) (fun _ _ => 0) atRest).itf .bth).receiver [] [] :=
    init_tracks .bth _ _
  obtain ⟨g, hstep, hr, hready, hbuffer, hdevice⟩ :=
    receives_frame hstart (f := reset) (by decide) (by decide) (by decide)
  obtain ⟨inbox, hidle, hr', hread⟩ := idle_frame hr (by decide) hready .none
  rw [hbuffer] at hread hidle
  have hcall : ∀ d, handle .bth d (handlerCall (copyIn
      ((init (fun _ _ => 0) (fun _ _ => 0) atRest).itf .bth).receiver.inbox.bufferRead 0 reset)) .none =
      some (d, none) := fun d => rfl
  have hstep' : step g (.idleInbox .bth .none) = some (g.withInbox .bth inbox) := by
    rw [hidle, dispatch, hcall]
    rfl
  have hbuffer' : ((g.withInbox .bth inbox).itf .bth).receiver.inbox.bufferRead = inbox.bufferRead := by
    rw [withInbox_receiver]
  obtain ⟨g'', hstep'', hr'', _, hbuffer'', hdevice''⟩ :=
    receives_frame hr' (f := f) (by decide) (by decide) (by decide)
  obtain ⟨_, _, _, hlast, _⟩ := read_refines hr''.represents
  refine ⟨g'', ?_, by rw [hlast], hdevice''.trans hdevice, (hbuffer''.trans hbuffer').trans hread⟩
  simp only [Runs.run, hstep, hstep', hstep'', Option.bind_some]

/-- A subscription of nine bytes, behind nothing and behind a reset frame: the same state of
the application goes to two different ones. -/
theorem stale_period :
    let reset := [0xAA, 0x55, 0x00, 0x01, 0x0C, 0x00, 0x01, 0x00, 0x00, 0x00, 0x00, 0xF3]
    let f := [0xAA, 0x55, 0x00, 0x01, 0x09, 0x00, 0x20, 0x00, 0xD7]
    let start := init (fun _ _ => 0) (fun _ _ => 0) atRest
    accept f = some f ∧ ∃ g g', Runs.run step start [.received .bth f] = some g ∧
      Runs.run step start [.received .bth reset, .idleInbox .bth .none, .received .bth f] = some g' ∧
      (EsQueue.read (g.itf .bth).receiver.inbox.queue).data = f ∧
      (EsQueue.read (g'.itf .bth).receiver.inbox.queue).data = f ∧ g.device = g'.device ∧
      handleNext g.device (g.itf .bth).receiver.inbox .none ≠
        handleNext g'.device (g'.itf .bth).receiver.inbox .none := by
  intro reset f start
  have hstart : Receives .bth (start.itf .bth).receiver [] [] := init_tracks .bth _ _
  obtain ⟨g, hstep, hr, _, hbuffer, hdevice⟩ :=
    receives_frame hstart (f := f) (by decide) (by decide) (by decide)
  obtain ⟨_, _, _, hq, _⟩ := read_refines hr.represents
  obtain ⟨g', hrun', hread', hdevice', hbuffer'⟩ := reset_first
  have hread : (EsQueue.read (g.itf .bth).receiver.inbox.queue).data = f := by rw [hq]
  refine ⟨by decide, g, g', ?_, hrun', hread, hread', hdevice.trans hdevice'.symm, ?_⟩
  · rw [Runs.run, hstep]
    rfl
  · rw [handleNext_frame hread (by decide), handleNext_frame hread' (by decide), hbuffer, hbuffer',
      hdevice, hdevice']
    intro he
    refine subscribed_ne_of_period ?_ ?_ ?_ (subscribed_of_handled _ ?_ ?_ ?_ ?_ he)
    · decide
    · decide
    · decide
    · decide
    · decide
    · rfl
    · rfl

end SidFirmware.Gateway
