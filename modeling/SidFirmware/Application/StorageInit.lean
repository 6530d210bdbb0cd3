import SidFirmware.Libraries.FlashMemory
import SidFirmware.Application.ConfigReadBack

/-! The start of the storage, `eStorage_Init` over `eMemory_Init`, for every outcome of Flash Data
Storage. Both end with a store to the error code that forgets what went wrong before. -/
namespace SidFirmware.StorageInit
open Memory SidStorage EsCommands DeviceName FlashMemory

/-- What the start meets: the answers of `fds_register`, `nrf_sdh_is_enabled` and `fds_init`, and
those to the search, the opening and the closing of the name record; how the write of the default
name is answered, and whether it is stored; and the events that come in. -/
structure Outcome where
  register : Bool
  softDeviceEnabled : Bool
  fdsInit : Bool
  ints : Interrupts
  find : Bool
  recordOpen : Bool
  recordClose : Bool
  answer : MemoryErrCode
  stored : Bool

/-- The loop of `eMemory_Init` from its test `i` on, and the time it leaves. -/
def initLoop (ints : Interrupts) : Nat → Nat → Poll → Poll × Nat
  | 0, _, p => (p, 0)
  | timeout + 1, i, p =>
    let p := p.deliver (ints.beforeTest i)
    if p.flags.memoryInitialized = false then initLoop ints timeout (i + 1) (p.deliver (ints.afterTest i))
    else (p, timeout + 1)

/-- `eMemory_Init`. The last test is of `l_eFDSError`, which the loop does not set. -/
def memoryInit (timeout : Nat) (o : Outcome) : Poll × MemoryErrCode :=
  let p : Poll := ⟨⟨false, false, false⟩, []⟩
  let r : Poll × Bool × MemoryErrCode :=
    if o.register then
      if o.softDeviceEnabled then
        if o.fdsInit then
          let w := initLoop o.ints timeout 0 (p.deliver o.ints.onSubmit)
          (w.1, true, if w.2 = 0 then .busy else .init)
        else (p, false, .init)
      else (p, true, .init)
    else (p, false, .init)
  (r.1, if r.2.1 then .none else r.2.2)

/-- `eStorage_DeviceNameRead` into the local array of `eStorage_Init`, which drops the name. -/
def nameRead (d : Device) (o : Outcome) : Option (Device × ErrorCode) :=
  match d.nameRecord with
  | some bytes =>
    if o.find then
      if o.recordOpen then
        if o.recordClose then (deviceNameRead d).map fun r => (r.1, r.2.2)
        -- The callback has run by then.
        else some ({ d with
          storage := { d.storage with data := copyIn d.storage.data 0 (bytes.take nameSize) } }, .read)
      else some (d, .read)
    else some (d, .notFound)
  | none => some (d, .notFound)

/-- `eStorage_DeviceNameWrite` of the default name, which flash stores or not, whatever it answers. -/
def defaultNameWrite (d : Device) (answer : MemoryErrCode) (stored : Bool) : Option (Device × ErrorCode) :=
  (deviceNameWrite d (copyIn (fun _ => 0) 0 defaultName) (UInt8.ofNat defaultName.length) answer).map fun w =>
    ({ w.1 with
      nameRecord := if stored then some (cells w.1.storage.data 0 nameSize) else d.nameRecord }, w.2)

/-- The board, the flags of `Memory.c` and the error code at the end of `eStorage_Init`. -/
structure Initialized where
  device : Device
  flags : Flags
  errCode : ErrorCode

/-- `eStorage_Init`. -/
def storageInit (timeout : Nat) (d : Device) (o : Outcome) : Option Initialized :=
  let m := memoryInit timeout o
  let flags := (m.1.deliver o.ints.onReturn).flags
  if m.2 ≠ .none then some ⟨setMemInitialized d false, flags, .init⟩
  else
    (nameRead (setMemInitialized d true) o).bind fun r =>
      if r.2 = .notFound then
        (defaultNameWrite r.1 o.answer o.stored).map fun w =>
          ⟨if w.2 = .write then setMemInitialized w.1 false else w.1, flags, .none⟩
      else some ⟨r.1, flags, .none⟩

/-- `vInit_Entry`: what it leaves, where `vES_Slave_Init` stays in its array, and whether it raises
`g_u8Error`. -/
def initEntry (timeout : Nat) (d : Device) (o : Outcome) : Option (Option Device × Bool) :=
  (storageInit timeout d o).map fun i =>
    if i.errCode = .none then
      ((slaveInit i.device.toApp).map fun a => { i.device with toApp := a }, false)
    else (some i.device, true)

/-- The storage can be used: its flag is up, `FDS_EVT_INIT` has come with success, and there is a
name record. -/
structure Usable (i : Initialized) : Prop where
  initialized : i.device.storage.isMemInitialized = true
  reported : i.flags.memoryInitialized = true
  recorded : i.device.nameRecord.isSome = true

def Truthful (i : Initialized) : Prop := i.errCode = .none ↔ Usable i

/-- Some event among `es` reports the initialisation with success. -/
def InitDone (es : List FdsEvt) : Prop := ∃ e ∈ es, e.id = .init ∧ e.success = true

/-- The events that come in before the end, where the call waits for them. -/
def Outcome.events (o : Outcome) (timeout : Nat) : List FdsEvt :=
  (if o.softDeviceEnabled then o.ints.onSubmit ++ o.ints.around 0 timeout else []) ++ o.ints.onReturn

/-- The name record is found, or its write is answered with success and there is one. -/
def NameThere (d : Device) (o : Outcome) : Prop :=
  (o.find = true ∧ d.nameRecord.isSome = true) ∨
    (o.answer = .none ∧ (o.stored = true ∨ d.nameRecord.isSome = true))

/-- Flash Data Storage refuses at once; or it comes up in time, and there is a name. -/
def RefusedOrUp (timeout : Nat) (d : Device) (o : Outcome) : Prop :=
  o.register = false ∨ (o.softDeviceEnabled = true ∧ o.fdsInit = false) ∨
    (InitDone (o.events timeout) ∧ NameThere d o)

theorem initDone_append (es es' : List FdsEvt) : InitDone (es ++ es') ↔ InitDone es ∨ InitDone es' := by
  simp only [InitDone, List.mem_append, or_and_right, exists_or]

theorem memoryInitialized_handler (f : Flags) (e : FdsEvt) :
    (memoryEventHandler f e).memoryInitialized = true ↔
      f.memoryInitialized = true ∨ (e.id = .init ∧ e.success = true) := by
  unfold memoryEventHandler
  cases e.id <;> cases e.success <;> simp

/-- The flag goes up with the first report of success, and stays up. -/
theorem memoryInitialized_deliver (p : Poll) (es : List FdsEvt) :
    (p.deliver es).flags.memoryInitialized = true ↔ p.flags.memoryInitialized = true ∨ InitDone es := by
  unfold Poll.deliver InitDone
  induction es generalizing p with
  | nil => simp
  | cons e es ih =>
    have hrest := ih ⟨memoryEventHandler p.flags e, p.delivered ++ [e]⟩
    rw [List.foldl_cons]
    dsimp only at hrest ⊢
    rw [hrest, memoryInitialized_handler, List.exists_mem_cons_iff, or_assoc]

/-- Whether the loop ends early or late, it has seen a report that comes during its time. -/
theorem initLoop_reported (ints : Interrupts) (timeout i : Nat) (p : Poll) :
    (initLoop ints timeout i p).1.flags.memoryInitialized = true ↔
      p.flags.memoryInitialized = true ∨ InitDone (ints.around i timeout) := by
  induction timeout generalizing i p with
  | zero => simp [initLoop, Interrupts.around, InitDone]
  | succ timeout ih =>
    rw [initLoop, Interrupts.around, initDone_append, initDone_append]
    by_cases hup : (p.deliver (ints.beforeTest i)).flags.memoryInitialized = true
    · have hfirst := (memoryInitialized_deliver p (ints.beforeTest i)).mp hup
      simp only [hup, Bool.true_eq_false, if_false, true_iff]
      exact hfirst.imp_right fun hb => Or.inl (Or.inl hb)
    · simp only [Bool.not_eq_true _ ▸ hup, if_true]
      rw [ih, memoryInitialized_deliver, memoryInitialized_deliver]
      simp only [or_assoc]

/-- The error code of `eMemory_Init` is that of the two calls it made of Flash Data Storage. -/
theorem memoryInit_none_iff (timeout : Nat) (o : Outcome) :
    (memoryInit timeout o).2 = .none ↔
      ¬ (o.register = false ∨ (o.softDeviceEnabled = true ∧ o.fdsInit = false)) := by
  simp only [memoryInit]
  cases o.register <;> cases o.softDeviceEnabled <;> cases o.fdsInit <;> simp

/-- Where it does not fail at once, the flag has seen all events there were. -/
theorem memoryInit_reported {timeout : Nat} {o : Outcome} (h : (memoryInit timeout o).2 = .none) :
    ((memoryInit timeout o).1.deliver o.ints.onReturn).flags.memoryInitialized = true ↔
      InitDone (o.events timeout) := by
  obtain ⟨hregister, hinit⟩ := not_or.mp ((memoryInit_none_iff timeout o).mp h)
  have hregister := Bool.eq_true_of_not_eq_false hregister
  rw [memoryInitialized_deliver, Outcome.events, initDone_append]
  by_cases hsd : o.softDeviceEnabled = true
  · have hfds := Bool.eq_true_of_not_eq_false fun hfail => hinit ⟨hsd, hfail⟩
    simp only [memoryInit, hregister, hsd, hfds, if_true, initLoop_reported, memoryInitialized_deliver,
      initDone_append, Bool.false_eq_true, false_or]
  · simp [memoryInit, hregister, hsd, InitDone]

/-- A record that can be read gives a name. -/
theorem deviceNameRead_code {d : Device} {r : Device × List UInt8 × ErrorCode} {record : List UInt8}
    (hinit : d.storage.isMemInitialized = true) (hname : d.nameRecord = some record)
    (h : deviceNameRead d = some r) : r.2.2 = .none := by
  simp only [deviceNameRead, hinit, if_true, hname] at h
  split at h
  · rw [← Option.some.inj h]
  · cases h

/-- The read keeps the record; it misses the name exactly if the search fails. -/
theorem nameRead_spec {d d' : Device} {e : ErrorCode} {o : Outcome}
    (hinit : d.storage.isMemInitialized = true) (h : nameRead d o = some (d', e)) :
    d'.storage.isMemInitialized = true ∧ d'.nameRecord = d.nameRecord ∧
      (e = .notFound ↔ ¬ (o.find = true ∧ d.nameRecord.isSome = true)) := by
  cases hname : d.nameRecord with
  | none =>
    simp only [nameRead, hname, Option.some.injEq, Prod.mk.injEq] at h
    obtain ⟨rfl, rfl⟩ := h
    exact ⟨hinit, hname, by simp⟩
  | some record =>
    simp only [nameRead, hname] at h
    split_ifs at h with hfind hopen hclose
    · obtain ⟨r, hread, hr⟩ := Option.map_eq_some_iff.mp h
      obtain ⟨rfl, rfl⟩ := Prod.mk.inj hr
      obtain ⟨-, hkept, hup⟩ := ConfigReadBack.deviceNameRead_keeps hread
      rw [deviceNameRead_code hinit hname hread]
      exact ⟨hup.trans hinit, hkept.trans hname, by simp [hfind]⟩
    · obtain ⟨rfl, rfl⟩ := Prod.mk.inj (Option.some.inj h)
      exact ⟨hinit, rfl, by simp [hfind]⟩
    · obtain ⟨rfl, rfl⟩ := Prod.mk.inj (Option.some.inj h)
      exact ⟨hinit, hname, by simp [hfind]⟩
    · obtain ⟨rfl, rfl⟩ := Prod.mk.inj (Option.some.inj h)
      exact ⟨hinit, hname, by simp [hfind]⟩

/-- The read returns where flash holds a name of the storage's own. -/
theorem nameRead_returns {d : Device} (hinit : d.storage.isMemInitialized = true)
    (hrecord : ∀ record, d.nameRecord = some record → Recorded record) (o : Outcome) :
    ∃ r, nameRead d o = some r := by
  cases hname : d.nameRecord with
  | none =>
    simp only [nameRead, hname]
    exact ⟨_, rfl⟩
  | some record =>
    obtain ⟨name, hlen, hnul, rfl⟩ := hrecord record hname
    obtain ⟨data, hread⟩ := deviceNameRead_recorded hinit hlen hnul hname
    simp only [nameRead, hname, hread, Option.map_some]
    split_ifs
    · exact ⟨_, rfl⟩
    · exact ⟨_, rfl⟩
    · exact ⟨_, rfl⟩
    · exact ⟨_, rfl⟩

theorem defaultName_fits :
    (UInt8.ofNat defaultName.length + 1).toNat < nameSize ∧
      ¬ nameSize < (UInt8.ofNat defaultName.length).toNat := by
  decide

/-- The default name is staged; the rest is up to flash. -/
theorem defaultNameWrite_spec {d : Device} (hinit : d.storage.isMemInitialized = true)
    (answer : MemoryErrCode) (stored : Bool) :
    ∃ d' e, defaultNameWrite d answer stored = some (d', e) ∧ d'.storage.isMemInitialized = true ∧
      (d'.nameRecord.isSome = true ↔ stored = true ∨ d.nameRecord.isSome = true) ∧
      (e = .write ↔ answer ≠ .none) := by
  obtain ⟨hfits, hshort⟩ := defaultName_fits
  simp only [defaultNameWrite, deviceNameWrite, hinit, if_true, if_pos hfits, if_neg hshort]
  by_cases hanswer : answer = .none
  · rw [if_pos hanswer]
    refine ⟨_, .none, rfl, rfl, ?_, by simp [hanswer]⟩
    cases stored <;> simp
  · rw [if_neg hanswer]
    refine ⟨_, .write, rfl, rfl, ?_, by simp [hanswer]⟩
    cases stored <;> simp

theorem not_usable {i : Initialized} (hdown : i.device.storage.isMemInitialized = false) : ¬ Usable i := by
  intro h
  rw [h.initialized] at hdown
  cases hdown

/-- Either Flash Data Storage refuses, which is reported; or no error is, whatever has become of the
storage. -/
theorem storageInit_cases {timeout : Nat} {d : Device} {o : Outcome} {i : Initialized}
    (h : storageInit timeout d o = some i) :
    ((memoryInit timeout o).2 ≠ .none ∧ i.errCode = .init ∧ ¬ Usable i) ∨
      ((memoryInit timeout o).2 = .none ∧ i.errCode = .none ∧
        (Usable i ↔ InitDone (o.events timeout) ∧ NameThere d o)) := by
  by_cases hmemory : (memoryInit timeout o).2 = .none
  · rw [storageInit, if_neg (not_not.mpr hmemory)] at h
    obtain ⟨⟨r, e⟩, hread, hend⟩ := Option.bind_eq_some_iff.mp h
    obtain ⟨hinit, hkept, hfound⟩ := nameRead_spec rfl hread
    have hreported := memoryInit_reported hmemory
    have hkept' : r.nameRecord = d.nameRecord := hkept
    by_cases hmiss : e = .notFound
    · obtain ⟨w, e', hwrite, hup, hrecorded, hcode⟩ := defaultNameWrite_spec hinit o.answer o.stored
      have hnot : ¬ (o.find = true ∧ d.nameRecord.isSome = true) := hfound.mp hmiss
      simp only [if_pos hmiss, hwrite, Option.map_some, Option.some.injEq] at hend
      subst hend
      refine Or.inr ⟨hmemory, rfl, ?_⟩
      rw [NameThere, or_iff_right hnot, ← hkept', ← hrecorded, ← hreported]
      by_cases hanswer : o.answer = .none
      · have hok : ¬ e' = .write := fun he => hcode.mp he hanswer
        rw [if_neg hok]
        exact ⟨fun h => ⟨h.reported, hanswer, h.recorded⟩, fun h => ⟨hup, h.1, h.2.2⟩⟩
      · rw [if_pos (hcode.mpr hanswer)]
        exact iff_of_false (not_usable rfl) fun h => hanswer h.2.1
    · have hthere : o.find = true ∧ d.nameRecord.isSome = true :=
        not_not.mp fun hnot => hmiss (hfound.mpr hnot)
      simp only [if_neg hmiss, Option.some.injEq] at hend
      subst hend
      refine Or.inr ⟨hmemory, rfl, ?_⟩
      rw [← hreported]
      exact ⟨fun h => ⟨h.reported, Or.inl hthere⟩, fun h => ⟨hinit, h.1, hkept'.symm ▸ hthere.2⟩⟩
  · rw [storageInit, if_pos hmemory] at h
    rw [← Option.some.inj h]
    exact Or.inl ⟨hmemory, rfl, not_usable rfl⟩

theorem storageInit_returns (timeout : Nat) {d : Device} (o : Outcome)
    (hrecord : ∀ record, d.nameRecord = some record → Recorded record) :
    ∃ i, storageInit timeout d o = some i := by
  rw [storageInit]
  split
  · exact ⟨_, rfl⟩
  · obtain ⟨r, hread⟩ := nameRead_returns (d := setMemInitialized d true) rfl hrecord o
    obtain ⟨hinit, -⟩ := nameRead_spec rfl hread
    rw [hread, Option.bind_some]
    split
    · obtain ⟨w, e, hwrite, -⟩ := defaultNameWrite_spec hinit o.answer o.stored
      rw [hwrite]
      exact ⟨_, rfl⟩
    · exact ⟨_, rfl⟩

/-- `vInit_Entry` goes by the error code. -/
theorem initEntry_error {timeout : Nat} {d : Device} {o : Outcome} {i : Initialized}
    (h : storageInit timeout d o = some i) :
    ∃ d' error, initEntry timeout d o = some (d', error) ∧ (error = false ↔ i.errCode = .none) := by
  rw [initEntry, h, Option.map_some]
  split
  · rename_i hnone
    exact ⟨_, false, rfl, iff_of_true rfl hnone⟩
  · rename_i hnone
    exact ⟨_, true, rfl, iff_of_false (by decide) hnone⟩

/-- The start of the storage returns, over any name that was stored by it. It tells the truth exactly
if Flash Data Storage refuses at once, or comes up and there is a name; and `vInit_Entry` believes
what it is told. -/
theorem storage_init_truthful_iff (timeout : Nat) (d : Device) (o : Outcome) :
    ((∀ record, d.nameRecord = some record → Recorded record) → ∃ i, storageInit timeout d o = some i) ∧
    ∀ i, storageInit timeout d o = some i →
      (∃ d' error, initEntry timeout d o = some (d', error) ∧ (error = false ↔ i.errCode = .none)) ∧
      (Truthful i ↔ RefusedOrUp timeout d o) := by
  refine ⟨storageInit_returns timeout o, fun i hinit => ⟨initEntry_error hinit, ?_⟩⟩
  rw [RefusedOrUp, ← or_assoc]
  rcases storageInit_cases hinit with ⟨hmemory, hcode, hdown⟩ | ⟨hmemory, hcode, husable⟩
  · have hrefused := not_not.mp fun hno => hmemory ((memoryInit_none_iff timeout o).mpr hno)
    refine iff_of_true (iff_of_false ?_ hdown) (Or.inl hrefused)
    rw [hcode]
    decide
  · rw [or_iff_right ((memoryInit_none_iff timeout o).mp hmemory), ← husable, Truthful]
    exact ⟨fun h => h.mp hcode, fun h => iff_of_true hcode h⟩

/-- Flash Data Storage accepts the request and never reports; the search and the write are refused,
since it is not initialised. -/
def silent : Outcome := ⟨true, true, true, ⟨[], fun _ => [], fun _ => [], []⟩, false, false, false, .write, false⟩

/-- Without a report in the whole time, the start still ends without an error. -/
theorem silent_start_without_error :
    ∃ i, storageInit hwTimeout DeviceName.new.device silent = some i ∧ i.errCode = .none ∧ ¬ Usable i ∧
      ¬ Truthful i := by
  obtain ⟨i, hinit⟩ := storageInit_returns hwTimeout silent
    (fun record h => absurd h (Option.some_ne_none record).symm : ∀ record,
      DeviceName.new.device.nameRecord = some record → Recorded record)
  have hmemory : (memoryInit hwTimeout silent).2 = .none := (memoryInit_none_iff _ _).mpr (by decide)
  obtain ⟨hbad, -⟩ | ⟨-, hcode, husable⟩ := storageInit_cases hinit
  · exact absurd hmemory hbad
  · have hdown : ¬ Usable i := by
      intro h
      rcases (husable.mp h).2 with ⟨hfind, -⟩ | ⟨hanswer, -⟩
      · cases hfind
      · cases hanswer
    exact ⟨i, hinit, hcode, hdown, fun htruth => hdown (htruth.mp hcode)⟩

theorem nameRead_eq {d : Device} (hinit : d.storage.isMemInitialized = true) {o : Outcome}
    (h : o.find = true ∧ o.recordOpen = true ∧ o.recordClose = true) :
    nameRead d o = (deviceNameRead d).map fun r => (r.1, r.2.2) := by
  obtain ⟨hfind, hopen, hclose⟩ := h
  cases hname : d.nameRecord with
  | none =>
    simp only [nameRead, hname, deviceNameRead_empty hinit hname, Option.map_some]
  | some record => simp only [nameRead, hname, hfind, hopen, hclose, if_true]

theorem defaultNameWrite_eq {d : Device} (hinit : d.storage.isMemInitialized = true)
    (answer : MemoryErrCode) :
    defaultNameWrite d answer (decide (answer = .none)) =
      deviceNameWrite d (copyIn (fun _ => 0) 0 defaultName) (UInt8.ofNat defaultName.length) answer := by
  obtain ⟨hfits, hshort⟩ := defaultName_fits
  simp only [defaultNameWrite, deviceNameWrite, hinit, if_true, if_pos hfits, if_neg hshort]
  by_cases hanswer : answer = .none
  · simp only [hanswer, decide_true, if_true, Option.map_some]
  · simp only [hanswer, decide_false, if_false, Option.map_some, Bool.false_eq_true]

/-- Where the name record can be read and flash tells the truth about the write, this is the start
that takes the two error codes from outside. -/
theorem storageInit_eq (timeout : Nat) (d : Device) {o : Outcome}
    (h : o.find = true ∧ o.recordOpen = true ∧ o.recordClose = true)
    (hstored : o.stored = decide (o.answer = .none)) :
    (storageInit timeout d o).map (fun i => (i.device, i.errCode)) =
      DeviceName.storageInit d (memoryInit timeout o).2 o.answer := by
  by_cases hmemory : (memoryInit timeout o).2 = .none
  · have hread := nameRead_eq (d := setMemInitialized d true) rfl h
    rw [storageInit, DeviceName.storageInit, if_neg (not_not.mpr hmemory), if_neg (not_not.mpr hmemory),
      hread]
    cases hname : deviceNameRead (setMemInitialized d true) with
    | none => rfl
    | some r =>
      have hwrite := defaultNameWrite_eq (ConfigReadBack.deviceNameRead_keeps hname).2.2 o.answer
      simp only [Option.map_some, Option.bind_some, hstored, hwrite]
      split
      · simp only [Option.map_map]
        rfl
      · rfl
  · rw [storageInit, DeviceName.storageInit, if_pos hmemory, if_pos hmemory]
    rfl

end SidFirmware.StorageInit
