import SidFirmware.Foundation.NorFlash
import SidFirmware.Foundation.Runs

/-! `nrf_fstorage` over `nrf_fstorage_sd`, with the SoftDevice enabled: a ring of operations
that the SoftDevice executes a chunk or a page at a time, next to the flash operations of
other modules. -/
namespace SidFirmware.Bootloader.FlashQueue
open Memory NorFlash
variable {Src : Type}

/-- `NRF_FSTORAGE_SD_QUEUE_SIZE`. -/
def queueSize : Nat := 8
/-- `NRF_FSTORAGE_SD_MAX_RETRIES`. -/
def maxRetries : Nat := 8
/-- `NRF_FSTORAGE_SD_MAX_WRITE_SIZE`. -/
def maxWriteSize : Nat := 20
/-- `erase_unit` of `m_flash_info`. -/
def eraseUnit : Nat := 4096
/-- `program_unit` of `m_flash_info`. -/
def programUnit : Nat := 4

/-- `nrf_fstorage_sd_op_t`, over the type of source pointers. -/
inductive Op (Src : Type) where
  | write (src : Src) (dest len offset : Nat)
  | erase (page progress pagesToErase : Nat)

/-- What the SoftDevice is asked for: `sd_flash_write` from `offset` bytes behind a source
pointer, or `sd_flash_page_erase`. -/
inductive Command (Src : Type) where
  | flashWrite (dest : Nat) (src : Src) (offset words : Nat)
  | pageErase (page : Nat)

inductive Flight (Src : Type) where
  | own (c : Command Src)
  | foreign

inductive RetCode where
  | success
  | noMem
  | invalidLength
  | invalidAddr
  | timeout
  | internal
deriving DecidableEq

/-- `nrf_fstorage_write` and `nrf_fstorage_erase` with their arguments. -/
inductive Call (Src : Type) where
  | write (dest : Nat) (src : Src) (len : Nat)
  | erase (pageAddr len : Nat)

/-- The instance that calls, where source pointers are word-aligned, and the commands that
the SoftDevice takes. -/
structure Port (Src : Type) where
  startAddr : Nat
  endAddr : Nat
  aligned : Src → Bool
  accepts : Command Src → Bool

/-- `m_queue`, `m_flags` and `m_retry_cnt`, the memory and the SoftDevice behind them, and a
record of the operations taken, with the bytes then at their source, and of the events sent. -/
structure State (Src : Type) where
  op : Nat → Op Src
  rp : Nat
  cnt : Nat
  ongoing : Bool
  pending : Bool
  retryCnt : Nat
  ram : Src → Nat → UInt8
  flash : Flash
  inFlight : Option (Flight Src)
  taken : List (Op Src × List UInt8)
  reports : List (Op Src × RetCode)

/-- `write_execute` and `erase_execute`. -/
def Op.command : Op Src → Command Src
  | .write src dest len offset =>
    .flashWrite (dest + offset) src offset (max 1 (min (len - offset) maxWriteSize / programUnit))
  | .erase page progress _ => .pageErase (page + progress)

def Command.run (ram : Src → Nat → UInt8) (m : Flash) : Command Src → Flash
  | .flashWrite dest src offset words => program m dest (cells (ram src) offset (programUnit * words))
  | .pageErase page => erase m (page * eraseUnit) eraseUnit

def Op.data (ram : Src → Nat → UInt8) : Op Src → List UInt8
  | .write src _ len _ => cells (ram src) 0 len
  | .erase _ _ _ => []

/-- `on_operation_success`: the progress made, and whether the operation is finished. -/
def Op.advance : Op Src → Op Src × Bool
  | .write src dest len offset =>
    let offset := offset + min (len - offset) maxWriteSize
    (.write src dest len offset, offset == len)
  | .erase page progress n => (.erase page (progress + 1) n, progress + 1 == n)

/-- `queue_process`. -/
def queueProcess (port : Port Src) (s : State Src) : State Src :=
  if s.cnt = 0 then s
  else
    let p := s.op s.rp
    if port.accepts p.command then
      match s.inFlight with
      | some _ => { s with ongoing := false, pending := true }
      | none => { s with ongoing := true, inFlight := some (.own p.command) }
    else { s with ongoing := true, reports := s.reports ++ [(p, .internal)] }

/-- `queue_start`. -/
def queueStart (port : Port Src) (s : State Src) : State Src :=
  if !s.ongoing && !s.pending then queueProcess port s else s

/-- `queue_advance`. -/
def queueAdvance (s : State Src) : State Src :=
  { s with cnt := s.cnt - 1, rp := if s.rp + 1 = queueSize then 0 else s.rp + 1 }

/-- The index that `queue_get_next_free` finds. -/
def nextFree (s : State Src) : Nat :=
  if s.rp + s.cnt < queueSize then s.rp + s.cnt else s.rp + s.cnt - queueSize

/-- `addr_within_bounds`, in 32 bits. -/
def addrWithinBounds (port : Port Src) (addr len : Nat) : Bool :=
  decide (port.startAddr ≤ addr ∧ (addr + len + (2 ^ 32 - 1)) % 2 ^ 32 ≤ port.endAddr)

/-- The checks of `nrf_fstorage_write` and `nrf_fstorage_erase`, and the operation to queue. -/
def check (port : Port Src) : Call Src → Except RetCode (Op Src)
  | .write dest src len =>
    if len = 0 ∨ len % programUnit ≠ 0 then .error .invalidLength
    else if dest % 4 ≠ 0 ∨ port.aligned src = false ∨ addrWithinBounds port dest len = false then
      .error .invalidAddr
    else .ok (.write src dest len 0)
  | .erase pageAddr len =>
    if len = 0 then .error .invalidLength
    else if pageAddr % eraseUnit ≠ 0 ∨ addrWithinBounds port pageAddr (len * eraseUnit % 2 ^ 32) = false then
      .error .invalidAddr
    else .ok (.erase (pageAddr / eraseUnit) 0 len)

def enqueue (s : State Src) (op : Op Src) : State Src :=
  { s with
    op := Function.update s.op (nextFree s) op
    cnt := s.cnt + 1
    taken := s.taken ++ [(op, op.data s.ram)] }

/-- `write` and `erase` of the backend behind the checks. -/
def request (port : Port Src) (s : State Src) (call : Call Src) : State Src × RetCode :=
  match check port call with
  | .error rc => (s, rc)
  | .ok op => if s.cnt = queueSize then (s, .noMem) else (queueStart port (enqueue s op), .success)

/-- `on_operation_success` and `on_operation_failure` on the operation at the head. -/
def onOperation (s : State Src) (success : Bool) : State Src × Bool :=
  if success then
    let r := (s.op s.rp).advance
    ({ s with retryCnt := 0, op := Function.update s.op s.rp r.1 }, r.2)
  else if s.retryCnt + 1 > maxRetries then ({ s with retryCnt := 0 }, true)
  else ({ s with retryCnt := s.retryCnt + 1 }, false)

/-- The end of an operation: its element is freed and its event sent, and the handler of the
event makes `calls`. -/
def finish (port : Port Src) (s : State Src) (success : Bool) (calls : List (Call Src)) : State Src :=
  let p := s.op s.rp
  calls.foldl (fun s call => (request port s call).1)
    { queueAdvance s with
      ongoing := false, reports := s.reports ++ [(p, if success then .success else .timeout)] }

/-- The branch of `nrf_fstorage_sys_evt_handler` for an operation of the module. -/
def onOwn (port : Port Src) (s : State Src) (success : Bool) (calls : List (Call Src)) : State Src :=
  let r := onOperation s success
  if r.2 then finish port r.1 success calls else r.1

/-- `nrf_fstorage_sys_evt_handler`. -/
def sysEvtHandler (port : Port Src) (s : State Src) (success : Bool) (calls : List (Call Src)) : State Src :=
  queueProcess port (if s.ongoing then onOwn port s success calls else { s with pending := false })

inductive Event (Src : Type) where
  | call (call : Call Src)
  | done (success followed : Bool) (calls : List (Call Src))
  | foreign
  | ram (ram : Src → Nat → UInt8)

/-- The SoftDevice ends the flash operation that it is busy with; it may take one of another
module before it posts the event. -/
def complete (s : State Src) (f : Flight Src) (success followed : Bool) : State Src :=
  let inFlight := if followed then some .foreign else none
  match f with
  | .own c => { s with inFlight, flash := if success then c.run s.ram s.flash else s.flash }
  | .foreign => { s with inFlight }

/-- A call, the end of the SoftDevice's flash operation and its event, another module's flash
operation, or a change of memory. -/
def step (port : Port Src) (s : State Src) : Event Src → Option (State Src)
  | .call call => some (request port s call).1
  | .done success followed calls =>
    s.inFlight.map fun f => sysEvtHandler port (complete s f success followed) success calls
  | .foreign => match s.inFlight with
    | some _ => none
    | none => some { s with inFlight := some .foreign }
  | .ram ram => some { s with ram }

/-- `init`. -/
def initial (op : Nat → Op Src) (ram : Src → Nat → UInt8) (flash : Flash) : State Src :=
  ⟨op, 0, 0, false, false, 0, ram, flash, none, [], []⟩

def waiting (s : State Src) : List (Op Src) := cells (wrap s.op queueSize) s.rp s.cnt

def Op.fresh : Op Src → Op Src
  | .write src dest len _ => .write src dest len 0
  | .erase page _ n => .erase page 0 n

def Op.Sound : Op Src → Prop
  | .write _ _ len offset => len % 4 = 0 ∧ offset % 4 = 0 ∧ offset < len
  | .erase _ progress n => progress < n

def Op.apply (data : List UInt8) (m : Flash) : Op Src → Flash
  | .write _ dest _ _ => program m dest data
  | .erase page _ n => NorFlash.erase m (page * eraseUnit) (n * eraseUnit)

def Op.Covers (j : Nat) : Op Src → Prop
  | .write _ dest len _ => dest ≤ j ∧ j < dest + len
  | .erase page _ n => page * eraseUnit ≤ j ∧ j < (page + n) * eraseUnit

def Op.Begun (data : List UInt8) (m : Flash) : Op Src → Prop
  | .write _ dest _ offset => program m dest (data.take offset) = m
  | .erase page progress _ => NorFlash.erase m (page * eraseUnit) (progress * eraseUnit) = m

end SidFirmware.Bootloader.FlashQueue
