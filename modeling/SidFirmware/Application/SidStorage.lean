import SidFirmware.Foundation.Memory

/-! `Application/SID_Storage.c` over `Libraries/Memory.c`: the frame configuration as
one flash record of whole words, staged in the buffer `g_acu32Data`. -/
namespace SidFirmware.SidStorage
open Memory

/-- `e_MemoryErrCode_t`. -/
inductive MemoryErrCode where
  | none
  | param
  | notFound
  | busy
  | record
  | id
  | init
  | read
  | write
  | erase
  | full
deriving DecidableEq

/-- `e_SIDStorage_Error_t`. -/
inductive ErrorCode where
  | none
  | init
  | notFound
  | write
  | read
  | erase
  | full
  | param
deriving DecidableEq

def maxSizeData : Nat := 20

/-- `g_u8IsMemInitialized`, the bytes of `g_acu32Data`, and the record of
`FILEID_FRAMECFG` in flash. -/
structure Storage where
  isMemInitialized : Bool
  data : Nat → UInt8
  frameCfg : Option (List UInt8)

/-- Bytes that the words of a record of `byteNumber` bytes take. -/
def wordBytes (byteNumber : Nat) : Nat := (byteNumber + 3) / 4 * 4

/-- `eMemory_Write` of `byteNumber` bytes of the staging buffer, which ends with `answer`, at a
time when flash has the record if it is `stored`. It replaces the one before it. -/
def memoryWriteEnding (s : Storage) (byteNumber : Nat) (answer : MemoryErrCode) (stored : Bool) :
    Storage × MemoryErrCode :=
  if stored then ({ s with frameCfg := some (cells s.data 0 (wordBytes byteNumber)) }, answer)
  else (s, answer)

/-- The write over a flash that is taken at its word: stored is what is answered with success. -/
def memoryWrite (s : Storage) (byteNumber : Nat) (answer : MemoryErrCode) : Storage × MemoryErrCode :=
  memoryWriteEnding s byteNumber answer (decide (answer = .none))

/-- `eMemory_Read` with `vReadStorageCallback`: the number of bytes read. -/
def memoryRead (s : Storage) : Storage × Nat × MemoryErrCode :=
  match s.frameCfg with
  | some bytes => ({ s with data := copyIn s.data 0 bytes }, bytes.length, .none)
  | none => (s, 0, .notFound)

/-- `eStorage_FrameConfigWrite`. -/
def frameConfigWrite (s : Storage) (config : Nat → UInt8) (size : UInt8) (answer : MemoryErrCode) :
    Storage × ErrorCode :=
  if s.isMemInitialized then
    let cleared := copyIn s.data 0 (List.replicate maxSizeData 0)
    let w := memoryWrite { s with data := copyIn cleared 0 (cells config 0 size.toNat) } size.toNat answer
    (w.1, if w.2 = .none then .none else .write)
  else (s, .init)

/-- `eStorage_FrameConfigRead`: the bytes copied to the caller, and the error code. -/
def frameConfigRead (s : Storage) : Storage × List UInt8 × ErrorCode :=
  if s.isMemInitialized then
    let r := memoryRead s
    if r.2.2 = .none then (r.1, cells r.1.data 0 r.2.1, .none)
    else if r.2.2 = .notFound then (r.1, [], .notFound)
    else (r.1, [], .read)
  else (s, [], .init)

/-- What a successful write leaves in flash begins with the bytes given. -/
theorem frameConfigWrite_none {s : Storage} {config : Nat → UInt8} {size : UInt8}
    {answer : MemoryErrCode} (h : (frameConfigWrite s config size answer).2 = .none) :
    (frameConfigWrite s config size answer).1.isMemInitialized = true ∧
    ∃ bytes, (frameConfigWrite s config size answer).1.frameCfg = some bytes ∧
      bytes.length = wordBytes size.toNat ∧ bytes.take size.toNat = cells config 0 size.toNat := by
  simp only [frameConfigWrite, memoryWrite, memoryWriteEnding, decide_eq_true_eq] at h ⊢
  by_cases hinit : s.isMemInitialized = true
  · by_cases hanswer : answer = .none
    · rw [if_pos hinit, if_pos hanswer]
      refine ⟨hinit, _, rfl, cells_length _ _ _, ?_⟩
      have hwords : size.toNat ≤ wordBytes size.toNat := by
        rw [wordBytes]
        omega
      have hcopy := cells_copyIn (copyIn s.data 0 (List.replicate maxSizeData 0)) 0
        (cells config 0 size.toNat)
      rw [cells_length] at hcopy
      rw [cells_take _ _ hwords]
      exact hcopy
    · simp [hinit, hanswer] at h
  · simp [hinit] at h

/-- An initialised storage returns the bytes of its record. -/
theorem frameConfigRead_some {s : Storage} {bytes : List UInt8} (hinit : s.isMemInitialized = true)
    (h : s.frameCfg = some bytes) : (frameConfigRead s).2 = (bytes, .none) := by
  rw [frameConfigRead, if_pos hinit]
  simp only [memoryRead, h, if_true, cells_copyIn]

theorem frameConfigRead_none {s : Storage} (hinit : s.isMemInitialized = true)
    (h : s.frameCfg = none) : (frameConfigRead s).2 = ([], .notFound) := by
  rw [frameConfigRead, if_pos hinit]
  simp [memoryRead, h]

end SidFirmware.SidStorage
