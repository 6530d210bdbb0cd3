import SidFirmware.Foundation.Memory

/-! `Libraries/ES_Protocol/ES_Protocol.c` on little-endian memory with the packed
header of eight-bit addresses: `AA 55`, sender, recipient, a `uint16_t` length of
the whole frame and the opcode, then the payload and one check byte. -/
namespace SidFirmware.EsProtocol
open Memory

/-- `ESP_ReturnCode_t`. -/
inductive ReturnCode where
  | receiving
  | validFrame
  | failed
  deriving DecidableEq, Repr

def ReturnCode.value : ReturnCode → UInt8
  | .receiving => 0x00
  | .validFrame => 0x01
  | .failed => 0xFF

def commandHeaderLSB : UInt8 := 0xAA
def commandHeaderMSB : UInt8 := 0x55

/-- `sizeof(ESP_Header_t)`. -/
def headerSize : Nat := 7

/-- The working memory of the controller. A pointer that walks further faults. -/
def ramSize : Nat := 2 ^ 16

/-- The running exclusive or of `ESP_CalculateCRC` over `len` bytes from `p` on. -/
def calculateCRC (m : Nat → UInt8) (p : Nat) : Nat → UInt8
  | 0 => 0
  | len + 1 => calculateCRC m p len ^^^ m (p + len)

def getFrameLen (m : Nat → UInt8) (p : Nat) : Nat := uint16 (m (p + 4)) (m (p + 5))
def getExpeditor (m : Nat → UInt8) (p : Nat) : UInt8 := m (p + 2)
def getRecipient (m : Nat → UInt8) (p : Nat) : UInt8 := m (p + 3)
def getCommand (m : Nat → UInt8) (p : Nat) : UInt8 := m (p + 6)
def getPayload (p : Nat) : Nat := p + headerSize

/-- `header.len - (ESP_HEADER_SIZE + 1)` as a `uint16_t`. -/
def getPayloadLength (m : Nat → UInt8) (p : Nat) : Nat :=
  (getFrameLen m p + 2 ^ 16 - (headerSize + 1)) % 2 ^ 16

/-- The loop bound `len - 1u`, computed in 32 bits. -/
def searchBound (len : Nat) : Nat := if len = 0 then 2 ^ 32 - 1 else len - 1

/-- The search loop of `ESP_CheckForValidFrame`, entered with the counter `sof` and
the pointer `p`. -/
def search (m : Nat → UInt8) (len sof p : Nat) : Option (ReturnCode × Nat) :=
  if p < ramSize then
    if sof < searchBound len then
      if m p = commandHeaderLSB ∧ m (p + 1) = commandHeaderMSB then
        let lenTmp := getFrameLen m p
        let len := (len + 2 ^ 16 - sof) % 2 ^ 16
        if headerSize ≤ len ∧ lenTmp ≤ len then
          if calculateCRC m p lenTmp = 0 then some (.validFrame, p) else some (.failed, p)
        else some (.receiving, p)
      else search m len ((sof + 1) % 2 ^ 16) (p + 1)
    else some (.failed, p)
  else none
termination_by ramSize - p

/-- `ESP_CheckForValidFrame` on `len` bytes at offset 0: the return code and where
the pointer is left. `none` is a search that leaves the working memory. -/
def checkForValidFrame (m : Nat → UInt8) (len : Nat) : Option (ReturnCode × Nat) :=
  search m len 0 0

/-- `ESP_BuildCommand` at offset 0: the memory and the length of the frame. -/
def buildCommand (m : Nat → UInt8) (expdt recpt : UInt32) (opCode : UInt8) (payload : List UInt8) :
    (Nat → UInt8) × Nat :=
  let len := (headerSize + 1 + payload.length) % 2 ^ 16
  let m := copyIn m 0 ([commandHeaderLSB, commandHeaderMSB, expdt.toUInt8, recpt.toUInt8,
    UInt8.ofNat len, UInt8.ofNat (len / 256), opCode] ++ payload)
  let lenTmp := getFrameLen m 0
  (Function.update m (headerSize + payload.length)
    (calculateCRC m 0 ((lenTmp + 2 ^ 16 - 1) % 2 ^ 16)), lenTmp)

end SidFirmware.EsProtocol
