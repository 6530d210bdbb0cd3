import SidFirmware.Foundation.Retry

/-! `vHal_SPI_Init` and `vHal_I2C_Init` of `HAL/HAL_SPI.c` and `HAL/HAL_I2C.c`. The error macro
of either calls the initialiser it stands in, so the fuel is the depth of these calls. -/
namespace SidFirmware.HalBus
open Retry

abbrev ErrCode := UInt32

def nrfSuccess : ErrCode := 0
def nrfErrorTimeout : ErrCode := 13
def nrfErrorForbidden : ErrCode := 15
def nrfErrorBusy : ErrCode := 17

abbrev Results := Nat → ErrCode

abbrev Flag := { f : UInt8 // f = 0 ∨ f = 1 }

def Flag.clear : Flag := ⟨0, Or.inl rfl⟩
def Flag.set : Flag := ⟨1, Or.inr rfl⟩

section Spi

/-- `e_HalSpi_Mode_t`. -/
inductive SpiMode where
  | mode0
  | mode1
  | mode2
  | mode3
deriving DecidableEq

/-- `e_HalSpi_Frequency_t`. -/
inductive SpiFrequency where
  | freq125K
  | freq250K
  | freq500K
  | freq1M
  | freq2M
  | freq4M
  | freq8M
deriving DecidableEq

/-- `s_HalSpi_Context_t`. -/
structure SpiContext where
  mosiPin : UInt32
  misoPin : UInt32
  clockPin : UInt32
  chipSelectPin : UInt32
  mode : SpiMode
  frequency : SpiFrequency

/-- What the initialiser sets of `nrf_drv_spi_config_t`. -/
structure SpiConfig where
  sckPin : UInt8
  mosiPin : UInt8
  misoPin : UInt8
  ssPin : UInt8
  frequency : SpiFrequency
  mode : SpiMode

inductive SpiCall where
  | init (config : SpiConfig)
  | uninit
  | inputCfg (pin : UInt32)

def SpiCall.isInit : SpiCall → Bool
  | .init _ => true
  | .uninit | .inputCfg _ => false

/-- The variables of `HAL_SPI.c`, with the calls made so far. -/
structure Spi where
  initialized : Flag
  contextSet : Flag
  xferDone : Flag
  context : SpiContext
  calls : List SpiCall

def Spi.call (s : Spi) (c : SpiCall) : Spi := { s with calls := s.calls ++ [c] }

/-- How often `nrf_drv_spi_init` was called. -/
def Spi.inits (s : Spi) : Nat := s.calls.countP SpiCall.isInit

/-- `NRF_DRV_SPI_PIN_NOT_USED`. -/
def pinNotUsed : UInt8 := 0xFF

def spiConfig (s : Spi) : SpiConfig :=
  if s.contextSet = Flag.clear then
    { frequency := .freq1M, mode := .mode0, ssPin := pinNotUsed, misoPin := pinNotUsed,
      mosiPin := pinNotUsed, sckPin := pinNotUsed }
  else
    { frequency := s.context.frequency, mode := s.context.mode,
      ssPin := s.context.chipSelectPin.toUInt8, misoPin := s.context.misoPin.toUInt8,
      mosiPin := s.context.mosiPin.toUInt8, sckPin := s.context.clockPin.toUInt8 }

/-- `vHal_SPI_Uninit`. -/
def halSpiUninit (s : Spi) : Spi :=
  if s.initialized = Flag.set then
    let s := { s.call .uninit with initialized := Flag.clear }
    ((s.call (.inputCfg s.context.misoPin)).call (.inputCfg s.context.mosiPin)).call
      (.inputCfg s.context.clockPin)
  else s

/-- `HAL_SPI_ERROR_CHECK` over the initialiser it calls. -/
def halSpiErrorCheck (init : Spi → Option Spi) (code : ErrCode) (s : Spi) : Option Spi :=
  if code ≠ nrfSuccess then init (halSpiUninit s) else some s

/-- `vHal_SPI_Init`. -/
def halSpiInit (results : Results) : Nat → Spi → Option Spi
  | 0, _ => none
  | fuel + 1, s =>
    let s := halSpiUninit s
    if s.initialized = Flag.clear then
      let config := spiConfig s
      let s := { s with initialized := Flag.set }
      let code := results s.inits
      halSpiErrorCheck (halSpiInit results fuel) code (s.call (.init config))
    else some s

end Spi

section I2c

inductive I2cCall where
  | init
  | uninit
  | cfg (pin : UInt32)
  | inputCfg (pin : UInt32)
deriving DecidableEq

/-- `g_bInitialized` of `HAL_I2C.c`, with the calls made so far. -/
structure I2c where
  initialized : Bool
  calls : List I2cCall

def I2c.call (b : I2c) (c : I2cCall) : I2c := { b with calls := b.calls ++ [c] }

/-- How often `app_twi_init` was called. -/
def I2c.inits (b : I2c) : Nat := b.calls.count .init

def sclPin : UInt32 := 11
def sdaPin : UInt32 := 12

/-- `vHal_I2C_Uninit`. -/
def halI2cUninit (b : I2c) : I2c :=
  if b.initialized then
    (({ b.call .uninit with initialized := false }).call (.inputCfg sdaPin)).call (.inputCfg sclPin)
  else b

/-- `HAL_I2C_ERROR_CHECK` over the initialiser it calls. -/
def halI2cErrorCheck (init : I2c → Option I2c) (code : ErrCode) (b : I2c) : Option I2c :=
  if code ≠ nrfSuccess then init (halI2cUninit b) else some b

/-- `vHal_I2C_Init`. -/
def halI2cInit (results : Results) : Nat → I2c → Option I2c
  | 0, _ => none
  | fuel + 1, b =>
    if b.initialized = false then
      let code := results b.inits
      (halI2cErrorCheck (halI2cInit results fuel) code (b.call .init)).map fun b =>
        { (b.call (.cfg sdaPin)).call (.cfg sclPin) with initialized := true }
    else some b

end I2c

theorem Flag.clear_or_set (f : Flag) : f = Flag.clear ∨ f = Flag.set := by
  obtain ⟨f, hf | hf⟩ := f
  · exact Or.inl (Subtype.ext hf)
  · exact Or.inr (Subtype.ext hf)

theorem Flag.set_ne_clear : Flag.set ≠ Flag.clear := by decide

@[simp] theorem Spi.inits_call (s : Spi) (c : SpiCall) :
    (s.call c).inits = s.inits + if c.isInit then 1 else 0 := by
  rw [Spi.inits, Spi.call, List.countP_append, List.countP_singleton]
  rfl

@[simp] theorem I2c.inits_call (b : I2c) (c : I2cCall) :
    (b.call c).inits = b.inits + if c = .init then 1 else 0 := by
  rw [I2c.inits, I2c.call, List.count_append, List.count_singleton]
  simp only [beq_iff_eq]
  rfl

theorem halSpiUninit_initialized (s : Spi) : (halSpiUninit s).initialized = Flag.clear := by
  rcases s.initialized.clear_or_set with h | h
  · rw [halSpiUninit, if_neg (h ▸ Flag.set_ne_clear.symm)]
    exact h
  · rw [halSpiUninit, if_pos h]
    rfl

theorem halSpiUninit_inits (s : Spi) : (halSpiUninit s).inits = s.inits := by
  rcases s.initialized.clear_or_set with h | h
  · rw [halSpiUninit, if_neg (h ▸ Flag.set_ne_clear.symm)]
  · rw [halSpiUninit, if_pos h]
    simp only [Spi.inits_call, SpiCall.isInit]
    exact Spi.inits_call s .uninit

/-- One call of the SPI's initialiser asks the driver once, and then goes by its code. -/
theorem halSpiInit_succ (results : Results) (fuel : Nat) (s : Spi) :
    ∃ s', s'.inits = s.inits + 1 ∧ s'.initialized = Flag.set ∧
      halSpiInit results (fuel + 1) s =
        halSpiErrorCheck (halSpiInit results fuel) (results s.inits) s' := by
  have hclear := halSpiUninit_initialized s
  refine ⟨({ halSpiUninit s with initialized := Flag.set }).call (.init (spiConfig (halSpiUninit s))),
    ?_, rfl, ?_⟩
  · rw [Spi.inits_call]
    exact congrArg (· + 1) (halSpiUninit_inits s)
  · rw [halSpiInit]
    dsimp only
    rw [if_pos hclear]
    exact congrArg (fun n => halSpiErrorCheck _ (results n) _) (halSpiUninit_inits s)

theorem halSpiInit_retries (results : Results) :
    Retries (halSpiInit results) Spi.inits (fun n => results n = nrfSuccess) (fun _ => True) where
  zero _ := rfl
  through fuel s _ hok := by
    obtain ⟨s', hcount, _, hcall⟩ := halSpiInit_succ results fuel s
    rw [hcall, halSpiErrorCheck, if_neg (not_not.mpr hok), Option.map_some, hcount]
  again fuel s _ hfail := by
    obtain ⟨s', hcount, _, hcall⟩ := halSpiInit_succ results fuel s
    refine ⟨halSpiUninit s', trivial, (halSpiUninit_inits s').trans hcount, ?_⟩
    rw [hcall, halSpiErrorCheck, if_pos hfail]

/-- Where the initialiser returns, the bus is initialised. -/
theorem halSpiInit_initialized {results : Results} {fuel : Nat} {s s' : Spi}
    (h : halSpiInit results fuel s = some s') : s'.initialized = Flag.set := by
  induction fuel generalizing s with
  | zero => cases h
  | succ fuel ih =>
    obtain ⟨t, _, hset, hcall⟩ := halSpiInit_succ results fuel s
    rw [hcall, halSpiErrorCheck] at h
    split at h
    · exact ih h
    · cases h
      exact hset

/-- One call of the I2C's initialiser asks the driver once. The pins and the flag come behind. -/
theorem halI2cInit_succ (results : Results) (fuel : Nat) {b : I2c} (hb : b.initialized = false) :
    (halI2cInit results (fuel + 1) b).map I2c.inits =
      (halI2cErrorCheck (halI2cInit results fuel) (results b.inits) (b.call .init)).map I2c.inits := by
  have hpins : ∀ b' : I2c, ((b'.call (.cfg sdaPin)).call (.cfg sclPin)).inits = b'.inits := by
    intro b'
    simp
  rw [halI2cInit, if_pos hb, Option.map_map]
  refine congrArg (fun g => Option.map g _) ?_
  funext b'
  exact hpins b'

theorem halI2cInit_retries (results : Results) :
    Retries (halI2cInit results) I2c.inits (fun n => results n = nrfSuccess)
      (fun b => b.initialized = false) where
  zero _ := rfl
  through fuel b hb hok := by
    rw [halI2cInit_succ results fuel hb, halI2cErrorCheck, if_neg (not_not.mpr hok), Option.map_some,
      I2c.inits_call]
    rfl
  again fuel b hb hfail := by
    -- The flag is not set yet, so there is nothing to take back.
    have huninit : halI2cUninit (b.call .init) = b.call .init := if_neg (Bool.eq_false_iff.mp hb)
    refine ⟨b.call .init, hb, I2c.inits_call b .init, ?_⟩
    rw [halI2cInit_succ results fuel hb, halI2cErrorCheck, if_pos hfail, huninit]

/-- Initialised already, the I2C returns without asking its driver. -/
theorem halI2cInit_initialized (results : Results) {b : I2c} (h : b.initialized = true) :
    ReturnsWithin (halI2cInit results) I2c.inits 0 b := by
  have hset : ¬ b.initialized = false := ne_false_of_eq_true h
  exact ⟨1, b, if_neg hset, le_rfl⟩

/-- Both initialisers return after a bounded number of calls of their drivers exactly if the SPI's
driver succeeds once, and the I2C's does or the I2C is initialised already. -/
theorem bus_init_returns_iff (spi twi : Results) (s : Spi) (b : I2c) :
    ((∃ bound, ReturnsWithin (halSpiInit spi) Spi.inits bound s) ∧
      ∃ bound, ReturnsWithin (halI2cInit twi) I2c.inits bound b) ↔
    (∃ k, spi (s.inits + k) = nrfSuccess) ∧
      (b.initialized = true ∨ ∃ k, twi (b.inits + k) = nrfSuccess) := by
  have hspi := (halSpiInit_retries spi).returnsWithin_iff (s := s) trivial
  refine and_congr hspi ?_
  cases hb : b.initialized with
  | true =>
    refine iff_of_true ?_ (Or.inl rfl)
    exact ⟨0, halI2cInit_initialized twi hb⟩
  | false =>
    rw [(halI2cInit_retries twi).returnsWithin_iff hb]
    simp

def Spi.powerOn : Spi := ⟨Flag.clear, Flag.clear, Flag.set, ⟨0xFF, 0xFF, 0xFF, 0, .mode0, .freq1M⟩, []⟩

/-- The peripheral is taken by another driver, and stays so. -/
theorem busy_bus_recurses :
    ¬ (∃ bound, ReturnsWithin (halSpiInit fun _ => nrfErrorBusy) Spi.inits bound Spi.powerOn) ∧
      ¬ ∃ bound, ReturnsWithin (halI2cInit fun _ => nrfErrorBusy) I2c.inits bound ⟨false, []⟩ := by
  constructor
  · rw [(halSpiInit_retries _).returnsWithin_iff trivial]
    rintro ⟨k, hk⟩
    exact absurd hk (by decide)
  · rw [(halI2cInit_retries _).returnsWithin_iff rfl]
    rintro ⟨k, hk⟩
    exact absurd hk (by decide)

end SidFirmware.HalBus
