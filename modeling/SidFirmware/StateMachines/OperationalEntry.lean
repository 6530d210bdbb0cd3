import SidFirmware.Application.GenericFrame
import SidFirmware.Ble.Advertising

/-! `vOperational_Entry` of `StateMachines/OperationalSM.c`: one payload of readings goes to the
radio and into the advertised data, which has room for five of its bytes. -/
namespace SidFirmware.OperationalEntry
open Memory LengthTypeData EsCommands FrameBuilder Advertising
open DeviceName (sentSize)

/-- `SID_TAG`. -/
def sidTag : UInt8 := 0x04

/-- The frame that is sent, `g_au8AdvData` and `g_u8SizeAdvData`. -/
structure Entered where
  sent : Option SendFrame
  advData : Nat → UInt8
  sizeAdvData : UInt8

/-- `vOperational_Entry` with the readings just taken, over the memory `m` from
`g_achBleDeviceName` on; `none` when `strlen` leaves the RAM. -/
def operationalEntry (m advData : Nat → UInt8) (sizeAdvData : UInt8) (r : Readings) : Option Entered :=
  let built := payloadGet cmdGeneric r
  if built.2 = .none then
    let payload := [sidTag, 0] ++ built.1
    let size := UInt8.ofNat built.1.length + 2
    (advDataUpdate m advData (fun k => copyIn (fun _ => 0) 0 payload (2 + k)) (size - 2)).map fun adv =>
      ⟨some ⟨.cc430, OpCode.rfTransmission.value, esHostNrf, esHostCC430, payload⟩, adv.1, adv.2⟩
  else some ⟨none, advData, sizeAdvData⟩

/-- The readings in a radio frame lie behind the tag and a zero. -/
def Entered.radio (e : Entered) : Option Measurements := e.sent.map fun f => decode (f.payload.drop 2)

/-- The readings in the manufacturer data lie behind the company and the board. -/
def Entered.advertised (e : Entered) : Option Measurements :=
  (first (cells e.advData 0 e.sizeAdvData.toNat)).bind fun element =>
    if element.1.type = 0xFF then some (decode (element.1.data.drop 3)) else none

structure Complete (d : Measurements) : Prop where
  serial : d.serial.isSome
  command : d.command.isSome
  batteryLevel : d.batteryLevel.isSome
  pressure : d.pressure.isSome
  temperature : d.temperature.isSome
  humidity : d.humidity.isSome

/-- The generic payload can be built. -/
theorem payloadGet_cmdGeneric (r : Readings) : payloadGet cmdGeneric r = (buildCmdOne r, .none) :=
  Prod.ext rfl ((payloadGet_none_iff cmdGeneric r).mpr (by decide))

/-- Six bytes hold all readings, the humidity in the last of them. -/
theorem decode_six {bytes : List UInt8} (h : bytes.length = 6) :
    Complete (decode bytes) ∧ decode (bytes.take 5) = { decode bytes with humidity := none } := by
  match bytes with
  | [_, _, _, _, _, _] => exact ⟨⟨rfl, rfl, rfl, rfl, rfl, rfl⟩, rfl⟩

/-- The manufacturer data is in front of what is advertised, whatever the name behind it. -/
theorem first_advDataUpdate {m : Nat → UInt8} {len : Nat} (h : strlen m = some len)
    (advData data : Nat → UInt8) (size : UInt8) :
    ∃ adv rest, advDataUpdate m advData data size = some adv ∧
      first (cells adv.1 0 adv.2.toNat) =
        some (manufacturer (cells data 0 (sentSize size).toNat), rest) := by
  obtain ⟨advData', hupdate, hsize, hlayout, -⟩ := advDataUpdate_layout h rfl advData data size
  have hshort := data_length_lt data size m (Nat.min_le_right (len + 1) deviceNameSizeMax) _
    (List.mem_cons_self ..)
  refine ⟨_, [localName (cells m 0 (min (len + 1) deviceNameSizeMax))].flatMap Element.encode, hupdate, ?_⟩
  rw [hsize, hlayout, List.flatMap_cons]
  exact first_encode hshort _

/-- The entry sends the generic payload and advertises its first five bytes. -/
theorem operationalEntry_spec {m : Nat → UInt8} {len : Nat} (h : strlen m = some len)
    (advData : Nat → UInt8) (sizeAdvData : UInt8) (r : Readings) :
    ∃ e, operationalEntry m advData sizeAdvData r = some e ∧
      e.radio = some (decode (buildCmdOne r)) ∧
      e.advertised = some { decode (buildCmdOne r) with humidity := none } := by
  have hlength : (buildCmdOne r).length = 6 := payloadGet_length cmdGeneric r
  obtain ⟨adv, rest, hupdate, hfirst⟩ := first_advDataUpdate h advData
    (fun k => copyIn (fun _ => 0) 0 ([sidTag, 0] ++ buildCmdOne r) (2 + k)) (UInt8.ofNat 6 + 2 - 2)
  have hcells : cells (fun k => copyIn (fun _ => 0) 0 ([sidTag, 0] ++ buildCmdOne r) (2 + k)) 0
      (sentSize (UInt8.ofNat 6 + 2 - 2)).toNat = (buildCmdOne r).take 5 := by
    have hfive : (sentSize (UInt8.ofNat 6 + 2 - 2)).toNat = 5 := rfl
    have hcopied := cells_copyIn (fun _ => 0) 0 ([sidTag, 0] ++ buildCmdOne r)
    rw [List.length_append, hlength] at hcopied
    have htail := congrArg (fun bytes => (bytes.drop 2).take 5) hcopied
    rw [cells_drop, cells_take _ _ (by decide)] at htail
    rw [hfive, cells_shift]
    exact htail
  rw [hcells] at hfirst
  rw [operationalEntry, payloadGet_cmdGeneric]
  simp only [if_true, hlength, hupdate, Option.map_some]
  refine ⟨_, rfl, rfl, ?_⟩
  have hmanufacturer : (manufacturer ((buildCmdOne r).take 5)).data.drop 3 = (buildCmdOne r).take 5 := rfl
  have htype : (manufacturer ((buildCmdOne r).take 5)).type = 0xFF := rfl
  rw [Entered.advertised, hfirst, Option.bind_some, htype, if_pos rfl, hmanufacturer, (decode_six hlength).2]

/-- On entry to `MSM_OPERATIONAL`, all that the radio frame carries but the humidity is advertised
with equal values. -/
theorem advertised_agrees_with_radio (m advData : Nat → UInt8) (sizeAdvData : UInt8) (r : Readings) :
    (operationalEntry m advData sizeAdvData r).isSome = (strlen m).isSome ∧
    ∀ e, operationalEntry m advData sizeAdvData r = some e →
      ∃ radio, e.radio = some radio ∧ Complete radio ∧
        e.advertised = some { radio with humidity := none } := by
  cases hstrlen : strlen m with
  | none =>
    have hnone : operationalEntry m advData sizeAdvData r = none := by
      simp only [operationalEntry, payloadGet_cmdGeneric, if_true, advDataUpdate, hstrlen, Option.map_none]
    rw [hnone]
    exact ⟨rfl, fun e he => absurd he (Option.some_ne_none e).symm⟩
  | some len =>
    obtain ⟨e, hentry, hradio, hadvertised⟩ := operationalEntry_spec hstrlen advData sizeAdvData r
    rw [hentry]
    refine ⟨rfl, ?_⟩
    rintro e' he'
    obtain rfl := Option.some.inj he'
    exact ⟨_, hradio, (decode_six (payloadGet_length cmdGeneric r)).1, hadvertised⟩

/-- A humidity of 50 goes to the radio, and is not advertised. -/
theorem humidity_not_advertised :
    ∃ e radio advertised, operationalEntry (fun _ => 0) (fun _ => 0) 0
        ⟨⟨80, 3000, 215, 10132, 50, 0, 0, 0, 0, 0, 0, 0, 0, 0⟩, some (0xAB, 0xCD), 0⟩ = some e ∧
      e.radio = some radio ∧ e.advertised = some advertised ∧
      radio.humidity = some 50 ∧ advertised.humidity = none := by
  have hstrlen : strlen (fun _ => 0) = some 0 :=
    strlen_eq_some_iff.mpr ⟨rfl, by decide, fun k hk => absurd hk (Nat.not_lt_zero k)⟩
  obtain ⟨e, hentry, hradio, hadvertised⟩ := operationalEntry_spec hstrlen (fun _ => 0) 0
    ⟨⟨80, 3000, 215, 10132, 50, 0, 0, 0, 0, 0, 0, 0, 0, 0⟩, some (0xAB, 0xCD), 0⟩
  exact ⟨e, _, _, hentry, hradio, hadvertised, rfl, rfl⟩

end SidFirmware.OperationalEntry
