import SidFirmware.Foundation.Memory
import SidFirmware.Foundation.Runs
import SidFirmware.Foundation.DropOldest
import SidFirmware.Foundation.Assembler
import SidFirmware.Foundation.Segmentation
import SidFirmware.Foundation.Overwrites
import SidFirmware.Foundation.Rounding
import SidFirmware.Foundation.Binary64
import SidFirmware.Foundation.MachineInts
import SidFirmware.Foundation.LengthTypeData
import SidFirmware.Foundation.Firings
import SidFirmware.Foundation.Packing
import SidFirmware.Foundation.Retry
import SidFirmware.Foundation.Calendar
import SidFirmware.Libraries.EsQueue
import SidFirmware.Libraries.EsQueueRefinement
import SidFirmware.Libraries.EsProtocol
import SidFirmware.Libraries.FrameGrammar
import SidFirmware.Libraries.EsInterfaces
import SidFirmware.Interfaces.FrameReceiver
import SidFirmware.Interfaces.Reassembly
import SidFirmware.Interfaces.Resynchronisation
import SidFirmware.Interfaces.HandlerPayloads
import SidFirmware.Ble.Uart
import SidFirmware.Ble.UartStream
import SidFirmware.Ble.UartDelivery
import SidFirmware.Ble.UartRenegotiation
import SidFirmware.Application.FrameBuilder
import SidFirmware.Application.GenericFrame
import SidFirmware.Application.ModeManagement
import SidFirmware.Application.WindowRecords
import SidFirmware.Application.DueWindows
import SidFirmware.Application.PeriodicFiring
import SidFirmware.Application.Reconfiguration
import SidFirmware.Application.SidStorage
import SidFirmware.Application.EsCommands
import SidFirmware.Application.FramePersistence
import SidFirmware.StateMachines.MainStateMachine
import SidFirmware.StateMachines.Liveness
import SidFirmware.StateMachines.SensorPower
import SidFirmware.Libraries.BuiltFrames
import SidFirmware.Libraries.FrameTransport
import SidFirmware.Libraries.Outbox
import SidFirmware.Application.CommandHandler
import SidFirmware.Gateway.System
import SidFirmware.Gateway.Forwarding
import SidFirmware.Gateway.Capacity
import SidFirmware.Gateway.Provenance
import SidFirmware.Application.PayloadReads
import SidFirmware.Gateway.OwnFrame
import SidFirmware.Application.FrameCfgAtomic
import SidFirmware.Libraries.FlashMemory
import SidFirmware.Application.FlashBuffer
import SidFirmware.Ble.UartLock
import SidFirmware.Interfaces.Prospect
import SidFirmware.Ble.Sessions
import SidFirmware.Libraries.QueueWrite
import SidFirmware.Interfaces.ScanBounds
import SidFirmware.Libraries.QueuePreemption
import SidFirmware.Interfaces.WakeUp
import SidFirmware.Ble.DeviceName
import SidFirmware.Application.ConfigReadBack
import SidFirmware.Application.NameReadBack
import SidFirmware.Application.StorageInit
import SidFirmware.Ble.Advertising
import SidFirmware.StateMachines.OperationalEntry
import SidFirmware.Gateway.MainLoop
import SidFirmware.Gateway.Streaming
import SidFirmware.Application.PackedFrames
import SidFirmware.Hal.UartRing
import SidFirmware.Hal.BusInit
import SidFirmware.Hal.SpiTransfer
import SidFirmware.Libraries.Tool
import SidFirmware.Libraries.ExoTime
import SidFirmware.Libraries.ExoTimeInverse
import SidFirmware.Foundation.Crc
import SidFirmware.Foundation.NorFlash
import SidFirmware.Bootloader.Crc32
import SidFirmware.Bootloader.FlashQueue
import SidFirmware.Bootloader.FlashOrder
import SidFirmware.Bootloader.FlashFootprint
import SidFirmware.Bootloader.FlashContents
import SidFirmware.Bootloader.Settings
import SidFirmware.Bootloader.BankSelection
import SidFirmware.Bootloader.InitCommand
import SidFirmware.Bootloader.Requests
import SidFirmware.Bootloader.Session
import SidFirmware.Bootloader.Received
import SidFirmware.Bootloader.Confinement
import SidFirmware.Bootloader.Delivery
import SidFirmware.Bootloader.Acceptance
import SidFirmware.Bootloader.SettingsPage
import SidFirmware.Bootloader.Activation
import SidFirmware.Bootloader.Startup
import SidFirmware.Bootloader.UpdateSteps
import SidFirmware.Bootloader.Resume
import SidFirmware.Bootloader.Update
