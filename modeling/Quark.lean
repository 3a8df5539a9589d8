import Quark.Machine.Exec
import Quark.Machine.Memory
import Quark.Machine.LinkedList
import Quark.Base.Efi
import Quark.Base.FlashMap
import Quark.Library.MfhLib
import Quark.Library.Crc32
import Quark.Library.PlatformDataLib
import Quark.SmiFlash.State
import Quark.SmiFlash.Images
import Quark.SmiFlash.Parse
import Quark.SmiFlash.StateMachine
import Quark.SmiFlash.Intake
import Quark.SmiFlash.Schedule
import Quark.SmiFlash.Spec
import Quark.SmiFlash.Proofs.IntakeProofs
import Quark.SmiFlash.Proofs.LaunchProofs
import Quark.SmiFlash.Proofs.ScheduleProofs
import Quark.SmiFlash.Proofs.SvnPointProofs
import Quark.SmiFlash.Proofs.UpdateProofs
import Quark.SmiFlash.Proofs.HintsProofs
import Quark.SmiFlash.Proofs.ImagesProofs
import Quark.SmiFlash.Proofs.BoundsProofs
import Quark.Ohci.HouseKeeper
import Quark.Ohci.Proofs.HouseKeeperProofs
import Quark.CapsuleTool.CapsuleCreate
import Quark.CapsuleTool.Config
import Quark.CapsuleTool.Proofs.CapsuleCreateProofs
import Quark.CapsuleTool.Proofs.AgreementProofs
import Quark.Machine.BitField
import Quark.MemoryInit.Timings
import Quark.MemoryInit.Proofs.TimingsProofs
import Quark.SmmDispatcher.Source
import Quark.SmmDispatcher.Core
import Quark.SmmDispatcher.Spec
import Quark.SmmDispatcher.Proofs.SourceProofs
import Quark.SmmDispatcher.Proofs.DispatchProofs
import Quark.SmmDispatcher.Proofs.RegistrationProofs
import Quark.SmmDispatcher.Proofs.TimingProofs
import Quark.Machine.AddressSpace
import Quark.PciHostBridge.HostBridge
import Quark.PciHostBridge.Spec
import Quark.PciHostBridge.Proofs.NodeProofs
import Quark.PciHostBridge.Proofs.BridgeProofs
import Quark.PciHostBridge.Proofs.AllocationProofs
import Quark.PciHostBridge.Proofs.HoldingProofs
import Quark.PciHostBridge.Proofs.EnumerationProofs
import Quark.Machine.SavedEntries
import Quark.PiSmmCpu.SmmProfile
import Quark.PiSmmCpu.Proofs.SmmProfileProofs
import Quark.PiSmmCpu.PageTable
import Quark.PiSmmCpu.Proofs.PageTableProofs
import Quark.PiSmmCpu.CpuService
import Quark.PiSmmCpu.Proofs.CpuServiceProofs
import Quark.Machine.RingBuffer
import Quark.Uart.Serial
import Quark.Uart.Proofs.SerialProofs
import Quark.Machine.LittleEndian
import Quark.Bds.VariableStore
import Quark.Bds.LoadOption
import Quark.Bds.Proofs.LoadOptionProofs
import Quark.Bds.OptionOrder
import Quark.Bds.Proofs.OptionOrderProofs
import Quark.Bds.Hotkey
import Quark.Bds.Proofs.HotkeyProofs
import Quark.Machine.Spans
import Quark.Machine.InsertionSort
import Quark.SecureBoot.PeImage
import Quark.SecureBoot.Authenticode
import Quark.SecureBoot.Proofs.AccessProofs
import Quark.SecureBoot.Proofs.LoadProofs
import Quark.SecureBoot.Proofs.CoverageProofs
import Quark.Machine.ByteStore
import Quark.SdMedia.Card
import Quark.SdMedia.BlockIo
import Quark.SdMedia.Contract
import Quark.SdMedia.Proofs.CardProofs
import Quark.SdMedia.Proofs.BlockIoProofs
import Quark.PlatformInit.InstallMemory
import Quark.PlatformInit.HandOff
import Quark.PlatformInit.Proofs.MemoryMapProofs
import Quark.PlatformInit.Proofs.HandOffProofs
import Quark.MemoryInit.Training
import Quark.MemoryInit.Proofs.ReadSearchProofs
import Quark.MemoryInit.Proofs.ReadLimitsProofs
import Quark.MemoryInit.Proofs.ReadTrainingProofs
import Quark.MemoryInit.Proofs.WriteTrainingProofs
import Quark.Machine.NorFlash
import Quark.Machine.Layout
import Quark.Spi.Controller
import Quark.Spi.NorPart
import Quark.Spi.Proofs.ChunkProofs
import Quark.Spi.Proofs.FlashProofs
import Quark.Fvb.Volume
import Quark.Fvb.BlockService
import Quark.Fvb.Proofs.BlockMapProofs
import Quark.Fvb.Proofs.PlacementProofs
import Quark.Fvb.Proofs.AccessProofs
import Quark.Fvb.Proofs.EraseProofs
import Quark.Fvb.Proofs.RangeProofs
import Quark.Fvb.Proofs.ProtocolProofs
import Quark.Machine.VersionFloor
import Quark.Library.Proofs.MfhSearchProofs
import Quark.CapsuleSecurity.VersionCheck
import Quark.CapsuleSecurity.Versions
import Quark.CapsuleSecurity.Proofs.VersionsProofs
import Quark.CapsuleSecurity.Proofs.RollbackProofs
import Quark.Machine.Promotion
import Quark.Machine.Records
import Quark.Library.MfhLookups
import Quark.Library.PlatformDataArea
import Quark.Library.PlatformVariables
import Quark.Library.Proofs.VariableTableProofs
import Quark.Library.Proofs.VariableCleanUpProofs
import Quark.Library.Proofs.MfhLookupProofs
import Quark.Library.Proofs.PdatCopyProofs
import Quark.Library.Proofs.PdatReadProofs
import Quark.CapsuleSecurity.FirstPass
import Quark.CapsuleSecurity.Proofs.PriorityProofs
import Quark.CapsuleSecurity.Proofs.MfhGlobalsProofs
import Quark.SmiFlash.MacPolicy
import Quark.SmiFlash.Proofs.CapacityProofs
import Quark.SmiFlash.Proofs.MacProofs
import Quark.Ohci.MemPool
import Quark.Ohci.Schedule
import Quark.Ohci.Transfers
import Quark.Ohci.TransferSpec
import Quark.Ohci.Proofs.MemPoolProofs
import Quark.Ohci.Proofs.PoolRunProofs
import Quark.Ohci.Proofs.ScheduleProofs
import Quark.Ohci.Proofs.StageProofs
import Quark.Ohci.Proofs.BulkProofs
import Quark.Ohci.Proofs.ControlProofs
import Quark.Ohci.Proofs.TransferProofs
import Quark.Machine.Elements
import Quark.PciHostBridge.RootBridgeIo
import Quark.PciHostBridge.Proofs.CopyMemProofs
import Quark.PciHostBridge.Proofs.PollProofs
import Quark.PciHostBridge.Proofs.ConfigAccessProofs
import Quark.PciHostBridge.Proofs.ConfigAgreementProofs
import Quark.PciHostBridge.Proofs.NodeRunProofs
import Quark.PciHostBridge.Proofs.SubmissionProofs
import Quark.PciHostBridge.Proofs.TerminationProofs
import Quark.Machine.EditedList
import Quark.SmmDispatcher.Callbacks
import Quark.SmmDispatcher.Proofs.CallbackProofs
import Quark.PiSmmCpu.Proofs.StackGuardProofs
import Quark.Ohci.SyncInterrupt
import Quark.Ohci.Proofs.SyncInterruptProofs
import Quark.Ohci.Reset
import Quark.Ohci.Proofs.ResetProofs
import Quark.Library.Proofs.SpiProtectProofs
import Quark.Bds.Proofs.HotkeyServiceProofs
import Quark.Bds.Proofs.ValidationProofs
import Quark.Bds.Proofs.SortProofs
import Quark.SecureBoot.Proofs.AppendCertProofs
import Quark.SecureBoot.Proofs.WalkSafetyProofs
import Quark.Bds.MemoryTypeInformation
import Quark.Bds.Proofs.MemoryTypeProofs
import Quark.Machine.Scan
import Quark.Acpi.Madt
import Quark.Acpi.Proofs.MadtProofs
import Quark.Acpi.CommunicationTable
import Quark.Acpi.Proofs.CommunicationTableProofs
import Quark.PiSmmCpu.ProfileLog
import Quark.PiSmmCpu.Proofs.ProfileLogProofs
import Quark.PiSmmCpu.ProcessorLocation
import Quark.PiSmmCpu.Proofs.ProcessorLocationProofs
import Quark.SdMedia.CeAta
import Quark.SdMedia.Proofs.CeAtaProofs
import Quark.FlashTool.SpiFixup
import Quark.FlashTool.Proofs.SpiFixupProofs
import Quark.PlatformInit.Recovery
import Quark.PlatformInit.Proofs.RecoveryProofs
import Quark.CpuMp.Timeout
import Quark.CpuMp.Proofs.TimeoutProofs
import Quark.Library.Proofs.Crc32Proofs
import Quark.MemoryInit.Scrambler
import Quark.MemoryInit.Proofs.ScramblerProofs
import Quark.Bds.Proofs.FreeNumberProofs
import Quark.SmiFlash.Proofs.AddressCheckProofs
import Quark.Library.Proofs.PdatAgreeProofs
import Quark.MemoryInit.DramCommand
import Quark.MemoryInit.Proofs.DramCommandProofs
import Quark.SdMedia.ClockDivider
import Quark.SdMedia.Proofs.ClockDividerProofs
import Quark.Library.PoolBlock
import Quark.Library.Proofs.PoolBlockProofs
