import BafsDriver.Lib.Prog
import BafsDriver.Lib.Refcount
import BafsDriver.Lib.LowestFree
import BafsDriver.Lib.Run
import BafsDriver.Lib.Ledger
import BafsDriver.Lib.NumberPool
import BafsDriver.Library
import BafsDriver.Scenario
import BafsDriver.System
import BafsDriver.Proofs.DeviceNumbers
import BafsDriver.Proofs.SystemProofs
import BafsDriver.Proofs.MemLifetime
import BafsDriver.Proofs.StateMachine
import BafsDriver.Proofs.VmaPieces
import BafsDriver.Proofs.CtrlAccounting
import BafsDriver.Proofs.GroupLifetime
import BafsDriver.Proofs.DeleteGroup
import BafsDriver.Proofs.BarMapping
import BafsDriver.Proofs.MapBounds
import BafsDriver.Proofs.HandleRoundTrip
import BafsDriver.Proofs.AddressLookup
import BafsDriver.Proofs.ContextRegistry
import BafsDriver.Proofs.OpenOrder
import BafsDriver.Proofs.PageAgreement
import BafsDriver.Proofs.DmaLedger
import BafsDriver.Proofs.AddressBuffer
import BafsDriver.Proofs.FailedPin
import BafsDriver.Proofs.MinorNumbers
import BafsDriver.Proofs.CleanUnload
import BafsDriver.Proofs.ProcessIsolation
import BafsDriver.Proofs.RegistrationTables
import BafsDriver.Proofs.PendingHandle
import BafsDriver.Proofs.GroupName
import BafsDriver.Proofs.StackBytes
import BafsDriver.Proofs.ReleaseConvention
import BafsDriver.Proofs.Chunks
import BafsDriver.Proofs.PageOffset
import BafsDriver.Proofs.GroupUnwind
import BafsDriver.Proofs.VmaClose
import BafsDriver.Proofs.DmaBlocks
import BafsDriver.Proofs.CpuPages
import BafsDriver.Proofs.FailedOpen
import BafsDriver.Proofs.GroupCreation
import BafsDriver.Proofs.GroupRelease
import BafsDriver.Proofs.GroupRollback
import BafsDriver.Proofs.FileClose
import BafsDriver.Proofs.LibraryNames
import BafsDriver.Proofs.GroupAsSingles
import BafsDriver.Proofs.EarlyOpen
import BafsDriver.Proofs.WholeThreads
import BafsDriver.Proofs.Races
import BafsDriver.Proofs.AtRest
import BafsDriver.Proofs.ContextIsolation
import BafsDriver.Proofs.MemorySafety
import BafsDriver.Proofs.WholeStartup
import BafsDriver.Proofs.WholeLocks
import BafsDriver.Proofs.LockOrder
