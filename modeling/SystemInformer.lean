import SystemInformer.PhLib.CountBits
import SystemInformer.Proofs.ActivateDynData
import SystemInformer.Proofs.AtomicRef
import SystemInformer.Proofs.AvlTraversal
import SystemInformer.Proofs.BackTrace
import SystemInformer.Proofs.Barrier
import SystemInformer.Proofs.Callback
import SystemInformer.Proofs.Capture
import SystemInformer.Proofs.CidEnumerate
import SystemInformer.Proofs.CidPopulate
import SystemInformer.Proofs.CidTracking
import SystemInformer.Proofs.CircularBuffer
import SystemInformer.Proofs.CommandLineOptions
import SystemInformer.Proofs.CommsNotify
import SystemInformer.Proofs.CommsQueue
import SystemInformer.Proofs.CommsSend
import SystemInformer.Proofs.Crc32C
import SystemInformer.Proofs.DateTime
import SystemInformer.Proofs.DeferDelete
import SystemInformer.Proofs.DynData
import SystemInformer.Proofs.Ellipsis
import SystemInformer.Proofs.Event
import SystemInformer.Proofs.FastLock
import SystemInformer.Proofs.FileNameCache
import SystemInformer.Proofs.FilePoolRoom
import SystemInformer.Proofs.FilePoolRva
import SystemInformer.Proofs.FileStreamFaults
import SystemInformer.Proofs.FileStreamText
import SystemInformer.Proofs.HandleTable
import SystemInformer.Proofs.HexString
import SystemInformer.Proofs.IntegerFormat
import SystemInformer.Proofs.ListViewSettings
import SystemInformer.Proofs.Lists
import SystemInformer.Proofs.MappedArchive
import SystemInformer.Proofs.MappedChecksum
import SystemInformer.Proofs.MappedExports
import SystemInformer.Proofs.MappedGuard
import SystemInformer.Proofs.MappedHeaders
import SystemInformer.Proofs.MappedImports
import SystemInformer.Proofs.MappedTables
import SystemInformer.Proofs.MenuPrefix
import SystemInformer.Proofs.MsgDynClear
import SystemInformer.Proofs.PointerList
import SystemInformer.Proofs.PrivilegeCheck
import SystemInformer.Proofs.ProcessProvider
import SystemInformer.Proofs.ProtectionStart
import SystemInformer.Proofs.ReadMemory
import SystemInformer.Proofs.RundownWaits
import SystemInformer.Proofs.SessionToken
import SystemInformer.Proofs.StringBuilder
import SystemInformer.Proofs.StringHash
import SystemInformer.Proofs.StringMemory
import SystemInformer.Proofs.StringSearch
import SystemInformer.Proofs.StringSplit
import SystemInformer.Proofs.UnicodeEncoder
import SystemInformer.Proofs.VersionInfo
import SystemInformer.Proofs.WakeEvent
import SystemInformer.Proofs.WorkQueueWait
