import FuzzSocketCan.Guest.BulkTransfer
import FuzzSocketCan.Guest.Resume
import FuzzSocketCan.Harness.CanLeftovers
import FuzzSocketCan.Harness.Dup2
import FuzzSocketCan.Harness.Epoll
import FuzzSocketCan.Harness.Fgets
import FuzzSocketCan.Harness.Readiness
import FuzzSocketCan.Harness.ScatterReads
import FuzzSocketCan.Harness.ScriptedSeeds
import FuzzSocketCan.Packer.SeedFile
import FuzzSocketCan.Qemu.BlockMetadata
import FuzzSocketCan.Qemu.DeviceWrites
import FuzzSocketCan.Qemu.DisassembleWindow
import FuzzSocketCan.Qemu.FullCompare
import FuzzSocketCan.Qemu.Handshake
import FuzzSocketCan.Qemu.MemoryBlocks
import FuzzSocketCan.Qemu.MemorySnapshots
import FuzzSocketCan.Qemu.PagePointers
import FuzzSocketCan.Qemu.RedqueenLog
import FuzzSocketCan.Qemu.RedqueenTrace
import FuzzSocketCan.Qemu.RedqueenTraps
import FuzzSocketCan.Qemu.SectorRequests
import FuzzSocketCan.Qemu.SharePaths
import FuzzSocketCan.Qemu.SnapshotReads
import FuzzSocketCan.Qemu.TimeoutDetector
import FuzzSocketCan.Qemu.VirtualWrites
import FuzzSocketCan.RustFuzzer.FavCover
import FuzzSocketCan.RustFuzzer.FavQueue
import FuzzSocketCan.RustFuzzer.MinExample
import FuzzSocketCan.RustFuzzer.MinimizeBlocks
import FuzzSocketCan.RustFuzzer.MinimizeKeeps
import FuzzSocketCan.RustFuzzer.RedqueenDicts
import FuzzSocketCan.RustFuzzer.SnapshotConfinement
import FuzzSocketCan.StructuredFuzzer.AllOrNothing
import FuzzSocketCan.StructuredFuzzer.DataLayout
import FuzzSocketCan.StructuredFuzzer.EdgeTypes
import FuzzSocketCan.StructuredFuzzer.IterAgreement
import FuzzSocketCan.StructuredFuzzer.NodeDropping
import FuzzSocketCan.StructuredFuzzer.RegexTotality
import FuzzSocketCan.StructuredFuzzer.SizeChanging
import FuzzSocketCan.StructuredFuzzer.SplicePoints
