import Sable.AllocTiling
import Sable.RequestFrames
import Sable.Frames
import Sable.AuthorisedCommands
import Sable.RequestAuthorisation
import Sable.HeapObjects
import Sable.ResponseFrames
import Sable.ResponseAuthenticity
import Sable.FifoTpm
import Sable.CommandRuns
import Sable.Measurement
import Sable.MeasurementLog
import Sable.MeasurementBinding
import Sable.BootFrames
import Sable.E820
import Sable.E820Regions
import Sable.FirmwareMap
import Sable.PostLaunch
import Sable.MemoryDescriptors
import Sable.VtdRanges
import Sable.SinitAcm
import Sable.SinitSelection
import Sable.ProtectedMemory
import Sable.ReceivedBytes
import Sable.ParserReads
import Sable.ResponseDelivery
import Sable.Marshalling
import Sable.FrameLengths
import Sable.StoredDataCodec
import Sable.BlobWrites
import Sable.StringInstructions
import Sable.Elf
import Sable.Trampoline
import Sable.AddressMasks
import Sable.Mtrrs
import Sable.PageTypes
import Sable.Heap
import Sable.HeapRegions
import Sable.Txt
import Sable.HeapInitialisation
import Sable.PlatformChecks
import Sable.LaunchPrerequisites
import Sable.ErrorPropagation
import Sable.LaunchGating
import Sable.MapUpdates
import Sable.Sha1SizeGuard
import Sable.AlignedBlocks
import Sable.MapWalk
import Sable.RamSweeps
import Sable.RegionKinds
import Sable.TypedRanges
import Sable.HeapSufficiency
import Sable.NonceFreshness
import Sable.LinkedMachines
import Sable.NvRoundTrip
import Sable.MtrrRestore
import Sable.AcmReads
import Sable.ElementWalks
import Sable.HeapContents
import Sable.MlePages
import Sable.ElfBounds
import Sable.MultibootSegments
import Sable.Linux
import Sable.LinuxRecords
import Sable.KernelPartition
import Sable.InitrdPlacement
import Sable.MapHandover
import Sable.Memcpy
import Sable.LoaderModules
import Sable.TxtModules
import Sable.LineEditing
import Sable.RegionInsertion
import Sable.Keyboard
import Sable.CommandLine
import Sable.MaskGeneration
import Sable.StringCopies
import Sable.Substrings
import Sable.PassphraseMasks
import Sable.DescriptorSort
import Sable.MadtWalk
import Sable.UnsealedPassphrase
import Sable.RsdpSearch
import Sable.PciCapabilities
import Sable.ShutdownBarrier
import Sable.PowerCycles
import Sable.Console
import Sable.LaunchedImages
import Sable.KernelOptions
import Sable.ApPages
import Sable.DevProtection
import Sable.LoaderContext
import Sable.DmarTable
import Sable.MapHistories
