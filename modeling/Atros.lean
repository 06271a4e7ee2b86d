import Atros.Program
import Atros.Panic
import Atros.BootPages
import Atros.Paging
import Atros.RecursivePaging
import Atros.Ring
import Atros.ListMacros
import Atros.ClistRing
import Atros.PhysicalPages
import Atros.PhysicalBoot
import Atros.PhysicalSafety
import Atros.BlockFree
import Atros.BlockAlloc
import Atros.BlockOrders
import Atros.FormatLanguage
import Atros.FormatRoom
import Atros.ConsoleRun
import Atros.IrqService
import Atros.InterruptReturn
import Atros.SlabBoot
import Atros.SlabInit
import Atros.SlabAdd
import Atros.RegionAlloc
import Atros.FormatArguments
import Atros.NumeralRoom
import Atros.PanicConsole
import Atros.TaskState
import Atros.AddressTranslation
import Atros.PagingBoot
import Atros.SlabIsolation
import Atros.BitLength
import Atros.IrqLines
import Atros.BssClear
import Atros.BlockCopy
import Atros.StringCopy
import Atros.StringOrder
import Atros.RangeBlocks
import Atros.ListInsertion
import Atros.ClistRuns
import Atros.SlabUse
import Atros.PagingSwitch
import Atros.MemoryBoot
import Atros.KernelEntry
import Atros.LinesInService
import Atros.Tlb
import Atros.UserRuns
import Atros.BlockOverlap
import Atros.ReferenceCounts
import Atros.ListRuns
import Atros.DlistRuns
import Atros.BootloaderInfo
