import WiiSwitch.BootMemory
import WiiSwitch.BootstrapRuns
import WiiSwitch.CallGuards
import WiiSwitch.ContextSwitch
import WiiSwitch.Dispatch
import WiiSwitch.EndedThreads
import WiiSwitch.FaultBoundaries
import WiiSwitch.FiberStacks
import WiiSwitch.SwitchRefinement
import WiiSwitch.MixedThreads
import WiiSwitch.TransparentSwitches
import WiiSwitch.ResumeReturn
import WiiSwitch.FloatStores
import WiiSwitch.Fpscr
import WiiSwitch.FlushMode
import WiiSwitch.FrameBuffers
import WiiSwitch.GuestFlatBounds
import WiiSwitch.InheritedPriority
import WiiSwitch.InterruptLaws
import WiiSwitch.MessageRuns
import WiiSwitch.MutexRuns
import WiiSwitch.NandCascades
import WiiSwitch.NandFileRuns
import WiiSwitch.NandNormalForm
import WiiSwitch.CreateThreadLaws
import WiiSwitch.SchedulerInvariant
import WiiSwitch.BlockedReceive
import WiiSwitch.SchedulerRuns
import WiiSwitch.SchedulerWords
import WiiSwitch.ThreadStart
import WiiSwitch.TimeBase
import WiiSwitch.TitleRuns
import WiiSwitch.RetracePacing
import WiiSwitch.RetraceRuns
import WiiSwitch.RightReturns
import WiiSwitch.WaitQueues
import WiiSwitch.ZeroLoops
import WiiSwitch.Sprs
import WiiSwitch.DvdRuns
import WiiSwitch.Liveness
import WiiSwitch.RetraceCallbacks
import WiiSwitch.NandReads
import WiiSwitch.ProductArea
import WiiSwitch.ByteReverse
import WiiSwitch.GxInit
