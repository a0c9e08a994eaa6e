import JkxyKernel.Lib.Machine
import JkxyKernel.Lib.RefCount
import JkxyKernel.Lib.Bytes
import JkxyKernel.Structure.Array
import JkxyKernel.Task.Effects
import JkxyKernel.Task.SignalSafety
import JkxyKernel.Task.Reaping
import JkxyKernel.Task.StopContinue
import JkxyKernel.Task.SignalWakeups
import JkxyKernel.Task.Parents
import JkxyKernel.Task.ProcessGroups
import JkxyKernel.Sched.RunQueue
import JkxyKernel.Locking.HandOver
import JkxyKernel.Sessions.Counting
import JkxyKernel.Fp.Isolation
import JkxyKernel.Exec.Segments
import JkxyKernel.Exec.Failing
import JkxyKernel.Exec.LoadedSegments
import JkxyKernel.SigFrame.Ece391
import JkxyKernel.SigFrame.Linux
import JkxyKernel.UserBuffers.Counts
import JkxyKernel.UserBuffers.Strings
import JkxyKernel.Tty.InputStream
import JkxyKernel.Tty.Committing
import JkxyKernel.Tty.ScreenBounds
import JkxyKernel.Tty.Forgetting
import JkxyKernel.Tty.SwitchingScreens
import JkxyKernel.Vfs.Parsing
import JkxyKernel.Vfs.Ancestry
import JkxyKernel.Vfs.MountCount
import JkxyKernel.Structure.ArrayMap
import JkxyKernel.Structure.ListRefinement
import JkxyKernel.Fs.DirectoryListing
import JkxyKernel.Fs.Contents
import JkxyKernel.Fs.DentryNames
import JkxyKernel.SigFrame.Delivery
import JkxyKernel.Net.Encapsulation
import JkxyKernel.Net.Sockets
import JkxyKernel.Vfs.Waiters
import JkxyKernel.Vfs.FailedOpens
import JkxyKernel.Vfs.Balance
import JkxyKernel.Vfs.LinkChains
import JkxyKernel.Vfs.Tostring
import JkxyKernel.Fs.Scanning
import JkxyKernel.Vfs.Unmounting
import JkxyKernel.Files.SleepingReads
import JkxyKernel.Heap.Copying
import JkxyKernel.Block.CachedReads
import JkxyKernel.Lib.FirstFit
import JkxyKernel.Time.Uptime
import JkxyKernel.Time.Sleep
import JkxyKernel.Paging.Frames
import JkxyKernel.Paging.Boot
import JkxyKernel.Paging.Supply
import JkxyKernel.Paging.Allocations
import JkxyKernel.Paging.Directories
import JkxyKernel.Paging.Tables
import JkxyKernel.Paging.SafeBuf
import JkxyKernel.Paging.Cells
import JkxyKernel.Paging.Requests
import JkxyKernel.Paging.MakingTables
import JkxyKernel.Paging.SafeWrites
import JkxyKernel.Paging.Outcomes
import JkxyKernel.Paging.Undoing
import JkxyKernel.Paging.Granting
import JkxyKernel.Paging.Confinement
import JkxyKernel.Paging.Unmapping
import JkxyKernel.Paging.Brk
import JkxyKernel.Paging.Ledger
import JkxyKernel.Paging.Cloning
import JkxyKernel.Paging.Returning
import JkxyKernel.Paging.Liballoc
import JkxyKernel.Lib.EndAround
import JkxyKernel.Net.Checksums
import JkxyKernel.Net.Reception
import JkxyKernel.Net.RecvBuf
import JkxyKernel.Time.Poll
import JkxyKernel.Stdio.Format
import JkxyKernel.Stdio.Printf
import JkxyKernel.Time.Calibration
import JkxyKernel.Net.Arp
import JkxyKernel.Task.Tls
