import Linux011.Library.ByteMemory
import Linux011.Library.Count
import Linux011.Library.Effect
import Linux011.Library.Linked
import Linux011.Library.Loop
import Linux011.Library.Machine
import Linux011.Library.Numerals
import Linux011.Library.Reach
import Linux011.Library.Search
import Linux011.Library.WordBytes
import Linux011.Mm.Entry
import Linux011.Mm.Paging
import Linux011.Mm.Ledger
import Linux011.Mm.Views
import Linux011.Mm.Moves
import Linux011.Mm.Counts
import Linux011.Mm.SoundMoves
import Linux011.Mm.Walks
import Linux011.Mm.PageWalks
import Linux011.Mm.Shm
import Linux011.Mm.Attach
import Linux011.Mm.Order
import Linux011.Mm.CopyWalks
import Linux011.Mm.Kernel
import Linux011.Mm.KernelWalks
import Linux011.Mm.Calls
import Linux011.Mm.Exact
import Linux011.Mm.Footprint
import Linux011.Mm.Faults
import Linux011.Mm.Parts
import Linux011.Mm.Supervisor
import Linux011.Mm.Deeds
import Linux011.Mm.References
import Linux011.Mm.VerifyArea
import Linux011.Mm.Buffers
import Linux011.Mm.Separate
import Linux011.Mm.Demand
import Linux011.Mm.Debug
import Linux011.Mm.Observer
import Linux011.Mm.FreePages
import Linux011.Mm.Undo
import Linux011.Mm.Shmat
import Linux011.Mm.FailedFork
import Linux011.Mm.Lending
import Linux011.Sched.WaitQueue
import Linux011.Sched.Scheduler
import Linux011.Sched.Numbers
import Linux011.Sched.Selection
import Linux011.Sched.Sleepers
import Linux011.Switch.Cpu
import Linux011.Switch.SwitchTo
import Linux011.Switch.Tasks
import Linux011.Switch.Registers
import Linux011.Switch.Coprocessor
import Linux011.Switch.Slots
import Linux011.Switch.FirstReturn
import Linux011.Switch.SlotRuns
import Linux011.Switch.Pids
import Linux011.Semaphore.Names
import Linux011.Semaphore.Registry
import Linux011.Semaphore.Links
import Linux011.Semaphore.Chains
import Linux011.Semaphore.Wait
import Linux011.Semaphore.Counting
import Linux011.Semaphore.Refinement
import Linux011.Semaphore.RegistryRuns
import Linux011.Semaphore.Users
import Linux011.Semaphore.Shape
import Linux011.ProducerConsumer.Program
import Linux011.ProducerConsumer.Moves
import Linux011.ProducerConsumer.Accounts
import Linux011.ProducerConsumer.Balance
import Linux011.ProducerConsumer.Invariant
import Linux011.ProducerConsumer.Delivery
import Linux011.ProducerConsumer.Shutdown
import Linux011.SharedBuffer.Program
import Linux011.SharedBuffer.Page
import Linux011.SharedBuffer.Semaphores
import Linux011.SharedBuffer.Invariant
import Linux011.SharedBuffer.Producer
import Linux011.SharedBuffer.Consumer
import Linux011.SharedBuffer.Progress
import Linux011.SharedBuffer.Delivery
import Linux011.LifeCycle.StatLog
import Linux011.LifeCycle.LogText
import Linux011.LifeCycle.Bursts
import Linux011.LifeCycle.Process
import Linux011.LifeCycle.Lives
import Linux011.LifeCycle.Steps
import Linux011.LifeCycle.Table
import Linux011.LifeCycle.ChildExit
import Linux011.LifeCycle.Death
import Linux011.LifeCycle.ForkPid
import Linux011.LifeCycle.LogBuffer
import Linux011.LifeCycle.ProcessLog
import Linux011.LifeCycle.Statistics
import Linux011.LifeCycle.Switching
import Linux011.Timer.TimerList
import Linux011.Timer.OnTime
import Linux011.Tty.Screen
import Linux011.Tty.Write
import Linux011.Tty.Bounds
import Linux011.Tty.OnScreen
import Linux011.Tty.FastScroll
import Linux011.Tty.Keyboard
import Linux011.Tty.Obscured
import Linux011.Tty.SavedCursor
import Linux011.Proc.Text
import Linux011.Proc.Device
import Linux011.Proc.Refresh
import Linux011.Proc.Capacity
import Linux011.Proc.Reads
import Linux011.Proc.Seeks
import Linux011.Proc.Snapshot
import Linux011.Who.Name
import Linux011.Who.RoundTrip
import Linux011.Who.Whoami
import Linux011.Fs.FileSystem
import Linux011.Fs.Entries
import Linux011.Fs.Namei
import Linux011.Fs.Calls
import Linux011.Fs.Jail
import Linux011.Boot.Bootsect
import Linux011.Library.Leads
import Linux011.Boot.Loading
import Linux011.Boot.Start
import Linux011.Boot.Build
import Linux011.Library.Fifo
import Linux011.Threads.Manager
import Linux011.Threads.Pool
import Linux011.Threads.Refinement
import Linux011.Threads.Runs
import Linux011.Fs.Laws
import Linux011.Fs.Tree
import Linux011.Fs.Directory
import Linux011.Fs.Lookup
import Linux011.Fs.Insert
import Linux011.Fs.Creating
import Linux011.Fs.Mkdir
import Linux011.Fs.Removing
import Linux011.Fs.Runs
import Linux011.Fs.Rooted
import Linux011.Fs.Paths
