import OopsOS.BlockSafety
import OopsOS.Durability
import OopsOS.PunchHole
import OopsOS.CloneContents
import OopsOS.VectorIo
import OopsOS.Xattrs
import OopsOS.FsInfo
import OopsOS.Flock
import OopsOS.DirWriters
import OopsOS.FaultPanics
import OopsOS.SemSafety
import OopsOS.BankerConservation
import OopsOS.MappingContents
import OopsOS.MappingWriteBack
import OopsOS.SpacesFork
import OopsOS.SpacesThreads
import OopsOS.Midsched
import OopsOS.MonitorWakeups
import OopsOS.RealTime
import OopsOS.DirectMessageWakeups
import OopsOS.PriorityInheritance
import OopsOS.ProcLocks
import OopsOS.Pipes
import OopsOS.Spool
import OopsOS.Alarms
import OopsOS.PageAllocator
import OopsOS.ThreadGroups
import OopsOS.MessageQueues
import OopsOS.DirectMessageDelivery
import OopsOS.DirectMessageQueue
import OopsOS.SlotHistory
import OopsOS.MessagePages
import OopsOS.RenameRaces
import OopsOS.BufferCache
import OopsOS.ExecArgs
import OopsOS.Sbrk
import OopsOS.ShellHistory
import OopsOS.ShellJobs
import OopsOS.Sockets
import OopsOS.Packets
