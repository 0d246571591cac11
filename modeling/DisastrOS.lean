import DisastrOS.Properties.Places
import DisastrOS.Properties.Faults
import DisastrOS.Properties.Results
import DisastrOS.Properties.Parents
import DisastrOS.Properties.WakeUps
import DisastrOS.Properties.ExitStatus
import DisastrOS.Properties.Fifo
import DisastrOS.Properties.Releases
import DisastrOS.Properties.Allocator
import DisastrOS.Properties.Objects
import DisastrOS.Properties.ChildPointers
import DisastrOS.Behaviour.Timers
import DisastrOS.Properties.Sleep
import DisastrOS.Properties.Contexts
import DisastrOS.Properties.Status
import DisastrOS.Properties.Exhaustion
import DisastrOS.Behaviour.Mirror
import DisastrOS.Properties.Layers
import DisastrOS.Properties.Reparenting
import DisastrOS.Properties.Waits
import DisastrOS.Properties.Refusals
import DisastrOS.Properties.Capacity
import DisastrOS.Properties.Lengths
import DisastrOS.Properties.Payloads
import DisastrOS.Properties.Schedule
import DisastrOS.Behaviour.Descriptors
import DisastrOS.Behaviour.LayerCalls
import DisastrOS.Behaviour.Opens
import DisastrOS.Properties.Quotas
import DisastrOS.Properties.FailedOpens
import DisastrOS.Properties.Modes
import DisastrOS.Properties.Exclusive
import DisastrOS.Properties.Names
import DisastrOS.Properties.MessageIds
import DisastrOS.Properties.SyscallNumbers
import DisastrOS.Properties.PoolInit
import DisastrOS.Properties.ListOps
import DisastrOS.Properties.DoubleInsertion
import DisastrOS.Properties.TimerQueue
import DisastrOS.Kernel.Lookups
import DisastrOS.Properties.Lookups
import DisastrOS.Properties.Fairness
import DisastrOS.Properties.FamilyTree
import DisastrOS.Properties.Links
import DisastrOS.Properties.Handles
import DisastrOS.Properties.PostOffice
import DisastrOS.Properties.Isolation
import DisastrOS.Properties.LostEntries
import DisastrOS.Properties.FaultTable
import DisastrOS.Linked.ProcessLists
import DisastrOS.Kernel.Resources
