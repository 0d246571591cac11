import DisastrOS.Kernel.ListHeap

/-! # Lookups in memory

The loops that look for an item by a number in it. Each of them is written out once more in the
code, and one of them differently.
-/
namespace DisastrOS
open Links

namespace ListHeap

variable {ι : Type} (h : ListHeap ι) (l : ι)

/-- `MessageQueueList_byId`. -/
def messageQueueListById (messageQueueId : ℕ → ℤ) (id : ℤ) (n : ℕ) : Option (Option ℕ) :=
  findFrom h.next (fun m => messageQueueId m = id) n (h.first l)

/-- `DescrittoreList_byMqd`. -/
def descrittoreListByMqd (descrittoreMqd : ℕ → ℤ) (mqd : ℤ) (n : ℕ) : Option (Option ℕ) :=
  findFrom h.next (fun d => descrittoreMqd d = mqd) n (h.first l)

/-- `ResourceList_byId`. -/
def resourceListById (resourceId : ℕ → ℤ) (id : ℤ) (n : ℕ) : Option (Option ℕ) :=
  findFrom h.next (fun r => resourceId r = id) n (h.first l)

/-- `DescriptorList_byFd`. -/
def descriptorListByFd (descriptorFd : ℕ → ℤ) (fd : ℤ) (n : ℕ) : Option (Option ℕ) :=
  findFrom h.next (fun d => descriptorFd d = fd) n (h.first l)

/-- `PCB_byPID`. -/
def pcbByPID (pcbPid : ℕ → ℤ) (pid : ℤ) (n : ℕ) : Option (Option ℕ) :=
  findFrom h.next (fun pcb => pcbPid pcb = pid) n (h.first l)

/-- `PCBPtr_byPID`, which looks behind the pointer. -/
def pcbPtrByPID (pcb : ℕ → ℕ) (pcbPid : ℕ → ℤ) (pid : ℤ) (n : ℕ) : Option (Option ℕ) :=
  findFrom h.next (fun pcbPtr => pcbPid (pcb pcbPtr) = pid) n (h.first l)

end ListHeap

/-- The loop of `Message_byId`. The step to the next message is inside the `if`, behind the
`return`, so that `aux` stays where it is. -/
def messageByIdFrom (messageId : ℕ → ℤ) (id : ℤ) : ℕ → Option ℕ → Option (Option ℕ)
  | _, none => some none
  | 0, some _ => none
  | n + 1, some aux =>
    if messageId aux = id then some (some aux) else messageByIdFrom messageId id n (some aux)

/-- `Message_byId`. -/
def ListHeap.messageById {ι : Type} (h : ListHeap ι) (messages : ι) (messageId : ℕ → ℤ) (id : ℤ)
    (n : ℕ) : Option (Option ℕ) := messageByIdFrom messageId id n (h.first messages)

end DisastrOS
