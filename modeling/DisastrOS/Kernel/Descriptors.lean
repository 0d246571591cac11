import DisastrOS.Kernel.PoolAllocator
import DisastrOS.Kernel.LinkedList

/-! # The two descriptor layers

Resources with their `Descriptor`s and message queues with their `Descrittore`s are managed by
code that is written twice, and it is translated twice. The data are laid out alike: the
structure below has the struct fields of all blocks of a pool, indexed by the block, and the two
fields a PCB keeps for the layer, indexed by the PCB. An `object` is a resource or a message
queue, and `fd` stands for `mqd` in the layer of the queues, as do the names made from it. What
else a queue has is in the state of the kernel.
-/
namespace DisastrOS

structure DescriptorLayer where
  objectAllocator : Pool maxNumResources
  id : ℕ → ℤ
  type : ℕ → ℤ
  descriptorsPtrs : ℕ → List ℕ
  objectsList : List ℕ
  descriptorAllocator : Pool maxNumProcesses
  pcb : ℕ → ℕ
  object : ℕ → ℕ
  fd : ℕ → ℤ
  ptr : ℕ → ℕ
  descriptorPtrAllocator : Pool maxNumProcesses
  descriptor : ℕ → ℕ
  lastFd : ℕ → ℤ
  descriptors : ℕ → List ℕ

namespace DescriptorLayer

section Resources

/-- `Resource_init` and `Descriptor_init`; both descriptor pools get `MAX_NUM_PROCESSES` blocks,
although their buffers have room for more. -/
def resourceInit : DescriptorLayer where
  objectAllocator := Pool.full maxNumResources maxNumResources_pos
  id := fun _ => 0
  type := fun _ => 0
  descriptorsPtrs := fun _ => []
  objectsList := []
  descriptorAllocator := Pool.full maxNumProcesses maxNumProcesses_pos
  pcb := fun _ => 0
  object := fun _ => 0
  fd := fun _ => 0
  ptr := fun _ => 0
  descriptorPtrAllocator := Pool.full maxNumProcesses maxNumProcesses_pos
  descriptor := fun _ => 0
  lastFd := fun _ => 0
  descriptors := fun _ => []

def resourceAlloc (L : DescriptorLayer) (id type : ℤ) : Option (ℕ × DescriptorLayer) :=
  match L.objectAllocator.getBlock with
  | none => none
  | some (r,pool) => some (r,
      { L with
        objectAllocator := pool
        id := Function.update L.id r id
        type := Function.update L.type r type
        descriptorsPtrs := Function.update L.descriptorsPtrs r [] })

def resourceFree (L : DescriptorLayer) (r : ℕ) : Except Fault DescriptorLayer :=
  if L.descriptorsPtrs r ≠ [] then .error .assertion
  else .ok { L with objectAllocator := L.objectAllocator.releaseBlock r }

def resourceListById (L : DescriptorLayer) (id : ℤ) : Option ℕ :=
  L.objectsList.find? (fun r => L.id r = id)

def descriptorAlloc (L : DescriptorLayer) (fd : ℤ) (res pcb : ℕ) :
    Option (ℕ × DescriptorLayer) :=
  match L.descriptorAllocator.getBlock with
  | none => none
  | some (d,pool) => some (d,
      { L with
        descriptorAllocator := pool
        fd := Function.update L.fd d fd
        object := Function.update L.object d res
        pcb := Function.update L.pcb d pcb })

def descriptorFree (L : DescriptorLayer) (d : ℕ) : DescriptorLayer :=
  { L with descriptorAllocator := L.descriptorAllocator.releaseBlock d }

def descriptorListByFd (L : DescriptorLayer) (pcb : ℕ) (fd : ℤ) : Option ℕ :=
  (L.descriptors pcb).find? (fun d => L.fd d = fd)

def descriptorPtrAlloc (L : DescriptorLayer) (descriptor : ℕ) : Option (ℕ × DescriptorLayer) :=
  match L.descriptorPtrAllocator.getBlock with
  | none => none
  | some (d,pool) => some (d,
      { L with
        descriptorPtrAllocator := pool
        descriptor := Function.update L.descriptor d descriptor })

def descriptorPtrFree (L : DescriptorLayer) (d : ℕ) : DescriptorLayer :=
  { L with descriptorPtrAllocator := L.descriptorPtrAllocator.releaseBlock d }

/-- The loop of `internal_exit` that releases the resources, one pass for each descriptor. -/
def releaseResources (L : DescriptorLayer) (running : ℕ) : ℕ → Except Fault DescriptorLayer
  | 0 => match L.descriptors running with
    | [] => .ok L
    | _ :: _ => .error .diverges
  | n + 1 => match L.descriptors running with
    | [] => .ok L
    | des :: _ => do
      let (_,own) ← listDetach (L.descriptors running) (some des)
      let L := { L with descriptors := Function.update L.descriptors running own }
      let res := L.object des
      let (_,ptrs) ← listDetach (L.descriptorsPtrs res) (some (L.ptr des))
      let L := { L with descriptorsPtrs := Function.update L.descriptorsPtrs res ptrs }
      let L := L.descriptorPtrFree (L.ptr des)
      (L.descriptorFree des).releaseResources running n

end Resources

section MessageQueues

/-- `MessageQueue_init`, as far as the queues go, and `Descrittore_init`, which also asks for
`MAX_NUM_PROCESSES` blocks. -/
def messageQueueInit : DescriptorLayer where
  objectAllocator := Pool.full maxNumMessagequeues maxNumMessagequeues_pos
  id := fun _ => 0
  type := fun _ => 0
  descriptorsPtrs := fun _ => []
  objectsList := []
  descriptorAllocator := Pool.full maxNumProcesses maxNumProcesses_pos
  pcb := fun _ => 0
  object := fun _ => 0
  fd := fun _ => 0
  ptr := fun _ => 0
  descriptorPtrAllocator := Pool.full maxNumProcesses maxNumProcesses_pos
  descriptor := fun _ => 0
  lastFd := fun _ => 0
  descriptors := fun _ => []

def messageQueueListById (L : DescriptorLayer) (id : ℤ) : Option ℕ :=
  L.objectsList.find? (fun m => L.id m = id)

def descrittoreAlloc (L : DescriptorLayer) (mqd : ℤ) (mq pcb : ℕ) :
    Option (ℕ × DescriptorLayer) :=
  match L.descriptorAllocator.getBlock with
  | none => none
  | some (d,pool) => some (d,
      { L with
        descriptorAllocator := pool
        fd := Function.update L.fd d mqd
        object := Function.update L.object d mq
        pcb := Function.update L.pcb d pcb })

def descrittoreFree (L : DescriptorLayer) (d : ℕ) : DescriptorLayer :=
  { L with descriptorAllocator := L.descriptorAllocator.releaseBlock d }

def descrittoreListByMqd (L : DescriptorLayer) (pcb : ℕ) (mqd : ℤ) : Option ℕ :=
  (L.descriptors pcb).find? (fun d => L.fd d = mqd)

def descrittorePtrAlloc (L : DescriptorLayer) (descrittore : ℕ) :
    Option (ℕ × DescriptorLayer) :=
  match L.descriptorPtrAllocator.getBlock with
  | none => none
  | some (d,pool) => some (d,
      { L with
        descriptorPtrAllocator := pool
        descriptor := Function.update L.descriptor d descrittore })

def descrittorePtrFree (L : DescriptorLayer) (d : ℕ) : DescriptorLayer :=
  { L with descriptorPtrAllocator := L.descriptorPtrAllocator.releaseBlock d }

/-- The loop of `internal_exit` that releases the message queues. -/
def releaseMessagequeues (L : DescriptorLayer) (running : ℕ) : ℕ → Except Fault DescriptorLayer
  | 0 => match L.descriptors running with
    | [] => .ok L
    | _ :: _ => .error .diverges
  | n + 1 => match L.descriptors running with
    | [] => .ok L
    | des :: _ => do
      let (_,own) ← listDetach (L.descriptors running) (some des)
      let L := { L with descriptors := Function.update L.descriptors running own }
      let mq := L.object des
      let (_,ptrs) ← listDetach (L.descriptorsPtrs mq) (some (L.ptr des))
      let L := { L with descriptorsPtrs := Function.update L.descriptorsPtrs mq ptrs }
      let L := L.descrittorePtrFree (L.ptr des)
      (L.descrittoreFree des).releaseMessagequeues running n

end MessageQueues

end DescriptorLayer

end DisastrOS
