import DisastrOS.Invariant.LayerMachine
import DisastrOS.Kernel.Lookups

/-! # The two descriptor layers on links

The machine that either descriptor layer is, on the links of its blocks. What a block has besides
its links is in `fields`, where the sequences are empty and are not looked at.
-/
namespace DisastrOS

/-- The result of a loop that may take a number of steps. -/
def finished {α : Type} : Option α → Except Fault α
  | none => .error .diverges
  | some x => .ok x

namespace ListHeap
variable {ι : Type} [DecidableEq ι]

/-- `item->list.prev=item->list.next=0`. -/
def clear (h : ListHeap ι) (item : ℕ) : ListHeap ι := (h.setPrev item none).setNext item none

/-- `List_insert(head, head->last, item)`. -/
def append (h : ListHeap ι) (head : ι) (item : ℕ) : ListHeap ι :=
  (h.listInsert head (h.last head) item).2

end ListHeap

/-- A layer without its sequences. -/
def DescriptorLayer.fields (L : DescriptorLayer) : DescriptorLayer :=
  { L with
    descriptorsPtrs := fun _ => []
    objectsList := []
    descriptors := fun _ => [] }

structure LinkedLayer where
  fields : DescriptorLayer
  objects : ListHeap Unit
  descriptors : ListHeap ℕ
  descriptorsPtrs : ListHeap ℕ

namespace LinkedLayer

def initProcess (L : LinkedLayer) (p : ℕ) : LinkedLayer :=
  { L with
    fields := { L.fields with lastFd := Function.update L.fields.lastFd p 0 }
    descriptors := L.descriptors.listInit p }

/-- `ResourceList_byId` and `MessageQueueList_byId`. -/
def byId (L : LinkedLayer) (id : ℤ) (n : ℕ) : Except Fault (Option ℕ) :=
  finished (L.objects.resourceListById () L.fields.id id n)

/-- `DescriptorList_byFd` and `DescrittoreList_byMqd`. -/
def byFd (L : LinkedLayer) (p : ℕ) (fd : ℤ) (n : ℕ) : Except Fault (Option ℕ) :=
  finished (L.descriptors.descriptorListByFd p L.fields.fd fd n)

/-- `Resource_alloc` with the insertion of the new object. -/
def allocObject (L : LinkedLayer) (id type : ℤ) : Except Fault (ℕ × LinkedLayer) :=
  match L.fields.objectAllocator.getBlock with
  | none => .error .nullPointer
  | some (o,pool) => .ok (o,
      { L with
        fields := { L.fields with
          objectAllocator := pool
          id := Function.update L.fields.id o id
          type := Function.update L.fields.type o type }
        objects := (L.objects.clear o).append () o
        descriptorsPtrs := L.descriptorsPtrs.listInit o })

structure OpenResult where
  layer : LinkedLayer
  retvalue : ℤ
  created : Option ℕ

/-- The descriptor `d` and its pointer `x` are set up, and each is put on its list. -/
def publish (L : LinkedLayer) (running o d x : ℕ) (dPool : Pool maxNumProcesses)
    (xPool : Pool maxNumProcesses) : LinkedLayer :=
  { L with
    fields := { L.fields with
      descriptorAllocator := dPool
      fd := Function.update L.fields.fd d (L.fields.lastFd running)
      object := Function.update L.fields.object d o
      pcb := Function.update L.fields.pcb d running
      lastFd := Function.update L.fields.lastFd running (L.fields.lastFd running + 1)
      descriptorPtrAllocator := xPool
      descriptor := Function.update L.fields.descriptor x d
      ptr := Function.update L.fields.ptr d x }
    descriptors := (L.descriptors.clear d).append running d
    descriptorsPtrs := (L.descriptorsPtrs.clear x).append o x }

def openDescriptor (e : LayerErrors) (L : LinkedLayer) (running o : ℕ)
    (type openMode : ℤ) (created : Option ℕ) : Except Fault OpenResult :=
  if L.fields.type o ≠ type then .ok ⟨L,e.openFailed,created⟩
  else if hasFlag openMode dsosExcl ∧ L.descriptorsPtrs.size o ≠ 0 then
    .ok ⟨L,e.noExcl,created⟩
  else match L.fields.descriptorAllocator.getBlock with
    | none => .ok ⟨L,e.noFd,created⟩
    | some (d,dPool) => match L.fields.descriptorPtrAllocator.getBlock with
      | none => .error .nullPointer
      | some (x,xPool) => .ok ⟨L.publish running o d x dPool xPool,L.fields.lastFd running,created⟩

def openObject (e : LayerErrors) (L : LinkedLayer) (running : ℕ)
    (id type openMode : ℤ) (n : ℕ) : Except Fault OpenResult := do
  let found ← L.byId id n
  match hasFlag openMode dsosCreate, found with
  | true, some _ => .ok ⟨L,e.create,none⟩
  | true, none => do
    let (o,L) ← L.allocObject id type
    L.openDescriptor e running o type openMode (some o)
  | false, some o => L.openDescriptor e running o type openMode none
  | false, none => .ok ⟨L,e.openFailed,none⟩

/-- A descriptor leaves its process and its object, and both blocks are freed. -/
def unlink (L : LinkedLayer) (p d : ℕ) : Except Fault LinkedLayer := do
  let (d,descriptors) ← L.descriptors.listDetach p (some d)
  let o := L.fields.object d
  let (x,ptrs) ← L.descriptorsPtrs.listDetach o (some (L.fields.ptr d))
  .ok { L with
    fields := { L.fields with
      descriptorAllocator := L.fields.descriptorAllocator.releaseBlock d
      descriptorPtrAllocator := L.fields.descriptorPtrAllocator.releaseBlock x }
    descriptors := descriptors
    descriptorsPtrs := ptrs }

def closeDescriptor (e : LayerErrors) (L : LinkedLayer) (running : ℕ) (fd : ℤ) (n : ℕ) :
    Except Fault (LinkedLayer × ℤ) := do
  match ← L.byFd running fd n with
  | none => .ok (L,e.close)
  | some d => do
    let L ← L.unlink running d
    .ok (L,0)

/-- Destruction of an unused object, whose head is checked once more before it is freed. -/
def destroyObject (e : LayerErrors) (L : LinkedLayer) (id : ℤ) (n : ℕ) :
    Except Fault (LinkedLayer × ℤ × Option ℕ) := do
  match ← L.byId id n with
  | none => .ok (L,e.close,none)
  | some o =>
    if L.descriptorsPtrs.size o ≠ 0 then .ok (L,e.inUse,none)
    else do
      let (o,objects) ← L.objects.listDetach () (some o)
      if L.descriptorsPtrs.first o ≠ none ∨ L.descriptorsPtrs.last o ≠ none then .error .assertion
      else .ok ({ L with
        fields := { L.fields with objectAllocator := L.fields.objectAllocator.releaseBlock o }
        objects := objects },0,some o)

/-- The release loop of `internal_exit`, in a number of steps. -/
def releaseAll (L : LinkedLayer) (p : ℕ) : ℕ → Except Fault LinkedLayer
  | 0 => match L.descriptors.first p with
    | none => .ok L
    | some _ => .error .diverges
  | n + 1 => match L.descriptors.first p with
    | none => .ok L
    | some d => do
      let L ← L.unlink p d
      L.releaseAll p n

end LinkedLayer

end DisastrOS
