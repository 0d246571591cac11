import DisastrOS.Kernel.Descriptors

/-! # The machine that either descriptor layer is

What the handlers of a layer compute, stated once and on the layer alone: an open, a close, the
destruction of an object, and the release of the descriptors of a process. The handlers of
resources compute it, and so do the handlers of message queues, which are translated from code of
their own.
-/
namespace DisastrOS

/-- The error codes of one descriptor layer, in the order of the checks. -/
structure LayerErrors where
  create : ℤ
  openFailed : ℤ
  noExcl : ℤ
  noFd : ℤ
  close : ℤ
  inUse : ℤ
  deriving DecidableEq

def resourceErrors : LayerErrors :=
  { create := dsosEResourceCreate, openFailed := dsosEResourceOpen,
    noExcl := dsosEResourceNoExcl, noFd := dsosEResourceNoFd, close := dsosEResourceClose,
    inUse := dsosEResourceInUse }

def messagequeueErrors : LayerErrors :=
  { create := dsosEMessagequeueCreate, openFailed := dsosEMessagequeueOpen,
    noExcl := dsosEMessagequeueNoExcl, noFd := dsosEMessagequeueNoFd,
    close := dsosEMessagequeueClose, inUse := dsosEMessagequeueInUse }

/-- The two families of errors have the same numbers. -/
theorem messagequeueErrors_eq : messagequeueErrors = resourceErrors := by decide

namespace DescriptorLayer

/-- A layer at first. -/
def initial : DescriptorLayer where
  objectAllocator := Pool.full maxNumResources maxNumResources_pos
  id := fun _ => 0
  type := fun _ => 0
  descriptorsPtrs := fun _ => []
  objectsList := []
  descriptorAllocator := Pool.full maxNumProcesses maxNumProcesses_pos
  pcb := fun _ => 0
  object := fun _ => 0
  fd := fun _ => 0
  ptr := fun _ => 0
  descriptorPtrAllocator := Pool.full maxNumProcesses maxNumProcesses_pos
  descriptor := fun _ => 0
  lastFd := fun _ => 0
  descriptors := fun _ => []

/-- A new process has no descriptors. -/
def initProcess (L : DescriptorLayer) (p : ℕ) : DescriptorLayer :=
  { L with
    lastFd := Function.update L.lastFd p 0
    descriptors := Function.update L.descriptors p [] }

def byId (L : DescriptorLayer) (id : ℤ) : Option ℕ := L.objectsList.find? (fun o => L.id o = id)

def byFd (L : DescriptorLayer) (p : ℕ) (fd : ℤ) : Option ℕ :=
  (L.descriptors p).find? (fun d => L.fd d = fd)

/-- A new object, if there is a free block. -/
def allocObject (L : DescriptorLayer) (id type : ℤ) : Except Fault (ℕ × DescriptorLayer) :=
  match L.objectAllocator.getBlock with
  | none => .error .nullPointer
  | some (o,pool) => .ok (o,
      { L with
        objectAllocator := pool
        id := Function.update L.id o id
        type := Function.update L.type o type
        descriptorsPtrs := Function.update L.descriptorsPtrs o []
        objectsList := listAppend L.objectsList o })

/-- The result of an open: the layer, the value returned to the caller, and the
object this call created, if any. -/
structure OpenResult where
  layer : DescriptorLayer
  retvalue : ℤ
  created : Option ℕ

/-- The descriptor `d` with its pointer `x` is entered in both lists. -/
def publish (L : DescriptorLayer) (running o d x : ℕ) (dPool : Pool maxNumProcesses)
    (xPool : Pool maxNumProcesses) : DescriptorLayer :=
  { L with
    descriptorAllocator := dPool
    fd := Function.update L.fd d (L.lastFd running)
    object := Function.update L.object d o
    pcb := Function.update L.pcb d running
    lastFd := Function.update L.lastFd running (L.lastFd running + 1)
    descriptorPtrAllocator := xPool
    descriptor := Function.update L.descriptor x d
    descriptors := Function.update L.descriptors running (listAppend (L.descriptors running) d)
    ptr := Function.update L.ptr d x
    descriptorsPtrs := Function.update L.descriptorsPtrs o (listAppend (L.descriptorsPtrs o) x) }

/-- The part of an open behind the search for its object. -/
def openDescriptor (e : LayerErrors) (L : DescriptorLayer) (running o : ℕ)
    (type openMode : ℤ) (created : Option ℕ) : Except Fault OpenResult :=
  if L.type o ≠ type then .ok ⟨L,e.openFailed,created⟩
  else if hasFlag openMode dsosExcl ∧ (L.descriptorsPtrs o).length ≠ 0 then
    .ok ⟨L,e.noExcl,created⟩
  else match L.descriptorAllocator.getBlock with
    | none => .ok ⟨L,e.noFd,created⟩
    | some (d,dPool) => match L.descriptorPtrAllocator.getBlock with
      | none => .error .nullPointer
      | some (x,xPool) => .ok ⟨L.publish running o d x dPool xPool,L.lastFd running,created⟩

def openObject (e : LayerErrors) (L : DescriptorLayer) (running : ℕ)
    (id type openMode : ℤ) : Except Fault OpenResult :=
  match hasFlag openMode dsosCreate, L.byId id with
  | true, some _ => .ok ⟨L,e.create,none⟩
  | true, none => do
    let (o,L) ← L.allocObject id type
    L.openDescriptor e running o type openMode (some o)
  | false, some o => L.openDescriptor e running o type openMode none
  | false, none => .ok ⟨L,e.openFailed,none⟩

/-- A descriptor leaves its process and its object, and both blocks are freed. -/
def unlink (L : DescriptorLayer) (p d : ℕ) : Except Fault DescriptorLayer := do
  let (d,own) ← listDetach (L.descriptors p) (some d)
  let o := L.object d
  let (x,ptrs) ← listDetach (L.descriptorsPtrs o) (some (L.ptr d))
  .ok { L with
    descriptors := Function.update L.descriptors p own
    descriptorsPtrs := Function.update L.descriptorsPtrs o ptrs
    descriptorAllocator := L.descriptorAllocator.releaseBlock d
    descriptorPtrAllocator := L.descriptorPtrAllocator.releaseBlock x }

def closeDescriptor (e : LayerErrors) (L : DescriptorLayer) (running : ℕ) (fd : ℤ) :
    Except Fault (DescriptorLayer × ℤ) :=
  match L.byFd running fd with
  | none => .ok (L,e.close)
  | some d => do
    let L ← L.unlink running d
    .ok (L,0)

/-- Destruction of an unused object; the third component is the freed block. -/
def destroyObject (e : LayerErrors) (L : DescriptorLayer) (id : ℤ) :
    Except Fault (DescriptorLayer × ℤ × Option ℕ) :=
  match L.byId id with
  | none => .ok (L,e.close,none)
  | some o =>
    if (L.descriptorsPtrs o).length ≠ 0 then .ok (L,e.inUse,none)
    else do
      let (o,rest) ← listDetach L.objectsList (some o)
      if L.descriptorsPtrs o ≠ [] then .error .assertion
      else .ok ({ L with
        objectsList := rest
        objectAllocator := L.objectAllocator.releaseBlock o },0,some o)

/-- The release of all descriptors of a process. -/
def releaseAll (L : DescriptorLayer) (p : ℕ) : ℕ → Except Fault DescriptorLayer
  | 0 => match L.descriptors p with
    | [] => .ok L
    | _ :: _ => .error .diverges
  | n + 1 => match L.descriptors p with
    | [] => .ok L
    | d :: _ => do
      let L ← L.unlink p d
      L.releaseAll p n

end DescriptorLayer

end DisastrOS
