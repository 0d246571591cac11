import DisastrOS.Kernel.State

/-! # The handlers of the resource system calls -/
namespace DisastrOS.Kernel

/-- The part of `internal_openResource` behind the creation. The pointer block is not checked
for null before it is linked. -/
def openFoundResource (s : Kernel) (running : ℕ) (res : Option ℕ) (type openMode : ℤ) :
    Except Fault Kernel :=
  let L := s.resources
  match res with
  | none => .ok (s.setRetvalue running dsosEResourceOpen)
  | some res =>
    if L.type res ≠ type then .ok (s.setRetvalue running dsosEResourceOpen)
    else if hasFlag openMode dsosExcl ∧ (L.descriptorsPtrs res).length ≠ 0 then
      .ok (s.setRetvalue running dsosEResourceNoExcl)
    else match L.descriptorAlloc (L.lastFd running) res running with
      | none => .ok (s.setRetvalue running dsosEResourceNoFd)
      | some (des,L) =>
        let L := { L with lastFd := Function.update L.lastFd running (L.lastFd running + 1) }
        match L.descriptorPtrAlloc des with
        | none => .error .nullPointer
        | some (desptr,L) =>
          let L := { L with
            descriptors :=
              Function.update L.descriptors running (listAppend (L.descriptors running) des) }
          let L := { L with
            ptr := Function.update L.ptr des desptr
            descriptorsPtrs :=
              Function.update L.descriptorsPtrs res (listAppend (L.descriptorsPtrs res) desptr) }
          .ok ({ s with resources := L }.setRetvalue running (L.fd des))

/-- Without a free block for a new resource its insertion dereferences a null pointer. -/
def internalOpenResource (s : Kernel) (running : ℕ) : Except Fault Kernel :=
  let id := s.syscallArgs running 0
  let type := s.syscallArgs running 1
  let openMode := s.syscallArgs running 2
  let res := s.resources.resourceListById id
  if hasFlag openMode dsosCreate then
    match res with
    | some _ => .ok (s.setRetvalue running dsosEResourceCreate)
    | none => match s.resources.resourceAlloc id type with
      | none => .error .nullPointer
      | some (res,L) =>
        let L := { L with objectsList := listAppend L.objectsList res }
        { s with resources := L }.openFoundResource running (some res) type openMode
  else s.openFoundResource running res type openMode

def internalCloseResource (s : Kernel) (running : ℕ) : Except Fault Kernel :=
  let fd := s.syscallArgs running 0
  let L := s.resources
  match L.descriptorListByFd running fd with
  | none => .ok (s.setRetvalue running dsosEResourceClose)
  | some des => do
    let (des,own) ← listDetach (L.descriptors running) (some des)
    let L := { L with descriptors := Function.update L.descriptors running own }
    let res := L.object des
    let (desptr,ptrs) ← listDetach (L.descriptorsPtrs res) (some (L.ptr des))
    let L := { L with descriptorsPtrs := Function.update L.descriptorsPtrs res ptrs }
    let L := L.descriptorFree des
    .ok ({ s with resources := L.descriptorPtrFree desptr }.setRetvalue running 0)

def internalDestroyResource (s : Kernel) (running : ℕ) : Except Fault Kernel :=
  let id := s.syscallArgs running 0
  let L := s.resources
  match L.resourceListById id with
  | none => .ok (s.setRetvalue running dsosEResourceClose)
  | some res =>
    if (L.descriptorsPtrs res).length ≠ 0 then .ok (s.setRetvalue running dsosEResourceInUse)
    else do
      let (res,rest) ← listDetach L.objectsList (some res)
      let L ← { L with objectsList := rest }.resourceFree res
      .ok ({ s with resources := L }.setRetvalue running 0)

end DisastrOS.Kernel
