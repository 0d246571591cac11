import DisastrOS.Kernel.State

/-! # The handlers of the message queue system calls -/
namespace DisastrOS.Kernel

/-- A queue starts empty whatever `msg_num` is asked for. -/
def messageQueueAlloc (s : Kernel) (id type _msgNum msgSize maxMsg : ℤ) : Option (ℕ × Kernel) :=
  match s.messagequeues.objectAllocator.getBlock with
  | none => none
  | some (m,pool) => some (m,
      { s with
        messagequeues := { s.messagequeues with
          objectAllocator := pool
          id := Function.update s.messagequeues.id m id
          type := Function.update s.messagequeues.type m type
          descriptorsPtrs := Function.update s.messagequeues.descriptorsPtrs m [] }
        msgNum := Function.update s.msgNum m 0
        msgSize := Function.update s.msgSize m msgSize
        maxMsg := Function.update s.maxMsg m maxMsg
        messages := Function.update s.messages m [] })

def messageAlloc (s : Kernel) (id : ℤ) : Option (ℕ × Kernel) :=
  match s.messageAllocator.getBlock with
  | none => none
  | some (m,pool) => some (m,
      { s with
        messageAllocator := pool
        messageId := Function.update s.messageId m id })

def messageFree (s : Kernel) (m : ℕ) : Kernel :=
  { s with messageAllocator := s.messageAllocator.releaseBlock m }

/-- The loop of `MessageQueue_free`, which counts by `msg_num`. -/
def freeMessages (q : ℕ) : ℕ → Kernel → Except Fault Kernel
  | 0, s => .ok s
  | n + 1, s => do
    let (m,rest) ← listDetach (s.messages q) (s.messages q).head?
    freeMessages q n { s with
      messages := Function.update s.messages q rest
      messageAllocator := s.messageAllocator.releaseBlock m }

def messageQueueFree (s : Kernel) (m : ℕ) : Except Fault Kernel :=
  if s.messagequeues.descriptorsPtrs m ≠ [] then .error .assertion
  else do
    let s ← freeMessages m (s.msgNum m).toNat s
    .ok { s with messagequeues := { s.messagequeues with
      objectAllocator := s.messagequeues.objectAllocator.releaseBlock m } }

/-- The part of `internal_mq_open` behind the creation. -/
def openFoundMessagequeue (s : Kernel) (running : ℕ) (mq : Option ℕ) (type openMode : ℤ) :
    Except Fault Kernel :=
  let L := s.messagequeues
  match mq with
  | none => .ok (s.setRetvalue running dsosEMessagequeueOpen)
  | some mq =>
    if L.type mq ≠ type then .ok (s.setRetvalue running dsosEMessagequeueOpen)
    else if hasFlag openMode dsosExcl ∧ (L.descriptorsPtrs mq).length ≠ 0 then
      .ok (s.setRetvalue running dsosEMessagequeueNoExcl)
    else match L.descrittoreAlloc (L.lastFd running) mq running with
      | none => .ok (s.setRetvalue running dsosEMessagequeueNoFd)
      | some (des,L) =>
        let L := { L with lastFd := Function.update L.lastFd running (L.lastFd running + 1) }
        match L.descrittorePtrAlloc des with
        | none => .error .nullPointer
        | some (desptr,L) =>
          let L := { L with
            descriptors :=
              Function.update L.descriptors running (listAppend (L.descriptors running) des) }
          let L := { L with
            ptr := Function.update L.ptr des desptr
            descriptorsPtrs :=
              Function.update L.descriptorsPtrs mq (listAppend (L.descriptorsPtrs mq) desptr) }
          .ok ({ s with messagequeues := L }.setRetvalue running (L.fd des))

def internalMqOpen (s : Kernel) (running : ℕ) : Except Fault Kernel :=
  let messagequeueId := s.syscallArgs running 0
  let type := s.syscallArgs running 1
  let msgSize := s.syscallArgs running 2
  let maxMsg := s.syscallArgs running 3
  let openMode := s.syscallArgs running 4
  let mq := s.messagequeues.messageQueueListById messagequeueId
  if hasFlag openMode dsosCreate then
    match mq with
    | some _ => .ok (s.setRetvalue running dsosEMessagequeueCreate)
    | none => match s.messageQueueAlloc messagequeueId type 0 msgSize maxMsg with
      | none => .error .nullPointer
      | some (mq,s) =>
        let s := { s with messagequeues := { s.messagequeues with
          objectsList := listAppend s.messagequeues.objectsList mq } }
        (s.record (.createdQueue mq)).openFoundMessagequeue running (some mq) type openMode
  else s.openFoundMessagequeue running mq type openMode

def internalMqClose (s : Kernel) (running : ℕ) : Except Fault Kernel :=
  let mqd := s.syscallArgs running 0
  let L := s.messagequeues
  match L.descrittoreListByMqd running mqd with
  | none => .ok (s.setRetvalue running dsosEMessagequeueClose)
  | some des => do
    let (des,own) ← listDetach (L.descriptors running) (some des)
    let L := { L with descriptors := Function.update L.descriptors running own }
    let mq := L.object des
    let (desptr,ptrs) ← listDetach (L.descriptorsPtrs mq) (some (L.ptr des))
    let L := { L with descriptorsPtrs := Function.update L.descriptorsPtrs mq ptrs }
    let L := L.descrittoreFree des
    .ok ({ s with messagequeues := L.descrittorePtrFree desptr }.setRetvalue running 0)

def internalMqUnlink (s : Kernel) (running : ℕ) : Except Fault Kernel :=
  let id := s.syscallArgs running 0
  let L := s.messagequeues
  match L.messageQueueListById id with
  | none => .ok (s.setRetvalue running dsosEMessagequeueClose)
  | some mq =>
    if (L.descriptorsPtrs mq).length ≠ 0 then .ok (s.setRetvalue running dsosEMessagequeueInUse)
    else do
      let (mq,rest) ← listDetach L.objectsList (some mq)
      let s ← { s with messagequeues := { L with objectsList := rest } }.messageQueueFree mq
      .ok (s.setRetvalue running 0)

/-- The string at an address, if it ends within the given number of characters. -/
def readString (chars : ℤ → UInt8) (p : ℤ) : ℕ → Option (List UInt8)
  | 0 => none
  | n + 1 => if chars p = 0 then some [] else (readString chars (p + 1) n).map (chars p :: ·)

/-- The characters of a string and its terminator are stored from an address on. -/
def writeString (chars : ℤ → UInt8) (p : ℤ) : List UInt8 → ℤ → UInt8
  | [] => Function.update chars p 0
  | c :: text => writeString (Function.update chars p c) (p + 1) text

/-- `strcpy` into the 1024 characters of a message block. -/
def copyIn (s : Kernel) (source : ℤ) : Except Fault (List UInt8) :=
  if source = 0 then .error .nullPointer
  else match readString s.chars source maxMessageLenght with
    | none => .error .overrun
    | some text => .ok text

/-- The blocking part of send and receive. The code is stored after `running` has
been given to another process, or to none. -/
def blockOnQueue (s : Kernel) (running : ℕ) (code : ℤ) : Except Fault Kernel :=
  if (s.timer running).isSome then .ok (s.setRetvalue running dsosESleep)
  else match s.goToSleep running 25 with
    | none => .ok (s.setRetvalue running dsosESleep)
    | some s => match s.running with
      | none => .error .nullRunning
      | some next => .ok ((s.record (.slept running)).setRetvalue next code)

/-- The part of `internal_mq_send` behind its checks. -/
def appendMessage (s : Kernel) (running q : ℕ) (msgPtr : ℤ) : Except Fault Kernel :=
  match s.messageAlloc (s.msgNum q) with
  | none => .error .nullPointer
  | some (m,s) => do
    let s := { s with messages := Function.update s.messages q (listAppend (s.messages q) m) }
    let text ← s.copyIn msgPtr
    .ok (({ s with
      message := Function.update s.message m text
      msgNum := Function.update s.msgNum q (s.msgNum q + 1) }.record
        (.sent running q text)).setRetvalue running 0)

def internalMqSend (s : Kernel) (running : ℕ) : Except Fault Kernel :=
  let mqd := s.syscallArgs running 0
  let msgPtr := s.syscallArgs running 1
  let msgLen := s.syscallArgs running 2
  match s.messagequeues.descrittoreListByMqd running mqd with
  | none => .ok (s.setRetvalue running dsosEMessagequeueClose)
  | some des =>
    let q := s.messagequeues.object des
    if s.msgSize q < msgLen then .ok (s.setRetvalue running dsosEMessagesize)
    else if s.maxMsg q = 0 then .ok (s.setRetvalue running dsosEMessagesize)
    else if s.msgNum q = s.maxMsg q then s.blockOnQueue running dsosEMessagequeueFull
    else s.appendMessage running q msgPtr

/-- The part of `internal_mq_receive` behind its checks. -/
def removeMessage (s : Kernel) (running q : ℕ) (msgPtr : ℤ) : Except Fault Kernel := do
  let (m,rest) ← listDetach (s.messages q) (s.messages q).head?
  let s := { s with messages := Function.update s.messages q rest }
  if msgPtr = 0 then .error .nullPointer
  else
    let s := { s with chars := writeString s.chars msgPtr (s.message m) }.messageFree m
    .ok (({ s with msgNum := Function.update s.msgNum q (s.msgNum q - 1) }.record
      (.received running q (s.message m))).setRetvalue running 0)

/-- A buffer that is too short is reported, but the call goes on. -/
def internalMqReceive (s : Kernel) (running : ℕ) : Except Fault Kernel :=
  let mqd := s.syscallArgs running 0
  let msgPtr := s.syscallArgs running 1
  let msgLen := s.syscallArgs running 2
  match s.messagequeues.descrittoreListByMqd running mqd with
  | none => .ok (s.setRetvalue running dsosEMessagequeueClose)
  | some des =>
    let q := s.messagequeues.object des
    let s := if msgLen < s.msgSize q then s.setRetvalue running dsosEMessagesize else s
    if s.maxMsg q = 0 then .ok (s.setRetvalue running dsosEMessagesize)
    else if s.msgNum q = 0 then s.blockOnQueue running dsosEMessagequeueEmpty
    else s.removeMessage running q msgPtr

end DisastrOS.Kernel
