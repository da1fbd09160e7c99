import Xv6.Kernel.Param
import Xv6.Std.Linked

/-!
# The buffer cache: `bio.c`, with `iderw` and the buffers of `log.c`

A user is a variable that a buffer is read into: a process may hold several
buffers at once. The functions are cut where `bcache.lock` is released, where a
sleep-lock is waited for, and around the transfer of a block. The contents of
blocks are of any type.
-/

namespace Xv6

/-- A slot of `bcache.buf`. -/
abbrev BufPtr := Fin NBUF

/-- `struct buf`. The links are kept in one place, and the lock holds its user. -/
structure Buf (User Data : Type) where
  dev : Nat
  blockno : Nat
  refcnt : Nat
  valid : Bool
  dirty : Bool
  lock : Option User
  data : Data

/-- A buffer that was never used. -/
def Buf.zero {User Data : Type} (zero : Data) : Buf User Data :=
  { dev := 0, blockno := 0, refcnt := 0, valid := false, dirty := false, lock := none,
    data := zero }

/-- `bcache`. -/
structure Bcache (User Data : Type) where
  buf : BufPtr → Buf User Data
  links : Linked.Links BufPtr

variable {User Data : Type}

namespace Bcache

/-- Rewrite one buffer. -/
def update (cache : Bcache User Data) (b : BufPtr) (change : Buf User Data → Buf User Data) :
    Bcache User Data :=
  { cache with buf := Function.update cache.buf b (change (cache.buf b)) }

/-- `binit`, on buffers with the zeros they were loaded with. -/
def binit (zero : Data) : Bcache User Data :=
  { buf := fun _ => .zero zero
    links := (List.finRange NBUF).foldl Linked.Links.insertHead
      { next := fun _ => none, prev := fun _ => none } }

/-- The buffers in the order of `next`, from the head of the list. -/
def forward (cache : Bcache User Data) : List BufPtr :=
  Linked.walk cache.links.next (NBUF + 1) (cache.links.next none)

/-- The buffers in the order of `prev`. -/
def backward (cache : Bcache User Data) : List BufPtr :=
  Linked.walk cache.links.prev (NBUF + 1) (cache.links.prev none)

/-- The buffer in which `bget` finds the block. -/
def cached (cache : Bcache User Data) (dev blockno : Nat) : Option BufPtr :=
  cache.forward.find? fun b => (cache.buf b).dev = dev ∧ (cache.buf b).blockno = blockno

/-- The buffer that `bget` recycles: even without references, a dirty one is in use. -/
def unused (cache : Bcache User Data) : Option BufPtr :=
  cache.backward.find? fun b => (cache.buf b).refcnt = 0 ∧ (cache.buf b).dirty = false

/-- `bget` up to its `acquiresleep`; nothing if it panics for want of buffers. -/
def bget (cache : Bcache User Data) (dev blockno : Nat) : Option (BufPtr × Bcache User Data) :=
  match cache.cached dev blockno with
  | some b => some (b, cache.update b fun buf => { buf with refcnt := buf.refcnt + 1 })
  | none => cache.unused.map fun b => (b, cache.update b fun buf =>
    { buf with dev := dev, blockno := blockno, valid := false, dirty := false, refcnt := 1 })

/-- `brelse` under `bcache.lock`: a buffer that nobody waits for goes to the head. -/
def brelse (cache : Bcache User Data) (b : BufPtr) : Bcache User Data :=
  let dropped := cache.update b fun buf => { buf with refcnt := buf.refcnt - 1 }
  if (dropped.buf b).refcnt = 0 then
    { dropped with links := (dropped.links.unlink b).insertHead b }
  else dropped

end Bcache

/-- The blocks of the devices. -/
abbrev Blocks (Data : Type) := Nat → Nat → Data

def Blocks.set (blocks : Blocks Data) (dev blockno : Nat) (data : Data) : Blocks Data :=
  Function.update blocks dev (Function.update (blocks dev) blockno data)

/-- `iderw`: the buffer and the disk after the transfer. -/
def iderw (buf : Buf User Data) (disk : Blocks Data) : Buf User Data × Blocks Data :=
  if buf.dirty then
    ({ buf with dirty := false, valid := true }, disk.set buf.dev buf.blockno buf.data)
  else ({ buf with data := disk buf.dev buf.blockno, valid := true }, disk)

/-- How far a user is with its buffer, with the block it asked for; `modified` says
that it has changed the data and not yet passed it to `log_write` or `bwrite`. -/
inductive BufStage where
  | idle
  | waiting (b : BufPtr) (dev blockno : Nat)
  | locked (b : BufPtr) (dev blockno : Nat)
  | holding (b : BufPtr) (dev blockno : Nat) (modified : Bool)
  | releasing (b : BufPtr)
deriving DecidableEq, Repr

/-- The cache with the disk below it, the header of the log and the stages of the
users. `given` is the flat array: the last value given to each block. -/
structure BufSystem (User Data : Type) where
  cache : Bcache User Data
  disk : Blocks Data
  lh : List Nat
  stage : User → BufStage
  given : Blocks Data

/-- The steps of the users. A `bread` is `bget`, `acquiresleep` and `fill`, a
`brelse` is `releasesleep` and `brelse`. -/
inductive BufAction (User Data : Type) where
  | bget (user : User) (dev blockno : Nat)
  | acquiresleep (user : User)
  | fill (user : User)
  | modify (user : User) (change : Data → Data)
  | memmove (target source : User)
  | logWrite (user : User)
  | bwrite (user : User)
  | releasesleep (user : User)
  | brelse (user : User)
  | emptyLog

namespace BufSystem

variable [DecidableEq User]

/-- After `binit`. -/
def start (zero : Data) (disk : Blocks Data) : BufSystem User Data :=
  { cache := .binit zero, disk := disk, lh := [], stage := fun _ => .idle, given := disk }

def setStage (system : BufSystem User Data) (user : User) (stage : BufStage) :
    BufSystem User Data :=
  { system with stage := Function.update system.stage user stage }

/-- New data in the buffer that a user holds. -/
def write (system : BufSystem User Data) (user : User) (b : BufPtr) (dev blockno : Nat)
    (data : Data) : BufSystem User Data :=
  { system with
    cache := system.cache.update b fun buf => { buf with data := data }
    stage := Function.update system.stage user (.holding b dev blockno true)
    given := system.given.set dev blockno data }

/-- One step. A device number is at least 1, and a buffer that was modified is
released after `log_write` or `bwrite` only. -/
def step (system : BufSystem User Data) : BufAction User Data → Option (BufSystem User Data)
  | .bget user dev blockno =>
    if system.stage user = .idle ∧ 1 ≤ dev then
      (system.cache.bget dev blockno).map fun (b, cache) =>
        { system with cache := cache }.setStage user (.waiting b dev blockno)
    else none
  | .acquiresleep user =>
    match system.stage user with
    | .waiting b dev blockno =>
      if (system.cache.buf b).lock = none then
        some ({ system with
          cache := system.cache.update b fun buf => { buf with lock := some user } }.setStage
            user (.locked b dev blockno))
      else none
    | _ => none
  | .fill user =>
    match system.stage user with
    | .locked b dev blockno =>
      if (system.cache.buf b).valid then
        some (system.setStage user (.holding b dev blockno false))
      else
        let (buf, disk) := iderw (system.cache.buf b) system.disk
        some ({ system with
          cache := system.cache.update b fun _ => buf, disk := disk }.setStage
            user (.holding b dev blockno false))
    | _ => none
  | .modify user change =>
    match system.stage user with
    | .holding b dev blockno _ =>
      some (system.write user b dev blockno (change (system.cache.buf b).data))
    | _ => none
  | .memmove target source =>
    match system.stage target, system.stage source with
    | .holding b dev blockno _, .holding b' _ _ _ =>
      some (system.write target b dev blockno (system.cache.buf b').data)
    | _, _ => none
  | .logWrite user =>
    match system.stage user with
    | .holding b dev blockno _ =>
      if system.lh.length < LOGSIZE - 1 then
        some ({ system with
          cache := system.cache.update b fun buf => { buf with dirty := true }
          lh := if blockno ∈ system.lh then system.lh else system.lh ++ [blockno] }.setStage
            user (.holding b dev blockno false))
      else none
    | _ => none
  | .bwrite user =>
    match system.stage user with
    | .holding b dev blockno _ =>
      let (buf, disk) := iderw { system.cache.buf b with dirty := true } system.disk
      some ({ system with
        cache := system.cache.update b fun _ => buf, disk := disk }.setStage
          user (.holding b dev blockno false))
    | _ => none
  | .releasesleep user =>
    match system.stage user with
    | .holding b _ _ false =>
      some ({ system with
        cache := system.cache.update b fun buf => { buf with lock := none } }.setStage
          user (.releasing b))
    | _ => none
  | .brelse user =>
    match system.stage user with
    | .releasing b =>
      some ({ system with cache := system.cache.brelse b }.setStage user .idle)
    | _ => none
  | .emptyLog => some { system with lh := [] }

end BufSystem

namespace BufAction

/-- `bread` in one go. -/
def bread (user : User) (dev blockno : Nat) : List (BufAction User Data) :=
  [.bget user dev blockno, .acquiresleep user, .fill user]

/-- `brelse` in one go. -/
def release (user : User) : List (BufAction User Data) := [.releasesleep user, .brelse user]

/-- One turn of the loop of `write_log`. -/
def writeLogBlock (target source : User) (dev slot block : Nat) : List (BufAction User Data) :=
  bread target dev slot ++ bread source dev block ++ [.memmove target source, .bwrite target] ++
    release source ++ release target

/-- One turn of the loop of `install_trans`. -/
def installBlock (target source : User) (dev slot block : Nat) : List (BufAction User Data) :=
  bread source dev slot ++ bread target dev block ++ [.memmove target source, .bwrite target] ++
    release source ++ release target

/-- `write_head`; `encode` stores the header in the block. -/
def writeHead (user : User) (dev logstart : Nat) (encode : Data → Data) :
    List (BufAction User Data) :=
  bread user dev logstart ++ [.modify user encode, .bwrite user] ++ release user

/-- `commit` of the blocks in the header. -/
def commit (target source : User) (dev logstart : Nat) (encode : List Nat → Data → Data)
    (lh : List Nat) : List (BufAction User Data) :=
  let tails := lh.zipIdx
  (tails.flatMap fun (block, tail) =>
      writeLogBlock target source dev (logstart + tail + 1) block) ++
    writeHead target dev logstart (encode lh) ++
    (tails.flatMap fun (block, tail) =>
      installBlock target source dev (logstart + tail + 1) block) ++
    [.emptyLog] ++ writeHead target dev logstart (encode [])

end BufAction

end Xv6
