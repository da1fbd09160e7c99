import Xv6.Kernel.Syscall

/-!
# What the file system leaves alone

The code of `log.c` and `fs.c`, and the calls of `sysfile.c` that only use it,
write the inode cache, the disk, the log, the console input and the trace. A
relation between kernel states that all of these respect is kept by each of the
functions. The faults are left open too, except that none of this code raises the
panics of the file table.
-/

namespace Xv6

open Program

/-- The faults of everything but `filedup` and `fileclose`. -/
def Fault.outsideFiles : Fault → Bool
  | .panic .filedup => false
  | .panic .fileclose => false
  | _ => true

/-- The events of everything but the pages of pipes. -/
def Event.outsidePages : Event → Bool
  | .kalloc _ => false
  | .kfree _ => false
  | _ => true

/-- A relation that file-system code respects, with the faults it may raise. -/
structure Frame (relation : Kernel → Kernel → Prop) (allowed : Fault → Prop) : Prop where
  refl : ∀ kernel, relation kernel kernel
  trans : ∀ {first second third}, relation first second → relation second third →
    relation first third
  cache : ∀ kernel ip update, relation kernel (kernel.updateInode ip update)
  disk : ∀ (kernel : Kernel) disk, relation kernel { kernel with disk := disk }
  log : ∀ (kernel : Kernel) log, log.committing = kernel.log.committing →
    relation kernel { kernel with log := log }
  input : ∀ (kernel : Kernel) input, relation kernel { kernel with input := input }
  event : ∀ kernel event, event.outsidePages = true → relation kernel (kernel.emit event)
  fault : ∀ fault, fault.outsideFiles = true → allowed fault

namespace Frame

variable {relation : Kernel → Kernel → Prop} {allowed : Fault → Prop}
  {Value Result : Type} {program : Kern Value}

section Rules

variable (frame : Frame relation allowed)

include frame

theorem pure (value : Value) : Keeps relation allowed (pure value : Kern Value) :=
  .pure frame.refl value

theorem bind {continuation : Value → Kern Result} (first : Keeps relation allowed program)
    (rest : ∀ value, Keeps relation allowed (continuation value)) :
    Keeps relation allowed (program >>= continuation) :=
  .bind frame.trans first rest

theorem get {continuation : Kernel → Kern Result}
    (rest : ∀ kernel, Keeps relation allowed (continuation kernel)) :
    Keeps relation allowed (get >>= continuation) :=
  frame.bind (.get frame.refl) rest

theorem throw {fault : Fault} (outside : fault.outsideFiles = true) :
    Keeps relation allowed (throw fault : Kern Value) :=
  .throw (frame.fault fault outside)

theorem when {condition : Prop} [Decidable condition] {body : Kern Unit}
    (each : Keeps relation allowed body) : Keeps relation allowed (when condition body) :=
  .when frame.refl fun _ => each

theorem forM {Element : Type} {body : Element → Kern PUnit} (elements : List Element)
    (each : ∀ element, Keeps relation allowed (body element)) :
    Keeps relation allowed (forM elements body) :=
  .forM frame.refl frame.trans elements each

theorem emit {event : Event} (outside : event.outsidePages = true) :
    Keeps relation allowed (Xv6.emit event) :=
  .modify fun kernel => frame.event kernel event outside

theorem readInode (ip : InodePtr) : Keeps relation allowed (Xv6.readInode ip) :=
  frame.get fun _ => frame.pure _

theorem writeInode (ip : InodePtr) (update : Inode → Inode) :
    Keeps relation allowed (Xv6.writeInode ip update) :=
  .modify fun kernel => frame.cache kernel ip update

theorem setData (b : Nat) (block : Kernel → Block) :
    Keeps relation allowed (modify fun kernel => kernel.setData b (block kernel) : Kern Unit) :=
  .modify fun kernel => frame.disk kernel _

theorem setBitmap (b : Nat) (used : Bool) :
    Keeps relation allowed (modify (·.setBitmap b used) : Kern Unit) :=
  .modify fun kernel => frame.disk kernel _

theorem setDinode (inum : Nat) (dip : Dinode) :
    Keeps relation allowed (modify (·.setDinode inum dip) : Kern Unit) :=
  .modify fun kernel => frame.disk kernel _

end Rules

variable (frame : Frame relation allowed)

include frame

/-! ## Transactions and locks -/

theorem beginOp : Keeps relation allowed Xv6.beginOp := by
  apply frame.bind (frame.emit rfl)
  intro _
  apply frame.get
  intro kernel
  apply Keeps.ite
  · exact fun _ => frame.throw rfl
  · intro _
    apply Keeps.ite
    · exact fun _ => frame.throw rfl
    · exact fun _ => .modify fun kernel => frame.log kernel _ rfl

theorem endOp : Keeps relation allowed Xv6.endOp := by
  apply frame.bind (frame.emit rfl)
  intro _
  refine frame.bind (.modify fun kernel => frame.log kernel _ ?_) fun _ => ?_
  · rfl
  apply frame.get
  intro kernel
  apply Keeps.ite
  · exact fun _ => frame.throw rfl
  · intro _
    apply Keeps.ite
    · exact fun _ => .modify fun kernel => frame.log kernel _ rfl
    · exact fun _ => frame.pure ()

theorem logWrite (blockno : Nat) : Keeps relation allowed (Xv6.logWrite blockno) := by
  apply frame.bind (frame.emit rfl)
  intro _
  apply frame.get
  intro kernel
  apply Keeps.ite
  · exact fun _ => frame.throw rfl
  · intro _
    apply Keeps.ite
    · exact fun _ => frame.throw rfl
    · intro _
      apply Keeps.ite
      · exact fun _ => frame.pure ()
      · exact fun _ => .modify fun kernel => frame.log kernel _ rfl

theorem acquiresleep (ip : InodePtr) : Keeps relation allowed (Xv6.acquiresleep ip) := by
  apply frame.get
  intro kernel
  split
  · exact frame.writeInode ip _
  · apply Keeps.ite
    · exact fun _ => frame.throw rfl
    · exact fun _ => frame.throw rfl

theorem ilock (ip : InodePtr) : Keeps relation allowed (Xv6.ilock ip) := by
  apply frame.get
  intro kernel
  apply Keeps.ite
  · exact fun _ => frame.throw rfl
  · intro _
    apply frame.bind (frame.acquiresleep ip)
    intro _
    apply Keeps.ite
    · exact fun _ => frame.pure ()
    · intro _
      apply frame.bind (frame.writeInode ip _)
      intro _
      apply Keeps.ite
      · exact fun _ => frame.throw rfl
      · exact fun _ => frame.pure ()

theorem iunlock (ip : InodePtr) : Keeps relation allowed (Xv6.iunlock ip) := by
  apply frame.get
  intro kernel
  apply Keeps.ite
  · exact fun _ => frame.throw rfl
  · exact fun _ => frame.writeInode ip _

/-! ## Blocks and inodes -/

theorem balloc : Keeps relation allowed Xv6.balloc := by
  apply frame.get
  intro kernel
  split
  · exact frame.throw rfl
  · rename_i b _
    apply frame.bind (frame.setBitmap b true)
    intro _
    apply frame.bind (frame.logWrite _)
    intro _
    apply frame.bind
    · apply frame.bind (frame.setData b fun _ _ => 0)
      exact fun _ => frame.logWrite b
    · exact fun _ => frame.pure b

theorem bfree (b : Nat) : Keeps relation allowed (Xv6.bfree b) := by
  apply frame.get
  intro kernel
  apply Keeps.ite
  · intro _
    apply frame.bind (frame.setBitmap b false)
    exact fun _ => frame.logWrite _
  · exact fun _ => frame.throw rfl

theorem iupdate (ip : InodePtr) : Keeps relation allowed (Xv6.iupdate ip) := by
  apply frame.bind (frame.emit rfl)
  intro _
  apply frame.get
  intro kernel
  apply frame.bind (frame.setDinode _ _)
  exact fun _ => frame.logWrite _

theorem iget (dev inum : Nat) : Keeps relation allowed (Xv6.iget dev inum) := by
  apply frame.get
  intro kernel
  split
  · apply frame.bind (frame.writeInode _ _)
    exact fun _ => frame.pure _
  · split
    · exact frame.throw rfl
    · apply frame.bind (frame.writeInode _ _)
      exact fun _ => frame.pure _

theorem ialloc (dev : Nat) (type : InodeType) (uid mode : UInt32) :
    Keeps relation allowed (Xv6.ialloc dev type uid mode) := by
  apply frame.bind (frame.emit rfl)
  intro _
  apply frame.get
  intro kernel
  split
  · exact frame.throw rfl
  · apply frame.bind (frame.setDinode _ _)
    intro _
    apply frame.bind (frame.logWrite _)
    exact fun _ => frame.iget dev _

theorem idup (ip : InodePtr) : Keeps relation allowed (Xv6.idup ip) :=
  frame.bind (frame.writeInode ip _) fun _ => frame.pure ip

theorem bmapSlot (ip : InodePtr) (slot : Fin (NDIRECT + 1)) :
    Keeps relation allowed (Xv6.bmapSlot ip slot) := by
  apply frame.bind (frame.readInode ip)
  intro inode
  apply Keeps.ite
  · intro _
    apply frame.bind frame.balloc
    intro addr
    apply frame.bind (frame.writeInode ip _)
    exact fun _ => frame.pure addr
  · exact fun _ => frame.pure _

theorem bmap (ip : InodePtr) (bn : Nat) : Keeps relation allowed (Xv6.bmap ip bn) := by
  unfold Xv6.bmap
  split
  · exact frame.bmapSlot ip _
  · apply Keeps.ite
    · intro _
      apply frame.bind (frame.bmapSlot ip _)
      intro indirect
      apply frame.get
      intro kernel
      apply Keeps.ite
      · intro _
        apply frame.bind frame.balloc
        intro addr
        apply frame.bind (frame.setData indirect _)
        intro _
        apply frame.bind (frame.logWrite indirect)
        exact fun _ => frame.pure addr
      · exact fun _ => frame.pure _
    · exact fun _ => frame.throw rfl

theorem itruncDirect (ip : InodePtr) (slot : Fin NDIRECT) :
    Keeps relation allowed (Xv6.itruncDirect ip slot) := by
  apply frame.bind (frame.readInode ip)
  intro inode
  apply frame.when
  apply frame.bind (frame.bfree _)
  exact fun _ => frame.writeInode ip _

theorem itruncIndirect (ip : InodePtr) : Keeps relation allowed (Xv6.itruncIndirect ip) := by
  apply frame.bind (frame.readInode ip)
  intro inode
  apply frame.when
  apply frame.get
  intro kernel
  apply frame.bind
  · exact frame.forM _ fun _ => frame.when (frame.bfree _)
  · intro _
    apply frame.bind (frame.bfree _)
    exact fun _ => frame.writeInode ip _

theorem itrunc (ip : InodePtr) : Keeps relation allowed (Xv6.itrunc ip) := by
  apply frame.bind (frame.forM _ (frame.itruncDirect ip))
  intro _
  apply frame.bind (frame.itruncIndirect ip)
  intro _
  apply frame.bind (frame.writeInode ip _)
  exact fun _ => frame.iupdate ip

theorem ifree (ip : InodePtr) : Keeps relation allowed (Xv6.ifree ip) := by
  apply frame.bind (frame.itrunc ip)
  intro _
  apply frame.bind (frame.writeInode ip _)
  intro _
  apply frame.bind (frame.iupdate ip)
  exact fun _ => frame.writeInode ip _

theorem iput (ip : InodePtr) : Keeps relation allowed (Xv6.iput ip) := by
  apply frame.bind (frame.emit rfl)
  intro _
  apply frame.bind (frame.acquiresleep ip)
  intro _
  apply frame.bind (frame.readInode ip)
  intro inode
  apply frame.bind (frame.when (frame.ifree ip))
  intro _
  apply frame.bind (frame.writeInode ip _)
  exact fun _ => frame.writeInode ip _

theorem iunlockput (ip : InodePtr) : Keeps relation allowed (Xv6.iunlockput ip) :=
  frame.bind (frame.iunlock ip) fun _ => frame.iput ip

/-! ## Content -/

theorem consoleread (ip : InodePtr) (n : Nat) : Keeps relation allowed (Xv6.consoleread ip n) := by
  apply frame.bind (frame.iunlock ip)
  intro _
  apply frame.get
  intro kernel
  split
  · apply frame.bind (.modify fun kernel => frame.input kernel _)
    intro _
    apply frame.bind (frame.ilock ip)
    exact fun _ => frame.pure _
  · apply Keeps.ite
    · intro _
      apply frame.bind (.modify fun kernel => frame.input kernel _)
      intro _
      apply frame.bind (frame.ilock ip)
      exact fun _ => frame.pure _
    · exact fun _ => frame.throw rfl

theorem consolewrite (ip : InodePtr) (n : Int) :
    Keeps relation allowed (Xv6.consolewrite ip n) := by
  apply frame.bind (frame.iunlock ip)
  intro _
  apply frame.bind (frame.ilock ip)
  exact fun _ => frame.pure n

theorem readiLoop (ip : InodePtr) (fuel off n : Nat) :
    Keeps relation allowed (Xv6.readiLoop ip fuel off n) := by
  induction fuel generalizing off n with
  | zero => exact frame.pure []
  | succ fuel ih =>
    apply Keeps.ite
    · exact fun _ => frame.pure []
    · intro _
      apply frame.bind (frame.bmap ip _)
      intro addr
      apply frame.get
      intro kernel
      apply frame.bind (ih _ _)
      exact fun _ => frame.pure _

theorem readi (ip : InodePtr) (off n : UInt32) :
    Keeps relation allowed (Xv6.readi ip off n) := by
  apply frame.bind (frame.readInode ip)
  intro inode
  apply Keeps.ite
  · intro _
    apply Keeps.ite
    · exact fun _ => frame.consoleread ip _
    · exact fun _ => frame.pure none
  · intro _
    apply Keeps.ite
    · exact fun _ => frame.pure none
    · intro _
      apply frame.bind (frame.readiLoop ip _ _ _)
      exact fun _ => frame.pure _

theorem writeiLoop (ip : InodePtr) (fuel : Nat) (src : Nat → Byte) (off n : Nat) :
    Keeps relation allowed (Xv6.writeiLoop ip fuel src off n) := by
  induction fuel generalizing src off n with
  | zero => exact frame.pure ()
  | succ fuel ih =>
    apply Keeps.ite
    · exact fun _ => frame.pure ()
    · intro _
      apply frame.bind (frame.bmap ip _)
      intro addr
      apply frame.bind (frame.setData addr _)
      intro _
      apply frame.bind (frame.logWrite addr)
      exact fun _ => ih _ _ _

theorem writei (ip : InodePtr) (src : Nat → Byte) (off n : UInt32) :
    Keeps relation allowed (Xv6.writei ip src off n) := by
  apply frame.bind (frame.readInode ip)
  intro inode
  apply Keeps.ite
  · intro _
    apply Keeps.ite
    · exact fun _ => frame.consolewrite ip _
    · exact fun _ => frame.pure _
  · intro _
    apply Keeps.ite
    · exact fun _ => frame.pure _
    · intro _
      apply Keeps.ite
      · exact fun _ => frame.pure _
      · intro _
        apply frame.bind (frame.writeiLoop ip _ _ _ _)
        intro _
        apply frame.bind (frame.readInode ip)
        intro inode
        apply frame.bind
        · apply frame.when
          apply frame.bind (frame.writeInode ip _)
          exact fun _ => frame.iupdate ip
        · exact fun _ => frame.pure _

/-! ## Directories and paths -/

theorem readDirent (dp : InodePtr) (off : Nat) {short : Panic}
    (outside : (Fault.panic short).outsideFiles = true) :
    Keeps relation allowed (Xv6.readDirent dp off short) := by
  apply frame.bind (frame.readi dp _ _)
  intro bytes
  split
  · apply Keeps.ite
    · exact fun _ => frame.pure _
    · exact fun _ => frame.throw outside
  · exact frame.throw outside

theorem dirlookupFrom (dp : InodePtr) (name : Name) (offsets : List Nat) :
    Keeps relation allowed (Xv6.dirlookupFrom dp name offsets) := by
  induction offsets with
  | nil => exact frame.pure none
  | cons off rest ih =>
    apply frame.bind (frame.readDirent dp off rfl)
    intro de
    apply Keeps.ite
    · intro _
      apply frame.bind (frame.readInode dp)
      intro inode
      apply frame.bind (frame.iget _ _)
      exact fun _ => frame.pure _
    · exact fun _ => ih

theorem dirlookup (dp : InodePtr) (name : Name) :
    Keeps relation allowed (Xv6.dirlookup dp name) := by
  apply frame.bind (frame.readInode dp)
  intro inode
  apply Keeps.ite
  · exact fun _ => frame.throw rfl
  · exact fun _ => frame.dirlookupFrom dp name _

theorem emptyDirent (dp : InodePtr) (full : Nat) (offsets : List Nat) :
    Keeps relation allowed (Xv6.emptyDirent dp full offsets) := by
  induction offsets with
  | nil => exact frame.pure full
  | cons off rest ih =>
    apply frame.bind (frame.readDirent dp off rfl)
    intro de
    apply Keeps.ite
    · exact fun _ => frame.pure off
    · exact fun _ => ih

theorem dirlink (dp : InodePtr) (name : Name) (inum : Nat) :
    Keeps relation allowed (Xv6.dirlink dp name inum) := by
  apply frame.bind (frame.dirlookup dp name)
  intro found
  split
  · apply frame.bind (frame.iput _)
    exact fun _ => frame.pure false
  · apply frame.bind (frame.readInode dp)
    intro inode
    apply frame.bind (frame.emptyDirent dp _ _)
    intro off
    apply frame.bind (frame.writei dp _ _ _)
    intro written
    apply Keeps.ite
    · exact fun _ => frame.pure true
    · exact fun _ => frame.throw rfl

theorem namexFrom (parent : Bool) (elements : List (Name × Path)) (ip : InodePtr) (name : Name) :
    Keeps relation allowed (Xv6.namexFrom parent elements ip name) := by
  induction elements generalizing ip name with
  | nil =>
    apply Keeps.ite
    · intro _
      apply frame.bind (frame.iput ip)
      exact fun _ => frame.pure none
    · exact fun _ => frame.pure _
  | cons head rest ih =>
    apply frame.bind (frame.ilock ip)
    intro _
    apply frame.bind (frame.readInode ip)
    intro inode
    apply Keeps.ite
    · intro _
      apply frame.bind (frame.iunlockput ip)
      exact fun _ => frame.pure none
    · intro _
      apply Keeps.ite
      · intro _
        apply frame.bind (frame.iunlock ip)
        exact fun _ => frame.pure _
      · intro _
        apply frame.bind (frame.dirlookup ip _)
        intro found
        split
        · apply frame.bind (frame.iunlockput ip)
          exact fun _ => frame.pure none
        · apply frame.bind (frame.iunlockput ip)
          exact fun _ => ih _ _

theorem namex (path : Path) (parent : Bool) : Keeps relation allowed (Xv6.namex path parent) := by
  apply Keeps.ite
  · intro _
    apply frame.bind (frame.iget _ _)
    exact fun ip => frame.namexFrom parent _ ip []
  · intro _
    apply frame.get
    intro kernel
    split
    · exact frame.throw rfl
    · apply frame.bind (frame.idup _)
      exact fun ip => frame.namexFrom parent _ ip []

theorem namei (path : Path) : Keeps relation allowed (Xv6.namei path) :=
  frame.bind (frame.namex path false) fun _ => frame.pure _

/-! ## System calls -/

theorem withInode (path : Path) {body : InodePtr → Kern Int}
    (each : ∀ ip, Keeps relation allowed (body ip)) :
    Keeps relation allowed (Xv6.withInode path body) := by
  apply frame.bind (frame.namei path)
  intro found
  split
  · apply frame.bind frame.endOp
    exact fun _ => frame.pure _
  · exact each _

theorem chmodInode (mode : UInt32) (ip : InodePtr) :
    Keeps relation allowed (Xv6.chmodInode mode ip) := by
  apply frame.get
  intro kernel
  apply Keeps.ite
  · intro _
    apply frame.bind frame.endOp
    exact fun _ => frame.pure _
  · intro _
    apply frame.bind (frame.ilock ip)
    intro _
    apply frame.bind (frame.writeInode ip _)
    intro _
    apply frame.bind (frame.iupdate ip)
    intro _
    apply frame.bind (frame.iunlock ip)
    intro _
    apply frame.bind frame.endOp
    exact fun _ => frame.pure _

theorem sysChmod (path : Option Path) (mode : Option UInt32) :
    Keeps relation allowed (Xv6.sysChmod path mode) := by
  unfold Xv6.sysChmod
  split
  · apply frame.bind frame.beginOp
    exact fun _ => frame.withInode _ (frame.chmodInode _)
  · exact frame.pure _

theorem chownInode (owner group : UInt32) (ip : InodePtr) :
    Keeps relation allowed (Xv6.chownInode owner group ip) := by
  apply frame.bind (frame.ilock ip)
  intro _
  apply frame.bind (frame.when (frame.writeInode ip _))
  intro _
  apply frame.bind (frame.writeInode ip _)
  intro _
  apply frame.bind (frame.iupdate ip)
  intro _
  apply frame.bind (frame.iunlock ip)
  intro _
  apply frame.bind frame.endOp
  exact fun _ => frame.pure _

theorem sysChown (path : Option Path) (owner group : Option UInt32) :
    Keeps relation allowed (Xv6.sysChown path owner group) := by
  apply frame.get
  intro kernel
  apply Keeps.ite
  · exact fun _ => frame.pure _
  · intro _
    split
    · apply frame.bind frame.beginOp
      exact fun _ => frame.withInode _ (frame.chownInode _ _)
    · exact frame.pure _

theorem linkBad (ip : InodePtr) : Keeps relation allowed (Xv6.linkBad ip) := by
  apply frame.bind (frame.ilock ip)
  intro _
  apply frame.bind (frame.writeInode ip _)
  intro _
  apply frame.bind (frame.iupdate ip)
  intro _
  apply frame.bind (frame.iunlockput ip)
  intro _
  apply frame.bind frame.endOp
  exact fun _ => frame.pure _

theorem linkName (ip : InodePtr) (new : Path) : Keeps relation allowed (Xv6.linkName ip new) := by
  apply frame.bind (frame.namex new true)
  intro found
  split
  · exact frame.linkBad ip
  · apply frame.bind (frame.ilock _)
    intro _
    apply frame.get
    intro kernel
    apply Keeps.ite
    · intro _
      apply frame.bind (frame.iunlockput _)
      exact fun _ => frame.linkBad ip
    · intro _
      apply frame.bind (frame.dirlink _ _ _)
      intro entered
      apply Keeps.ite
      · intro _
        apply frame.bind (frame.iunlockput _)
        intro _
        apply frame.bind (frame.iput ip)
        intro _
        apply frame.bind frame.endOp
        exact fun _ => frame.pure _
      · intro _
        apply frame.bind (frame.iunlockput _)
        exact fun _ => frame.linkBad ip

theorem linkInode (new : Path) (ip : InodePtr) :
    Keeps relation allowed (Xv6.linkInode new ip) := by
  apply frame.bind (frame.ilock ip)
  intro _
  apply frame.bind (frame.readInode ip)
  intro inode
  apply Keeps.ite
  · intro _
    apply frame.bind (frame.iunlockput ip)
    intro _
    apply frame.bind frame.endOp
    exact fun _ => frame.pure _
  · intro _
    apply frame.bind (frame.writeInode ip _)
    intro _
    apply frame.bind (frame.iupdate ip)
    intro _
    apply frame.bind (frame.iunlock ip)
    exact fun _ => frame.linkName ip new

theorem sysLink (old new : Option Path) : Keeps relation allowed (Xv6.sysLink old new) := by
  unfold Xv6.sysLink
  split
  · apply frame.bind frame.beginOp
    exact fun _ => frame.withInode _ (frame.linkInode _)
  · exact frame.pure _

theorem isdiremptyFrom (dp : InodePtr) (offsets : List Nat) :
    Keeps relation allowed (Xv6.isdiremptyFrom dp offsets) := by
  induction offsets with
  | nil => exact frame.pure true
  | cons off rest ih =>
    apply frame.bind (frame.readDirent dp off rfl)
    intro de
    apply Keeps.ite
    · exact fun _ => frame.pure false
    · exact fun _ => ih

theorem unlinkBad (dp : InodePtr) : Keeps relation allowed (Xv6.unlinkBad dp) := by
  apply frame.bind (frame.iunlockput dp)
  intro _
  apply frame.bind frame.endOp
  exact fun _ => frame.pure _

theorem unlinkEntry (dp ip : InodePtr) (off : Nat) :
    Keeps relation allowed (Xv6.unlinkEntry dp ip off) := by
  apply frame.bind (frame.writei dp _ _ _)
  intro written
  apply Keeps.ite
  · exact fun _ => frame.throw rfl
  · intro _
    apply frame.bind (frame.readInode ip)
    intro inode
    apply frame.bind
    · apply frame.when
      apply frame.bind (frame.writeInode dp _)
      exact fun _ => frame.iupdate dp
    · intro _
      apply frame.bind (frame.iunlockput dp)
      intro _
      apply frame.bind (frame.writeInode ip _)
      intro _
      apply frame.bind (frame.iupdate ip)
      intro _
      apply frame.bind (frame.iunlockput ip)
      intro _
      apply frame.bind frame.endOp
      exact fun _ => frame.pure _

theorem unlinkFound (dp ip : InodePtr) (off : Nat) :
    Keeps relation allowed (Xv6.unlinkFound dp ip off) := by
  apply frame.bind (frame.ilock ip)
  intro _
  apply frame.bind (frame.readInode ip)
  intro inode
  apply Keeps.ite
  · exact fun _ => frame.throw rfl
  · intro _
    apply Keeps.ite
    · intro _
      apply frame.bind
      · apply frame.bind (frame.readInode ip)
        exact fun _ => frame.isdiremptyFrom ip _
      · intro empty
        apply Keeps.ite
        · exact fun _ => frame.unlinkEntry dp ip off
        · intro _
          apply frame.bind (frame.iunlockput ip)
          exact fun _ => frame.unlinkBad dp
    · exact fun _ => frame.unlinkEntry dp ip off

theorem sysUnlink (path : Option Path) : Keeps relation allowed (Xv6.sysUnlink path) := by
  unfold Xv6.sysUnlink
  split
  · exact frame.pure _
  · apply frame.bind frame.beginOp
    intro _
    apply frame.bind (frame.namex _ true)
    intro found
    split
    · apply frame.bind frame.endOp
      exact fun _ => frame.pure _
    · apply frame.bind (frame.ilock _)
      intro _
      apply Keeps.ite
      · exact fun _ => frame.unlinkBad _
      · intro _
        apply frame.bind (frame.dirlookup _ _)
        intro entry
        split
        · exact frame.unlinkBad _
        · exact frame.unlinkFound _ _ _

theorem createDots (dp ip : InodePtr) : Keeps relation allowed (Xv6.createDots dp ip) := by
  apply frame.bind (frame.writeInode dp _)
  intro _
  apply frame.bind (frame.iupdate dp)
  intro _
  apply frame.get
  intro kernel
  apply frame.bind (frame.dirlink ip _ _)
  intro dot
  apply Keeps.ite
  · intro _
    apply frame.bind (frame.dirlink ip _ _)
    intro dotdot
    apply Keeps.ite
    · exact fun _ => frame.pure ()
    · exact fun _ => frame.throw rfl
  · exact fun _ => frame.throw rfl

theorem createEntry (dp ip : InodePtr) (name : Name) (type : InodeType) :
    Keeps relation allowed (Xv6.createEntry dp ip name type) := by
  apply frame.bind (frame.when (frame.createDots dp ip))
  intro _
  apply frame.bind (frame.readInode ip)
  intro inode
  apply frame.bind (frame.dirlink dp name _)
  intro entered
  apply Keeps.ite
  · exact fun _ => frame.pure ()
  · exact fun _ => frame.throw rfl

theorem create (path : Path) (type : InodeType) (major minor : Int16) (uid mode : UInt32) :
    Keeps relation allowed (Xv6.create path type major minor uid mode) := by
  apply frame.bind (frame.namex path true)
  intro found
  split
  · exact frame.pure none
  · apply frame.bind (frame.ilock _)
    intro _
    apply frame.bind (frame.dirlookup _ _)
    intro entry
    split
    · apply frame.bind (frame.iunlockput _)
      intro _
      apply frame.bind (frame.ilock _)
      intro _
      apply frame.bind (frame.readInode _)
      intro inode
      apply Keeps.ite
      · exact fun _ => frame.pure _
      · intro _
        apply frame.bind (frame.iunlockput _)
        exact fun _ => frame.pure none
    · apply frame.bind (frame.readInode _)
      intro parent
      apply frame.bind (frame.ialloc _ _ _ _)
      intro ip
      apply frame.bind (frame.ilock ip)
      intro _
      apply frame.bind (frame.writeInode ip _)
      intro _
      apply frame.bind (frame.iupdate ip)
      intro _
      apply frame.bind (frame.createEntry _ ip _ _)
      intro _
      apply frame.bind (frame.iunlockput _)
      exact fun _ => frame.pure _

theorem sysMkdir (path : Option Path) : Keeps relation allowed (Xv6.sysMkdir path) := by
  apply frame.bind frame.beginOp
  intro _
  split
  · apply frame.bind frame.endOp
    exact fun _ => frame.pure _
  · apply frame.get
    intro kernel
    apply frame.bind (frame.create _ _ _ _ _ _)
    intro made
    split
    · apply frame.bind frame.endOp
      exact fun _ => frame.pure _
    · apply frame.bind (frame.iunlockput _)
      intro _
      apply frame.bind frame.endOp
      exact fun _ => frame.pure _

theorem mknodCreate (path : Option Path) (major minor : Option Int16) :
    Keeps relation allowed (Xv6.mknodCreate path major minor) := by
  apply frame.bind frame.beginOp
  intro _
  split
  · apply frame.get
    intro kernel
    apply frame.bind (frame.create _ _ _ _ _ _)
    intro made
    split
    · apply frame.bind frame.endOp
      exact fun _ => frame.pure _
    · apply frame.bind (frame.iunlockput _)
      intro _
      apply frame.bind frame.endOp
      exact fun _ => frame.pure _
  · apply frame.bind frame.endOp
    exact fun _ => frame.pure _

theorem sysMknod (locals : MknodLocals) (path : Option Path) (major minor : Option Int16) :
    Keeps relation allowed (Xv6.sysMknod locals path major minor) := by
  apply frame.bind (frame.namex _ true)
  intro parent
  apply frame.get
  intro kernel
  apply Keeps.ite
  · intro _
    apply frame.bind (frame.emit rfl)
    intro _
    split
    · exact frame.throw rfl
    · apply frame.bind (frame.iunlockput _)
      intro _
      apply frame.bind frame.endOp
      exact fun _ => frame.pure _
  · exact fun _ => frame.mknodCreate path major minor

/-! ## `exec` -/

theorem readExactly (ip : InodePtr) (off : UInt32) (n : Nat) :
    Keeps relation allowed (Xv6.readExactly ip off n) := by
  apply frame.bind (frame.readi ip off _)
  intro bytes
  split
  · exact frame.pure _
  · exact frame.pure none

theorem loaduvmLoop (ip : InodePtr) (ph : Proghdr) (sz : Nat) (offsets : List Nat) :
    Keeps relation allowed (Xv6.loaduvmLoop ip ph sz offsets) := by
  induction offsets with
  | nil => exact frame.pure true
  | cons i rest ih =>
    apply Keeps.ite
    · exact fun _ => frame.throw rfl
    · intro _
      apply frame.bind (frame.readExactly ip _ _)
      intro bytes
      split
      · exact ih
      · exact frame.pure false

theorem loaduvm (ip : InodePtr) (ph : Proghdr) (sz : Nat) :
    Keeps relation allowed (Xv6.loaduvm ip ph sz) := by
  apply Keeps.ite
  · exact fun _ => frame.throw rfl
  · exact fun _ => frame.loaduvmLoop ip ph sz _

theorem execSegments (memory : ExecMemory) (ip : InodePtr) (phoff : Nat) (indices : List Nat)
    (sz : Nat) : Keeps relation allowed (Xv6.execSegments memory ip phoff indices sz) := by
  induction indices generalizing sz with
  | nil => exact frame.pure _
  | cons i rest ih =>
    apply frame.bind (frame.readExactly ip _ _)
    intro bytes
    split
    · exact frame.pure none
    · apply Keeps.ite
      · exact fun _ => ih _
      · intro _
        apply Keeps.ite
        · exact fun _ => frame.pure none
        · intro _
          apply Keeps.ite
          · exact fun _ => frame.pure none
          · intro _
            apply Keeps.ite
            · exact fun _ => frame.pure none
            · intro _
              apply Keeps.ite
              · exact fun _ => frame.pure none
              · intro _
                apply frame.bind (frame.loaduvm ip _ _)
                intro loaded
                apply Keeps.ite
                · exact fun _ => ih _
                · exact fun _ => frame.pure none

theorem execLoad (memory : ExecMemory) (ip : InodePtr) :
    Keeps relation allowed (Xv6.execLoad memory ip) := by
  apply frame.bind (frame.readExactly ip _ _)
  intro bytes
  split
  · exact frame.pure none
  · apply Keeps.ite
    · exact fun _ => frame.pure none
    · intro _
      apply Keeps.ite
      · exact fun _ => frame.pure none
      · exact fun _ => frame.execSegments memory ip _ _ _

theorem exec (memory : ExecMemory) (path : Path) (argv : List Path) :
    Keeps relation allowed (Xv6.exec memory path argv) := by
  apply frame.bind frame.beginOp
  intro _
  apply frame.bind (frame.namei path)
  intro found
  split
  · apply frame.bind frame.endOp
    intro _
    apply frame.bind (frame.emit rfl)
    exact fun _ => frame.pure _
  · apply frame.bind (frame.ilock _)
    intro _
    apply frame.bind (frame.execLoad memory _)
    intro loaded
    apply frame.bind (frame.iunlockput _)
    intro _
    apply frame.bind frame.endOp
    intro _
    split
    · exact frame.pure _
    · exact frame.pure _

end Frame

end Xv6
