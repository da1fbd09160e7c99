import Xv6.Kernel.Exec

/-!
# File-system system calls: `sysfile.c`

A system call takes its arguments as `argstr`, `argint` and `argptr` deliver
them, with `none` where these fail. Locals that the code reads before assigning
them are parameters.
-/

namespace Xv6

open Program (when)

/-- `int_to_bin_digit`: the low `count` bits, the highest first. -/
def intToBinDigit (value : UInt32) (count : Nat) : List Bool :=
  let mask : UInt32 := 1 <<< UInt32.ofNat (count - 1)
  (List.range count).map fun i => (value <<< UInt32.ofNat i) &&& mask ≠ 0

abbrev USER_R_BIT : Nat := 1
abbrev USER_W_BIT : Nat := 2
abbrev USER_X_BIT : Nat := 3
abbrev GROUP_R_BIT : Nat := 4
abbrev GROUP_W_BIT : Nat := 5
abbrev GROUP_X_BIT : Nat := 6
abbrev OTHER_R_BIT : Nat := 7
abbrev OTHER_W_BIT : Nat := 8
abbrev OTHER_X_BIT : Nat := 9

/-- `bits[bit]` after `int_to_bin_digit(mode, 10, bits)`. -/
def modeBit (mode : UInt32) (bit : Nat) : Bool := (intToBinDigit mode 10).getD bit false

/-- The cascade of each permission check: is the access invalid, given what the
bits of each class allow? Every copy of it in the source sets `groupmember` to
zero before it. -/
def classInvalid (fileowner : Bool) (user group others : Bool) : Bool :=
  let groupmember := false
  let other := !fileowner && !groupmember
  if fileowner then !user
  else if groupmember then !group
  else if other then !others
  else false

/-- The permission check of `sys_open`, before root is let through. -/
def openInvalid (inode : Inode) (euid : UInt32) (omode : UInt32) : Bool :=
  let bits := modeBit inode.mode
  let fileowner := decide (inode.uid = euid)
  if omode = O_RDWR then
    -- the other class is asked for the write bit of the group
    classInvalid fileowner (bits USER_R_BIT && bits USER_W_BIT)
      (bits GROUP_R_BIT && bits GROUP_W_BIT) (bits OTHER_R_BIT && bits GROUP_W_BIT)
  else if omode = O_RDONLY then
    classInvalid fileowner (bits USER_R_BIT) (bits GROUP_R_BIT) (bits OTHER_R_BIT)
  else if omode = O_WRONLY then
    classInvalid fileowner (bits USER_W_BIT) (bits GROUP_W_BIT) (bits OTHER_W_BIT)
  else false

/-- The permission check of `sys_mknod`, on the mode and owner of the parent. -/
def mknodInvalid (mode uid euid : UInt32) : Bool :=
  let bits := modeBit mode
  classInvalid (decide (uid = euid)) (bits USER_W_BIT) (bits GROUP_W_BIT) (bits OTHER_W_BIT)

/-- The permission check of `sys_chdir`. -/
def chdirInvalid (inode : Inode) (euid : UInt32) : Bool :=
  let bits := modeBit inode.mode
  classInvalid (decide (inode.uid = euid)) (bits USER_X_BIT) (bits GROUP_X_BIT) (bits OTHER_X_BIT)

/-- If we're root, invalid is not important. -/
def unlessRoot (euid : UInt32) (invalid : Bool) : Bool := if euid = 0 then false else invalid

/-- The message of a refused access. -/
def permissionDenied (path : Path) : Kern Unit :=
  emit (.cprintf path ": Permission denied\n")

/-! ## Descriptors -/

/-- `argfd`. -/
def argfd (fd : Option Int) : Kern (Option (Fin NOFILE × FilePtr)) := do
  let kernel ← get
  match fd with
  | none => pure none
  | some fd =>
    if valid : 0 ≤ fd ∧ fd < NOFILE then
      let slot : Fin NOFILE := ⟨fd.toNat, by omega⟩
      pure ((kernel.myproc.ofile slot).map fun f => (slot, f))
    else pure none

/-- `fdalloc`. -/
def fdalloc (f : FilePtr) : Kern (Option (Fin NOFILE)) := do
  let kernel ← get
  match (List.finRange NOFILE).find? fun fd => kernel.myproc.ofile fd = none with
  | none => pure none
  | some fd => do
      writeMyproc fun proc => { proc with ofile := Function.update proc.ofile fd (some f) }
      pure (some fd)

/-- `sys_dup`. -/
def sysDup (fd : Option Int) : Kern Int := do
  match ← argfd fd with
  | none => pure (-1)
  | some (_, f) =>
    match ← fdalloc f with
    | none => pure (-1)
    | some fd => do
        let _ ← filedup f
        pure fd.val

/-- `sys_write`; the buffer is there if `argint` and `argptr` accept it. -/
def sysWrite (fd : Option Int) (buffer : Option (List Byte)) : Kern Int := do
  match ← argfd fd, buffer with
  | some (_, f), some bytes => filewrite f bytes
  | _, _ => pure (-1)

/-- `sys_close`. -/
def sysClose (fd : Option Int) : Kern Int := do
  match ← argfd fd with
  | none => pure (-1)
  | some (fd, f) => do
      writeMyproc fun proc => { proc with ofile := Function.update proc.ofile fd none }
      fileclose f
      pure 0

/-- `sys_pipe`: the descriptors it stores in the user array, or nothing for `-1`.
`fd` says that `argptr` accepts the array. -/
def sysPipe (fd : Bool) (page : Option Nat) : Kern (Option (Fin NOFILE × Fin NOFILE)) := do
  if fd then
    match ← pipealloc page with
    | none => pure none
    | some (rf, wf) =>
      match ← fdalloc rf with
      | none => do
          fileclose rf
          fileclose wf
          pure none
      | some fd0 =>
        match ← fdalloc wf with
        | none => do
            writeMyproc fun proc => { proc with ofile := Function.update proc.ofile fd0 none }
            fileclose rf
            fileclose wf
            pure none
        | some fd1 => pure (some (fd0, fd1))
  else pure none

/-- `sys_fstat`; `st` says that `argptr` accepts the buffer. -/
def sysFstat (fd : Option Int) (st : Bool) : Kern (Option Stat) := do
  match ← argfd fd with
  | none => pure none
  | some (_, f) => if st then filestat f else pure none

/-! ## Attributes -/

/-- The lookup that five of the calls start with: on a path that leads nowhere
they end their transaction and return `-1`. -/
def withInode (path : Path) (body : InodePtr → Kern Int) : Kern Int := do
  match ← namei path with
  | none => do
      endOp
      pure (-1)
  | some ip => body ip

/-- `sys_chmod` with the inode found. The owner is read before the inode is
locked, from whatever the cache entry holds. -/
def chmodInode (mode : UInt32) (ip : InodePtr) : Kern Int := do
  let kernel ← get
  if (kernel.icache ip).uid ≠ kernel.myproc.uid ∧ kernel.myproc.uid ≠ 0 then do
    endOp
    pure (-1)
  else do
    ilock ip
    writeInode ip fun inode => { inode with mode := mode }
    iupdate ip
    iunlock ip
    endOp
    pure 0

/-- `sys_chmod`. -/
def sysChmod (path : Option Path) (mode : Option UInt32) : Kern Int := do
  match path, mode with
  | some path, some mode => do
      beginOp
      withInode path (chmodInode mode)
  | _, _ => pure (-1)

/-- `sys_chown` with the inode found. An owner of `-1` stays. -/
def chownInode (owner group : UInt32) (ip : InodePtr) : Kern Int := do
  ilock ip
  when (owner ≠ 0xffffffff) (writeInode ip fun inode => { inode with uid := owner })
  writeInode ip fun inode => { inode with gid := group }
  iupdate ip
  iunlock ip
  endOp
  pure 0

/-- `sys_chown`. -/
def sysChown (path : Option Path) (owner group : Option UInt32) : Kern Int := do
  let kernel ← get
  if kernel.myproc.uid ≠ 0 then pure (-1)
  else
    match path, owner, group with
    | some path, some owner, some group => do
        beginOp
        withInode path (chownInode owner group)
    | _, _, _ => pure (-1)

/-! ## Names -/

/-- The `bad` label of `sys_link`: undo the new link. -/
def linkBad (ip : InodePtr) : Kern Int := do
  ilock ip
  writeInode ip fun inode => { inode with nlink := inode.nlink - 1 }
  iupdate ip
  iunlockput ip
  endOp
  pure (-1)

/-- The second half of `sys_link`: enter the new name for `ip`, whose link count
is already raised. -/
def linkName (ip : InodePtr) (new : Path) : Kern Int := do
  match ← nameiparent new with
  | none => linkBad ip
  | some (dp, name) => do
      ilock dp
      let kernel ← get
      if (kernel.icache dp).dev ≠ (kernel.icache ip).dev then do
        iunlockput dp
        linkBad ip
      else do
        if ← dirlink dp name (kernel.icache ip).inum then do
          iunlockput dp
          iput ip
          endOp
          pure 0
        else do
          iunlockput dp
          linkBad ip

/-- `sys_link` with the old inode found: raise its link count. -/
def linkInode (new : Path) (ip : InodePtr) : Kern Int := do
  ilock ip
  let inode ← readInode ip
  if inode.type = .dir then do
    iunlockput ip
    endOp
    pure (-1)
  else do
    writeInode ip fun inode => { inode with nlink := inode.nlink + 1 }
    iupdate ip
    iunlock ip
    linkName ip new

/-- `sys_link`. -/
def sysLink (old new : Option Path) : Kern Int := do
  match old, new with
  | some old, some new => do
      beginOp
      withInode old (linkInode new)
  | _, _ => pure (-1)

/-- The loop of `isdirempty` over the offsets still to look at. -/
def isdiremptyFrom (dp : InodePtr) : List Nat → Kern Bool
  | [] => pure true
  | off :: rest => do
      let de ← readDirent dp off .isdiremptyRead
      if de.inum ≠ 0 then pure false else isdiremptyFrom dp rest

/-- `isdirempty`: the entries after the first two are unused. -/
def isdirempty (dp : InodePtr) : Kern Bool := do
  let inode ← readInode dp
  isdiremptyFrom dp ((direntOffsets inode.size).drop 2)

/-- The names `unlink` refuses. -/
abbrev DOT : Name := [46]
abbrev DOTDOT : Name := [46, 46]

/-- The `bad` label of `sys_unlink`. -/
def unlinkBad (dp : InodePtr) : Kern Int := do
  iunlockput dp
  endOp
  pure (-1)

/-- The part of `sys_unlink` after both inodes are locked and the checks passed. -/
def unlinkEntry (dp ip : InodePtr) (off : Nat) : Kern Int := do
  let written ← writei dp (fun _ => 0) (.ofNat off) (.ofNat DIRENT)
  if written ≠ DIRENT then panic .unlinkWritei
  else do
    let inode ← readInode ip
    when (inode.type = .dir) do
      writeInode dp fun inode => { inode with nlink := inode.nlink - 1 }
      iupdate dp
    iunlockput dp
    writeInode ip fun inode => { inode with nlink := inode.nlink - 1 }
    iupdate ip
    iunlockput ip
    endOp
    pure 0

/-- The part of `sys_unlink` with the entry found: lock and check its inode. -/
def unlinkFound (dp ip : InodePtr) (off : Nat) : Kern Int := do
  ilock ip
  let inode ← readInode ip
  if inode.nlink < 1 then panic .unlinkNlink
  else if inode.type = .dir then do
    if ← isdirempty ip then unlinkEntry dp ip off
    else do
      iunlockput ip
      unlinkBad dp
  else unlinkEntry dp ip off

/-- `sys_unlink`. -/
def sysUnlink (path : Option Path) : Kern Int := do
  match path with
  | none => pure (-1)
  | some path => do
      beginOp
      match ← nameiparent path with
      | none => do
          endOp
          pure (-1)
      | some (dp, name) => do
          ilock dp
          if namecmp name DOT = 0 ∨ namecmp name DOTDOT = 0 then unlinkBad dp
          else
            match ← dirlookup dp name with
            | none => unlinkBad dp
            | some (ip, off) => unlinkFound dp ip off

/-- `create` makes the `.` and `..` entries of a new directory. -/
def createDots (dp ip : InodePtr) : Kern Unit := do
  writeInode dp fun inode => { inode with nlink := inode.nlink + 1 }
  iupdate dp
  let kernel ← get
  if ← dirlink ip DOT (kernel.icache ip).inum then
    if ← dirlink ip DOTDOT (kernel.icache dp).inum then pure () else panic .createDots
  else panic .createDots

/-- The part of `create` that enters a new inode, already locked, in `dp`. -/
def createEntry (dp ip : InodePtr) (name : Name) (type : InodeType) : Kern Unit := do
  when (type = .dir) (createDots dp ip)
  let inode ← readInode ip
  if ← dirlink dp name inode.inum then pure () else panic .createDirlink

/-- `create`: the inode, locked. -/
def create (path : Path) (type : InodeType) (major minor : Int16) (uid mode : UInt32) :
    Kern (Option InodePtr) := do
  match ← nameiparent path with
  | none => pure none
  | some (dp, name) => do
      ilock dp
      match ← dirlookup dp name with
      | some (ip, _) => do
          iunlockput dp
          ilock ip
          let inode ← readInode ip
          if (type = .file ∧ inode.type = .file) ∨ inode.type = .dev then pure (some ip)
          else do
            iunlockput ip
            pure none
      | none => do
          let parent ← readInode dp
          let ip ← ialloc parent.dev type uid mode
          ilock ip
          writeInode ip fun inode => { inode with major := major, minor := minor, nlink := 1 }
          iupdate ip
          createEntry dp ip name type
          iunlockput dp
          pure (some ip)

/-! ## Open -/

/-- The end of `sys_open`: a file and a descriptor for the locked inode. -/
def openFile (ip : InodePtr) (omode : UInt32) : Kern Int := do
  match ← filealloc with
  | none => do
      iunlockput ip
      endOp
      pure (-1)
  | some f =>
    match ← fdalloc f with
    | none => do
        fileclose f
        iunlockput ip
        endOp
        pure (-1)
    | some fd => do
        iunlock ip
        endOp
        modify (·.updateFile f fun file => file.open (.inode ip 0) (omode &&& O_WRONLY = 0)
          (omode &&& O_WRONLY ≠ 0 ∨ omode &&& O_RDWR ≠ 0))
        pure fd.val

/-- `sys_open` with the inode found: the permission check. -/
def openInode (path : Path) (omode : UInt32) (ip : InodePtr) : Kern Int := do
  ilock ip
  let kernel ← get
  if (kernel.icache ip).type = .dir ∧ omode ≠ O_RDONLY then do
    iunlockput ip
    endOp
    pure (-1)
  else if unlessRoot kernel.myproc.euid
      (openInvalid (kernel.icache ip) kernel.myproc.euid omode) then do
    permissionDenied path
    iunlockput ip
    endOp
    pure (-1)
  else openFile ip omode

/-- `sys_open` from its call of `namei` on. -/
def openPath (path : Path) (omode : UInt32) : Kern Int := withInode path (openInode path omode)

/-- `sys_open`. What `create` returns is only compared with the null pointer. -/
def sysOpen (path : Option Path) (omode : Option UInt32) : Kern Int := do
  match path, omode with
  | some path, some omode => do
      beginOp
      if omode &&& O_CREATE ≠ 0 then
        match ← create path .file 0 0 (← get).myproc.uid 0o644 with
        | none => do
            endOp
            pure (-1)
        | some _ => openPath path omode
      else openPath path omode
  | _, _ => pure (-1)

/-- `sys_mkdir`. -/
def sysMkdir (path : Option Path) : Kern Int := do
  beginOp
  match path with
  | none => do
      endOp
      pure (-1)
  | some path =>
    match ← create path .dir 0 0 (← get).myproc.uid 0o700 with
    | none => do
        endOp
        pure (-1)
    | some ip => do
        iunlockput ip
        endOp
        pure 0

/-- The locals that `sys_mknod` reads before it assigns them, and the words it
finds where `parent->mode` and `parent->uid` are when `parent` is null. -/
structure MknodLocals where
  path : Path
  ip : Option InodePtr
  mode : UInt32
  uid : UInt32

/-- The second half of `sys_mknod`, after its permission check. -/
def mknodCreate (path : Option Path) (major minor : Option Int16) : Kern Int := do
  beginOp
  match path, major, minor with
  | some path, some major, some minor =>
    match ← create path .dev major minor (← get).myproc.uid 0o644 with
    | none => do
        endOp
        pure (-1)
    | some ip => do
        iunlockput ip
        endOp
        pure 0
  | _, _, _ => do
      endOp
      pure (-1)

/-- `sys_mknod`. The parent is looked up under the uninitialised path, outside of
any transaction, and its reference is never dropped. -/
def sysMknod (locals : MknodLocals) (path : Option Path) (major minor : Option Int16) :
    Kern Int := do
  let parent ← nameiparent locals.path
  let kernel ← get
  let (mode, uid) := match parent with
    | some (dp, _) => ((kernel.icache dp).mode, (kernel.icache dp).uid)
    | none => (locals.mode, locals.uid)
  if unlessRoot kernel.myproc.euid (mknodInvalid mode uid kernel.myproc.euid) then do
    permissionDenied locals.path
    match locals.ip with
    | none => throw .wild
    | some ip => do
        iunlockput ip
        endOp
        pure (-1)
  else mknodCreate path major minor

/-- `sys_chdir` with the inode found: the permission check. -/
def chdirInode (path : Path) (ip : InodePtr) : Kern Int := do
  ilock ip
  let kernel ← get
  if (kernel.icache ip).type ≠ .dir then do
    iunlockput ip
    endOp
    pure (-1)
  else if unlessRoot kernel.myproc.euid (chdirInvalid (kernel.icache ip) kernel.myproc.euid) then do
    permissionDenied path
    iunlockput ip
    endOp
    pure (-1)
  else do
    iunlock ip
    match kernel.myproc.cwd with
    | none => throw .wild
    | some cwd => do
        iput cwd
        endOp
        writeMyproc fun proc => { proc with cwd := some ip }
        pure 0

/-- `sys_chdir`. -/
def sysChdir (path : Option Path) : Kern Int := do
  beginOp
  match path with
  | none => do
      endOp
      pure (-1)
  | some path => withInode path (chdirInode path)

end Xv6
