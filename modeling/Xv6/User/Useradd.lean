import Xv6.User.Auth

/-!
# Adding users: `useradd.c`

Local variables that the program does not initialise are taken to be zero, as is what
`read` leaves of a buffer. A string that does not fit in its buffer ends the run. The
files can be opened, and `read` with the address 0 moves the offset like any other.
-/

namespace Xv6.User

/-- What the next argument is. -/
inductive ArgStatus where
  | undefined
  | dir
  | uid
  | name
deriving DecidableEq, Repr

/-- The local variables that the arguments set. -/
structure UseraddArgs where
  user : Option (List Byte)
  dir : List Byte
  uid : Int32
  name : Option (List Byte)
deriving DecidableEq, Repr

/-- The loop over the arguments. -/
def useraddArgs : ArgStatus → UseraddArgs → List (List Byte) → Option UseraddArgs
  | _, args, [] => some args
  | .undefined, args, arg :: rest =>
    if (strstr arg [45, 100]).isSome then useraddArgs .dir args rest
    else if (strstr arg [45, 117]).isSome then useraddArgs .uid args rest
    else if (strstr arg [45, 99]).isSome then useraddArgs .name args rest
    else if (strstr arg [45]).isSome then none
    else useraddArgs .undefined { args with user := some arg } rest
  | .dir, args, arg :: rest => useraddArgs .undefined { args with dir := arg } rest
  | .uid, args, arg :: rest => useraddArgs .undefined { args with uid := atoi arg } rest
  | .name, args, arg :: rest => useraddArgs .undefined { args with name := some arg } rest

/-- `/home/`. -/
def home : List Byte := [47, 104, 111, 109, 101, 47]

/-- `_`. -/
def blank : List Byte := [95]

/-- The line for `/etc/passwd`. -/
def passwdEntry (user : List Byte) (uid gid : Int32) (name : Option (List Byte)) (dir : List Byte) :
    List Byte :=
  user ++ [colon, 95, colon] ++ itoa uid ++ [colon] ++ itoa gid ++ [colon] ++ name.getD blank ++
    [colon] ++ dir ++ [newline]

/-- The line for `/etc/group`. -/
def groupEntry (user : List Byte) (gid : Int32) : List Byte :=
  user ++ [colon] ++ itoa gid ++ [colon] ++ user ++ [newline]

/-- `/etc/passwd` and `/etc/group`. -/
structure UserFiles where
  passwd : List Byte
  group : List Byte
deriving DecidableEq, Repr

/-- `write` at an offset of a file. -/
def overlay (contents : List Byte) (off : Nat) (bytes : List Byte) : List Byte :=
  contents.take off ++ bytes ++ contents.drop (off + bytes.length)

/-- `read` of a number of bytes to move the offset, and `write`, which fails if the file
would be too long. -/
def extend (contents : List Byte) (length : Nat) (bytes : List Byte) : Option (List Byte) :=
  let off := min length contents.length
  if off + bytes.length ≤ MAXFILE * BSIZE then some (overlay contents off bytes) else none

/-- `main`, where `made` says whether `mkdir` makes the directory: the uid and gid of the
user if the run succeeds, and the files. -/
def useradd (stack : List Byte) (made : Bool) (argv : List (List Byte)) (files : UserFiles) :
    Option (Int32 × Int32) × UserFiles :=
  match useraddArgs .undefined { user := none, dir := [], uid := -1, name := none } argv with
  | some { user := some user, dir, uid, name } =>
    -- `validateuid(uid) < 0` compares an unsigned number.
    let uid := if uid = -1 then (nextuid stack (some files.passwd)).toInt32 else uid
    let gid := (nextgid stack (some files.group)).toInt32
    let dir := home ++ if dir = [] then user else dir
    let passbuff := passwdEntry user uid gid name dir
    let groupbuff := groupEntry user gid
    if made ∧ dir.length < 64 ∧ passbuff.length < 256 ∧ groupbuff.length < 256 ∧
        (itoa uid).length < 10 ∧ (itoa gid).length < 10 then
      match extend files.passwd (passwdlen stack (some files.passwd)) passbuff with
      | none => (none, files)
      | some passwd =>
        match extend files.group (grouplen stack (some files.group)) groupbuff with
        | none => (none, { files with passwd := passwd })
        | some group => (some (uid, gid), { passwd := passwd, group := group })
    else (none, files)
  | _ => (none, files)

/-- The files, and the directories made, with their owners and groups. -/
structure UserDisk where
  files : UserFiles
  directories : List (List Byte × Int32 × Int32)
deriving DecidableEq, Repr

/-- The name of the directory. -/
def UseraddArgs.directory (args : UseraddArgs) (user : List Byte) : List Byte :=
  home ++ if args.dir = [] then user else args.dir

/-- The end of `main`: the lines for the two files. Nothing is left to say once a string
has run over its buffer. -/
def useraddWrites (stack : List Byte) (args : UseraddArgs) (user : List Byte) (uid gid : Int32)
    (disk : UserDisk) : Option UserDisk :=
  let passbuff := passwdEntry user uid gid args.name (args.directory user)
  if 256 ≤ passbuff.length ∨ 10 ≤ (itoa uid).length ∨ 10 ≤ (itoa gid).length then none
  else
    match extend disk.files.passwd (passwdlen stack (some disk.files.passwd)) passbuff with
    | none => some disk
    | some passwd =>
      let groupbuff := groupEntry user gid
      if 256 ≤ groupbuff.length then none
      else
        match extend disk.files.group (grouplen stack (some disk.files.group)) groupbuff with
        | none => some { disk with files := { disk.files with passwd := passwd } }
        | some group => some { disk with files := { passwd := passwd, group := group } }

/-- `main`, with all that it changes, also in a run that fails. `made` says whether `mkdir`
makes the directory. -/
def useraddRun (stack : List Byte) (made : Bool) (argv : List (List Byte)) (disk : UserDisk) :
    Option UserDisk :=
  match useraddArgs .undefined { user := none, dir := [], uid := -1, name := none } argv with
  | none => some disk
  | some args =>
    match args.user with
    | none => some disk
    | some user =>
      let passwd := some disk.files.passwd
      if args.uid ≠ -1 ∧ validateuid stack passwd args.uid.toUInt32 < 0 then some disk
      else
        let uid := if args.uid = -1 then (nextuid stack passwd).toInt32 else args.uid
        let gid := (nextgid stack (some disk.files.group)).toInt32
        let dir := args.directory user
        if 64 ≤ dir.length then none
        else if made = false then some disk
        else useraddWrites stack args user uid gid
          { disk with directories := (dir, uid, gid) :: disk.directories }

/-- The files, and the users added so far with their uids and gids. -/
structure UserSystem where
  files : UserFiles
  added : List (List Byte × Int32 × Int32)
deriving DecidableEq, Repr

/-- A successful run of `useradd` with a name and no options. -/
def UserSystem.step (stack : List Byte) (system : UserSystem) (user : List Byte) : Option UserSystem :=
  match useradd stack true [user] system.files with
  | (none, _) => none
  | (some (uid, gid), files) => some { files := files, added := system.added ++ [(user, uid, gid)] }

end Xv6.User
