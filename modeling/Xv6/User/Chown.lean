import Xv6.Kernel.Sysfile
import Xv6.User.Auth

/-!
# Changing owners: `chown.c` and `chgrp.c`

Both programs turn their first argument into the two numbers that they pass to `chown` for
every file named after it, with -1 for a number that was not given. `malloc` succeeds, and
the strings of a program are ones that the kernel can fetch.
-/

namespace Xv6.User

/-- `/etc/passwd` and `/etc/group`, where they can be opened, and what lies behind the
buffer that they are read into. -/
structure UserDatabase where
  stack : List Byte
  passwd : Option (List Byte)
  group : Option (List Byte)

/-- The number that a name starts with, or what it is in the database. -/
def numberOr (name : List Byte) (found : UInt32) : UInt32 :=
  if (atoi name).toUInt32 = -1 then found else (atoi name).toUInt32

/-- A number that stays -1 if there is no name. -/
def numberOf (find : List Byte → UInt32) : Option (List Byte) → UInt32
  | none => -1
  | some name => numberOr name (find name)

section

variable (database : UserDatabase)

/-- The strings `user` and `group` of `chown`, where they are given. -/
def chownNames (arg : List Byte) : Option (List Byte) × Option (List Byte) :=
  if (strstr arg [colon]).isNone then (some arg, none)
  else if strncmp arg [colon] 1 = 0 then
    -- `memmove` moves the rest of the string over the colon
    (none, some (arg.drop 1))
  else
    match strtok (some arg) [colon] none with
    -- there is a token: the first byte is not a colon
    | (none, _) => (none, none)
    | (some token, p) =>
      if token.length + 1 = arg.length then
        (some token, gidtogroup database.stack database.group
          (uidtogid database.stack database.passwd
            (usertouid database.stack database.passwd token)))
      else (some token, (strtok none [colon] p).1)

/-- The `uid` and the `gid` that `chown` passes on, or what it prints instead. -/
def chownNumbers (arg : List Byte) : Except String (UInt32 × UInt32) :=
  if arg.length ≤ 1 then .error "chown: invalid args\n"
  else
    let (user, group) := chownNames database arg
    .ok (numberOf (usertouid database.stack database.passwd) user,
      numberOf (grouptogid database.stack database.group) group)

/-- The same for `chgrp`. -/
def chgrpNumbers (arg : List Byte) : Except String (UInt32 × UInt32) :=
  let gid := numberOr arg (grouptogid database.stack database.group arg)
  if gid = -1 ∨ gidexists database.stack database.group gid = -1 then
    .error "chgrp: invalid gid\n"
  else .ok (-1, gid)

end

/-- The end of both programs: one call for every file. What was printed is returned. -/
def chownFiles (files : List Path) : Except String (UInt32 × UInt32) → Kern (Option String)
  | .error text => pure (some text)
  | .ok (uid, gid) => do
      forM files fun file => do
        let _ ← sysChown (some file) (some uid) (some gid)
        pure ()
      pure none

/-- `main` of `chown`. -/
def chown (database : UserDatabase) : List (List Byte) → Kern (Option String)
  | _ :: arg :: file :: files => chownFiles (file :: files) (chownNumbers database arg)
  | _ => pure (some "chown: invalid arg count\n")

/-- `main` of `chgrp`. -/
def chgrp (database : UserDatabase) : List (List Byte) → Kern (Option String)
  | _ :: arg :: file :: files => chownFiles (file :: files) (chgrpNumbers database arg)
  | _ => pure (some "chgrp: invalid arg count\n")

end Xv6.User
