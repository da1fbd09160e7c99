import Xv6.User.Useradd

/-!
# Adding groups: `groupadd.c`

With the assumptions of `useradd`.
-/

namespace Xv6.User

/-- What the next argument is. -/
inductive GroupStatus where
  | undefined
  | gid
deriving DecidableEq, Repr

/-- The local variables that the arguments set. -/
structure GroupaddArgs where
  group : Option (List Byte)
  gid : Int32
deriving DecidableEq, Repr

/-- The loop over the arguments. -/
def groupaddArgs : GroupStatus → GroupaddArgs → List (List Byte) → Option GroupaddArgs
  | _, args, [] => some args
  | .undefined, args, arg :: rest =>
    if (strstr arg [45, 103]).isSome then groupaddArgs .gid args rest
    else if (strstr arg [45]).isSome then none
    else groupaddArgs .undefined { args with group := some arg } rest
  | .gid, args, arg :: rest => groupaddArgs .undefined { args with gid := atoi arg } rest

/-- The line for `/etc/group`, of a group without members. -/
def groupaddEntry (group : List Byte) (gid : Int32) : List Byte :=
  group ++ [colon] ++ itoa gid ++ [colon, 32, newline]

/-- The gid for the new group. -/
def groupaddNumber (stack : List Byte) (args : GroupaddArgs) (file : List Byte) : Int32 :=
  if args.gid = -1 then (nextgid stack (some file)).toInt32 else args.gid

/-- `main`, on `/etc/group`; nothing is left to say once a string has run over its
buffer. -/
def groupadd (stack : List Byte) (argv : List (List Byte)) (file : List Byte) : Option (List Byte) :=
  match groupaddArgs .undefined { group := none, gid := -1 } argv with
  | none => some file
  | some args =>
    match args.group with
    | none => some file
    | some group =>
      if args.gid ≠ -1 ∧ validategid stack (some file) args.gid.toUInt32 < 0 then some file
      else
        let gid := groupaddNumber stack args file
        let groupbuff := groupaddEntry group gid
        if 256 ≤ groupbuff.length ∨ 10 ≤ (itoa gid).length then none
        else
          match extend file (grouplen stack (some file)) groupbuff with
          | none => some file
          | some file => some file

end Xv6.User
