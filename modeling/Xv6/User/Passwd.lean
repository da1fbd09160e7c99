import Xv6.User.Useradd

/-!
# Changing a password: `passwd.c`

Local variables that the program does not initialise are zero, and the file can be opened.
What happens once a string runs over the end of its buffer is not said: the run ends
with a fault.
-/

namespace Xv6.User

/-- How a run ends: with one of the messages, outside a buffer, or with the file written. -/
inductive PasswdResult where
  | refused
  | fault
  | changed (contents : List Byte)
deriving DecidableEq, Repr

/-- A line from the terminal in a buffer of 32 bytes, without its last character, and what
is left to read. -/
def typed (input : List Byte) : List Byte × List Byte :=
  let (line, input) := gets 31 input
  ((cstring line).dropLast, input)

/-- The loop over `memmove`, which cuts out as many bytes as it has turns. -/
def cutBytes (start : Nat) : Nat → List Byte → List Byte
  | 0, buff => buff
  | turns + 1, buff => cutBytes start turns (buff.take start ++ buff.drop (start + 1))

/-- The end of `main`, from `read` on. `buff` and `file` have 512 bytes, `srchbuff` has 256. -/
def changePassword (user currpass pass file : List Byte) : PasswdResult :=
  if 512 ≤ file.length then .fault
  else if 256 ≤ user.length + 1 then .fault
  else
    let buff := cstring file
    match strstr buff (user ++ [colon]) with
    | none => .fault
    | some indexptr =>
      let index := buff.length - indexptr.length
      let start := index + user.length + 1
      let buff := cutBytes start currpass.length buff
      let text := buff.take start ++ pass ++ buff.drop start
      if 512 ≤ text.length then .fault
      else
        -- the leftover characters are cleared
        let diff := currpass.length - pass.length
        .changed (overlay (overlay file 0 text) text.length (List.replicate diff 0))

/-- `main` from the new password on. -/
def askPassword (user currpass input file : List Byte) : PasswdResult :=
  let (pass, input) := typed input
  if pass.length < 7 then .refused
  else
    let (reppass, _) := typed input
    if pass.length ≠ reppass.length ∨ strcmp pass reppass ≠ 0 then .refused
    else if file = [] then .refused
    else changePassword user currpass pass file

/-- `main`, with the uid of the process, the arguments, the bytes typed and the file. `page` is
the string at address 0, which is where the program reads if a lookup returns NULL. -/
def passwd (stack page : List Byte) (uid : UInt32) (argv : List (List Byte)) (input file : List Byte) :
    PasswdResult :=
  if argv ≠ [] ∧ uid ≠ 0 then .refused
  else
    let user := argv.head?.getD ((uidtouser stack (some file) uid).getD page)
    if uid ≠ 0 then
      let (currpass, input) := typed input
      if validateuserpass stack (some file) uid currpass = 0 then .refused
      else askPassword user currpass input file
    else
      let currpass := (uidtopass stack (some file) (usertouid stack (some file) user)).getD page
      if 32 ≤ currpass.length then .fault else askPassword user currpass input file

end Xv6.User
