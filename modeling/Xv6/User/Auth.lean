import Xv6.User.Ulib

/-!
# Lookups in the user database: `auth.c`, and `uidtodir` of `getty.c`

Every function here reads the first 2048 bytes of a file and takes them apart with
`strtok`, counting columns: a column ends at a colon, but the last one of a line ends
at the newline. They differ in what they do with the columns.
-/

namespace Xv6.User

/-- The size of the buffer. -/
abbrev BUFF : Nat := 2048

/-- The format of a file: the number of columns, and the column after which `strtok` is
called with the newline. -/
structure Table where
  columns : Nat
  lineAt : Nat
deriving DecidableEq, Repr

/-- `/etc/passwd`: name, password, uid, gid, real name and directory. -/
def passwdTable : Table := { columns := 6, lineAt := 4 }

/-- `/etc/group`: name, gid and members. -/
def groupTable : Table := { columns := 3, lineAt := 1 }

/-- What the body of the loop does with a column: go on with new local variables, or
return. -/
inductive Visit (State Result : Type) where
  | go (state : State)
  | stop (result : Result)

variable {State Result : Type}

/-- Go on unless the function has returned. -/
def Visit.andThen : Visit State Result → (State → Visit State Result) → Visit State Result
  | .go state, next => next state
  | .stop result, _ => .stop result

/-- The loop `while(tok != NULL)`, with the token, the variable of `strtok`, and the local
variables. A token is not empty, so there are no more turns than bytes. -/
def scan (table : Table) (visit : Nat → List Byte → State → Visit State Result) :
    Nat → Nat → Option (List Byte) × Option (List Byte) → State → Visit State Result
  | 0, _, _, state => .go state
  | _ + 1, _, (none, _), state => .go state
  | turns + 1, counter, (some tok, p), state =>
    (visit counter tok state).andThen fun state =>
      let next := strtok none (if counter = table.lineAt then [newline] else [colon]) p
      scan table visit turns (if counter + 1 = table.columns then 0 else counter + 1) next state

/-- The memory from the start of the buffer: the bytes read from a file, zeros up to the
end of the buffer, and what lies behind the buffer. -/
def buff (stack contents : List Byte) : List Byte :=
  contents.take BUFF ++ List.replicate (BUFF - contents.length) 0 ++ stack

/-- A lookup: `failed` is returned if the file cannot be opened or nothing can be read,
and `finish` gives what is returned after the loop. -/
def lookup (table : Table) (visit : Nat → List Byte → State → Visit State Result) (start : State)
    (failed : Result) (finish : State → Result) (stack : List Byte) (file : Option (List Byte)) :
    Result :=
  match file with
  | none | some [] => failed
  | some contents =>
    let memory := buff stack contents
    match scan table visit (memory.length + 1) 0 (strtok (some memory) [colon] none) start with
    | .stop result => result
    | .go state => finish state

section

variable (stack : List Byte) (file : Option (List Byte))

def uidtouser (uid : UInt32) : Option (List Byte) :=
  lookup passwdTable (fun counter tok user =>
    let user := if counter = 0 then some tok else user
    if counter = 2 ∧ (atoi tok).toUInt32 = uid then .stop user else .go user)
    none none (fun _ => none) stack file

def gidtogroup (gid : UInt32) : Option (List Byte) :=
  lookup groupTable (fun counter tok group =>
    let group := if counter = 0 then some tok else group
    if counter = 1 ∧ (atoi tok).toUInt32 = gid then .stop group else .go group)
    none none (fun _ => none) stack file

/-- The body of `nextuid` and `nextgid`: the column with the number, and the number to
return. -/
def nextVisit (column : Nat) (counter : Nat) (tok : List Byte) (min : UInt32) :
    Visit UInt32 UInt32 :=
  let curr := atoi tok
  if counter = column ∧ 1000 ≤ curr ∧ curr.toUInt32 = min then .go (min + 1) else .go min

def nextuid : UInt32 := lookup passwdTable (nextVisit 2) 1000 0 id stack file

def nextgid : UInt32 := lookup groupTable (nextVisit 1) 1000 0 id stack file

/-- The body of `validateuid`, `validategid` and `gidexists`. -/
def presentVisit (column : Nat) (present : UInt32) (id : UInt32) (counter : Nat) (tok : List Byte)
    (_ : Unit) : Visit Unit UInt32 :=
  if counter = column ∧ id = (atoi tok).toUInt32 then .stop present else .go ()

def validateuid (uid : UInt32) : UInt32 :=
  lookup passwdTable (presentVisit 2 (-1) uid) () 0 (fun _ => 0) stack file

def validategid (gid : UInt32) : UInt32 :=
  lookup groupTable (presentVisit 1 (-1) gid) () 0 (fun _ => 0) stack file

def gidexists (gid : UInt32) : UInt32 :=
  lookup groupTable (presentVisit 1 1 gid) () 0 (fun _ => -1) stack file

def validateuserpass (uid : UInt32) (pass : List Byte) : Int32 :=
  lookup passwdTable (fun counter tok _pass =>
    let _pass := if counter = 1 then tok else _pass
    if counter = 2 ∧ (atoi tok).toUInt32 = uid then
      .stop (if strcmp pass _pass = 0 then 1 else 0)
    else .go _pass)
    [] 0 (fun _ => 0) stack file

def uidtopass (uid : UInt32) : Option (List Byte) :=
  lookup passwdTable (fun counter tok pass =>
    let pass := if counter = 1 then some tok else pass
    if counter = 2 ∧ (atoi tok).toUInt32 = uid then .stop pass else .go pass)
    none none (fun _ => none) stack file

def usertouid (name : List Byte) : UInt32 :=
  lookup passwdTable (fun counter tok found =>
    let found := if counter = 0 ∧ strcmp name tok = 0 then true else found
    if counter = 2 ∧ found = true then .stop (atoi tok).toUInt32 else .go found)
    false 0 (fun _ => -1) stack file

def grouptogid (group : List Byte) : UInt32 :=
  lookup groupTable (fun counter tok found =>
    let found := if counter = 0 ∧ strcmp group tok = 0 then true else found
    if counter = 1 ∧ found = true then .stop (atoi tok).toUInt32 else .go found)
    false 0 (fun _ => -1) stack file

def uidtogid (uid : UInt32) : UInt32 :=
  lookup passwdTable (fun counter tok found =>
    let found := if counter = 2 ∧ uid = (atoi tok).toUInt32 then true else found
    if counter = 3 ∧ found = true then .stop (atoi tok).toUInt32 else .go found)
    false 0 (fun _ => -1) stack file

def uidtodir (uid : UInt32) : Option (List Byte) :=
  lookup passwdTable (fun counter tok found =>
    let found := if counter = 2 ∧ (atoi tok).toUInt32 = uid then true else found
    if counter = 5 ∧ found = true then .stop (some tok) else .go found)
    false none (fun _ => none) stack file

/-- `passwdlen` and `grouplen`: the length of the string in the buffer. -/
def filelen : Nat :=
  match file with
  | none | some [] => 0
  | some contents => (cstring (buff stack contents)).length

def passwdlen : Nat := filelen stack file

def grouplen : Nat := filelen stack file

end

end Xv6.User
