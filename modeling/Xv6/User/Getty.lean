import Xv6.User.Auth

/-!
# Logging in: `getty.c`

`getty` asks for a username and a password until both are right, and then starts the
shell. The name is looked up first; the password is then looked up by the uid.
-/

namespace Xv6.User

/-- One pass of the loop of `getty` over the typed bytes: `getcmd` twice, and the checks.
`page` is the string at address 0, which is where `strcmp` reads if `uidtopass` returns
NULL. The result is the uid with which `start` is called. -/
def attempt (stack : List Byte) (file : Option (List Byte)) (page input : List Byte) :
    Option Int32 × List Byte :=
  -- username[30] and pass[32]; the last byte, the newline, is cut off.
  let (username, input) := gets 29 input
  let username := username.dropLast
  let (pass, input) := gets 31 input
  let pass := pass.dropLast
  let uid := (usertouid stack file username).toInt32
  if uid < 0 then (none, input)
  else
    let userpass := (uidtopass stack file uid.toUInt32).getD page
    if strcmp userpass pass ≠ 0 then (none, input) else (some uid, input)

end Xv6.User
