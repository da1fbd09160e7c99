import Xv6.User.Ulib

/-!
# `grep.c`

A pattern and a text are the bytes of a C string without its NUL.
-/

namespace Xv6.User

abbrev caret : Byte := 94
abbrev dollar : Byte := 36
abbrev dot : Byte := 46
abbrev asterisk : Byte := 42

mutual

/-- `matchhere`: search for the pattern at the beginning of the text. -/
def matchhere : List Byte → List Byte → Bool
  | [], _ => true
  | [c], text =>
    if c = dollar then text.isEmpty
    else match text with
      | [] => false
      | t :: _ => c = dot ∨ c = t
  | c :: c' :: re, text =>
    if c' = asterisk then matchstar c re text
    else match text with
      | [] => false
      | t :: text => (c = dot ∨ c = t) && matchhere (c' :: re) text
termination_by re text => (re.length, text.length, 0)

/-- `matchstar`: search for `c*re` at the beginning of the text. -/
def matchstar (c : Byte) (re : List Byte) : List Byte → Bool
  | [] => matchhere re []
  | t :: text => matchhere re (t :: text) || ((t = c ∨ c = dot) && matchstar c re text)
termination_by text => (re.length, text.length, 1)

end

/-- The loop of `match`, which looks at the empty string too. -/
def matchFrom (re : List Byte) : List Byte → Bool
  | [] => matchhere re []
  | t :: text => matchhere re (t :: text) || matchFrom re text

/-- `match`. -/
def matchText : List Byte → List Byte → Bool
  | [], text => matchFrom [] text
  | c :: re, text => if c = caret then matchhere re text else matchFrom (c :: re) text

end Xv6.User
