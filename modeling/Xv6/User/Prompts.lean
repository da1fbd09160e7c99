import Mathlib.Logic.Function.Basic

/-!
# Password prompts: `getty.c`, `passwd.c` and `sys_echoswitch`

A prompt for a password calls `echoswitch`, reads a line and calls `echoswitch`
again. The flag behind the call is one variable of the kernel, for all processes.
A process may be killed, or exit, wherever it is.
-/

namespace Xv6

/-- The password prompts of `getty`, and of `passwd` in their order. -/
inductive Prompt where
  | login
  | current
  | new
  | again
deriving DecidableEq, Repr

/-- Where a process is in `getty` or `passwd`. -/
inductive PromptPoint where
  /-- It runs neither of the two. -/
  | absent
  /-- `getty` reads the username. -/
  | username
  /-- At the first `echoswitch` of a prompt. -/
  | before (prompt : Prompt)
  /-- Between the two calls of `echoswitch`, in `gets`. -/
  | typing (prompt : Prompt)
  /-- The line was read. -/
  | after (prompt : Prompt)
deriving DecidableEq, Repr

/-- Is a password being typed? -/
def PromptPoint.isTyping : PromptPoint → Bool
  | typing _ => true
  | _ => false

/-- The flag, and the processes. -/
structure Prompts (Process : Type) where
  echodisabled : UInt32
  point : Process → PromptPoint

inductive PromptAction (Process : Type) where
  /-- `exec` of `getty`. -/
  | getty (p : Process)
  /-- `exec` of `passwd`, by root or by another user. -/
  | passwd (p : Process) (root : Bool)
  /-- The next step of a process; `accepted` is the outcome of the check of the line,
  where there is one. -/
  | proceed (p : Process) (accepted : Bool)
  /-- The process is killed, or exits. -/
  | die (p : Process)
deriving DecidableEq, Repr

namespace Prompts

variable {Process : Type} [DecidableEq Process]

/-- At boot. -/
def start : Prompts Process := { echodisabled := 0, point := fun _ => .absent }

def goto (prompts : Prompts Process) (p : Process) (point : PromptPoint) : Prompts Process :=
  { prompts with point := Function.update prompts.point p point }

/-- `sys_echoswitch`: `echodisabled = !echodisabled`. -/
def echoswitch (prompts : Prompts Process) : Prompts Process :=
  { prompts with echodisabled := if prompts.echodisabled = 0 then 1 else 0 }

/-- Where a line that was read leads. `getty` starts the shell or asks for the username
again; `passwd` asks on, or exits. -/
def next (accepted : Bool) : Prompt → PromptPoint
  | .login => if accepted then .absent else .username
  | .current => if accepted then .before .new else .absent
  | .new => if accepted then .before .again else .absent
  | .again => .absent

def step (prompts : Prompts Process) : PromptAction Process → Option (Prompts Process)
  | .getty p => if prompts.point p = .absent then some (prompts.goto p .username) else none
  | .passwd p root =>
    if prompts.point p = .absent then
      some (prompts.goto p (.before (if root then .new else .current)))
    else none
  | .proceed p accepted =>
    match prompts.point p with
    | .absent => none
    | .username => some (prompts.goto p (.before .login))
    | .before prompt => some (prompts.echoswitch.goto p (.typing prompt))
    | .typing prompt => some (prompts.echoswitch.goto p (.after prompt))
    | .after prompt => some (prompts.goto p (next accepted prompt))
  | .die p => some (prompts.goto p .absent)

end Prompts

end Xv6
