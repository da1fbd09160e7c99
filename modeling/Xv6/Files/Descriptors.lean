import Mathlib.Algebra.Group.Pi.Lemmas
import Xv6.Files.Frame
import Xv6.Processes.Tree
import Xv6.Std.Counting

/-!
# Descriptors, open files and pipe pages

The part of a kernel state that the file table lives on: the count and the pipe
end of every `struct file`, the descriptors of every process, which ends of which
pipes are open, and the pages that pipes took and gave back in the current call.

Inside of a call a file can have more or fewer references than descriptors;
`Accounted` carries the difference, and the page balance of earlier calls.
-/

namespace Xv6.Files

/-- The end of a pipe behind a file. -/
structure PipeEnd where
  page : Nat
  readable : Bool
  writable : Bool
deriving DecidableEq

/-- What the accounting looks at in a `struct file`. -/
structure Handle where
  ref : Nat
  pipe : Option PipeEnd
deriving DecidableEq

/-- The descriptors of a kernel state. The ends of a pipe are told apart by whether
they are readable. -/
@[ext] structure Descriptors where
  file : FilePtr → Handle
  ofile : ProcPtr → Fin NOFILE → Option FilePtr
  kind : ProcPtr → Kind
  cur : ProcPtr
  opened : Nat → Bool → Bool
  pages : List Event

end Xv6.Files

namespace Xv6

open Files

def File.handle (file : File) : Handle :=
  { ref := file.ref
    pipe := match file.type with
      | .pipe p => some ⟨p, file.readable, file.writable⟩
      | _ => none }

/-- Is the readable, or the other, end open? -/
def Pipe.opened (pipe : Pipe) (readable : Bool) : Bool :=
  if readable then pipe.readopen else pipe.writeopen

def Kernel.descriptors (kernel : Kernel) : Descriptors :=
  { file := fun f => (kernel.ftable f).handle
    ofile := fun p => (kernel.ptable p).ofile
    kind := fun p => (kernel.ptable p).state.kind
    cur := kernel.cur
    opened := fun p => (kernel.pipes p).opened
    pages := kernel.trace.filter fun event => !event.outsidePages }

end Xv6

namespace Xv6.Files

open Counting Function

namespace Descriptors

variable (d : Descriptors)

def setFile (f : FilePtr) (handle : Handle) : Descriptors :=
  { d with file := Function.update d.file f handle }

def setSlot (p : ProcPtr) (fd : Fin NOFILE) (entry : Option FilePtr) : Descriptors :=
  { d with ofile := Function.update d.ofile p (Function.update (d.ofile p) fd entry) }

def setKind (p : ProcPtr) (kind : Kind) : Descriptors :=
  { d with kind := Function.update d.kind p kind }

def setEnds (p : Nat) (opened : Bool → Bool) : Descriptors :=
  { d with opened := Function.update d.opened p opened }

/-- What `pipeclose` does. -/
def shut (p : Nat) (readable : Bool) : Descriptors :=
  { d.setEnds p (Function.update (d.opened p) readable false) with
    pages := if d.opened p (!readable) then d.pages else .kfree p :: d.pages }

/-- What `pipealloc` does to the page. -/
def pipe (p : Nat) : Descriptors :=
  { d.setEnds p fun _ => true with pages := .kalloc p :: d.pages }

end Descriptors

/-! ## Counting -/

/-- Does a descriptor lead to the file? -/
def points (f : FilePtr) (entry : Option FilePtr) : Nat := if entry = some f then 1 else 0

/-- The descriptors of one process that lead to the file. -/
def held (f : FilePtr) (slots : Fin NOFILE → Option FilePtr) : Nat := total (points f) slots

/-- The descriptors of all processes that lead to the file. -/
def holders (d : Descriptors) (f : FilePtr) : Nat := total (held f) d.ofile

/-- Is the file the reading, or the writing, end of the pipe? -/
def isEnd (page : Nat) (readable : Bool) (handle : Handle) : Nat :=
  if handle.pipe = some ⟨page, readable, !readable⟩ then 1 else 0

/-- Pages taken less pages given back. -/
def balance (page : Nat) (events : List Event) : Int :=
  events.count (.kalloc page) - events.count (.kfree page)

theorem holders_setSlot (d : Descriptors) (p : ProcPtr) (fd : Fin NOFILE)
    (entry : Option FilePtr) (f : FilePtr) :
    holders (d.setSlot p fd entry) f + points f (d.ofile p fd) = holders d f + points f entry := by
  have inner := total_update (points f) (d.ofile p) fd entry
  have outer := total_update (held f) d.ofile p (update (d.ofile p) fd entry)
  change holders (d.setSlot p fd entry) f + held f (d.ofile p) = holders d f + held f _ at outer
  unfold held at outer
  omega

/-- A descriptor that leads to the file is counted. -/
theorem holders_pos {d : Descriptors} {p : ProcPtr} {fd : Fin NOFILE} {f : FilePtr}
    (open_ : d.ofile p fd = some f) : 0 < holders d f := by
  have one : points f (d.ofile p fd) = 1 := by simp [points, open_]
  calc 0 < points f (d.ofile p fd) := by omega
    _ ≤ held f (d.ofile p) := measure_le_total (points f) (d.ofile p) fd
    _ ≤ holders d f := measure_le_total (held f) d.ofile p

theorem balance_append (page : Nat) (events events' : List Event) :
    balance page (events ++ events') = balance page events + balance page events' := by
  unfold balance
  rw [List.count_append, List.count_append]
  push_cast
  ring

theorem balance_kalloc (page p : Nat) (events : List Event) :
    balance page (.kalloc p :: events) = balance page events + if p = page then 1 else 0 := by
  unfold balance
  rw [List.count_cons, List.count_cons]
  by_cases here : p = page
  · simp [here]
    ring
  · simp [here]

theorem balance_kfree (page p : Nat) (events : List Event) :
    balance page (.kfree p :: events) = balance page events - if p = page then 1 else 0 := by
  unfold balance
  rw [List.count_cons, List.count_cons]
  by_cases here : p = page
  · simp [here]
    ring
  · simp [here]

/-! ## The invariant -/

/-- The table is in order, up to the references in `extra` that a call holds in
its variables or still owes to a descriptor. -/
structure Accounted (base : Nat → Int) (extra : FilePtr → Int) (d : Descriptors) : Prop where
  counted : ∀ f, ((d.file f).ref : Int) = holders d f + extra f
  unused : ∀ f, (d.file f).ref = 0 → (d.file f).pipe = none
  sided : ∀ f e, (d.file f).pipe = some e → e.writable = !e.readable
  ends : ∀ p readable, total (isEnd p readable) d.file = (d.opened p readable).toNat
  pages : ∀ p, base p + balance p d.pages = if d.opened p true || d.opened p false then 1 else 0
  empty : ∀ q, d.kind q = .unused ∨ d.kind q = .zombie → ∀ fd, d.ofile q fd = none

variable {base : Nat → Int} {extra : FilePtr → Int} {d : Descriptors}

/-- A file that keeps its pipe end gets another count. -/
theorem Accounted.setFile (accounted : Accounted base extra d) (f : FilePtr) (handle : Handle)
    (same : handle.pipe = (d.file f).pipe) (idle : handle.ref = 0 → handle.pipe = none) :
    Accounted base (extra + Pi.single f ((handle.ref : Int) - (d.file f).ref))
      (d.setFile f handle) := by
  have total_eq : ∀ p readable, total (isEnd p readable) (update d.file f handle) =
      total (isEnd p readable) d.file := by
    intro p readable
    have updated := total_update (isEnd p readable) d.file f handle
    have kept : isEnd p readable handle = isEnd p readable (d.file f) := by
      unfold isEnd
      rw [same]
    omega
  constructor
  · intro g
    change ((update d.file f handle g).ref : Int) = holders d g + _
    have counted := accounted.counted g
    by_cases here : g = f
    · subst here
      rw [update_self, Pi.add_apply, Pi.single_eq_same]
      omega
    · rw [update_of_ne here, Pi.add_apply, Pi.single_eq_of_ne here]
      omega
  · intro g none
    change (update d.file f handle g).ref = 0 at none
    change (update d.file f handle g).pipe = _
    by_cases here : g = f
    · subst here
      rw [update_self] at none ⊢
      exact idle none
    · rw [update_of_ne here] at none ⊢
      exact accounted.unused g none
  · intro g e
    change (update d.file f handle g).pipe = _ → _
    by_cases here : g = f
    · subst here
      rw [update_self, same]
      exact accounted.sided g e
    · rw [update_of_ne here]
      exact accounted.sided g e
  · intro p readable
    exact (total_eq p readable).trans (accounted.ends p readable)
  · exact accounted.pages
  · exact accounted.empty

/-- The descriptors of a process in use change. -/
theorem Accounted.setSlot (accounted : Accounted base extra d) (p : ProcPtr) (fd : Fin NOFILE)
    (entry : Option FilePtr) (live : entry = none ∨ d.kind p ≠ .unused ∧ d.kind p ≠ .zombie) :
    Accounted base (fun f => extra f + points f (d.ofile p fd) - points f entry)
      (d.setSlot p fd entry) := by
  constructor
  · intro f
    have counted := accounted.counted f
    have moved := holders_setSlot d p fd entry f
    change ((d.file f).ref : Int) = _
    omega
  · exact accounted.unused
  · exact accounted.sided
  · exact accounted.ends
  · exact accounted.pages
  · intro q dead fd'
    change update d.ofile p (update (d.ofile p) fd entry) q fd' = none
    by_cases here : q = p
    · subst here
      rw [update_self]
      rcases live with rfl | ⟨used, notZombie⟩
      · by_cases this : fd' = fd
        · rw [this, update_self]
        · rw [update_of_ne this]
          exact accounted.empty q dead fd'
      · exact absurd dead (not_or.mpr ⟨used, notZombie⟩)
    · rw [update_of_ne here]
      exact accounted.empty q dead fd'

/-- A process changes its kind; if it is out of use then, it has no descriptors. -/
theorem Accounted.setKind (accounted : Accounted base extra d) {p : ProcPtr} {kind : Kind}
    (empty : kind = .unused ∨ kind = .zombie → ∀ fd, d.ofile p fd = none) :
    Accounted base extra (d.setKind p kind) where
  counted := accounted.counted
  unused := accounted.unused
  sided := accounted.sided
  ends := accounted.ends
  pages := accounted.pages
  empty q dead fd := by
    change d.ofile q fd = none
    change update d.kind p kind q = _ ∨ update d.kind p kind q = _ at dead
    by_cases here : q = p
    · subst here
      rw [update_self] at dead
      exact empty dead fd
    · rw [update_of_ne here] at dead
      exact accounted.empty q dead fd

theorem isEnd_eq_one {page : Nat} {readable : Bool} {handle : Handle}
    (end_ : handle.pipe = some ⟨page, readable, !readable⟩) : isEnd page readable handle = 1 :=
  if_pos end_

theorem isEnd_eq_zero {page : Nat} {readable : Bool} {handle : Handle}
    (other : handle.pipe ≠ some ⟨page, readable, !readable⟩) : isEnd page readable handle = 0 :=
  if_neg other

theorem isEnd_idle {page : Nat} {readable : Bool} {handle : Handle} (idle : handle.pipe = none) :
    isEnd page readable handle = 0 := by
  apply isEnd_eq_zero
  rw [idle]
  nofun

theorem isEnd_other {page p : Nat} {readable r : Bool} {handle : Handle}
    (end_ : handle.pipe = some ⟨page, readable, !readable⟩) (other : p = page → r ≠ readable) :
    isEnd p r handle = 0 := by
  apply isEnd_eq_zero
  rw [end_]
  intro same
  cases same
  exact other rfl rfl

section

variable (accounted : Accounted base extra d)

include accounted

/-- An open end is behind some file, and a closed one behind none. -/
theorem Accounted.opened {f : FilePtr} {p : Nat} {readable : Bool}
    (end_ : (d.file f).pipe = some ⟨p, readable, !readable⟩) : d.opened p readable = true := by
  have some : isEnd p readable (d.file f) ≤ total (isEnd p readable) d.file :=
    measure_le_total (isEnd p readable) d.file f
  rw [isEnd_eq_one end_, accounted.ends p readable] at some
  by_contra closed
  rw [Bool.not_eq_true] at closed
  simp [closed] at some

/-- The fields of the invariant that `setFile` to a file without a pipe leaves in order. -/
theorem Accounted.forget (f g : FilePtr) :
    ((update d.file f ⟨0, none⟩ g).ref = 0 →
        (update d.file f ⟨0, none⟩ g).pipe = none) ∧
      ∀ e, (update d.file f ⟨0, none⟩ g).pipe = some e → e.writable = !e.readable := by
  by_cases here : g = f
  · subst here
    rw [update_self]
    exact ⟨fun _ => rfl, nofun⟩
  · rw [update_of_ne here]
    exact ⟨accounted.unused g, accounted.sided g⟩

/-- The last reference to one end of a pipe goes. -/
theorem Accounted.shut {f : FilePtr} {page : Nat} {readable : Bool}
    (end_ : (d.file f).pipe = some ⟨page, readable, !readable⟩) (last : (d.file f).ref = 1) :
    Accounted base (extra + Pi.single f (-1)) ((d.setFile f ⟨0, none⟩).shut page readable) := by
  have open_ := accounted.opened end_
  constructor
  · intro g
    change ((update d.file f ⟨0, none⟩ g).ref : Int) = holders d g + _
    have counted := accounted.counted g
    by_cases here : g = f
    · subst here
      rw [update_self, Pi.add_apply, Pi.single_eq_same]
      change (0 : Int) = _
      omega
    · rw [update_of_ne here, Pi.add_apply, Pi.single_eq_of_ne here]
      omega
  · exact fun g => (accounted.forget f g).1
  · exact fun g => (accounted.forget f g).2
  · intro p r
    change total (isEnd p r) (update d.file f ⟨0, none⟩) =
      (update d.opened page (update (d.opened page) readable false) p r).toNat
    have updated := total_update (isEnd p r) d.file f ⟨0, none⟩
    have gone : isEnd p r ⟨0, none⟩ = 0 := isEnd_idle rfl
    rw [gone, accounted.ends p r] at updated
    by_cases here : p = page
    · subst here
      rw [update_self]
      by_cases side : r = readable
      · subst side
        rw [isEnd_eq_one end_, open_] at updated
        rw [update_self]
        change _ + 1 = 1 + 0 at updated
        change _ = 0
        omega
      · rw [isEnd_other end_ fun _ => side] at updated
        rw [update_of_ne side]
        omega
    · rw [isEnd_other end_ fun same => absurd same here] at updated
      rw [update_of_ne here]
      omega
  · intro p
    change base p + balance p (if d.opened page (!readable) then d.pages else .kfree page :: d.pages)
      = if update d.opened page (update (d.opened page) readable false) p true ||
          update d.opened page (update (d.opened page) readable false) p false
        then 1 else 0
    have pages := accounted.pages p
    by_cases here : p = page
    · subst here
      rw [update_self]
      have was : (d.opened p true || d.opened p false) = true := by
        cases readable
        · rw [open_, Bool.or_true]
        · rw [open_, Bool.true_or]
      rw [was, if_pos rfl] at pages
      have now : (update (d.opened p) readable false true ||
          update (d.opened p) readable false false) = d.opened p (!readable) := by
        cases readable <;> simp
      rw [now]
      by_cases other : d.opened p (!readable) = true
      · rw [if_pos other, if_pos other]
        exact pages
      · rw [if_neg other, if_neg other, balance_kfree, if_pos rfl]
        omega
    · rw [update_of_ne here]
      split
      · exact pages
      · rw [balance_kfree, if_neg (Ne.symm here)]
        omega
  · exact accounted.empty

/-- Two files become the ends of a new pipe, on a page that no pipe has. -/
theorem Accounted.pipe {f0 f1 : FilePtr} {page : Nat} (other : f1 ≠ f0)
    (idle0 : (d.file f0).pipe = none) (idle1 : (d.file f1).pipe = none)
    (used0 : 0 < (d.file f0).ref) (used1 : 0 < (d.file f1).ref)
    (fresh : base page + balance page d.pages = 0) :
    Accounted base extra
      (((d.pipe page).setFile f0 ⟨(d.file f0).ref, some ⟨page, true, false⟩⟩).setFile f1
        ⟨(d.file f1).ref, some ⟨page, false, true⟩⟩) := by
  have closed : ∀ readable, d.opened page readable = false := by
    have pages := accounted.pages page
    rw [fresh] at pages
    have neither : (d.opened page true || d.opened page false) = false := by
      by_contra some
      rw [Bool.not_eq_false] at some
      rw [some, if_pos rfl] at pages
      omega
    rw [Bool.or_eq_false_iff] at neither
    intro readable
    cases readable
    · exact neither.2
    · exact neither.1
  have entry : ∀ g, g ≠ f0 → g ≠ f1 →
      update (update d.file f0 ⟨(d.file f0).ref, some ⟨page, true, false⟩⟩) f1
        ⟨(d.file f1).ref, some ⟨page, false, true⟩⟩ g = d.file g := by
    intro g not0 not1
    rw [update_of_ne not1, update_of_ne not0]
  have entry0 :
      update (update d.file f0 ⟨(d.file f0).ref, some ⟨page, true, false⟩⟩) f1
        ⟨(d.file f1).ref, some ⟨page, false, true⟩⟩ f0 =
          ⟨(d.file f0).ref, some ⟨page, true, false⟩⟩ := by
    rw [update_of_ne (Ne.symm other), update_self]
  have entry1 :
      update (update d.file f0 ⟨(d.file f0).ref, some ⟨page, true, false⟩⟩) f1
        ⟨(d.file f1).ref, some ⟨page, false, true⟩⟩ f1 =
          ⟨(d.file f1).ref, some ⟨page, false, true⟩⟩ := update_self ..
  constructor
  · intro g
    change ((update (update d.file f0 _) f1 _ g).ref : Int) = holders d g + extra g
    by_cases is1 : g = f1
    · rw [is1, entry1]
      exact accounted.counted f1
    · by_cases is0 : g = f0
      · rw [is0, entry0]
        exact accounted.counted f0
      · rw [entry g is0 is1]
        exact accounted.counted g
  · intro g
    change (update (update d.file f0 _) f1 _ g).ref = 0 →
      (update (update d.file f0 _) f1 _ g).pipe = none
    by_cases is1 : g = f1
    · rw [is1, entry1]
      exact fun none => absurd none used1.ne'
    · by_cases is0 : g = f0
      · rw [is0, entry0]
        exact fun none => absurd none used0.ne'
      · rw [entry g is0 is1]
        exact accounted.unused g
  · intro g e
    change (update (update d.file f0 _) f1 _ g).pipe = some e → _
    by_cases is1 : g = f1
    · rw [is1, entry1]
      rintro same
      cases same
      rfl
    · by_cases is0 : g = f0
      · rw [is0, entry0]
        rintro same
        cases same
        rfl
      · rw [entry g is0 is1]
        exact accounted.sided g e
  · intro p r
    change total (isEnd p r) (update (update d.file f0 _) f1 _) =
      (update d.opened page (fun _ => true) p r).toNat
    have first := total_update (isEnd p r) d.file f0 ⟨(d.file f0).ref, some ⟨page, true, false⟩⟩
    have second := total_update (isEnd p r)
      (update d.file f0 ⟨(d.file f0).ref, some ⟨page, true, false⟩⟩) f1
      ⟨(d.file f1).ref, some ⟨page, false, true⟩⟩
    rw [isEnd_idle idle0, accounted.ends p r] at first
    rw [update_of_ne other, isEnd_idle idle1] at second
    by_cases here : p = page
    · subst here
      rw [closed r] at first
      rw [update_self]
      cases r
      · rw [isEnd_eq_zero (by simp)] at first
        rw [isEnd_eq_one rfl] at second
        change _ = 0 + 0 at first
        change _ = 1
        omega
      · rw [isEnd_eq_one rfl] at first
        rw [isEnd_eq_zero (by simp)] at second
        change _ = 0 + 1 at first
        change _ = 1
        omega
    · rw [update_of_ne here]
      rw [isEnd_eq_zero (by simp [Ne.symm here])] at first
      rw [isEnd_eq_zero (by simp [Ne.symm here])] at second
      omega
  · intro p
    change base p + balance p (.kalloc page :: d.pages) =
      if update d.opened page (fun _ => true) p true ||
        update d.opened page (fun _ => true) p false then 1 else 0
    have pages := accounted.pages p
    rw [balance_kalloc]
    by_cases here : p = page
    · subst here
      rw [update_self, if_pos rfl]
      change _ = 1
      omega
    · rw [update_of_ne here, if_neg (Ne.symm here)]
      omega
  · exact accounted.empty

end

end Xv6.Files
