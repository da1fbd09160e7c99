import Mathlib.Data.List.Nodup

/-!
# Doubly linked lists with a sentinel

The nodes are the elements of a type and one sentinel, `none`, before the first
and after the last of them. `Threads links list` says that following `next` from
the sentinel meets the elements of the list in order and `prev` in reverse order.
Taking an element out and putting one in front are the pointer assignments as
they are written in C; each is a lemma about `Threads`.
-/

namespace Linked

open List Function

variable {Element : Type}

/-- The pointers of the nodes. -/
structure Links (Element : Type) where
  next : Option Element → Option Element
  prev : Option Element → Option Element

/-- The pointers lead from a node through the elements of a list to a last node. -/
def Segment (pointer : Option Element → Option Element) :
    Option Element → List Element → Option Element → Prop
  | from_, [], last => pointer from_ = last
  | from_, element :: rest, last =>
    pointer from_ = some element ∧ Segment pointer (some element) rest last

/-- The node before the last one of a segment. -/
def tip : Option Element → List Element → Option Element
  | from_, [] => from_
  | _, element :: rest => tip (some element) rest

/-- The elements met from a node on, until the sentinel is reached. -/
def walk (pointer : Option Element → Option Element) : Nat → Option Element → List Element
  | 0, _ => []
  | _ + 1, none => []
  | fuel + 1, some element => element :: walk pointer fuel (pointer (some element))

variable {pointer : Option Element → Option Element} {from_ last target : Option Element}
  {element : Element} {list front back : List Element}

theorem segment_append :
    Segment pointer from_ (front ++ element :: back) last ↔
      Segment pointer from_ front (some element) ∧ Segment pointer (some element) back last := by
  induction front generalizing from_ with
  | nil => rfl
  | cons head rest ih =>
    change pointer from_ = some head ∧ Segment pointer (some head) (rest ++ element :: back) last ↔
      (pointer from_ = some head ∧ Segment pointer (some head) rest (some element)) ∧ _
    rw [ih, and_assoc]

/-- A walk along a closed segment meets its elements. -/
theorem walk_eq (closed : Segment pointer from_ list none) {fuel : Nat}
    (enough : list.length < fuel) : walk pointer fuel (pointer from_) = list := by
  induction list generalizing from_ fuel with
  | nil =>
    rw [show pointer from_ = none from closed]
    cases fuel <;> rfl
  | cons head rest ih =>
    obtain ⟨first, later⟩ := closed
    rw [first]
    cases fuel with
    | zero => exact absurd enough (Nat.not_lt_zero _)
    | succ fuel =>
      exact congrArg (head :: ·) (ih later (Nat.lt_of_succ_lt_succ enough))

theorem tip_append : tip from_ (front ++ [element]) = some element := by
  induction front generalizing from_ with
  | nil => rfl
  | cons head rest ih => exact ih

theorem tip_mem (from_ : Option Element) (list : List Element) :
    tip from_ list = from_ ∨ ∃ element ∈ list, tip from_ list = some element := by
  induction list generalizing from_ with
  | nil => exact .inl rfl
  | cons head rest ih =>
    right
    rcases ih (some head) with same | ⟨element, among, same⟩
    · exact ⟨head, mem_cons_self, same⟩
    · exact ⟨element, mem_cons_of_mem head among, same⟩

/-- The first pointer of a segment leads to the tip of the reversed one. -/
theorem pointer_eq_tip (closed : Segment pointer from_ list last) :
    pointer from_ = tip last list.reverse := by
  cases list with
  | nil => exact closed
  | cons head rest =>
    rw [reverse_cons, tip_append]
    exact closed.1

section Update

variable [DecidableEq Element]

/-- A pointer outside of a segment may change. -/
theorem Segment.update_of_ne {node : Option Element} (closed : Segment pointer from_ list last)
    (start : from_ ≠ node) (others : ∀ element ∈ list, some element ≠ node) :
    Segment (update pointer node target) from_ list last := by
  induction list generalizing from_ with
  | nil =>
    change update pointer node target from_ = last
    rw [Function.update_of_ne start]
    exact closed
  | cons head rest ih =>
    obtain ⟨first, later⟩ := closed
    constructor
    · rw [Function.update_of_ne start]
      exact first
    · apply ih later (others head mem_cons_self)
      exact fun element among => others element (mem_cons_of_mem head among)

/-- Changing the pointer of the tip leads the segment elsewhere. -/
theorem Segment.update_tip (target : Option Element) (closed : Segment pointer from_ list last)
    (start : ∀ element ∈ list, some element ≠ from_) (distinct : list.Nodup) :
    Segment (update pointer (tip from_ list) target) from_ list target := by
  induction list generalizing from_ with
  | nil => exact Function.update_self ..
  | cons head rest ih =>
    obtain ⟨first, later⟩ := closed
    rw [nodup_cons] at distinct
    have apart : ∀ element ∈ rest, some element ≠ some head := by
      intro element among same
      cases same
      exact distinct.1 among
    constructor
    · have other : from_ ≠ tip (some head) rest := by
        rcases tip_mem (some head) rest with same | ⟨element, among, same⟩
        · rw [same]
          exact (start head mem_cons_self).symm
        · rw [same]
          exact (start element (mem_cons_of_mem head among)).symm
      change update pointer (tip (some head) rest) target from_ = some head
      rw [Function.update_of_ne other]
      exact first
    · exact ih later apart distinct.2

/-- Leave out one element of a segment by changing the pointer before it. -/
theorem Segment.skip (closed : Segment pointer none (front ++ element :: back) none)
    (distinct : (front ++ element :: back).Nodup) :
    Segment (update pointer (tip none front) (pointer (some element))) none
      (front ++ back) none := by
  obtain ⟨before, after⟩ := segment_append.mp closed
  have parts := nodup_append.mp distinct
  have middle := nodup_cons.mp parts.2.1
  have redirected := before.update_tip (pointer (some element)) nofun parts.1
  cases back with
  | nil =>
    rw [show pointer (some element) = none from after] at redirected ⊢
    rw [append_nil]
    exact redirected
  | cons head rest =>
    obtain ⟨first, later⟩ := after
    rw [first] at redirected ⊢
    apply segment_append.mpr
    refine ⟨redirected, later.update_of_ne ?_ ?_⟩
    · rcases tip_mem none front with same | ⟨other, among, same⟩
      · rw [same]
        nofun
      · rw [same]
        rintro here
        cases here
        exact parts.2.2 head among head (by simp) rfl
    · intro other among
      rcases tip_mem none front with same | ⟨third, among', same⟩
      · rw [same]
        nofun
      · rw [same]
        rintro here
        cases here
        exact parts.2.2 other among' other (by simp [among]) rfl

/-! ## Lists -/

/-- The pointers thread the elements of a list, each once. -/
structure Threads (links : Links Element) (list : List Element) : Prop where
  nodup : list.Nodup
  next : Segment links.next none list none
  prev : Segment links.prev none list.reverse none

/-- `e->next->prev = e->prev; e->prev->next = e->next`. -/
def Links.unlink (links : Links Element) (element : Element) : Links Element :=
  let prev := Function.update links.prev (links.next (some element)) (links.prev (some element))
  { prev := prev
    next := Function.update links.next (prev (some element)) (links.next (some element)) }

/-- `e->next = head.next; e->prev = head; head.next->prev = e; head.next = e`. -/
def Links.insertHead (links : Links Element) (element : Element) : Links Element :=
  let next := Function.update links.next (some element) (links.next none)
  let prev := Function.update links.prev (some element) none
  { prev := Function.update prev (next none) (some element)
    next := Function.update next none (some element) }

variable {links : Links Element}

theorem Threads.unlink (threads : Threads links (front ++ element :: back)) :
    Threads (links.unlink element) (front ++ back) := by
  have reversed : (front ++ element :: back).reverse = back.reverse ++ element :: front.reverse := by
    simp
  have backward := threads.prev
  rw [reversed] at backward
  have distinct' : (back.reverse ++ element :: front.reverse).Nodup := by
    rw [← reversed]
    exact nodup_reverse.mpr threads.nodup
  have prev_eq : links.prev (some element) = tip none front := by
    have after := (segment_append.mp backward).2
    rw [pointer_eq_tip after, reverse_reverse]
  have next_eq : links.next (some element) = tip none back.reverse :=
    pointer_eq_tip (segment_append.mp threads.next).2
  have stays : links.next (some element) ≠ some element := by
    rw [next_eq]
    rcases tip_mem none back.reverse with same | ⟨other, among, same⟩
    · rw [same]
      nofun
    · rw [same]
      rintro here
      cases here
      have parts := nodup_append.mp threads.nodup
      exact (nodup_cons.mp parts.2.1).1 (mem_reverse.mp among)
  constructor
  · have parts := nodup_append.mp threads.nodup
    apply nodup_append.mpr
    refine ⟨parts.1, (nodup_cons.mp parts.2.1).2, fun a among b among' => ?_⟩
    exact parts.2.2 a among b (mem_cons_of_mem element among')
  · have kept : update links.prev (links.next (some element)) (links.prev (some element))
        (some element) = links.prev (some element) := Function.update_of_ne (Ne.symm stays) ..
    change Segment (update links.next (update links.prev
      (links.next (some element)) (links.prev (some element)) (some element))
        (links.next (some element))) none (front ++ back) none
    rw [kept, prev_eq]
    exact threads.next.skip threads.nodup
  · rw [reverse_append]
    change Segment (update links.prev (links.next (some element))
      (links.prev (some element))) none (back.reverse ++ front.reverse) none
    rw [next_eq]
    exact backward.skip distinct'

theorem Threads.insertHead (threads : Threads links list) (absent : element ∉ list) :
    Threads (links.insertHead element) (element :: list) := by
  have others : ∀ other ∈ list, some other ≠ some element := by
    intro other among same
    cases same
    exact absent among
  have apart : (none : Option Element) ≠ some element := nofun
  have first : update links.next (some element) (links.next none) none =
      links.next none := Function.update_of_ne apart ..
  constructor
  · exact nodup_cons.mpr ⟨absent, threads.nodup⟩
  · constructor
    · change update (update links.next (some element) (links.next none)) none
        (some element) none = some element
      exact Function.update_self ..
    · change Segment (update (update links.next (some element) (links.next none))
        none (some element)) (some element) list none
      have entry : update (update links.next (some element) (links.next none))
          none (some element) (some element) = links.next none := by
        rw [Function.update_of_ne (Ne.symm apart), Function.update_self]
      have start := threads.next
      cases list with
      | nil => exact entry.trans start
      | cons head rest =>
        obtain ⟨found, later⟩ := start
        have inner : Segment (update links.next (some element) (links.next none))
            (some head) rest none := by
          apply later.update_of_ne (others head mem_cons_self)
          exact fun other among => others other (mem_cons_of_mem head among)
        refine ⟨entry.trans found, inner.update_of_ne ?_ ?_⟩
        · nofun
        · intro _ _
          nofun
  · rw [reverse_cons]
    apply segment_append.mpr
    have tip_eq : links.next none = tip none list.reverse := pointer_eq_tip threads.next
    change Segment (update (update links.prev (some element) none)
        (update links.next (some element) (links.next none) none) (some element))
        none list.reverse (some element) ∧
      update (update links.prev (some element) none)
        (update links.next (some element) (links.next none) none) (some element)
          (some element) = none
    rw [first, tip_eq]
    constructor
    · have outside : Segment (update links.prev (some element) none) none list.reverse
          none := by
        apply threads.prev.update_of_ne apart
        exact fun other among => others other (mem_reverse.mp among)
      exact outside.update_tip _ nofun (nodup_reverse.mpr threads.nodup)
    · have other : some element ≠ tip none list.reverse := by
        rcases tip_mem none list.reverse with same | ⟨node, among, same⟩
        · rw [same]
          nofun
        · rw [same]
          exact (others node (mem_reverse.mp among)).symm
      rw [Function.update_of_ne other, Function.update_self]

/-- Putting elements in front one by one. -/
theorem Threads.insertHeads {added : List Element} (threads : Threads links list)
    (distinct : (added ++ list).Nodup) :
    Threads (added.foldl Links.insertHead links) (added.reverse ++ list) := by
  induction added generalizing links list with
  | nil => exact threads
  | cons head rest ih =>
    rw [cons_append] at distinct
    have absent : head ∉ list := fun among =>
      (nodup_cons.mp distinct).1 (mem_append_right rest among)
    rw [reverse_cons, append_assoc]
    exact ih (threads.insertHead absent) (nodup_middle.mpr distinct)

end Update

end Linked
