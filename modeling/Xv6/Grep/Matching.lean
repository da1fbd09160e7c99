import Mathlib.Computability.Language
import Xv6.User.Grep

/-!
# The language of a pattern

A pattern is a sequence of items, a character, `.`, or one of them with a star, perhaps
between the anchors `^` and `$`. `match` accepts the texts with a part in the language of
the items, at the ends that the anchors ask for.
-/

namespace Xv6.User

/-- A character or any one, once or any number of times. -/
inductive Item where
  | one (c : Byte)
  | star (c : Byte)
deriving DecidableEq, Repr

/-- A pattern: its items, and whether it has a final `$`. -/
structure Pattern where
  items : List Item
  atEnd : Bool
deriving DecidableEq, Repr

def Pattern.cons (item : Item) (pattern : Pattern) : Pattern :=
  { pattern with items := item :: pattern.items }

/-- The pattern behind a leading `^`, if there is one. -/
def Pattern.read : List Byte → Pattern
  | [] => ⟨[], false⟩
  | [c] => if c = dollar then ⟨[], true⟩ else ⟨[.one c], false⟩
  | c :: c' :: re => if c' = asterisk then .cons (.star c) (read re) else .cons (.one c) (read (c' :: re))

namespace Grep

open Computability List

/-- The one-byte texts that a character stands for. -/
def symbol (c : Byte) : Language Byte := {text | ∃ t, (c = dot ∨ c = t) ∧ text = [t]}

def language : Item → Language Byte
  | .one c => symbol c
  | .star c => (symbol c)∗

/-- The texts that begin with a text of the items, up to the end if there is a `$`. -/
def Begins (pattern : Pattern) (text : List Byte) : Prop :=
  ∃ mid post, text = mid ++ post ∧ mid ∈ (pattern.items.map language).prod ∧
    (pattern.atEnd = true → post = [])

variable {c t : Byte} {re text : List Byte} {pattern : Pattern}

/-- The texts that begin with a text of a language and go on as the pattern says. -/
theorem begins_cons (item : Item) : Begins (.cons item pattern) text ↔
    ∃ first rest, text = first ++ rest ∧ first ∈ language item ∧ Begins pattern rest := by
  simp only [Begins, Pattern.cons, map_cons, prod_cons, Language.mem_mul]
  constructor
  · rintro ⟨_, post, rfl, ⟨first, accepted, mid, within, rfl⟩, ends⟩
    exact ⟨first, mid ++ post, append_assoc .., accepted, mid, post, rfl, within, ends⟩
  · rintro ⟨first, _, rfl, accepted, mid, post, rfl, within, ends⟩
    exact ⟨first ++ mid, post, (append_assoc ..).symm, ⟨first, accepted, mid, within, rfl⟩, ends⟩

@[simp] theorem begins_one_nil : ¬Begins (.cons (.one c) pattern) [] := by
  rw [begins_cons]
  rintro ⟨first, rest, empty, ⟨t, -, rfl⟩, -⟩
  cases empty

@[simp] theorem begins_one_cons :
    Begins (.cons (.one c) pattern) (t :: text) ↔ (c = dot ∨ c = t) ∧ Begins pattern text := by
  rw [begins_cons]
  constructor
  · rintro ⟨first, rest, split, ⟨t', fits, rfl⟩, begins⟩
    cases split
    exact ⟨fits, begins⟩
  · rintro ⟨fits, begins⟩
    exact ⟨[t], text, rfl, ⟨t, fits, rfl⟩, begins⟩

theorem mem_star {run : List Byte} : run ∈ language (.star c) ↔
    run = [] ∨ ∃ first ∈ symbol c, ∃ rest ∈ language (.star c), first ++ rest = run := by
  have unfolded : 1 + symbol c * language (.star c) = language (.star c) :=
    Language.one_add_self_mul_kstar_eq_kstar (symbol c)
  conv_lhs => rw [← unfolded, Language.mem_add, Language.mem_one, Language.mem_mul]

/-- A star stands for nothing, or for one character and the star again. -/
theorem begins_star : Begins (.cons (.star c) pattern) text ↔
    Begins pattern text ∨ Begins (.cons (.one c) (.cons (.star c) pattern)) text := by
  rw [begins_cons, begins_cons]
  constructor
  · rintro ⟨run, rest, rfl, accepted, begins⟩
    rcases mem_star.mp accepted with rfl | ⟨first, one, run, star, rfl⟩
    · exact .inl begins
    · exact .inr ⟨first, run ++ rest, append_assoc .., one,
        (begins_cons _).mpr ⟨run, rest, rfl, star, begins⟩⟩
  · rintro (begins | ⟨first, rest, rfl, one, begins⟩)
    · exact ⟨[], text, rfl, mem_star.mpr (.inl rfl), begins⟩
    · obtain ⟨run, rest, rfl, star, begins⟩ := (begins_cons _).mp begins
      exact ⟨first ++ run, rest, (append_assoc ..).symm,
        mem_star.mpr (.inr ⟨first, one, run, star, rfl⟩), begins⟩

/-- The loop of `matchstar` tries one length after the other. -/
theorem matchstar_iff (here : ∀ text, matchhere re text = true ↔ Begins pattern text) :
    matchstar c re text = true ↔ Begins (.cons (.star c) pattern) text := by
  induction text with
  | nil => rw [matchstar, here, begins_star]; simp
  | cons t text ih =>
    rw [matchstar, begins_star, begins_one_cons, Bool.or_eq_true, Bool.and_eq_true, here, ih,
      decide_eq_true_eq, or_comm (a := t = c), eq_comm (a := t)]

theorem matchhere_iff (re text : List Byte) : matchhere re text = true ↔ Begins (.read re) text := by
  induction re using Pattern.read.induct generalizing text with
  | case1 => simp [matchhere, Pattern.read, Begins, Language.mem_one]
  | case2 =>
    unfold matchhere
    simp [Pattern.read, Begins, Language.mem_one]
  | case3 c other =>
    have one : Pattern.read [c] = .cons (.one c) ⟨[], false⟩ := by simp [Pattern.read, other, Pattern.cons]
    have rest : ∀ text, Begins ⟨[], false⟩ text := fun text => ⟨[], text, by simp [Language.mem_one]⟩
    rw [one]
    unfold matchhere
    cases text with
    | nil => simp [other]
    | cons t text => simp [other, rest]
  | case4 c re ih =>
    unfold matchhere
    simp only [Pattern.read, if_true]
    exact matchstar_iff ih
  | case5 c c' re other ih =>
    unfold matchhere
    simp only [Pattern.read, other, if_false]
    cases text with
    | nil => simp
    | cons t text => simp [ih]

theorem matchFrom_iff : matchFrom re text = true ↔
    ∃ pre rest, text = pre ++ rest ∧ matchhere re rest = true := by
  induction text with
  | nil => simp [matchFrom, and_comm]
  | cons t text ih =>
    simp only [matchFrom, Bool.or_eq_true, ih]
    constructor
    · rintro (here | ⟨pre, rest, rfl, later⟩)
      · exact ⟨[], _, rfl, here⟩
      · exact ⟨t :: pre, rest, rfl, later⟩
    · rintro ⟨pre, rest, split, found⟩
      cases pre with
      | nil => exact .inl (split ▸ found)
      | cons => cases split; exact .inr ⟨_, rest, rfl, found⟩

/-- Is there a leading `^`? -/
def atStart (re : List Byte) : Prop := re.head? = some caret

instance (re : List Byte) : Decidable (atStart re) := inferInstanceAs (Decidable (_ = _))

/-- The pattern without its leading `^`. -/
def body (re : List Byte) : Pattern := .read (if atStart re then re.tail else re)

theorem matchText_iff : matchText re text = true ↔
    ∃ pre rest, text = pre ++ rest ∧ Begins (body re) rest ∧ (atStart re → pre = []) := by
  by_cases anchored : atStart re
  · obtain ⟨re, rfl⟩ : ∃ rest, re = caret :: rest := head?_eq_some_iff.mp anchored
    simp [matchText, matchhere_iff, body, atStart]
  · have searched : matchText re text = matchFrom re text := by
      cases re with
      | nil => rfl
      | cons c re => simp_all [matchText, atStart]
    simp [searched, matchFrom_iff, matchhere_iff, body, anchored]

/-- `match` is sound and complete for the language of the pattern. -/
theorem match_iff_language (re text : List Byte) : matchText re text = true ↔
    ∃ pre mid post, text = pre ++ mid ++ post ∧ mid ∈ ((body re).items.map language).prod ∧
      (atStart re → pre = []) ∧ ((body re).atEnd = true → post = []) := by
  rw [matchText_iff]
  constructor
  · rintro ⟨pre, _, rfl, ⟨mid, post, rfl, accepted, ends⟩, starts⟩
    exact ⟨pre, mid, post, (append_assoc ..).symm, accepted, starts, ends⟩
  · rintro ⟨pre, mid, post, rfl, accepted, starts, ends⟩
    exact ⟨pre, mid ++ post, append_assoc .., ⟨mid, post, rfl, accepted, ends⟩, starts⟩

end Grep

end Xv6.User
