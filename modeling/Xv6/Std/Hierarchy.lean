import Mathlib.Data.Set.Card

/-!
# Hierarchies of named nodes with link counts

Some nodes are directories. A directory has numbered slots, and a slot in use
holds a name and a node. Two names are reserved, for the directory itself and for
its parent; the plain names make up the hierarchy. Each node counts its links.
-/

/-- The root and the two reserved names. -/
structure Scheme (Node Name : Type) where
  root : Node
  self : Name
  parent : Name
  different : self ≠ parent

/-- Neither of the reserved names. -/
def Scheme.Plain {Node Name : Type} (scheme : Scheme Node Name) (name : Name) : Prop :=
  name ≠ scheme.self ∧ name ≠ scheme.parent

@[ext] structure Hierarchy (Node Name : Type) where
  used : Node → Prop
  directory : Node → Prop
  links : Node → Int
  entry : Node → Nat → Option (Name × Node)
  used_of_directory : ∀ {node}, directory node → used node
  directory_of_entry : ∀ {node slot}, entry node slot ≠ none → directory node

namespace Hierarchy

variable {Node Name : Type} (scheme : Scheme Node Name) (hierarchy : Hierarchy Node Name)

/-- A slot of a directory names a node. -/
def Names (dir : Node) (slot : Nat) (node : Node) : Prop :=
  ∃ name, hierarchy.entry dir slot = some (name, node) ∧ scheme.Plain name

/-- The slots of a directory that name directories. -/
def subdirectories (dir : Node) : Set Nat :=
  {slot | ∃ node, hierarchy.Names scheme dir slot node ∧ hierarchy.directory node}

variable {scheme} {hierarchy} {dir node : Node} {slot : Nat} {name : Name}

/-- Only directories have entries. -/
theorem directory_of_some (entry_eq : hierarchy.entry dir slot = some (name, node)) :
    hierarchy.directory dir := by
  refine @hierarchy.directory_of_entry dir slot ?_
  rw [entry_eq]
  exact Option.some_ne_none _

end Hierarchy
