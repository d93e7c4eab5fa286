import Mathlib.Data.List.Basic

/-!
# Lists of nodes with iterators

A `std::list` as its nodes in order, each with an address that no other one has, and an iterator as the address of the
node it stands at; `end()` stands at none.  Reading through an iterator, moving it on and erasing its node are
undefined when the node is not in the list, so for the iterator of a node that was erased.
-/

namespace NodeList

/-- An iterator, `none` for `end()`. -/
abbrev Iter := Option Nat

inductive ListFault where
  | invalidIterator
deriving DecidableEq, Repr

/-- Addresses and values in order. -/
structure Nodes (α : Type) where
  nodes : List (Nat × α)
  distinct : (nodes.map Prod.fst).Nodup

variable {α : Type}

/-- The iterator to the first of some nodes. -/
def first (l : List (Nat × α)) : Iter := l.head?.map Prod.fst

namespace Nodes

def values (l : Nodes α) : List α := l.nodes.map Prod.snd

def begin (l : Nodes α) : Iter := first l.nodes

def deref (l : Nodes α) : Iter → Except ListFault α
  | none => .error .invalidIterator
  | some a => match l.nodes.find? fun p => p.1 = a with
    | none => .error .invalidIterator
    | some p => .ok p.2

/-- `++itor` -/
def next (l : Nodes α) : Iter → Except ListFault Iter
  | none => .error .invalidIterator
  | some a => match l.nodes.dropWhile fun p => p.1 ≠ a with
    | [] => .error .invalidIterator
    | _ :: rest => .ok (first rest)

def remove (l : Nodes α) (a : Nat) : Nodes α where
  nodes := l.nodes.eraseP fun p => p.1 = a
  distinct := List.Nodup.sublist (List.eraseP_sublist.map Prod.fst) l.distinct

def erase (l : Nodes α) : Iter → Except ListFault (Nodes α)
  | none => .error .invalidIterator
  | some a => if (l.nodes.any fun p => p.1 = a) then .ok (l.remove a) else .error .invalidIterator

/-- The iterator of an erased node cannot be moved on. -/
example : ((Nodes.mk [(1, 'a'), (2, 'b'), (3, 'c')] (by decide)).erase (some 2)).toOption.map
    (fun l => (l.values, l.next (some 2))) = some (['a', 'c'], .error .invalidIterator) := by decide

section

variable {l : Nodes α} {pre post : List (Nat × α)} {a : Nat} {x : α}

private theorem not_before (h : l.nodes = pre ++ (a, x) :: post) : ∀ p ∈ pre, p.1 ≠ a := by
  intro p hp hpa
  have hdistinct := l.distinct
  rw [h, List.map_append, List.map_cons] at hdistinct
  exact (List.nodup_append.1 hdistinct).2.2 p.1 (List.mem_map_of_mem hp) a List.mem_cons_self hpa

theorem deref_at (h : l.nodes = pre ++ (a, x) :: post) : l.deref (some a) = .ok x := by
  have hfind : l.nodes.find? (fun p => p.1 = a) = some (a, x) := by
    rw [h, List.find?_append, List.find?_eq_none.2 (by simpa using not_before h)]
    simp
  simp only [deref, hfind]

theorem next_at (h : l.nodes = pre ++ (a, x) :: post) : l.next (some a) = .ok (first post) := by
  have hdrop : l.nodes.dropWhile (fun p => p.1 ≠ a) = (a, x) :: post := by
    rw [h, List.dropWhile_append_of_pos (by simpa using not_before h)]
    simp
  simp only [next, hdrop]

theorem remove_at (h : l.nodes = pre ++ (a, x) :: post) : (l.remove a).nodes = pre ++ post := by
  show l.nodes.eraseP _ = _
  rw [h, List.eraseP_append_right _ (by simpa using not_before h)]
  simp

theorem erase_at (h : l.nodes = pre ++ (a, x) :: post) : l.erase (some a) = .ok (l.remove a) := by
  simp [erase, h]

end

end Nodes

end NodeList
