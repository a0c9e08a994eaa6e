import JkxyKernel.Lib.DoublyLinked
import JkxyKernel.Lib.Machine

/-!
# Linked lists

`struct list` of `structure/list.c`: two sentinel nodes inside the structure, and nodes
from `kmalloc` between them.  A value that is `NULL` marks a sentinel, and ends every
loop.

The heap keeps the nodes that are allocated, so that the use of a freed node shows, and
their number, which bounds the loops.  An operation that allocates is given the address
`kmalloc` returns, or none.
-/

namespace JkxyKernel
namespace Structure

/-- A pointer to a node, other than `NULL`. -/
inductive NodePtr
  | first
  | last
  | node (n : Nat)
  deriving DecidableEq, Repr

/-- What goes wrong with a list. -/
inductive ListFault
  | freed
  | null
  /-- `kfree` of what `kmalloc` did not return. -/
  | badFree
  | hang
  deriving DecidableEq, Repr

/-- `struct list_node` -/
structure ListNode (α : Type) where
  value : Option α
  prev : Option NodePtr
  next : Option NodePtr

/-- `struct list`, and the heap. -/
structure LinkedList (α : Type) where
  first : ListNode α
  last : ListNode α
  nodes : Nat → Option (ListNode α)
  allocated : Nat

/-- What the functions return. -/
inductive ListResult (α : Type)
  | ok
  /-- `-EINVAL` -/
  | inval
  /-- `-ENOMEM` -/
  | noMem
  /-- A value, or `NULL`. -/
  | value (v : Option α)
  /-- The entries that the extra code ran for, in order. -/
  | removed (vs : List α)
  deriving DecidableEq

namespace LinkedList

variable {α : Type}

/-- The node at an address. -/
def cell (l : LinkedList α) : NodePtr → Option (ListNode α)
  | .first => some l.first
  | .last => some l.last
  | .node n => l.nodes n

/-- A node is written. -/
def store (l : LinkedList α) (p : NodePtr) (c : ListNode α) : LinkedList α :=
  match p with
  | .first => { l with first := c }
  | .last => { l with last := c }
  | .node n => { l with nodes := Function.update l.nodes n (some c) }

/-- `*p` -/
def deref (l : LinkedList α) (p : Option NodePtr) : Except ListFault (NodePtr × ListNode α) :=
  match p with
  | none => .error .null
  | some p =>
      match l.cell p with
      | none => .error .freed
      | some c => .ok (p, c)

/-- `p->prev = v` -/
def setPrev (l : LinkedList α) (p v : Option NodePtr) : Except ListFault (LinkedList α) := do
  let (p, c) ← l.deref p
  return l.store p { c with prev := v }

/-- `p->next = v` -/
def setNext (l : LinkedList α) (p v : Option NodePtr) : Except ListFault (LinkedList α) := do
  let (p, c) ← l.deref p
  return l.store p { c with next := v }

/-- `kfree(p)` -/
def free (l : LinkedList α) (p : Option NodePtr) : Except ListFault (LinkedList α) := do
  match ← l.deref p with
  | (.node n, _) =>
      return { l with nodes := Function.update l.nodes n none, allocated := l.allocated - 1 }
  | _ => .error .badFree

/-- `list_init` -/
def init (l : LinkedList α) : LinkedList α :=
  { l with
    first := { value := none, prev := none, next := some .last }
    last := { value := none, prev := some .first, next := none } }

/-- The end of the insertions: the node is filled in and its neighbours point at it. -/
def insertNode (l : LinkedList α) (n : Nat) (value : α) (prev next : Option NodePtr) :
    Except ListFault (LinkedList α) := do
  let l := l.store (.node n) { value := some value, prev := prev, next := next }
  let (_, node) ← l.deref (some (.node n))
  let l ← l.setNext node.prev (some (.node n))
  let (_, node) ← l.deref (some (.node n))
  l.setPrev node.next (some (.node n))

/-- The insertions: where the node goes is found once it is allocated. -/
def insertAt (l : LinkedList α) (value : Option α) (mem : Option Nat)
    (place : LinkedList α → Except ListFault (Option NodePtr × Option NodePtr)) :
    Except ListFault (ListResult α × LinkedList α) :=
  match value, mem with
  | none, _ => .ok (.inval, l)
  | some _, none => .ok (.noMem, l)
  | some v, some n => do
      let l := { l with allocated := l.allocated + 1 }
      let (prev, next) ← place l
      let l ← l.insertNode n v prev next
      return (.ok, l)

/-- `list_insert_front` -/
def insertFront (l : LinkedList α) (value : Option α) (mem : Option Nat) :
    Except ListFault (ListResult α × LinkedList α) :=
  l.insertAt value mem fun l => .ok (some .first, l.first.next)

/-- `list_insert_back` -/
def insertBack (l : LinkedList α) (value : Option α) (mem : Option Nat) :
    Except ListFault (ListResult α × LinkedList α) :=
  l.insertAt value mem fun l => .ok (l.last.prev, some .last)

/-- The loop of `list_insert_ordered`: the node behind which the value goes, and the one
that comes after it. -/
def findPlace (compare : α → α → Int) (v : α) (l : LinkedList α) :
    Nat → Option NodePtr → Except ListFault (Option NodePtr × Option NodePtr)
  | 0, _ => .error .hang
  | rounds + 1, prev => do
      let (_, c) ← l.deref prev
      let (_, c') ← l.deref c.next
      match c'.value with
      | some x =>
          if 0 < compare x v then findPlace compare v l rounds c.next
          else return (prev, c.next)
      | none => return (prev, c.next)

/-- `list_insert_ordered` -/
def insertOrdered (compare : α → α → Int) (l : LinkedList α) (value : Option α)
    (mem : Option Nat) : Except ListFault (ListResult α × LinkedList α) :=
  l.insertAt value mem fun l =>
    match value with
    | some v => findPlace compare v l (l.allocated + 1) (some .first)
    | none => .error .null

/-- `node->next->prev = node->prev` and `node->prev->next = node->next` -/
def unlink (l : LinkedList α) (node : Option NodePtr) : Except ListFault (LinkedList α) := do
  let (_, c) ← l.deref node
  let l ← l.setPrev c.next c.prev
  let (_, c) ← l.deref node
  l.setNext c.prev c.next

/-- The end of the pops: the node is taken out, and its value returned. -/
def popNode (l : LinkedList α) (node : Option NodePtr) :
    Except ListFault (ListResult α × LinkedList α) := do
  let l ← l.unlink node
  let (_, c) ← l.deref node
  let l ← l.free node
  return (.value c.value, l)

/-- `list_isempty` -/
def isEmpty (l : LinkedList α) : Bool :=
  l.first.next == some .last

/-- `list_pop_front` -/
def popFront (l : LinkedList α) : Except ListFault (ListResult α × LinkedList α) :=
  if l.first.next = some .last then .ok (.value none, l) else l.popNode l.first.next

/-- `list_pop_back` -/
def popBack (l : LinkedList α) : Except ListFault (ListResult α × LinkedList α) :=
  if l.first.next = some .last then .ok (.value none, l) else l.popNode l.last.prev

/-- The loop of `list_destroy`. -/
def destroyLoop : Nat → LinkedList α → Except ListFault (LinkedList α)
  | 0, _ => .error .hang
  | rounds + 1, l =>
      if l.isEmpty then .ok l
      else do
        let (_, l) ← l.popBack
        destroyLoop rounds l

/-- `list_destroy` -/
def destroy (l : LinkedList α) : Except ListFault (ListResult α × LinkedList α) := do
  let l ← destroyLoop (l.allocated + 1) l
  return (.ok, l)

/-- The loop of `list_remove_on_cond_extra`. -/
def removeLoop (cond : α → Bool) :
    Nat → LinkedList α → Option NodePtr → Except ListFault (List α × LinkedList α)
  | 0, _, _ => .error .hang
  | rounds + 1, l, node => do
      let (_, c) ← l.deref node
      match c.value with
      | none => return ([], l)
      | some entry =>
          if cond entry then do
            let l ← l.unlink node
            let l ← l.free node
            let (extras, l) ← removeLoop cond rounds l c.next
            return (entry :: extras, l)
          else removeLoop cond rounds l c.next

/-- `list_remove_on_cond_extra`, with extra code that does not touch the list. -/
def removeOnCondExtra (cond : α → Bool) (l : LinkedList α) :
    Except ListFault (ListResult α × LinkedList α) := do
  let (extras, l) ← removeLoop cond (l.allocated + 1) l l.first.next
  return (.removed extras, l)

/-- `list_remove`; no entry is `NULL`. -/
def remove [DecidableEq α] (l : LinkedList α) (value : Option α) :
    Except ListFault (ListResult α × LinkedList α) := do
  let (_, l) ← l.removeOnCondExtra fun entry => some entry = value
  return (.ok, l)

/-- A traversal along some links up to a node without a value: the nodes that are visited,
and where it ends. -/
def walk (link : ListNode α → Option NodePtr) (l : LinkedList α) :
    Nat → Option NodePtr → Except ListFault (List NodePtr × NodePtr)
  | 0, _ => .error .hang
  | rounds + 1, node => do
      let (p, c) ← l.deref node
      match c.value with
      | none => return ([], p)
      | some _ => do
          let (visited, stop) ← walk link l rounds (link c)
          return (p :: visited, stop)

/-- `list_for_each` -/
def forward (l : LinkedList α) : Except ListFault (List NodePtr × NodePtr) :=
  l.walk ListNode.next (l.allocated + 1) l.first.next

/-- The same from the other end. -/
def backward (l : LinkedList α) : Except ListFault (List NodePtr × NodePtr) :=
  l.walk ListNode.prev (l.allocated + 1) l.last.prev

end LinkedList
end Structure
end JkxyKernel
