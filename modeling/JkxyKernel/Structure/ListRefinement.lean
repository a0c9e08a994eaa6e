import JkxyKernel.Structure.LinkedList
import Mathlib.Data.List.Nodup

/-!
# Linked lists as sequences

A list represents a sequence of values when its nodes, between the sentinels, are linked
and carry these values, and the sentinels carry none (`Rep`).  Every operation is described
by what it does at one place of the sequence: a node is put in between the nodes before and
after that place, or the node at that place is taken out.  The loops keep a place in the
sequence and move it along.

The machine at the end runs any operations next to the sequence they stand for.
-/

namespace JkxyKernel
namespace Structure
namespace LinkedList

open DoublyLinked

variable {α : Type}

/-- The `next` of the node at an address. -/
def next (l : LinkedList α) (p : NodePtr) : Option NodePtr :=
  (l.cell p).bind ListNode.next

/-- The `prev` of the node at an address. -/
def prev (l : LinkedList α) (p : NodePtr) : Option NodePtr :=
  (l.cell p).bind ListNode.prev

/-- The value of the node at an address. -/
def value (l : LinkedList α) (p : NodePtr) : Option α :=
  (l.cell p).bind ListNode.value

/-- The nodes with the sentinels around them. -/
def ptrs (ns : List Nat) : List NodePtr :=
  .first :: (ns.map .node ++ [.last])

/-- What stands before the place behind some nodes. -/
def before (ns : List Nat) : NodePtr :=
  (ns.map NodePtr.node).getLastD .first

/-- What stands after the place in front of some nodes. -/
def after (ns : List Nat) : NodePtr :=
  (ns.map NodePtr.node).headD .last

/-- The list represents a sequence of values, at some nodes. -/
structure Rep (l : LinkedList α) (ns : List Nat) (xs : List α) : Prop where
  linked : Linked l.next l.prev (ptrs ns)
  nodup : ns.Nodup
  values : ns.map (fun n => l.value (.node n)) = xs.map some
  first_value : l.value .first = none
  last_value : l.value .last = none
  length_le : ns.length ≤ l.allocated

section Cells

variable {l l' : LinkedList α} {p p' : NodePtr} {c : ListNode α} {v : Option NodePtr} {n : Nat}

theorem cell_store : (l.store p c).cell p' = if p' = p then some c else l.cell p' := by
  cases p with
  | first => cases p' <;> simp [store, cell]
  | last => cases p' <;> simp [store, cell]
  | node n =>
      cases p' with
      | first => simp [store, cell]
      | last => simp [store, cell]
      | node n' =>
          by_cases h : n' = n
          · subst h
            simp [store, cell]
          · simp [store, cell, h]

theorem next_store : (l.store p c).next = Function.update l.next p c.next := by
  funext p'
  by_cases h : p' = p
  · subst h
    simp [next, cell_store]
  · simp [next, cell_store, h]

theorem prev_store : (l.store p c).prev = Function.update l.prev p c.prev := by
  funext p'
  by_cases h : p' = p
  · subst h
    simp [prev, cell_store]
  · simp [prev, cell_store, h]

theorem value_store : (l.store p c).value = Function.update l.value p c.value := by
  funext p'
  by_cases h : p' = p
  · subst h
    simp [value, cell_store]
  · simp [value, cell_store, h]

@[simp] theorem allocated_store : (l.store p c).allocated = l.allocated := by
  cases p <;> rfl

/-- A node is allocated if something can be read from it. -/
def Live (l : LinkedList α) (p : NodePtr) : Prop :=
  ∃ c, l.cell p = some c

theorem Live.of_next (h : l.next p = some p') : l.Live p := by
  cases hc : l.cell p with
  | none => simp [next, hc] at h
  | some c => exact ⟨c, hc⟩

theorem Live.of_prev (h : l.prev p = some p') : l.Live p := by
  cases hc : l.cell p with
  | none => simp [prev, hc] at h
  | some c => exact ⟨c, hc⟩

/-- What is read from an allocated node. -/
theorem Live.deref (h : l.Live p) :
    ∃ c, l.deref (some p) = .ok (p, c) ∧ l.next p = c.next ∧ l.prev p = c.prev ∧
      l.value p = c.value := by
  obtain ⟨c, hc⟩ := h
  exact ⟨c, by simp [LinkedList.deref, hc], by simp [next, hc], by simp [prev, hc],
    by simp [value, hc]⟩

/-- A write to a link of a node: everything else stays. -/
structure Wrote (l l' : LinkedList α) : Prop where
  value : l'.value = l.value
  allocated : l'.allocated = l.allocated
  live : ∀ p, l.Live p → l'.Live p

theorem Live.setPrev (h : l.Live p) :
    ∃ l', l.setPrev (some p) v = .ok l' ∧ l'.next = l.next ∧
      l'.prev = Function.update l.prev p v ∧ Wrote l l' := by
  obtain ⟨c, hderef, hnext, -, hvalue⟩ := h.deref
  refine ⟨l.store p { c with prev := v }, ?_, ?_, ?_, ?_, allocated_store, ?_⟩
  · simp [LinkedList.setPrev, hderef, bind, Except.bind, pure, Except.pure]
  · rw [next_store]
    exact Function.update_eq_self_iff.mpr hnext.symm
  · rw [prev_store]
  · rw [value_store]
    exact Function.update_eq_self_iff.mpr hvalue.symm
  · rintro p' ⟨c', hc'⟩
    by_cases heq : p' = p
    · exact ⟨_, by rw [cell_store, if_pos heq]⟩
    · exact ⟨c', by rw [cell_store, if_neg heq, hc']⟩

theorem Live.setNext (h : l.Live p) :
    ∃ l', l.setNext (some p) v = .ok l' ∧ l'.prev = l.prev ∧
      l'.next = Function.update l.next p v ∧ Wrote l l' := by
  obtain ⟨c, hderef, -, hprev, hvalue⟩ := h.deref
  refine ⟨l.store p { c with next := v }, ?_, ?_, ?_, ?_, allocated_store, ?_⟩
  · simp [LinkedList.setNext, hderef, bind, Except.bind, pure, Except.pure]
  · rw [prev_store]
    exact Function.update_eq_self_iff.mpr hprev.symm
  · rw [next_store]
  · rw [value_store]
    exact Function.update_eq_self_iff.mpr hvalue.symm
  · rintro p' ⟨c', hc'⟩
    by_cases heq : p' = p
    · exact ⟨_, by rw [cell_store, if_pos heq]⟩
    · exact ⟨c', by rw [cell_store, if_neg heq, hc']⟩

/-- A node with both neighbours is taken out; it keeps its own links. -/
theorem unlink_ok
    {p q n : NodePtr} (hnext : l.next n = some q) (hprev : l.prev n = some p)
    (hp : l.Live p) (hq : l.Live q) (hqn : q ≠ n) :
    ∃ l', l.unlink (some n) = .ok l' ∧ l'.next = Function.update l.next p (some q) ∧
      l'.prev = Function.update l.prev q (some p) ∧ Wrote l l' := by
  have hn : l.Live n := .of_next hnext
  obtain ⟨c, hderef, hcnext, hcprev, -⟩ := hn.deref
  obtain ⟨l₁, hl₁, hnext₁, hprev₁, hwrote₁⟩ := hq.setPrev (v := some p)
  obtain ⟨c₁, hderef₁, hcnext₁, hcprev₁, -⟩ := (hwrote₁.live n hn).deref
  obtain ⟨l₂, hl₂, hprev₂, hnext₂, hwrote₂⟩ := (hwrote₁.live p hp).setNext (v := some q)
  refine ⟨l₂, ?_, by rw [hnext₂, hnext₁], by rw [hprev₂, hprev₁],
    hwrote₂.value.trans hwrote₁.value, hwrote₂.allocated.trans hwrote₁.allocated,
    fun p' hp' => hwrote₂.live p' (hwrote₁.live p' hp')⟩
  rw [hnext] at hcnext
  rw [hprev] at hcprev
  rw [hnext₁, hnext] at hcnext₁
  rw [hprev₁, Function.update_of_ne (Ne.symm hqn), hprev] at hcprev₁
  simp only [LinkedList.unlink, hderef, bind, Except.bind, ← hcnext, ← hcprev, hl₁, hderef₁,
    ← hcnext₁, ← hcprev₁, hl₂]

/-- An allocated node is given back. -/
theorem free_ok (hn : l.Live (.node n)) :
    ∃ l', l.free (some (.node n)) = .ok l' ∧
      l'.next = Function.update l.next (.node n) none ∧
      l'.prev = Function.update l.prev (.node n) none ∧
      l'.value = Function.update l.value (.node n) none ∧
      l'.allocated = l.allocated - 1 := by
  obtain ⟨c, hderef, -⟩ := hn.deref
  let l' : LinkedList α :=
    { l with nodes := Function.update l.nodes n none, allocated := l.allocated - 1 }
  have hcell : ∀ p, l'.cell p = if p = .node n then none else l.cell p := by
    intro p
    cases p with
    | first => simp [l', cell]
    | last => simp [l', cell]
    | node m =>
        by_cases h : m = n
        · subst h
          simp [l', cell]
        · simp [l', cell, h]
  have hupdate : ∀ {β : Type} (field : ListNode α → Option β),
      (fun p => (l'.cell p).bind field) =
        Function.update (fun p => (l.cell p).bind field) (.node n) none := by
    intro β field
    funext p
    by_cases h : p = .node n
    · subst h
      simp [hcell]
    · simp [hcell, h]
  refine ⟨l', ?_, hupdate _, hupdate _, hupdate _, rfl⟩
  simp only [LinkedList.free, hderef, bind, Except.bind]
  rfl

/-- A fresh node is filled in and put between two others. -/
theorem insertNode_ok
    {p q : NodePtr} {x : α} (hp : l.Live p) (hq : l.Live q)
    (hpn : p ≠ .node n) (hqn : q ≠ .node n) :
    ∃ l', l.insertNode n x (some p) (some q) = .ok l' ∧
      l'.next = Function.update (Function.update l.next (.node n) (some q)) p
        (some (.node n)) ∧
      l'.prev = Function.update (Function.update l.prev (.node n) (some p)) q
        (some (.node n)) ∧
      l'.value = Function.update l.value (.node n) (some x) ∧
      l'.allocated = l.allocated := by
  obtain ⟨l₀, hl₀⟩ : ∃ l₀,
      l.store (.node n) { value := some x, prev := some p, next := some q } = l₀ := ⟨_, rfl⟩
  have hlive : ∀ p', p' ≠ .node n → l.Live p' → l₀.Live p' := by
    rintro p' hne ⟨c, hc⟩
    exact ⟨c, by rw [← hl₀, cell_store, if_neg hne, hc]⟩
  have hnode : l₀.Live (.node n) := ⟨_, by rw [← hl₀, cell_store, if_pos rfl]⟩
  have hnext₀ : l₀.next = Function.update l.next (.node n) (some q) := by
    rw [← hl₀, next_store]
  have hprev₀ : l₀.prev = Function.update l.prev (.node n) (some p) := by
    rw [← hl₀, prev_store]
  have hvalue₀ : l₀.value = Function.update l.value (.node n) (some x) := by
    rw [← hl₀, value_store]
  obtain ⟨c, hderef, -, hcprev, -⟩ := hnode.deref
  obtain ⟨l₁, hl₁, hprev₁, hnext₁, hwrote₁⟩ :=
    (hlive p hpn hp).setNext (v := some (.node n))
  obtain ⟨c₁, hderef₁, hcnext₁, -, -⟩ := (hwrote₁.live _ hnode).deref
  obtain ⟨l₂, hl₂, hnext₂, hprev₂, hwrote₂⟩ :=
    (hwrote₁.live q (hlive q hqn hq)).setPrev (v := some (.node n))
  rw [hprev₀, Function.update_self] at hcprev
  rw [hnext₁, hnext₀, Function.update_of_ne (Ne.symm hpn), Function.update_self] at hcnext₁
  refine ⟨l₂, ?_, by rw [hnext₂, hnext₁, hnext₀], by rw [hprev₂, hprev₁, hprev₀],
    by rw [hwrote₂.value, hwrote₁.value, hvalue₀],
    by rw [hwrote₂.allocated, hwrote₁.allocated, ← hl₀, allocated_store]⟩
  simp only [LinkedList.insertNode, bind, Except.bind, hl₀, hderef, ← hcprev, hl₁, hderef₁,
    ← hcnext₁, hl₂]

end Cells

/-! ### Places in a sequence -/

section Places

variable {l : LinkedList α} {ns as bs : List Nat} {xs ys : List α} {n : Nat} {x : α}

@[simp] theorem before_nil : before [] = .first := rfl

@[simp] theorem before_snoc : before (as ++ [n]) = .node n := by
  simp [before]

@[simp] theorem after_nil : after [] = .last := rfl

@[simp] theorem after_cons : after (n :: bs) = .node n := rfl

/-- A place splits the nodes; a node put there comes between the two around it. -/
theorem ptrs_split (as bs : List Nat) :
    ∃ front back, ptrs (as ++ bs) = front ++ before as :: after bs :: back ∧
      ∀ n, ptrs (as ++ n :: bs) = front ++ before as :: .node n :: after bs :: back := by
  have hfront : ∃ front, ∀ rest, NodePtr.first :: (as.map NodePtr.node ++ rest) =
      front ++ before as :: rest := by
    rcases List.eq_nil_or_concat as with rfl | ⟨init, a, rfl⟩
    · exact ⟨[], fun rest => rfl⟩
    · refine ⟨.first :: init.map .node, fun rest => ?_⟩
      simp [List.concat_eq_append]
  have hback : ∃ back, bs.map NodePtr.node ++ [NodePtr.last] = after bs :: back := by
    cases bs with
    | nil => exact ⟨[], rfl⟩
    | cons b bs => exact ⟨bs.map .node ++ [.last], rfl⟩
  obtain ⟨front, hfront⟩ := hfront
  obtain ⟨back, hback⟩ := hback
  refine ⟨front, back, ?_, fun n => ?_⟩
  · rw [ptrs, List.map_append, List.append_assoc, hfront, hback]
  · rw [ptrs, List.map_append, List.append_assoc, hfront, List.map_cons, List.cons_append,
      hback]

@[simp] theorem node_mem_ptrs : .node n ∈ ptrs ns ↔ n ∈ ns := by
  simp [ptrs]

theorem nodup_ptrs (h : ns.Nodup) : (ptrs ns).Nodup := by
  have hmap : (ns.map NodePtr.node).Nodup :=
    List.Nodup.map (fun a b hab => NodePtr.node.inj hab) h
  simp only [ptrs, List.nodup_cons, List.mem_append, List.mem_map, List.mem_singleton,
    List.nodup_append]
  refine ⟨by simp, hmap, by simp, ?_⟩
  rintro a ha b rfl rfl
  simp at ha

namespace Rep

/-- The links around a place. -/
theorem links (h : Rep l (as ++ bs) xs) :
    l.next (before as) = some (after bs) ∧ l.prev (after bs) = some (before as) := by
  obtain ⟨front, back, hsplit, -⟩ := ptrs_split as bs
  have hlinked := h.linked
  rw [hsplit] at hlinked
  exact hlinked.neighbours

theorem first_next (h : Rep l ns xs) : l.first.next = some (after ns) := by
  have h' : Rep l ([] ++ ns) xs := h
  exact h'.links.1

theorem last_prev (h : Rep l ns xs) : l.last.prev = some (before ns) := by
  have h' : Rep l (ns ++ []) xs := by rwa [List.append_nil]
  exact h'.links.2

theorem length_eq (h : Rep l ns xs) : ns.length = xs.length := by
  have hlen := congrArg List.length h.values
  rwa [List.length_map, List.length_map] at hlen

/-- The values before, at and behind a place. -/
theorem values_at (h : Rep l (as ++ n :: bs) (xs ++ x :: ys)) (hlen : as.length = xs.length) :
    as.map (fun n => l.value (.node n)) = xs.map some ∧ l.value (.node n) = some x ∧
      bs.map (fun n => l.value (.node n)) = ys.map some := by
  have hvalues := h.values
  rw [List.map_append, List.map_append, List.map_cons, List.map_cons] at hvalues
  obtain ⟨hfront, hrest⟩ := List.append_inj hvalues (by simp [hlen])
  obtain ⟨hx, hback⟩ := List.cons.inj hrest
  exact ⟨hfront, hx, hback⟩

theorem values_split (h : Rep l (as ++ bs) (xs ++ ys)) (hlen : as.length = xs.length) :
    as.map (fun n => l.value (.node n)) = xs.map some ∧
      bs.map (fun n => l.value (.node n)) = ys.map some := by
  have hvalues := h.values
  rw [List.map_append, List.map_append] at hvalues
  exact List.append_inj hvalues (by simp [hlen])

/-- A node with a value can be read. -/
theorem live_of_value {p : NodePtr} (h : l.value p = some x) : l.Live p := by
  cases hc : l.cell p with
  | none => simp [value, hc] at h
  | some c => exact ⟨c, hc⟩

/-- Values other than that of a node are the same after it is written. -/
theorem map_value_update
    {v : Option α} {f : NodePtr → Option α} (hn : n ∉ ns) :
    ns.map (fun m => Function.update f (.node n) v (.node m)) = ns.map (fun m => f (.node m)) := by
  refine List.map_congr_left fun m hm => ?_
  refine Function.update_of_ne ?_ _ _
  rintro heq
  cases heq
  exact hn hm

/-- A fresh node is put at a place. -/
theorem insert
    (h : Rep l (as ++ bs) (xs ++ ys)) (hlen : as.length = xs.length)
    (hfresh : l.nodes n = none) (x : α) :
    ∃ l', insertNode { l with allocated := l.allocated + 1 } n x (some (before as))
        (some (after bs)) = .ok l' ∧ Rep l' (as ++ n :: bs) (xs ++ x :: ys) := by
  obtain ⟨hnext, hprev⟩ := h.links
  obtain ⟨hfront, hback⟩ := h.values_split hlen
  have hnot : ∀ p, l.Live p → p ≠ .node n := by
    rintro p ⟨c, hc⟩ rfl
    simp [cell, hfresh] at hc
  have hp : l.Live (before as) := .of_next hnext
  have hq : l.Live (after bs) := .of_prev hprev
  have hmem : ∀ m ∈ as ++ bs, m ≠ n := by
    rintro m hm rfl
    have hvalue : l.value (.node m) ∈ (xs ++ ys).map some := by
      rw [← h.values]
      exact List.mem_map_of_mem hm
    obtain ⟨v, -, hv⟩ := List.mem_map.mp hvalue
    exact hnot _ (live_of_value hv.symm) rfl
  have hnas : n ∉ as := fun hm => hmem n (List.mem_append_left _ hm) rfl
  have hnbs : n ∉ bs := fun hm => hmem n (List.mem_append_right _ hm) rfl
  obtain ⟨l', hl', hnext', hprev', hvalue', hallocated'⟩ :=
    insertNode_ok (l := { l with allocated := l.allocated + 1 }) (n := n) (x := x) hp hq
      (hnot _ hp) (hnot _ hq)
  obtain ⟨front, back, hsplit, hsplit'⟩ := ptrs_split as bs
  refine ⟨l', hl', ?_⟩
  constructor
  · rw [hsplit', hnext', hprev']
    have hlinked := h.linked
    have hnodup := nodup_ptrs h.nodup
    rw [hsplit] at hlinked hnodup
    refine hlinked.insert hnodup ?_
    rw [← hsplit, node_mem_ptrs]
    exact fun hm => hmem n hm rfl
  · have hnodup := h.nodup
    rw [List.nodup_append] at hnodup ⊢
    obtain ⟨has, hbs, hdisjoint⟩ := hnodup
    refine ⟨has, List.nodup_cons.mpr ⟨hnbs, hbs⟩, fun a ha b hb => ?_⟩
    rcases List.mem_cons.mp hb with rfl | hb
    · exact hmem a (List.mem_append_left _ ha)
    · exact hdisjoint a ha b hb
  · rw [List.map_append, List.map_cons, List.map_append, List.map_cons, hvalue',
      map_value_update hnas, map_value_update hnbs, Function.update_self]
    exact congrArg₂ (· ++ ·) hfront (congrArg (some x :: ·) hback)
  · rw [hvalue', Function.update_of_ne (by simp)]
    exact h.first_value
  · rw [hvalue', Function.update_of_ne (by simp)]
    exact h.last_value
  · have hlength := h.length_le
    rw [hallocated']
    simp only [List.length_append, List.length_cons] at hlength ⊢
    omega

/-- The node at a place is taken out and given back; its value is there until then. -/
theorem remove
    (h : Rep l (as ++ n :: bs) (xs ++ x :: ys)) (hlen : as.length = xs.length) :
    ∃ l₁ l₂ c, l.unlink (some (.node n)) = .ok l₁ ∧
      l₁.deref (some (.node n)) = .ok (.node n, c) ∧ c.value = some x ∧
      l₁.free (some (.node n)) = .ok l₂ ∧ Rep l₂ (as ++ bs) (xs ++ ys) := by
  obtain ⟨hfront, hx, hback⟩ := h.values_at hlen
  obtain ⟨hnextP, hprevN⟩ := @links _ _ as (n :: bs) _ h
  have h' : Rep l ((as ++ [n]) ++ bs) (xs ++ x :: ys) := by
    rwa [List.append_assoc, List.singleton_append]
  obtain ⟨hnextN, hprevQ⟩ := h'.links
  rw [before_snoc] at hnextN hprevQ
  rw [after_cons] at hnextP hprevN
  obtain ⟨front, back, hsplit, hsplit'⟩ := ptrs_split as bs
  have hnodup := nodup_ptrs h.nodup
  rw [hsplit' n] at hnodup
  have hqn : after bs ≠ .node n := by
    rw [List.nodup_append, List.nodup_cons, List.nodup_cons] at hnodup
    intro heq
    exact hnodup.2.1.2.1 (by rw [heq]; exact List.mem_cons_self)
  obtain ⟨l₁, hl₁, hnext₁, hprev₁, hwrote⟩ :=
    unlink_ok hnextN hprevN (.of_next hnextP) (.of_prev hprevQ) hqn
  have hlive₁ := hwrote.live _ (live_of_value hx)
  obtain ⟨c, hderef, -, -, hc⟩ := hlive₁.deref
  obtain ⟨l₂, hl₂, hnext₂, hprev₂, hvalue₂, hallocated₂⟩ := free_ok hlive₁
  have hnodup' := h.nodup
  rw [List.nodup_append, List.nodup_cons] at hnodup'
  obtain ⟨has, ⟨hnbs, hbs⟩, hdisjoint⟩ := hnodup'
  have hnas : n ∉ as := fun hm => hdisjoint n hm n List.mem_cons_self rfl
  refine ⟨l₁, l₂, c, hl₁, hderef, by rw [← hc, hwrote.value, hx], hl₂, ?_⟩
  constructor
  · have hlinked := h.linked
    rw [hsplit' n] at hlinked
    have hunlinked := hlinked.unlink hnodup
    rw [← hnext₁, ← hprev₁, ← hsplit] at hunlinked
    have hout : NodePtr.node n ∉ ptrs (as ++ bs) := by
      rw [node_mem_ptrs, List.mem_append]
      exact not_or.mpr ⟨hnas, hnbs⟩
    refine hunlinked.congr (fun a ha => ?_) fun b hb => ?_
    · have hne : a ≠ .node n := fun heq => hout (heq ▸ List.dropLast_subset _ ha)
      rw [hnext₂, Function.update_of_ne hne]
    · have hne : b ≠ .node n := fun heq => hout (heq ▸ List.mem_of_mem_tail hb)
      rw [hprev₂, Function.update_of_ne hne]
  · rw [List.nodup_append]
    exact ⟨has, hbs, fun a ha b hb => hdisjoint a ha b (List.mem_cons_of_mem n hb)⟩
  · rw [List.map_append, List.map_append, hvalue₂, map_value_update hnas,
      map_value_update hnbs, hwrote.value]
    exact congrArg₂ (· ++ ·) hfront hback
  · rw [hvalue₂, Function.update_of_ne (by simp), hwrote.value]
    exact h.first_value
  · rw [hvalue₂, Function.update_of_ne (by simp), hwrote.value]
    exact h.last_value
  · have hlength := h.length_le
    rw [hallocated₂, hwrote.allocated]
    simp only [List.length_append, List.length_cons] at hlength ⊢
    omega

end Rep

end Places

/-! ### The loops -/

section Loops

variable {l : LinkedList α} {ns as bs : List Nat} {xs ys : List α} {n : Nat} {x : α}

namespace Rep

/-- The node behind a place can be read: it carries the value there, or is the sentinel. -/
theorem deref_after (h : Rep l (as ++ bs) (xs ++ ys)) (hlen : as.length = xs.length) :
    ∃ c, l.deref (some (after bs)) = .ok (after bs, c) ∧ c.value = ys.head? ∧
      ∀ b bs', bs = b :: bs' → c.next = some (after bs') := by
  have hlive : l.Live (after bs) := .of_prev h.links.2
  obtain ⟨c, hderef, hnext, -, hvalue⟩ := hlive.deref
  refine ⟨c, hderef, ?_, ?_⟩
  · rw [← hvalue]
    have hback := (h.values_split hlen).2
    cases bs with
    | nil =>
        have hnil : ys = [] := by
          cases ys with
          | nil => rfl
          | cons y ys => cases hback
        rw [hnil]
        exact h.last_value
    | cons b bs =>
        cases ys with
        | nil => cases hback
        | cons y ys => exact (List.cons.inj hback).1
  · rintro b bs' rfl
    have h' : Rep l ((as ++ [b]) ++ bs') (xs ++ ys) := by
      rwa [List.append_assoc, List.singleton_append]
    have hlinks := h'.links.1
    rw [before_snoc] at hlinks
    rw [← hnext]
    exact hlinks

/-- The search of `list_insert_ordered` goes on while the comparison is positive. -/
theorem findPlace_spec
    (compare : α → α → Int) (v : α) :
    ∀ (rounds : Nat) (as bs : List Nat) (xs ys : List α),
      Rep l (as ++ bs) (xs ++ ys) → as.length = xs.length → bs.length < rounds →
      ∃ cs ds, bs = cs ++ ds ∧ cs.length = (ys.takeWhile fun y => 0 < compare y v).length ∧
        findPlace compare v l rounds (some (before as)) =
          .ok (some (before (as ++ cs)), some (after ds)) := by
  intro rounds
  induction rounds with
  | zero => exact fun _ _ _ _ _ _ h => absurd h (Nat.not_lt_zero _)
  | succ rounds ih =>
      intro as bs xs ys h hlen hrounds
      obtain ⟨c, hderef, hnext, -, -⟩ := (Live.of_next h.links.1).deref
      rw [h.links.1] at hnext
      obtain ⟨c', hderef', hvalue', -⟩ := h.deref_after hlen
      simp only [findPlace, hderef, ← hnext, hderef', hvalue', bind, Except.bind]
      have hback := (h.values_split hlen).2
      cases ys with
      | nil => exact ⟨[], bs, rfl, rfl, by rw [List.append_nil]; rfl⟩
      | cons y ys =>
          simp only [List.head?_cons]
          split
          next hpos =>
            cases bs with
            | nil => cases hback
            | cons b bs =>
                have h' : Rep l ((as ++ [b]) ++ bs) ((xs ++ [y]) ++ ys) := by
                  rwa [List.append_assoc, List.append_assoc]
                obtain ⟨cs, ds, rfl, hcs, hfound⟩ :=
                  ih (as ++ [b]) bs (xs ++ [y]) ys h' (by simp [hlen])
                    (by rw [List.length_cons] at hrounds; omega)
                refine ⟨b :: cs, ds, rfl, ?_, ?_⟩
                · simp [hpos, hcs]
                · rw [before_snoc] at hfound
                  rw [after_cons, hfound, List.append_assoc]
                  rfl
          next hneg =>
            refine ⟨[], bs, rfl, ?_, by rw [List.append_nil]; rfl⟩
            simp [hneg]

/-- The loop of `list_remove_on_cond_extra` keeps its place while it takes nodes out. -/
theorem removeLoop_spec
    (cond : α → Bool) :
    ∀ (rounds : Nat) (l : LinkedList α) (as bs : List Nat) (xs ys : List α),
      Rep l (as ++ bs) (xs ++ ys) → as.length = xs.length → bs.length < rounds →
      ∃ l' cs, removeLoop cond rounds l (some (after bs)) = .ok (ys.filter cond, l') ∧
        Rep l' (as ++ cs) (xs ++ ys.filter fun y => !cond y) := by
  intro rounds
  induction rounds with
  | zero => exact fun _ _ _ _ _ _ _ h => absurd h (Nat.not_lt_zero _)
  | succ rounds ih =>
      intro l as bs xs ys h hlen hrounds
      obtain ⟨c, hderef, hvalue, hnext⟩ := h.deref_after hlen
      have hback := (h.values_split hlen).2
      simp only [removeLoop, hderef, bind, Except.bind]
      cases ys with
      | nil =>
          simp only [hvalue, List.head?_nil]
          exact ⟨l, bs, rfl, h⟩
      | cons y ys =>
          cases bs with
          | nil => cases hback
          | cons b bs =>
              rw [List.length_cons] at hrounds
              simp only [hvalue, List.head?_cons, hnext b bs rfl, after_cons]
              by_cases hcond : cond y = true
              · obtain ⟨l₁, l₂, -, hl₁, -, -, hl₂, hrep⟩ := h.remove hlen
                obtain ⟨l', cs, hloop, hrep'⟩ :=
                  ih l₂ as bs xs ys hrep hlen (by omega)
                refine ⟨l', cs, ?_, ?_⟩
                · simp only [hcond, if_true, hl₁, hl₂, hloop]
                  simp [hcond, pure, Except.pure]
                · simpa [hcond] using hrep'
              · have h' : Rep l ((as ++ [b]) ++ bs) ((xs ++ [y]) ++ ys) := by
                  rwa [List.append_assoc, List.append_assoc]
                obtain ⟨l', cs, hloop, hrep'⟩ :=
                  ih l (as ++ [b]) bs (xs ++ [y]) ys h' (by simp [hlen]) (by omega)
                refine ⟨l', b :: cs, ?_, ?_⟩
                · rw [if_neg hcond, hloop]
                  simp [hcond]
                · rw [List.append_assoc, List.append_assoc] at hrep'
                  simpa [hcond] using hrep'

/-- A pop takes out the node at a place. -/
theorem popNode_spec
    (h : Rep l (as ++ n :: bs) (xs ++ x :: ys)) (hlen : as.length = xs.length) :
    ∃ l', l.popNode (some (.node n)) = .ok (.value (some x), l') ∧
      Rep l' (as ++ bs) (xs ++ ys) := by
  obtain ⟨l₁, l₂, c, hl₁, hderef, hc, hl₂, hrep⟩ := h.remove hlen
  refine ⟨l₂, ?_, hrep⟩
  simp only [popNode, hl₁, hderef, hl₂, hc, bind, Except.bind]
  rfl

theorem isEmpty_iff (h : Rep l ns xs) : l.first.next = some .last ↔ ns = [] := by
  rw [h.first_next]
  cases ns with
  | nil => simp
  | cons n ns => simp

theorem popFront_spec (h : Rep l ns xs) :
    ∃ l' ns', l.popFront = .ok (.value xs.head?, l') ∧ Rep l' ns' xs.tail := by
  have hlen := h.length_eq
  cases ns with
  | nil =>
      have hnil : xs = [] := List.eq_nil_of_length_eq_zero hlen.symm
      subst hnil
      exact ⟨l, [], by simp [popFront, h.isEmpty_iff], h⟩
  | cons n ns =>
      cases xs with
      | nil => cases hlen
      | cons x xs =>
          obtain ⟨l', hpop, hrep⟩ := @popNode_spec _ _ [] _ [] _ _ _ h rfl
          refine ⟨l', ns, ?_, hrep⟩
          have hnext : l.first.next = some (.node n) := h.first_next
          simp only [popFront, hnext, hpop]
          simp

theorem popBack_spec (h : Rep l ns xs) :
    ∃ l' ns', l.popBack = .ok (.value xs.getLast?, l') ∧ Rep l' ns' xs.dropLast := by
  have hlen := h.length_eq
  rcases List.eq_nil_or_concat ns with rfl | ⟨init, n, rfl⟩
  · have hnil : xs = [] := List.eq_nil_of_length_eq_zero hlen.symm
    subst hnil
    exact ⟨l, [], by simp [popBack, h.isEmpty_iff], h⟩
  · rcases List.eq_nil_or_concat xs with rfl | ⟨front, x, rfl⟩
    · simp at hlen
    · rw [List.concat_eq_append] at h hlen ⊢
      rw [List.concat_eq_append] at h hlen
      obtain ⟨l', hpop, hrep⟩ := @popNode_spec _ _ _ [] _ [] _ _ h (by simpa using hlen)
      rw [List.append_nil, List.append_nil] at hrep
      refine ⟨l', init, ?_, by rwa [List.dropLast_concat]⟩
      have hprev := h.last_prev
      rw [before_snoc] at hprev
      have hne : ¬ l.first.next = some .last := by
        rw [h.isEmpty_iff]
        simp
      simp only [popBack, if_neg hne, hprev, hpop]
      simp

theorem destroyLoop_spec :
    ∀ (rounds : Nat) (l : LinkedList α) (ns : List Nat) (xs : List α), Rep l ns xs →
      xs.length < rounds → ∃ l', destroyLoop rounds l = .ok l' ∧ Rep l' [] [] := by
  intro rounds
  induction rounds with
  | zero => exact fun _ _ _ _ h => absurd h (Nat.not_lt_zero _)
  | succ rounds ih =>
      intro l ns xs h hrounds
      simp only [destroyLoop, LinkedList.isEmpty, beq_iff_eq]
      split
      next hempty =>
        have hnil := h.isEmpty_iff.mp hempty
        subst hnil
        have hxs : xs = [] := List.eq_nil_of_length_eq_zero h.length_eq.symm
        subst hxs
        exact ⟨l, rfl, h⟩
      next hne =>
        obtain ⟨l₁, ns₁, hpop, hrep⟩ := h.popBack_spec
        have hpos : xs.length ≠ 0 := by
          intro hzero
          refine hne (h.isEmpty_iff.mpr (List.eq_nil_of_length_eq_zero ?_))
          rw [h.length_eq, hzero]
        simp only [hpop, bind, Except.bind]
        exact ih l₁ ns₁ xs.dropLast hrep (by rw [List.length_dropLast]; omega)

/-- The walk forward visits the nodes in order and ends at the last sentinel. -/
theorem walk_next :
    ∀ (rounds : Nat) (as bs : List Nat) (xs ys : List α),
      Rep l (as ++ bs) (xs ++ ys) → as.length = xs.length → bs.length < rounds →
      l.walk ListNode.next rounds (some (after bs)) = .ok (bs.map .node, .last) := by
  intro rounds
  induction rounds with
  | zero => exact fun _ _ _ _ _ _ h => absurd h (Nat.not_lt_zero _)
  | succ rounds ih =>
      intro as bs xs ys h hlen hrounds
      obtain ⟨c, hderef, hvalue, hnext⟩ := h.deref_after hlen
      have hback := (h.values_split hlen).2
      simp only [walk, hderef, bind, Except.bind]
      cases bs with
      | nil =>
          have hnil : ys = [] := by
            cases ys with
            | nil => rfl
            | cons y ys => cases hback
          subst hnil
          simp only [hvalue, List.head?_nil]
          rfl
      | cons b bs =>
          cases ys with
          | nil => cases hback
          | cons y ys =>
              have h' : Rep l ((as ++ [b]) ++ bs) ((xs ++ [y]) ++ ys) := by
                rwa [List.append_assoc, List.append_assoc]
              rw [List.length_cons] at hrounds
              have hrest := ih (as ++ [b]) bs (xs ++ [y]) ys h' (by simp [hlen]) (by omega)
              simp only [hvalue, List.head?_cons, hnext b bs rfl, hrest]
              rfl

/-- The walk backward visits them the other way and ends at the first sentinel. -/
theorem walk_prev :
    ∀ (rounds : Nat) (as bs : List Nat) (xs ys : List α),
      Rep l (as ++ bs) (xs ++ ys) → as.length = xs.length → as.length < rounds →
      l.walk ListNode.prev rounds (some (before as)) =
        .ok ((as.map .node).reverse, .first) := by
  intro rounds
  induction rounds with
  | zero => exact fun _ _ _ _ _ _ h => absurd h (Nat.not_lt_zero _)
  | succ rounds ih =>
      intro as bs xs ys h hlen hrounds
      obtain ⟨c, hderef, -, hprev, hvalue⟩ := (Live.of_next h.links.1).deref
      simp only [walk, hderef, bind, Except.bind]
      rcases List.eq_nil_or_concat as with rfl | ⟨init, a, rfl⟩
      · rw [before_nil, h.first_value] at hvalue
        simp only [← hvalue]
        rfl
      · rcases List.eq_nil_or_concat xs with rfl | ⟨front, x, rfl⟩
        · simp at hlen
        · rw [List.concat_eq_append, List.concat_eq_append, List.append_assoc,
            List.append_assoc] at h
          rw [List.concat_eq_append] at hrounds hprev hvalue ⊢
          simp only [List.concat_eq_append, List.length_append, List.length_singleton,
            Nat.add_right_cancel_iff] at hlen
          rw [before_snoc] at hprev hvalue ⊢
          rw [(h.values_at hlen).2.1] at hvalue
          have hlink : l.prev (.node a) = some (before init) :=
            (@links _ _ init (a :: bs) _ h).2
          rw [hlink] at hprev
          have hrest := ih init (a :: bs) front (x :: ys) h hlen (by
            rw [List.length_append, List.length_singleton] at hrounds
            omega)
          simp only [← hvalue, ← hprev, hrest]
          simp [pure, Except.pure]

theorem forward_spec (h : Rep l ns xs) : l.forward = .ok (ns.map .node, .last) := by
  rw [forward, h.first_next]
  exact walk_next _ [] ns [] xs h rfl (Nat.lt_succ_of_le h.length_le)

theorem backward_spec (h : Rep l ns xs) :
    l.backward = .ok ((ns.map .node).reverse, .first) := by
  have h' : Rep l (ns ++ []) (xs ++ []) := by rwa [List.append_nil, List.append_nil]
  rw [backward, h.last_prev]
  exact walk_prev _ ns [] xs [] h' h.length_eq (Nat.lt_succ_of_le h.length_le)

end Rep

end Loops

/-! ### Operations and the sequences they stand for -/

/-- The calls; an insertion comes with the answer of `kmalloc`. -/
inductive ListOp (α : Type)
  | init
  | insertFront (value : Option α) (mem : Option Nat)
  | insertBack (value : Option α) (mem : Option Nat)
  | insertOrdered (compare : α → α → Int) (value : Option α) (mem : Option Nat)
  | popFront
  | popBack
  | remove (value : Option α)
  | removeOnCondExtra (cond : α → Bool)
  | destroy

/-- An insertion, where the value is to be put by `f`. -/
def specInsert (f : α → List α) (xs : List α) (value : Option α) (mem : Option Nat) :
    ListResult α × List α :=
  match value, mem with
  | none, _ => (.inval, xs)
  | some _, none => (.noMem, xs)
  | some v, some _ => (.ok, f v)

/-- A sequence with a value before its first entry that does not compare greater. -/
def specOrdered (compare : α → α → Int) (xs : List α) (v : α) : List α :=
  (xs.takeWhile fun x => 0 < compare x v) ++ v :: xs.dropWhile fun x => 0 < compare x v

section Insertions

variable {l : LinkedList α} {ns : List Nat} {xs : List α}

theorem rep_init (l : LinkedList α) : Rep l.init [] [] where
  linked := by
    refine List.isChain_cons_cons.mpr ⟨⟨rfl, rfl⟩, .singleton _⟩
  nodup := List.nodup_nil
  values := rfl
  first_value := rfl
  last_value := rfl
  length_le := Nat.zero_le _

/-- An insertion puts its value at the place it finds. -/
theorem Rep.insertAt
    (h : Rep l ns xs) (value : Option α) (mem : Option Nat) (f : α → List α)
    (place : LinkedList α → Except ListFault (Option NodePtr × Option NodePtr))
    (hfresh : ∀ n, mem = some n → l.nodes n = none)
    (hplace : ∀ v, value = some v → ∃ as bs ys zs, ns = as ++ bs ∧ xs = ys ++ zs ∧
      as.length = ys.length ∧ f v = ys ++ v :: zs ∧
      place { l with allocated := l.allocated + 1 } =
        .ok (some (before as), some (after bs))) :
    ∃ l' ns', l.insertAt value mem place = .ok ((specInsert f xs value mem).1, l') ∧
      Rep l' ns' (specInsert f xs value mem).2 := by
  cases value with
  | none => exact ⟨l, ns, by simp [LinkedList.insertAt, specInsert], by simpa [specInsert] using h⟩
  | some v =>
      cases mem with
      | none => exact ⟨l, ns, rfl, h⟩
      | some n =>
          obtain ⟨as, bs, ys, zs, rfl, rfl, hlen, hf, hfound⟩ := hplace v rfl
          obtain ⟨l', hl', hrep⟩ := h.insert hlen (hfresh n rfl) v
          refine ⟨l', as ++ n :: bs, ?_, ?_⟩
          · simp only [LinkedList.insertAt, specInsert, hfound, hl', bind, Except.bind]
            rfl
          · simpa [specInsert, hf] using hrep

/-- A comparison function that orders: its sign turns with the arguments, and what is not
smaller is so transitively. -/
structure Orders (compare : α → α → Int) : Prop where
  turns : ∀ a b, compare a b ≤ 0 → 0 ≤ compare b a
  trans : ∀ a b c, 0 ≤ compare a b → 0 ≤ compare b c → 0 ≤ compare a c

/-- `list_insert_ordered` keeps a sequence in order. -/
theorem pairwise_specOrdered
    {compare : α → α → Int} (hcompare : Orders compare) (v : α)
    (hxs : xs.Pairwise fun a b => 0 ≤ compare a b) :
    (specOrdered compare xs v).Pairwise fun a b => 0 ≤ compare a b := by
  induction xs with
  | nil => simp [specOrdered]
  | cons x xs ih =>
      obtain ⟨hx, hrest⟩ := List.pairwise_cons.mp hxs
      by_cases hpos : 0 < compare x v
      · have hstep : specOrdered compare (x :: xs) v = x :: specOrdered compare xs v := by
          simp [specOrdered, hpos]
        rw [hstep, List.pairwise_cons]
        refine ⟨fun y hy => ?_, ih hrest⟩
        simp only [specOrdered, List.mem_append, List.mem_cons] at hy
        rcases hy with hy | rfl | hy
        · exact hx y ((List.takeWhile_subset _) hy)
        · exact Int.le_of_lt hpos
        · exact hx y ((List.dropWhile_subset _) hy)
      · have hstep : specOrdered compare (x :: xs) v = v :: x :: xs := by
          simp [specOrdered, hpos]
        have hvx : 0 ≤ compare v x := hcompare.turns x v (Int.not_lt.mp hpos)
        rw [hstep, List.pairwise_cons]
        refine ⟨fun y hy => ?_, hxs⟩
        rcases List.mem_cons.mp hy with rfl | hy
        · exact hvx
        · exact hcompare.trans v x y hvx (hx y hy)

end Insertions

variable [DecidableEq α]

/-- What a call does to the sequence. -/
def spec (xs : List α) : ListOp α → ListResult α × List α
  | .init => (.ok, [])
  | .insertFront value mem => specInsert (fun v => v :: xs) xs value mem
  | .insertBack value mem => specInsert (fun v => xs ++ [v]) xs value mem
  | .insertOrdered compare value mem => specInsert (specOrdered compare xs) xs value mem
  | .popFront => (.value xs.head?, xs.tail)
  | .popBack => (.value xs.getLast?, xs.dropLast)
  | .remove value => (.ok, xs.filter fun x => some x ≠ value)
  | .removeOnCondExtra cond => (.removed (xs.filter cond), xs.filter fun x => !cond x)
  | .destroy => (.ok, [])

/-- The call on the list. -/
def call (l : LinkedList α) : ListOp α → Except ListFault (ListResult α × LinkedList α)
  | .init => .ok (.ok, l.init)
  | .insertFront value mem => l.insertFront value mem
  | .insertBack value mem => l.insertBack value mem
  | .insertOrdered compare value mem => l.insertOrdered compare value mem
  | .popFront => l.popFront
  | .popBack => l.popBack
  | .remove value => l.remove value
  | .removeOnCondExtra cond => l.removeOnCondExtra cond
  | .destroy => l.destroy

/-- The address that `kmalloc` returns in a call. -/
def ListOp.mem : ListOp α → Option Nat
  | .insertFront _ mem | .insertBack _ mem | .insertOrdered _ _ mem => mem
  | _ => none

/-- A list, the sequence it should stand for, and the results of the latest call on both. -/
structure ListState (α : Type) where
  list : LinkedList α
  contents : List α
  result : ListResult α
  expected : ListResult α

/-- Any calls on a list; `kmalloc` returns an address that is not in use. -/
def listMachine (α : Type) [DecidableEq α] : Machine (ListState α) (ListOp α) ListFault where
  enabled op s := op.mem.all fun n => (s.list.nodes n).isNone
  exec op s :=
    match s.list.call op with
    | .ok (result, l) =>
        .ok { list := l, contents := (spec s.contents op).2, result := result
              expected := (spec s.contents op).1 }
    | .error e => .error e

/-- `list_init` has been called. -/
def Initialised (s : ListState α) : Prop :=
  (∃ l : LinkedList α, s.list = l.init) ∧ s.contents = [] ∧ s.result = s.expected

section Calls

variable {l : LinkedList α} {ns : List Nat} {xs : List α}

/-- Every call does to the list what it does to the sequence. -/
theorem Rep.call
    {op : ListOp α} (h : Rep l ns xs) (hfresh : ∀ n, op.mem = some n → l.nodes n = none) :
    ∃ l' ns', l.call op = .ok ((spec xs op).1, l') ∧ Rep l' ns' (spec xs op).2 := by
  cases op with
  | init => exact ⟨l.init, [], rfl, rep_init l⟩
  | insertFront value mem =>
      refine h.insertAt value mem (fun v => v :: xs) (fun l => .ok (some .first, l.first.next))
        hfresh fun v _ => ⟨[], ns, [], xs, rfl, rfl, rfl, rfl, ?_⟩
      rw [← h.first_next]
      rfl
  | insertBack value mem =>
      refine h.insertAt value mem (fun v => xs ++ [v]) (fun l => .ok (l.last.prev, some .last))
        hfresh fun v _ => ⟨ns, [], xs, [], (List.append_nil _).symm, (List.append_nil _).symm,
          h.length_eq, rfl, ?_⟩
      rw [← h.last_prev]
      rfl
  | insertOrdered compare value mem =>
      simp only [LinkedList.call, LinkedList.insertOrdered]
      refine h.insertAt value mem (specOrdered compare xs) _ hfresh fun v hv => ?_
      have hlonger : Rep { l with allocated := l.allocated + 1 } ([] ++ ns) ([] ++ xs) :=
        ⟨h.linked, h.nodup, h.values, h.first_value, h.last_value,
          Nat.le_succ_of_le h.length_le⟩
      obtain ⟨cs, ds, hns, hcs, hfound⟩ :=
        hlonger.findPlace_spec compare v (l.allocated + 1 + 1) [] ns [] xs rfl
          (Nat.lt_succ_of_le (Nat.le_succ_of_le h.length_le))
      refine ⟨cs, ds, _, _, hns, List.takeWhile_append_dropWhile.symm, hcs, rfl, ?_⟩
      subst hv
      exact hfound
  | popFront => exact h.popFront_spec
  | popBack => exact h.popBack_spec
  | remove value =>
      obtain ⟨l', cs, hloop, hrep⟩ :=
        removeLoop_spec (fun entry => decide (some entry = value)) _ l [] ns [] xs h rfl
          (Nat.lt_succ_of_le h.length_le)
      refine ⟨l', cs, ?_, ?_⟩
      · rw [← h.first_next] at hloop
        simp only [LinkedList.call, LinkedList.remove, removeOnCondExtra, hloop, bind,
          Except.bind]
        rfl
      · simpa [spec] using hrep
  | removeOnCondExtra cond =>
      obtain ⟨l', cs, hloop, hrep⟩ :=
        removeLoop_spec cond _ l [] ns [] xs h rfl (Nat.lt_succ_of_le h.length_le)
      refine ⟨l', cs, ?_, hrep⟩
      rw [← h.first_next] at hloop
      simp only [LinkedList.call, removeOnCondExtra, hloop, bind, Except.bind]
      rfl
  | destroy =>
      have hrounds : xs.length < l.allocated + 1 := by
        have := h.length_le
        rw [h.length_eq] at this
        omega
      obtain ⟨l', hl', hrep⟩ := destroyLoop_spec _ l ns xs h hrounds
      refine ⟨l', [], ?_, hrep⟩
      simp only [LinkedList.call, LinkedList.destroy, hl', bind, Except.bind]
      rfl

/-- A failing insertion changes nothing at all. -/
theorem call_failed
    {op : ListOp α} {l' : LinkedList α} {result : ListResult α}
    (hcall : l.call op = .ok (result, l')) (hfailed : result = .inval ∨ result = .noMem) :
    l' = l := by
  have hpop : ∀ node, l.popNode node = .ok (result, l') → ∃ v, result = .value v := by
    intro node hnode
    simp only [popNode, Machine.bind_eq_ok_iff] at hnode
    obtain ⟨l₁, -, ⟨p, c⟩, -, l₂, -, hret⟩ := hnode
    cases hret
    exact ⟨_, rfl⟩
  have hempty : ∀ v, result ≠ .value v := by
    rintro v rfl
    rcases hfailed with h | h <;> cases h
  have hinsert : ∀ value mem place, l.insertAt value mem place = .ok (result, l') → l' = l := by
    intro value mem place h
    match value, mem with
    | none, _ => cases h; rfl
    | some _, none => cases h; rfl
    | some v, some n =>
        simp only [LinkedList.insertAt, Machine.bind_eq_ok_iff] at h
        obtain ⟨⟨prev, next⟩, -, l₁, -, hret⟩ := h
        cases hret
        rcases hfailed with h | h <;> cases h
  cases op with
  | init => cases hcall; rcases hfailed with h | h <;> cases h
  | insertFront value mem =>
      simp only [LinkedList.call, LinkedList.insertFront] at hcall
      exact hinsert value mem _ hcall
  | insertBack value mem =>
      simp only [LinkedList.call, LinkedList.insertBack] at hcall
      exact hinsert value mem _ hcall
  | insertOrdered compare value mem =>
      simp only [LinkedList.call, LinkedList.insertOrdered] at hcall
      exact hinsert value mem _ hcall
  | popFront =>
      simp only [LinkedList.call, popFront] at hcall
      split at hcall
      · cases hcall
        exact absurd rfl (hempty _)
      · obtain ⟨v, hv⟩ := hpop _ hcall
        exact absurd hv (hempty v)
  | popBack =>
      simp only [LinkedList.call, popBack] at hcall
      split at hcall
      · cases hcall
        exact absurd rfl (hempty _)
      · obtain ⟨v, hv⟩ := hpop _ hcall
        exact absurd hv (hempty v)
  | remove value =>
      simp only [LinkedList.call, LinkedList.remove, Machine.bind_eq_ok_iff] at hcall
      obtain ⟨_, -, hret⟩ := hcall
      cases hret
      rcases hfailed with h | h <;> cases h
  | removeOnCondExtra cond =>
      simp only [LinkedList.call, removeOnCondExtra, Machine.bind_eq_ok_iff] at hcall
      obtain ⟨_, -, hret⟩ := hcall
      cases hret
      rcases hfailed with h | h <;> cases h
  | destroy =>
      simp only [LinkedList.call, LinkedList.destroy, Machine.bind_eq_ok_iff] at hcall
      obtain ⟨_, -, hret⟩ := hcall
      cases hret
      rcases hfailed with h | h <;> cases h

end Calls

/-- **Lists refine sequences.**  In every run of calls the list stands for its sequence:
the traversals visit the nodes of its values, one in the opposite order of the other, and
end at the sentinels; each call returns and leaves what it does on the sequence; no call
faults or hangs; a failed insertion changes nothing; and ordered insertion keeps an
ordered sequence ordered. -/
theorem list_refines
    {s : ListState α} (h : (listMachine α).Reach Initialised (fun _ _ => True) s) :
    (∃ ns : List Nat, s.list.forward = .ok (ns.map .node, .last) ∧
      s.list.backward = .ok ((ns.map .node).reverse, .first) ∧
      ns.map (fun n => s.list.value (.node n)) = s.contents.map some) ∧
    s.result = s.expected ∧
    (∀ op e, ¬ (listMachine α).Faults s op e) ∧
    (∀ op s', (listMachine α).Step s op s' → s'.result = .inval ∨ s'.result = .noMem →
      s'.list = s.list) ∧
    ∀ compare v, Orders compare → (s.contents.Pairwise fun a b => 0 ≤ compare a b) →
      (specOrdered compare s.contents v).Pairwise fun a b => 0 ≤ compare a b := by
  obtain ⟨⟨ns, hrep⟩, hresult⟩ :
      (∃ ns, Rep s.list ns s.contents) ∧ s.result = s.expected := by
    refine h.invariant
      (P := fun s => (∃ ns, Rep s.list ns s.contents) ∧ s.result = s.expected) ?_ ?_
    · rintro s ⟨⟨l, hl⟩, hcontents, hresult⟩
      exact ⟨⟨[], by rw [hl, hcontents]; exact rep_init l⟩, hresult⟩
    · rintro s op s' ⟨⟨ns, hrep⟩, -⟩ - ⟨hen, hex⟩
      have hfresh : ∀ n, op.mem = some n → s.list.nodes n = none := by
        intro n hn
        simpa [listMachine, hn] using hen
      obtain ⟨l', ns', hcall, hrep'⟩ := hrep.call hfresh
      simp only [listMachine, hcall] at hex
      cases hex
      exact ⟨⟨ns', hrep'⟩, rfl⟩
  refine ⟨⟨ns, hrep.forward_spec, hrep.backward_spec, hrep.values⟩, hresult, ?_, ?_,
    fun compare v hcompare hsorted => pairwise_specOrdered hcompare v hsorted⟩
  · rintro op e ⟨hen, hex⟩
    have hfresh : ∀ n, op.mem = some n → s.list.nodes n = none := by
      intro n hn
      simpa [listMachine, hn] using hen
    obtain ⟨l', ns', hcall, -⟩ := hrep.call hfresh
    simp only [listMachine, hcall] at hex
    cases hex
  · rintro op s' ⟨-, hex⟩ hfailed
    cases hcall : s.list.call op with
    | error e => simp [listMachine, hcall] at hex
    | ok r =>
        obtain ⟨result, l'⟩ := r
        simp only [listMachine, hcall] at hex
        cases hex
        exact call_failed hcall hfailed

/-- A list of numbers as the boot code leaves it. -/
def fresh : ListState Nat where
  list := LinkedList.init
    { first := ⟨none, none, none⟩, last := ⟨none, none, none⟩, nodes := fun _ => none
      allocated := 0 }
  contents := []
  result := .ok
  expected := .ok

/-- Three values, of which the last is taken out after one more could not be put in. -/
def someCalls : List (ListOp Nat) :=
  [.insertFront (some 5) (some 0), .insertBack (some 3) (some 1),
    .insertOrdered (fun x v => (x : Int) - v) (some 4) (some 2), .insertBack (some 7) none,
    .popBack]

theorem fresh_initialised : Initialised fresh :=
  ⟨⟨_, rfl⟩, rfl, rfl⟩

/-- What is left of the three values is visited in order. -/
theorem list_refines_someCalls :
    ∃ s, (listMachine Nat).runLabels someCalls fresh = some s ∧ s.contents = [5, 4] ∧
      s.result = .value (some 3) ∧
      ∃ ns : List Nat, s.list.forward = .ok (ns.map .node, .last) ∧
        s.list.backward = .ok ((ns.map .node).reverse, .first) := by
  obtain ⟨s, hrun, hcontents, hresult⟩ :
      ∃ s, (listMachine Nat).runLabels someCalls fresh = some s ∧ s.contents = [5, 4] ∧
        s.result = .value (some 3) := ⟨_, rfl, rfl, rfl⟩
  obtain ⟨⟨ns, hforward, hbackward, -⟩, -⟩ :=
    list_refines (.runLabels (.start fresh_initialised) hrun)
  exact ⟨s, hrun, hcontents, hresult, ns, hforward, hbackward⟩

end LinkedList
end Structure
end JkxyKernel
