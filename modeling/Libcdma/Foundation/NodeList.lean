/-
Doubly linked lists of nodes in a heap.

The links are two functions on addresses, and a list of addresses says which
nodes are linked and in which order.  Searching, pushing at the front and
unlinking are stated for any links that differ from the old ones as the
operation changes them, so that they apply to nodes with other fields.
-/

import Mathlib.Data.List.Nodup
import Mathlib.Logic.Function.Basic

namespace Libcdma.NodeList

variable {Addr : Type}

/-- The nodes reached from a first one, each with the link back to the one before. -/
def Linked (null : Addr) (next prev : Addr → Addr) : Addr → Addr → List Addr → Prop
  | _, first, [] => first = null
  | before, first, node :: rest =>
      first = node ∧ node ≠ null ∧ prev node = before ∧ Linked null next prev node (next node) rest

def walk [DecidableEq Addr] (null : Addr) (next : Addr → Addr) : Nat → Addr → List Addr
  | 0, _ => []
  | fuel + 1, node => if node = null then [] else node :: walk null next fuel (next node)

/-- The first wanted node, or none at the end of the list.  No fuel left means
that the search is still running. -/
def search [DecidableEq Addr] (null : Addr) (next : Addr → Addr) (wanted : Addr → Bool) :
    Nat → Addr → Option (Option Addr)
  | 0, _ => none
  | fuel + 1, node =>
      if node = null then some none
      else if wanted node then some (some node)
      else search null next wanted fuel (next node)

variable {null before first node : Addr} {next prev next' prev' : Addr → Addr}
  {order left right : List Addr}

theorem Linked.null_not_mem (linked : Linked null next prev before first order) :
    null ∉ order := by
  induction order generalizing before first with
  | nil => exact List.not_mem_nil
  | cons head rest ih =>
      obtain ⟨_, some, _, later⟩ := linked
      intro member
      rcases List.mem_cons.mp member with equal | inside
      · exact some equal.symm
      · exact ih later inside

theorem Linked.first_eq (linked : Linked null next prev before first order) :
    first = order.head?.getD null := by
  cases order with
  | nil => exact linked
  | cons head rest => exact linked.1

theorem walk_eq [DecidableEq Addr] (linked : Linked null next prev before first order) {fuel : Nat}
    (enough : order.length ≤ fuel) : walk null next fuel first = order := by
  induction order generalizing before first fuel with
  | nil =>
      cases linked
      cases fuel with
      | zero => rfl
      | succ fuel => rw [walk, if_pos rfl]
  | cons head rest ih =>
      obtain ⟨rfl, some, _, later⟩ := linked
      obtain ⟨fuel, rfl⟩ : ∃ below, fuel = below + 1 := ⟨fuel - 1, by simp at enough; omega⟩
      rw [walk, if_neg some, ih later (by simpa using enough)]

theorem search_eq [DecidableEq Addr] (linked : Linked null next prev before first order)
    (wanted : Addr → Bool) {fuel : Nat} (enough : order.length < fuel) :
    search null next wanted fuel first = some (order.find? wanted) := by
  induction order generalizing before first fuel with
  | nil =>
      cases linked
      obtain ⟨fuel, rfl⟩ : ∃ below, fuel = below + 1 := ⟨fuel - 1, by omega⟩
      rw [search, if_pos rfl, List.find?_nil]
  | cons head rest ih =>
      obtain ⟨rfl, some, _, later⟩ := linked
      obtain ⟨fuel, rfl⟩ : ∃ below, fuel = below + 1 := ⟨fuel - 1, by omega⟩
      rw [search, if_neg some, List.find?_cons]
      cases wanted first with
      | true => rfl
      | false => exact ih later (by simpa using enough)

theorem search_unique [DecidableEq Addr] (wanted : Addr → Bool) {fuel more : Nat}
    {found other : Option Addr} (ended : search null next wanted fuel first = some found)
    (again : search null next wanted more first = some other) : found = other := by
  induction fuel generalizing first more with
  | zero => cases ended
  | succ fuel ih =>
      cases more with
      | zero => cases again
      | succ more =>
          rw [search] at ended again
          by_cases atEnd : first = null
          · rw [if_pos atEnd] at ended again
            exact Option.some.inj (ended.symm.trans again)
          · rw [if_neg atEnd] at ended again
            cases here : wanted first with
            | true =>
                rw [here, if_pos rfl] at ended again
                exact Option.some.inj (ended.symm.trans again)
            | false =>
                rw [here, if_neg Bool.false_ne_true] at ended again
                exact ih ended again

theorem Linked.congr (linked : Linked null next prev before first order)
    (sameNext : ∀ other ∈ order, next' other = next other)
    (samePrev : ∀ other ∈ order, prev' other = prev other) :
    Linked null next' prev' before first order := by
  induction order generalizing before first with
  | nil => exact linked
  | cons head rest ih =>
      obtain ⟨starts, some, back, later⟩ := linked
      refine ⟨starts, some, (samePrev head List.mem_cons_self).trans back, ?_⟩
      rw [sameNext head List.mem_cons_self]
      exact ih later (fun other inside => sameNext other (List.mem_cons_of_mem _ inside))
        (fun other inside => samePrev other (List.mem_cons_of_mem _ inside))

theorem Linked.rebase (linked : Linked null next prev before first order) (distinct : order.Nodup)
    {newBefore : Addr} (back : first ≠ null → prev' first = newBefore)
    (sameNext : ∀ other ∈ order, next' other = next other)
    (samePrev : ∀ other ∈ order, other ≠ first → prev' other = prev other) :
    Linked null next' prev' newBefore first order := by
  cases order with
  | nil => exact linked
  | cons head rest =>
      obtain ⟨rfl, some, _, later⟩ := linked
      have fresh := (List.nodup_cons.mp distinct).1
      refine ⟨rfl, some, back some, ?_⟩
      rw [sameNext first List.mem_cons_self]
      refine later.congr (fun other inside => sameNext other (List.mem_cons_of_mem _ inside))
        (fun other inside => samePrev other (List.mem_cons_of_mem _ inside) ?_)
      rintro rfl
      exact fresh inside

theorem Linked.push (linked : Linked null next prev null first order) (distinct : order.Nodup)
    (some : node ≠ null) (forth : next' node = first) (front : prev' node = null)
    (back : first ≠ null → prev' first = node)
    (sameNext : ∀ other ∈ order, next' other = next other)
    (samePrev : ∀ other ∈ order, other ≠ first → prev' other = prev other) :
    Linked null next' prev' null node (node :: order) := by
  refine ⟨rfl, some, front, ?_⟩
  rw [forth]
  exact linked.rebase distinct back sameNext samePrev

theorem Linked.around (linked : Linked null next prev before first (left ++ node :: right)) :
    prev node = left.getLast?.getD before ∧ Linked null next prev node (next node) right := by
  induction left generalizing before first with
  | nil =>
      obtain ⟨rfl, _, back, later⟩ := linked
      exact ⟨back, later⟩
  | cons head rest ih =>
      obtain ⟨back, later⟩ := ih linked.2.2.2
      refine ⟨back.trans ?_, later⟩
      rw [List.getLast?_cons]
      cases rest.getLast? <;> rfl

theorem Linked.prev_first (linked : Linked null next prev before first order)
    (some : first ≠ null) : prev first = before := by
  cases order with
  | nil => exact absurd linked some
  | cons head rest =>
      obtain ⟨rfl, _, back, _⟩ := linked
      exact back

theorem Linked.prev_next (linked : Linked null next prev before first order)
    (member : node ∈ order) (some : next node ≠ null) :
    next node ∈ order ∧ prev (next node) = node := by
  induction order generalizing before first with
  | nil => cases member
  | cons head rest ih =>
      obtain ⟨rfl, _, _, later⟩ := linked
      rcases List.mem_cons.mp member with rfl | inside
      · cases rest with
        | nil => exact absurd later some
        | cons second rest =>
            obtain ⟨here, _, back, _⟩ := later
            rw [here]
            exact ⟨List.mem_cons_of_mem _ List.mem_cons_self, back⟩
      · obtain ⟨reached, back⟩ := ih later inside
        exact ⟨List.mem_cons_of_mem _ reached, back⟩

theorem Linked.next_prev (linked : Linked null next prev before first order)
    (member : node ∈ order) :
    node = first ∧ prev node = before ∨ prev node ∈ order ∧ next (prev node) = node := by
  induction order generalizing before first with
  | nil => cases member
  | cons head rest ih =>
      obtain ⟨rfl, _, back, later⟩ := linked
      rcases List.mem_cons.mp member with rfl | inside
      · exact .inl ⟨rfl, back⟩
      · rcases ih later inside with ⟨second, back⟩ | ⟨reached, forth⟩
        · rw [back]
          exact .inr ⟨List.mem_cons_self, second.symm⟩
        · exact .inr ⟨List.mem_cons_of_mem _ reached, forth⟩

/-- Bridging the gap on both sides takes a node out. -/
theorem Linked.unlink [DecidableEq Addr]
    (linked : Linked null next prev before first (left ++ node :: right))
    (distinct : (left ++ node :: right).Nodup) (outside : before ∉ left ++ node :: right)
    (newNext : ∀ other ∈ left ++ right,
      next' other = if other = prev node then next node else next other)
    (newPrev : ∀ other ∈ left ++ right,
      prev' other = if other = next node then prev node else prev other) :
    Linked null next' prev' before (if left = [] then next node else first) (left ++ right) := by
  induction left generalizing before first with
  | nil =>
      obtain ⟨rfl, _, back, later⟩ := linked
      rw [if_pos rfl]
      rw [List.nil_append] at distinct outside newNext newPrev ⊢
      have notRight : ∀ other ∈ right, other ≠ prev first := by
        intro other inside same
        apply outside
        rw [← back, ← same]
        exact List.mem_cons_of_mem _ inside
      refine later.rebase (List.nodup_cons.mp distinct).2 (fun some => ?_)
        (fun other inside => ?_) (fun other inside apart => ?_)
      · have member : next first ∈ right := by
          cases right with
          | nil => exact absurd later some
          | cons head rest => exact later.1 ▸ List.mem_cons_self
        rw [newPrev _ member, if_pos rfl, back]
      · rw [newNext other inside, if_neg (notRight other inside)]
      · rw [newPrev other inside, if_neg apart]
  | cons head rest ih =>
      obtain ⟨rfl, some, back, later⟩ := linked
      obtain ⟨prevNode, tail⟩ := later.around
      have nextNode := tail.first_eq
      rw [List.cons_append] at distinct outside
      obtain ⟨fresh, distinct⟩ := List.nodup_cons.mp distinct
      have notNext : first ≠ next node := by
        intro same
        rw [nextNode] at same
        cases right with
        | nil => exact some same
        | cons head right =>
            apply fresh
            rw [same]
            exact List.mem_append_right _ (List.mem_cons_of_mem _ List.mem_cons_self)
      have forth : next' first = if rest = [] then next node else next first := by
        rw [newNext first (List.mem_append_left _ List.mem_cons_self), prevNode]
        cases last : rest.getLast? with
        | none => rw [Option.getD_none, if_pos rfl, if_pos (List.getLast?_eq_none_iff.mp last)]
        | some inner =>
            have inside := List.mem_of_getLast? last
            have apart : first ≠ inner := by
              rintro rfl
              exact fresh (List.mem_append_left _ inside)
            rw [Option.getD_some, if_neg apart, if_neg (List.ne_nil_of_mem inside)]
      rw [if_neg (List.cons_ne_nil _ _)]
      refine ⟨rfl, some, ?_, ?_⟩
      · rw [newPrev first (List.mem_append_left _ List.mem_cons_self), if_neg notNext]
        exact back
      · rw [forth]
        exact ih later distinct fresh
          (fun other inside => newNext other (List.mem_cons_of_mem _ inside))
          (fun other inside => newPrev other (List.mem_cons_of_mem _ inside))

end Libcdma.NodeList
