import Mathlib.Data.List.Nodup
import Mathlib.Data.List.Count

/-!
# Queues that keep order

A queue whose entries arrive in order and leave either from the front, in
order, or together from the back.  `OrderedQueue` holds the queue and the record
of what has left it, and `OrderedQueue.edge` is one step: the first `pops`
entries are retired, those from the `keep`th on are removed, and `new` arrives.

* `Wf` — every entry pushed is in exactly one of the three places as often as it
  was pushed, and what was retired followed by what is live is in the order of
  pushing.
* `wf_edge` — a step that retires no more than it keeps preserves both.
* `Wf.count_eq_one` — with entries pushed once, each is in one place once.
-/

namespace SloPPC603
namespace Clocked

variable {α : Type*}

/-- A queue and the record of everything that entered and left it. -/
structure OrderedQueue (α : Type*) where
  /-- Everything ever pushed, in order. -/
  pushed : List α
  /-- What is in the queue, the front first. -/
  live : List α
  /-- What left from the front, in order. -/
  retired : List α
  /-- What left from the back. -/
  removed : List α
  deriving DecidableEq, Repr

namespace OrderedQueue

/-- One step: retire the first `pops` entries, remove those from the `keep`th on
and push `new`. -/
def edge (q : OrderedQueue α) (pops keep : ℕ) (new : List α) : OrderedQueue α where
  pushed := q.pushed ++ new
  live := (q.live.take keep).drop pops ++ new
  retired := q.retired ++ q.live.take pops
  removed := q.removed ++ q.live.drop keep

/-- Nothing is lost, duplicated or reordered. -/
structure Wf (q : OrderedQueue α) : Prop where
  partition : q.pushed.Perm (q.retired ++ q.removed ++ q.live)
  inOrder : (q.retired ++ q.live).Sublist q.pushed

/-- The queue before anything is pushed. -/
def empty : OrderedQueue α := ⟨[], [], [], []⟩

theorem wf_empty : (empty : OrderedQueue α).Wf := ⟨by simp [empty], by simp [empty]⟩

variable {q : OrderedQueue α} {pops keep : ℕ} {new : List α}

/-- A list cut twice: the front part, the part kept and the part dropped. -/
theorem take_append_drop_take (l : List α) (h : pops ≤ keep) :
    l.take pops ++ ((l.take keep).drop pops ++ l.drop keep) = l := by
  have hfront : l.take pops = (l.take keep).take pops := by
    rw [List.take_take, Nat.min_eq_left h]
  rw [← List.append_assoc, hfront, List.take_append_drop, List.take_append_drop]

/-- **A step keeps the queue well formed** when it retires no more than it
keeps. -/
theorem wf_edge (hq : q.Wf) (h : pops ≤ keep) : (q.edge pops keep new).Wf where
  partition := by
    have hlive : q.live.Perm (q.live.take pops ++
        (q.live.drop keep ++ (q.live.take keep).drop pops)) := by
      conv_lhs => rw [← take_append_drop_take q.live h]
      exact List.Perm.append_left _ List.perm_append_comm
    have hstep : (q.pushed ++ new).Perm (q.retired ++ q.removed ++ (q.live.take pops ++
        (q.live.drop keep ++ (q.live.take keep).drop pops)) ++ new) :=
      (hq.partition.trans (List.Perm.append_left _ hlive)).append_right _
    refine hstep.trans ?_
    simp only [edge, List.append_assoc]
    refine List.Perm.append_left _ ?_
    exact List.perm_append_comm_assoc _ _ _
  inOrder := by
    have hlive : (q.live.take pops ++ (q.live.take keep).drop pops).Sublist q.live := by
      conv_rhs => rw [← take_append_drop_take q.live h]
      exact List.Sublist.append_left (List.sublist_append_left _ _) _
    have hold : (q.retired ++ (q.live.take pops ++ (q.live.take keep).drop pops)).Sublist
        q.pushed := (List.Sublist.append_left hlive _).trans hq.inOrder
    simpa [edge, List.append_assoc] using List.Sublist.append_right hold new

namespace Wf

variable (hq : q.Wf)
include hq

/-- **Each entry pushed once is in one place once.** -/
theorem count_eq_one [DecidableEq α] (hnd : q.pushed.Nodup) {a : α} (ha : a ∈ q.pushed) :
    q.retired.count a + q.removed.count a + q.live.count a = 1 := by
  rw [← List.count_append, ← List.count_append, ← hq.partition.count_eq a]
  exact List.count_eq_one_of_mem hnd ha

end Wf

end OrderedQueue

end Clocked
end SloPPC603
