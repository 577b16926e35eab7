import Mathlib.Algebra.Group.Action.Defs
import Mathlib.Algebra.GroupWithZero.Nat
import Mathlib.Algebra.Order.BigOperators.Group.List
import Mathlib.Algebra.Order.Group.Nat
import Mathlib.Data.List.Nodup
import Mathlib.Logic.Relation
import PiPlatform.Library.Lists

/-! Traversals with a worklist.

A turn takes the front of what is to be visited: a node visited before is dropped, any
other is visited and what it leads to is put among what waits. A `Discipline` says where: behind,
as in a queue, or on top, as on a stack, and whether what has been visited is left out. A node may
wait several times, but it is visited once.

Where the nodes lead stays inside a finite set, the traversal ends (`measure_turn`), and
what it has visited then is what the start leads to (`exists_run`), under every discipline. -/
namespace PiPlatform.Library

universe u

/-- Where a turn puts what a node leads to: what waits afterwards is what waited and all or some of
what was added, with all of it that is new. -/
structure Discipline (N : Type u) where
  put : (visited added rest : List N) → List N
  waits : ∀ {visited added rest n}, n ∈ rest → n ∈ put visited added rest
  added : ∀ {visited added rest n}, n ∈ added → n ∉ visited → n ∈ put visited added rest
  only : ∀ {visited added rest n}, n ∈ put visited added rest → n ∈ added ∨ n ∈ rest
  length_le : ∀ visited added rest,
    (put visited added rest).length ≤ added.length + rest.length

namespace Discipline
variable {N : Type u}

/-- Behind all that waits, without what has been visited. -/
def queue [DecidableEq N] : Discipline N where
  put visited added rest := rest ++ added.filter (· ∉ visited)
  waits hn := List.mem_append_left _ hn
  added hn hnew := List.mem_append_right _ (List.mem_filter.mpr ⟨hn, by simpa using hnew⟩)
  only hn := (List.mem_append.mp hn).symm.imp_left fun h => (List.mem_filter.mp h).1
  length_le visited added rest := by
    have hfilter : (added.filter (· ∉ visited)).length ≤ added.length := List.length_filter_le _ _
    rw [List.length_append]
    omega

@[simp] theorem put_queue [DecidableEq N] (visited added rest : List N) :
    queue.put visited added rest = rest ++ added.filter (· ∉ visited) := rfl

/-- On top of all that waits, the last of it first. -/
def lateStack : Discipline N where
  put _ added rest := added.reverse ++ rest
  waits hn := List.mem_append_right _ hn
  added hn _ := List.mem_append_left _ (List.mem_reverse.mpr hn)
  only hn := (List.mem_append.mp hn).imp_left List.mem_reverse.mp
  length_le visited added rest := by rw [List.length_append, List.length_reverse]

/-- In the same way, without what has been visited. -/
def stack [DecidableEq N] : Discipline N where
  put visited added rest := lateStack.put visited (added.filter (· ∉ visited)) rest
  waits hn := lateStack.waits hn
  added hn hnew := lateStack.added (List.mem_filter.mpr ⟨hn, by simpa using hnew⟩) hnew
  only hn := (lateStack.only hn).imp_left fun h => (List.mem_filter.mp h).1
  length_le visited added rest :=
    (lateStack.length_le visited _ rest).trans
      (Nat.add_le_add_right (List.length_filter_le _ _) _)

end Discipline

/-- What waits, and what has been visited in its order. -/
structure Worklist (N : Type u) where
  toVisit : List N
  visited : List N

namespace Worklist
variable {N : Type u} [DecidableEq N] (D : Discipline N) (next : N → List N)

def start (n : N) : Worklist N := ⟨[n], []⟩

def turn (w : Worklist N) : Worklist N :=
  match w.toVisit with
  | [] => w
  | n :: rest =>
    if n ∈ w.visited then ⟨rest, w.visited⟩
    else ⟨D.put (w.visited ++ [n]) (next n) rest, w.visited ++ [n]⟩

/-- After so many turns. -/
def after : Nat → Worklist N → Worklist N
  | 0, w => w
  | k + 1, w => after k (w.turn D next)

/-- What has been visited when nothing waits any more, if so many turns are enough. -/
def run : Nat → Worklist N → Option (List N)
  | 0, _ => none
  | k + 1, w =>
    match w.toVisit with
    | [] => some w.visited
    | _ :: _ => run k (w.turn D next)

/-- Where a node leads in any number of steps. -/
def Leads (a b : N) : Prop := Relation.ReflTransGen (fun a b => b ∈ next a) a b

variable {D next} {w : Worklist N} {n : N} {rest : List N} {nodes : List N}

theorem turn_nil (hw : w.toVisit = []) : w.turn D next = w := by
  rw [turn, hw]

theorem turn_seen (hw : w.toVisit = n :: rest) (hn : n ∈ w.visited) :
    w.turn D next = ⟨rest, w.visited⟩ := by
  rw [turn, hw]
  exact if_pos hn

theorem turn_new (hw : w.toVisit = n :: rest) (hn : n ∉ w.visited) :
    w.turn D next = ⟨D.put (w.visited ++ [n]) (next n) rest, w.visited ++ [n]⟩ := by
  rw [turn, hw]
  exact if_neg hn

/-! ### What a traversal keeps -/

/-- What was met can be reached from the start, and where a visited node leads was met. -/
structure Sound (next : N → List N) (s : N) (w : Worklist N) : Prop where
  distinct : w.visited.Nodup
  reached : ∀ n, n ∈ w.visited ∨ n ∈ w.toVisit → Leads next s n
  met : ∀ n ∈ w.visited, ∀ m ∈ next n, m ∈ w.visited ∨ m ∈ w.toVisit
  begun : s ∈ w.visited ∨ s ∈ w.toVisit

omit [DecidableEq N] in
theorem sound_start (s : N) : Sound next s (start s) where
  distinct := List.nodup_nil
  reached := by
    rintro n (h | h)
    · cases h
    · obtain rfl := List.mem_singleton.mp h
      exact .refl
  met := List.forall_mem_nil _
  begun := .inr (List.mem_singleton_self s)

theorem Sound.turn {s : N} (h : Sound next s w) : Sound next s (w.turn D next) := by
  cases hw : w.toVisit with
  | nil => rwa [turn_nil hw]
  | cons n rest =>
    have hwaits : ∀ {m}, m ∈ n :: rest → m ∈ w.toVisit := fun hm => hw ▸ hm
    by_cases hn : n ∈ w.visited
    · rw [turn_seen hw hn]
      -- The dropped node was met as a visited one.
      have hmet : ∀ m, m ∈ w.visited ∨ m ∈ w.toVisit → m ∈ w.visited ∨ m ∈ rest := by
        rintro m (hm | hm)
        · exact .inl hm
        · rcases List.mem_cons.mp (hw ▸ hm) with rfl | hm
          · exact .inl hn
          · exact .inr hm
      exact ⟨h.distinct, fun m hm =>
        h.reached m (hm.imp_right fun hm => hwaits (List.mem_cons_of_mem n hm)),
        fun m hm k hk => hmet k (h.met m hm k hk), hmet s h.begun⟩
    · rw [turn_new hw hn]
      have hreached : Leads next s n := h.reached n (.inr (hwaits List.mem_cons_self))
      have hmet : ∀ m, m ∈ w.visited ∨ m ∈ w.toVisit →
          m ∈ w.visited ++ [n] ∨ m ∈ D.put (w.visited ++ [n]) (next n) rest := by
        rintro m (hm | hm)
        · exact .inl (List.mem_append_left _ hm)
        · rcases List.mem_cons.mp (hw ▸ hm) with rfl | hm
          · exact .inl (by simp)
          · exact .inr (D.waits hm)
      refine ⟨nodup_snoc h.distinct hn, ?_, ?_, hmet s h.begun⟩
      · rintro m (hm | hm)
        · rcases List.mem_append.mp hm with hm | hm
          · exact h.reached m (.inl hm)
          · rwa [List.mem_singleton.mp hm]
        · rcases D.only hm with hm | hm
          · exact hreached.tail hm
          · exact h.reached m (.inr (hwaits (List.mem_cons_of_mem n hm)))
      · intro m hm k hk
        rcases List.mem_append.mp hm with hm | hm
        · exact hmet k (h.met m hm k hk)
        · obtain rfl := List.mem_singleton.mp hm
          by_cases hseen : k ∈ w.visited ++ [m]
          · exact .inl hseen
          · exact .inr (D.added hk hseen)

omit [DecidableEq N] in
/-- When nothing waits, what was visited is what the start leads to. -/
theorem Sound.exact {s : N} (h : Sound next s w) (hdone : w.toVisit = []) :
    ∀ n, n ∈ w.visited ↔ Leads next s n := by
  have hin : ∀ m, m ∈ w.visited ∨ m ∈ w.toVisit → m ∈ w.visited := by
    rintro m (hm | hm)
    · exact hm
    · rw [hdone] at hm
      cases hm
  refine fun n => ⟨fun hn => h.reached n (.inl hn), fun hn => ?_⟩
  induction hn with
  | refl => exact hin s h.begun
  | tail _ hstep ih => exact hin _ (h.met _ ih _ hstep)

/-! ### That it ends -/

/-- What the nodes still to be visited will put into the queue. -/
def due (next : N → List N) (nodes visited : List N) : Nat :=
  ((nodes.filter (· ∉ visited)).map fun n => (next n).length).sum

/-- A visited node is due no more. -/
theorem due_visit {visited : List N} (hn : n ∉ visited) (nodes : List N) :
    due next nodes (visited ++ [n]) + (if n ∈ nodes then (next n).length else 0) ≤
      due next nodes visited := by
  unfold due
  induction nodes with
  | nil => simp
  | cons m nodes ih =>
    by_cases hm : m = n
    · subst hm
      rw [List.filter_cons_of_neg (by simp), List.filter_cons_of_pos (by simpa using hn),
        List.map_cons, List.sum_cons, if_pos (List.mem_cons_self ..)]
      split at ih <;> omega
    · have hif : (if n ∈ m :: nodes then (next n).length else 0) =
          if n ∈ nodes then (next n).length else 0 := by
        simp [List.mem_cons, Ne.symm hm]
      rw [hif]
      by_cases hseen : m ∈ visited
      · rw [List.filter_cons_of_neg (by simp [hseen]), List.filter_cons_of_neg (by simp [hseen])]
        exact ih
      · rw [List.filter_cons_of_pos (by simp [hseen, hm]),
          List.filter_cons_of_pos (by simp [hseen]),
          List.map_cons, List.map_cons, List.sum_cons, List.sum_cons]
        omega

/-- No more turns than this are left. -/
def measure (next : N → List N) (nodes : List N) (w : Worklist N) : Nat :=
  w.toVisit.length + due next nodes w.visited

theorem measure_turn (hw : w.toVisit = n :: rest) (hn : n ∈ nodes) :
    measure next nodes (w.turn D next) < measure next nodes w := by
  by_cases hseen : n ∈ w.visited
  · rw [turn_seen hw hseen, measure, measure, hw]
    simp only [List.length_cons]
    omega
  · have hadded := D.length_le (w.visited ++ [n]) (next n) rest
    have hdue : due next nodes (w.visited ++ [n]) + (next n).length ≤ due next nodes w.visited := by
      simpa only [if_pos hn] using due_visit hseen nodes
    rw [turn_new hw hseen, measure, measure, hw]
    simp only [List.length_cons]
    omega

/-- No more turns than this are due from a start: each node may put as many nodes in the queue
as it leads to. -/
theorem measure_start_le {width : Nat} (s : N) (hwidth : ∀ n ∈ nodes, (next n).length ≤ width) :
    measure next nodes (start s) ≤ 1 + nodes.length * width := by
  have hdue : due next nodes [] ≤ nodes.length * width := by
    rw [due]
    refine (List.sum_le_card_nsmul _ width fun m hm => ?_).trans ?_
    · obtain ⟨n, hn, rfl⟩ := List.mem_map.mp hm
      exact hwidth n (List.mem_of_mem_filter hn)
    · rw [smul_eq_mul, List.length_map]
      exact Nat.mul_le_mul_right width (List.length_filter_le _ _)
  exact Nat.add_le_add_left hdue 1

/-- A turn stays among nodes that lead nowhere else. -/
theorem inside_turn (hclosed : ∀ n ∈ nodes, ∀ m ∈ next n, m ∈ nodes)
    (hw : ∀ n ∈ w.toVisit, n ∈ nodes) : ∀ n ∈ (w.turn D next).toVisit, n ∈ nodes := by
  intro m hm
  cases htodo : w.toVisit with
  | nil =>
    rw [turn_nil htodo] at hm
    exact hw m hm
  | cons n rest =>
    rw [htodo] at hw
    have hrest : ∀ m ∈ rest, m ∈ nodes := fun m hm => hw m (List.mem_cons_of_mem n hm)
    by_cases hseen : n ∈ w.visited
    · rw [turn_seen htodo hseen] at hm
      exact hrest m hm
    · rw [turn_new htodo hseen] at hm
      rcases D.only hm with hm | hm
      · exact hclosed n (hw n List.mem_cons_self) m hm
      · exact hrest m hm

theorem after_done (hw : w.toVisit = []) (k : Nat) : after D next k w = w := by
  induction k with
  | zero => rfl
  | succ k ih => rwa [after, turn_nil hw]

/-- After as many turns as its measure nothing waits, and what was visited is what the start leads
to. -/
theorem after_of_measure (hclosed : ∀ n ∈ nodes, ∀ m ∈ next n, m ∈ nodes) {s : N}
    (k : Nat) (w : Worklist N) (hw : ∀ n ∈ w.toVisit, n ∈ nodes) (hsound : Sound next s w)
    (hk : measure next nodes w ≤ k) :
    (after D next k w).toVisit = [] ∧ Sound next s (after D next k w) := by
  induction k generalizing w with
  | zero =>
    have hnone : w.toVisit.length ≤ 0 := (Nat.le_add_right _ _).trans hk
    exact ⟨List.length_eq_zero_iff.mp (Nat.le_zero.mp hnone), hsound⟩
  | succ k ih =>
    cases htodo : w.toVisit with
    | nil =>
      rw [after_done htodo]
      exact ⟨htodo, hsound⟩
    | cons n rest =>
      have hless : measure next nodes (w.turn D next) < measure next nodes w :=
        measure_turn htodo (hw n (htodo ▸ List.mem_cons_self))
      exact ih (w.turn D next) (inside_turn hclosed hw) hsound.turn (by omega)

/-- A traversal that has ended gives what was visited, with any more turns. -/
theorem run_of_after {k j : Nat} (hlt : k < j) {w : Worklist N}
    (hdone : (after D next k w).toVisit = []) :
    run D next j w = some (after D next k w).visited := by
  obtain ⟨j, rfl⟩ := Nat.exists_eq_succ_of_ne_zero (Nat.ne_zero_of_lt hlt)
  induction k generalizing w j with
  | zero =>
    rw [after] at hdone
    rw [run, hdone, after]
  | succ k ih =>
    cases htodo : w.toVisit with
    | nil => rw [run, htodo, after_done htodo]
    | cons n rest =>
      obtain ⟨j, rfl⟩ := Nat.exists_eq_succ_of_ne_zero (n := j) (by omega)
      rw [run, htodo]
      exact ih hdone j (by omega)

/-- **Main theorem.** Inside a finite set that the nodes do not lead out of, every
traversal with enough turns visits exactly what its start leads to, each node once. -/
theorem exists_run (D : Discipline N)
    (hclosed : ∀ n ∈ nodes, ∀ m ∈ next n, m ∈ nodes) {s : N} (hs : s ∈ nodes) :
    ∃ turns visited, (∀ k, turns ≤ k → run D next k (start s) = some visited) ∧ visited.Nodup ∧
      ∀ n, n ∈ visited ↔ Leads next s n := by
  obtain ⟨hdone, hsound⟩ := after_of_measure (D := D) hclosed (measure next nodes (start s))
    (start s)
    (fun n hn => by rwa [List.mem_singleton.mp hn]) (sound_start s) le_rfl
  exact ⟨_, _, fun k hk => run_of_after (Nat.lt_of_succ_le hk) hdone, hsound.distinct,
    hsound.exact hdone⟩

end Worklist

end PiPlatform.Library
