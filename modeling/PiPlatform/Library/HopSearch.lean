import Mathlib.Data.Finset.Card
import Mathlib.Logic.Function.Iterate
import PiPlatform.Library.Dict

/-! Breadth-first searches that label what they visit.

A turn takes the front of the queue and visits the nodes next to it that were not visited, each
with a label made from the front's; it may halt at a label, and the search stops at the first
node that is a goal. The search goes through the levels of the graph one after another, so it
visits those nodes, and gives those levels, that depend on which nodes are next to which, and not
on their order (`Sweep.turn`, `visited_iff`). -/
namespace PiPlatform.Library

universe u v
variable {N : Type u} {V : Type v} [DecidableEq N]

/-- What a search does with the nodes it meets. -/
structure HopSearch (N : Type u) (V : Type v) where
  next : N → List N
  /-- The label of a node that is next to one with this label. -/
  label : N → V → V
  halts : V → Bool
  goal : N → Bool

namespace HopSearch

structure Front (N : Type u) (V : Type v) [DecidableEq N] where
  visited : Dict N V
  queue : List N
  stopped : Bool

def begin (origin : N) (first : V) : Front N V :=
  ⟨Dict.empty.set origin first, [origin], false⟩

variable (S : HopSearch N V)

/-- The nodes next to the front, in their order. -/
def meet (value : V) : List N → Front N V → Front N V
  | [], f => f
  | n :: ns, f =>
    if f.visited.contains n then meet value ns f
    else if S.goal n then { f with visited := f.visited.set n value, stopped := true }
    else meet value ns ⟨f.visited.set n value, f.queue ++ [n], f.stopped⟩

def turn (f : Front N V) : Front N V :=
  if f.stopped then f
  else
    match f.queue with
    | [] => f
    | n :: rest =>
      match f.visited.get? n with
      | none => { f with queue := rest }
      | some v =>
        if S.halts v then { f with queue := rest }
        else S.meet (S.label n v) (S.next n) { f with queue := rest }

def run (turns : Nat) (f : Front N V) : Front N V := S.turn^[turns] f

/-! ### Levels -/

section Levels
variable (next : N → List N) (expands : Nat → Prop) (origin : N)

/-- The nodes that so many hops lead to, where a level may be left. -/
def Within : Nat → N → Prop
  | 0, n => n = origin
  | d + 1, n => Within d n ∨ expands d ∧ ∃ m, Within d m ∧ n ∈ next m

/-- The nodes that so many hops lead to, and no fewer. -/
def Level (d : Nat) (n : N) : Prop :=
  Within next expands origin d n ∧ ∀ e < d, ¬ Within next expands origin e n

variable {next expands origin} {d e : Nat} {n m : N}

omit [DecidableEq N] in
theorem Within.mono (h : Within next expands origin d n) (hde : d ≤ e) :
    Within next expands origin e n := by
  induction hde with
  | refl => exact h
  | step _ ih => exact .inl ih

omit [DecidableEq N] in
theorem Level.unique (h : Level next expands origin d n) (h' : Level next expands origin e n) :
    d = e := by
  rcases Nat.lt_trichotomy d e with hlt | heq | hgt
  · exact absurd h.1 (h'.2 d hlt)
  · exact heq
  · exact absurd h'.1 (h.2 e hgt)

omit [DecidableEq N] in
theorem exists_level (h : Within next expands origin d n) :
    ∃ e ≤ d, Level next expands origin e n := by
  induction d with
  | zero => exact ⟨0, Nat.le_refl 0, h, fun e he => absurd he (Nat.not_lt_zero e)⟩
  | succ d ih =>
    by_cases hd : Within next expands origin d n
    · obtain ⟨e, he, hlevel⟩ := ih hd
      exact ⟨e, Nat.le_succ_of_le he, hlevel⟩
    · refine ⟨d + 1, Nat.le_refl _, h, fun e he hwithin => ?_⟩
      exact hd (hwithin.mono (Nat.le_of_lt_succ he))

omit [DecidableEq N] in
/-- A node lies behind one of the level before. -/
theorem Level.before (h : Level next expands origin (d + 1) n)
    (hbelow : ∀ e ≤ d, expands d → expands e) :
    ∃ m, Level next expands origin d m ∧ n ∈ next m := by
  rcases h.1 with hwithin | ⟨hexpands, m, hm, hnext⟩
  · exact absurd hwithin (h.2 d (Nat.lt_succ_self d))
  · obtain ⟨e, he, hlevel⟩ := exists_level hm
    rcases Nat.lt_or_eq_of_le he with hlt | rfl
    · refine absurd ?_ (h.2 (e + 1) (Nat.succ_lt_succ hlt))
      exact .inr ⟨hbelow e he hexpands, m, hlevel.1, hnext⟩
    · exact ⟨m, hlevel, hnext⟩

omit [DecidableEq N] in
/-- No level before a node's is empty. -/
theorem Level.nonempty (h : Level next expands origin d n)
    (hbelow : ∀ d, ∀ e ≤ d, expands d → expands e) (hed : e ≤ d) :
    ∃ m, Level next expands origin e m := by
  induction d generalizing n with
  | zero => exact ⟨n, Nat.le_zero.mp hed ▸ h⟩
  | succ d ih =>
    rcases Nat.lt_or_eq_of_le hed with hlt | rfl
    · obtain ⟨m, hm, -⟩ := h.before (hbelow d)
      exact ih hm (Nat.le_of_lt_succ hlt)
    · exact ⟨n, h⟩

omit [DecidableEq N] in
/-- Which nodes are next to which is all that counts. -/
theorem within_congr {next' : N → List N} (h : ∀ m n, n ∈ next m ↔ n ∈ next' m) :
    Within next expands origin d n ↔ Within next' expands origin d n := by
  induction d generalizing n with
  | zero => exact Iff.rfl
  | succ d ih =>
    refine or_congr ih (and_congr_right fun _ => exists_congr fun m => ?_)
    exact and_congr ih (h m n)

omit [DecidableEq N] in
theorem level_congr {next' : N → List N} (h : ∀ m n, n ∈ next m ↔ n ∈ next' m) :
    Level next expands origin d n ↔ Level next' expands origin d n :=
  and_congr (within_congr h) (forall₂_congr fun _ _ => not_congr (within_congr h))

end Levels

/-! ### One front -/

section Meet
variable {S} {f : Front N V} {value w : V} {ns : List N} {n : N}

theorem meet_kept (h : f.visited.get? n = some w) :
    (S.meet value ns f).visited.get? n = some w := by
  induction ns generalizing f with
  | nil => exact h
  | cons m ns ih =>
    rw [meet]
    split_ifs with hseen hgoal
    · exact ih h
    · show (f.visited.set m value).get? n = some w
      rw [Dict.get?_set_ne fun heq => hseen (Dict.contains_iff.mpr ⟨w, by rw [heq]; exact h⟩)]
      exact h
    · refine ih ?_
      show (f.visited.set m value).get? n = some w
      rw [Dict.get?_set_ne fun heq => hseen (Dict.contains_iff.mpr ⟨w, by rw [heq]; exact h⟩)]
      exact h

theorem meet_new (h : (S.meet value ns f).visited.get? n = some w) :
    f.visited.get? n = some w ∨ n ∈ ns ∧ w = value ∧ f.visited.get? n = none := by
  induction ns generalizing f with
  | nil => exact .inl h
  | cons m ns ih =>
    have hset : ∀ {d : Dict N V}, (d.set m value).get? n = some w → ¬ d.contains m = true →
        d.get? n = some w ∨ n ∈ m :: ns ∧ w = value ∧ d.get? n = none := by
      intro d hd hseen
      rw [Dict.get?_set] at hd
      split_ifs at hd with hm
      · subst hm
        refine .inr ⟨List.mem_cons_self .., (Option.some.inj hd).symm, ?_⟩
        exact Option.eq_none_iff_forall_ne_some.mpr fun v hv =>
            hseen (Dict.contains_iff.mpr ⟨v, hv⟩)
      · exact .inl hd
    rw [meet] at h
    split_ifs at h with hseen hgoal
    · rcases ih h with hold | ⟨hmem, heq, hnone⟩
      · exact .inl hold
      · exact .inr ⟨List.mem_cons_of_mem _ hmem, heq, hnone⟩
    · exact hset h hseen
    · rcases ih h with hold | ⟨hmem, heq, hnone⟩
      · exact hset hold hseen
      · change (f.visited.set m value).get? n = none at hnone
        rw [Dict.get?_set] at hnone
        split_ifs at hnone with hm
        exact .inr ⟨List.mem_cons_of_mem _ hmem, heq, hnone⟩

/-- A search that goes on has visited all that is next to the front, and queued what is new. -/
theorem meet_running (h : (S.meet value ns f).stopped = false) :
    (∀ m ∈ ns, ∃ v, (S.meet value ns f).visited.get? m = some v) ∧
      ∃ new, (S.meet value ns f).queue = f.queue ++ new ∧
        (∀ m ∈ new, m ∈ ns ∧ f.visited.get? m = none ∧ S.goal m = false) ∧
        ∀ m v, (S.meet value ns f).visited.get? m = some v →
          f.visited.get? m = some v ∨ m ∈ new := by
  induction ns generalizing f with
  | nil =>
    refine ⟨List.forall_mem_nil _, [], (List.append_nil _).symm, List.forall_mem_nil _, ?_⟩
    exact fun m v hv => .inl hv
  | cons n ns ih =>
    rw [meet] at h ⊢
    split_ifs at h ⊢ with hseen hgoal
    · obtain ⟨hall, new, hqueue, hnew, hfrom⟩ := ih h
      obtain ⟨v, hv⟩ := Dict.contains_iff.mp hseen
      refine ⟨List.forall_mem_cons.mpr ⟨⟨v, meet_kept hv⟩, hall⟩, new, hqueue, ?_, hfrom⟩
      exact fun m hm => ⟨List.mem_cons_of_mem _ (hnew m hm).1, (hnew m hm).2⟩
    · obtain ⟨hall, new, hqueue, hnew, hfrom⟩ := ih h
      refine ⟨List.forall_mem_cons.mpr ⟨⟨value, meet_kept (Dict.get?_set_self _ _ _)⟩, hall⟩,
        n :: new, by rw [hqueue]; simp, ?_, ?_⟩
      · refine List.forall_mem_cons.mpr ⟨⟨List.mem_cons_self .., ?_, ?_⟩, fun m hm => ?_⟩
        · exact Option.eq_none_iff_forall_ne_some.mpr fun v hv =>
            hseen (Dict.contains_iff.mpr ⟨v, hv⟩)
        · exact Bool.eq_false_iff.mpr hgoal
        · obtain ⟨hmem, hnone, hnot⟩ := hnew m hm
          change (f.visited.set n value).get? m = none at hnone
          rw [Dict.get?_set] at hnone
          split_ifs at hnone with hm
          exact ⟨List.mem_cons_of_mem _ hmem, hnone, hnot⟩
      · intro m v hv
        rcases hfrom m v hv with hold | hmem
        · change (f.visited.set n value).get? m = some v at hold
          rw [Dict.get?_set] at hold
          split_ifs at hold with hm
          · exact .inr (hm ▸ List.mem_cons_self ..)
          · exact .inl hold
        · exact .inr (List.mem_cons_of_mem _ hmem)

/-- A search stops at a goal that was not visited. -/
theorem meet_stopped (hf : f.stopped = false) (h : (S.meet value ns f).stopped = true) :
    ∃ g ∈ ns, S.goal g = true ∧ f.visited.get? g = none ∧
      (S.meet value ns f).visited.get? g = some value := by
  induction ns generalizing f with
  | nil =>
    rw [meet, hf] at h
    cases h
  | cons n ns ih =>
    rw [meet] at h ⊢
    split_ifs at h ⊢ with hseen hgoal
    · obtain ⟨g, hg, hfound⟩ := ih hf h
      exact ⟨g, List.mem_cons_of_mem _ hg, hfound⟩
    · refine ⟨n, List.mem_cons_self .., hgoal, ?_, Dict.get?_set_self _ _ _⟩
      exact Option.eq_none_iff_forall_ne_some.mpr fun v hv => hseen (Dict.contains_iff.mpr ⟨v, hv⟩)
    · obtain ⟨g, hg, hfoundgoal, hnone, hfound⟩ :=
        ih (f := ⟨f.visited.set n value, f.queue ++ [n], f.stopped⟩) hf h
      change (f.visited.set n value).get? g = none at hnone
      rw [Dict.get?_set] at hnone
      split_ifs at hnone with hn
      exact ⟨g, List.mem_cons_of_mem _ hg, hfoundgoal, hnone, hfound⟩

end Meet

/-! ### The end of a search -/

section Ends
variable {S} {U : Finset N} {f : Front N V} {value : V} {ns : List N}

/-- What is still to be visited, and what waits. -/
def pending (U : Finset N) (f : Front N V) : Nat :=
  (U.filter fun n => f.visited.get? n = none).card + f.queue.length

theorem pending_set (value : V) {n : N} (hn : n ∈ U) (hnone : f.visited.get? n = none) :
    (U.filter fun m => (f.visited.set n value).get? m = none).card + 1 =
      (U.filter fun m => f.visited.get? m = none).card := by
  have hmem : n ∈ U.filter fun m => f.visited.get? m = none :=
    Finset.mem_filter.mpr ⟨hn, hnone⟩
  have herase : (U.filter fun m => (f.visited.set n value).get? m = none) =
      (U.filter fun m => f.visited.get? m = none).erase n := by
    ext m
    simp only [Finset.mem_filter, Finset.mem_erase, Dict.get?_set]
    by_cases hm : n = m
    · simp [hm]
    · simp [hm, Ne.symm hm]
  rw [herase, Finset.card_erase_add_one hmem]

theorem pending_meet (hns : ∀ n ∈ ns, n ∈ U) : pending U (S.meet value ns f) ≤ pending U f := by
  induction ns generalizing f with
  | nil => exact Nat.le_refl _
  | cons n ns ih =>
    obtain ⟨hn, hns⟩ := List.forall_mem_cons.mp hns
    rw [meet]
    split_ifs with hseen hgoal
    · exact ih hns
    · have hnone : f.visited.get? n = none :=
        Option.eq_none_iff_forall_ne_some.mpr fun v hv => hseen (Dict.contains_iff.mpr ⟨v, hv⟩)
      have hcard := pending_set value hn hnone
      show (U.filter fun m => (f.visited.set n value).get? m = none).card + f.queue.length ≤
        (U.filter fun m => f.visited.get? m = none).card + f.queue.length
      omega
    · have hnone : f.visited.get? n = none :=
        Option.eq_none_iff_forall_ne_some.mpr fun v hv => hseen (Dict.contains_iff.mpr ⟨v, hv⟩)
      have hcard := pending_set value hn hnone
      refine (ih hns).trans ?_
      show (U.filter fun m => (f.visited.set n value).get? m = none).card +
        (f.queue ++ [n]).length ≤ (U.filter fun m => f.visited.get? m = none).card + f.queue.length
      rw [List.length_append, List.length_singleton]
      omega

/-- No turn changes it any more. -/
def Done (f : Front N V) : Prop := f.stopped = true ∨ f.queue = []

theorem turn_done (h : Done f) : S.turn f = f := by
  rw [turn]
  rcases h with hstopped | hempty
  · rw [if_pos hstopped]
  · rw [hempty]
    split_ifs <;> rfl

theorem pending_turn (hU : ∀ m, ∀ n ∈ S.next m, n ∈ U) (h : ¬ Done f) :
    pending U (S.turn f) < pending U f := by
  rw [Done, not_or, Bool.not_eq_true] at h
  obtain ⟨n, rest, hqueue⟩ := List.exists_cons_of_ne_nil h.2
  have hpop : pending U { f with queue := rest } < pending U f := by
    show _ + rest.length < _ + f.queue.length
    rw [hqueue]
    exact Nat.lt_succ_self _
  rw [turn, h.1, if_neg Bool.false_ne_true, hqueue]
  dsimp only
  cases f.visited.get? n with
  | none => rwa [h.1] at hpop
  | some v =>
    dsimp only
    split_ifs with hhalts
    · rwa [h.1] at hpop
    · rw [h.1] at hpop
      exact (pending_meet (hU n)).trans_lt hpop

/-- So many turns are enough. -/
theorem run_done (hU : ∀ m, ∀ n ∈ S.next m, n ∈ U) {k : Nat} (h : pending U f ≤ k) :
    Done (S.run k f) := by
  induction k generalizing f with
  | zero =>
    by_contra hnot
    have hlt := pending_turn hU hnot
    exact absurd (hlt.trans_le h) (Nat.not_lt_zero _)
  | succ k ih =>
    by_cases hdone : Done f
    · have hfix : S.run (k + 1) f = f := Function.iterate_fixed (turn_done hdone) (k + 1)
      rw [hfix]
      exact hdone
    · exact ih (Nat.le_of_lt_succ ((pending_turn hU hdone).trans_le h))

end Ends

/-! ### Level by level -/

section Sweeps
variable (expands : Nat → Prop) (origin : N) (first : V) (Val : N → Nat → V → Prop)

/-- What labels say of the nodes of a level, and of the levels that may be left. -/
structure Labels : Prop where
  antitone : ∀ d, expands (d + 1) → expands d
  first : Val origin 0 first
  label : ∀ n d v m, Level S.next expands origin d n → Val n d v → m ∈ S.next n →
    Val m (d + 1) (S.label n v)
  halts : ∀ n d v, Val n d v → (S.halts v = true ↔ ¬ expands d)

variable {S expands origin first Val} in
omit [DecidableEq N] in
theorem Labels.below (h : Labels S expands origin first Val) {d e : Nat} (hle : e ≤ d)
    (hd : expands d) : expands e := by
  induction hle with
  | refl => exact hd
  | step _ ih => exact ih (h.antitone _ hd)

/-- The labels that were given are right. -/
def Labelled (f : Front N V) : Prop :=
  ∀ n v, f.visited.get? n = some v → ∃ d, Level S.next expands origin d n ∧ Val n d v

/-- A level is being left: of its nodes `waiting` are still to be met, and `queued` is what was
found of the next one. -/
structure Sweep (d : Nat) (waiting queued : List N) (f : Front N V) : Prop where
  running : f.stopped = false
  queue : f.queue = waiting ++ queued
  labelled : Labelled S expands origin Val f
  front : ∀ n ∈ waiting, Level S.next expands origin d n
  back : ∀ n ∈ queued, Level S.next expands origin (d + 1) n
  seen : ∀ n, Within S.next expands origin d n → ∃ v, f.visited.get? n = some v
  early : ∀ n v, f.visited.get? n = some v → Within S.next expands origin d n ∨ n ∈ queued
  left : expands d → ∀ m, Level S.next expands origin d m →
    m ∈ waiting ∨ ∀ n ∈ S.next m, ∃ v, f.visited.get? n = some v
  missed : ∀ n v, f.visited.get? n = some v → n = origin ∨ S.goal n = false

/-- It stopped at a goal on the next level. -/
structure Found (f : Front N V) : Prop where
  stopped : f.stopped = true
  labelled : Labelled S expands origin Val f
  goal : ∃ g v d, S.goal g = true ∧ f.visited.get? g = some v ∧
    Level S.next expands origin (d + 1) g ∧
      ∀ n, Within S.next expands origin d n → ∃ w, f.visited.get? n = some w

variable {S expands origin first Val}

theorem sweep_begin (h : Labels S expands origin first Val) :
    Sweep S expands origin Val 0 [origin] [] (begin origin first) := by
  have hget : ∀ n v, (begin origin first).visited.get? n = some v → n = origin ∧ v = first := by
    intro n v hv
    change (Dict.empty.set origin first).get? n = some v at hv
    rw [Dict.get?_set] at hv
    split_ifs at hv with hn
    · exact ⟨hn.symm, (Option.some.inj hv).symm⟩
    · cases hv
  have hlevel : Level S.next expands origin 0 origin :=
    ⟨rfl, fun e he => absurd he (Nat.not_lt_zero e)⟩
  refine ⟨rfl, rfl, fun n v hv => ?_, fun n hn => ?_, List.forall_mem_nil _, fun n hn => ?_,
    fun n v hv => .inl (hget n v hv).1, fun _ m hm => .inl ?_, fun n v hv => .inl (hget n v hv).1⟩
  · obtain ⟨rfl, rfl⟩ := hget n v hv
    exact ⟨0, hlevel, h.first⟩
  · rw [List.mem_singleton.mp hn]
    exact hlevel
  · obtain rfl : n = origin := hn
    exact ⟨first, Dict.get?_set_self _ _ _⟩
  · obtain rfl : m = origin := hm.1
    exact List.mem_singleton_self _

section Step
variable {d : Nat} {waiting queued : List N} {f : Front N V} {n m : N}

/-- Where a level leads is among those seen, or still to come. -/
theorem Sweep.seen_next (h : Sweep S expands origin Val d [] queued f)
    (hlabels : Labels S expands origin first Val)
    (hn : Within S.next expands origin (d + 1) n) : ∃ v, f.visited.get? n = some v := by
  rcases hn with hn | ⟨hexpands, m, hm, hnext⟩
  · exact h.seen n hn
  · obtain ⟨e, he, hlevel⟩ := exists_level hm
    rcases Nat.lt_or_eq_of_le he with hlt | rfl
    · have hwithin : Within S.next expands origin (e + 1) n :=
        .inr ⟨hlabels.below he hexpands, m, hlevel.1, hnext⟩
      exact h.seen n (hwithin.mono hlt)
    · rcases h.left hexpands m hlevel with hmem | hall
      · cases hmem
      · exact hall n hnext

/-- A level that was left gives way to the next one. -/
theorem Sweep.descend (h : Sweep S expands origin Val d [] queued f)
    (hlabels : Labels S expands origin first Val) :
    Sweep S expands origin Val (d + 1) queued [] f := by
  refine ⟨h.running, by rw [h.queue, List.nil_append, List.append_nil], h.labelled, h.back,
    List.forall_mem_nil _, fun n hn => h.seen_next hlabels hn, fun n v hv => ?_,
    fun _ m hm => ?_, h.missed⟩
  · rcases h.early n v hv with hwithin | hmem
    · exact .inl (.inl hwithin)
    · exact .inl (h.back n hmem).1
  · obtain ⟨v, hv⟩ := h.seen_next hlabels hm.1
    rcases h.early m v hv with hwithin | hmem
    · exact absurd hwithin (hm.2 d (Nat.lt_succ_self d))
    · exact .inl hmem

theorem turn_front (hrunning : f.stopped = false) (hqueue : f.queue = n :: waiting) {v : V}
    (hv : f.visited.get? n = some v) :
    S.turn f = if S.halts v then { f with queue := waiting }
      else S.meet (S.label n v) (S.next n) { f with queue := waiting } := by
  rw [turn, hrunning, if_neg Bool.false_ne_true, hqueue]
  dsimp only
  rw [hv]

theorem Sweep.meet (h : Sweep S expands origin Val d (n :: waiting) queued f)
    (hlabels : Labels S expands origin first Val) :
    (∃ queued', Sweep S expands origin Val d waiting queued' (S.turn f)) ∨
      Found S expands origin Val (S.turn f) := by
  have hlevel := h.front n (List.mem_cons_self ..)
  obtain ⟨v, hv⟩ := h.seen n hlevel.1
  have hval : Val n d v := by
    obtain ⟨e, he, hval⟩ := h.labelled n v hv
    rwa [hlevel.unique he]
  rw [turn_front h.running (h.queue.trans (List.cons_append ..)) hv]
  split_ifs with hhalts
  · have hstuck := (hlabels.halts n d v hval).mp hhalts
    exact .inl ⟨queued, h.running, rfl, h.labelled,
      fun m hm => h.front m (List.mem_cons_of_mem _ hm), h.back, h.seen, h.early,
      fun hexpands => absurd hexpands hstuck, h.missed⟩
  · have hexpands : expands d := by
      by_contra hnot
      exact hhalts ((hlabels.halts n d v hval).mpr hnot)
    have hnew : ∀ m ∈ S.next n, f.visited.get? m = none →
        Level S.next expands origin (d + 1) m := by
      refine fun m hmem hnone => ⟨.inr ⟨hexpands, n, hlevel.1, hmem⟩, fun e he hwithin => ?_⟩
      obtain ⟨u, hu⟩ := h.seen m (hwithin.mono (Nat.le_of_lt_succ he))
      rw [hnone] at hu
      cases hu
    have hlabel : Labelled S expands origin Val
        (S.meet (S.label n v) (S.next n) { f with queue := waiting ++ queued }) := by
      intro m w hw
      rcases meet_new hw with hold | ⟨hmem, rfl, hnone⟩
      · exact h.labelled m w hold
      · exact ⟨d + 1, hnew m hmem hnone, hlabels.label n d v m hlevel hval hmem⟩
    cases hstopped : (S.meet (S.label n v) (S.next n)
        { f with queue := waiting ++ queued }).stopped with
    | true =>
      obtain ⟨g, hmem, hgoal, hnone, hg⟩ := meet_stopped
        (f := { f with queue := waiting ++ queued }) h.running hstopped
      refine .inr ⟨hstopped, hlabel, g, _, d, hgoal, hg, hnew g hmem hnone, fun m hm => ?_⟩
      obtain ⟨u, hu⟩ := h.seen m hm
      exact ⟨u, meet_kept hu⟩
    | false =>
      obtain ⟨hall, new, hqueue, hfresh, hfrom⟩ := meet_running hstopped
      refine .inl ⟨queued ++ new, hstopped, by rw [hqueue, List.append_assoc], hlabel,
        fun m hm => h.front m (List.mem_cons_of_mem _ hm), ?_, ?_, ?_, ?_, ?_⟩
      · refine List.forall_mem_append.mpr ⟨h.back, fun m hm => ?_⟩
        obtain ⟨hmem, hnone, -⟩ := hfresh m hm
        exact hnew m hmem hnone
      · intro m hm
        obtain ⟨u, hu⟩ := h.seen m hm
        exact ⟨u, meet_kept hu⟩
      · intro m w hw
        rcases hfrom m w hw with hold | hmem
        · rcases h.early m w hold with hwithin | hmem
          · exact .inl hwithin
          · exact .inr (List.mem_append_left _ hmem)
        · exact .inr (List.mem_append_right _ hmem)
      · intro _ m hm
        rcases h.left hexpands m hm with hmem | hseen
        · rcases List.mem_cons.mp hmem with rfl | hmem
          · exact .inr hall
          · exact .inl hmem
        · refine .inr fun k hk => ?_
          obtain ⟨u, hu⟩ := hseen k hk
          exact ⟨u, meet_kept hu⟩
      · intro m w hw
        rcases hfrom m w hw with hold | hmem
        · exact h.missed m w hold
        · exact .inr (hfresh m hmem).2.2

/-- A search is sweeping a level, or has found a goal. -/
theorem run_sweeps (hlabels : Labels S expands origin first Val) (k : Nat) :
    (∃ d waiting queued, Sweep S expands origin Val d waiting queued
      (S.run k (begin origin first))) ∨
    Found S expands origin Val (S.run k (begin origin first)) := by
  induction k with
  | zero => exact .inl ⟨0, [origin], [], sweep_begin hlabels⟩
  | succ k ih =>
    have hstep : S.run (k + 1) (begin origin first) = S.turn (S.run k (begin origin first)) :=
      Function.iterate_succ_apply' ..
    rw [hstep]
    rcases ih with ⟨d, waiting, queued, hsweep⟩ | hfound
    · cases waiting with
      | cons n waiting =>
        rcases hsweep.meet hlabels with ⟨queued', hnext⟩ | hfound
        · exact .inl ⟨d, waiting, queued', hnext⟩
        · exact .inr hfound
      | nil =>
        have hdown := hsweep.descend hlabels
        cases queued with
        | nil =>
          rw [turn_done (.inr hsweep.queue)]
          exact .inl ⟨d, [], [], hsweep⟩
        | cons n queued =>
          rcases hdown.meet hlabels with ⟨queued', hnext⟩ | hfound
          · exact .inl ⟨d + 1, queued, queued', hnext⟩
          · exact .inr hfound
    · rw [turn_done (.inl hfound.stopped)]
      exact .inr hfound

theorem run_labelled (hlabels : Labels S expands origin first Val) (k : Nat) :
    Labelled S expands origin Val (S.run k (begin origin first)) := by
  rcases run_sweeps hlabels k with ⟨d, waiting, queued, hsweep⟩ | hfound
  · exact hsweep.labelled
  · exact hfound.labelled

/-- Once nothing is left to be met, a level leads nowhere new. -/
theorem Sweep.closed (h : Sweep S expands origin Val d [] [] f)
    (hlabels : Labels S expands origin first Val) {e : Nat}
    (hn : Within S.next expands origin e n) : Within S.next expands origin d n := by
  rcases Nat.le_total e d with hle | hge
  · exact hn.mono hle
  · obtain ⟨k, rfl⟩ := Nat.exists_eq_add_of_le hge
    induction k generalizing n with
    | zero => exact hn
    | succ k ih =>
      rcases hn with hn | ⟨hexpands, m, hm, hnext⟩
      · exact ih hn (Nat.le_add_right d k)
      · have hwithin : Within S.next expands origin (d + 1) n :=
          .inr ⟨hlabels.below (Nat.le_add_right d k) hexpands, m,
            ih hm (Nat.le_add_right d k), hnext⟩
        obtain ⟨v, hv⟩ := h.seen_next hlabels hwithin
        rcases h.early n v hv with hearly | hmem
        · exact hearly
        · cases hmem

variable {U : Finset N}

theorem pending_begin : pending U (begin origin first) ≤ U.card + 1 :=
  Nat.add_le_add_right (Finset.card_filter_le _ _) 1

/-- A search that has not stopped has visited all that its levels lead to. -/
theorem visited_iff (hlabels : Labels S expands origin first Val)
    (hU : ∀ m, ∀ n ∈ S.next m, n ∈ U) {k : Nat} (hk : U.card + 1 ≤ k)
    (hrunning : (S.run k (begin origin first)).stopped = false) :
    (∃ v, (S.run k (begin origin first)).visited.get? n = some v) ↔
      ∃ d, Within S.next expands origin d n := by
  constructor
  · intro hn
    obtain ⟨v, hv⟩ := hn
    obtain ⟨d, hlevel, -⟩ := run_labelled hlabels k n v hv
    exact ⟨d, hlevel.1⟩
  · intro hn
    obtain ⟨e, he⟩ := hn
    rcases run_sweeps hlabels k with ⟨d, waiting, queued, hsweep⟩ | hfound
    · rcases run_done hU (pending_begin.trans hk) with hstopped | hempty
      · rw [hrunning] at hstopped
        cases hstopped
      · rw [hsweep.queue, List.append_eq_nil_iff] at hempty
        obtain ⟨rfl, rfl⟩ := hempty
        exact hsweep.seen n (hsweep.closed hlabels he)
    · rw [hfound.stopped] at hrunning
      cases hrunning

end Step

end Sweeps

end HopSearch

end PiPlatform.Library
