import Mathlib.Algebra.Order.Field.Rat
import Mathlib.Data.List.TakeWhile
import PiPlatform.Library.Dict

/-! The rate limiter in memory.

Each key has a bucket with the times of its allowed hits, from the front of which a hit drops what
is older than the window. Refused hits leave no time behind, so the bucket is the part of the
allowed hits that the window can still see (`Kept`), and the limiter is exact. -/
namespace PiPlatform.Interceptor

open Library

structure RateLimiter where
  maxEvents : Int
  window : ℚ
  buckets : Dict String (List ℚ)

namespace RateLimiter

/-- `_RateLimiter(max_events, window_seconds)` -/
def make (maxEvents : Int) (windowSeconds : ℚ) : RateLimiter :=
  ⟨max 1 maxEvents, max (1 / 10) windowSeconds, .empty⟩

def bucket (l : RateLimiter) (key : String) : List ℚ := (l.buckets.get? key).getD []

/-- `_RateLimiter.hit` -/
def hit (l : RateLimiter) (now : ℚ) (key : String) : Bool × RateLimiter :=
  let q := (l.bucket key).dropWhile (· < now - l.window)
  if l.maxEvents ≤ q.length then (false, { l with buckets := l.buckets.set key q })
  else (true, { l with buckets := l.buckets.set key (q ++ [now]) })

end RateLimiter

/-- A hit that was made, and its answer. -/
structure PastHit where
  time : ℚ
  key : String
  allowed : Bool

/-- The limiter and what happened so far. -/
structure Hits where
  limiter : RateLimiter
  past : List PastHit

def Hits.next (s : Hits) (call : ℚ × String) : Hits :=
  let r := s.limiter.hit call.1 call.2
  ⟨r.2, s.past ++ [⟨call.1, call.2, r.1⟩]⟩

def hitsAfter (maxEvents : Int) (windowSeconds : ℚ) (calls : List (ℚ × String)) : Hits :=
  calls.foldl Hits.next ⟨.make maxEvents windowSeconds, []⟩

/-- The times of the allowed hits of a key. -/
def allowedTimes (past : List PastHit) (key : String) : List ℚ :=
  (past.filter fun h => h.key = key && h.allowed).map (·.time)

theorem allowedTimes_snoc (past : List PastHit) (h : PastHit) (key : String) :
    allowedTimes (past ++ [h]) key =
      allowedTimes past key ++ if h.key = key ∧ h.allowed = true then [h.time] else [] := by
  rw [allowedTimes, List.filter_append, List.map_append, List.filter_singleton]
  by_cases hkey : h.key = key
  · cases hallowed : h.allowed <;> simp [hkey, allowedTimes]
  · simp [hkey, allowedTimes]

/-! ### What a bucket keeps -/

/-- The bucket is what is left of the allowed hits, and what is gone no window will see again. -/
structure Kept (s : Hits) (now : ℚ) (key : String) : Prop where
  parts : ∃ gone, allowedTimes s.past key = gone ++ s.limiter.bucket key ∧
    ∀ x ∈ gone, x < now - s.limiter.window
  sorted : (allowedTimes s.past key).Pairwise (· ≤ ·)
  le_now : ∀ x ∈ allowedTimes s.past key, x ≤ now

theorem Kept.later {s : Hits} {now later : ℚ} {key : String} (h : Kept s now key)
    (hle : now ≤ later) : Kept s later key := by
  obtain ⟨gone, hparts, hgone⟩ := h.parts
  refine ⟨⟨gone, hparts, fun x hx => (hgone x hx).trans_le ?_⟩, h.sorted,
    fun x hx => (h.le_now x hx).trans hle⟩
  exact sub_le_sub_right hle _

/-- In an ordered list, what is not early stands behind what is. -/
theorem filter_eq_dropWhile {xs : List ℚ} (h : xs.Pairwise (· ≤ ·)) (cutoff : ℚ) :
    xs.filter (fun x => cutoff ≤ x) = xs.dropWhile (· < cutoff) := by
  induction xs with
  | nil => rfl
  | cons x xs ih =>
    obtain ⟨hx, hxs⟩ := List.pairwise_cons.mp h
    by_cases hearly : x < cutoff
    · rw [List.filter_cons_of_neg (by simpa using hearly),
        List.dropWhile_cons_of_pos (by simpa using hearly), ih hxs]
    · rw [List.dropWhile_cons_of_neg (by simpa using hearly), List.filter_eq_self]
      refine List.forall_mem_cons.mpr ⟨by simpa using hearly, fun y hy => ?_⟩
      simpa using (not_lt.mp hearly).trans (hx y hy)

/-- What a hit finds in its bucket. -/
theorem Kept.seen {s : Hits} {now : ℚ} {key : String} (h : Kept s now key) :
    (s.limiter.bucket key).dropWhile (· < now - s.limiter.window) =
      (allowedTimes s.past key).filter fun x => now - s.limiter.window ≤ x := by
  obtain ⟨gone, hparts, hgone⟩ := h.parts
  have hsorted := h.sorted
  rw [hparts] at hsorted
  have hnone : (gone.filter fun x => now - s.limiter.window ≤ x) = [] :=
    List.filter_eq_nil_iff.mpr fun x hx h => absurd (of_decide_eq_true h) (not_le.mpr (hgone x hx))
  rw [hparts, List.filter_append, hnone, List.nil_append,
    filter_eq_dropWhile (List.pairwise_append.mp hsorted).2.1]

/-! ### One hit -/

/-- The allowed hits of a key that a hit at this time still counts. -/
def recent (s : Hits) (now : ℚ) (key : String) : List ℚ :=
  (allowedTimes s.past key).filter fun x => now - s.limiter.window ≤ x

namespace RateLimiter

theorem bucket_set (l : RateLimiter) (key other : String) (q : List ℚ) :
    ({ l with buckets := l.buckets.set key q } : RateLimiter).bucket other =
      if key = other then q else l.bucket other := by
  rw [bucket, Dict.get?_set]
  split_ifs
  · rfl
  · rfl

/-- A hit by what it finds in its bucket. -/
theorem hit_eq (l : RateLimiter) (now : ℚ) (key : String) {q : List ℚ}
    (hq : (l.bucket key).dropWhile (· < now - l.window) = q) :
    l.hit now key = (decide ((q.length : Int) < l.maxEvents), { l with
      buckets := l.buckets.set key (q ++
        if (q.length : Int) < l.maxEvents then [now] else []) }) := by
  rw [hit, hq]
  by_cases hfull : l.maxEvents ≤ q.length
  · rw [if_pos hfull, if_neg (not_lt.mpr hfull), decide_eq_false (not_lt.mpr hfull),
      List.append_nil]
  · rw [if_neg hfull, if_pos (not_le.mp hfull), decide_eq_true (not_le.mp hfull)]

end RateLimiter

section Step
variable {s : Hits} {now : ℚ} {key : String}

theorem Kept.next_eq (h : Kept s now key) : s.next (now, key) =
    ⟨{ s.limiter with buckets := s.limiter.buckets.set key (recent s now key ++
        if ((recent s now key).length : Int) < s.limiter.maxEvents then [now] else []) },
      s.past ++ [⟨now, key, decide (((recent s now key).length : Int) <
        s.limiter.maxEvents)⟩]⟩ := by
  rw [Hits.next, s.limiter.hit_eq now key h.seen]
  rfl

theorem Kept.hit_iff (h : Kept s now key) :
    (s.limiter.hit now key).1 = true ↔ ((recent s now key).length : Int) < s.limiter.maxEvents := by
  rw [s.limiter.hit_eq now key h.seen]
  exact decide_eq_true_iff

theorem Kept.times_next (h : Kept s now key) (other : String) :
    allowedTimes (s.next (now, key)).past other = allowedTimes s.past other ++
      if key = other ∧ ((recent s now key).length : Int) < s.limiter.maxEvents then
        [now] else [] := by
  rw [h.next_eq, allowedTimes_snoc]
  simp only [decide_eq_true_iff]

theorem Kept.window_next (h : Kept s now key) :
    (s.next (now, key)).limiter.window = s.limiter.window := by rw [h.next_eq]

theorem Kept.maxEvents_next (h : Kept s now key) :
    (s.next (now, key)).limiter.maxEvents = s.limiter.maxEvents := by rw [h.next_eq]

/-- An ordered list is what is early and the rest. -/
theorem Kept.split (h : Kept s now key) : allowedTimes s.past key =
    (allowedTimes s.past key).takeWhile (· < now - s.limiter.window) ++ recent s now key := by
  rw [recent, filter_eq_dropWhile h.sorted, List.takeWhile_append_dropWhile]

/-- What a hit makes of its bucket. -/
theorem Kept.next_self (h : Kept s now key) : Kept (s.next (now, key)) now key := by
  have hadded : ∀ x ∈ (if key = key ∧ ((recent s now key).length : Int) < s.limiter.maxEvents then
      [now] else []), x = now := by
    split_ifs
    · exact fun x hx => List.mem_singleton.mp hx
    · exact List.forall_mem_nil _
  refine ⟨⟨(allowedTimes s.past key).takeWhile (· < now - s.limiter.window), ?_, fun x hx => ?_⟩,
    ?_, fun x hx => ?_⟩
  · have hbucket : (s.next (now, key)).limiter.bucket key = recent s now key ++
        if ((recent s now key).length : Int) < s.limiter.maxEvents then [now] else [] := by
      rw [h.next_eq, RateLimiter.bucket_set, if_pos rfl]
    rw [h.times_next, hbucket, ← List.append_assoc, ← h.split]
    simp only [true_and]
  · rw [h.window_next]
    simpa using List.mem_takeWhile_imp hx
  · rw [h.times_next]
    refine List.pairwise_append.mpr ⟨h.sorted, ?_, fun x hx y hy => ?_⟩
    · split_ifs
      · exact List.pairwise_singleton _ _
      · exact List.Pairwise.nil
    · rw [hadded y hy]
      exact h.le_now x hx
  · rw [h.times_next] at hx
    rcases List.mem_append.mp hx with hx | hx
    · exact h.le_now x hx
    · exact (hadded x hx).le

/-- A hit of another key leaves the bucket alone. -/
theorem Kept.next_other (h : Kept s now key) {other : String} (hother : Kept s now other)
    (hne : key ≠ other) : Kept (s.next (now, key)) now other := by
  have htimes : allowedTimes (s.next (now, key)).past other = allowedTimes s.past other := by
    rw [h.times_next, if_neg fun heq => hne heq.1, List.append_nil]
  have hbucket : (s.next (now, key)).limiter.bucket other = s.limiter.bucket other := by
    rw [h.next_eq, RateLimiter.bucket_set, if_neg hne]
  refine ⟨?_, htimes ▸ hother.sorted, htimes ▸ hother.le_now⟩
  rw [htimes, hbucket, h.window_next]
  exact hother.parts

/-- A step for all buckets. -/
theorem kept_next (h : ∀ key, Kept s now key) (key other : String) :
    Kept (s.next (now, key)) now other := by
  by_cases hne : key = other
  · rw [← hne]
    exact (h key).next_self
  · exact (h key).next_other (h other) hne

end Step

/-! ### Runs -/

/-- In every closed interval as long as the window, a key has at most so many allowed hits. -/
def Bounded (s : Hits) : Prop :=
  ∀ key a, (((allowedTimes s.past key).filter fun x =>
    a ≤ x ∧ x ≤ a + s.limiter.window).length : Int) ≤ s.limiter.maxEvents

theorem bounded_next {s : Hits} {now : ℚ} {key : String} (h : Kept s now key)
    (hbounded : Bounded s) : Bounded (s.next (now, key)) := by
  intro other a
  have hold := hbounded other a
  rw [h.times_next, h.window_next, h.maxEvents_next, List.filter_append, List.length_append]
  by_cases hadded : (key = other ∧ ((recent s now key).length : Int) < s.limiter.maxEvents) ∧
      a ≤ now ∧ now ≤ a + s.limiter.window
  · obtain ⟨⟨rfl, hfree⟩, hafter, hbefore⟩ := hadded
    -- all of the interval that came before, the new hit still counts
    have hsublist : ((allowedTimes s.past key).filter fun x =>
        a ≤ x ∧ x ≤ a + s.limiter.window).length ≤ (recent s now key).length := by
      refine List.Sublist.length_le (List.monotone_filter_right _ fun x hx => ?_)
      exact decide_eq_true ((sub_le_iff_le_add.mpr hbefore).trans (of_decide_eq_true hx).1)
    have hone : ((if key = key ∧ ((recent s now key).length : Int) < s.limiter.maxEvents then
        [now] else []).filter fun x => a ≤ x ∧ x ≤ a + s.limiter.window).length ≤ 1 :=
      (List.length_filter_le _ _).trans (by split_ifs <;> simp)
    omega
  · have hnone : ((if key = other ∧ ((recent s now key).length : Int) < s.limiter.maxEvents then
        [now] else []).filter fun x => a ≤ x ∧ x ≤ a + s.limiter.window) = [] := by
      rw [List.filter_eq_nil_iff]
      intro x hx
      split_ifs at hx with hfree
      · rw [List.mem_singleton.mp hx, decide_eq_true_iff]
        exact fun hin => hadded ⟨hfree, hin⟩
      · cases hx
    rw [hnone, List.length_nil, Nat.add_zero]
    exact hold

section Runs
variable (maxEvents : Int) (windowSeconds : ℚ)

theorem hitsAfter_snoc (calls : List (ℚ × String)) (call : ℚ × String) :
    hitsAfter maxEvents windowSeconds (calls ++ [call]) =
      (hitsAfter maxEvents windowSeconds calls).next call := List.foldl_append ..

/-- What holds after calls that came in order, at any time from the last of them on. -/
theorem hitsAfter_inv {calls : List (ℚ × String)}
    (hsorted : (calls.map Prod.fst).Pairwise (· ≤ ·)) :
    (∀ now, (∀ call ∈ calls, call.1 ≤ now) →
      ∀ key, Kept (hitsAfter maxEvents windowSeconds calls) now key) ∧
    Bounded (hitsAfter maxEvents windowSeconds calls) ∧
    (hitsAfter maxEvents windowSeconds calls).limiter.window = max (1 / 10) windowSeconds ∧
    (hitsAfter maxEvents windowSeconds calls).limiter.maxEvents = max 1 maxEvents := by
  induction calls using List.reverseRecOn with
  | nil =>
    refine ⟨fun now _ key => ⟨⟨[], rfl, List.forall_mem_nil _⟩, List.Pairwise.nil,
      List.forall_mem_nil _⟩, fun key a => ?_, rfl, rfl⟩
    exact (zero_le_one.trans (le_max_left 1 maxEvents) : (0 : Int) ≤ max 1 maxEvents)
  | append_singleton calls call ih =>
    obtain ⟨now, key⟩ := call
    rw [List.map_append, List.pairwise_append] at hsorted
    obtain ⟨hcalls, -, hlast⟩ := hsorted
    obtain ⟨hkept, hbounded, hwindow, hmax⟩ := ih hcalls
    have hnow : ∀ call ∈ calls, call.1 ≤ now := fun call hcall =>
      hlast call.1 (List.mem_map_of_mem hcall) now (List.mem_singleton_self _)
    have hnext := (hkept now hnow key).next_eq
    rw [hitsAfter_snoc]
    refine ⟨fun later hlater other => ?_, bounded_next (hkept now hnow key) hbounded, ?_, ?_⟩
    · refine (kept_next (hkept now hnow) key other).later ?_
      exact hlater (now, key) (List.mem_append_right _ (List.mem_singleton_self _))
    · rw [hnext]
      exact hwindow
    · rw [hnext]
      exact hmax

/-- A hit is allowed exactly when fewer than so many hits of its key were allowed in the window
before it, and no closed interval as long as the window has more than so many. -/
theorem hit_exact {calls : List (ℚ × String)} (hsorted : (calls.map Prod.fst).Pairwise (· ≤ ·)) :
    (∀ before now key later, calls = before ++ (now, key) :: later →
      (((hitsAfter maxEvents windowSeconds before).limiter.hit now key).1 = true ↔
        (((allowedTimes (hitsAfter maxEvents windowSeconds before).past key).filter fun x =>
          now - max (1 / 10) windowSeconds ≤ x).length : Int) < max 1 maxEvents)) ∧
    ∀ key a, (((allowedTimes (hitsAfter maxEvents windowSeconds calls).past key).filter fun x =>
      a ≤ x ∧ x ≤ a + max (1 / 10) windowSeconds).length : Int) ≤ max 1 maxEvents := by
  constructor
  · intro before now key later heq
    rw [heq, List.map_append, List.pairwise_append] at hsorted
    obtain ⟨hbefore, -, hlast⟩ := hsorted
    obtain ⟨hkept, -, hwindow, hmax⟩ := hitsAfter_inv maxEvents windowSeconds hbefore
    have hnow : ∀ call ∈ before, call.1 ≤ now := fun call hcall =>
      hlast call.1 (List.mem_map_of_mem hcall) now (List.mem_cons_self ..)
    rw [(hkept now hnow key).hit_iff, recent, hwindow, hmax]
  · obtain ⟨-, hbounded, hwindow, hmax⟩ := hitsAfter_inv maxEvents windowSeconds hsorted
    intro key a
    have hle := hbounded key a
    rwa [hwindow, hmax] at hle

end Runs

theorem two_hits_exact :
    (∀ before now key later,
      ([(0, "10.0.0.1"), (30, "10.0.0.1")] : List (ℚ × String)) = before ++ (now, key) :: later →
      (((hitsAfter 1 60 before).limiter.hit now key).1 = true ↔
        (((allowedTimes (hitsAfter 1 60 before).past key).filter fun x =>
          now - max (1 / 10) 60 ≤ x).length : Int) < max 1 1)) ∧
    ∀ key a, (((allowedTimes (hitsAfter 1 60 [(0, "10.0.0.1"), (30, "10.0.0.1")]).past key).filter
      fun x => a ≤ x ∧ x ≤ a + max (1 / 10) 60).length : Int) ≤ max 1 1 :=
  hit_exact 1 60 (by decide +kernel)

end PiPlatform.Interceptor
