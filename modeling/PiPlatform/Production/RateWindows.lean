import PiPlatform.Production.Api

/-! The stored rate limiter.

It counts the calls of aligned windows: a row for the tenant, the actor and the window's start,
under a key that is the three with colons between them. So it allows up to twice as many calls
across the border of two windows, and calls of another pair of names are counted where the colons
fall together. `slides_iff` says for which calls it is nevertheless the sliding window that it
is called. -/
namespace PiPlatform.Production.RateWindows

open Library Library.Json

/-- A call of `check`, with the clock's reading. -/
structure CheckCall where
  now : Int
  tenantId : Text
  actorId : Text
  deriving DecidableEq

/-- A text as the database takes it: surrogates that stand alone have no UTF-8. -/
def encode (t : Text) : Option String :=
  if t.all fun c => decide (Nat.isValidChar c.val) then
    some (String.ofList (t.map fun c => Char.ofNat c.val))
  else none

section Checks
variable (limiter : RateLimiter)

/-- None where binding the names raises. -/
def check (windows : Dict String RateWindow) (c : CheckCall) :
    Option Bool × Dict String RateWindow :=
  match encode c.tenantId, encode c.actorId with
  | some tenantId, some actorId =>
    let (allowed, row) := limiter.verdict windows tenantId actorId c.now
    (some allowed, windows.set (limiter.windowKey tenantId actorId c.now).1 row)
  | _, _ => (none, windows)

def checks : System (Dict String RateWindow) CheckCall where
  initial := .empty
  step windows c := (check limiter windows c).2

/-- The answer of a call, after others. -/
def answer (before : List CheckCall) (c : CheckCall) : Option Bool :=
  (check limiter ((checks limiter).after before) c).1

/-! ### What is promised -/

/-- Of one tenant and one actor. -/
def SamePair (c d : CheckCall) : Prop := d.tenantId = c.tenantId ∧ d.actorId = c.actorId

instance (c d : CheckCall) : Decidable (SamePair c d) := inferInstanceAs (Decidable (_ ∧ _))

/-- The calls of which something is true after those before them. -/
def select (p : List CheckCall → CheckCall → Bool) :
    List CheckCall → List CheckCall → List CheckCall
  | _, [] => []
  | before, c :: calls =>
    (if p before c then [c] else []) ++ select p (before ++ [c]) calls

/-- The calls of a pair in the seconds from a start on. -/
def within (start : Int) (c : CheckCall) (calls : List CheckCall) : Nat :=
  calls.countP fun d =>
    decide (SamePair c d ∧ start ≤ d.now ∧ d.now < start + limiter.windowSeconds)

/-- At most the maximum in any window from any start, and no refusal below it. -/
structure Slides (calls : List CheckCall) : Prop where
  bounded : ∀ start c, (within limiter start c
    (select (fun before d => answer limiter before d = some true) [] calls) : Int) ≤
      max 0 limiter.defaultMax
  refused : ∀ before c behind, calls = before ++ c :: behind →
    answer limiter before c = some false → limiter.defaultMax ≤ before.countP fun d =>
      decide (SamePair c d ∧ c.now - limiter.windowSeconds < d.now ∧ d.now ≤ c.now)
  total : ∀ before c behind, calls = before ++ c :: behind → answer limiter before c ≠ none
  /-- The calls of other pairs do not count. -/
  independent : ∀ before c behind, calls = before ++ c :: behind →
    answer limiter before c = answer limiter (before.filter fun d => SamePair c d) c

/-! ### When it holds -/

/-- Both names can be encoded. -/
def CheckCall.Encoded (c : CheckCall) : Prop :=
  (encode c.tenantId).isSome = true ∧ (encode c.actorId).isSome = true

/-- The text of the row's key. -/
def key? (c : CheckCall) : Option String := do
  let tenantId ← encode c.tenantId
  let actorId ← encode c.actorId
  some (limiter.windowKey tenantId actorId c.now).1

/-- How many calls before had the key. -/
def keyCount (before : List CheckCall) (c : CheckCall) : Nat :=
  before.countP fun d => key? limiter d = key? limiter c

/-- How many of the pair there were in the aligned window. -/
def pairCount (before : List CheckCall) (c : CheckCall) : Nat :=
  before.countP fun d =>
    decide (SamePair c d ∧
      d.now.fdiv limiter.windowSeconds = c.now.fdiv limiter.windowSeconds)

/-- Calls on which aligned windows decide as a sliding one does. -/
structure Regular (calls : List CheckCall) : Prop where
  encoded : ∀ c ∈ calls, c.Encoded
  /-- Where too many calls had the key, too many were of the pair. -/
  apart : ∀ before c behind, calls = before ++ c :: behind →
    limiter.defaultMax ≤ keyCount limiter before c → limiter.defaultMax ≤ pairCount limiter before c
  /-- Of the first calls of a pair in each aligned window no more than the maximum fall into the
  seconds from any start on. -/
  spread : ∀ start c, (within limiter start c
    (select (fun before d => (pairCount limiter before d : Int) < limiter.defaultMax) [] calls) :
      Int) ≤ max 0 limiter.defaultMax

end Checks

/-! ### The counts -/

section Counts
variable {limiter : RateLimiter} {before calls : List CheckCall} {c d : CheckCall} {key : String}

theorem check_none (windows : Dict String RateWindow) (h : key? limiter c = none) :
    check limiter windows c = (none, windows) := by
  rw [check]
  rw [key?] at h
  split
  · next htenant hactor =>
    rw [htenant, hactor] at h
    cases h
  · rfl

/-- A check counts the call in the row of its key. -/
theorem check_some (windows : Dict String RateWindow) (h : key? limiter c = some key) :
    ∃ row : RateWindow,
      row.requestCount = (windows.get? key).elim 0 (·.requestCount) + 1 ∧
      check limiter windows c =
        (some (decide ((windows.get? key).elim 0 (·.requestCount) + 1 ≤ limiter.defaultMax)),
          windows.set key row) := by
  cases htenant : encode c.tenantId with
  | none =>
    simp only [key?, htenant] at h
    cases h
  | some tenantId =>
    cases hactor : encode c.actorId with
    | none =>
      simp only [key?, htenant, hactor] at h
      cases h
    | some actorId =>
      simp only [key?, htenant, hactor] at h
      have hkey : (limiter.windowKey tenantId actorId c.now).1 = key := Option.some.inj h
      have hcounted : (limiter.counted windows tenantId actorId c.now).requestCount =
          (windows.get? key).elim 0 (·.requestCount) + 1 := by
        rw [RateLimiter.counted]
        simp only [hkey]
        cases windows.get? key with
        | none => rfl
        | some row => rfl
      refine ⟨(limiter.verdict windows tenantId actorId c.now).2, ?_, ?_⟩
      · rw [RateLimiter.verdict, ← hcounted]
        split <;> rfl
      · simp only [check, htenant, hactor, hkey]
        refine Prod.ext (congrArg some ?_) rfl
        rw [RateLimiter.verdict, ← hcounted]
        split
        · next hle => exact (decide_eq_true hle).symm
        · next hle => exact (decide_eq_false hle).symm

/-- The rows count what had their keys. -/
theorem requestCount_after (before : List CheckCall) (key : String) :
    (((checks limiter).after before).get? key).elim 0 (·.requestCount) =
      (before.countP fun d => key? limiter d = some key : Nat) := by
  induction before using List.reverseRecOn with
  | nil => rfl
  | append_singleton before d ih =>
    rw [System.after_snoc, List.countP_append]
    show (((check limiter ((checks limiter).after before) d).2).get? key).elim _ _ = _
    cases hkey : key? limiter d with
    | none =>
      rw [check_none _ hkey, ih]
      simp [hkey]
    | some key' =>
      obtain ⟨row, hrow, hcheck⟩ := check_some ((checks limiter).after before) hkey
      rw [hcheck, Dict.get?_set]
      by_cases heq : key' = key
      · subst heq
        rw [if_pos rfl, Option.elim_some, hrow, ih]
        simp [hkey]
      · rw [if_neg heq, ih]
        simp [hkey, heq]

theorem answer_some (h : key? limiter c = some key) : answer limiter before c =
    some (decide ((keyCount limiter before c : Int) < limiter.defaultMax)) := by
  obtain ⟨row, -, hcheck⟩ := check_some ((checks limiter).after before) h
  rw [answer, hcheck, requestCount_after, keyCount, h]
  refine congrArg some (decide_eq_decide.mpr ?_)
  omega

theorem answer_none (h : key? limiter c = none) : answer limiter before c = none := by
  rw [answer, check_none _ h]

theorem key?_isSome : (∃ key, key? limiter c = some key) ↔ c.Encoded := by
  rw [key?, CheckCall.Encoded]
  cases encode c.tenantId <;> cases encode c.actorId <;> simp

/-- The calls of one pair are told apart by their aligned windows. -/
theorem key?_eq_iff (hwindow : 0 < limiter.windowSeconds) (h : key? limiter c = some key)
    (hpair : SamePair c d) : key? limiter d = key? limiter c ↔
      d.now.fdiv limiter.windowSeconds = c.now.fdiv limiter.windowSeconds := by
  obtain ⟨htenant, hactor⟩ := hpair
  obtain ⟨hencoded, hencoded'⟩ := key?_isSome.mp ⟨key, h⟩
  obtain ⟨tenantId, ht⟩ := Option.isSome_iff_exists.mp hencoded
  obtain ⟨actorId, ha⟩ := Option.isSome_iff_exists.mp hencoded'
  have hkey : ∀ e : CheckCall, e.tenantId = c.tenantId → e.actorId = c.actorId →
      key? limiter e = some (tenantId ++ ":" ++ actorId ++ ":" ++
        intString (e.now.fdiv limiter.windowSeconds * limiter.windowSeconds)) := by
    intro e he he'
    rw [key?, he, he', ht, ha]
    rfl
  rw [hkey d htenant hactor, hkey c rfl rfl, Option.some.injEq]
  constructor
  · intro heq
    have hsplit : ∀ n : Int, (tenantId ++ ":" ++ actorId ++ ":" ++ intString n).toList =
        (tenantId ++ ":" ++ actorId ++ ":").toList ++ intText n := fun n => by
      rw [String.toList_append, intString, String.toList_ofList]
    have htext := congrArg String.toList heq
    rw [hsplit, hsplit] at htext
    have hstart := intText_injective (List.append_cancel_left htext)
    exact Int.eq_of_mul_eq_mul_right (ne_of_gt hwindow) hstart
  · intro heq
    rw [heq]

/-- Without the calls of other pairs the key's calls are the pair's. -/
theorem keyCount_filter (hwindow : 0 < limiter.windowSeconds) (h : key? limiter c = some key) :
    keyCount limiter (before.filter fun d => SamePair c d) c = pairCount limiter before c := by
  rw [keyCount, pairCount, List.countP_filter]
  refine List.countP_congr fun d _ => ?_
  rw [Bool.and_eq_true, decide_eq_true_eq, decide_eq_true_eq, decide_eq_true_eq]
  rw [and_comm]
  exact and_congr_right fun hpair => key?_eq_iff hwindow h hpair

/-- The pair's calls have the key. -/
theorem pairCount_le (before : List CheckCall) (hwindow : 0 < limiter.windowSeconds)
    (h : key? limiter c = some key) : pairCount limiter before c ≤ keyCount limiter before c := by
  rw [← keyCount_filter hwindow h]
  exact List.filter_sublist.countP_le

/-- And they are not older than a window. -/
theorem pairCount_le_within (hwindow : 0 < limiter.windowSeconds) (before : List CheckCall)
    (c : CheckCall) (hclock : ∀ d ∈ before, d.now ≤ c.now) :
    pairCount limiter before c ≤ before.countP fun d =>
      decide (SamePair c d ∧ c.now - limiter.windowSeconds < d.now ∧ d.now ≤ c.now) := by
  refine List.countP_mono_left fun d hd hcounted => ?_
  obtain ⟨hpair, hsame⟩ := of_decide_eq_true hcounted
  refine decide_eq_true ⟨hpair, ?_, hclock d hd⟩
  rw [Int.fdiv_eq_ediv_of_nonneg _ hwindow.le, Int.fdiv_eq_ediv_of_nonneg _ hwindow.le] at hsame
  have hd' := Int.mul_ediv_add_emod d.now limiter.windowSeconds
  have hc' := Int.mul_ediv_add_emod c.now limiter.windowSeconds
  have hpos := Int.emod_nonneg d.now (ne_of_gt hwindow)
  have hlt := Int.emod_lt_of_pos c.now hwindow
  rw [hsame] at hd'
  omega

theorem select_congr {p q : List CheckCall → CheckCall → Bool} {all : List CheckCall}
    (h : ∀ before c behind, all = before ++ c :: behind → p before c = q before c)
    (before calls : List CheckCall) (hall : all = before ++ calls) :
    select p before calls = select q before calls := by
  induction calls generalizing before with
  | nil => rfl
  | cons c calls ih =>
    rw [select, select, h before c calls hall, ih (before ++ [c]) (by simp [hall])]

end Counts

/-- The limiter is the sliding window it is called, for calls as the clock goes on, exactly if
they are regular. -/
theorem slides_iff (limiter : RateLimiter) (hwindow : 0 < limiter.windowSeconds)
    (calls : List CheckCall) (hclock : calls.Pairwise fun c d => c.now ≤ d.now) :
    Slides limiter calls ↔ Regular limiter calls := by
  have hmem : ∀ before c behind, calls = before ++ c :: behind → c ∈ calls := by
    rintro before c behind rfl
    exact List.mem_append_right _ (List.mem_cons_self ..)
  constructor
  · intro h
    have hencoded : ∀ c ∈ calls, c.Encoded := by
      intro c hc
      obtain ⟨before, behind, heq⟩ := List.append_of_mem hc
      cases hkey : key? limiter c with
      | none => exact absurd (answer_none hkey) (h.total before c behind heq)
      | some key => exact key?_isSome.mp ⟨key, hkey⟩
    have hanswer : ∀ before c behind, calls = before ++ c :: behind →
        (keyCount limiter before c < limiter.defaultMax ↔
          pairCount limiter before c < limiter.defaultMax) ∧ answer limiter before c =
            some (decide ((pairCount limiter before c : Int) < limiter.defaultMax)) := by
      intro before c behind heq
      obtain ⟨key, hkey⟩ := key?_isSome.mpr (hencoded c (hmem before c behind heq))
      have hsame := h.independent before c behind heq
      rw [answer_some hkey, answer_some hkey, keyCount_filter hwindow hkey] at hsame
      refine ⟨decide_eq_decide.mp (Option.some.inj hsame), ?_⟩
      rw [answer_some hkey, hsame]
    refine ⟨hencoded, fun before c behind heq hle => ?_, fun start c => ?_⟩
    · have hiff := (hanswer before c behind heq).1
      omega
    · have hselect := select_congr (p := fun before d => answer limiter before d = some true)
        (q := fun before d => (pairCount limiter before d : Int) < limiter.defaultMax)
        (fun before c behind heq => by rw [(hanswer before c behind heq).2]; simp) [] calls rfl
      rw [← hselect]
      exact h.bounded start c
  · intro h
    have hanswer : ∀ before c behind, calls = before ++ c :: behind →
        answer limiter before c =
          some (decide ((pairCount limiter before c : Int) < limiter.defaultMax)) ∧
        answer limiter (before.filter fun d => SamePair c d) c = answer limiter before c := by
      intro before c behind heq
      obtain ⟨key, hkey⟩ := key?_isSome.mpr (h.encoded c (hmem before c behind heq))
      have hle := pairCount_le before hwindow hkey
      have hapart := h.apart before c behind heq
      have hiff : (keyCount limiter before c : Int) < limiter.defaultMax ↔
          (pairCount limiter before c : Int) < limiter.defaultMax := by omega
      rw [answer_some hkey, answer_some hkey, keyCount_filter hwindow hkey,
        decide_eq_decide.mpr hiff]
      exact ⟨rfl, rfl⟩
    refine ⟨fun start c => ?_, ?_, ?_, ?_⟩
    · have hselect := select_congr (p := fun before d => answer limiter before d = some true)
        (q := fun before d => (pairCount limiter before d : Int) < limiter.defaultMax)
        (fun before c behind heq => by rw [(hanswer before c behind heq).1]; simp) [] calls rfl
      rw [hselect]
      exact h.spread start c
    · intro before c behind heq hrefused
      rw [(hanswer before c behind heq).1, Option.some.injEq, decide_eq_false_iff_not] at hrefused
      have hle := pairCount_le_within hwindow before c fun d hd =>
        (List.pairwise_append.mp (heq ▸ hclock)).2.2 d hd c (List.mem_cons_self ..)
      omega
    · intro before c behind heq
      rw [(hanswer before c behind heq).1]
      exact Option.some_ne_none _
    · exact fun before c behind heq => (hanswer before c behind heq).2.symm

/-! ### Across a border -/

def oneAMinute : RateLimiter := ⟨1, 60⟩

def callAt (now : Int) : CheckCall := ⟨now, ofString "acme", ofString "scanner"⟩

instance (c : CheckCall) : Decidable c.Encoded := inferInstanceAs (Decidable (_ ∧ _))

/-- Two calls of two minutes. -/
theorem slides_minutes : Slides oneAMinute [callAt 0, callAt 60] := by
  refine (slides_iff oneAMinute (by decide) _ (by decide)).mpr ⟨by decide +kernel, ?_, ?_⟩
  · intro before c behind heq
    have hnone : keyCount oneAMinute before c = 0 := by
      rcases before with _ | ⟨b, _ | ⟨b', before⟩⟩
      · rfl
      · obtain ⟨rfl, rfl, -⟩ : callAt 0 = b ∧ callAt 60 = c ∧ [] = behind := by simpa using heq
        decide +kernel
      · have hlength := congrArg List.length heq
        simp at hlength
    rw [hnone]
    exact fun h => absurd h (by decide)
  · intro start c
    have hselect : select (fun before d =>
        (pairCount oneAMinute before d : Int) < oneAMinute.defaultMax) [] [callAt 0, callAt 60] =
          [callAt 0, callAt 60] := by decide +kernel
    rw [hselect, within]
    have hborder : ¬ ((start ≤ (callAt 0).now ∧ (callAt 0).now < start + 60) ∧
        start ≤ (callAt 60).now ∧ (callAt 60).now < start + 60) := by
      simp only [callAt]
      omega
    rw [List.countP_cons, List.countP_cons, List.countP_nil]
    split
    · next hlate =>
      split
      · next hearly =>
        exact absurd ⟨(of_decide_eq_true hearly).2, (of_decide_eq_true hlate).2⟩ hborder
      · exact le_max_of_le_right (by decide)
    · split <;> exact le_max_of_le_right (by decide)

/-- Two calls of two seconds, in two minutes. -/
theorem not_slides_seconds : ¬ Slides oneAMinute [callAt 59, callAt 60] := by
  intro h
  exact absurd (h.bounded 59 (callAt 59)) (by decide +kernel)

end PiPlatform.Production.RateWindows
