import PiPlatform.EventFabric.Governance.Engine

/-! What governance decisions guarantee.

A policy that denies has the last word wherever it stands, and without one the last
word is with the matching `ALLOW` or `REQUIRE_APPROVAL` that is evaluated last. So the
engine is fail-closed for any policies in any order (`evaluate_fail_closed`). It is not
the policy of highest priority that decides, though, but one of lowest
(`evaluate_highest_iff`), and of several such policies it is the one loaded last
(`evaluate_orders_iff`). -/
namespace PiPlatform.EventFabric.Governance

open Library Library.Python GovernanceEngine

variable {C V : Type} {context : C} {loaded : List (CompiledPolicy C)} {p : CompiledPolicy C}

/-! ### Policies and their matches -/

theorem mem_hitsOf {policies : List (CompiledPolicy C)} {m : Match} :
    m ∈ hitsOf policies context ↔
      ∃ p ∈ policies, p.hits context = true ∧ p.toMatch = m := by
  simp [hitsOf, List.mem_map, List.mem_filter, and_assoc]

/-- What is true of every match is true of every loaded policy that matches. -/
theorem forall_hitsOf {P : Match → Prop} :
    (∀ m ∈ hitsOf (loadAll loaded).policies context, P m) ↔
      ∀ p ∈ loaded, p.hits context = true → P p.toMatch := by
  constructor
  · exact fun h p hp hhits => h _ (mem_hitsOf.mpr ⟨p, mem_loadAll.mpr hp, hhits, rfl⟩)
  · intro h m hm
    obtain ⟨p, hp, hhits, rfl⟩ := mem_hitsOf.mp hm
    exact h p (mem_loadAll.mp hp) hhits

theorem exists_hitsOf {P : Match → Prop} :
    (∃ m ∈ hitsOf (loadAll loaded).policies context, P m) ↔
      ∃ p ∈ loaded, p.hits context = true ∧ P p.toMatch := by
  constructor
  · rintro ⟨m, hm, hP⟩
    obtain ⟨p, hp, hhits, rfl⟩ := mem_hitsOf.mp hm
    exact ⟨p, mem_loadAll.mp hp, hhits, hP⟩
  · rintro ⟨p, hp, hhits, hP⟩
    exact ⟨_, mem_hitsOf.mpr ⟨p, mem_loadAll.mpr hp, hhits, rfl⟩, hP⟩

/-- The policies that match and pass a test, in the order they are evaluated. -/
theorem stableSort_hits (loaded : List (CompiledPolicy C)) (context : C)
    (test : CompiledPolicy C → Bool) :
    StableSort (fun p => p.priority)
      (loaded.filter fun p => p.hits context && test p)
      ((loadAll loaded).policies.filter fun p => p.hits context && test p) :=
  (stableSort_loadAll loaded).filter _

/-! ### Fail-closed -/

/-- The matching `DENY` that comes first by priority, and then by loading. -/
structure IsFirstDeny (loaded : List (CompiledPolicy C)) (context : C) (i : Nat)
    (p : CompiledPolicy C) : Prop where
  place : loaded[i]? = some p
  denies : p.effect = .deny
  hits : p.hits context = true
  least : ∀ j q, loaded[j]? = some q → q.effect = .deny → q.hits context = true →
    p.priority < q.priority ∨ p.priority = q.priority ∧ i ≤ j

theorem IsFirstDeny.unique {i j : Nat} {p q : CompiledPolicy C}
    (hp : IsFirstDeny loaded context i p) (hq : IsFirstDeny loaded context j q) : p = q := by
  have hij := hp.least j q hq.place hq.denies hq.hits
  have hji := hq.least i p hp.place hp.denies hp.hits
  obtain rfl : i = j := by omega
  exact Option.some.inj (hp.place.symm.trans hq.place)

/-- The first policy that denies in the order of evaluation is that one. -/
theorem isFirstDeny_of_find?
    (h : (loadAll loaded).policies.find? (fun p => p.hits context && decide (p.effect = .deny)) =
      some p) : ∃ i, IsFirstDeny loaded context i p := by
  have hsort := stableSort_hits loaded context fun p => decide (p.effect = .deny)
  rw [← List.head?_filter] at h
  obtain ⟨hhead, hleast⟩ := hsort.head? h
  rw [List.filter_filter, List.head?_filter] at hhead
  obtain ⟨htest, i, hi, rfl, hbefore⟩ := List.find?_eq_some_iff_getElem.mp hhead
  simp only [decide_true, Bool.true_and, Bool.and_eq_true, decide_eq_true_iff] at htest
  refine ⟨i, List.getElem?_eq_getElem hi, htest.2, htest.1, fun j q hj hdeny hhits => ?_⟩
  obtain ⟨hjlt, rfl⟩ := List.getElem?_eq_some_iff.mp hj
  have hle := hleast loaded[j] (List.mem_filter.mpr ⟨List.getElem_mem hjlt, by simp [hhits, hdeny]⟩)
  rcases lt_or_eq_of_le hle with hlt | heq
  · exact .inl hlt
  · refine .inr ⟨heq, not_lt.mp fun hji => ?_⟩
    have := hbefore j hji
    simp [hhits, hdeny, heq] at this

theorem find?_denies (policies : List (CompiledPolicy C)) :
    ((hitsOf policies context).find? Match.denies).map (fun m => m.ruleId) =
      (policies.find? fun p => p.hits context && decide (p.effect = .deny)).map
        fun p => p.ruleId := by
  rw [hitsOf, List.find?_map, List.find?_filter, Option.map_map]
  simp only [Bool.decide_and, Bool.decide_eq_true]
  rfl

/-- **Main theorem.** Whatever is loaded in whatever order, the engine denies when a
`DENY` matches or nothing that decides does, decides otherwise only as a matching policy
says, and names the first `DENY` that matches. -/
theorem evaluate_fail_closed (T : DecisionText C V) (loaded : List (CompiledPolicy C)) (context : C)
    (h : NoneRaises loaded context) :
    ∃ d, evaluate T (loadAll loaded) context = .ok d ∧
      ((∃ p ∈ loaded, p.effect = .deny ∧ p.hits context = true) ∨
          (∀ p ∈ loaded, p.effect = .allow ∨ p.effect = .requireApproval →
            p.hits context = false) → d.effect = .deny) ∧
      (d.effect ≠ .deny → (d.effect = .allow ∨ d.effect = .requireApproval) ∧
        (∃ p ∈ loaded, p.effect = d.effect ∧ p.hits context = true) ∧
        ∀ p ∈ loaded, p.effect = .deny → p.hits context = false) ∧
      (d.deniedBy.isSome = true ↔ ∃ p ∈ loaded, p.effect = .deny ∧ p.hits context = true) ∧
      ∀ r, d.deniedBy = some r ↔ ∃ i p, IsFirstDeny loaded context i p ∧ p.ruleId = r := by
  obtain ⟨d, hd, heffect, -, hdenied⟩ := evaluate_eq T h.loadAll
  rw [find?_denies] at hdenied
  have hnamed : ∀ r, d.deniedBy = some r ↔
      ∃ i p, IsFirstDeny loaded context i p ∧ p.ruleId = r := by
    intro r
    rw [hdenied, Option.map_eq_some_iff]
    constructor
    · rintro ⟨p, hp, rfl⟩
      obtain ⟨i, hi⟩ := isFirstDeny_of_find? hp
      exact ⟨i, p, hi, rfl⟩
    · rintro ⟨i, p, hp, rfl⟩
      have hmem : p ∈ (loadAll loaded).policies :=
        mem_loadAll.mpr (List.mem_of_getElem? hp.place)
      obtain ⟨q, hq⟩ := Option.isSome_iff_exists.mp (List.find?_isSome.mpr
        ⟨p, hmem, by simp [hp.hits, hp.denies]⟩ :
          ((loadAll loaded).policies.find?
            fun p => p.hits context && decide (p.effect = .deny)).isSome)
      obtain ⟨j, hj⟩ := isFirstDeny_of_find? hq
      exact ⟨q, hq, congrArg _ (hj.unique hp)⟩
  refine ⟨d, hd, ?_, ?_, ?_, hnamed⟩
  · rintro (hdeny | hnone)
    · rw [heffect]
      refine Match.verdict_of_denied (exists_hitsOf.mpr ?_)
      obtain ⟨p, hp, hdeny, hhits⟩ := hdeny
      exact ⟨p, hp, hhits, hdeny⟩
    · rw [heffect]
      by_contra hne
      obtain ⟨hdecided, -⟩ := Match.of_verdict_ne hne
      obtain ⟨p, hp, hhits, hdecides, -⟩ := exists_hitsOf.mp hdecided
      have hfalse := hnone p hp (of_decide_eq_true hdecides)
      rw [hhits] at hfalse
      cases hfalse
  · intro hne
    rw [heffect] at hne ⊢
    obtain ⟨hdecided, hnone⟩ := Match.of_verdict_ne hne
    obtain ⟨p, hp, hhits, hdecides, hp'⟩ := exists_hitsOf.mp hdecided
    refine ⟨?_, ⟨p, hp, hp', hhits⟩, fun q hq hdeny => ?_⟩
    · rw [← hp']
      exact of_decide_eq_true hdecides
    · by_contra hhits
      exact forall_hitsOf.mp hnone q hq (by simpa using hhits) hdeny
  · rw [hdenied, Option.isSome_map, List.find?_isSome]
    simp only [Bool.and_eq_true, decide_eq_true_iff]
    constructor
    · rintro ⟨p, hp, hhits, hdeny⟩
      exact ⟨p, mem_loadAll.mp hp, hdeny, hhits⟩
    · rintro ⟨p, hp, hdeny, hhits⟩
      exact ⟨p, mem_loadAll.mpr hp, hhits, hdeny⟩

/-- Policies over a context that says nothing, which all match. -/
def policyOf (ruleId : String) (effect : Effect) (priority : Int) : CompiledPolicy Unit :=
  ⟨"policy_" ++ ruleId ++ "_1", ruleId, fun _ => .ok true, effect, priority, ""⟩

def silentText : DecisionText Unit String := ⟨fun _ _ => none, id, id, fun _ _ _ _ => ""⟩

theorem evaluate_fail_closed_two :
    ∃ d, evaluate silentText (loadAll [policyOf "a" .allow 1, policyOf "d" .deny 2]) () = .ok d ∧
      d.effect = .deny := by
  obtain ⟨d, hd, hdeny, -⟩ := evaluate_fail_closed silentText
    [policyOf "a" .allow 1, policyOf "d" .deny 2] () fun p hp => ⟨true, by
      simp only [List.mem_cons, List.not_mem_nil, or_false] at hp
      rcases hp with rfl | rfl <;> rfl⟩
  exact ⟨d, hd, hdeny (.inl ⟨policyOf "d" .deny 2, by simp, rfl, rfl⟩)⟩

/-! ### The policy of highest priority -/

/-- The effect of the matching policy with the smallest number, and `DENY` if nothing
matches. -/
def IsHighest (loaded : List (CompiledPolicy C)) (context : C) (effect : Effect) : Prop :=
  (∀ p ∈ loaded, p.hits context = true →
    (∀ q ∈ loaded, q.hits context = true → p.priority ≤ q.priority) → effect = p.effect) ∧
  ((∀ p ∈ loaded, p.hits context = false) → effect = .deny)

/-- Of the matching policies the first denies, or none does and the last has the effect
of the first. -/
def FirstDecides (loaded : List (CompiledPolicy C)) (context : C) : Prop :=
  ∀ first ∈ loaded, ∀ last ∈ loaded, first.hits context = true → last.hits context = true →
    (∀ q ∈ loaded, q.hits context = true →
      first.priority ≤ q.priority ∧ q.priority ≤ last.priority) →
    first.effect = .deny ∨
      (∀ q ∈ loaded, q.hits context = true → q.effect ≠ .deny) ∧ last.effect = first.effect

/-- A matching policy that allows or requires approval, with the largest number among
those that do. -/
structure IsDecisive (loaded : List (CompiledPolicy C)) (context : C) (p : CompiledPolicy C) :
    Prop where
  mem : p ∈ loaded
  hits : p.hits context = true
  decides : p.effect = .allow ∨ p.effect = .requireApproval
  largest : ∀ q ∈ loaded, q.hits context = true → q.effect = .allow ∨ q.effect = .requireApproval →
    q.priority ≤ p.priority

/-- The deciding policy that is evaluated last is decisive, and the last of its priority to
be loaded. -/
theorem getLast?_decides {m : Match}
    (h : ((hitsOf (loadAll loaded).policies context).filter Match.decides).getLast? = some m) :
    ∃ p, p.toMatch = m ∧ IsDecisive loaded context p ∧
      ((loaded.filter fun p => p.hits context && p.toMatch.decides).filter
        fun q => q.priority = p.priority).getLast? = some p := by
  have hfilter : (hitsOf (loadAll loaded).policies context).filter Match.decides =
      ((loadAll loaded).policies.filter fun p => p.hits context && p.toMatch.decides).map
        CompiledPolicy.toMatch := by
    rw [hitsOf, List.filter_map, List.filter_filter]
    congr 1
    exact List.filter_congr fun p _ => Bool.and_comm ..
  rw [hfilter, List.getLast?_map, Option.map_eq_some_iff] at h
  obtain ⟨p, hp, rfl⟩ := h
  have hsort := stableSort_hits loaded context fun p => p.toMatch.decides
  obtain ⟨hlast, hlargest⟩ := hsort.getLast? hp
  obtain ⟨hmem, htest⟩ := List.mem_filter.mp (hsort.mem_iff.mp (List.mem_of_getLast? hp))
  obtain ⟨hhits, hdecides⟩ := Bool.and_eq_true_iff.mp htest
  refine ⟨p, rfl, ⟨hmem, hhits, of_decide_eq_true hdecides, fun q hq hhits hdecides => ?_⟩, hlast⟩
  have hqdecides : q.toMatch.decides = true := decide_eq_true hdecides
  exact hlargest q (List.mem_filter.mpr ⟨hq, by simp [hhits, hqdecides]⟩)

/-- Some deciding policy matches, so one is evaluated last. -/
theorem exists_getLast?_decides (hp : p ∈ loaded)
    (hhits : p.hits context = true) (hdecides : p.toMatch.decides = true) :
    ∃ m, ((hitsOf (loadAll loaded).policies context).filter Match.decides).getLast? = some m := by
  have hmem : p.toMatch ∈ (hitsOf (loadAll loaded).policies context).filter Match.decides :=
    List.mem_filter.mpr ⟨mem_hitsOf.mpr ⟨p, mem_loadAll.mpr hp, hhits, rfl⟩, hdecides⟩
  exact ⟨_, List.getLast?_eq_some_getLast (List.ne_nil_of_mem hmem)⟩

/-- The effect is that of the policy of lowest priority, if it decides and nothing
denies. -/
theorem verdict_of_largest (hdistinct : (loaded.map fun p => p.priority).Nodup)
    (hnone : ∀ q ∈ loaded, q.hits context = true → q.effect ≠ .deny) (hp : p ∈ loaded)
    (hhits : p.hits context = true) (hdecides : p.toMatch.decides = true)
    (hlargest : ∀ q ∈ loaded, q.hits context = true → q.priority ≤ p.priority) :
    Match.verdict (hitsOf (loadAll loaded).policies context) = p.effect := by
  obtain ⟨m, hm⟩ := exists_getLast?_decides hp hhits hdecides
  obtain ⟨q, rfl, hq, -⟩ := getLast?_decides hm
  have hpriority : q.priority = p.priority :=
    le_antisymm (hlargest q hq.mem hq.hits) (hq.largest p hp hhits (of_decide_eq_true hdecides))
  obtain rfl : q = p := List.inj_on_of_nodup_map hdistinct hq.mem hp hpriority
  exact Match.verdict_of_last (forall_hitsOf.mpr hnone) hm

/-- **Main theorem.** Among policies of distinct priorities that allow, deny or require
approval, the engine returns the effect of the matching policy of highest priority
exactly when that policy denies, or none does and the one of lowest priority has the
same effect. -/
theorem evaluate_highest_iff (T : DecisionText C V) (loaded : List (CompiledPolicy C)) (context : C)
    (h : NoneRaises loaded context) (hdistinct : (loaded.map fun p => p.priority).Nodup)
    (heffects : ∀ p ∈ loaded, p.effect = .allow ∨ p.effect = .deny ∨ p.effect = .requireApproval) :
    (∃ d, evaluate T (loadAll loaded) context = .ok d ∧ IsHighest loaded context d.effect) ↔
      FirstDecides loaded context := by
  have hdecides : ∀ p ∈ loaded, p.effect ≠ .deny → p.toMatch.decides = true := by
    intro p hp hne
    rcases heffects p hp with hp | hp | hp
    · exact decide_eq_true (.inl hp)
    · exact absurd hp hne
    · exact decide_eq_true (.inr hp)
  obtain ⟨d, hd, heffect, -⟩ := evaluate_eq T h.loadAll
  constructor
  · rintro ⟨d', hd', hhighest⟩ first hfirst last hlast hfirstHits hlastHits hbounds
    obtain rfl : d = d' := Except.ok.inj (hd.symm.trans hd')
    by_cases hdeny : first.effect = .deny
    · exact .inl hdeny
    · have hverdict := hhighest.1 first hfirst hfirstHits fun q hq hhits => (hbounds q hq hhits).1
      rw [heffect] at hverdict
      have hne : Match.verdict (hitsOf (loadAll loaded).policies context) ≠ .deny :=
        fun heq => hdeny (hverdict.symm.trans heq)
      have hnone := forall_hitsOf.mp (Match.of_verdict_ne hne).2
      refine .inr ⟨hnone, ?_⟩
      rw [← hverdict]
      exact (verdict_of_largest hdistinct hnone hlast hlastHits
        (hdecides last hlast (hnone last hlast hlastHits))
        fun q hq hhits => (hbounds q hq hhits).2).symm
  · intro hfirst
    refine ⟨d, hd, fun p hp hhits hleast => ?_, fun hnone => ?_⟩
    · have hmem : p ∈ (loadAll loaded).policies.filter fun p => p.hits context && true :=
        List.mem_filter.mpr ⟨mem_loadAll.mpr hp, by simp [hhits]⟩
      obtain ⟨last, hlast⟩ :
          ∃ last, ((loadAll loaded).policies.filter fun p => p.hits context && true).getLast? =
            some last := ⟨_, List.getLast?_eq_some_getLast (List.ne_nil_of_mem hmem)⟩
      obtain ⟨-, hlargest⟩ := (stableSort_hits loaded context fun _ => true).getLast? hlast
      have hlast := List.mem_filter.mp (List.mem_of_getLast? hlast)
      have hlargest : ∀ q ∈ loaded, q.hits context = true → q.priority ≤ last.priority :=
        fun q hq hhits => hlargest q (List.mem_filter.mpr ⟨hq, by simp [hhits]⟩)
      have hlastHits : last.hits context = true := by simpa using hlast.2
      rw [heffect]
      rcases hfirst p hp last (mem_loadAll.mp hlast.1) hhits hlastHits
        fun q hq hhits => ⟨hleast q hq hhits, hlargest q hq hhits⟩ with hdeny | ⟨hnone, hsame⟩
      · rw [hdeny]
        exact Match.verdict_of_denied (exists_hitsOf.mpr ⟨p, hp, hhits, hdeny⟩)
      · rw [← hsame]
        have hlastMem := mem_loadAll.mp hlast.1
        exact verdict_of_largest hdistinct hnone hlastMem hlastHits
          (hdecides last hlastMem (hnone last hlastMem hlastHits)) hlargest
    · rw [heffect]
      refine Match.verdict_of_undecided (List.filter_eq_nil_iff.mpr ?_)
      refine forall_hitsOf.mpr fun p hp hhits => ?_
      rw [hnone p hp] at hhits
      cases hhits

theorem evaluate_highest_deny :
    ∃ d, evaluate silentText (loadAll [policyOf "a" .allow 2, policyOf "d" .deny 1]) () = .ok d ∧
      IsHighest [policyOf "a" .allow 2, policyOf "d" .deny 1] () d.effect := by
  refine (evaluate_highest_iff silentText [policyOf "a" .allow 2, policyOf "d" .deny 1] ()
    (fun p hp => ⟨true, ?_⟩) (by decide) (fun p hp => ?_)).mpr ?_
  · simp only [List.mem_cons, List.not_mem_nil, or_false] at hp
    rcases hp with rfl | rfl <;> rfl
  · simp only [List.mem_cons, List.not_mem_nil, or_false] at hp
    rcases hp with rfl | rfl <;> simp [policyOf]
  · intro first hfirst last _ _ _ hbounds
    simp only [List.mem_cons, List.not_mem_nil, or_false] at hfirst
    rcases hfirst with rfl | rfl
    · exact absurd (hbounds (policyOf "d" .deny 1) (by simp) rfl).1 (by decide)
    · exact .inl rfl

/-- An `ALLOW` of priority 1 and a `REQUIRE_APPROVAL` of priority 10: approval is
required. With a `DENY` of priority 10 it is denied. -/
theorem lowest_priority_decides :
    (∃ d, evaluate silentText
        (loadAll [policyOf "a" .allow 1, policyOf "r" .requireApproval 10]) () = .ok d ∧
      d.effect = .requireApproval ∧
      ¬ IsHighest [policyOf "a" .allow 1, policyOf "r" .requireApproval 10] () d.effect) ∧
    (∃ d, evaluate silentText
        (loadAll [policyOf "a" .allow 1, policyOf "d" .deny 10]) () = .ok d ∧
      d.effect = .deny ∧
      ¬ IsHighest [policyOf "a" .allow 1, policyOf "d" .deny 10] () d.effect) := by
  have hlow : ∀ effect : Effect, effect ≠ .allow → ∀ ruleId,
      ¬ IsHighest [policyOf "a" .allow 1, policyOf ruleId effect 10] () effect := by
    intro effect hne ruleId hhighest
    refine hne (hhighest.1 (policyOf "a" .allow 1) (by simp) rfl fun q hq _ => ?_)
    simp only [List.mem_cons, List.not_mem_nil, or_false] at hq
    rcases hq with rfl | rfl
    · exact le_rfl
    · show (1 : Int) ≤ 10
      decide
  exact ⟨⟨_, rfl, rfl, hlow .requireApproval (by decide) "r"⟩,
    ⟨_, rfl, rfl, hlow .deny (by decide) "d"⟩⟩

/-! ### The order of loading -/

/-- A `DENY` matches, or the decisive policies say the same. -/
def OrderFree (loaded : List (CompiledPolicy C)) (context : C) : Prop :=
  (∃ p ∈ loaded, p.effect = .deny ∧ p.hits context = true) ∨
    ∀ p q, IsDecisive loaded context p → IsDecisive loaded context q → p.effect = q.effect

/-- Without a `DENY` a decisive policy has the last word, if there is one. -/
theorem verdict_decisive (hnone : ∀ p ∈ loaded, p.hits context = true → p.effect ≠ .deny) :
    (∃ p, IsDecisive loaded context p ∧
      Match.verdict (hitsOf (loadAll loaded).policies context) = p.effect) ∨
    (∀ p, ¬ IsDecisive loaded context p) ∧
      Match.verdict (hitsOf (loadAll loaded).policies context) = .deny := by
  cases hlast : ((hitsOf (loadAll loaded).policies context).filter Match.decides).getLast? with
  | none =>
    refine .inr ⟨fun p hp => ?_, Match.verdict_of_undecided (List.getLast?_eq_none_iff.mp hlast)⟩
    obtain ⟨m, hm⟩ := exists_getLast?_decides hp.mem hp.hits (decide_eq_true hp.decides)
    rw [hlast] at hm
    cases hm
  | some m =>
    obtain ⟨p, rfl, hp, -⟩ := getLast?_decides hlast
    exact .inl ⟨p, hp, Match.verdict_of_last (forall_hitsOf.mpr hnone) hlast⟩

theorem IsDecisive.perm {l : List (CompiledPolicy C)} (hperm : l.Perm loaded) :
    IsDecisive l context p ↔ IsDecisive loaded context p := by
  constructor
  · exact fun h => ⟨hperm.mem_iff.mp h.mem, h.hits, h.decides,
      fun q hq => h.largest q (hperm.mem_iff.mpr hq)⟩
  · exact fun h => ⟨hperm.mem_iff.mpr h.mem, h.hits, h.decides,
      fun q hq => h.largest q (hperm.mem_iff.mp hq)⟩

/-- Loaded last, a decisive policy has the last word. -/
theorem exists_decisive_last (hnone : ∀ p ∈ loaded, p.hits context = true → p.effect ≠ .deny)
    (hp : IsDecisive loaded context p) :
    ∃ l : List (CompiledPolicy C), l.Perm loaded ∧
      Match.verdict (hitsOf (loadAll l).policies context) = p.effect := by
  obtain ⟨before, behind, rfl⟩ := List.append_of_mem hp.mem
  have hperm : (before ++ behind ++ [p]).Perm (before ++ p :: behind) :=
    (List.perm_append_singleton p _).trans List.perm_middle.symm
  refine ⟨before ++ behind ++ [p], hperm, ?_⟩
  have hp' := (IsDecisive.perm hperm).mpr hp
  have hdecides : p.toMatch.decides = true := decide_eq_true hp.decides
  obtain ⟨m, hm⟩ := exists_getLast?_decides hp'.mem hp'.hits hdecides
  obtain ⟨q, rfl, hq, hlast⟩ := getLast?_decides hm
  have hpriority : p.priority = q.priority :=
    le_antisymm (hq.largest p hp'.mem hp'.hits hp'.decides)
      (hp'.largest q hq.mem hq.hits hq.decides)
  have hself : (([p].filter fun p => p.hits context && p.toMatch.decides).filter
      fun r => r.priority = q.priority) = [p] := by
    simp [hp.hits, hdecides, hpriority]
  rw [List.filter_append, List.filter_append, hself] at hlast
  obtain rfl : p = q := by simpa using hlast
  exact Match.verdict_of_last
    (forall_hitsOf.mpr fun r hr => hnone r (hperm.mem_iff.mp hr)) hm

/-- **Main theorem.** The engine decides alike however the policies are loaded exactly
when a `DENY` matches, or the matching policies of lowest priority that allow or require
approval say the same. -/
theorem evaluate_orders_iff (T : DecisionText C V) (loaded : List (CompiledPolicy C)) (context : C)
    (h : NoneRaises loaded context) :
    (∀ l l' : List (CompiledPolicy C), l.Perm loaded → l'.Perm loaded →
      ∃ d d', evaluate T (loadAll l) context = .ok d ∧ evaluate T (loadAll l') context = .ok d' ∧
        d.effect = d'.effect) ↔
      OrderFree loaded context := by
  have hevaluate : ∀ l : List (CompiledPolicy C), l.Perm loaded → ∃ d,
      evaluate T (loadAll l) context = .ok d ∧
        d.effect = Match.verdict (hitsOf (loadAll l).policies context) := by
    intro l hl
    have hraises : NoneRaises l context := fun p hp => h p (hl.mem_iff.mp hp)
    obtain ⟨d, hd, heffect, -⟩ := evaluate_eq T hraises.loadAll
    exact ⟨d, hd, heffect⟩
  constructor
  · intro hsame
    by_contra hfree
    obtain ⟨hdeny, hdiffer⟩ := not_or.mp hfree
    have hnone : ∀ p ∈ loaded, p.hits context = true → p.effect ≠ .deny :=
      fun p hp hhits heffect => hdeny ⟨p, hp, heffect, hhits⟩
    refine hdiffer fun p q hp hq => ?_
    obtain ⟨l, hl, hverdict⟩ := exists_decisive_last hnone hp
    obtain ⟨l', hl', hverdict'⟩ := exists_decisive_last hnone hq
    obtain ⟨d, hd, heffect⟩ := hevaluate l hl
    obtain ⟨d', hd', heffect'⟩ := hevaluate l' hl'
    obtain ⟨e, e', he, he', heq⟩ := hsame l l' hl hl'
    obtain rfl : d = e := Except.ok.inj (hd.symm.trans he)
    obtain rfl : d' = e' := Except.ok.inj (hd'.symm.trans he')
    rw [← hverdict, ← hverdict', ← heffect, ← heffect', heq]
  · intro hfree l l' hl hl'
    obtain ⟨d, hd, heffect⟩ := hevaluate l hl
    obtain ⟨d', hd', heffect'⟩ := hevaluate l' hl'
    refine ⟨d, d', hd, hd', ?_⟩
    rw [heffect, heffect']
    by_cases hdeny : ∃ p ∈ loaded, p.hits context = true ∧ p.effect = .deny
    · obtain ⟨p, hp, hhits, hdeny⟩ := hdeny
      rw [Match.verdict_of_denied (exists_hitsOf.mpr ⟨p, hl.mem_iff.mpr hp, hhits, hdeny⟩),
        Match.verdict_of_denied (exists_hitsOf.mpr ⟨p, hl'.mem_iff.mpr hp, hhits, hdeny⟩)]
    · have hnone : ∀ p ∈ loaded, p.hits context = true → p.effect ≠ .deny :=
        fun p hp hhits heffect => hdeny ⟨p, hp, hhits, heffect⟩
      have hagree : ∀ p q, IsDecisive loaded context p → IsDecisive loaded context q →
          p.effect = q.effect :=
        hfree.resolve_left fun ⟨p, hp, heffect, hhits⟩ => hnone p hp hhits heffect
      rcases verdict_decisive fun p hp => hnone p (hl.mem_iff.mp hp) with
        ⟨p, hp, hverdict⟩ | ⟨habsent, hverdict⟩
      · rcases verdict_decisive fun p hp => hnone p (hl'.mem_iff.mp hp) with
          ⟨q, hq, hverdict'⟩ | ⟨habsent, -⟩
        · rw [hverdict, hverdict']
          exact hagree p q ((IsDecisive.perm hl).mp hp) ((IsDecisive.perm hl').mp hq)
        · exact absurd ((IsDecisive.perm (hl'.trans hl.symm)).mpr hp) (habsent p)
      · rcases verdict_decisive fun p hp => hnone p (hl'.mem_iff.mp hp) with
          ⟨q, hq, -⟩ | ⟨-, hverdict'⟩
        · exact absurd ((IsDecisive.perm (hl.trans hl'.symm)).mpr hq) (habsent q)
        · rw [hverdict, hverdict']

theorem evaluate_orders_two :
    ∃ d d', evaluate silentText
        (loadAll [policyOf "a" .allow 1, policyOf "b" .allow 1]) () = .ok d ∧
      evaluate silentText (loadAll [policyOf "b" .allow 1, policyOf "a" .allow 1]) () = .ok d' ∧
      d.effect = d'.effect := by
  refine (evaluate_orders_iff silentText [policyOf "a" .allow 1, policyOf "b" .allow 1] ()
    fun p hp => ⟨true, ?_⟩).mpr (.inr fun p q hp hq => ?_) _ _ (.refl _) (.swap ..)
  · simp only [List.mem_cons, List.not_mem_nil, or_false] at hp
    rcases hp with rfl | rfl <;> rfl
  · have hallow : ∀ p ∈ [policyOf "a" .allow 1, policyOf "b" .allow 1], p.effect = .allow := by
      simp [policyOf]
    rw [hallow p hp.mem, hallow q hq.mem]

/-- Of an `ALLOW` and a `REQUIRE_APPROVAL` of one priority the one loaded last decides. -/
theorem load_order_decides :
    [policyOf "a" .allow 1, policyOf "r" .requireApproval 1].Perm
      [policyOf "r" .requireApproval 1, policyOf "a" .allow 1] ∧
    (∃ d, evaluate silentText
        (loadAll [policyOf "a" .allow 1, policyOf "r" .requireApproval 1]) () = .ok d ∧
      d.effect = .requireApproval) ∧
    (∃ d, evaluate silentText
        (loadAll [policyOf "r" .requireApproval 1, policyOf "a" .allow 1]) () = .ok d ∧
      d.effect = .allow) :=
  ⟨.swap .., ⟨_, rfl, rfl⟩, ⟨_, rfl, rfl⟩⟩

end PiPlatform.EventFabric.Governance
