import Mathlib.Algebra.Order.Ring.Nat
import Mathlib.Data.List.Infix
import Mathlib.Data.List.Range
import Mathlib.Data.List.TakeWhile
import Mathlib.Algebra.BigOperators.Group.List.Basic

/-! Pruning of browser snapshots.

A block is removed if five entries are left. If not, the loop stays where it is, at the same block,
so it never ends: pruning ends exactly if nothing is to be removed or all of it can be
(`pruned_iff`). -/
namespace PiPlatform.Runtime.Pruning

/-- Role and name are those of a line that has them. -/
structure Entry where
  indent : Nat
  label : Option (String × String)
  raw : String
  deriving Inhabited

def Entry.role (e : Entry) : String := (e.label.map Prod.fst).getD ""

def Entry.name (e : Entry) : String := (e.label.map Prod.snd).getD ""

/-- The rules by name, each with its keywords. -/
def prunePatterns : List (String × List String) :=
  [("navigation", ["navigation", "nav", "menu", "navbar", "topbar", "sidebar"]),
    ("contentinfo", ["contentinfo", "footer", "bottom", "page footer"]),
    ("cookie", ["cookie", "gdpr", "consent", "privacy notice", "accept all cookies"]),
    ("chat", ["chat", "live chat", "messenger", "intercom", "chat widget"]),
    ("breadcrumb", ["breadcrumb", "breadcrumbs", "you are here"]),
    ("language_switcher", ["language", "locale", "translate", "select language"]),
    ("newsletter", ["newsletter", "subscribe", "sign up for", "email signup"]),
    ("advertisement", ["ad", "advertisement", "sponsored", "promoted", "ad placement"]),
    ("social_share", ["share", "social", "follow us", "tweet this"])]

structure PruneState where
  result : List Entry
  hits : List (String × Nat)
  skippedUnsafe : Nat
  skippedReasons : List String

/-- `hits[pattern] += 1` -/
def countHit (pattern : String) (hits : List (String × Nat)) : List (String × Nat) :=
  hits.map fun hit => if hit.1 = pattern then (hit.1, hit.2 + 1) else hit

/-- Deeper than the head of a block. -/
def deeper (head e : Entry) : Bool := head.indent < e.indent

def PruneState.remove (state : PruneState) (pattern : String) (blockStart blockEnd : Nat) :
    PruneState :=
  { state with
    result := state.result.take blockStart ++ state.result.drop blockEnd
    hits := countHit pattern state.hits }

def PruneState.refuse (state : PruneState) (pattern : String) : PruneState :=
  { state with
    skippedUnsafe := state.skippedUnsafe + 1
    skippedReasons := state.skippedReasons ++ [pattern ++ ":would_empty_page"] }

section Prune
variable (lower : String → String)

/-- `any(kw in role.lower() or kw in name.lower() for kw in keywords)` -/
def containsKeyword (keywords : List String) (e : Entry) : Bool :=
  keywords.any fun kw =>
    decide (kw.toList <:+: (lower e.role).toList) || decide (kw.toList <:+: (lower e.name).toList)

/-- The loop over one rule. The inner loop counts the deeper entries. -/
def pruneRule (pattern : String) (keywords : List String) :
    (fuel : Nat) → (i : Nat) → PruneState → Option PruneState
  | 0, _, _ => none
  | fuel + 1, i, state =>
    match state.result[i]? with
    | none => some state
    | some entry =>
      if containsKeyword lower keywords entry then
        let blockEnd := i + 1 + ((state.result.drop (i + 1)).takeWhile (deeper entry)).length
        if 5 ≤ state.result.length - (blockEnd - i) then
          pruneRule pattern keywords fuel i (state.remove pattern i blockEnd)
        else pruneRule pattern keywords fuel i (state.refuse pattern)
      else pruneRule pattern keywords fuel (i + 1) state

def enabledRules (disabledRules : List String) : List (String × List String) :=
  prunePatterns.filter fun rule => !disabledRules.contains rule.1

def pruneIntent (fuel : Nat) (disabledRules : List String) (entries : List Entry) :
    Option PruneState :=
  (enabledRules disabledRules).foldlM
    (fun state rule => pruneRule lower rule.1 rule.2 fuel 0 state)
    ⟨entries, prunePatterns.map fun rule => (rule.1, 0), 0, []⟩

end Prune

/-! ### What pruning should do -/

def entryAt (entries : List Entry) (i : Nat) : Entry := entries.getD i default

/-- The positions that are kept and, block by block, those that are removed. A block is headed by
a match, and up to its last entry all that stand behind the head are deeper. -/
structure Account (matched : Entry → Prop) (entries result : List Entry) (kept : List Nat)
    (blocks : List (List Nat)) : Prop where
  result : result = kept.map (entryAt entries)
  ordered : kept.Pairwise (· < ·)
  all : (kept ++ blocks.flatten).Perm (List.range entries.length)
  headed : ∀ block ∈ blocks, ∃ head inner, block = head :: inner ∧
    matched (entryAt entries head) ∧ ∀ p ∈ inner, head < p ∧
      ∀ q, head < q → q ≤ p → deeper (entryAt entries head) (entryAt entries q)

section Specification
variable (lower : String → String) (disabledRules : List String) (entries : List Entry)

/-- A keyword of an enabled rule is in role or name. -/
def Matched (e : Entry) : Prop :=
  ∃ rule ∈ enabledRules disabledRules, containsKeyword lower rule.2 e = true

/-- What is left is in order, five entries at least, and whole blocks were taken away and counted.
-/
structure Pruned (out : PruneState) : Prop where
  subsequence : out.result.Sublist entries
  enough : min 5 entries.length ≤ out.result.length
  blocks : ∃ kept blocks, Account (Matched lower disabledRules) entries out.result kept blocks ∧
    (out.hits.map Prod.snd).sum = blocks.length

/-- All blocks of a rule are taken away, however few entries are left. `base` is the head of the
block that is being taken away. -/
def strip (keywords : List String) : (base : Option Entry) → List Entry → List Entry
  | _, [] => []
  | base, e :: rest =>
    if base.any (deeper · e) then strip keywords base rest
    else if containsKeyword lower keywords e then strip keywords (some e) rest
    else e :: strip keywords none rest

def stripAll : List Entry :=
  (enabledRules disabledRules).foldl (fun entries rule => strip lower rule.2 none entries) entries

end Specification

/-! ### One rule -/

section Rule
variable {lower : String → String} {pattern : String} {keywords : List String}
  {before rest : List Entry} {head : Entry} {state out : PruneState} {fuel : Nat}

theorem strip_some (base : Entry) (rest : List Entry) :
    strip lower keywords (some base) rest =
      strip lower keywords none (rest.dropWhile (deeper base)) := by
  induction rest with
  | nil => rfl
  | cons e rest ih =>
    by_cases h : deeper base e = true
    · rw [strip, Option.any_some, if_pos h, List.dropWhile_cons_of_pos h, ih]
    · rw [List.dropWhile_cons_of_neg h, strip, strip, Option.any_some, if_neg h, Option.any_none,
        if_neg Bool.false_ne_true]

theorem strip_match (h : containsKeyword lower keywords head = true) :
    strip lower keywords none (head :: rest) =
      strip lower keywords none (rest.dropWhile (deeper head)) := by
  rw [strip, Option.any_none, if_neg Bool.false_ne_true, if_pos h, strip_some]

theorem strip_keep (h : ¬ containsKeyword lower keywords head = true) :
    strip lower keywords none (head :: rest) = head :: strip lower keywords none rest := by
  rw [strip, Option.any_none, if_neg Bool.false_ne_true, if_neg h]

theorem strip_sublist (base : Option Entry) (rest : List Entry) :
    (strip lower keywords base rest).Sublist rest := by
  induction rest generalizing base with
  | nil => exact List.Sublist.refl _
  | cons e rest ih =>
    rw [strip]
    split_ifs
    · exact (ih _).cons e
    · exact (ih _).cons e
    · exact (ih _).cons_cons e

theorem drop_takeWhile (p : Entry → Bool) (xs : List Entry) :
    xs.drop (xs.takeWhile p).length = xs.dropWhile p := by
  induction xs with
  | nil => rfl
  | cons x xs ih =>
    by_cases h : p x = true
    · rw [List.takeWhile_cons_of_pos h, List.dropWhile_cons_of_pos h]
      exact ih
    · rw [List.takeWhile_cons_of_neg h, List.dropWhile_cons_of_neg h]
      rfl

/-- The state when the block at the scan's place is gone. -/
def PruneState.without (state : PruneState) (pattern : String) (before after : List Entry) :
    PruneState :=
  { state with result := before ++ after, hits := countHit pattern state.hits }

theorem pruneRule_nil (h : state.result = before) (fuel : Nat) :
    pruneRule lower pattern keywords (fuel + 1) before.length state = some state := by
  rw [pruneRule, h, List.getElem?_eq_none le_rfl]

theorem pruneRule_keep (h : state.result = before ++ head :: rest)
    (hkeep : ¬ containsKeyword lower keywords head = true) (fuel : Nat) :
    pruneRule lower pattern keywords (fuel + 1) before.length state =
      pruneRule lower pattern keywords fuel (before ++ [head]).length state := by
  rw [pruneRule, h, List.getElem?_append_right le_rfl, Nat.sub_self, List.getElem?_cons_zero]
  dsimp only
  rw [if_neg hkeep, List.length_append, List.length_singleton]

theorem pruneRule_match (h : state.result = before ++ head :: rest)
    (hmatch : containsKeyword lower keywords head = true) (fuel : Nat) :
    pruneRule lower pattern keywords (fuel + 1) before.length state =
      if 5 ≤ before.length + (rest.dropWhile (deeper head)).length then
        pruneRule lower pattern keywords fuel before.length
          (state.without pattern before (rest.dropWhile (deeper head)))
      else pruneRule lower pattern keywords fuel before.length (state.refuse pattern) := by
  have hdrop : state.result.drop (before.length + 1) = rest := by
    rw [h, List.drop_length_add_append]
    rfl
  have hlength : rest.length =
      (rest.takeWhile (deeper head)).length + (rest.dropWhile (deeper head)).length := by
    rw [← List.length_append, List.takeWhile_append_dropWhile]
  have hafter : state.result.drop
      (before.length + 1 + (rest.takeWhile (deeper head)).length) =
        rest.dropWhile (deeper head) := by
    rw [← List.drop_drop, hdrop, drop_takeWhile]
  rw [pruneRule]
  have hget : state.result[before.length]? = some head := by
    rw [h, List.getElem?_append_right le_rfl, Nat.sub_self, List.getElem?_cons_zero]
  rw [hget]
  dsimp only
  rw [if_pos hmatch, hdrop, PruneState.remove, hafter]
  have htotal : state.result.length = before.length + 1 + rest.length := by
    rw [h, List.length_append, List.length_cons]
    omega
  have hleft : state.result.take before.length = before := by rw [h, List.take_left]
  rw [hleft]
  refine if_congr ?_ rfl rfl
  omega

/-- A rule's loop can go on from here: nothing is to be taken away, or all of it can be. -/
def Free (lower : String → String) (keywords : List String) (before rest : List Entry) : Prop :=
  (∀ e ∈ rest, ¬ containsKeyword lower keywords e = true) ∨
    5 ≤ before.length + (strip lower keywords none rest).length

theorem strip_eq (h : ∀ e ∈ rest, ¬ containsKeyword lower keywords e = true) :
    strip lower keywords none rest = rest := by
  induction rest with
  | nil => rfl
  | cons e rest ih =>
    obtain ⟨he, hrest⟩ := List.forall_mem_cons.mp h
    rw [strip_keep he, ih hrest]

theorem free_keep (hkeep : ¬ containsKeyword lower keywords head = true) :
    Free lower keywords (before ++ [head]) rest ↔ Free lower keywords before (head :: rest) := by
  rw [Free, Free, strip_keep hkeep, List.forall_mem_cons, List.length_append, List.length_cons,
    List.length_cons, List.length_nil]
  refine or_congr (and_iff_right hkeep).symm ?_
  omega

theorem free_match (hmatch : containsKeyword lower keywords head = true) :
    Free lower keywords before (head :: rest) ↔
      5 ≤ before.length + (strip lower keywords none (rest.dropWhile (deeper head))).length := by
  rw [Free, strip_match hmatch]
  refine or_iff_right fun h => ?_
  exact h head (List.mem_cons_self ..) hmatch

theorem length_strip_le (lower : String → String) (keywords : List String) (rest : List Entry) :
    (strip lower keywords none rest).length ≤ rest.length :=
  (strip_sublist none rest).length_le

variable (pattern) in
/-- From a free place the loop ends, with all blocks taken away. -/
theorem pruneRule_ends (h : state.result = before ++ rest) (hfree : Free lower keywords before rest)
    (hfuel : rest.length < fuel) :
    ∃ out, pruneRule lower pattern keywords fuel before.length state = some out ∧
      out.result = before ++ strip lower keywords none rest := by
  induction fuel generalizing before rest state with
  | zero => exact absurd hfuel (Nat.not_lt_zero _)
  | succ fuel ih =>
    cases rest with
    | nil =>
      rw [List.append_nil] at h
      exact ⟨state, pruneRule_nil h fuel, by rw [strip, List.append_nil, h]⟩
    | cons head rest =>
      by_cases hmatch : containsKeyword lower keywords head = true
      · have henough := (free_match hmatch).mp hfree
        have hle := length_strip_le lower keywords (rest.dropWhile (deeper head))
        have hshort := (List.dropWhile_sublist (deeper head) (l := rest)).length_le
        rw [List.length_cons] at hfuel
        rw [pruneRule_match h hmatch, if_pos (by omega), strip_match hmatch]
        exact ih rfl (.inr henough) (by omega)
      · rw [pruneRule_keep h hmatch, strip_keep hmatch]
        have hnext : state.result = before ++ [head] ++ rest := by simpa using h
        obtain ⟨out, hout, hresult⟩ :=
          ih hnext ((free_keep hmatch).mpr hfree) (Nat.lt_of_succ_lt_succ hfuel)
        exact ⟨out, hout, by simpa using hresult⟩

/-- If the loop ends, it started from a free place. -/
theorem free_of_ends (h : state.result = before ++ rest)
    (hends : pruneRule lower pattern keywords fuel before.length state = some out) :
    Free lower keywords before rest ∧ out.result = before ++ strip lower keywords none rest := by
  induction fuel generalizing before rest state with
  | zero => cases hends
  | succ fuel ih =>
    cases rest with
    | nil =>
      rw [List.append_nil] at h
      rw [pruneRule_nil h] at hends
      obtain rfl := Option.some.inj hends
      exact ⟨.inl fun e he => absurd he List.not_mem_nil, by rw [strip, List.append_nil, h]⟩
    | cons head rest =>
      by_cases hmatch : containsKeyword lower keywords head = true
      · rw [pruneRule_match h hmatch] at hends
        rw [free_match hmatch, strip_match hmatch]
        split_ifs at hends with henough
        · obtain ⟨hfree, hresult⟩ := ih rfl hends
          refine ⟨?_, hresult⟩
          rcases hfree with hnone | hleft
          · rwa [strip_eq hnone]
          · exact hleft
        · -- the same place again, with less fuel
          have hsame : (state.refuse pattern).result = before ++ head :: rest := h
          have hagain := (ih hsame hends).1
          rw [free_match hmatch] at hagain
          have hle := length_strip_le lower keywords (rest.dropWhile (deeper head))
          omega
      · rw [pruneRule_keep h hmatch] at hends
        have hnext : state.result = before ++ [head] ++ rest := by simpa using h
        obtain ⟨hfree, hresult⟩ := ih hnext hends
        rw [strip_keep hmatch]
        exact ⟨(free_keep hmatch).mp hfree, by simpa using hresult⟩

/-- What every removal and every refusal keeps, a run keeps. -/
theorem pruneRule_keeps (P : PruneState → Prop)
    (hremove : ∀ (state : PruneState) before head rest, state.result = before ++ head :: rest →
      containsKeyword lower keywords head = true →
      5 ≤ before.length + (rest.dropWhile (deeper head)).length → P state →
        P (state.without pattern before (rest.dropWhile (deeper head))))
    (hrefuse : ∀ state : PruneState, P state → P (state.refuse pattern))
    (h : state.result = before ++ rest) (hP : P state)
    (hends : pruneRule lower pattern keywords fuel before.length state = some out) : P out := by
  induction fuel generalizing before rest state with
  | zero => cases hends
  | succ fuel ih =>
    cases rest with
    | nil =>
      rw [List.append_nil] at h
      rw [pruneRule_nil h] at hends
      obtain rfl := Option.some.inj hends
      exact hP
    | cons head rest =>
      by_cases hmatch : containsKeyword lower keywords head = true
      · rw [pruneRule_match h hmatch] at hends
        split_ifs at hends with henough
        · exact ih rfl (hremove state before head rest h hmatch henough hP) hends
        · have hsame : (state.refuse pattern).result = before ++ head :: rest := h
          exact ih hsame (hrefuse state hP) hends
      · rw [pruneRule_keep h hmatch] at hends
        have hnext : state.result = before ++ [head] ++ rest := by simpa using h
        exact ih hnext hP hends

end Rule

/-! ### All rules -/

section Rules
variable {lower : String → String} {rules : List (String × List String)} {state out : PruneState}
  {fuel : Nat}

def stripRules (lower : String → String) (rules : List (String × List String))
    (entries : List Entry) : List Entry :=
  rules.foldl (fun entries rule => strip lower rule.2 none entries) entries

def pruneRules (lower : String → String) (fuel : Nat) (rules : List (String × List String))
    (state : PruneState) : Option PruneState :=
  rules.foldlM (fun state rule => pruneRule lower rule.1 rule.2 fuel 0 state) state

theorem length_stripRules_le (lower : String → String) (rules : List (String × List String))
    (entries : List Entry) :
    (stripRules lower rules entries).length ≤ entries.length := by
  induction rules generalizing entries with
  | nil => exact le_rfl
  | cons rule rules ih => exact (ih _).trans (length_strip_le ..)

theorem stripRules_eq {entries : List Entry}
    (h : ∀ rule ∈ rules, ∀ e ∈ entries, ¬ containsKeyword lower rule.2 e = true) :
    stripRules lower rules entries = entries := by
  induction rules with
  | nil => rfl
  | cons rule rules ih =>
    obtain ⟨hfirst, hrest⟩ := List.forall_mem_cons.mp h
    rw [stripRules, List.foldl_cons, strip_eq hfirst]
    exact ih hrest

/-- Nothing matches, or enough is left when all blocks are gone. -/
def FreeAll (lower : String → String) (rules : List (String × List String))
    (entries : List Entry) : Prop :=
  (∀ rule ∈ rules, ∀ e ∈ entries, ¬ containsKeyword lower rule.2 e = true) ∨
    5 ≤ (stripRules lower rules entries).length

theorem freeAll_cons (rule : String × List String) (rules : List (String × List String))
    (entries : List Entry) : FreeAll lower (rule :: rules) entries ↔
      Free lower rule.2 [] entries ∧ FreeAll lower rules (strip lower rule.2 none entries) := by
  have hlength := length_stripRules_le lower rules (strip lower rule.2 none entries)
  rw [FreeAll, FreeAll, Free, List.forall_mem_cons, List.length_nil, Nat.zero_add]
  constructor
  · rintro (⟨hfirst, hrest⟩ | henough)
    · exact ⟨.inl hfirst, .inl (by rwa [strip_eq hfirst])⟩
    · exact ⟨.inr (le_trans henough hlength), .inr henough⟩
  · rintro ⟨hfirst, hrest | henough⟩
    · rcases hfirst with hfirst | henough
      · rw [strip_eq hfirst] at hrest
        exact .inl ⟨hfirst, hrest⟩
      · refine .inr ?_
        rw [stripRules, List.foldl_cons]
        exact henough.trans_eq (congrArg List.length (stripRules_eq hrest)).symm
    · exact .inr henough

theorem pruneRules_ends (h : FreeAll lower rules state.result)
    (hfuel : state.result.length < fuel) :
    ∃ out, pruneRules lower fuel rules state = some out := by
  induction rules generalizing state with
  | nil => exact ⟨state, rfl⟩
  | cons rule rules ih =>
    obtain ⟨hfirst, hrest⟩ := (freeAll_cons ..).mp h
    have hstart : state.result = [] ++ state.result := rfl
    obtain ⟨next, hnext, hresult⟩ := pruneRule_ends rule.1 hstart hfirst hfuel
    rw [List.nil_append] at hresult
    rw [← hresult] at hrest
    have hshort := length_strip_le lower rule.2 state.result
    have hleft : next.result.length < fuel := by
      rw [hresult]
      exact lt_of_le_of_lt hshort hfuel
    obtain ⟨out, hout⟩ := ih hrest hleft
    refine ⟨out, ?_⟩
    rw [pruneRules, List.foldlM_cons]
    exact (congrArg (· >>= _) hnext).trans hout

theorem exists_of_pruneRules {rule : String × List String}
    (h : pruneRules lower fuel (rule :: rules) state = some out) :
    ∃ next, pruneRule lower rule.1 rule.2 fuel 0 state = some next ∧
      pruneRules lower fuel rules next = some out := by
  rw [pruneRules, List.foldlM_cons] at h
  exact Option.bind_eq_some_iff.mp h

theorem freeAll_of_ends (h : pruneRules lower fuel rules state = some out) :
    FreeAll lower rules state.result := by
  induction rules generalizing state with
  | nil => exact .inl fun rule hrule => absurd hrule List.not_mem_nil
  | cons rule rules ih =>
    obtain ⟨next, hnext, hrest⟩ := exists_of_pruneRules h
    have hstart : state.result = [] ++ state.result := rfl
    obtain ⟨hfree, hresult⟩ := free_of_ends hstart hnext
    have hnextFree := ih hrest
    rw [hresult, List.nil_append] at hnextFree
    exact (freeAll_cons ..).mpr ⟨hfree, hnextFree⟩

/-- What every removal of a match of one of the rules and every refusal keeps, pruning keeps. -/
theorem pruneRules_keeps (P : PruneState → Prop)
    (hremove : ∀ rule ∈ rules, ∀ (state : PruneState) before head rest,
      state.result = before ++ head :: rest → containsKeyword lower rule.2 head = true →
      5 ≤ before.length + (rest.dropWhile (deeper head)).length → P state →
        P (state.without rule.1 before (rest.dropWhile (deeper head))))
    (hrefuse : ∀ (state : PruneState) pattern, P state → P (state.refuse pattern))
    (hP : P state) (h : pruneRules lower fuel rules state = some out) : P out := by
  induction rules generalizing state with
  | nil =>
    obtain rfl := Option.some.inj h
    exact hP
  | cons rule rules ih =>
    obtain ⟨hfirst, hothers⟩ := List.forall_mem_cons.mp hremove
    obtain ⟨next, hnext, hrest⟩ := exists_of_pruneRules h
    have hstart : state.result = [] ++ state.result := rfl
    have hkept := pruneRule_keeps P hfirst (fun state => hrefuse state _) hstart hP hnext
    exact ih hothers hkept hrest

end Rules

/-! ### Accounts -/

section Accounts
variable {entries : List Entry} {result before rest : List Entry} {head : Entry}
  {matched : Entry → Prop} {kept : List Nat} {blocks : List (List Nat)}

/-- Behind an entry that is removed, whatever is kept comes not before one that is no deeper. -/
def Closed (entries : List Entry) (kept : List Nat) : Prop :=
  ∀ r, r < entries.length → r ∉ kept → ∀ y ∈ kept, r < y → ∃ z ∈ kept, r < z ∧ z ≤ y ∧
    (entryAt entries z).indent ≤ (entryAt entries r).indent

theorem deeper_iff {e : Entry} : deeper head e = true ↔ head.indent < e.indent :=
  decide_eq_true_iff

theorem account_all (matched : Entry → Prop) (entries : List Entry) :
    Account matched entries entries (List.range entries.length) [] where
  result := by
    refine List.ext_getElem (by simp) fun i h₁ h₂ => ?_
    simp [entryAt, h₁]
  ordered := List.pairwise_lt_range
  all := by simp
  headed := fun block hblock => absurd hblock List.not_mem_nil

theorem closed_all (entries : List Entry) : Closed entries (List.range entries.length) :=
  fun _ hr hnot => absurd (List.mem_range.mpr hr) hnot

/-- The positions of a block that is taken away. -/
theorem Account.split (h : Account matched entries result kept blocks)
    (hresult : result = before ++ head :: rest) :
    ∃ front position inner back, kept = front ++ position :: (inner ++ back) ∧
      before = front.map (entryAt entries) ∧ head = entryAt entries position ∧
      rest.takeWhile (deeper head) = inner.map (entryAt entries) ∧
      rest.dropWhile (deeper head) = back.map (entryAt entries) := by
  have hmap := h.result.symm.trans hresult
  obtain ⟨front, others, rfl, rfl, hothers⟩ := List.map_eq_append_iff.mp hmap
  obtain ⟨position, behind, rfl, rfl, rfl⟩ := List.map_eq_cons_iff.mp hothers
  obtain ⟨inner, back, rfl, hinner, hback⟩ := List.map_eq_append_iff.mp
    (List.takeWhile_append_dropWhile (p := deeper (entryAt entries position))
      (l := behind.map (entryAt entries))).symm
  exact ⟨front, position, inner, back, rfl, rfl, rfl, hinner.symm, hback.symm⟩

/-- One block more is taken away. -/
theorem Account.remove (h : Account matched entries result kept blocks)
    (hclosed : Closed entries kept) (hresult : result = before ++ head :: rest)
    (hmatched : matched head) :
    ∃ kept' blocks',
      Account matched entries (before ++ rest.dropWhile (deeper head)) kept' blocks' ∧
      Closed entries kept' ∧ blocks'.length = blocks.length + 1 := by
  obtain ⟨front, position, inner, back, rfl, rfl, rfl, hinner, hback⟩ := h.split hresult
  have hmem : ∀ q, q ∈ front ++ position :: (inner ++ back) ↔
      q ∈ front ∨ q = position ∨ q ∈ inner ∨ q ∈ back := by
    intro q
    simp only [List.mem_append, List.mem_cons]
  -- the positions in front of a block, in it and behind it
  obtain ⟨-, hothers, hfront⟩ := List.pairwise_append.mp h.ordered
  obtain ⟨hposition, hinnerBack⟩ := List.pairwise_cons.mp hothers
  obtain ⟨-, hbackOrdered, hsides⟩ := List.pairwise_append.mp hinnerBack
  have hdeeper : ∀ p ∈ inner, (entryAt entries position).indent < (entryAt entries p).indent := by
    intro p hp
    refine deeper_iff.mp (List.mem_takeWhile_imp (l := rest) ?_)
    rw [hinner]
    exact List.mem_map_of_mem hp
  have hfirst : ∀ first ∈ back.head?,
      (entryAt entries first).indent ≤ (entryAt entries position).indent := by
    intro first hfirst
    by_contra hlt
    have hhead : (rest.dropWhile (deeper (entryAt entries position))).head? =
        some (entryAt entries first) := by
      rw [hback, List.head?_map, hfirst]
      rfl
    have hnot := List.head?_dropWhile_not (deeper (entryAt entries position)) rest
    rw [hhead] at hnot
    have hdeep : deeper (entryAt entries position) (entryAt entries first) = true :=
      deeper_iff.mpr (not_le.mp hlt)
    simp [hdeep] at hnot
  have hrange : ∀ q ∈ front ++ position :: (inner ++ back), q < entries.length := fun q hq =>
    List.mem_range.mp (h.all.mem_iff.mp (List.mem_append_left _ hq))
  refine ⟨front ++ back, (position :: inner) :: blocks, ?_, ?_, rfl⟩
  · constructor
    · rw [hback, List.map_append]
    · refine h.ordered.sublist ?_
      exact List.Sublist.append_left
        ((List.sublist_append_right inner back).trans (List.sublist_cons_self ..)) front
    · refine List.Perm.trans ?_ h.all
      rw [List.flatten_cons]
      simp only [List.append_assoc, List.cons_append]
      refine List.Perm.append_left front ?_
      exact List.perm_append_comm_assoc back (position :: inner) blocks.flatten
    · intro block hblock
      rcases List.mem_cons.mp hblock with rfl | hblock
      · refine ⟨position, inner, rfl, hmatched, fun p hp => ?_⟩
        refine ⟨hposition p (List.mem_append_left _ hp), fun q hlt hle => deeper_iff.mpr ?_⟩
        have hinside : ∀ z ∈ front ++ position :: (inner ++ back), position < z → z ≤ p →
            z ∈ inner := by
          intro z hz hzlt hzle
          rcases (hmem z).mp hz with hz | rfl | hz | hz
          · have := hfront z hz position (List.mem_cons_self ..)
            omega
          · exact absurd hzlt (lt_irrefl _)
          · exact hz
          · have := hsides p hp z hz
            omega
        by_cases hq : q ∈ front ++ position :: (inner ++ back)
        · exact hdeeper q (hinside q hq hlt hle)
        · have hpmem := (hmem p).mpr (.inr (.inr (.inl hp)))
          have hne : q ≠ p := fun heq => hq (heq ▸ hpmem)
          have hplt := hrange p hpmem
          obtain ⟨z, hz, hqz, hzp, hle'⟩ := hclosed q (by omega) hq p hpmem (by omega)
          exact lt_of_lt_of_le (hdeeper z (hinside z hz (by omega) hzp)) hle'
      · exact h.headed block hblock
  · have hmem' : ∀ q, q ∈ front ++ back ↔ q ∈ front ∨ q ∈ back := fun q => List.mem_append
    -- behind an entry of the block comes the first one behind the block
    have hbehind : ∀ z, z = position ∨ z ∈ inner → ∀ y ∈ front ++ back, z < y →
        ∃ first ∈ front ++ back, z < first ∧ first ≤ y ∧
          (entryAt entries first).indent ≤ (entryAt entries z).indent := by
      intro z hz y hy hlt
      have hyback : y ∈ back := by
        rcases (hmem' y).mp hy with hy | hy
        · have hyz : y < z := by
            rcases hz with rfl | hz
            · exact hfront y hy z (List.mem_cons_self ..)
            · exact hfront y hy z (List.mem_cons_of_mem _ (List.mem_append_left _ hz))
          omega
        · exact hy
      obtain ⟨first, behind, rfl⟩ := List.exists_cons_of_ne_nil (List.ne_nil_of_mem hyback)
      refine ⟨first, List.mem_append_right _ (List.mem_cons_self ..), ?_, ?_, ?_⟩
      · rcases hz with rfl | hz
        · exact hposition first (List.mem_append_right _ (List.mem_cons_self ..))
        · exact hsides z hz first (List.mem_cons_self ..)
      · rcases List.mem_cons.mp hyback with rfl | hy
        · exact le_rfl
        · exact le_of_lt ((List.pairwise_cons.mp hbackOrdered).1 y hy)
      · refine (hfirst first rfl).trans ?_
        rcases hz with rfl | hz
        · exact le_rfl
        · exact (hdeeper z hz).le
    intro r hr hnot y hy hlt
    by_cases hrmem : r ∈ front ++ position :: (inner ++ back)
    · refine hbehind r ?_ y hy hlt
      rcases (hmem r).mp hrmem with hr' | rfl | hr' | hr'
      · exact absurd ((hmem' r).mpr (.inl hr')) hnot
      · exact .inl rfl
      · exact .inr hr'
      · exact absurd ((hmem' r).mpr (.inr hr')) hnot
    · have hymem : y ∈ front ++ position :: (inner ++ back) :=
        (hmem y).mpr (((hmem' y).mp hy).imp id fun hback => .inr (.inr hback))
      obtain ⟨z, hz, hrz, hzy, hle⟩ := hclosed r hr hrmem y hymem hlt
      by_cases hzmem : z ∈ front ++ back
      · exact ⟨z, hzmem, hrz, hzy, hle⟩
      · have hblock : z = position ∨ z ∈ inner := by
          rcases (hmem z).mp hz with hz' | hz' | hz' | hz'
          · exact absurd ((hmem' z).mpr (.inl hz')) hzmem
          · exact .inl hz'
          · exact .inr hz'
          · exact absurd ((hmem' z).mpr (.inr hz')) hzmem
        have hne : z ≠ y := fun heq => hzmem (heq ▸ hy)
        obtain ⟨first, hfirst', hzf, hfy, hle'⟩ := hbehind z hblock y hy (by omega)
        exact ⟨first, hfirst', by omega, hfy, hle'.trans hle⟩

end Accounts

/-! ### Pruning -/

section Pruning
variable {lower : String → String} {disabledRules : List String} {entries : List Entry}
  {state out : PruneState} {fuel : Nat}

theorem keys_countHit (pattern : String) (hits : List (String × Nat)) :
    (countHit pattern hits).map Prod.fst = hits.map Prod.fst := by
  rw [countHit, List.map_map]
  refine List.map_congr_left fun hit _ => ?_
  rw [Function.comp_apply]
  split <;> rfl

theorem sum_countHit {pattern : String} {hits : List (String × Nat)}
    (hnodup : (hits.map Prod.fst).Nodup) (hmem : pattern ∈ hits.map Prod.fst) :
    ((countHit pattern hits).map Prod.snd).sum = (hits.map Prod.snd).sum + 1 := by
  induction hits with
  | nil => exact absurd hmem List.not_mem_nil
  | cons hit hits ih =>
    rw [List.map_cons, List.nodup_cons] at hnodup
    have hcons : countHit pattern (hit :: hits) =
        (if hit.1 = pattern then (hit.1, hit.2 + 1) else hit) :: countHit pattern hits := rfl
    rw [hcons, List.map_cons, List.sum_cons, List.map_cons, List.sum_cons]
    by_cases heq : hit.1 = pattern
    · have hsame : countHit pattern hits = hits := by
        conv_rhs => rw [← List.map_id hits]
        refine List.map_congr_left fun other hother => if_neg fun hname => hnodup.1 ?_
        rw [heq, ← hname]
        exact List.mem_map_of_mem hother
      rw [if_pos heq, hsame]
      exact Nat.add_right_comm ..
    · have hrest := (List.mem_cons.mp hmem).resolve_left fun h => heq h.symm
      rw [if_neg heq, ih hnodup.2 hrest]
      exact (Nat.add_assoc ..).symm

/-- What holds whenever the loops come to a new place. -/
structure Kept (matched : Entry → Prop) (entries : List Entry) (state : PruneState) : Prop where
  keys : state.hits.map Prod.fst = prunePatterns.map Prod.fst
  subsequence : state.result.Sublist entries
  enough : min 5 entries.length ≤ state.result.length
  blocks : ∃ kept blocks, Account matched entries state.result kept blocks ∧
    Closed entries kept ∧ (state.hits.map Prod.snd).sum = blocks.length

theorem kept_init (matched : Entry → Prop) (entries : List Entry) :
    Kept matched entries ⟨entries, prunePatterns.map fun rule => (rule.1, 0), 0, []⟩ where
  keys := rfl
  subsequence := List.Sublist.refl _
  enough := min_le_right _ _
  blocks := ⟨_, [], account_all matched entries, closed_all entries, rfl⟩

theorem Kept.without {matched : Entry → Prop} {pattern : String} {before rest : List Entry}
    {head : Entry} (h : Kept matched entries state)
    (hpattern : pattern ∈ prunePatterns.map Prod.fst)
    (hresult : state.result = before ++ head :: rest) (hmatched : matched head)
    (henough : 5 ≤ before.length + (rest.dropWhile (deeper head)).length) :
    Kept matched entries (state.without pattern before (rest.dropWhile (deeper head))) where
  keys := (keys_countHit ..).trans h.keys
  subsequence := by
    refine List.Sublist.trans ?_ (hresult ▸ h.subsequence)
    exact ((List.dropWhile_sublist _).trans (List.sublist_cons_self ..)).append_left before
  enough := by
    rw [PruneState.without, List.length_append]
    exact (min_le_left _ _).trans henough
  blocks := by
    obtain ⟨kept, blocks, haccount, hclosed, hsum⟩ := h.blocks
    obtain ⟨kept', blocks', haccount', hclosed', hlength⟩ :=
      haccount.remove hclosed hresult hmatched
    refine ⟨kept', blocks', haccount', hclosed', ?_⟩
    have hnodup : (state.hits.map Prod.fst).Nodup := by
      rw [h.keys]
      decide
    rw [PruneState.without, sum_countHit hnodup (h.keys ▸ hpattern), hsum, hlength]

theorem pruned_of_ends (h : pruneIntent lower fuel disabledRules entries = some out) :
    Pruned lower disabledRules entries out := by
  have hkept : Kept (Matched lower disabledRules) entries out := by
    refine pruneRules_keeps (Kept (Matched lower disabledRules) entries) ?_ ?_
      (kept_init _ entries) h
    · intro rule hrule state before head rest hresult hmatch henough hkept
      have hpattern : rule.1 ∈ prunePatterns.map Prod.fst :=
        List.mem_map_of_mem (List.mem_of_mem_filter hrule)
      exact hkept.without hpattern hresult ⟨rule, hrule, hmatch⟩ henough
    · intro state pattern hkept
      exact ⟨hkept.keys, hkept.subsequence, hkept.enough, hkept.blocks⟩
  obtain ⟨kept, blocks, haccount, -, hsum⟩ := hkept.blocks
  exact ⟨hkept.subsequence, hkept.enough, kept, blocks, haccount, hsum⟩

/-- Pruning ends, and as it should, exactly if no entry matches an enabled rule or five are left
when all blocks are taken away. -/
theorem pruned_iff :
    (∃ fuel out, pruneIntent lower fuel disabledRules entries = some out ∧
      Pruned lower disabledRules entries out) ↔
      (∀ e ∈ entries, ¬ Matched lower disabledRules e) ∨
        5 ≤ (stripAll lower disabledRules entries).length := by
  have hfree : FreeAll lower (enabledRules disabledRules) entries ↔
      (∀ e ∈ entries, ¬ Matched lower disabledRules e) ∨
        5 ≤ (stripAll lower disabledRules entries).length := by
    refine or_congr_left ⟨fun h e he => ?_, fun h rule hrule e he hmatch => ?_⟩
    · rintro ⟨rule, hrule, hmatch⟩
      exact h rule hrule e he hmatch
    · exact h e he ⟨rule, hrule, hmatch⟩
  rw [← hfree]
  constructor
  · rintro ⟨fuel, out, hends, -⟩
    exact freeAll_of_ends hends
  · intro h
    have hstart : (PruneState.mk entries (prunePatterns.map fun rule => (rule.1, 0)) 0 []).result =
        entries := rfl
    rw [← hstart] at h
    obtain ⟨out, hout⟩ := pruneRules_ends h (Nat.lt_succ_self _)
    exact ⟨_, out, hout, pruned_of_ends hout⟩

/-- A page of one menu is pruned for ever. -/
theorem not_pruned_menu :
    ¬ ∃ fuel out, pruneIntent id fuel [] [⟨0, some ("menu", "Main"), "menu \"Main\""⟩] = some out ∧
      Pruned id [] [⟨0, some ("menu", "Main"), "menu \"Main\""⟩] out := by
  rintro ⟨fuel, out, hends, -⟩
  rcases freeAll_of_ends hends with hnone | henough
  · exact hnone ("navigation", ["navigation", "nav", "menu", "navbar", "topbar", "sidebar"])
      (by decide) _ (List.mem_singleton_self _) (by decide)
  · exact absurd henough (by decide)

end Pruning

end PiPlatform.Runtime.Pruning
