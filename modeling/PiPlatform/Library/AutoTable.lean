import Mathlib.Data.List.Basic
import Mathlib.Data.List.Nodup
import PiPlatform.Library.Lists

/-! SQL tables with an AUTOINCREMENT id and a UNIQUE column.

The rows of an `AutoTable` stand in the order of their ids, no two have one key, and no
id is above the last one handed out. `insert` gives a row the next id, or fails where the
key is taken; `keep` removes rows and leaves the others their ids. -/
namespace PiPlatform.Library

/-- The rows with their ids, and the last id handed out. -/
structure AutoTable (Row : Type) {K : Type} (key : Row → K) where
  rows : List (Nat × Row)
  sequence : Nat
  distinct : (rows.map fun r => key r.2).Nodup
  ordered : (rows.map Prod.fst).Pairwise (· < ·)
  bounded : ∀ r ∈ rows, r.1 ≤ sequence

namespace AutoTable
variable {Row K : Type} {key : Row → K}

def empty : AutoTable Row key where
  rows := []
  sequence := 0
  distinct := by simp
  ordered := by simp
  bounded := by simp

theorem ext {t t' : AutoTable Row key} (hrows : t.rows = t'.rows)
    (hsequence : t.sequence = t'.sequence) : t = t' := by
  cases t
  cases t'
  subst hrows hsequence
  rfl

section Insert
variable [DecidableEq K] (t : AutoTable Row key) (row : Row)

/-- Some row has the key of the new one. -/
def Taken : Prop := key row ∈ t.rows.map fun r => key r.2

instance instDecidableTaken : Decidable (t.Taken row) :=
  inferInstanceAs (Decidable (key row ∈ t.rows.map fun r => key r.2))

/-- `INSERT`, and nothing where it is an `IntegrityError`. -/
def insert : Option (AutoTable Row key) :=
  if h : t.Taken row then none
  else
    some {
      rows := t.rows ++ [(t.sequence + 1, row)]
      sequence := t.sequence + 1
      distinct := by
        rw [List.map_append]
        exact nodup_snoc t.distinct h
      ordered := by
        rw [List.map_append, List.pairwise_append]
        refine ⟨t.ordered, List.pairwise_singleton _ _, fun a ha b hb => ?_⟩
        obtain ⟨r, hr, rfl⟩ := List.mem_map.mp ha
        obtain rfl := List.mem_singleton.mp hb
        exact Nat.lt_succ_of_le (t.bounded r hr)
      bounded := by
        intro r hr
        rcases List.mem_append.mp hr with hr | hr
        · exact Nat.le_succ_of_le (t.bounded r hr)
        · obtain rfl := List.mem_singleton.mp hr
          exact Nat.le_refl _ }

variable {t row}

theorem insert_of_taken (h : t.Taken row) : t.insert row = none := dif_pos h

theorem rows_insert {t' : AutoTable Row key} (h : t.insert row = some t') :
    t'.rows = t.rows ++ [(t.sequence + 1, row)] ∧ t'.sequence = t.sequence + 1 ∧ ¬ t.Taken row := by
  by_cases htaken : t.Taken row
  · rw [insert_of_taken htaken] at h
    cases h
  · rw [insert, dif_neg htaken] at h
    obtain rfl := Option.some.inj h
    exact ⟨rfl, rfl, htaken⟩

theorem insert_of_not_taken (h : ¬ t.Taken row) : ∃ t', t.insert row = some t' :=
  ⟨_, dif_neg h⟩

end Insert

/-- The table without the rows that fail the test. -/
def keep (p : Nat × Row → Bool) (t : AutoTable Row key) : AutoTable Row key where
  rows := t.rows.filter p
  sequence := t.sequence
  distinct := t.distinct.sublist (List.filter_sublist.map _)
  ordered := t.ordered.sublist (List.filter_sublist.map _)
  bounded := fun r hr => t.bounded r (List.mem_of_mem_filter hr)

/-- Where neither the new row nor one that clashes with it is removed, it does not matter
whether rows are removed before or after an insert. -/
theorem insert_keep [DecidableEq K] {t : AutoTable Row key} {row : Row} {p : Nat × Row → Bool}
    (hrow : p (t.sequence + 1, row) = true)
    (hclash : ∀ r ∈ t.rows, key r.2 = key row → p r = true) :
    (t.keep p).insert row = (t.insert row).map (keep p) := by
  by_cases htaken : t.Taken row
  · obtain ⟨r, hr, hkey⟩ := List.mem_map.mp htaken
    have hkept : (t.keep p).Taken row :=
      List.mem_map.mpr ⟨r, List.mem_filter.mpr ⟨hr, hclash r hr hkey⟩, hkey⟩
    rw [insert_of_taken htaken, insert_of_taken hkept]
    rfl
  · have hkept : ¬ (t.keep p).Taken row := by
      intro h
      obtain ⟨r, hr, hkey⟩ := List.mem_map.mp h
      exact htaken (List.mem_map.mpr ⟨r, List.mem_of_mem_filter hr, hkey⟩)
    obtain ⟨t', ht'⟩ := insert_of_not_taken htaken
    obtain ⟨u, hu⟩ := insert_of_not_taken hkept
    obtain ⟨hrows, hsequence, -⟩ := rows_insert ht'
    obtain ⟨hrows', hsequence', -⟩ := rows_insert hu
    rw [hu, ht', Option.map_some]
    refine congrArg some (ext ?_ (hsequence'.trans hsequence.symm))
    have hfilter : (t'.keep p).rows = t.rows.filter p ++ [(t.sequence + 1, row)] := by
      show t'.rows.filter p = _
      rw [hrows, List.filter_append, List.filter_cons_of_pos hrow, List.filter_nil]
    rw [hrows', hfilter]
    rfl

end AutoTable

end PiPlatform.Library
