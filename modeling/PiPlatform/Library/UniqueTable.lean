import Mathlib.Algebra.Group.Int.Defs
import PiPlatform.Library.System

/-! SQL tables with unique constraints, written to by inserts that a conflict turns into
nothing.

No two rows of a `UniqueTable` clash; `insertOrIgnore` appends a row that clashes with
none and otherwise leaves the table alone. Nobody who inserts is told which of the two
happened. A `Journal` is such a table together with the calls that returned, and
`keeps_iff` says which calls a run may make so that every one that returned can be found
again, as it was, under the key its caller has. -/
namespace PiPlatform.Library

/-- The integers an INTEGER column holds. -/
def Storable (i : Int) : Prop := -2 ^ 63 ≤ i ∧ i < 2 ^ 63

instance instDecidableStorable (i : Int) : Decidable (Storable i) :=
  inferInstanceAs (Decidable (_ ∧ _))

/-- Rows of which no two clash. -/
structure UniqueTable {Row : Type} (clash : Row → Row → Bool) where
  rows : List Row
  distinct : rows.Pairwise fun a b => clash a b = false

namespace UniqueTable
variable {Row K : Type} {clash : Row → Row → Bool} (t : UniqueTable clash)

def empty : UniqueTable clash := ⟨[], List.Pairwise.nil⟩

/-- No row of the table clashes with the new one. -/
def Fits (row : Row) : Prop := ∀ r ∈ t.rows, clash r row = false

instance instDecidableFits (row : Row) : Decidable (t.Fits row) :=
  inferInstanceAs (Decidable (∀ r ∈ t.rows, clash r row = false))

/-- `INSERT OR IGNORE` -/
def insertOrIgnore (row : Row) : UniqueTable clash :=
  if h : t.Fits row then
    { rows := t.rows ++ [row]
      distinct := by
        refine List.pairwise_append.mpr ⟨t.distinct, List.pairwise_singleton _ _, ?_⟩
        intro r hr r' hr'
        rw [List.mem_singleton.mp hr']
        exact h r hr }
  else t

theorem rows_insert {t : UniqueTable clash} {row : Row} (h : t.Fits row) :
    (t.insertOrIgnore row).rows = t.rows ++ [row] := by
  rw [insertOrIgnore, dif_pos h]

theorem insert_ignored {t : UniqueTable clash} {row : Row} (h : ¬ t.Fits row) :
    t.insertOrIgnore row = t := dif_neg h

/-- `SELECT … WHERE key = ?`, of which there is at most one row. -/
def find? [DecidableEq K] (key : Row → K) (k : K) : Option Row := t.rows.find? fun r => key r = k

variable [DecidableEq K] {key : Row → K} {t : UniqueTable clash} {row : Row}

theorem find?_eq_none {k : K} : t.find? key k = none ↔ ∀ r ∈ t.rows, key r ≠ k := by
  rw [find?, List.find?_eq_none]
  exact forall₂_congr fun r _ => by rw [decide_eq_true_eq]

/-- Where rows with one key clash, the row found under a key is the one that has it. -/
theorem find?_eq_some (hkey : ∀ a b, key a = key b → clash a b = true) {k : K} {r : Row} :
    t.find? key k = some r ↔ r ∈ t.rows ∧ key r = k := by
  constructor
  · exact fun h => ⟨List.mem_of_find?_eq_some h, by simpa using List.find?_some h⟩
  · rintro ⟨hr, rfl⟩
    obtain ⟨before, behind, hrows⟩ := List.append_of_mem hr
    have hdistinct := t.distinct
    rw [hrows, List.pairwise_append] at hdistinct
    have hbefore : (before.find? fun b => key b = key r) = none := by
      refine List.find?_eq_none.mpr fun b hb heq => ?_
      have hclash := hdistinct.2.2 b hb r (List.mem_cons_self ..)
      rw [hkey b r (of_decide_eq_true heq)] at hclash
      cases hclash
    rw [find?, hrows, List.find?_append, hbefore, Option.none_or,
      List.find?_cons_of_pos (by simp)]

/-- What is found is found after every insert. -/
theorem find?_insert_of_some {k : K} {old : Row} (h : t.find? key k = some old) :
    (t.insertOrIgnore row).find? key k = some old := by
  by_cases hfits : t.Fits row
  · rw [find?, rows_insert hfits, List.find?_append]
    show (t.find? key k).or _ = some old
    rw [h, Option.some_or]
  · rwa [insert_ignored hfits]

/-- A row that fits is found under its key if nothing was. -/
theorem find?_insert_of_none (hfits : t.Fits row) (h : t.find? key (key row) = none) :
    (t.insertOrIgnore row).find? key (key row) = some row := by
  rw [find?, rows_insert hfits, List.find?_append]
  show (t.find? key (key row)).or _ = some row
  rw [h, Option.none_or, List.find?_singleton, if_pos (by simp)]

end UniqueTable

/-! ### What is acknowledged -/

/-- A table with the calls that returned, and what each of them returned. -/
structure Journal {Row : Type} (α β : Type) (clash : Row → Row → Bool) where
  table : UniqueTable clash
  returned : List (α × β)

section Journal
variable {Row K α β E : Type} {clash : Row → Row → Bool}
  (call : UniqueTable clash → α → Except E β × UniqueTable clash)

def Journal.next (j : Journal α β clash) (a : α) : Journal α β clash :=
  match call j.table a with
  | (.ok b, table) => ⟨table, j.returned ++ [(a, b)]⟩
  | (.error _, table) => { j with table := table }

/-- One call after another. -/
def journal : System (Journal α β clash) α where
  initial := ⟨.empty, []⟩
  step := Journal.next call

/-- The call makes a row of its entry, inserts it unless it clashes, and returns; or it
raises, when no row can be made, and changes nothing. -/
def Inserts (row : α → Except E Row) (answer : α → β) : Prop :=
  ∀ t a, call t a =
    match row a with
    | .ok r => (.ok (answer a), t.insertOrIgnore r)
    | .error e => (.error e, t)

variable [DecidableEq K] (row : α → Except E Row) (answer : α → β) (key : Row → K)
  (handle : α → β → K) (Holds : α → Row → Prop)

/-- What a call acknowledged is found under its handle, in a row that holds it. -/
def Keeps (j : Journal α β clash) : Prop :=
  ∀ a b, (a, b) ∈ j.returned → ∃ r, j.table.find? key (handle a b) = some r ∧ Holds a r

/-- The row found under the handle holds the entry, or there is none and the entry's own
row fits and holds it. -/
def Retained (t : UniqueTable clash) (a : α) : Prop :=
  ∀ r, row a = .ok r →
    match t.find? key (handle a (answer a)) with
    | some old => Holds a old
    | none => t.Fits r ∧ Holds a r

variable {call row answer key handle Holds} {j : Journal α β clash} {a : α} {r : Row}

theorem next_ok (hcall : Inserts call row answer) (h : row a = .ok r) :
    j.next call a = ⟨j.table.insertOrIgnore r, j.returned ++ [(a, answer a)]⟩ := by
  rw [Journal.next, hcall, h]

theorem next_error (hcall : Inserts call row answer) {e : E} (h : row a = .error e) :
    j.next call a = j := by
  rw [Journal.next, hcall, h]

/-- What an entry finds under its handle once it is acknowledged. -/
theorem find?_next (hcall : Inserts call row answer)
    (hkey : ∀ a r, row a = .ok r → key r = handle a (answer a)) (h : row a = .ok r) :
    (j.next call a).table.find? key (handle a (answer a)) =
      match j.table.find? key (handle a (answer a)) with
      | some old => some old
      | none => if j.table.Fits r then some r else none := by
  rw [next_ok hcall h, ← hkey a r h]
  show (j.table.insertOrIgnore r).find? key (key r) = _
  cases hfind : j.table.find? key (key r) with
  | some old => exact UniqueTable.find?_insert_of_some hfind
  | none =>
    by_cases hfits : j.table.Fits r
    · rw [if_pos hfits]
      exact UniqueTable.find?_insert_of_none hfits hfind
    · rwa [if_neg hfits, UniqueTable.insert_ignored hfits]

theorem Keeps.next (hcall : Inserts call row answer)
    (hkey : ∀ a r, row a = .ok r → key r = handle a (answer a)) (h : Keeps key handle Holds j)
    (ha : Retained row answer key handle Holds j.table a) :
    Keeps key handle Holds (j.next call a) := by
  cases hrow : row a with
  | error e => rwa [next_error hcall hrow]
  | ok r =>
    intro b answered hb
    have hfound := find?_next (j := j) hcall hkey hrow
    rw [next_ok hcall hrow] at hb hfound ⊢
    rcases List.mem_append.mp hb with hb | hb
    · obtain ⟨old, hfind, hholds⟩ := h b answered hb
      exact ⟨old, UniqueTable.find?_insert_of_some hfind, hholds⟩
    · obtain ⟨rfl, rfl⟩ := Prod.mk.inj (List.mem_singleton.mp hb)
      rw [hfound]
      have hretained := ha r hrow
      cases hfind : j.table.find? key (handle b (answer b)) with
      | some old =>
        rw [hfind] at hretained
        exact ⟨old, rfl, hretained⟩
      | none =>
        rw [hfind] at hretained
        exact ⟨r, if_pos hretained.1, hretained.2⟩

/-- An entry that is kept was one that could be. -/
theorem Retained.of_keeps (hcall : Inserts call row answer)
    (hkey : ∀ a r, row a = .ok r → key r = handle a (answer a))
    (h : Keeps key handle Holds (j.next call a)) :
    Retained row answer key handle Holds j.table a := by
  intro r hrow
  have hmem : (a, answer a) ∈ (j.next call a).returned := by simp [next_ok hcall hrow]
  obtain ⟨found, hfound, hholds⟩ := h a (answer a) hmem
  rw [find?_next hcall hkey hrow] at hfound
  cases hfind : j.table.find? key (handle a (answer a)) with
  | some old =>
    rw [hfind] at hfound
    exact Option.some.inj hfound ▸ hholds
  | none =>
    rw [hfind] at hfound
    by_cases hfits : j.table.Fits r
    · have hr : r = found := Option.some.inj ((if_pos hfits).symm.trans hfound)
      exact ⟨hfits, hr ▸ hholds⟩
    · rw [if_neg hfits] at hfound
      cases hfound

/-- In every state of a run all that was acknowledged is kept if and only if every entry is
`Retained` when it comes. -/
theorem keeps_iff (hcall : Inserts call row answer)
    (hkey : ∀ a r, row a = .ok r → key r = handle a (answer a)) (entries : List α) :
    (journal call).Always (Keeps key handle Holds) entries ↔
      (journal call).Admits (fun j => Retained row answer key handle Holds j.table) entries :=
  (journal call).always_iff_admits (fun j => Retained row answer key handle Holds j.table)
    (Keeps key handle Holds) (Keeps key handle Holds) (fun _ _ ha => nomatch ha)
    (fun _ _ ha h => h.next hcall hkey ha) (fun _ h => h)
    (fun _ _ _ hnot h => hnot (.of_keeps hcall hkey h)) entries

end Journal

end PiPlatform.Library
