import Mathlib.Data.List.Lex
import Mathlib.Data.List.Sort
import PiPlatform.Library.Dict
import PiPlatform.Library.Json.Parsing

/-! Python values and the standard library's JSON for them.

`emit` is what `json.dumps(v, sort_keys=True, default=str)` writes, as a document,
and `load` what `json.loads` builds from one. Dictionaries are sorted by the keys
themselves, so integer keys go by value and a dictionary that mixes strings and
integers is a `TypeError`; on the way back every key is a string, and of a
duplicate key the last value wins.

A second trip through the two is `normal`: one member per key, in the order of the
key texts (`emit_load`). A document survives it unchanged exactly when its keys
ascend everywhere (`normal_eq_iff`). -/
namespace PiPlatform.Library.Python

open Json

/-- The exceptions the models raise. -/
inductive PyError where
  | typeError
  | valueError (message : String)
  | keyError (key : String)
  | jsonDecodeError
  | integrityError
  | operationalError
  deriving DecidableEq

inductive Key where
  | str (s : Text)
  | int (i : Int)
  deriving DecidableEq

inductive PyValue (F : Type) where
  | none
  | bool (b : Bool)
  | int (i : Int)
  | float (x : Fl F)
  | str (s : Text)
  | list (xs : List (PyValue F))
  | tuple (xs : List (PyValue F))
  /-- A set or frozenset, in the order it is iterated. -/
  | set (xs : List (PyValue F))
  | dict (items : List (Key × PyValue F))

variable {F : Type}

/-- What holds of a value if it does of those inside it. -/
@[elab_as_elim, induction_eliminator]
theorem PyValue.induct {motive : PyValue F → Prop} (none : motive .none)
    (bool : ∀ b, motive (.bool b)) (int : ∀ i, motive (.int i)) (float : ∀ x, motive (.float x))
    (str : ∀ s, motive (.str s)) (list : ∀ xs, (∀ x ∈ xs, motive x) → motive (.list xs))
    (tuple : ∀ xs, (∀ x ∈ xs, motive x) → motive (.tuple xs))
    (set : ∀ xs, (∀ x ∈ xs, motive x) → motive (.set xs))
    (dict : ∀ items, (∀ p ∈ items, motive p.2) → motive (.dict items)) (v : PyValue F) :
    motive v :=
  @PyValue.rec F motive (fun xs => ∀ x ∈ xs, motive x) (fun items => ∀ p ∈ items, motive p.2)
    (fun p => motive p.2) none bool int float str list tuple set dict (List.forall_mem_nil _)
    (fun _ _ hx hxs => List.forall_mem_cons.mpr ⟨hx, hxs⟩) (List.forall_mem_nil _)
    (fun _ _ hp hitems => List.forall_mem_cons.mpr ⟨hp, hitems⟩) (fun _ _ hv => hv) v

/-! ### Values Python can build -/

mutual

/-- Immutable all the way down: what may stand in a set. -/
def PyValue.hashable : PyValue F → Bool
  | .list _ => false
  | .dict _ => false
  | .tuple xs => hashableElems xs
  | .set xs => hashableElems xs
  | _ => true

def hashableElems : List (PyValue F) → Bool
  | [] => true
  | x :: xs => x.hashable && hashableElems xs

end

mutual

/-- No dictionary holds a key twice and no set an element it could not hash. -/
def PyValue.wellFormed : PyValue F → Bool
  | .list xs => wellFormedElems xs
  | .tuple xs => wellFormedElems xs
  | .set xs => hashableElems xs && wellFormedElems xs
  | .dict items => decide (items.map Prod.fst).Nodup && wellFormedItems items
  | _ => true

def wellFormedElems : List (PyValue F) → Bool
  | [] => true
  | x :: xs => x.wellFormed && wellFormedElems xs

def wellFormedItems : List (Key × PyValue F) → Bool
  | [] => true
  | (_, v) :: items => v.wellFormed && wellFormedItems items

end

theorem hashableElems_iff (xs : List (PyValue F)) :
    hashableElems xs = true ↔ ∀ x ∈ xs, x.hashable = true :=
  all_iff rfl (fun _ _ => rfl) xs

theorem wellFormedElems_iff (xs : List (PyValue F)) :
    wellFormedElems xs = true ↔ ∀ x ∈ xs, x.wellFormed = true :=
  all_iff rfl (fun _ _ => rfl) xs

theorem wellFormedItems_iff (items : List (Key × PyValue F)) :
    wellFormedItems items = true ↔ ∀ p ∈ items, p.2.wellFormed = true :=
  all_iff rfl (fun _ _ => rfl) items

/-! ### Writing -/

def Key.str? : Key → Option Text
  | .str s => some s
  | .int _ => none

def Key.int? : Key → Option Int
  | .int i => some i
  | .str _ => none

/-- The text of an integer key. -/
def intKey (i : Int) : Text := ofString (String.ofList (intText i))

/-- `sorted(d.items())`, the keys then written as strings. -/
def sortItems {V : Type} (items : List (Key × V)) : Except PyError (List (Text × V)) :=
  match items.mapM fun p => p.1.str?.map (·, p.2) with
  | some texts => .ok (texts.insertionSort fun a b => a.1 ≤ b.1)
  | none =>
    match items.mapM fun p => p.1.int?.map (·, p.2) with
    | some ints => .ok ((ints.insertionSort fun a b => a.1 ≤ b.1).map fun p => (intKey p.1, p.2))
    | none => .error .typeError

/-- `str` of a frozenset, whose order is the interpreter's. -/
class SetText (F : Type) where
  setText : List (PyValue F) → Text

/-- Right for the empty set, the only one the runs on literals write. -/
instance : SetText Literal := ⟨fun _ => ofString "frozenset()"⟩

section Emit
variable [SetText F]

mutual

def emit : PyValue F → Except PyError (Document F)
  | .none => .ok .null
  | .bool b => .ok (.bool b)
  | .int i => .ok (.int i)
  | .float x => .ok (.float x)
  | .str s => .ok (.str s)
  | .list xs => do return .arr (← emitElems xs)
  | .tuple xs => do return .arr (← emitElems xs)
  | .set xs => .ok (.str (SetText.setText xs))
  | .dict items => do return .obj (← sortItems (← emitItems items))

def emitElems : List (PyValue F) → Except PyError (List (Document F))
  | [] => .ok []
  | x :: xs => do return (← emit x) :: (← emitElems xs)

def emitItems : List (Key × PyValue F) → Except PyError (List (Key × Document F))
  | [] => .ok []
  | (k, v) :: items => do return (k, ← emit v) :: (← emitItems items)

end

theorem emitElems_eq_mapM (xs : List (PyValue F)) : emitElems xs = xs.mapM emit := by
  induction xs with
  | nil => rfl
  | cons x xs ih => rw [emitElems, List.mapM_cons, ih]

theorem emitItems_eq_mapM (items : List (Key × PyValue F)) :
    emitItems items = items.mapM fun p => (p.1, ·) <$> emit p.2 := by
  induction items with
  | nil => rfl
  | cons p items ih =>
    rw [emitItems, List.mapM_cons, ih]
    cases emit p.2 <;> rfl

theorem emitElems_ok_iff {xs : List (PyValue F)} {ts : List (Document F)} :
    emitElems xs = .ok ts ↔ List.Forall₂ (fun x t => emit x = .ok t) xs ts := by
  rw [emitElems_eq_mapM, mapM_eq_ok_iff]

theorem emitItems_ok_iff {items : List (Key × PyValue F)} {ts : List (Key × Document F)} :
    emitItems items = .ok ts ↔
      List.Forall₂ (fun p q => p.1 = q.1 ∧ emit p.2 = .ok q.2) items ts := by
  rw [emitItems_eq_mapM, mapM_values_ok_iff]

theorem exists_emitElems {xs : List (PyValue F)} (h : ∀ x ∈ xs, ∃ t, emit x = .ok t) :
    ∃ ts, emitElems xs = .ok ts := by
  obtain ⟨ts, hts, -⟩ := exists_mapM (R := fun _ _ => True) fun x hx =>
    (h x hx).imp fun _ ht => ⟨ht, trivial⟩
  exact ⟨ts, (emitElems_eq_mapM xs).trans hts⟩

theorem exists_emitItems {items : List (Key × PyValue F)}
    (h : ∀ p ∈ items, ∃ t, emit p.2 = .ok t) : ∃ ts, emitItems items = .ok ts := by
  obtain ⟨ts, hts, -⟩ := exists_mapM_values (R := fun _ _ => True) fun p hp =>
    (h p hp).imp fun _ ht => ⟨ht, trivial⟩
  exact ⟨ts, (emitItems_eq_mapM items).trans hts⟩

/-! ### The only error is a `TypeError` -/

theorem sortItems_error {V : Type} {items : List (Key × V)} {e : PyError}
    (h : sortItems items = .error e) : e = .typeError := by
  rw [sortItems] at h
  split at h
  · cases h
  · split at h
    · cases h
    · exact (Except.error.inj h).symm

theorem emit_error (v : PyValue F) {e : PyError} (h : emit v = .error e) : e = .typeError := by
  induction v generalizing e with
  | none | bool | int | float | str | set => cases h
  | list xs ih | tuple xs ih =>
    rcases bind_error h with h | ⟨ts, -, h⟩
    · rw [emitElems_eq_mapM] at h
      obtain ⟨x, hx, h⟩ := exists_of_mapM_error h
      exact ih x hx h
    · cases h
  | dict items ih =>
    rcases bind_error h with h | ⟨ts, -, h⟩
    · rw [emitItems_eq_mapM] at h
      obtain ⟨p, hp, h⟩ := exists_of_mapM_values_error h
      exact ih p hp h
    · rcases bind_error h with h | ⟨ms, -, h⟩
      · exact sortItems_error h
      · cases h

/-- `json.dumps(v, sort_keys=True, default=str)` with the separators of `st`. -/
def dumps [FloatCodec F] (st : Style) (v : PyValue F) : Except PyError String := do
  return String.ofList ((← emit v).render st)

theorem dumps_error [FloatCodec F] {st : Style} {v : PyValue F} {e : PyError}
    (h : dumps st v = .error e) : e = .typeError := by
  rcases bind_error h with h | ⟨t, -, h⟩
  · exact emit_error v h
  · cases h

end Emit

/-! ### Reading -/

mutual

def load : Document F → PyValue F
  | .null => .none
  | .bool b => .bool b
  | .int i => .int i
  | .float x => .float x
  | .str s => .str s
  | .arr xs => .list (loadElems xs)
  | .obj ms => .dict (setItems [] (loadMembers ms))

def loadElems : List (Document F) → List (PyValue F)
  | [] => []
  | x :: xs => load x :: loadElems xs

def loadMembers : List (Text × Document F) → List (Key × PyValue F)
  | [] => []
  | (k, v) :: ms => (.str k, load v) :: loadMembers ms

end

theorem loadElems_eq_map (xs : List (Document F)) : loadElems xs = xs.map load :=
  eq_map rfl (fun _ _ => rfl) xs

theorem loadMembers_eq_map (ms : List (Text × Document F)) :
    loadMembers ms = ms.map fun m => (.str m.1, load m.2) :=
  eq_map rfl (fun _ _ => rfl) ms

/-- `json.loads(s)` -/
def loads [FloatCodec F] (s : String) : Except PyError (PyValue F) :=
  match parse s.toList with
  | some t => .ok (load t)
  | none => .error .jsonDecodeError

/-! ### Writing what was read -/

mutual

/-- One member per key, the last value in the place of the first, then all in the
order of the key texts. -/
def normal : Document F → Document F
  | .arr xs => .arr (normalElems xs)
  | .obj ms => .obj ((setItems [] (normalMembers ms)).insertionSort fun a b => a.1 ≤ b.1)
  | t => t

def normalElems : List (Document F) → List (Document F)
  | [] => []
  | x :: xs => normal x :: normalElems xs

def normalMembers : List (Text × Document F) → List (Text × Document F)
  | [] => []
  | (k, v) :: ms => (k, normal v) :: normalMembers ms

end

theorem normalElems_eq_map (xs : List (Document F)) : normalElems xs = xs.map normal :=
  eq_map rfl (fun _ _ => rfl) xs

theorem normalMembers_eq_map (ms : List (Text × Document F)) :
    normalMembers ms = ms.map fun m => (m.1, normal m.2) :=
  eq_map rfl (fun _ _ => rfl) ms

mutual

/-- Every object's keys strictly ascend. -/
def ascending : Document F → Bool
  | .arr xs => ascendingElems xs
  | .obj ms => decide ((ms.map Prod.fst).Pairwise (· < ·)) && ascendingMembers ms
  | _ => true

def ascendingElems : List (Document F) → Bool
  | [] => true
  | x :: xs => ascending x && ascendingElems xs

def ascendingMembers : List (Text × Document F) → Bool
  | [] => true
  | (_, v) :: ms => ascending v && ascendingMembers ms

end

theorem sortItems_str {V : Type} {items : List (Key × V)} {texts : List (Text × V)}
    (h : List.Forall₂ (Matches Key.str Eq) texts items) :
    sortItems items = .ok (texts.insertionSort fun a b => a.1 ≤ b.1) := by
  have hmap : items.mapM (fun p => p.1.str?.map (·, p.2)) = some texts := by
    induction h with
    | nil => rfl
    | @cons p q texts items hpq _ ih =>
      obtain ⟨k, v⟩ := p
      obtain ⟨k', v'⟩ := q
      obtain ⟨rfl, rfl⟩ := hpq
      rw [List.mapM_cons, ih]
      rfl
  rw [sortItems, hmap]

theorem key_str_injective : Function.Injective Key.str := fun _ _ h => Key.str.inj h

section Emit
variable [SetText F]

theorem emitItems_rewritten {ms : List (Text × Document F)} {items : List (Key × PyValue F)}
    (h : List.Forall₂ (Matches Key.str fun t v => emit v = .ok t) ms items) :
    ∃ ts, emitItems items = .ok ts ∧ List.Forall₂ (Matches Key.str Eq) ms ts := by
  refine ⟨ms.map fun m => (.str m.1, m.2), emitItems_ok_iff.mpr ?_, ?_⟩
  · exact List.forall₂_map_right_iff.mpr h.flip
  · exact List.forall₂_map_right_iff.mpr (List.forall₂_same.mpr fun _ _ => ⟨rfl, rfl⟩)

/-- What was read writes back as its normal form. -/
theorem emit_load (d : Document F) : emit (load d) = .ok (normal d) := by
  induction d with
  | null | bool | int | float | str => rfl
  | arr xs ih =>
    have hxs : emitElems (loadElems xs) = .ok (normalElems xs) := by
      rw [loadElems_eq_map, normalElems_eq_map, emitElems_ok_iff, List.forall₂_map_left_iff,
        List.forall₂_map_right_iff]
      exact List.forall₂_same.mpr ih
    rw [load, emit, hxs]
    rfl
  | obj ms ih =>
    have hms : List.Forall₂ (Matches Key.str fun t v => emit v = .ok t) (normalMembers ms)
        (loadMembers ms) := by
      rw [normalMembers_eq_map, loadMembers_eq_map, List.forall₂_map_left_iff,
        List.forall₂_map_right_iff]
      exact List.forall₂_same.mpr fun m hm => ⟨rfl, ih m hm⟩
    obtain ⟨ts, hts, hmatch⟩ := emitItems_rewritten (matches_setItems key_str_injective hms .nil)
    rw [load, emit, hts]
    show (do return Document.obj (← sortItems ts)) = _
    rw [sortItems_str hmatch]
    rfl

end Emit

/-! ### Normal forms -/

theorem ascendingElems_iff (xs : List (Document F)) :
    ascendingElems xs = true ↔ ∀ x ∈ xs, ascending x = true :=
  all_iff rfl (fun _ _ => rfl) xs

theorem ascendingMembers_iff (ms : List (Text × Document F)) :
    ascendingMembers ms = true ↔ ∀ p ∈ ms, ascending p.2 = true :=
  all_iff rfl (fun _ _ => rfl) ms

/-- Sorting items with distinct keys puts the keys in strict order. -/
theorem pairwise_keys_insertionSort {V : Type} {items : List (Text × V)}
    (h : (items.map Prod.fst).Nodup) :
    ((items.insertionSort fun a b => a.1 ≤ b.1).map Prod.fst).Pairwise (· < ·) := by
  have hle : (items.insertionSort fun a b => a.1 ≤ b.1).Pairwise fun a b => a.1 ≤ b.1 := by
    have : Std.Total fun a b : Text × V => a.1 ≤ b.1 := ⟨fun a b => le_total a.1 b.1⟩
    have : IsTrans (Text × V) fun a b => a.1 ≤ b.1 := ⟨fun a b c => le_trans⟩
    exact List.pairwise_insertionSort _ _
  have hperm : ((items.insertionSort fun a b => a.1 ≤ b.1).map Prod.fst).Perm
      (items.map Prod.fst) := (List.perm_insertionSort _ _).map _
  have hne : ((items.insertionSort fun a b => a.1 ≤ b.1).map Prod.fst).Nodup :=
    hperm.nodup_iff.mpr h
  rw [List.pairwise_map]
  rw [List.Nodup, List.pairwise_map] at hne
  exact hle.imp₂ (fun a b hab hne => lt_of_le_of_ne hab hne) hne

/-- Items already in strict order are left alone. -/
theorem insertionSort_of_pairwise {V : Type} {items : List (Text × V)}
    (h : (items.map Prod.fst).Pairwise (· < ·)) :
    (items.insertionSort fun a b => a.1 ≤ b.1) = items := by
  rw [List.pairwise_map] at h
  exact (h.imp fun hab => le_of_lt hab).insertionSort_eq

theorem nodup_of_ascending {ms : List (Text × Document F)}
    (h : (ms.map Prod.fst).Pairwise (· < ·)) : (ms.map Prod.fst).Nodup :=
  h.imp fun hab => ne_of_lt hab

theorem ascending_normal (d : Document F) : ascending (normal d) = true := by
  induction d with
  | null | bool | int | float | str => rfl
  | arr xs ih =>
    rw [normal, ascending, ascendingElems_iff, normalElems_eq_map]
    exact List.forall_mem_map.mpr ih
  | obj ms ih =>
    have hnodup : ((setItems [] (normalMembers ms)).map Prod.fst).Nodup :=
      nodup_setItems _ List.nodup_nil
    have hvalues : ∀ p ∈ setItems [] (normalMembers ms), ascending p.2 = true := by
      rw [normalMembers_eq_map]
      exact forall_setItems (fun p hp => nomatch hp) (List.forall_mem_map.mpr ih)
    simp only [normal, ascending, Bool.and_eq_true, decide_eq_true_eq, ascendingMembers_iff,
      List.mem_insertionSort]
    exact ⟨pairwise_keys_insertionSort hnodup, hvalues⟩

theorem normal_of_ascending (d : Document F) (h : ascending d = true) : normal d = d := by
  induction d with
  | null | bool | int | float | str => rfl
  | arr xs ih =>
    have hxs : xs.map normal = xs :=
      map_eq_self.mpr fun x hx => ih x hx ((ascendingElems_iff xs).mp h x hx)
    rw [normal, normalElems_eq_map, hxs]
  | obj ms ih =>
    simp only [ascending, Bool.and_eq_true, decide_eq_true_eq, ascendingMembers_iff] at h
    have hms : (ms.map fun m => (m.1, normal m.2)) = ms :=
      map_eq_self.mpr fun m hm => Prod.ext rfl (ih m hm (h.2 m hm))
    have hset : setItems [] ms = ms := setItems_of_nodup ms (nodup_of_ascending h.1)
    rw [normal, normalMembers_eq_map, hms, hset, insertionSort_of_pairwise h.1]

/-- A document survives reading and writing exactly when its keys ascend. -/
theorem normal_eq_iff (t : Document F) : normal t = t ↔ ascending t = true :=
  ⟨fun h => h ▸ ascending_normal t, normal_of_ascending t⟩

/-- Normal forms of joined documents are joined. -/
theorem join_normal (d : Document F) (h : d.join = d) : (normal d).join = normal d := by
  induction d with
  | null | bool | int | float => rfl
  | str s => exact h
  | arr xs ih =>
    rw [Document.join, Document.arr.injEq, joinElems_eq_map, map_eq_self] at h
    rw [normal, Document.join, normalElems_eq_map, joinElems_eq_map, List.map_map]
    exact congrArg Document.arr (List.map_congr_left fun x hx => ih x hx (h x hx))
  | obj ms ih =>
    rw [Document.join, Document.obj.injEq, joinMembers_eq_map, map_eq_self] at h
    have hset : ∀ p ∈ setItems [] (normalMembers ms), (joinSurrogates p.1, p.2.join) = p := by
      rw [normalMembers_eq_map]
      refine forall_setItems (fun p hp => nomatch hp) (List.forall_mem_map.mpr fun m hm => ?_)
      obtain ⟨hkey, hvalue⟩ := Prod.mk.inj (h m hm)
      exact Prod.ext hkey (ih m hm hvalue)
    rw [normal, Document.join, joinMembers_eq_map,
      map_eq_self.mpr fun p hp => hset p ((List.mem_insertionSort _).mp hp)]

end PiPlatform.Library.Python
