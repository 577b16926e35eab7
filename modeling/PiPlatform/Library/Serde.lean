import PiPlatform.Library.Python.Plain

/-! JSON values in Rust, as `serde_json` has them with `preserve_order`.

A number is a `u64`, a negative `i64` or a finite `f64`, and equal only to a number of
its own kind. A map keeps the order of insertion, except that a removed entry leaves
its place to the last one. `Value.ofPlain` is what is read of the text Python writes:
which double a literal beyond 64 bits or with a fraction is read as is the reader's
affair, a parameter. -/
namespace PiPlatform.Library.Serde

open Python

/-! ### Doubles -/

/-- The multiple of `unit` nearest to `n`; of two, the even one. -/
def nearestMultiple (n unit : Nat) : Nat :=
  let q := n / unit
  let r := n % unit
  if 2 * r < unit ∨ (2 * r = unit ∧ q % 2 = 0) then q * unit else (q + 1) * unit

/-- `i as f64`: the nearest number with 53 significant bits. -/
def asDouble (i : Int) : Dyadic :=
  let n := nearestMultiple i.natAbs (2 ^ (i.natAbs.log2 - 52))
  .ofInt (if i < 0 then -n else n)

/-! ### Values -/

inductive Number where
  | posInt (n : Nat)
  | negInt (i : Int)
  | float (x : Dyadic)
  deriving DecidableEq

def Number.asF64 : Number → Dyadic
  | posInt n => asDouble n
  | negInt i => asDouble i
  | float x => x

inductive Value where
  | null
  | bool (b : Bool)
  | number (n : Number)
  | string (s : String)
  | array (xs : List Value)
  | object (entries : List (String × Value))

namespace Value

mutual

def eq : Value → Value → Bool
  | null, null => true
  | bool b, bool c => b == c
  | number m, number n => m == n
  | string s, string t => s == t
  | array xs, array ys => eqElems xs ys
  | object es, object es' => es.length == es'.length && eqEntries es es'
  | _, _ => false

def eqElems : List Value → List Value → Bool
  | [], [] => true
  | x :: xs, y :: ys => x.eq y && eqElems xs ys
  | _, _ => false

def eqEntries : List (String × Value) → List (String × Value) → Bool
  | [], _ => true
  | (k, v) :: es, es' =>
    (match lookupItem k es' with
      | some v' => v.eq v'
      | none => false) && eqEntries es es'

end

instance : BEq Value := ⟨eq⟩

def asF64 : Value → Option Dyadic
  | number n => some n.asF64
  | _ => none

def asStr : Value → Option String
  | string s => some s
  | _ => none

def asArray : Value → Option (List Value)
  | array xs => some xs
  | _ => none

def isNull : Value → Bool
  | null => true
  | _ => false

/-- `value.get(key)` -/
def get (v : Value) (key : String) : Option Value :=
  match v with
  | object es => lookupItem key es
  | _ => none

end Value

/-! ### Maps -/

abbrev Map := Dict String Value

/-- The last entry, if there is one, in place of the first. -/
def swapFront {α : Type} (xs : List α) : List α :=
  match xs.getLast? with
  | some x => x :: xs.dropLast
  | none => []

def swapRemoveItem (key : String) : List (String × Value) → List (String × Value)
  | [] => []
  | (k, v) :: es => if k = key then swapFront es else (k, v) :: swapRemoveItem key es

theorem swapFront_perm {α : Type} (xs : List α) : (swapFront xs).Perm xs := by
  rw [swapFront]
  cases h : xs.getLast? with
  | none => rw [List.getLast?_eq_none_iff.mp h]
  | some x =>
    obtain ⟨ys, rfl⟩ := List.getLast?_eq_some_iff.mp h
    rw [List.dropLast_concat]
    exact (List.perm_append_singleton x ys).symm

theorem swapRemoveItem_perm (key : String) {es : List (String × Value)}
    (h : (es.map Prod.fst).Nodup) :
    (swapRemoveItem key es).Perm (es.filter fun e => e.1 ≠ key) := by
  induction es with
  | nil => rfl
  | cons e es ih =>
    obtain ⟨k, v⟩ := e
    obtain ⟨hk, hrest⟩ := List.nodup_cons.mp h
    by_cases hkey : k = key
    · subst hkey
      have hothers : es.filter (fun e => e.1 ≠ k) = es := by
        rw [List.filter_eq_self]
        intro e he
        rw [decide_eq_true_eq]
        exact fun heq => hk (List.mem_map.mpr ⟨e, he, heq⟩)
      rw [swapRemoveItem, if_pos rfl, List.filter_cons_of_neg (by simp), hothers]
      exact swapFront_perm es
    · rw [swapRemoveItem, if_neg hkey, List.filter_cons_of_pos (by simpa using hkey)]
      exact (ih hrest).cons _

/-- `map.remove(key)`, without the value it returns. -/
def Map.remove (m : Map) (key : String) : Map where
  items := swapRemoveItem key m.items
  nodup := by
    have hperm := (swapRemoveItem_perm key m.nodup).map Prod.fst
    exact hperm.nodup_iff.mpr (m.nodup.sublist (List.filter_sublist.map _))

theorem Map.get?_remove (m : Map) (key key' : String) :
    (m.remove key).get? key' = if key = key' then none else m.get? key' := by
  have hperm := swapRemoveItem_perm key m.nodup
  exact (lookupItem_perm (m.remove key).nodup hperm key').trans (lookupItem_filter key key' m.items)

/-- The map of an object, and an empty one of any other value. -/
def Value.toMap : Value → Map
  | .object es => .ofList es
  | _ => .empty

def Map.toValue (m : Map) : Value := .object m.items

@[simp] theorem Map.toMap_toValue (m : Map) : m.toValue.toMap = m := by
  have hitems : setItems [] m.items = m.items := setItems_of_nodup m.items m.nodup
  cases m
  simp only [toValue, Value.toMap, Dict.ofList, hitems]

/-! ### Reading what Python writes -/

/-- The doubles that long integer literals and floats are read as. -/
structure Reader where
  long : Int → Dyadic
  float : Dyadic → Dyadic

/-- To the nearest double; floats are doubles. -/
def nearestReader : Reader := ⟨asDouble, id⟩

/-- An integer literal. -/
def Reader.number (R : Reader) (i : Int) : Number :=
  if 0 ≤ i ∧ i < 2 ^ 64 then .posInt i.toNat
  else if -2 ^ 63 ≤ i ∧ i < 0 then .negInt i
  else .float (R.long i)

mutual

def Value.ofPlain (R : Reader) : Plain → Value
  | .none => .null
  | .bool b => .bool b
  | .int i => .number (R.number i)
  | .float x => .number (.float (R.float x))
  | .str s => .string s
  | .list xs => .array (ofPlainElems R xs)
  | .dict items => .object (ofPlainItems R items)

def ofPlainElems (R : Reader) : List Plain → List Value
  | [] => []
  | x :: xs => Value.ofPlain R x :: ofPlainElems R xs

def ofPlainItems (R : Reader) : List (String × Plain) → List (String × Value)
  | [] => []
  | (k, v) :: items => (k, Value.ofPlain R v) :: ofPlainItems R items

end

variable (R : Reader)

theorem ofPlainElems_eq_map (xs : List Plain) : ofPlainElems R xs = xs.map (Value.ofPlain R) := by
  induction xs with
  | nil => rfl
  | cons x xs ih => rw [ofPlainElems, ih, List.map_cons]

theorem ofPlainItems_eq_map (items : List (String × Plain)) :
    ofPlainItems R items = items.map fun p => (p.1, Value.ofPlain R p.2) := by
  induction items with
  | nil => rfl
  | cons p items ih => rw [ofPlainItems, ih, List.map_cons]

theorem lookupItem_ofPlainItems (k : String) (items : List (String × Plain)) :
    lookupItem k (ofPlainItems R items) = (lookupItem k items).map (Value.ofPlain R) := by
  induction items with
  | nil => rfl
  | cons p items ih =>
    obtain ⟨j, v⟩ := p
    rw [ofPlainItems, lookupItem, lookupItem, ih]
    split <;> rfl

/-- A dictionary as it is read. -/
def Map.ofPlain (d : Dict String Plain) : Map where
  items := ofPlainItems R d.items
  nodup := by
    rw [ofPlainItems_eq_map, List.map_map]
    exact d.nodup

theorem Map.get?_ofPlain (d : Dict String Plain) (k : String) :
    (Map.ofPlain R d).get? k = (d.get? k).map (Value.ofPlain R) :=
  lookupItem_ofPlainItems R k d.items

/-! ### The two equalities -/

mutual

/-- Where both values have a number, it is a number of one kind. -/
def sameKinds : Plain → Plain → Bool
  | .bool _, .int _ => false
  | .bool _, .float _ => false
  | .int _, .bool _ => false
  | .int _, .float _ => false
  | .float _, .bool _ => false
  | .float _, .int _ => false
  | .list xs, .list ys => sameKindsElems xs ys
  | .dict items, .dict items' => sameKindsItems items items'
  | _, _ => true

def sameKindsElems : List Plain → List Plain → Bool
  | x :: xs, y :: ys => sameKinds x y && sameKindsElems xs ys
  | _, _ => true

def sameKindsItems : List (String × Plain) → List (String × Plain) → Bool
  | [], _ => true
  | (k, v) :: items, items' =>
    (match lookupItem k items' with
      | some v' => sameKinds v v'
      | none => true) && sameKindsItems items items'

end

mutual

/-- Every integer fits 64 bits. -/
def short : Plain → Bool
  | .int i => decide (-2 ^ 63 ≤ i ∧ i < 2 ^ 64)
  | .list xs => shortElems xs
  | .dict items => shortItems items
  | _ => true

def shortElems : List Plain → Bool
  | [] => true
  | x :: xs => short x && shortElems xs

def shortItems : List (String × Plain) → Bool
  | [] => true
  | (_, v) :: items => short v && shortItems items

end

theorem short_lookupItem {k : String} {v : Plain} {items : List (String × Plain)}
    (h : shortItems items = true) (hk : lookupItem k items = some v) : short v = true := by
  induction items with
  | nil => cases hk
  | cons p items ih =>
    obtain ⟨j, w⟩ := p
    obtain ⟨hw, hrest⟩ := Bool.and_eq_true_iff.mp h
    rw [lookupItem] at hk
    split at hk
    · exact Option.some.inj hk ▸ hw
    · exact ih hrest hk

theorem Reader.number_inj (R : Reader) {i j : Int} (hi : -2 ^ 63 ≤ i ∧ i < 2 ^ 64)
    (hj : -2 ^ 63 ≤ j ∧ j < 2 ^ 64) : R.number i = R.number j ↔ i = j := by
  refine ⟨fun h => ?_, congrArg _⟩
  unfold Reader.number at h
  split at h <;> split at h <;> grind

theorem Reader.number_ne_float (R : Reader) {i : Int} (hi : -2 ^ 63 ≤ i ∧ i < 2 ^ 64)
    (x : Dyadic) : R.number i ≠ .float x := by
  unfold Reader.number
  split
  · exact fun h => nomatch h
  · rw [if_pos (by omega)]
    exact fun h => nomatch h

mutual

/-- Over integers of 64 bits the readings of two values are equal exactly when Python's
values are and their numbers are of the same kinds. -/
theorem beq_ofPlain (hfloat : Function.Injective R.float) :
    ∀ {x y : Plain}, short x = true → short y = true →
      (Value.ofPlain R x).eq (Value.ofPlain R y) = (x.eq y && sameKinds x y)
  | .list xs, y, hx, hy => by
    cases y with
    | list ys => exact eqElems_ofPlain hfloat hx hy
    | _ => rfl
  | .dict items, y, hx, hy => by
    cases y with
    | dict items' =>
      have hentries := eqEntries_ofPlain hfloat hx hy
      have hlength : ∀ items, (ofPlainItems R items).length = items.length := fun items => by
        rw [ofPlainItems_eq_map, List.length_map]
      simp only [Value.ofPlain, Value.eq, Plain.eq, sameKinds, hentries, hlength, Bool.and_assoc]
    | _ => rfl
  | .int i, y, hx, hy => by
    cases y with
    | int j =>
      have hnumber := R.number_inj (of_decide_eq_true hx) (of_decide_eq_true hy)
      have hofInt : Dyadic.ofInt i = Dyadic.ofInt j ↔ i = j := by
        rw [← Dyadic.toRat_inj]
        exact (Dyadic.toRat_intCast i ▸ Dyadic.toRat_intCast j ▸ Rat.intCast_inj :
          (i : Dyadic).toRat = (j : Dyadic).toRat ↔ i = j)
      simp [Value.ofPlain, Value.eq, Plain.eq, Plain.number?, sameKinds, hnumber, hofInt]
    | float x =>
      have hnumber := R.number_ne_float (of_decide_eq_true hx) (R.float x)
      simp [Value.ofPlain, Value.eq, sameKinds, hnumber]
    | _ => simp [Value.ofPlain, Value.eq, Plain.eq, Plain.number?, sameKinds]
  | .float x, y, _, hy => by
    cases y with
    | int i =>
      have hnumber := (R.number_ne_float (of_decide_eq_true hy) (R.float x)).symm
      simp [Value.ofPlain, Value.eq, sameKinds, hnumber]
    | float y => simp [Value.ofPlain, Value.eq, Plain.eq, Plain.number?, sameKinds, hfloat.eq_iff]
    | _ => simp [Value.ofPlain, Value.eq, Plain.eq, Plain.number?, sameKinds]
  | .bool b, y, _, _ => by
    cases y with
    | bool c => cases b <;> cases c <;> rfl
    | _ => simp [Value.ofPlain, Value.eq, Plain.eq, Plain.number?, sameKinds]
  | .none, y, _, _ => by cases y <;> rfl
  | .str _, y, _, _ => by
    cases y <;> simp [Value.ofPlain, Value.eq, Plain.eq, Plain.number?, sameKinds]

theorem eqElems_ofPlain (hfloat : Function.Injective R.float) :
    ∀ {xs ys : List Plain}, shortElems xs = true → shortElems ys = true →
      Value.eqElems (ofPlainElems R xs) (ofPlainElems R ys) =
        (Plain.eqElems xs ys && sameKindsElems xs ys)
  | [], [], _, _ => rfl
  | [], _ :: _, _, _ => rfl
  | _ :: _, [], _, _ => rfl
  | x :: xs, y :: ys, hxs, hys => by
    obtain ⟨hx, hxs⟩ := Bool.and_eq_true_iff.mp hxs
    obtain ⟨hy, hys⟩ := Bool.and_eq_true_iff.mp hys
    simp only [ofPlainElems, Value.eqElems, Plain.eqElems, sameKindsElems,
      beq_ofPlain hfloat hx hy, eqElems_ofPlain hfloat hxs hys]
    grind

theorem eqEntries_ofPlain (hfloat : Function.Injective R.float) :
    ∀ {items items' : List (String × Plain)}, shortItems items = true →
      shortItems items' = true →
      Value.eqEntries (ofPlainItems R items) (ofPlainItems R items') =
        (Plain.eqItems items items' && sameKindsItems items items')
  | [], _, _, _ => rfl
  | (k, v) :: items, items', hxs, hys => by
    obtain ⟨hv, hxs⟩ := Bool.and_eq_true_iff.mp hxs
    simp only [ofPlainItems, Value.eqEntries, Plain.eqItems, sameKindsItems,
      lookupItem_ofPlainItems, eqEntries_ofPlain hfloat hxs hys]
    cases hk : lookupItem k items' with
    | none => simp
    | some w =>
      have hw := beq_ofPlain hfloat hv (short_lookupItem hys hk)
      simp only [Option.map_some, hw]
      grind

end

end PiPlatform.Library.Serde
