import PiPlatform.Library.Python.Value

/-! Python values that JSON can write, and what the interpreter's comparisons make of
them.

Numbers compare by value whatever their type: `True == 1 == 1.0`, and an integer is
compared with a float exactly. A finite float is the dyadic number it is, so `0.0` and
`-0.0` are one. Lists compare at the first place where they differ; an order between
values of kinds that have none is a `TypeError`. -/
namespace PiPlatform.Library.Python

inductive Plain where
  | none
  | bool (b : Bool)
  | int (i : Int)
  | float (x : Dyadic)
  | str (s : String)
  | list (xs : List Plain)
  | dict (items : List (String × Plain))

namespace Plain

mutual

/-- Among all values. -/
def toPyValue : Plain → PyValue Dyadic
  | none => .none
  | bool b => .bool b
  | int i => .int i
  | float x => .float (.finite x)
  | str s => .str (Json.ofString s)
  | list xs => .list (toPyElems xs)
  | dict items => .dict (toPyItems items)

def toPyElems : List Plain → List (PyValue Dyadic)
  | [] => []
  | x :: xs => x.toPyValue :: toPyElems xs

def toPyItems : List (String × Plain) → List (Key × PyValue Dyadic)
  | [] => []
  | (k, v) :: items => (.str (Json.ofString k), v.toPyValue) :: toPyItems items

end

theorem toPyElems_eq_map (xs : List Plain) : toPyElems xs = xs.map toPyValue := by
  induction xs with
  | nil => rfl
  | cons x xs ih => rw [toPyElems, ih, List.map_cons]

theorem toPyItems_eq_map (items : List (String × Plain)) :
    toPyItems items = items.map fun p => (.str (Json.ofString p.1), p.2.toPyValue) := by
  induction items with
  | nil => rfl
  | cons p items ih => rw [toPyItems, ih, List.map_cons]

/-- The value of a number, booleans among them. -/
def number? : Plain → Option Dyadic
  | bool b => some (.ofInt b.toInt)
  | int i => some (.ofInt i)
  | float x => some x
  | _ => Option.none

mutual

/-- `==` -/
def eq : Plain → Plain → Bool
  | none, none => true
  | str s, str t => s == t
  | list xs, list ys => eqElems xs ys
  | dict items, dict items' => items.length == items'.length && eqItems items items'
  | x, y =>
    match x.number?, y.number? with
    | some a, some b => a == b
    | _, _ => false

def eqElems : List Plain → List Plain → Bool
  | [], [] => true
  | x :: xs, y :: ys => x.eq y && eqElems xs ys
  | _, _ => false

/-- Every item is an item of the other dictionary. -/
def eqItems : List (String × Plain) → List (String × Plain) → Bool
  | [], _ => true
  | (k, v) :: items, items' =>
    (match lookupItem k items' with
      | some v' => v.eq v'
      | Option.none => false) && eqItems items items'

end

instance : BEq Plain := ⟨eq⟩

mutual

/-- `<`; and `x > y` is `y < x`. -/
def less : Plain → Plain → Except PyError Bool
  | str s, str t => .ok (s < t)
  | list xs, list ys => lessElems xs ys
  | x, y =>
    match x.number?, y.number? with
    | some a, some b => .ok (a < b)
    | _, _ => .error .typeError

def lessElems : List Plain → List Plain → Except PyError Bool
  | _, [] => .ok false
  | [], _ :: _ => .ok true
  | x :: xs, y :: ys => if x.eq y then lessElems xs ys else x.less y

end

def hashable : Plain → Bool
  | list _ => false
  | dict _ => false
  | _ => true

/-- `target in container`, for the containers that are tested: no key of a dictionary
equals anything but a string. -/
def isIn (target : Plain) : Plain → Except PyError Bool
  | str s =>
    match target with
    | str t => .ok (t.toList <:+: s.toList)
    | _ => .error .typeError
  | list xs => .ok (xs.any fun x => x == target)
  | dict items =>
    match target with
    | str k => .ok (lookupItem k items).isSome
    | _ => if target.hashable then .ok false else .error .typeError
  | _ => .error .typeError

end Plain

end PiPlatform.Library.Python
