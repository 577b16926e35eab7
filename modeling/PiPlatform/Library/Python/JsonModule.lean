import PiPlatform.Library.Python.Value

/-! `json.dumps` and `json.loads` on values that a program passes through them without
looking inside.

Written without `default`, a value may be refused with a `TypeError`; a text that was
written can be read. What is read need not be what was written, so `==` on the values is
a part of the interface. `valueJson` is the standard library's on the values modelled here:
a tuple comes back as a list, an integer key as a string. -/
namespace PiPlatform.Library.Python

open Json

structure JsonModule (D : Type) where
  /-- `json.dumps(v, sort_keys=True)` -/
  dumps : D → Except PyError String
  loads : String → Except PyError D
  same : D → D → Prop
  loads_dumps : ∀ v text, dumps v = .ok text → ∃ v', loads text = .ok v'

namespace JsonModule
variable {D : Type} (J : JsonModule D)

/-- What a value is after a trip through its text. -/
def reread (v : D) : D :=
  match J.dumps v with
  | .error _ => v
  | .ok text =>
    match J.loads text with
    | .error _ => v
    | .ok v' => v'

theorem loads_reread {v : D} {text : String} (h : J.dumps v = .ok text) :
    J.loads text = .ok (J.reread v) := by
  obtain ⟨v', hv'⟩ := J.loads_dumps v text h
  rw [reread, h]
  show J.loads text = .ok (match J.loads text with | .error _ => v | .ok v' => v')
  rw [hv']

end JsonModule

/-! ### On the values modelled here -/

variable {F : Type}

mutual

/-- No set, which stands for whatever JSON has no form for. -/
def PyValue.serialisable : PyValue F → Bool
  | .list xs => serialisableElems xs
  | .tuple xs => serialisableElems xs
  | .dict items => serialisableItems items
  | .set _ => false
  | _ => true

def serialisableElems : List (PyValue F) → Bool
  | [] => true
  | x :: xs => x.serialisable && serialisableElems xs

def serialisableItems : List (Key × PyValue F) → Bool
  | [] => true
  | (_, v) :: items => v.serialisable && serialisableItems items

end

mutual

/-- `==` on what JSON can hold, numbers of different types aside. -/
def PyValue.same : PyValue F → PyValue F → Prop
  | .none, .none => True
  | .bool b, .bool c => b = c
  | .int i, .int j => i = j
  | .float x, .float y => x = y
  | .str s, .str t => s = t
  | .list xs, .list ys => sameElems xs ys
  | .tuple xs, .tuple ys => sameElems xs ys
  | .dict items, .dict items' => items.length = items'.length ∧ sameItems items items'
  | _, _ => False

def sameElems : List (PyValue F) → List (PyValue F) → Prop
  | [], [] => True
  | x :: xs, y :: ys => x.same y ∧ sameElems xs ys
  | _, _ => False

/-- Every item is an item of the other dictionary. -/
def sameItems : List (Key × PyValue F) → List (Key × PyValue F) → Prop
  | [], _ => True
  | (k, v) :: items, items' =>
    (match lookupItem k items' with
      | some v' => v.same v'
      | Option.none => False) ∧ sameItems items items'

end

variable (F) in
def valueJson [FloatCodec F] [SetText F] : JsonModule (PyValue F) where
  dumps v := if v.serialisable then dumps .spaced v else .error .typeError
  loads := loads
  same := PyValue.same
  loads_dumps v text h := by
    split at h
    · obtain ⟨t, -, ht⟩ := bind_ok h
      have htext : String.ofList (t.render .spaced) = text := Except.ok.inj ht
      refine ⟨load t.join, ?_⟩
      rw [loads, ← htext, String.toList_ofList, parse_render]
    · cases h

/-! ### In the order of the items -/

/-- A key as `json.dumps` writes it. -/
def Key.text : Key → Text
  | .str s => s
  | .int i => intKey i

mutual

/-- What `json.dumps(v)` writes: the items as they come, and a `TypeError` for what JSON
has no form for. -/
def emitInOrder : PyValue F → Except PyError (Document F)
  | .none => .ok .null
  | .bool b => .ok (.bool b)
  | .int i => .ok (.int i)
  | .float x => .ok (.float x)
  | .str s => .ok (.str s)
  | .list xs => do return .arr (← emitInOrderElems xs)
  | .tuple xs => do return .arr (← emitInOrderElems xs)
  | .set _ => .error .typeError
  | .dict items => do return .obj (← emitInOrderItems items)

def emitInOrderElems : List (PyValue F) → Except PyError (List (Document F))
  | [] => .ok []
  | x :: xs => do return (← emitInOrder x) :: (← emitInOrderElems xs)

def emitInOrderItems : List (Key × PyValue F) → Except PyError (List (Text × Document F))
  | [] => .ok []
  | (k, v) :: items => do return (k.text, ← emitInOrder v) :: (← emitInOrderItems items)

end

/-- `json.dumps(v)` -/
def dumpsInOrder [FloatCodec F] (v : PyValue F) : Except PyError String := do
  return String.ofList ((← emitInOrder v).render .spaced)

end PiPlatform.Library.Python
