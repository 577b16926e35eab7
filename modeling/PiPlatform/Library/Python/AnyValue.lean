import PiPlatform.Library.Python.Reread

/-! Python values in the order of their items, with objects that JSON has no form for.

`write` is what `json.dumps(v, default=str)` writes and `read` what `json.loads` builds. What is
`plain` comes back as it was, and nothing else does (`read_write_iff`). -/
namespace PiPlatform.Library.Python

open Json

inductive AnyKey where
  | str (s : Text)
  /-- A key that is no string, and its text if JSON writes it. -/
  | other (text : Option Text)
  deriving DecidableEq

inductive AnyValue (F : Type) where
  | none
  | bool (b : Bool)
  | int (i : Int)
  | float (x : Fl F)
  | str (s : Text)
  | list (xs : List (AnyValue F))
  | tuple (xs : List (AnyValue F))
  | dict (items : List (AnyKey × AnyValue F))
  /-- A date, a set or any other object, and what `str` makes of it. -/
  | other (text : Text)

variable {F : Type}

def AnyKey.text? : AnyKey → Option Text
  | .str s => some s
  | .other text => text

namespace AnyValue

/-! ### Writing and reading -/

mutual

/-- A key that JSON does not write is a `TypeError`. -/
def write : AnyValue F → Option (Document F)
  | .none => some .null
  | .bool b => some (.bool b)
  | .int i => some (.int i)
  | .float x => some (.float x)
  | .str s => some (.str s)
  | .list xs => (writeElems xs).map .arr
  | .tuple xs => (writeElems xs).map .arr
  | .dict items => (writeItems items).map .obj
  | .other text => some (.str text)

def writeElems : List (AnyValue F) → Option (List (Document F))
  | [] => some []
  | x :: xs => do
    let d ← x.write
    let ds ← writeElems xs
    some (d :: ds)

def writeItems : List (AnyKey × AnyValue F) → Option (List (Text × Document F))
  | [] => some []
  | (k, v) :: items => do
    let text ← k.text?
    let d ← v.write
    let ms ← writeItems items
    some ((text, d) :: ms)

end

mutual

def read : Document F → AnyValue F
  | .null => .none
  | .bool b => .bool b
  | .int i => .int i
  | .float x => .float x
  | .str s => .str s
  | .arr xs => .list (readElems xs)
  | .obj ms => .dict (setItems [] (readMembers ms))

def readElems : List (Document F) → List (AnyValue F)
  | [] => []
  | x :: xs => read x :: readElems xs

def readMembers : List (Text × Document F) → List (AnyKey × AnyValue F)
  | [] => []
  | (k, v) :: ms => (.str k, read v) :: readMembers ms

end

mutual

/-- Lists and dictionaries with string keys, and no split surrogates. -/
def plain : AnyValue F → Bool
  | .str s => decide (joinSurrogates s = s)
  | .list xs => plainElems xs
  | .tuple _ => false
  | .dict items => decide (items.map Prod.fst).Nodup && plainItems items
  | .other _ => false
  | _ => true

def plainElems : List (AnyValue F) → Bool
  | [] => true
  | x :: xs => x.plain && plainElems xs

def plainItems : List (AnyKey × AnyValue F) → Bool
  | [] => true
  | (.str s, v) :: items => decide (joinSurrogates s = s) && v.plain && plainItems items
  | (.other _, _) :: _ => false

end

/-! ### What comes back -/

theorem readMembers_eq_map (ms : List (Text × Document F)) :
    readMembers ms = ms.map fun m => (.str m.1, read m.2) := by
  induction ms with
  | nil => rfl
  | cons m ms ih => rw [readMembers, ih, List.map_cons]

/-- The keys of what comes back are joined strings. -/
theorem joined_of_mem_keys {ms : List (Text × Document F)} {k : AnyKey}
    (h : k ∈ (setItems [] (readMembers (joinMembers ms))).map Prod.fst) :
    ∃ s, k = .str s ∧ joinSurrogates s = s := by
  rw [keys_setItems, List.map_nil, List.nil_append, mem_firstsBy_id, readMembers_eq_map,
    joinMembers_eq_map, List.map_map, List.map_map, List.mem_map] at h
  obtain ⟨⟨m, -, rfl⟩, -⟩ := h
  exact ⟨_, rfl, joined_joinSurrogates m.1⟩

/-- Joined string keys are read as they were written. -/
theorem keys_readMembers {items : List (AnyKey × AnyValue F)} {ms : List (Text × Document F)}
    (h : writeItems items = some ms)
    (hkeys : ∀ k ∈ items.map Prod.fst, ∃ s, k = .str s ∧ joinSurrogates s = s) :
    (readMembers (joinMembers ms)).map Prod.fst = items.map Prod.fst := by
  induction items generalizing ms with
  | nil =>
    obtain rfl := Option.some.inj h
    rfl
  | cons item items ih =>
    obtain ⟨k, v⟩ := item
    rw [List.map_cons, List.forall_mem_cons] at hkeys
    obtain ⟨⟨s, rfl, hs⟩, hkeys⟩ := hkeys
    rw [writeItems] at h
    obtain ⟨text, htext, h⟩ := Option.bind_eq_some_iff.mp h
    obtain ⟨d, -, h⟩ := Option.bind_eq_some_iff.mp h
    obtain ⟨rest, hrest, h⟩ := Option.bind_eq_some_iff.mp h
    obtain rfl := Option.some.inj h
    obtain rfl := Option.some.inj htext
    rw [joinMembers, readMembers, List.map_cons, List.map_cons, ih hrest hkeys, hs]

mutual

theorem read_write_iff : ∀ (v : AnyValue F) {d : Document F}, v.write = some d →
    (read d.join = v ↔ v.plain = true)
  | .none, _, h => by cases h; simp [Document.join, read, plain]
  | .bool b, _, h => by cases h; simp [Document.join, read, plain]
  | .int i, _, h => by cases h; simp [Document.join, read, plain]
  | .float x, _, h => by cases h; simp [Document.join, read, plain]
  | .str s, _, h => by cases h; simp [Document.join, read, plain]
  | .other text, _, h => by cases h; simp [Document.join, read, plain]
  | .list xs, _, h => by
    obtain ⟨ds, hds, rfl⟩ := Option.map_eq_some_iff.mp h
    rw [Document.join, read, plain, AnyValue.list.injEq]
    exact readElems_writeElems_iff xs hds
  | .tuple xs, _, h => by
    obtain ⟨ds, hds, rfl⟩ := Option.map_eq_some_iff.mp h
    simp [Document.join, read, plain]
  | .dict items, _, h => by
    obtain ⟨ms, hms, rfl⟩ := Option.map_eq_some_iff.mp h
    have hitems : readMembers (joinMembers ms) = items ↔ plainItems items = true :=
      readMembers_writeItems_iff items hms
    rw [Document.join, read, plain, AnyValue.dict.injEq, Bool.and_eq_true, decide_eq_true_eq,
      ← hitems]
    constructor
    · intro hset
      have hnodup : (items.map Prod.fst).Nodup := by
        rw [← hset]
        exact nodup_setItems _ List.nodup_nil
      refine ⟨hnodup, ?_⟩
      have hkeys := keys_readMembers hms fun k hk => joined_of_mem_keys (hset ▸ hk)
      rw [← hkeys] at hnodup
      exact (setItems_of_nodup _ hnodup).symm.trans hset
    · rintro ⟨hnodup, heq⟩
      rw [← heq] at hnodup ⊢
      exact setItems_of_nodup _ hnodup

theorem readElems_writeElems_iff : ∀ (xs : List (AnyValue F)) {ds : List (Document F)},
    writeElems xs = some ds → (readElems (joinElems ds) = xs ↔ plainElems xs = true)
  | [], _, h => by cases h; simp [joinElems, readElems, plainElems]
  | x :: xs, _, h => by
    obtain ⟨d, hd, h⟩ := Option.bind_eq_some_iff.mp h
    obtain ⟨ds, hds, h⟩ := Option.bind_eq_some_iff.mp h
    obtain rfl := Option.some.inj h
    rw [joinElems, readElems, plainElems, List.cons.injEq, Bool.and_eq_true]
    exact and_congr (read_write_iff x hd) (readElems_writeElems_iff xs hds)

theorem readMembers_writeItems_iff : ∀ (items : List (AnyKey × AnyValue F))
    {ms : List (Text × Document F)}, writeItems items = some ms →
    (readMembers (joinMembers ms) = items ↔ plainItems items = true)
  | [], _, h => by cases h; simp [joinMembers, readMembers, plainItems]
  | (k, v) :: items, _, h => by
    obtain ⟨text, htext, h⟩ := Option.bind_eq_some_iff.mp h
    obtain ⟨d, hd, h⟩ := Option.bind_eq_some_iff.mp h
    obtain ⟨ms, hms, h⟩ := Option.bind_eq_some_iff.mp h
    obtain rfl := Option.some.inj h
    cases k with
    | str s =>
      obtain rfl := Option.some.inj htext
      rw [joinMembers, readMembers, plainItems, List.cons.injEq, Prod.mk.injEq, Bool.and_eq_true,
        Bool.and_eq_true, decide_eq_true_eq, AnyKey.str.injEq]
      exact and_congr (and_congr_right' (read_write_iff v hd))
        (readMembers_writeItems_iff items hms)
    | other text => simp [joinMembers, readMembers, plainItems]

end

/-- What is there after writing and reading, for an object that is written. -/
def reread (v : AnyValue F) : AnyValue F := (v.write.map fun d => read d.join).getD v

theorem reread_eq_iff {v : AnyValue F} (h : v.write.isSome = true) :
    v.reread = v ↔ v.plain = true := by
  obtain ⟨d, hd⟩ := Option.isSome_iff_exists.mp h
  rw [reread, hd]
  exact read_write_iff v hd

/-! ### Dictionaries with names for keys -/

section Named
variable {items : List (String × AnyValue F)}

def named (items : List (String × AnyValue F)) : List (AnyKey × AnyValue F) :=
  items.map fun p => (.str (ofString p.1), p.2)

theorem keys_named (items : List (String × AnyValue F)) :
    (named items).map Prod.fst = (items.map Prod.fst).map fun k => .str (ofString k) := by
  rw [named, List.map_map, List.map_map]
  rfl

theorem nodup_named (h : (items.map Prod.fst).Nodup) : ((named items).map Prod.fst).Nodup := by
  rw [keys_named]
  refine h.map fun k k' heq => ofString_injective ?_
  rw [AnyKey.str.injEq] at heq
  exact heq

theorem lookup_named (k : String) (items : List (String × AnyValue F)) :
    lookupItem (.str (ofString k)) (named items) = lookupItem k items := by
  induction items with
  | nil => rfl
  | cons item items ih =>
    obtain ⟨k', v⟩ := item
    rw [named, List.map_cons, lookupItem, lookupItem, ← ih]
    by_cases hk : k' = k
    · rw [if_pos hk, if_pos (congrArg (fun k => AnyKey.str (ofString k)) hk)]
    · rw [if_neg hk, if_neg]
      · rfl
      · intro heq
        rw [AnyKey.str.injEq] at heq
        exact hk (ofString_injective heq)

theorem isSome_writeItems_named (items : List (String × AnyValue F)) :
    (writeItems (named items)).isSome = items.all fun p => p.2.write.isSome := by
  induction items with
  | nil => rfl
  | cons item items ih =>
    rw [List.all_cons, ← ih]
    show (item.2.write.bind fun d => (writeItems (named items)).bind fun ms => _).isSome = _
    cases item.2.write with
    | none => rfl
    | some d => cases writeItems (named items) <;> rfl

theorem readMembers_named {ms : List (Text × Document F)} (h : writeItems (named items) = some ms) :
    readMembers (joinMembers ms) = named (items.map fun p => (p.1, p.2.reread)) := by
  induction items generalizing ms with
  | nil =>
    obtain rfl := Option.some.inj h
    rfl
  | cons item items ih =>
    obtain ⟨k, v⟩ := item
    obtain ⟨d, hd, h⟩ := Option.bind_eq_some_iff.mp h
    obtain ⟨rest, hrest, h⟩ := Option.bind_eq_some_iff.mp h
    obtain rfl := Option.some.inj h
    have hreread : v.reread = read d.join := by
      rw [reread, hd]
      rfl
    rw [joinMembers, readMembers, ih hrest, joined_ofString, List.map_cons, hreread]
    rfl

/-- The values are read back under their names. -/
theorem read_named {d : Document F} (hnodup : (items.map Prod.fst).Nodup)
    (h : (AnyValue.dict (named items)).write = some d) :
    read d.join = .dict (named (items.map fun p => (p.1, p.2.reread))) := by
  obtain ⟨ms, hms, rfl⟩ := Option.map_eq_some_iff.mp h
  have hnames : ((items.map fun p => (p.1, p.2.reread)).map Prod.fst).Nodup := by
    rw [List.map_map]
    exact hnodup
  rw [Document.join, read, readMembers_named hms]
  exact congrArg AnyValue.dict (setItems_of_nodup _ (nodup_named hnames))

end Named

end AnyValue

end PiPlatform.Library.Python
