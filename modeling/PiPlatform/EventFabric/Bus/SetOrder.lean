import Mathlib.Data.List.Perm.Basic
import Mathlib.Data.String.Basic
import PiPlatform.EventFabric.Bus.Payload
import PiPlatform.Library.Python.ItemOrder
import PiPlatform.Library.SortImage
import PiPlatform.Library.StableSort

/-! What the iteration order of sets leaves in a payload's text.

`_canonical` sorts a set by the texts of its elements, and the text of an element that is a set,
or holds one, is the interpreter's: it lists its elements in their iteration order. So the order
of two sets in a set is up to the interpreter, unless their texts compare one way whatever the
orders. `order_iff` says that nothing else is. -/
namespace PiPlatform.EventFabric

open Library Library.Json Library.Python

variable {F : Type} {xs ys : List (PyValue F)}
  {items items' : List (Key × PyValue F)}

/-! ### Other orders -/

mutual

/-- The second is the first in other iteration orders of its sets. -/
def Reordered : PyValue F → PyValue F → Prop
  | .list xs, w => ∃ ys, w = .list ys ∧ ReorderedElems xs ys
  | .tuple xs, w => ∃ ys, w = .tuple ys ∧ ReorderedElems xs ys
  | .set xs, w => ∃ zs ys, w = .set ys ∧ ReorderedElems xs zs ∧ zs.Perm ys
  | .dict items, w => ∃ items', w = .dict items' ∧ ReorderedItems items items'
  | v, w => w = v

def ReorderedElems : List (PyValue F) → List (PyValue F) → Prop
  | [], ys => ys = []
  | x :: xs, ys => ∃ z zs, ys = z :: zs ∧ Reordered x z ∧ ReorderedElems xs zs

def ReorderedItems : List (Key × PyValue F) → List (Key × PyValue F) → Prop
  | [], ys => ys = []
  | (k, x) :: xs, ys => ∃ z zs, ys = (k, z) :: zs ∧ Reordered x z ∧ ReorderedItems xs zs

end

theorem reorderedElems_iff :
    ReorderedElems xs ys ↔ List.Forall₂ Reordered xs ys := by
  induction xs generalizing ys with
  | nil => simp [ReorderedElems]
  | cons x xs ih =>
    rw [ReorderedElems, List.forall₂_cons_left_iff]
    constructor
    · rintro ⟨z, zs, rfl, hz, hzs⟩
      exact ⟨z, zs, hz, ih.mp hzs, rfl⟩
    · rintro ⟨z, zs, hz, hzs, rfl⟩
      exact ⟨z, zs, rfl, hz, ih.mpr hzs⟩

theorem reorderedItems_iff :
    ReorderedItems items items' ↔
      List.Forall₂ (fun p q => p.1 = q.1 ∧ Reordered p.2 q.2) items items' := by
  induction items generalizing items' with
  | nil => simp [ReorderedItems]
  | cons p items ih =>
    rw [ReorderedItems, List.forall₂_cons_left_iff]
    constructor
    · rintro ⟨z, zs, rfl, hz, hzs⟩
      exact ⟨(p.1, z), zs, ⟨rfl, hz⟩, ih.mp hzs, rfl⟩
    · rintro ⟨⟨k, z⟩, zs, ⟨rfl, hz⟩, hzs, rfl⟩
      exact ⟨z, zs, rfl, hz, ih.mpr hzs⟩

mutual

theorem Reordered.refl : ∀ v : PyValue F, Reordered v v
  | .none | .bool _ | .int _ | .float _ | .str _ => rfl
  | .list xs => ⟨xs, rfl, reorderedElems_refl xs⟩
  | .tuple xs => ⟨xs, rfl, reorderedElems_refl xs⟩
  | .set xs => ⟨xs, xs, rfl, reorderedElems_refl xs, .refl xs⟩
  | .dict items => ⟨items, rfl, reorderedItems_refl items⟩

theorem reorderedElems_refl : ∀ xs : List (PyValue F), ReorderedElems xs xs
  | [] => rfl
  | x :: xs => ⟨x, xs, rfl, .refl x, reorderedElems_refl xs⟩

theorem reorderedItems_refl : ∀ items : List (Key × PyValue F), ReorderedItems items items
  | [] => rfl
  | (_, v) :: items => ⟨v, items, rfl, .refl v, reorderedItems_refl items⟩

end

theorem hashableElems_perm (h : xs.Perm ys) :
    hashableElems ys = hashableElems xs := by
  rw [Bool.eq_iff_iff, hashableElems_iff, hashableElems_iff]
  exact forall_congr' fun x => imp_congr_left h.mem_iff.symm

mutual

theorem hashable_reordered : ∀ v w : PyValue F, Reordered v w → w.hashable = v.hashable
  | .none, _, h | .bool _, _, h | .int _, _, h | .float _, _, h | .str _, _, h => h ▸ rfl
  | .list _, _, ⟨_, hw, _⟩ => hw ▸ rfl
  | .dict _, _, ⟨_, hw, _⟩ => hw ▸ rfl
  | .tuple xs, _, ⟨ys, hw, h⟩ => hw ▸ hashableElems_reordered xs ys h
  | .set xs, _, ⟨zs, _, hw, h, hperm⟩ =>
    hw ▸ (hashableElems_perm hperm).trans (hashableElems_reordered xs zs h)

theorem hashableElems_reordered : ∀ xs ys : List (PyValue F), ReorderedElems xs ys →
    hashableElems ys = hashableElems xs
  | [], _, h => h ▸ rfl
  | x :: xs, _, ⟨z, zs, hys, hz, hzs⟩ => by
    rw [hys, hashableElems, hashableElems, hashable_reordered x z hz,
      hashableElems_reordered xs zs hzs]

end

theorem keys_reordered
    (h : ReorderedItems items items') : items'.map Prod.fst = items.map Prod.fst :=
  (map_eq_of_forall₂ (reorderedItems_iff.mp h) fun _ _ hpq => hpq.1).symm

theorem wellFormedElems_perm (h : xs.Perm ys) :
    wellFormedElems ys = wellFormedElems xs := by
  rw [Bool.eq_iff_iff, wellFormedElems_iff, wellFormedElems_iff]
  exact forall_congr' fun x => imp_congr_left h.mem_iff.symm

theorem wellFormed_reordered (v w : PyValue F) (h : Reordered v w) :
    w.wellFormed = v.wellFormed := by
  induction v generalizing w with
  | none | bool | int | float | str => exact h ▸ rfl
  | list xs ih | tuple xs ih =>
    obtain ⟨ys, rfl, h⟩ := h
    rw [PyValue.wellFormed, PyValue.wellFormed, Bool.eq_iff_iff, wellFormedElems_iff,
      wellFormedElems_iff]
    exact forall_iff_of_forall₂ (reorderedElems_iff.mp h) ih
  | set xs ih =>
    obtain ⟨zs, ys, rfl, h, hperm⟩ := h
    rw [PyValue.wellFormed, PyValue.wellFormed, hashableElems_perm hperm,
      wellFormedElems_perm hperm, hashableElems_reordered xs zs h]
    refine congrArg (hashableElems xs && ·) ?_
    rw [Bool.eq_iff_iff, wellFormedElems_iff, wellFormedElems_iff]
    exact forall_iff_of_forall₂ (reorderedElems_iff.mp h) ih
  | dict items ih =>
    obtain ⟨items', rfl, h⟩ := h
    rw [PyValue.wellFormed, PyValue.wellFormed, keys_reordered h]
    refine congrArg (decide _ && ·) ?_
    rw [Bool.eq_iff_iff, wellFormedItems_iff, wellFormedItems_iff]
    exact forall_iff_of_forall₂ (reorderedItems_iff.mp h) fun p hp q hpq => ih p hp q.2 hpq.2

/-! ### What is written -/

mutual

/-- The keys of every dictionary can be sorted, and no set holds a list or a dictionary. -/
def writable : PyValue F → Bool
  | .list xs => writableElems xs
  | .tuple xs => writableElems xs
  | .set xs => hashableElems xs
  | .dict items => keysSortable items && writableItems items
  | _ => true

def writableElems : List (PyValue F) → Bool
  | [] => true
  | x :: xs => writable x && writableElems xs

def writableItems : List (Key × PyValue F) → Bool
  | [] => true
  | (_, v) :: items => writable v && writableItems items

end

theorem writableElems_iff (xs : List (PyValue F)) :
    writableElems xs = true ↔ ∀ x ∈ xs, writable x = true :=
  all_iff rfl (fun _ _ => rfl) xs

theorem writableItems_iff (items : List (Key × PyValue F)) :
    writableItems items = true ↔ ∀ p ∈ items, writable p.2 = true :=
  all_iff rfl (fun _ _ => rfl) items

theorem writable_of_hashable (v : PyValue F) (h : v.hashable = true) : writable v = true := by
  induction v with
  | none | bool | int | float | str => rfl
  | list | dict => cases h
  | tuple xs ih =>
    exact (writableElems_iff xs).mpr fun x hx => ih x hx ((hashableElems_iff xs).mp h x hx)
  | set xs => exact h

theorem writableElems_of_hashable (xs : List (PyValue F)) (h : hashableElems xs = true) :
    writableElems xs = true :=
  writable_of_hashable (.tuple xs) h

theorem writable_reordered (v w : PyValue F) (h : Reordered v w) : writable w = writable v := by
  induction v generalizing w with
  | none | bool | int | float | str => exact h ▸ rfl
  | list xs ih | tuple xs ih =>
    obtain ⟨ys, rfl, h⟩ := h
    rw [writable, writable, Bool.eq_iff_iff, writableElems_iff, writableElems_iff]
    exact forall_iff_of_forall₂ (reorderedElems_iff.mp h) ih
  | set xs =>
    obtain ⟨zs, ys, rfl, h, hperm⟩ := h
    exact (hashableElems_perm hperm).trans (hashableElems_reordered xs zs h)
  | dict items ih =>
    obtain ⟨items', rfl, h⟩ := h
    rw [writable, writable, keysSortable_congr (keys_reordered h)]
    refine congrArg (keysSortable items && ·) ?_
    rw [Bool.eq_iff_iff, writableItems_iff, writableItems_iff]
    exact forall_iff_of_forall₂ (reorderedItems_iff.mp h) fun p hp q hpq => ih p hp q.2 hpq.2

section Emitted
variable [SetText F]

/-- The document is emitted, up to pairs. -/
def Emits (c : PyValue F) (d : Document F) : Prop := ∃ t, emit c = .ok t ∧ t.join = d

theorem emitElems_of_emits {cs : List (PyValue F)} {ds : List (Document F)}
    (h : List.Forall₂ Emits cs ds) : ∃ ts, emitElems cs = .ok ts ∧ joinElems ts = ds := by
  induction h with
  | nil => exact ⟨[], rfl, rfl⟩
  | @cons c d cs ds hc _ ih =>
    obtain ⟨t, ht, rfl⟩ := hc
    obtain ⟨ts, hts, rfl⟩ := ih
    exact ⟨t :: ts, emitElems_ok_iff.mpr (.cons ht (emitElems_ok_iff.mp hts)), rfl⟩

theorem emitItems_of_emits {cs : List (Key × PyValue F)} {ds : List (Key × Document F)}
    (h : List.Forall₂ (fun c d => c.1 = d.1 ∧ Emits c.2 d.2) cs ds) :
    ∃ ts, emitItems cs = .ok ts ∧ ts.map (fun p => (p.1, p.2.join)) = ds := by
  induction h with
  | nil => exact ⟨[], rfl, rfl⟩
  | @cons c d cs ds hc _ ih =>
    obtain ⟨hkey, t, ht, hjoin⟩ := hc
    obtain ⟨ts, hts, rfl⟩ := ih
    exact ⟨(c.1, t) :: ts, emitItems_ok_iff.mpr (.cons ⟨rfl, ht⟩ (emitItems_ok_iff.mp hts)),
      congrArg (· :: _) (Prod.ext hkey hjoin)⟩

theorem exists_emit_of_hashable (v : PyValue F) (h : v.hashable = true) :
    ∃ t, emit v = .ok t := by
  induction v with
  | none | bool | int | float | str | set => exact ⟨_, rfl⟩
  | list | dict => cases h
  | tuple xs ih =>
    obtain ⟨ts, hts⟩ := exists_emitElems fun x hx => ih x hx ((hashableElems_iff xs).mp h x hx)
    exact ⟨.arr ts, by rw [emit, hts]; rfl⟩

theorem emits_sorted {cs : List (PyValue F)} {ds : List (Document F)} (keys : List String)
    (h : List.Forall₂ Emits cs ds) :
    List.Forall₂ Emits ((sortBy Prod.fst (keys.zip cs)).map Prod.snd)
      ((sortBy Prod.fst (keys.zip ds)).map Prod.snd) := by
  have hzip : List.Forall₂ (fun c d => c.1 = d.1 ∧ Emits c.2 d.2) (keys.zip cs) (keys.zip ds) := by
    induction h generalizing keys with
    | nil =>
      rw [List.zip_nil_right, List.zip_nil_right]
      exact .nil
    | cons hc _ ih =>
      cases keys with
      | nil => exact .nil
      | cons key keys => exact .cons ⟨rfl, hc⟩ (ih keys)
  have hsorted := forall₂_sortBy (fun _ _ hc => hc.1) hzip
  rw [List.forall₂_map_left_iff, List.forall₂_map_right_iff]
  exact hsorted.imp fun _ _ hc => hc.2

end Emitted

theorem sortBy_map {α β γ : Type} [LinearOrder γ] (key : β → γ) (g : α → β) (xs : List α) :
    sortBy key (xs.map g) = (sortBy (fun a => key (g a)) xs).map g :=
  (List.map_insertionSort _ _ g xs fun _ _ _ _ => Iff.rfl).symm

section Written
variable [FloatCodec F] [SetText F]

/-- What an element of a set is sorted by. -/
def sortKey (v : PyValue F) : String :=
  match dumps .spaced v with
  | .ok key => key
  | .error _ => ""

mutual

/-- The document of a payload, its surrogate pairs joined. -/
def written : PyValue F → Document F
  | .none => .null
  | .bool b => .bool b
  | .int i => .int i
  | .float x => .float x
  | .str s => .str (joinSurrogates s)
  | .list xs => .arr (writtenElems xs)
  | .tuple xs => .arr (writtenElems xs)
  | .set xs => .arr ((sortBy Prod.fst ((xs.map sortKey).zip (writtenElems xs))).map Prod.snd)
  | .dict items =>
    match sortItems (writtenItems items) with
    | .ok ms => .obj (ms.map fun m => (joinSurrogates m.1, m.2))
    | .error _ => .null

def writtenElems : List (PyValue F) → List (Document F)
  | [] => []
  | x :: xs => written x :: writtenElems xs

def writtenItems : List (Key × PyValue F) → List (Key × Document F)
  | [] => []
  | (k, v) :: items => (k, written v) :: writtenItems items

end

theorem writtenElems_eq_map (xs : List (PyValue F)) : writtenElems xs = xs.map written :=
  eq_map rfl (fun _ _ => rfl) xs

theorem writtenItems_eq_map (items : List (Key × PyValue F)) :
    writtenItems items = items.map fun p => (p.1, written p.2) :=
  eq_map rfl (fun _ _ => rfl) items

theorem dumps_of_hashable {v : PyValue F} (h : v.hashable = true) :
    dumps .spaced v = .ok (sortKey v) := by
  obtain ⟨t, ht⟩ := exists_emit_of_hashable v h
  have hdumps : dumps .spaced v = .ok (String.ofList (t.render .spaced)) := by
    rw [dumps, ht]
    rfl
  rw [sortKey, hdumps]

theorem mapM_dumps (h : hashableElems xs = true) :
    xs.mapM (dumps .spaced) = .ok (xs.map sortKey) :=
  mapM_ok fun x hx => dumps_of_hashable ((hashableElems_iff xs).mp h x hx)

/-- What is made of a writable payload emits the document. -/
theorem canonical_emits (v : PyValue F) (h : writable v = true) :
    ∃ c, canonical v = .ok c ∧ Emits c (written v) := by
  have helems : ∀ {xs : List (PyValue F)}, writableElems xs = true →
      (∀ x ∈ xs, writable x = true → ∃ c, canonical x = .ok c ∧ Emits c (written x)) →
      ∃ cs, canonicalElems xs = .ok cs ∧ List.Forall₂ Emits cs (writtenElems xs) := by
    intro xs hxs ih
    obtain ⟨cs, hcs, hemits⟩ := exists_mapM fun x hx => ih x hx ((writableElems_iff xs).mp hxs x hx)
    rw [canonicalElems_eq_mapM, writtenElems_eq_map]
    exact ⟨cs, hcs, List.forall₂_map_right_iff.mpr hemits.flip⟩
  induction v with
  | none | bool | int | float | str => exact ⟨_, rfl, _, rfl, rfl⟩
  | list xs ih | tuple xs ih =>
    obtain ⟨cs, hcs, hemits⟩ := helems h ih
    obtain ⟨ts, hts, hjoin⟩ := emitElems_of_emits hemits
    refine ⟨.list cs, by rw [canonical, hcs]; rfl, .arr ts, by rw [emit, hts]; rfl, ?_⟩
    rw [Document.join, hjoin, written]
  | set xs ih =>
    obtain ⟨cs, hcs, hemits⟩ := helems (writableElems_of_hashable xs h) ih
    obtain ⟨ts, hts, hjoin⟩ := emitElems_of_emits (emits_sorted (xs.map sortKey) hemits)
    refine ⟨_, by rw [canonical, mapM_dumps h, hcs]; rfl, .arr ts, ?_, ?_⟩
    · show (do return Document.arr (← emitElems _)) = _
      exact congrArg (· >>= fun ts => .ok (Document.arr ts)) hts
    · rw [Document.join, hjoin, written]
  | dict items ih =>
    rw [writable, Bool.and_eq_true, writableItems_iff] at h
    obtain ⟨cs, hcs, hemits⟩ := exists_mapM_values (g := canonical)
      (R := fun v c => Emits c (written v)) fun p hp => ih p hp (h.2 p hp)
    rw [← canonicalItems_eq_mapM] at hcs
    have hall : List.Forall₂ (fun c d => c.1 = d.1 ∧ Emits c.2 d.2) cs (writtenItems items) := by
      rw [writtenItems_eq_map]
      exact List.forall₂_map_right_iff.mpr (hemits.flip.imp fun _ _ hpq => ⟨hpq.1.symm, hpq.2⟩)
    obtain ⟨ts, hts, hjoin⟩ := emitItems_of_emits hall
    have hkeys : ts.map Prod.fst = items.map Prod.fst := by
      have hfst := congrArg (List.map Prod.fst) hjoin
      rw [writtenItems_eq_map, List.map_map, List.map_map] at hfst
      exact hfst
    obtain ⟨ms, hms⟩ := (sortItems_ok_iff ts).mpr ((keysSortable_congr hkeys).trans h.1)
    have hwritten : sortItems (writtenItems items) = .ok (ms.map fun m => (m.1, m.2.join)) := by
      rw [← hjoin, sortItems_map, hms]
      rfl
    refine ⟨.dict cs, by rw [canonical, hcs]; rfl, .obj ms, ?_, ?_⟩
    · rw [emit, hts]
      exact congrArg (· >>= fun ms => .ok (Document.obj ms)) hms
    · rw [Document.join, joinMembers_eq_map, written, hwritten]
      show _ = Document.obj _
      rw [List.map_map]
      rfl

/-- `json.dumps(_canonical(v), sort_keys=True, default=str)` -/
def canonicalText (st : Style) (v : PyValue F) : Except PyError String := do
  dumps st (← canonical v)

/-- Writable payloads have one text exactly when they have one document. -/
theorem canonicalText_eq_iff (st : Style) {v w : PyValue F} (hv : writable v = true)
    (hw : writable w = true) : canonicalText st v = canonicalText st w ↔ written v = written w := by
  have htext : ∀ {v c : PyValue F} {t : Document F}, canonical v = .ok c → emit c = .ok t →
      canonicalText st v = .ok (String.ofList (t.render st)) := by
    intro v c t hc ht
    rw [canonicalText, hc]
    show dumps st c = _
    rw [dumps, ht]
    rfl
  obtain ⟨c, hc, t, ht, hjoin⟩ := canonical_emits v hv
  obtain ⟨d, hd, u, hu, hjoin'⟩ := canonical_emits w hw
  rw [htext hc ht, htext hd hu, Except.ok.injEq, String.ofList_inj, render_eq_iff, hjoin, hjoin']

/-- What has a text is writable. -/
theorem writable_of_emitted (v c : PyValue F) (t : Document F) (hv : v.wellFormed = true)
    (hc : canonical v = .ok c) (ht : emit c = .ok t) : writable v = true := by
  induction v generalizing c t with
  | none | bool | int | float | str => rfl
  | list xs ih | tuple xs ih =>
    obtain ⟨cs, hcs, hc⟩ := bind_ok hc
    cases hc
    obtain ⟨ts, hts, -⟩ := bind_ok ht
    refine (writableElems_iff xs).mpr fun x hx => ?_
    obtain ⟨c, hmem, hc⟩ := exists_right (canonicalElems_ok_iff.mp hcs) hx
    obtain ⟨t, -, ht⟩ := exists_right (emitElems_ok_iff.mp hts) hmem
    exact ih x hx c t ((wellFormedElems_iff xs).mp hv x hx) hc ht
  | set xs =>
    rw [PyValue.wellFormed, Bool.and_eq_true] at hv
    exact hv.1
  | dict items ih =>
    obtain ⟨cs, hcs, hc⟩ := bind_ok hc
    cases hc
    obtain ⟨ts, hts, ht⟩ := bind_ok ht
    obtain ⟨ms, hms, -⟩ := bind_ok ht
    rw [PyValue.wellFormed, Bool.and_eq_true, wellFormedItems_iff] at hv
    have hkeys := (keys_emitItems hts).trans (keys_canonicalItems hcs)
    rw [writable, ← keysSortable_congr hkeys, (sortItems_ok_iff ts).mp ⟨ms, hms⟩, Bool.true_and,
      writableItems_iff]
    intro p hp
    obtain ⟨q, hq, -, hc⟩ := exists_right (canonicalItems_ok_iff.mp hcs) hp
    obtain ⟨r, -, -, ht⟩ := exists_right (emitItems_ok_iff.mp hts) hq
    exact ih p hp q.2 r.2 (hv.2 p hp) hc ht

/-- What is not writable is refused. -/
theorem canonicalText_of_not_writable (st : Style) {v : PyValue F} (hv : v.wellFormed = true)
    (hnot : writable v ≠ true) : canonicalText st v = .error .typeError := by
  cases htext : canonicalText st v with
  | ok s =>
    obtain ⟨c, hc, h⟩ := bind_ok htext
    obtain ⟨t, ht, -⟩ := bind_ok h
    exact absurd (writable_of_emitted v c t hv hc ht) hnot
  | error e =>
    rcases bind_error htext with h | ⟨c, -, h⟩
    · rw [canonical_error v h]
    · rw [dumps_error h]

end Written

/-! ### Orders that are no matter -/

section Order
variable [FloatCodec F] [SetText F]

/-- The first has the smaller key, whatever the orders. -/
def Apart (x y : PyValue F) : Prop :=
  ∀ x' y', Reordered x x' → Reordered y y' → sortKey x' < sortKey y'

/-- One is always first, or they have one text. -/
def Settled (x y : PyValue F) : Prop :=
  canonicalJson x = canonicalJson y ∨ Apart x y ∨ Apart y x

mutual

/-- Every two elements of a set are settled. -/
def SetsSettled : PyValue F → Prop
  | .list xs => SetsSettledElems xs
  | .tuple xs => SetsSettledElems xs
  | .set xs => SetsSettledElems xs ∧ xs.Pairwise Settled
  | .dict items => SetsSettledItems items
  | _ => True

def SetsSettledElems : List (PyValue F) → Prop
  | [] => True
  | x :: xs => SetsSettled x ∧ SetsSettledElems xs

def SetsSettledItems : List (Key × PyValue F) → Prop
  | [] => True
  | (_, v) :: items => SetsSettled v ∧ SetsSettledItems items

end

omit [FloatCodec F] [SetText F] in
/-- Elements beside what they were reordered to, in the order of the latter. -/
theorem exists_pairs {xs zs ys : List (PyValue F)} (h : xs.length = zs.length)
    (hperm : zs.Perm ys) : ∃ ps : List (PyValue F × PyValue F),
      ps.Perm (xs.zip zs) ∧ ps.map Prod.snd = ys := by
  have hzip : List.Forall₂ (fun z p => z = p.2) zs (xs.zip zs) := by
    have hsnd : (xs.zip zs).map Prod.snd = zs := List.map_snd_zip h.ge
    have hself : List.Forall₂ Eq zs ((xs.zip zs).map Prod.snd) := by
      rw [hsnd, List.forall₂_eq_eq_eq]
    exact List.forall₂_map_right_iff.mp hself
  obtain ⟨ps, hps, hzipped⟩ := List.perm_comp_forall₂ hperm.symm hzip
  refine ⟨ps, hzipped, ?_⟩
  have hsnd : List.Forall₂ Eq ys (ps.map Prod.snd) := List.forall₂_map_right_iff.mpr hps
  rw [List.forall₂_eq_eq_eq] at hsnd
  exact hsnd.symm

/-- The elements of a set are written in the order of their keys. -/
theorem written_set (xs : List (PyValue F)) :
    written (.set xs) = .arr ((sortBy sortKey xs).map written) := by
  have hzip : (xs.map sortKey).zip (writtenElems xs) = xs.map fun x => (sortKey x, written x) := by
    rw [writtenElems_eq_map, List.zip_map']
  rw [written, hzip, sortBy_map, List.map_map]
  rfl

/-- A settled set is written alike in another order. -/
theorem written_set_reordered {xs zs ys : List (PyValue F)} (hxs : hashableElems xs = true)
    (hpairs : xs.Pairwise Settled) (h : List.Forall₂ Reordered xs zs)
    (hsame : writtenElems zs = writtenElems xs) (hperm : zs.Perm ys) :
    written (.set ys) = written (.set xs) := by
  obtain ⟨ps, hps, rfl⟩ := exists_pairs h.length_eq hperm
  have hfst : (xs.zip zs).map Prod.fst = xs := List.map_fst_zip h.length_eq.le
  have hreordered : ∀ p ∈ xs.zip zs, Reordered p.1 p.2 := fun _ hp =>
    (List.forall₂_iff_zip.mp h).2 hp
  have hwritten : ∀ p ∈ xs.zip zs, written p.2 = written p.1 := by
    rw [writtenElems_eq_map, writtenElems_eq_map, ← List.forall₂_eq_eq_eq,
      List.forall₂_map_left_iff, List.forall₂_map_right_iff] at hsame
    exact fun p hp => (List.forall₂_iff_zip.mp hsame.flip).2 hp
  have hhash : ∀ p ∈ xs.zip zs, writable p.1 = true := fun p hp =>
    writable_of_hashable p.1 ((hashableElems_iff xs).mp hxs p.1 (List.of_mem_zip hp).1)
  -- the pairs stand in one order, whichever side they are sorted by
  let first : PyValue F × PyValue F → String := fun p => sortKey p.1
  let second : PyValue F × PyValue F → String := fun p => sortKey p.2
  have hsorted := stableSort_sortBy first (xs.zip zs)
  have hsorted' := stableSort_sortBy second ps
  have happart : (xs.zip zs).Pairwise fun p q => written p.1 = written q.1 ∨
      (first p < first q ∧ second p < second q) ∨ (first q < first p ∧ second q < second p) := by
    rw [← hfst, List.pairwise_map] at hpairs
    refine hpairs.imp_of_mem fun {p q} hp hq hsettled => ?_
    rcases hsettled with htext | hpq | hqp
    · exact .inl ((canonicalText_eq_iff .compact (hhash p hp) (hhash q hq)).mp htext)
    · exact .inr (.inl ⟨hpq _ _ (.refl _) (.refl _), hpq _ _ (hreordered p hp) (hreordered q hq)⟩)
    · exact .inr (.inr ⟨hqp _ _ (.refl _) (.refl _), hqp _ _ (hreordered q hq) (hreordered p hp)⟩)
  have hmaps := map_eq_of_sorted (f := fun p => written p.1)
    (hsorted.perm.trans (hps.symm.trans hsorted'.perm.symm)) hsorted.sorted hsorted'.sorted
    ((hsorted.perm.pairwise_iff fun {p q} h => h.imp Eq.symm Or.symm).mpr happart)
  have hfirst : (sortBy sortKey xs).map written =
      (sortBy first (xs.zip zs)).map fun p => written p.1 := by
    conv_lhs => rw [← hfst, sortBy_map, List.map_map]
    rfl
  have hsecond : (sortBy sortKey (ps.map Prod.snd)).map written =
      (sortBy second ps).map fun p => written p.1 := by
    rw [sortBy_map, List.map_map]
    exact List.map_congr_left fun p hp =>
      hwritten p (hps.mem_iff.mp (hsorted'.perm.mem_iff.mp hp))
  rw [written_set, written_set, hfirst, hsecond, hmaps]

theorem setsSettledElems_iff (xs : List (PyValue F)) :
    SetsSettledElems xs ↔ ∀ x ∈ xs, SetsSettled x := by
  induction xs with
  | nil => simp [SetsSettledElems]
  | cons x xs ih => simp [SetsSettledElems, ih]

theorem setsSettledItems_iff (items : List (Key × PyValue F)) :
    SetsSettledItems items ↔ ∀ p ∈ items, SetsSettled p.2 := by
  induction items with
  | nil => simp [SetsSettledItems]
  | cons p items ih => simp [SetsSettledItems, ih]

/-- Where the sets are settled, their order is no matter. -/
theorem written_reordered (v w : PyValue F) (hv : writable v = true) (hsettled : SetsSettled v)
    (h : Reordered v w) : written w = written v := by
  have helems : ∀ {xs zs : List (PyValue F)}, writableElems xs = true → SetsSettledElems xs →
      ReorderedElems xs zs → (∀ x ∈ xs, ∀ z, writable x = true → SetsSettled x →
        Reordered x z → written z = written x) → writtenElems zs = writtenElems xs := by
    intro xs zs hxs hsettled h ih
    rw [writableElems_iff] at hxs
    rw [setsSettledElems_iff] at hsettled
    rw [writtenElems_eq_map, writtenElems_eq_map]
    have hall := forall₂_imp_of_mem (reorderedElems_iff.mp h) fun x hx z =>
      ih x hx z (hxs x hx) (hsettled x hx)
    exact (map_eq_of_forall₂ hall fun _ _ heq => heq.symm).symm
  induction v generalizing w with
  | none | bool | int | float | str => exact h ▸ rfl
  | list xs ih | tuple xs ih =>
    obtain ⟨ys, rfl, h⟩ := h
    rw [written, written, helems hv hsettled h ih]
  | set xs ih =>
    obtain ⟨zs, ys, rfl, h, hperm⟩ := h
    have hsame := helems (writableElems_of_hashable xs hv) hsettled.1 h ih
    exact written_set_reordered hv hsettled.2 (reorderedElems_iff.mp h) hsame hperm
  | dict items ih =>
    obtain ⟨items', rfl, h⟩ := h
    rw [writable, Bool.and_eq_true, writableItems_iff] at hv
    rw [SetsSettled, setsSettledItems_iff] at hsettled
    have hall := forall₂_imp_of_mem (S := fun p q => p.1 = q.1 ∧ written q.2 = written p.2)
      (reorderedItems_iff.mp h) fun p hp q hpq =>
        ⟨hpq.1, ih p hp q.2 (hv.2 p hp) (hsettled p hp) hpq.2⟩
    have hsame : writtenItems items' = writtenItems items := by
      rw [writtenItems_eq_map, writtenItems_eq_map]
      refine (map_eq_of_forall₂ hall ?_).symm
      exact fun p q hpq => Prod.ext hpq.1 hpq.2.symm
    rw [written, written, hsame]

/-- The document is the same in all orders. -/
def OneDocument (v : PyValue F) : Prop := ∀ w, Reordered v w → written w = written v

omit [FloatCodec F] [SetText F] in
theorem reordered_at {x x' : PyValue F} (h : Reordered x x') (before after : List (PyValue F)) :
    ReorderedElems (before ++ x :: after) (before ++ x' :: after) := by
  induction before with
  | nil => exact ⟨x', after, rfl, h, reorderedElems_refl after⟩
  | cons y before ih => exact ⟨y, _, rfl, .refl y, ih⟩

omit [FloatCodec F] [SetText F] in
theorem reordered_item_at {x x' : PyValue F} (h : Reordered x x') (k : Key)
    (before after : List (Key × PyValue F)) :
    ReorderedItems (before ++ (k, x) :: after) (before ++ (k, x') :: after) := by
  induction before with
  | nil => exact ⟨x', after, rfl, h, reorderedItems_refl after⟩
  | cons p before ih => exact ⟨p.2, _, rfl, .refl p.2, ih⟩

/-- One of several changed, and they are the same ones: it did not change. -/
theorem eq_of_perm_middle {α : Type} {a b : α} {before after : List α}
    (h : (before ++ a :: after).Perm (before ++ b :: after)) : a = b := by
  have hfront : (a :: (before ++ after)).Perm (b :: (before ++ after)) :=
    List.perm_middle.symm.trans (h.trans List.perm_middle)
  rw [← List.singleton_append, ← List.singleton_append (x := b)] at hfront
  exact List.singleton_perm_singleton.mp ((List.perm_append_right_iff _).mp hfront)

theorem oneDocument_elems
    (h : ∀ ys, ReorderedElems xs ys → (ys.map written).Perm (xs.map written)) :
    ∀ x ∈ xs, OneDocument x := by
  intro x hx x' hx'
  obtain ⟨before, after, rfl⟩ := List.append_of_mem hx
  have hperm := h _ (reordered_at hx' before after)
  rw [List.map_append, List.map_append, List.map_cons, List.map_cons] at hperm
  exact eq_of_perm_middle hperm

theorem oneDocument_list (h : OneDocument (.list xs)) :
    ∀ x ∈ xs, OneDocument x := by
  refine oneDocument_elems fun ys hys => ?_
  have hsame := h (.list ys) ⟨ys, rfl, hys⟩
  rw [written, written, Document.arr.injEq, writtenElems_eq_map, writtenElems_eq_map] at hsame
  rw [hsame]

theorem oneDocument_tuple (h : OneDocument (.tuple xs)) :
    ∀ x ∈ xs, OneDocument x := by
  refine oneDocument_elems fun ys hys => ?_
  have hsame := h (.tuple ys) ⟨ys, rfl, hys⟩
  rw [written, written, Document.arr.injEq, writtenElems_eq_map, writtenElems_eq_map] at hsame
  rw [hsame]

theorem oneDocument_set (h : OneDocument (.set xs)) :
    ∀ x ∈ xs, OneDocument x := by
  refine oneDocument_elems fun ys hys => ?_
  have hsame := h (.set ys) ⟨ys, ys, rfl, hys, .refl ys⟩
  rw [written_set, written_set, Document.arr.injEq] at hsame
  have hxs := (stableSort_sortBy sortKey xs).perm.map written
  have hys := (stableSort_sortBy sortKey ys).perm.map written
  exact hys.symm.trans (hsame ▸ hxs)

theorem values_written {items : List (Key × PyValue F)} (h : writable (.dict items) = true) :
    ∃ ms : List (Text × Document F), written (.dict items) = .obj ms ∧
      (ms.map Prod.snd).Perm (items.map fun p => written p.2) := by
  simp only [writable, Bool.and_eq_true] at h
  have hkeys : (writtenItems items).map Prod.fst = items.map Prod.fst := by
    rw [writtenItems_eq_map, List.map_map]
    rfl
  obtain ⟨ms, hms⟩ := (sortItems_ok_iff _).mpr ((keysSortable_congr hkeys).trans h.1)
  refine ⟨_, by rw [written, hms], ?_⟩
  have hvalues := perm_values_sortItems hms
  rw [writtenItems_eq_map, List.map_map] at hvalues
  rw [List.map_map]
  exact hvalues

theorem oneDocument_dict {items : List (Key × PyValue F)}
    (hwritable : writable (.dict items) = true)
    (h : OneDocument (.dict items)) : ∀ p ∈ items, OneDocument p.2 := by
  rintro ⟨k, x⟩ hp x' hx'
  obtain ⟨before, after, rfl⟩ := List.append_of_mem hp
  have hreordered : Reordered (.dict (before ++ (k, x) :: after))
      (.dict (before ++ (k, x') :: after)) := ⟨_, rfl, reordered_item_at hx' k before after⟩
  have hwritable' := (writable_reordered _ _ hreordered).trans hwritable
  obtain ⟨ms, hms, hvalues⟩ := values_written hwritable
  obtain ⟨ms', hms', hvalues'⟩ := values_written hwritable'
  have hsame := h _ hreordered
  rw [hms, hms', Document.obj.injEq] at hsame
  have hperm := hvalues'.symm.trans (hsame ▸ hvalues)
  rw [List.map_append, List.map_append, List.map_cons, List.map_cons] at hperm
  exact eq_of_perm_middle hperm

omit [FloatCodec F] [SetText F] in
theorem reordered_set {xs us ys : List (PyValue F)} (hperm : xs.Perm us)
    (h : List.Forall₂ Reordered us ys) : Reordered (.set xs) (.set ys) := by
  obtain ⟨zs, hzs, hpermz⟩ := List.perm_comp_forall₂ hperm h
  exact ⟨zs, ys, rfl, reorderedElems_iff.mpr hzs, hpermz⟩

/-- An element that may have one key or another stands on one side of every element that is
written otherwise. -/
theorem sortKey_le_iff {xs rest : List (PyValue F)} {x y x₁ x₂ y' : PyValue F}
    (h : OneDocument (.set xs)) (hperm : xs.Perm (x :: y :: rest)) (hx₁ : Reordered x x₁)
    (hx₂ : Reordered x x₂) (hy : Reordered y y') (hne : written x ≠ written y) :
    sortKey x₁ ≤ sortKey y' ↔ sortKey x₂ ≤ sortKey y' := by
  have hrest : List.Forall₂ Reordered rest rest := reorderedElems_iff.mp (reorderedElems_refl rest)
  have helems := oneDocument_set h
  have hdocx := helems x (hperm.mem_iff.mpr (List.mem_cons_self ..))
  have hdocy := helems y (hperm.mem_iff.mpr (List.mem_cons_of_mem _ (List.mem_cons_self ..)))
  have hsame : written (.set (x₁ :: y' :: rest)) = written (.set (x₂ :: y' :: rest)) :=
    (h _ (reordered_set hperm (.cons hx₁ (.cons hy hrest)))).trans
      (h _ (reordered_set hperm (.cons hx₂ (.cons hy hrest)))).symm
  rw [written_set, written_set, Document.arr.injEq] at hsame
  have hsorted := stableSort_sortBy sortKey (y' :: rest)
  refine le_iff_of_insert ((hdocx x₁ hx₁).trans (hdocx x₂ hx₂).symm) hsorted.sorted hsame
    (hsorted.mem_iff.mpr (List.mem_cons_self ..)) fun heq => hne ?_
  rw [← hdocx x₁ hx₁, ← hdocy y' hy, heq]

/-- In a set with one document every two elements are settled. -/
theorem settled_of_oneDocument {xs rest : List (PyValue F)} {x y : PyValue F}
    (hxs : hashableElems xs = true) (h : OneDocument (.set xs))
    (hperm : xs.Perm (x :: y :: rest)) : Settled x y := by
  have hmemx : x ∈ xs := hperm.mem_iff.mpr (List.mem_cons_self ..)
  have hmemy : y ∈ xs := hperm.mem_iff.mpr (List.mem_cons_of_mem _ (List.mem_cons_self ..))
  have hwx := writable_of_hashable x ((hashableElems_iff xs).mp hxs x hmemx)
  have hwy := writable_of_hashable y ((hashableElems_iff xs).mp hxs y hmemy)
  by_contra hnot
  simp only [Settled, not_or] at hnot
  obtain ⟨htext, hxy, hyx⟩ := hnot
  have hne : written x ≠ written y := fun heq =>
    htext ((canonicalText_eq_iff .compact hwx hwy).mpr heq)
  simp only [Apart, not_forall, not_lt] at hxy hyx
  obtain ⟨x₁, y₁, hx₁, hy₁, hle₁⟩ := hxy
  obtain ⟨y₂, x₂, hy₂, hx₂, hle₂⟩ := hyx
  have hswap : xs.Perm (y :: x :: rest) := hperm.trans (.swap y x rest)
  -- neither element can change sides, so the two have one key
  have hyx' : sortKey y₂ ≤ sortKey x₁ := (sortKey_le_iff h hswap hy₁ hy₂ hx₁ hne.symm).mp hle₁
  have hxy' : sortKey x₁ ≤ sortKey y₂ := (sortKey_le_iff h hperm hx₂ hx₁ hy₂ hne).mp hle₂
  have hrest : List.Forall₂ Reordered rest rest := reorderedElems_iff.mp (reorderedElems_refl rest)
  have hsame : written (.set (x₁ :: y₂ :: rest)) = written (.set (y₂ :: x₁ :: rest)) :=
    (h _ (reordered_set hperm (.cons hx₁ (.cons hy₂ hrest)))).trans
      (h _ (reordered_set hswap (.cons hy₂ (.cons hx₁ hrest)))).symm
  rw [written_set, written_set, Document.arr.injEq] at hsame
  have heq : written x₁ = written y₂ := eq_of_insert_tie (le_antisymm hxy' hyx') hsame
  have helems := oneDocument_set h
  exact hne ((helems x hmemx x₁ hx₁).symm.trans (heq.trans (helems y hmemy y₂ hy₂)))

theorem setsSettled_of_oneDocument (v : PyValue F) (hv : writable v = true)
    (h : OneDocument v) : SetsSettled v := by
  induction v with
  | none | bool | int | float | str => trivial
  | list xs ih =>
    exact (setsSettledElems_iff xs).mpr fun x hx =>
      ih x hx ((writableElems_iff xs).mp hv x hx) (oneDocument_list h x hx)
  | tuple xs ih =>
    exact (setsSettledElems_iff xs).mpr fun x hx =>
      ih x hx ((writableElems_iff xs).mp hv x hx) (oneDocument_tuple h x hx)
  | set xs ih =>
    have hxs := (writableElems_iff xs).mp (writableElems_of_hashable xs hv)
    refine ⟨(setsSettledElems_iff xs).mpr fun x hx => ih x hx (hxs x hx) (oneDocument_set h x hx),
      List.pairwise_iff_forall_sublist.mpr fun {x y} hsub => ?_⟩
    obtain ⟨rest, hrest⟩ := hsub.exists_perm_append
    exact settled_of_oneDocument hv h hrest
  | dict items ih =>
    have hitems := oneDocument_dict hv h
    rw [writable, Bool.and_eq_true, writableItems_iff] at hv
    exact (setsSettledItems_iff items).mpr fun p hp => ih p hp (hv.2 p hp) (hitems p hp)

/-- A payload has one text, whatever the iteration orders of its sets, exactly when it is refused
or every two elements of a set in it are settled. -/
theorem order_iff (p : Payload F) (st : Style) :
    (∀ w w', Reordered p.value w → Reordered p.value w' →
      canonicalText st w = canonicalText st w') ↔
    (writable p.value = true → SetsSettled p.value) := by
  have hwritable : ∀ w, Reordered p.value w → writable w = writable p.value :=
    fun w hw => writable_reordered p.value w hw
  constructor
  · intro h hp
    refine setsSettled_of_oneDocument p.value hp fun w hw => ?_
    have htext := h w p.value hw (.refl _)
    exact (canonicalText_eq_iff st ((hwritable w hw).trans hp) hp).mp htext
  · intro h w w' hw hw'
    by_cases hp : writable p.value = true
    · rw [canonicalText_eq_iff st ((hwritable w hw).trans hp) ((hwritable w' hw').trans hp),
        written_reordered p.value w hp (h hp) hw, written_reordered p.value w' hp (h hp) hw']
    · have hwell : ∀ w, Reordered p.value w → w.wellFormed = true := fun w hw =>
        (wellFormed_reordered p.value w hw).trans p.wellFormed
      rw [canonicalText_of_not_writable st (hwell w hw) (by rwa [hwritable w hw]),
        canonicalText_of_not_writable st (hwell w' hw') (by rwa [hwritable w' hw'])]

end Order

/-! ### Two sets in a set -/

section Repr
variable (strRepr : Text → Text) (floatRepr : Fl F → Text)

def separated (xs : List Text) : Text := (ofString ", ").intercalate xs

mutual

/-- `repr(v)`, every set a frozenset: it prints its elements in their iteration order. -/
def reprText : PyValue F → Text
  | .none => ofString "None"
  | .bool b => ofString (if b then "True" else "False")
  | .int i => intKey i
  | .float x => floatRepr x
  | .str s => strRepr s
  | .list xs => ofString "[" ++ (separated (reprElems xs) ++ ofString "]")
  | .tuple xs =>
    ofString "(" ++ (separated (reprElems xs) ++ ofString (if xs.length = 1 then ",)" else ")"))
  | .set xs =>
    if xs.length = 0 then ofString "frozenset()"
    else ofString "frozenset(\x7b" ++ (separated (reprElems xs) ++ ofString "\x7d)")
  | .dict items => ofString "\x7b" ++ (separated (reprItems items) ++ ofString "\x7d")

def reprElems : List (PyValue F) → List Text
  | [] => []
  | x :: xs => reprText x :: reprElems xs

def reprItems : List (Key × PyValue F) → List Text
  | [] => []
  | (k, v) :: items =>
    let key := match k with
      | .str s => strRepr s
      | .int i => intKey i
    (key ++ (ofString ": " ++ reprText v)) :: reprItems items

end

/-- `str` of a frozenset. -/
abbrev printedSets : SetText F where
  setText xs := reprText strRepr floatRepr (.set xs)

end Repr

/-- `repr` of a string without quotes, backslashes and what cannot be printed. -/
def quoted (s : Text) : Text := ofString "'" ++ (s ++ ofString "'")

/-- The value `{"s": {frozenset({"a", "b"}), frozenset({"a", "c"})}}`, its two inner sets as
they are iterated. -/
def twoSets (left right : List String) : PyValue Literal :=
  let strings := fun xs : List String => PyValue.set (xs.map fun x => .str (ofString x))
  .dict [(.str (ofString "s"), .set [strings left, strings right])]

/-- Which of the two inner sets is written first is up to the interpreter. -/
theorem text_depends_on_order : ¬ ∀ (p : Payload Literal) (w w' : PyValue Literal),
    Reordered p.value w → Reordered p.value w' →
      @canonicalText Literal _ (printedSets quoted fun _ => []) .spaced w =
        @canonicalText Literal _ (printedSets quoted fun _ => []) .spaced w' := by
  intro h
  have hreordered : Reordered (twoSets ["a", "b"] ["a", "c"]) (twoSets ["b", "a"] ["a", "c"]) := by
    have hswap : Reordered (F := Literal) (.set [.str (ofString "a"), .str (ofString "b")])
        (.set [.str (ofString "b"), .str (ofString "a")]) :=
      ⟨_, _, rfl, reorderedElems_refl _, .swap ..⟩
    exact ⟨_, rfl, _, _, rfl, ⟨_, _, rfl, ⟨_, _, rfl, hswap, reorderedElems_refl _⟩, .refl _⟩, rfl⟩
  have hsame := h ⟨twoSets ["a", "b"] ["a", "c"], by decide +kernel⟩ _ _ (.refl _) hreordered
  exact absurd hsame (by decide +kernel)

end PiPlatform.EventFabric
