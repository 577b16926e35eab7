import Mathlib.Data.List.Chain
import Mathlib.Data.List.Induction
import Mathlib.Data.List.Nodup

/-! Hash chains.

Entries of any type with a place, the digest of the entry before and their own.
A list is `Linked` from a place and a digest when its entries stand at consecutive
places from there and each repeats the digest before it. Appending is a local
matter (`linked_snoc`), places are then determined by position, and a digest that
determines what it covers and the digest before commits to the whole history:
two linked lists of one length that end in the same digest agree
(`agree_of_last`). -/
namespace PiPlatform.Library

universe u v

/-- How the entries of a chain are read. -/
structure Links (E : Type u) (D : Type v) where
  place : E → Int
  previous : E → D
  digest : E → D

namespace Links
variable {E : Type u} {D : Type v} (L : Links E D)

def Linked : Int → D → List E → Prop
  | _, _, [] => True
  | n, d, e :: es => L.place e = n ∧ L.previous e = d ∧ Linked (n + 1) (L.digest e) es

/-- The digest an entry behind `es` has to repeat. -/
def lastDigest (d : D) (es : List E) : D := (es.getLast?.map L.digest).getD d

@[simp] theorem lastDigest_nil (d : D) : L.lastDigest d [] = d := rfl

theorem lastDigest_cons (d : D) (e : E) (es : List E) :
    L.lastDigest d (e :: es) = L.lastDigest (L.digest e) es := by
  cases es with
  | nil => rfl
  | cons e' es => simp [lastDigest, List.getLast?_cons]

theorem linked_append {n : Int} {d : D} {xs ys : List E} :
    L.Linked n d (xs ++ ys) ↔
      L.Linked n d xs ∧ L.Linked (n + xs.length) (L.lastDigest d xs) ys := by
  induction xs generalizing n d with
  | nil => simp [Linked]
  | cons e xs ih =>
    have hplace : n + 1 + (xs.length : Int) = n + ((e :: xs).length : Int) := by
      rw [List.length_cons]
      omega
    rw [List.cons_append, Linked, Linked, ih, lastDigest_cons, hplace]
    tauto

theorem linked_snoc {n : Int} {d : D} {xs : List E} {e : E} :
    L.Linked n d (xs ++ [e]) ↔
      L.Linked n d xs ∧ L.place e = n + xs.length ∧ L.previous e = L.lastDigest d xs := by
  simp [linked_append, Linked]

/-- Lists whose entries read alike are linked alike. -/
theorem linked_congr {E' : Type u} {L' : Links E' D} {xs : List E} {ys : List E'}
    (h : List.Forall₂ (fun a b => L.place a = L'.place b ∧ L.previous a = L'.previous b ∧
      L.digest a = L'.digest b) xs ys) (n : Int) (d : D) :
    L.Linked n d xs ↔ L'.Linked n d ys := by
  induction h generalizing n d with
  | nil => rfl
  | cons hab _ ih =>
    obtain ⟨hplace, hprev, hdigest⟩ := hab
    rw [Linked, Linked, hplace, hprev, hdigest, ih]

/-! ### Places -/

variable {L} {n : Int} {d : D} {es : List E}

theorem Linked.places (h : L.Linked n d es) :
    es.map L.place = (List.range es.length).map fun k : Nat => n + (k : Int) := by
  induction es using List.reverseRecOn with
  | nil => rfl
  | append_singleton es e ih =>
    obtain ⟨hes, hplace, -⟩ := (L.linked_snoc).mp h
    simp [List.range_succ, ih hes, hplace]

theorem Linked.place_getElem (h : L.Linked n d es) {k : Nat} (hk : k < es.length) :
    L.place es[k] = n + k := by
  have hplaces := congrArg (·[k]?) h.places
  simpa [hk] using hplaces

theorem Linked.pairwise_place (h : L.Linked n d es) :
    es.Pairwise fun a b => L.place a < L.place b := by
  rw [← List.pairwise_map (f := L.place) (R := (· < ·)), h.places, List.pairwise_map]
  exact List.pairwise_lt_range.imp fun hab => by omega

theorem Linked.place_mem (h : L.Linked n d es) {e : E} (he : e ∈ es) :
    n ≤ L.place e ∧ L.place e < n + es.length := by
  have hmem : L.place e ∈ (List.range es.length).map fun k : Nat => n + (k : Int) :=
    h.places ▸ List.mem_map_of_mem he
  obtain ⟨k, hk, hplace⟩ := List.mem_map.mp hmem
  rw [List.mem_range] at hk
  omega

theorem Linked.place_last (h : L.Linked n d es) {e : E} (he : es.getLast? = some e) :
    L.place e = n + es.length - 1 := by
  cases es using List.reverseRecOn with
  | nil => cases he
  | append_singleton es e' =>
    obtain rfl : e' = e := by simpa using he
    obtain ⟨-, hplace, -⟩ := (L.linked_snoc).mp h
    simp [hplace]
    omega

/-- The entries from the `k`-th place on are those behind the first `k`. -/
theorem Linked.filter_place (h : L.Linked n d es) (k : Nat) :
    (es.filter fun e => decide (n + k ≤ L.place e)) = es.drop k := by
  rw [← List.take_append_drop k es] at h
  obtain ⟨htake, hdrop⟩ := (L.linked_append).mp h
  have hnone : (es.take k).filter (fun e => decide (n + k ≤ L.place e)) = [] := by
    rw [List.filter_eq_nil_iff]
    intro e he
    have := (htake.place_mem he).2
    have := List.length_take_le k es
    simp only [decide_eq_true_eq]
    omega
  have hall : (es.drop k).filter (fun e => decide (n + k ≤ L.place e)) = es.drop k := by
    rw [List.filter_eq_self]
    intro e he
    have hpos : k < es.length := by
      by_contra hk
      rw [List.drop_eq_nil_of_le (by omega)] at he
      cases he
    have := (hdrop.place_mem he).1
    rw [List.length_take_of_le (by omega)] at this
    simpa using this
  conv_lhs => rw [← List.take_append_drop k es]
  rw [List.filter_append, hnone, hall, List.nil_append]

/-! ### Chains without places -/

/-- Each entry repeats the digest of the one before it, and the first one repeats `d`. -/
def Follows (L : Links E D) : D → List E → Prop
  | _, [] => True
  | d, e :: es => L.previous e = d ∧ L.Follows (L.digest e) es

theorem follows_snoc {d : D} {xs : List E} {e : E} :
    L.Follows d (xs ++ [e]) ↔ L.Follows d xs ∧ L.previous e = L.lastDigest d xs := by
  induction xs generalizing d with
  | nil => simp [Follows]
  | cons x xs ih => rw [List.cons_append, Follows, Follows, ih, lastDigest_cons, and_assoc]

/-- The check of a chain: what each entry repeats, and its own digest computed again. -/
def verify [DecidableEq D] (L : Links E D) (recomputed : E → D) : D → List E → Bool
  | _, [] => true
  | expected, e :: es =>
    if L.previous e ≠ expected then false
    else if L.digest e ≠ recomputed e then false
    else L.verify recomputed (L.digest e) es

theorem verify_iff [DecidableEq D] {recomputed : E → D} {d : D} {es : List E} :
    L.verify recomputed d es = true ↔ L.Follows d es ∧ ∀ e ∈ es, L.digest e = recomputed e := by
  induction es generalizing d with
  | nil => simp [verify, Follows]
  | cons e es ih =>
    rw [verify, Follows, List.forall_mem_cons]
    by_cases hprevious : L.previous e = d
    · by_cases hdigest : L.digest e = recomputed e
      · rw [if_neg (not_not.mpr hprevious), if_neg (not_not.mpr hdigest), ih]
        simp [hprevious, ← hdigest]
      · simp [hprevious, hdigest]
    · simp [hprevious]

/-- A verified chain stays one behind an entry that repeats its last digest. -/
theorem verify_snoc [DecidableEq D] {recomputed : E → D} {d : D} {es : List E} {e : E}
    (h : L.verify recomputed d es = true) (hprevious : L.previous e = L.lastDigest d es)
    (hdigest : L.digest e = recomputed e) : L.verify recomputed d (es ++ [e]) = true := by
  obtain ⟨hfollows, hdigests⟩ := verify_iff.mp h
  refine verify_iff.mpr ⟨follows_snoc.mpr ⟨hfollows, hprevious⟩, fun e' he' => ?_⟩
  rcases List.mem_append.mp he' with he' | he'
  · exact hdigests e' he'
  · rwa [List.mem_singleton.mp he']

/-! ### Commitment -/

/-- Each entry repeats the digest of the one before; nothing is said of the first. -/
def Chained (L : Links E D) (es : List E) : Prop :=
  es.IsChain fun a b => L.previous b = L.digest a

theorem Linked.chained (h : L.Linked n d es) : L.Chained es := by
  induction es using List.reverseRecOn with
  | nil => exact List.isChain_nil
  | append_singleton es e ih =>
    obtain ⟨hes, -, hprev⟩ := (L.linked_snoc).mp h
    refine List.isChain_append.mpr ⟨ih hes, List.isChain_singleton _, fun a ha b hb => ?_⟩
    obtain rfl : e = b := by simpa using hb
    rw [hprev, lastDigest, ha]
    rfl

/-- Two chains of one length that end in the same digest agree entry by entry, when
equal digests mean agreement and the same digest before. -/
theorem agree_of_last {Agree : E → E → Prop} {xs ys : List E}
    (hdigest : ∀ a ∈ xs, ∀ b ∈ ys, L.digest a = L.digest b →
      Agree a b ∧ L.previous a = L.previous b)
    (hx : L.Chained xs) (hy : L.Chained ys) (hlen : xs.length = ys.length)
    (hlast : xs.getLast?.map L.digest = ys.getLast?.map L.digest) : List.Forall₂ Agree xs ys := by
  induction xs using List.reverseRecOn generalizing ys with
  | nil =>
    obtain rfl : ys = [] := List.length_eq_zero_iff.mp hlen.symm
    exact .nil
  | append_singleton xs a ih =>
    cases ys using List.reverseRecOn with
    | nil => simp at hlen
    | append_singleton ys b =>
      obtain ⟨hx, -, hxa⟩ := List.isChain_append.mp hx
      obtain ⟨hy, -, hyb⟩ := List.isChain_append.mp hy
      have hab : L.digest a = L.digest b := by simpa using hlast
      obtain ⟨hagree, hprev⟩ := hdigest a (by simp) b (by simp) hab
      have hlen' : xs.length = ys.length := by simpa using hlen
      -- the digests before the last are the ones the last entries repeat
      have hlast' : xs.getLast?.map L.digest = ys.getLast?.map L.digest := by
        cases hxs : xs.getLast? with
        | none =>
          rw [List.getLast?_eq_none_iff] at hxs
          subst hxs
          obtain rfl : ys = [] := List.length_eq_zero_iff.mp hlen'.symm
          rfl
        | some x =>
          cases hys : ys.getLast? with
          | none =>
            rw [List.getLast?_eq_none_iff] at hys
            subst hys
            obtain rfl : xs = [] := List.length_eq_zero_iff.mp hlen'
            cases hxs
          | some y =>
            rw [Option.map_some, Option.map_some, ← hxa x hxs a rfl, ← hyb y hys b rfl, hprev]
      have hprefix := ih (fun a' ha' b' hb' => hdigest a' (by simp [ha']) b' (by simp [hb']))
        hx hy hlen' hlast'
      exact List.rel_append hprefix (.cons hagree .nil)

end Links

end PiPlatform.Library
