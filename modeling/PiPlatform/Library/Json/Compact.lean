import PiPlatform.Library.Json.Document

/-! The compact rendering: its pieces, and that it is plain ASCII.

An array is its elements' texts with commas between them, and an object its members'. What is
written of a document without floats are printable ASCII characters only. -/
namespace PiPlatform.Library.Json

variable {F : Type} [FloatCodec F]

/-! ### Pieces -/

/-- What stands for a member in an object. -/
def memberText (m : Text × Document F) : List Char := quote m.1 ++ ':' :: m.2.render .compact

theorem render_elems (x : Document F) (xs : List (Document F)) :
    x.render .compact ++ renderElems .compact xs =
      [','].intercalate ((x :: xs).map fun x => x.render .compact) ++ [']'] := by
  induction xs generalizing x with
  | nil => simp [renderElems]
  | cons y xs ih =>
    rw [renderElems, List.map_cons, List.intercalate_cons_of_ne_nil (by simp), List.append_assoc,
      ← List.singleton_append, List.append_assoc, ← ih]
    rfl

theorem render_members (m : Text × Document F) (ms : List (Text × Document F)) :
    memberText m ++ renderMembers .compact ms =
      [','].intercalate ((m :: ms).map memberText) ++ ['}'] := by
  induction ms generalizing m with
  | nil => simp [renderMembers]
  | cons n ms ih =>
    rw [renderMembers, List.map_cons, List.intercalate_cons_of_ne_nil (by simp), List.append_assoc,
      List.append_assoc, ← ih]
    simp [memberText, Style.compact]

theorem render_arr (xs : List (Document F)) : (Document.arr xs).render .compact =
    '[' :: ([','].intercalate (xs.map fun x => x.render .compact) ++ [']']) := by
  cases xs with
  | nil => rfl
  | cons x xs => rw [Document.render, render_elems]

theorem render_obj (ms : List (Text × Document F)) : (Document.obj ms).render .compact =
    '{' :: ([','].intercalate (ms.map memberText) ++ ['}']) := by
  cases ms with
  | nil => rfl
  | cons m ms =>
    rw [← render_members, Document.render, memberText]
    simp [Style.compact]

/-! ### Printable characters -/

def printable (c : Char) : Bool := 0x20 ≤ c.toNat && c.toNat < 0x7F

theorem printable_digitChar : ∀ n < 0x10, printable (Nat.digitChar n) = true := by decide

theorem printable_unicodeEscape (n : Nat) : (unicodeEscape n).all printable = true := by
  have hdigit : ∀ k, printable (Nat.digitChar (k % 0x10)) = true := fun k =>
    printable_digitChar _ (Nat.mod_lt _ (by decide))
  simp only [unicodeEscape, hex4, List.all_cons, hdigit]
  rfl

theorem printable_escapeChar (c : CodePoint) : (escapeChar c).all printable = true := by
  unfold escapeChar
  split
  · rfl
  split
  · rfl
  split
  · rfl
  split
  · rfl
  split
  · rfl
  split
  · rfl
  split
  · rfl
  split
  · next hplain =>
    have hvalid : c.val.isValidChar := Or.inl (by omega)
    have hnat : (Char.ofNat c.val).toNat = c.val := by
      rw [Char.ofNat, dif_pos hvalid]
      rfl
    rw [List.all_cons, printable, hnat]
    simp only [List.all_nil, Bool.and_true, Bool.and_eq_true, decide_eq_true_eq]
    omega
  split
  · exact printable_unicodeEscape _
  · rw [List.all_append, printable_unicodeEscape, printable_unicodeEscape]
    rfl

theorem printable_quote (s : Text) : (quote s).all printable = true := by
  have hescape : (escape s).all printable = true := by
    rw [escape, List.all_flatMap, List.all_eq_true]
    exact fun c _ => printable_escapeChar c
  rw [quote, List.all_cons, List.all_append, hescape]
  rfl

theorem printable_intText (i : Int) : (intText i).all printable = true := by
  have hdigits : ∀ n, (Nat.toDigits 10 n).all printable = true := by
    intro n
    rw [List.all_eq_true]
    intro c hc
    have hdigit := isDigit_of_mem_toDigits hc
    simp only [Char.isDigit, ge_iff_le, Bool.and_eq_true, decide_eq_true_eq] at hdigit
    have hlow : 48 ≤ c.toNat := hdigit.1
    have hhigh : c.toNat ≤ 57 := hdigit.2
    simp only [printable, Bool.and_eq_true, decide_eq_true_eq]
    omega
  cases i with
  | ofNat n => exact hdigits n
  | negSucc n =>
    rw [intText, List.all_cons, hdigits]
    rfl

theorem printable_intercalate {xss : List (List Char)}
    (h : ∀ xs ∈ xss, xs.all printable = true) : ([','].intercalate xss).all printable = true := by
  induction xss with
  | nil => rfl
  | cons xs xss ih =>
    obtain ⟨hxs, hxss⟩ := List.forall_mem_cons.mp h
    cases xss with
    | nil => simpa using hxs
    | cons ys yss =>
      rw [List.intercalate_cons_of_ne_nil (by simp), List.all_append, List.all_append, hxs,
        ih hxss]
      rfl

theorem printable_arr {xs : List (Document F)}
    (h : ∀ x ∈ xs, (x.render .compact).all printable = true) :
    ((Document.arr xs).render .compact).all printable = true := by
  rw [render_arr, List.all_cons, List.all_append,
    printable_intercalate (List.forall_mem_map.mpr h)]
  rfl

theorem printable_obj {ms : List (Text × Document F)}
    (h : ∀ m ∈ ms, (m.2.render .compact).all printable = true) :
    ((Document.obj ms).render .compact).all printable = true := by
  have hmember : ∀ m ∈ ms, (memberText m).all printable = true := by
    intro m hm
    rw [memberText, List.all_append, List.all_cons, printable_quote, h m hm]
    rfl
  rw [render_obj, List.all_cons, List.all_append,
    printable_intercalate (List.forall_mem_map.mpr hmember)]
  rfl

end PiPlatform.Library.Json
