import PiPlatform.Library.Json.Compact

/-! What is rendered is printable ASCII, in any style whose pads are.

So it has no line end in it, and a document fits on a line. -/
namespace PiPlatform.Library.Json

variable {F : Type} [FloatCodec F]

/-! ### Numbers -/

section Numbers

theorem printable_of_isDigit {c : Char} (h : c.isDigit = true) : printable c = true := by
  simp only [Char.isDigit, ge_iff_le, Bool.and_eq_true, decide_eq_true_eq] at h
  have hlow : 48 ≤ c.toNat := h.1
  have hhigh : c.toNat ≤ 57 := h.2
  simp only [printable, Bool.and_eq_true, decide_eq_true_eq]
  omega

theorem printable_takeWhile_isDigit (cs : List Char) :
    (cs.takeWhile Char.isDigit).all printable = true := by
  rw [List.all_eq_true]
  exact fun c hc => printable_of_isDigit (List.mem_takeWhile_imp hc)

theorem printable_scanDigits {cs ds rest : List Char} (h : scanDigits cs = some (ds, rest)) :
    ds.all printable = true := by
  rw [scanDigits] at h
  split_ifs at h
  obtain ⟨rfl, -⟩ := Prod.mk.inj (Option.some.inj h)
  exact printable_takeWhile_isDigit cs

theorem printable_scanInt {cs m rest : List Char} (h : scanInt cs = some (m, rest)) :
    m.all printable = true := by
  cases cs with
  | nil => cases h
  | cons c cs =>
    rw [scanInt] at h
    split_ifs at h with hzero hdigit
    · obtain ⟨rfl, -⟩ := Prod.mk.inj (Option.some.inj h)
      rfl
    · obtain ⟨rfl, -⟩ := Prod.mk.inj (Option.some.inj h)
      rw [List.all_cons, printable_of_isDigit hdigit, printable_takeWhile_isDigit]
      rfl

theorem printable_scanFraction (cs : List Char) : (scanFraction cs).1.all printable = true := by
  cases cs with
  | nil => rfl
  | cons c cs =>
    rw [scanFraction]
    split_ifs
    · cases hdigits : scanDigits cs with
      | none => rfl
      | some p =>
        rw [List.all_cons, printable_scanDigits hdigits]
        rfl
    · rfl

theorem printable_scanSign (cs : List Char) : (scanSign cs).1.all printable = true := by
  cases cs with
  | nil => rfl
  | cons c cs =>
    rw [scanSign]
    split_ifs with hsign
    · rcases hsign with rfl | rfl <;> rfl
    · rfl

theorem printable_scanExponent (cs : List Char) : (scanExponent cs).1.all printable = true := by
  cases cs with
  | nil => rfl
  | cons c cs =>
    rw [scanExponent]
    split_ifs with hletter
    · cases hdigits : scanDigits (scanSign cs).2 with
      | none => rfl
      | some p =>
        rw [List.all_cons, List.all_append, printable_scanSign,
          printable_scanDigits hdigits]
        rcases hletter with rfl | rfl <;> rfl
    · rfl

theorem printable_scanUnsigned {cs m f rest : List Char}
    (h : scanUnsigned cs = some (m, f, rest)) : (m ++ f).all printable = true := by
  obtain ⟨p, hp, heq⟩ := Option.map_eq_some_iff.mp h
  cases heq
  rw [List.all_append, List.all_append, printable_scanInt hp,
    printable_scanFraction, printable_scanExponent]
  rfl

theorem printable_scanNumber {cs m f rest : List Char} (h : scanNumber cs = some (m, f, rest)) :
    (m ++ f).all printable = true := by
  cases cs with
  | nil => cases h
  | cons c cs =>
    rw [scanNumber] at h
    split_ifs at h
    · obtain ⟨⟨m', f', rest'⟩, hp, heq⟩ := Option.map_eq_some_iff.mp h
      cases heq
      rw [List.cons_append, List.all_cons, printable_scanUnsigned hp]
      rfl
    · exact printable_scanUnsigned h

theorem printable_floatText (x : Fl F) : (floatText x).all printable = true := by
  cases x with
  | finite x =>
    obtain ⟨m, f, -, heq, hscan⟩ := scanNumber_floatLiteral (FloatCodec.repr_literal x)
    rw [floatText, ← heq]
    exact printable_scanNumber hscan
  | nan => rfl
  | infinity negative => cases negative <;> rfl

end Numbers

/-! ### Documents -/

section Documents
variable {st : Style}

/-- The style does not break the line. -/
def Style.Flat (st : Style) : Prop :=
  st.itemPad.all printable = true ∧ st.keyPad.all printable = true

theorem flat_spaced : Style.spaced.Flat := ⟨rfl, rfl⟩

mutual

theorem printable_render (h : st.Flat) : ∀ d : Document F, (d.render st).all printable = true
  | .null => rfl
  | .bool true => rfl
  | .bool false => rfl
  | .int i => printable_intText i
  | .float x => printable_floatText x
  | .str s => printable_quote s
  | .arr [] => rfl
  | .arr (x :: xs) => by
    rw [Document.render, List.all_cons, List.all_append, printable_render h x,
      printable_renderElems h xs]
    rfl
  | .obj [] => rfl
  | .obj ((k, v) :: ms) => by
    rw [Document.render, List.all_cons, List.all_append, List.all_cons, List.all_append,
      List.all_append, printable_quote, h.2, printable_render h v, printable_renderMembers h ms]
    rfl

theorem printable_renderElems (h : st.Flat) :
    ∀ xs : List (Document F), (renderElems st xs).all printable = true
  | [] => rfl
  | x :: xs => by
    rw [renderElems, List.all_cons, List.all_append, List.all_append, h.1, printable_render h x,
      printable_renderElems h xs]
    rfl

theorem printable_renderMembers (h : st.Flat) :
    ∀ ms : List (Text × Document F), (renderMembers st ms).all printable = true
  | [] => rfl
  | (k, v) :: ms => by
    rw [renderMembers, List.all_cons, List.all_append, List.all_append, List.all_cons,
      List.all_append, List.all_append, h.1, printable_quote, h.2, printable_render h v,
      printable_renderMembers h ms]
    rfl

end

theorem newline_not_mem_render (h : st.Flat) (d : Document F) : '\n' ∉ d.render st := by
  intro hmem
  exact absurd (List.all_eq_true.mp (printable_render h d) _ hmem) (by decide)

/-- An object is written between braces. -/
theorem exists_render_obj (ms : List (Text × Document F)) :
    ∃ body, (Document.obj ms).render st = '{' :: (body ++ ['}']) := by
  have hmembers : ∀ ms : List (Text × Document F),
      ∃ body, renderMembers st ms = body ++ ['}'] := by
    intro ms
    induction ms with
    | nil => exact ⟨[], rfl⟩
    | cons m ms ih =>
      obtain ⟨body, hbody⟩ := ih
      refine ⟨',' :: (st.itemPad ++ (quote m.1 ++ ':' :: (st.keyPad ++
        (m.2.render st ++ body)))), ?_⟩
      rw [renderMembers, hbody]
      simp
  cases ms with
  | nil => exact ⟨[], rfl⟩
  | cons m ms =>
    obtain ⟨body, hbody⟩ := hmembers ms
    refine ⟨quote m.1 ++ ':' :: (st.keyPad ++ (m.2.render st ++ body)), ?_⟩
    rw [Document.render, hbody]
    simp

end Documents

end PiPlatform.Library.Json
