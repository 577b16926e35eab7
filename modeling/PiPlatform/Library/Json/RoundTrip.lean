import PiPlatform.Library.Json.Document
import Mathlib.Tactic.Common

/-! Parsing a rendered document gives the document back, joined.

`parseValue_render` says it at the front of any input: a value is taken whole and
what follows it is left, provided that what follows a number does not continue it.
An object ends with its brace, so two objects with anything behind them can be
told apart (`render_obj_append_inj`); a whole text determines the joined document
it renders (`render_eq_iff`). -/
namespace PiPlatform.Library.Json

variable {F : Type} [FloatCodec F] {cs : List Char} {p : List Char × List Char × List Char}

/-! ### Blanks and words -/

@[simp] theorem skipBlank_nil : skipBlank [] = [] := rfl

theorem skipBlank_cons {c : Char} (h : isBlank c = false) :
    skipBlank (c :: cs) = c :: cs := by
  simp [skipBlank, h]

theorem skipBlank_pad {pad cs : List Char} (h : ∀ c ∈ pad, isBlank c = true) :
    skipBlank (pad ++ cs) = skipBlank cs := by
  induction pad with
  | nil => rfl
  | cons c pad ih =>
    have hc := h c (List.mem_cons_self ..)
    simp only [List.cons_append, skipBlank, List.dropWhile_cons, hc, if_true]
    exact ih fun d hd => h d (List.mem_cons_of_mem c hd)

theorem skipBlank_length (cs : List Char) : (skipBlank cs).length ≤ cs.length :=
  (List.dropWhile_sublist _).length_le

omit [FloatCodec F] in
/-- A text that starts with a digit, or with a sign and a digit, is no word. -/
theorem words_none (h : ∃ c rest, c.isDigit = true ∧ (cs = c :: rest ∨ cs = '-' :: c :: rest)) :
    (words (F := F)).findSome? (fun w => (stripWord w.1 cs).map fun rest => (w.2, rest)) =
      none := by
  obtain ⟨c, rest, hc, hcs⟩ := h
  have hne : c ≠ 'n' ∧ c ≠ 't' ∧ c ≠ 'f' ∧ c ≠ 'N' ∧ c ≠ 'I' ∧ c ≠ '-' := by
    refine ⟨?_, ?_, ?_, ?_, ?_, ?_⟩ <;> rintro rfl <;> exact absurd hc (by decide)
  rcases hcs with rfl | rfl <;> simp [words, stripWord, hne]

theorem scanUnsigned_head
    (h : scanUnsigned cs = some p) : ∃ c rest, c.isDigit = true ∧ cs = c :: rest := by
  simp only [scanUnsigned, Option.map_eq_some_iff] at h
  obtain ⟨q, hq, -⟩ := h
  cases cs with
  | nil => cases hq
  | cons c rest =>
    refine ⟨c, rest, ?_, rfl⟩
    simp only [scanInt] at hq
    split at hq
    · next h0 => rw [h0]; decide
    · split at hq
      · assumption
      · cases hq

theorem scanNumber_head (h : scanNumber cs = some p) :
    ∃ c rest, c.isDigit = true ∧ (cs = c :: rest ∨ cs = '-' :: c :: rest) := by
  cases cs with
  | nil => cases h
  | cons d cs =>
    simp only [scanNumber] at h
    split at h
    · next hd =>
      simp only [Option.map_eq_some_iff] at h
      obtain ⟨q, hq, -⟩ := h
      obtain ⟨c, rest, hc, rfl⟩ := scanUnsigned_head hq
      exact ⟨c, rest, hc, .inr (by rw [hd])⟩
    · obtain ⟨c, rest, hc, hcs⟩ := scanUnsigned_head h
      exact ⟨c, rest, hc, .inl hcs⟩

/-- A scanned number is what the atom parser finds. -/
theorem parseAtom_number {cs m f rest : List Char} (h : scanNumber cs = some (m, f, rest)) :
    parseAtom cs = some (number (F := F) m f, rest) := by
  simp only [parseAtom, words_none (scanNumber_head h), h, Option.map_some]

/-! ### The round trip -/

/-- What may follow a document: only a number asks for anything. -/
def Document.Ends : Document F → List Char → Prop
  | .int _, rest => NumEnd rest
  | .float (.finite _), rest => NumEnd rest
  | _, _ => True

omit [FloatCodec F] in
theorem ends_of_numEnd (v : Document F) {rest : List Char} (h : NumEnd rest) : v.Ends rest := by
  cases v with
  | int i => exact h
  | float x =>
    cases x with
    | finite x => exact h
    | nan => trivial
    | infinity b => trivial
  | _ => trivial

theorem numEnd_comma (rest : List Char) : NumEnd (',' :: rest) := numEnd_cons (by decide)

theorem numEnd_bracket (rest : List Char) : NumEnd (']' :: rest) := numEnd_cons (by decide)

theorem numEnd_brace (rest : List Char) : NumEnd ('}' :: rest) := numEnd_cons (by decide)

variable (st : Style) {n : Nat} {cs rest : List Char}

theorem digit_head {c : Char} (h : c.isDigit = true) :
    isBlank c = false ∧ c ≠ ']' ∧ c ≠ '}' ∧ c ≠ '"' ∧ c ≠ '{' ∧ c ≠ '[' := by
  refine ⟨?_, ?_, ?_, ?_, ?_, ?_⟩
  · rw [← Bool.not_eq_true]
    intro hb
    simp only [isBlank, Bool.or_eq_true, beq_iff_eq] at hb
    rcases hb with ((rfl | rfl) | rfl) | rfl <;> exact absurd h (by decide)
  all_goals rintro rfl; exact absurd h (by decide)

/-- A number's first character is no blank, quote or bracket. -/
theorem number_head (h : scanNumber cs = some p) : ∃ c rest, cs = c :: rest ∧
      isBlank c = false ∧ c ≠ ']' ∧ c ≠ '}' ∧ c ≠ '"' ∧ c ≠ '{' ∧ c ≠ '[' := by
  obtain ⟨c, rest, hc, rfl | rfl⟩ := scanNumber_head h
  · exact ⟨c, rest, rfl, digit_head hc⟩
  · exact ⟨'-', c :: rest, rfl, by decide⟩

theorem scanNumber_repr (x : F) :
    ∃ m f, f ≠ [] ∧ m ++ f = FloatCodec.repr x ∧ scanNumber (FloatCodec.repr x) = some (m, f, []) :=
  scanNumber_floatLiteral (FloatCodec.repr_literal x)

/-- A rendered value begins with neither a blank nor a closing bracket. -/
theorem render_head (v : Document F) :
    ∃ c rest, v.render st = c :: rest ∧ isBlank c = false ∧ c ≠ ']' ∧ c ≠ '}' := by
  cases v with
  | null => exact ⟨_, _, rfl, by decide⟩
  | bool b => cases b <;> exact ⟨_, _, rfl, by decide⟩
  | int i =>
    obtain ⟨c, rest, h, hb, h1, h2, -⟩ := number_head (scanNumber_intText i)
    exact ⟨c, rest, h, hb, h1, h2⟩
  | float x =>
    cases x with
    | finite x =>
      obtain ⟨m, f, -, -, hs⟩ := scanNumber_repr x
      obtain ⟨c, rest, h, hb, h1, h2, -⟩ := number_head hs
      exact ⟨c, rest, h, hb, h1, h2⟩
    | nan => exact ⟨_, _, rfl, by decide⟩
    | infinity b => cases b <;> exact ⟨_, _, rfl, by decide⟩
  | str s => exact ⟨_, _, rfl, by decide⟩
  | arr xs => cases xs <;> exact ⟨_, _, rfl, by decide⟩
  | obj ms => cases ms <;> exact ⟨_, _, rfl, by decide⟩

theorem skipBlank_render (v : Document F) (rest : List Char) :
    skipBlank (v.render st ++ rest) = v.render st ++ rest := by
  obtain ⟨c, cs, h, hb, -⟩ := render_head st v
  rw [h, List.cons_append, skipBlank_cons hb]

/-- A number at the front is parsed as the number. -/
theorem parseValue_number {cs m f rest : List Char} (h : scanNumber cs = some (m, f, rest)) :
    parseValue (n + 1) cs = some (number (F := F) m f, rest) := by
  obtain ⟨c, cs', rfl, -, -, -, hq, hb, hk⟩ := number_head h
  simp only [parseValue, hq, hb, hk, if_false]
  exact parseAtom_number h

theorem parseValue_quote (s : Text) (n : Nat) (rest : List Char) :
    parseValue (F := F) (n + 1) (quote s ++ rest) = some (.str (joinSurrogates s), rest) := by
  simp only [quote, List.cons_append, List.append_assoc, List.nil_append, parseValue, if_true,
    decodeBody_escape, Option.map_some]

/-- An array whose first element does not close it. -/
theorem parseValue_arr {c : Char} (hb : isBlank c = false)
    (hc : c ≠ ']') : parseValue (F := F) (n + 1) ('[' :: c :: cs) =
      (parseElems n (c :: cs)).map fun p => (.arr p.1, p.2) := by
  have h1 : '[' ≠ '"' := by decide
  have h2 : '[' ≠ '{' := by decide
  simp only [parseValue, h1, h2, if_false, if_true, skipBlank_cons hb]
  split
  · next h => simp_all
  · rfl

theorem parseValue_obj :
    parseValue (F := F) (n + 1) ('{' :: '"' :: cs) =
      (parseMembers n ('"' :: cs)).map fun p => (.obj p.1, p.2) := by
  have h1 : '{' ≠ '"' := by decide
  simp only [parseValue, h1, if_false, if_true, skipBlank_cons (show isBlank '"' = false by decide)]
  rfl

/-! ### One element, one member at a time -/

theorem parseElems_last {x : Document F}
    (h : parseValue n cs = some (x, ']' :: rest)) : parseElems (n + 1) cs = some ([x], rest) := by
  simp only [parseElems, h, Option.bind_some, skipBlank_cons (show isBlank ']' = false by decide)]

theorem parseElems_next {x : Document F}
    (h : parseValue n cs = some (x, ',' :: rest)) : parseElems (n + 1) cs =
      (parseElems n (skipBlank rest)).map fun q => (x :: q.1, q.2) := by
  simp only [parseElems, h, Option.bind_some, skipBlank_cons (show isBlank ',' = false by decide)]

theorem parseMembers_last {v : Document F} (k : Text)
    (h : parseValue n (skipBlank cs) = some (v, '}' :: rest)) :
    parseMembers (n + 1) (quote k ++ ':' :: cs) = some ([(joinSurrogates k, v)], rest) := by
  simp only [quote, List.cons_append, List.append_assoc, List.nil_append, parseMembers,
    decodeBody_escape, Option.bind_some, skipBlank_cons (show isBlank ':' = false by decide), h,
    skipBlank_cons (show isBlank '}' = false by decide)]

theorem parseMembers_next {v : Document F} (k : Text)
    (h : parseValue n (skipBlank cs) = some (v, ',' :: rest)) :
    parseMembers (n + 1) (quote k ++ ':' :: cs) =
      (parseMembers n (skipBlank rest)).map fun q => ((joinSurrogates k, v) :: q.1, q.2) := by
  simp only [quote, List.cons_append, List.append_assoc, List.nil_append, parseMembers,
    decodeBody_escape, Option.bind_some, skipBlank_cons (show isBlank ':' = false by decide), h,
    skipBlank_cons (show isBlank ',' = false by decide)]

/-- The elements of a nonempty array as written behind its bracket. -/
def elemsText : List (Document F) → List Char
  | [] => []
  | x :: xs => x.render st ++ renderElems st xs

def membersText : List (Text × Document F) → List Char
  | [] => []
  | (k, v) :: ms => quote k ++ ':' :: (st.keyPad ++ (v.render st ++ renderMembers st ms))

theorem parseValue_atom {c : Char} (h : c ≠ '"' ∧ c ≠ '{' ∧ c ≠ '[') :
    parseValue (F := F) (n + 1) (c :: cs) = parseAtom (c :: cs) := by
  simp only [parseValue, h.1, h.2.1, h.2.2, if_false]

mutual

theorem parseValue_render : ∀ (v : Document F) (n : Nat) (rest : List Char),
    (v.render st).length ≤ n → v.Ends rest →
      parseValue n (v.render st ++ rest) = some (v.join, rest)
  | v, 0, rest, hn, _ => by
    obtain ⟨c, cs, h, -⟩ := render_head st v
    rw [h] at hn
    cases hn
  | .null, n + 1, rest, _, _ => by
    simp [Document.render, parseValue_atom, parseAtom, words, stripWord, Document.join]
  | .bool true, n + 1, rest, _, _ => by
    simp [Document.render, parseValue_atom, parseAtom, words, stripWord, Document.join]
  | .bool false, n + 1, rest, _, _ => by
    simp [Document.render, parseValue_atom, parseAtom, words, stripWord, Document.join]
  | .int i, n + 1, rest, _, he => by
    have hs := scanNumber_append he (scanNumber_intText i)
    simp only [Document.render, parseValue_number hs, number, if_true, readInt_intText,
      List.nil_append,
      Document.join]
  | .float (.finite x), n + 1, rest, _, he => by
    obtain ⟨m, f, hf, hmf, hs⟩ := scanNumber_repr x
    have hs := scanNumber_append he hs
    simp only [Document.render, floatText, parseValue_number hs, number, hf, if_false, hmf,
      FloatCodec.read_repr, List.nil_append, Document.join]
  | .float .nan, n + 1, rest, _, _ => by
    simp [Document.render, floatText, parseValue_atom, parseAtom, words, stripWord, Document.join]
  | .float (.infinity false), n + 1, rest, _, _ => by
    simp [Document.render, floatText, parseValue_atom, parseAtom, words, stripWord, Document.join]
  | .float (.infinity true), n + 1, rest, _, _ => by
    simp [Document.render, floatText, parseValue_atom, parseAtom, words, stripWord, Document.join]
  | .str s, n + 1, rest, _, _ => by
    simp only [Document.render, parseValue_quote, Document.join]
  | .arr [], n + 1, rest, _, _ => by
    simp [Document.render, parseValue, skipBlank, isBlank, Document.join, joinElems]
  | .arr (x :: xs), n + 1, rest, hn, _ => by
    have hlen : (elemsText st (x :: xs)).length ≤ n := by
      simp only [Document.render, List.length_cons] at hn
      simp only [elemsText]
      omega
    have helems := parseElems_render (x :: xs) n rest (List.cons_ne_nil x xs) hlen
    obtain ⟨c, cs, hcs, hb, hc, -⟩ := render_head st x
    simp only [Document.render, elemsText, hcs, List.cons_append] at helems ⊢
    rw [parseValue_arr hb hc, helems]
    rfl
  | .obj [], n + 1, rest, _, _ => by
    simp [Document.render, parseValue, skipBlank, isBlank, Document.join, joinMembers]
  | .obj ((k, v) :: ms), n + 1, rest, hn, _ => by
    have hlen : (membersText st ((k, v) :: ms)).length ≤ n := by
      simp only [Document.render, List.length_cons] at hn
      simp only [membersText]
      omega
    have hmem := parseMembers_render ((k, v) :: ms) n rest (List.cons_ne_nil _ ms) hlen
    simp only [Document.render, membersText, quote, List.cons_append] at hmem ⊢
    rw [parseValue_obj, hmem]
    rfl

theorem parseElems_render : ∀ (xs : List (Document F)) (n : Nat) (rest : List Char), xs ≠ [] →
    (elemsText st xs).length ≤ n →
      parseElems n (elemsText st xs ++ rest) = some (joinElems xs, rest)
  | [], _, _, h, _ => absurd rfl h
  | x :: xs, 0, rest, _, hn => by
    obtain ⟨c, cs, h, -⟩ := render_head st x
    rw [elemsText, h] at hn
    cases hn
  | [x], n + 1, rest, _, hn => by
    simp only [elemsText, renderElems, List.length_append, List.length_singleton] at hn
    have hx := parseValue_render x n (']' :: rest) (by omega)
      (ends_of_numEnd x (numEnd_bracket rest))
    have htext : elemsText st [x] ++ rest = x.render st ++ ']' :: rest := by
      simp [elemsText, renderElems]
    rw [htext, parseElems_last hx]
    rfl
  | x :: y :: ys, n + 1, rest, _, hn => by
    simp only [elemsText, renderElems, List.length_append, List.length_cons] at hn
    have hx := parseValue_render x n (',' :: (st.itemPad ++ (elemsText st (y :: ys) ++ rest)))
      (by omega) (ends_of_numEnd x (numEnd_comma _))
    have hys := parseElems_render (y :: ys) n rest (List.cons_ne_nil y ys)
      (by simp only [elemsText, List.length_append]; omega)
    have hskip : skipBlank (elemsText st (y :: ys) ++ rest) = elemsText st (y :: ys) ++ rest := by
      rw [elemsText, List.append_assoc, skipBlank_render]
    have htext : elemsText st (x :: y :: ys) ++ rest =
        x.render st ++ ',' :: (st.itemPad ++ (elemsText st (y :: ys) ++ rest)) := by
      simp [elemsText, renderElems]
    rw [htext, parseElems_next hx, skipBlank_pad st.item_blank, hskip, hys]
    rfl

theorem parseMembers_render : ∀ (ms : List (Text × Document F)) (n : Nat) (rest : List Char),
    ms ≠ [] → (membersText st ms).length ≤ n →
      parseMembers n (membersText st ms ++ rest) = some (joinMembers ms, rest)
  | [], _, _, h, _ => absurd rfl h
  | (k, v) :: ms, 0, rest, _, hn => by
    simp only [membersText, quote, List.cons_append] at hn
    cases hn
  | [(k, v)], n + 1, rest, _, hn => by
    simp only [membersText, renderMembers, List.length_append, List.length_cons,
      List.length_nil] at hn
    have hv := parseValue_render v n ('}' :: rest) (by omega) (ends_of_numEnd v (numEnd_brace rest))
    have htext : membersText st [(k, v)] ++ rest =
        quote k ++ ':' :: (st.keyPad ++ (v.render st ++ '}' :: rest)) := by
      simp [membersText, renderMembers]
    have hvalue : parseValue n (skipBlank (st.keyPad ++ (v.render st ++ '}' :: rest))) =
        some (v.join, '}' :: rest) := by
      rw [skipBlank_pad st.key_blank, skipBlank_render, hv]
    rw [htext, parseMembers_last k hvalue]
    rfl
  | (k, v) :: (k', v') :: ms, n + 1, rest, _, hn => by
    simp only [membersText, renderMembers, List.length_append, List.length_cons] at hn
    have hv := parseValue_render v n
      (',' :: (st.itemPad ++ (membersText st ((k', v') :: ms) ++ rest))) (by omega)
      (ends_of_numEnd v (numEnd_comma _))
    have hms := parseMembers_render ((k', v') :: ms) n rest (List.cons_ne_nil _ ms)
      (by simp only [membersText, List.length_append, List.length_cons]; omega)
    have hskip : skipBlank (membersText st ((k', v') :: ms) ++ rest) =
        membersText st ((k', v') :: ms) ++ rest := by
      simp only [membersText, quote, List.cons_append]
      exact skipBlank_cons (by decide)
    have htext : membersText st ((k, v) :: (k', v') :: ms) ++ rest = quote k ++ ':' ::
        (st.keyPad ++ (v.render st ++
          ',' :: (st.itemPad ++ (membersText st ((k', v') :: ms) ++ rest)))) := by
      simp [membersText, renderMembers]
    have hvalue : parseValue n (skipBlank (st.keyPad ++ (v.render st ++
        ',' :: (st.itemPad ++ (membersText st ((k', v') :: ms) ++ rest))))) =
        some (v.join, ',' :: (st.itemPad ++ (membersText st ((k', v') :: ms) ++ rest))) := by
      rw [skipBlank_pad st.key_blank, skipBlank_render, hv]
    rw [htext, parseMembers_next k hvalue, skipBlank_pad st.item_blank, hskip, hms]
    rfl

end

/-! ### What a text determines -/

/-- A whole rendered document parses to itself, joined. -/
theorem parse_render (v : Document F) : parse (v.render st) = some v.join := by
  have h := parseValue_render st v ((v.render st).length + 1) [] (by omega)
    (ends_of_numEnd v numEnd_nil)
  have hskip := skipBlank_render st v []
  rw [List.append_nil] at h hskip
  simp [parse, hskip, h]

/-- Two objects, whatever stands behind them, are read apart. -/
theorem render_obj_append_inj {ms ms' : List (Text × Document F)} {rest rest' : List Char}
    (h : (Document.obj ms).render st ++ rest = (Document.obj ms').render st ++ rest') :
    (Document.obj ms).join = (Document.obj ms').join ∧ rest = rest' := by
  let n := ((Document.obj ms).render st).length + ((Document.obj ms').render st).length
  have hms := parseValue_render st (.obj ms) n rest (Nat.le_add_right _ _) trivial
  have hms' := parseValue_render st (.obj ms') n rest' (Nat.le_add_left _ _) trivial
  rw [h, hms'] at hms
  simp only [Option.some.injEq, Prod.mk.injEq] at hms
  exact ⟨hms.1.symm, hms.2.symm⟩

theorem join_eq_of_render_eq {v w : Document F} (h : v.render st = w.render st) :
    v.join = w.join := by
  have hv := parse_render st v
  rw [h, parse_render] at hv
  exact (Option.some.inj hv).symm

theorem quote_joinSurrogates (s : Text) : quote (joinSurrogates s) = quote s := by
  simp only [quote, escape_joinSurrogates]

mutual

/-- Joining does not change the text. -/
theorem render_join : ∀ v : Document F, v.join.render st = v.render st
  | .null | .bool _ | .int _ | .float _ => rfl
  | .str s => by simp only [Document.join, Document.render, quote_joinSurrogates]
  | .arr [] => rfl
  | .arr (x :: xs) => by
    simp only [Document.join, joinElems, Document.render, render_join x, renderElems_join xs]
  | .obj [] => rfl
  | .obj ((k, v) :: ms) => by
    simp only [Document.join, joinMembers, Document.render, quote_joinSurrogates, render_join v,
      renderMembers_join ms]

theorem renderElems_join : ∀ xs : List (Document F),
    renderElems st (joinElems xs) = renderElems st xs
  | [] => rfl
  | x :: xs => by simp only [joinElems, renderElems, render_join x, renderElems_join xs]

theorem renderMembers_join : ∀ ms : List (Text × Document F),
    renderMembers st (joinMembers ms) = renderMembers st ms
  | [] => rfl
  | (k, v) :: ms => by
    simp only [joinMembers, renderMembers, quote_joinSurrogates, render_join v,
      renderMembers_join ms]

end

/-- Two documents have one text exactly when they are the same document, joined. -/
theorem render_eq_iff {v w : Document F} : v.render st = w.render st ↔ v.join = w.join := by
  refine ⟨join_eq_of_render_eq st, fun h => ?_⟩
  rw [← render_join st v, h, render_join]

end PiPlatform.Library.Json
