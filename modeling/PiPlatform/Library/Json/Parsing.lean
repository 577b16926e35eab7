import PiPlatform.Library.Json.RoundTrip

/-! What the parser returns on any input.

Every value it returns took something off the input (`parse_progress`) and is
joined already (`parse_joined`), and whatever some fuel finds, the length of what
was taken is fuel enough to find (`parse_fuel`): `parse` never fails for want of
fuel. Each is one induction on the fuel for values, elements and members at once. -/
namespace PiPlatform.Library.Json

variable {F : Type} [FloatCodec F] {cs rest : List Char} {v : Document F}

/-! ### Atoms -/

theorem stripWord_length {w cs rest : List Char} (hw : w ≠ []) (h : stripWord w cs = some rest) :
    rest.length < cs.length := by
  simp only [stripWord] at h
  split at h
  · next ht =>
    simp only [Option.some.injEq] at h
    have hlen := congrArg List.length ht
    have hpos : 0 < w.length := List.length_pos_iff.mpr hw
    simp only [List.length_take] at hlen
    rw [← h, List.length_drop]
    omega
  · cases h

theorem scanFraction_length (cs : List Char) : (scanFraction cs).2.length ≤ cs.length := by
  cases cs with
  | nil => exact le_refl 0
  | cons c cs =>
    simp only [scanFraction]
    split
    · simp only [scanDigits]
      split
      · next ds rest h =>
        split at h
        · cases h
        · simp only [Option.some.injEq, Prod.mk.injEq] at h
          have := (List.dropWhile_sublist (l := cs) Char.isDigit).length_le
          rw [← h.2]
          simp only [List.length_cons]
          omega
      · exact le_refl _
    · exact le_refl _

theorem scanExponent_length (cs : List Char) : (scanExponent cs).2.length ≤ cs.length := by
  cases cs with
  | nil => exact le_refl 0
  | cons c cs =>
    have hsign : (scanSign cs).2.length ≤ cs.length := by
      cases cs with
      | nil => exact le_refl 0
      | cons d cs =>
        simp only [scanSign]
        split <;> simp
    simp only [scanExponent]
    split
    · simp only [scanDigits]
      split
      · next ds rest h =>
        split at h
        · cases h
        · simp only [Option.some.injEq, Prod.mk.injEq] at h
          have := (List.dropWhile_sublist (l := (scanSign cs).2) Char.isDigit).length_le
          rw [← h.2]
          simp only [List.length_cons]
          omega
      · exact le_refl _
    · exact le_refl _

theorem scanUnsigned_length {cs m f rest : List Char} (h : scanUnsigned cs = some (m, f, rest)) :
    rest.length < cs.length := by
  simp only [scanUnsigned, Option.map_eq_some_iff, Prod.mk.injEq] at h
  obtain ⟨q, hi, -, -, rfl⟩ := h
  have hint : q.2.length < cs.length := by
    cases cs with
    | nil => cases hi
    | cons c cs =>
      have := (List.dropWhile_sublist (l := cs) Char.isDigit).length_le
      simp only [scanInt] at hi
      split at hi
      · simp only [Option.some.injEq] at hi
        rw [← hi]
        simp
      · split at hi
        · simp only [Option.some.injEq] at hi
          rw [← hi]
          simp only [List.length_cons]
          omega
        · cases hi
  have hf := scanFraction_length q.2
  have he := scanExponent_length (scanFraction q.2).2
  omega

theorem scanNumber_length {cs m f rest : List Char} (h : scanNumber cs = some (m, f, rest)) :
    rest.length < cs.length := by
  cases cs with
  | nil => cases h
  | cons c cs =>
    simp only [scanNumber] at h
    split at h
    · simp only [Option.map_eq_some_iff, Prod.mk.injEq] at h
      obtain ⟨⟨m', f', r'⟩, hp, -, hrest⟩ := h
      simp only [Prod.mk.injEq] at hrest
      have hlt := scanUnsigned_length hp
      rw [← hrest.2, List.length_cons]
      omega
    · exact scanUnsigned_length h

/-- An atom takes something off the input and holds no string. -/
theorem parseAtom_spec (h : parseAtom cs = some (v, rest)) :
    rest.length < cs.length ∧ v.join = v := by
  simp only [parseAtom] at h
  split at h
  · next p hp =>
    obtain ⟨w, hw, hws⟩ := List.exists_of_findSome?_eq_some hp
    simp only [Option.map_eq_some_iff] at hws
    obtain ⟨r, hr, hp'⟩ := hws
    simp only [Option.some.injEq] at h
    rw [h, Prod.mk.injEq] at hp'
    obtain ⟨rfl, rfl⟩ := hp'
    have hne : w.1 ≠ [] ∧ w.2.join = w.2 := by
      simp only [words, List.mem_cons, List.not_mem_nil, or_false] at hw
      rcases hw with rfl | rfl | rfl | rfl | rfl | rfl <;> exact ⟨List.cons_ne_nil _ _, rfl⟩
    exact ⟨stripWord_length hne.1 hr, hne.2⟩
  · simp only [Option.map_eq_some_iff, Prod.mk.injEq] at h
    obtain ⟨⟨m, f, r⟩, hs, rfl, rfl⟩ := h
    refine ⟨scanNumber_length hs, ?_⟩
    simp only [number]
    split <;> rfl

/-! ### One level of the descent -/

/-- What a value parsed with some fuel looks like: a string, a bracketed list, or an atom. -/
theorem parseValue_cases {n : Nat} (h : parseValue (n + 1) cs = some (v, rest)) :
    (∃ cs' s, cs = '"' :: cs' ∧ decodeBody cs' = some (s, rest) ∧ v = .str s) ∨
    (∃ cs', cs = '{' :: cs' ∧ skipBlank cs' = '}' :: rest ∧ v = .obj []) ∨
    (∃ cs' ms, cs = '{' :: cs' ∧ (∀ r, skipBlank cs' ≠ '}' :: r) ∧
      parseMembers n (skipBlank cs') = some (ms, rest) ∧ v = .obj ms) ∨
    (∃ cs', cs = '[' :: cs' ∧ skipBlank cs' = ']' :: rest ∧ v = .arr []) ∨
    (∃ cs' xs, cs = '[' :: cs' ∧ (∀ r, skipBlank cs' ≠ ']' :: r) ∧
      parseElems n (skipBlank cs') = some (xs, rest) ∧ v = .arr xs) ∨
    (∃ c cs', cs = c :: cs' ∧ (c ≠ '"' ∧ c ≠ '{' ∧ c ≠ '[') ∧ parseAtom cs = some (v, rest)) := by
  cases cs with
  | nil => cases h
  | cons c cs =>
    simp only [parseValue] at h
    split at h
    · next hc =>
      subst hc
      simp only [Option.map_eq_some_iff, Prod.mk.injEq] at h
      obtain ⟨p, hp, rfl, rfl⟩ := h
      exact .inl ⟨cs, p.1, rfl, hp, rfl⟩
    · next hq =>
      split at h
      · next hc =>
        subst hc
        split at h
        · next r hr =>
          simp only [Option.some.injEq, Prod.mk.injEq] at h
          obtain ⟨rfl, rfl⟩ := h
          exact .inr (.inl ⟨cs, rfl, hr, rfl⟩)
        · next hr =>
          simp only [Option.map_eq_some_iff, Prod.mk.injEq] at h
          obtain ⟨p, hp, rfl, rfl⟩ := h
          exact .inr (.inr (.inl ⟨cs, p.1, rfl, fun r he => hr r he, hp, rfl⟩))
      · next hb =>
        split at h
        · next hc =>
          subst hc
          split at h
          · next r hr =>
            simp only [Option.some.injEq, Prod.mk.injEq] at h
            obtain ⟨rfl, rfl⟩ := h
            exact .inr (.inr (.inr (.inl ⟨cs, rfl, hr, rfl⟩)))
          · next hr =>
            simp only [Option.map_eq_some_iff, Prod.mk.injEq] at h
            obtain ⟨p, hp, rfl, rfl⟩ := h
            exact .inr (.inr (.inr (.inr (.inl ⟨cs, p.1, rfl, fun r he => hr r he, hp, rfl⟩))))
        · next hk =>
          exact .inr (.inr (.inr (.inr (.inr ⟨c, cs, rfl, ⟨hq, hb, hk⟩, h⟩))))

theorem parseElems_cases {n : Nat} {xs : List (Document F)}
    (h : parseElems (n + 1) cs = some (xs, rest)) :
    ∃ x r, parseValue n cs = some (x, r) ∧
      ((∃ r' ys, skipBlank r = ',' :: r' ∧ parseElems n (skipBlank r') = some (ys, rest) ∧
        xs = x :: ys) ∨ (skipBlank r = ']' :: rest ∧ xs = [x])) := by
  simp only [parseElems, Option.bind_eq_some_iff] at h
  obtain ⟨p, hp, h⟩ := h
  refine ⟨p.1, p.2, hp, ?_⟩
  split at h
  · next r' hr =>
    simp only [Option.map_eq_some_iff, Prod.mk.injEq] at h
    obtain ⟨q, hq, rfl, rfl⟩ := h
    exact .inl ⟨r', q.1, hr, hq, rfl⟩
  · next r' hr =>
    simp only [Option.some.injEq, Prod.mk.injEq] at h
    obtain ⟨rfl, rfl⟩ := h
    exact .inr ⟨hr, rfl⟩
  · cases h

theorem parseMembers_cases {n : Nat} {ms : List (Text × Document F)}
    (h : parseMembers (n + 1) cs = some (ms, rest)) :
    ∃ cs' k r₁ r₂ v r, cs = '"' :: cs' ∧ decodeBody cs' = some (k, r₁) ∧
      skipBlank r₁ = ':' :: r₂ ∧ parseValue n (skipBlank r₂) = some (v, r) ∧
      ((∃ r' ns, skipBlank r = ',' :: r' ∧ parseMembers n (skipBlank r') = some (ns, rest) ∧
        ms = (k, v) :: ns) ∨ (skipBlank r = '}' :: rest ∧ ms = [(k, v)])) := by
  unfold parseMembers at h
  split at h
  · next hn => cases hn
  · next n' cs' hn =>
    simp only [Nat.succ_eq_add_one, Nat.add_right_cancel_iff] at hn
    subst hn
    simp only [Option.bind_eq_some_iff] at h
    obtain ⟨k, hk, h⟩ := h
    split at h
    · next r₂ hr₂ =>
      simp only [Option.bind_eq_some_iff] at h
      obtain ⟨p, hp, h⟩ := h
      refine ⟨cs', k.1, k.2, r₂, p.1, p.2, rfl, hk, hr₂, hp, ?_⟩
      split at h
      · next r' hr =>
        simp only [Option.map_eq_some_iff, Prod.mk.injEq] at h
        obtain ⟨q, hq, rfl, rfl⟩ := h
        exact .inl ⟨r', q.1, hr, hq, rfl⟩
      · next r' hr =>
        simp only [Option.some.injEq, Prod.mk.injEq] at h
        obtain ⟨rfl, rfl⟩ := h
        exact .inr ⟨hr, rfl⟩
      · cases h
    · cases h
  · cases h

theorem length_of_skipBlank {c : Char} (h : skipBlank cs = c :: rest) :
    rest.length < cs.length := by
  have hle := skipBlank_length cs
  rw [h, List.length_cons] at hle
  omega

/-! ### Progress, joining, fuel -/

theorem parse_progress (n : Nat) :
    (∀ (cs : List Char) (v : Document F) rest, parseValue n cs = some (v, rest) →
      rest.length < cs.length) ∧
    (∀ (cs : List Char) (xs : List (Document F)) rest, parseElems n cs = some (xs, rest) →
      rest.length < cs.length) ∧
    (∀ (cs : List Char) (ms : List (Text × Document F)) rest, parseMembers n cs = some (ms, rest) →
      rest.length < cs.length) := by
  induction n with
  | zero =>
    refine ⟨fun cs v rest h => ?_, fun cs xs rest h => ?_, fun cs ms rest h => ?_⟩
    · simp [parseValue] at h
    · simp [parseElems] at h
    · simp [parseMembers] at h
  | succ n ih =>
    obtain ⟨ihv, ihe, ihm⟩ := ih
    refine ⟨fun cs v rest h => ?_, fun cs xs rest h => ?_, fun cs ms rest h => ?_⟩
    · rcases parseValue_cases h with ⟨cs', s, rfl, hd, -⟩ | ⟨cs', rfl, hs, -⟩ |
        ⟨cs', ms, rfl, -, hm, -⟩ | ⟨cs', rfl, hs, -⟩ | ⟨cs', xs, rfl, -, he, -⟩ |
        ⟨c, cs', rfl, -, ha⟩
      · have := decodeBody_length hd
        simp only [List.length_cons]
        omega
      · have := length_of_skipBlank hs
        simp only [List.length_cons]
        omega
      · have := ihm _ _ _ hm
        have := skipBlank_length cs'
        simp only [List.length_cons]
        omega
      · have := length_of_skipBlank hs
        simp only [List.length_cons]
        omega
      · have := ihe _ _ _ he
        have := skipBlank_length cs'
        simp only [List.length_cons]
        omega
      · exact (parseAtom_spec ha).1
    · obtain ⟨x, r, hx, ⟨r', ys, hr, hys, -⟩ | ⟨hr, -⟩⟩ := parseElems_cases h
      · have := ihv _ _ _ hx
        have := length_of_skipBlank hr
        have := skipBlank_length r'
        have := ihe _ _ _ hys
        omega
      · have := ihv _ _ _ hx
        have := length_of_skipBlank hr
        omega
    · obtain ⟨cs', k, r₁, r₂, v, r, rfl, hk, hr₁, hv, ⟨r', ns, hr, hns, -⟩ | ⟨hr, -⟩⟩ :=
        parseMembers_cases h
      · have := decodeBody_length hk
        have := length_of_skipBlank hr₁
        have := skipBlank_length r₂
        have := ihv _ _ _ hv
        have := length_of_skipBlank hr
        have := skipBlank_length r'
        have := ihm _ _ _ hns
        simp only [List.length_cons]
        omega
      · have := decodeBody_length hk
        have := length_of_skipBlank hr₁
        have := skipBlank_length r₂
        have := ihv _ _ _ hv
        have := length_of_skipBlank hr
        simp only [List.length_cons]
        omega

theorem parse_joined (n : Nat) :
    (∀ (cs : List Char) (v : Document F) rest, parseValue n cs = some (v, rest) → v.join = v) ∧
    (∀ (cs : List Char) (xs : List (Document F)) rest, parseElems n cs = some (xs, rest) →
      joinElems xs = xs) ∧
    (∀ (cs : List Char) (ms : List (Text × Document F)) rest, parseMembers n cs = some (ms, rest) →
      joinMembers ms = ms) := by
  induction n with
  | zero =>
    refine ⟨fun cs v rest h => ?_, fun cs xs rest h => ?_, fun cs ms rest h => ?_⟩
    · simp [parseValue] at h
    · simp [parseElems] at h
    · simp [parseMembers] at h
  | succ n ih =>
    obtain ⟨ihv, ihe, ihm⟩ := ih
    refine ⟨fun cs v rest h => ?_, fun cs xs rest h => ?_, fun cs ms rest h => ?_⟩
    · rcases parseValue_cases h with ⟨cs', s, -, hd, rfl⟩ | ⟨cs', -, -, rfl⟩ |
        ⟨cs', ms, -, -, hm, rfl⟩ | ⟨cs', -, -, rfl⟩ | ⟨cs', xs, -, -, he, rfl⟩ | ⟨c, cs', -, -, ha⟩
      · rw [Document.join, decodeBody_joined hd]
      · rfl
      · rw [Document.join, ihm _ _ _ hm]
      · rfl
      · rw [Document.join, ihe _ _ _ he]
      · exact (parseAtom_spec ha).2
    · obtain ⟨x, r, hx, ⟨r', ys, -, hys, rfl⟩ | ⟨-, rfl⟩⟩ := parseElems_cases h
      · rw [joinElems, ihv _ _ _ hx, ihe _ _ _ hys]
      · rw [joinElems, ihv _ _ _ hx]
        rfl
    · obtain ⟨cs', k, r₁, r₂, v, r, -, hk, -, hv, ⟨r', ns, -, hns, rfl⟩ | ⟨-, rfl⟩⟩ :=
        parseMembers_cases h
      · rw [joinMembers, decodeBody_joined hk, ihv _ _ _ hv, ihm _ _ _ hns]
      · rw [joinMembers, decodeBody_joined hk, ihv _ _ _ hv]
        rfl

/-- Fuel for what was taken is fuel enough: every bracket a value opens it closes,
and each pays for one level of the descent. -/
theorem parse_fuel (m : Nat) :
    (∀ (n : Nat) (cs : List Char) (v : Document F) rest, parseValue m cs = some (v, rest) →
      cs.length ≤ n + rest.length → parseValue n cs = some (v, rest)) ∧
    (∀ (n : Nat) (cs : List Char) (xs : List (Document F)) rest, parseElems m cs = some (xs, rest) →
      cs.length ≤ n + rest.length → parseElems n cs = some (xs, rest)) ∧
    (∀ (n : Nat) (cs : List Char) (ms : List (Text × Document F)) rest,
      parseMembers m cs = some (ms, rest) →
      cs.length ≤ n + rest.length → parseMembers n cs = some (ms, rest)) := by
  induction m with
  | zero =>
    refine ⟨fun n cs v rest h => ?_, fun n cs xs rest h => ?_, fun n cs ms rest h => ?_⟩
    · simp [parseValue] at h
    · simp [parseElems] at h
    · simp [parseMembers] at h
  | succ m ih =>
    obtain ⟨ihv, ihe, ihm⟩ := ih
    refine ⟨fun n cs v rest h hn => ?_, fun n cs xs rest h hn => ?_, fun n cs ms rest h hn => ?_⟩
    · have hprog := (parse_progress (m + 1)).1 _ _ _ h
      obtain ⟨n, rfl⟩ : ∃ k, n = k + 1 := ⟨n - 1, by omega⟩
      rcases parseValue_cases h with ⟨cs', s, rfl, hd, rfl⟩ | ⟨cs', rfl, hs, rfl⟩ |
        ⟨cs', ms, rfl, hne, hm, rfl⟩ | ⟨cs', rfl, hs, rfl⟩ | ⟨cs', xs, rfl, hne, he, rfl⟩ |
        ⟨c, cs', rfl, hc, ha⟩
      · simp [parseValue, hd]
      · simp [parseValue, hs]
      · have hlen := skipBlank_length cs'
        simp only [List.length_cons] at hn
        have hm' := ihm n _ _ _ hm (by omega)
        simp only [parseValue, show ('{' = '"') = False by decide, if_false, if_true, hm',
          Option.map_some]
      · simp [parseValue, hs]
      · have hlen := skipBlank_length cs'
        simp only [List.length_cons] at hn
        have he' := ihe n _ _ _ he (by omega)
        simp only [parseValue, show ('[' = '"') = False by decide,
          show ('[' = '{') = False by decide, if_false, if_true, he', Option.map_some]
      · rw [parseValue_atom hc, ha]
    · have hprog := (parse_progress (m + 1)).2.1 _ _ _ h
      obtain ⟨n, rfl⟩ : ∃ k, n = k + 1 := ⟨n - 1, by omega⟩
      obtain ⟨x, r, hx, ⟨r', ys, hr, hys, rfl⟩ | ⟨hr, rfl⟩⟩ := parseElems_cases h
      · have hxr := (parse_progress m).1 _ _ _ hx
        have hrr := length_of_skipBlank hr
        have hskip := skipBlank_length r'
        have hyr := (parse_progress m).2.1 _ _ _ hys
        have hx' := ihv n _ _ _ hx (by omega)
        have hys' := ihe n _ _ _ hys (by omega)
        simp only [parseElems, hx', Option.bind_some, hr, hys', Option.map_some]
      · have hxr := (parse_progress m).1 _ _ _ hx
        have hrr := length_of_skipBlank hr
        have hx' := ihv n _ _ _ hx (by omega)
        simp only [parseElems, hx', Option.bind_some, hr]
    · have hprog := (parse_progress (m + 1)).2.2 _ _ _ h
      obtain ⟨n, rfl⟩ : ∃ k, n = k + 1 := ⟨n - 1, by omega⟩
      obtain ⟨cs', k, r₁, r₂, v, r, rfl, hk, hr₁, hv, hend⟩ := parseMembers_cases h
      have hkr := decodeBody_length hk
      have hr₁r := length_of_skipBlank hr₁
      have hskip₂ := skipBlank_length r₂
      have hvr := (parse_progress m).1 _ _ _ hv
      simp only [List.length_cons] at hn
      rcases hend with ⟨r', ns, hr, hns, rfl⟩ | ⟨hr, rfl⟩
      · have hrr := length_of_skipBlank hr
        have hskip := skipBlank_length r'
        have hnr := (parse_progress m).2.2 _ _ _ hns
        have hv' := ihv n _ _ _ hv (by omega)
        have hns' := ihm n _ _ _ hns (by omega)
        simp only [parseMembers, hk, Option.bind_some, hr₁, hv', hr, hns', Option.map_some]
      · have hrr := length_of_skipBlank hr
        have hv' := ihv n _ _ _ hv (by omega)
        simp only [parseMembers, hk, Option.bind_some, hr₁, hv', hr]

/-- A parsed document is joined. -/
theorem join_of_parse {cs : List Char} (h : parse cs = some v) : v.join = v := by
  simp only [parse, Option.bind_eq_some_iff] at h
  obtain ⟨p, hp, h⟩ := h
  split at h
  · simp only [Option.some.injEq] at h
    rw [← h]
    exact (parse_joined _).1 _ _ _ hp
  · cases h

/-- Whatever fuel finds a whole document, `parse` finds it. -/
theorem parse_complete {m : Nat}
    (h : parseValue m (skipBlank cs) = some (v, rest)) (hr : skipBlank rest = []) :
    parse cs = some v := by
  have hlen := skipBlank_length cs
  have hv := (parse_fuel m).1 (cs.length + 1) _ _ _ h (by omega)
  simp [parse, hv, hr]

end PiPlatform.Library.Json
