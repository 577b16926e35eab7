import PiPlatform.AgentChain.Models
import PiPlatform.Library.Python.Substitution
import PiPlatform.Library.Separated

/-! Credentials in message bodies.

A long body is cut and not redacted. In the others quoted names with quoted values are redacted
first, then the pairs of a form whose name stands behind `?` or `&`, which the first one does not
(`sanitized_iff`). -/
namespace PiPlatform.AgentChain.Ingress.Redaction

open Library Library.Python Library.Json

def credentialKeys : List Text :=
  [ofString "password", ofString "token", ofString "secret", ofString "key",
    ofString "authorization"]

def ampersand : CodePoint := 38

def equals : CodePoint := 61

def question : CodePoint := 63

def colon : CodePoint := 58

def blank : CodePoint := 32

def isQuote (c : CodePoint) : Bool := c = 34 || c = 39

def mark : Text := ofString "***REDACTED***"

/-- `(password|token|secret|key|authorization)` and what must follow. -/
def keyword {α : Type} (s : Text) (follow : Text → Text → Option α) : Option α :=
  credentialKeys.findSome? fun key =>
    if sameLetters (s.take key.length) key then follow (s.take key.length) (s.drop key.length)
    else none

/-- `([\"'])(password|…)\1\s*[:=]\s*([\"'])[^\"']+\3` -/
def quotedPair : Pattern := fun _ s =>
  match s with
  | [] => none
  | quote :: named =>
    if isQuote quote then
      keyword named fun key behind =>
        match behind with
        | [] => none
        | close :: spaced =>
          match spaced.dropWhile isSpace with
          | [] => none
          | separator :: spaced' =>
            match spaced'.dropWhile isSpace with
            | [] => none
            | opening :: valued =>
              match valued.dropWhile fun c => !isQuote c with
              | [] => none
              | closing :: rest =>
                if close = quote ∧ (separator = colon ∨ separator = equals) ∧ isQuote opening ∧
                    (valued.takeWhile fun c => !isQuote c) ≠ [] ∧ closing = opening then
                  some ([quote] ++ key ++ [quote, colon, blank, opening] ++ mark ++ [opening],
                    s.length - rest.length)
                else none
    else none

/-- `(?<=[?&])(password|…)=([^&\s]+)` -/
def formPair : Pattern := fun prev s =>
  if prev = some question ∨ prev = some ampersand then
    keyword s fun key behind =>
      match behind with
      | [] => none
      | separator :: valued =>
        let value := valued.takeWhile fun c => c ≠ ampersand && !isSpace c
        if separator = equals ∧ value ≠ [] then
          some (key ++ equals :: mark, key.length + 1 + value.length)
        else none
  else none

def sanitizeBody (maxBodySize : Int) : Option Text → Option Text
  | none => none
  | some body =>
    if maxBodySize < body.length then
      some (upToBound maxBodySize body ++ ofString "\n[TRUNCATED]")
    else some (substitute formPair (substitute quotedPair body))

/-! ### Forms -/

/-- A key of the list of credentials, in any case. -/
def Credential (key : Text) : Prop := key.map foldCase ∈ credentialKeys

def renderPair (pair : Text × Text) : Text := pair.1 ++ equals :: pair.2

def renderForm (pairs : List (Text × Text)) : Text :=
  [ampersand].intercalate (pairs.map renderPair)

/-- No separator and no whitespace. -/
def Plain (s : Text) : Prop := ∀ c ∈ s, c ≠ ampersand ∧ c ≠ equals ∧ isSpace c = false

instance (key : Text) : Decidable (Credential key) :=
  inferInstanceAs (Decidable (_ ∈ credentialKeys))

def redactPair (pair : Text × Text) : Text × Text :=
  (pair.1, if Credential pair.1 then mark else pair.2)

/-- No credential is shown, and the rest is as it was unless the body was cut. -/
structure Sanitized (maxBodySize : Int) (pairs : List (Text × Text)) (shown : Text) : Prop where
  redacted : ∀ key value, equals ∉ key → Credential key →
    key ++ equals :: value ∈ (shown.takeWhile fun c => !isSpace c).splitOn ampersand → value = mark
  unchanged : (renderForm pairs).length ≤ maxBodySize →
    shown = renderForm (pairs.map redactPair)

/-! ### Patterns -/

section Patterns
variable {s key behind value rest : Text} {c : CodePoint} {prev : Option CodePoint} {α : Type}
  {follow : Text → Text → Option α} {tail : Text}

/-- Names of credentials are of letters. -/
theorem letter_of_credential (h : Credential key) (hc : c ∈ key) :
    97 ≤ (foldCase c).val ∧ (foldCase c).val ≤ 122 := by
  have hletters : (credentialKeys.flatten.all fun d => 97 ≤ d.val ∧ d.val ≤ 122) = true := by decide
  have hmem : foldCase c ∈ credentialKeys.flatten :=
    List.mem_flatten.mpr ⟨_, h, List.mem_map_of_mem hc⟩
  simpa using List.all_eq_true.mp hletters _ hmem

/-- Signs and spaces are nowhere in them. -/
theorem not_mem_of_credential (h : Credential key) (hc : c.val < 65 ∨ isSpace c = true) :
    c ∉ key := by
  intro hmem
  have hletter := letter_of_credential h hmem
  have hrange : c.val < 65 ∨ 122 < c.val ∧ c.val ≠ 0x130 ∧ c.val ≠ 0x131 ∧ c.val ≠ 0x17F ∧
      c.val ≠ 0x212A := by
    simp only [isSpace, Bool.or_eq_true, Bool.and_eq_true, decide_eq_true_eq] at hc
    omega
  have hsame : foldCase c = c := by
    rw [foldCase, if_neg (by omega), if_neg (by omega), if_neg (by omega), if_neg (by omega)]
  rw [hsame] at hletter
  omega

theorem exists_of_keyword {a : α} (h : keyword s follow = some a) :
    ∃ key behind, s = key ++ behind ∧ Credential key ∧ follow key behind = some a := by
  obtain ⟨key, hkey, hsome⟩ := List.exists_of_findSome?_eq_some h
  split at hsome
  · rename_i hsame
    refine ⟨_, _, (List.take_append_drop ..).symm, ?_, hsome⟩
    rw [Credential, of_decide_eq_true hsame]
    exact hkey
  · cases hsome

theorem keyword_eq_none (h : ∀ key behind, s = key ++ behind → Credential key →
    follow key behind = none) : keyword s follow = none := by
  cases hkeyword : keyword s follow with
  | none => rfl
  | some a =>
    obtain ⟨key, behind, hs, hkey, hfollow⟩ := exists_of_keyword hkeyword
    rw [h key behind hs hkey] at hfollow
    cases hfollow

/-- No name is the beginning of another. -/
theorem keyword_append (h : Credential key) :
    keyword (key ++ behind) follow = follow key behind := by
  have hdistinct : ∀ a ∈ credentialKeys, ∀ b ∈ credentialKeys, a <+: b → a = b := by decide
  have hother : ∀ name ∈ credentialKeys, sameLetters ((key ++ behind).take name.length) name →
      name = key.map foldCase := by
    intro name hname hsame
    have htake : ((key ++ behind).map foldCase).take name.length = name := by
      rw [← List.map_take]
      exact of_decide_eq_true hsame
    have h₁ : name <+: (key ++ behind).map foldCase := htake ▸ List.take_prefix _ _
    have h₂ : key.map foldCase <+: (key ++ behind).map foldCase := by
      rw [List.map_append]
      exact List.prefix_append _ _
    rcases List.prefix_or_prefix_of_prefix h₁ h₂ with hle | hle
    · exact hdistinct name hname _ h hle
    · exact (hdistinct _ h name hname hle).symm
  rw [keyword, findSome?_eq_of_unique h fun name hname hne => ?_]
  · have hself : sameLetters ((key ++ behind).take (key.map foldCase).length)
        (key.map foldCase) := by
      rw [List.length_map, List.take_left]
      exact decide_eq_true rfl
    rw [if_pos hself, List.length_map, List.take_left, List.drop_left]
  · exact if_neg fun hsame => hne (hother name hname hsame)

/-- A form's pair is found only where a name and an equals sign stand. -/
theorem formPair_eq_none (h : ∀ key behind, s = key ++ equals :: behind → ¬ Credential key) :
    formPair prev s = none := by
  rw [formPair]
  split_ifs
  · refine keyword_eq_none fun key behind hs hkey => ?_
    cases behind with
    | nil => rfl
    | cons separator valued =>
      refine if_neg fun hfound => ?_
      rw [hfound.1] at hs
      exact h key valued hs hkey
  · rfl

theorem formPair_eq_none_of_sign (hc : c.val < 65) : formPair prev (c :: s) = none := by
  refine formPair_eq_none fun key behind hs hkey => ?_
  cases key with
  | nil => exact absurd hkey (by decide)
  | cons d key =>
    obtain ⟨rfl, -⟩ := List.cons.inj hs
    exact not_mem_of_credential hkey (.inl hc) (List.mem_cons_self ..)

/-- The text is over, or another pair comes. -/
def Stops (tail : Text) : Prop := tail = [] ∨ ∃ rest, tail = ampersand :: rest

theorem substitute_stops (h : Stops tail) (prev : Option CodePoint) :
    substituteFrom formPair prev 0 tail = substituteFrom formPair none 0 tail := by
  rcases h with rfl | ⟨rest, rfl⟩
  · rfl
  · rw [substituteFrom_none (formPair_eq_none_of_sign (by decide)),
      substituteFrom_none (formPair_eq_none_of_sign (by decide))]

/-- A value is not looked into. -/
theorem substitute_value (hvalue : Plain value) (htail : Stops tail) :
    substituteFrom formPair prev 0 (value ++ tail) =
      value ++ substituteFrom formPair none 0 tail := by
  induction value generalizing prev with
  | nil => exact substitute_stops htail prev
  | cons c value ih =>
    have hnone : formPair prev (c :: (value ++ tail)) = none := by
      refine formPair_eq_none fun key behind hs hkey => ?_
      have hequals : equals ∉ c :: value := fun hmem => (hvalue equals hmem).2.1 rfl
      rcases htail with rfl | ⟨rest, rfl⟩
      · rw [List.append_nil] at hs
        exact hequals (hs ▸ List.mem_append_right _ (List.mem_cons_self ..))
      · rw [← List.cons_append] at hs
        rcases List.append_eq_append_iff.mp hs with ⟨more, hkey', hmore⟩ | ⟨more, hvalue', hmore⟩
        · cases more with
          | nil => exact absurd (List.cons.inj hmore).1 (by decide)
          | cons d more =>
            obtain ⟨rfl, -⟩ := List.cons.inj hmore
            refine not_mem_of_credential (c := ampersand) hkey (.inl (by decide)) ?_
            rw [hkey']
            exact List.mem_append_right _ (List.mem_cons_self ..)
        · cases more with
          | nil => exact absurd (List.cons.inj hmore).1 (by decide)
          | cons d more =>
            obtain ⟨rfl, -⟩ := List.cons.inj hmore
            refine hequals ?_
            rw [hvalue']
            exact List.mem_append_right _ (List.mem_cons_self ..)
    rw [List.cons_append, substituteFrom_none hnone,
      ih fun d hd => hvalue d (List.mem_cons_of_mem c hd), List.cons_append]

/-- Behind `?` or `&`. -/
def anchored (prev : Option CodePoint) : Bool := prev = some question || prev = some ampersand

/-- A credential's name ends here, from an anchored place on. -/
def found (prev : Option CodePoint) : Text → Bool
  | [] => false
  | c :: key => (anchored prev && decide (Credential (c :: key))) || found (some c) key

/-- The value a form's pair is given. -/
def shownValue (prev : Option CodePoint) (pair : Text × Text) : Text :=
  if found prev pair.1 ∧ pair.2 ≠ [] then mark else pair.2

theorem takeWhile_value (hvalue : Plain value) (htail : Stops tail) :
    (value ++ tail).takeWhile (fun c => c ≠ ampersand && !isSpace c) = value := by
  have hall : ∀ c ∈ value, (decide (c ≠ ampersand) && !isSpace c) = true := by
    intro c hc
    obtain ⟨hne, -, hspace⟩ := hvalue c hc
    rw [decide_eq_true hne, hspace]
    rfl
  rw [List.takeWhile_append_of_pos hall]
  rcases htail with rfl | ⟨rest, rfl⟩
  · exact List.append_nil _
  · rw [List.takeWhile_cons_of_neg (by simp), List.append_nil]

theorem substitute_pair (hkey : Plain key) (hvalue : Plain value) (htail : Stops tail) :
    substituteFrom formPair prev 0 (key ++ equals :: (value ++ tail)) =
      key ++ equals :: (shownValue prev (key, value) ++ substituteFrom formPair none 0 tail) := by
  induction key generalizing prev with
  | nil =>
    rw [List.nil_append, substituteFrom_none (formPair_eq_none_of_sign (by decide)),
      substitute_value hvalue htail]
    rfl
  | cons c key ih =>
    have hrest : Plain key := fun d hd => hkey d (List.mem_cons_of_mem c hd)
    by_cases hmatch : anchored prev = true ∧ Credential (c :: key) ∧ value ≠ []
    · obtain ⟨hanchor, hcredential, hne⟩ := hmatch
      have hsome : formPair prev (c :: (key ++ equals :: value) ++ tail) =
          some (c :: key ++ equals :: mark, (key ++ equals :: value).length + 1) := by
        have hanchor' : prev = some question ∨ prev = some ampersand := by
          simpa [anchored] using hanchor
        rw [formPair, if_pos hanchor', ← List.cons_append, List.append_assoc,
          keyword_append hcredential, List.cons_append]
        dsimp only
        rw [takeWhile_value hvalue htail, if_pos ⟨rfl, hne⟩]
        simp only [List.length_cons, List.length_append, List.cons_append]
        exact congrArg (fun n => some (_, n)) (by omega)
      have hfound : shownValue prev (c :: key, value) = mark := by
        refine if_pos ⟨?_, hne⟩
        rw [found, hanchor, decide_eq_true hcredential]
        rfl
      have hassoc : c :: key ++ equals :: (value ++ tail) =
          c :: (key ++ equals :: value) ++ tail := by
        simp
      rw [hassoc, substituteFrom_some hsome, substitute_stops htail, hfound]
      simp
    · have hnone : formPair prev (c :: (key ++ equals :: (value ++ tail))) = none := by
        by_cases hanchor : anchored prev = true
        · by_cases hcredential : Credential (c :: key)
          · have hempty : value = [] := by
              by_contra hne
              exact hmatch ⟨hanchor, hcredential, hne⟩
            have hanchor' : prev = some question ∨ prev = some ampersand := by
              simpa [anchored] using hanchor
            rw [formPair, if_pos hanchor', ← List.cons_append, keyword_append hcredential]
            dsimp only
            rw [takeWhile_value hvalue htail, if_neg fun h => h.2 hempty]
          · refine formPair_eq_none fun name behind hs hname => hcredential ?_
            rw [← List.cons_append] at hs
            have hsame := append_separator_inj (fun hmem => (hkey equals hmem).2.1 rfl)
              (not_mem_of_credential hname (.inl (by decide))) hs
            rwa [hsame.1]
        · rw [formPair, if_neg]
          simpa [anchored] using hanchor
      have hshown : shownValue prev (c :: key, value) = shownValue (some c) (key, value) := by
        have hiff : (found prev (c :: key) = true ∧ value ≠ []) ↔
            (found (some c) key = true ∧ value ≠ []) := by
          refine and_congr_left fun hne => ?_
          rw [found, Bool.or_eq_true, Bool.and_eq_true, decide_eq_true_eq]
          exact or_iff_right fun h => hmatch ⟨h.1, h.2, hne⟩
        exact if_congr hiff rfl rfl
      rw [List.cons_append, substituteFrom_none hnone, ih hrest, hshown, List.cons_append]

end Patterns

/-! ### Whole forms -/

section Forms
variable {pair : Text × Text} {pairs : List (Text × Text)} {prev : Option CodePoint} {c : CodePoint}

def PlainPairs (pairs : List (Text × Text)) : Prop := ∀ pair ∈ pairs, Plain pair.1 ∧ Plain pair.2

/-- The first pair has nothing before it, the others have `&`. -/
def shownPairs (prev : Option CodePoint) : List (Text × Text) → List (Text × Text)
  | [] => []
  | pair :: pairs =>
    (pair.1, shownValue prev pair) ::
      pairs.map fun pair => (pair.1, shownValue (some ampersand) pair)

theorem renderForm_cons (h : pairs ≠ []) :
    renderForm (pair :: pairs) = pair.1 ++ equals :: (pair.2 ++ ampersand :: renderForm pairs) := by
  rw [renderForm, List.map_cons, List.intercalate_cons_of_ne_nil (by simpa using h), renderPair]
  simp [renderForm]

theorem substitute_form (h : PlainPairs pairs) :
    substituteFrom formPair prev 0 (renderForm pairs) = renderForm (shownPairs prev pairs) := by
  induction pairs generalizing prev with
  | nil => rfl
  | cons pair pairs ih =>
    obtain ⟨⟨hkey, hvalue⟩, hrest⟩ := List.forall_mem_cons.mp h
    by_cases hnil : pairs = []
    · subst hnil
      have hpair : substituteFrom formPair prev 0 (pair.1 ++ equals :: (pair.2 ++ [])) = _ :=
        substitute_pair hkey hvalue (.inl rfl)
      rw [List.append_nil] at hpair
      rw [renderForm, List.map_singleton, List.intercalate_singleton, renderPair, hpair]
      simp [shownPairs, renderForm, renderPair, substituteFrom]
    · have hsecond : shownPairs (some ampersand) pairs =
          pairs.map fun pair => (pair.1, shownValue (some ampersand) pair) := by
        cases pairs with
        | nil => exact absurd rfl hnil
        | cons _ _ => rfl
      rw [renderForm_cons hnil, substitute_pair hkey hvalue (.inr ⟨_, rfl⟩),
        substituteFrom_none (formPair_eq_none_of_sign (by decide)), ih hrest, hsecond, shownPairs,
        renderForm_cons (by simpa using hnil)]

theorem no_space_renderForm (h : PlainPairs pairs) :
    ∀ c ∈ renderForm pairs, isSpace c = false := by
  intro c hc
  induction pairs with
  | nil => exact absurd hc List.not_mem_nil
  | cons pair pairs ih =>
    obtain ⟨⟨hkey, hvalue⟩, hrest⟩ := List.forall_mem_cons.mp h
    have hpair : ∀ c ∈ renderPair pair, isSpace c = false := by
      intro c hc
      rw [renderPair, List.mem_append, List.mem_cons] at hc
      rcases hc with hc | rfl | hc
      · exact (hkey c hc).2.2
      · rfl
      · exact (hvalue c hc).2.2
    by_cases hnil : pairs = []
    · subst hnil
      rw [renderForm, List.map_singleton, List.intercalate_singleton] at hc
      exact hpair c hc
    · have hcons : renderForm (pair :: pairs) =
          renderPair pair ++ ampersand :: renderForm pairs := by
        rw [renderForm_cons hnil, renderPair]
        simp
      rw [hcons, List.mem_append, List.mem_cons] at hc
      rcases hc with hc | rfl | hc
      · exact hpair c hc
      · rfl
      · exact ih hrest hc

/-- The name and the value of a rendered pair. -/
def readPair (part : Text) : Text × Text :=
  (part.takeWhile (· ≠ equals), (part.dropWhile (· ≠ equals)).tail)

theorem readPair_renderPair (h : Plain pair.1) : readPair (renderPair pair) = pair := by
  have hkey : ∀ c ∈ pair.1, decide (c ≠ equals) = true := fun c hc => decide_eq_true (h c hc).2.1
  rw [readPair, renderPair, List.takeWhile_append_of_pos hkey, List.dropWhile_append_of_pos hkey,
    List.takeWhile_cons_of_neg (by simp), List.dropWhile_cons_of_neg (by simp), List.append_nil,
    List.tail_cons]

theorem ampersand_not_mem_renderPair (hkey : Plain pair.1) (hvalue : Plain pair.2) :
    ampersand ∉ renderPair pair := by
  rw [renderPair, List.mem_append, List.mem_cons]
  rintro (hmem | heq | hmem)
  · exact (hkey _ hmem).1 rfl
  · exact absurd heq (by decide)
  · exact (hvalue _ hmem).1 rfl

theorem splitOn_renderForm (h : PlainPairs pairs) (hne : pairs ≠ []) :
    (renderForm pairs).splitOn ampersand = pairs.map renderPair := by
  refine List.splitOn_intercalate ampersand (fun part hpart => ?_) (by simpa using hne)
  obtain ⟨pair, hpair, rfl⟩ := List.mem_map.mp hpart
  exact ampersand_not_mem_renderPair (h pair hpair).1 (h pair hpair).2

theorem renderForm_inj {pairs' : List (Text × Text)} (h : PlainPairs pairs)
    (h' : PlainPairs pairs') (hne : pairs ≠ []) (hne' : pairs' ≠ [])
    (heq : renderForm pairs = renderForm pairs') : pairs = pairs' := by
  have hparts : pairs.map renderPair = pairs'.map renderPair := by
    rw [← splitOn_renderForm h hne, heq, splitOn_renderForm h' hne']
  have hread := congrArg (List.map readPair) hparts
  rw [List.map_map, List.map_map] at hread
  have hid : ∀ {pairs : List (Text × Text)}, PlainPairs pairs →
      pairs.map (readPair ∘ renderPair) = pairs := by
    intro pairs h
    conv_rhs => rw [← List.map_id pairs]
    exact List.map_congr_left fun pair hpair => readPair_renderPair (h pair hpair).1
  rwa [hid h, hid h'] at hread

theorem plain_of_all {s : Text}
    (h : (s.all fun c => decide (c ≠ ampersand) && decide (c ≠ equals) && !isSpace c) = true) :
    Plain s := by
  intro c hc
  have hc := List.all_eq_true.mp h c hc
  rw [Bool.and_eq_true, Bool.and_eq_true, decide_eq_true_eq, decide_eq_true_eq,
    Bool.not_eq_true'] at hc
  exact ⟨hc.1.1, hc.1.2, hc.2⟩

theorem plain_mark : Plain mark := plain_of_all (by decide)

theorem plainPairs_redacted (h : PlainPairs pairs) : PlainPairs (pairs.map redactPair) := by
  intro pair hpair
  obtain ⟨pair, hmem, rfl⟩ := List.mem_map.mp hpair
  refine ⟨(h pair hmem).1, ?_⟩
  rw [redactPair]
  dsimp only
  split
  · exact plain_mark
  · exact (h pair hmem).2

theorem plain_shownValue (h : Plain pair.2) : Plain (shownValue prev pair) := by
  rw [shownValue]
  split
  · exact plain_mark
  · exact h

theorem plainPairs_shown (h : PlainPairs pairs) : PlainPairs (shownPairs prev pairs) := by
  cases pairs with
  | nil => exact h
  | cons first pairs =>
    obtain ⟨hfirst, hrest⟩ := List.forall_mem_cons.mp h
    refine List.forall_mem_cons.mpr ⟨⟨hfirst.1, plain_shownValue hfirst.2⟩, fun pair hpair => ?_⟩
    obtain ⟨pair, hmem, rfl⟩ := List.mem_map.mp hpair
    exact ⟨(hrest pair hmem).1, plain_shownValue (hrest pair hmem).2⟩

/-! ### When the right values are replaced -/

/-- The name ends with a credential's behind a question mark. -/
def QuestionCredential (key : Text) : Prop :=
  ∃ before name, key = before ++ question :: name ∧ Credential name

/-- A pair is given the value it should have: it has the mark already, or it is a credential that
is not the first pair and not empty, or it is none, not even behind a question mark. -/
def PairSafe (first : Prop) (pair : Text × Text) : Prop :=
  pair.2 = mark ∨ (Credential pair.1 ∧ ¬ first ∧ pair.2 ≠ []) ∨
    (¬ Credential pair.1 ∧ (pair.2 = [] ∨ ¬ QuestionCredential pair.1))

/-- Every pair is safe, the first as such. -/
def FormSafe (pairs : List (Text × Text)) : Prop :=
  (∀ pair ∈ pairs.head?, PairSafe True pair) ∧ ∀ pair ∈ pairs.tail, PairSafe False pair

theorem found_iff {key : Text} (hkey : Plain key) : found prev key = true ↔
    (anchored prev = true ∧ Credential key) ∨ QuestionCredential key := by
  induction key generalizing prev with
  | nil =>
    rw [found]
    simp only [Bool.false_eq_true, false_iff, not_or, not_and]
    refine ⟨fun _ => by decide, ?_⟩
    rintro ⟨before, name, hsplit, -⟩
    simp at hsplit
  | cons c key ih =>
    have hrest : Plain key := fun d hd => hkey d (List.mem_cons_of_mem c hd)
    rw [found, Bool.or_eq_true, Bool.and_eq_true, decide_eq_true_eq, ih hrest]
    refine or_congr_right ?_
    have hc : anchored (some c) = true ↔ c = question := by
      have hne := (hkey c (List.mem_cons_self ..)).1
      simp [anchored, hne]
    rw [hc]
    constructor
    · rintro (⟨rfl, hcredential⟩ | ⟨before, name, rfl, hname⟩)
      · exact ⟨[], key, rfl, hcredential⟩
      · exact ⟨c :: before, name, rfl, hname⟩
    · rintro ⟨before, name, hsplit, hname⟩
      cases before with
      | nil =>
        obtain ⟨rfl, rfl⟩ := List.cons.inj hsplit
        exact .inl ⟨rfl, hname⟩
      | cons d before =>
        obtain ⟨-, rfl⟩ := List.cons.inj hsplit
        exact .inr ⟨before, name, rfl, hname⟩

theorem not_questionCredential {key : Text} (h : Credential key) : ¬ QuestionCredential key := by
  rintro ⟨before, name, rfl, -⟩
  exact not_mem_of_credential h (c := question) (.inl (by decide))
    (List.mem_append_right _ (List.mem_cons_self ..))

theorem shownValue_iff {first : Prop} (hanchor : anchored prev = true ↔ ¬ first)
    (hkey : Plain pair.1) :
    (pair.1, shownValue prev pair) = redactPair pair ↔ PairSafe first pair := by
  rw [redactPair, Prod.mk.injEq, eq_self_iff_true, true_and, shownValue, PairSafe]
  have hfound : found prev pair.1 = true ↔ _ := found_iff hkey
  rw [hanchor] at hfound
  by_cases hcredential : Credential pair.1
  · have hnot := not_questionCredential hcredential
    have hsafe : found prev pair.1 = true ↔ ¬ first := by
      rw [hfound]
      exact ⟨fun h => (h.resolve_right hnot).1, fun h => .inl ⟨h, hcredential⟩⟩
    rw [if_pos hcredential]
    split_ifs with h
    · rw [hsafe] at h
      exact ⟨fun _ => .inr (.inl ⟨hcredential, h⟩), fun _ => rfl⟩
    · rw [hsafe] at h
      refine ⟨.inl, ?_⟩
      rintro (heq | hsecond | hnone)
      · exact heq
      · exact absurd hsecond.2 h
      · exact absurd hcredential hnone.1
  · have hsafe : found prev pair.1 = true ↔ QuestionCredential pair.1 := by
      rw [hfound]
      exact or_iff_right fun h => hcredential h.2
    rw [if_neg hcredential]
    split_ifs with h
    · rw [hsafe] at h
      refine ⟨fun heq => .inl heq.symm, ?_⟩
      rintro (heq | hsecond | ⟨-, hempty | hnot⟩)
      · exact heq.symm
      · exact absurd hsecond.1 hcredential
      · exact absurd hempty h.2
      · exact absurd h.1 hnot
    · rw [hsafe] at h
      refine ⟨fun _ => .inr (.inr ⟨hcredential, ?_⟩), fun _ => rfl⟩
      by_cases hempty : pair.2 = []
      · exact .inl hempty
      · exact .inr fun hquestion => h ⟨hquestion, hempty⟩

theorem shownPairs_iff (h : PlainPairs pairs) :
    shownPairs none pairs = pairs.map redactPair ↔ FormSafe pairs := by
  cases pairs with
  | nil => simp [shownPairs, FormSafe]
  | cons pair pairs =>
    obtain ⟨hfirst, hrest⟩ := List.forall_mem_cons.mp h
    rw [shownPairs, List.map_cons, List.cons.injEq, List.map_inj_left, FormSafe]
    refine and_congr ?_ (forall₂_congr fun pair hpair => ?_)
    · have hvalue : (pair.1, shownValue none pair) = redactPair pair ↔ PairSafe True pair :=
        shownValue_iff (by simp [anchored]) hfirst.1
      rw [hvalue]
      simp
    · exact shownValue_iff (by simp [anchored]) (hrest pair hpair).1

/-! ### Bodies that are cut -/

/-- The places of the pairs that are still shown, up to the last one. -/
theorem mem_splitOn_take {parts : List Text} (hparts : ∀ part ∈ parts, ampersand ∉ part)
    (hne : parts ≠ []) (n : Nat) (shown : Text) :
    shown ∈ (([ampersand].intercalate parts).take n).splitOn ampersand ↔
      ∃ before part after, parts = before ++ part :: after ∧
        (before.flatMap (· ++ [ampersand])).length ≤ n ∧
        shown = part.take (n - (before.flatMap (· ++ [ampersand])).length) := by
  induction parts generalizing n with
  | nil => exact absurd rfl hne
  | cons part parts ih =>
    obtain ⟨hpart, hrest⟩ := List.forall_mem_cons.mp hparts
    have hcut : ∀ m, ampersand ∉ part.take m := fun m hmem => hpart (List.mem_of_mem_take hmem)
    have hlength : ∀ before : List Text,
        ((part :: before).flatMap (· ++ [ampersand])).length =
          part.length + 1 + (before.flatMap (· ++ [ampersand])).length := by
      intro before
      rw [List.flatMap_cons, List.length_append, List.length_append, List.length_singleton]
    by_cases hnil : parts = []
    · subst hnil
      rw [List.intercalate_singleton, List.splitOn_eq_singleton (hcut n), List.mem_singleton]
      constructor
      · rintro rfl
        exact ⟨[], part, [], rfl, Nat.zero_le _, rfl⟩
      · rintro ⟨before, part', after, hsplit, -, rfl⟩
        cases before with
        | nil =>
          obtain ⟨rfl, -⟩ := List.cons.inj hsplit
          rfl
        | cons _ before => simp at hsplit
    · have hjoin : [ampersand].intercalate (part :: parts) =
          part ++ ampersand :: [ampersand].intercalate parts := by
        rw [List.intercalate_cons_of_ne_nil hnil, List.append_assoc]
        rfl
      rw [hjoin]
      by_cases hn : n ≤ part.length
      · rw [List.take_append_of_le_length hn, List.splitOn_eq_singleton (hcut n),
          List.mem_singleton]
        constructor
        · rintro rfl
          exact ⟨[], part, parts, rfl, Nat.zero_le _, rfl⟩
        · rintro ⟨before, part', after, hsplit, hle, rfl⟩
          cases before with
          | nil =>
            obtain ⟨rfl, -⟩ := List.cons.inj hsplit
            rfl
          | cons first before =>
            obtain ⟨rfl, -⟩ := List.cons.inj hsplit
            rw [hlength] at hle
            omega
      · obtain ⟨m, rfl⟩ := Nat.exists_eq_add_of_lt (Nat.lt_of_not_le hn)
        have htake : (part ++ ampersand :: [ampersand].intercalate parts).take
            (part.length + m + 1) =
              part ++ ampersand :: ([ampersand].intercalate parts).take m := by
          rw [Nat.add_assoc, List.take_length_add_append, List.take_succ_cons]
        rw [htake, List.splitOn_append_cons_self_of_not_mem hpart, List.mem_cons, ih hrest hnil]
        constructor
        · rintro (rfl | ⟨before, part', after, rfl, hle, rfl⟩)
          · refine ⟨[], shown, parts, rfl, Nat.zero_le _, (List.take_of_length_le ?_).symm⟩
            rw [List.flatMap_nil, List.length_nil]
            omega
          · refine ⟨part :: before, part', after, rfl, ?_, ?_⟩
            · rw [hlength]
              omega
            · rw [hlength]
              exact congrArg (List.take · part') (by omega)
        · rintro ⟨before, part', after, hsplit, hle, rfl⟩
          cases before with
          | nil =>
            obtain ⟨rfl, -⟩ := List.cons.inj hsplit
            refine .inl (List.take_of_length_le ?_)
            rw [List.flatMap_nil, List.length_nil]
            omega
          | cons first before =>
            obtain ⟨rfl, rfl⟩ := List.cons.inj hsplit
            rw [hlength] at hle ⊢
            refine .inr ⟨before, part', after, rfl, by omega, ?_⟩
            exact congrArg (List.take · part') (by omega)

/-- Where the value of a pair begins. -/
def valueStart (before : List (Text × Text)) (pair : Text × Text) : Nat :=
  (before.flatMap fun pair => renderPair pair ++ [ampersand]).length + pair.1.length + 1

/-- Of a credential's value the cut leaves nothing, not even its equals sign, or the mark. -/
def CutSafe (cut : Nat) (pairs : List (Text × Text)) : Prop :=
  ∀ before pair after, pairs = before ++ pair :: after → Credential pair.1 →
    valueStart before pair ≤ cut → pair.2.take (cut - valueStart before pair) = mark

theorem equals_not_mem {key : Text} (h : Plain key) : equals ∉ key := fun hmem =>
  (h equals hmem).2.1 rfl

theorem redacted_take_iff (h : PlainPairs pairs) (hne : pairs ≠ []) (cut : Nat) :
    (∀ key value, equals ∉ key → Credential key →
      key ++ equals :: value ∈ ((renderForm pairs).take cut).splitOn ampersand → value = mark) ↔
      CutSafe cut pairs := by
  have hparts : ∀ part ∈ pairs.map renderPair, ampersand ∉ part := by
    intro part hpart
    obtain ⟨pair, hpair, rfl⟩ := List.mem_map.mp hpart
    exact ampersand_not_mem_renderPair (h pair hpair).1 (h pair hpair).2
  have hmem := mem_splitOn_take hparts (by simpa using hne) cut
  have hoffset : ∀ before : List (Text × Text),
      (before.map renderPair).flatMap (· ++ [ampersand]) =
        before.flatMap fun pair => renderPair pair ++ [ampersand] := fun before =>
    List.flatMap_map ..
  constructor
  · intro hredacted before pair after hpairs hcredential hstart
    have hplain : Plain pair.1 := (h pair (hpairs ▸ by simp)).1
    refine hredacted pair.1 _ (equals_not_mem hplain) hcredential ((hmem _).mpr ?_)
    refine ⟨before.map renderPair, renderPair pair, after.map renderPair, by simp [hpairs], ?_, ?_⟩
    · rw [hoffset]
      rw [valueStart] at hstart
      omega
    · obtain ⟨left, hleft⟩ := Nat.exists_eq_add_of_le hstart
      rw [hoffset, hleft, Nat.add_sub_cancel_left, valueStart, Nat.add_assoc, Nat.add_assoc,
        Nat.add_sub_cancel_left, renderPair, List.take_length_add_append, Nat.add_comm 1,
        List.take_succ_cons]
  · intro hsafe key value hequals hcredential hshown
    obtain ⟨before', part, after', hsplit, -, hpart⟩ := (hmem _).mp hshown
    obtain ⟨before, rest, rfl, rfl, hrest⟩ := List.map_eq_append_iff.mp hsplit
    obtain ⟨pair, after, rfl, rfl, rfl⟩ := List.map_eq_cons_iff.mp hrest
    rw [hoffset] at hpart
    have hplain := h pair (by simp)
    set start := (before.flatMap fun pair => renderPair pair ++ [ampersand]).length with hstart
    by_cases hle : valueStart before pair ≤ cut
    · obtain ⟨left, hleft⟩ := Nat.exists_eq_add_of_le hle
      have hcut : cut - start = pair.1.length + (left + 1) := by
        rw [hleft, valueStart, ← hstart]
        omega
      rw [hcut, renderPair, List.take_length_add_append, List.take_succ_cons] at hpart
      obtain ⟨rfl, rfl⟩ := append_separator_inj hequals (equals_not_mem hplain.1) hpart
      have hvalue := hsafe before pair after rfl hcredential hle
      rwa [hleft, Nat.add_sub_cancel_left] at hvalue
    · have hshort : cut - start ≤ pair.1.length := by
        rw [valueStart, ← hstart] at hle
        omega
      rw [renderPair, List.take_append_of_le_length hshort] at hpart
      have hmem : equals ∈ pair.1.take (cut - start) :=
        hpart ▸ List.mem_append_right _ (List.mem_cons_self ..)
      exact absurd (List.mem_of_mem_take hmem) (equals_not_mem hplain.1)

end Forms

/-! ### Sanitized bodies -/

section Bodies
variable {maxBodySize : Int} {pairs : List (Text × Text)} {body : Text}

/-- No credential's name stands in quotes before a quoted value. -/
def Unquoted (body : Text) : Prop := ∀ tail, tail <:+ body → quotedPair none tail = none

/-- How much of a body is kept. -/
def cutOf (maxBodySize : Int) (body : Text) : Nat :=
  (if maxBodySize < 0 then body.length + maxBodySize else maxBodySize).toNat

def Safe (maxBodySize : Int) (pairs : List (Text × Text)) : Prop :=
  if maxBodySize < (renderForm pairs).length then
    CutSafe (cutOf maxBodySize (renderForm pairs)) pairs
  else Unquoted (renderForm pairs) ∧ FormSafe pairs

theorem formPair_spaces {prev : Option CodePoint} {tail replacement : Text} {length : Nat}
    (h : formPair prev tail = some (replacement, length)) :
    0 < length ∧ blank ∉ tail.take length := by
  rw [formPair] at h
  split at h
  · obtain ⟨key, behind, rfl, hkey, hfollow⟩ := exists_of_keyword h
    cases behind with
    | nil => cases hfollow
    | cons separator valued =>
      dsimp only at hfollow
      split at hfollow
      · rename_i hfound
        obtain ⟨-, rfl⟩ := Prod.mk.inj (Option.some.inj hfollow)
        set value := valued.takeWhile fun c => c ≠ ampersand && !isSpace c with hvalue
        have htake : valued.take value.length = value := by
          rw [hvalue, ← List.prefix_iff_eq_take.mp (List.takeWhile_prefix _)]
        refine ⟨by omega, ?_⟩
        rw [Nat.add_assoc, List.take_length_add_append, Nat.add_comm 1, List.take_succ_cons, htake,
          List.mem_append, List.mem_cons, hfound.1]
        rintro (hmem | heq | hmem)
        · exact not_mem_of_credential hkey (.inl (by decide)) hmem
        · exact absurd heq (by decide)
        · have hspace := List.mem_takeWhile_imp hmem
          exact absurd hspace (by decide)
      · cases hfollow
  · cases h

theorem quotedPair_blank {prev : Option CodePoint} {tail replacement : Text} {length : Nat}
    (h : quotedPair prev tail = some (replacement, length)) : blank ∈ replacement := by
  cases tail with
  | nil => cases h
  | cons quote named =>
    rw [quotedPair] at h
    split at h
    · obtain ⟨key, behind, -, -, hfollow⟩ := exists_of_keyword h
      iterate 4
        split at hfollow
        · cases hfollow
      split at hfollow
      · obtain ⟨rfl, -⟩ := Prod.mk.inj (Option.some.inj hfollow)
        simp
      · cases hfollow
    · cases h

theorem substitute_quoted (h : Unquoted body) : substitute quotedPair body = body :=
  substituteFrom_eq fun tail htail _ => h tail htail

/-- A quoted pair leaves a blank, which a form does not have. -/
theorem unquoted_of_no_space
    (h : blank ∉ substitute formPair (substitute quotedPair body)) : Unquoted body := by
  intro tail htail
  by_contra hmatch
  refine h (mem_substituteFrom (fun _ _ _ _ => formPair_spaces) ?_)
  rw [List.drop_zero]
  exact exists_mem_substituteFrom (fun _ _ _ _ => quotedPair_blank) (fun _ => rfl) htail
    fun _ => hmatch

theorem sanitizeBody_cut (h : maxBodySize < body.length) : sanitizeBody maxBodySize (some body) =
    some (body.take (cutOf maxBodySize body) ++ ofString "\n[TRUNCATED]") := by
  rw [sanitizeBody, if_pos h]
  rfl

theorem takeWhile_cut (h : ∀ c ∈ body, isSpace c = false) (cut : Nat) :
    (body.take cut ++ ofString "\n[TRUNCATED]").takeWhile (fun c => !isSpace c) =
      body.take cut := by
  have hall : ∀ c ∈ body.take cut, (!isSpace c) = true := by
    intro c hc
    rw [h c (List.mem_of_mem_take hc)]
    rfl
  rw [List.takeWhile_append_of_pos hall]
  exact List.append_nil _

/-- A redacted form shows no credentials. -/
theorem sanitized_redacted (hplain : PlainPairs pairs) :
    Sanitized maxBodySize pairs (renderForm (pairs.map redactPair)) := by
  refine ⟨fun key value hequals hcredential hshown => ?_, fun _ => rfl⟩
  have hspaces := no_space_renderForm (plainPairs_redacted hplain)
  have hall : ∀ c ∈ renderForm (pairs.map redactPair), (!isSpace c) = true := by
    intro c hc
    rw [hspaces c hc]
    rfl
  rw [List.takeWhile_eq_self_iff.mpr hall] at hshown
  by_cases hne : pairs = []
  · subst hne
    have hempty := List.mem_singleton.mp hshown
    simp at hempty
  · rw [splitOn_renderForm (plainPairs_redacted hplain) (by simpa using hne),
      List.map_map] at hshown
    obtain ⟨pair, hpair, heq⟩ := List.mem_map.mp hshown
    have hkey : Plain pair.1 := (hplain pair hpair).1
    obtain ⟨rfl, rfl⟩ := append_separator_inj (equals_not_mem hkey) hequals heq
    exact if_pos hcredential

/-- A form is sanitized exactly when each of its pairs is safe where it stands or, if the form is
cut, no credential's value gets into what is kept. -/
theorem sanitized_iff (hplain : PlainPairs pairs) :
    (∃ shown, sanitizeBody maxBodySize (some (renderForm pairs)) = some shown ∧
      Sanitized maxBodySize pairs shown) ↔ Safe maxBodySize pairs := by
  have hspaces := no_space_renderForm hplain
  rw [Safe]
  split_ifs with hlong
  · rw [sanitizeBody_cut hlong]
    have hkept : ∀ shown, Sanitized maxBodySize pairs shown ↔ ∀ key value, equals ∉ key →
        Credential key → key ++ equals :: value ∈
          (shown.takeWhile fun c => !isSpace c).splitOn ampersand → value = mark := fun shown =>
      ⟨fun h => h.redacted, fun h => ⟨h, fun hle => absurd hle (not_le.mpr hlong)⟩⟩
    simp only [Option.some_inj, exists_eq_left', hkept, takeWhile_cut hspaces]
    by_cases hne : pairs = []
    · subst hne
      constructor
      · intro _ before pair after hsplit
        simp at hsplit
      · intro _ key value _ _ hshown
        rw [show renderForm [] = [] from rfl, List.take_nil] at hshown
        have hempty := List.mem_singleton.mp hshown
        simp at hempty
    · exact redacted_take_iff hplain hne _
  · have hvalue : sanitizeBody maxBodySize (some (renderForm pairs)) =
        some (substitute formPair (substitute quotedPair (renderForm pairs))) := by
      rw [sanitizeBody, if_neg hlong]
    rw [hvalue]
    simp only [Option.some_inj, exists_eq_left']
    constructor
    · intro h
      have hshown := h.unchanged (not_lt.mp hlong)
      have hblank : blank ∉ renderForm (pairs.map redactPair) := by
        intro hmem
        have hspace := no_space_renderForm (plainPairs_redacted hplain) blank hmem
        exact absurd hspace (by decide)
      have hunquoted : Unquoted (renderForm pairs) := by
        rw [← hshown] at hblank
        exact unquoted_of_no_space hblank
      refine ⟨hunquoted, ?_⟩
      rw [substitute_quoted hunquoted, substitute, substitute_form hplain] at hshown
      rw [← shownPairs_iff hplain]
      cases pairs with
      | nil => rfl
      | cons pair pairs =>
        exact renderForm_inj (plainPairs_shown hplain) (plainPairs_redacted hplain)
          (List.cons_ne_nil _ _) (List.cons_ne_nil _ _) hshown
    · rintro ⟨hunquoted, hsafe⟩
      rw [substitute_quoted hunquoted, substitute, substitute_form hplain,
        (shownPairs_iff hplain).mpr hsafe]
      exact sanitized_redacted hplain

/-- What the parser takes when none is given. -/
def defaultMaxBodySize : Int := 10000000

def userToken : List (Text × Text) :=
  [(ofString "user", ofString "a"), (ofString "Token", ofString "b")]

/-- The token of a second pair is redacted. -/
theorem sanitized_second :
    ∃ shown, sanitizeBody defaultMaxBodySize (some (renderForm userToken)) = some shown ∧
      Sanitized defaultMaxBodySize userToken shown := by
  have hplain : PlainPairs userToken :=
    List.forall_mem_cons.mpr ⟨⟨plain_of_all (by decide), plain_of_all (by decide)⟩,
      List.forall_mem_cons.mpr ⟨⟨plain_of_all (by decide), plain_of_all (by decide)⟩, by simp⟩⟩
  have hshort : ¬ defaultMaxBodySize < (renderForm userToken).length := by decide
  refine (sanitized_iff hplain).mpr ?_
  rw [Safe, if_neg hshort]
  refine ⟨unquoted_of_no_space (by decide +kernel), ?_, ?_⟩
  · rintro pair hfirst
    obtain rfl : (ofString "user", ofString "a") = pair := Option.some.inj hfirst
    refine .inr (.inr ⟨by decide, .inr ?_⟩)
    rintro ⟨before, name, hkey, -⟩
    have hquestion : question ∈ ofString "user" := by
      change ofString "user" = _ at hkey
      simp [hkey]
    exact absurd hquestion (by decide)
  · intro pair hsecond
    obtain rfl := List.mem_singleton.mp hsecond
    exact .inr (.inl ⟨by decide, not_false, by decide⟩)

/-- A password that comes first is shown. -/
theorem not_sanitized_first :
    ¬ ∃ shown, sanitizeBody defaultMaxBodySize
        (some (renderForm [(ofString "password", ofString "secret")])) = some shown ∧
      Sanitized defaultMaxBodySize [(ofString "password", ofString "secret")] shown := by
  rintro ⟨shown, hshown, hsanitized⟩
  have hredacted := hsanitized.unchanged (by decide)
  have hkept : sanitizeBody defaultMaxBodySize
      (some (renderForm [(ofString "password", ofString "secret")])) =
        some (renderForm [(ofString "password", ofString "secret")]) := by decide
  rw [hkept, Option.some_inj] at hshown
  rw [← hshown] at hredacted
  exact absurd hredacted (by decide)

end Bodies

end PiPlatform.AgentChain.Ingress.Redaction
