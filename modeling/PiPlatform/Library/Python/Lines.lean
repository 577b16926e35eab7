import PiPlatform.Library.Python.Split

/-! Python's `str.splitlines`, and what joining the lines gives back.

Ten kinds of line end are split at and only line feeds are put back, between the lines and not
behind the last (`joinLines_splitlines_iff`). -/
namespace PiPlatform.Library.Python

open Json

def lineFeed : CodePoint := 10

def carriageReturn : CodePoint := 13

def crlf : Text := [carriageReturn, lineFeed]

/-- Where `str.splitlines` splits. -/
def isLineEnd (c : CodePoint) : Bool :=
  (10 ≤ c.val && c.val ≤ 13) || (28 ≤ c.val && c.val ≤ 30) || c.val = 0x85 || c.val = 0x2028 ||
    c.val = 0x2029

theorem isSpace_of_isLineEnd {c : CodePoint} (h : isLineEnd c = true) : isSpace c = true := by
  simp only [isLineEnd, isSpace, Bool.or_eq_true, Bool.and_eq_true, decide_eq_true_eq] at h ⊢
  omega

/-- A character in front of the first line. -/
def consLine (c : CodePoint) : List Text → List Text
  | [] => [[c]]
  | line :: lines => (c :: line) :: lines

/-- A line feed right behind a carriage return belongs to it. -/
def linesFrom (afterReturn : Bool) : Text → List Text
  | [] => []
  | c :: rest =>
    if afterReturn ∧ c = lineFeed then linesFrom false rest
    else if isLineEnd c then [] :: linesFrom (c = carriageReturn) rest
    else consLine c (linesFrom false rest)

/-- `s.splitlines()` -/
def splitlines (s : Text) : List Text := linesFrom false s

/-- `"\n".join(lines)` -/
def joinLines (lines : List Text) : Text := [lineFeed].intercalate lines

/-- `s.strip()` -/
def trim (s : Text) : Text := (s.dropWhile isSpace).rdropWhile isSpace

/-- No character ends a line. -/
def LineFree (s : Text) : Prop := ∀ c ∈ s, isLineEnd c = false

variable {s line : Text} {c : CodePoint} {afterReturn : Bool} {lines : List Text}

theorem forall_of_all {p : CodePoint → Bool} (h : s.all (fun c => !p c) = true) :
    ∀ c ∈ s, p c = false := by
  intro c hc
  simpa using List.all_eq_true.mp h c hc

theorem splitlines_crlf (h : LineFree line) (rest : Text) :
    splitlines (line ++ crlf ++ rest) = line :: splitlines rest := by
  induction line with
  | nil => rfl
  | cons c line ih =>
    have hc : isLineEnd c = false := h c (List.mem_cons_self ..)
    have hrest := ih fun d hd => h d (List.mem_cons_of_mem c hd)
    rw [splitlines, List.cons_append, List.cons_append, linesFrom, if_neg (by simp), hc,
      if_neg (by simp)]
    exact congrArg (consLine c) hrest

theorem mem_consLine (h : line ∈ consLine c lines) :
    (∃ rest, line = c :: rest ∧ (rest = [] ∨ rest ∈ lines)) ∨ line ∈ lines := by
  cases lines with
  | nil => exact .inl ⟨[], List.mem_singleton.mp h, .inl rfl⟩
  | cons first lines =>
    rcases List.mem_cons.mp h with rfl | h
    · exact .inl ⟨first, rfl, .inr (List.mem_cons_self ..)⟩
    · exact .inr (List.mem_cons_of_mem _ h)

theorem lineFree_of_mem_linesFrom (h : line ∈ linesFrom afterReturn s) : LineFree line := by
  induction s generalizing afterReturn line with
  | nil => exact absurd h List.not_mem_nil
  | cons c rest ih =>
    rw [linesFrom] at h
    split_ifs at h with hpair hend
    · exact ih h
    · rcases List.mem_cons.mp h with rfl | h
      · exact fun d hd => absurd hd List.not_mem_nil
      · exact ih h
    · rcases mem_consLine h with ⟨tail, rfl, htail⟩ | h
      · refine List.forall_mem_cons.mpr ⟨Bool.eq_false_iff.mpr hend, ?_⟩
        rcases htail with rfl | htail
        · exact fun d hd => absurd hd List.not_mem_nil
        · exact ih htail
      · exact ih h

theorem lineFree_of_mem_splitlines (h : line ∈ splitlines s) : LineFree line :=
  lineFree_of_mem_linesFrom h

/-! ### Joining -/

theorem joinLines_cons (h : lines ≠ []) :
    joinLines (line :: lines) = line ++ lineFeed :: joinLines lines := by
  rw [joinLines, List.intercalate_cons_of_ne_nil h, List.append_assoc]
  rfl

theorem joinLines_consLine (lines : List Text) :
    joinLines (consLine c lines) = c :: joinLines lines := by
  cases lines with
  | nil => rfl
  | cons first lines =>
    by_cases h : lines = []
    · subst h
      rfl
    · rw [consLine, joinLines_cons h, joinLines_cons h, List.cons_append]

/-- Of line ends only line feeds are put back. -/
theorem eq_lineFeed_of_mem_joinLines (hfree : ∀ line ∈ lines, LineFree line)
    (h : c ∈ joinLines lines) (hend : isLineEnd c = true) : c = lineFeed := by
  induction lines with
  | nil => exact absurd h List.not_mem_nil
  | cons line lines ih =>
    obtain ⟨hline, hlines⟩ := List.forall_mem_cons.mp hfree
    by_cases hnil : lines = []
    · subst hnil
      rw [joinLines, List.intercalate_singleton] at h
      rw [hline c h] at hend
      cases hend
    · rw [joinLines_cons hnil] at h
      rcases List.mem_append.mp h with h | h
      · rw [hline c h] at hend
        cases hend
      · exact (List.mem_cons.mp h).elim id (ih hlines)

theorem linesFrom_ne_nil (h : ∀ d ∈ s, isLineEnd d = true → d = lineFeed) (hs : s ≠ []) :
    linesFrom false s ≠ [] := by
  obtain ⟨c, rest, rfl⟩ := List.exists_cons_of_ne_nil hs
  rw [linesFrom, if_neg (by simp)]
  split
  · exact List.cons_ne_nil _ _
  · cases linesFrom false rest <;> exact List.cons_ne_nil _ _

/-- A text with line feeds only comes back up to one at its end. -/
theorem joinLines_splitlines (h : ∀ d ∈ s, isLineEnd d = true → d = lineFeed) :
    joinLines (splitlines s) = if s.getLast? = some lineFeed then s.dropLast else s := by
  induction s with
  | nil => rfl
  | cons c rest ih =>
    obtain ⟨hc, hrest⟩ := List.forall_mem_cons.mp h
    have ih := ih hrest
    rw [splitlines] at ih
    rw [splitlines, linesFrom, if_neg (by simp)]
    by_cases hend : isLineEnd c = true
    · have hfeed : c = lineFeed := hc hend
      rw [if_pos hend]
      have hreturn : decide (c = carriageReturn) = false := by
        rw [hfeed]
        rfl
      rw [hreturn]
      by_cases hnil : rest = []
      · subst hnil
        rw [hfeed]
        rfl
      · rw [joinLines_cons (linesFrom_ne_nil hrest hnil), ih, hfeed, List.nil_append,
          List.getLast?_cons_of_ne_nil hnil, List.dropLast_cons_of_ne_nil hnil]
        split <;> rfl
    · rw [if_neg hend, joinLines_consLine, ih]
      by_cases hnil : rest = []
      · subst hnil
        have hne : c ≠ lineFeed := by
          rintro rfl
          exact hend rfl
        rw [if_neg (by simp), if_neg (by simpa using hne)]
      · rw [List.getLast?_cons_of_ne_nil hnil, List.dropLast_cons_of_ne_nil hnil]
        split <;> rfl

/-- Joining the lines gives the text back exactly if its line ends are line feeds and it does
not end with one. -/
theorem joinLines_splitlines_iff : joinLines (splitlines s) = s ↔
    (∀ c ∈ s, isLineEnd c = true → c = lineFeed) ∧ s.getLast? ≠ some lineFeed := by
  constructor
  · intro h
    have hfeeds : ∀ c ∈ s, isLineEnd c = true → c = lineFeed := by
      intro c hc hend
      rw [← h] at hc
      exact eq_lineFeed_of_mem_joinLines (fun line => lineFree_of_mem_splitlines) hc hend
    refine ⟨hfeeds, fun hlast => ?_⟩
    rw [joinLines_splitlines hfeeds, if_pos hlast] at h
    have hlength := congrArg List.length h
    have hne : s ≠ [] := by
      rintro rfl
      cases hlast
    have hpos := List.length_pos_iff.mpr hne
    rw [List.length_dropLast] at hlength
    omega
  · rintro ⟨hfeeds, hlast⟩
    rw [joinLines_splitlines hfeeds, if_neg hlast]

/-! ### Words -/

theorem split_append_space {word : Text} (hne : word ≠ [])
    (hword : ∀ c ∈ word, isSpace c = false) (hc : isSpace c = true) (rest : Text) :
    split (word ++ c :: rest) = word :: split rest := by
  rw [split, List.splitOnP_append_cons_of_forall_mem hword c hc,
    List.filter_cons_of_pos (by simpa using hne)]
  rfl

theorem ne_nil_of_mem_split {word : Text} (h : word ∈ split s) : word ≠ [] := by
  rw [split, List.mem_filter] at h
  simpa using h.2

theorem trim_eq (hhead : ∀ c ∈ s.head?, isSpace c = false)
    (hlast : ∀ c ∈ s.getLast?, isSpace c = false) : trim s = s := by
  have hdrop : s.dropWhile isSpace = s := by
    cases s with
    | nil => rfl
    | cons c rest => exact List.dropWhile_cons_of_neg (by simp [hhead c rfl])
  rw [trim, hdrop, List.rdropWhile_eq_self_iff]
  intro hne
  rw [hlast _ (List.getLast?_eq_some_getLast hne)]
  exact Bool.false_ne_true

theorem mem_of_mem_trim (h : c ∈ trim s) : c ∈ s :=
  (List.dropWhile_sublist _).mem ((List.rdropWhile_prefix _ _).subset h)

theorem trim_cons_space (hc : isSpace c = true) : trim (c :: s) = trim s := by
  rw [trim, List.dropWhile_cons_of_pos hc]
  rfl

/-- What is not blank is left of it. -/
theorem trim_ne_nil (h : c ∈ s) (hc : isSpace c = false) : trim s ≠ [] := by
  intro hnil
  have hall : ∀ d ∈ s, isSpace d = true := by
    have hdrop := List.rdropWhile_eq_nil_iff.mp hnil
    have hempty : s.dropWhile isSpace = [] := by
      by_contra hne
      have hfirst := List.head_dropWhile_not isSpace hne
      rw [hdrop _ (List.head_mem hne)] at hfirst
      cases hfirst
    exact List.dropWhile_eq_nil_iff.mp hempty
  rw [hall c h] at hc
  cases hc

end PiPlatform.Library.Python
