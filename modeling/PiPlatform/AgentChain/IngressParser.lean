import PiPlatform.Library.Python.Lines

/-! Raw HTTP messages taken apart.

The head is read line by line and the body is joined again from its lines with line feeds, so it
comes back only if it had no other line ends and none at its end (`split_render_iff`). -/
namespace PiPlatform.AgentChain.Ingress

open Library.Python Library.Json

def space : CodePoint := 32

def colon : CodePoint := 58

/-- `key, value = line.split(":", 1)`, both stripped. -/
def headerOf (line : Text) : Text × Text :=
  (trim (line.takeWhile (· ≠ colon)), trim (line.dropWhile (· ≠ colon)).tail)

/-- The lines behind the first one, up to the blank one before the body. -/
def readHeaders : List Text → List (Text × Text) × Option Text
  | [] => ([], none)
  | line :: rest =>
    if trim line = [] then ([], some (joinLines rest))
    else
      let (headers, body) := readHeaders rest
      if line.contains colon then (headerOf line :: headers, body) else (headers, body)

def splitRequest (raw : Text) : Text × Text × List (Text × Text) × Option Text :=
  match splitlines raw with
  | [] => (ofString "GET", ofString "/", [], none)
  | first :: lines =>
    let parts := split (trim first)
    ((parts[0]?).getD (ofString "GET"), (parts[1]?).getD (ofString "/"), readHeaders lines)

def splitResponse (raw : Text) : Text × List (Text × Text) × Option Text :=
  match splitlines raw with
  | [] => (ofString "HTTP/1.1 200 OK", [], none)
  | first :: lines => (trim first, readHeaders lines)

/-! ### Messages -/

def renderHeader (header : Text × Text) : Text := header.1 ++ colon :: space :: header.2

def renderHeaders (headers : List (Text × Text)) : Text :=
  headers.flatMap fun header => renderHeader header ++ crlf

def renderRequest (method path : Text) (headers : List (Text × Text)) (body : Text) : Text :=
  method ++ space :: (path ++ space :: ofString "HTTP/1.1") ++ crlf ++
    (renderHeaders headers ++ (crlf ++ body))

def renderResponse (statusLine : Text) (headers : List (Text × Text)) (body : Text) : Text :=
  statusLine ++ crlf ++ (renderHeaders headers ++ (crlf ++ body))

/-- No colon in the name and no blanks around name and value. -/
structure PlainHeader (header : Text × Text) : Prop where
  colon : colon ∉ header.1
  name : trim header.1 = header.1
  value : trim header.2 = header.2

/-- The head has no line ends of its own; the body has line feeds only, and none at its end. -/
structure LineSafe (headers : List (Text × Text)) (body : Text) : Prop where
  headers : ∀ header ∈ headers, LineFree header.1 ∧ LineFree header.2
  feeds : ∀ c ∈ body, isLineEnd c = true → c = lineFeed
  last : body.getLast? ≠ some lineFeed

section Read
variable {line : Text} {lines : List Text} {header : Text × Text} {headers : List (Text × Text)}
  {body : Text}

theorem headerOf_renderHeader (h : PlainHeader header) :
    headerOf (renderHeader header) = header := by
  have hname : ∀ c ∈ header.1, decide (c ≠ colon) = true := by
    intro c hc
    refine decide_eq_true ?_
    rintro rfl
    exact h.colon hc
  have htake : (renderHeader header).takeWhile (· ≠ colon) = header.1 := by
    rw [renderHeader, List.takeWhile_append_of_pos hname, List.takeWhile_cons_of_neg (by simp),
      List.append_nil]
  have hdrop : (renderHeader header).dropWhile (· ≠ colon) = colon :: space :: header.2 := by
    rw [renderHeader, List.dropWhile_append_of_pos hname, List.dropWhile_cons_of_neg (by simp)]
  rw [headerOf, htake, hdrop, List.tail_cons, trim_cons_space rfl, h.name, h.value]

theorem lineFree_renderHeader (h₁ : LineFree header.1) (h₂ : LineFree header.2) :
    LineFree (renderHeader header) := by
  intro c hc
  rw [renderHeader, List.mem_append, List.mem_cons, List.mem_cons] at hc
  rcases hc with hc | rfl | rfl | hc
  · exact h₁ c hc
  · rfl
  · rfl
  · exact h₂ c hc

/-- The lines of headers and a body. -/
theorem splitlines_render (h : ∀ header ∈ headers, LineFree header.1 ∧ LineFree header.2) :
    splitlines (renderHeaders headers ++ (crlf ++ body)) =
      headers.map renderHeader ++ [] :: splitlines body := by
  induction headers with
  | nil => exact splitlines_crlf (fun c hc => absurd hc List.not_mem_nil) body
  | cons header headers ih =>
    obtain ⟨⟨hname, hvalue⟩, hrest⟩ := List.forall_mem_cons.mp h
    rw [renderHeaders, List.flatMap_cons, List.append_assoc,
      splitlines_crlf (lineFree_renderHeader hname hvalue)]
    exact congrArg (renderHeader header :: ·) (ih hrest)

theorem readHeaders_render (h : ∀ header ∈ headers, PlainHeader header) (rest : List Text) :
    readHeaders (headers.map renderHeader ++ [] :: rest) = (headers, some (joinLines rest)) := by
  induction headers with
  | nil => rfl
  | cons header headers ih =>
    obtain ⟨hheader, hrest⟩ := List.forall_mem_cons.mp h
    have hcolon : colon ∈ renderHeader header :=
      List.mem_append_right _ (List.mem_cons_self ..)
    rw [List.map_cons, List.cons_append, readHeaders, if_neg (trim_ne_nil hcolon rfl), ih hrest]
    dsimp only
    rw [if_pos (List.contains_iff_mem.mpr hcolon), headerOf_renderHeader hheader]

/-- Headers hold what the lines hold. -/
theorem mem_readHeaders (hheader : header ∈ (readHeaders lines).1) {c : CodePoint}
    (hc : c ∈ header.1 ∨ c ∈ header.2) : ∃ line ∈ lines, c ∈ line := by
  induction lines with
  | nil => exact absurd hheader List.not_mem_nil
  | cons line lines ih =>
    rw [readHeaders] at hheader
    split at hheader
    · exact absurd hheader List.not_mem_nil
    · have hlater : header ∈ (readHeaders lines).1 → ∃ l ∈ line :: lines, c ∈ l := fun hmem =>
        (ih hmem).imp fun l hl => ⟨List.mem_cons_of_mem _ hl.1, hl.2⟩
      dsimp only at hheader
      split at hheader
      · rcases List.mem_cons.mp hheader with rfl | hmem
        · refine ⟨line, List.mem_cons_self .., ?_⟩
          rcases hc with hc | hc
          · exact (List.takeWhile_sublist _).mem (mem_of_mem_trim hc)
          · exact (List.dropWhile_sublist _).mem (List.mem_of_mem_tail (mem_of_mem_trim hc))
        · exact hlater hmem
      · exact hlater hheader

theorem lineFree_readHeaders (hlines : ∀ line ∈ lines, LineFree line)
    (hheader : header ∈ (readHeaders lines).1) : LineFree header.1 ∧ LineFree header.2 := by
  constructor
  · intro c hc
    obtain ⟨line, hline, hmem⟩ := mem_readHeaders hheader (.inl hc)
    exact hlines line hline c hmem
  · intro c hc
    obtain ⟨line, hline, hmem⟩ := mem_readHeaders hheader (.inr hc)
    exact hlines line hline c hmem

/-- Headers and body come back exactly if they are safe in lines. -/
theorem readHeaders_render_iff (hplain : ∀ header ∈ headers, PlainHeader header) :
    readHeaders (splitlines (renderHeaders headers ++ (crlf ++ body))) = (headers, some body) ↔
      LineSafe headers body := by
  constructor
  · intro h
    have hfree : ∀ header ∈ headers, LineFree header.1 ∧ LineFree header.2 := by
      intro header hheader
      have hread : (readHeaders (splitlines (renderHeaders headers ++ (crlf ++ body)))).1 =
          headers := congrArg Prod.fst h
      rw [← hread] at hheader
      exact lineFree_readHeaders (fun line => lineFree_of_mem_splitlines) hheader
    rw [splitlines_render hfree, readHeaders_render hplain, Prod.mk.injEq, Option.some_inj] at h
    obtain ⟨hfeeds, hlast⟩ := joinLines_splitlines_iff.mp h.2
    exact ⟨hfree, hfeeds, hlast⟩
  · intro h
    rw [splitlines_render h.headers, readHeaders_render hplain,
      joinLines_splitlines_iff.mpr ⟨h.feeds, h.last⟩]

end Read

/-! ### Both kinds of messages -/

section Messages
variable {method path statusLine body : Text} {headers : List (Text × Text)}

/-- The words of a request's first line. -/
def requestWords (method path : Text) : List Text :=
  split (trim (method ++ space :: (path ++ space :: ofString "HTTP/1.1")))

theorem lineFree_of_no_space {s : Text} (h : ∀ c ∈ s, isSpace c = false) : LineFree s := by
  intro c hc
  refine Bool.eq_false_iff.mpr fun hend => ?_
  have hspace := isSpace_of_isLineEnd hend
  rw [h c hc] at hspace
  cases hspace

theorem splitRequest_render (hmethod : ∀ c ∈ method, isSpace c = false)
    (hpath : ∀ c ∈ path, isSpace c = false) :
    splitRequest (renderRequest method path headers body) =
      (((requestWords method path)[0]?).getD (ofString "GET"),
        ((requestWords method path)[1]?).getD (ofString "/"),
        readHeaders (splitlines (renderHeaders headers ++ (crlf ++ body)))) := by
  have hfirst : LineFree (method ++ space :: (path ++ space :: ofString "HTTP/1.1")) := by
    intro c hc
    rw [List.mem_append, List.mem_cons, List.mem_append, List.mem_cons] at hc
    rcases hc with hc | rfl | hc | rfl | hc
    · exact lineFree_of_no_space hmethod c hc
    · rfl
    · exact lineFree_of_no_space hpath c hc
    · rfl
    · exact forall_of_all (p := isLineEnd) (s := ofString "HTTP/1.1") (by decide) c hc
  rw [splitRequest, renderRequest, splitlines_crlf hfirst]
  rfl

theorem requestWords_eq (hmethod : ∀ c ∈ method, isSpace c = false)
    (hpath : ∀ c ∈ path, isSpace c = false) (hm : method ≠ []) (hp : path ≠ []) :
    requestWords method path = [method, path, ofString "HTTP/1.1"] := by
  have htrim : trim (method ++ space :: (path ++ space :: ofString "HTTP/1.1")) =
      method ++ space :: (path ++ space :: ofString "HTTP/1.1") := by
    refine trim_eq (fun c hc => ?_) fun c hc => ?_
    · rw [List.head?_append_of_ne_nil _ hm] at hc
      exact hmethod c (List.mem_of_mem_head? hc)
    · rw [List.getLast?_append_of_ne_nil _ (List.cons_ne_nil _ _),
        List.getLast?_cons_of_ne_nil (by simp),
        List.getLast?_append_of_ne_nil _ (List.cons_ne_nil _ _)] at hc
      have hone : (space :: ofString "HTTP/1.1").getLast? = some 49 := by decide
      rw [hone] at hc
      obtain rfl := Option.mem_some_iff.mp hc
      rfl
  rw [requestWords, htrim, split_append_space hm hmethod rfl, split_append_space hp hpath rfl]
  rfl

/-- Words are never empty, and neither are the defaults. -/
theorem requestWords_iff (hmethod : ∀ c ∈ method, isSpace c = false)
    (hpath : ∀ c ∈ path, isSpace c = false) :
    ((requestWords method path)[0]?).getD (ofString "GET") = method ∧
        ((requestWords method path)[1]?).getD (ofString "/") = path ↔
      method ≠ [] ∧ path ≠ [] := by
  have hne : ∀ (i : Nat) (default : Text), default ≠ [] →
      ((requestWords method path)[i]?).getD default ≠ [] := by
    intro i default hdefault
    cases hword : (requestWords method path)[i]? with
    | none => exact hdefault
    | some word => exact ne_nil_of_mem_split (List.mem_of_getElem? hword)
  constructor
  · rintro ⟨hm, hp⟩
    exact ⟨fun hnil => hne 0 (ofString "GET") (by decide) (hm.trans hnil),
      fun hnil => hne 1 (ofString "/") (by decide) (hp.trans hnil)⟩
  · rintro ⟨hm, hp⟩
    rw [requestWords_eq hmethod hpath hm hp]
    exact ⟨rfl, rfl⟩

theorem splitRequest_iff (hmethod : ∀ c ∈ method, isSpace c = false)
    (hpath : ∀ c ∈ path, isSpace c = false) (hheaders : ∀ header ∈ headers, PlainHeader header) :
    splitRequest (renderRequest method path headers body) = (method, path, headers, some body) ↔
      method ≠ [] ∧ path ≠ [] ∧ LineSafe headers body := by
  rw [splitRequest_render hmethod hpath, Prod.mk.injEq, Prod.mk.injEq, ← and_assoc,
    requestWords_iff hmethod hpath, and_assoc, readHeaders_render_iff hheaders]

theorem splitResponse_iff (hfree : LineFree statusLine) (htrim : trim statusLine = statusLine)
    (hheaders : ∀ header ∈ headers, PlainHeader header) :
    splitResponse (renderResponse statusLine headers body) = (statusLine, headers, some body) ↔
      LineSafe headers body := by
  rw [splitResponse, renderResponse, splitlines_crlf hfree]
  dsimp only
  rw [Prod.mk.injEq, htrim, readHeaders_render_iff hheaders]
  exact and_iff_right rfl

/-- A request comes back exactly if method and path are not empty and headers and body are safe
in lines, a response exactly if the latter are. -/
theorem split_render_iff (hmethod : ∀ c ∈ method, isSpace c = false)
    (hpath : ∀ c ∈ path, isSpace c = false) (hfree : LineFree statusLine)
    (htrim : trim statusLine = statusLine) (hheaders : ∀ header ∈ headers, PlainHeader header) :
    (splitRequest (renderRequest method path headers body) = (method, path, headers, some body) ↔
        method ≠ [] ∧ path ≠ [] ∧ LineSafe headers body) ∧
      (splitResponse (renderResponse statusLine headers body) =
          (statusLine, headers, some body) ↔ LineSafe headers body) :=
  ⟨splitRequest_iff hmethod hpath hheaders, splitResponse_iff hfree htrim hheaders⟩

/-- A body with the given line end between two letters. -/
def twoLines (lineEnd : Text) : Text := ofString "a" ++ lineEnd ++ ofString "b"

def hosted : List (Text × Text) := [(ofString "Host", ofString "b")]

theorem split_render_feed :
    splitRequest (renderRequest (ofString "POST") (ofString "/a") hosted (twoLines [lineFeed])) =
        (ofString "POST", ofString "/a", hosted, some (twoLines [lineFeed])) ∧
      splitResponse (renderResponse (ofString "HTTP/1.1 200 OK") hosted (twoLines [lineFeed])) =
        (ofString "HTTP/1.1 200 OK", hosted, some (twoLines [lineFeed])) := by
  have hsafe : LineSafe hosted (twoLines [lineFeed]) :=
    { headers := fun header hheader => by
        obtain rfl := List.mem_singleton.mp hheader
        exact ⟨forall_of_all (by decide), forall_of_all (by decide)⟩
      feeds := fun c hc hend => by
        have hletters : LineFree (ofString "a") ∧ LineFree (ofString "b") :=
          ⟨forall_of_all (by decide), forall_of_all (by decide)⟩
        rw [twoLines, List.mem_append, List.mem_append] at hc
        rcases hc with (ha | hfeed) | hb
        · exact absurd (hletters.1 c ha) (by simp [hend])
        · exact List.mem_singleton.mp hfeed
        · exact absurd (hletters.2 c hb) (by simp [hend])
      last := by decide }
  obtain ⟨hrequest, hresponse⟩ := @split_render_iff (ofString "POST") (ofString "/a")
    (ofString "HTTP/1.1 200 OK") (twoLines [lineFeed]) hosted (forall_of_all (by decide))
    (forall_of_all (by decide)) (forall_of_all (by decide)) (by decide) fun header hheader => by
      obtain rfl := List.mem_singleton.mp hheader
      exact ⟨by decide, by decide, by decide⟩
  exact ⟨hrequest.mpr ⟨by decide, by decide, hsafe⟩, hresponse.mpr hsafe⟩

theorem not_lineSafe_crlf {headers : List (Text × Text)} : ¬ LineSafe headers (twoLines crlf) := by
  intro h
  have hfeed := h.feeds carriageReturn (by decide) rfl
  exact absurd hfeed (by decide)

theorem split_render_crlf :
    splitRequest (renderRequest (ofString "POST") (ofString "/a") [] (twoLines crlf)) ≠
        (ofString "POST", ofString "/a", [], some (twoLines crlf)) ∧
      splitResponse (renderResponse (ofString "HTTP/1.1 200 OK") [] (twoLines crlf)) ≠
        (ofString "HTTP/1.1 200 OK", [], some (twoLines crlf)) := by
  constructor
  · intro h
    exact not_lineSafe_crlf ((splitRequest_iff (forall_of_all (by decide))
      (forall_of_all (by decide)) (by simp)).mp h).2.2
  · intro h
    exact not_lineSafe_crlf ((splitResponse_iff (forall_of_all (by decide)) (by decide)
      (by simp)).mp h)

end Messages

end PiPlatform.AgentChain.Ingress
