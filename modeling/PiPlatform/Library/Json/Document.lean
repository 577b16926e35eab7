import PiPlatform.Library.Json.Literal
import PiPlatform.Library.Json.Number
import PiPlatform.Library.Lists

/-! JSON documents, their rendering and a parser.

A `Document` is a document as it is written: an object is its members in order, with
duplicates if the text has them. What a duplicate means is for whoever builds a
dictionary from the members. `parseValue` is a recursive descent with fuel; the
length of the input is always enough (`parseValue_fuel`), so the parser has no
input it gives up on. -/
namespace PiPlatform.Library.Json

inductive Document (F : Type) where
  | null
  | bool (b : Bool)
  | int (i : Int)
  | float (x : Fl F)
  | str (s : Text)
  | arr (xs : List (Document F))
  | obj (ms : List (Text × Document F))

variable {F : Type}

/-- What holds of a document if it does of those inside it. -/
@[elab_as_elim, induction_eliminator]
theorem Document.induct {motive : Document F → Prop} (null : motive .null)
    (bool : ∀ b, motive (.bool b)) (int : ∀ i, motive (.int i)) (float : ∀ x, motive (.float x))
    (str : ∀ s, motive (.str s)) (arr : ∀ xs, (∀ x ∈ xs, motive x) → motive (.arr xs))
    (obj : ∀ ms, (∀ m ∈ ms, motive m.2) → motive (.obj ms)) (d : Document F) : motive d :=
  @Document.rec F motive (fun xs => ∀ x ∈ xs, motive x) (fun ms => ∀ m ∈ ms, motive m.2)
    (fun m => motive m.2) null bool int float str arr obj (List.forall_mem_nil _)
    (fun _ _ hx hxs => List.forall_mem_cons.mpr ⟨hx, hxs⟩) (List.forall_mem_nil _)
    (fun _ _ hm hms => List.forall_mem_cons.mpr ⟨hm, hms⟩) (fun _ _ hv => hv) d

/-! ### Joined documents -/

mutual

/-- The document with every string's surrogate pairs joined: what its text says. -/
def Document.join : Document F → Document F
  | .str s => .str (joinSurrogates s)
  | .arr xs => .arr (joinElems xs)
  | .obj ms => .obj (joinMembers ms)
  | j => j

def joinElems : List (Document F) → List (Document F)
  | [] => []
  | x :: xs => x.join :: joinElems xs

def joinMembers : List (Text × Document F) → List (Text × Document F)
  | [] => []
  | (k, v) :: ms => (joinSurrogates k, v.join) :: joinMembers ms

end

theorem joinElems_eq_map (xs : List (Document F)) : joinElems xs = xs.map Document.join :=
  eq_map rfl (fun _ _ => rfl) xs

theorem joinMembers_eq_map (ms : List (Text × Document F)) :
    joinMembers ms = ms.map fun m => (joinSurrogates m.1, m.2.join) :=
  eq_map rfl (fun _ _ => rfl) ms

/-! ### Rendering -/

def isBlank (c : Char) : Bool := c == ' ' || c == '\t' || c == '\n' || c == '\r'

/-- What stands behind a comma and behind a colon. -/
structure Style where
  itemPad : List Char
  keyPad : List Char
  item_blank : ∀ c ∈ itemPad, isBlank c = true
  key_blank : ∀ c ∈ keyPad, isBlank c = true

/-- The separators `","` and `":"`. -/
def Style.compact : Style := ⟨[], [], List.forall_mem_nil _, List.forall_mem_nil _⟩

/-- The separators `", "` and `": "`. -/
def Style.spaced : Style :=
  ⟨[' '], [' '], List.forall_mem_singleton.mpr rfl, List.forall_mem_singleton.mpr rfl⟩

variable [FloatCodec F]

def floatText : Fl F → List Char
  | .finite x => FloatCodec.repr x
  | .nan => ['N', 'a', 'N']
  | .infinity false => ['I', 'n', 'f', 'i', 'n', 'i', 't', 'y']
  | .infinity true => ['-', 'I', 'n', 'f', 'i', 'n', 'i', 't', 'y']

mutual

def Document.render (st : Style) : Document F → List Char
  | .null => ['n', 'u', 'l', 'l']
  | .bool true => ['t', 'r', 'u', 'e']
  | .bool false => ['f', 'a', 'l', 's', 'e']
  | .int i => intText i
  | .float x => floatText x
  | .str s => quote s
  | .arr [] => ['[', ']']
  | .arr (x :: xs) => '[' :: (x.render st ++ renderElems st xs)
  | .obj [] => ['{', '}']
  | .obj ((k, v) :: ms) =>
    '{' :: (quote k ++ ':' :: (st.keyPad ++ (v.render st ++ renderMembers st ms)))

/-- The elements behind the first, and the closing bracket. -/
def renderElems (st : Style) : List (Document F) → List Char
  | [] => [']']
  | x :: xs => ',' :: (st.itemPad ++ (x.render st ++ renderElems st xs))

/-- The members behind the first, and the closing brace. -/
def renderMembers (st : Style) : List (Text × Document F) → List Char
  | [] => ['}']
  | (k, v) :: ms => ',' :: (st.itemPad ++ (quote k ++ ':' :: (st.keyPad ++ (v.render st ++
      renderMembers st ms))))

end

/-! ### Parsing -/

def skipBlank (cs : List Char) : List Char := cs.dropWhile isBlank

/-- The input behind a word it starts with. -/
def stripWord (w cs : List Char) : Option (List Char) :=
  if cs.take w.length = w then some (cs.drop w.length) else none

def words : List (List Char × Document F) :=
  [(['n', 'u', 'l', 'l'], .null), (['t', 'r', 'u', 'e'], .bool true),
    (['f', 'a', 'l', 's', 'e'], .bool false), (['N', 'a', 'N'], .float .nan),
    (['I', 'n', 'f', 'i', 'n', 'i', 't', 'y'], .float (.infinity false)),
    (['-', 'I', 'n', 'f', 'i', 'n', 'i', 't', 'y'], .float (.infinity true))]

def number (m f : List Char) : Document F :=
  if f = [] then .int (readInt m) else .float (FloatCodec.read (m ++ f))

def parseAtom (cs : List Char) : Option (Document F × List Char) :=
  match words.findSome? fun w => (stripWord w.1 cs).map fun rest => (w.2, rest) with
  | some p => some p
  | none => (scanNumber cs).map fun p => (number p.1 p.2.1, p.2.2)

mutual

/-- One value at the very front of the input, and the rest. -/
def parseValue : Nat → List Char → Option (Document F × List Char)
  | 0, _ => none
  | _ + 1, [] => none
  | n + 1, c :: rest =>
    if c = '"' then (decodeBody rest).map fun p => (.str p.1, p.2)
    else if c = '{' then
      match skipBlank rest with
      | '}' :: rest' => some (.obj [], rest')
      | cs => (parseMembers n cs).map fun p => (.obj p.1, p.2)
    else if c = '[' then
      match skipBlank rest with
      | ']' :: rest' => some (.arr [], rest')
      | cs => (parseElems n cs).map fun p => (.arr p.1, p.2)
    else parseAtom (c :: rest)

def parseElems : Nat → List Char → Option (List (Document F) × List Char)
  | 0, _ => none
  | n + 1, cs => (parseValue n cs).bind fun p =>
    match skipBlank p.2 with
    | ',' :: rest => (parseElems n (skipBlank rest)).map fun q => (p.1 :: q.1, q.2)
    | ']' :: rest => some ([p.1], rest)
    | _ => none

def parseMembers : Nat → List Char → Option (List (Text × Document F) × List Char)
  | 0, _ => none
  | n + 1, '"' :: rest => (decodeBody rest).bind fun k =>
    match skipBlank k.2 with
    | ':' :: rest => (parseValue n (skipBlank rest)).bind fun p =>
      match skipBlank p.2 with
      | ',' :: rest => (parseMembers n (skipBlank rest)).map fun q => ((k.1, p.1) :: q.1, q.2)
      | '}' :: rest => some ([(k.1, p.1)], rest)
      | _ => none
    | _ => none
  | _ + 1, _ => none

end

/-- A whole document, blanks around it allowed. -/
def parse (cs : List Char) : Option (Document F) :=
  (parseValue (cs.length + 1) (skipBlank cs)).bind fun p =>
    if skipBlank p.2 = [] then some p.1 else none

end PiPlatform.Library.Json
