import PiPlatform.Library.Base64
import PiPlatform.Library.Json.Compact
import PiPlatform.Library.Python.Canonical
import PiPlatform.Library.Python.ItemOrder
import PiPlatform.Production.Signing

/-! Signed tokens.

A token is a header, a body and a signature, each in unpadded base64. `token_contract_iff`: the
claims come back exactly if none of their texts holds a split surrogate pair, which JSON joins;
and a token whose signature is wrong is refused as such exactly if the strings can be compared
at all, the first two without lone surrogates and the third in ASCII. -/
namespace PiPlatform.Production.Tokens

open Library Library.Json Library.Python Library.Base64

inductive TokenError where
  | authenticationError (reason : String)
  | unicodeEncodeError
  | typeError
  | valueError
  | attributeError
  deriving DecidableEq

/-! ### Bytes -/

/-- The UTF-8 of a code point. -/
def utf8 (c : CodePoint) : Bytes :=
  if c.val < 0x80 then [UInt8.ofNat c.val]
  else if c.val < 0x800 then
    [UInt8.ofNat (0xC0 + c.val / 0x40), UInt8.ofNat (0x80 + c.val % 0x40)]
  else if c.val < 0x10000 then
    [UInt8.ofNat (0xE0 + c.val / 0x1000), UInt8.ofNat (0x80 + c.val / 0x40 % 0x40),
      UInt8.ofNat (0x80 + c.val % 0x40)]
  else
    [UInt8.ofNat (0xF0 + c.val / 0x40000), UInt8.ofNat (0x80 + c.val / 0x1000 % 0x40),
      UInt8.ofNat (0x80 + c.val / 0x40 % 0x40), UInt8.ofNat (0x80 + c.val % 0x40)]

/-- `str.encode()` -/
def encodeText (t : Text) : Except TokenError Bytes :=
  if t.any fun c => isHigh c || isLow c then .error .unicodeEncodeError else .ok (t.flatMap utf8)

def isAscii (t : Text) : Bool := t.all fun c => c.val < 0x80

/-- The alphabet of URLs and back. -/
def urlsafe (c : Char) : Char := if c = '+' then '-' else if c = '/' then '_' else c

def standard (c : Char) : Char := if c = '-' then '+' else if c = '_' then '/' else c

def base64url (data : Bytes) : Text :=
  (((b64encode data).map urlsafe).rdropWhile (· = '=')).map ofChar

def base64urlDecode (s : Text) : Except TokenError Bytes :=
  let pad := 4 - s.length % 4
  let s := if pad ≠ 4 then s ++ List.replicate pad (ofChar '=') else s
  if isAscii s then
    match a2bBase64 (s.map fun c => standard (Char.ofNat c.val)) with
    | some data => .ok data
    | none => .error .valueError
  else .error .valueError

/-! ### Tokens -/

/-- What is computed of bytes, and what the interpreter makes of JSON that is not in ASCII. -/
structure Runtime (F : Type) where
  sha256Hex : Bytes → String
  hmac : Bytes → Bytes → Bytes
  loadsOther : Bytes → Except TokenError (PyValue F)
  /-- `x < i` -/
  floatLess : Fl F → Int → Bool

variable {F : Type} [FloatCodec F] [SetText F] (R : Runtime F)

/-- `json.loads(data)` -/
def loadsBytes (data : Bytes) : Except TokenError (PyValue F) :=
  if data.all fun b => 0 < b.toNat && b.toNat < 0x80 then
    match loads (String.ofList (data.map fun b => Char.ofNat b.toNat)) with
    | .ok v => .ok v
    | .error _ => .error .valueError
  else R.loadsOther data

/-- `json.dumps(data, sort_keys=True, separators=(",", ":")).encode()` -/
def dumpsBytes (data : PyValue F) : Except TokenError Bytes :=
  match dumps .compact data with
  | .ok text => encodeText (ofString text)
  | .error _ => .error .typeError

/-- `secrets.compare_digest` on strings. -/
def compareDigest (a b : Text) : Except TokenError Bool :=
  if isAscii a && isAscii b then .ok (a = b) else .error .typeError

def dot : CodePoint := ofChar '.'

def key (s : String) : Key := .str (ofString s)

def encodeSegment (data : PyValue F) : Except TokenError Text := do
  return base64url (← dumpsBytes data)

def deriveJti (claims : PyValue F) : Except TokenError Text := do
  let data ← dumpsBytes claims
  return (ofString (R.sha256Hex data)).take 16

/-- The claims, updated. -/
def payload (now ttlSeconds : Int) (jti : Text) (claims : List (Key × PyValue F)) : PyValue F :=
  .dict (setItems claims
    [(key "iat", .int now), (key "exp", .int (now + ttlSeconds)), (key "jti", .str jti)])

structure JWTToken where
  secret : Bytes

variable (J : JWTToken)

/-- The third segment of a token with the first two. -/
def JWTToken.signature (header body : Text) : Except TokenError Text := do
  let message ← encodeText (header ++ dot :: body)
  return base64url (R.hmac J.secret message)

/-- `encode`, at the time `now`. -/
def JWTToken.encode (now : Int) (claims : List (Key × PyValue F)) (ttlSeconds : Int) :
    Except TokenError Text := do
  let header ← encodeSegment (F := F)
    (.dict [(key "alg", .str (ofString "HS256")), (key "typ", .str (ofString "JWT"))])
  let jti ← deriveJti R (.dict claims)
  let body ← encodeSegment (payload now ttlSeconds jti claims)
  let sig ← J.signature R header body
  return header ++ dot :: (body ++ dot :: sig)

/-- `payload.get("exp", 0) < now` -/
def expired (now : Int) : PyValue F → Except TokenError Bool
  | .dict items =>
    match lookupItem (key "exp") items with
    | none => .ok (0 < now)
    | some (.int i) => .ok (i < now)
    | some (.bool b) => .ok (b.toInt < now)
    | some (.float x) => .ok (R.floatLess x now)
    | some _ => .error .typeError
  | _ => .error .attributeError

/-- `decode`, at the time `now`. -/
def JWTToken.decode (now : Int) (token : Text) : Except TokenError (PyValue F) :=
  match token.splitOn dot with
  | [header, body, sig] => do
    let expected ← J.signature R header body
    if ← compareDigest sig expected then
      let payload ← loadsBytes R (← base64urlDecode body)
      if ← expired R now payload then .error (.authenticationError "token_expired")
      else return payload
    else .error (.authenticationError "signature_mismatch")
  | _ => .error (.authenticationError "invalid_token_format")

/-! ### What is promised -/

mutual

/-- JSON over strings, integers, booleans and null, with string keys. -/
def jsonTree : PyValue F → Bool
  | .float _ => false
  | .tuple _ => false
  | .set _ => false
  | .list xs => jsonTreeElems xs
  | .dict items =>
    decide (items.map Prod.fst).Nodup && (items.all fun p => p.1.str?.isSome) && jsonTreeItems items
  | _ => true

def jsonTreeElems : List (PyValue F) → Bool
  | [] => true
  | x :: xs => jsonTree x && jsonTreeElems xs

def jsonTreeItems : List (Key × PyValue F) → Bool
  | [] => true
  | (_, v) :: items => jsonTree v && jsonTreeItems items

end

structure Claims (F : Type) where
  items : List (Key × PyValue F)
  tree : jsonTree (.dict items) = true

/-- The token is refused as not authentic. -/
def Refused (now : Int) (token : Text) : Prop :=
  ∃ reason, J.decode R now token = .error (.authenticationError reason)

/-- A token of the claims gives them back, updated, until it expires. -/
def RoundTrips (claims : Claims F) (ttlSeconds now later : Int) : Prop :=
  ∃ jti token, deriveJti R (.dict claims.items) = .ok jti ∧
    J.encode R now claims.items ttlSeconds = .ok token ∧
    if later ≤ now + ttlSeconds then
      ∃ p, J.decode R later token = .ok p ∧ (payload now ttlSeconds jti claims.items).same p
    else Refused R J later token

/-- There are not three segments, or the third is not what the first two are signed with. -/
def Forged (token : Text) : Prop :=
  ∀ header body sig, token.splitOn dot = [header, body, sig] →
    J.signature R header body ≠ .ok sig

/-- Of three segments the first two have UTF-8, and the third is in ASCII. -/
def Comparable (token : Text) : Prop :=
  ∀ header body sig, token.splitOn dot = [header, body, sig] →
    ((header ++ body).all fun c => !isHigh c && !isLow c) = true ∧ isAscii sig = true

/-- No text of the claims holds a split surrogate pair, the three that are replaced aside. -/
def Joinless (claims : Claims F) : Prop :=
  ∀ p ∈ claims.items, p.1 ∉ [key "iat", key "exp", key "jti"] →
    p.1.plain = true ∧ p.2.json = true

/-! ### Base64 -/

section Base64
variable (data : Bytes)

theorem urlsafe_digit : ∀ n < 64, (urlsafe (digit n) ≠ '=' ∧ urlsafe (digit n) ≠ '.') ∧
    (standard (urlsafe (digit n)) = digit n ∧ (urlsafe (digit n)).toNat < 0x80) := by decide

theorem rdropWhile_replicate {ds : List Char} (h : ∀ d ∈ ds, d ≠ '=') (n : Nat) :
    (ds ++ List.replicate n '=').rdropWhile (· = '=') = ds := by
  have hpad : ∀ c ∈ List.replicate n '=', decide (c = '=') = true := by
    intro c hc
    rw [List.eq_of_mem_replicate hc]
    rfl
  have hnone : ds.reverse.dropWhile (· = '=') = ds.reverse := by
    cases hrev : ds.reverse with
    | nil => rfl
    | cons d rest =>
      have hd : d ∈ ds := by
        rw [← List.mem_reverse, hrev]
        exact List.mem_cons_self ..
      exact List.dropWhile_cons_of_neg (by simpa using h d hd)
  rw [List.rdropWhile, List.reverse_append, List.reverse_replicate,
    List.dropWhile_append_of_pos hpad, hnone, List.reverse_reverse]

/-- The digits that a segment is, and what they were before. -/
theorem base64url_eq : ∃ ds : List Char, (∀ d ∈ ds, IsDigit d) ∧
    b64encode data = ds ++ List.replicate (padding ds.length) '=' ∧
    base64url data = (ds.map urlsafe).map ofChar := by
  obtain ⟨ds, hds, heq⟩ := b64encode_eq data
  have hne : ∀ d ∈ ds.map urlsafe, d ≠ '=' := by
    refine List.forall_mem_map.mpr fun d hd => ?_
    obtain ⟨n, hn, rfl⟩ := hds d hd
    exact (urlsafe_digit n hn).1.1
  refine ⟨ds, hds, heq, ?_⟩
  rw [base64url, heq, List.map_append, List.map_replicate]
  exact congrArg (List.map ofChar) (rdropWhile_replicate hne _)

theorem isAscii_base64url : isAscii (base64url data) = true := by
  obtain ⟨ds, hds, -, heq⟩ := base64url_eq data
  rw [heq, isAscii, List.all_eq_true, List.map_map]
  refine List.forall_mem_map.mpr fun d hd => ?_
  obtain ⟨n, hn, rfl⟩ := hds d hd
  exact decide_eq_true (urlsafe_digit n hn).2.2

theorem dot_not_mem_base64url : dot ∉ base64url data := by
  obtain ⟨ds, hds, -, heq⟩ := base64url_eq data
  rw [heq, List.map_map, List.mem_map]
  rintro ⟨d, hd, hdot⟩
  obtain ⟨n, hn, rfl⟩ := hds d hd
  exact (urlsafe_digit n hn).1.2 (ofChar_injective hdot)

/-- What was encoded is decoded. -/
theorem base64urlDecode_base64url : base64urlDecode (base64url data) = .ok data := by
  obtain ⟨ds, hds, hencode, heq⟩ := base64url_eq data
  have hascii := isAscii_base64url data
  have hpad : (if 4 - (base64url data).length % 4 ≠ 4 then
      base64url data ++ List.replicate (4 - (base64url data).length % 4) (ofChar '=')
      else base64url data) = base64url data ++ List.replicate (padding ds.length) (ofChar '=') := by
    have hlength : (base64url data).length = ds.length := by simp [heq]
    rw [hlength, padding]
    by_cases hfull : 4 - ds.length % 4 = 4
    · rw [if_neg (by simpa using hfull), if_pos hfull, List.replicate_zero, List.append_nil]
    · rw [if_pos hfull, if_neg hfull]
  have hpadded : isAscii (base64url data ++ List.replicate (padding ds.length) (ofChar '=')) =
      true := by
    rw [isAscii] at hascii ⊢
    rw [List.all_append, hascii, List.all_eq_true.mpr fun c hc => by
      rw [List.eq_of_mem_replicate hc]
      rfl]
    rfl
  have hback : (base64url data ++ List.replicate (padding ds.length) (ofChar '=')).map
      (fun c => standard (Char.ofNat c.val)) = b64encode data := by
    have hchar : ∀ c : Char, Char.ofNat (ofChar c).val = c := Char.ofNat_toNat
    rw [hencode, List.map_append, List.map_replicate, heq, List.map_map, List.map_map, hchar]
    refine congrArg (· ++ _) ((List.map_congr_left fun d hd => ?_).trans ds.map_id)
    obtain ⟨n, hn, rfl⟩ := hds d hd
    show standard (Char.ofNat (ofChar (urlsafe (digit n))).val) = digit n
    rw [hchar, (urlsafe_digit n hn).2.1]
  rw [base64urlDecode]
  simp only [hpad]
  rw [if_pos hpadded, hback, a2bBase64_b64encode]

end Base64

/-! ### Texts -/

section Texts
variable {cs : List Char}

theorem utf8_printable {c : Char} (h : printable c = true) :
    utf8 (ofChar c) = [UInt8.ofNat c.toNat] := by
  simp only [printable, Bool.and_eq_true, decide_eq_true_eq] at h
  have hval : (ofChar c).val = c.toNat := rfl
  rw [utf8, if_pos (by omega), hval]

theorem encodeText_ok_iff {t : Text} : (∃ message, encodeText t = .ok message) ↔
    (t.all fun c => !isHigh c && !isLow c) = true := by
  have hnot : (t.all fun c => !isHigh c && !isLow c) = !t.any fun c => isHigh c || isLow c := by
    rw [List.not_any_eq_all_not]
    exact congrArg (t.all ·) (funext fun c => (Bool.not_or ..).symm)
  rw [encodeText, hnot]
  cases t.any fun c => isHigh c || isLow c <;> simp

theorem encodeText_printable (h : cs.all printable = true) :
    encodeText (cs.map ofChar) = .ok (cs.map fun c => UInt8.ofNat c.toNat) := by
  rw [List.all_eq_true] at h
  have hscalar : ¬ (cs.map ofChar).any (fun c => isHigh c || isLow c) = true := by
    rw [List.any_map, List.any_eq_true]
    rintro ⟨c, hc, hsurrogate⟩
    have hprintable := h c hc
    have hval : (ofChar c).val = c.toNat := rfl
    simp only [printable, Bool.and_eq_true, decide_eq_true_eq] at hprintable
    simp only [Function.comp_apply, Bool.or_eq_true, isHigh_iff, isLow_iff] at hsurrogate
    omega
  rw [encodeText, if_neg hscalar, List.flatMap_map]
  rw [List.map_eq_flatMap]
  exact congrArg Except.ok (List.flatMap_congr fun c hc => utf8_printable (h c hc))

omit [SetText F] in
theorem loadsBytes_printable (h : cs.all printable = true) :
    loadsBytes R (cs.map fun c => UInt8.ofNat c.toNat) =
      match loads (String.ofList cs) with
      | .ok v => .ok v
      | .error _ => .error .valueError := by
  rw [List.all_eq_true] at h
  have hbyte : ∀ c ∈ cs, (UInt8.ofNat c.toNat).toNat = c.toNat := by
    intro c hc
    have hprintable := h c hc
    simp only [printable, Bool.and_eq_true, decide_eq_true_eq] at hprintable
    rw [UInt8.toNat_ofNat']
    omega
  have hascii : (cs.map fun c => UInt8.ofNat c.toNat).all
      (fun b => 0 < b.toNat && b.toNat < 0x80) = true := by
    rw [List.all_eq_true]
    refine List.forall_mem_map.mpr fun c hc => ?_
    have hprintable := h c hc
    simp only [printable, Bool.and_eq_true, decide_eq_true_eq] at hprintable
    rw [hbyte c hc, Bool.and_eq_true, decide_eq_true_eq, decide_eq_true_eq]
    omega
  have hback : (cs.map fun c => UInt8.ofNat c.toNat).map (fun b => Char.ofNat b.toNat) = cs := by
    rw [List.map_map]
    refine (List.map_congr_left fun c hc => ?_).trans cs.map_id
    show Char.ofNat (UInt8.ofNat c.toNat).toNat = c
    rw [hbyte c hc, Char.ofNat_toNat]
  rw [loadsBytes, if_pos hascii, hback]

end Texts

/-! ### Claims as JSON -/

section Written

theorem jsonTreeElems_iff {F : Type} (xs : List (PyValue F)) :
    jsonTreeElems xs = true ↔ ∀ x ∈ xs, jsonTree x = true :=
  all_iff rfl (fun _ _ => rfl) xs

theorem jsonTreeItems_iff {F : Type} (items : List (Key × PyValue F)) :
    jsonTreeItems items = true ↔ ∀ p ∈ items, jsonTree p.2 = true :=
  all_iff rfl (fun _ _ => rfl) items

/-- A tree is written, in printable characters. -/
theorem exists_emit (v : PyValue F) (h : jsonTree v = true) :
    ∃ t, emit v = .ok t ∧ (t.render .compact).all printable = true := by
  induction v with
  | none => exact ⟨.null, rfl, rfl⟩
  | bool b => exact ⟨.bool b, rfl, by cases b <;> rfl⟩
  | int i => exact ⟨.int i, rfl, printable_intText i⟩
  | str s => exact ⟨.str s, rfl, printable_quote s⟩
  | float | tuple | set => cases h
  | list xs ih =>
    obtain ⟨ts, hts, hwritten⟩ := exists_mapM fun x hx => ih x hx ((jsonTreeElems_iff xs).mp h x hx)
    refine ⟨.arr ts, by rw [emit, emitElems_eq_mapM, hts]; rfl, printable_arr fun t ht => ?_⟩
    obtain ⟨-, -, hprintable⟩ := exists_left hwritten ht
    exact hprintable
  | dict items ih =>
    rw [jsonTree, Bool.and_eq_true, Bool.and_eq_true, jsonTreeItems_iff] at h
    obtain ⟨ts, hts, hwritten⟩ := exists_mapM_values (g := emit)
      (R := fun _ t => (t.render .compact).all printable = true) fun p hp => ih p hp (h.2 p hp)
    rw [← emitItems_eq_mapM] at hts
    have hsortable : keysSortable items = true := by
      rw [keysSortable, h.1.2, Bool.true_or]
    obtain ⟨ms, hms⟩ :=
      (sortItems_ok_iff ts).mpr ((keysSortable_congr (keys_emitItems hts)).trans hsortable)
    refine ⟨.obj ms, ?_, printable_obj fun m hm => ?_⟩
    · rw [emit, hts]
      exact congrArg (· >>= fun ms => .ok (Document.obj ms)) hms
    · have hmem := (perm_values_sortItems hms).mem_iff.mp (List.mem_map_of_mem (f := Prod.snd) hm)
      obtain ⟨q, hq, heq⟩ := List.mem_map.mp hmem
      obtain ⟨-, -, -, hprintable⟩ := exists_left hwritten hq
      exact heq ▸ hprintable

/-- The bytes of a tree's text, and what is read of them. -/
theorem dumpsBytes_tree {v : PyValue F} (h : jsonTree v = true) : ∃ data t,
    emit v = .ok t ∧ dumpsBytes v = .ok data ∧ loadsBytes R data = .ok (load t.join) := by
  obtain ⟨t, ht, hprintable⟩ := exists_emit v h
  have hdumps : dumps .compact v = .ok (String.ofList (t.render .compact)) := by
    rw [dumps, ht]
    rfl
  refine ⟨(t.render .compact).map fun c => UInt8.ofNat c.toNat, t, ht, ?_, ?_⟩
  · rw [dumpsBytes, hdumps]
    show encodeText (ofString _) = _
    rw [ofString, String.toList_ofList, encodeText_printable hprintable]
  · rw [loadsBytes_printable R hprintable, loads, String.toList_ofList, parse_render]

end Written

/-! ### A token of claims -/

section Made
variable {claims : Claims F} {now later ttlSeconds : Int} {jti : Text}

omit [FloatCodec F] [SetText F] in
theorem Claims.spec (claims : Claims F) : (claims.items.map Prod.fst).Nodup ∧
    (∀ p ∈ claims.items, p.1.str?.isSome = true) ∧ ∀ p ∈ claims.items, jsonTree p.2 = true := by
  have htree := claims.tree
  simp only [jsonTree, Bool.and_eq_true, decide_eq_true_eq, List.all_eq_true,
    jsonTreeItems_iff] at htree
  exact ⟨htree.1.1, htree.1.2, htree.2⟩

omit [FloatCodec F] [SetText F] in
/-- The updated claims are JSON too. -/
theorem tree_payload (claims : Claims F) (now ttlSeconds : Int) (jti : Text) :
    jsonTree (payload now ttlSeconds jti claims.items) = true := by
  obtain ⟨hnodup, hkeys, htrees⟩ := claims.spec
  have hall : ∀ p ∈ setItems claims.items [(key "iat", PyValue.int now),
      (key "exp", .int (now + ttlSeconds)), (key "jti", .str jti)],
      p.1.str?.isSome = true ∧ jsonTree p.2 = true := by
    refine forall_setItems (fun p hp => ⟨hkeys p hp, htrees p hp⟩) ?_
    simp only [List.forall_mem_cons]
    exact ⟨⟨rfl, rfl⟩, ⟨rfl, rfl⟩, ⟨rfl, rfl⟩, List.forall_mem_nil _⟩
  simp only [payload, jsonTree, Bool.and_eq_true, decide_eq_true_eq, List.all_eq_true,
    jsonTreeItems_iff]
  exact ⟨⟨nodup_setItems _ hnodup, fun p hp => (hall p hp).1⟩, fun p hp => (hall p hp).2⟩

omit [FloatCodec F] [SetText F] in
theorem encodeText_signed (data data' : Bytes) : ∃ message,
    encodeText (base64url data ++ dot :: base64url data') = .ok message := by
  refine encodeText_ok_iff.mpr ?_
  have hdata := isAscii_base64url data
  have hdata' := isAscii_base64url data'
  have hscalar : ∀ {t : Text}, isAscii t = true → ∀ c ∈ t, (!isHigh c && !isLow c) = true := by
    intro t ht c hc
    have hlt : c.val < 0x80 := of_decide_eq_true (List.all_eq_true.mp ht c hc)
    simp only [isHigh, isLow, Bool.and_eq_true, Bool.not_eq_true', Bool.and_eq_false_iff,
      decide_eq_false_iff_not]
    omega
  rw [List.all_append, List.all_cons, Bool.and_eq_true, Bool.and_eq_true,
    List.all_eq_true, List.all_eq_true]
  exact ⟨hscalar hdata, rfl, hscalar hdata'⟩

/-- A token of three segments, and the bytes that the second is of. -/
theorem encode_eq (J : JWTToken) (claims : Claims F) (now ttlSeconds : Int) :
    ∃ jti header data sig t, deriveJti R (.dict claims.items) = .ok jti ∧
      joinSurrogates jti = jti ∧
      emit (payload now ttlSeconds jti claims.items) = .ok t ∧ loadsBytes R data =
        .ok (load t.join) ∧
      J.signature R (base64url header) (base64url data) = .ok (base64url sig) ∧
      J.encode R now claims.items ttlSeconds =
        .ok (base64url header ++ dot :: (base64url data ++ dot :: base64url sig)) := by
  obtain ⟨claimsData, -, -, hclaims, -⟩ := dumpsBytes_tree R claims.tree
  have hjti : deriveJti R (.dict claims.items) =
      .ok ((ofString (R.sha256Hex claimsData)).take 16) := by
    rw [deriveJti, hclaims]
    rfl
  let jti := (ofString (R.sha256Hex claimsData)).take 16
  obtain ⟨data, t, ht, hdata, hloads⟩ := dumpsBytes_tree R (tree_payload claims now ttlSeconds jti)
  have hheaderTree : jsonTree (F := F) (.dict [(key "alg", .str (ofString "HS256")),
      (key "typ", .str (ofString "JWT"))]) = true := by
    rfl
  obtain ⟨header, -, -, hheader, -⟩ := dumpsBytes_tree R hheaderTree
  obtain ⟨message, hmessage⟩ := encodeText_signed header data
  have hsig : J.signature R (base64url header) (base64url data) =
      .ok (base64url (R.hmac J.secret message)) := by
    rw [JWTToken.signature, hmessage]
    rfl
  have hjoined : joinSurrogates jti = jti := by
    have hstring : jti = ofString (String.ofList ((R.sha256Hex claimsData).toList.take 16)) := by
      rw [ofString, String.toList_ofList, List.map_take]
      rfl
    rw [hstring, joinSurrogates_ofString]
  refine ⟨jti, header, data, R.hmac J.secret message, t, hjti, hjoined, ht, hloads, hsig, ?_⟩
  rw [JWTToken.encode, encodeSegment, hheader]
  show (deriveJti R (.dict claims.items) >>= _) = _
  rw [hjti]
  show (encodeSegment (payload now ttlSeconds jti claims.items) >>= _) = _
  rw [encodeSegment, hdata]
  show (J.signature R (base64url header) (base64url data) >>= _) = _
  rw [hsig]
  rfl

omit [FloatCodec F] [SetText F] in
theorem mem_payload (claims : Claims F) (now ttlSeconds : Int) (jti : Text) {p : Key × PyValue F} :
    p ∈ setItems claims.items [(key "iat", PyValue.int now),
        (key "exp", .int (now + ttlSeconds)), (key "jti", .str jti)] ↔
      p ∈ [(key "iat", PyValue.int now), (key "exp", .int (now + ttlSeconds)),
        (key "jti", .str jti)] ∨
      p ∈ claims.items ∧ p.1 ∉ [key "iat", key "exp", key "jti"] := by
  let new : List (Key × PyValue F) :=
    [(key "iat", .int now), (key "exp", .int (now + ttlSeconds)), (key "jti", .str jti)]
  have hnew : (new.map Prod.fst).Nodup := by
    show [key "iat", key "exp", key "jti"].Nodup
    decide
  obtain ⟨k, v⟩ := p
  show (k, v) ∈ setItems claims.items new ↔ (k, v) ∈ new ∨ (k, v) ∈ claims.items ∧ _
  rw [mem_items_iff (nodup_setItems _ claims.spec.1), lookupItem_setItems_or hnew,
    mem_items_iff hnew, mem_items_iff claims.spec.1]
  show _ ↔ _ ∨ _ ∧ k ∉ new.map Prod.fst
  cases hfound : lookupItem k new with
  | none =>
    have hnot : k ∉ new.map Prod.fst := by
      intro hmem
      obtain ⟨q, hq, rfl⟩ := List.mem_map.mp hmem
      rw [(mem_items_iff hnew).mp hq] at hfound
      cases hfound
    simp [hnot]
  | some w =>
    have hmem : k ∈ new.map Prod.fst :=
      List.mem_map_of_mem (f := Prod.fst) (mem_of_lookupItem hfound)
    simp [hmem]

omit [FloatCodec F] [SetText F] in
/-- The updated claims are such that JSON gives them back exactly if the texts of the claims
are. -/
theorem json_payload_iff (claims : Claims F) (now ttlSeconds : Int)
    (hjti : joinSurrogates jti = jti) :
    (payload now ttlSeconds jti claims.items).json = true ↔ Joinless claims := by
  have hnodup := nodup_setItems [(key "iat", PyValue.int now),
    (key "exp", .int (now + ttlSeconds)), (key "jti", .str jti)] claims.spec.1
  simp only [payload, PyValue.json, Bool.and_eq_true, decide_eq_true_eq, List.all_eq_true,
    jsonItems_iff, hnodup, true_and]
  constructor
  · intro h p hp hkey
    have hmem := (mem_payload claims now ttlSeconds jti).mpr (.inr ⟨hp, hkey⟩)
    exact ⟨h.1 p hmem, h.2 p hmem⟩
  · intro h
    have hplain : ∀ s : String, (key s).plain = true := fun s =>
      decide_eq_true (joinSurrogates_ofString s)
    have hall : ∀ p ∈ setItems claims.items [(key "iat", PyValue.int now),
        (key "exp", .int (now + ttlSeconds)), (key "jti", .str jti)],
        p.1.plain = true ∧ p.2.json = true := by
      intro p hp
      rcases (mem_payload claims now ttlSeconds jti).mp hp with hnew | ⟨hold, hkey⟩
      · simp only [List.mem_cons, List.not_mem_nil, or_false] at hnew
        rcases hnew with rfl | rfl | rfl
        · exact ⟨hplain _, rfl⟩
        · exact ⟨hplain _, rfl⟩
        · exact ⟨hplain _, decide_eq_true hjti⟩
      · exact h p hold hkey
    exact ⟨fun p hp => (hall p hp).1, fun p hp => (hall p hp).2⟩

omit [FloatCodec F] in
/-- The time of expiry comes back, whatever becomes of the texts. -/
theorem expired_payload {t : Document F}
    (ht : emit (payload now ttlSeconds jti claims.items) = .ok t) :
    expired R later (load t.join) = .ok (decide (now + ttlSeconds < later)) := by
  have hnodup := nodup_setItems [(key "iat", PyValue.int now),
    (key "exp", .int (now + ttlSeconds)), (key "jti", .str jti)] claims.spec.1
  obtain ⟨items, hload, hlookup⟩ := lookup_reread hnodup ht
  have hmem : (key "exp", PyValue.int (now + ttlSeconds)) ∈ setItems claims.items
      [(key "iat", PyValue.int now), (key "exp", .int (now + ttlSeconds)),
        (key "jti", .str jti)] :=
    (mem_payload claims now ttlSeconds jti).mpr
      (.inl (List.mem_cons_of_mem _ (List.mem_cons_self ..)))
  have hsmall : ∀ c ∈ ofString "exp", c.val < 0x10000 := by
    intro c hc
    obtain ⟨d, hd, rfl⟩ := List.mem_map.mp hc
    have hletters : ("exp".toList.all fun d => d.toNat < 0x10000) = true := rfl
    exact of_decide_eq_true (List.all_eq_true.mp hletters d hd)
  obtain ⟨tx, htx, hfound⟩ := hlookup (ofString "exp") _ hmem (joinSurrogates_ofString "exp")
    fun s' y _ hjoin => eq_of_joinSurrogates hjoin hsmall
  cases htx
  rw [hload, expired, show lookupItem (key "exp") items = _ from hfound]
  rfl

theorem splitOn_segments {a b c : Text} (ha : dot ∉ a) (hb : dot ∉ b) (hc : dot ∉ c) :
    (a ++ dot :: (b ++ dot :: c)).splitOn dot = [a, b, c] := by
  rw [List.splitOn_append_cons_self_of_not_mem ha, List.splitOn_append_cons_self_of_not_mem hb,
    List.splitOn_eq_singleton hc]

/-- A token of claims is decoded to what is read of them, if it has not expired. -/
theorem decode_encode (J : JWTToken) (claims : Claims F) (now later ttlSeconds : Int) :
    ∃ jti token t, deriveJti R (.dict claims.items) = .ok jti ∧ joinSurrogates jti = jti ∧
      emit (payload now ttlSeconds jti claims.items) = .ok t ∧
      J.encode R now claims.items ttlSeconds = .ok token ∧
      J.decode R later token =
        if now + ttlSeconds < later then .error (.authenticationError "token_expired")
        else .ok (load t.join) := by
  obtain ⟨jti, header, data, sig, t, hjti, hjoined, ht, hloads, hsig, htoken⟩ :=
    encode_eq R J claims now ttlSeconds
  refine ⟨jti, _, t, hjti, hjoined, ht, htoken, ?_⟩
  have hsplit := splitOn_segments (dot_not_mem_base64url header) (dot_not_mem_base64url data)
    (dot_not_mem_base64url sig)
  have hcompare : compareDigest (base64url sig) (base64url sig) = .ok true := by
    rw [compareDigest, isAscii_base64url]
    simp
  rw [JWTToken.decode, hsplit]
  show (J.signature R (base64url header) (base64url data) >>= _) = _
  rw [hsig]
  show (compareDigest (base64url sig) (base64url sig) >>= _) = _
  rw [hcompare]
  show (base64urlDecode (base64url data) >>= _) = _
  rw [base64urlDecode_base64url]
  show (loadsBytes R data >>= _) = _
  rw [hloads]
  show (expired R later (load t.join) >>= _) = _
  rw [expired_payload R ht]
  show (if decide (now + ttlSeconds < later) = true then _ else _) = _
  by_cases hlate : now + ttlSeconds < later
  · rw [if_pos hlate, if_pos (decide_eq_true hlate)]
  · rw [if_neg hlate, if_neg (by simpa using hlate)]
    rfl

end Made

/-- What comes back as it was, is what JSON gives back. -/
theorem json_of_same {F : Type} (v w : PyValue F) (h : jsonTree v = true) (hsame : v.same w)
    (hw : w.json = true) : v.json = true := by
  induction v generalizing w with
  | none | bool | int => rfl
  | float | tuple | set => cases h
  | str s =>
    cases w with
    | str t => exact (show s = t from hsame) ▸ hw
    | _ => cases hsame
  | list xs ih =>
    cases w with
    | list ys =>
      refine (jsonElems_iff xs).mpr fun x hx => ?_
      obtain ⟨y, hy, hxy⟩ := exists_right (sameElems_iff.mp hsame) hx
      exact ih x hx y ((jsonTreeElems_iff xs).mp h x hx) hxy ((jsonElems_iff ys).mp hw y hy)
    | _ => cases hsame
  | dict items ih =>
    cases w with
    | dict items' =>
      obtain ⟨-, hplain, hvalues⟩ := json_dict_iff.mp hw
      simp only [jsonTree, Bool.and_eq_true, decide_eq_true_eq, jsonTreeItems_iff] at h
      have hfound := sameItems_iff.mp hsame.2
      refine json_dict_iff.mpr ⟨h.1.1, fun p hp => ?_, fun p hp => ?_⟩
      · obtain ⟨v, hv, -⟩ := hfound p hp
        exact hplain (p.1, v) (mem_of_lookupItem hv)
      · obtain ⟨v, hv, hpv⟩ := hfound p hp
        exact ih p hp v (h.2 p hp) hpv (hvalues (p.1, v) (mem_of_lookupItem hv))
    | _ => cases hsame

/-! ### The contract -/

section Contract
variable (J : JWTToken)

/-- Claims come back if they have not expired, exactly if their texts do. -/
theorem roundTrips_iff (claims : Claims F) (ttlSeconds now later : Int) :
    RoundTrips R J claims ttlSeconds now later ↔
      now + ttlSeconds < later ∨ Joinless claims := by
  obtain ⟨jti, token, t, hjti, hjoined, ht, htoken, hdecode⟩ :=
    decode_encode R J claims now later ttlSeconds
  have hloaded : t.join.join = t.join := join_of_parse (parse_render .compact t)
  constructor
  · rintro ⟨jti', token', hjti', htoken', h⟩
    obtain rfl := Except.ok.inj (hjti.symm.trans hjti')
    obtain rfl := Except.ok.inj (htoken.symm.trans htoken')
    refine or_iff_not_imp_left.mpr fun hlate => (json_payload_iff claims now ttlSeconds hjoined).mp
      ?_
    rw [if_pos (not_lt.mp hlate), hdecode, if_neg hlate] at h
    obtain ⟨p, hp, hsame⟩ := h
    obtain rfl := Except.ok.inj hp
    exact json_of_same _ _ (tree_payload claims now ttlSeconds jti) hsame
      (json_load t.join hloaded)
  · intro h
    refine ⟨jti, token, hjti, htoken, ?_⟩
    by_cases hlate : now + ttlSeconds < later
    · rw [if_neg (not_le.mpr hlate)]
      exact ⟨_, hdecode.trans (if_pos hlate)⟩
    · rw [if_pos (not_lt.mp hlate)]
      refine ⟨load t.join, hdecode.trans (if_neg hlate), ?_⟩
      have hjson := (json_payload_iff claims now ttlSeconds hjoined).mpr (h.resolve_left hlate)
      obtain ⟨u, hu, hsame⟩ := same_reread _ hjson
      obtain rfl := Except.ok.inj (ht.symm.trans hu)
      exact hsame

/-- What two strings are told apart by, where they can be compared. -/
theorem compareDigest_base64url {sig : Text} {data : Bytes} (h : sig ≠ base64url data) :
    compareDigest sig (base64url data) = if isAscii sig then .ok false else .error .typeError := by
  rw [compareDigest, isAscii_base64url, Bool.and_true, decide_eq_false h]

theorem encodeText_cases (header body : Text) :
    ((header ++ body).all fun c => !isHigh c && !isLow c) = true ∧
      (∃ message, encodeText (header ++ dot :: body) = .ok message) ∨
    ¬ ((header ++ body).all fun c => !isHigh c && !isLow c) = true ∧
      encodeText (header ++ dot :: body) = .error .unicodeEncodeError := by
  have hall : ((header ++ dot :: body).all fun c => !isHigh c && !isLow c) =
      (header ++ body).all fun c => !isHigh c && !isLow c := by
    rw [List.all_append, List.all_cons, List.all_append]
    exact congrArg (_ && ·) (Bool.true_and _)
  by_cases h : ((header ++ body).all fun c => !isHigh c && !isLow c) = true
  · exact .inl ⟨h, encodeText_ok_iff.mpr (hall.trans h)⟩
  · refine .inr ⟨h, ?_⟩
    cases hencode : encodeText (header ++ dot :: body) with
    | ok message => exact absurd (hall.symm.trans (encodeText_ok_iff.mp ⟨message, hencode⟩)) h
    | error e =>
      rw [encodeText] at hencode
      split at hencode
      · exact hencode.symm
      · cases hencode

omit [SetText F] in
/-- A forged token is refused as such exactly if its strings can be compared. -/
theorem refused_iff {token : Text} (h : Forged R J token) (now : Int) :
    Refused R J now token ↔ Comparable token := by
  by_cases hparts : ∃ header body sig, token.splitOn dot = [header, body, sig]
  · obtain ⟨header, body, sig, hsplit⟩ := hparts
    have hcomparable : Comparable token ↔
        ((header ++ body).all fun c => !isHigh c && !isLow c) = true ∧ isAscii sig = true := by
      refine ⟨fun hall => hall header body sig hsplit, fun hboth header' body' sig' hsplit' => ?_⟩
      cases hsplit.symm.trans hsplit'
      exact hboth
    have hforged := h header body sig hsplit
    rw [hcomparable, Refused, JWTToken.decode, hsplit]
    show (∃ reason, (J.signature R header body >>= _) = _) ↔ _
    rw [JWTToken.signature] at hforged ⊢
    rcases encodeText_cases header body with ⟨hscalar, message, hmessage⟩ | ⟨hscalar, hmessage⟩
    · rw [hmessage] at hforged ⊢
      have hne : sig ≠ base64url (R.hmac J.secret message) := by
        rintro rfl
        exact hforged rfl
      show (∃ reason, (compareDigest sig (base64url (R.hmac J.secret message)) >>= _) = _) ↔ _
      rw [compareDigest_base64url hne]
      by_cases hascii : isAscii sig = true
      · rw [if_pos hascii]
        exact ⟨fun _ => ⟨hscalar, hascii⟩, fun _ => ⟨"signature_mismatch", rfl⟩⟩
      · rw [if_neg hascii]
        refine ⟨fun ⟨reason, hreason⟩ => ?_, fun hboth => absurd hboth.2 hascii⟩
        cases hreason
    · rw [hmessage]
      refine ⟨fun ⟨reason, hreason⟩ => ?_, fun hboth => absurd hboth.1 hscalar⟩
      cases hreason
  · refine ⟨fun _ header body sig hsplit => absurd ⟨header, body, sig, hsplit⟩ hparts, fun _ => ?_⟩
    refine ⟨"invalid_token_format", ?_⟩
    rw [JWTToken.decode]
    split
    · exact absurd ⟨_, _, _, ‹_›⟩ hparts
    · rfl

/-- What is made of claims, of forged tokens and of bytes, and when it is what it should be. -/
theorem token_contract_iff :
    (∀ (claims : Claims F) (ttlSeconds now later : Int),
      RoundTrips R J claims ttlSeconds now later ↔ now + ttlSeconds < later ∨ Joinless claims) ∧
    (∀ (now : Int) (token : Text), (Forged R J token → Refused R J now token) ↔
      (Forged R J token → Comparable token)) ∧
    ∀ data : Bytes, base64urlDecode (base64url data) = .ok data :=
  ⟨roundTrips_iff R J, fun now _ => forall_congr' fun h => refused_iff R J h now,
    base64urlDecode_base64url⟩

end Contract

/-! ### A letter with an accent -/

/-- A key that leaves every message as it is. -/
def plainRuntime : Runtime Literal where
  sha256Hex := fun _ => ""
  hmac := fun _ message => message
  loadsOther := fun _ => .error .valueError
  floatLess := fun _ _ => false

def accented : Text := ofString "a.b.é"

/-- The token is forged, and what is raised is not that it is not authentic. -/
theorem accented_not_refused : (∀ secret, Function.Injective (plainRuntime.hmac secret)) ∧
    Forged plainRuntime ⟨[]⟩ accented ∧ ¬ Refused plainRuntime ⟨[]⟩ 0 accented := by
  have hsplit : accented.splitOn dot = [ofString "a", ofString "b", ofString "é"] := by decide
  have hdecode : JWTToken.decode plainRuntime ⟨[]⟩ 0 accented = .error .typeError := by
    rw [JWTToken.decode, hsplit]
    rfl
  refine ⟨fun _ _ _ h => h, fun header body sig h hsig => ?_, fun ⟨reason, hreason⟩ => ?_⟩
  · cases hsplit.symm.trans h
    have hascii := isAscii_base64url [97, 46, 98]
    rw [show base64url [97, 46, 98] = ofString "é" from Except.ok.inj hsig] at hascii
    exact absurd hascii (by decide)
  · cases hdecode.symm.trans hreason

end PiPlatform.Production.Tokens
