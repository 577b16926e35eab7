import Mathlib.Data.String.Basic
import PiPlatform.EventFabric.Port.Gates
import PiPlatform.Library.Json.Compact
import PiPlatform.Library.StableSort

/-! The text that the Rust event bus hashes.

`dumps_canonical` writes a JSON value in ASCII with its keys sorted. An event's hash is that of
two such texts with nothing in between: the eight identity fields of the header, and the
payload. `preImage_determines`: nothing is lost in it but the order of keys. -/
namespace PiPlatform.EventFabric.Port.Canonical

open Library Library.Json Library.Serde
open Gates.Number (ofI64)

/-! ### Writing -/

/-- `format!("{:e}", x)`, the mantissa and the exponent. -/
abbrev LowerExp := Dyadic → List Char × Int

def formatFixed (digits : List Char) (decpt : Int) : List Char :=
  if decpt ≤ 0 then '0' :: '.' :: (List.replicate (-decpt).toNat '0' ++ digits)
  else if (digits.length : Int) ≤ decpt then
    digits ++ (List.replicate (decpt - digits.length).toNat '0' ++ ['.', '0'])
  else digits.take decpt.toNat ++ '.' :: digits.drop decpt.toNat

def formatExponential (digits : List Char) (decpt : Int) : List Char :=
  let e := decpt - 1
  let rest := digits.drop 1
  let mantissa := if rest = [] then digits.take 1 else digits.take 1 ++ '.' :: rest
  let exponent := if e.natAbs < 10 then '0' :: intText e.natAbs else intText e.natAbs
  mantissa ++ 'e' :: (if e < 0 then '-' else '+') :: exponent

section Writing
variable (lowerExp : LowerExp)

def pyFloatRepr (x : Dyadic) : List Char :=
  let (mantissa, exp) := lowerExp (if x < 0 then -x else x)
  let digits := mantissa.filter (· ≠ '.')
  let decpt := exp + 1
  let body :=
    if -4 < decpt ∧ decpt ≤ 16 then formatFixed digits decpt else formatExponential digits decpt
  if x < 0 then '-' :: body else body

/-- `n.as_i64()` -/
def asI64 : Number → Option Int
  | .posInt n => if n < 2 ^ 63 then some n else none
  | .negInt i => some i
  | .float _ => none

/-- `n.as_u64()` -/
def asU64 : Number → Option Nat
  | .posInt n => some n
  | _ => none

def writeNumber (n : Number) : List Char :=
  match asI64 n with
  | some i => intText i
  | none =>
    match asU64 n with
    | some u => intText u
    | none => pyFloatRepr lowerExp n.asF64

def writeChar (c : Char) : List Char :=
  match c with
  | '"' => ['\\', '"']
  | '\\' => ['\\', '\\']
  | '\n' => ['\\', 'n']
  | '\r' => ['\\', 'r']
  | '\t' => ['\\', 't']
  | '\x08' => ['\\', 'b']
  | '\x0c' => ['\\', 'f']
  | c =>
    if ' ' ≤ c ∧ c ≤ '~' then [c]
    else
      let cp := c.toNat
      if cp ≤ 0xFFFF then unicodeEscape cp
      else
        let v := cp - 0x10000
        unicodeEscape (0xD800 + v >>> 10) ++ unicodeEscape (0xDC00 + (v &&& 0x3FF))

def writeStringAscii (s : String) : List Char := '"' :: (s.toList.flatMap writeChar ++ ['"'])

/-- A member of an object. -/
def writeMember (m : String × List Char) : List Char := writeStringAscii m.1 ++ ':' :: m.2

mutual

/-- The keys of a map are distinct, so its members in the order of their keys are its sorted
keys, each with what it maps to. -/
def writeValue : Value → List Char
  | .null => ['n', 'u', 'l', 'l']
  | .bool b => if b then ['t', 'r', 'u', 'e'] else ['f', 'a', 'l', 's', 'e']
  | .number n => writeNumber lowerExp n
  | .string s => writeStringAscii s
  | .array xs => '[' :: ([','].intercalate (writeElems xs) ++ [']'])
  | .object es =>
    '{' :: ([','].intercalate ((sortBy Prod.fst (writeEntries es)).map writeMember) ++ ['}'])

def writeElems : List Value → List (List Char)
  | [] => []
  | x :: xs => writeValue x :: writeElems xs

def writeEntries : List (String × Value) → List (String × List Char)
  | [] => []
  | (k, v) :: es => (k, writeValue v) :: writeEntries es

end

def dumpsCanonical (v : Value) : String := String.ofList (writeValue lowerExp v)

end Writing

/-! ### Events -/

structure EventHeader where
  eventId : String
  eventType : String
  partitionKey : String
  partitionOffset : Int64
  timestamp : String
  orderingKey : String
  authorTenantId : String
  authorActorId : String
  correlationId : String
  previousEventHash : String
  payloadHash : String

def EventHeader.identityValue (h : EventHeader) : Value :=
  .object [("event_type", .string h.eventType), ("partition_key", .string h.partitionKey),
    ("partition_offset", .number (ofI64 h.partitionOffset)),
    ("author_tenant_id", .string h.authorTenantId), ("author_actor_id", .string h.authorActorId),
    ("correlation_id", .string h.correlationId),
    ("previous_event_hash", .string h.previousEventHash), ("payload_hash", .string h.payloadHash)]

section Hash
variable (lowerExp : LowerExp)

/-- `format!("{header_json}{payload_json}")` -/
def preImage (header : EventHeader) (payload : Value) : String :=
  let headerJson := dumpsCanonical lowerExp header.identityValue
  let payloadJson := dumpsCanonical lowerExp payload
  headerJson ++ payloadJson

def computeHash (sha256Hex : String → String) (header : EventHeader) (payload : Value) : String :=
  sha256Hex (preImage lowerExp header payload)

end Hash

/-- The two headers agree in the fields that are hashed. -/
structure SameIdentity (h h' : EventHeader) : Prop where
  eventType : h.eventType = h'.eventType
  partitionKey : h.partitionKey = h'.partitionKey
  partitionOffset : h.partitionOffset = h'.partitionOffset
  authorTenantId : h.authorTenantId = h'.authorTenantId
  authorActorId : h.authorActorId = h'.authorActorId
  correlationId : h.correlationId = h'.correlationId
  previousEventHash : h.previousEventHash = h'.previousEventHash
  payloadHash : h.payloadHash = h'.payloadHash

/-! ### Values without floats -/

/-- An integer as `serde_json` holds it. -/
def integral : Number → Bool
  | .posInt n => n < 2 ^ 64
  | .negInt i => -2 ^ 63 ≤ i ∧ i < 0
  | .float _ => false

mutual

/-- No float, and no key twice. -/
def floatless : Value → Bool
  | .number n => integral n
  | .array xs => floatlessElems xs
  | .object es => decide (es.map Prod.fst).Nodup && floatlessEntries es
  | _ => true

def floatlessElems : List Value → Bool
  | [] => true
  | x :: xs => floatless x && floatlessElems xs

def floatlessEntries : List (String × Value) → Bool
  | [] => true
  | (_, v) :: es => floatless v && floatlessEntries es

end

structure Payload where
  value : Value
  floatless : floatless value = true

/-- The entries of an object. -/
structure Entries where
  entries : List (String × Value)
  floatless : floatless (.object entries) = true

/-! ### The document that is written -/

/-- The number, and no float is one. -/
def documentNumber : Number → Document Literal
  | .posInt n => .int n
  | .negInt i => .int i
  | .float _ => .float .nan

mutual

def document : Value → Document Literal
  | .null => .null
  | .bool b => .bool b
  | .number n => documentNumber n
  | .string s => .str (ofString s)
  | .array xs => .arr (documents xs)
  | .object es => .obj ((sortBy Prod.fst (members es)).map fun m => (ofString m.1, m.2))

def documents : List Value → List (Document Literal)
  | [] => []
  | x :: xs => document x :: documents xs

def members : List (String × Value) → List (String × Document Literal)
  | [] => []
  | (k, v) :: es => (k, document v) :: members es

end

theorem members_eq_map (es : List (String × Value)) :
    members es = es.map fun e => (e.1, document e.2) := by
  induction es with
  | nil => rfl
  | cons e es ih =>
    obtain ⟨k, v⟩ := e
    rw [members, ih, List.map_cons]

theorem keys_members (es : List (String × Value)) :
    (members es).map Prod.fst = es.map Prod.fst := by
  rw [members_eq_map, List.map_map]
  rfl

theorem lookupItem_members (k : String) (es : List (String × Value)) :
    lookupItem k (members es) = (lookupItem k es).map document := by
  induction es with
  | nil => rfl
  | cons e es ih =>
    obtain ⟨j, v⟩ := e
    rw [members, lookupItem, lookupItem, ih]
    split <;> rfl

theorem floatlessEntries_iff (es : List (String × Value)) :
    floatlessEntries es = true ↔ ∀ e ∈ es, floatless e.2 = true := by
  induction es with
  | nil => simp [floatlessEntries]
  | cons e es ih => simp [floatlessEntries, ih]

theorem eqEntries_iff (es es' : List (String × Value)) :
    Value.eqEntries es es' = true ↔
      ∀ e ∈ es, ∃ v, lookupItem e.1 es' = some v ∧ e.2.eq v = true := by
  induction es with
  | nil => simp [Value.eqEntries]
  | cons e es ih =>
    obtain ⟨k, v⟩ := e
    rw [Value.eqEntries, Bool.and_eq_true, ih, List.forall_mem_cons]
    refine and_congr_left fun _ => ?_
    cases lookupItem k es' with
    | none => simp
    | some v' => simp

/-! ### Its text -/

theorem toNat_ofChar (c : Char) : (ofChar c).val = c.toNat := rfl

theorem eq_iff_toNat {c d : Char} : c = d ↔ c.toNat = d.toNat := Char.toNat_inj.symm

/-- The port escapes a character as Python does. -/
theorem writeChar_eq (c : Char) : writeChar c = escapeChar (ofChar c) := by
  unfold writeChar
  split
  iterate 7 exact (by decide)
  · next hquote hslash hnewline hreturn htab hback hfeed =>
    simp only [eq_iff_toNat] at hquote hslash hnewline hreturn htab hback hfeed
    have hprintable : (' ' ≤ c ∧ c ≤ '~') ↔ 0x20 ≤ (ofChar c).val ∧ (ofChar c).val ≤ 0x7E :=
      Iff.rfl
    rw [escapeChar, if_neg (show ¬ (ofChar c).val = 0x22 from hquote),
      if_neg (show ¬ (ofChar c).val = 0x5C from hslash),
      if_neg (show ¬ (ofChar c).val = 0x08 from hback),
      if_neg (show ¬ (ofChar c).val = 0x0C from hfeed),
      if_neg (show ¬ (ofChar c).val = 0x0A from hnewline),
      if_neg (show ¬ (ofChar c).val = 0x0D from hreturn),
      if_neg (show ¬ (ofChar c).val = 0x09 from htab)]
    by_cases hplain : ' ' ≤ c ∧ c ≤ '~'
    · rw [if_pos hplain, if_pos (hprintable.mp hplain), toNat_ofChar, Char.ofNat_toNat]
    · rw [if_neg hplain, if_neg (mt hprintable.mpr hplain)]
      by_cases hbmp : c.toNat ≤ 0xFFFF
      · have hsmall : (ofChar c).val < 0x10000 := by
          rw [toNat_ofChar]
          omega
        rw [if_pos hsmall]
        exact if_pos hbmp
      · have hlarge : ¬ (ofChar c).val < 0x10000 := by
          rw [toNat_ofChar]
          omega
        have hshift : (c.toNat - 0x10000) >>> 10 = (c.toNat - 0x10000) / 0x400 :=
          Nat.shiftRight_eq_div_pow _ 10
        have hmask : (c.toNat - 0x10000) &&& 0x3FF = (c.toNat - 0x10000) % 0x400 :=
          Nat.and_two_pow_sub_one_eq_mod _ 10
        rw [if_neg hlarge, highHalf_val, lowHalf_val, toNat_ofChar, ← hshift, ← hmask]
        exact if_neg hbmp

theorem writeStringAscii_eq (s : String) : writeStringAscii s = quote (ofString s) := by
  have hchars : writeChar = fun c => escapeChar (ofChar c) := funext writeChar_eq
  rw [writeStringAscii, quote, escape, ofString, List.flatMap_map, hchars]

theorem ascii_writeStringAscii (s : String) : ∀ c ∈ writeStringAscii s, c.toNat < 0x80 := by
  intro c hc
  rw [writeStringAscii_eq] at hc
  have hprintable := List.all_eq_true.mp (printable_quote (ofString s)) c hc
  simp only [printable, Bool.and_eq_true, decide_eq_true_eq] at hprintable
  omega

section Text
variable (lowerExp : LowerExp)

theorem writeNumber_eq {n : Number} (h : integral n = true) :
    writeNumber lowerExp n = (documentNumber n).render .compact := by
  cases n with
  | posInt n =>
    by_cases hsmall : n < 2 ^ 63
    · have hi64 : asI64 (.posInt n) = some n := if_pos hsmall
      rw [writeNumber, hi64]
      rfl
    · have hi64 : asI64 (.posInt n) = none := if_neg hsmall
      rw [writeNumber, hi64]
      rfl
  | negInt i => rfl
  | float x => cases h

theorem writeMembers_eq {ms : List (String × List Char)} {ds : List (String × Document Literal)}
    (h : List.Forall₂ (fun m d => m.1 = d.1 ∧ m.2 = d.2.render .compact) ms ds) :
    ms.map writeMember = (ds.map fun d => (ofString d.1, d.2)).map memberText := by
  induction h with
  | nil => rfl
  | @cons m d _ _ hm _ ih =>
    have hmember : writeMember m = memberText (ofString d.1, d.2) := by
      rw [writeMember, memberText, writeStringAscii_eq, hm.1, hm.2]
    rw [List.map_cons, List.map_cons, List.map_cons, ih, hmember]

mutual

/-- What is written of a value is the text of its document. -/
theorem writeValue_eq : ∀ v : Value, floatless v = true →
    writeValue lowerExp v = (document v).render .compact
  | .null, _ => rfl
  | .bool true, _ => rfl
  | .bool false, _ => rfl
  | .number _, h => writeNumber_eq lowerExp h
  | .string s, _ => writeStringAscii_eq s
  | .array xs, h => by rw [writeValue, document, render_arr, writeElems_eq xs h]
  | .object es, h => by
    simp only [floatless, Bool.and_eq_true] at h
    have hsorted := forall₂_sortBy (fun _ _ hm => hm.1) (writeEntries_eq es h.2)
    rw [writeValue, document, render_obj, writeMembers_eq hsorted]

theorem writeElems_eq : ∀ xs : List Value, floatlessElems xs = true →
    writeElems lowerExp xs = (documents xs).map fun x => x.render .compact
  | [], _ => rfl
  | x :: xs, h => by
    simp only [floatlessElems, Bool.and_eq_true] at h
    rw [writeElems, documents, List.map_cons, writeValue_eq x h.1, writeElems_eq xs h.2]

theorem writeEntries_eq : ∀ es : List (String × Value), floatlessEntries es = true →
    List.Forall₂ (fun m d => m.1 = d.1 ∧ m.2 = d.2.render .compact) (writeEntries lowerExp es)
      (members es)
  | [], _ => .nil
  | (k, v) :: es, h => by
    simp only [floatlessEntries, Bool.and_eq_true] at h
    exact .cons ⟨rfl, writeValue_eq v h.1⟩ (writeEntries_eq es h.2)

end

end Text

mutual

/-- There is nothing to join in a document of Rust's strings. -/
theorem join_document : ∀ v : Value, (document v).join = document v
  | .null | .bool _ => rfl
  | .number n => by cases n <;> rfl
  | .string s => congrArg Document.str (joinSurrogates_ofString s)
  | .array xs => congrArg Document.arr (join_documents xs)
  | .object es => by
    rw [document, Document.join, joinMembers_eq_map, List.map_map]
    refine congrArg Document.obj (List.map_congr_left fun m hm => ?_)
    have hmem : m ∈ members es := (stableSort_sortBy Prod.fst (members es)).mem_iff.mp hm
    show (joinSurrogates (ofString m.1), m.2.join) = (ofString m.1, m.2)
    rw [joinSurrogates_ofString, join_members es m hmem]

theorem join_documents : ∀ xs : List Value, joinElems (documents xs) = documents xs
  | [] => rfl
  | x :: xs => by rw [documents, joinElems, join_document x, join_documents xs]

theorem join_members : ∀ es : List (String × Value), ∀ m ∈ members es, m.2.join = m.2
  | [], _, h => absurd h List.not_mem_nil
  | (_, v) :: es, m, h => by
    rcases List.mem_cons.mp h with rfl | h
    · exact join_document v
    · exact join_members es m h

end

/-! ### Documents and equality -/

theorem documentNumber_inj {n m : Number} (hn : integral n = true) (hm : integral m = true) :
    documentNumber n = documentNumber m ↔ n = m := by
  cases n with
  | float x => cases hn
  | posInt n =>
    cases m with
    | float y => cases hm
    | posInt m => simp [documentNumber]
    | negInt j =>
      have hneg : j < 0 := (of_decide_eq_true hm).2
      simp only [documentNumber, Document.int.injEq, reduceCtorEq, iff_false]
      omega
  | negInt i =>
    have hneg : i < 0 := (of_decide_eq_true hn).2
    cases m with
    | float y => cases hm
    | posInt m =>
      simp only [documentNumber, Document.int.injEq, reduceCtorEq, iff_false]
      omega
    | negInt j => simp [documentNumber]

/-- The members are written alike exactly when each is found in the other map, written alike. -/
theorem document_object_eq_iff {es es' : List (String × Value)} (hnodup : (es.map Prod.fst).Nodup)
    (hnodup' : (es'.map Prod.fst).Nodup) :
    document (.object es) = document (.object es') ↔ es.length = es'.length ∧
      ∀ e ∈ es, ∃ v, lookupItem e.1 es' = some v ∧ document e.2 = document v := by
  have hinj : Function.Injective fun m : String × Document Literal => (ofString m.1, m.2) :=
    fun m n h => Prod.ext (ofString_injective (Prod.mk.inj h).1) (Prod.mk.inj h).2
  have hkeys := keys_members es
  have hkeys' := keys_members es'
  rw [document, document, Document.obj.injEq, (List.map_injective_iff.mpr hinj).eq_iff,
    sortBy_eq_iff (hkeys ▸ hnodup), perm_iff_lookupItem (hkeys ▸ hnodup) (hkeys' ▸ hnodup'),
    members_eq_map es, List.length_map, members_eq_map es', List.length_map, ← members_eq_map es',
    List.forall_mem_map]
  refine and_congr_right fun _ => forall₂_congr fun e _ => ?_
  rw [lookupItem_members, Option.map_eq_some_iff]
  exact exists_congr fun v => and_congr_right fun _ => eq_comm

/-- Neither an array nor an object. -/
def leaf : Value → Bool
  | .array _ => false
  | .object _ => false
  | _ => true

theorem document_leaf_iff {v w : Value} (hleaf : leaf v = true) (hv : floatless v = true)
    (hw : floatless w = true) : document v = document w ↔ v.eq w = true := by
  cases v with
  | array xs | object es => cases hleaf
  | number n =>
    cases w with
    | number m => simpa [document, Value.eq] using documentNumber_inj hv hw
    | _ => cases n <;> simp [document, documentNumber, Value.eq]
  | _ =>
    cases w with
    | number m => cases m <;> simp [document, documentNumber, Value.eq]
    | _ => simp [document, Value.eq]

mutual

/-- Values are written alike exactly when they are equal. -/
theorem document_eq_iff : ∀ v w : Value, floatless v = true → floatless w = true →
    (document v = document w ↔ v.eq w = true)
  | .null, _, hv, hw => document_leaf_iff rfl hv hw
  | .bool _, _, hv, hw => document_leaf_iff rfl hv hw
  | .number _, _, hv, hw => document_leaf_iff rfl hv hw
  | .string _, _, hv, hw => document_leaf_iff rfl hv hw
  | .array xs, w, hv, hw => by
    cases w with
    | array ys =>
      rw [document, document, Document.arr.injEq, Value.eq, documents_eq_iff xs ys hv hw]
    | number m => cases m <;> simp [document, documentNumber, Value.eq]
    | _ => simp [document, Value.eq]
  | .object es, w, hv, hw => by
    cases w with
    | object es' =>
      simp only [floatless, Bool.and_eq_true, decide_eq_true_eq, floatlessEntries_iff] at hv hw
      rw [document_object_eq_iff hv.1 hw.1, Value.eq, Bool.and_eq_true, beq_iff_eq, eqEntries_iff]
      refine and_congr_right fun _ => forall₂_congr fun e he => exists_congr fun v => ?_
      refine and_congr_right fun hfound => ?_
      exact entry_eq_iff es ((floatlessEntries_iff es).mpr hv.2) e he v
        (hw.2 _ (mem_of_lookupItem hfound))
    | number m => cases m <;> simp [document, documentNumber, Value.eq]
    | _ => simp [document, Value.eq]

theorem documents_eq_iff : ∀ xs ys : List Value, floatlessElems xs = true →
    floatlessElems ys = true → (documents xs = documents ys ↔ Value.eqElems xs ys = true)
  | [], [], _, _ => by simp [Value.eqElems]
  | [], _ :: _, _, _ => by simp [documents, Value.eqElems]
  | _ :: _, [], _, _ => by simp [documents, Value.eqElems]
  | x :: xs, y :: ys, hxs, hys => by
    simp only [floatlessElems, Bool.and_eq_true] at hxs hys
    rw [documents, documents, List.cons.injEq, Value.eqElems, Bool.and_eq_true,
      document_eq_iff x y hxs.1 hys.1, documents_eq_iff xs ys hxs.2 hys.2]

theorem entry_eq_iff : ∀ es : List (String × Value), floatlessEntries es = true →
    ∀ e ∈ es, ∀ w : Value, floatless w = true → (document e.2 = document w ↔ e.2.eq w = true)
  | [], _, _, he, _, _ => absurd he List.not_mem_nil
  | (k, v) :: es, h, e, he, w, hw => by
    simp only [floatlessEntries, Bool.and_eq_true] at h
    rcases List.mem_cons.mp he with rfl | he
    · exact document_eq_iff v w h.1 hw
    · exact entry_eq_iff es h.2 e he w hw

end

/-! ### What the texts determine -/

section Determined
variable (lowerExp : LowerExp)

theorem dumpsCanonical_eq {v : Value} (h : floatless v = true) :
    dumpsCanonical lowerExp v = String.ofList ((document v).render .compact) := by
  rw [dumpsCanonical, writeValue_eq lowerExp v h]

/-- Two values have one text exactly when they are equal. -/
theorem dumpsCanonical_eq_iff (p p' : Payload) :
    dumpsCanonical lowerExp p.value = dumpsCanonical lowerExp p'.value ↔
      p.value.eq p'.value = true := by
  rw [dumpsCanonical_eq lowerExp p.floatless, dumpsCanonical_eq lowerExp p'.floatless,
    String.ofList_inj, render_eq_iff, join_document, join_document,
    document_eq_iff _ _ p.floatless p'.floatless]

/-- An object's text ends where it says it does. -/
theorem dumpsCanonical_append_iff (o o' : Entries) (t t' : String) :
    dumpsCanonical lowerExp (.object o.entries) ++ t =
        dumpsCanonical lowerExp (.object o'.entries) ++ t' ↔
      (Value.object o.entries).eq (.object o'.entries) = true ∧ t = t' := by
  rw [← document_eq_iff _ _ o.floatless o'.floatless, dumpsCanonical_eq lowerExp o.floatless,
    dumpsCanonical_eq lowerExp o'.floatless]
  constructor
  · intro htext
    have hlist := congrArg String.toList htext
    simp only [String.toList_append, String.toList_ofList] at hlist
    obtain ⟨hjoin, hrest⟩ := render_obj_append_inj .compact hlist
    have hdocument :
        (document (.object o.entries)).join = (document (.object o'.entries)).join := hjoin
    rw [join_document, join_document] at hdocument
    exact ⟨hdocument, String.toList_injective hrest⟩
  · rintro ⟨hdocument, rfl⟩
    rw [hdocument]

end Determined

/-! ### Identities -/

theorem documentNumber_ofI64 (i : Int64) :
    documentNumber (ofI64 i) = .int i.toInt := by
  unfold ofI64
  split
  · next h =>
    have hpos : 0 ≤ i.toInt := Int64.le_iff_toInt_le.mp h
    rw [documentNumber, Int.toNat_of_nonneg hpos]
  · rfl

theorem integral_ofI64 (i : Int64) : integral (ofI64 i) = true := by
  have hlt := i.toInt_lt
  have hle := i.le_toInt
  unfold ofI64
  split
  · next h =>
    have hpos : 0 ≤ i.toInt := Int64.le_iff_toInt_le.mp h
    refine decide_eq_true ?_
    omega
  · next h =>
    have hneg : i.toInt < 0 := by
      by_contra hpos
      exact h (Int64.le_iff_toInt_le.mpr (not_lt.mp hpos))
    exact decide_eq_true ⟨hle, hneg⟩

theorem ofI64_inj {i j : Int64} : ofI64 i = ofI64 j ↔ i = j := by
  refine ⟨fun h => ?_, fun h => h ▸ rfl⟩
  have hnumber : documentNumber (ofI64 i) = documentNumber (ofI64 j) :=
    congrArg documentNumber h
  rw [documentNumber_ofI64, documentNumber_ofI64, Document.int.injEq] at hnumber
  exact Int64.toInt_inj.mp hnumber

theorem floatless_identityValue (h : EventHeader) : floatless h.identityValue = true := by
  simp [EventHeader.identityValue, floatless, floatlessEntries, integral_ofI64]

theorem identityValue_eq_iff (h h' : EventHeader) :
    h.identityValue.eq h'.identityValue = true ↔ SameIdentity h h' := by
  have hitem : ∀ {k : String} {es : List (String × Value)} {v w : Value},
      lookupItem k es = some w →
        ((∃ u, lookupItem k es = some u ∧ v.eq u = true) ↔ v.eq w = true) := by
    intro k es v w hw
    simp [hw]
  rw [EventHeader.identityValue, EventHeader.identityValue, Value.eq, Bool.and_eq_true,
    and_iff_right (by rfl), eqEntries_iff]
  simp only [List.forall_mem_cons]
  rw [hitem (w := .string h'.eventType) (by simp [lookupItem]),
    hitem (w := .string h'.partitionKey) (by simp [lookupItem]),
    hitem (w := .number (ofI64 h'.partitionOffset)) (by simp [lookupItem]),
    hitem (w := .string h'.authorTenantId) (by simp [lookupItem]),
    hitem (w := .string h'.authorActorId) (by simp [lookupItem]),
    hitem (w := .string h'.correlationId) (by simp [lookupItem]),
    hitem (w := .string h'.previousEventHash) (by simp [lookupItem]),
    hitem (w := .string h'.payloadHash) (by simp [lookupItem])]
  simp only [Value.eq, beq_iff_eq, ofI64_inj]
  constructor
  · rintro ⟨htype, hkey, hoffset, htenant, hactor, hcorrelation, hprevious, hpayload, -⟩
    exact ⟨htype, hkey, hoffset, htenant, hactor, hcorrelation, hprevious, hpayload⟩
  · rintro ⟨htype, hkey, hoffset, htenant, hactor, hcorrelation, hprevious, hpayload⟩
    exact ⟨htype, hkey, hoffset, htenant, hactor, hcorrelation, hprevious, hpayload,
      List.forall_mem_nil _⟩

section Event
variable (lowerExp : LowerExp)

/-- The hashed text splits into the identity's and the payload's in one way. -/
theorem preImage_eq_iff (h h' : EventHeader) (p p' : Payload) :
    preImage lowerExp h p.value = preImage lowerExp h' p'.value ↔
      SameIdentity h h' ∧ p.value.eq p'.value = true := by
  have happend := dumpsCanonical_append_iff lowerExp ⟨_, floatless_identityValue h⟩
    ⟨_, floatless_identityValue h'⟩ (dumpsCanonical lowerExp p.value)
    (dumpsCanonical lowerExp p'.value)
  rw [dumpsCanonical_eq_iff] at happend
  exact happend.trans (and_congr_left fun _ => identityValue_eq_iff h h')

/-- A text is read back from its literal. -/
theorem parse_writeStringAscii (s : String) :
    parse (writeStringAscii s) = some (.str (ofString s) : Document Literal) := by
  have hread := parse_render .compact (.str (ofString s) : Document Literal)
  rw [Document.join, joinSurrogates_ofString] at hread
  rw [writeStringAscii_eq]
  exact hread

end Event

/-- The text determines the identity and, up to the order of keys, the payload. So does each of
its two halves; strings are written in ASCII and read back; and what stands behind an object's
text does not run into it. -/
theorem preImage_determines (lowerExp : LowerExp) :
    (∀ (h h' : EventHeader) (p p' : Payload),
      preImage lowerExp h p.value = preImage lowerExp h' p'.value ↔
        SameIdentity h h' ∧ p.value.eq p'.value = true) ∧
    (∀ p p' : Payload, dumpsCanonical lowerExp p.value = dumpsCanonical lowerExp p'.value ↔
      p.value.eq p'.value = true) ∧
    (∀ s : String, (∀ c ∈ writeStringAscii s, c.toNat < 0x80) ∧
      parse (writeStringAscii s) = some (.str (ofString s) : Document Literal)) ∧
    ∀ (o o' : Entries) (t t' : String),
      dumpsCanonical lowerExp (.object o.entries) ++ t =
          dumpsCanonical lowerExp (.object o'.entries) ++ t' ↔
        (Value.object o.entries).eq (.object o'.entries) = true ∧ t = t' :=
  ⟨preImage_eq_iff lowerExp, dumpsCanonical_eq_iff lowerExp,
    fun s => ⟨ascii_writeStringAscii s, parse_writeStringAscii s⟩,
    dumpsCanonical_append_iff lowerExp⟩

end PiPlatform.EventFabric.Port.Canonical
