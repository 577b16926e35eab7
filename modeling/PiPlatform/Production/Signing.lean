import PiPlatform.Library.Json.Literal
import PiPlatform.Library.Json.Number
import PiPlatform.Library.Lists
import PiPlatform.Library.Separated

/-! Request signatures.

What is signed is the method, the path, the timestamp, the tenant and the digest of the
body, joined by colons and not escaped. `verify` signs the request it is shown and
compares, so a signature is good for every request with the same text.

`signature_binds_iff`: a signature is accepted for nothing but the request it was made
for, within 300 seconds of the clock, exactly when the method and the path of that
request hold no colon and no piece of its tenant id but the last is an integer. The
digests are parameters that give hexadecimal text. -/
namespace PiPlatform.Production

open Library Library.Json

abbrev Bytes := List UInt8

/-- `str.encode()` -/
def encode (s : String) : Bytes := s.toByteArray.data.toList

theorem encode_injective : Function.Injective encode := by
  intro s t h
  have hdata : s.toByteArray.data = t.toByteArray.data := Array.toList_inj.mp h
  exact String.toByteArray_inj.mp (ByteArray.ext hdata)

def hexDigits : List Char := "0123456789abcdef".toList

/-- `hashlib.sha256(body).hexdigest()` and `hmac.new(secret, msg, sha256).hexdigest()` -/
structure SigningHashes where
  sha256Hex : Bytes → String
  hmacHex : Bytes → Bytes → String
  hex_sha256 : ∀ body, ∀ c ∈ (sha256Hex body).toList, c ∈ hexDigits
  hex_hmac : ∀ secret msg, ∀ c ∈ (hmacHex secret msg).toList, c ∈ hexDigits

inductive SigningError where
  | signatureError (message : String)
  | typeError
  deriving DecidableEq

/-- What `sign` and `verify` are given of a request. -/
structure RequestParts where
  method : String
  path : String
  timestamp : Int
  tenantId : String
  body : Bytes
  deriving DecidableEq

/-- The text that is signed. -/
def RequestParts.message (r : RequestParts) (bodyHash : String) : String :=
  r.method ++ ":" ++ r.path ++ ":" ++ String.ofList (intText r.timestamp) ++ ":" ++ r.tenantId ++
    ":" ++ bodyHash

structure RequestSigner where
  secret : Bytes

namespace RequestSigner

/-- `RequestSigner(secret)` -/
def make (secret : String) : RequestSigner := ⟨encode secret⟩

def timestampToleranceSeconds : Nat := 300

variable (hashes : SigningHashes) (signer : RequestSigner)

/-- `RequestSigner.sign` -/
def sign (r : RequestParts) : String :=
  let bodyHash := hashes.sha256Hex r.body
  hashes.hmacHex signer.secret (encode (r.message bodyHash))

/-- `secrets.compare_digest` on strings, which have to be ASCII. -/
def compareDigest (a b : String) : Except SigningError Bool :=
  if a.toList.all (·.toNat < 128) && b.toList.all (·.toNat < 128) then .ok (a == b)
  else .error .typeError

/-- `RequestSigner.verify`, at the time `now`. -/
def verify (now : Int) (signature : String) (r : RequestParts) : Except SigningError Unit :=
  if timestampToleranceSeconds < (now - r.timestamp).natAbs then
    .error (.signatureError "timestamp_outside_tolerance")
  else do
    let expected := signer.sign hashes r
    if ← compareDigest signature expected then .ok ()
    else .error (.signatureError "signature_mismatch")

/-! ### When a signature is accepted -/

theorem ascii_of_hex {s : String} (h : ∀ c ∈ s.toList, c ∈ hexDigits) :
    s.toList.all (·.toNat < 128) = true := by
  have hdigits : hexDigits.all (·.toNat < 128) = true := by decide
  rw [List.all_eq_true] at hdigits ⊢
  exact fun c hc => hdigits c (h c hc)

/-- `verify` accepts what `sign` made if both requests have one signature. -/
theorem verify_sign_iff (now : Int) (r r' : RequestParts) :
    signer.verify hashes now (signer.sign hashes r) r' = .ok () ↔
      (now - r'.timestamp).natAbs ≤ timestampToleranceSeconds ∧
        signer.sign hashes r = signer.sign hashes r' := by
  have hascii : ∀ q, (signer.sign hashes q).toList.all (·.toNat < 128) = true := fun q =>
    ascii_of_hex (hashes.hex_hmac _ _)
  have hcompare : compareDigest (signer.sign hashes r) (signer.sign hashes r') =
      .ok (signer.sign hashes r == signer.sign hashes r') := by
    rw [compareDigest, hascii, hascii]
    rfl
  by_cases hlate : timestampToleranceSeconds < (now - r'.timestamp).natAbs
  · rw [verify, if_pos hlate]
    exact iff_of_false (fun h => by cases h) fun h => absurd h.1 (by omega)
  · have hverify : signer.verify hashes now (signer.sign hashes r) r' =
        if signer.sign hashes r == signer.sign hashes r' then .ok ()
        else .error (.signatureError "signature_mismatch") := by
      simp only [verify, if_neg hlate, hcompare]
      rfl
    rw [hverify]
    by_cases hsame : signer.sign hashes r = signer.sign hashes r'
    · exact iff_of_true (if_pos (by simp [hsame])) ⟨by omega, hsame⟩
    · rw [if_neg (by simpa using hsame)]
      exact iff_of_false (fun h => by cases h) fun h => hsame h.2

/-! ### What a signature says -/

variable {hashes signer}

theorem colon_not_hex : ':' ∉ hexDigits := by decide

theorem colon_not_mem_intText (i : Int) : ':' ∉ intText i := by
  have hdigits : ∀ n, ':' ∉ Nat.toDigits 10 n := fun n h =>
    absurd (isDigit_of_mem_toDigits h) (by decide)
  cases i with
  | ofNat n => exact hdigits n
  | negSucc n =>
    simp only [intText, List.mem_cons, not_or]
    exact ⟨by decide, hdigits (n + 1)⟩

/-- The fields of a request that stand in front of the digest of its body. -/
def fields (r : RequestParts) : List Char :=
  framed ':' r.method.toList r.path.toList (intText r.timestamp) r.tenantId.toList

theorem toList_message (r : RequestParts) (bodyHash : String) :
    (r.message bodyHash).toList = fields r ++ ':' :: bodyHash.toList := by
  simp [RequestParts.message, fields, framed]

/-- Two requests have one signature when their bodies are equal and their other fields
are joined to one text. -/
theorem sign_eq_iff (hsha : Function.Injective hashes.sha256Hex)
    (hhmac : Function.Injective (hashes.hmacHex signer.secret)) (r r' : RequestParts) :
    signer.sign hashes r = signer.sign hashes r' ↔ r.body = r'.body ∧ fields r = fields r' := by
  have hcolon : ∀ body, ':' ∉ (hashes.sha256Hex body).toList := fun body h =>
    colon_not_hex (hashes.hex_sha256 body ':' h)
  rw [sign, sign, hhmac.eq_iff, encode_injective.eq_iff, ← String.toList_inj, toList_message,
    toList_message]
  constructor
  · intro h
    obtain ⟨hfields, hdigest⟩ := append_cons_cancel (hcolon r.body) (hcolon r'.body) h
    exact ⟨hsha (String.toList_injective hdigest), hfields⟩
  · rintro ⟨hbody, hfields⟩
    rw [hbody, hfields]

/-- Nothing in the request could be taken for another of its fields. -/
def Unambiguous (r : RequestParts) : Prop :=
  ':' ∉ r.method.toList ∧ ':' ∉ r.path.toList ∧
    ∀ piece ∈ (r.tenantId.toList.splitOn ':').dropLast, ¬ ∃ i : Int, piece = intText i

/-- **Main theorem.** A signature is accepted for no other request, and not outside the
tolerance, exactly when the request it was made for is unambiguous. -/
theorem signature_binds_iff (hsha : Function.Injective hashes.sha256Hex)
    (hhmac : Function.Injective (hashes.hmacHex signer.secret)) (r : RequestParts) :
    (∀ r' now, signer.verify hashes now (signer.sign hashes r) r' = .ok () →
      r = r' ∧ (now - r'.timestamp).natAbs ≤ 300) ↔ Unambiguous r := by
  have htag : ∀ tag, (∃ i : Int, tag = intText i) → ':' ∉ tag := by
    rintro tag ⟨i, rfl⟩
    exact colon_not_mem_intText i
  rw [Unambiguous, ← framed_unique_iff htag ⟨r.timestamp, rfl⟩]
  constructor
  · rintro h a b tag rest ⟨i, rfl⟩ hframe
    -- the other reading, shown at its own time
    have hother := (h ⟨String.ofList a, String.ofList b, i, String.ofList rest, r.body⟩ i
      ((verify_sign_iff hashes signer _ _ _).mpr ⟨by simp, ?_⟩)).1
    · rw [hother]
      simp
    · refine (sign_eq_iff hsha hhmac _ _).mpr ⟨rfl, ?_⟩
      simpa [fields] using hframe
  · intro h r' now haccept
    obtain ⟨hnow, hsign⟩ := (verify_sign_iff hashes signer _ _ _).mp haccept
    obtain ⟨hbody, hfields⟩ := (sign_eq_iff hsha hhmac _ _).mp hsign
    obtain ⟨hmethod, hpath, htime, htenant⟩ := h _ _ _ _ ⟨r'.timestamp, rfl⟩ hfields
    refine ⟨?_, hnow⟩
    cases r
    cases r'
    simp only [RequestParts.mk.injEq]
    exact ⟨String.toList_injective hmethod, String.toList_injective hpath,
      intText_injective htime, String.toList_injective htenant, hbody⟩

/-! ### A colon moves a request to another tenant -/

def hexText (bytes : Bytes) : String :=
  String.ofList (bytes.flatMap fun b =>
    [Nat.digitChar (b.toNat / 16), Nat.digitChar (b.toNat % 16)])

theorem digitChar_hex : ∀ n, n < 16 → Nat.digitChar n ∈ hexDigits := by decide

theorem hex_hexText (bytes : Bytes) : ∀ c ∈ (hexText bytes).toList, c ∈ hexDigits := by
  intro c hc
  rw [hexText, String.toList_ofList, List.mem_flatMap] at hc
  obtain ⟨b, -, hc⟩ := hc
  have hb := b.toNat_lt
  rcases List.mem_pair.mp hc with rfl | rfl
  · exact digitChar_hex _ (by omega)
  · exact digitChar_hex _ (by omega)

theorem digitChar_inj {m n : Nat} (hm : m < 16) (hn : n < 16)
    (h : Nat.digitChar m = Nat.digitChar n) : m = n := by
  have hval := congrArg hexVal h
  rw [hexVal_digitChar m hm, hexVal_digitChar n hn] at hval
  exact Option.some.inj hval

theorem hexText_injective : Function.Injective hexText := by
  intro xs
  induction xs with
  | nil =>
    intro ys h
    cases ys with
    | nil => rfl
    | cons y ys => simp [hexText] at h
  | cons x xs ih =>
    intro ys h
    have hlist := String.ofList_injective h
    cases ys with
    | nil => simp at hlist
    | cons y ys =>
      simp only [List.flatMap_cons, List.cons_append, List.nil_append, List.cons.injEq] at hlist
      obtain ⟨hhigh, hlow, hrest⟩ := hlist
      have hx := x.toNat_lt
      have hy := y.toNat_lt
      have hdiv := digitChar_inj (by omega) (by omega) hhigh
      have hmod := digitChar_inj (by omega) (by omega) hlow
      have hxy : x = y := UInt8.toNat_inj.mp (by omega)
      rw [hxy, ih (congrArg String.ofList hrest)]

/-- Digests that are the bytes themselves. -/
def plainHashes : SigningHashes where
  sha256Hex := hexText
  hmacHex := fun _ msg => hexText msg
  hex_sha256 := hex_hexText
  hex_hmac := fun _ => hex_hexText

/-- A request for a path with a colon, made by the tenant `acme`. -/
def signedRequest : RequestParts := ⟨"GET", "/v1/audit:1000", 1005, "acme", []⟩

/-- The same text, read as another tenant's. -/
def shownRequest : RequestParts := ⟨"GET", "/v1/audit", 1000, "1005:acme", []⟩

theorem shown_as_another_tenant :
    (RequestSigner.make "secret").verify plainHashes 1000
        ((RequestSigner.make "secret").sign plainHashes signedRequest) shownRequest = .ok () ∧
      signedRequest.tenantId ≠ shownRequest.tenantId :=
  ⟨(verify_sign_iff _ _ _ _ _).mpr ⟨by decide, rfl⟩, by decide⟩

/-- A request without colons. -/
def plainRequest : RequestParts := ⟨"GET", "/v1/audit", 1000, "acme", []⟩

theorem unambiguous_plainRequest : Unambiguous plainRequest := by
  refine ⟨by decide, by decide, fun piece hpiece => ?_⟩
  have hone : (plainRequest.tenantId.toList.splitOn ':').dropLast = [] := by decide
  rw [hone] at hpiece
  exact absurd hpiece List.not_mem_nil

theorem signature_binds_plainRequest :
    Unambiguous plainRequest ∧
      ∀ r' now, (RequestSigner.make "secret").verify plainHashes now
          ((RequestSigner.make "secret").sign plainHashes plainRequest) r' = .ok () →
        plainRequest = r' ∧ (now - r'.timestamp).natAbs ≤ 300 :=
  ⟨unambiguous_plainRequest,
    (signature_binds_iff hexText_injective hexText_injective _).mpr unambiguous_plainRequest⟩

end RequestSigner
end PiPlatform.Production
