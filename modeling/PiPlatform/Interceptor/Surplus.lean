import PiPlatform.Interceptor.SpendHunter
import PiPlatform.Library.System

/-! Quotas of surplus sub-keys.

A request whose sub-key is read from its header reserves its estimate on the bundle, waits for the
model, and takes the estimate back for the tokens it really used. But the header is read only where
it holds a sub-key of at least 24 letters and digits, and the sub-keys that are made have twelve.
So no request ever reaches a bundle (`unread_after`), and `balanced_iff` says what is left: bundles
are charged what their requests used exactly when these used nothing. -/
namespace PiPlatform.Interceptor.Surplus

open Library Library.Python Library.Json

inductive BundleStatus where
  | active | expired
  deriving DecidableEq

/-- A bundle; `R` is the type of prices and of clock readings. -/
structure Bundle (R : Type) where
  name : String
  subKey : Text
  tokenCap : Int
  tokensUsed : Int
  price : R
  expiresAt : R
  status : BundleStatus

/-! ### Requests -/

/-- What follows `Bearer` in a header. -/
def bearerToken (authorization : Text) : Option Text :=
  let rest := authorization.drop 6
  if authorization.take 6 = ofString "Bearer" ∧ rest.head?.any isSpace then
    some ((rest.dropWhile isSpace).rdropWhile isSpace)
  else none

/-- `[A-Za-z0-9]` -/
def isAlnum (c : CodePoint) : Bool :=
  (48 ≤ c.val && c.val ≤ 57) || (65 ≤ c.val && c.val ≤ 90) || (97 ≤ c.val && c.val ≤ 122)

/-- `sk_surplus_[A-Za-z0-9]{24,128}` -/
def matchesKey (token : Text) : Bool :=
  let digits := token.drop 11
  token.take 11 = ofString "sk_surplus_" && digits.all isAlnum &&
    24 ≤ digits.length && digits.length ≤ 128

/-- A request that has passed the gates before this one. -/
structure Request where
  authorization : Text
  messages : List ChatMessage
  deriving DecidableEq

/-- The token the request carries, whether or not it is read as a sub-key. -/
def Request.carried (r : Request) : Option Text := bearerToken r.authorization

/-- The group of `_SURPLUS_KEY_RE`, if it matches. -/
def Request.subKey (r : Request) : Option Text := r.carried.filter matchesKey

/-- Words, but at least one token in four characters. -/
def countTokens (messages : List ChatMessage) : Nat :=
  let charCount := (messages.map fun m => m.content.length).sum
  let wordCount := (messages.map fun m => (split (ofString m.content)).length).sum
  max wordCount (charCount / 4)

/-- What is reserved for the request; nothing without a sub-key. -/
def Request.estimatedPromptTokens (r : Request) : Nat :=
  if r.subKey.isSome then countTokens r.messages else 0

/-- What comes of a request that was forwarded. -/
inductive Outcome where
  /-- Status 200; the scan of the reasoning may reject it afterwards. -/
  | answered (promptTokens completionTokens : Nat) (rejected : Bool)
  | otherStatus (status : Nat)
  | communicationFailed
  deriving DecidableEq

/-! ### Steps -/

/-- The sub-keys with their bundles; beside them, the requests in flight and those that were
answered, with their tokens. -/
structure State (R : Type) where
  activeSubkeys : Dict Text (Bundle R)
  inFlight : List Request
  answered : List (Request × Nat)

section Steps
variable {R : Type}

def subKeyOf (hex : Text) : Text := ofString "sk_surplus_" ++ hex.take 12

/-- `create_surplus_bundle`; the digits are those of a `uuid4`. -/
def createSurplusBundle (s : State R) (hex : Text) (name : String) (tokenCap : Int)
    (price expiresAt : R) : State R :=
  let subKey := subKeyOf hex
  let bundle : Bundle R := ⟨name, subKey, tokenCap, 0, price, expiresAt, .active⟩
  { s with activeSubkeys := s.activeSubkeys.set subKey bundle }

/-- The reasons `route_traffic` gives. -/
inductive Routing where
  | approved | invalidSubKey | inactiveSubKey | expiredSubKey | quotaExceeded
  deriving DecidableEq

/-- `route_traffic`: an answer, and the bundles afterwards. -/
def routeTraffic [LinearOrder R] (bundles : Dict Text (Bundle R)) (now : R) (subKey : Text)
    (requestedTokens : Nat) : Routing × Dict Text (Bundle R) :=
  match bundles.get? subKey with
  | none => (.invalidSubKey, bundles)
  | some bundle =>
    if bundle.status ≠ .active then (.inactiveSubKey, bundles)
    else if bundle.expiresAt < now then
      (.expiredSubKey, bundles.set subKey { bundle with status := .expired })
    else if bundle.tokenCap < bundle.tokensUsed + requestedTokens then (.quotaExceeded, bundles)
    else
      (.approved,
        bundles.set subKey { bundle with tokensUsed := bundle.tokensUsed + requestedTokens })

/-- The start of a request; one with a sub-key that is not approved goes no further. -/
def start [LinearOrder R] (s : State R) (now : R) (request : Request) : State R :=
  match request.subKey with
  | none => { s with inFlight := s.inFlight ++ [request] }
  | some subKey =>
    match routeTraffic s.activeSubkeys now subKey request.estimatedPromptTokens with
    | (.approved, bundles) =>
      { s with activeSubkeys := bundles, inFlight := s.inFlight ++ [request] }
    | (_, bundles) => { s with activeSubkeys := bundles }

/-- The estimate is taken back for what was used. -/
def reconcile (bundles : Dict Text (Bundle R)) (request : Request) (totalActual : Nat) :
    Dict Text (Bundle R) :=
  match request.subKey with
  | none => bundles
  | some subKey =>
    match bundles.get? subKey with
    | none => bundles
    | some bundle =>
      bundles.set subKey
        { bundle with
          tokensUsed := max 0 (bundle.tokensUsed - request.estimatedPromptTokens + totalActual) }

/-- The end of the `i`-th request in flight. -/
def conclude (s : State R) (i : Nat) (outcome : Outcome) : State R :=
  match s.inFlight[i]? with
  | none => s
  | some request =>
    let s := { s with inFlight := s.inFlight.eraseIdx i }
    match outcome with
    | .answered promptTokens completionTokens _ =>
      let totalActual := promptTokens + completionTokens
      { s with
        activeSubkeys := reconcile s.activeSubkeys request totalActual
        answered := s.answered ++ [(request, totalActual)] }
    | .otherStatus _ => s
    | .communicationFailed => s

inductive Call (R : Type) where
  | createSurplusBundle (hex : Text) (name : String) (tokenCap : Int) (price expiresAt : R)
  | start (now : R) (request : Request)
  | conclude (i : Nat) (outcome : Outcome)

def quotas [LinearOrder R] : System (State R) (Call R) where
  initial := ⟨.empty, [], []⟩
  step s
    | .createSurplusBundle hex name tokenCap price expiresAt =>
      createSurplusBundle s hex name tokenCap price expiresAt
    | .start now request => start s now request
    | .conclude i outcome => conclude s i outcome

/-! ### What is charged -/

/-- The tokens of a sub-key, in a list of charges. -/
def charged (subKey : Text) (charges : List (Request × Nat)) : Nat :=
  ((charges.filter fun c => c.1.carried = some subKey).map Prod.snd).sum

/-- What the answered requests that carry a sub-key used. -/
def State.consumed (s : State R) (subKey : Text) : Nat := charged subKey s.answered

/-- The estimates of the requests in flight that carry a sub-key. -/
def State.reserved (s : State R) (subKey : Text) : Nat :=
  charged subKey (s.inFlight.map fun r => (r, r.estimatedPromptTokens))

/-- Every bundle is charged what its requests used, and what is reserved. -/
def Balanced (s : State R) : Prop :=
  ∀ subKey bundle, s.activeSubkeys.get? subKey = some bundle →
    bundle.tokensUsed = s.consumed subKey + s.reserved subKey

/-- No tokens are used by a request that carries the sub-key of a bundle, nor were any by one that
carried a sub-key that is made. -/
def Settles (s : State R) : Call R → Prop
  | .createSurplusBundle hex _ _ _ _ => s.consumed (subKeyOf hex) = 0
  | .start _ _ => True
  | .conclude i (.answered promptTokens completionTokens _) => ∀ request,
      s.inFlight[i]? = some request → (∃ subKey, request.carried = some subKey ∧
        (s.activeSubkeys.get? subKey).isSome = true) → promptTokens + completionTokens = 0
  | .conclude _ (.otherStatus _) => True
  | .conclude _ .communicationFailed => True

theorem charged_snoc (subKey : Text) (charges : List (Request × Nat)) (c : Request × Nat) :
    charged subKey (charges ++ [c]) =
      charged subKey charges + if c.1.carried = some subKey then c.2 else 0 := by
  rw [charged, charged, List.filter_append, List.map_append, List.sum_append, List.filter_singleton]
  by_cases h : c.1.carried = some subKey
  · simp [h]
  · simp [h]

end Steps

/-! ### Sub-keys that are not read -/

section Unread
variable {R : Type} {s : State R}

/-- Twelve digits are not enough for the header. -/
theorem matchesKey_subKeyOf (hex : Text) : matchesKey (subKeyOf hex) = false := by
  have hdigits : (subKeyOf hex).drop 11 = hex.take 12 := List.drop_left' rfl
  have hfew : ¬ 24 ≤ ((subKeyOf hex).drop 11).length := by
    rw [hdigits, List.length_take]
    omega
  simp only [matchesKey, decide_eq_false hfew, Bool.and_false, Bool.false_and]

/-- Bundles as they were made, and no request with a sub-key. -/
structure Unread (s : State R) : Prop where
  minted : ∀ subKey bundle, s.activeSubkeys.get? subKey = some bundle →
    (∃ hex, subKey = subKeyOf hex) ∧ bundle.tokensUsed = 0
  inFlight : ∀ r ∈ s.inFlight, r.subKey = none

/-- A sub-key that is read has no bundle. -/
theorem Unread.get?_subKey (h : Unread s) {r : Request} {subKey : Text}
    (hread : r.subKey = some subKey) : s.activeSubkeys.get? subKey = none := by
  cases hbundle : s.activeSubkeys.get? subKey with
  | none => rfl
  | some bundle =>
    obtain ⟨⟨hex, rfl⟩, -⟩ := h.minted subKey bundle hbundle
    have hmatches := (Option.filter_eq_some_iff.mp hread).2
    rw [matchesKey_subKeyOf] at hmatches
    cases hmatches

theorem Unread.start [LinearOrder R] (h : Unread s) (now : R) (request : Request) :
    Unread (start s now request) := by
  rw [Surplus.start]
  cases hread : request.subKey with
  | none =>
    refine ⟨h.minted, fun r hr => ?_⟩
    rcases List.mem_append.mp hr with hr | hr
    · exact h.inFlight r hr
    · rwa [List.mem_singleton.mp hr]
  | some subKey =>
    simp only [routeTraffic, h.get?_subKey hread]
    exact h

theorem Unread.conclude (h : Unread s) (i : Nat) (outcome : Outcome) :
    Unread (conclude s i outcome) := by
  rw [Surplus.conclude]
  cases hrequest : s.inFlight[i]? with
  | none => exact h
  | some request =>
    have hread := h.inFlight request (List.mem_of_getElem? hrequest)
    have hfewer : ∀ r ∈ s.inFlight.eraseIdx i, r.subKey = none :=
      fun r hr => h.inFlight r (List.mem_of_mem_eraseIdx hr)
    cases outcome with
    | answered promptTokens completionTokens rejected =>
      refine ⟨?_, hfewer⟩
      simp only [reconcile, hread]
      exact h.minted
    | otherStatus status | communicationFailed => exact ⟨h.minted, hfewer⟩

theorem Unread.step [LinearOrder R] (h : Unread s) (call : Call R) :
    Unread (quotas.step s call) := by
  cases call with
  | createSurplusBundle hex name tokenCap price expiresAt =>
    refine ⟨fun subKey bundle hbundle => ?_, h.inFlight⟩
    change (s.activeSubkeys.set _ _).get? subKey = some bundle at hbundle
    rw [Dict.get?_set] at hbundle
    split_ifs at hbundle with hkey
    · rw [← Option.some.inj hbundle]
      exact ⟨⟨hex, hkey.symm⟩, rfl⟩
    · exact h.minted subKey bundle hbundle
  | start now request => exact h.start now request
  | conclude i outcome => exact h.conclude i outcome

/-- Requests never change what a bundle is charged. -/
theorem unread_after [LinearOrder R] (calls : List (Call R)) : Unread (quotas.after calls) :=
  quotas.invariant Unread ⟨fun _ _ h => by simp [quotas] at h, fun _ h => by simp [quotas] at h⟩
    (fun _ call h => h.step call) calls

theorem Unread.reserved (h : Unread s) (subKey : Text) : s.reserved subKey = 0 := by
  rw [State.reserved, charged]
  refine List.sum_eq_zero fun n hn => ?_
  obtain ⟨c, hc, rfl⟩ := List.mem_map.mp hn
  obtain ⟨r, hr, rfl⟩ := List.mem_map.mp (List.mem_filter.mp hc).1
  show r.estimatedPromptTokens = 0
  rw [Request.estimatedPromptTokens, h.inFlight r hr]
  rfl

/-- What is left of the balance. -/
theorem Unread.balanced_iff_unused (h : Unread s) : Balanced s ↔
    ∀ subKey, (s.activeSubkeys.get? subKey).isSome = true → s.consumed subKey = 0 := by
  have hbundle : ∀ subKey bundle, s.activeSubkeys.get? subKey = some bundle →
      (bundle.tokensUsed = s.consumed subKey + s.reserved subKey ↔ s.consumed subKey = 0) := by
    intro subKey bundle hbundle
    rw [(h.minted subKey bundle hbundle).2, h.reserved]
    omega
  constructor
  · intro hbalanced subKey hsome
    obtain ⟨bundle, hget⟩ := Option.isSome_iff_exists.mp hsome
    exact (hbundle subKey bundle hget).mp (hbalanced subKey bundle hget)
  · intro hconsumed subKey bundle hget
    exact (hbundle subKey bundle hget).mpr (hconsumed subKey (Option.isSome_of_eq_some hget))

theorem Unread.activeSubkeys_start [LinearOrder R] (h : Unread s) (now : R) (request : Request) :
    (Surplus.start s now request).activeSubkeys = s.activeSubkeys := by
  rw [Surplus.start]
  cases hread : request.subKey with
  | none => rfl
  | some subKey => simp only [routeTraffic, h.get?_subKey hread]

theorem answered_start [LinearOrder R] (now : R) (request : Request) :
    (Surplus.start s now request).answered = s.answered := by
  rw [Surplus.start]
  split
  · rfl
  · split <;> rfl

theorem Unread.activeSubkeys_conclude (h : Unread s) (i : Nat) (outcome : Outcome) :
    (Surplus.conclude s i outcome).activeSubkeys = s.activeSubkeys := by
  rw [Surplus.conclude]
  cases hrequest : s.inFlight[i]? with
  | none => rfl
  | some request =>
    cases outcome with
    | answered promptTokens completionTokens rejected =>
      simp only [reconcile, h.inFlight request (List.mem_of_getElem? hrequest)]
    | otherStatus status => rfl
    | communicationFailed => rfl

/-- A bundle that is made is balanced if nothing was used under its sub-key. -/
theorem Unread.balanced_create_iff [LinearOrder R] (h : Unread s) (hbalanced : Balanced s)
    (hex : Text) (name : String) (tokenCap : Int) (price expiresAt : R) :
    Balanced (createSurplusBundle s hex name tokenCap price expiresAt) ↔
      s.consumed (subKeyOf hex) = 0 := by
  have hunread := h.step (.createSurplusBundle hex name tokenCap price expiresAt)
  refine hunread.balanced_iff_unused.trans ⟨fun hall => hall (subKeyOf hex) ?_,
    fun hzero k hk => ?_⟩
  · exact Option.isSome_of_eq_some (Dict.get?_set_self ..)
  · change ((s.activeSubkeys.set _ _).get? k).isSome = true at hk
    rw [Dict.get?_set] at hk
    split_ifs at hk with hkey
    · exact hkey ▸ hzero
    · exact h.balanced_iff_unused.mp hbalanced k hk

/-- An answer is charged to no bundle, so it must have used nothing where there is one. -/
theorem Unread.balanced_answered_iff (h : Unread s) (hbalanced : Balanced s) {i : Nat}
    {request : Request} (hrequest : s.inFlight[i]? = some request)
    (promptTokens completionTokens : Nat) (rejected : Bool) :
    Balanced (Surplus.conclude s i (.answered promptTokens completionTokens rejected)) ↔
      ((∃ subKey, request.carried = some subKey ∧
        (s.activeSubkeys.get? subKey).isSome = true) → promptTokens + completionTokens = 0) := by
  have hunread := h.conclude i (.answered promptTokens completionTokens rejected)
  have hconsumed : ∀ k, (Surplus.conclude s i
      (.answered promptTokens completionTokens rejected)).consumed k = s.consumed k +
        if request.carried = some k then promptTokens + completionTokens else 0 := by
    intro k
    rw [Surplus.conclude, hrequest]
    exact charged_snoc k s.answered (request, promptTokens + completionTokens)
  rw [hunread.balanced_iff_unused, h.activeSubkeys_conclude]
  constructor
  · rintro hall ⟨k, hcarried, hk⟩
    have hzero := hall k hk
    rw [hconsumed, if_pos hcarried] at hzero
    exact (Nat.add_eq_zero_iff.mp hzero).2
  · intro hnone k hk
    rw [hconsumed, h.balanced_iff_unused.mp hbalanced k hk, Nat.zero_add]
    split_ifs with hcarried
    · exact hnone ⟨k, hcarried, hk⟩
    · rfl

/-- What has neither changed a bundle nor been answered leaves the balance. -/
theorem Unread.balanced_congr {s' : State R} (h : Unread s) (h' : Unread s')
    (hbundles : s'.activeSubkeys = s.activeSubkeys) (hanswered : s'.answered = s.answered) :
    Balanced s' ↔ Balanced s := by
  rw [h.balanced_iff_unused, h'.balanced_iff_unused, hbundles]
  simp only [State.consumed, hanswered]

/-- A call keeps the balance exactly when it settles. -/
theorem Unread.balanced_step_iff [LinearOrder R] (h : Unread s) (hbalanced : Balanced s)
    (call : Call R) : Balanced (quotas.step s call) ↔ Settles s call := by
  have hunread := h.step call
  cases call with
  | createSurplusBundle hex name tokenCap price expiresAt =>
    exact h.balanced_create_iff hbalanced hex name tokenCap price expiresAt
  | start now request =>
    have hsame := h.balanced_congr hunread (h.activeSubkeys_start now request)
      (answered_start now request)
    exact iff_of_true (hsame.mpr hbalanced) trivial
  | conclude i outcome =>
    show Balanced (Surplus.conclude s i outcome) ↔ _
    cases hrequest : s.inFlight[i]? with
    | none =>
      have hsame : Surplus.conclude s i outcome = s := by rw [Surplus.conclude, hrequest]
      rw [hsame]
      refine iff_of_true hbalanced ?_
      cases outcome with
      | answered => exact fun request hsome => by rw [hrequest] at hsome; cases hsome
      | otherStatus | communicationFailed => trivial
    | some request =>
      have hunanswered := h.balanced_congr hunread (h.activeSubkeys_conclude i outcome)
      cases outcome with
      | answered promptTokens completionTokens rejected =>
        refine (h.balanced_answered_iff hbalanced hrequest ..).trans ⟨fun hnone r hr => ?_,
          fun hsettles => hsettles request hrequest⟩
        rwa [← Option.some.inj (hrequest.symm.trans hr)]
      | otherStatus status | communicationFailed =>
        refine iff_of_true ((hunanswered ?_).mpr hbalanced) trivial
        simp only [quotas, Surplus.conclude, hrequest]

end Unread

/-- All along a run bundles are charged what was used and what is reserved, exactly when no
request that carries a bundle's sub-key uses tokens, nor did one before the sub-key was made. -/
theorem balanced_iff {R : Type} [LinearOrder R] (calls : List (Call R)) :
    quotas.Always Balanced calls ↔ quotas.Admits Settles calls := by
  refine quotas.always_iff_admits Settles (fun s => Unread s ∧ Balanced s) Balanced ?_ ?_
    (fun _ h => h.2) ?_ calls
  · exact ⟨unread_after [], fun _ _ h => by simp [quotas] at h⟩
  · exact fun s call hsettles h => ⟨h.1.step call, (h.1.balanced_step_iff h.2 call).mpr hsettles⟩
  · exact fun s call h hnot hbalanced => hnot ((h.1.balanced_step_iff h.2 call).mp hbalanced)

/-- A request with the sub-key it bought is answered, and the bundle is charged nothing. -/
theorem minted_key_not_charged : ¬ quotas.Always Balanced
    [.createSurplusBundle (ofString "0123456789abcdef0123456789abcdef") "spare" 1000 (5 : Nat) 60,
      .start 10 ⟨ofString "Bearer sk_surplus_0123456789ab", [⟨"user", "hello"⟩]⟩,
      .conclude 0 (.answered 12 30 false)] := by
  intro halways
  have hbalanced := halways _ [] (List.append_nil _).symm
  have hcharged : (0 : Int) = (42 : Nat) + (0 : Nat) :=
    hbalanced (ofString "sk_surplus_0123456789ab") ⟨"spare", _, 1000, 0, 5, 60, .active⟩ rfl
  omega

end PiPlatform.Interceptor.Surplus
