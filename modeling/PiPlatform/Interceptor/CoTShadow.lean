import PiPlatform.Library.Python.Equality
import PiPlatform.Library.Python.Split

/-! The scan of a response's reasoning.

Each choice of a completion is scanned for what the model reasoned: a field of its own, and the
first thought in its content. A response that was scanned is marked so, in place. -/
namespace PiPlatform.Interceptor

open Library Library.Python

/-- A JSON object, as its items. -/
abbrev Payload := List (String × Plain)

/-- What the scan takes from outside: measures of a text, and what Python says of a value that is
no text. -/
structure CoTHeuristics where
  /-- The message of `_measure_token_entropy`, where its risk is 75 or more. -/
  entropyAnomaly : String → Option String
  /-- The violations of `detect_invisible_guardrails`. -/
  guardrailViolations : String → List String
  typeError : Plain → String

/-- `value or ""`, used as a text. -/
def CoTHeuristics.textOr (H : CoTHeuristics) (value : Plain) : Except String String :=
  match value with
  | .str s => .ok s
  | value => if value.truthy then .error (H.typeError value) else .ok ""

/-- What stands before and behind the first occurrence of a tag, in any case. -/
def findTag (tag : List Char) : List Char → Option (List Char × List Char)
  | [] => none
  | c :: cs =>
    if ((c :: cs).take tag.length).map Char.toLower = tag then
      some ([], (c :: cs).drop tag.length)
    else (findTag tag cs).map fun p => (c :: p.1, p.2)

/-- The first match of `<thought>(.*?)</thought>`. -/
def thoughtText (content : String) : List Char :=
  match findTag "<thought>".toList content.toList with
  | none => []
  | some (_, rest) => ((findTag "</thought>".toList rest).map Prod.fst).getD []

def stripped (cs : List Char) : String :=
  let space := fun c => isSpace (Json.ofChar c)
  String.ofList ((cs.dropWhile space).rdropWhile space)

section Scan
variable (H : CoTHeuristics) (strict : Bool)

def reasoningErrors (idx : Nat) (combinedCot : String) : List String :=
  if combinedCot = "" then []
  else
    (H.entropyAnomaly combinedCot).toList.map (fun message =>
      "CHOICE_VIOLATION: Choice [" ++ toString idx ++ "] reasoning loop/entropy anomaly: " ++
        message ++ " (CoTShadow)") ++
    if strict then (H.guardrailViolations combinedCot).map fun v =>
      "POLICY_VIOLATION: Choice [" ++ toString idx ++
        "] reasoning triggered invisible guardrail: " ++ v ++ " (CoTShadow)"
    else []

def choiceErrors (idx : Nat) (choice : Plain) : Except String (List String) :=
  match choice with
  | .dict fields =>
    match (lookupItem "message" fields).getD (.dict []) with
    | .dict message => do
      let content ← H.textOr ((lookupItem "content" message).getD (.str ""))
      let reasoning ← H.textOr ((lookupItem "reasoning_content" message).getD (.str ""))
      return reasoningErrors H strict idx
        (stripped (reasoning.toList ++ ' ' :: thoughtText content))
    | _ => .ok []
  | _ => .ok []

/-- The errors of `scan_response`, or what it raises. -/
def cotErrors (response : Payload) : Except String (List String) :=
  match (lookupItem "choices" response).getD (.list []) with
  | .list choices =>
    (choices.zipIdx.mapM fun p => choiceErrors H strict p.2 p.1).map List.flatten
  | _ => .ok []

/-- The response as the scan leaves it; one that raises leaves it as it was. -/
def marked (scannedAt : String) (response : Payload) : Payload :=
  match (lookupItem "choices" response).getD (.list []), cotErrors H strict response with
  | .list _, .ok _ => setItem "x-cot-shadow-telemetry"
      (.dict [("scanned_at", .str scannedAt), ("strict_mode", .bool strict)]) response
  | _, _ => response

end Scan

end PiPlatform.Interceptor
