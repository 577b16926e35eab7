import Mathlib.Algebra.BigOperators.Group.List.Basic
import Mathlib.Algebra.Ring.Defs
import Mathlib.Data.Finset.Card
import PiPlatform.Interceptor.CoTShadow

/-! The spend hunter: a breaker, a look at the prompt, and a cache of responses.

A response is kept for five minutes under a hash of the messages it answers. Times and
costs are numbers of an ordered ring, which add up without rounding. -/
namespace PiPlatform.Interceptor

open Library Library.Python

structure ChatMessage where
  role : String
  content : String
  deriving DecidableEq

/-- Tool definitions; no object holds a key twice. -/
structure Tools where
  definitions : List Payload
  wellFormed : (Plain.list (definitions.map .dict)).wellFormed = true

/-- What a proxied request is sent upstream with; `R` is the type of numbers. -/
structure LLMProxyRequest (R : Type) where
  model : String
  messages : List ChatMessage
  temperature : Option R
  tools : Option Tools
  stream : Option Bool

/-- An upstream response that was cached, with the request that was forwarded for it. -/
structure Answer (R : Type) where
  request : LLMProxyRequest R
  payload : Payload
  cachedAt : R

/-- A response in the cache, and beside it the answer it comes from. -/
structure CacheEntry (R : Type) where
  value : Payload
  expiresAt : R
  origin : Answer R

structure SpendHunter (R : Type) where
  cache : Dict String (CacheEntry R)
  spendWindow : List (R × R)
  totalCost : R

inductive SpendStatus where
  | cacheHit | blockedCircuitBreaker | blockedPromptBloat | proceed
  deriving DecidableEq

/-- More than half of more than fifty words are repetitions. -/
def bloated (messages : List ChatMessage) : Bool :=
  let totalText := messages.flatMap fun m => Json.ofString (" " ++ m.content)
  let words := split totalText
  decide (50 < words.length) && decide (2 * words.toFinset.card < words.length)

namespace SpendHunter
variable {R : Type} [Ring R] [LinearOrder R]

/-- The spending of the last minute. -/
def window (hunter : SpendHunter R) (now : R) : List (R × R) :=
  hunter.spendWindow.filter fun item => now - (60 : Nat) ≤ item.1

/-- The circuit breaker is open, by the exact sum of the costs. -/
def tripped (hunter : SpendHunter R) (now : R) : Bool :=
  (2 : Nat) ≤ ((hunter.window now).map Prod.snd).sum

/-- `hash` is `compute_prompt_hash`. -/
def checkRequest (hash : List ChatMessage → String) (hunter : SpendHunter R) (now : R)
    (messages : List ChatMessage) : SpendStatus × Option (CacheEntry R) × SpendHunter R :=
  let tripped := hunter.tripped now
  let hunter := { hunter with spendWindow := hunter.window now }
  if tripped then (.blockedCircuitBreaker, none, hunter)
  else if bloated messages then (.blockedPromptBloat, none, hunter)
  else
    match hunter.cache.get? (hash messages) with
    | none => (.proceed, none, hunter)
    | some cached =>
      if now ≤ cached.expiresAt then (.cacheHit, some cached, hunter)
      else (.proceed, none, { hunter with cache := hunter.cache.erase (hash messages) })

def recordSpend (hunter : SpendHunter R) (now cost : R) : SpendHunter R :=
  { hunter with
    spendWindow := hunter.spendWindow ++ [(now, cost)]
    totalCost := hunter.totalCost + cost }

/-- The seconds a response is kept. -/
def ttl : R := 300

def cacheResponse (hash : List ChatMessage → String) (hunter : SpendHunter R) (value : Payload)
    (answer : Answer R) : SpendHunter R :=
  { hunter with
    cache := hunter.cache.set (hash answer.request.messages)
      ⟨value, answer.cachedAt + ttl, answer⟩ }

end SpendHunter

end PiPlatform.Interceptor
