import VllmProofs.Base
import VllmProofs.Data.Dict

/-!
Cache hints and block metadata, as `vllm/core/evictor.py` passes them around.
-/

namespace Vllm.Evictor

inductive Policy where
  | ml | lru | rrip | fifo | pdp | belady
  deriving DecidableEq, Repr

/-- A float, for a score: a number taken exactly, an infinity, or nan. The order is Python's between numbers and
infinities; nan comes last, where Python compares it with nothing. -/
abbrev Score := WithTop (WithBot (WithTop ℚ))

namespace Score

def nan : Score := ⊤

def infinity (negative : Bool) : Score := if negative then WithTop.some ⊥ else WithTop.some (WithBot.some ⊤)

def number (x : ℚ) : Score := WithTop.some (WithBot.some (WithTop.some x))

@[simp] theorem number_le {x y : ℚ} : number x ≤ number y ↔ x ≤ y := by simp [number]

@[simp] theorem number_lt {x y : ℚ} : number x < number y ↔ x < y := by simp [number]

@[simp] theorem number_inj {x y : ℚ} : number x = number y ↔ x = y := by simp [number]

@[simp] theorem number_ne_nan (x : ℚ) : number x ≠ nan := by simp [number, nan]

/-- numpy's division of numbers. -/
def divide (x y : ℚ) : Score :=
  if y = 0 then if x = 0 then nan else infinity (x < 0) else number (x / y)

end Score

structure CacheHint where
  id : Option ℤ := none
  turns : Option ℤ := none
  nextTimestamp : Option Time := none
  probHasNext : Option Score := none
  expScale : Option ℚ := none
  useLru : Option ℤ := none
  useRrip : Option ℤ := none
  useFifo : Option ℤ := none
  schedulerPolicy : Option Policy := none
  deriving DecidableEq, Repr

/-- Python's truth value of `cache_hint.get(key)` for an integer flag. -/
def truthy (flag : Option ℤ) : Bool := flag.any (· ≠ 0)

structure BlockMetaData where
  contentHash : PrefixHash
  numHashedTokens : ℕ
  lastAccessed : Time
  cacheHint : Option CacheHint := none
  score : Score := .number 0
  deriving DecidableEq, Repr

/-- `probability_of_future_arrival`; `npExp` is numpy's `exp`, which is infinite where it overflows. -/
def probabilityOfFutureArrival (npExp : ℚ → WithTop ℚ) (probHasNext : Score) (expScale elapsedTime : ℚ) : Score :=
  if probHasNext = .number 0 ∨ expScale = 0 then .number 0
  else
    match probHasNext, npExp (-elapsedTime / expScale) with
    | WithTop.some (WithBot.some (WithTop.some probHasNext)), WithTop.some probNotAccessedTillNow =>
      .divide (probHasNext * probNotAccessedTillNow) (probHasNext * probNotAccessedTillNow + (1 - probHasNext))
    | _, _ => .nan -- a quotient of infinities, or nan is in it already

/-- The message every evictor raises on an empty table. -/
def noUsableMemory : PyError := .valueError "No usable cache memory left"

end Vllm.Evictor
