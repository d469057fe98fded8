import VllmProofs.Data.Exec

/-!
Names shared by the models of `vllm/core`: identifiers, times and the exceptions the code
raises. Times are Python floats, taken exactly.
-/

namespace Vllm

-- the computable orders, whatever else is imported beside this module
instance (priority := high) intLinearOrder : LinearOrder ℤ := Int.instLinearOrder

instance (priority := high) intPreorder : Preorder ℤ := Int.instLinearOrder.toPartialOrder.toPreorder

instance (priority := high) natLinearOrder : LinearOrder ℕ := Nat.instLinearOrder

instance (priority := high) natPreorder : Preorder ℕ := Nat.instLinearOrder.toPartialOrder.toPreorder

abbrev BlockId := ℕ
abbrev TokenId := ℤ
abbrev PrefixHash := ℤ
abbrev Time := ℚ

inductive PyError where
  | assertionError
  | attributeError
  | indexError
  | keyError
  | notImplementedError
  | recursionError
  | runtimeError (message : String)
  | typeError
  | unboundLocalError
  | valueError (message : String)
  | zeroDivisionError
  /-- `BlockAllocator.NoFreeBlocksError` -/
  | noFreeBlocksError
  deriving DecidableEq, Repr

/-- A method of an object of type `σ`. -/
abbrev Method (σ α : Type) := EStateM PyError σ α

def assertThat {σ : Type} (p : Prop) [Decidable p] : Method σ Unit :=
  if p then pure () else throw .assertionError

end Vllm
