import Mathlib

/-!
Going through a queue from its front. An item is taken out of it or put aside, and at some point the rest is left
as it is; what was put aside goes back to the front.
-/

namespace Vllm

inductive Sieved {α : Type} : List α → List α → List α → List α → Prop
  | stop (queue : List α) : Sieved queue [] [] queue
  | take {queue taken aside rest : List α} (a : α) :
    Sieved queue taken aside rest → Sieved (a :: queue) (a :: taken) aside rest
  | leave {queue taken aside rest : List α} (a : α) :
    Sieved queue taken aside rest → Sieved (a :: queue) taken (a :: aside) rest

namespace Sieved

variable {α : Type} {queue taken aside rest : List α}

/-- Nothing is lost, and nothing is there twice. -/
theorem perm (sieved : Sieved queue taken aside rest) : (taken ++ (aside ++ rest)).Perm queue := by
  induction sieved with
  | stop queue => exact List.Perm.refl _
  | take a _ ih => exact ih.cons a
  | leave a _ ih => exact List.perm_middle.trans (ih.cons a)

/-- What stays keeps its order. -/
theorem stays (sieved : Sieved queue taken aside rest) : (aside ++ rest).Sublist queue := by
  induction sieved with
  | stop queue => exact List.Sublist.refl _
  | take a _ ih => exact ih.cons a
  | leave a _ ih => exact ih.cons_cons a

end Sieved
end Vllm
