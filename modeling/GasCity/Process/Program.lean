import Mathlib.Logic.Basic

/-! # Programs over atomic operations

A program calls the operations of a store one at a time and ends in a value or an
error.
-/

namespace GasCity

/-- A program that calls operations `Op`; the call of `o` is answered by a value of `Ans o`. -/
inductive Program (Op : Type) (Ans : Op → Type) (ε α : Type) : Type where
  | done (a : α)
  | fail (e : ε)
  | call (o : Op) (next : Ans o → Program Op Ans ε α)

namespace Program

variable {Op : Type} {Ans : Op → Type} {ε α β : Type}

protected def bind : Program Op Ans ε α → (α → Program Op Ans ε β) → Program Op Ans ε β
  | done a, f => f a
  | fail e, _ => fail e
  | call o next, f => call o fun r => (next r).bind f

instance : Monad (Program Op Ans ε) where
  pure := done
  bind := Program.bind

/-- The program that makes one call and returns its answer. -/
def op (o : Op) : Program Op Ans ε (Ans o) :=
  call o done

end Program

end GasCity
