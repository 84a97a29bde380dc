import WaterNetwork.Builder

/-!
# Interrupted builders

A builder that passes its calls on to another one and takes numbers as they are, except that
one call, picked by its position among the calls that would change the model, is refused and
not passed on. It shows what a failure at that very place leaves behind.
-/

namespace WaterNetwork

/-- The state of the builder behind, and how many changing calls have been made. -/
structure Interrupted (σ : Type) where
  inner : σ
  made : Nat := 0

namespace Interrupted

variable {σ α : Type}

/-- The failure of the refused call. -/
def injected (name : String) : NetworkError := .capacity name (.invalidArgument "injected failure")

/-- Count a call and pass it on, unless it is the one to refuse. -/
def pass (failAt : Option Nat) (name : String) (call : Attempt σ NetworkError α) :
    Attempt (Interrupted σ) NetworkError α := fun s =>
  let made := s.made + 1
  if failAt = some made then (.error (injected name), { s with made })
  else
    let (result, inner) := call.runFrom s.inner
    (result, { inner, made })

/-- The builder that refuses the call at position `failAt`, counted from one. -/
def builder (b : Builder σ) (failAt : Option Nat) : Builder (Interrupted σ) where
  addNode kind t := pass failAt t.node (b.addNode kind t)
  setCost t value := pass failAt t.node (b.setCost t value)
  setConstraint t role value := pass failAt t.node (b.setConstraint t role value)
  containsNode s := b.containsNode s.inner
  containsName s := b.containsName s.inner
  acceptsLiterals _ := true

end Interrupted

end WaterNetwork
