/-!
Contract: running a step over the items of a list, one after the other.
-/

namespace PyStatic.Sequence

variable {σ α β : Type}

def collect (step : σ → α → σ × β) : σ → List α → σ × List β
  | state, [] => (state, [])
  | state, item :: rest =>
    let (state, result) := step state item
    let (state, results) := collect step state rest
    (state, result :: results)

def collect? (step : σ → α → Option (σ × β)) : σ → List α → Option (σ × List β)
  | state, [] => some (state, [])
  | state, item :: rest => do
      let (state, result) ← step state item
      let (state, results) ← collect? step state rest
      return (state, result :: results)

end PyStatic.Sequence
