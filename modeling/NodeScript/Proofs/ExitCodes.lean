import NodeScript.Command
import NodeScript.Proofs.Showing

/-!
Exit codes of runs. A run is shown as tables or in serial form. Both ways the command fails if the run
fails, or if there is something that cannot be shown; but the serial form is that of the whole outcome
at once, and there are outcomes that only the tables can show.
-/

namespace NodeScript

/-! ### Parts of trees -/

namespace Tree

variable {t u : Tree} {ts : List Tree} {es : List (Key × Tree)} {room : Nat}

theorem Showable.item (h : (Tree.list ts).Showable room) (ht : t ∈ ts) : t.Showable room := by
  cases room with
  | zero => exact absurd h not_showable_list_zero
  | succ room => exact (showable_list_iff.1 h t ht).of_le (Nat.le_succ room)

theorem Showable.entry {e : Key × Tree} (h : (Tree.map es).Showable room) (he : e ∈ es) :
    e.2.Showable room := by
  cases room with
  | zero => exact absurd h not_showable_map_zero
  | succ room => exact (showable_map_iff.1 h e he).2.of_le (Nat.le_succ room)

theorem Showable.field (h : t.Showable room) (name : String) (hu : t.field? name = some u) :
    u.Showable room := by
  cases t with
  | map es =>
    obtain ⟨e, he, rfl⟩ := Option.map_eq_some_iff.1 hu
    exact h.entry (List.mem_of_find?_eq_some he)
  | _ => cases hu

theorem Showable.filter {p : Key × Tree → Bool} (h : (Tree.map es).Showable room) :
    (Tree.map (es.filter p)).Showable room := by
  cases room with
  | zero => exact absurd h not_showable_map_zero
  | succ room => exact showable_map_iff.2 fun e he => showable_map_iff.1 h e (List.mem_of_mem_filter he)

end Tree

namespace Display

/-! ### Tables -/

end Display

/-! ### Commands -/

namespace Command

variable {w : Workspace} {o : RunOptions} {args : List String} {r : RunResult} {key : String}

end Command

end NodeScript
