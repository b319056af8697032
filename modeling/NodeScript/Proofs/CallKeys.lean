import NodeScript.Command
import NodeScript.Proofs.CallTargets

/-!
Keys of called functions, as the check of a file and a run of it form them. Both look for a graph
under the name of the function with a prefix before it. The check takes the usual prefix, whatever
the settings say; the run takes the prefix of the settings. They judge a call alike where the two
prefixes give one key, and each by its own key otherwise.
-/

namespace NodeScript

variable {h : Heap} {name key start : String} {i : Instruction} {g : Graph} {S : Store}
  {settings : Settings} {s : Setup} {m : Machine} {call : Call} {depth : Nat}

/-- The instruction is a call that names this function in the spelling of editors. -/
def Instruction.Calls (i : Instruction) (name : String) : Prop :=
  i.control = some .call ∧ name ≠ "" ∧ i.config.get? "functionName" = some (.text name)

theorem Instruction.Calls.givenName? (hcalls : i.Calls name)
    (hcall : Call.decoder h i.config.get? = .valid call) :
    givenName? call.functionName = some name := by
  obtain ⟨-, hne, hname⟩ := hcalls
  have hfield := Call.decoder_functionName hcall
  simp only [Decoder.textOrNil, Decoder.optional, Decoder.find?, hname] at hfield
  have hgiven : some name = call.functionName :=
    Checked.valid.inj (Checked.valid_of_within hfield)
  simp [NodeScript.givenName?, ← hgiven, hne]

/-! ### The check -/

namespace Store

/-- The same graphs with another prefix for functions. -/
def under (S : Store) (start : String) : Store :=
  { S with functionPrefix := start }

end Store

namespace Store

section

-- A run of a graph of the store, or a run below it, is at a call whose arguments can be read.
variable (hg : S.get? key = some g) (hreach : (S.library settings).Reaches g (depth + 1) s m)
  (hstart : settings.functionPrefix = S.functionPrefix) (hcalls : i.Calls name)
  (hready : s.Ready m) (hcall : Call.decoder m.context.heap i.config.get? = .valid call)
  (hsendable : ¬ call.Unsendable m.context.room)
include hg hreach hstart hcalls hready hcall hsendable

end

end Store

/-! ### The two commands -/

namespace Command

variable {w : Workspace} {file : String}

end Command

end NodeScript
