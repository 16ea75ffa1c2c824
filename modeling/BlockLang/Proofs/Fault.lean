import BlockLang.Fault

/-!
The faults of a text, and those that would be faults of the compiler.
-/

namespace BlockLang

namespace Fault

-- Is a fault one of the compiler rather than of a text?
def isInternal : Fault → Bool
  | unknownFunction _ | unexpandedMacro _ | missingOperator _ | other _ => true
  | _ => false

-- What there would be to say about operands and names of further kinds, if there were any.
def impossible : List String := [
  "membership test without a list or string", "Identifier is not a variable or list"]

theorem take_message {f : Fault} (h : f.isInternal = false) (hv : f ≠ notVariable)
    (hl : f ≠ notList) : f.message.toList.take 2 ∉ [['m', 'e'], ['I', 'd']] := by
  cases f
  case other | notVariable | notList => contradiction
  -- Only the literal that the message starts with is taken apart.
  all_goals
    unfold message
    simp only [toString, String.toList_append, List.append_assoc]
    rw [String.toList_ofList]
    simp only [List.cons_append, List.nil_append, List.take_succ_cons, List.take_zero]
    simp

-- Two characters tell the messages apart, but for those about a name that is of the wrong kind.
theorem message_not_mem_impossible {f : Fault} (h : f.isInternal = false) :
    f.message ∉ impossible := by
  intro hm
  have hv : f ≠ notVariable := by
    rintro rfl
    exact absurd hm (by decide)
  have hl : f ≠ notList := by
    rintro rfl
    exact absurd hm (by decide)
  have ht := take_message h hv hl
  simp only [impossible, List.mem_cons, List.not_mem_nil, or_false] at hm
  obtain hm | hm := hm <;> exact ht (hm ▸ by decide)

end Fault

end BlockLang
