import BlockLang.Proofs.Block.Tidy

/-!
What the blocks of a script refer to by name.
-/

namespace BlockLang

mutual

def Input.refs : Input → List Ref
  | .literal _ => []
  | .var name => [.var name]
  | .list name => [.list name]
  | .block b => b.refs
  | .stack bs => Block.refsAll bs

-- The variables, lists and parameters that a block and all blocks in it refer to.
def Block.refs : Block → List Ref
  | ⟨_, kind, inputs, fields, _, _⟩ =>
    fields.filterMap (fun (key, f) => f.ref? key) ++ Input.refsAll inputs ++ kind.refs fields

-- A reader of a parameter, unless it is a shadow, names it in its field.
def BlockKind.refs (fields : List (String × Field)) : BlockKind → List Ref
  | .hat body _ => Block.refsAll body
  | .argument false => (fields.filter (·.1 = "VALUE")).map fun (_, f) => .param f.name
  | .argument true | .plain | .condition | .call _ _ | .prototype _ _ => []

def Block.refsAll : List Block → List Ref
  | [] => []
  | b :: bs => b.refs ++ Block.refsAll bs

def Input.refsAll : List (String × Input) → List Ref
  | [] => []
  | (_, i) :: is => i.refs ++ Input.refsAll is

end

-- The code and the parameters of the function that a script defines.
def Block.definition? (b : Block) : Option (String × List String) :=
  match b.opcode, b.input? "custom_block" with
  | "procedures_definition", some (.block head) =>
    match head.kind with
    | .prototype code _ => some (code, head.inputs.map (·.1))
    | _ => none
  | _, _ => none

theorem Block.definition?_definition {code : String} {warp : Bool} {params : List String}
    {body : List Block} {span : Span} :
    ((definition code warp params body).writtenAt span).definition? = some (code, params) := by
  simp [definition?, definition, hat, writtenAt, withInput, ofKind, input?, Function.comp_def]

variable {R : Ref → Prop}

theorem Block.Named.forall_refs {b : Block} (h : b.Named R) :
    ∀ r ∈ b.fields.filterMap (fun (key, f) => f.ref? key), R r := by
  intro r hr
  have ⟨f, hf, hr⟩ := List.mem_filterMap.mp hr
  exact h.refs f hf r hr

-- A block within another one refers to nothing by its kind other than to a parameter.
theorem BlockKind.Inner.forall_refs {kind : BlockKind} {fields : List (String × Field)}
    (h : kind.Inner R fields) : ∀ r ∈ kind.refs fields, R r := by
  cases kind
  case hat => exact h.elim
  case argument shadow =>
    cases shadow
    case false =>
      obtain ⟨name, rfl, hr⟩ := h
      simpa [BlockKind.refs, Field.name] using hr
    case true => nofun
  all_goals nofun

mutual

theorem Block.forall_refs : ∀ {b : Block}, b.Tidy R → ∀ r ∈ b.refs, R r
  | ⟨_, _, _, _, _, _⟩, h =>
    have ⟨hn, hk, hi⟩ := Block.tidy_iff.mp h
    List.forall_mem_append.mpr
      ⟨List.forall_mem_append.mpr ⟨hn.forall_refs, Input.forall_refsAll hi⟩, hk.forall_refs⟩

theorem Block.forall_refsAll : ∀ {bs : List Block}, Block.AllTidy R bs →
    ∀ r ∈ Block.refsAll bs, R r
  | [], _ => List.forall_mem_nil _
  | _ :: _, h =>
    have ⟨hb, hbs⟩ := Block.allTidy_cons.mp h
    List.forall_mem_append.mpr ⟨Block.forall_refs hb, Block.forall_refsAll hbs⟩

theorem Input.forall_refs : ∀ {i : Input}, i.Tidy R → ∀ r ∈ i.refs, R r
  | .literal _, _ => List.forall_mem_nil _
  | .var _, h => List.forall_mem_singleton.mpr (Input.tidy_var.mp h)
  | .list _, h => List.forall_mem_singleton.mpr (Input.tidy_list.mp h)
  | .block _, h => Block.forall_refs (Input.tidy_block.mp h)
  | .stack _, h => Block.forall_refsAll (Input.tidy_stack.mp h)

theorem Input.forall_refsAll : ∀ {is : List (String × Input)}, Input.AllTidy R is →
    ∀ r ∈ Input.refsAll is, R r
  | [], _ => List.forall_mem_nil _
  | (_, _) :: _, h =>
    have ⟨hi, his⟩ := Input.allTidy_cons.mp h
    List.forall_mem_append.mpr ⟨Input.forall_refs hi, Input.forall_refsAll his⟩

end

theorem Block.TidyScript.forall_refs {b : Block} (h : b.TidyScript R) : ∀ r ∈ b.refs, R r := by
  have ⟨hn, ⟨body, place, hk, hb⟩, hi⟩ := h
  obtain ⟨opcode, kind, inputs, fields, comment, span⟩ := b
  obtain rfl : kind = .hat body place := hk
  exact List.forall_mem_append.mpr
    ⟨List.forall_mem_append.mpr ⟨hn.forall_refs, Input.forall_refsAll hi⟩, Block.forall_refsAll hb⟩

end BlockLang
