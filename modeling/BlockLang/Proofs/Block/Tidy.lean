import Mathlib.Data.List.Nodup
import BlockLang.Block.Basic

/-!
Tidy blocks: no name repeats among the inputs or the fields of a block, scripts start only at the
outside, and all that is referred to by name is of some kind.
-/

namespace BlockLang

-- What a block can refer to by name.
inductive Ref where
  | var (name : String)
  | list (name : String)
  | param (name : String)
  deriving DecidableEq

namespace Field

-- The text of a field, whatever it stands for.
def name : Field → String
  | literal t | var t | list t => t

-- What a field refers to: the names of fields tell which of them are about variables and lists.
def ref? (key : String) (f : Field) : Option Ref :=
  if key = "VARIABLE" then some (.var f.name)
  else if key = "LIST" then some (.list f.name)
  else none

-- Of the fields that hold a name, those of lists are told apart by their keys.
def Fits (key : String) : Field → Prop
  | literal _ => True
  | var _ => key ≠ "LIST"
  | list _ => key = "LIST"

end Field

-- What does not depend on the blocks within a block.
structure Block.Named (R : Ref → Prop) (b : Block) : Prop where
  inputs : (b.inputs.map (·.1)).Nodup
  fields : (b.fields.map (·.1)).Nodup
  fit    : ∀ f ∈ b.fields, f.2.Fits f.1
  refs   : ∀ f ∈ b.fields, ∀ r, f.2.ref? f.1 = some r → R r

-- A block within another one starts no script. If it reads a parameter, then it names it.
def BlockKind.Inner (R : Ref → Prop) (fields : List (String × Field)) : BlockKind → Prop
  | .hat _ _ => False
  | .argument false => ∃ name, fields = [("VALUE", .literal name)] ∧ R (.param name)
  | .argument true | .plain | .condition | .call _ _ | .prototype _ _ => True

mutual

def Input.Tidy (R : Ref → Prop) : Input → Prop
  | .literal _ => True
  | .var name => R (.var name)
  | .list name => R (.list name)
  | .block b => b.Tidy R
  | .stack bs => Block.AllTidy R bs

def Block.Tidy (R : Ref → Prop) : Block → Prop
  | ⟨opcode, kind, inputs, fields, comment, span⟩ =>
    let b : Block := ⟨opcode, kind, inputs, fields, comment, span⟩
    b.Named R ∧ kind.Inner R fields ∧ Input.AllTidy R inputs

def Block.AllTidy (R : Ref → Prop) : List Block → Prop
  | [] => True
  | b :: bs => b.Tidy R ∧ Block.AllTidy R bs

def Input.AllTidy (R : Ref → Prop) : List (String × Input) → Prop
  | [] => True
  | (_, i) :: is => i.Tidy R ∧ Input.AllTidy R is

end

-- The start of a script, which nothing else within the script is.
structure Block.TidyScript (R : Ref → Prop) (b : Block) : Prop where
  named  : b.Named R
  body   : ∃ body place, b.kind = .hat body place ∧ Block.AllTidy R body
  inputs : Input.AllTidy R b.inputs

variable {R : Ref → Prop} {b : Block} {bs bs' : List Block} {i : Input} {name : String}
  {is is' : List (String × Input)}

theorem Block.tidy_iff :
    b.Tidy R ↔ b.Named R ∧ b.kind.Inner R b.fields ∧ Input.AllTidy R b.inputs := by
  cases b
  simp only [Block.Tidy]

theorem Block.allTidy_iff : Block.AllTidy R bs ↔ ∀ b ∈ bs, b.Tidy R := by
  induction bs <;> simp_all [Block.AllTidy]

theorem Input.allTidy_iff : Input.AllTidy R is ↔ ∀ i ∈ is, i.2.Tidy R := by
  induction is <;> simp_all [Input.AllTidy]

@[simp]
theorem Block.allTidy_nil : Block.AllTidy R [] := trivial

@[simp]
theorem Block.allTidy_cons : Block.AllTidy R (b :: bs) ↔ b.Tidy R ∧ Block.AllTidy R bs := Iff.rfl

@[simp]
theorem Block.allTidy_append :
    Block.AllTidy R (bs ++ bs') ↔ Block.AllTidy R bs ∧ Block.AllTidy R bs' := by
  simp [Block.allTidy_iff, or_imp, forall_and]

@[simp]
theorem Input.allTidy_nil : Input.AllTidy R [] := trivial

@[simp]
theorem Input.allTidy_cons {p : String × Input} :
    Input.AllTidy R (p :: is) ↔ p.2.Tidy R ∧ Input.AllTidy R is := Iff.rfl

@[simp]
theorem Input.allTidy_append :
    Input.AllTidy R (is ++ is') ↔ Input.AllTidy R is ∧ Input.AllTidy R is' := by
  simp [Input.allTidy_iff, or_imp, forall_and]

@[simp]
theorem Input.tidy_literal {text : String} : (Input.literal text).Tidy R := trivial

@[simp]
theorem Input.tidy_var : (Input.var name).Tidy R ↔ R (.var name) := Iff.rfl

@[simp]
theorem Input.tidy_list : (Input.list name).Tidy R ↔ R (.list name) := Iff.rfl

@[simp]
theorem Input.tidy_block : (Input.block b).Tidy R ↔ b.Tidy R := Iff.rfl

@[simp]
theorem Input.tidy_stack : (Input.stack bs).Tidy R ↔ Block.AllTidy R bs := Iff.rfl

section Mono

variable {R' : Ref → Prop}

theorem Block.Named.mono (h : b.Named R) (hr : ∀ r, R r → R' r) : b.Named R' where
  inputs := h.inputs
  fields := h.fields
  fit    := h.fit
  refs   := fun f hf r he => hr r (h.refs f hf r he)

theorem BlockKind.Inner.mono {kind : BlockKind} {fields : List (String × Field)}
    (h : kind.Inner R fields) (hr : ∀ r, R r → R' r) : kind.Inner R' fields := by
  cases kind
  case argument shadow =>
    cases shadow
    case false =>
      have ⟨name, he, hn⟩ := h
      exact ⟨name, he, hr _ hn⟩
    case true => trivial
  all_goals exact h

mutual

theorem Block.Tidy.mono (hr : ∀ r, R r → R' r) : ∀ {b : Block}, b.Tidy R → b.Tidy R'
  | ⟨_, _, _, _, _, _⟩, h =>
    have ⟨hn, hk, hi⟩ := Block.tidy_iff.mp h
    Block.tidy_iff.mpr ⟨hn.mono hr, hk.mono hr, hi.mono hr⟩

theorem Block.AllTidy.mono (hr : ∀ r, R r → R' r) : ∀ {bs : List Block}, Block.AllTidy R bs →
    Block.AllTidy R' bs
  | [], _ => trivial
  | _ :: _, h =>
    have ⟨hb, hbs⟩ := Block.allTidy_cons.mp h
    Block.allTidy_cons.mpr ⟨hb.mono hr, hbs.mono hr⟩

theorem Input.Tidy.mono (hr : ∀ r, R r → R' r) : ∀ {i : Input}, i.Tidy R → i.Tidy R'
  | .literal _, _ => trivial
  | .var _, h => Input.tidy_var.mpr (hr _ (Input.tidy_var.mp h))
  | .list _, h => Input.tidy_list.mpr (hr _ (Input.tidy_list.mp h))
  | .block _, h => Input.tidy_block.mpr ((Input.tidy_block.mp h).mono hr)
  | .stack _, h => Input.tidy_stack.mpr ((Input.tidy_stack.mp h).mono hr)

theorem Input.AllTidy.mono (hr : ∀ r, R r → R' r) : ∀ {is : List (String × Input)},
    Input.AllTidy R is → Input.AllTidy R' is
  | [], _ => trivial
  | (_, _) :: _, h =>
    have ⟨hi, his⟩ := Input.allTidy_cons.mp h
    Input.allTidy_cons.mpr ⟨hi.mono hr, his.mono hr⟩

end

theorem Block.TidyScript.mono (h : b.TidyScript R) (hr : ∀ r, R r → R' r) : b.TidyScript R' :=
  have ⟨hn, ⟨body, place, hk, hb⟩, hi⟩ := h
  ⟨hn.mono hr, ⟨body, place, hk, hb.mono hr⟩, hi.mono hr⟩

end Mono

namespace Block

section Parts

variable {opcode key : String} {f : Field} {kind : BlockKind} {span : Span} {body : List Block}
  {place : Nat × Nat}

@[simp]
theorem inputs_ofKind : (ofKind kind opcode).inputs = [] := by rw [ofKind]

@[simp]
theorem fields_ofKind : (ofKind kind opcode).fields = [] := by rw [ofKind]

@[simp]
theorem kind_ofKind : (ofKind kind opcode).kind = kind := by rw [ofKind]

@[simp]
theorem inputs_withInput : (b.withInput name i).inputs = b.inputs ++ [(name, i)] := by
  rw [withInput]

@[simp]
theorem fields_withInput : (b.withInput name i).fields = b.fields := by rw [withInput]

@[simp]
theorem kind_withInput : (b.withInput name i).kind = b.kind := by rw [withInput]

@[simp]
theorem inputs_withField : (b.withField key f).inputs = b.inputs := by rw [withField]

@[simp]
theorem fields_withField : (b.withField key f).fields = b.fields ++ [(key, f)] := by rw [withField]

@[simp]
theorem kind_withField : (b.withField key f).kind = b.kind := by rw [withField]

end Parts

section Named

variable {key : String} {f : Field} {kind : BlockKind} {opcode : String}

theorem Named.congr {b b' : Block} (h : b.Named R)
    (hi : b'.inputs.map (·.1) = b.inputs.map (·.1)) (hf : b'.fields = b.fields) : b'.Named R where
  inputs := hi ▸ h.inputs
  fields := hf ▸ h.fields
  fit    := hf ▸ h.fit
  refs   := hf ▸ h.refs

@[simp]
theorem named_ofKind : (ofKind kind opcode).Named R := by
  constructor <;> simp

@[simp]
theorem named_withInput :
    (b.withInput name i).Named R ↔ b.Named R ∧ name ∉ b.inputs.map (·.1) := by
  refine ⟨fun h => ?_, fun ⟨h, hn⟩ => ?_⟩
  · have hi := h.inputs
    rw [inputs_withInput, List.map_append, List.nodup_append_comm] at hi
    have ⟨hn, hi⟩ := List.nodup_cons.mp hi
    exact ⟨⟨hi, h.fields, h.fit, h.refs⟩, hn⟩
  · refine ⟨?_, h.fields, h.fit, h.refs⟩
    rw [inputs_withInput, List.map_append, List.nodup_append_comm]
    exact List.nodup_cons.mpr ⟨hn, h.inputs⟩

@[simp]
theorem named_withField :
    (b.withField key f).Named R ↔
      b.Named R ∧ key ∉ b.fields.map (·.1) ∧ f.Fits key ∧ ∀ r, f.ref? key = some r → R r := by
  have hl : b.fields ⊆ b.fields ++ [(key, f)] := List.subset_append_left ..
  have hr : (key, f) ∈ b.fields ++ [(key, f)] := by simp
  refine ⟨fun h => ?_, fun ⟨h, hk, hf, hr⟩ => ⟨h.inputs, ?_, fun f' hm => ?_, fun f' hm => ?_⟩⟩
  · have hfs := h.fields
    rw [fields_withField, List.map_append, List.nodup_append_comm] at hfs
    have ⟨hk, hfs⟩ := List.nodup_cons.mp hfs
    exact ⟨⟨h.inputs, hfs, fun _ hm => h.fit _ (hl hm), fun _ hm => h.refs _ (hl hm)⟩, hk,
      h.fit _ hr, h.refs _ hr⟩
  · rw [fields_withField, List.map_append, List.nodup_append_comm]
    exact List.nodup_cons.mpr ⟨hk, h.fields⟩
  · cases List.mem_append.mp hm
    case inl hm => exact h.fit f' hm
    case inr hm => exact List.mem_singleton.mp hm ▸ hf
  · cases List.mem_append.mp hm
    case inl hm => exact h.refs f' hm
    case inr hm => exact List.mem_singleton.mp hm ▸ hr

end Named

section Tidy

variable {key opcode text : String} {f : Field} {span : Span} {comment : Option String}

@[simp]
theorem tidy_ofKind {kind : BlockKind} : (ofKind kind opcode).Tidy R ↔ kind.Inner R [] := by
  simp [tidy_iff]

@[simp]
theorem tidy_withInput :
    (b.withInput name i).Tidy R ↔ b.Tidy R ∧ name ∉ b.inputs.map (·.1) ∧ i.Tidy R := by
  simp only [tidy_iff, named_withInput, kind_withInput, fields_withInput, inputs_withInput,
    Input.allTidy_append, Input.allTidy_cons, Input.allTidy_nil]
  tauto

-- Neither the place in the source nor a comment matters.
theorem tidy_congr {b' : Block} (hk : b'.kind = b.kind) (hi : b'.inputs = b.inputs)
    (hf : b'.fields = b.fields) : b'.Tidy R ↔ b.Tidy R := by
  have hn : b'.Named R ↔ b.Named R :=
    ⟨fun h => h.congr (by rw [hi]) hf.symm, fun h => h.congr (by rw [hi]) hf⟩
  simp only [tidy_iff, hn, hk, hi, hf]

@[simp]
theorem tidy_writtenAt : (b.writtenAt span).Tidy R ↔ b.Tidy R :=
  tidy_congr rfl rfl rfl

@[simp]
theorem tidy_setComment : { b with comment }.Tidy R ↔ b.Tidy R :=
  tidy_congr rfl rfl rfl

-- A parameter in the head of a definition is no reference to it.
@[simp]
theorem tidy_argument {shadow : Bool} :
    (argument text shadow).Tidy R ↔ (shadow = false → R (.param text)) := by
  cases shadow <;> simp [tidy_iff, argument, BlockKind.Inner, Field.Fits, Field.ref?]

-- A block whose inputs are given all at once.
theorem tidy_ofInputs {kind : BlockKind} :
    { ofKind kind opcode with inputs := is }.Tidy R ↔
      (is.map (·.1)).Nodup ∧ kind.Inner R [] ∧ Input.AllTidy R is := by
  have hn : { ofKind kind opcode with inputs := is }.Named R ↔ (is.map (·.1)).Nodup :=
    ⟨fun h => h.inputs, fun h => ⟨h, by simp, by simp, by simp⟩⟩
  rw [tidy_iff, hn]
  rfl

@[simp]
theorem tidy_call {code : String} {warp : Bool} :
    (call code warp is).Tidy R ↔ (is.map (·.1)).Nodup ∧ Input.AllTidy R is := by
  rw [call, tidy_ofInputs]
  simp [BlockKind.Inner]

end Tidy

section Script

variable {code : String} {warp : Bool} {params : List String} {body : List Block}

theorem TidyScript.congr {b' : Block} (h : b.TidyScript R) (hk : b'.kind = b.kind)
    (hi : b'.inputs = b.inputs) (hf : b'.fields = b.fields) : b'.TidyScript R where
  named  := h.named.congr (by rw [hi]) hf
  body   := hk ▸ h.body
  inputs := hi ▸ h.inputs

theorem tidyScript_hat {opcode : String} (h : AllTidy R body) :
    (hat opcode body).TidyScript R where
  named  := named_ofKind
  body   := ⟨body, (0, 0), rfl, h⟩
  inputs := Input.allTidy_nil

-- The head of a definition holds a shadow for each parameter.
theorem tidyScript_definition (hp : params.Nodup) (h : AllTidy R body) :
    (definition code warp params body).TidyScript R where
  named  := by simp [definition, hat]
  body   := ⟨body, (0, 0), rfl, h⟩
  inputs := by
    let inputs := params.map fun p => (p, Input.block (argument p true))
    have hn : (inputs.map (·.1)).Nodup := by simpa [inputs, Function.comp_def] using hp
    have hs : Input.AllTidy R inputs := by simp [inputs, Input.allTidy_iff]
    have hh : { ofKind (.prototype code warp) "procedures_prototype" with inputs }.Tidy R :=
      tidy_ofInputs.mpr ⟨hn, by simp [BlockKind.Inner], hs⟩
    simpa [definition, hat] using hh

end Script

end Block

end BlockLang
