import BlockLang.Proofs.Graph.Slots
import BlockLang.Proofs.Graph.Tree
import BlockLang.Proofs.Project.Compile
import BlockLang.Proofs.Sprite.Procedures.Basic
import BlockLang.Proofs.Symbols.Functions

/-!
Calls and definitions of functions agree in the document of a compiled project.
-/

namespace BlockLang

namespace Document

-- The records of a target that have some opcode.
def records (opcode : String) (target : Document) : List Document :=
  (target.blocks.map (·.2)).filter fun record => record.opcode? = some opcode

-- What a record tells about a function.
def mutation? (record : Document) : Option Mutation :=
  (record.member? "mutation").bind readMutation

-- The code of the function that a record tells about.
def code? (record : Document) : Option String :=
  record.mutation?.map (·.code)

-- The calls and the definitions of functions in a target agree with each other.
structure CallsAgree (target : Document) : Prop where
  -- The function that is called is one that is always there, or exactly one head of a definition
  -- has its code. This head tells of the same arguments, and agrees on waiting for the screen.
  calls : ∀ call ∈ target.records "procedures_call", ∃ m, call.mutation? = some m ∧
    ((∃ f ∈ Function.allPredefined, m = f.mutation false) ∨
      ∃ head, (target.records "procedures_prototype").filter (·.code? = some m.code) = [head] ∧
        head.mutation? = some { m with defines := true })
  -- No code is that of two functions.
  codes : (Function.allPredefined.map (some ·.code) ++
    (target.records "procedures_prototype").map code?).Nodup
  -- The arguments are told apart, they are the inputs, and there is a place for each in the code.
  arguments : ∀ record ∈ target.records "procedures_call" ++ target.records "procedures_prototype",
    ∃ m, record.mutation? = some m ∧ m.arguments.Nodup ∧
      ((record.entries "inputs").map (·.1)).Perm m.arguments ∧
      Function.places m.code = m.arguments.length

-- A record that tells about a function has an input for each of its parameters.
structure Tells (f : Function) (defines : Bool) (record : Document) : Prop where
  mutation : record.mutation? = some (f.mutation defines)
  inputs   : ((record.entries "inputs").map (·.1)).Perm (f.params.map (·.text))

end Document

open Document

variable {f : Function} {defines : Bool} {b : Block} {r : Record}

theorem Block.Tells.names (h : b.Tells f defines) :
    b.inputs.map (·.1) = f.params.map (·.text) := by
  have hm := h.mutation
  unfold Block.mutation? at hm
  split at hm
  case h_3 => contradiction
  all_goals exact congrArg Mutation.arguments (Option.some.inj hm)

theorem Record.Of.tells_document (h : Record.Of b r) (ht : b.Tells f defines)
    (hp : (f.params.map (·.text)).Nodup) : r.document.Tells f defines where
  mutation := by
    rw [Document.mutation?, member?_mutation, h.mutation, ht.mutation]
    exact Mutation.readMutation_document
  inputs := by
    have hs : r.slots.map (·.1) = f.params.map (·.text) :=
      (h.slots fun i hi => ht.inputs i hi []).trans ht.names
    have hm : ((r.slots.map fun s => (s.1, s.2.document)).map (·.1)) =
        f.params.map (·.text) := by
      simpa [Function.comp_def] using hs
    rw [entries, member?_inputs, Option.map_some, Option.getD_some, ← hm]
    exact (members_ofMembers_perm (by rw [hm]; exact hp)).map _

namespace Compiled

variable {source : FileSource} {root : Path} {globals : Globals} {tree : SpriteTree}
  {symbols : Symbols} {s : Sprite}

theorem defines_functions (h : Compiled source root globals tree symbols s) :
    symbols.Defines tree.functions (Block.blocksAll s.blocks) := by
  have ⟨tree', scripts, he, hm, ha⟩ := h.scripts
  have hd : ∀ f ∈ tree.functions, ∃ locals,
      symbols.functions[f.name.text]? = some { f with locals } :=
    fun f hf => (Symbols.getElem?_functions h.collected hf).2
  rw [← SpriteTree.functions_expandMacros he] at hd ⊢
  have hp : List.Forall₂ Layout.Placed (scripts.filterMap id) s.blocks :=
    ha ▸ Layout.forall₂_arrange
  exact Sprite.defines_scripts Vocabulary.builtin_ordinary (forall₂_of_mapM hm) hp hd

-- The functions of a tree are named by words.
theorem spelled (h : Compiled source root globals tree symbols s) :
    ∀ f ∈ tree.functions, f.Spelled := by
  intro f hf
  have ⟨_, ht⟩ := h.parsed
  have ⟨d, hd, hf⟩ := List.mem_filterMap.mp hf
  cases d
  case function name params body warp =>
    obtain rfl := Option.some.inj hf
    exact ⟨SpriteTree.isWordChar_ofSource ht _ hd _ (List.mem_cons_self ..), rfl⟩
  all_goals nomatch hf

end Compiled

-- The records of a target with some opcode are those of the blocks with the opcode.
theorem Project.Target.exists_records {s : Sprite} {target : Document}
    (h : Project.Target s target) :
    ∃ rs, List.Forall₂ Record.Of (Block.blocksAll s.blocks) rs ∧ ∀ opcode,
      (target.records opcode).Perm ((rs.filter (·.opcode = opcode)).map Record.document) := by
  have ⟨rs, hr, hb⟩ := h.exists_blocks
  refine ⟨rs, hr, fun opcode => ?_⟩
  have hp := hb.filter fun record => record.opcode? = some opcode
  simpa [Document.records, List.filter_map, Function.comp_def] using hp

section Target

variable {symbols : Symbols} {fs : List Function} {s : Sprite} {target : Document}

theorem Project.Target.exists_heads (h : Project.Target s target)
    (hd : symbols.Defines fs (Block.blocksAll s.blocks))
    (hf : ∀ f ∈ fs, (f.params.map (·.text)).Nodup) :
    ∃ heads, (target.records "procedures_prototype").Perm heads ∧
      List.Forall₂ (fun f r => Document.Tells f true r) fs heads := by
  have ⟨rs, hr, hp⟩ := h.exists_records
  refine ⟨_, hp _, ?_⟩
  have hr : List.Forall₂ Record.Of ((Block.blocksAll s.blocks).filter Block.isHead)
      (rs.filter (·.opcode = "procedures_prototype")) :=
    List.rel_filter (fun {b r} h => by simp [Block.isHead, h.opcode]) hr
  have hd := (List.forall₂_and_left _ _).mpr ⟨hf, hd.heads⟩
  apply List.forall₂_map_right_iff.mpr
  exact forall₂_trans hd hr fun h ho => ho.tells_document h.2 h.1

theorem Project.Target.calls_tell (h : Project.Target s target)
    (hd : symbols.Defines fs (Block.blocksAll s.blocks)) (hp : symbols.Proper) :
    ∀ r ∈ target.records "procedures_call",
      ∃ (n : String) (f : Function), symbols.functions[n]? = some f ∧ r.Tells f false := by
  have ⟨rs, hr, hm⟩ := h.exists_records
  intro d hc
  have ⟨r, hc, he⟩ := List.mem_map.mp ((hm _).mem_iff.mp hc)
  have ⟨hc, ho⟩ := List.mem_filter.mp hc
  have ⟨b, hb, hof⟩ := mem_of_forall₂ hr hc
  have ⟨n, f, hf, ht⟩ := hd.calls b hb (hof.opcode ▸ of_decide_eq_true ho)
  exact ⟨n, f, hf, he ▸ hof.tells_document ht (hp n f hf).2.1⟩

end Target

namespace Document.Tells

variable {fs : List Function} {records : List Document} {record : Document}

theorem code?_eq (h : record.Tells f defines) : record.code? = some f.code := by
  rw [code?, h.mutation]
  rfl

theorem codes_eq (h : List.Forall₂ (fun f r => Document.Tells f defines r) fs records) :
    records.map code? = fs.map (some ·.code) := by
  induction h
  case nil => rfl
  case cons ht _ hi => rw [List.map_cons, List.map_cons, ht.code?_eq, hi]

-- If no code is that of two functions, then exactly one of their heads has the code of a function.
theorem exists_filter_eq (h : List.Forall₂ (fun f r => Document.Tells f defines r) fs records)
    (hn : (fs.map (·.code)).Nodup) (hf : f ∈ fs) :
    ∃ record, records.filter (·.code? = some f.code) = [record] ∧ record.Tells f defines := by
  have hs : fs.filter (·.code = f.code) = [f] := filter_eq_singleton hn hf
  have hr : List.Forall₂ (fun f r => Document.Tells f defines r) (fs.filter (·.code = f.code))
      (records.filter (·.code? = some f.code)) :=
    List.rel_filter (fun {g r} h => by simp [h.code?_eq]) h
  rw [hs] at hr
  have ⟨record, _, ht, hnil, he⟩ := List.forall₂_cons_left_iff.mp hr
  rw [List.forall₂_nil_left_iff.mp hnil] at he
  exact ⟨record, he, ht⟩

-- What a record tells about a function fits its inputs.
theorem fits (h : record.Tells f defines) (hf : f.Fits) : ∃ m, record.mutation? = some m ∧
    m.arguments.Nodup ∧ ((record.entries "inputs").map (·.1)).Perm m.arguments ∧
    Function.places m.code = m.arguments.length :=
  ⟨_, h.mutation, hf.distinct, h.inputs, by simpa [Function.mutation] using hf.places⟩

end Document.Tells

namespace Compiled

variable {source : FileSource} {root : Path} {globals : Globals} {tree : SpriteTree}
  {symbols : Symbols} {s : Sprite} {target : Document}

theorem fits (h : Compiled source root globals tree symbols s) :
    ∀ f ∈ tree.functions, f.Fits :=
  fun f hf => ⟨(Symbols.getElem?_functions h.collected hf).1, (h.spelled f hf).places_code⟩

theorem fits_of_getElem? (h : Compiled source root globals tree symbols s) {n : String}
    (hf : symbols.functions[n]? = some f) : f.Fits := by
  cases Symbols.ofTree_functionsOf h.collected n f hf
  case inl hf => exact Function.fits_of_predefined hf
  case inr hf =>
    have ⟨hd, hp⟩ := h.fits _ hf
    exact ⟨hd, hp⟩

theorem callsAgree (h : Compiled source root globals tree symbols s)
    (ht : Project.Target s target) : target.CallsAgree := by
  have hd := h.defines_functions
  have ⟨heads, hp, hh⟩ := ht.exists_heads hd fun f hf => (h.fits f hf).distinct
  have hc := ht.calls_tell hd (Symbols.ofTree_proper h.collected)
  have hn := Function.nodup_codes h.spelled (Symbols.nodup_functions h.collected)
  refine { calls := fun call hm => ?calls, codes := ?codes, arguments := ?arguments }
  case calls =>
    have ⟨n, f, hf, hr⟩ := hc call hm
    refine ⟨_, hr.mutation, ?_⟩
    cases Symbols.ofTree_functionsOf h.collected n f hf
    case inl hf => exact .inl ⟨f, hf, rfl⟩
    case inr hf =>
      rw [List.map_append] at hn
      have ⟨head, he, ht⟩ := Tells.exists_filter_eq hh hn.of_append_right hf
      exact .inr ⟨head, List.perm_singleton.mp (he ▸ hp.filter _), ht.mutation⟩
  case codes =>
    apply ((hp.map code?).append_left _).nodup_iff.mpr
    rw [Tells.codes_eq hh, ← List.map_append]
    simpa [List.map_map, Function.comp_def] using hn.map fun _ _ => Option.some.inj
  case arguments =>
    refine List.forall_mem_append.mpr ⟨fun r hm => ?_, fun r hm => ?_⟩
    · have ⟨n, f, hf, hr⟩ := hc r hm
      exact hr.fits (h.fits_of_getElem? hf)
    · have ⟨f, hf, hr⟩ := mem_of_forall₂ hh (hp.mem_iff.mp hm)
      exact hr.fits (h.fits f hf)

end Compiled

namespace Project

theorem document_callsAgree {source : FileSource} {root : Path} {p : Project}
    (h : (compile source root).result = .ok p) (costumes : List (List Costume)) :
    ∀ target ∈ (p.document costumes).targets, target.CallsAgree := by
  intro target ht
  have ⟨s, hs, ht⟩ := mem_of_forall₂ forall₂_targets_document ht
  have ⟨_, _, _, hc, _⟩ := compiled_of_mem_targets h hs
  exact hc.callsAgree ht

-- A sprite with two functions, which call each other and one that is always there.
def callFiles : FileSource :=
  { sampleFiles with
    readBytes file :=
      if file.text = "p/stage.gs" then .ok "costumes \"a\";\n".toUTF8
      else if file.text = "p/cat.gs" then
        .ok ("costumes \"a\";\ndef f k, l \x7b log $l; \x7d\n" ++
          "nowarp def g \x7b f 1, 2; \x7d\nonflag \x7b g; \x7d\n").toUTF8
      else .error (.absent file) }

-- What the calls and the heads of definitions in a target tell about functions.
def mutations (target : Document) : List (Option Mutation) × List (Option Mutation) :=
  ((target.records "procedures_call").map mutation?,
    (target.records "procedures_prototype").map mutation?)

-- What they tell in the two targets.
def callMutations : List (List (Option Mutation) × List (Option Mutation)) := [
  ([], []),
  ([some ⟨"g", [], false, false⟩,
    some ⟨"\u200b\u200blog\u200b\u200b %s", ["message"], false, false⟩,
    some ⟨"f %s %s", ["k", "l"], true, false⟩],
    [some ⟨"f %s %s", ["k", "l"], true, true⟩, some ⟨"g", [], false, true⟩])]

theorem document_callFiles_callsAgree :
    ∃ p, (compile callFiles ⟨"p"⟩).result = .ok p ∧
      (p.document []).targets.map mutations = callMutations ∧
      ∀ target ∈ (p.document []).targets, target.CallsAgree := by
  have h : (compile callFiles ⟨"p"⟩).result.toOption.map
      (fun p => (p.document []).targets.map mutations) = some callMutations := by
    decide +kernel
  cases hp : (compile callFiles ⟨"p"⟩).result
  case error e => simp [hp, Except.toOption] at h
  case ok p =>
    rw [hp] at h
    exact ⟨p, rfl, Option.some.inj h, document_callsAgree hp []⟩

end Project

end BlockLang
