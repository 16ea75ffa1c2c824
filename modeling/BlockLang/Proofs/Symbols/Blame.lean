import BlockLang.Proofs.Symbols.Shared
import BlockLang.Proofs.Tree.Parser.Decl

/-!
The names of a sprite cannot be collected: one of its tokens is to blame.
-/

namespace BlockLang

variable {m : Material} {s : Symbols} {c : Collection} {d : Decl} {source : FileSource}
  {root : Path} {name : Name} {token : Token}

namespace Symbols

theorem mem_of_repeated? {seen : List String} {ps : List Name} {p : Name}
    (h : repeated? seen ps = some p) : p ∈ ps := by
  induction ps generalizing seen
  case nil => contradiction
  case cons q qs hi =>
    simp only [repeated?] at h
    split at h
    case isTrue => exact Option.some.inj h ▸ List.mem_cons_self
    case isFalse => exact List.mem_cons_of_mem _ (hi h)

theorem explains_addMacro (hd : d.MadeOf m .any) : m.Explains (s.addMacro d) := by
  cases d
  case exprMacro | blockMacro =>
    simp only [addMacro]
    split
    case isTrue => exact yields_errorIn hd.1 rfl
    case isFalse => exact trivial
  all_goals exact trivial

theorem explains_addFunction {params : List Name} {body : List Stmt} {warp : Bool}
    (hn : m.token name.identifier) (hp : ∀ p ∈ params, m.token p.identifier) :
    m.Explains (s.addFunction name params body warp) := by
  unfold addFunction
  split
  case isTrue => exact yields_errorIn hn rfl
  case isFalse =>
    split
    case h_1 p hr => exact yields_errorIn (hp p (mem_of_repeated? hr)) rfl
    case h_2 => exact trivial

end Symbols

namespace Collection

theorem explains_note {storage : Storage} (hn : m.token name.identifier) :
    m.Explains (c.note name storage) := by
  unfold note
  split
  case isTrue => exact yields_errorIn hn rfl
  case isFalse => exact trivial

theorem explains_noteFilled (hn : m.token name.identifier) : m.Explains (c.noteFilled name) := by
  refine (explains_note hn).bind fun c _ => ?_
  split
  case isTrue => exact yields_errorIn hn rfl
  case isFalse => exact trivial

theorem explains_dataFile (ht : m.token token) : m.Explains (dataFile source root token) := by
  refine (explains_literal ht).bind fun text _ => ?_
  dsimp only
  split
  case isTrue => exact trivial
  case isFalse => exact yields_errorAt ht rfl

theorem explains_dataLines (ht : m.token token) : m.Explains (dataLines source root token) := by
  refine (explains_dataFile ht).bind fun file _ => ?_
  split
  case h_1 => exact trivial
  case h_2 => exact yields_errorAt ht rfl

theorem explains_imageData {format : Option Name} (ht : m.token token)
    (hf : ∀ f ∈ format, m.token f.identifier) :
    m.Explains (imageData source root token format) := by
  refine (explains_dataFile ht).bind fun file _ => ?_
  split
  case h_1 f => exact yields_errorIn (hf f rfl) rfl
  case h_2 =>
    split
    case h_1 => exact yields_errorAt ht rfl
    case h_2 =>
      split
      case h_1 => exact trivial
      case h_2 => exact yields_errorAt ht rfl

theorem explains_costumes (ht : m.token token) : m.Explains (costumes source root token) := by
  refine (explains_literal ht).bind fun pattern _ => ?_
  split
  case isTrue =>
    dsimp only
    split
    case isTrue => exact trivial
    case isFalse => exact yields_errorAt ht rfl
  split
  case isTrue =>
    split
    case h_1 | h_2 => exact yields_errorAt ht rfl
    case h_3 => exact trivial
  case isFalse =>
    dsimp only
    split
    case isTrue => exact trivial
    case isFalse => exact yields_errorAt ht rfl

theorem explains_declare (hc : ∀ t, m.comment t → t.kind = .comment) (hd : d.MadeOf m .any) :
    m.Explains (declare source root c d) := by
  cases d
  case costumes tokens =>
    refine .foldlM trivial fun token ht c _ => ?_
    exact (explains_costumes (hd.2 token ht).2).bind fun _ _ => trivial
  case vars names | lists names =>
    refine .foldlM trivial fun name hn c _ => ?_
    exact (explains_note (hd.2 name hn)).bind fun _ _ => trivial
  case dataList name token =>
    refine (explains_noteFilled hd.1).bind fun c _ => ?_
    exact (explains_dataLines hd.2.2).bind fun _ _ => trivial
  case imageList name token format =>
    refine (explains_noteFilled hd.1).bind fun c _ => ?_
    exact (explains_imageData hd.2.1.2 hd.2.2).bind fun _ _ => trivial
  case function name params body warp =>
    exact (Symbols.explains_addFunction hd.1 hd.2.1).bind fun _ _ => trivial
  case docComment token => exact (explains_comment (hc token hd)).bind fun _ _ => trivial
  all_goals exact trivial

end Collection

theorem Symbols.explains_ofTree {globals : Globals} {tree : SpriteTree}
    (hc : ∀ t, m.comment t → t.kind = .comment) (ht : ∀ d ∈ tree, d.MadeOf m .any) :
    m.Explains (ofTree source root globals tree) := by
  have hm : m.Explains (tree.foldlM addMacro (.initial globals)) :=
    .foldlM trivial fun d hd s _ => explains_addMacro (ht d hd)
  refine hm.bind fun s _ => ?_
  have hd : m.Explains (tree.foldlM (Collection.declare source root) ⟨s, []⟩) :=
    .foldlM trivial fun d hd c _ => Collection.explains_declare hc (ht d hd)
  exact hd.bind fun _ _ => trivial

end BlockLang
