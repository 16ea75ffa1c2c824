import BlockLang.Proofs.Macro.Mention
import BlockLang.Proofs.Tree.MadeOf

/-!
Other names for the variables and lists in a tree.
-/

namespace BlockLang

def Name.rename (r : String → String) (n : Name) : Name :=
  { n with text := r n.text }

mutual

-- An expression with other names for the variables and lists in it.
def Expr.rename (r : String → String) : Expr → Expr
  | .literal t => .literal t
  | .argument t => .argument t
  | .var n => .var (n.rename r)
  | .macroVar n => .macroVar n
  | .macroCall n args => .macroCall n (Expr.renameAll r args)
  | .reporter n args => .reporter n (Expr.renameAll r args)
  | .unary op s e => .unary op s (e.rename r)
  | .binary op s e e' => .binary op s (e.rename r) (e'.rename r)
  | .index s e i => .index s (e.rename r) (i.rename r)
  | .listLength n => .listLength (n.rename r)
  | .listIndex n e => .listIndex (n.rename r) (e.rename r)
  | .listContains n e => .listContains (n.rename r) (e.rename r)
  | .sensingOf t n => .sensingOf t n

def Expr.renameAll (r : String → String) : List Expr → List Expr
  | [] => []
  | e :: es => e.rename r :: Expr.renameAll r es

end

mutual

def Stmt.rename (r : String → String) : Stmt → Stmt
  | .call n args comment => .call n (Expr.renameAll r args) comment
  | .macroCall n args => .macroCall n (Expr.renameAll r args)
  | .branch s branches none => .branch s (Stmt.renameBranches r branches) none
  | .branch s branches (some body) =>
    .branch s (Stmt.renameBranches r branches) (some (Stmt.renameBody r body))
  | .loopUntil s e body => .loopUntil s (e.rename r) (Stmt.renameBody r body)
  | .loopTimes s e body => .loopTimes s (e.rename r) (Stmt.renameBody r body)
  | .forever s body => .forever s (Stmt.renameBody r body)
  | .declareLocal n e => .declareLocal (n.rename r) (e.rename r)
  | .assign n e => .assign (n.rename r) (e.rename r)
  | .compound n op e => .compound (n.rename r) op (e.rename r)
  | .increment n => .increment (n.rename r)
  | .listSet n items => .listSet (n.rename r) (Expr.renameAll r items)
  | .listAdd n e => .listAdd (n.rename r) (e.rename r)
  | .listDelete n i => .listDelete (n.rename r) (i.rename r)
  | .listDeleteAll n => .listDeleteAll (n.rename r)
  | .listInsert n i e => .listInsert (n.rename r) (i.rename r) (e.rename r)
  | .listReplace n i op e => .listReplace (n.rename r) (i.rename r) op (e.rename r)
  | .showMonitor n => .showMonitor (n.rename r)
  | .hideMonitor n => .hideMonitor (n.rename r)

def Stmt.renameBody (r : String → String) : List Stmt → List Stmt
  | [] => []
  | s :: ss => s.rename r :: Stmt.renameBody r ss

def Stmt.renameBranches (r : String → String) :
    List (Expr × List Stmt) → List (Expr × List Stmt)
  | [] => []
  | (e, body) :: rest => (e.rename r, Stmt.renameBody r body) :: Stmt.renameBranches r rest

end

-- The function `f` with `y` for each variable that is named `x` in its body.
def Decl.renameLocal (f x y : String) : Decl → Decl
  | .function n params body warp =>
    .function n params
      (if n.text = f then Stmt.renameBody (Function.update id x y) body else body) warp
  | d => d

def SpriteTree.renameLocal (f x y : String) (tree : SpriteTree) : SpriteTree :=
  tree.map (Decl.renameLocal f x y)

theorem Name.rename_id (n : Name) : n.rename id = n := rfl

theorem Expr.length_renameAll {r : String → String} {es : List Expr} :
    (renameAll r es).length = es.length := by
  induction es <;> simp_all [renameAll]

-- Nothing changes if each name is replaced by itself.
section Id

mutual

theorem Expr.rename_id : ∀ e : Expr, e.rename id = e
  | .literal _ | .argument _ | .var _ | .macroVar _ | .listLength _ | .sensingOf _ _ => rfl
  | .macroCall _ args | .reporter _ args => by rw [Expr.rename, Expr.renameAll_id args]
  | .unary _ _ e => by rw [Expr.rename, Expr.rename_id e]
  | .binary _ _ l r | .index _ l r => by rw [Expr.rename, Expr.rename_id l, Expr.rename_id r]
  | .listIndex _ e | .listContains _ e => by rw [Expr.rename, Expr.rename_id e, Name.rename_id]

theorem Expr.renameAll_id : ∀ es : List Expr, Expr.renameAll id es = es
  | [] => rfl
  | e :: es => by rw [Expr.renameAll, Expr.rename_id e, Expr.renameAll_id es]

end

mutual

theorem Stmt.rename_id : ∀ s : Stmt, s.rename id = s
  | .call _ args _ | .macroCall _ args => by rw [Stmt.rename, Expr.renameAll_id args]
  | .branch _ branches none => by rw [Stmt.rename, Stmt.renameBranches_id branches]
  | .branch _ branches (some body) => by
    rw [Stmt.rename, Stmt.renameBranches_id branches, Stmt.renameBody_id body]
  | .loopUntil _ e body | .loopTimes _ e body => by
    rw [Stmt.rename, Expr.rename_id e, Stmt.renameBody_id body]
  | .forever _ body => by rw [Stmt.rename, Stmt.renameBody_id body]
  | .increment _ | .listDeleteAll _ | .showMonitor _ | .hideMonitor _ => rfl
  | .declareLocal n e | .assign n e | .compound n _ e | .listAdd n e | .listDelete n e => by
    rw [Stmt.rename, Expr.rename_id e, Name.rename_id]
  | .listSet n items => by rw [Stmt.rename, Expr.renameAll_id items, Name.rename_id]
  | .listInsert n i e | .listReplace n i _ e => by
    rw [Stmt.rename, Expr.rename_id i, Expr.rename_id e, Name.rename_id]

theorem Stmt.renameBody_id : ∀ ss : List Stmt, Stmt.renameBody id ss = ss
  | [] => rfl
  | s :: ss => by rw [Stmt.renameBody, Stmt.rename_id s, Stmt.renameBody_id ss]

theorem Stmt.renameBranches_id : ∀ bs : List (Expr × List Stmt), Stmt.renameBranches id bs = bs
  | [] => rfl
  | (e, body) :: rest => by
    rw [Stmt.renameBranches, Expr.rename_id e, Stmt.renameBody_id body,
      Stmt.renameBranches_id rest]

end

end Id

namespace Mention

def rename (r : String → String) : Mention → Mention
  | ownLocal n => ownLocal (n.rename r)
  | scalar n => scalar (n.rename r)
  | list n => list (n.rename r)

variable {r : String → String} {enter : Enter} {m : Material}

mutual

-- A body without macro calls mentions the new names in place of the old ones.
theorem ofStmt_rename : ∀ {s : Stmt}, s.MadeOf m .none →
    ofStmt enter (s.rename r) = (ofStmt enter s).map (rename r)
  | .macroCall .., ⟨h, _⟩ => h.elim
  | .branch _ branches none, ⟨_, _, hb⟩ => by
    rw [Stmt.rename, ofStmt, ofStmt, ofBranches_rename hb]
  | .branch _ branches (some body), ⟨_, _, hb, ho⟩ => by
    rw [Stmt.rename, ofStmt, ofStmt, ofBranches_rename hb, ofBody_rename ho, List.map_append]
  | .loopUntil _ _ body, ⟨_, _, hb⟩ | .loopTimes _ _ body, ⟨_, _, hb⟩
  | .forever _ body, ⟨_, hb⟩ => by
    rw [Stmt.rename, ofStmt, ofStmt, ofBody_rename hb]
  | .call .., _ | .declareLocal .., _ | .assign .., _ | .compound .., _ | .increment .., _
  | .listSet .., _ | .listAdd .., _ | .listDelete .., _ | .listDeleteAll .., _ | .listInsert .., _
  | .listReplace .., _ | .showMonitor .., _ | .hideMonitor .., _ => by
    simp [Stmt.rename, ofStmt, rename]

theorem ofBody_rename : ∀ {ss : List Stmt}, Stmt.MadeOfBody m .none ss →
    ofBody enter (Stmt.renameBody r ss) = (ofBody enter ss).map (rename r)
  | [], _ => rfl
  | s :: ss, ⟨hs, hss⟩ => by
    rw [Stmt.renameBody, ofBody, ofBody, ofStmt_rename hs, ofBody_rename hss, List.map_append]

theorem ofBranches_rename : ∀ {bs : List (Expr × List Stmt)}, Stmt.MadeOfBranches m .none bs →
    ofBranches enter (Stmt.renameBranches r bs) = (ofBranches enter bs).map (rename r)
  | [], _ => rfl
  | (_, body) :: rest, ⟨⟨_, hb⟩, hbs⟩ => by
    rw [Stmt.renameBranches, ofBranches, ofBranches, ofBody_rename hb, ofBranches_rename hbs,
      List.map_append]

end

end Mention

end BlockLang
