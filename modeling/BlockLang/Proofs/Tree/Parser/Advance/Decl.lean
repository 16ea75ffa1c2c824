import BlockLang.Tree.Parser.Decl
import BlockLang.Proofs.Tree.Parser.Advance.Expr

/-!
The readers of statements and declarations, like all others, go on from lexeme to lexeme, those that
take two lexemes at once included.
-/

namespace BlockLang

theorem AssignOp.ne_eof_of_ofToken? {t : Token} {op : AssignOp} (h : ofToken? t = some op) :
    t.kind ≠ .eof := by
  intro hk
  simp [ofToken?, hk] at h

namespace Parser

open Lexemes Reads

variable {stop : Token} {n : Name} {span : Span}

theorem advances_someExpressions : (Reads.ofAfter (expressions stop)).Advances stop :=
  .ofAfter fun _ => advances_expressions

theorem advances_endStatement : (endStatement stop).Advances stop :=
  fun _ => (advances_expectKind (by decide)).map fun _ hx => hx

theorem advances_lastExpression : (lastExpression stop).Advances stop :=
  advances_anyExpression.bind fun _ => advances_endStatement.bind fun _ => .pure

theorem advances_indexEnd : (indexEnd stop).Advances stop :=
  advances_anyExpression.bind fun _ => (advances_skipKind (by decide)).bind fun _ => .pure

theorem advances_localStmt : (localStmt stop).Advances stop :=
  advances_name.bind fun _ => (advances_skip fun _ => Token.ne_eof_of_isOp).bind fun _ =>
    advances_lastExpression.bind fun _ => .pure

theorem advances_addStmt : (addStmt stop).Advances stop :=
  advances_anyExpression.bind fun _ =>
    (advances_skip fun _ => Token.ne_eof_of_isKeyword).bind fun _ =>
      advances_name.bind fun _ => advances_endStatement.bind fun _ => .pure

theorem advances_deleteStmt : (deleteStmt stop).Advances stop :=
  advances_name.bind fun _ => Advances.upcoming.bind fun _ => .ite
    ((advances_skipKind (by decide)).bind fun _ => advances_indexEnd.bind fun _ =>
      advances_endStatement.bind fun _ => .pure)
    (advances_endStatement.bind fun _ => .pure)

theorem advances_insertStmt : (insertStmt stop).Advances stop :=
  advances_anyExpression.bind fun _ =>
    (advances_skip fun _ => Token.ne_eof_of_isKeyword).bind fun _ =>
      advances_name.bind fun _ => (advances_skipKind (by decide)).bind fun _ =>
        advances_indexEnd.bind fun _ => advances_endStatement.bind fun _ => .pure

theorem advances_listItems : (listItems stop).Advances stop :=
  have hj : ∀ es : List Expr, Reads.Advances stop
      (do skipKind stop .rbracket "']' to close list literal"; return es) :=
    fun _ => (advances_skipKind (by decide)).bind fun _ => .pure
  (advances_skipKind (by decide)).bind fun _ => Advances.upcoming.bind fun _ =>
    .ite (.bind .pure hj) (advances_someExpressions.bind hj)

theorem advances_assignStmt : (assignStmt stop n).Advances stop :=
  Advances.upcoming.bind fun _ => .ite
    (advances_listItems.bind fun _ => advances_endStatement.bind fun _ => .pure)
    (advances_lastExpression.bind fun _ => .pure)

theorem advances_replaceOp : (replaceOp stop).Advances stop := by
  intro s
  cases s
  case nil => exact advances_fail
  case cons l ls =>
    simp only [replaceOp]
    split
    case isTrue ho => exact .one (Token.ne_eof_of_isOp ho)
    case isFalse =>
      split
      case h_1 op ho => exact .one (AssignOp.ne_eof_of_ofToken? ho)
      case h_2 => exact advances_fail

theorem advances_replaceStmt : (replaceStmt stop n).Advances stop :=
  advances_indexEnd.bind fun _ => advances_replaceOp.bind fun _ =>
    advances_lastExpression.bind fun _ => .pure

theorem advances_callStmt : (callStmt stop n).Advances stop :=
  have hj : ∀ es : List Expr, Reads.Advances stop
      (do let comment ← endStatement stop; return Stmt.call n es comment) :=
    fun _ => advances_endStatement.bind fun _ => .pure
  Advances.upcoming.bind fun _ => .ite (.bind .pure hj) (advances_someExpressions.bind hj)

-- The name has been passed. What is passed with it, if anything, is no end of the source either.
theorem advances_namedStmt : (namedStmt stop n).Advances stop := by
  intro s
  cases s
  case nil => exact advances_callStmt []
  case cons l ls =>
    simp only [namedStmt]
    have hm : ∀ {read : Reads Stmt}, read.Advances stop → l.token.kind ≠ .eof →
        Yields (fun x => Reaches (l :: ls) x.rest) (Stops stop (l :: ls))
          ((read ls).map fun x => (x.tail (t := l)).upto) :=
      fun hr hl => advances_from (.one hl) ((hr ls).map fun _ hx => hx)
    split
    case isTrue ho => exact hm advances_assignStmt (Token.ne_eof_of_isOp ho)
    split
    case h_1 op ho => exact hm advances_lastExpression.map (AssignOp.ne_eof_of_ofToken? ho)
    split
    case isTrue ho => exact hm advances_endStatement.map (by simp_all [Token.isOp])
    split
    case isTrue hk => exact hm advances_replaceStmt (by simp [hk])
    split
    case isTrue hk => exact hm advances_endStatement.map (by simp_all)
    case isFalse => exact advances_callStmt (l :: ls)

theorem advances_macroStmt : (macroStmt stop n).Advances stop :=
  (Advances.ofAfter fun _ => advances_arguments).bind fun _ => advances_endStatement.bind fun _ =>
    .pure

mutual

theorem advances_statement : ∀ {s : List Lexeme},
    Yields (fun x => Reaches s x.rest) (Stops stop s) (statement stop s)
  | [] => by
    rw [statement]
    exact advances_fail
  | l :: ls => by
    rw [statement.eq_def]
    dsimp only
    split
    case h_1 hk =>
      have hl : l.token.kind ≠ .eof := by simp [hk]
      split
      case h_1 =>
        refine advances_from (.one hl) ?_
        refine advances_bind advances_expression fun ⟨e, r, hr⟩ => ?_
        refine advances_bind advances_block fun ⟨body, r', hr'⟩ => ?_
        have hr' : r'.length < r.length := hr'
        exact advances_branches.bind fun _ hx => hx
      case h_2 | h_3 =>
        refine advances_from (.one hl) ?_
        refine advances_bind advances_expression fun ⟨e, r, hr⟩ => ?_
        exact advances_block.bind fun _ hx => hx
      case h_4 => exact advances_from (.one hl) (advances_block.bind fun _ hx => hx)
      case h_5 => exact advances_localStmt.tail hl
      case h_6 => exact advances_addStmt.tail hl
      case h_7 => exact advances_deleteStmt.tail hl
      case h_8 => exact advances_insertStmt.tail hl
      case h_9 => exact advances_fail
    case h_2 hk =>
      split
      case isTrue => exact advances_macroStmt.tail (by simp [hk])
      case isFalse => exact advances_fail
    case h_3 hk => exact advances_namedStmt.tail (by simp [hk])
    case h_4 => exact advances_fail
termination_by s => 4 * s.length
decreasing_by all_goals simp only [List.length_cons]; omega

theorem advances_branches : ∀ {s : List Lexeme},
    Yields (fun x => Reaches s x.rest) (Stops stop s) (branches stop s)
  | [] => by
    rw [branches]
    exact Reaches.here
  | l :: ls => by
    rw [branches]
    split
    case isTrue hk =>
      refine advances_from (.one (Token.ne_eof_of_isKeyword hk)) ?_
      refine advances_bind advances_expression fun ⟨e, r, hr⟩ => ?_
      refine advances_bind advances_block fun ⟨body, r', hr'⟩ => ?_
      have hr' : r'.length < r.length := hr'
      exact advances_branches.bind fun _ hx => hx
    split
    case isTrue hk =>
      refine advances_from (.one (Token.ne_eof_of_isKeyword hk)) ?_
      exact advances_block.bind fun _ hx => hx
    case isFalse => exact Reaches.here
termination_by s => 4 * s.length
decreasing_by all_goals simp only [List.length_cons]; omega

theorem advances_block {s : List Lexeme} :
    Yields (fun x => Reaches s x.rest) (Stops stop s) (block stop s) := by
  rw [block]
  refine advances_bind (advances_expectKind (by decide)) fun ⟨_, r, hr⟩ => ?_
  exact advances_statements.bind fun _ hx => hx
termination_by 4 * s.length
decreasing_by all_goals omega

theorem advances_statements : ∀ {s : List Lexeme},
    Yields (fun x => Reaches s x.rest) (Stops stop s) (statements stop s)
  | [] => by
    rw [statements]
    exact advances_fail
  | l :: ls => by
    rw [statements.eq_def]
    dsimp only
    split
    case isTrue hk => exact .one (by simp [hk])
    split
    case isTrue => exact advances_fail
    refine advances_bind advances_statement fun ⟨st, r, hr⟩ => ?_
    have hr : r.length < ls.length + 1 := hr
    exact advances_statements.bind fun _ hx => hx
termination_by s => 4 * s.length + 1
decreasing_by all_goals simp only [List.length_cons]; omega

end

theorem advances_body : (body stop).Advances stop :=
  .ofAfter fun _ => advances_block

theorem advances_costumesDecl : (costumesDecl stop).Advances stop :=
  advances_string.bind fun _ => (advances_afterCommas advances_string).bind fun _ =>
    (advances_skipKind (by decide)).bind fun _ => .pure

theorem advances_namesDecl {what : String} : (namesDecl stop what).Advances stop :=
  advances_names.bind fun _ => (advances_skipKind (by decide)).bind fun _ => .pure

theorem advances_dataListDecl : (dataListDecl stop).Advances stop :=
  advances_name.bind fun _ => advances_string.bind fun _ =>
    (advances_skipKind (by decide)).bind fun _ => .pure

theorem advances_imageListDecl : (imageListDecl stop).Advances stop := by
  refine advances_name.bind fun n => advances_string.bind fun t =>
    Advances.upcoming.bind fun _ => ?_
  have hj : ∀ format : Option Name, Reads.Advances stop
      (do skipKind stop .semicolon "';' after imagelist"; return Decl.imageList n t format) :=
    fun _ => (advances_skipKind (by decide)).bind fun _ => .pure
  exact .ite (.bind advances_name.map hj) (.bind .pure hj)

theorem advances_parameters {bodyNext : Bool} : (parameters stop bodyNext).Advances stop :=
  .ite .pure advances_names

theorem advances_functionDecl {warp : Bool} : (functionDecl stop warp).Advances stop :=
  advances_name.bind fun _ => Advances.upcoming.bind fun _ => advances_parameters.bind fun _ =>
    advances_body.bind fun _ => .pure

theorem advances_macroDecl : (macroDecl stop).Advances stop :=
  advances_name.bind fun _ => Advances.upcoming.bind fun _ => advances_parameters.bind fun _ =>
    Advances.upcoming.bind fun _ => .ite
      ((advances_skip fun _ => Token.ne_eof_of_isOp).bind fun _ => advances_anyExpression.bind
        fun _ => (advances_skipKind (by decide)).bind fun _ => .pure)
      (.ite (advances_body.bind fun _ => .pure) fun _ => advances_fail)

theorem advances_script {event : Event} : (script stop span event).Advances stop :=
  advances_body.map

theorem advances_stringEvent {what : String} {event : Token → Event} :
    (stringEvent stop span what event).Advances stop :=
  advances_string.bind fun _ => advances_script

theorem advances_thresholdEvent {event : Expr → Event} :
    (thresholdEvent stop span event).Advances stop :=
  advances_anyExpression.bind fun _ => advances_script

theorem advances_afterKeyword {t : Token} {read : Reads Decl}
    (h : afterKeyword stop t = some read) : read.Advances stop := by
  unfold afterKeyword at h
  split at h
  case h_17 => contradiction
  all_goals obtain rfl := Option.some.inj h
  case h_1 => exact advances_costumesDecl
  case h_2 | h_3 => exact advances_namesDecl.map
  case h_4 => exact advances_dataListDecl
  case h_5 => exact advances_imageListDecl
  case h_6 => exact (advances_skip fun _ => Token.ne_eof_of_isKeyword).bind fun _ =>
    advances_functionDecl
  case h_7 => exact advances_functionDecl
  case h_8 => exact advances_macroDecl
  case h_9 | h_10 | h_11 => exact advances_script
  case h_12 | h_13 | h_14 => exact advances_stringEvent
  case h_15 | h_16 => exact advances_thresholdEvent

theorem advances_declaration {s : List Lexeme} :
    Yields (fun x => Reaches s x.rest) (Stops stop s) (declaration stop s) := by
  cases s
  case nil => exact advances_fail
  case cons l ls =>
    simp only [declaration]
    split
    case h_1 read hr =>
      split at hr
      case isTrue hk => exact (advances_afterKeyword hr).tail (by simp [hk])
      case isFalse => contradiction
    case h_2 => exact advances_fail

-- A reader that goes on by a lexeme at least.
def Progresses {α : Type} (stop : Token) (read : (s : List Lexeme) → Result (After s α)) : Prop :=
  ∀ s, Yields (fun x => Reaches s x.rest ∧ x.rest ≠ s) (Stops stop s) (read s)

theorem progresses {α : Type} {read : (s : List Lexeme) → Result (After s α)}
    (h : ∀ s, Yields (fun x => Reaches s x.rest) (Stops stop s) (read s)) : Progresses stop read :=
  fun s => (h s).mono
    (fun x hx => ⟨hx, fun he => Nat.ne_of_lt x.shorter (congrArg List.length he)⟩) fun _ he => he

-- All readers go on from lexeme to lexeme, and those that others wait for go on by one at least.
structure MovesOn (stop : Token) : Prop where
  declaration     : Progresses stop (declaration stop)
  afterKeyword    : ∀ t, ∀ read ∈ afterKeyword stop t, read.Advances stop
  functionDecl    : ∀ warp, (functionDecl stop warp).Advances stop
  macroDecl       : (macroDecl stop).Advances stop
  names           : (names stop).Advances stop
  block           : Progresses stop (block stop)
  statements      : Progresses stop (statements stop)
  statement       : Progresses stop (statement stop)
  branches        : Reads.Advances stop (branches stop)
  keywordStmts    : ∀ read ∈ [localStmt stop, addStmt stop, deleteStmt stop, insertStmt stop],
    read.Advances stop
  namedStmts      : ∀ n, ∀ read ∈ [namedStmt stop n, assignStmt stop n, replaceStmt stop n,
    callStmt stop n, macroStmt stop n], read.Advances stop
  endStatement    : (endStatement stop).Advances stop
  expression      : ∀ least, Progresses stop (expression stop least)
  operators       : ∀ least left, Reads.Advances stop (operators stop least left)
  unary           : Progresses stop (unary stop)
  postfixed       : Progresses stop (postfixed stop)
  indices         : ∀ target, Reads.Advances stop (indices stop target)
  primary         : Progresses stop (primary stop)
  listQuery       : ∀ list, Progresses stop (listQuery stop list)
  methodArgument  : Progresses stop (methodArgument stop)
  noArguments     : Reads.Advances stop (noArguments stop)
  arguments       : Progresses stop (arguments stop)
  expressions     : Progresses stop (expressions stop)
  moreExpressions : Reads.Advances stop (moreExpressions stop)

theorem movesOn : MovesOn stop where
  declaration     := progresses fun _ => advances_declaration
  afterKeyword    := fun _ _ => advances_afterKeyword
  functionDecl    := fun _ => advances_functionDecl
  macroDecl       := advances_macroDecl
  names           := advances_names
  block           := progresses fun _ => advances_block
  statements      := progresses fun _ => advances_statements
  statement       := progresses fun _ => advances_statement
  branches        := fun _ => advances_branches
  keywordStmts    := by
    simp [advances_localStmt, advances_addStmt, advances_deleteStmt, advances_insertStmt]
  namedStmts      := by
    simp [advances_namedStmt, advances_assignStmt, advances_replaceStmt, advances_callStmt,
      advances_macroStmt]
  endStatement    := advances_endStatement
  expression      := fun _ => progresses fun _ => advances_expression
  operators       := fun _ _ _ => advances_operators
  unary           := progresses fun _ => advances_unary
  postfixed       := progresses fun _ => advances_postfixed
  indices         := fun _ _ => advances_indices
  primary         := progresses fun _ => advances_primary
  listQuery       := fun _ => progresses fun _ => advances_listQuery
  methodArgument  := progresses fun _ => advances_methodArgument
  noArguments     := fun _ => advances_noArguments
  arguments       := progresses fun _ => advances_arguments
  expressions     := progresses fun _ => advances_expressions
  moreExpressions := fun _ => advances_moreExpressions

end Parser

end BlockLang
