import BlockLang.Tree.Parser.Stmt
import BlockLang.Proofs.Tree.Parser.Expr

/-!
Statements are made of the tokens that they are read from.
-/

namespace BlockLang

variable {m : Material}

theorem Stmt.MadeOf.withComment {calls : CallKinds} {s : Stmt} {comment : Option Token}
    (hs : s.MadeOf m calls) (hc : ∀ c ∈ comment, m.comment c) :
    (s.withComment comment).MadeOf m calls := by
  unfold Stmt.withComment
  split
  · exact ⟨hs.1, hs.2.1, hc⟩
  · exact hs

namespace Parser

open Lexemes Reads

variable {stop : Token} {n : Name}

theorem keeps_anyExpression : (anyExpression stop).Keeps m stop (·.MadeOf m .any) :=
  .ofAfter yields_expression

theorem keeps_expressions :
    (Reads.ofAfter (expressions stop)).Keeps m stop (Expr.MadeOfAll m .any) :=
  .ofAfter yields_expressions

theorem keeps_endStatement : (endStatement stop).Keeps m stop fun c => ∀ t ∈ c, m.comment t :=
  fun _ hs => (yields_expectKind hs).map fun _ ⟨⟨_, hl⟩, hr⟩ => ⟨hl.first.trailing, hr⟩

theorem keeps_lastExpression : (lastExpression stop).Keeps m stop (·.MadeOf m .any) :=
  keeps_anyExpression.bind fun _ he => keeps_endStatement.bind fun _ _ => .pure he

theorem keeps_indexEnd : (indexEnd stop).Keeps m stop (·.MadeOf m .any) :=
  keeps_anyExpression.bind fun _ he => keeps_skipKind.bind fun _ _ => .pure he

theorem keeps_localStmt : (localStmt stop).Keeps m stop (·.MadeOf m .any) :=
  keeps_name.bind fun _ hn => keeps_skip.bind fun _ _ => keeps_lastExpression.bind fun _ he =>
    .pure ⟨hn, he⟩

theorem keeps_addStmt : (addStmt stop).Keeps m stop (·.MadeOf m .any) :=
  keeps_anyExpression.bind fun _ he => keeps_skip.bind fun _ _ => keeps_name.bind fun _ hn =>
    keeps_endStatement.bind fun _ _ => .pure ⟨hn, he⟩

theorem keeps_deleteStmt : (deleteStmt stop).Keeps m stop (·.MadeOf m .any) := by
  refine keeps_name.bind fun _ hn => Keeps.upcoming.bind fun _ _ => ?_
  split
  · exact keeps_skipKind.bind fun _ _ => keeps_indexEnd.bind fun _ he =>
      keeps_endStatement.bind fun _ _ => .pure ⟨hn, he⟩
  · exact keeps_endStatement.bind fun _ _ => .pure hn

theorem keeps_insertStmt : (insertStmt stop).Keeps m stop (·.MadeOf m .any) :=
  keeps_anyExpression.bind fun _ he => keeps_skip.bind fun _ _ => keeps_name.bind fun _ hn =>
    keeps_skipKind.bind fun _ _ => keeps_indexEnd.bind fun _ hi =>
      keeps_endStatement.bind fun _ _ => .pure ⟨hn, hi, he⟩

theorem keeps_listItems : (listItems stop).Keeps m stop (Expr.MadeOfAll m .any) :=
  have hj : ∀ es, Expr.MadeOfAll m .any es → Keeps m stop (Expr.MadeOfAll m .any)
      (do skipKind stop .rbracket "']' to close list literal"; return es) :=
    fun _ he => keeps_skipKind.bind fun _ _ => .pure he
  keeps_skipKind.bind fun _ _ => Keeps.upcoming.bind fun _ _ =>
    .ite (.bind (.pure trivial) hj) (keeps_expressions.bind hj)

theorem keeps_assignStmt (hn : m.token n.identifier) :
    (assignStmt stop n).Keeps m stop (·.MadeOf m .any) := by
  apply Keeps.upcoming.bind
  intro _ _
  split
  · exact keeps_listItems.bind fun _ he => keeps_endStatement.bind fun _ _ => .pure ⟨hn, he⟩
  · exact keeps_lastExpression.bind fun _ he => .pure ⟨hn, he⟩

theorem keeps_replaceOp : (replaceOp stop).Keeps m stop fun _ => True := by
  intro s hs
  cases s
  case nil => exact yields_fail hs rfl
  case cons l ls =>
    simp only [replaceOp]
    repeat' split
    case h_2 => exact yields_fail hs rfl
    all_goals exact ⟨trivial, hs.tail⟩

theorem keeps_replaceStmt (hn : m.token n.identifier) :
    (replaceStmt stop n).Keeps m stop (·.MadeOf m .any) :=
  keeps_indexEnd.bind fun _ hi => keeps_replaceOp.bind fun _ _ => keeps_lastExpression.bind
    fun _ he => .pure ⟨hn, hi, he⟩

theorem keeps_callStmt (hn : m.token n.identifier) :
    (callStmt stop n).Keeps m stop (·.MadeOf m .any) :=
  have hj : ∀ es, Expr.MadeOfAll m .any es → Keeps m stop (fun s : Stmt => s.MadeOf m .any)
      (do let comment ← endStatement stop; return Stmt.call n es comment) :=
    fun _ he => keeps_endStatement.bind fun _ hc => .pure ⟨hn, he, hc⟩
  Keeps.upcoming.bind fun _ _ => .ite (.bind (.pure trivial) hj) (keeps_expressions.bind hj)

theorem keeps_namedStmt (hn : m.token n.identifier) :
    (namedStmt stop n).Keeps m stop (·.MadeOf m .any) := by
  intro s hs
  cases s
  case nil => exact keeps_callStmt hn _ hs
  case cons l ls =>
    simp only [namedStmt]
    have hm : ∀ {read : Reads Stmt}, Keeps m stop (·.MadeOf m .any) read →
        Yields (fun x => x.value.MadeOf m .any ∧ Of m x.rest) (Blames m stop)
          ((read ls).map fun x => (x.tail (t := l)).upto) :=
      fun hk => (hk ls hs.tail).map fun _ hx => hx
    split
    · exact hm (keeps_assignStmt hn)
    split
    · exact hm (keeps_lastExpression.map fun _ he => ⟨hn, he⟩)
    split
    · exact hm (keeps_endStatement.map fun _ _ => hn)
    split
    · exact hm (keeps_replaceStmt hn)
    split
    case isTrue hc =>
      have hl := hs.name (by simp_all)
      split
      all_goals exact hm (keeps_endStatement.map fun _ _ => hl)
    case isFalse => exact keeps_callStmt hn _ hs

theorem keeps_macroStmt (hn : n.MarkedIn m) : (macroStmt stop n).Keeps m stop (·.MadeOf m .any) :=
  (Keeps.ofAfter yields_arguments).bind fun _ ha => keeps_endStatement.bind fun _ _ =>
    .pure ⟨trivial, hn, ha⟩

mutual

theorem yields_statement : ∀ {s : List Lexeme}, Of m s →
    Yields (fun x => x.value.MadeOf m .any ∧ Of m x.rest) (Blames m stop) (statement stop s)
  | [], hs => by
    rw [statement]
    exact yields_fail hs rfl
  | l :: ls, hs => by
    rw [statement.eq_def]
    dsimp only
    have hl := Material.starts_span hs.head
    split
    case h_1 =>
      split
      case h_1 =>
        refine (yields_expression hs.tail).bind fun ⟨e, r, hr⟩ ⟨he, hs⟩ => ?_
        refine (yields_block hs).bind fun ⟨body, r', hr'⟩ ⟨hb, hs⟩ => ?_
        have hr' : r'.length < r.length := hr'
        refine (yields_branches hs).bind fun ⟨⟨more, otherwise⟩, _, _⟩ ⟨hm, ho, hs⟩ => ?_
        have hbs : Stmt.MadeOfBranches m .any ((e, body) :: more) := ⟨⟨he, hb⟩, hm⟩
        refine ⟨?_, hs⟩
        cases otherwise
        case none => exact ⟨hl, nofun, hbs⟩
        case some => exact ⟨hl, nofun, hbs, ho _ rfl⟩
      case h_2 | h_3 =>
        refine (yields_expression hs.tail).bind fun ⟨e, r, hr⟩ ⟨he, hs⟩ => ?_
        exact (yields_block hs).bind fun _ ⟨hb, hs⟩ => ⟨⟨hl, he, hb⟩, hs⟩
      case h_4 => exact (yields_block hs.tail).bind fun _ ⟨hb, hs⟩ => ⟨⟨hl, hb⟩, hs⟩
      case h_5 => exact keeps_localStmt.tail hs
      case h_6 => exact keeps_addStmt.tail hs
      case h_7 => exact keeps_deleteStmt.tail hs
      case h_8 => exact keeps_insertStmt.tail hs
      case h_9 => exact yields_fail hs rfl
    case h_2 =>
      split
      · exact (keeps_macroStmt (Token.markedIn_macroName hs.head)).tail hs
      · exact yields_fail hs rfl
    case h_3 hk => exact (keeps_namedStmt (hs.name hk)).tail hs
    case h_4 => exact yields_fail hs rfl
termination_by s => 4 * s.length
decreasing_by all_goals simp only [List.length_cons]; omega

theorem yields_branches : ∀ {s : List Lexeme}, Of m s →
    Yields (fun x => Stmt.MadeOfBranches m .any x.value.1 ∧
      (∀ body ∈ x.value.2, Stmt.MadeOfBody m .any body) ∧ Of m x.rest) (Blames m stop)
      (branches stop s)
  | [], hs => by
    rw [branches]
    exact ⟨trivial, nofun, hs⟩
  | l :: ls, hs => by
    rw [branches.eq_def]
    dsimp only
    split
    · refine (yields_expression hs.tail).bind fun ⟨e, r, hr⟩ ⟨he, hs⟩ => ?_
      refine (yields_block hs).bind fun ⟨body, r', hr'⟩ ⟨hb, hs⟩ => ?_
      have hr' : r'.length < r.length := hr'
      exact (yields_branches hs).bind fun _ ⟨hm, ho, hs⟩ => ⟨⟨⟨he, hb⟩, hm⟩, ho, hs⟩
    split
    · refine (yields_block hs.tail).bind fun _ ⟨hb, hs⟩ => ⟨trivial, fun body ho => ?_, hs⟩
      exact Option.some.inj ho ▸ hb
    · exact ⟨trivial, nofun, hs⟩
termination_by s => 4 * s.length
decreasing_by all_goals simp only [List.length_cons]; omega

theorem yields_block {s : List Lexeme} (hs : Of m s) :
    Yields (fun x => Stmt.MadeOfBody m .any x.value ∧ Of m x.rest) (Blames m stop)
      (block stop s) := by
  rw [block]
  refine (yields_expectKind hs).bind fun ⟨_, r, hr⟩ ⟨_, hs⟩ => ?_
  exact (yields_statements hs).bind fun _ hx => hx
termination_by 4 * s.length
decreasing_by all_goals omega

theorem yields_statements : ∀ {s : List Lexeme}, Of m s →
    Yields (fun x => Stmt.MadeOfBody m .any x.value ∧ Of m x.rest) (Blames m stop)
      (statements stop s)
  | [], hs => by
    rw [statements]
    exact yields_fail hs rfl
  | l :: ls, hs => by
    rw [statements.eq_def]
    dsimp only
    split
    · exact ⟨trivial, hs.tail⟩
    split
    · exact yields_fail hs rfl
    have hc := hs.first.leading
    refine (yields_statement hs).bind fun ⟨st, r, hr⟩ ⟨hst, hs⟩ => ?_
    have hr : r.length < ls.length + 1 := hr
    exact (yields_statements hs).bind fun _ ⟨hss, hs⟩ => ⟨⟨hst.withComment hc, hss⟩, hs⟩
termination_by s => 4 * s.length + 1
decreasing_by all_goals simp only [List.length_cons]; omega

end

end Parser

end BlockLang
