import BlockLang.Proofs.Except
import BlockLang.Tree.Parser.Expr

/-!
How a parser moves. It goes on one lexeme after another, none of which is the end of the source, and
what it cannot read it reports at a place that it has come to. So do the readers of expressions.
-/

namespace BlockLang

theorem Token.ne_eof_of_isOp {t : Token} {text : String} (h : t.isOp text) : t.kind ≠ .eof := by
  simp_all [isOp]

theorem Token.ne_eof_of_isKeyword {t : Token} {text : String} (h : t.isKeyword text) :
    t.kind ≠ .eof := by
  simp_all [isKeyword]

theorem BinaryOp.ne_eof_of_ofToken? {t : Token} {op : BinaryOp} (h : ofToken? t = some op) :
    t.kind ≠ .eof := by
  intro hk
  simp [ofToken?, hk] at h

theorem UnaryOp.ne_eof_of_ofToken? {t : Token} {op : UnaryOp} (h : ofToken? t = some op) :
    t.kind ≠ .eof := by
  intro hk
  simp [ofToken?, Token.isOp, Token.isKeyword, hk] at h

namespace Lexemes

-- From `s` on one comes to `r`, and does not pass the end of the source on the way.
inductive Reaches : List Lexeme → List Lexeme → Prop where
  | here {s : List Lexeme} : Reaches s s
  | past {l : Lexeme} {s r : List Lexeme} : l.token.kind ≠ .eof → Reaches s r → Reaches (l :: s) r

variable {s r t : List Lexeme} {l : Lexeme}

namespace Reaches

theorem one (hl : l.token.kind ≠ .eof) : Reaches (l :: s) s :=
  .past hl .here

theorem of_eq_cons (hs : s = l :: r) (hl : l.token.kind ≠ .eof) : Reaches s r :=
  hs ▸ one hl

theorem trans (h : Reaches s r) (h' : Reaches r t) : Reaches s t := by
  induction h
  case here => exact h'
  case past hl _ hi => exact .past hl (hi h')

-- What has been passed, each lexeme once.
theorem exists_passed (h : Reaches s r) :
    ∃ passed, s = passed ++ r ∧ ∀ l ∈ passed, l.token.kind ≠ .eof := by
  induction h
  case here => exact ⟨[], rfl, List.forall_mem_nil _⟩
  case past l s r hl _ hi =>
    have ⟨passed, hs, hp⟩ := hi
    exact ⟨l :: passed, by rw [hs, List.cons_append], List.forall_mem_cons.mpr ⟨hl, hp⟩⟩

end Reaches

end Lexemes

open Lexemes

namespace Parser

-- An error is reported at a place that one comes to from `s`.
def Stops (stop : Token) (s : List Lexeme) (e : SyntaxError) : Prop :=
  ∃ r, Reaches s r ∧ e.span = (current stop r).span

variable {stop : Token} {s r : List Lexeme} {l : Lexeme} {α β : Type}

theorem advances_fail {Q : α → Prop} {fault : Fault} :
    Yields Q (Stops stop s) (fail stop s fault) :=
  ⟨s, .here, rfl⟩

-- What goes on from a place that one has come to.
theorem advances_from {rest : α → List Lexeme} {x : Result α} (hr : Reaches s r)
    (h : Yields (fun a => Reaches r (rest a)) (Stops stop r) x) :
    Yields (fun a => Reaches s (rest a)) (Stops stop s) x :=
  h.mono (fun _ ha => hr.trans ha) fun _ ⟨t, ht, he⟩ => ⟨t, hr.trans ht, he⟩

theorem advances_bind {rest : α → List Lexeme} {rest' : β → List Lexeme} {x : Result α}
    {f : α → Result β} (h : Yields (fun a => Reaches s (rest a)) (Stops stop s) x)
    (h' : ∀ a, Yields (fun b => Reaches (rest a) (rest' b)) (Stops stop (rest a)) (f a)) :
    Yields (fun b => Reaches s (rest' b)) (Stops stop s) (x >>= f) :=
  h.bind fun a ha => advances_from ha (h' a)

def Reads.Advances (stop : Token) (read : Reads α) : Prop :=
  ∀ s, Yields (fun x => Reaches s x.rest) (Stops stop s) (read s)

namespace Reads.Advances

theorem pure {a : α} : Advances stop (pure a) :=
  fun _ => Reaches.here

theorem bind {read : Reads α} {next : α → Reads β} (h : Advances stop read)
    (h' : ∀ a, Advances stop (next a)) : Advances stop (read >>= next) := by
  intro s
  change Yields _ _ (andThen read next s)
  have hr := h s
  unfold andThen
  split
  case h_1 he => exact hr.fault he
  case h_2 a r _ hx => exact advances_from (hr.value hx) ((h' a r).map fun _ hy => hy)

theorem upcoming : Advances stop upcoming :=
  fun _ => Reaches.here

theorem map {read : Reads α} {f : α → β} (h : Advances stop read) : Advances stop (f <$> read) :=
  h.bind fun _ => pure

theorem ite {c : Prop} [Decidable c] {read read' : Reads α} (h : Advances stop read)
    (h' : Advances stop read') : Advances stop (if c then read else read') := by
  split <;> assumption

theorem ofAfter {read : (s : List Lexeme) → Result (After s α)}
    (h : ∀ s, Yields (fun x => Reaches s x.rest) (Stops stop s) (read s)) :
    Advances stop (ofAfter read) :=
  fun s => (h s).map fun _ hx => hx

-- Something is read after a lexeme.
theorem tail {read : Reads α} (h : Advances stop read) (hl : l.token.kind ≠ .eof) :
    Yields (fun x => Reaches (l :: s) x.rest) (Stops stop (l :: s))
      ((read s).map (Upto.tail (t := l))) :=
  advances_from (.one hl) ((h s).map fun _ hx => hx)

end Reads.Advances

open Reads

section Tokens

variable {p : Token → Bool} {kind : TokenKind} {what : String}

theorem yields_head_expect :
    Yields (fun x => p x.value.token ∧ s = x.value :: x.rest) (Stops stop s)
      (expect stop p what s) := by
  cases s
  case nil => exact advances_fail
  case cons l ls =>
    simp only [expect]
    split
    case isTrue hp => exact ⟨hp, rfl⟩
    case isFalse => exact advances_fail

theorem advances_expect (hp : ∀ t, p t → t.kind ≠ .eof) :
    Yields (fun x => Reaches s x.rest) (Stops stop s) (expect stop p what s) :=
  yields_head_expect.mono (fun _ ⟨ht, hs⟩ => .of_eq_cons hs (hp _ ht)) fun _ he => he

theorem advances_expectKind (hk : kind ≠ .eof) :
    Yields (fun x => Reaches s x.rest) (Stops stop s) (expectKind stop kind what s) :=
  advances_expect fun _ ht => (of_decide_eq_true ht).trans_ne hk

theorem advances_skip (hp : ∀ t, p t → t.kind ≠ .eof) : (skip stop p what).Advances stop :=
  fun _ => (advances_expect hp).map fun _ hx => hx

theorem advances_skipKind (hk : kind ≠ .eof) :
    (skipKind stop kind what).Advances stop :=
  fun _ => (advances_expectKind hk).map fun _ hx => hx

theorem advances_string : (string stop what).Advances stop :=
  fun _ => (advances_expectKind (by decide)).map fun _ hx => hx

theorem advances_name : (name stop what).Advances stop :=
  fun _ => (advances_expectKind (by decide)).map fun _ hx => hx

end Tokens

theorem advances_afterCommas {read : Reads α} (h : read.Advances stop) :
    Reads.Advances stop (afterCommas read) := by
  intro s
  fun_induction afterCommas read s
  case case1 | case3 => exact Reaches.here
  case case2 l ls hk hi =>
    refine advances_from (.one (by simp [hk])) ?_
    exact advances_bind (h ls) fun ⟨a, r, hr⟩ => (hi r hr).bind fun _ hx => hx

theorem advances_names : (names stop).Advances stop :=
  advances_name.bind fun _ => (advances_afterCommas advances_name).bind fun _ => .pure

theorem advances_noArguments {s : List Lexeme} :
    Yields (fun x => Reaches s x.rest) (Stops stop s) (noArguments stop s) := by
  cases s
  case nil => exact Reaches.here
  case cons l ls =>
    simp only [noArguments]
    split
    case isTrue hk =>
      refine advances_from (.one (by simp [hk])) ?_
      exact (advances_expectKind (by decide)).bind fun _ hx => hx
    case isFalse => exact Reaches.here

-- The induction follows the functions of the parser, each of which reads on from what is left.
mutual

theorem advances_expression {least : Nat} {s : List Lexeme} :
    Yields (fun x => Reaches s x.rest) (Stops stop s) (expression stop least s) := by
  rw [expression]
  refine advances_bind advances_unary fun ⟨left, r, h⟩ => ?_
  exact advances_operators.bind fun _ hx => hx
termination_by 16 * s.length + 7
decreasing_by all_goals omega

theorem advances_operators : ∀ {s : List Lexeme} {least : Nat} {left : Expr},
    Yields (fun x => Reaches s x.rest) (Stops stop s) (operators stop least left s)
  | [], least, left => by
    rw [operators]
    exact Reaches.here
  | l :: ls, least, left => by
    rw [operators]
    split
    case h_1 op hop =>
      split
      case isTrue => exact Reaches.here
      case isFalse =>
        refine advances_from (.one (BinaryOp.ne_eof_of_ofToken? hop)) ?_
        refine advances_bind advances_expression fun ⟨right, r, h⟩ => ?_
        exact advances_operators.bind fun _ hx => hx
    case h_2 => exact Reaches.here
termination_by s => 16 * s.length
decreasing_by all_goals simp only [List.length_cons]; omega

theorem advances_unary : ∀ {s : List Lexeme},
    Yields (fun x => Reaches s x.rest) (Stops stop s) (unary stop s)
  | [] => by
    rw [unary]
    exact advances_fail
  | l :: ls => by
    rw [unary]
    split
    case h_1 op hop =>
      refine advances_from (.one (UnaryOp.ne_eof_of_ofToken? hop)) ?_
      exact advances_unary.bind fun _ hx => hx
    case h_2 => exact advances_postfixed
termination_by s => 16 * s.length + 6
decreasing_by all_goals simp only [List.length_cons]; omega

theorem advances_postfixed {s : List Lexeme} :
    Yields (fun x => Reaches s x.rest) (Stops stop s) (postfixed stop s) := by
  rw [postfixed]
  refine advances_bind advances_primary fun ⟨e, r, h⟩ => ?_
  exact advances_indices.bind fun _ hx => hx
termination_by 16 * s.length + 5
decreasing_by all_goals omega

theorem advances_indices : ∀ {s : List Lexeme} {target : Expr},
    Yields (fun x => Reaches s x.rest) (Stops stop s) (indices stop target s)
  | [], target => by
    rw [indices]
    exact Reaches.here
  | l :: ls, target => by
    rw [indices]
    split
    case isTrue hk =>
      refine advances_from (.one (by simp [hk])) ?_
      refine advances_bind advances_expression fun ⟨index, r, h⟩ => ?_
      refine advances_bind (advances_expectKind (by decide)) fun ⟨_, r', h'⟩ => ?_
      have h' : r'.length < r.length := h'
      exact advances_indices.bind fun _ hx => hx
    case isFalse => exact Reaches.here
termination_by s => 16 * s.length
decreasing_by all_goals simp only [List.length_cons] at *; omega

theorem advances_primary : ∀ {s : List Lexeme},
    Yields (fun x => Reaches s x.rest) (Stops stop s) (primary stop s)
  | [] => by
    rw [primary]
    exact advances_fail
  | l :: ls => by
    rw [primary.eq_def]
    dsimp only
    have hq : ∀ {d : Lexeme} {r : List Lexeme} {list : Name}, ls = d :: r →
        Yields (fun x => Reaches r x.rest) (Stops stop r) (listQuery stop list r) :=
      fun {_ r _} he =>
        have hlt : r.length < ls.length := by simp [he]
        advances_listQuery
    split
    case h_1 hk | h_2 hk => exact .one (by simp [hk])
    case h_3 hk =>
      split
      case isTrue => exact .one (by simp [hk])
      case isFalse => exact advances_fail
    case h_4 hk =>
      have hl : Reaches (l :: ls) ls := .one (by simp [hk])
      split
      case h_1 d r =>
        split
        case isTrue hd =>
          refine advances_from (hl.trans (.one (by simp [hd]))) ?_
          exact (advances_name r).bind fun _ hx => hx
        case isFalse => exact hl
      case h_2 => exact hl
    case h_5 hk => exact .one (by simp [hk])
    case h_6 hk =>
      have hl : Reaches (l :: ls) ls := .one (by simp [hk])
      split
      case isTrue => exact advances_from hl (advances_arguments.bind fun _ hx => hx)
      case isFalse => exact hl
    case h_7 hk =>
      have hl : Reaches (l :: ls) ls := .one (by simp [hk])
      split
      case isTrue => exact advances_from hl (advances_arguments.bind fun _ hx => hx)
      case isFalse =>
        split
        case h_1 d r =>
          split
          case isTrue hd =>
            refine advances_from (hl.trans (.one (by simp [hd]))) ?_
            exact (hq rfl).bind fun _ hx => hx
          case isFalse => exact hl
        case h_2 => exact hl
    case h_8 hk =>
      refine advances_from (.one (by simp [hk])) ?_
      refine advances_bind advances_expression fun ⟨e, r, h⟩ => ?_
      exact (advances_expectKind (by decide)).bind fun _ hx => hx
    case h_9 => exact advances_fail
termination_by s => 16 * s.length + 4
decreasing_by all_goals simp only [List.length_cons]; omega

-- A query that no list answers is reported where its name stands, which has been passed by then.
theorem advances_listQuery {list : Name} {s : List Lexeme} :
    Yields (fun x => Reaches s x.rest) (Stops stop s) (listQuery stop list s) := by
  rw [listQuery]
  refine yields_head_expect.bind fun ⟨method, r, h⟩ ⟨hk, hs⟩ => ?_
  have hr : Reaches s r := .of_eq_cons hs (by simp_all)
  have ha : Yields (fun x => Reaches r x.rest) (Stops stop r) (methodArgument stop r) :=
    advances_methodArgument
  dsimp only
  split
  case h_1 => exact advances_from hr (advances_noArguments.bind fun _ hx => hx)
  case h_2 | h_3 => exact advances_from hr (ha.bind fun _ hx => hx)
  case h_4 => exact ⟨s, .here, by rw [hs]; rfl⟩
termination_by 16 * s.length + 1
decreasing_by all_goals omega

theorem advances_methodArgument {s : List Lexeme} :
    Yields (fun x => Reaches s x.rest) (Stops stop s) (methodArgument stop s) := by
  rw [methodArgument]
  refine advances_bind (advances_expectKind (by decide)) fun ⟨_, r, h⟩ => ?_
  refine advances_bind advances_expression fun ⟨item, r', h'⟩ => ?_
  exact (advances_expectKind (by decide)).bind fun _ hx => hx
termination_by 16 * s.length
decreasing_by all_goals omega

theorem advances_arguments {s : List Lexeme} :
    Yields (fun x => Reaches s x.rest) (Stops stop s) (arguments stop s) := by
  rw [arguments]
  refine advances_bind (advances_expectKind (by decide)) fun ⟨_, r, h⟩ => ?_
  dsimp only
  split
  case isTrue => exact (advances_expectKind (by decide)).bind fun _ hx => hx
  case isFalse =>
    refine advances_bind advances_expressions fun ⟨args, r', h'⟩ => ?_
    exact (advances_expectKind (by decide)).bind fun _ hx => hx
termination_by 16 * s.length
decreasing_by all_goals omega

theorem advances_expressions {s : List Lexeme} :
    Yields (fun x => Reaches s x.rest) (Stops stop s) (expressions stop s) := by
  rw [expressions]
  refine advances_bind advances_expression fun ⟨e, r, h⟩ => ?_
  exact advances_moreExpressions.bind fun _ hx => hx
termination_by 16 * s.length + 8
decreasing_by all_goals omega

theorem advances_moreExpressions : ∀ {s : List Lexeme},
    Yields (fun x => Reaches s x.rest) (Stops stop s) (moreExpressions stop s)
  | [] => by
    rw [moreExpressions]
    exact Reaches.here
  | l :: ls => by
    rw [moreExpressions]
    split
    case isTrue hk =>
      exact advances_from (.one (by simp [hk])) (advances_expressions.bind fun _ hx => hx)
    case isFalse => exact Reaches.here
termination_by s => 16 * s.length
decreasing_by all_goals simp only [List.length_cons]; omega

end

theorem advances_anyExpression : (anyExpression stop).Advances stop :=
  .ofAfter fun _ => advances_expression

end Parser

end BlockLang
