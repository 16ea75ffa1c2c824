import BlockLang.Tree.Parser.Expr
import BlockLang.Proofs.Tree.Parser.Reads

/-!
Expressions are made of the tokens that they are read from.
-/

namespace BlockLang

theorem Token.isMacro_macroName {t : Token} : t.macroName.IsMacro := by
  have hm : (t.text.toList.reverse.dropWhile (· = '!')).head? ≠ some '!' := by
    intro hm
    have hm := List.head?_dropWhile_not (· = '!') t.text.toList.reverse
    simp_all
  simpa [Name.IsMacro, macroName, Text.dropEndWhile] using hm

theorem Token.markedIn_macroName {m : Material} {t : Token} (h : m.token t) :
    t.macroName.MarkedIn m :=
  ⟨isMacro_macroName, t, h, rfl⟩

namespace Parser

open Lexemes

variable {m : Material} {stop : Token}

theorem yields_noArguments {s : List Lexeme} (hs : Of m s) :
    Yields (fun x => Of m x.rest) (Blames m stop) (noArguments stop s) := by
  cases s
  case nil => exact hs
  case cons l ls =>
    simp only [noArguments]
    split
    · exact (yields_expectKind hs.tail).bind fun _ hx => hx.2
    · exact hs

-- The induction follows the functions of the parser, each of which reads on from what is left.
mutual

theorem yields_expression {least : Nat} {s : List Lexeme} (hs : Of m s) :
    Yields (fun x => x.value.MadeOf m .any ∧ Of m x.rest) (Blames m stop)
      (expression stop least s) := by
  rw [expression]
  refine (yields_unary hs).bind fun ⟨left, r, hr⟩ ⟨hl, hs⟩ => ?_
  exact (yields_operators hs hl).bind fun _ hx => hx
termination_by 16 * s.length + 7
decreasing_by all_goals omega

theorem yields_operators : ∀ {s : List Lexeme} {least : Nat} {left : Expr}, Of m s →
    left.MadeOf m .any →
    Yields (fun x => x.value.MadeOf m .any ∧ Of m x.rest) (Blames m stop)
      (operators stop least left s)
  | [], least, left, hs, hl => by
    rw [operators]
    exact ⟨hl, hs⟩
  | l :: ls, least, left, hs, hl => by
    rw [operators]
    split
    case h_1 op _ =>
      split
      · exact ⟨hl, hs⟩
      · refine (yields_expression hs.tail).bind fun ⟨right, r, hr⟩ ⟨hr', hr''⟩ => ?_
        have hb : (Expr.binary op l.token.span left right).MadeOf m .any :=
          ⟨Material.starts_span hs.head, hl, hr'⟩
        exact (yields_operators hr'' hb).bind fun _ hx => hx
    case h_2 => exact ⟨hl, hs⟩
termination_by s => 16 * s.length
decreasing_by all_goals simp only [List.length_cons]; omega

theorem yields_unary : ∀ {s : List Lexeme}, Of m s →
    Yields (fun x => x.value.MadeOf m .any ∧ Of m x.rest) (Blames m stop) (unary stop s)
  | [], hs => by
    rw [unary]
    exact yields_fail hs rfl
  | l :: ls, hs => by
    rw [unary]
    split
    case h_1 op _ =>
      exact (yields_unary hs.tail).bind fun _ ⟨he, hr⟩ =>
        ⟨⟨Material.starts_span hs.head, he⟩, hr⟩
    case h_2 => exact yields_postfixed hs
termination_by s => 16 * s.length + 6
decreasing_by all_goals simp only [List.length_cons]; omega

theorem yields_postfixed {s : List Lexeme} (hs : Of m s) :
    Yields (fun x => x.value.MadeOf m .any ∧ Of m x.rest) (Blames m stop) (postfixed stop s) := by
  rw [postfixed]
  refine (yields_primary hs).bind fun ⟨e, r, hr⟩ ⟨he, hs⟩ => ?_
  exact (yields_indices hs he).bind fun _ hx => hx
termination_by 16 * s.length + 5
decreasing_by all_goals omega

theorem yields_indices : ∀ {s : List Lexeme} {target : Expr}, Of m s → target.MadeOf m .any →
    Yields (fun x => x.value.MadeOf m .any ∧ Of m x.rest) (Blames m stop) (indices stop target s)
  | [], target, hs, ht => by
    rw [indices]
    exact ⟨ht, hs⟩
  | l :: ls, target, hs, ht => by
    rw [indices]
    split
    · refine (yields_expression hs.tail).bind fun ⟨index, r, hr⟩ ⟨hi, hs'⟩ => ?_
      refine (yields_expectKind hs').bind fun ⟨_, r', hr'⟩ ⟨_, hs'⟩ => ?_
      have hr' : r'.length < r.length := hr'
      have hx : (Expr.index l.token.span target index).MadeOf m .any :=
        ⟨Material.starts_span hs.head, ht, hi⟩
      exact (yields_indices hs' hx).bind fun _ hx => hx
    · exact ⟨ht, hs⟩
termination_by s => 16 * s.length
decreasing_by all_goals simp only [List.length_cons] at *; omega

theorem yields_primary : ∀ {s : List Lexeme}, Of m s →
    Yields (fun x => x.value.MadeOf m .any ∧ Of m x.rest) (Blames m stop) (primary stop s)
  | [], hs => by
    rw [primary]
    exact yields_fail hs rfl
  | l :: ls, hs => by
    rw [primary.eq_def]
    dsimp only
    have hl := hs.head
    have hls := hs.tail
    have hq : ∀ {d : Lexeme} {r : List Lexeme}, ls = d :: r → l.token.kind = .ident →
        Yields (fun x => x.value.MadeOf m .any ∧ Of m x.rest) (Blames m stop)
          (listQuery stop ⟨l.token.text, l.token.span⟩ r) := fun {_ r} he hk =>
      have hlt : r.length < ls.length := by simp [he]
      yields_listQuery (he ▸ hls).tail (hs.name hk)
    split
    case h_1 hk => exact ⟨⟨.inl hk, hl⟩, hls⟩
    case h_2 hk => exact ⟨⟨.inr (.inl hk), hl⟩, hls⟩
    case h_3 hk =>
      split
      case isTrue ht => exact ⟨⟨.inr (.inr (.inr ⟨hk, by simpa using ht⟩)), hl⟩, hls⟩
      case isFalse => exact yields_fail hs rfl
    case h_4 hk =>
      have hk' : (Expr.literal l.token).MadeOf m .any := ⟨.inr (.inr (.inl hk)), hl⟩
      split
      case h_1 d r =>
        split
        · exact (keeps_name r hls.tail).bind fun _ ⟨hn, hr⟩ => ⟨⟨hk, hl, hn⟩, hr⟩
        · exact ⟨hk', hls⟩
      case h_2 => exact ⟨hk', hls⟩
    case h_5 hk => exact ⟨⟨hk, hl⟩, hls⟩
    case h_6 =>
      split
      · exact (yields_arguments hls).bind fun _ ⟨ha, hr⟩ =>
          ⟨⟨trivial, Token.markedIn_macroName hl, ha⟩, hr⟩
      · exact ⟨Token.markedIn_macroName hl, hls⟩
    case h_7 hk =>
      split
      · exact (yields_arguments hls).bind fun _ ⟨ha, hr⟩ => ⟨⟨hs.name hk, ha⟩, hr⟩
      · split
        case h_1 d r =>
          split
          · exact (hq rfl hk).bind fun _ hx => hx
          · exact ⟨hs.name hk, hls⟩
        case h_2 => exact ⟨hs.name hk, hls⟩
    case h_8 =>
      refine (yields_expression hls).bind fun ⟨e, r, hr⟩ ⟨he, hs⟩ => ?_
      exact (yields_expectKind hs).bind fun _ ⟨_, hs⟩ => ⟨he, hs⟩
    case h_9 => exact yields_fail hs rfl
termination_by s => 16 * s.length + 4
decreasing_by all_goals simp only [List.length_cons]; omega

theorem yields_listQuery {list : Name} {s : List Lexeme} (hs : Of m s)
    (hl : m.token list.identifier) :
    Yields (fun x => x.value.MadeOf m .any ∧ Of m x.rest) (Blames m stop)
      (listQuery stop list s) := by
  rw [listQuery]
  refine (yields_expectKind hs).bind fun ⟨method, r, hr⟩ ⟨⟨_, hm⟩, hs⟩ => ?_
  have ha : Yields (fun x => x.value.MadeOf m .any ∧ Of m x.rest) (Blames m stop)
      (methodArgument stop r) := yields_methodArgument hs
  dsimp only
  split
  case h_1 => exact (yields_noArguments hs).bind fun _ hs => ⟨hl, hs⟩
  case h_2 | h_3 => exact ha.bind fun _ ⟨hi, hs⟩ => ⟨⟨hl, hi⟩, hs⟩
  case h_4 => exact ⟨.inl (Material.starts_span hm.head), rfl⟩
termination_by 16 * s.length + 1
decreasing_by all_goals omega

theorem yields_methodArgument {s : List Lexeme} (hs : Of m s) :
    Yields (fun x => x.value.MadeOf m .any ∧ Of m x.rest) (Blames m stop)
      (methodArgument stop s) := by
  rw [methodArgument]
  refine (yields_expectKind hs).bind fun ⟨_, r, hr⟩ ⟨_, hs⟩ => ?_
  refine (yields_expression hs).bind fun ⟨item, r', hr'⟩ ⟨hi, hs⟩ => ?_
  exact (yields_expectKind hs).bind fun _ ⟨_, hs⟩ => ⟨hi, hs⟩
termination_by 16 * s.length
decreasing_by all_goals omega

theorem yields_arguments {s : List Lexeme} (hs : Of m s) :
    Yields (fun x => Expr.MadeOfAll m .any x.value ∧ Of m x.rest) (Blames m stop)
      (arguments stop s) := by
  rw [arguments]
  refine (yields_expectKind hs).bind fun ⟨_, r, hr⟩ ⟨_, hs⟩ => ?_
  dsimp only
  split
  · exact (yields_expectKind hs).bind fun _ ⟨_, hs⟩ => ⟨trivial, hs⟩
  · refine (yields_expressions hs).bind fun ⟨args, r', hr'⟩ ⟨ha, hs⟩ => ?_
    exact (yields_expectKind hs).bind fun _ ⟨_, hs⟩ => ⟨ha, hs⟩
termination_by 16 * s.length
decreasing_by all_goals omega

theorem yields_expressions {s : List Lexeme} (hs : Of m s) :
    Yields (fun x => Expr.MadeOfAll m .any x.value ∧ Of m x.rest) (Blames m stop)
      (expressions stop s) := by
  rw [expressions]
  refine (yields_expression hs).bind fun ⟨e, r, hr⟩ ⟨he, hs⟩ => ?_
  exact (yields_moreExpressions hs).bind fun _ ⟨hes, hs⟩ => ⟨⟨he, hes⟩, hs⟩
termination_by 16 * s.length + 8
decreasing_by all_goals omega

theorem yields_moreExpressions : ∀ {s : List Lexeme}, Of m s →
    Yields (fun x => Expr.MadeOfAll m .any x.value ∧ Of m x.rest) (Blames m stop)
      (moreExpressions stop s)
  | [], hs => by
    rw [moreExpressions]
    exact ⟨trivial, hs⟩
  | l :: ls, hs => by
    rw [moreExpressions]
    split
    · exact (yields_expressions hs.tail).bind fun _ hx => hx
    · exact ⟨trivial, hs⟩
termination_by s => 16 * s.length
decreasing_by all_goals simp only [List.length_cons]; omega

end

-- What is read has no other names than the lexemes have.
theorem readable_expression {P : String → Prop} {least : Nat} {s : List Lexeme} {x : After s Expr}
    (hs : Names P s) (h : expression stop least s = .ok x) :
    x.value.Readable P ∧ Names P x.rest := by
  have hs : Of (.named P) s := fun l hl => ⟨hs l hl, fun _ _ => trivial, fun _ _ => trivial⟩
  have ⟨he, hr⟩ := (yields_expression hs).value h
  exact ⟨he.readable Material.names_named, fun l hl => (hr l hl).token⟩

end Parser

end BlockLang
