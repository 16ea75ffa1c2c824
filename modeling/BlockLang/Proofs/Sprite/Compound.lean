import BlockLang.Proofs.Block.Run
import BlockLang.Proofs.Sprite.Fill
import BlockLang.Proofs.Sprite.Operands

/-!
What assignments with an operator do is what the same assignments do when they are spelled out.
-/

namespace BlockLang

def AssignOp.binary : AssignOp → BinaryOp
  | add => .add
  | sub => .sub
  | mul => .mul
  | div => .div
  | mod => .mod
  | join => .join

def AssignOp.opcode : AssignOp → String
  | add => "operator_add"
  | sub => "operator_subtract"
  | mul => "operator_multiply"
  | div => "operator_divide"
  | mod => "operator_mod"
  | join => "operator_join"

variable {other : Machine Value} {place : Value → List Value → Option Nat} {s : Store Value}
  {scope : Scope} {span : Span} {i j l r : Input} {op : AssignOp} {name var list : String}

namespace Block

theorem perform?_setVariable :
    perform? other place s [(setVariable var i).writtenAt span] =
      some (s.setVar var (i.value (.exact other) s)) := by
  simp [perform?, effect?, act?, setVariable, plain, ofKind, withField, withInput, writtenAt,
    field?, input?]

theorem perform?_changeVariable :
    perform? other place s [(changeVariable var i).writtenAt span] =
      some (s.setVar var ((s.vars var).sum (i.value (.exact other) s))) := by
  simp [perform?, effect?, changeVariable, plain, ofKind, withField, withInput, writtenAt, field?,
    input?]

theorem perform?_replaceItem :
    perform? other place s [(((ofList "data_replaceitemoflist" list).withInput "INDEX" i).withInput
      "ITEM" j).writtenAt span] = some (s.replaceItem list
        (place (i.value (.exact other) s) (s.lists list)) (j.value (.exact other) s)) := by
  simp [perform?, effect?, ofList, plain, ofKind, withField, withInput, writtenAt, field?, input?,
    List.lookup_cons]

theorem value_add : (arithmetic "operator_add" l r).value (.exact other) s =
    (l.value (.exact other) s).sum (r.value (.exact other) s) :=
  value_exact rfl rfl rfl

theorem value_subtract (hp : r.Paired) (hw : ∀ text ∈ r.literals, WrittenBack text) :
    (arithmetic "operator_subtract" l r).value (.exact other) s =
      (l.value (.exact other) s).sum (r.negate.1.value (.exact other) s) := by
  have hn : (r.negate.1.value (.exact other) s).amount? =
      (r.value (.exact other) s).amount?.map Neg.neg := by
    rw [Input.amount?_value, Input.amount?_negate _ hp hw, ← Input.amount?_value]
  rw [value_exact rfl rfl rfl, Value.sum, hn]
  cases (r.value (.exact other) s).amount?
  case none => simp
  case some => simp [sub_eq_add_neg]

-- Every way to write two comes to two.
theorem value_double (h : (r.literal?.bind number?).any (· == 2.0)) :
    (arithmetic "operator_multiply" l r).value (.exact other) s =
      (l.value (.exact other) s).sum (l.value (.exact other) s) := by
  have hr : (r.value (.exact other) s).amount? = some 2 := by
    cases r
    case literal =>
      rw [Input.literal?, Option.bind_some] at h
      obtain ⟨x, hx, he⟩ := (Option.any_eq_true _ _).mp h
      have hv : floatValue 2.0 = 2 := by decide +kernel
      rw [Input.amount?_value, Input.amount?, literalAmount, hx, Option.map_some, Option.getD_some,
        floatValue_congr he, hv]
    all_goals contradiction
  rw [value_exact rfl rfl rfl, Value.sum, hr]
  cases (l.value (.exact other) s).amount?
  case none => rfl
  case some => simp [mul_two]

end Block

namespace Scope

theorem operator_builtin (hv : scope.vocabulary = .builtin) (h : op ≠ .join) :
    scope.operator op.reporter [l, r] = .ok (.arithmetic op.opcode l r) := by
  have hp : Vocabulary.builtin.reporters[op.reporter]? =
      some (.plain op.reporter [Block.left, Block.right] op.opcode) := by
    cases op
    case join => contradiction
    all_goals decide
  rw [operator, hv, hp]
  rfl

-- Nothing is known ahead of time about what is no literal.
theorem binary_eq (h : l.literal? = none) : scope.binary op.binary l r =
    do return .block (← scope.operator op.reporter [l, r]) := by
  cases op
  all_goals
    simp only [AssignOp.binary, binary, folded, h]
    rfl

-- Is a variable multiplied by two?
def Doubles (op : AssignOp) (i : Input) : Prop :=
  op = .mul ∧ (i.literal?.bind number?).any (· == 2.0)

theorem combine_of_doubles (h : Doubles op i) :
    scope.combine var op i = .ok (.changeVariable var (.var var)) := by
  obtain ⟨rfl, h⟩ := h
  simp [combine, h]

-- Any other operator is left to a block, if it does not add to the variable.
theorem combine_eq (h : op ≠ .add ∧ op ≠ .sub ∧ ¬Doubles op i) : scope.combine var op i =
    do return .setVariable var (.block (← scope.operator op.reporter [.var var, i])) := by
  have ⟨ha, hs, hd⟩ := h
  cases op
  case add => contradiction
  case sub => contradiction
  case mul =>
    have hd : (i.literal?.bind number?).any (· == 2.0) = false :=
      Bool.eq_false_iff.mpr fun h₂ => hd ⟨rfl, h₂⟩
    simp [combine, hd]
  all_goals simp [combine]

end Scope

namespace Stmt

-- Statements that are built in the same cases and then do the same to any store.
structure Equivalent (scope : Scope) (st st' : Stmt) : Prop where
  builds : (∃ bs, st.blocks scope = .ok bs) ↔ ∃ bs, st'.blocks scope = .ok bs
  runs   : ∀ {bs bs'}, st.blocks scope = .ok bs → st'.blocks scope = .ok bs' →
    ∀ other place s, ∃ t, Block.perform? other place s bs = some t ∧
      Block.perform? other place s bs' = some t

variable {st st' : Stmt} {bs bs' : List Block} {d d' : Diagnostic}

namespace Equivalent

theorem of_error (h : st.blocks scope = .error d) (h' : st'.blocks scope = .error d') :
    Equivalent scope st st' where
  builds   := by simp [h, h']
  runs hb  := nomatch h.symm.trans hb

theorem of_ok (h : st.blocks scope = .ok bs) (h' : st'.blocks scope = .ok bs')
    (hr : ∀ other place s, ∃ t, Block.perform? other place s bs = some t ∧
      Block.perform? other place s bs' = some t) : Equivalent scope st st' where
  builds := ⟨fun _ => ⟨_, h'⟩, fun _ => ⟨_, h⟩⟩
  runs hb hb' := by
    cases h.symm.trans hb
    cases h'.symm.trans hb'
    exact hr

theorem of_eq (h : st.blocks scope = st'.blocks scope) (hr : ∀ bs, st.blocks scope = .ok bs →
    ∀ other place s, ∃ t, Block.perform? other place s bs = some t) :
    Equivalent scope st st' where
  builds := by rw [h]
  runs hb hb' := fun other place s => by
    cases hb.symm.trans (h.trans hb')
    have ⟨t, ht⟩ := hr _ hb other place s
    exact ⟨t, ht, ht⟩

end Equivalent

variable {e index : Expr} {x list : Name}

theorem blocks_assign (hx : scope.scalar x = .ok var) :
    (assign x (.binary op.binary span (.var x) e)).blocks scope = do
      let i ← e.input scope
      let b ← scope.operator op.reporter [.var var, i]
      return [(Block.setVariable var (.block b)).writtenAt x.span] := by
  have hi : (Expr.binary op.binary span (.var x) e).input scope = do
      let i ← e.input scope
      return .block (← scope.operator op.reporter [.var var, i]) := by
    simp only [Expr.input, Scope.resolve_of_scalar hx, ← Scope.binary_eq (l := .var var) rfl]
    rfl
  rw [Stmt.blocks, hx, hi]
  simp only [bind_assoc, pure_bind]
  rfl

theorem perform?_assign (h : (assign x e).blocks scope = .ok bs) :
    ∃ t, Block.perform? other place s bs = some t := by
  simp only [Stmt.blocks, bind_eq_ok, pure_eq_ok] at h
  obtain ⟨var, _, i, _, hb⟩ := h
  exact ⟨_, hb ▸ Block.perform?_setVariable⟩

-- A variable is set to what an operator makes of it, either way.
theorem equivalent_set (hx : scope.scalar x = .ok var) (he : e.input scope = .ok i)
    (h : op ≠ .add ∧ op ≠ .sub ∧ ¬Scope.Doubles op i) :
    Equivalent scope (.compound x op e) (.assign x (.binary op.binary span (.var x) e)) := by
  have hb : (compound x op e).blocks scope =
      (assign x (.binary op.binary span (.var x) e)).blocks scope := by
    rw [blocks_assign hx, Stmt.blocks, hx, he]
    simp only [bind, Except.bind, Scope.combine_eq h]
    cases scope.operator op.reporter [.var var, i] <;> rfl
  exact .of_eq hb fun bs h _ _ _ => perform?_assign (hb.symm.trans h)

-- A variable is changed by a value, where it could be set to what an operator makes of it.
theorem equivalent_change (hv : scope.vocabulary = .builtin) (ho : op ≠ .join)
    (hx : scope.scalar x = .ok var) (he : e.input scope = .ok i)
    (hc : scope.combine var op i = .ok (.changeVariable var j))
    (hj : ∀ {other s}, (Block.arithmetic op.opcode (.var var) i).value (.exact other) s =
      ((Input.var var).value (.exact other) s).sum (j.value (.exact other) s)) :
    Equivalent scope (.compound x op e) (.assign x (.binary op.binary span (.var x) e)) := by
  have hb : (compound x op e).blocks scope =
      .ok [(Block.changeVariable var j).writtenAt x.span] := by
    rw [Stmt.blocks, hx, he]
    simp only [bind, Except.bind, hc]
    rfl
  have hb' : (assign x (.binary op.binary span (.var x) e)).blocks scope =
      .ok [(Block.setVariable var (.block (.arithmetic op.opcode (.var var) i))).writtenAt
        x.span] := by
    rw [blocks_assign hx, he]
    simp only [bind, Except.bind, Scope.operator_builtin hv ho]
    rfl
  refine .of_ok hb hb' fun other place s => ⟨_, Block.perform?_changeVariable, ?_⟩
  rw [Block.perform?_setVariable, Input.value, hj, Input.value]

theorem equivalent_compound (hv : scope.vocabulary = .builtin)
    (hw : op = .sub → ∀ i, e.input scope = .ok i → ∀ text ∈ i.literals, WrittenBack text) :
    Equivalent scope (.compound x op e) (.assign x (.binary op.binary span (.var x) e)) := by
  cases hx : scope.scalar x
  case error d =>
    exact .of_error (by rw [Stmt.blocks, hx]; rfl) (by rw [Stmt.blocks, hx]; rfl)
  case ok var =>
    cases he : e.input scope
    case error d =>
      exact .of_error (by rw [Stmt.blocks, hx, he]; rfl) (by rw [blocks_assign hx, he]; rfl)
    case ok i =>
      have hp : i.Paired := Expr.paired_input hv he
      by_cases hd : Scope.Doubles op i
      case pos =>
        exact equivalent_change hv (hd.1 ▸ nofun) hx he (Scope.combine_of_doubles hd)
          (hd.1 ▸ Block.value_double hd.2)
      case neg =>
        cases op
        case add => exact equivalent_change hv nofun hx he rfl Block.value_add
        case sub =>
          have hw : ∀ text ∈ i.literals, WrittenBack text := hw rfl i he
          exact equivalent_change hv nofun hx he rfl (Block.value_subtract hp hw)
        all_goals exact equivalent_set hx he ⟨nofun, nofun, hd⟩

theorem equivalent_increment (hv : scope.vocabulary = .builtin) {span' : Span} :
    Equivalent scope (.increment x)
      (.assign x (.binary .add span (.var x) (.literal ⟨.number, "1", span'⟩))) := by
  let one : Expr := .literal ⟨.number, "1", span'⟩
  have hi : one.input scope = .ok (.literal "1") := by
    have h₁ : Token.decodeInteger? "1" = some "1" := by decide +kernel
    simp only [one, Expr.input, Token.literal, h₁]
    rfl
  have hb : (increment x).blocks scope = (compound x .add one).blocks scope := by
    rw [Stmt.blocks, Stmt.blocks, hi]
    rfl
  have h : Equivalent scope (.compound x .add one) (.assign x (.binary .add span (.var x) one)) :=
    equivalent_compound hv nofun
  exact ⟨hb ▸ h.builds, hb ▸ h.runs⟩

theorem equivalent_listReplace {span' : Span} : Equivalent scope
    (.listReplace list index (some op) e) (.listReplace list index none
      (.binary op.binary span (.index span' (.var list) index) e)) := by
  have hb : (listReplace list index (some op) e).blocks scope = (listReplace list index none
      (.binary op.binary span (.index span' (.var list) index) e)).blocks scope := by
    rw [Stmt.blocks, Stmt.blocks]
    cases hl : scope.list list
    case error => rfl
    case ok l =>
      cases hi : index.input scope
      case error => rfl
      case ok i =>
        let old := (Block.ofList "data_itemoflist" l).withInput "INDEX" i
        have hr : (Expr.index span' (.var list) index).input scope = .ok (.block old) := by
          simp only [Expr.input, hi, Scope.resolve_of_list hl]
          rfl
        have he : (Expr.binary op.binary span (.index span' (.var list) index) e).input scope = do
            let j ← e.input scope
            return .block (← scope.operator op.reporter [.block old, j]) := by
          rw [Expr.input, hr]
          simp only [← Scope.binary_eq (l := .block old) rfl]
          rfl
        rw [he]
        simp only [bind_assoc, pure_bind, Scope.replaceItem]
        rfl
  refine .of_eq hb fun bs h other place s => ?_
  simp only [Stmt.blocks, Scope.replaceItem, bind_eq_ok, pure_eq_ok] at h
  obtain ⟨l, _, i, _, j, _, b, ⟨k, _, item, hk, hb⟩, h⟩ := h
  subst hk hb h
  exact ⟨_, Block.perform?_replaceItem⟩

-- An assignment with an operator reads, combines and writes back. The literals of a value that is
-- taken away have to be turned around.
theorem equivalent_spelledOut (hv : scope.vocabulary = .builtin) (op : AssignOp) (e index : Expr)
    (x list : Name) (span span' : Span) :
    ((op = .sub → ∀ i, e.input scope = .ok i → ∀ text ∈ i.literals, WrittenBack text) →
        Equivalent scope (.compound x op e) (.assign x (.binary op.binary span (.var x) e))) ∧
      Equivalent scope (.increment x)
        (.assign x (.binary .add span (.var x) (.literal ⟨.number, "1", span'⟩))) ∧
      Equivalent scope (.listReplace list index (some op) e) (.listReplace list index none
        (.binary op.binary span (.index span' (.var list) index) e)) :=
  ⟨equivalent_compound hv, equivalent_increment hv, equivalent_listReplace⟩

end Stmt

-- A machine that knows nothing but arithmetic.
def Machine.blank : Machine Value where
  literal        := .text
  whole _        := .undefined
  query _ _ _    := .undefined
  operator _ _ _ := .undefined

def Store.sixes : Store Value where
  vars _  := .number 6
  lists _ := []

-- The literals of the value that a script takes away from a variable, and what the variable comes
-- to.
def Stmt.reduced? (text : String) : Option (List String × Option ℚ) := do
  let (symbols, script) ← Symbols.script? text
  let scope : Scope := ⟨symbols, .builtin, none⟩
  match script with
  | [.compound x .sub e] =>
    let i ← (e.input scope).toOption
    let bs ← ((Stmt.compound x .sub e).blocks scope).toOption
    let t ← Block.perform? .blank (fun _ _ => none) .sixes bs
    return (i.literals, (t.vars x.text).amount?)
  | _ => none

def reducedText : String :=
  "variables x;\nonflag \x7b x -= x * 4 / (2 - x); \x7d"

theorem Stmt.equivalent_reducedText : ∃ symbols x e i bs bs' t,
    Symbols.script? reducedText = some (symbols, [.compound x .sub e]) ∧
      e.input ⟨symbols, .builtin, none⟩ = .ok i ∧ (∀ text ∈ i.literals, WrittenBack text) ∧
      (compound x .sub e).blocks ⟨symbols, .builtin, none⟩ = .ok bs ∧
      (assign x (.binary .sub .none (.var x) e)).blocks ⟨symbols, .builtin, none⟩ = .ok bs' ∧
      Block.perform? .blank (fun _ _ => none) .sixes bs = some t ∧
      Block.perform? .blank (fun _ _ => none) .sixes bs' = some t ∧
      (t.vars x.text).amount? = some 12 := by
  have h : reduced? reducedText = some (["4", "2"], some 12) := by decide +kernel
  simp only [reduced?, Option.bind_eq_bind, Option.bind_eq_some_iff] at h
  obtain ⟨⟨symbols, script⟩, hs, h⟩ := h
  split at h
  case h_2 => contradiction
  case h_1 x e he =>
    obtain rfl : script = [.compound x .sub e] := he
    simp only [Option.bind_eq_some_iff, Option.pure_def, Option.some.injEq, Prod.mk.injEq] at h
    obtain ⟨i, hi, bs, hb, t, ht, hl, hv⟩ := h
    have hi := eq_ok_of_toOption hi
    have hb := eq_ok_of_toOption hb
    have hw : ∀ text ∈ i.literals, WrittenBack text := by
      rw [hl]
      decide +kernel
    have hv' : (⟨symbols, .builtin, none⟩ : Scope).vocabulary = .builtin := rfl
    have he : Equivalent ⟨symbols, .builtin, none⟩ (.compound x .sub e)
        (.assign x (.binary .sub .none (.var x) e)) := by
      refine (equivalent_spelledOut hv' .sub e e x x .none .none).1 fun _ i' hi' => ?_
      cases hi.symm.trans hi'
      exact hw
    have ⟨bs', hb'⟩ := he.builds.mp ⟨bs, hb⟩
    have ⟨t', ht₁, ht₂⟩ := he.runs hb hb' .blank (fun _ _ => none) .sixes
    cases ht.symm.trans ht₁
    exact ⟨symbols, x, e, i, bs, bs', t, hs, hi, hw, hb, hb', ht, ht₂, hv⟩

end BlockLang
