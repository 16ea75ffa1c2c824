import BlockLang.Proofs.Sprite.Scope
import BlockLang.Proofs.Tree.Names
import BlockLang.Sprite.Reporter

/-!
What holds of all inputs that expressions stand for: each is built from those of the parts of its
expression.
-/

namespace BlockLang

-- In a scope, what is built from inputs that satisfy `Q` satisfies `Q`, and so does what the names
-- that satisfy `P` stand for.
structure Scope.Keeps (P : String → Prop) (Q : Input → Prop) (scope : Scope) : Prop where
  literal   : ∀ {text}, Q (.literal text)
  reference : ∀ {name r}, P name.text → scope.resolve name = .ok r → Q r.input
  param     : ∀ {f p span}, scope.function = some f → p ∈ f.params →
    Q (.block ((Block.argument p.text false).writtenAt span))
  operator  : ∀ {name : String} {p l r}, scope.vocabulary.reporters[name]? = some p → Q l → Q r →
    Q (.block (.ofPrototype p [l, r]))
  call      : ∀ {name : String} {p args span}, scope.vocabulary.reporters[name]? = some p →
    args.length = p.params.length → (∀ i ∈ args, Q i) →
    Q (.block ((Block.ofPrototype p args).writtenAt span))
  negate    : ∀ {i}, Q i → Q i.negate.1
  not       : ∀ {i}, Q i → Q i.not
  ofTruth   : ∀ {i}, Q i → Q (.block (.ofTruth i false))
  logical   : ∀ {both l r}, Q l → Q r → Q (.block (.logical both l r))
  lengthOf  : ∀ {list}, Q (.list list) → Q (.block (.lengthOf list))
  itemOf    : ∀ {list i}, Q (.list list) → Q i →
    Q (.block ((Block.ofList "data_itemoflist" list).withInput "INDEX" i))
  placeOf   : ∀ {list i}, Q (.list list) → Q i →
    Q (.block ((Block.ofList "data_itemnumoflist" list).withInput "ITEM" i))
  contains  : ∀ {list i}, Q (.list list) → Q i → Q (.block (.listContains list i))
  sensed    : ∀ {object property}, Q (.block (.sensed object property))

variable {P : String → Prop} {Q : Input → Prop} {scope : Scope} {i l r : Input}

theorem Scope.reporterOf_eq_ok {name : Name} {p : Prototype} {n : Nat}
    (h : scope.reporterOf name n = .ok p) :
    scope.vocabulary.reporters[name.text]? = some p ∧ n = p.params.length := by
  unfold reporterOf at h
  split at h
  case h_1 => contradiction
  case h_2 p' hp =>
    simp only [bind_eq_ok, pure_eq_ok] at h
    obtain ⟨_, hc, he⟩ := h
    unfold checkCount at hc
    split_ifs at hc with hl hg
    exact ⟨he ▸ hp, he ▸ by omega⟩

namespace Scope.Keeps

theorem ofOperator (h : scope.Keeps P Q) (hl : Q l) (hr : Q r) {reporter : String}
    (hi : (do return .block (← scope.operator reporter [l, r])) =
      (.ok i : Except Diagnostic Input)) :
    Q i := by
  have ⟨b, hb, hi⟩ := bind_eq_ok.mp hi
  unfold Scope.operator at hb
  split at hb
  case h_1 p hp => exact pure_eq_ok.mp hi ▸ Except.ok.inj hb ▸ h.operator hp hl hr
  case h_2 => contradiction

theorem folded (h : scope.Keeps P Q) (hl : Q l) (hr : Q r) {op : BinaryOp} {reporter : String}
    (hi : scope.folded op reporter l r = .ok i) : Q i := by
  simp only [Scope.folded] at hi
  split at hi
  case h_1 => exact Except.ok.inj hi ▸ h.literal
  case h_2 => exact h.ofOperator hl hr hi

theorem member (h : scope.Keeps P Q) (hl : Q l) (hr : Q r) (hi : scope.member l r = .ok i) :
    Q i := by
  simp only [Scope.member] at hi
  split at hi
  case h_1 => exact pure_eq_ok.mp hi ▸ h.contains hr hl
  case h_2 => exact h.ofOperator hr hl hi

theorem item (h : scope.Keeps P Q) (hl : Q l) (hr : Q r) (hi : scope.item l r = .ok i) : Q i := by
  simp only [Scope.item] at hi
  split at hi
  case h_1 => exact pure_eq_ok.mp hi ▸ h.itemOf hl hr
  case h_2 => exact h.ofOperator hr hl hi

theorem binary (h : scope.Keeps P Q) (hl : Q l) (hr : Q r) {op : BinaryOp}
    (hi : scope.binary op l r = .ok i) : Q i := by
  cases op
  case and | or => exact Except.ok.inj hi ▸ h.logical hl hr
  case mem => exact h.member hl hr hi
  -- These three are the opposites of other comparisons.
  case ne | le | ge =>
    have ⟨_, hj, hi⟩ := bind_eq_ok.mp hi
    exact pure_eq_ok.mp hi ▸ h.not (h.folded hl hr hj)
  all_goals exact h.folded hl hr hi

-- A parameter is read only in a function that has it.
theorem argument (h : scope.Keeps P Q) {token : Token} (hi : scope.argument token = .ok i) :
    Q i := by
  simp only [Scope.argument] at hi
  split at hi
  case h_1 => contradiction
  case h_2 f hf =>
    have ⟨name, _, hi⟩ := bind_eq_ok.mp hi
    split at hi
    case isTrue hc =>
      have ⟨p, hp, he⟩ := List.mem_map.mp (List.contains_iff_mem.mp hc)
      exact pure_eq_ok.mp hi ▸ he ▸ h.param hf hp
    case isFalse => contradiction

theorem arguments (h : scope.Keeps P Q) {p : Prototype} {args : List Input}
    (ha : ∀ i ∈ args, Q i) : ∀ i ∈ Scope.arguments p args, Q i := by
  intro i hi
  have ⟨⟨param, j⟩, hj, he⟩ := List.mem_map.mp hi
  have hj : Q j := ha j (List.of_mem_zip hj).2
  subst he
  dsimp only
  split
  case isTrue => exact h.ofTruth hj
  case isFalse => exact hj

theorem report (h : scope.Keeps P Q) {name : Name} {p : Prototype} {args : List Input}
    (hp : scope.vocabulary.reporters[name.text]? = some p) (hl : args.length = p.params.length)
    (ha : ∀ i ∈ args, Q i) : Q (Scope.report name p args) := by
  have hl : (Scope.arguments p args).length = p.params.length := by
    rw [Scope.arguments, List.length_map, List.length_zip, hl, Nat.min_self]
  simp only [Scope.report]
  split
  case h_1 => exact h.literal
  case h_2 => exact h.call hp hl (h.arguments ha)

theorem list (h : scope.Keeps P Q) {name : Name} {list : String} (hn : P name.text)
    (hl : scope.list name = .ok list) : Q (.list list) :=
  h.reference hn (resolve_of_list hl)

theorem scalar (h : scope.Keeps P Q) {name : Name} {v : String} (hn : P name.text)
    (hv : scope.scalar name = .ok v) : Q (.var v) :=
  h.reference hn (resolve_of_scalar hv)

end Scope.Keeps

-- Each expression stands for an input on its own.
theorem Expr.forall₂_inputs {es : List Expr} {is : List Input} (h : Expr.inputs scope es = .ok is) :
    List.Forall₂ (fun e i => e.input scope = .ok i) es is := by
  induction es generalizing is
  case nil => exact Except.ok.inj h ▸ .nil
  case cons e es hi =>
    simp only [Expr.inputs, bind_eq_ok, pure_eq_ok] at h
    obtain ⟨_, he, _, hes, h⟩ := h
    exact h ▸ .cons he (hi hes)

mutual

theorem Expr.keeps_input (h : scope.Keeps P Q) :
    ∀ {e : Expr} {i : Input}, (∀ n ∈ e.names, P n) → e.input scope = .ok i → Q i
  | .literal _, i, _, hi => by
    simp only [Expr.input, bind_eq_ok, pure_eq_ok] at hi
    have ⟨_, _, hi⟩ := hi
    exact hi ▸ h.literal
  | .argument _, i, _, hi => h.argument hi
  | .var _, i, hn, hi => by
    simp only [Expr.input, bind_eq_ok, pure_eq_ok] at hi
    have ⟨_, hr, hi⟩ := hi
    exact hi ▸ h.reference (List.forall_mem_singleton.mp hn) hr
  | .macroVar _, _, _, hi | .macroCall _ _, _, _, hi => nomatch hi
  | .reporter name args, i, hn, hi => by
    simp only [Expr.input, bind_eq_ok, pure_eq_ok] at hi
    have ⟨p, hp, is, his, hi⟩ := hi
    have ⟨hp, hl⟩ := Scope.reporterOf_eq_ok hp
    have hl : is.length = p.params.length := (Expr.forall₂_inputs his).length_eq.symm.trans hl
    exact hi ▸ h.report hp hl (Expr.keeps_inputs h hn his)
  | .unary .neg _ e, i, hn, hi => by
    simp only [Expr.input, bind_eq_ok, pure_eq_ok] at hi
    have ⟨_, he, hi⟩ := hi
    exact hi ▸ h.negate (Expr.keeps_input h (e := e) hn he)
  | .unary .not _ e, i, hn, hi => by
    simp only [Expr.input, bind_eq_ok, pure_eq_ok] at hi
    have ⟨_, he, hi⟩ := hi
    exact hi ▸ h.not (Expr.keeps_input h (e := e) hn he)
  | .binary op _ l r, i, hn, hi => by
    simp only [Expr.input, bind_eq_ok] at hi
    have ⟨_, hl, _, hr, hi⟩ := hi
    have ⟨hnl, hnr⟩ := List.forall_mem_append.mp hn
    exact h.binary (Expr.keeps_input h hnl hl) (Expr.keeps_input h hnr hr) hi
  | .index _ e j, i, hn, hi => by
    simp only [Expr.input, bind_eq_ok] at hi
    have ⟨_, hj, _, he, hi⟩ := hi
    have ⟨hne, hnj⟩ := List.forall_mem_append.mp hn
    exact h.item (Expr.keeps_input h hne he) (Expr.keeps_input h hnj hj) hi
  | .listLength name, i, hn, hi => by
    simp only [Expr.input, bind_eq_ok, pure_eq_ok] at hi
    have ⟨_, hl, hi⟩ := hi
    exact hi ▸ h.lengthOf (h.list (List.forall_mem_singleton.mp hn) hl)
  | .listIndex name e, i, hn, hi => by
    simp only [Expr.input, bind_eq_ok, pure_eq_ok] at hi
    have ⟨_, hl, _, he, hi⟩ := hi
    have ⟨hn, hns⟩ := List.forall_mem_cons.mp hn
    exact hi ▸ h.placeOf (h.list hn hl) (Expr.keeps_input h hns he)
  | .listContains name e, i, hn, hi => by
    simp only [Expr.input, bind_eq_ok, pure_eq_ok] at hi
    have ⟨_, hl, _, he, hi⟩ := hi
    have ⟨hn, hns⟩ := List.forall_mem_cons.mp hn
    exact hi ▸ h.contains (h.list hn hl) (Expr.keeps_input h hns he)
  | .sensingOf _ _, i, _, hi => by
    simp only [Expr.input, bind_eq_ok, pure_eq_ok] at hi
    have ⟨_, _, hi⟩ := hi
    exact hi ▸ h.sensed

theorem Expr.keeps_inputs (h : scope.Keeps P Q) :
    ∀ {es : List Expr} {is : List Input}, (∀ n ∈ Expr.namesAll es, P n) →
      Expr.inputs scope es = .ok is → ∀ i ∈ is, Q i
  | [], is, _, hi => by
    rw [Expr.inputs] at hi
    simp [← Except.ok.inj hi]
  | e :: es, is, hn, hi => by
    simp only [Expr.inputs, bind_eq_ok, pure_eq_ok] at hi
    have ⟨_, he, _, hes, hi⟩ := hi
    have ⟨hn, hns⟩ := List.forall_mem_append.mp hn
    exact hi ▸ List.forall_mem_cons.mpr ⟨Expr.keeps_input h hn he, Expr.keeps_inputs h hns hes⟩

end

end BlockLang
