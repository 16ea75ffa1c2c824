import BlockLang.Proofs.Block.Rename
import BlockLang.Proofs.Sprite.Stacks
import BlockLang.Proofs.Tree.Rename
import BlockLang.Sprite.Basic

/-!
Scopes in which things have other names. Scripts stand for the same blocks there once they use these
names, but for the names of variables.
-/

namespace BlockLang

def Reference.renameVar (q : String → String) : Reference → Reference
  | var name => var (q name)
  | list name => list name

-- A function but for its local variables.
def Function.head (f : Function) : Function :=
  { f with locals := [] }

theorem Function.head_eq_iff {f f' : Function} : f'.head = f.head ↔ f'.name = f.name ∧
    f'.warp = f.warp ∧ f'.params = f.params ∧ f'.fixedCode = f.fixedCode := by
  simp [head]

-- What a name with `P` refers to in a scope, the name that `r` gives it refers to in another one,
-- where variables have the names that `q` gives them. All else is the same in both.
structure Scope.Renames (P : String → Prop) (r q : String → String) (scope scope' : Scope) :
    Prop where
  vocabulary : scope'.vocabulary = scope.vocabulary
  functions  : ∀ name : String, (scope'.symbols.functions[name]?).map Function.head =
    (scope.symbols.functions[name]?).map Function.head
  function   : scope'.function.map Function.head = scope.function.map Function.head
  resolved   : ∀ {name o}, P name → scope.lookup? name = some o →
    scope'.lookup? (r name) = some (o.renameVar q)
  own        : ∀ {f name}, scope.function = some f → P name →
    localName f.name.text (r name) = q (localName f.name.text name)

variable {P : String → Prop} {r q : String → String} {scope scope' : Scope} {name : Name}
  {i l l' : Input} {is : List Input} {v : String} {b : Block} {bs : List Block}

namespace Scope.Renames

theorem exists_function (h : scope.Renames P r q scope') {f : Function}
    (hf : scope.function = some f) : ∃ f', scope'.function = some f' ∧ f'.head = f.head := by
  have hh := h.function
  rw [hf] at hh
  exact Option.map_eq_some_iff.mp hh

theorem resolve (h : scope.Renames P r q scope') (hn : P name.text) {o : Reference}
    (ho : scope.resolve name = .ok o) :
    scope'.resolve (name.rename r) = .ok (o.renameVar q) := by
  unfold Scope.resolve at ho ⊢
  split at ho
  case h_1 o' hl =>
    obtain rfl := Except.ok.inj ho
    rw [Name.rename, h.resolved hn hl]
  case h_2 => contradiction

theorem scalar (h : scope.Renames P r q scope') (hn : P name.text)
    (hv : scope.scalar name = .ok v) : scope'.scalar (name.rename r) = .ok (q v) :=
  bind_eq_ok.mpr ⟨_, h.resolve hn (resolve_of_scalar hv), rfl⟩

theorem list (h : scope.Renames P r q scope') (hn : P name.text)
    (hl : scope.list name = .ok v) : scope'.list (name.rename r) = .ok v :=
  bind_eq_ok.mpr ⟨_, h.resolve hn (resolve_of_list hl), rfl⟩

theorem localVariable (h : scope.Renames P r q scope') (hn : P name.text)
    (hv : scope.localVariable name = .ok v) :
    scope'.localVariable (name.rename r) = .ok (q v) := by
  unfold Scope.localVariable at hv
  split at hv
  case h_2 => contradiction
  case h_1 f hf =>
    obtain rfl := Except.ok.inj hv
    obtain ⟨f', hf', he⟩ := h.exists_function hf
    simp only [Scope.localVariable, hf', (Function.head_eq_iff.mp he).1]
    exact congrArg _ (h.own hf hn)

theorem operator (h : scope.Renames P r q scope') {op : String}
    (hb : scope.operator op is = .ok b) :
    scope'.operator op (is.map (Input.renameVars q)) = .ok (b.renameVars q) := by
  unfold Scope.operator at hb ⊢
  rw [h.vocabulary]
  split at hb
  case h_1 p hp =>
    rw [← Except.ok.inj hb, Block.renameVars_ofPrototype]
  case h_2 => contradiction

theorem ofOperator (h : scope.Renames P r q scope') {op : String}
    (hi : (do return .block (← scope.operator op is)) = (.ok i : Except Diagnostic Input)) :
    (do return .block (← scope'.operator op (is.map (Input.renameVars q)))) =
      (.ok (i.renameVars q) : Except Diagnostic Input) := by
  obtain ⟨b, hb, hi⟩ := bind_eq_ok.mp hi
  obtain rfl := pure_eq_ok.mp hi
  rw [Input.renameVars_block]
  exact bind_eq_ok.mpr ⟨_, h.operator hb, rfl⟩

-- Whether operands are known ahead of time does not depend on names.
theorem folded (h : scope.Renames P r q scope') {op : BinaryOp} {reporter : String}
    (hi : scope.folded op reporter l l' = .ok i) :
    scope'.folded op reporter (l.renameVars q) (l'.renameVars q) = .ok (i.renameVars q) := by
  simp only [Scope.folded, Input.literal?_renameVars] at hi ⊢
  split at hi
  case h_1 => simp [← Except.ok.inj hi]
  case h_2 => exact h.ofOperator hi

theorem member (h : scope.Renames P r q scope') (hi : scope.member l l' = .ok i) :
    scope'.member (l.renameVars q) (l'.renameVars q) = .ok (i.renameVars q) := by
  cases l'
  case list =>
    obtain rfl := pure_eq_ok.mp hi
    simp [Scope.member, pure, Except.pure]
  all_goals
    have hi := h.ofOperator hi
    simpa [Scope.member] using hi

theorem item (h : scope.Renames P r q scope') (hi : scope.item l l' = .ok i) :
    scope'.item (l.renameVars q) (l'.renameVars q) = .ok (i.renameVars q) := by
  cases l
  case list =>
    obtain rfl := pure_eq_ok.mp hi
    simp [Scope.item, pure, Except.pure]
  all_goals
    have hi := h.ofOperator hi
    simpa [Scope.item] using hi

theorem binary (h : scope.Renames P r q scope') {op : BinaryOp}
    (hi : scope.binary op l l' = .ok i) :
    scope'.binary op (l.renameVars q) (l'.renameVars q) = .ok (i.renameVars q) := by
  cases op
  case and | or =>
    obtain rfl := Except.ok.inj hi
    simp [Scope.binary, Block.logical_renameVars]
  case mem => exact h.member hi
  case ne | le | ge =>
    obtain ⟨_, hj, hi⟩ := bind_eq_ok.mp hi
    obtain rfl := pure_eq_ok.mp hi
    exact bind_eq_ok.mpr ⟨_, h.folded hj, congrArg _ Input.not_renameVars⟩
  all_goals exact h.folded hi

theorem argument (h : scope.Renames P r q scope') {token : Token}
    (hi : scope.argument token = .ok i) : scope'.argument token = .ok (i.renameVars q) := by
  unfold Scope.argument at hi
  split at hi
  case h_1 => contradiction
  case h_2 f hf =>
    obtain ⟨f', hf', he⟩ := h.exists_function hf
    obtain ⟨text, ht, hi⟩ := bind_eq_ok.mp hi
    dsimp only at hi
    split at hi
    case isFalse => contradiction
    case isTrue hc =>
      obtain rfl := pure_eq_ok.mp hi
      simp only [Scope.argument, hf', (Function.head_eq_iff.mp he).2.2.1, bind_eq_ok]
      exact ⟨text, ht, by rw [if_pos hc]; simp [pure, Except.pure]⟩

theorem reporterOf (h : scope.Renames P r q scope') {given : Nat} :
    scope'.reporterOf name given = scope.reporterOf name given := by
  simp only [Scope.reporterOf, h.vocabulary]

end Scope.Renames

theorem Scope.arguments_renameVars {p : Prototype} :
    Scope.arguments p (is.map (Input.renameVars q)) =
      (Scope.arguments p is).map (Input.renameVars q) := by
  simp only [Scope.arguments, List.zip_map_right, List.map_map]
  refine List.map_congr_left fun x _ => ?_
  simp only [Function.comp_apply, Prod.map_fst, Prod.map_snd, id, Block.ofTruth_renameVars]
  split <;> simp

theorem Scope.foldedRoot?_renameVars : foldedRoot? (b.renameVars q) = foldedRoot? b := by
  have hf : (b.renameVars q).field? "OPERATOR" = some (.literal "sqrt") ↔
      b.field? "OPERATOR" = some (.literal "sqrt") := by
    rw [Block.field?_renameVars]
    cases b.field? "OPERATOR"
    case none => simp
    case some f => cases f <;> simp [Field.renameVar]
  have hi : ((b.renameVars q).input? "NUM").bind (·.literal?) =
      (b.input? "NUM").bind (·.literal?) := by
    rw [Block.input?_renameVars]
    cases b.input? "NUM" <;> simp
  rw [foldedRoot?, foldedRoot?, Block.opcode_renameVars, decide_eq_decide.mpr hf, hi]

theorem Scope.report_renameVars {p : Prototype} :
    report name p (is.map (Input.renameVars q)) = (report name p is).renameVars q := by
  simp only [report, arguments_renameVars, ← Block.renameVars_ofPrototype,
    ← Block.renameVars_writtenAt, foldedRoot?_renameVars]
  split <;> simp

theorem Reference.input_renameVar {o : Reference} :
    (o.renameVar q).input = o.input.renameVars q := by
  cases o <;> simp [renameVar, input]

mutual

theorem Expr.input_rename (h : scope.Renames P r q scope') :
    ∀ {e : Expr} {i : Input}, (∀ n ∈ e.names, P n) → e.input scope = .ok i →
      (e.rename r).input scope' = .ok (i.renameVars q)
  | .literal _, i, _, hi => by
    simp only [Expr.input, bind_eq_ok, pure_eq_ok] at hi
    obtain ⟨_, ht, rfl⟩ := hi
    simp only [Expr.rename, Expr.input, bind_eq_ok, pure_eq_ok]
    exact ⟨_, ht, by simp⟩
  | .argument _, i, _, hi => h.argument hi
  | .var _, i, hn, hi => by
    simp only [Expr.input, bind_eq_ok, pure_eq_ok] at hi
    obtain ⟨_, ho, rfl⟩ := hi
    simp only [Expr.rename, Expr.input, bind_eq_ok, pure_eq_ok]
    exact ⟨_, h.resolve (List.forall_mem_singleton.mp hn) ho, Reference.input_renameVar⟩
  | .macroVar _, _, _, hi | .macroCall _ _, _, _, hi => nomatch hi
  | .reporter name args, i, hn, hi => by
    simp only [Expr.input, bind_eq_ok, pure_eq_ok] at hi
    obtain ⟨p, hp, is, his, rfl⟩ := hi
    simp only [Expr.rename, Expr.input, bind_eq_ok, pure_eq_ok]
    refine ⟨p, ?_, _, Expr.inputs_rename h hn his, Scope.report_renameVars⟩
    rw [h.reporterOf, Expr.length_renameAll, hp]
  | .unary .neg _ e, i, hn, hi => by
    simp only [Expr.input, bind_eq_ok, pure_eq_ok] at hi
    obtain ⟨_, he, rfl⟩ := hi
    simp only [Expr.rename, Expr.input, bind_eq_ok, pure_eq_ok]
    exact ⟨_, Expr.input_rename h hn he, Input.negate_renameVars⟩
  | .unary .not _ e, i, hn, hi => by
    simp only [Expr.input, bind_eq_ok, pure_eq_ok] at hi
    obtain ⟨_, he, rfl⟩ := hi
    simp only [Expr.rename, Expr.input, bind_eq_ok, pure_eq_ok]
    exact ⟨_, Expr.input_rename h hn he, Input.not_renameVars⟩
  | .binary op _ e e', i, hn, hi => by
    simp only [Expr.input, bind_eq_ok] at hi
    obtain ⟨_, hl, _, hr, hi⟩ := hi
    obtain ⟨hnl, hnr⟩ := List.forall_mem_append.mp hn
    simp only [Expr.rename, Expr.input, bind_eq_ok]
    exact ⟨_, Expr.input_rename h hnl hl, _, Expr.input_rename h hnr hr, h.binary hi⟩
  | .index _ e j, i, hn, hi => by
    simp only [Expr.input, bind_eq_ok] at hi
    obtain ⟨_, hj, _, he, hi⟩ := hi
    obtain ⟨hne, hnj⟩ := List.forall_mem_append.mp hn
    simp only [Expr.rename, Expr.input, bind_eq_ok]
    exact ⟨_, Expr.input_rename h hnj hj, _, Expr.input_rename h hne he, h.item hi⟩
  | .listLength name, i, hn, hi => by
    simp only [Expr.input, bind_eq_ok, pure_eq_ok] at hi
    obtain ⟨_, hl, rfl⟩ := hi
    simp only [Expr.rename, Expr.input, bind_eq_ok, pure_eq_ok]
    exact ⟨_, h.list (List.forall_mem_singleton.mp hn) hl, by simp⟩
  | .listIndex name e, i, hn, hi | .listContains name e, i, hn, hi => by
    simp only [Expr.input, bind_eq_ok, pure_eq_ok] at hi
    obtain ⟨_, hl, _, he, rfl⟩ := hi
    obtain ⟨hn, hns⟩ := List.forall_mem_cons.mp hn
    simp only [Expr.rename, Expr.input, bind_eq_ok, pure_eq_ok]
    exact ⟨_, h.list hn hl, _, Expr.input_rename h hns he, by simp⟩
  | .sensingOf _ _, i, _, hi => by
    simp only [Expr.input, bind_eq_ok, pure_eq_ok] at hi
    obtain ⟨_, ht, rfl⟩ := hi
    simp only [Expr.rename, Expr.input, bind_eq_ok, pure_eq_ok]
    exact ⟨_, ht, by simp⟩

theorem Expr.inputs_rename (h : scope.Renames P r q scope') :
    ∀ {es : List Expr} {is : List Input}, (∀ n ∈ Expr.namesAll es, P n) →
      Expr.inputs scope es = .ok is →
      Expr.inputs scope' (Expr.renameAll r es) = .ok (is.map (Input.renameVars q))
  | [], is, _, hi => by
    rw [Expr.inputs] at hi
    obtain rfl := Except.ok.inj hi
    rfl
  | e :: es, is, hn, hi => by
    simp only [Expr.inputs, bind_eq_ok, pure_eq_ok] at hi
    obtain ⟨_, he, _, hes, rfl⟩ := hi
    obtain ⟨hn, hns⟩ := List.forall_mem_append.mp hn
    simp only [Expr.renameAll, Expr.inputs, bind_eq_ok, pure_eq_ok]
    exact ⟨_, Expr.input_rename h hn he, _, Expr.inputs_rename h hns hes, rfl⟩

end

namespace Scope.Renames

theorem combine (h : scope.Renames P r q scope') {op : AssignOp}
    (hb : scope.combine v op i = .ok b) :
    scope'.combine (q v) op (i.renameVars q) = .ok (b.renameVars q) := by
  cases op
  case add => simp [Scope.combine, ← Except.ok.inj hb]
  case sub => simp [Scope.combine, ← Except.ok.inj hb, Input.negate_renameVars]
  all_goals
    simp only [Scope.combine, Input.literal?_renameVars] at hb ⊢
    split at hb
    case isTrue hd =>
      rw [if_pos hd]
      simp [← Except.ok.inj hb]
    case isFalse hd =>
      rw [if_neg hd]
      obtain ⟨_, ho, hb⟩ := bind_eq_ok.mp hb
      obtain rfl := pure_eq_ok.mp hb
      have ho := h.operator ho
      exact bind_eq_ok.mpr ⟨_, by simpa using ho, by simp [pure, Except.pure]⟩

theorem replaceItem (h : scope.Renames P r q scope') {op : Option AssignOp}
    (hb : scope.replaceItem v i op l = .ok b) :
    scope'.replaceItem v (i.renameVars q) op (l.renameVars q) = .ok (b.renameVars q) := by
  cases op
  case none =>
    obtain ⟨_, hv, hb⟩ := bind_eq_ok.mp hb
    obtain rfl := pure_eq_ok.mp hv
    obtain rfl := pure_eq_ok.mp hb
    exact bind_eq_ok.mpr ⟨_, rfl, by simp [pure, Except.pure]⟩
  case some op =>
    obtain ⟨_, ho, hb⟩ := bind_eq_ok.mp hb
    obtain ⟨_, hv, hb⟩ := bind_eq_ok.mp hb
    obtain rfl := pure_eq_ok.mp hv
    obtain rfl := pure_eq_ok.mp hb
    have ho := h.operator ho
    refine bind_eq_ok.mpr ⟨_, by simpa using ho, bind_eq_ok.mpr ⟨_, rfl, ?_⟩⟩
    simp [pure, Except.pure]

theorem visibility (h : scope.Renames P r q scope') (hn : P name.text) {action : String}
    (hb : scope.visibility action name = .ok b) :
    scope'.visibility action (name.rename r) = .ok (b.renameVars q) := by
  obtain ⟨o, ho, hb⟩ := bind_eq_ok.mp hb
  refine bind_eq_ok.mpr ⟨_, h.resolve hn ho, ?_⟩
  cases o
  all_goals
    obtain rfl := pure_eq_ok.mp hb
    simp [Reference.renameVar, Field.renameVar, Name.rename, pure, Except.pure]

theorem callee (h : scope.Renames P r q scope') {c : Function ⊕ Prototype}
    (hc : scope.callee name = .ok c) :
    ∃ c', scope'.callee name = .ok c' ∧ c'.map Function.head id = c.map Function.head id := by
  have hf := h.functions name.text
  unfold Scope.callee at hc ⊢
  rw [h.vocabulary]
  split at hc
  case h_1 f hg =>
    obtain rfl := Except.ok.inj hc
    rw [hg] at hf
    obtain ⟨f', hf', he⟩ := Option.map_eq_some_iff.mp hf
    exact ⟨.inl f', by rw [hf'], congrArg Sum.inl he⟩
  case h_2 p hg hp =>
    obtain rfl := Except.ok.inj hc
    rw [hg, Option.map_none, Option.map_eq_none_iff] at hf
    exact ⟨.inr p, by rw [hf, hp], rfl⟩
  case h_3 => contradiction

theorem call (h : scope.Renames P r q scope') {args : List Expr}
    (hn : ∀ n ∈ Expr.namesAll args, P n) (hb : scope.call name args = .ok b) :
    scope'.call name (Expr.renameAll r args) = .ok (b.renameVars q) := by
  obtain ⟨c, hc, hb⟩ := bind_eq_ok.mp hb
  obtain ⟨c', hc', he⟩ := h.callee hc
  refine bind_eq_ok.mpr ⟨c', hc', ?_⟩
  cases c <;> cases c'
  case inl.inl f f' =>
    obtain ⟨hx, hw, hp, hk⟩ := Function.head_eq_iff.mp (Sum.inl.inj he)
    obtain ⟨_, hl, hb⟩ := bind_eq_ok.mp hb
    obtain ⟨is, his, hb⟩ := bind_eq_ok.mp hb
    obtain rfl := pure_eq_ok.mp hb
    have hcode : f'.code = f.code := by rw [Function.code, Function.code, hx, hp, hk]
    simp only [hp, hw, hcode, Expr.length_renameAll, bind_eq_ok, pure_eq_ok]
    refine ⟨_, hl, _, Expr.inputs_rename h hn his, ?_⟩
    simp [Block.renameVars_call, List.zip_map_right]
  case inr.inr p p' =>
    obtain rfl : p' = p := Sum.inr.inj he
    obtain ⟨_, hl, hb⟩ := bind_eq_ok.mp hb
    obtain ⟨is, his, hb⟩ := bind_eq_ok.mp hb
    obtain rfl := pure_eq_ok.mp hb
    simp only [Expr.length_renameAll, bind_eq_ok, pure_eq_ok]
    refine ⟨_, hl, _, Expr.inputs_rename h hn his, ?_⟩
    rw [Scope.arguments_renameVars, Block.renameVars_writtenAt, Block.renameVars_ofPrototype]
  all_goals contradiction

end Scope.Renames

theorem Scope.fill_renameVars {span : Span} : fill v span (is.map (Input.renameVars q)) =
    (fill v span is).map (Block.renameVars q) := by
  simp [fill, Function.comp_def]

mutual

theorem Stmt.blocks_rename (h : scope.Renames P r q scope') :
    ∀ {s : Stmt} {bs : List Block}, (∀ n ∈ s.names, P n) → s.blocks scope = .ok bs →
      (s.rename r).blocks scope' = .ok (bs.map (Block.renameVars q))
  | .call name args comment, bs, hn, hb => by
    simp only [Stmt.blocks, bind_eq_ok, pure_eq_ok] at hb
    obtain ⟨_, hc, _, hb, rfl⟩ := hb
    simp only [Stmt.rename, Stmt.blocks, bind_eq_ok, pure_eq_ok]
    exact ⟨_, hc, _, h.call hn hb, by simp⟩
  | .macroCall _ _, _, _, hb => nomatch hb
  | .branch _ [] none, bs, _, hb => by
    obtain rfl := Except.ok.inj hb
    rfl
  | .branch _ [] (some body), bs, hn, hb => by
    have hn : ∀ n ∈ Stmt.namesAll body, P n := hn
    exact Stmt.allBlocks_rename h hn hb
  | .branch s (first :: rest) none, bs, hn, hb => by
    simp only [Stmt.blocks, bind_eq_ok, pure_eq_ok] at hb
    obtain ⟨o, ho, rfl⟩ := hb
    simp only [Stmt.rename, Stmt.renameBranches, Stmt.blocks, bind_eq_ok, pure_eq_ok]
    refine ⟨_, Stmt.chain_rename h (fun o ho => ?_) hn ho, ?_⟩
    · obtain rfl := Except.ok.inj ho
      rfl
    · cases o <;> simp
  | .branch s (first :: rest) (some body), bs, hn, hb => by
    simp only [Stmt.blocks, bind_eq_ok, pure_eq_ok] at hb
    obtain ⟨o, ho, rfl⟩ := hb
    obtain ⟨hn, hn'⟩ := List.forall_mem_append.mp hn
    simp only [Stmt.rename, Stmt.renameBranches, Stmt.blocks, bind_eq_ok, pure_eq_ok]
    refine ⟨_, Stmt.chain_rename h (fun o ho => ?_) hn ho, ?_⟩
    · simp only [bind_eq_ok, pure_eq_ok] at ho ⊢
      obtain ⟨_, hs, _, hk, rfl⟩ := ho
      exact ⟨_, Stmt.allBlocks_rename h hn' hs, _, Block.stacked_renameVars hk, rfl⟩
    · cases o <;> simp
  | .loopUntil s e body, bs, hn, hb => by
    simp only [Stmt.blocks, bind_eq_ok, pure_eq_ok] at hb
    obtain ⟨_, he, _, hs, _, hk, rfl⟩ := hb
    obtain ⟨hne, hns⟩ := List.forall_mem_append.mp hn
    simp only [Stmt.rename, Stmt.blocks, bind_eq_ok, pure_eq_ok]
    exact ⟨_, Expr.input_rename h hne he, _, Stmt.allBlocks_rename h hns hs, _,
      Block.stacked_renameVars hk, by simp [Block.ofTruth_renameVars]⟩
  | .loopTimes s e body, bs, hn, hb => by
    simp only [Stmt.blocks, bind_eq_ok, pure_eq_ok] at hb
    obtain ⟨_, he, _, hs, _, hk, rfl⟩ := hb
    obtain ⟨hne, hns⟩ := List.forall_mem_append.mp hn
    simp only [Stmt.rename, Stmt.blocks, bind_eq_ok, pure_eq_ok]
    exact ⟨_, Expr.input_rename h hne he, _, Stmt.allBlocks_rename h hns hs, _,
      Block.stacked_renameVars hk, by simp⟩
  | .forever s body, bs, hn, hb => by
    simp only [Stmt.blocks, bind_eq_ok, pure_eq_ok] at hb
    obtain ⟨_, hs, _, hk, rfl⟩ := hb
    have hn : ∀ n ∈ Stmt.namesAll body, P n := hn
    simp only [Stmt.rename, Stmt.blocks, bind_eq_ok, pure_eq_ok]
    exact ⟨_, Stmt.allBlocks_rename h hn hs, _, Block.stacked_renameVars hk, by simp⟩
  | .declareLocal name e, bs, hn, hb => by
    simp only [Stmt.blocks, bind_eq_ok, pure_eq_ok] at hb
    obtain ⟨_, hv, _, he, rfl⟩ := hb
    obtain ⟨hn, hns⟩ := List.forall_mem_cons.mp hn
    simp only [Stmt.rename, Stmt.blocks, bind_eq_ok, pure_eq_ok]
    exact ⟨_, h.localVariable hn hv, _, Expr.input_rename h hns he, by simp [Name.rename]⟩
  | .assign name e, bs, hn, hb => by
    simp only [Stmt.blocks, bind_eq_ok, pure_eq_ok] at hb
    obtain ⟨_, hv, _, he, rfl⟩ := hb
    obtain ⟨hn, hns⟩ := List.forall_mem_cons.mp hn
    simp only [Stmt.rename, Stmt.blocks, bind_eq_ok, pure_eq_ok]
    exact ⟨_, h.scalar hn hv, _, Expr.input_rename h hns he, by simp [Name.rename]⟩
  | .compound name op e, bs, hn, hb => by
    simp only [Stmt.blocks, bind_eq_ok, pure_eq_ok] at hb
    obtain ⟨_, hv, _, he, _, hc, rfl⟩ := hb
    obtain ⟨hn, hns⟩ := List.forall_mem_cons.mp hn
    simp only [Stmt.rename, Stmt.blocks, bind_eq_ok, pure_eq_ok]
    exact ⟨_, h.scalar hn hv, _, Expr.input_rename h hns he, _, h.combine hc,
      by simp [Name.rename]⟩
  | .increment name, bs, hn, hb => by
    simp only [Stmt.blocks, bind_eq_ok, pure_eq_ok] at hb
    obtain ⟨_, hv, rfl⟩ := hb
    simp only [Stmt.rename, Stmt.blocks, bind_eq_ok, pure_eq_ok]
    exact ⟨_, h.scalar (List.forall_mem_singleton.mp hn) hv, by simp [Name.rename]⟩
  | .listSet name items, bs, hn, hb => by
    simp only [Stmt.blocks, bind_eq_ok, pure_eq_ok] at hb
    obtain ⟨_, hl, _, he, rfl⟩ := hb
    obtain ⟨hn, hns⟩ := List.forall_mem_cons.mp hn
    simp only [Stmt.rename, Stmt.blocks, bind_eq_ok, pure_eq_ok]
    exact ⟨_, h.list hn hl, _, Expr.inputs_rename h hns he, Scope.fill_renameVars⟩
  | .listAdd name e, bs, hn, hb | .listDelete name e, bs, hn, hb => by
    simp only [Stmt.blocks, bind_eq_ok, pure_eq_ok] at hb
    obtain ⟨_, hl, _, he, rfl⟩ := hb
    obtain ⟨hn, hns⟩ := List.forall_mem_cons.mp hn
    simp only [Stmt.rename, Stmt.blocks, bind_eq_ok, pure_eq_ok]
    exact ⟨_, h.list hn hl, _, Expr.input_rename h hns he, by simp [Name.rename]⟩
  | .listDeleteAll name, bs, hn, hb => by
    simp only [Stmt.blocks, bind_eq_ok, pure_eq_ok] at hb
    obtain ⟨_, hl, rfl⟩ := hb
    simp only [Stmt.rename, Stmt.blocks, bind_eq_ok, pure_eq_ok]
    exact ⟨_, h.list (List.forall_mem_singleton.mp hn) hl, by simp [Name.rename]⟩
  | .listInsert name i e, bs, hn, hb => by
    simp only [Stmt.blocks, bind_eq_ok, pure_eq_ok] at hb
    obtain ⟨_, hl, _, hi, _, he, rfl⟩ := hb
    obtain ⟨hn, hns⟩ := List.forall_mem_cons.mp hn
    obtain ⟨hni, hne⟩ := List.forall_mem_append.mp hns
    simp only [Stmt.rename, Stmt.blocks, bind_eq_ok, pure_eq_ok]
    exact ⟨_, h.list hn hl, _, Expr.input_rename h hni hi, _, Expr.input_rename h hne he,
      by simp [Name.rename]⟩
  | .listReplace name i op e, bs, hn, hb => by
    simp only [Stmt.blocks, bind_eq_ok, pure_eq_ok] at hb
    obtain ⟨_, hl, _, hi, _, he, _, hr, rfl⟩ := hb
    obtain ⟨hn, hns⟩ := List.forall_mem_cons.mp hn
    obtain ⟨hni, hne⟩ := List.forall_mem_append.mp hns
    simp only [Stmt.rename, Stmt.blocks, bind_eq_ok, pure_eq_ok]
    exact ⟨_, h.list hn hl, _, Expr.input_rename h hni hi, _, Expr.input_rename h hne he, _,
      h.replaceItem hr, by simp [Name.rename]⟩
  | .showMonitor name, bs, hn, hb | .hideMonitor name, bs, hn, hb => by
    simp only [Stmt.blocks, bind_eq_ok, pure_eq_ok] at hb
    obtain ⟨_, hv, rfl⟩ := hb
    simp only [Stmt.rename, Stmt.blocks, bind_eq_ok, pure_eq_ok]
    exact ⟨_, h.visibility (List.forall_mem_singleton.mp hn) hv, by simp⟩

theorem Stmt.allBlocks_rename (h : scope.Renames P r q scope') :
    ∀ {ss : List Stmt} {bs : List Block}, (∀ n ∈ Stmt.namesAll ss, P n) →
      Stmt.allBlocks scope ss = .ok bs →
      Stmt.allBlocks scope' (Stmt.renameBody r ss) = .ok (bs.map (Block.renameVars q))
  | [], bs, _, hb => by
    obtain rfl := Except.ok.inj hb
    rfl
  | s :: ss, bs, hn, hb => by
    simp only [Stmt.allBlocks, bind_eq_ok, pure_eq_ok] at hb
    obtain ⟨_, hs, _, hss, rfl⟩ := hb
    obtain ⟨hn, hn'⟩ := List.forall_mem_append.mp hn
    simp only [Stmt.renameBody, Stmt.allBlocks, bind_eq_ok, pure_eq_ok]
    exact ⟨_, Stmt.blocks_rename h hn hs, _, Stmt.allBlocks_rename h hn' hss, by simp⟩

theorem Stmt.chain_rename (h : scope.Renames P r q scope')
    {otherwise otherwise' : Except Diagnostic (Option (List Block))}
    (hw : ∀ o, otherwise = .ok o → otherwise' = .ok (o.map (List.map (Block.renameVars q)))) :
    ∀ {branches : List (Expr × List Stmt)} {o : Option (List Block)},
      (∀ n ∈ Stmt.namesOfBranches branches, P n) → Stmt.chain scope otherwise branches = .ok o →
      Stmt.chain scope' otherwise' (Stmt.renameBranches r branches) =
        .ok (o.map (List.map (Block.renameVars q)))
  | [], o, _, ho => hw o ho
  | (e, body) :: rest, o, hn, ho => by
    simp only [Stmt.chain, bind_eq_ok, pure_eq_ok] at ho
    obtain ⟨_, he, _, hs, _, hk, _, hr, rfl⟩ := ho
    obtain ⟨hn, hnr⟩ := List.forall_mem_append.mp hn
    obtain ⟨hne, hns⟩ := List.forall_mem_append.mp hn
    simp only [Stmt.renameBranches, Stmt.chain, bind_eq_ok, pure_eq_ok]
    refine ⟨_, Expr.input_rename h hne he, _, Stmt.allBlocks_rename h hns hs, _,
      Block.stacked_renameVars hk, _, Stmt.chain_rename h hw hnr hr, ?_⟩
    simp [Block.ofTruth_renameVars, Block.renameVars_choice]

end

theorem Stmt.stack_rename (h : scope.Renames P r q scope') {ss : List Stmt}
    (hn : ∀ n ∈ Stmt.namesAll ss, P n) (hb : Stmt.stack scope ss = .ok bs) :
    Stmt.stack scope' (Stmt.renameBody r ss) = .ok (bs.map (Block.renameVars q)) := by
  obtain ⟨_, hs, hk⟩ := bind_eq_ok.mp hb
  exact bind_eq_ok.mpr ⟨_, Stmt.allBlocks_rename h hn hs, Block.stacked_renameVars hk⟩

end BlockLang
