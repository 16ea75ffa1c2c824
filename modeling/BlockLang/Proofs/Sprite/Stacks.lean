import BlockLang.Proofs.Block.Closed
import BlockLang.Proofs.Sprite.Inputs
import BlockLang.Sprite.Script

/-!
What holds of all blocks that statements stand for: each is built from the inputs of the expressions
in its statement, and from the blocks of the statements within it.
-/

namespace BlockLang

-- Where a variable is named as a reference, what holds of it as an input.
def Ref.Reads (Q : Input → Prop) : Ref → Prop
  | var name => Q (.var name)
  | _ => True

-- In a scope, what statements build from inputs that satisfy `Q` and from stacks of blocks that
-- satisfy `B` satisfies `B`.
structure Scope.Builds (P : String → Prop) (Q : Input → Prop) (B : Block → Prop) (scope : Scope) :
    Prop extends Scope.Keeps P Q scope where
  procedure : ∀ {name : String} {f args is}, scope.symbols.functions[name]? = some f →
    f.params.length = args.length → Expr.inputs scope args = .ok is → (∀ i ∈ is, Q i) →
    B (.call f.code f.warp ((f.params.map (·.text)).zip is))
  statement : ∀ {name : String} {p args}, scope.vocabulary.statements[name]? = some p →
    (∀ i ∈ args, Q i) → B (.ofPrototype p args)
  set       : ∀ {v i}, Q (.var v) → Q i → B (.setVariable v i)
  change    : ∀ {v i}, Q (.var v) → Q i → B (.changeVariable v i)
  monitor   : ∀ {action v}, action ∈ ["show", "hide"] → Q (.var v) →
    B ((Block.plain s!"data_{action}variable").withField "VARIABLE" (.var v))
  listed    : ∀ {action list}, action ∈ ["show", "hide"] → Q (.list list) →
    B (.ofList s!"data_{action}list" list)
  emptied   : ∀ {list}, Q (.list list) → B (.ofList "data_deletealloflist" list)
  added     : ∀ {list i}, Q (.list list) → Q i → B (.addItem list i)
  deleted   : ∀ {list i}, Q (.list list) → Q i →
    B ((Block.ofList "data_deleteoflist" list).withInput "INDEX" i)
  inserted  : ∀ {list i j}, Q (.list list) → Q i → Q j →
    B (((Block.ofList "data_insertatlist" list).withInput "INDEX" i).withInput "ITEM" j)
  replaced  : ∀ {list i j}, Q (.list list) → Q i → Q j →
    B (((Block.ofList "data_replaceitemoflist" list).withInput "INDEX" i).withInput "ITEM" j)
  choice    : ∀ {b bs otherwise}, Q (.block b) → Block.Closes bs → (∀ b ∈ bs, B b) →
    (∀ other ∈ otherwise, Block.Closes other ∧ ∀ b ∈ other, B b) → B (.choice b bs otherwise)
  loopUntil : ∀ {b bs}, Q (.block b) → Block.Closes bs → (∀ b ∈ bs, B b) →
    B (((Block.plain "control_repeat_until").withInput "CONDITION" (.block b)).withInput "SUBSTACK"
      (.stack bs))
  loopTimes : ∀ {i bs}, Q i → Block.Closes bs → (∀ b ∈ bs, B b) →
    B (((Block.plain "control_repeat").withInput "TIMES" i).withInput "SUBSTACK" (.stack bs))
  forever   : ∀ {bs}, Block.Closes bs → (∀ b ∈ bs, B b) →
    B ((Block.plain "control_forever").withInput "SUBSTACK" (.stack bs))
  writtenAt : ∀ {b span}, B b → B (b.writtenAt span)
  commented : ∀ {b} {comment : Option String}, B b → B { b with comment }

variable {P : String → Prop} {Q : Input → Prop} {B : Block → Prop} {scope : Scope} {name : Name}
  {i j : Input} {v list : String} {b : Block} {bs bs' : List Block}

theorem Scope.eq_of_checkCount {callee : Callee} {params : List String} {given : Nat}
    (h : checkCount callee name params given = .ok ()) : params.length = given := by
  unfold checkCount at h
  split at h
  case isTrue => contradiction
  case isFalse =>
    split at h
    case isTrue => contradiction
    case isFalse => omega

namespace Scope.Builds

theorem combine (h : scope.Builds P Q B) {op : AssignOp} (hv : Q (.var v)) (hi : Q i)
    (hb : scope.combine v op i = .ok b) : B b := by
  simp only [Scope.combine] at hb
  split at hb
  case h_1 => exact Except.ok.inj hb ▸ h.change hv hi
  case h_2 => exact Except.ok.inj hb ▸ h.change hv (h.negate hi)
  case h_3 =>
    split at hb
    case isTrue => exact Except.ok.inj hb ▸ h.change hv hv
    case isFalse =>
      obtain ⟨_, ho, hb⟩ := bind_eq_ok.mp hb
      exact pure_eq_ok.mp hb ▸ h.set hv (h.ofOperator hv hi (bind_eq_ok.mpr ⟨_, ho, rfl⟩))

theorem replaceItem (h : scope.Builds P Q B) {op : Option AssignOp} (hl : Q (.list list))
    (hi : Q i) (hj : Q j) (hb : scope.replaceItem list i op j = .ok b) : B b := by
  cases op
  case none =>
    obtain ⟨_, hv, hb⟩ := bind_eq_ok.mp hb
    obtain rfl := pure_eq_ok.mp hv
    exact pure_eq_ok.mp hb ▸ h.replaced hl hi hj
  case some op =>
    obtain ⟨_, ho, hb⟩ := bind_eq_ok.mp hb
    obtain ⟨_, hv, hb⟩ := bind_eq_ok.mp hb
    obtain rfl := pure_eq_ok.mp hv
    have ho := h.ofOperator (h.itemOf hl hi) hj (bind_eq_ok.mpr ⟨_, ho, rfl⟩)
    exact pure_eq_ok.mp hb ▸ h.replaced hl hi ho

theorem visibility (h : scope.Builds P Q B) (hn : P name.text) {action : String}
    (ha : action ∈ ["show", "hide"]) (hb : scope.visibility action name = .ok b) : B b := by
  have ⟨r, hr, hb⟩ := bind_eq_ok.mp hb
  have hr := h.reference hn hr
  cases r
  case list => exact pure_eq_ok.mp hb ▸ h.writtenAt (h.listed ha hr)
  case var => exact pure_eq_ok.mp hb ▸ h.writtenAt (h.monitor ha hr)

theorem fill (h : scope.Builds P Q B) {span : Span} {items : List Input} (hl : Q (.list list))
    (hi : ∀ i ∈ items, Q i) : ∀ b ∈ fill list span items, B b := by
  simp only [Scope.fill, List.forall_mem_map, List.forall_mem_cons]
  exact ⟨h.writtenAt (h.emptied hl), fun i hm => h.writtenAt (h.added hl (hi i hm))⟩

-- The blocks of a chain of branches stand where its statement does.
theorem branch (h : scope.Builds P Q B) {span : Span} {o : Option (List Block)}
    (ho : ∀ bs ∈ o, Block.Closes bs ∧ ∀ b ∈ bs, B b) :
    ∀ b ∈ (o.getD []).map (·.writtenAt span), B b := by
  cases o
  case none => exact nofun
  case some bs => exact List.forall_mem_map.mpr fun b hm => h.writtenAt ((ho bs rfl).2 b hm)

theorem ofCall (h : scope.Builds P Q B) {args : List Expr} (hn : ∀ n ∈ Expr.namesAll args, P n)
    (hb : scope.call name args = .ok b) : B b := by
  have ⟨callee, hc, hb⟩ := bind_eq_ok.mp hb
  unfold Scope.callee at hc
  split at hc
  case h_1 f hf =>
    obtain rfl := Except.ok.inj hc
    obtain ⟨_, hl, hb⟩ := bind_eq_ok.mp hb
    obtain ⟨is, his, hb⟩ := bind_eq_ok.mp hb
    have hl : f.params.length = args.length := by simpa using eq_of_checkCount hl
    have hi := Expr.keeps_inputs h.toKeeps hn his
    exact pure_eq_ok.mp hb ▸ h.writtenAt (h.procedure hf hl his hi)
  case h_2 p _ hp =>
    obtain rfl := Except.ok.inj hc
    obtain ⟨_, _, hb⟩ := bind_eq_ok.mp hb
    obtain ⟨is, his, hb⟩ := bind_eq_ok.mp hb
    have hi : ∀ i ∈ Scope.arguments p is, Q i :=
      h.arguments (Expr.keeps_inputs h.toKeeps hn his)
    exact pure_eq_ok.mp hb ▸ h.writtenAt (h.statement hp hi)
  case h_3 => contradiction

end Scope.Builds

-- The induction follows the three functions. What is mentioned within a statement is mentioned by
-- it, so the local variables stay bound.
mutual

theorem Stmt.builds_blocks (h : scope.Builds P Q B) {enter : Mention.Enter} :
    ∀ {s : Stmt} {bs : List Block}, (∀ n ∈ s.names, P n) → s.blocks scope = .ok bs →
      scope.Binds P (Ref.Reads Q) (Mention.ofStmt enter s) → ∀ b ∈ bs, B b
  | .call name args comment, bs, hn, hb, _ => by
    simp only [Stmt.blocks, bind_eq_ok, pure_eq_ok] at hb
    have ⟨_, _, _, hc, hb⟩ := hb
    exact hb ▸ List.forall_mem_singleton.mpr (h.commented (h.ofCall hn hc))
  | .macroCall _ _, _, _, hb, _ => nomatch hb
  | .branch _ [] none, bs, _, hb, _ => Except.ok.inj hb ▸ nofun
  | .branch _ [] (some body), bs, hn, hb, hl => by
    have hn : ∀ n ∈ Stmt.namesAll body, P n := hn
    exact Stmt.builds_allBlocks h hn hb hl
  | .branch s (first :: rest) none, bs, hn, hb, hl => by
    simp only [Stmt.blocks, bind_eq_ok, pure_eq_ok] at hb
    have ⟨o, ho, hb⟩ := hb
    have ht := Stmt.builds_chain h hn ho hl fun o ho => by simp [← Except.ok.inj ho]
    exact hb ▸ h.branch ht
  | .branch s (first :: rest) (some body), bs, hn, hb, hl => by
    simp only [Stmt.blocks, bind_eq_ok, pure_eq_ok] at hb
    have ⟨hn, hn'⟩ := List.forall_mem_append.mp hn
    have ⟨hl, hl'⟩ := Scope.binds_append.mp hl
    have ⟨o, ho, hb⟩ := hb
    have ht := Stmt.builds_chain h hn ho hl fun o ho => by
      simp only [bind_eq_ok, pure_eq_ok] at ho
      have ⟨_, hs, _, hs', ho⟩ := ho
      obtain ⟨rfl, hk⟩ := Block.stacked_eq_ok_iff.mp hs'
      have hs := Stmt.builds_allBlocks h hn' hs hl'
      simpa [← ho] using And.intro hk hs
    exact hb ▸ h.branch ht
  | .loopUntil s e body, bs, hn, hb, hl => by
    simp only [Stmt.blocks, bind_eq_ok, pure_eq_ok] at hb
    have ⟨_, he, _, hs, _, hs', hb⟩ := hb
    have ⟨hne, hns⟩ := List.forall_mem_append.mp hn
    have hc := h.ofTruth (Expr.keeps_input h.toKeeps hne he)
    obtain ⟨rfl, hk⟩ := Block.stacked_eq_ok_iff.mp hs'
    have hs := Stmt.builds_allBlocks h hns hs hl
    exact hb ▸ List.forall_mem_singleton.mpr (h.writtenAt (h.loopUntil hc hk hs))
  | .loopTimes s e body, bs, hn, hb, hl => by
    simp only [Stmt.blocks, bind_eq_ok, pure_eq_ok] at hb
    have ⟨_, he, _, hs, _, hs', hb⟩ := hb
    have ⟨hne, hns⟩ := List.forall_mem_append.mp hn
    have he := Expr.keeps_input h.toKeeps hne he
    obtain ⟨rfl, hk⟩ := Block.stacked_eq_ok_iff.mp hs'
    have hs := Stmt.builds_allBlocks h hns hs hl
    exact hb ▸ List.forall_mem_singleton.mpr (h.writtenAt (h.loopTimes he hk hs))
  | .forever s body, bs, hn, hb, hl => by
    simp only [Stmt.blocks, bind_eq_ok, pure_eq_ok] at hb
    have ⟨_, hs, _, hs', hb⟩ := hb
    have hn : ∀ n ∈ Stmt.namesAll body, P n := hn
    obtain ⟨rfl, hk⟩ := Block.stacked_eq_ok_iff.mp hs'
    have hs := Stmt.builds_allBlocks h hn hs hl
    exact hb ▸ List.forall_mem_singleton.mpr (h.writtenAt (h.forever hk hs))
  | .declareLocal name e, bs, hn, hb, hl => by
    simp only [Stmt.blocks, bind_eq_ok, pure_eq_ok] at hb
    have ⟨v, hv, _, he, hb⟩ := hb
    have ⟨hn, hns⟩ := List.forall_mem_cons.mp hn
    have hv : Q (.var v) := by
      unfold Scope.localVariable at hv
      split at hv
      case h_1 f hf => exact Except.ok.inj hv ▸ hl f hf name (by simp [Mention.ofStmt]) hn
      case h_2 => contradiction
    have he := Expr.keeps_input h.toKeeps hns he
    exact hb ▸ List.forall_mem_singleton.mpr (h.writtenAt (h.set hv he))
  | .assign name e, bs, hn, hb, _ => by
    simp only [Stmt.blocks, bind_eq_ok, pure_eq_ok] at hb
    have ⟨v, hv, _, he, hb⟩ := hb
    have ⟨hn, hns⟩ := List.forall_mem_cons.mp hn
    have he := Expr.keeps_input h.toKeeps hns he
    exact hb ▸ List.forall_mem_singleton.mpr (h.writtenAt (h.set (h.scalar hn hv) he))
  | .compound name op e, bs, hn, hb, _ => by
    simp only [Stmt.blocks, bind_eq_ok, pure_eq_ok] at hb
    have ⟨v, hv, _, he, _, hc, hb⟩ := hb
    have ⟨hn, hns⟩ := List.forall_mem_cons.mp hn
    have hc := h.combine (h.scalar hn hv) (Expr.keeps_input h.toKeeps hns he) hc
    exact hb ▸ List.forall_mem_singleton.mpr (h.writtenAt hc)
  | .increment name, bs, hn, hb, _ => by
    simp only [Stmt.blocks, bind_eq_ok, pure_eq_ok] at hb
    have ⟨v, hv, hb⟩ := hb
    have hv := h.scalar (List.forall_mem_singleton.mp hn) hv
    exact hb ▸ List.forall_mem_singleton.mpr (h.writtenAt (h.change hv h.literal))
  | .listSet name items, bs, hn, hb, _ => by
    simp only [Stmt.blocks, bind_eq_ok, pure_eq_ok] at hb
    have ⟨l, hl, _, he, hb⟩ := hb
    have ⟨hn, hns⟩ := List.forall_mem_cons.mp hn
    exact hb ▸ h.fill (h.list hn hl) (Expr.keeps_inputs h.toKeeps hns he)
  | .listAdd name e, bs, hn, hb, _ => by
    simp only [Stmt.blocks, bind_eq_ok, pure_eq_ok] at hb
    have ⟨l, hl, _, he, hb⟩ := hb
    have ⟨hn, hns⟩ := List.forall_mem_cons.mp hn
    have he := Expr.keeps_input h.toKeeps hns he
    exact hb ▸ List.forall_mem_singleton.mpr (h.writtenAt (h.added (h.list hn hl) he))
  | .listDelete name e, bs, hn, hb, _ => by
    simp only [Stmt.blocks, bind_eq_ok, pure_eq_ok] at hb
    have ⟨l, hl, _, he, hb⟩ := hb
    have ⟨hn, hns⟩ := List.forall_mem_cons.mp hn
    have he := Expr.keeps_input h.toKeeps hns he
    exact hb ▸ List.forall_mem_singleton.mpr (h.writtenAt (h.deleted (h.list hn hl) he))
  | .listDeleteAll name, bs, hn, hb, _ => by
    simp only [Stmt.blocks, bind_eq_ok, pure_eq_ok] at hb
    have ⟨l, hl, hb⟩ := hb
    have hl := h.list (List.forall_mem_singleton.mp hn) hl
    exact hb ▸ List.forall_mem_singleton.mpr (h.writtenAt (h.emptied hl))
  | .listInsert name i e, bs, hn, hb, _ => by
    simp only [Stmt.blocks, bind_eq_ok, pure_eq_ok] at hb
    have ⟨l, hl, _, hi, _, he, hb⟩ := hb
    have ⟨hn, hns⟩ := List.forall_mem_cons.mp hn
    have ⟨hni, hne⟩ := List.forall_mem_append.mp hns
    have hi := Expr.keeps_input h.toKeeps hni hi
    have he := Expr.keeps_input h.toKeeps hne he
    exact hb ▸ List.forall_mem_singleton.mpr (h.writtenAt (h.inserted (h.list hn hl) hi he))
  | .listReplace name i op e, bs, hn, hb, _ => by
    simp only [Stmt.blocks, bind_eq_ok, pure_eq_ok] at hb
    have ⟨l, hl, _, hi, _, he, _, hr, hb⟩ := hb
    have ⟨hn, hns⟩ := List.forall_mem_cons.mp hn
    have ⟨hni, hne⟩ := List.forall_mem_append.mp hns
    have hi := Expr.keeps_input h.toKeeps hni hi
    have he := Expr.keeps_input h.toKeeps hne he
    exact hb ▸ List.forall_mem_singleton.mpr (h.writtenAt (h.replaceItem (h.list hn hl) hi he hr))
  | .showMonitor name, bs, hn, hb, _ | .hideMonitor name, bs, hn, hb, _ => by
    simp only [Stmt.blocks, bind_eq_ok, pure_eq_ok] at hb
    have ⟨_, hv, hb⟩ := hb
    have hn := List.forall_mem_singleton.mp hn
    exact hb ▸ List.forall_mem_singleton.mpr (h.visibility hn (by simp) hv)

theorem Stmt.builds_allBlocks (h : scope.Builds P Q B) {enter : Mention.Enter} :
    ∀ {ss : List Stmt} {bs : List Block}, (∀ n ∈ Stmt.namesAll ss, P n) →
      Stmt.allBlocks scope ss = .ok bs →
      scope.Binds P (Ref.Reads Q) (Mention.ofBody enter ss) → ∀ b ∈ bs, B b
  | [], bs, _, hb, _ => Except.ok.inj hb ▸ nofun
  | s :: ss, bs, hn, hb, hl => by
    simp only [Stmt.allBlocks, bind_eq_ok, pure_eq_ok] at hb
    have ⟨_, hs, _, hss, hb⟩ := hb
    have ⟨hn, hn'⟩ := List.forall_mem_append.mp hn
    have ⟨hl, hl'⟩ := Scope.binds_append.mp hl
    exact hb ▸ List.forall_mem_append.mpr
      ⟨Stmt.builds_blocks h hn hs hl, Stmt.builds_allBlocks h hn' hss hl'⟩

theorem Stmt.builds_chain (h : scope.Builds P Q B) {enter : Mention.Enter}
    {otherwise : Except Diagnostic (Option (List Block))} :
    ∀ {branches : List (Expr × List Stmt)} {o : Option (List Block)},
      (∀ n ∈ Stmt.namesOfBranches branches, P n) → Stmt.chain scope otherwise branches = .ok o →
      scope.Binds P (Ref.Reads Q) (Mention.ofBranches enter branches) →
      (∀ o, otherwise = .ok o → ∀ bs ∈ o, Block.Closes bs ∧ ∀ b ∈ bs, B b) →
      ∀ bs ∈ o, Block.Closes bs ∧ ∀ b ∈ bs, B b
  | [], o, _, ho, _, hw => hw o ho
  | (e, body) :: rest, o, hn, ho, hl, hw => by
    simp only [Stmt.chain, bind_eq_ok, pure_eq_ok] at ho
    have ⟨_, he, _, hs, _, hs', _, hr, ho⟩ := ho
    have ⟨hn, hnr⟩ := List.forall_mem_append.mp hn
    have ⟨hne, hns⟩ := List.forall_mem_append.mp hn
    have ⟨hl, hl'⟩ := Scope.binds_append.mp hl
    have hc := h.ofTruth (Expr.keeps_input h.toKeeps hne he)
    obtain ⟨rfl, hk⟩ := Block.stacked_eq_ok_iff.mp hs'
    have hs := Stmt.builds_allBlocks h hns hs hl
    have hr := Stmt.builds_chain h hnr hr hl' hw
    simpa [← ho, Block.closes_singleton] using h.choice hc hk hs hr

end

end BlockLang
