import BlockLang.Sprite.Basic
import BlockLang.Proofs.Lookup
import BlockLang.Proofs.Macro.Blame
import BlockLang.Proofs.Symbols.Functions

/-!
The scripts of a sprite cannot be built: a token of the text is to blame.
-/

namespace BlockLang

namespace Vocabulary

-- The reporters that operators stand for.
def operators : List String := [
  "add", "sub", "mul", "div", "mod", "join", "eq", "lt", "gt", "letter", "contains"]

def Complete (v : Vocabulary) : Prop :=
  ∀ op ∈ operators, op ∈ v.reporters

theorem builtin_complete : builtin.Complete := by
  unfold Complete
  decide

end Vocabulary

open Vocabulary

variable {m : Material} {scope : Scope} {name : Name} {token : Token} {l r : Input}

namespace Scope

theorem explains_operator {op : String} {args : List Input} (hv : scope.vocabulary.Complete)
    (ho : op ∈ operators) : m.Explains (scope.operator op args) := by
  obtain ⟨p, hp⟩ := Option.isSome_iff_exists.mp (Std.TreeMap.mem_iff_isSome_getElem?.mp (hv op ho))
  unfold operator
  rw [hp]
  exact trivial

theorem explains_folded {op : BinaryOp} {reporter : String} (hv : scope.vocabulary.Complete)
    (ho : reporter ∈ operators) : m.Explains (scope.folded op reporter l r) := by
  unfold folded
  dsimp only
  split
  case h_1 => exact trivial
  case h_2 => exact (explains_operator hv ho).bind fun _ _ => trivial

theorem explains_member (hv : scope.vocabulary.Complete) : m.Explains (scope.member l r) := by
  unfold member
  split
  case h_1 => exact trivial
  case h_2 => exact (explains_operator hv (by decide)).bind fun _ _ => trivial

theorem explains_binary {op : BinaryOp} (hv : scope.vocabulary.Complete) :
    m.Explains (scope.binary op l r) := by
  cases op
  case and | or => exact trivial
  case mem => exact explains_member hv
  case ne | le | ge => exact (explains_folded hv (by decide)).bind fun _ _ => trivial
  all_goals exact explains_folded hv (by decide)

theorem explains_item (hv : scope.vocabulary.Complete) : m.Explains (scope.item l r) := by
  unfold item
  split
  case h_1 => exact trivial
  case h_2 => exact (explains_operator hv (by decide)).bind fun _ _ => trivial

theorem explains_argument (ht : m.token token) : m.Explains (scope.argument token) := by
  unfold argument
  split
  case h_1 => exact yields_errorAt ht rfl
  case h_2 f hf =>
    refine (explains_literal ht).bind fun text _ => ?_
    dsimp only
    split
    case isTrue => exact trivial
    case isFalse => exact yields_errorAt ht rfl

theorem explains_resolve (hn : m.token name.identifier) : m.Explains (scope.resolve name) := by
  unfold resolve
  split
  case h_1 => exact trivial
  case h_2 => exact yields_errorIn hn rfl

theorem explains_scalar (hn : m.token name.identifier) : m.Explains (scope.scalar name) := by
  refine (explains_resolve hn).bind fun r _ => ?_
  cases r
  case var => exact trivial
  case list => exact yields_errorIn hn rfl

theorem explains_list (hn : m.token name.identifier) : m.Explains (scope.list name) := by
  refine (explains_resolve hn).bind fun r _ => ?_
  cases r
  case var => exact yields_errorIn hn rfl
  case list => exact trivial

theorem explains_checkCount {callee : Callee} {params : List String} {given : Nat}
    (hn : m.token name.identifier) : m.Explains (checkCount callee name params given) := by
  unfold checkCount
  dsimp only
  repeat' split
  all_goals first
    | exact trivial
    | exact yields_errorIn hn rfl

theorem explains_reporterOf {given : Nat} (hn : m.token name.identifier) :
    m.Explains (scope.reporterOf name given) := by
  unfold reporterOf
  split
  case h_1 => exact yields_errorIn hn rfl
  case h_2 => exact (explains_checkCount hn).bind fun _ _ => trivial

theorem explains_callee (hn : m.token name.identifier) : m.Explains (scope.callee name) := by
  unfold callee
  split
  case h_1 | h_2 => exact trivial
  case h_3 => exact yields_errorIn hn rfl

theorem explains_localVariable (hn : m.token name.identifier) :
    m.Explains (scope.localVariable name) := by
  unfold localVariable
  split
  case h_1 => exact trivial
  case h_2 => exact yields_errorIn hn rfl

theorem reporter_mem_operators (op : AssignOp) : op.reporter ∈ operators := by
  cases op <;> decide

theorem explains_combine {v : String} {op : AssignOp} (hv : scope.vocabulary.Complete) :
    m.Explains (scope.combine v op r) := by
  unfold combine
  dsimp only
  split
  case h_1 | h_2 => exact trivial
  case h_3 =>
    split
    case isTrue => exact trivial
    case isFalse =>
      exact (explains_operator hv (reporter_mem_operators op)).bind fun _ _ => trivial

theorem explains_replaceItem {list : String} {op : Option AssignOp}
    (hv : scope.vocabulary.Complete) : m.Explains (scope.replaceItem list l op r) := by
  cases op
  case none => exact trivial
  case some op =>
    have ho : m.Explains (scope.operator op.reporter
        [.block ((Block.ofList "data_itemoflist" list).withInput "INDEX" l), r]) :=
      explains_operator hv (reporter_mem_operators op)
    exact ho.bind fun _ _ => trivial

end Scope

open Scope

mutual

theorem Expr.MadeOf.explains_input (hv : scope.vocabulary.Complete) : ∀ {e : Expr},
    e.MadeOf m .none → m.Explains (e.input scope)
  | .literal _, ⟨_, ht⟩ => by
    rw [Expr.input]
    exact (explains_literal ht).bind fun _ _ => trivial
  | .argument _, ⟨_, ht⟩ => explains_argument ht
  | .var _, hn => by
    rw [Expr.input]
    exact (explains_resolve hn).bind fun _ _ => trivial
  | .macroVar _, ⟨_, hs⟩ => yields_error hs rfl
  | .macroCall _ _, ⟨h, _⟩ => nomatch h
  | .reporter _ _, ⟨hn, ha⟩ => by
    rw [Expr.input]
    exact (explains_reporterOf hn).bind fun _ _ => (ha.explains_inputs hv).bind fun _ _ => trivial
  | .unary .neg _ _, ⟨_, he⟩ | .unary .not _ _, ⟨_, he⟩ => by
    rw [Expr.input]
    exact (he.explains_input hv).bind fun _ _ => trivial
  | .binary _ _ _ _, ⟨_, hl, hr⟩ => by
    rw [Expr.input]
    exact (hl.explains_input hv).bind fun _ _ => (hr.explains_input hv).bind fun _ _ =>
      explains_binary hv
  | .index _ _ _, ⟨_, he, hi⟩ => by
    rw [Expr.input]
    exact (hi.explains_input hv).bind fun _ _ => (he.explains_input hv).bind fun _ _ =>
      explains_item hv
  | .listLength _, hn => by
    rw [Expr.input]
    exact (explains_list hn).bind fun _ _ => trivial
  | .listIndex _ _, ⟨hn, he⟩ | .listContains _ _, ⟨hn, he⟩ => by
    rw [Expr.input]
    exact (explains_list hn).bind fun _ _ => (he.explains_input hv).bind fun _ _ => trivial
  | .sensingOf _ _, ⟨_, ht, _⟩ => by
    rw [Expr.input]
    exact (explains_literal ht).bind fun _ _ => trivial

theorem Expr.MadeOfAll.explains_inputs (hv : scope.vocabulary.Complete) : ∀ {es : List Expr},
    MadeOfAll m .none es → m.Explains (Expr.inputs scope es)
  | [], _ => trivial
  | _ :: _, ⟨he, hes⟩ => by
    rw [Expr.inputs]
    exact (he.explains_input hv).bind fun _ _ => (hes.explains_inputs hv).bind fun _ _ => trivial

end

-- A block that has a place at which a token starts.
def Block.PlacedIn (m : Material) (b : Block) : Prop :=
  ∃ s, b.span = some s ∧ m.Starts s

namespace Block

theorem mem_of_misplaced? {bs : List Block} {b : Block} (h : misplaced? bs = some b) : b ∈ bs := by
  induction bs
  case nil => contradiction
  case cons b' bs hi =>
    simp only [misplaced?] at h
    split at h
    case isTrue => exact Option.some.inj h ▸ List.mem_cons_self
    case isFalse => exact List.mem_cons_of_mem _ (hi h)

theorem explains_stacked {bs : List Block} (h : ∀ b ∈ bs, b.PlacedIn m) :
    m.Explains (stacked bs) := by
  unfold stacked
  split
  case h_1 => exact trivial
  case h_2 b hb =>
    obtain ⟨s, he, hs⟩ := h b (mem_of_misplaced? hb)
    rw [he]
    exact yields_error hs rfl

theorem placedIn_writtenAt {s : Span} {b : Block} (hs : m.Starts s) : (b.writtenAt s).PlacedIn m :=
  ⟨s, rfl, hs⟩

theorem placedIn_name {b : Block} (hn : m.token name.identifier) :
    (b.writtenAt name.span).PlacedIn m :=
  placedIn_writtenAt (Material.starts_identifier hn)

end Block

namespace Scope

open Block

theorem yields_visibility {action : String} (hn : m.token name.identifier) :
    Yields (·.PlacedIn m) m.Blames (scope.visibility action name) := by
  refine (explains_resolve hn).bind fun r _ => ?_
  cases r <;> exact placedIn_name hn

theorem yields_call {args : List Expr} (hv : scope.vocabulary.Complete)
    (hn : m.token name.identifier) (ha : Expr.MadeOfAll m .none args) :
    Yields (·.PlacedIn m) m.Blames (scope.call name args) := by
  refine (explains_callee hn).bind fun callee _ => ?_
  cases callee <;>
    exact (explains_checkCount hn).bind fun _ _ => (ha.explains_inputs hv).bind fun _ _ =>
      placedIn_name hn

end Scope

-- What is built are blocks that have places.
abbrev Material.Places (m : Material) (bs : Except Diagnostic (List Block)) : Prop :=
  Yields (fun bs => ∀ b ∈ bs, b.PlacedIn m) m.Blames bs

theorem places_one {b : Block} (hb : b.PlacedIn m) : m.Places (.ok [b]) :=
  List.forall_mem_singleton.mpr hb

theorem placedIn_map_writtenAt {s : Span} {bs : List Block} (hs : m.Starts s) :
    ∀ b ∈ bs.map (·.writtenAt s), b.PlacedIn m :=
  List.forall_mem_map.mpr fun _ _ => Block.placedIn_writtenAt hs

namespace Stmt

open Block

mutual

theorem MadeOf.places (hv : scope.vocabulary.Complete)
    (hc : ∀ t, m.comment t → t.kind = .comment) : ∀ {s : Stmt}, s.MadeOf m .none →
    m.Places (s.blocks scope)
  | .call name _ none, ⟨hn, ha, _⟩ => by
    rw [Stmt.blocks]
    exact (yields_call hv hn ha).bind fun _ hb => places_one hb
  | .call name _ (some t), ⟨hn, ha, ht⟩ => by
    rw [Stmt.blocks]
    have ht : m.Explains ((some t).mapM Token.literal) :=
      (explains_comment (hc t (ht t rfl))).bind fun _ _ => trivial
    exact ht.bind fun _ _ => (yields_call hv hn ha).bind fun _ hb => places_one hb
  | .macroCall _ _, ⟨h, _⟩ => nomatch h
  | .branch _ [] none, h | .branch _ [] (some _), h => absurd rfl h.2.1
  | .branch s (_ :: _) none, ⟨hs, _, hb⟩ => by
    have ho : m.Explains (.ok none : Except Diagnostic (Option (List Block))) := trivial
    rw [Stmt.blocks]
    exact (hb.explains_chain hv hc ho).bind fun _ _ => placedIn_map_writtenAt hs
  | .branch _ (_ :: _) (some body), ⟨hs, _, hb, ho⟩ => by
    have ho : m.Explains (do return some (← stacked (← Stmt.allBlocks scope body))) :=
      (ho.places hv hc).bind fun _ hb => (explains_stacked hb).bind fun _ _ => trivial
    rw [Stmt.blocks]
    exact (hb.explains_chain hv hc ho).bind fun _ _ => placedIn_map_writtenAt hs
  | .loopUntil _ _ _, ⟨hs, he, hb⟩ | .loopTimes _ _ _, ⟨hs, he, hb⟩ => by
    rw [Stmt.blocks]
    exact (he.explains_input hv).bind fun _ _ => (hb.places hv hc).bind fun _ hb =>
      (explains_stacked hb).bind fun _ _ => places_one (placedIn_writtenAt hs)
  | .forever _ _, ⟨hs, hb⟩ => by
    rw [Stmt.blocks]
    exact (hb.places hv hc).bind fun _ hb => (explains_stacked hb).bind fun _ _ =>
      places_one (placedIn_writtenAt hs)
  | .declareLocal _ _, ⟨hn, he⟩ => by
    rw [Stmt.blocks]
    exact (explains_localVariable hn).bind fun _ _ => (he.explains_input hv).bind fun _ _ =>
      places_one (placedIn_name hn)
  | .assign _ _, ⟨hn, he⟩ => by
    rw [Stmt.blocks]
    exact (explains_scalar hn).bind fun _ _ => (he.explains_input hv).bind fun _ _ =>
      places_one (placedIn_name hn)
  | .compound _ _ _, ⟨hn, he⟩ => by
    rw [Stmt.blocks]
    exact (explains_scalar hn).bind fun _ _ => (he.explains_input hv).bind fun _ _ =>
      (explains_combine hv).bind fun _ _ => places_one (placedIn_name hn)
  | .increment _, hn => by
    rw [Stmt.blocks]
    exact (explains_scalar hn).bind fun _ _ => places_one (placedIn_name hn)
  | .listSet _ _, ⟨hn, ha⟩ => by
    rw [Stmt.blocks]
    exact (explains_list hn).bind fun _ _ => (ha.explains_inputs hv).bind fun _ _ =>
      placedIn_map_writtenAt (Material.starts_identifier hn)
  | .listAdd _ _, ⟨hn, he⟩ | .listDelete _ _, ⟨hn, he⟩ => by
    rw [Stmt.blocks]
    exact (explains_list hn).bind fun _ _ => (he.explains_input hv).bind fun _ _ =>
      places_one (placedIn_name hn)
  | .listDeleteAll _, hn => by
    rw [Stmt.blocks]
    exact (explains_list hn).bind fun _ _ => places_one (placedIn_name hn)
  | .listInsert _ _ _, ⟨hn, hi, he⟩ => by
    rw [Stmt.blocks]
    exact (explains_list hn).bind fun _ _ => (hi.explains_input hv).bind fun _ _ =>
      (he.explains_input hv).bind fun _ _ => places_one (placedIn_name hn)
  | .listReplace _ _ _ _, ⟨hn, hi, he⟩ => by
    rw [Stmt.blocks]
    exact (explains_list hn).bind fun _ _ => (hi.explains_input hv).bind fun _ _ =>
      (he.explains_input hv).bind fun _ _ => (explains_replaceItem hv).bind fun _ _ =>
        places_one (placedIn_name hn)
  | .showMonitor _, hn | .hideMonitor _, hn => by
    rw [Stmt.blocks]
    exact (yields_visibility hn).bind fun _ hb => places_one hb

theorem MadeOfBody.places (hv : scope.vocabulary.Complete)
    (hc : ∀ t, m.comment t → t.kind = .comment) : ∀ {ss : List Stmt}, MadeOfBody m .none ss →
    m.Places (Stmt.allBlocks scope ss)
  | [], _ => fun _ hb => nomatch hb
  | _ :: _, ⟨hs, hss⟩ => by
    rw [Stmt.allBlocks]
    exact (hs.places hv hc).bind fun _ hb => (hss.places hv hc).bind fun _ hbs =>
      List.forall_mem_append.mpr ⟨hb, hbs⟩

theorem MadeOfBranches.explains_chain (hv : scope.vocabulary.Complete)
    (hc : ∀ t, m.comment t → t.kind = .comment)
    {otherwise : Except Diagnostic (Option (List Block))} (ho : m.Explains otherwise) :
    ∀ {bs : List (Expr × List Stmt)}, MadeOfBranches m .none bs →
    m.Explains (Stmt.chain scope otherwise bs)
  | [], _ => ho
  | (_, _) :: _, ⟨⟨he, hb⟩, hbs⟩ => by
    rw [Stmt.chain]
    exact (he.explains_input hv).bind fun _ _ => (hb.places hv hc).bind fun _ hb =>
      (explains_stacked hb).bind fun _ _ => (hbs.explains_chain hv hc ho).bind fun _ _ => trivial

end

theorem MadeOfBody.explains_stack (hv : scope.vocabulary.Complete)
    (hc : ∀ t, m.comment t → t.kind = .comment) {body : List Stmt} (h : MadeOfBody m .none body) :
    m.Explains (Stmt.stack scope body) :=
  (h.places hv hc).bind fun _ hb => explains_stacked hb

end Stmt

theorem Event.MadeOf.explains_hat (hv : scope.vocabulary.Complete) {event : Event}
    {body : List Block} (h : event.MadeOf m .none) : m.Explains (event.hat scope body) := by
  cases event
  case message | key | backdrop => exact (explains_literal h.2).bind fun _ _ => trivial
  case loudness | timer =>
    have h : Expr.MadeOf m .none _ := h
    exact (h.explains_input hv).bind fun _ _ => trivial
  all_goals exact trivial

namespace Sprite

variable {vocabulary : Vocabulary} {symbols : Symbols} {d : Decl} {tree : SpriteTree}
  {title : String}

-- The functions of the tree are known.
theorem explains_script? (hv : vocabulary.Complete) (hc : ∀ t, m.comment t → t.kind = .comment)
    (hf : ∀ f ∈ d.function?, f.name.text ∈ symbols.functions) (hd : d.RunsOn m .none) :
    m.Explains (script? vocabulary symbols d) := by
  cases d
  case function n params body warp =>
    have ⟨hn, hb⟩ := hd
    have hk := Std.TreeMap.mem_iff_isSome_getElem?.mp (hf _ rfl)
    simp only [script?]
    split
    case h_1 hk' => simp [hk'] at hk
    case h_2 f _ =>
      exact (Stmt.MadeOfBody.explains_stack hv hc hb).bind fun _ _ => trivial
  case event =>
    have ⟨_, he, hb⟩ := hd
    exact (Stmt.MadeOfBody.explains_stack hv hc hb).bind fun _ _ =>
      (he.explains_hat hv).bind fun _ _ => trivial
  all_goals exact trivial

theorem explains_ofTree (hv : vocabulary.Complete) (hc : ∀ t, m.comment t → t.kind = .comment)
    (hf : ∀ f ∈ tree.functions, f.name.text ∈ symbols.functions)
    (ht : ∀ d ∈ tree, d.RunsOn m .none) : m.Explains (ofTree vocabulary title symbols tree) := by
  have hs : m.Explains (tree.mapM (script? vocabulary symbols)) :=
    (Yields.mapM (R := fun _ => True) fun d hd => explains_script? hv hc
      (fun f hf' => hf f (List.mem_filterMap.mpr ⟨d, hd, hf'⟩)) (ht d hd)).mono
        (fun _ _ => trivial) fun _ he => he
  exact hs.bind fun _ _ => trivial

end Sprite

end BlockLang
