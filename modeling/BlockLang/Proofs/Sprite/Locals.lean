import BlockLang.Proofs.Sprite.Forever
import BlockLang.Proofs.Sprite.Rename
import BlockLang.Proofs.Symbols.Functions
import BlockLang.Proofs.Symbols.Rename

/-!
Local variables can have any other names: they hide what has the same name in all of their function,
and nowhere else.
-/

namespace BlockLang

section Mentions

variable {m : Material} {calls : CallKinds} {enter : Mention.Enter} {scope : Scope} {n : Name}

mutual

-- What a body without macro calls mentions is named in it.
theorem Stmt.mem_names_of_mention : ∀ {s : Stmt}, s.MadeOf m .none →
    ∀ a ∈ Mention.ofStmt enter s, a.name.text ∈ s.names
  | .declareLocal _ _, _ | .assign _ _, _ | .listSet _ _, _ =>
    List.forall_mem_singleton.mpr List.mem_cons_self
  | .macroCall _ _, ⟨h, _⟩ => h.elim
  | .branch _ _ none, ⟨_, _, hb⟩ => Stmt.mem_names_of_branches hb
  | .branch _ _ (some _), ⟨_, _, hb, ho⟩ => List.forall_mem_append.mpr
    ⟨fun a ha => List.mem_append_left _ (Stmt.mem_names_of_branches hb a ha),
      fun a ha => List.mem_append_right _ (Stmt.mem_names_of_body ho a ha)⟩
  | .loopUntil _ _ _, ⟨_, _, hb⟩ | .loopTimes _ _ _, ⟨_, _, hb⟩ =>
    fun a ha => List.mem_append_right _ (Stmt.mem_names_of_body hb a ha)
  | .forever _ _, ⟨_, hb⟩ => Stmt.mem_names_of_body hb
  | .call _ _ _, _ | .compound _ _ _, _ | .increment _, _ | .listAdd _ _, _ | .listDelete _ _, _
  | .listDeleteAll _, _ | .listInsert _ _ _, _ | .listReplace _ _ _ _, _ | .showMonitor _, _
  | .hideMonitor _, _ => nofun

theorem Stmt.mem_names_of_body : ∀ {ss : List Stmt}, Stmt.MadeOfBody m .none ss →
    ∀ a ∈ Mention.ofBody enter ss, a.name.text ∈ Stmt.namesAll ss
  | [], _ => nofun
  | _ :: _, ⟨hs, hss⟩ => List.forall_mem_append.mpr
    ⟨fun a ha => List.mem_append_left _ (Stmt.mem_names_of_mention hs a ha),
      fun a ha => List.mem_append_right _ (Stmt.mem_names_of_body hss a ha)⟩

theorem Stmt.mem_names_of_branches : ∀ {bs : List (Expr × List Stmt)},
    Stmt.MadeOfBranches m .none bs →
    ∀ a ∈ Mention.ofBranches enter bs, a.name.text ∈ Stmt.namesOfBranches bs
  | [], _ => nofun
  | (_, _) :: _, ⟨⟨_, hb⟩, hbs⟩ => List.forall_mem_append.mpr
    ⟨fun a ha => List.mem_append_left _ (List.mem_append_right _ (Stmt.mem_names_of_body hb a ha)),
      fun a ha => List.mem_append_right _ (Stmt.mem_names_of_branches hbs a ha)⟩

end

theorem Stmt.blocks_of_stack {s : Stmt} {ss : List Stmt} (h : ∃ bs, Stmt.stack scope ss = .ok bs)
    (hs : s ∈ ss) : ∃ bs, s.blocks scope = .ok bs :=
  have ⟨_, h⟩ := h
  have ⟨_, h, _⟩ := bind_eq_ok.mp h
  Stmt.blocks_of_mem h hs

mutual

-- What is filled as a list in a body is a list, if the body has been built.
theorem Stmt.list_of_blocks : ∀ {s : Stmt} {bs : List Block}, s.MadeOf m calls →
    s.blocks scope = .ok bs → .list n ∈ Mention.ofStmt enter s → ∃ l, scope.list n = .ok l
  | .listSet _ _, _, _, hb, hn => by
    obtain ⟨l, hl, _⟩ := bind_eq_ok.mp hb
    obtain rfl := Mention.list.inj (List.mem_singleton.mp hn)
    exact ⟨l, hl⟩
  | .macroCall _ _, _, _, hb, _ => nomatch hb
  | .branch _ branches none, _, hm, hb, hn =>
    Stmt.list_of_branches hm.2.2 (fun p hp => Stmt.stack_bodies hm hb p.2
      (List.mem_append_left _ (List.mem_map_of_mem hp))) hn
  | .branch _ branches (some body), _, hm, hb, hn => by
    cases List.mem_append.mp hn
    case inl hn =>
      exact Stmt.list_of_branches hm.2.2.1 (fun p hp => Stmt.stack_bodies hm hb p.2
        (List.mem_append_left _ (List.mem_map_of_mem hp))) hn
    case inr hn =>
      have hs := Stmt.stack_bodies hm hb body (List.mem_append_right _ (by simp))
      exact Stmt.list_of_body hm.2.2.2 (fun _ => Stmt.blocks_of_stack hs) hn
  | .loopUntil _ _ body, _, hm, hb, hn | .loopTimes _ _ body, _, hm, hb, hn => by
    have hs := Stmt.stack_bodies hm hb body (List.mem_singleton.mpr rfl)
    exact Stmt.list_of_body hm.2.2 (fun _ => Stmt.blocks_of_stack hs) hn
  | .forever _ body, _, hm, hb, hn => by
    have hs := Stmt.stack_bodies hm hb body (List.mem_singleton.mpr rfl)
    exact Stmt.list_of_body hm.2 (fun _ => Stmt.blocks_of_stack hs) hn
  | .declareLocal _ _, _, _, _, hn | .assign _ _, _, _, _, hn => by
    simp [Mention.ofStmt] at hn
  | .call _ _ _, _, _, _, hn | .compound _ _ _, _, _, _, hn | .increment _, _, _, _, hn
  | .listAdd _ _, _, _, _, hn | .listDelete _ _, _, _, _, hn | .listDeleteAll _, _, _, _, hn
  | .listInsert _ _ _, _, _, _, hn | .listReplace _ _ _ _, _, _, _, hn
  | .showMonitor _, _, _, _, hn | .hideMonitor _, _, _, _, hn => by
    contradiction

theorem Stmt.list_of_body : ∀ {ss : List Stmt}, Stmt.MadeOfBody m calls ss →
    (∀ s ∈ ss, ∃ bs, s.blocks scope = .ok bs) → .list n ∈ Mention.ofBody enter ss →
    ∃ l, scope.list n = .ok l
  | [], _, _, hn => by contradiction
  | _ :: _, ⟨hm, hms⟩, hs, hn => by
    obtain ⟨⟨_, hs⟩, hss⟩ := List.forall_mem_cons.mp hs
    cases List.mem_append.mp hn
    case inl hn => exact Stmt.list_of_blocks hm hs hn
    case inr hn => exact Stmt.list_of_body hms hss hn

theorem Stmt.list_of_branches : ∀ {branches : List (Expr × List Stmt)},
    Stmt.MadeOfBranches m calls branches →
    (∀ p ∈ branches, ∃ bs, Stmt.stack scope p.2 = .ok bs) →
    .list n ∈ Mention.ofBranches enter branches → ∃ l, scope.list n = .ok l
  | [], _, _, hn => by contradiction
  | (_, body) :: rest, ⟨⟨_, hb⟩, hbs⟩, hs, hn => by
    obtain ⟨hs, hss⟩ := List.forall_mem_cons.mp hs
    cases List.mem_append.mp hn
    case inl hn => exact Stmt.list_of_body hb (fun _ => Stmt.blocks_of_stack hs) hn
    case inr hn => exact Stmt.list_of_branches hbs hss hn

end

end Mentions

-- A tree without macro calls, as macros are expanded in a source. All names in it are words.
structure SpriteTree.Worded (m : Material) (tree : SpriteTree) : Prop where
  word : m.Names fun n => ∀ c ∈ n.toList, Scan.isWordChar c
  runs : ∀ d ∈ tree, d.RunsOn m .none
  rest : ∀ d ∈ tree, d.body? = none → d.MadeOf m .any

namespace SpriteTree.Worded

variable {source : FileSource} {root : Path} {globals : Globals} {text : String}
  {tree tree' : SpriteTree} {s : Symbols} {m : Material}

theorem of_expandMacros (ht : SpriteTree.ofSource text = .ok tree)
    (hs : Symbols.ofTree source root globals tree = .ok s)
    (he : expandMacros s tree = .ok tree') : ∃ m, tree'.Worded m := by
  obtain ⟨ts, hts, hm⟩ := madeOf_ofSource ht
  refine ⟨_, fun n hn => Token.isWordChar_of_scan hts hn rfl,
    (yields_expandMacros (Symbols.ofTree_macros hs) hm).value he, fun d hd hb => ?_⟩
  obtain ⟨d₀, hd₀, spliced, h₁, h₂⟩ := mem_of_expandMacros he hd
  cases d₀
  case function =>
    obtain ⟨_, _, h₁⟩ := bind_eq_ok.mp h₁
    obtain rfl := pure_eq_ok.mp h₁
    obtain ⟨_, _, h₂⟩ := bind_eq_ok.mp h₂
    obtain rfl := pure_eq_ok.mp h₂
    contradiction
  case event =>
    obtain ⟨_, _, h₁⟩ := bind_eq_ok.mp h₁
    obtain rfl := pure_eq_ok.mp h₁
    simp only [expandExprs, bind_eq_ok, pure_eq_ok] at h₂
    obtain ⟨_, _, _, _, rfl⟩ := h₂
    contradiction
  all_goals
    obtain rfl := Except.ok.inj h₁
    obtain rfl := Except.ok.inj h₂
    exact hm _ hd₀

theorem bare_of_token (h : tree.Worded m) {n : Name} (hn : m.token n.identifier) :
    isLocalName n.text = false :=
  isLocalName_of_isWordChar (h.word n hn)

theorem bare (h : tree.Worded m) (hs : s.MacrosOf tree) : tree.Bare s.blockMacros := by
  have hb : ∀ {n : String} {a : BlockMacro}, s.blockMacros[n]? = some a →
      Stmt.MadeOfBody m .any a.body := fun ha =>
    have ⟨_, _, hd⟩ := hs.blocks ha
    (h.rest _ hd rfl).2.2
  refine ⟨fun d hd a ha => h.bare_of_token ?_, fun d hd n hn => h.bare_of_token ?_⟩
  · have hr := h.runs d hd
    have hm := h.rest d hd
    cases d
    case function => exact Mention.token_ofBody (Mention.token_ofMacro hb) hr.2 a ha
    case event => exact Mention.token_ofBody (Mention.token_ofMacro hb) hr.2.2 a ha
    all_goals exact Decl.token_mentions hb (hm rfl) a ha
  · cases d
    case dataList | imageList => exact Decl.token_filled (h.rest _ hd rfl) hn
    all_goals contradiction

end SpriteTree.Worded

namespace Scope

variable {scope : Scope} {s : Symbols} {v : Vocabulary} {F : Function} {n : String}
  {o : Reference}

theorem lookup?_local (h : n ∈ F.locals) :
    lookup? ⟨s, v, some F⟩ n = some (.var (localName F.name.text n)) := by
  simp [lookup?, Option.filter, h]

theorem filter_locals (h : n ∉ F.locals) :
    (some F).filter (·.locals.contains n) = none := by
  simp [Option.filter, h]

-- What is not a local variable is known by the name that it is found by.
theorem eq_of_lookup? (hf : scope.function.filter (·.locals.contains n) = none)
    (h : scope.lookup? n = some o) : o = .var n ∨ o = .list n := by
  simp only [lookup?, hf] at h
  grind

end Scope

theorem localName_update {f x y n : String} (hf : isLocalName f = false)
    (hx : isLocalName x = false) : localName f (Function.update id x y n) =
      Function.update id (localName f x) (localName f y) (localName f n) := by
  by_cases hn : n = x
  case pos => simp [hn]
  case neg =>
    have hne : localName f n ≠ localName f x := mt (fun he => ((localName_eq_iff hf hx).mp he).2) hn
    rw [Function.update_of_ne hn, Function.update_of_ne hne]
    rfl

namespace Function

variable {f x y n : String} {F : Function}

theorem name_renameLocal : (F.renameLocal f x y).name = F.name := by
  unfold renameLocal
  split <;> rfl

theorem head_renameLocal : (F.renameLocal f x y).head = F.head := by
  unfold renameLocal
  split <;> rfl

theorem mem_locals_renameLocal (hF : F.name.text = f) (hx : x ∈ F.locals) (hn : n ≠ y) :
    Function.update id x y n ∈ (F.renameLocal f x y).locals ↔ n ∈ F.locals := by
  rw [renameLocal, if_pos hF, List.mem_map]
  refine ⟨fun h => ?_, fun h => ⟨n, h, rfl⟩⟩
  obtain ⟨k, hk, he⟩ := h
  by_cases hk' : k = y
  case neg => exact update_injOn hk' hn he ▸ hk
  case pos =>
    by_cases hnx : n = x
    case pos => exact hnx ▸ hx
    case neg =>
      rw [Function.update_of_ne hnx, hk'] at he
      simp only [Function.update_apply, id] at he
      split_ifs at he <;> exact absurd he.symm hn

end Function

namespace Symbols.RenamedLocal

variable {s s' : Symbols} {f x y n : String} {F : Function} {v : Vocabulary}
  {function function' : Option Function}

theorem functions_head (h : s.RenamedLocal f x y s') (n : String) :
    (s'.functions[n]?).map Function.head = (s.functions[n]?).map Function.head := by
  rw [h.functions, Option.map_map]
  exact congrArg (s.functions[n]?).map (funext fun _ => Function.head_renameLocal)

-- All but local variables are found as before, under names without colons.
theorem lookup?_shared (h : s.RenamedLocal f x y s') (hn : isLocalName n = false)
    (hf : function.filter (·.locals.contains n) = none)
    (hf' : function'.filter (·.locals.contains n) = none) :
    Scope.lookup? ⟨s', v, function'⟩ n = Scope.lookup? ⟨s, v, function⟩ n := by
  simp only [Scope.lookup?, hf, hf', h.contains_vars hn, h.lists, h.globals]

theorem lookup?_eq (h : s.RenamedLocal f x y s') (hn : isLocalName n = false) :
    Scope.lookup? ⟨s', v, function⟩ n = Scope.lookup? ⟨s, v, function⟩ n := by
  cases hf : function.filter (·.locals.contains n)
  case none => exact h.lookup?_shared hn hf hf
  case some => simp only [Scope.lookup?, hf]

-- Nothing else has another name where `f` is not defined.
theorem renames_id (h : s.RenamedLocal f x y s') :
    Scope.Renames (fun n => isLocalName n = false) id id ⟨s, v, function⟩ ⟨s', v, function⟩ where
  vocabulary := rfl
  functions := h.functions_head
  function := rfl
  resolved {n o} hn ho := by
    have ho : Scope.lookup? ⟨s', v, function⟩ n = some o := (h.lookup?_eq hn).trans ho
    cases o <;> exact ho
  own _ _ := rfl

theorem renames (h : s.RenamedLocal f x y s') (hF : F.name.text = f) (hx : x ∈ F.locals)
    (hb : isLocalName f = false ∧ isLocalName x = false) :
    Scope.Renames (fun n => isLocalName n = false ∧ n ≠ y) (Function.update id x y)
      (Function.update id (localName f x) (localName f y))
      ⟨s, v, some F⟩ ⟨s', v, some (F.renameLocal f x y)⟩ where
  vocabulary := rfl
  functions := h.functions_head
  function := congrArg some Function.head_renameLocal
  resolved {n o} hn ho := by
    have hl := Function.mem_locals_renameLocal hF hx hn.2
    by_cases hn' : n ∈ F.locals
    case pos =>
      rw [Scope.lookup?_local hn'] at ho
      obtain rfl := Option.some.inj ho
      rw [Scope.lookup?_local (hl.mpr hn'), Function.name_renameLocal, hF,
        localName_update hb.1 hb.2]
      rfl
    case neg =>
      have hnx : n ≠ x := by rintro rfl; contradiction
      have hr : Function.update id x y n = n := Function.update_of_ne hnx ..
      have hf : (some F).filter (·.locals.contains n) = none := Scope.filter_locals hn'
      rw [hr] at hl ⊢
      rw [h.lookup?_shared hn.1 hf (Scope.filter_locals (mt hl.mp hn')), ho]
      have hq : Function.update id (localName f x) (localName f y) n = n :=
        Function.update_of_ne (ne_localName hn.1) ..
      obtain rfl | rfl := Scope.eq_of_lookup? hf ho
      · rw [Reference.renameVar, hq]
      · rfl
  own {g n} hg hn := by
    obtain rfl := Option.some.inj hg
    rw [hF]
    exact localName_update hb.1 hb.2

end Symbols.RenamedLocal

section Hats

variable {P : String → Prop} {scope scope' : Scope} {event : Event} {b : Block} {bs : List Block}
  {span : Span}

theorem Event.hat_renames (h : scope.Renames P id id scope') (hn : ∀ n ∈ event.names, P n)
    (hb : event.hat scope bs = .ok b) : event.hat scope' bs = .ok b := by
  cases event
  case loudness e | timer e =>
    obtain ⟨i, he, hb⟩ := bind_eq_ok.mp hb
    have hi := Expr.input_rename h hn he
    rw [Expr.rename_id, Input.renameVars_id] at hi
    exact bind_eq_ok.mpr ⟨i, hi, hb⟩
  all_goals exact hb

theorem Block.definition?_eq_none (h : b.opcode ≠ "procedures_definition") :
    b.definition? = none := by
  unfold definition?
  split
  case h_1 ho _ => exact absurd ho h
  case h_2 => rfl

theorem Event.definition?_hat (hb : event.hat scope bs = .ok b) :
    (b.writtenAt span).definition? = none := by
  refine Block.definition?_eq_none ?_
  cases event
  case flag | click | clone =>
    obtain rfl := pure_eq_ok.mp hb
    simp [Block.writtenAt, Block.hat, Block.ofKind]
  all_goals
    obtain ⟨_, _, hb⟩ := bind_eq_ok.mp hb
    obtain rfl := pure_eq_ok.mp hb
    simp [Block.writtenAt, Event.hat.exceeds, Block.hat, Block.ofKind, Block.withField,
      Block.withInput]

theorem Stmt.stack_renames_id (h : scope.Renames P id id scope') {ss : List Stmt}
    (hn : ∀ n ∈ Stmt.namesAll ss, P n) (hb : Stmt.stack scope ss = .ok bs) :
    Stmt.stack scope' ss = .ok bs := by
  have hs := Stmt.stack_rename h hn hb
  rwa [Stmt.renameBody_id, (funext Block.renameVars_id : Block.renameVars id = id), List.map_id]
    at hs

end Hats

-- The local variable `x` of a function has the name `y` in the blocks of its definition.
def Block.renameLocal (f : Function) (x y : String) (b : Block) : Block :=
  if b.definition?.map (·.1) = some f.code then
    b.renameVars (Function.update id (localName f.name.text x) (localName f.name.text y))
  else b

namespace Block

variable {f : Function} {x y code : String} {b : Block} {bs : List Block} {span : Span}
  {warp : Bool} {params : List String}

theorem renameLocal_eq_self (h : b.definition?.map (·.1) ≠ some f.code) :
    b.renameLocal f x y = b :=
  if_neg h

theorem renameLocal_definition : ((definition f.code warp params bs).writtenAt span).renameLocal
    f x y = (definition f.code warp params (bs.map (renameVars
      (Function.update id (localName f.name.text x) (localName f.name.text y))))).writtenAt
        span := by
  rw [renameLocal, definition?_definition, Option.map_some, if_pos rfl, renameVars_writtenAt,
    renameVars_definition]

end Block

-- A sprite, and what it is once the local variable `x` of a function is named `y`.
structure Sprite.RenamedLocal (f : Function) (x y : String) (sprite sprite' : Sprite) : Prop where
  name     : sprite'.name = sprite.name
  vars     : Variable.Renamed (localName f.name.text x) (localName f.name.text y)
    sprite.vars sprite'.vars
  lists    : sprite'.lists = sprite.lists
  blocks   : sprite'.blocks = sprite.blocks.map (Block.renameLocal f x y)
  costumes : sprite'.costumes = sprite.costumes
  comment  : sprite'.comment = sprite.comment

namespace Sprite

variable {source : FileSource} {root : Path} {globals : Globals} {tree : SpriteTree} {m : Material}
  {vocabulary : Vocabulary} {s s' : Symbols} {f x y title : String} {F : Function} {d : Decl}
  {o : Option Block} {sprite : Sprite}

-- Functions with local variables are declared in the tree.
theorem exists_decl (hs : Symbols.ofTree source root globals tree = .ok s)
    (hF : s.functions[f]? = some F) (hx : x ∈ F.locals) :
    F.name.text = f ∧ ∃ params body warp, .function F.name params body warp ∈ tree := by
  refine ⟨(Symbols.ofTree_proper hs f F hF).1, ?_⟩
  cases Symbols.ofTree_functionsOf hs f F hF
  case inl hp =>
    simp [Symbols.locals_of_predefined F hp] at hx
  case inr hd =>
    obtain ⟨d, hd, he⟩ := List.mem_filterMap.mp hd
    cases d
    case function name params body warp =>
      obtain rfl : name = F.name := congrArg Function.name (Option.some.inj he)
      exact ⟨params, body, warp, hd⟩
    all_goals contradiction

theorem function_script? {name : Name} {params : List Name} {body : List Stmt} {warp : Bool}
    (hF : s.functions[name.text]? = some F)
    (ho : script? vocabulary s (.function name params body warp) = .ok o) :
    ∃ bs, Stmt.stack ⟨s, vocabulary, some F⟩ body = .ok bs ∧
      o = some ((Block.definition F.code F.warp (params.map (·.text)) bs).writtenAt name.span) := by
  simp only [script?, hF] at ho
  obtain ⟨bs, hb, ho⟩ := bind_eq_ok.mp ho
  exact ⟨bs, hb, (pure_eq_ok.mp ho).symm⟩

-- The body of a function fills no list under the name of a local variable.
theorem allow_body (hw : tree.Worded m) (hs : Symbols.ofTree source root globals tree = .ok s)
    (hb : ofTree vocabulary title s tree = .ok sprite) (hF : s.functions[f]? = some F)
    (hx : x ∈ F.locals) (hn : ∀ d ∈ tree, y ∉ d.names) {name : Name} {params : List Name}
    {body : List Stmt} {warp : Bool} (hd : .function name params body warp ∈ tree)
    (hf : name.text = f) : Mention.Allow x y (Mention.all s.blockMacros body) := by
  subst hf
  have hm := (hw.runs _ hd).2
  have hF' := (Symbols.ofTree_function hs hd).2
  have hl : F.locals = Mention.locals (Mention.all s.blockMacros body) :=
    congrArg Function.locals (Option.some.inj (hF.symm.trans hF'))
  refine ⟨hl ▸ hx, fun a ha he => hn _ hd ?_, fun n ha he => ?_⟩
  · exact List.mem_cons_of_mem _ (he ▸ Stmt.mem_names_of_body hm a ha)
  · obtain ⟨o, ho⟩ := script?_of_ofTree hb hd
    obtain ⟨bs, hk, _⟩ := function_script? hF ho
    obtain ⟨l, hr⟩ := Stmt.list_of_body hm (fun _ => Stmt.blocks_of_stack ⟨bs, hk⟩) ha
    have hr := Scope.resolve_of_list hr
    simp only [Scope.resolve, he, Scope.lookup?_local hx] at hr
    simp at hr

theorem allowsLocal (hw : tree.Worded m) (hs : Symbols.ofTree source root globals tree = .ok s)
    (hb : ofTree vocabulary title s tree = .ok sprite) (hF : s.functions[f]? = some F)
    (hx : x ∈ F.locals) (hy : isLocalName y = false) (hn : ∀ d ∈ tree, y ∉ d.names) :
    tree.AllowsLocal s.blockMacros f x y := by
  have hbare := hw.bare (Symbols.ofTree_macros hs)
  obtain ⟨hf, params, body, warp, hd⟩ := exists_decl hs hF hx
  have ha : ∀ {name params body warp}, .function name params body warp ∈ tree → name.text = f →
      Mention.Allow x y (Mention.all s.blockMacros body) :=
    fun hd hf => allow_body hw hs hb hF hx hn hd hf
  obtain ⟨n, hm, hnx⟩ := Symbols.mem_locals.mp (ha hd hf).own
  have hfb : isLocalName F.name.text = false := hw.bare_of_token (hw.runs _ hd).1
  have hxb : isLocalName n.text = false := hbare.mentions _ hd _ hm
  exact ⟨hbare, ⟨hf ▸ hfb, hnx ▸ hxb, hy⟩, hnx ▸ (ha hd hf).fresh _ hm, ha,
    fun hd _ => Mention.ofBody_rename (hw.runs _ hd).2⟩

theorem names_bare (hw : tree.Worded m) (hd : d ∈ tree) (hr : d.body? ≠ none) :
    ∀ n ∈ d.names, isLocalName n = false := by
  have hm := hw.runs d hd
  have hP : m.Names fun n => isLocalName n = false := fun n hn => hw.bare_of_token hn
  cases d
  case function =>
    exact List.forall_mem_cons.mpr ⟨hw.bare_of_token hm.1, (hm.2.readable hP).names⟩
  case event =>
    exact List.forall_mem_append.mpr ⟨(hm.2.1.readable hP).names, (hm.2.2.readable hP).names⟩
  all_goals contradiction

theorem spelled_of_decl (hw : tree.Worded m)
    (hs : Symbols.ofTree source root globals tree = .ok s) {name : Name} {params : List Name}
    {body : List Stmt} {warp : Bool} (hd : .function name params body warp ∈ tree)
    (hF : s.functions[name.text]? = some F) : F.Spelled := by
  rw [(Symbols.ofTree_function hs hd).2] at hF
  obtain rfl := Option.some.inj hF
  exact ⟨hw.word name (hw.runs _ hd).1, rfl⟩

-- A declaration stands for the same script, but for the name of the local variable in the
-- definition of its function.
theorem script?_renameLocal (hw : tree.Worded m)
    (hs : Symbols.ofTree source root globals tree = .ok s)
    (hr : s.RenamedLocal f x y s') (hT : tree.AllowsLocal s.blockMacros f x y)
    (hF : s.functions[f]? = some F) (hx : x ∈ F.locals) (hn : ∀ d ∈ tree, y ∉ d.names)
    (hd : d ∈ tree) (ho : script? vocabulary s d = .ok o) :
    script? vocabulary s' (d.renameLocal f x y) = .ok (o.map (Block.renameLocal F x y)) := by
  obtain ⟨hname, _, _, _, hd'⟩ := exists_decl hs hF hx
  have hspelled : F.Spelled := spelled_of_decl hw hs hd' (hname ▸ hF)
  cases d
  case function name params body warp =>
    have hb := names_bare hw hd (by simp [Decl.body?])
    obtain ⟨_, hb⟩ := List.forall_mem_cons.mp hb
    have hg := (Symbols.ofTree_function hs hd).2
    have hg' := hr.functions name.text
    rw [hg, Option.map_some] at hg'
    obtain ⟨bs, hk, rfl⟩ := function_script? hg ho
    by_cases hf : name.text = f
    case pos =>
      subst hf
      obtain rfl := Option.some.inj (hF.symm.trans hg)
      have hP : ∀ n ∈ Stmt.namesAll body, isLocalName n = false ∧ n ≠ y := fun n hm =>
        ⟨hb n hm, fun he => hn _ hd (he ▸ List.mem_cons_of_mem _ hm)⟩
      have hk' := Stmt.stack_rename (hr.renames rfl hx ⟨hT.bare.1, hT.bare.2.1⟩) hP hk
      simp only [Decl.renameLocal, if_pos, script?, hg', Option.map_some,
        Block.renameLocal_definition]
      refine bind_eq_ok.mpr ⟨_, hk', ?_⟩
      simp [Function.renameLocal, Function.code, pure, Except.pure]
    case neg =>
      have hself : Function.renameLocal f x y ⟨name, warp, params,
          Mention.locals (Mention.all s.blockMacros body), none⟩ = _ := if_neg hf
      have hk' := Stmt.stack_renames_id hr.renames_id hb hk
      have hc : Function.code _ ≠ F.code := fun he => hf ((spelled_of_decl hw hs hd hg).name_eq
        hspelled he |>.trans hname)
      rw [hself] at hg'
      simp only [Decl.renameLocal, if_neg hf, script?, hg', Option.map_some]
      rw [Block.renameLocal_eq_self (by simpa [Block.definition?_definition] using hc)]
      exact bind_eq_ok.mpr ⟨_, hk', rfl⟩
  case event span event body =>
    have hb := names_bare hw hd (by simp [Decl.body?])
    obtain ⟨he, hb⟩ := List.forall_mem_append.mp hb
    obtain ⟨bs, hk, ho⟩ := bind_eq_ok.mp ho
    obtain ⟨b, hh, ho⟩ := bind_eq_ok.mp ho
    obtain rfl := pure_eq_ok.mp ho
    have hk' := Stmt.stack_renames_id hr.renames_id hb hk
    have hh' := Event.hat_renames hr.renames_id he hh
    rw [Option.map_some, Block.renameLocal_eq_self (by simp [Event.definition?_hat hh])]
    exact bind_eq_ok.mpr ⟨bs, hk', bind_eq_ok.mpr ⟨b, hh', rfl⟩⟩
  all_goals
    obtain rfl := Except.ok.inj ho
    rfl

theorem ofTree_renamedLocal (hw : tree.Worded m)
    (hs : Symbols.ofTree source root globals tree = .ok s)
    (hr : s.RenamedLocal f x y s') (hT : tree.AllowsLocal s.blockMacros f x y)
    (hF : s.functions[f]? = some F) (hx : x ∈ F.locals) (hn : ∀ d ∈ tree, y ∉ d.names)
    (hb : ofTree vocabulary title s tree = .ok sprite) :
    ∃ sprite', ofTree vocabulary title s' (tree.renameLocal f x y) = .ok sprite' ∧
      sprite.RenamedLocal F x y sprite' := by
  obtain ⟨scripts, hk, hb⟩ := bind_eq_ok.mp hb
  obtain rfl := pure_eq_ok.mp hb
  have hk' : (tree.renameLocal f x y).mapM (script? vocabulary s') =
      .ok (scripts.map (Option.map (Block.renameLocal F x y))) := by
    rw [SpriteTree.renameLocal, List.mapM_map]
    exact mapM_map_results (fun d hd _ ho => script?_renameLocal hw hs hr hT hF hx hn hd ho) hk
  refine ⟨_, bind_eq_ok.mpr ⟨_, hk', rfl⟩, rfl, ?_, hr.lists, ?_, hr.costumes, hr.comment⟩
  · rw [(Symbols.ofTree_proper hs f F hF).1]
    exact hr.vars
  · rw [List.filterMap_map, List.map_filterMap]
    rfl

-- All of the function that names `x` means its local variable, and nothing else does.
structure HidesLocal (s : Symbols) (F : Function) (x : String) : Prop where
  inside  : ∀ v, Scope.lookup? ⟨s, v, some F⟩ x = some (.var (localName F.name.text x))
  outside : ∀ {v function n}, (∀ g ∈ function, g.name.text ≠ F.name.text) →
    isLocalName n = false →
    Scope.lookup? ⟨s, v, function⟩ n ≠ some (.var (localName F.name.text x))

theorem hidesLocal (hF : isLocalName F.name.text = false) (hx : isLocalName x = false)
    (hl : x ∈ F.locals) : HidesLocal s F x where
  inside _ := Scope.lookup?_local hl
  outside {v function n} hg hn ho := by
    cases hf : function.filter (·.locals.contains n)
    case none =>
      obtain he | he := Scope.eq_of_lookup? hf ho
      · exact ne_localName hn (Reference.var.inj he).symm
      · contradiction
    case some g =>
      simp only [Scope.lookup?, hf, Option.some.injEq, Reference.var.injEq] at ho
      exact hg g (Option.filter_eq_some_iff.mp hf).1 ((localName_eq_iff hF hx).mp ho).1

-- A local variable can have any name that is not in use. The sprite is the same but for this name,
-- and only the definition of the function uses it: whatever else is named as the local variable is
-- hidden in the function, and nowhere else.
theorem renameLocal_ofTree {source₀ : FileSource} {root₀ : Path} {globals₀ : Globals}
    {text : String} {tree₀ : SpriteTree} {s₀ : Symbols} (ht : SpriteTree.ofSource text = .ok tree₀)
    (hs₀ : Symbols.ofTree source₀ root₀ globals₀ tree₀ = .ok s₀)
    (he : SpriteTree.expandMacros s₀ tree₀ = .ok tree)
    (hs : Symbols.ofTree source root globals tree = .ok s)
    (hb : ofTree vocabulary title s tree = .ok sprite) (hF : s.functions[f]? = some F)
    (hx : x ∈ F.locals) (hy : isLocalName y = false) (hn : ∀ d ∈ tree, y ∉ d.names) :
    localName f x ∈ sprite.vars ∧ HidesLocal s F x ∧
      ∃ s' sprite', Symbols.ofTree source root globals (tree.renameLocal f x y) = .ok s' ∧
        ofTree vocabulary title s' (tree.renameLocal f x y) = .ok sprite' ∧
        s.RenamedLocal f x y s' ∧ sprite.RenamedLocal F x y sprite' := by
  obtain ⟨m, hw⟩ := SpriteTree.Worded.of_expandMacros ht hs₀ he
  have hT := allowsLocal hw hs hb hF hx hy hn
  obtain ⟨hname, _, hv⟩ := Symbols.ofTree_proper hs f F hF
  obtain ⟨s', hs', hr⟩ := Symbols.ofTree_renameLocal hs hT
  obtain ⟨sprite', hb', hr'⟩ := ofTree_renamedLocal hw hs hr hT hF hx hn hb
  have hvars : sprite.vars = s.vars := by
    obtain ⟨_, _, hb⟩ := bind_eq_ok.mp hb
    obtain rfl := pure_eq_ok.mp hb
    rfl
  have hl : HidesLocal s F x := hidesLocal (hname ▸ hT.bare.1) hT.bare.2.1 hx
  exact ⟨hvars ▸ hv x hx, hl, s', sprite', hs', hb', hr, hr'⟩

-- The local variable `x` of a function, which hides a variable that all sprites share. A macro
-- names it as well.
def hidingSource : String :=
  "macro STEP n \x7b x += n!; \x7d\n" ++
  "def f \x7b local x = 1; STEP!(2); say x; \x7d\n" ++
  "onflag \x7b say x; f; \x7d\n"

theorem renameLocal_ofTree_hidingSource : ∃ tree₀ s₀ tree s sprite F,
    SpriteTree.ofSource hidingSource = .ok tree₀ ∧
    Symbols.ofTree MemoryTree.empty.source ⟨"p"⟩ ⟨["x"], []⟩ tree₀ = .ok s₀ ∧
    SpriteTree.expandMacros s₀ tree₀ = .ok tree ∧
    Symbols.ofTree MemoryTree.empty.source ⟨"p"⟩ ⟨["x"], []⟩ tree = .ok s ∧
    ofTree .builtin "cat" s tree = .ok sprite ∧ s.functions["f"]? = some F ∧ "x" ∈ F.locals ∧
    localName "f" "x" ∈ sprite.vars ∧ HidesLocal s F "x" ∧
      ∃ s' sprite', Symbols.ofTree MemoryTree.empty.source ⟨"p"⟩ ⟨["x"], []⟩
          (tree.renameLocal "f" "x" "y") = .ok s' ∧
        ofTree .builtin "cat" s' (tree.renameLocal "f" "x" "y") = .ok sprite' ∧
        s.RenamedLocal "f" "x" "y" s' ∧ sprite.RenamedLocal F "x" "y" sprite' := by
  have h : (do
      let tree₀ ← SpriteTree.ofSource hidingSource
      let s₀ ← Symbols.ofTree MemoryTree.empty.source ⟨"p"⟩ ⟨["x"], []⟩ tree₀
      let tree ← SpriteTree.expandMacros s₀ tree₀
      let s ← Symbols.ofTree MemoryTree.empty.source ⟨"p"⟩ ⟨["x"], []⟩ tree
      let _ ← ofTree .builtin "cat" s tree
      return (s.functions["f"]?.any fun F => F.locals.contains "x") &&
        tree.all fun d => !d.names.contains "y") = (.ok true : Except Diagnostic _) := by
    decide +kernel
  simp only [bind_eq_ok, pure_eq_ok, Bool.and_eq_true] at h
  obtain ⟨tree₀, ht, s₀, hs₀, tree, he, s, hs, sprite, hb, hf, hn⟩ := h
  obtain ⟨F, hF, hx⟩ := (Option.any_eq_true ..).mp hf
  have hn : ∀ d ∈ tree, "y" ∉ d.names := by simpa using hn
  have hx : "x" ∈ F.locals := by simpa using hx
  exact ⟨tree₀, s₀, tree, s, sprite, F, ht, hs₀, he, hs, hb, hF, hx,
    renameLocal_ofTree ht hs₀ he hs hb hF hx (by decide) hn⟩

end Sprite

end BlockLang
