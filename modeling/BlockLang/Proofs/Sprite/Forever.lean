import BlockLang.Files.Memory
import BlockLang.Proofs.Macro.Blame
import BlockLang.Proofs.Sprite.Basic
import BlockLang.Proofs.Tree.Parser.Decl

/-!
A block that runs forever closes its stack: nothing can follow it in any stack of a sprite.
-/

namespace BlockLang

variable {b : Block} {bs : List Block} {scope : Scope}

theorem Reference.closed_input {r : Reference} : r.input.Closed := by
  cases r <;> simp [input, Input.Closed, Input.allStacks]

theorem Scope.keeps_closed : scope.Keeps (fun _ => True) Input.Closed where
  literal := Input.closed_literal
  reference _ _ := Reference.closed_input
  param _ _ := by simp
  operator _ hl hr := Input.hereditary_closed.ofPrototype trivial (by simp [hl, hr])
  call _ _ ha := by simpa using Input.hereditary_closed.ofPrototype trivial ha
  negate hi := Input.hereditary_closed.negate hi
  not hi := Input.hereditary_closed.not hi
  ofTruth hi := Input.hereditary_closed.ofTruth hi
  logical hl hr := Input.hereditary_closed.logical hl hr
  lengthOf _ := Input.hereditary_closed.lengthOf
  itemOf _ hi := by simp [Block.ofList, hi]
  placeOf _ hi := by simp [Block.ofList, hi]
  contains _ hi := by simp [Block.listContains, hi]
  sensed := by simp [Block.sensed]

theorem Scope.builds_closed : scope.Builds (fun _ => True) Input.Closed Block.Closed where
  toKeeps := keeps_closed
  procedure _ _ _ hi := Block.closed_iff.mpr
    ⟨fun i hm => hi _ (List.of_mem_zip hm).2, by simp [Block.call, BlockKind.allStacks]⟩
  statement _ hi := Input.closed_block.mp (Input.hereditary_closed.ofPrototype trivial hi)
  set _ hi := by simp [Block.setVariable, hi]
  change _ hi := by simp [Block.changeVariable, hi]
  monitor _ _ := by simp
  listed _ _ := by simp [Block.ofList]
  emptied _ := by simp [Block.ofList]
  added _ hi := by simp [Block.addItem, Block.ofList, hi]
  deleted _ hi := by simp [Block.ofList, hi]
  inserted _ hi hj := by simp [Block.ofList, hi, hj]
  replaced _ hi hj := by simp [Block.ofList, hi, hj]
  choice hc hk hs ho := by
    have hc := Input.closed_block.mp hc
    cases ‹Option _› <;> simp_all [Block.choice]
  loopUntil hc hk hs := by simp_all
  loopTimes hi hk hs := by simp_all
  forever hk hs := by simp_all
  writtenAt hb := Block.closed_writtenAt.mpr hb
  commented hb := Block.closed_setComment.mpr hb

theorem Stmt.closed_stack {body : List Stmt} (h : Stmt.stack scope body = .ok bs) :
    Block.Closes bs ∧ ∀ b ∈ bs, b.Closed := by
  have ⟨_, hs, hk⟩ := bind_eq_ok.mp h
  obtain ⟨rfl, hk⟩ := Block.stacked_eq_ok_iff.mp hk
  -- Whatever the macros mention, a variable holds no stack.
  have hl : scope.Binds (fun _ => True) (Ref.Reads Input.Closed)
      (Mention.ofBody (fun _ => []) body) := fun _ _ _ _ _ => Input.closed_var
  exact ⟨hk, Stmt.builds_allBlocks Scope.builds_closed (fun _ _ => trivial) hs hl⟩

theorem Block.closed_definition {code : String} {warp : Bool} {params : List String}
    (hk : Closes bs) (hb : ∀ b ∈ bs, b.Closed) : (definition code warp params bs).Closed := by
  refine closed_withInput.mpr ⟨closed_hat.mpr ⟨hk, hb⟩, Input.closed_block.mpr ?_⟩
  simp [closed_iff (b := Block.mk ..), ofKind, BlockKind.allStacks]

theorem Event.closed_hat {event : Event} (hk : Block.Closes bs) (hs : ∀ b ∈ bs, b.Closed)
    (hb : event.hat scope bs = .ok b) : b.Closed := by
  cases event
  case flag | click | clone =>
    obtain rfl := pure_eq_ok.mp hb
    exact Block.closed_hat.mpr ⟨hk, hs⟩
  case message | key | backdrop =>
    obtain ⟨_, _, hb⟩ := bind_eq_ok.mp hb
    obtain rfl := pure_eq_ok.mp hb
    exact Block.closed_withField.mpr (Block.closed_hat.mpr ⟨hk, hs⟩)
  case loudness | timer =>
    obtain ⟨_, he, hb⟩ := bind_eq_ok.mp hb
    obtain rfl := pure_eq_ok.mp hb
    have he := Expr.keeps_input Scope.keeps_closed (fun _ _ => trivial) he
    exact Block.closed_withField.mpr
      (Block.closed_withInput.mpr ⟨Block.closed_hat.mpr ⟨hk, hs⟩, he⟩)

namespace Sprite

variable {vocabulary : Vocabulary} {symbols : Symbols} {d : Decl} {tree : SpriteTree}
  {title : String} {sprite : Sprite}

theorem closed_script (h : Script vocabulary symbols d b) : b.Closed := by
  cases h
  case function hf hb =>
    have ⟨hk, hs⟩ := Stmt.closed_stack hb
    exact Block.closed_writtenAt.mpr (Block.closed_definition hk hs)
  case event hb he =>
    have ⟨hk, hs⟩ := Stmt.closed_stack hb
    exact Block.closed_writtenAt.mpr (Event.closed_hat hk hs he)

theorem closed_ofTree (h : ofTree vocabulary title symbols tree = .ok sprite) :
    ∀ b ∈ sprite.blocks, b.Closed := by
  obtain ⟨scripts, hs, h⟩ := bind_eq_ok.mp h
  obtain rfl := pure_eq_ok.mp h
  intro b hb
  obtain ⟨_, hb, rfl⟩ := List.mem_filterMap.mp hb
  have ⟨d, _, hd⟩ := mem_of_forall₂ (forall₂_of_mapM hs) hb
  exact closed_script (script_of_script? hd)

end Sprite

namespace Stmt

-- The lists of statements directly in a statement.
def bodies : Stmt → List (List Stmt)
  | .branch _ branches otherwise => branches.map (·.2) ++ otherwise.toList
  | .loopUntil _ _ body | .loopTimes _ _ body | .forever _ body => [body]
  | _ => []

-- In a list of statements, or in one within it, something follows a statement that runs forever.
inductive Misplaces : List Stmt → Prop
  | here {before s body after} (follows : after ≠ []) :
      Misplaces (before ++ .forever s body :: after)
  | within {ss s body} (statement : s ∈ ss) (list : body ∈ s.bodies) (rest : Misplaces body) :
      Misplaces ss

def isForever : Stmt → Bool
  | .forever _ _ => true
  | _ => false

variable {s : Stmt} {ss ss' body : List Stmt} {m : Material} {calls : CallKinds}

theorem misplaces_of_dropLast (hs : s ∈ ss.dropLast) (hf : s.isForever) : Misplaces ss := by
  cases s
  case forever span body =>
    obtain ⟨before, after, he⟩ := List.append_of_mem hs
    have hn : ss ≠ [] := by rintro rfl; contradiction
    rw [← List.dropLast_append_getLast hn, he, List.append_assoc]
    exact .here (List.append_ne_nil_of_right_ne_nil after (List.cons_ne_nil _ _))
  all_goals contradiction

-- A chain is a single block, unless it is left out.
theorem chain_eq_ok {otherwise : Except Diagnostic (Option (List Block))}
    {branches : List (Expr × List Stmt)} {o : Option (List Block)}
    (h : chain scope otherwise branches = .ok o) :
    (∀ p ∈ branches, ∃ bs, stack scope p.2 = .ok bs) ∧ (∃ other, otherwise = .ok other) ∧
      (branches ≠ [] → ∃ b, o = some [b]) := by
  induction branches generalizing o
  case nil => exact ⟨nofun, ⟨o, h⟩, nofun⟩
  case cons p rest hi =>
    simp only [chain, bind_eq_ok, pure_eq_ok] at h
    obtain ⟨_, _, _, hs, bs, hk, _, hr, rfl⟩ := h
    obtain ⟨hb, ho, _⟩ := hi hr
    exact ⟨List.forall_mem_cons.mpr ⟨⟨bs, bind_eq_ok.mpr ⟨_, hs, hk⟩⟩, hb⟩, ho, fun _ => ⟨_, rfl⟩⟩

theorem branch_eq_ok {span : Span} {branches : List (Expr × List Stmt)}
    {otherwise : Option (List Stmt)} (hn : branches ≠ [])
    (h : (Stmt.branch span branches otherwise).blocks scope = .ok bs) : bs ≠ [] ∧
      (∀ p ∈ branches, ∃ bs, stack scope p.2 = .ok bs) ∧
      ∀ body ∈ otherwise, ∃ bs, stack scope body = .ok bs := by
  obtain ⟨p, rest, rfl⟩ := List.exists_cons_of_ne_nil hn
  cases otherwise
  case none =>
    simp only [blocks, bind_eq_ok, pure_eq_ok] at h
    obtain ⟨o, ho, rfl⟩ := h
    obtain ⟨hb, _, hc⟩ := chain_eq_ok ho
    obtain ⟨b, rfl⟩ := hc hn
    exact ⟨by simp, hb, by simp⟩
  case some body =>
    simp only [blocks, bind_eq_ok, pure_eq_ok] at h
    obtain ⟨o, ho, rfl⟩ := h
    obtain ⟨hb, ⟨_, hw⟩, hc⟩ := chain_eq_ok ho
    obtain ⟨b, rfl⟩ := hc hn
    simp only [bind_eq_ok] at hw
    obtain ⟨_, hs, bs, hk, _⟩ := hw
    exact ⟨by simp, hb, by simpa using ⟨bs, bind_eq_ok.mpr ⟨_, hs, hk⟩⟩⟩

theorem blocks_ne_nil (hm : s.MadeOf m calls) (h : s.blocks scope = .ok bs) : bs ≠ [] := by
  cases s
  case branch s branches otherwise =>
    have hn : branches ≠ [] := by cases otherwise <;> exact hm.2.1
    exact (branch_eq_ok hn h).1
  case macroCall => contradiction
  all_goals
    simp only [blocks, bind_eq_ok, pure_eq_ok] at h
    grind [Scope.fill]

theorem stack_bodies (hm : s.MadeOf m calls) (h : s.blocks scope = .ok bs) :
    ∀ body ∈ s.bodies, ∃ bs, stack scope body = .ok bs := by
  cases s
  case branch s branches otherwise =>
    have hn : branches ≠ [] := by cases otherwise <;> exact hm.2.1
    obtain ⟨_, hb, ho⟩ := branch_eq_ok hn h
    exact List.forall_mem_append.mpr ⟨List.forall_mem_map.mpr hb, by simpa using ho⟩
  case loopUntil | loopTimes | forever =>
    simp only [blocks, bind_eq_ok] at h
    simp only [bodies, List.forall_mem_singleton, stack, bind_eq_ok]
    grind
  all_goals simp [bodies]

theorem forever_eq_ok {span : Span} (h : (Stmt.forever span body).blocks scope = .ok bs) :
    ∃ b, bs = [b] ∧ b.isForever := by
  simp only [blocks, bind_eq_ok, pure_eq_ok] at h
  obtain ⟨_, _, _, _, rfl⟩ := h
  exact ⟨_, rfl, rfl⟩

theorem allBlocks_append : allBlocks scope (ss ++ ss') = .ok bs ↔
    ∃ bs₁ bs₂, allBlocks scope ss = .ok bs₁ ∧ allBlocks scope ss' = .ok bs₂ ∧ bs = bs₁ ++ bs₂ := by
  induction ss generalizing bs
  case nil => simp [allBlocks]
  case cons s ss hi =>
    simp only [List.cons_append, allBlocks, bind_eq_ok, pure_eq_ok, hi]
    grind

theorem MadeOfBody.of_mem (h : MadeOfBody m calls ss) : ∀ s ∈ ss, s.MadeOf m calls := by
  induction ss
  case nil => exact nofun
  case cons hi => exact List.forall_mem_cons.mpr ⟨h.1, hi h.2⟩

theorem MadeOfBranches.of_mem {branches : List (Expr × List Stmt)}
    (h : MadeOfBranches m calls branches) : ∀ p ∈ branches, MadeOfBody m calls p.2 := by
  induction branches
  case nil => exact nofun
  case cons hi => exact List.forall_mem_cons.mpr ⟨h.1.2, hi h.2⟩

theorem MadeOf.bodies (h : s.MadeOf m calls) : ∀ body ∈ s.bodies, MadeOfBody m calls body := by
  cases s
  case branch s branches otherwise =>
    cases otherwise
    case none =>
      have hb := MadeOfBranches.of_mem h.2.2
      exact List.forall_mem_append.mpr ⟨List.forall_mem_map.mpr hb, nofun⟩
    case some =>
      have hb := MadeOfBranches.of_mem h.2.2.1
      exact List.forall_mem_append.mpr ⟨List.forall_mem_map.mpr hb, by simpa using h.2.2.2⟩
  case loopUntil | loopTimes => exact List.forall_mem_singleton.mpr h.2.2
  case forever => exact List.forall_mem_singleton.mpr h.2
  all_goals nofun

theorem blocks_of_mem (h : allBlocks scope ss = .ok bs) (hs : s ∈ ss) :
    ∃ bs, s.blocks scope = .ok bs := by
  obtain ⟨before, after, rfl⟩ := List.append_of_mem hs
  obtain ⟨_, _, _, h, _⟩ := allBlocks_append.mp h
  simp only [allBlocks, bind_eq_ok] at h
  obtain ⟨bs, hs, _⟩ := h
  exact ⟨bs, hs⟩

-- Nothing follows what runs forever in statements that have been built. All lists within them are
-- built as well, and what follows would stand for further blocks.
theorem not_misplaces (hm : MadeOfBody m calls ss) (h : stack scope ss = .ok bs) :
    ¬Misplaces ss := by
  intro hw
  induction hw generalizing bs
  case here before span body after hn =>
    obtain ⟨_, hs, hk⟩ := bind_eq_ok.mp h
    obtain ⟨_, hk⟩ := Block.stacked_eq_ok_iff.mp hk
    obtain ⟨s, rest, rfl⟩ := List.exists_cons_of_ne_nil hn
    obtain ⟨bs₁, _, _, hs, he⟩ := allBlocks_append.mp hs
    simp only [allBlocks, bind_eq_ok, pure_eq_ok] at hs
    obtain ⟨_, hf, _, ⟨bs₂, hb, bs₃, _, ha⟩, hs⟩ := hs
    obtain ⟨b, rfl, hb'⟩ := forever_eq_ok hf
    have hn : bs₂ ++ bs₃ = [] := hk bs₁ b _ (by simp [he, ← hs, ← ha]) hb'
    exact blocks_ne_nil (hm.of_mem s (by simp)) hb (List.append_eq_nil_iff.mp hn).1
  case within ss s body hs hb _ hi =>
    obtain ⟨_, ha, _⟩ := bind_eq_ok.mp h
    obtain ⟨_, ha⟩ := blocks_of_mem ha hs
    have hm := hm.of_mem s hs
    obtain ⟨_, hb'⟩ := stack_bodies hm ha body hb
    exact hi (hm.bodies body hb) hb'

end Stmt

-- The statements of a function or of an event.
def Decl.body? : Decl → Option (List Stmt)
  | .function _ _ body _ | .event _ _ body => some body
  | _ => none

theorem Decl.RunsOn.body {d : Decl} {m : Material} {calls : CallKinds} {body : List Stmt}
    (h : d.RunsOn m calls) (hb : d.body? = some body) : Stmt.MadeOfBody m calls body := by
  cases d
  case function => exact Option.some.inj hb ▸ h.2
  case event => exact Option.some.inj hb ▸ h.2.2
  all_goals contradiction

namespace Sprite

variable {source : FileSource} {root : Path} {globals : Globals} {name text : String}
  {vocabulary : Vocabulary} {symbols : Symbols} {d : Decl} {tree tree' : SpriteTree}
  {m : Material} {calls : CallKinds}

theorem stack_of_script? {o : Option Block} {body : List Stmt}
    (h : script? vocabulary symbols d = .ok o) (hb : d.body? = some body) :
    ∃ scope bs, Stmt.stack scope body = .ok bs := by
  cases d
  case function =>
    obtain rfl := Option.some.inj hb
    simp only [script?] at h
    split at h
    case h_1 => contradiction
    case h_2 =>
      obtain ⟨bs, hb, _⟩ := bind_eq_ok.mp h
      exact ⟨_, bs, hb⟩
  case event =>
    obtain rfl := Option.some.inj hb
    obtain ⟨bs, hb, _⟩ := bind_eq_ok.mp h
    exact ⟨_, bs, hb⟩
  all_goals contradiction

theorem not_misplaces_of_ofTree {sprite : Sprite} {body : List Stmt}
    (h : ofTree vocabulary name symbols tree = .ok sprite) (hd : d ∈ tree)
    (hm : d.RunsOn m calls) (hb : d.body? = some body) : ¬Stmt.Misplaces body := by
  have ⟨_, hd⟩ := script?_of_ofTree h hd
  have ⟨_, _, hs⟩ := stack_of_script? hd hb
  exact Stmt.not_misplaces (Decl.RunsOn.body hm hb) hs

-- Whatever runs forever closes its stack. If something follows it in the source, then there is no
-- sprite, and if there is one, then nothing follows it in any stack.
theorem forever_closes (ht : SpriteTree.ofSource text = .ok tree)
    (hs : Symbols.ofTree source root globals tree = .ok symbols)
    (he : SpriteTree.expandMacros symbols tree = .ok tree') :
    (∀ sprite, ofTree .builtin name symbols tree' = .ok sprite →
      ∀ b ∈ sprite.blocks, ∀ bs ∈ b.allStacks, Block.Closes bs) ∧
    ∀ d ∈ tree', ∀ body ∈ d.body?, Stmt.Misplaces body →
      ∃ e, ofTree .builtin name symbols tree' = .error e := by
  refine ⟨fun _ hb => closed_ofTree hb, fun d hd body hb hw => ?_⟩
  have ⟨ts, _, hm⟩ := SpriteTree.madeOf_ofSource ht
  have hr := (SpriteTree.yields_expandMacros (Symbols.ofTree_macros hs) hm).value he
  cases ho : ofTree .builtin name symbols tree'
  case error e => exact ⟨e, rfl⟩
  case ok => exact absurd hw (not_misplaces_of_ofTree ho hd (hr d hd) hb)

-- A macro runs forever. It is called in a branch of a chain, where something may follow the call.
def spinSource (after : String) : String :=
  "macro SPIN n \x7b forever \x7b move n!; \x7d \x7d\n" ++
  "onflag \x7b x = 1; if x \x7b show; \x7d elif x \x7b SPIN!(3);" ++ after ++ " \x7d \x7d\n"

theorem forever_closes_spinSource :
    (∃ tree s tree' sprite, SpriteTree.ofSource (spinSource "") = .ok tree ∧
      Symbols.ofTree MemoryTree.empty.source ⟨"p"⟩ .none tree = .ok s ∧
      SpriteTree.expandMacros s tree = .ok tree' ∧
      ofTree .builtin "cat" s tree' = .ok sprite ∧
      (sprite.blocks.map fun b => b.allStacks.map fun bs => bs.map (·.opcode)) =
        [[["data_setvariableto", "control_if_else"], ["looks_show"], ["control_if"],
          ["control_forever"], ["motion_movesteps"]]] ∧
      ∀ b ∈ sprite.blocks, ∀ bs ∈ b.allStacks, Block.Closes bs) ∧
    ∃ tree s tree' e, SpriteTree.ofSource (spinSource " hide;") = .ok tree ∧
      Symbols.ofTree MemoryTree.empty.source ⟨"p"⟩ .none tree = .ok s ∧
      SpriteTree.expandMacros s tree = .ok tree' ∧
      ofTree .builtin "cat" s tree' = .error e := by
  constructor
  case left =>
    have h : (do
        let tree ← SpriteTree.ofSource (spinSource "")
        let s ← Symbols.ofTree MemoryTree.empty.source ⟨"p"⟩ .none tree
        let tree' ← SpriteTree.expandMacros s tree
        let sprite ← ofTree .builtin "cat" s tree'
        return sprite.blocks.map fun b => b.allStacks.map fun bs => bs.map (·.opcode)) =
        (.ok [[["data_setvariableto", "control_if_else"], ["looks_show"], ["control_if"],
          ["control_forever"], ["motion_movesteps"]]] : Except Diagnostic _) := by
      decide +kernel
    simp only [bind_eq_ok, pure_eq_ok] at h
    obtain ⟨tree, ht, s, hs, tree', he, sprite, hb, ho⟩ := h
    exact ⟨tree, s, tree', sprite, ht, hs, he, hb, ho, (forever_closes ht hs he).1 sprite hb⟩
  case right =>
    have h : (do
        let tree ← SpriteTree.ofSource (spinSource " hide;")
        let s ← Symbols.ofTree MemoryTree.empty.source ⟨"p"⟩ .none tree
        let tree' ← SpriteTree.expandMacros s tree
        return tree'.any fun d => (d.body?.getD []).any fun s => s.bodies.any fun ss =>
          ss.dropLast.any Stmt.isForever) = (.ok true : Except Diagnostic _) := by
      decide +kernel
    simp only [bind_eq_ok, pure_eq_ok, List.any_eq_true] at h
    obtain ⟨tree, ht, s, hs, tree', he, d, hd, _, hb, ss, hss, _, hf⟩ := h
    have hm : Stmt.Misplaces (d.body?.getD []) :=
      .within hb hss (Stmt.misplaces_of_dropLast hf.1 hf.2)
    cases ho : d.body?
    case none => simp [ho] at hb
    case some body =>
      rw [ho] at hm
      obtain ⟨e, hb⟩ : ∃ e, ofTree .builtin "cat" s tree' = .error e :=
        (forever_closes ht hs he).2 d hd body ho hm
      exact ⟨tree, s, tree', e, ht, hs, he, hb⟩

end Sprite

end BlockLang
