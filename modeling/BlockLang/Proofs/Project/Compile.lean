import BlockLang.Project.Compile
import BlockLang.Proofs.Block.Refs
import BlockLang.Proofs.Project.Document
import BlockLang.Proofs.Sprite.Basic
import BlockLang.Proofs.Sprite.Scope
import BlockLang.Proofs.Tree.Parser.Decl

/-!
The steps that a project is compiled in. All scripts of a compiled project are tidy, and all that
their blocks refer to is there.
-/

namespace BlockLang

namespace Progress

variable {ε α β : Type}

theorem result_bind {x : Progress ε α} {f : α → Progress ε β} :
    (x >>= f).result = x.result >>= fun a => (f a).result := by
  change (x.andThen f).result = _
  unfold andThen
  split
  case h_1 h => simp [h, bind, Except.bind]
  case h_2 h => simp [h, bind, Except.bind]

@[simp]
theorem result_bind_eq_ok {x : Progress ε α} {f : α → Progress ε β} {b : β} :
    (x >>= f).result = .ok b ↔ ∃ a, x.result = .ok a ∧ (f a).result = .ok b := by
  rw [result_bind]
  exact bind_eq_ok

@[simp]
theorem result_pure_eq_ok {a b : α} : (pure a : Progress ε α).result = .ok b ↔ a = b :=
  pure_eq_ok

@[simp]
theorem result_ofExcept {x : Except ε α} : (ofExcept x).result = x := rfl

@[simp]
theorem result_report {number total : Nat} {label : String} :
    (report number total label : Progress ε Unit).result = .ok () := rfl

end Progress

-- A sprite with the tree and the names that it has been compiled from.
structure Compiled (source : FileSource) (root : Path) (globals : Globals) (tree : SpriteTree)
    (symbols : Symbols) (s : Sprite) : Prop where
  parsed    : ∃ text, SpriteTree.ofSource text = .ok tree
  collected : Symbols.ofTree source root globals tree = .ok symbols
  scripts   : ∃ tree' scripts, SpriteTree.expandMacros symbols tree = .ok tree' ∧
    tree'.mapM (Sprite.script? .builtin symbols) = .ok scripts ∧
    s.blocks = Layout.arrange (scripts.filterMap id)
  vars      : s.vars = symbols.vars
  lists     : s.lists = symbols.lists

namespace Project

variable {source : FileSource} {root : Path} {name : String} {file : Path}
  {globals globals' : Globals} {s : Sprite} {p : Project}

theorem compiled_of_compileFile
    (h : compileFile source root name file globals = .ok (s, globals')) :
    ∃ tree symbols, Compiled source root globals tree symbols s ∧ globals' = .ofStage symbols := by
  obtain ⟨m, _, h⟩ := bind_eq_ok.mp h
  have h := mapError_eq_ok.mp h
  obtain ⟨tree, ht, h⟩ := bind_eq_ok.mp h
  obtain ⟨symbols, hs, h⟩ := bind_eq_ok.mp h
  split at h
  · contradiction
  obtain ⟨tree', he, h⟩ := bind_eq_ok.mp h
  obtain ⟨s', hs', h⟩ := bind_eq_ok.mp h
  obtain ⟨rfl, rfl⟩ := Prod.mk.inj (pure_eq_ok.mp h)
  obtain ⟨scripts, hm, hs'⟩ := bind_eq_ok.mp hs'
  obtain rfl := pure_eq_ok.mp hs'
  exact ⟨tree, symbols, ⟨⟨_, ht⟩, hs, ⟨tree', scripts, he, hm, rfl⟩, rfl, rfl⟩, rfl⟩

theorem compiled_of_compileSprites {total number : Nat} {files : List (String × Path)}
    {sprites : List Sprite}
    (h : (compileSprites source root globals total number files).result = .ok sprites) :
    ∀ s ∈ sprites, ∃ tree symbols, Compiled source root globals tree symbols s := by
  induction files generalizing number sprites
  case nil =>
    obtain rfl := pure_eq_ok.mp h
    simp
  case cons f fs hi =>
    simp only [compileSprites, Progress.result_bind_eq_ok, Progress.result_pure_eq_ok,
      Progress.result_ofExcept] at h
    have ⟨_, _, ⟨s, _⟩, hs, sprites', hss, he⟩ := h
    have ⟨tree, symbols, hc, _⟩ := compiled_of_compileFile hs
    exact he ▸ List.forall_mem_cons.mpr ⟨⟨tree, symbols, hc⟩, hi hss⟩

-- The names of the stage are known to all sprites.
theorem compiled_of_compile (h : (compile source root).result = .ok p) :
    ∃ tree symbols, Compiled source root .none tree symbols p.stage ∧
      ∀ s ∈ p.sprites, ∃ tree symbols',
        Compiled source root (.ofStage symbols) tree symbols' s := by
  simp only [compile, Progress.result_bind_eq_ok, Progress.result_pure_eq_ok,
    Progress.result_ofExcept] at h
  have ⟨_, _, _, _, ⟨stage, globals⟩, hs, sprites, hss, he⟩ := h
  have ⟨tree, symbols, hc, hg⟩ := compiled_of_compileFile hs
  subst he hg
  exact ⟨tree, symbols, hc, compiled_of_compileSprites hss⟩

-- The shared names are those of variables and lists of the stage.
def Shares (globals : Globals) (stage : Sprite) : Prop :=
  (∀ v ∈ globals.vars, v ∈ stage.vars) ∧ ∀ l ∈ globals.lists, l ∈ stage.lists

theorem shares_ofStage {stage : Sprite} {tree : SpriteTree} {symbols : Symbols}
    (h : Compiled source root globals tree symbols stage) : Shares (.ofStage symbols) stage := by
  rw [Shares, h.vars, h.lists]
  exact ⟨fun v hv => Std.TreeMap.mem_keys.mp (List.mem_of_mem_filter hv),
    fun l hl => Std.TreeMap.mem_keys.mp (List.mem_of_mem_filter hl)⟩

theorem compiled_of_mem_targets (h : (compile source root).result = .ok p) (hs : s ∈ p.targets) :
    ∃ globals tree symbols, Compiled source root globals tree symbols s ∧
      Shares globals p.stage := by
  have ⟨tree, symbols, hc, hss⟩ := compiled_of_compile h
  cases List.mem_cons.mp hs
  case inl he => exact ⟨_, tree, symbols, he ▸ hc, by simp [Shares, Globals.none]⟩
  case inr hs =>
    have ⟨tree, symbols, hc'⟩ := hss s hs
    exact ⟨_, tree, symbols, hc', shares_ofStage hc⟩

-- A stage with a variable, and a sprite whose function has a parameter and a local variable.
def sampleFiles : FileSource where
  readBytes file :=
    if file.text = "p/stage.gs" then
      .ok "costumes \"a\";\nvariables n;\nonflag \x7b n = 1; n = 2; \x7d\n".toUTF8
    else if file.text = "p/cat.gs" then
      .ok ("costumes \"a\";\ndef f k \x7b local m = $k; if m \x7b n = m; \x7d \x7d\n" ++
        "onflag \x7b f 2; # two\n \x7d\n").toUTF8
    else .error (.absent file)
  isFile file := ["p/stage.gs", "p/cat.gs", "p/a"].contains file.text
  isDir file := file.text = "p"
  listDir _ := .ok [⟨"p/cat.gs"⟩, ⟨"p/stage.gs"⟩]
  walk _ := .ok []
  nesting := 3

-- What the blocks of the two targets refer to.
def sampleRefs : List (List Ref) :=
  [[.var "n", .var "n"], [.var "f:m", .param "k", .var "f:m", .var "n", .var "f:m"]]

theorem compile_sampleFiles :
    (compile sampleFiles ⟨"p"⟩).result.toOption.map (fun p => p.targets.map fun s =>
      (Block.countAll s.blocks, Block.refsAll s.blocks)) = some ([3, 11].zip sampleRefs) := by
  decide +kernel

theorem exists_compile_sampleFiles : ∃ p, (compile sampleFiles ⟨"p"⟩).result = .ok p ∧
    p.targets.map (fun s => Block.countAll s.blocks) = [3, 11] ∧
    p.targets.map (fun s => Block.refsAll s.blocks) = sampleRefs := by
  have h := compile_sampleFiles
  cases hp : (compile sampleFiles ⟨"p"⟩).result
  case error e => simp [hp, Except.toOption] at h
  case ok p =>
    have h : p.targets.map (fun s => (Block.countAll s.blocks, Block.refsAll s.blocks)) =
        [3, 11].zip sampleRefs := by simpa [hp, Except.toOption] using h
    have hc := congrArg (List.map Prod.fst) h
    have hr := congrArg (List.map Prod.snd) h
    exact ⟨p, rfl, by simpa [Function.comp_def, sampleRefs] using hc,
      by simpa [Function.comp_def, sampleRefs] using hr⟩

end Project

namespace Compiled

variable {source : FileSource} {root : Path} {globals : Globals} {tree : SpriteTree}
  {symbols : Symbols} {s : Sprite} {b : Block}

-- The script of a sprite is that of a declaration, but for its place.
theorem script_of_mem (h : Compiled source root globals tree symbols s) (hb : b ∈ s.blocks) :
    ∃ tree' d b', SpriteTree.expandMacros symbols tree = .ok tree' ∧ d ∈ tree' ∧
      Sprite.Script .builtin symbols d b' ∧ Layout.Placed b' b := by
  have ⟨tree', scripts, he, hm, ha⟩ := h.scripts
  have hp : List.Forall₂ Layout.Placed (scripts.filterMap id) s.blocks :=
    ha ▸ Layout.forall₂_arrange
  have ⟨b', hb', hp⟩ := mem_of_forall₂ hp hb
  have hb' : some b' ∈ scripts := by simpa using hb'
  have ⟨d, hd, hs⟩ := mem_of_mapM hm hb'
  exact ⟨tree', d, b', he, hd, Sprite.script_of_script? hs, hp⟩

-- No name in the sprite has a colon in it, also not once the macros are expanded.
theorem names_tree (h : Compiled source root globals tree symbols s) :
    ∀ d ∈ tree, ∀ n ∈ d.names, isLocalName n = false :=
  have ⟨_, ht⟩ := h.parsed
  SpriteTree.names_ofSource ht

theorem keeps_expansion (h : Compiled source root globals tree symbols s) :
    (SpriteTree.expansion symbols).Keeps fun n => isLocalName n = false := by
  apply SpriteTree.keeps_expansion
  intro _ _ hm
  have ⟨_, _, hd⟩ := (Symbols.ofTree_macros h.collected).exprs hm
  exact h.names_tree _ hd

theorem names_expands (h : Compiled source root globals tree symbols s) {body body' : List Stmt}
    (he : SpriteTree.Expands symbols body body')
    (hn : ∀ n ∈ Stmt.namesAll body, isLocalName n = false) :
    ∀ n ∈ Stmt.namesAll body', isLocalName n = false := by
  refine he.names h.keeps_expansion (fun hm => ?_) hn
  have ⟨_, _, hd⟩ := (Symbols.ofTree_macros h.collected).blocks hm
  exact h.names_tree _ hd

-- A script is tidy, and refers to what the function can that it defines, if it defines one.
theorem tidyScript (h : Compiled source root globals tree symbols s) (hb : b ∈ s.blocks) :
    ∃ function, (∀ f ∈ function, b.definition? =
        some (f.name.text ++ Function.placeholders f.params.length, f.params.map (·.text))) ∧
      b.TidyScript (symbols.Resolves function) := by
  have ⟨tree', d, b', he, hd, hs, hp⟩ := h.script_of_mem hb
  have hpr := Symbols.ofTree_proper h.collected
  cases hs
  case function name params body warp f bs hf hb =>
    have ⟨body', hd, he⟩ := SpriteTree.function_of_expandMacros he hd
    have ⟨hn, hns⟩ := List.forall_mem_cons.mp (h.names_tree _ hd)
    have ⟨hps, hf'⟩ := Symbols.ofTree_function h.collected hd
    have hfe := Option.some.inj (hf.symm.trans hf')
    have hs : Scope.Declared ⟨symbols, .builtin, some f⟩ := {
      proper   := hpr
      neat     := Vocabulary.builtin_neat
      function := fun g hg => by
        obtain rfl := Option.some.inj hg
        subst hfe
        exact ⟨hf, hn⟩
    }
    refine ⟨some f, fun g hg => ?_, hp.tidyScript ?_⟩
    · obtain rfl := Option.some.inj hg
      subst hfe
      exact hp.definition?.trans Block.definition?_definition
    · have hl := hs.binds_expands (by rw [hfe]) he
      exact Sprite.tidyScript_definition hs.sound (h.names_expands he hns) hl hps hb
  case event span event body bs b hb he' =>
    have ⟨event', body', hd, hev, he⟩ := SpriteTree.event_of_expandMacros he hd
    have ⟨hn, hns⟩ := List.forall_mem_append.mp (h.names_tree _ hd)
    have hs : Scope.Declared ⟨symbols, .builtin, none⟩ := ⟨hpr, Vocabulary.builtin_neat, nofun⟩
    have hl : Scope.Binds (fun n => isLocalName n = false) (symbols.Resolves none)
        ⟨symbols, .builtin, none⟩ (Mention.ofBody Mention.enterNone body) := nofun
    exact ⟨none, nofun, hp.tidyScript (Sprite.tidyScript_event hs.sound
      (Event.names_substitute h.keeps_expansion hev hn) (h.names_expands he hns) hl hb he')⟩

end Compiled

-- What holds of the documents of tidy scripts holds of all targets of a compiled project.
theorem Project.forall₂_targets_of_compile {P : Sprite → Document → Prop} {source : FileSource}
    {root : Path} {p : Project} (h : (compile source root).result = .ok p)
    (costumes : List (List Costume))
    (hP : ∀ {s target}, (∀ b ∈ s.blocks, b.TidyScript fun _ => True) → Target s target →
      P s target) : List.Forall₂ P p.targets (p.document costumes).targets := by
  have ht : List.Forall₂ Target p.targets (p.document costumes).targets := forall₂_targets_document
  have ⟨hl, ht⟩ := List.forall₂_iff_zip.mp ht
  refine List.forall₂_iff_zip.mpr ⟨hl, fun {s t} hz => ?_⟩
  have ⟨_, _, _, hc, _⟩ := compiled_of_mem_targets h (List.of_mem_zip hz).1
  refine hP (fun b hb => ?_) (ht hz)
  have ⟨_, _, hb⟩ := hc.tidyScript hb
  exact hb.mono fun _ _ => trivial

-- What the blocks of a script of a sprite refer to.
structure Block.RefersWithin (s stage : Sprite) (b : Block) : Prop where
  vars   : ∀ {v}, .var v ∈ b.refs → v ∈ s.vars ∨ v ∈ stage.vars
  lists  : ∀ {l}, .list l ∈ b.refs → l ∈ s.lists ∨ l ∈ stage.lists
  locals : ∀ {f x}, .var (localName f x) ∈ b.refs →
    ∃ params, b.definition? = some (f ++ Function.placeholders params.length, params)
  params : ∀ {p}, .param p ∈ b.refs →
    ∃ code params, b.definition? = some (code, params) ∧ p ∈ params

namespace Project

theorem refersWithin_of_compile {source : FileSource} {root : Path} {p : Project}
    (h : (compile source root).result = .ok p) :
    ∀ s ∈ p.targets, ∀ b ∈ s.blocks, b.RefersWithin s p.stage := by
  intro s hs b hb
  have ⟨globals, tree, symbols, hc, hg, hg'⟩ := compiled_of_mem_targets h hs
  have ⟨function, hf, ht⟩ := hc.tidyScript hb
  have hr := ht.forall_refs
  have he := Symbols.ofTree_globals hc.collected
  refine ⟨fun hv => ?_, fun hl => ?_, fun hv => ?_, fun hp => ?_⟩
  · exact (hr _ hv).1.imp (hc.vars ▸ id) (he ▸ hg _)
  · exact (hr _ hl).imp (hc.lists ▸ id) (he ▸ hg' _)
  · have ⟨f', hf', hn, x', hx, he⟩ := (hr _ hv).2 isLocalName_localName
    obtain rfl := localName_inj hn hx he
    exact ⟨f'.params.map (·.text), by simpa using hf f' hf'⟩
  · have ⟨f', hf', hp⟩ := hr _ hp
    exact ⟨_, _, hf f' hf', hp⟩

theorem refersWithin_of_compile_sampleFiles :
    ∃ p, (compile sampleFiles ⟨"p"⟩).result = .ok p ∧
      p.targets.map (fun s => Block.refsAll s.blocks) = sampleRefs ∧
      ∀ s ∈ p.targets, ∀ b ∈ s.blocks, b.RefersWithin s p.stage :=
  have ⟨p, hp, _, hr⟩ := exists_compile_sampleFiles
  ⟨p, hp, hr, refersWithin_of_compile hp⟩

end Project

end BlockLang
