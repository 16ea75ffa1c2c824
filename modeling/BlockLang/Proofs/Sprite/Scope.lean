import BlockLang.Sprite.Scope
import BlockLang.Symbols.Mention
import BlockLang.Proofs.Block.Tidy
import BlockLang.Proofs.Except
import BlockLang.Proofs.Lookup
import BlockLang.Proofs.Macro.Mention
import BlockLang.Proofs.Symbols.Collect

/-!
Scopes in which tidy blocks are built, and what names without colons are resolved to in them. The
vocabulary of the language is neat.
-/

namespace BlockLang

-- The blocks of a prototype have inputs and fields of different names, and its fields do not refer
-- to anything.
structure Prototype.Neat (p : Prototype) : Prop where
  inputs : (p.params ++ p.inputs.map (·.1)).Nodup
  fields : (p.fields.map (·.1)).Nodup
  texts  : ∀ f ∈ p.fields, f.1 ≠ "VARIABLE" ∧ f.1 ≠ "LIST"

structure Vocabulary.Neat (v : Vocabulary) : Prop where
  statements : ∀ {name : String} {p : Prototype}, v.statements[name]? = some p → p.Neat
  reporters  : ∀ {name : String} {p : Prototype}, v.reporters[name]? = some p → p.Neat

-- What is referred to.
def Reference.ref : Reference → Ref
  | var name => .var name
  | list name => .list name

-- All that scripts can refer to in a scope by names that satisfy `P`, other than the local
-- variables that they declare, satisfies `R`.
structure Scope.Sound (P : String → Prop) (R : Ref → Prop) (scope : Scope) : Prop where
  vocabulary : scope.vocabulary.Neat
  resolved   : ∀ {name r}, P name → scope.lookup? name = some r → R r.ref
  params     : ∀ {f}, scope.function = some f → ∀ p ∈ f.params, R (.param p.text)
  calls      : ∀ {name : String} {f : Function}, scope.symbols.functions[name]? = some f →
    (f.params.map (·.text)).Nodup

-- The local variables that are mentioned by names that satisfy `P` satisfy `R`.
def Scope.Binds (P : String → Prop) (R : Ref → Prop) (scope : Scope) (ms : List Mention) : Prop :=
  ∀ f, scope.function = some f → ∀ name, .ownLocal name ∈ ms → P name.text →
    R (.var (localName f.name.text name.text))

variable {P : String → Prop} {R : Ref → Prop} {scope : Scope} {name : Name} {p : Prototype}
  {args : List Input}

@[simp]
theorem Scope.binds_append {ms ms' : List Mention} :
    scope.Binds P R (ms ++ ms') ↔ scope.Binds P R ms ∧ scope.Binds P R ms' := by
  refine ⟨fun h => ⟨?_, ?_⟩, fun ⟨h, h'⟩ f hf n hn => ?_⟩
  · exact fun f hf n hn => h f hf n (List.mem_append_left _ hn)
  · exact fun f hf n hn => h f hf n (List.mem_append_right _ hn)
  · cases List.mem_append.mp hn
    case inl hn => exact h f hf n hn
    case inr hn => exact h' f hf n hn

-- Pairs that are built from names use each name once.
theorem map_fst_zip_sublist {α β : Type} {as : List α} {bs : List β} :
    ((as.zip bs).map (·.1)).Sublist as := by
  induction as generalizing bs
  case nil => simp
  case cons a as hi =>
    cases bs
    case nil => simp
    case cons b bs => simpa using hi

namespace Block

theorem tidy_ofPrototype (hp : p.Neat) (ha : ∀ i ∈ args, i.Tidy R) :
    (ofPrototype p args).Tidy R := by
  refine tidy_iff.mpr ⟨⟨?_, ?_, fun f hf => ?_, fun f hf r hr => ?_⟩, ?_, ?_⟩
  · have hz : ((p.params.zip args).map (·.1)).Sublist p.params := map_fst_zip_sublist
    have hi := hp.inputs.sublist (hz.append_right (p.inputs.map (·.1)))
    simpa [ofPrototype, Function.comp_def] using hi
  · simpa [ofPrototype, Function.comp_def] using hp.fields
  · obtain ⟨f', _, rfl⟩ := List.mem_map.mp hf
    trivial
  · obtain ⟨f', hf', rfl⟩ := List.mem_map.mp hf
    simp [Field.ref?, hp.texts f' hf'] at hr
  · unfold ofPrototype
    split <;> simp [BlockKind.Inner]
  · refine Input.allTidy_append.mpr ⟨Input.allTidy_iff.mpr fun i hi => ?_,
      Input.allTidy_iff.mpr fun i hi => ?_⟩
    · exact ha _ (List.of_mem_zip hi).2
    · obtain ⟨_, _, rfl⟩ := List.mem_map.mp hi
      trivial

end Block

-- A variable or list that is found by its name is what the name stands for.
theorem Scope.resolve_of_scalar {v : String} (h : scope.scalar name = .ok v) :
    scope.resolve name = .ok (.var v) := by
  have ⟨r, hr, h⟩ := bind_eq_ok.mp h
  cases r
  case var => exact pure_eq_ok.mp h ▸ hr
  case list => contradiction

theorem Scope.resolve_of_list {l : String} (h : scope.list name = .ok l) :
    scope.resolve name = .ok (.list l) := by
  have ⟨r, hr, h⟩ := bind_eq_ok.mp h
  cases r
  case list => exact pure_eq_ok.mp h ▸ hr
  case var => contradiction

namespace Scope.Sound

theorem resolve (h : scope.Sound P R) (hn : P name.text) {r : Reference}
    (hr : scope.resolve name = .ok r) : R r.ref := by
  unfold Scope.resolve at hr
  split at hr
  case h_1 r' hl => exact Except.ok.inj hr ▸ h.resolved hn hl
  case h_2 => contradiction

end Scope.Sound

instance {p : Prototype} : Decidable p.Neat :=
  decidable_of_iff
    ((p.params ++ p.inputs.map (·.1)).Nodup ∧ (p.fields.map (·.1)).Nodup ∧
      ∀ f ∈ p.fields, f.1 ≠ "VARIABLE" ∧ f.1 ≠ "LIST")
    ⟨fun ⟨hi, hf, ht⟩ => ⟨hi, hf, ht⟩, fun ⟨hi, hf, ht⟩ => ⟨hi, hf, ht⟩⟩

theorem Vocabulary.builtin_neat : Vocabulary.builtin.Neat where
  statements {name p} h := by
    have hn : ∀ p ∈ Prototype.builtinStatements, p.Neat := by decide
    exact hn p (of_getElem?_table Prototype.name h).1
  reporters {name p} h := by
    have hn : ∀ p ∈ Prototype.builtinReporters, p.Neat := by decide
    exact hn p (of_getElem?_table Prototype.name h).1

-- What the script of a function can refer to, or that of an event. Names with a colon are those of
-- local variables of the function.
def Symbols.Resolves (s : Symbols) (function : Option Function) : Ref → Prop
  | .var v => (v ∈ s.vars ∨ v ∈ s.globals.vars) ∧ (isLocalName v →
      ∃ f ∈ function, isLocalName f.name.text = false ∧
        ∃ x, isLocalName x = false ∧ v = localName f.name.text x)
  | .list l => l ∈ s.lists ∨ l ∈ s.globals.lists
  | .param p => ∃ f ∈ function, p ∈ f.params.map (·.text)

-- The script is that of a function that is declared.
structure Scope.Declared (scope : Scope) : Prop where
  proper   : scope.symbols.Proper
  neat     : scope.vocabulary.Neat
  function : ∀ f ∈ scope.function,
    scope.symbols.functions[f.name.text]? = some f ∧ isLocalName f.name.text = false

namespace Scope.Declared

variable {scope : Scope} {name : String}

theorem resolves_local (h : scope.Declared) {f : Function} (hf : f ∈ scope.function)
    (hn : isLocalName name = false) (hv : localName f.name.text name ∈ scope.symbols.vars) :
    scope.symbols.Resolves scope.function (.var (localName f.name.text name)) :=
  ⟨.inl hv, fun _ => ⟨f, hf, (h.function f hf).2, name, hn, rfl⟩⟩

theorem resolves_lookup? (h : scope.Declared) (hn : isLocalName name = false) {r : Reference}
    (hr : scope.lookup? name = some r) : scope.symbols.Resolves scope.function r.ref := by
  unfold lookup? at hr
  have hl : ¬isLocalName name := by simp [hn]
  split at hr
  case h_1 f hf =>
    have ⟨hf, hc⟩ := Option.filter_eq_some_iff.mp hf
    obtain rfl := Option.some.inj hr
    have ⟨_, _, hv⟩ := h.proper _ _ (h.function f hf).1
    exact h.resolves_local hf hn (hv name (List.contains_iff_mem.mp hc))
  case h_2 =>
    dsimp only at hr
    split_ifs at hr with hv hl' hg hg' <;> obtain rfl := Option.some.inj hr
    · exact ⟨.inl (Std.TreeMap.contains_iff_mem.mp hv), fun hc => absurd hc hl⟩
    · exact .inl (Std.TreeMap.contains_iff_mem.mp hl')
    · exact ⟨.inr (List.contains_iff_mem.mp hg), fun hc => absurd hc hl⟩
    · exact .inr (List.contains_iff_mem.mp hg')

-- The local variables of a function have been declared before its macros were expanded.
theorem binds_expands {symbols : Symbols} {vocabulary : Vocabulary} {f : Function}
    {body body' : List Stmt} (h : Scope.Declared ⟨symbols, vocabulary, some f⟩)
    (hl : f.locals = Mention.locals (Mention.all symbols.blockMacros body))
    (he : SpriteTree.Expands symbols body body') :
    Scope.Binds (fun n => isLocalName n = false) (symbols.Resolves (some f))
      ⟨symbols, vocabulary, some f⟩ (Mention.ofBody Mention.enterNone body') := by
  intro g hg name hm hn
  obtain rfl := Option.some.inj hg
  have hm : name.text ∈ f.locals := hl ▸ Symbols.mem_locals.mpr ⟨name, he.mentions ▸ hm, rfl⟩
  have ⟨_, _, hv⟩ := h.proper _ _ (h.function f rfl).1
  exact h.resolves_local rfl hn (hv _ hm)

end Scope.Declared

theorem Scope.Declared.sound {scope : Scope} (h : scope.Declared) :
    scope.Sound (fun n => isLocalName n = false) (scope.symbols.Resolves scope.function) where
  vocabulary := h.neat
  resolved hn hr := h.resolves_lookup? hn hr
  params hf _ hp := ⟨_, hf, List.mem_map_of_mem hp⟩
  calls hf := (h.proper _ _ hf).2.1

end BlockLang
