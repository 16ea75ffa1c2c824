import BlockLang.Files.Memory
import BlockLang.Project.Compile
import BlockLang.Proofs.Sprite.Blame
import BlockLang.Proofs.Symbols.Blame

/-!
Whatever is wrong with a source text is reported at a place in it. A token starts there, if the text
consists of tokens at all. No fault of the compiler is ever reported.
-/

namespace BlockLang

variable {source : FileSource} {root : Path} {globals : Globals} {name text : String}
  {ts : List Token} {d : Diagnostic}

namespace Sprite

-- The sprite that a source text makes up, whether it has costumes or not.
def ofSource (source : FileSource) (root : Path) (globals : Globals) (name text : String) :
    Except Diagnostic Sprite := do
  let tree ← SpriteTree.ofSource text
  let symbols ← Symbols.ofTree source root globals tree
  let tree ← SpriteTree.expandMacros symbols tree
  ofTree .builtin name symbols tree

theorem explains_ofSource (h : Token.ofSource text = .ok ts) :
    (Material.ofTokens ts).Explains (ofSource source root globals name text) := by
  refine (SpriteTree.yields_ofSource h).bind fun tree hd => ?_
  refine (Symbols.explains_ofTree (fun _ => id) hd).withEq.bind fun s ⟨hs, _⟩ => ?_
  have hm := Symbols.ofTree_macros hs
  refine (SpriteTree.yields_expandMacros hm hd).withEq.bind fun tree' ⟨he, hr⟩ => ?_
  refine explains_ofTree Vocabulary.builtin_complete (fun _ => id) (fun f hf => ?_) hr
  rw [SpriteTree.functions_expandMacros he] at hf
  have ⟨_, locals, hk⟩ := Symbols.getElem?_functions hs hf
  exact Std.TreeMap.mem_iff_isSome_getElem?.mpr (by simp [hk])

theorem ofSource_error (h : ofSource source root globals name text = .error d) :
    ∃ s, d.site = .span s none ∧ s.position.IsIn text.toList ∧
      (∀ ts, Token.ofSource text = .ok ts → ∃ t ∈ ts, t.span.position = s.position) ∧
      d.fault.isInternal = false ∧ d.message ∉ Fault.impossible := by
  cases ht : Token.ofSource text
  case error e =>
    have ⟨hp, hf⟩ := Token.yields_ofSource.fault ht
    have hs : SpriteTree.ofSource text = .error (.ofSyntax e) := by simp [SpriteTree.ofSource, ht]
    have hd : d = .ofSyntax e := by
      simp only [ofSource, hs] at h
      exact (Except.error.inj h).symm
    subst hd
    exact ⟨e.span, rfl, hp, nofun, hf, Fault.message_not_mem_impossible hf⟩
  case ok ts =>
    have ⟨⟨s, hs, t, hm, hp⟩, hf⟩ := (explains_ofSource ht).fault h
    have hi : s.position.IsIn text.toList := hp ▸ (Token.yields_ofSource.value ht).1 t hm
    refine ⟨s, hs, hi, ?_, hf, Fault.message_not_mem_impossible hf⟩
    intro ts' he
    obtain rfl := Except.ok.inj he
    exact ⟨t, hm, hp⟩

-- The name in the body of the macro is not known. It is reported where it stands.
def strayName : String :=
  "macro TWICE x -> x! * y;\n" ++
  "onflag \x7b say TWICE!(3); \x7d\n"

theorem ofSource_error_strayName : ∃ d,
    ofSource MemoryTree.empty.source ⟨"p"⟩ .none "cat" strayName = .error d ∧
    d.fault = .undefinedIdentifier "y" ∧ d.site = .span ⟨1, 23, 1⟩ none ∧
    ∃ s, d.site = .span s none ∧ s.position.IsIn strayName.toList ∧
      (∀ ts, Token.ofSource strayName = .ok ts → ∃ t ∈ ts, t.span.position = s.position) ∧
      d.fault.isInternal = false ∧ d.message ∉ Fault.impossible := by
  have h : (match ofSource MemoryTree.empty.source ⟨"p"⟩ .none "cat" strayName with
      | .error d => some (d.fault, d.site)
      | .ok _ => none) = some (.undefinedIdentifier "y", .span ⟨1, 23, 1⟩ none) := by
    decide +kernel
  split at h
  case h_1 d hd =>
    have ⟨hf, hs⟩ := Prod.mk.inj (Option.some.inj h)
    exact ⟨d, hd, hf, hs, ofSource_error hd⟩
  case h_2 => contradiction

end Sprite

-- A project is compiled from such sprites. All that is asked of them besides is a costume.
theorem Project.ofSource_of_compileText (h : compileText source root name globals text = .error d) :
    d = .file .noCostumes (some "Add a costumes statement") ∨
      Sprite.ofSource source root globals name text = .error d := by
  simp only [compileText, bind_eq_error] at h
  simp only [Sprite.ofSource, bind_eq_error]
  obtain ht | ⟨tree, ht, hs | ⟨s, hs, h⟩⟩ := h
  · exact .inr (.inl ht)
  · exact .inr (.inr ⟨tree, ht, .inl hs⟩)
  split at h
  case isTrue => exact .inl (Except.error.inj h).symm
  case isFalse =>
    obtain he | ⟨tree', he, h | ⟨_, _, h⟩⟩ := by simpa only [bind_eq_error] using h
    · exact .inr (.inr ⟨tree, ht, .inr ⟨s, hs, .inl he⟩⟩)
    · exact .inr (.inr ⟨tree, ht, .inr ⟨s, hs, .inr ⟨tree', he, h⟩⟩⟩)
    · exact absurd h pure_ne_error

end BlockLang
