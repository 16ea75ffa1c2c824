import BlockLang.Sprite.Basic
import BlockLang.Proofs.Block.Layout
import BlockLang.Proofs.Block.Refs
import BlockLang.Proofs.Sprite.Script

/-!
Declarations stand for tidy scripts.
-/

namespace BlockLang

variable {P : String → Prop} {R : Ref → Prop} {scope : Scope} {body : List Stmt} {b : Block}
  {bs : List Block} {span : Span} {enter : Mention.Enter}

theorem Stmt.allTidy_stack (h : scope.Sound P R) (hn : ∀ n ∈ Stmt.namesAll body, P n)
    (hl : scope.Binds P R (Mention.ofBody enter body))
    (hb : Stmt.stack scope body = .ok bs) : Block.AllTidy R bs := by
  have ⟨_, hs, hs'⟩ := bind_eq_ok.mp hb
  exact Block.stacked_eq_ok hs' ▸ Stmt.allTidy_allBlocks h hn hs hl

namespace Sprite

variable {vocabulary : Vocabulary} {symbols : Symbols}

-- The script of a declaration: that of a function or that of an event.
inductive Script (vocabulary : Vocabulary) (symbols : Symbols) : Decl → Block → Prop
  | function {name params body warp f bs} (hf : symbols.functions[name.text]? = some f)
      (hb : Stmt.stack ⟨symbols, vocabulary, some f⟩ body = .ok bs) :
      Script vocabulary symbols (.function name params body warp)
        ((Block.definition f.code f.warp (params.map (·.text)) bs).writtenAt name.span)
  | event {s event body bs b} (hb : Stmt.stack ⟨symbols, vocabulary, none⟩ body = .ok bs)
      (he : event.hat ⟨symbols, vocabulary, none⟩ bs = .ok b) :
      Script vocabulary symbols (.event s event body) (b.writtenAt s)

theorem script_of_script? {d : Decl} (h : script? vocabulary symbols d = .ok (some b)) :
    Script vocabulary symbols d b := by
  cases d
  case function name params body warp =>
    simp only [script?] at h
    split at h
    case h_1 => contradiction
    case h_2 f hf =>
      obtain ⟨_, hb, h⟩ := bind_eq_ok.mp h
      exact Option.some.inj (pure_eq_ok.mp h) ▸ .function hf hb
  case event s event body =>
    obtain ⟨_, hb, h⟩ := bind_eq_ok.mp h
    obtain ⟨_, he, h⟩ := bind_eq_ok.mp h
    exact Option.some.inj (pure_eq_ok.mp h) ▸ .event hb he
  all_goals simp [script?] at h

theorem script?_of_ofTree {name : String} {tree : SpriteTree} {sprite : Sprite} {d : Decl}
    (h : ofTree vocabulary name symbols tree = .ok sprite) (hd : d ∈ tree) :
    ∃ o, script? vocabulary symbols d = .ok o := by
  obtain ⟨_, hs, _⟩ := bind_eq_ok.mp h
  obtain ⟨o, _, ho⟩ := mem_of_forall₂ (forall₂_of_mapM hs).flip hd
  exact ⟨o, ho⟩

theorem tidyScript_definition {f : Function} {params : List String} (h : scope.Sound P R)
    (hn : ∀ n ∈ Stmt.namesAll body, P n)
    (hl : scope.Binds P R (Mention.ofBody enter body)) (hp : params.Nodup)
    (hb : Stmt.stack scope body = .ok bs) :
    ((Block.definition f.code f.warp params bs).writtenAt span).TidyScript R :=
  (Block.tidyScript_definition hp (Stmt.allTidy_stack h hn hl hb)).congr rfl rfl rfl

theorem tidyScript_event {event : Event} (h : scope.Sound P R) (hn : ∀ n ∈ event.names, P n)
    (hn' : ∀ n ∈ Stmt.namesAll body, P n)
    (hl : scope.Binds P R (Mention.ofBody enter body)) (hb : Stmt.stack scope body = .ok bs)
    (he : event.hat scope bs = .ok b) : (b.writtenAt span).TidyScript R :=
  (Event.tidyScript_hat h hn he (Stmt.allTidy_stack h hn' hl hb)).congr rfl rfl rfl

end Sprite

namespace Layout

theorem Placed.tidyScript {b' : Block} (h : Placed b b') (ht : b.TidyScript R) :
    b'.TidyScript R := by
  cases h
  case hat body p place hb =>
    have ⟨body', p', hk, hs⟩ := ht.body
    obtain ⟨rfl, _⟩ := BlockKind.hat.inj (hb.symm.trans hk)
    exact ⟨ht.named.congr rfl rfl, ⟨body, place, rfl, hs⟩, ht.inputs⟩
  case other => exact ht

theorem Placed.definition? {b' : Block} (h : Placed b b') : b'.definition? = b.definition? := by
  cases h <;> rfl

end Layout

end BlockLang
